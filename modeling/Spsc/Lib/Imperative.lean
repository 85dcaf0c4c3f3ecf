import Mathlib.Data.List.Basic

/-! Counted loops and checked array access in an error monad. An access outside
its array is an error of the caller's choice, so a successful run shows that
every access it made was inside. -/
namespace Imperative

variable {ε σ α : Type}

def load (outside : ε) (array : List α) (index : Int) : Except ε α :=
  if 0 ≤ index then
    match array[index.toNat]? with
    | some value => .ok value
    | none => .error outside
  else .error outside

def store (outside : ε) (array : List α) (index : Int) (value : α) : Except ε (List α) :=
  if 0 ≤ index ∧ index < array.length then .ok (array.set index.toNat value)
  else .error outside

/-- `for (i = first; count more times; i++) body`. -/
def forLoop (body : Nat → σ → Except ε σ) : Nat → Nat → σ → Except ε σ
  | _, 0, state => .ok state
  | i, count+1, state => body i state >>= forLoop body (i+1) count

theorem load_inside (outside : ε) (array : List α) (i : Nat) (bound : i < array.length) :
    load outside array i = .ok array[i] := by
  simp [load,List.getElem?_eq_getElem bound]

theorem store_inside (outside : ε) (array : List α) (i : Nat) (value : α)
    (bound : i < array.length) : store outside array i value = .ok (array.set i value) := by
  simp [store,bound]

theorem store_ok (outside : ε) (array next : List α) (index : Int) (value : α)
    (ran : store outside array index value = .ok next) :
    0 ≤ index ∧ index < array.length ∧ next = array.set index.toNat value := by
  unfold store at ran
  split at ran
  · next inside => exact ⟨inside.1,inside.2,(Except.ok.inj ran).symm⟩
  · cases ran

theorem load_middle (outside : ε) (front rest : List α) (value : α) (i : Nat)
    (size : front.length = i) : load outside (front ++ value::rest) i = .ok value := by
  subst size
  rw [load_inside _ _ _ (by simp)]
  simp

theorem store_middle (outside : ε) (front rest : List α) (old value : α) (i : Nat)
    (size : front.length = i) :
    store outside (front ++ old::rest) i value = .ok (front ++ value::rest) := by
  subst size
  rw [store_inside _ _ _ _ (by simp)]
  simp

theorem bind_ok {β : Type} (first : Except ε α) (next : α → Except ε β) (result : β)
    (ok : (first >>= next) = .ok result) :
    ∃ value, first = .ok value ∧ next value = .ok result := by
  cases first with
  | error fault => simp [bind,Except.bind] at ok
  | ok value => exact ⟨value,rfl,ok⟩

theorem bind_error {β : Type} (first : Except ε α) (next : α → Except ε β) (fault : ε)
    (failed : (first >>= next) = .error fault) :
    first = .error fault ∨ ∃ value, first = .ok value ∧ next value = .error fault := by
  cases first with
  | error other =>
    cases failed
    exact .inl rfl
  | ok value => exact .inr ⟨value,rfl,failed⟩

theorem load_error (outside fault : ε) (array : List α) (index : Int)
    (failed : load outside array index = .error fault) : fault = outside := by
  unfold load at failed
  repeat' split at failed
  all_goals cases failed
  all_goals rfl

theorem store_error (outside fault : ε) (array : List α) (index : Int) (value : α)
    (failed : store outside array index value = .error fault) : fault = outside := by
  unfold store at failed
  split at failed
  all_goals cases failed
  rfl

theorem forLoop_closed (body : Nat → σ → Except ε σ) (states : Nat → σ) (first count : Nat)
    (step : ∀ i, first ≤ i → i < first+count → body i (states i) = .ok (states (i+1))) :
    forLoop body first count (states first) = .ok (states (first+count)) := by
  induction count generalizing first with
  | zero => rfl
  | succ count ih =>
    rw [forLoop,step first (by omega) (by omega)]
    have rest := ih (first+1) (fun i low high => step i (by omega) (by omega))
    rw [Nat.add_right_comm] at rest
    exact rest

theorem forLoop_append (body : Nat → σ → Except ε σ) (first count more : Nat) (state : σ) :
    forLoop body first (count+more) state = forLoop body first count state >>= forLoop body (first+count) more := by
  induction count generalizing first state with
  | zero =>
    rw [Nat.zero_add]
    rfl
  | succ count ih =>
    rw [Nat.add_right_comm,forLoop,forLoop]
    cases body first state with
    | error fault => rfl
    | ok next =>
      have rest := ih (first+1) next
      rw [(by omega : first+1+count = first+(count+1))] at rest
      exact rest

/-- The invariant rule: what one turn preserves, the loop preserves, and a loop
whose turns all succeed succeeds. -/
theorem forLoop_invariant (body : Nat → σ → Except ε σ) (inv : Nat → σ → Prop)
    (first count : Nat) (state : σ) (start : inv first state)
    (step : ∀ i s, first ≤ i → i < first+count → inv i s →
      ∃ t, body i s = .ok t ∧ inv (i+1) t) :
    ∃ final, forLoop body first count state = .ok final ∧ inv (first+count) final := by
  induction count generalizing first state with
  | zero => exact ⟨state,rfl,start⟩
  | succ count ih =>
    obtain ⟨next,ran,kept⟩ := step first state (by omega) (by omega) start
    obtain ⟨final,rest,done⟩ := ih (first+1) next kept
      (fun i s low high => step i s (by omega) (by omega))
    refine ⟨final,?_,by rwa [Nat.add_right_comm] at done⟩
    rw [forLoop,ran]
    exact rest

/-- What every turn that succeeds preserves, a loop that succeeds preserves. -/
theorem forLoop_kept (body : Nat → σ → Except ε σ) (inv : σ → Prop) (first count : Nat) (state final : σ)
    (step : ∀ i s t, inv s → body i s = .ok t → inv t) (start : inv state)
    (ran : forLoop body first count state = .ok final) : inv final := by
  induction count generalizing first state with
  | zero => exact Except.ok.inj ran ▸ start
  | succ count ih =>
    obtain ⟨next,turn,rest⟩ := bind_ok _ _ _ ran
    exact ih (first+1) next (step first state next start turn) rest

/-- Every turn of a loop that succeeds has succeeded. -/
theorem forLoop_turns (body : Nat → σ → Except ε σ) (first count : Nat) (state final : σ)
    (ran : forLoop body first count state = .ok final) (i : Nat) (low : first ≤ i) (high : i < first+count) :
    ∃ s t, body i s = .ok t := by
  induction count generalizing first state with
  | zero => omega
  | succ count ih =>
    obtain ⟨next,turn,rest⟩ := bind_ok _ _ _ ran
    rcases Nat.eq_or_lt_of_le low with rfl | later
    · exact ⟨state,next,turn⟩
    · exact ih (first+1) next rest later (by omega)

theorem forLoop_error (body : Nat → σ → Except ε σ) (outside : ε) (first count : Nat) (state : σ) (fault : ε)
    (turns : ∀ i s fault, body i s = .error fault → fault = outside)
    (failed : forLoop body first count state = .error fault) : fault = outside := by
  induction count generalizing first state with
  | zero => cases failed
  | succ count ih =>
    rcases bind_error _ _ _ failed with turn | ⟨next,_,rest⟩
    · exact turns first state fault turn
    · exact ih (first+1) next rest

theorem load_negative (outside : ε) (array : List α) (index : Int) (negative : index < 0) :
    load outside array index = .error outside := if_neg (by omega)

end Imperative
