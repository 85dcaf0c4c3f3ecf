import Mathlib.Data.List.Basic

/-! Runs of a labelled step relation. A run records each step it made as the
state before it and its label, so a property can be asked of every state it
visited and a condition of every step it took. -/
namespace Runs

variable {σ ι : Type}

inductive Run (step : σ → ι → σ → Prop) (start : σ) : List (σ × ι) → σ → Prop
  | nil : Run step start [] start
  | snoc (before label after trace) (run : Run step start trace before)
      (last : step before label after) : Run step start (trace ++ [(before,label)]) after

def Reachable (step : σ → ι → σ → Prop) (start final : σ) : Prop :=
  ∃ trace, Run step start trace final

/-- The property holds in every state the run visited, the last one included. -/
def Throughout (property : σ → Prop) (trace : List (σ × ι)) (final : σ) : Prop :=
  (∀ entry ∈ trace, property entry.1) ∧ property final

variable {step : σ → ι → σ → Prop} {start : σ}

theorem Run.single (before after : σ) (label : ι) (taken : step before label after) :
    Run step before [(before,label)] after :=
  .snoc before label after [] .nil taken

def walk (next : σ → ι → σ) : σ → List ι → List (σ × ι)
  | _, [] => []
  | s, label::rest => (s,label)::walk next (next s label) rest

theorem Run.append {middle final : σ} {first second : List (σ × ι)}
    (left : Run step start first middle) (right : Run step middle second final) :
    Run step start (first ++ second) final := by
  induction right with
  | nil => simpa using left
  | snoc before label after trace _ last ih =>
    rw [← List.append_assoc]
    exact .snoc _ _ _ _ ih last

theorem Run.split {final : σ} {whole : List (σ × ι)} (run : Run step start whole final)
    (first second : List (σ × ι)) (parts : whole = first ++ second) :
    ∃ middle, Run step start first middle ∧ Run step middle second final := by
  induction run generalizing second with
  | nil =>
    obtain ⟨rfl,rfl⟩ := List.append_eq_nil_iff.mp parts.symm
    exact ⟨start,.nil,.nil⟩
  | snoc before label after trace run last ih =>
    rcases List.eq_nil_or_concat' second with rfl | ⟨front,entry,rfl⟩
    · rw [List.append_nil] at parts
      exact ⟨after,parts ▸ .snoc _ _ _ _ run last,.nil⟩
    · rw [← List.append_assoc] at parts
      obtain ⟨rfl,same⟩ := List.append_inj' parts rfl
      obtain ⟨middle,left,right⟩ := ih front rfl
      obtain rfl := List.singleton_injective same
      exact ⟨middle,left,.snoc _ _ _ _ right last⟩

theorem Run.start_of_nil {final : σ} {trace : List (σ × ι)} (run : Run step start trace final)
    (none : trace = []) : final = start := by
  cases run with
  | nil => rfl
  | snoc => simp at none

theorem Run.uncons {final : σ} {entry : σ × ι} {rest : List (σ × ι)}
    (run : Run step start (entry::rest) final) :
    entry.1 = start ∧ ∃ after, step start entry.2 after ∧ Run step after rest final := by
  obtain ⟨middle,left,right⟩ := run.split [entry] rest rfl
  generalize single : [entry] = trace at left
  cases left with
  | nil => simp at single
  | snoc before label after trace run last =>
    have size := congrArg List.length single
    simp only [List.length_append,List.length_singleton] at size
    obtain rfl := run.start_of_nil (List.length_eq_zero_iff.mp (by omega))
    obtain ⟨_,same⟩ := List.append_inj' (show [] ++ [entry] = trace ++ [(before,label)] from single) rfl
    obtain rfl := List.singleton_injective same
    exact ⟨rfl,_,last,right⟩

theorem Run.walk (next : σ → ι → σ) (labels : List ι) (start : σ)
    (steps : ∀ entry ∈ walk next start labels, step entry.1 entry.2 (next entry.1 entry.2)) :
    Run step start (walk next start labels) (labels.foldl next start) := by
  induction labels generalizing start with
  | nil => exact .nil
  | cons label rest ih =>
    have first := Run.single start (next start label) label (steps (start,label) List.mem_cons_self)
    exact first.append (ih (next start label) (fun entry member => steps entry (List.mem_cons_of_mem _ member)))

theorem Run.taken {trace : List (σ × ι)} {final : σ} (run : Run step start trace final) :
    ∀ entry ∈ trace, ∃ after, step entry.1 entry.2 after := by
  induction run with
  | nil => simp
  | snoc before label after trace _ last ih =>
    intro entry member
    rcases List.mem_append.mp member with old | new
    · exact ih entry old
    · rw [List.mem_singleton.mp new]
      exact ⟨after,last⟩

/-- A run whose steps another relation takes as well is a run of that relation. -/
theorem Run.mono {other : σ → ι → σ → Prop} {trace : List (σ × ι)} {final : σ} (run : Run step start trace final)
    (takes : ∀ entry ∈ trace, ∀ after, step entry.1 entry.2 after → other entry.1 entry.2 after) :
    Run other start trace final := by
  induction run with
  | nil => exact .nil
  | snoc before label after trace _ last ih =>
    exact .snoc before label after trace (ih (fun entry member => takes entry (List.mem_append_left _ member)))
      (takes (before,label) (by simp) after last)

theorem Throughout.imp {property weaker : σ → Prop} {trace : List (σ × ι)} {final : σ}
    (holds : Throughout property trace final) (implies : ∀ s, property s → weaker s) : Throughout weaker trace final :=
  ⟨fun entry member => implies _ (holds.1 entry member),implies _ holds.2⟩

theorem Run.invariant {trace : List (σ × ι)} {final : σ} (run : Run step start trace final)
    (property : σ → Prop) (allowed : σ → ι → Prop) (initial : property start)
    (kept : ∀ s i t, property s → allowed s i → step s i t → property t)
    (conditions : ∀ entry ∈ trace, allowed entry.1 entry.2) :
    Throughout property trace final := by
  induction run with
  | nil => exact ⟨by simp,initial⟩
  | snoc before label after trace _ last ih =>
    obtain ⟨past,now⟩ := ih (fun entry member => conditions entry (List.mem_append_left _ member))
    have next := kept before label after now (conditions (before,label) (by simp)) last
    refine ⟨?_,next⟩
    intro entry member
    rcases List.mem_append.mp member with old | new
    · exact past entry old
    · rw [List.mem_singleton.mp new]
      exact now

theorem Reachable.invariant {final : σ} (reached : Reachable step start final)
    (property : σ → Prop) (initial : property start)
    (kept : ∀ s i t, property s → step s i t → property t) : property final := by
  obtain ⟨trace,run⟩ := reached
  exact (run.invariant property (fun _ _ => True) initial
    (fun s i t holds _ taken => kept s i t holds taken) (fun _ _ => trivial)).2

/-- Where a step keeps the property exactly when it meets a condition, a run
keeps it throughout exactly when all its steps do. `support` is what both
directions may use in states that have the property. -/
theorem Run.exact {trace : List (σ × ι)} {final : σ} (run : Run step start trace final)
    (property support : σ → Prop) (allowed : σ → ι → Prop)
    (initial : property start ∧ support start)
    (sharp : ∀ s i t, property s → support s → step s i t → (property t ↔ allowed s i))
    (carried : ∀ s i t, property s → support s → step s i t → property t → support t) :
    Throughout property trace final ↔ ∀ entry ∈ trace, allowed entry.1 entry.2 := by
  suffices both : (Throughout property trace final ↔ ∀ entry ∈ trace, allowed entry.1 entry.2) ∧
      (Throughout property trace final → support final) from both.1
  induction run with
  | nil => exact ⟨⟨fun _ => by simp,fun _ => ⟨by simp,initial.1⟩⟩,fun _ => initial.2⟩
  | snoc before label after trace _ last ih =>
    obtain ⟨same,supported⟩ := ih
    have split : Throughout property (trace ++ [(before,label)]) after ↔
        Throughout property trace before ∧ property after := by
      simp only [Throughout,List.mem_append,List.mem_singleton,or_imp,forall_and,forall_eq]
    refine ⟨?_,?_⟩
    · rw [split]
      constructor
      · rintro ⟨past,next⟩ entry member
        rcases List.mem_append.mp member with old | new
        · exact same.mp past entry old
        · rw [List.mem_singleton.mp new]
          exact (sharp before label after past.2 (supported past) last).mp next
      · intro conditions
        have past := same.mpr (fun entry member => conditions entry (List.mem_append_left _ member))
        exact ⟨past,(sharp before label after past.2 (supported past) last).mpr
          (conditions (before,label) (by simp))⟩
    · intro whole
      obtain ⟨past,next⟩ := split.mp whole
      exact carried before label after past.2 (supported past) last next

/-- Where an invariant lets every step be read as a step of another system, a
run is read as a run of that system. -/
theorem Run.image {τ κ : Type} {step' : τ → κ → τ → Prop} {trace : List (σ × ι)} {final : σ}
    (run : Run step start trace final) (state : σ → τ) (label : ι → κ) (invariant : σ → Prop)
    (allowed : σ → ι → Prop) (initial : invariant start)
    (kept : ∀ s i t, invariant s → allowed s i → step s i t →
      invariant t ∧ step' (state s) (label i) (state t))
    (conditions : ∀ entry ∈ trace, allowed entry.1 entry.2) :
    Run step' (state start) (trace.map (fun entry => (state entry.1,label entry.2))) (state final) ∧
      invariant final := by
  induction run with
  | nil => exact ⟨.nil,initial⟩
  | snoc before i after trace _ last ih =>
    obtain ⟨read,now⟩ := ih (fun entry member => conditions entry (List.mem_append_left _ member))
    obtain ⟨next,taken⟩ := kept before i after now (conditions (before,i) (by simp)) last
    rw [List.map_append]
    exact ⟨.snoc _ _ _ _ read taken,next⟩

/-- Where every step of one system is the image of a step of another, a run is the image of a run. -/
theorem Run.lift {τ : Type} {step' : τ → ι → τ → Prop} {trace : List (σ × ι)} {final : σ}
    (run : Run step start trace final) (state : τ → σ) (invariant : τ → Prop) (first : τ) (begins : state first = start)
    (initial : invariant first)
    (lifts : ∀ t i s, invariant t → step (state t) i s → ∃ t', step' t i t' ∧ invariant t' ∧ state t' = s) :
    ∃ trace' last, Run step' first trace' last ∧ invariant last ∧ state last = final := by
  induction run with
  | nil => exact ⟨[],first,.nil,initial,begins⟩
  | snoc before label after trace _ taken ih =>
    obtain ⟨trace',last,run,holds,rfl⟩ := ih
    obtain ⟨next,step,kept,same⟩ := lifts last label after holds taken
    exact ⟨_,next,.snoc last label next trace' run step,kept,same⟩

/-- Where every step leaves less to do, a run has no more steps than there was to do. -/
theorem Run.bounded {trace : List (σ × ι)} {final : σ} (run : Run step start trace final)
    (todo : Nat → σ → Prop) (amount : Nat) (initial : todo amount start)
    (falls : ∀ n s i t, todo n s → step s i t → ∃ m < n, todo m t) :
    ∃ rest, todo rest final ∧ trace.length+rest ≤ amount := by
  induction run with
  | nil => exact ⟨amount,initial,by simp⟩
  | snoc before label after trace _ last ih =>
    obtain ⟨n,left,counted⟩ := ih
    obtain ⟨m,less,next⟩ := falls n before label after left last
    refine ⟨m,next,?_⟩
    rw [List.length_append,List.length_singleton]
    omega

/-- Then every run can be carried on until no step can be taken. -/
theorem exists_last (todo : Nat → σ → Prop)
    (falls : ∀ n s i t, todo n s → step s i t → ∃ m < n, todo m t) (n : Nat) (s : σ) (left : todo n s) :
    ∃ final, Reachable step s final ∧ ∀ i t, ¬ step final i t := by
  induction n using Nat.strongRecOn generalizing s with
  | ind n ih =>
    by_cases done : ∀ i t, ¬ step s i t
    · exact ⟨s,⟨[],.nil⟩,done⟩
    · simp only [not_forall,not_not] at done
      obtain ⟨i,t,taken⟩ := done
      obtain ⟨m,less,next⟩ := falls n s i t left taken
      obtain ⟨final,⟨trace,run⟩,last⟩ := ih m less t next
      exact ⟨final,⟨_,(Run.single s t i taken).append run⟩,last⟩

end Runs
