import Spsc.Q
import Mathlib.Data.Option.NAry

/-! Any calls of `q_add` and `q_remove` on a fresh queue: what comes out is what went in,
in its order; and what `print_q` shows of the queue behind them. -/
namespace Spsc.Q
open Imperative

inductive Call where
  | add (strElem sz : Int)
  | remove
  deriving DecidableEq, Repr

/-- `added` and `removed` are what the calls have added and handed back. The slots of the
queue point to Elems, one made by each add: `objects` says which of them a slot points to,
by the number of the add. -/
structure Traffic where
  q : Queue
  objects : List (Option Nat)
  added : List Elem
  removed : List Elem
  deriving DecidableEq, Repr

def Traffic.start (q : Queue) : Traffic := ⟨q,List.replicate q.maxSize none,[],[]⟩

def Traffic.call (t : Traffic) : Call → C Traffic
  | .add strElem sz => do
    match ← qAdd t.q strElem sz with
    | (true,q) =>
      .ok { q := q
            objects := t.objects.set t.q.head (some t.added.length)
            added := t.added ++ [⟨sz,strElem⟩]
            removed := t.removed }
    | (false,q) => .ok { t with q := q }
  | .remove => do
    match ← qRemove t.q with
    | (some e,q) => .ok { t with q := q, removed := t.removed ++ [e] }
    | (none,q) => .ok { t with q := q }

/-- The loop of `print_q` over slots `i`, `i+1` and so on; a slot that was never filled is NULL. -/
def visit {α : Type} (slots : List (Option α)) : Nat → Nat → C (List α)
  | _, 0 => .ok []
  | i, count+1 => do
    match ← load .bounds slots i with
    | none => .error .bounds
    | some e => .ok (e::(← visit slots (i+1) count))

/-- The elements that `print_q` prints. -/
def printQ (q : Queue) : C (List Elem) := visit q.e 0 q.currSize

/-- The slots, each with the number of the object that it points to. -/
def Traffic.slots (t : Traffic) : List (Option (Nat × Elem)) := List.zipWith (Option.map₂ Prod.mk) t.objects t.q.e

/-- The objects that the loop visits, with what it prints of them. -/
def Traffic.visited (t : Traffic) : C (List (Nat × Elem)) := visit t.slots 0 t.q.currSize

/-- The objects added and not removed, the oldest first. -/
def Traffic.heldObjects (t : Traffic) : List Nat := List.range' t.removed.length t.q.currSize

def Traffic.heldElems (t : Traffic) : List Elem := t.added.drop t.removed.length

theorem slots_eq (t : Traffic) (i object : Nat) (e : Elem) :
    t.slots[i]? = some (some (object,e)) ↔ t.objects[i]? = some (some object) ∧ t.q.e[i]? = some (some e) := by
  rw [Traffic.slots,List.getElem?_zipWith]
  cases t.objects[i]? with
  | none => simp
  | some slot =>
    cases t.q.e[i]? with
    | none => simp
    | some pointed => simp [Option.map₂_eq_some_iff]

/-- The n-th object added is put into slot `n` modulo `max_size`. -/
structure Circulates (t : Traffic) : Prop where
  holds : Holds t.q t.heldElems
  order : t.removed <+: t.added
  objects : t.objects.length = t.q.maxSize
  ring : Ring.Holds t.objects t.q.tail t.heldObjects
  tail : t.q.tail = t.removed.length % t.q.maxSize
  placed : ∀ i n, t.objects[i]? = some (some n) → n % t.q.maxSize = i
  filled : ∀ i, i < t.added.length → i < t.q.maxSize → ∃ seen, t.slots[i]? = some (some seen)

theorem visit_eq {α : Type} (slots : List (Option α)) (i count : Nat) (items : List α) :
    visit slots i count = .ok items ↔
      items.length = count ∧ ∀ j (inside : j < items.length), slots[i+j]? = some (some items[j]) := by
  induction count generalizing i items with
  | zero =>
    rw [visit,List.length_eq_zero_iff]
    constructor
    · rintro ⟨⟩
      exact ⟨rfl,by simp⟩
    · rintro ⟨rfl,_⟩
      rfl
  | succ count ih =>
    rw [visit]
    constructor
    · intro ran
      obtain ⟨slot,read,ran⟩ := bind_ok _ _ _ ran
      have here : slots[i]? = some slot := by
        unfold load at read
        simp only [Int.natCast_nonneg,if_true,Int.toNat_natCast] at read
        split at read
        · next value same => rw [same,Except.ok.inj read]
        · cases read
      cases slot with
      | none => cases ran
      | some e =>
        obtain ⟨rest,later,ran⟩ := bind_ok _ _ _ ran
        obtain rfl := Except.ok.inj ran
        obtain ⟨size,stored⟩ := (ih (i+1) rest).mp later
        refine ⟨congrArg (·+1) size,fun j inside => ?_⟩
        cases j with
        | zero => exact here
        | succ j =>
          have next := stored j (Nat.lt_of_succ_lt_succ inside)
          rw [Nat.add_right_comm] at next
          exact next
    · rintro ⟨size,stored⟩
      obtain ⟨e,rest,rfl⟩ := List.exists_cons_of_length_eq_add_one size
      have here : slots[i]? = some (some e) := stored 0 (Nat.succ_pos _)
      have read : load Fault.bounds slots i = .ok (some e) := by simp [load,here]
      have later : visit slots (i+1) count = .ok rest := by
        refine (ih (i+1) rest).mpr ⟨Nat.succ.inj size,fun j inside => ?_⟩
        have next := stored (j+1) (Nat.succ_lt_succ inside)
        rw [← Nat.add_assoc,Nat.add_right_comm] at next
        exact next
      rw [read]
      simp only [bind,Except.bind,later]

theorem visit_total {α : Type} (slots : List (Option α)) (i count : Nat)
    (filled : ∀ j < count, ∃ e, slots[i+j]? = some (some e)) : ∃ items, visit slots i count = .ok items := by
  induction count generalizing i with
  | zero => exact ⟨[],rfl⟩
  | succ count ih =>
    obtain ⟨e,here⟩ := filled 0 (Nat.succ_pos _)
    obtain ⟨rest,later⟩ := ih (i+1) (fun j inside => by
      rw [Nat.add_right_comm]
      exact filled (j+1) (Nat.succ_lt_succ inside))
    have read : load Fault.bounds slots i = .ok (some e) := by
      rw [Nat.add_zero] at here
      simp [load,here]
    exact ⟨e::rest,by rw [visit,read]; simp only [bind,Except.bind,later]⟩

theorem start_circulates (maxSize : Int) (positive : 0 < maxSize) :
    ∃ q, qInit maxSize = .ok q ∧ q.maxSize = maxSize.toNat ∧ Circulates (.start q) := by
  obtain ⟨q,made,_,holds⟩ := qInit_holds maxSize positive
  have size : q.maxSize = maxSize.toNat ∧ q.tail = 0 ∧ q.currSize = 0 := by
    rw [qInit,assert_holds _ positive] at made
    obtain rfl := Except.ok.inj made
    exact ⟨rfl,rfl,rfl⟩
  refine ⟨q,made,size.1,?_⟩
  exact {
    holds := holds
    order := List.nil_prefix
    objects := List.length_replicate
    ring := by
      have none_held : Traffic.heldObjects (.start q) = [] := congrArg (List.range' 0) size.2.2
      rw [none_held]
      change Ring.Holds (List.replicate q.maxSize none) q.tail []
      rw [size.2.1]
      exact Ring.holds_nil _ (by rw [List.length_replicate]; exact holds.positive)
    tail := size.2.1.trans (Nat.zero_mod _).symm
    placed := by
      intro i n here
      change (List.replicate q.maxSize none)[i]? = some (some n) at here
      rw [List.getElem?_replicate] at here
      split at here
      all_goals cases here
    filled := by
      intro i inside
      cases inside }

section Calls
variable {t : Traffic} (circulates : Circulates t)
include circulates

theorem Circulates.counted : t.added.length = t.removed.length+t.q.currSize := by
  have size := circulates.holds.size
  have short := circulates.order.length_le
  rw [Traffic.heldElems,List.length_drop] at size
  omega

theorem Circulates.head : t.q.head = t.added.length % t.q.maxSize := by
  rw [circulates.holds.head,circulates.tail,Nat.mod_add_mod,← circulates.holds.size,circulates.counted]

theorem Circulates.bounds : t.q.head < t.q.maxSize ∧ t.q.tail < t.q.maxSize ∧ t.q.currSize ≤ t.q.maxSize := by
  have positive := circulates.holds.positive
  refine ⟨?_,?_,?_⟩
  · rw [circulates.head]
    exact Nat.mod_lt _ positive
  · rw [circulates.tail]
    exact Nat.mod_lt _ positive
  · rw [circulates.holds.size,← circulates.holds.array]
    exact circulates.holds.ring.fits

/-- What an add that succeeds puts into the next slot goes round with the others. -/
theorem Circulates.add (strElem sz : Int) (room : t.q.currSize ≠ t.q.maxSize) :
    ∃ next, t.call (.add strElem sz) = .ok next ∧ Circulates next ∧ next.q.maxSize = t.q.maxSize := by
  obtain ⟨ran,kept⟩ := circulates.holds.add_room strElem sz room
  have counted := circulates.counted
  have head := circulates.head
  obtain ⟨place,_,fits⟩ := circulates.bounds
  have calls : t.call (.add strElem sz) = .ok
      { q := { t.q with
          e := t.q.e.set t.q.head (some ⟨sz,strElem⟩)
          head := addCounter t.q t.q.head
          currSize := t.q.currSize+1 }
        objects := t.objects.set t.q.head (some t.added.length)
        added := t.added ++ [⟨sz,strElem⟩]
        removed := t.removed } := by
    rw [Traffic.call,ran]
    rfl
  refine ⟨_,calls,?_,rfl⟩
  exact {
    holds := by
      rw [Traffic.heldElems,List.drop_append_of_le_length circulates.order.length_le]
      exact kept
    order := circulates.order.trans (List.prefix_append _ _)
    objects := by
      rw [List.length_set]
      exact circulates.objects
    ring := by
      have held : t.heldObjects.length = t.q.currSize := List.length_range'
      have pushed := circulates.ring.push t.added.length (by rw [held,circulates.objects]; omega)
      rw [held,circulates.objects,circulates.holds.size,← circulates.holds.head] at pushed
      rw [Traffic.heldObjects,List.range'_concat,Nat.one_mul,← counted]
      exact pushed
    tail := circulates.tail
    placed := by
      intro i n here
      by_cases same : t.q.head = i
      · subst same
        rw [List.getElem?_set_self (by rw [circulates.objects]; exact place)] at here
        rw [← Option.some.inj (Option.some.inj here)]
        exact head.symm
      · rw [List.getElem?_set_ne same] at here
        exact circulates.placed i n here
    filled := by
      intro i early inside
      by_cases same : t.q.head = i
      · subst same
        exact ⟨(t.added.length,⟨sz,strElem⟩),(slots_eq _ _ _ _).mpr
          ⟨List.getElem?_set_self (by rw [circulates.objects]; exact place),
            List.getElem?_set_self (by rw [circulates.holds.array]; exact place)⟩⟩
      · have other : i ≠ t.added.length := by
          rintro rfl
          exact same (head.trans (Nat.mod_eq_of_lt inside))
        rw [List.length_append,List.length_singleton] at early
        obtain ⟨seen,there⟩ := circulates.filled i (by omega) inside
        refine ⟨seen,(slots_eq _ _ _ _).mpr ?_⟩
        rw [List.getElem?_set_ne same,List.getElem?_set_ne same]
        exact (slots_eq _ _ _ _).mp there }

theorem Circulates.remove (some_held : t.q.currSize ≠ 0) :
    ∃ next, t.call .remove = .ok next ∧ Circulates next ∧ next.q.maxSize = t.q.maxSize := by
  obtain ⟨elem,rest,parts⟩ := List.exists_cons_of_ne_nil (l := t.heldElems) (by
    rintro none
    exact some_held (circulates.holds.size.trans (congrArg List.length none)))
  obtain ⟨ran,kept⟩ := circulates.holds.remove_front elem rest parts
  have held : t.removed ++ elem::rest = t.added := by
    rw [← parts]
    exact List.prefix_iff_eq_append.mp circulates.order
  have calls : t.call .remove = .ok
      { t with
        q := { t.q with tail := addCounter t.q t.q.tail, currSize := t.q.currSize-1 }
        removed := t.removed ++ [elem] } := by
    rw [Traffic.call,ran]
    rfl
  refine ⟨_,calls,?_,rfl⟩
  have taken : t.removed ++ elem::rest = (t.removed ++ [elem]) ++ rest := by simp
  exact {
    holds := by
      rw [Traffic.heldElems,← held,taken,List.drop_left]
      exact kept
    order := by
      rw [← held,taken]
      exact List.prefix_append _ _
    objects := circulates.objects
    ring := by
      have first : t.heldObjects = t.removed.length::List.range' (t.removed.length+1) (t.q.currSize-1) := by
        rw [Traffic.heldObjects,← List.range'_succ]
        congr 1
        omega
      have popped := circulates.ring.pop _ _ first
      rw [circulates.objects,← addCounter_after] at popped
      rw [Traffic.heldObjects,List.length_append]
      exact popped
    tail := by
      obtain ⟨_,inside,_⟩ := circulates.bounds
      change addCounter t.q t.q.tail = (t.removed ++ [elem]).length % t.q.maxSize
      rw [addCounter_after,Ring.after_eq _ _ inside,circulates.tail,Nat.mod_add_mod,List.length_append]
      rfl
    placed := circulates.placed
    filled := circulates.filled }

theorem Circulates.call (call : Call) :
    ∃ next, t.call call = .ok next ∧ Circulates next ∧ next.q.maxSize = t.q.maxSize := by
  cases call with
  | add strElem sz =>
    by_cases full : t.q.currSize = t.q.maxSize
    · refine ⟨t,?_,circulates,rfl⟩
      rw [Traffic.call,qAdd,if_pos full]
      rfl
    · exact circulates.add strElem sz full
  | remove =>
    by_cases none_held : t.q.currSize = 0
    · refine ⟨t,?_,circulates,rfl⟩
      rw [Traffic.call,qRemove,if_pos none_held]
      rfl
    · exact circulates.remove none_held

theorem Circulates.calls (calls : List Call) :
    ∃ final, calls.foldlM Traffic.call t = .ok final ∧ Circulates final ∧ final.q.maxSize = t.q.maxSize := by
  induction calls generalizing t with
  | nil => exact ⟨t,rfl,circulates,rfl⟩
  | cons call calls ih =>
    obtain ⟨next,ran,kept,same⟩ := circulates.call call
    obtain ⟨final,rest,done,same'⟩ := ih kept
    refine ⟨final,?_,done,same'.trans same⟩
    rw [List.foldlM_cons,ran]
    exact rest

end Calls

theorem reached (maxSize : Int) (positive : 0 < maxSize) (calls : List Call) :
    ∃ q t, qInit maxSize = .ok q ∧ calls.foldlM Traffic.call (.start q) = .ok t ∧ Circulates t ∧
      t.q.maxSize = maxSize.toNat := by
  obtain ⟨q,made,size,circulates⟩ := start_circulates maxSize positive
  obtain ⟨t,ran,kept,same⟩ := circulates.calls calls
  exact ⟨q,t,made,ran,kept,same.trans size⟩

/-- The queue is a bounded FIFO: what `q_remove` has returned is what was added first, and the
rest is held; `q_add` and `q_remove` refuse exactly where the queue is full or empty, and
change nothing then. -/
theorem traffic_in_order (maxSize : Int) (positive : 0 < maxSize) (calls : List Call) :
    ∃ q t, qInit maxSize = .ok q ∧ calls.foldlM Traffic.call (.start q) = .ok t ∧
      (t.q.head < maxSize.toNat ∧ t.q.tail < maxSize.toNat ∧ t.q.currSize ≤ maxSize.toNat ∧
        t.q.head = (t.q.tail+t.q.currSize) % maxSize.toNat) ∧
      t.removed <+: t.added ∧ t.added.length = t.removed.length+t.q.currSize ∧
      (∀ strElem sz, ∃ added next, qAdd t.q strElem sz = .ok (added,next) ∧
        (added = false ↔ t.added.length = t.removed.length+maxSize.toNat) ∧ (added = false ↔ next = t.q)) ∧
      ∃ removed next, qRemove t.q = .ok (removed,next) ∧
        (removed = none ↔ t.added.length = t.removed.length) ∧ (removed = none ↔ next = t.q) := by
  obtain ⟨q,t,made,ran,circulates,size⟩ := reached maxSize positive calls
  obtain ⟨head,tail,fits⟩ := circulates.bounds
  have counted := circulates.counted
  rw [size] at head tail fits
  refine ⟨q,t,made,ran,⟨head,tail,fits,size ▸ circulates.holds.head.trans ?_⟩,circulates.order,counted,?_,?_⟩
  · rw [circulates.holds.size]
  · intro strElem sz
    by_cases full : t.q.currSize = t.q.maxSize
    · exact ⟨false,t.q,if_pos full,iff_of_true rfl (by omega),iff_of_true rfl rfl⟩
    · obtain ⟨ran,_⟩ := circulates.holds.add_room strElem sz full
      refine ⟨true,_,ran,iff_of_false Bool.noConfusion (by omega),iff_of_false Bool.noConfusion (fun same => ?_)⟩
      have grown := congrArg Queue.currSize same
      simp at grown
  · by_cases none_held : t.q.currSize = 0
    · exact ⟨none,t.q,if_pos none_held,iff_of_true rfl (by omega),iff_of_true rfl rfl⟩
    · obtain ⟨elem,rest,parts⟩ := List.exists_cons_of_ne_nil (l := t.heldElems) (by
        rintro none
        exact none_held (circulates.holds.size.trans (congrArg List.length none)))
      obtain ⟨ran,_⟩ := circulates.holds.remove_front elem rest parts
      refine ⟨some elem,_,ran,iff_of_false (Option.some_ne_none _) (by omega),
        iff_of_false (Option.some_ne_none _) (fun same => ?_)⟩
      have shrunk : t.q.currSize-1 = t.q.currSize := congrArg Queue.currSize same
      omega

theorem traffic_in_order_one : ∃ q t, qInit 1 = .ok q ∧
    [Call.add 1 5,.add 2 10,.remove,.add 3 20].foldlM Traffic.call (.start q) = .ok t ∧
    t.removed <+: t.added ∧ t.added = [⟨5,1⟩,⟨20,3⟩] := by
  obtain ⟨q,t,made,ran,_,order,_⟩ := traffic_in_order 1 (by decide) [.add 1 5,.add 2 10,.remove,.add 3 20]
  obtain rfl := Except.ok.inj made
  refine ⟨_,t,made,ran,order,?_⟩
  obtain rfl := Except.ok.inj ran
  rfl

/-- `print_q` visits the objects that are held, in their order, and prints what was added with them. -/
def ShowsHeld (t : Traffic) : Prop := t.visited = .ok (t.heldObjects.zip t.heldElems)

/-- What is printed is what is in the objects visited. -/
theorem printQ_visited (t : Traffic) (seen : List (Nat × Elem)) (visited : t.visited = .ok seen) :
    printQ t.q = .ok (seen.map Prod.snd) := by
  obtain ⟨size,stored⟩ := (visit_eq _ _ _ _).mp visited
  refine (visit_eq _ _ _ _).mpr ⟨by rw [List.length_map,size],fun j inside => ?_⟩
  rw [List.length_map] at inside
  rw [List.getElem_map]
  exact ((slots_eq _ _ _ _).mp (stored j inside)).2

theorem Circulates.shows_iff {t : Traffic} (circulates : Circulates t) :
    ShowsHeld t ↔ t.q.tail = 0 ∨ t.q.currSize = 0 := by
  have counted : t.heldObjects.length = t.q.currSize := List.length_range'
  have held : t.heldElems.length = t.q.currSize := circulates.holds.size.symm
  have both : (t.heldObjects.zip t.heldElems).length = t.q.currSize := by
    rw [List.length_zip,counted,held,Nat.min_self]
  have fits := circulates.bounds.2.2
  unfold ShowsHeld Traffic.visited
  rw [visit_eq]
  constructor
  · rintro ⟨_,stored⟩
    refine or_iff_not_imp_right.mpr (fun some_held => ?_)
    have first := stored 0 (by omega)
    rw [List.getElem_zip] at first
    have oldest : t.heldObjects[0] = t.removed.length := by simp [Traffic.heldObjects]
    rw [circulates.tail]
    exact circulates.placed 0 _ (oldest ▸ ((slots_eq _ _ _ _).mp first).1)
  · intro front
    refine ⟨both,fun j inside => ?_⟩
    rw [both] at inside
    have slot : (t.q.tail+j) % t.q.maxSize = 0+j := by
      rcases front with front | none_held
      · rw [front]
        exact Nat.mod_eq_of_lt (by omega)
      · omega
    have object := circulates.ring.stored j (by omega)
    have elem := circulates.holds.ring.stored j (by omega)
    rw [circulates.objects,slot] at object
    rw [circulates.holds.array,slot] at elem
    rw [List.getElem_zip]
    exact (slots_eq _ _ _ _).mpr ⟨object,elem⟩

/-- The slots that `print_q` visits have all been filled. -/
theorem Circulates.visits {t : Traffic} (circulates : Circulates t) : ∃ seen, t.visited = .ok seen := by
  have fits := circulates.bounds.2.2
  have counted := circulates.counted
  refine visit_total _ 0 _ (fun j inside => ?_)
  rw [Nat.zero_add]
  exact circulates.filled j (by omega) (by omega)

/-- `print_q` never goes wrong, but it shows what is held exactly where the oldest element is in
the first slot, or none is held. -/
theorem printQ_shows (maxSize : Int) (positive : 0 < maxSize) (calls : List Call) :
    ∃ q t, qInit maxSize = .ok q ∧ calls.foldlM Traffic.call (.start q) = .ok t ∧
      (∃ seen, t.visited = .ok seen ∧ printQ t.q = .ok (seen.map Prod.snd)) ∧
      (ShowsHeld t ↔ t.q.tail = 0 ∨ t.q.currSize = 0) := by
  obtain ⟨q,t,made,ran,circulates,_⟩ := reached maxSize positive calls
  obtain ⟨seen,visited⟩ := circulates.visits
  exact ⟨q,t,made,ran,⟨seen,visited,printQ_visited t seen visited⟩,circulates.shows_iff⟩

theorem printQ_shows_two : ∃ q t, qInit 2 = .ok q ∧ [Call.add 1 5,.add 2 10].foldlM Traffic.call (.start q) = .ok t ∧
    ShowsHeld t := by
  obtain ⟨q,t,made,ran,_,shows_iff⟩ := printQ_shows 2 (by decide) [.add 1 5,.add 2 10]
  obtain rfl := Except.ok.inj made
  obtain rfl := Except.ok.inj ran
  exact ⟨_,_,rfl,rfl,shows_iff.mpr (.inl rfl)⟩

/-- Of the two elements the first is removed, and the first is printed. -/
theorem printQ_misses : ∃ q t, qInit 2 = .ok q ∧
    [Call.add 1 5,.add 2 10,.remove].foldlM Traffic.call (.start q) = .ok t ∧
    t.removed = [⟨5,1⟩] ∧ printQ t.q = .ok [⟨5,1⟩] ∧ t.heldElems = [⟨10,2⟩] ∧ ¬ ShowsHeld t := by
  refine ⟨_,_,rfl,rfl,rfl,rfl,rfl,fun shown => ?_⟩
  exact absurd (printQ_visited _ _ shown) (by decide)

end Spsc.Q
