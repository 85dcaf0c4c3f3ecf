import Spsc.CValues
import Spsc.Lib.Ring

/-! The ring queue of `q.c`, which hands buffers from the thread that reads the file
to the one that sends. -/
namespace Spsc.Q
open Imperative

structure Elem where
  sz : Int
  line : Int
  deriving DecidableEq, Repr

structure Queue where
  maxSize : Nat
  currSize : Nat
  head : Nat
  tail : Nat
  e : List (Option Elem)
  deriving DecidableEq, Repr

def addCounter (q : Queue) (a : Nat) : Nat := if q.maxSize ≤ a+1 then 0 else a+1

def qInit (maxSize : Int) : C Queue := do
  assert (0 < maxSize)
  .ok ⟨maxSize.toNat,0,0,0,List.replicate maxSize.toNat none⟩

def qFull (q : Queue) : Bool := q.currSize == q.maxSize

def qAdd (q : Queue) (strElem sz : Int) : C (Bool × Queue) :=
  if q.currSize = q.maxSize then .ok (false,q) else do
  let e ← store .bounds q.e q.head (some ⟨sz,strElem⟩)
  .ok (true,{ q with e := e, head := addCounter q q.head, currSize := q.currSize+1 })

def qEmpty (q : Queue) : Bool := q.currSize == 0

def qRemove (q : Queue) : C (Option Elem × Queue) :=
  if q.currSize = 0 then .ok (none,q) else do
  let t ← load .bounds q.e q.tail
  .ok (t,{ q with tail := addCounter q q.tail, currSize := q.currSize-1 })

/-- The elements in the queue, the oldest first. -/
structure Holds (q : Queue) (elems : List Elem) : Prop where
  array : q.e.length = q.maxSize
  ring : Ring.Holds q.e q.tail elems
  size : q.currSize = elems.length
  head : q.head = (q.tail+elems.length) % q.maxSize

theorem addCounter_after (q : Queue) (a : Nat) : addCounter q a = Ring.after q.maxSize a := rfl

theorem qInit_holds (maxSize : Int) (positive : 0 < maxSize) :
    ∃ q, qInit maxSize = .ok q ∧ qFull q = false ∧ Holds q [] := by
  refine ⟨⟨maxSize.toNat,0,0,0,List.replicate maxSize.toNat none⟩,?_,?_,?_⟩
  · rw [qInit,assert_holds _ positive]
    rfl
  · rw [qFull,beq_eq_false_iff_ne]
    change 0 ≠ maxSize.toNat
    omega
  · refine ⟨List.length_replicate,Ring.holds_nil _ ?_,rfl,(Nat.zero_mod _).symm⟩
    rw [List.length_replicate]
    omega

section Held
variable {q : Queue} {elems : List Elem} (held : Holds q elems)
include held

theorem Holds.positive : 0 < q.maxSize := by
  rw [← held.array]
  exact Nat.zero_lt_of_lt held.ring.start

theorem Holds.empty : qEmpty q = true ↔ elems = [] := by
  rw [qEmpty,beq_iff_eq,held.size,List.length_eq_zero_iff]

theorem Holds.add_room (strElem sz : Int) (room : q.currSize ≠ q.maxSize) :
    let next : Queue := { q with
      e := q.e.set q.head (some ⟨sz,strElem⟩)
      head := addCounter q q.head
      currSize := q.currSize+1 }
    qAdd q strElem sz = .ok (true,next) ∧ Holds next (elems ++ [⟨sz,strElem⟩]) := by
  have array := held.array
  have fits := held.ring.fits
  have size := held.size
  have place : q.head < q.e.length := by
    rw [held.head,array]
    exact Nat.mod_lt _ held.positive
  refine ⟨?_,?_⟩
  · rw [qAdd,if_neg room,store_inside _ _ _ _ place]
    rfl
  · have pushed := held.ring.push ⟨sz,strElem⟩ (by omega)
    rw [array,← held.head] at pushed
    refine ⟨by rw [List.length_set,array],pushed,by rw [size,List.length_append]; rfl,?_⟩
    rw [addCounter_after,held.head,Ring.after_add _ _ _ held.positive,List.length_append]
    rfl

/-- `q_add` adds at the back, unless the queue is full. -/
theorem Holds.add (strElem sz : Int) :
    ∃ added next, qAdd q strElem sz = .ok (added,next) ∧ (added = true ↔ qFull q = false) ∧
      Holds next (if added then elems ++ [⟨sz,strElem⟩] else elems) := by
  by_cases full : q.currSize = q.maxSize
  · refine ⟨false,q,if_pos full,?_,held⟩
    rw [qFull,full]
    simp
  · obtain ⟨ran,kept⟩ := held.add_room strElem sz full
    exact ⟨true,_,ran,by simp [qFull,full],kept⟩

theorem Holds.remove_front (elem : Elem) (rest : List Elem) (parts : elems = elem::rest) :
    let next : Queue := { q with tail := addCounter q q.tail, currSize := q.currSize-1 }
    qRemove q = .ok (some elem,next) ∧ Holds next rest := by
  subst parts
  have size := held.size
  rw [List.length_cons] at size
  have front := held.ring.front elem rest rfl
  refine ⟨?_,?_⟩
  · have read : load Fault.bounds q.e q.tail = .ok (some elem) := by
      rw [load_inside _ _ _ held.ring.start]
      exact congrArg Except.ok (Option.some.inj ((List.getElem?_eq_getElem held.ring.start).symm.trans front))
    rw [qRemove,if_neg (by omega),read]
    rfl
  · have popped := held.ring.pop elem rest rfl
    have tail : q.tail < q.maxSize := held.array ▸ held.ring.start
    rw [held.array] at popped
    refine ⟨held.array,popped,by rw [size]; rfl,?_⟩
    rw [held.head,addCounter_after,Ring.after_eq _ _ tail,Nat.mod_add_mod,List.length_cons]
    congr 1
    omega

/-- `q_remove` removes the front, if there is one. -/
theorem Holds.remove : ∃ next, qRemove q = .ok (elems.head?,next) ∧ Holds next elems.tail := by
  cases elems with
  | nil => exact ⟨q,if_pos held.size,held⟩
  | cons elem rest =>
    obtain ⟨ran,kept⟩ := held.remove_front elem rest rfl
    exact ⟨_,ran,kept⟩

end Held
end Spsc.Q
