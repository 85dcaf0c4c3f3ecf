import Spsc.RadixSort.Sorted

/-! `reverse` exchanges the ends of the array and goes on inwards; behind `radix_sort` it leaves
the elements in descending order. -/
namespace Spsc.RadixSort
open Imperative

/-- The first and the last `i` elements have changed places. -/
def Swapped (array : List Int) (i : Nat) (reversed : List Int) : Prop :=
  reversed.length = array.length ∧ ∀ j (bound : j < array.length),
    reversed[j]? = some (if j < i ∨ array.length ≤ j+i then array[array.length-1-j] else array[j])

theorem swap_step (array reversed : List Int) (i : Nat) (inside : i < array.length/2) (swapped : Swapped array i reversed) :
    ∃ next, (do
      let t ← load Fault.bounds reversed i
      let u ← load .bounds reversed ((array.length : Int)-1-i)
      let reversed ← store .bounds reversed i u
      store .bounds reversed ((array.length : Int)-1-i) t) = .ok next ∧ Swapped array (i+1) next := by
  obtain ⟨size,here⟩ := swapped
  have index : (array.length : Int)-1-i = ((array.length-1-i : Nat) : Int) := by omega
  have low : i < reversed.length := by omega
  have high : array.length-1-i < reversed.length := by omega
  have left : reversed[i] = array[i] := by
    have there := here i (by omega)
    rw [if_neg (by omega)] at there
    exact (List.getElem_eq_iff _).mpr there
  have right : reversed[array.length-1-i] = array[array.length-1-i] := by
    have there := here (array.length-1-i) (by omega)
    rw [if_neg (by omega)] at there
    exact (List.getElem_eq_iff _).mpr there
  rw [index]
  simp only [load_inside _ _ _ low,load_inside _ _ _ high,bind,Except.bind]
  rw [store_inside _ _ _ _ low]
  simp only
  rw [store_inside _ _ _ _ (by rw [List.length_set]; omega),left,right]
  refine ⟨_,rfl,by rw [List.length_set,List.length_set,size],fun j bound => ?_⟩
  by_cases last : j = array.length-1-i
  · subst last
    rw [List.getElem?_set_self (by rw [List.length_set]; omega),if_pos (by omega)]
    congr 2
    omega
  · rw [List.getElem?_set_ne (Ne.symm last)]
    by_cases first : j = i
    · subst first
      rw [List.getElem?_set_self (by omega),if_pos (by omega)]
    · rw [List.getElem?_set_ne (Ne.symm first),here j bound]
      congr 1
      have same : (j < i ∨ array.length ≤ j+i) ↔ (j < i+1 ∨ array.length ≤ j+(i+1)) := by omega
      simp only [same]

theorem reverse_eq (array : List Int) : reverse array = .ok array.reverse := by
  have initial : Swapped array 0 array := by
    refine ⟨rfl,fun j bound => ?_⟩
    rw [if_neg (by omega),List.getElem?_eq_getElem bound]
  obtain ⟨reversed,ran,size,swapped⟩ := forLoop_invariant _ (fun i reversed => Swapped array i reversed) 0
    (array.length/2) array initial (fun i reversed _ high kept => swap_step array reversed i (by omega) kept)
  refine ran.trans (congrArg Except.ok ?_)
  refine List.ext_getElem (by rw [size,List.length_reverse]) fun j left right => ?_
  have bound : j < array.length := by omega
  rw [List.getElem_reverse]
  refine (List.getElem_eq_iff _).mpr ((swapped j bound).trans (congrArg some ?_))
  -- only the element in the middle of an odd array has stayed, and it is its own partner
  split
  · rfl
  · next middle =>
    congr 1
    omega

theorem testHelper_descends (array : List Int) (inside : ∀ x ∈ array, 0 ≤ x ∧ x ≤ INT_MAX) :
    ∃ list, testHelper array = .ok list ∧ list.Perm array ∧ list.Pairwise (· ≥ ·) := by
  obtain ⟨sorted,ran,perm,ascending⟩ := radixSort_sorts array inside
  refine ⟨sorted.reverse,?_,(List.reverse_perm sorted).trans perm,List.pairwise_reverse.mpr ascending⟩
  unfold testHelper
  rw [ran]
  exact reverse_eq sorted

theorem testHelper_descends_sequence : ∃ list, testHelper [0,1,2,3,0] = .ok list ∧ list.Perm [0,1,2,3,0] ∧
    list.Pairwise (· ≥ ·) := testHelper_descends [0,1,2,3,0] (by decide)

end Spsc.RadixSort
