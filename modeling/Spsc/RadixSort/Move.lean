import Spsc.RadixSort
import Mathlib.Data.List.Perm.Basic

/-! What `move_array` and `binarySearch` compute. `move_array` only moves the
leading zeros to the end; zeros between elements stay. -/
namespace Spsc.RadixSort
open Imperative

theorem shiftDown_eq (array : List Int) (i : Nat) :
    shiftDown array i = .ok (array.drop i ++ array.drop (array.length-i)) := by
  have shifted := forLoop_closed (fun j current => do
      let x ← load Fault.bounds current ((i : Int)+j)
      store .bounds current j x)
    (fun j => (array.drop i).take j ++ array.drop j) 0 (array.length-i) (by
      intro j _ high
      have source : i+j < array.length := by omega
      have front : ((array.drop i).take j).length = j := by simp; omega
      have fetched : load Fault.bounds ((array.drop i).take j ++ array.drop j) ((i : Int)+j) =
          .ok array[i+j] := by
        rw [(by omega : (i : Int)+j = ((i+j : Nat) : Int)),load_inside _ _ _ (by simp; omega)]
        congr 1
        rw [List.getElem_append_right (by omega),List.getElem_drop]
        congr 1
        omega
      rw [fetched]
      simp only [bind,Except.bind]
      rw [List.drop_eq_getElem_cons (by omega : j < array.length)]
      rw [store_middle _ _ _ _ _ _ front,
        List.take_succ_eq_append_getElem (by simp; omega : j < (array.drop i).length),
        List.getElem_drop,List.append_assoc]
      rfl)
  have whole : (array.drop i).take (array.length-i) = array.drop i :=
    List.take_of_length_le (by simp)
  simp only [Nat.zero_add,List.take_zero,List.drop_zero,List.nil_append,whole] at shifted
  exact shifted

theorem zeroTail_eq (front rest : List Int) :
    zeroTail (front ++ rest) front.length = .ok (front ++ List.replicate rest.length 0) := by
  unfold zeroTail
  rw [List.length_append,Nat.add_sub_cancel_left]
  induction rest generalizing front with
  | nil => rfl
  | cons x rest ih =>
    rw [List.length_cons,forLoop,store_middle _ _ _ _ _ _ rfl]
    have next := ih (front ++ [0])
    simp only [List.length_append,List.length_singleton,List.append_assoc,List.singleton_append] at next
    exact next

theorem moveArray_eq (array : List Int) :
    moveArray array = .ok (array.drop (array.findIdx (fun x => x != 0)) ++
      List.replicate (array.findIdx (fun x => x != 0)) 0) := by
  have bound : array.findIdx (fun x => x != 0) ≤ array.length := List.findIdx_le_length
  unfold moveArray
  generalize array.findIdx (fun x => x != 0) = i at *
  by_cases none : i = 0
  · simp [none]
  · have front : (array.drop i).length = array.length-i := by simp
    have tail := zeroTail_eq (array.drop i) (array.drop (array.length-i))
    rw [front] at tail
    simp only [if_neg none,shiftDown_eq,bind,Except.bind]
    rw [List.length_append,front,List.length_drop,(by omega : array.length-i+(array.length-(array.length-i))-i =
      array.length-i),tail,List.length_drop,(by omega : array.length-(array.length-i) = i)]

theorem moveArray_cons (x : Int) (rest : List Int) (nonzero : x ≠ 0) :
    moveArray (x::rest) = .ok (x::rest) := by
  have first : (x::rest).findIdx (fun x => x != 0) = 0 := by
    rw [List.findIdx_cons,bne_iff_ne.mpr nonzero]
    rfl
  rw [moveArray_eq,first]
  simp

theorem moveArray_zeros (count : Nat) (items : List Int) (nonzero : items.head? ≠ some 0) :
    moveArray (List.replicate count 0 ++ items) = .ok (items ++ List.replicate count 0) := by
  have found : (List.replicate count (0 : Int) ++ items).findIdx (fun x => x != 0) =
      count + items.findIdx (fun x => x != 0) := by
    induction count with
    | zero => simp
    | succ count ih =>
      rw [List.replicate_succ,List.cons_append,List.findIdx_cons,ih]
      simp only [bne_self_eq_false,cond_false]
      omega
  rw [moveArray_eq,found]
  cases items with
  | nil => simp
  | cons x rest =>
    have head : x ≠ 0 := by simpa using nonzero
    rw [List.findIdx_cons,bne_iff_ne.mpr head]
    simp

theorem leading_zeros (array : List Int) : ∃ zeros items, array = List.replicate zeros 0 ++ items ∧ items.head? ≠ some 0 := by
  induction array with
  | nil => exact ⟨0,[],rfl,by simp⟩
  | cons x rest ih =>
    by_cases zero : x = 0
    · obtain ⟨zeros,items,split,head⟩ := ih
      exact ⟨zeros+1,items,by rw [zero,split,List.replicate_succ,List.cons_append],head⟩
    · exact ⟨0,x::rest,rfl,by simpa using zero⟩

/-- The leading zeros go to the end, and nothing else moves. -/
theorem moveArray_split (array : List Int) : ∃ zeros items, array = List.replicate zeros 0 ++ items ∧
    moveArray array = .ok (items ++ List.replicate zeros 0) := by
  obtain ⟨zeros,items,split,head⟩ := leading_zeros array
  exact ⟨zeros,items,split,by rw [split,moveArray_zeros zeros items head]⟩

/-- The non-zero elements in their order, and as many zeros behind them as there were. -/
def compacted (array : List Int) : List Int :=
  array.filter (fun x => x != 0) ++ List.replicate (array.count 0) 0

theorem compacted_zeros (zeros : Nat) (items : List Int) :
    compacted (List.replicate zeros 0 ++ items) = compacted items ++ List.replicate zeros 0 := by
  have none : (List.replicate zeros (0 : Int)).filter (fun x => x != 0) = [] := by simp
  rw [compacted,compacted,List.filter_append,none,List.nil_append,List.count_append,List.count_replicate_self,
    Nat.add_comm,← List.replicate_append_replicate,List.append_assoc]

theorem compacted_zero_iff (items : List Int) : 0::items = compacted (0::items) ↔ ∀ x ∈ items, x = 0 := by
  have shifted := compacted_zeros 1 items
  rw [List.replicate_one,List.singleton_append] at shifted
  rw [shifted]
  constructor
  · intro same x member
    by_contra other
    -- then the first element of the compacted list is not zero
    have left : x ∈ items.filter (fun x => x != 0) := List.mem_filter.mpr ⟨member,bne_iff_ne.mpr other⟩
    obtain ⟨y,rest,held⟩ := List.exists_cons_of_ne_nil (List.ne_nil_of_mem left)
    have kept : y ∈ items.filter (fun x => x != 0) := held ▸ List.mem_cons_self
    rw [compacted,held] at same
    exact bne_iff_ne.mp (List.mem_filter.mp kept).2 (List.cons.inj same).1.symm
  · intro all
    have only := compacted_zeros items.length []
    rw [List.append_nil,← List.eq_replicate_iff.mpr ⟨rfl,all⟩] at only
    rw [only]
    change 0::items = items ++ [0]
    rw [List.eq_replicate_iff.mpr ⟨rfl,all⟩,← List.replicate_succ,List.replicate_succ']

/-- A list is compacted already where each zero has only zeros behind it. -/
theorem compacted_iff (items : List Int) :
    items = compacted items ↔ ∀ before behind, items = before ++ 0::behind → ∀ x ∈ behind, x = 0 := by
  induction items with
  | nil =>
    refine iff_of_true rfl ?_
    intro before behind split
    cases List.append_ne_nil_of_right_ne_nil before (List.cons_ne_nil 0 behind) split.symm
  | cons x items ih =>
    by_cases zero : x = 0
    · rw [zero,compacted_zero_iff]
      constructor
      · intro all before behind split y member
        cases before with
        | nil => exact all y ((List.cons.inj split).2 ▸ member)
        | cons z before =>
          apply all
          rw [(List.cons.inj split).2]
          exact List.mem_append_right _ (List.mem_cons_of_mem _ member)
      · exact fun trailing => trailing [] items rfl
    · have kept : compacted (x::items) = x::compacted items := by
        rw [compacted,compacted,List.filter_cons,if_pos (bne_iff_ne.mpr zero),List.count_cons_of_ne zero]
        rfl
      rw [kept,List.cons.injEq]
      refine Iff.trans (and_iff_right rfl) (ih.trans ?_)
      constructor
      · intro trailing before behind split
        cases before with
        | nil => exact absurd (List.cons.inj split).1 zero
        | cons y before => exact trailing before behind (List.cons.inj split).2
      · intro trailing before behind split
        exact trailing (x::before) behind (by rw [split,List.cons_append])

/-- `move_array` does what `radix_sort.h` says of it exactly where no zero stands between two elements
that are not zero. -/
theorem moveArray_compacts (array : List Int) : moveArray array = .ok (compacted array) ↔
    ∀ before behind, array = before ++ 0::behind → (∀ x ∈ before, x = 0) ∨ (∀ x ∈ behind, x = 0) := by
  obtain ⟨zeros,items,rfl,head⟩ := leading_zeros array
  rw [moveArray_zeros zeros items head,compacted_zeros]
  refine Iff.trans ⟨fun same => List.append_cancel_right (Except.ok.inj same),fun same => by rw [← same]⟩
    ((compacted_iff items).trans ?_)
  constructor
  · intro trailing before behind split
    rcases List.append_eq_append_iff.mp split with ⟨rest,rfl,later⟩ | ⟨rest,zeros_split,later⟩
    · exact .inr (trailing rest behind later)
    · refine .inl (fun x member => List.eq_of_mem_replicate (?_ : x ∈ List.replicate zeros 0))
      rw [zeros_split]
      exact List.mem_append_left _ member
  · intro outer before behind split
    rcases outer (List.replicate zeros 0 ++ before) behind (by rw [split,List.append_assoc]) with leading | trailing
    · cases before with
      | nil =>
        rw [split] at head
        exact absurd rfl head
      | cons x before =>
        have zero : x = 0 := leading x (by simp)
        rw [split,zero] at head
        exact absurd rfl head
    · exact trailing

theorem moveArray_loses : ¬ moveArray [1,0,2] = .ok (compacted [1,0,2]) := by decide

theorem searchFrom_missing (arr : List Int) (x : Int) (missing : x ∉ arr) (i count : Nat)
    (inside : i+count ≤ arr.length) : searchFrom arr x i count = .ok (-1) := by
  induction count generalizing i with
  | zero => rfl
  | succ count ih =>
    have bound : i < arr.length := by omega
    have different : arr[i] ≠ x := fun same => missing (same ▸ List.getElem_mem bound)
    rw [searchFrom,load_inside _ _ _ bound]
    simp only [bind,Except.bind,if_neg different]
    exact ih (i+1) (by omega)

theorem searchFrom_first (arr : List Int) (x : Int) (k : Nat) (bound : k < arr.length)
    (found : arr[k] = x) (first : ∀ j (before : j < k), arr[j] ≠ x) (i count : Nat)
    (low : i ≤ k) (high : k < i+count) (inside : i+count ≤ arr.length) :
    searchFrom arr x i count = .ok k := by
  induction count generalizing i with
  | zero => omega
  | succ count ih =>
    have here : i < arr.length := by omega
    rw [searchFrom,load_inside _ _ _ here]
    simp only [bind,Except.bind]
    by_cases same : i = k
    · subst same
      rw [if_pos found]
    · rw [if_neg (first i (by omega))]
      exact ih (i+1) (by omega) (by omega) (by omega)

theorem binarySearch_first (arr : List Int) (l x : Int) (k : Nat) (bound : k < arr.length)
    (found : arr[k] = x) (first : ∀ j (before : j < k), arr[j] ≠ x) :
    binarySearch arr l arr.length x = .ok k :=
  searchFrom_first arr x k bound found first 0 _ (by omega) (by simpa using bound) (by simp)

theorem binarySearch_missing (arr : List Int) (l x : Int) (missing : x ∉ arr) :
    binarySearch arr l arr.length x = .ok (-1) :=
  searchFrom_missing arr x missing 0 _ (by simp)

end Spsc.RadixSort
