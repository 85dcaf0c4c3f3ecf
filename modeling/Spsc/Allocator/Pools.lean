import Spsc.Allocator
import Spsc.RadixSort.Sorted
import Spsc.RadixSort.Move

/-! What `shm_alloc` and `shm_dealloc` do to the two pools, for arrays in any
shape: the ids that move, and the sort-and-compact that follows. -/
namespace Spsc.Allocator
open Imperative RadixSort

def nonzero (pool : List Int) : List Int := pool.filter (fun id => id != 0)

theorem nonzero_append (left right : List Int) :
    nonzero (left ++ right) = nonzero left ++ nonzero right := by simp [nonzero]

@[simp] theorem nonzero_zeros (count : Nat) : nonzero (List.replicate count 0) = [] := by
  simp [nonzero]

theorem mem_nonzero (pool : List Int) (id : Int) : id ∈ nonzero pool ↔ id ∈ pool ∧ id ≠ 0 := by
  simp [nonzero]

theorem nonzero_eq_self (ids : List Int) (used : ∀ id ∈ ids, id ≠ 0) : nonzero ids = ids := by
  simpa [nonzero,List.filter_eq_self] using used

theorem transfer_moves (members first num : Nat) (source target : List Int)
    (order : first ≤ num) (room : num ≤ members) (sized : source.length = members)
    (tsized : target.length = members) :
    transfer members first num source target =
      .ok (source.take first ++ List.replicate (num-first) 0 ++ source.drop num,
        target.take (members-num) ++ ((source.take num).drop first).reverse ++
          target.drop (members-first)) := by
  have moved := forLoop_closed (fun i (state : List Int × List Int) => do
      let id ← load Fault.bounds state.1 i
      let target ← store .bounds state.2 ((members : Int)-1-i) id
      let source ← store .bounds state.1 i 0
      .ok (source,target))
    (fun i => (source.take first ++ List.replicate (i-first) 0 ++ source.drop i,
      target.take (members-i) ++ ((source.take i).drop first).reverse ++
        target.drop (members-first))) first (num-first) (by
      intro i low high
      have bound : i < source.length := by omega
      have back : members-1-i < target.length := by omega
      have index : (members : Int)-1-i = ((members-1-i : Nat) : Int) := by omega
      have front : (source.take first ++ List.replicate (i-first) (0 : Int)).length = i := by
        simp; omega
      have cut : target.take (members-i) = target.take (members-1-i) ++ [target[members-1-i]] := by
        rw [(by omega : members-i = members-1-i+1),List.take_succ_eq_append_getElem back]
      have ahead : (target.take (members-1-i)).length = members-1-i := by simp; omega
      have grown : (source.take (i+1)).drop first = (source.take i).drop first ++ [source[i]] := by
        rw [List.take_succ_eq_append_getElem bound,List.drop_append_of_le_length (by simp; omega)]
      rw [List.drop_eq_getElem_cons bound,load_middle _ _ _ _ _ front]
      simp only [bind,Except.bind]
      rw [cut,index,List.append_assoc,List.append_assoc,List.singleton_append,
        store_middle _ _ _ _ _ _ ahead]
      simp only []
      rw [store_middle _ _ _ _ _ _ front,grown,(by omega : i+1-first = i-first+1),
        List.replicate_succ',(by omega : members-(i+1) = members-1-i)]
      simp)
  simpa [transfer,Nat.add_sub_cancel' order,sized,tsized] using moved

theorem transfer_none (members first num : Nat) (source target : List Int) (past : num ≤ first) :
    transfer members first num source target = .ok (source,target) := by
  rw [transfer,(by omega : num-first = 0)]
  rfl

theorem hasFree_next (front ids rest : List Int) (id : Int) (used : id ≠ 0) (count : Nat) :
    hasFree (front ++ id::ids ++ rest) front.length (count+1) =
      hasFree (front ++ [id] ++ ids ++ rest) (front ++ [id]).length count := by
  rw [hasFree,List.append_assoc,List.cons_append,load_middle _ _ _ _ _ rfl]
  simp only [bind,Except.bind,if_neg used]
  simp

theorem hasFree_all (ids rest : List Int) (used : ∀ id ∈ ids, id ≠ 0) (front : List Int)
    (count : Nat) (enough : count ≤ ids.length) :
    hasFree (front ++ ids ++ rest) front.length count = .ok true := by
  induction count generalizing front ids with
  | zero => rfl
  | succ count ih =>
    cases ids with
    | nil => simp at enough
    | cons id ids =>
      rw [hasFree_next front ids rest id (used id List.mem_cons_self)]
      exact ih ids (fun x member => used x (List.mem_cons_of_mem _ member)) (front ++ [id]) (by simpa using enough)

theorem hasFree_short (ids : List Int) (zeros : Nat) (used : ∀ id ∈ ids, id ≠ 0) (front : List Int)
    (count : Nat) (short : ids.length < count) (room : count ≤ ids.length+zeros) :
    hasFree (front ++ ids ++ List.replicate zeros 0) front.length count = .ok false := by
  induction count generalizing front ids with
  | zero => omega
  | succ count ih =>
    cases ids with
    | nil =>
      obtain ⟨left,rfl⟩ : ∃ left, zeros = left+1 := ⟨zeros-1,by simp at room; omega⟩
      rw [hasFree,List.append_nil,List.replicate_succ,load_middle _ _ _ _ _ rfl]
      rfl
    | cons id ids =>
      rw [hasFree_next front ids _ id (used id List.mem_cons_self)]
      exact ih ids (fun x member => used x (List.mem_cons_of_mem _ member)) (front ++ [id]) (by simpa using short)
        (by simp at room; omega)

theorem zeros_first (sorted : List Int) (nonneg : ∀ x ∈ sorted, 0 ≤ x)
    (ascending : sorted.Pairwise (· ≤ ·)) :
    ∃ count, sorted = List.replicate count 0 ++ nonzero sorted := by
  induction sorted with
  | nil => exact ⟨0,rfl⟩
  | cons x rest ih =>
    obtain ⟨least,tail⟩ := List.pairwise_cons.mp ascending
    by_cases zero : x = 0
    · obtain ⟨count,same⟩ := ih (fun y member => nonneg y (by simp [member])) tail
      refine ⟨count+1,?_⟩
      rw [List.replicate_succ,List.cons_append]
      subst zero
      simpa [nonzero] using same
    · have positive := nonneg x (by simp)
      have all : nonzero (x::rest) = x::rest := nonzero_eq_self _ (by
        intro y member
        rcases List.mem_cons.mp member with rfl | inRest
        · exact zero
        · have := least y inRest
          omega)
      exact ⟨0,by simp [all]⟩

/-- `radix_sort` followed by `move_array` leaves the non-zero entries in
ascending order at the front, whatever holes the array had. -/
theorem settle (pool : List Int) (inside : ∀ x ∈ pool, 0 ≤ x ∧ x ≤ INT_MAX)
    (distinct : (nonzero pool).Nodup) :
    ∃ sorted ids, radixSort pool = .ok sorted ∧
      moveArray sorted = .ok (ids ++ List.replicate (pool.length-ids.length) 0) ∧
      ids.Pairwise (· < ·) ∧ ids.Perm (nonzero pool) := by
  obtain ⟨sorted,ran,perm,ascending⟩ := radixSort_sorts pool inside
  have nonneg : ∀ x ∈ sorted, 0 ≤ x := fun x member => (inside x (perm.mem_iff.mp member)).1
  obtain ⟨count,split⟩ := zeros_first sorted nonneg ascending
  have same : (nonzero sorted).Perm (nonzero pool) := perm.filter _
  refine ⟨sorted,nonzero sorted,ran,?_,?_,same⟩
  · have size : count = pool.length - (nonzero sorted).length := by
      have := congrArg List.length split
      simp only [List.length_append,List.length_replicate,perm.length_eq] at this
      omega
    have head : (nonzero sorted).head? ≠ some 0 := by
      intro zero
      have member : (0 : Int) ∈ nonzero sorted := List.mem_of_mem_head? zero
      exact ((mem_nonzero _ _).mp member).2 rfl
    conv_lhs => rw [split]
    rw [moveArray_zeros _ _ head,← size]
  · have strict := (ascending.filter (fun id => id != 0)).and (same.nodup_iff.mpr distinct)
    apply strict.imp
    rintro x y ⟨le,ne⟩
    omega

/-- A pool as its users may think of it: the ids it holds, ascending. -/
structure Pool (members : Nat) where
  ids : List Int
  ascending : ids.Pairwise (· < ·)
  inside : ∀ id ∈ ids, 1 ≤ id ∧ id ≤ members

namespace Pool
variable {members : Nat}

def array (pool : Pool members) : List Int :=
  pool.ids ++ List.replicate (members - pool.ids.length) 0

theorem used (pool : Pool members) : ∀ id ∈ pool.ids, id ≠ 0 := by
  intro id member
  have := pool.inside id member
  omega

theorem nodup (pool : Pool members) : pool.ids.Nodup := by
  apply pool.ascending.imp
  intro x y less
  omega

theorem length_le (pool : Pool members) : pool.ids.length ≤ members := by
  have covered : pool.ids.Subperm ((List.range members).map (fun (i : Nat) => (i : Int)+1)) := by
    apply List.subperm_of_subset pool.nodup
    intro id member
    have := pool.inside id member
    exact List.mem_map.mpr ⟨(id-1).toNat,by simp; omega,by omega⟩
  simpa using covered.length_le

@[simp] theorem array_length (pool : Pool members) : pool.array.length = members := by
  have := pool.length_le
  simp [array]
  omega

@[simp] theorem nonzero_array (pool : Pool members) : nonzero pool.array = pool.ids := by
  rw [array,nonzero_append,nonzero_zeros,List.append_nil,nonzero_eq_self _ pool.used]

theorem array_inside (pool : Pool members) : ∀ id ∈ pool.array, 0 ≤ id ∧ id ≤ members := by
  intro id member
  rcases List.mem_append.mp member with held | zero
  · have := pool.inside id held
    omega
  · have := List.eq_of_mem_replicate zero
    omega

theorem ids_unique (left right : Pool members) (same : left.ids.Perm right.ids) :
    left.ids = right.ids :=
  same.eq_of_pairwise (fun x y _ _ (less : x < y) (more : y < x) => by omega)
    left.ascending right.ascending

def drop (pool : Pool members) (num : Nat) : Pool members where
  ids := pool.ids.drop num
  ascending := pool.ascending.sublist (List.drop_sublist _ _)
  inside := fun id member => pool.inside id (List.mem_of_mem_drop member)

theorem array_take (pool : Pool members) (num : Nat) (enough : num ≤ pool.ids.length) :
    pool.array.take num = pool.ids.take num := by
  rw [array,List.take_append_of_le_length enough]

theorem array_drop (pool : Pool members) (num : Nat) (enough : num ≤ pool.ids.length) :
    pool.array.drop num ++ List.replicate num 0 = (pool.drop num).array := by
  have := pool.length_le
  rw [array,List.drop_append_of_le_length enough,List.append_assoc,List.replicate_append_replicate]
  simp only [array,drop,List.length_drop]
  rw [(by omega : members-(pool.ids.length-num) = members-pool.ids.length+num)]

def take (pool : Pool members) (num : Nat) : Pool members where
  ids := pool.ids.take num
  ascending := pool.ascending.sublist (List.take_sublist _ _)
  inside := fun id member => pool.inside id (List.mem_of_mem_take member)

theorem array_getD (pool : Pool members) (i : Nat) : pool.array.getD i 0 ≠ 0 ↔ i < pool.ids.length := by
  rw [array,List.getD_eq_getElem?_getD]
  by_cases held : i < pool.ids.length
  · rw [List.getElem?_append_left held,List.getElem?_eq_getElem held]
    simpa [held] using pool.used _ (List.getElem_mem held)
  · rw [List.getElem?_append_right (by omega),List.getElem?_replicate]
    split <;> simp [held]

theorem array_getElem (pool : Pool members) (i : Nat) (bound : i < pool.ids.length) :
    pool.array.getD i 0 = pool.ids[i] := by
  rw [array,List.getD_eq_getElem?_getD,List.getElem?_append_left bound,List.getElem?_eq_getElem bound]
  rfl

theorem moveArray_array (pool : Pool members) : moveArray pool.array = .ok pool.array := by
  cases cases_ids : pool.ids with
  | nil =>
    have all := moveArray_zeros members [] (by simp)
    simpa [array,cases_ids] using all
  | cons id rest =>
    rw [array,cases_ids,List.cons_append]
    exact moveArray_cons id _ (pool.used id (by simp [cases_ids]))

theorem moveArray_cleared (pool : Pool members) (num : Nat) (enough : num ≤ pool.ids.length) :
    moveArray (List.replicate num 0 ++ pool.array.drop num) = .ok (pool.drop num).array := by
  have bound := pool.length_le
  by_cases emptied : pool.ids.length = num
  · have nothing : pool.ids.drop num = [] := by simp [emptied]
    have zeros : pool.array.drop num = List.replicate (members-num) 0 := by
      rw [array,List.drop_append_of_le_length enough,nothing,emptied]
      rfl
    have all := moveArray_zeros members [] (by simp)
    rw [List.append_nil,List.nil_append] at all
    rw [zeros,List.replicate_append_replicate,Nat.add_sub_cancel' (by omega),all,array]
    simp [drop,nothing]
  · have here : num < pool.ids.length := by omega
    rw [moveArray_zeros,pool.array_drop num enough]
    rw [array,List.head?_drop,List.getElem?_append_left here,List.getElem?_eq_getElem here]
    simpa using pool.used _ (List.getElem_mem here)

theorem of_settle (entries : List Int) (size : entries.length = members)
    (top : (members : Int) ≤ INT_MAX) (inside : ∀ x ∈ entries, 0 ≤ x ∧ x ≤ members)
    (distinct : (nonzero entries).Nodup) :
    ∃ (sorted : List Int) (pool : Pool members), radixSort entries = .ok sorted ∧
      moveArray sorted = .ok pool.array ∧ pool.ids.Perm (nonzero entries) := by
  obtain ⟨sorted,ids,ran,moved,ascending,perm⟩ := settle entries
    (fun x member => ⟨(inside x member).1,(inside x member).2.trans top⟩) distinct
  have ranged : ∀ id ∈ ids, 1 ≤ id ∧ id ≤ members := by
    intro id member
    obtain ⟨held,used⟩ := (mem_nonzero _ _).mp (perm.mem_iff.mp member)
    have := inside id held
    omega
  exact ⟨sorted,⟨ids,ascending,ranged⟩,ran,by rw [moved,size]; rfl,perm⟩

end Pool

end Spsc.Allocator
