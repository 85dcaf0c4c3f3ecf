import Spsc.Allocator.Pools

/-! One lemma for each call of the allocator. The free pool is always a `Pool`;
the busy pool may have holes, so its array is described as it stands. -/
namespace Spsc.Allocator
open Imperative RadixSort

/-- What every state of the allocator has: ids in range, none of them twice,
and a free pool that is ascending with its zeros last. -/
structure Orderly (asgard : Asgard) (free : Pool asgard.members) : Prop where
  top : (asgard.members : Int) ≤ INT_MAX
  free_array : asgard.freePool = free.array
  busy_length : asgard.busyPool.length = asgard.members
  busy_inside : ∀ id ∈ asgard.busyPool, 0 ≤ id ∧ id ≤ asgard.members
  distinct : (free.ids ++ nonzero asgard.busyPool).Nodup

section Alloc
variable (asgard : Asgard) (free : Pool asgard.members) (orderly : Orderly asgard free)
  (num : Nat) (fits : num ≤ asgard.members)

include orderly fits

theorem shmAlloc_refuses (short : free.ids.length < num) :
    shmAlloc asgard num = .ok (none,asgard) := by
  have none_free : hasFree asgard.freePool 0 num = .ok false := by
    rw [orderly.free_array,Pool.array]
    have := hasFree_short free.ids (asgard.members-free.ids.length) free.used [] num short (by omega)
    simpa using this
  rw [shmAlloc,assert_holds _ (by exact_mod_cast fits),Int.toNat_natCast,none_free]
  rfl

/-- Otherwise it hands out the smallest ids, and writes them over the tail of
the busy pool: what stood there is lost. -/
theorem shmAlloc_grants (positive : 1 ≤ num) (some_free : 0 < free.ids.length) (enough : num ≤ free.ids.length) :
    ∃ busy : Pool asgard.members,
      shmAlloc asgard num = .ok (some (asgard.dataPtr + free.ids[0] * 1024),
        { asgard with freePool := (free.drop num).array, busyPool := busy.array }) ∧
      busy.ids.Perm (free.ids.take num ++ nonzero (asgard.busyPool.take (asgard.members-num))) ∧
      Orderly { asgard with freePool := (free.drop num).array, busyPool := busy.array } (free.drop num) := by
  have all_free : hasFree asgard.freePool 0 num = .ok true := by
    rw [orderly.free_array,Pool.array]
    have := hasFree_all free.ids (List.replicate (asgard.members-free.ids.length) 0) free.used [] num enough
    simpa using this
  have first : load Fault.bounds asgard.freePool 0 = .ok free.ids[0] := by
    have found := load_inside Fault.bounds asgard.freePool 0 (by rw [orderly.free_array]; simp; omega)
    simp only [orderly.free_array,Pool.array,List.getElem_append_left (by omega : 0 < free.ids.length)] at found
    rw [orderly.free_array]
    exact found
  have taken := free.array_take num enough
  have moved := transfer_moves asgard.members 0 num asgard.freePool asgard.busyPool (by omega) fits
    (by rw [orderly.free_array,Pool.array_length]) orderly.busy_length
  rw [Nat.sub_zero,Nat.sub_zero,List.take_zero,List.nil_append,List.drop_zero,← orderly.busy_length,
    List.drop_length,List.append_nil,orderly.busy_length,orderly.free_array,taken] at moved
  have cleared := free.moveArray_cleared num enough
  have mixed : (nonzero (asgard.busyPool.take (asgard.members-num) ++ (free.ids.take num).reverse)).Perm
      (free.ids.take num ++ nonzero (asgard.busyPool.take (asgard.members-num))) := by
    rw [nonzero_append,nonzero_eq_self (free.ids.take num).reverse (by
      intro id member
      exact free.used id (List.mem_of_mem_take (List.mem_reverse.mp member)))]
    exact ((List.reverse_perm _).append_left _).trans List.perm_append_comm
  have distinct : (free.ids.take num ++ nonzero (asgard.busyPool.take (asgard.members-num))).Nodup :=
    orderly.distinct.sublist ((List.take_sublist _ _).append ((List.take_sublist _ _).filter _))
  obtain ⟨sorted,busy,ran,compacted,perm⟩ := Pool.of_settle
    (asgard.busyPool.take (asgard.members-num) ++ (free.ids.take num).reverse)
    (by simp [orderly.busy_length]; omega) orderly.top (by
      intro id member
      rcases List.mem_append.mp member with old | new
      · exact orderly.busy_inside id (List.mem_of_mem_take old)
      · have := free.inside id (List.mem_of_mem_take (List.mem_reverse.mp new))
        omega) (mixed.nodup_iff.mpr distinct)
  have apart : ((free.drop num).ids ++ busy.ids).Nodup := by
    have regroup : ((free.drop num).ids ++ busy.ids).Perm
        (free.ids ++ nonzero (asgard.busyPool.take (asgard.members-num))) := by
      apply ((perm.trans mixed).append_left _).trans
      rw [← List.append_assoc]
      conv_rhs => rw [← List.take_append_drop num free.ids]
      exact List.perm_append_comm.append_right _
    exact regroup.nodup_iff.mpr
      (orderly.distinct.sublist ((List.Sublist.refl _).append ((List.take_sublist _ _).filter _)))
  refine ⟨busy,?_,perm.trans mixed,orderly.top,rfl,busy.array_length,busy.array_inside,by
    rw [Pool.nonzero_array]; exact apart⟩
  rw [shmAlloc,assert_holds _ (by exact_mod_cast fits),Int.toNat_natCast,all_free]
  simp only [bind,Except.bind,Bool.not_true,Bool.false_eq_true,if_false,first]
  rw [orderly.free_array,moved]
  simp only [cleared,ran,compacted]

end Alloc

/-- The number of the block that `shm_dealloc` is given. -/
theorem block_number (dataPtr id : Int) : (dataPtr + id*1024 - dataPtr).tdiv 1024 = id := by
  rw [add_sub_cancel_left]
  exact Int.mul_tdiv_cancel id (by omega)

section Dealloc
variable (asgard : Asgard) (free : Pool asgard.members) (orderly : Orderly asgard free)
  (num : Nat) (fits : num ≤ asgard.members)

/-- The entries that the free loop clears, from position `binres` to `num`. -/
def cleared (binres num : Nat) (busyPool : List Int) : List Int := (busyPool.take num).drop binres

def remaining (binres num : Nat) (busyPool : List Int) : List Int :=
  busyPool.take binres ++ List.replicate (num-binres) 0 ++ busyPool.drop (max binres num)

def refilled (members binres num : Nat) (busyPool freePool : List Int) : List Int :=
  freePool.take (members - max binres num) ++ (cleared binres num busyPool).reverse ++
    freePool.drop (members-binres)

theorem transfer_clears (members binres num : Nat) (busyPool freePool : List Int)
    (room : num ≤ members) (sized : busyPool.length = members)
    (fsized : freePool.length = members) :
    transfer members binres num busyPool freePool =
      .ok (remaining binres num busyPool,refilled members binres num busyPool freePool) := by
  by_cases order : binres ≤ num
  · rw [transfer_moves members binres num busyPool freePool order room sized fsized]
    simp only [remaining,refilled,cleared,Nat.max_eq_right order]
  · rw [transfer_none members binres num busyPool freePool (by omega)]
    have nothing : (busyPool.take num).drop binres = [] := List.drop_of_length_le (by simp; omega)
    simp only [remaining,refilled,cleared,nothing,Nat.max_eq_left (by omega : num ≤ binres),
      (by omega : num-binres = 0),List.replicate_zero,List.append_nil,List.reverse_nil,
      List.take_append_drop]

theorem cleared_remaining (binres num : Nat) (busyPool : List Int) :
    (nonzero (cleared binres num busyPool) ++ nonzero (remaining binres num busyPool)).Perm
      (nonzero busyPool) := by
  have behind : busyPool.drop (max binres num) = (busyPool.drop binres).drop (num-binres) := by
    rw [List.drop_drop]
    congr 1
    omega
  have whole : nonzero busyPool = nonzero (busyPool.take binres) ++
      (nonzero ((busyPool.drop binres).take (num-binres)) ++ nonzero (busyPool.drop (max binres num))) := by
    rw [behind,← nonzero_append,← nonzero_append,List.take_append_drop,List.take_append_drop]
  rw [whole,cleared,List.drop_take,remaining,nonzero_append,nonzero_append,nonzero_zeros,List.append_nil,
    ← List.append_assoc,← List.append_assoc]
  exact List.perm_append_comm.append_right _

theorem refilled_perm (members binres num : Nat) (busyPool freePool : List Int) :
    (nonzero (refilled members binres num busyPool freePool)).Perm
      (nonzero (freePool.take (members - max binres num)) ++ nonzero (freePool.drop (members-binres)) ++
        nonzero (cleared binres num busyPool)) := by
  rw [refilled,nonzero_append,nonzero_append,List.append_assoc,List.append_assoc]
  refine List.Perm.append_left _ (List.perm_append_comm.trans (List.Perm.append_left _ ?_))
  exact (List.reverse_perm _).filter _

omit fits in
theorem idle_sublist (free : Pool asgard.members) (binres num : Nat) :
    (nonzero (free.array.take (asgard.members - max binres num)) ++
      nonzero (free.array.drop (asgard.members-binres))).Sublist free.ids := by
  rw [← nonzero_append]
  conv_rhs => rw [← free.nonzero_array]
  apply List.Sublist.filter _
  conv_rhs => rw [← List.take_append_drop (asgard.members-binres) free.array]
  exact (List.take_sublist_take_left (by omega)).append_right _

include orderly in
theorem freed_distinct (binres : Nat) :
    (nonzero (refilled asgard.members binres num asgard.busyPool free.array) ++
      nonzero (remaining binres num asgard.busyPool)).Nodup := by
  refine (((refilled_perm asgard.members binres num asgard.busyPool free.array).append_right _).trans
    ?_).nodup_iff.mpr (orderly.distinct.sublist ((idle_sublist asgard free binres num).append_right _))
  rw [List.append_assoc]
  exact (cleared_remaining binres num asgard.busyPool).append_left _

include orderly fits

theorem shmDealloc_moves (id : Int) (binres : Nat) (bound : binres < asgard.busyPool.length)
    (found : asgard.busyPool[binres] = id) (first : ∀ j (before : j < binres), asgard.busyPool[j] ≠ id) :
    ∃ (pool : Pool asgard.members) (busyPool : List Int),
      shmDealloc asgard num (asgard.dataPtr + id*1024) =
        .ok { asgard with freePool := pool.array, busyPool := busyPool } ∧
      moveArray (remaining binres num asgard.busyPool) = .ok busyPool ∧
      pool.ids.Perm (nonzero (refilled asgard.members binres num asgard.busyPool free.array)) ∧
      Orderly { asgard with freePool := pool.array, busyPool := busyPool } pool := by
  have inArray : binres < asgard.members := by rw [← orderly.busy_length]; exact bound
  have searched := binarySearch_first asgard.busyPool 0 id binres bound found first
  rw [orderly.busy_length] at searched
  have moved := transfer_clears asgard.members binres num asgard.busyPool free.array fits
    orderly.busy_length free.array_length
  have parts : ∀ x ∈ refilled asgard.members binres num asgard.busyPool free.array,
      x ∈ asgard.busyPool ∨ x ∈ free.array := by
    intro x member
    simp only [refilled,cleared,List.mem_append,List.mem_reverse] at member
    rcases member with (low | mid) | high
    · exact .inr (List.mem_of_mem_take low)
    · exact .inl (List.mem_of_mem_take (List.mem_of_mem_drop mid))
    · exact .inr (List.mem_of_mem_drop high)
  have distinct := freed_distinct asgard free orderly num binres
  obtain ⟨sorted,pool,ran,compacted,perm⟩ := Pool.of_settle
    (refilled asgard.members binres num asgard.busyPool free.array)
    (by simp [refilled,cleared,orderly.busy_length]; omega) orderly.top (by
      intro x member
      rcases parts x member with busy | idle
      · exact orderly.busy_inside x busy
      · exact free.array_inside x idle) (List.Nodup.of_append_left distinct)
  obtain ⟨zeros,items,split,compactBusy⟩ := moveArray_split (remaining binres num asgard.busyPool)
  have same : (items ++ List.replicate zeros 0).Perm (remaining binres num asgard.busyPool) := by
    rw [split]
    exact List.perm_append_comm
  refine ⟨pool,_,?_,compactBusy,perm,orderly.top,rfl,?_,?_,?_⟩
  · unfold shmDealloc
    simp only [block_number]
    rw [searched]
    simp only [bind,Except.bind]
    rw [assert_holds _ (by omega)]
    simp only [Int.toNat_natCast]
    rw [orderly.free_array,moved]
    simp only [ran,compacted,compactBusy]
  · rw [same.length_eq,remaining]
    simp [orderly.busy_length]
    omega
  · intro x member
    rw [same.mem_iff,remaining] at member
    simp only [List.mem_append,List.mem_replicate] at member
    rcases member with (low | ⟨_,rfl⟩) | high
    · exact orderly.busy_inside x (List.mem_of_mem_take low)
    · exact ⟨le_rfl,by positivity⟩
    · exact orderly.busy_inside x (List.mem_of_mem_drop high)
  · exact (perm.append (same.filter _)).nodup_iff.mpr distinct

omit fits in
theorem shmDealloc_aborts (id : Int) (missing : id ∉ asgard.busyPool) :
    shmDealloc asgard num (asgard.dataPtr + id*1024) = .error .assert := by
  have searched := binarySearch_missing asgard.busyPool 0 id missing
  rw [orderly.busy_length] at searched
  unfold shmDealloc
  simp only [block_number]
  rw [searched]
  rfl

end Dealloc
end Spsc.Allocator
