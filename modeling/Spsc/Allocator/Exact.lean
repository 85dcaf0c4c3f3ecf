import Spsc.Allocator.Calls
import Spsc.Lib.Ascending

/-! The states in which no id is lost: the two pools are ascending with their
zeros last and together hold `1..members` once each. -/
namespace Spsc.Allocator
open Imperative RadixSort

def allIds (members : Nat) : List Int := (List.range members).map (fun (i : Nat) => (i : Int)+1)

theorem mem_allIds (members : Nat) (id : Int) : id ∈ allIds members ↔ 1 ≤ id ∧ id ≤ members := by
  simp only [allIds,List.mem_map,List.mem_range]
  constructor
  · rintro ⟨i,bound,rfl⟩
    omega
  · intro bounds
    exact ⟨(id-1).toNat,by omega,by omega⟩

theorem allIds_ascending (members : Nat) : (allIds members).Pairwise (· < ·) := by
  rw [allIds,List.pairwise_map]
  apply List.pairwise_lt_range.imp
  intro i j less
  omega

theorem allIds_length (members : Nat) : (allIds members).length = members := by simp [allIds]

structure Exact (asgard : Asgard) (free busy : Pool asgard.members) : Prop where
  free_array : asgard.freePool = free.array
  busy_array : asgard.busyPool = busy.array
  ids : (free.ids ++ busy.ids).Perm (allIds asgard.members)

/-- No id is lost or duplicated, and both pools are in shape. -/
def IdsExact (asgard : Asgard) : Prop := ∃ free busy, Exact asgard free busy

def Pool.full (members : Nat) : Pool members :=
  ⟨allIds members,allIds_ascending members,fun id => (mem_allIds members id).mp⟩

def Pool.empty (members : Nat) : Pool members := ⟨[],.nil,by simp⟩

theorem freePoolInit_pools (dataPtr : Int) (members : Nat) :
    Exact (freePoolInit dataPtr members) (Pool.full members) (Pool.empty members) where
  free_array := by
    simp only [Pool.array,Pool.full,allIds_length,freePoolInit,Nat.sub_self,List.replicate_zero,
      List.append_nil]
    rfl
  busy_array := by simp [Pool.array,Pool.empty,freePoolInit]
  ids := .of_eq (List.append_nil _)

theorem freePoolInit_exact (dataPtr : Int) (members : Nat) : IdsExact (freePoolInit dataPtr members) :=
  ⟨_,_,freePoolInit_pools dataPtr members⟩

namespace Exact
variable {asgard : Asgard} {free busy : Pool asgard.members} (exact : Exact asgard free busy)
include exact

theorem lengths : free.ids.length + busy.ids.length = asgard.members := by
  simpa [allIds_length] using exact.ids.length_eq

theorem mem (id : Int) : id ∈ free.ids ∨ id ∈ busy.ids ↔ 1 ≤ id ∧ id ≤ asgard.members := by
  rw [← mem_allIds,← exact.ids.mem_iff,List.mem_append]

theorem nodup : (free.ids ++ busy.ids).Nodup := by
  refine exact.ids.nodup_iff.mpr ((allIds_ascending asgard.members).imp ?_)
  intro x y less
  omega

theorem apart (id : Int) (idle : id ∈ free.ids) : id ∉ busy.ids :=
  fun used => List.disjoint_of_nodup_append exact.nodup idle used

theorem orderly (top : (asgard.members : Int) ≤ INT_MAX) : Orderly asgard free where
  top := top
  free_array := exact.free_array
  busy_length := by rw [exact.busy_array,Pool.array_length]
  busy_inside := by rw [exact.busy_array]; exact busy.array_inside
  distinct := by rw [exact.busy_array,Pool.nonzero_array]; exact exact.nodup

theorem kept (num : Nat) (enough : num ≤ free.ids.length) :
    nonzero (asgard.busyPool.take (asgard.members-num)) = busy.ids := by
  have total := exact.lengths
  rw [exact.busy_array,Pool.array,List.take_append,List.take_of_length_le (by omega),
    List.take_replicate,nonzero_append,nonzero_zeros,List.append_nil,nonzero_eq_self _ busy.used]

theorem granted (top : (asgard.members : Int) ≤ INT_MAX) (num : Nat) (positive : 1 ≤ num)
    (fits : num ≤ asgard.members) (some_free : 0 < free.ids.length) (enough : num ≤ free.ids.length) :
    ∃ next : Pool asgard.members,
      shmAlloc asgard num = .ok (some (asgard.dataPtr + free.ids[0] * 1024),
        { asgard with freePool := (free.drop num).array, busyPool := next.array }) ∧
      next.ids.Perm (free.ids.take num ++ busy.ids) ∧
      Exact { asgard with freePool := (free.drop num).array, busyPool := next.array }
        (free.drop num) next := by
  obtain ⟨next,ran,perm,_⟩ := shmAlloc_grants asgard free (exact.orderly top) num fits positive some_free enough
  rw [exact.kept num enough] at perm
  refine ⟨next,ran,perm,rfl,rfl,?_⟩
  have regroup : (free.ids.drop num ++ (free.ids.take num ++ busy.ids)).Perm (free.ids ++ busy.ids) := by
    rw [← List.append_assoc]
    conv_rhs => rw [← List.take_append_drop num free.ids]
    exact List.perm_append_comm.append_right _
  exact (perm.append_left _).trans (regroup.trans exact.ids)

omit exact in
theorem remaining_ids (binres num : Nat) (held : max binres num ≤ busy.ids.length) :
    remaining binres num busy.array = busy.ids.take binres ++ List.replicate (num-binres) 0 ++
      (busy.ids.drop (max binres num) ++ List.replicate (asgard.members-busy.ids.length) 0) := by
  rw [remaining,Pool.array,List.take_append_of_le_length (by omega),
    List.drop_append_of_le_length held]

theorem refilled_ids (binres num : Nat) (held : max binres num ≤ busy.ids.length) :
    (nonzero (refilled asgard.members binres num asgard.busyPool free.array)).Perm
      (free.ids ++ (busy.ids.take num).drop binres) := by
  have total := exact.lengths
  have whole : free.array.take (asgard.members - max binres num) = free.ids ++
      List.replicate (asgard.members - max binres num - free.ids.length) 0 := by
    rw [Pool.array,List.take_append,List.take_of_length_le (by omega),List.take_replicate]
    congr 2
    omega
  have none_left : nonzero (free.array.drop (asgard.members-binres)) = [] := by
    rw [Pool.array,List.drop_append,List.drop_of_length_le (by omega),List.nil_append,
      List.drop_replicate,nonzero_zeros]
  have moved : cleared binres num asgard.busyPool = (busy.ids.take num).drop binres := by
    rw [cleared,exact.busy_array,busy.array_take num (by omega)]
  have used : nonzero ((busy.ids.take num).drop binres).reverse = ((busy.ids.take num).drop binres).reverse :=
    nonzero_eq_self _ (fun id member => busy.used id
      (List.mem_of_mem_take (List.mem_of_mem_drop (List.mem_reverse.mp member))))
  rw [refilled,nonzero_append,nonzero_append,whole,none_left,moved,nonzero_append,nonzero_zeros,used,
    nonzero_eq_self _ free.used,List.append_nil,List.append_nil]
  exact (List.reverse_perm _).append_left _

section Dealloc
variable (top : (asgard.members : Int) ≤ INT_MAX) (num : Nat) (fits : num ≤ asgard.members)
  (binres : Nat) (bound : binres < busy.ids.length)

include top fits

theorem freed : ∃ (pool : Pool asgard.members) (busyPool : List Int),
    shmDealloc asgard num (asgard.dataPtr + busy.ids[binres]*1024) =
      .ok { asgard with freePool := pool.array, busyPool := busyPool } ∧
    moveArray (remaining binres num busy.array) = .ok busyPool ∧
    pool.ids.Perm (nonzero (refilled asgard.members binres num asgard.busyPool free.array)) := by
  have here : binres < asgard.busyPool.length := by
    rw [exact.busy_array]
    have := busy.length_le
    simp
    omega
  have at_binres : ∀ j (stored : j < asgard.busyPool.length) (used : j < busy.ids.length),
      asgard.busyPool[j] = busy.ids[j] := by
    intro j stored used
    simp only [exact.busy_array,Pool.array]
    exact List.getElem_append_left _
  obtain ⟨pool,busyPool,ran,moved,perm,_⟩ := shmDealloc_moves asgard free (exact.orderly top) num fits
    busy.ids[binres] binres here (at_binres binres here bound) (by
      intro j before same
      rw [at_binres j (by omega) (by omega)] at same
      have := Ascending.getElem_lt busy.ascending before (by omega) bound
      omega)
  rw [exact.busy_array] at moved
  exact ⟨pool,busyPool,ran,moved,perm⟩

/-- Past the first `num` positions the free loop does not run: nothing changes. -/
theorem freed_past (past : num ≤ binres) :
    shmDealloc asgard num (asgard.dataPtr + busy.ids[binres]*1024) = .ok asgard := by
  obtain ⟨pool,busyPool,ran,moved,perm⟩ := exact.freed top num fits binres bound
  have kept : remaining binres num busy.array = busy.array := by
    rw [remaining,Nat.max_eq_left past,(by omega : num-binres = 0),List.replicate_zero,List.append_nil,
      List.take_append_drop]
  rw [kept,busy.moveArray_array] at moved
  have none_moved : (busy.ids.take num).drop binres = [] := List.drop_of_length_le (by simp; omega)
  have same := perm.trans (exact.refilled_ids binres num (by omega))
  rw [none_moved,List.append_nil] at same
  rw [ran,Pool.array,Pool.ids_unique pool free same,← Except.ok.inj moved,← exact.busy_array,
    ← Pool.array,← exact.free_array]

theorem freed_front (front : binres = 0) (held : num ≤ busy.ids.length) :
    ∃ pool : Pool asgard.members,
      shmDealloc asgard num (asgard.dataPtr + busy.ids[binres]*1024) =
        .ok { asgard with freePool := pool.array, busyPool := (busy.drop num).array } ∧
      pool.ids.Perm (free.ids ++ busy.ids.take num) ∧
      Exact { asgard with freePool := pool.array, busyPool := (busy.drop num).array }
        pool (busy.drop num) := by
  obtain ⟨pool,busyPool,ran,moved,perm⟩ := exact.freed top num fits binres bound
  subst front
  have rest : remaining 0 num busy.array = List.replicate num 0 ++ busy.array.drop num := by
    simp [remaining]
  rw [rest,busy.moveArray_cleared num held] at moved
  have same := perm.trans (exact.refilled_ids 0 num (by omega))
  rw [List.drop_zero] at same
  obtain rfl := Except.ok.inj moved
  refine ⟨pool,ran,same,rfl,rfl,?_⟩
  have regroup : (pool.ids ++ busy.ids.drop num).Perm (free.ids ++ busy.ids) := by
    refine (same.append_right _).trans (.of_eq ?_)
    rw [List.append_assoc,List.take_append_drop]
  exact regroup.trans exact.ids

theorem freed_tail (held : num = busy.ids.length) :
    ∃ pool : Pool asgard.members,
      shmDealloc asgard num (asgard.dataPtr + busy.ids[binres]*1024) =
        .ok { asgard with freePool := pool.array, busyPool := (busy.take binres).array } ∧
      Exact { asgard with freePool := pool.array, busyPool := (busy.take binres).array }
        pool (busy.take binres) := by
  obtain ⟨pool,busyPool,ran,moved,perm⟩ := exact.freed top num fits binres bound
  have rest : remaining binres num busy.array = (busy.take binres).array := by
    have := busy.length_le
    rw [remaining_ids binres num (by omega),List.drop_of_length_le (by omega),List.nil_append,
      List.append_assoc,List.replicate_append_replicate,Pool.array]
    simp only [Pool.take,List.length_take]
    congr 2
    omega
  rw [rest,Pool.moveArray_array] at moved
  have same := perm.trans (exact.refilled_ids binres num (by omega))
  rw [held,List.take_length] at same
  obtain rfl := Except.ok.inj moved
  refine ⟨pool,ran,rfl,rfl,?_⟩
  have regroup : (pool.ids ++ busy.ids.take binres).Perm (free.ids ++ busy.ids) := by
    apply (same.append_right _).trans
    rw [List.append_assoc]
    conv_rhs => rw [← List.take_append_drop binres busy.ids]
    exact List.perm_append_comm.append_left _
  exact regroup.trans exact.ids

end Dealloc
end Exact
end Spsc.Allocator
