import Spsc.Allocator.Exact

/-! One block at a time, as Jane uses the allocator: she is always given the
first buffers, and giving them back restores both pools. -/
namespace Spsc.Allocator

section Single
variable (dataPtr : Int) (members u : Nat)

def lent : Asgard where
  dataPtr := dataPtr
  members := members
  freePool := ((Pool.full members).drop u).array
  busyPool := ((Pool.full members).take u).array

theorem allIds_first (some : 0 < (allIds members).length) : (allIds members)[0] = 1 := by
  simp [allIds]

theorem lent_exact : Exact (lent dataPtr members u) ((Pool.full members).drop u) ((Pool.full members).take u) where
  free_array := rfl
  busy_array := rfl
  ids := List.perm_append_comm.trans (.of_eq (List.take_append_drop u (allIds members)))

theorem Pool.array_congr {members : Nat} (left right : Pool members) (same : left.ids.Perm right.ids) :
    left.array = right.array := by
  rw [Pool.array,Pool.array,Pool.ids_unique left right same]

variable (top : (members : Int) ≤ INT_MAX) (positive : 1 ≤ u) (fits : u ≤ members)
include top positive fits

theorem shmAlloc_idle :
    shmAlloc (freePoolInit dataPtr members) u = .ok (some (dataPtr+1024),lent dataPtr members u) := by
  have enough : u ≤ (Pool.full members).ids.length := by
    simp only [Pool.full,allIds_length]
    exact fits
  obtain ⟨next,granted,perm,_⟩ := (freePoolInit_pools dataPtr members).granted top u positive fits (by omega) enough
  have taken : next.array = ((Pool.full members).take u).array :=
    Pool.array_congr next ((Pool.full members).take u) (perm.trans (.of_eq (List.append_nil _)))
  have some : 0 < (Pool.full members).ids.length := by omega
  have first : (Pool.full members).ids[0] = 1 := allIds_first members some
  rw [granted,first,taken]
  rfl

theorem shmDealloc_lent :
    shmDealloc (lent dataPtr members u) u (dataPtr+1024) = .ok (freePoolInit dataPtr members) := by
  have size : ((Pool.full members).take u).ids.length = u := by
    simp only [Pool.take,Pool.full,List.length_take,allIds_length]
    omega
  have some : 0 < ((Pool.full members).take u).ids.length := by omega
  have first : ((Pool.full members).take u).ids[0] = 1 := by
    simp only [Pool.take,Pool.full,List.getElem_take]
    exact allIds_first members (by rw [allIds_length]; omega)
  obtain ⟨pool,freed,perm⟩ : ∃ pool : Pool members, shmDealloc (lent dataPtr members u) u (dataPtr+1024) =
      .ok ⟨dataPtr,members,pool.array,(((Pool.full members).take u).drop u).array⟩ ∧
      pool.ids.Perm (((Pool.full members).drop u).ids ++ ((Pool.full members).take u).ids.take u) := by
    obtain ⟨pool,freed,perm,_⟩ := (lent_exact dataPtr members u).freed_front top u fits 0 (by omega) rfl (by omega)
    rw [first,one_mul] at freed
    exact ⟨pool,freed,perm⟩
  have whole : pool.array = (Pool.full members).array := by
    refine Pool.array_congr pool (Pool.full members) (perm.trans ?_)
    rw [List.take_of_length_le size.le]
    exact List.perm_append_comm.trans (.of_eq (List.take_append_drop u (allIds members)))
  have none_left : (((Pool.full members).take u).drop u).array = (Pool.empty members).array := by
    refine Pool.array_congr (((Pool.full members).take u).drop u) (Pool.empty members) (.of_eq ?_)
    exact List.drop_of_length_le size.le
  have idle := freePoolInit_pools dataPtr members
  have all : (Pool.full members).array = (freePoolInit dataPtr members).freePool := idle.free_array.symm
  have none_busy : (Pool.empty members).array = (freePoolInit dataPtr members).busyPool := idle.busy_array.symm
  rw [freed,whole,none_left,all,none_busy]
  rfl

end Single
end Spsc.Allocator
