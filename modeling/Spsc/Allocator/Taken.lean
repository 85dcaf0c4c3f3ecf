import Spsc.Allocator.Conserved

/-! What one call takes from one pool and gives to the other, from any state in
which no id is lost. -/
namespace Spsc.Allocator
open Imperative RadixSort Ascending

def padded (members : Nat) (ids : List Int) : List Int := ids ++ List.replicate (members-ids.length) 0

namespace Exact
variable {asgard : Asgard} {free busy : Pool asgard.members} (exact : Exact asgard free busy)
include exact

theorem free_ids : nonzero asgard.freePool = free.ids := by rw [exact.free_array,Pool.nonzero_array]

theorem busy_ids : nonzero asgard.busyPool = busy.ids := by rw [exact.busy_array,Pool.nonzero_array]

end Exact

/-- `shm_alloc` hands out nothing and changes nothing where fewer than `num` ids
are free; otherwise the `num` smallest free ids go over to the busy pool. -/
theorem shmAlloc_takes (asgard : Asgard) (top : (asgard.members : Int) ≤ INT_MAX) (exact : IdsExact asgard)
    (num : Nat) (positive : 1 ≤ num) (fits : num ≤ asgard.members) :
    ∃ root next, shmAlloc asgard num = .ok (root,next) ∧
      (root = none ↔ (nonzero asgard.freePool).length < num) ∧
      (root = none → next = asgard) ∧
      (root ≠ none → ∃ id ∈ nonzero asgard.freePool, (∀ other ∈ nonzero asgard.freePool, id ≤ other) ∧
        root = some (asgard.dataPtr + 1024*id) ∧
        next = { asgard with
          freePool := padded asgard.members ((nonzero asgard.freePool).drop num)
          busyPool := padded asgard.members
            (((nonzero asgard.freePool).take num).merge (nonzero asgard.busyPool) (· ≤ ·)) }) := by
  obtain ⟨free,busy,exact⟩ := exact
  rw [exact.free_ids,exact.busy_ids]
  by_cases short : free.ids.length < num
  · have refused := shmAlloc_refuses asgard free (exact.orderly top) num fits short
    exact ⟨none,asgard,refused,iff_of_true rfl short,fun _ => rfl,fun some => absurd rfl some⟩
  · have enough : num ≤ free.ids.length := Nat.le_of_not_lt short
    have bound : 0 < free.ids.length := Nat.lt_of_lt_of_le positive enough
    obtain ⟨taken,granted,perm,_⟩ := exact.granted top num positive fits bound enough
    have merged : taken.ids = (free.ids.take num).merge busy.ids (· ≤ ·) :=
      eq_merge taken.ascending (free.ascending.sublist (List.take_sublist _ _)) busy.ascending perm
    refine ⟨_,_,granted,iff_of_false (by simp) short,(fun none => nomatch none),fun _ => ?_⟩
    refine ⟨free.ids[0],List.getElem_mem bound,head_le free.ascending bound,?_,?_⟩
    · rw [Int.mul_comm]
    · rw [← merged]
      rfl

theorem shmAlloc_takes_two : ∃ next, shmAlloc ⟨4096,3,[1,3,0],[2,0,0]⟩ 2 = .ok (some 5120,next) ∧
    next.busyPool = [1,2,3] := by
  have whole : IdsExact ⟨4096,3,[1,3,0],[2,0,0]⟩ :=
    ⟨⟨[1,3],by decide,by decide⟩,⟨[2],by decide,by decide⟩,rfl,rfl,by decide⟩
  obtain ⟨root,next,ran,refused,_,granted⟩ := shmAlloc_takes ⟨4096,3,[1,3,0],[2,0,0]⟩ (by decide) whole 2 (by decide)
    (by decide)
  obtain ⟨id,member,least,place,after⟩ := granted (fun none => absurd (refused.mp none) (by decide))
  have low := least 1 (by decide)
  have high : 1 ≤ id := by
    have cases : id = 1 ∨ id = 3 := by simpa [nonzero] using member
    omega
  obtain rfl : id = 1 := le_antisymm low high
  rw [place] at ran
  exact ⟨next,ran,by rw [after]; simp [nonzero,padded]⟩

/-- The block's ids, and no others, went over to the free pool. -/
def FreesBlock (asgard : Asgard) (num : Nat) (id : Int) (next : Asgard) : Prop :=
  next = { asgard with
    freePool := padded asgard.members ((nonzero asgard.freePool).merge (consecutive id num) (· ≤ ·))
    busyPool := padded asgard.members ((nonzero asgard.busyPool).filter (fun other => other ∉ consecutive id num)) }

section Dealloc
variable {asgard : Asgard} {free busy : Pool asgard.members} (exact : Exact asgard free busy)
  (top : (asgard.members : Int) ≤ INT_MAX) (num : Nat) (positive : 1 ≤ num) (binres : Nat)
  (bound : binres < busy.ids.length) (run : ∀ j < num, busy.ids[binres] + (j : Nat) ∈ busy.ids)
include run

include positive in
theorem run_inside : binres+num ≤ busy.ids.length := by
  obtain ⟨inside,_⟩ := getElem_run busy.ascending binres bound _ rfl num run (num-1) (by omega)
  omega

theorem run_taken : (busy.ids.drop binres).take num = consecutive busy.ids[binres] num :=
  run_slice busy.ascending binres bound _ rfl num run

include exact top positive

/-- From the first place of the busy pool the free loop runs over the whole block. -/
theorem freesBlock_front (front : binres = 0) :
    ∃ next, shmDealloc asgard num (asgard.dataPtr + busy.ids[binres]*1024) = .ok next ∧
      FreesBlock asgard num busy.ids[binres] next := by
  have inside := run_inside num positive binres bound run
  have taken := run_taken num binres bound run
  have fits : num ≤ asgard.members := by
    have := busy.length_le
    omega
  obtain ⟨pool,freed,perm,_⟩ := exact.freed_front top num fits binres bound front (by omega)
  refine ⟨_,freed,?_⟩
  generalize busy.ids[binres] = id at taken
  subst front
  rw [List.drop_zero] at taken
  have block : (consecutive id num).Pairwise (· < ·) := taken ▸ busy.ascending.sublist (List.take_sublist _ _)
  rw [taken] at perm
  have given : pool.ids = free.ids.merge (consecutive id num) (· ≤ ·) :=
    eq_merge pool.ascending free.ascending block perm
  have left : (busy.drop num).ids = busy.ids.filter (fun other => other ∉ consecutive id num) := by
    rw [← taken]
    exact drop_eq_filter busy.ascending num
  unfold FreesBlock
  rw [exact.free_ids,exact.busy_ids,← given,← left]
  rfl

/-- From any other place it ends too early: fewer than `num` ids come back. -/
theorem freesBlock_short (after : 0 < binres) :
    ∃ next, shmDealloc asgard num (asgard.dataPtr + busy.ids[binres]*1024) = .ok next ∧
      ¬ FreesBlock asgard num busy.ids[binres] next := by
  have inside := run_inside num positive binres bound run
  have fits : num ≤ asgard.members := by
    have := busy.length_le
    omega
  obtain ⟨pool,_,freed,_,perm⟩ := exact.freed top num fits binres bound
  refine ⟨_,freed,fun frees => ?_⟩
  have moved := (perm.trans (exact.refilled_ids binres num (by omega))).length_eq
  have claimed : pool.array = padded asgard.members ((nonzero asgard.freePool).merge _ (· ≤ ·)) :=
    congrArg Asgard.freePool frees
  rw [exact.free_ids] at claimed
  have used : ∀ id ∈ free.ids.merge (consecutive busy.ids[binres] num) (· ≤ ·), id ≠ 0 := by
    intro id member
    rcases List.mem_merge.mp member with idle | freed
    · exact free.used id idle
    · rw [← run_taken num binres bound run] at freed
      exact busy.used id (List.mem_of_mem_drop (List.mem_of_mem_take freed))
  have all : pool.ids.length = free.ids.length+num := by
    rw [← pool.nonzero_array,claimed,padded,nonzero_append,nonzero_zeros,List.append_nil,nonzero_eq_self _ used,
      List.length_merge,consecutive_length]
  rw [List.length_append,List.length_drop,List.length_take] at moved
  omega

end Dealloc

/-- `shm_dealloc` frees the block that it is given exactly when no smaller id is
in use. -/
theorem shmDealloc_frees (asgard : Asgard) (top : (asgard.members : Int) ≤ INT_MAX) (exact : IdsExact asgard)
    (num : Nat) (id : Int) (positive : 1 ≤ num) (run : ∀ other ∈ consecutive id num, other ∈ nonzero asgard.busyPool) :
    ∃ next, shmDealloc asgard num (asgard.dataPtr + 1024*id) = .ok next ∧
      (FreesBlock asgard num id next ↔ ∀ other ∈ nonzero asgard.busyPool, id ≤ other) := by
  obtain ⟨free,busy,exact⟩ := exact
  rw [exact.busy_ids] at run ⊢
  obtain ⟨binres,bound,here⟩ := List.mem_iff_getElem.mp (run id ((mem_consecutive _ _ _).mpr (by omega)))
  subst here
  have inBusy : ∀ j < num, busy.ids[binres] + (j : Nat) ∈ busy.ids :=
    fun j small => run _ ((mem_consecutive _ _ _).mpr (by omega))
  rw [Int.mul_comm]
  rcases Nat.eq_zero_or_pos binres with front | after
  · obtain ⟨next,freed,frees⟩ := freesBlock_front exact top num positive binres bound inBusy front
    refine ⟨next,freed,iff_of_true frees ?_⟩
    subst front
    exact head_le busy.ascending bound
  · obtain ⟨next,freed,short⟩ := freesBlock_short exact top num positive binres bound inBusy after
    refine ⟨next,freed,iff_of_false short (fun least => ?_)⟩
    have first := least _ (List.getElem_mem (by omega : 0 < busy.ids.length))
    have := getElem_lt busy.ascending after (by omega) bound
    omega

theorem shmDealloc_frees_first : ∃ next, shmDealloc ⟨4096,4,[4,0,0,0],[1,2,3,0]⟩ 2 5120 = .ok next ∧
    FreesBlock ⟨4096,4,[4,0,0,0],[1,2,3,0]⟩ 2 1 next := by
  have whole : IdsExact ⟨4096,4,[4,0,0,0],[1,2,3,0]⟩ :=
    ⟨⟨[4],by decide,by decide⟩,⟨[1,2,3],by decide,by decide⟩,rfl,rfl,by decide⟩
  obtain ⟨next,ran,frees⟩ := shmDealloc_frees ⟨4096,4,[4,0,0,0],[1,2,3,0]⟩ (by decide) whole 2 1 (by decide)
    (by decide)
  exact ⟨next,ran,frees.mpr (by decide)⟩

/-- The block of ids 2 and 3: only id 2 comes back. -/
theorem shmDealloc_not_frees : IdsExact ⟨4096,3,[0,0,0],[1,2,3]⟩ ∧
    (∀ other ∈ consecutive 2 2, other ∈ nonzero [1,2,3]) ∧
    shmDealloc ⟨4096,3,[0,0,0],[1,2,3]⟩ 2 (4096+1024*2) = .ok ⟨4096,3,[2,0,0],[1,0,3]⟩ ∧
    ¬ FreesBlock ⟨4096,3,[0,0,0],[1,2,3]⟩ 2 2 ⟨4096,3,[2,0,0],[1,0,3]⟩ := by
  have whole : IdsExact ⟨4096,3,[0,0,0],[1,2,3]⟩ :=
    ⟨⟨[],by decide,by decide⟩,⟨[1,2,3],by decide,by decide⟩,rfl,rfl,by decide⟩
  refine ⟨whole,by decide,by decide +kernel,fun frees => ?_⟩
  have same := congrArg Asgard.freePool frees
  simp [nonzero,padded,consecutive,List.range_succ] at same

end Spsc.Allocator
