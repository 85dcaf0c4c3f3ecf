import Mathlib.Data.List.GetD
import Spsc.Allocator.Heap

/-! Blocks of mixed sizes, and which frees keep every id. The free loop of
`shm_dealloc` starts at the place where the block stands in the busy pool but
ends at `num`, so it clears the block only if that place is the first; from any
other place it clears less, and leaves a hole, or runs past the ids in use. -/
namespace Spsc.Allocator
open Imperative RadixSort Runs

def held (asgard : Asgard) : Nat := (nonzero asgard.busyPool).length

def below (asgard : Asgard) (id : Int) : Nat := (nonzero asgard.busyPool).countP (fun other => other < id)

/-- The free loop does not run, or it clears ids in use only and what it leaves
has no hole. -/
def FreesCleanly (asgard : Asgard) (num : Nat) (id : Int) : Prop :=
  num ≤ below asgard id ∨ (num ≤ held asgard ∧ (below asgard id = 0 ∨ held asgard = num))

def Clean (heap : Heap) : Call → Prop
  | .alloc _ => True
  | .dealloc block =>
    FreesCleanly heap.asgard block.num ((block.ptr - heap.asgard.dataPtr).tdiv 1024)

namespace Exact
variable {asgard : Asgard} {free busy : Pool asgard.members} (exact : Exact asgard free busy)
include exact

theorem held_eq : held asgard = busy.ids.length := by
  rw [held,exact.busy_array,Pool.nonzero_array]

theorem below_eq (p : Nat) (bound : p < busy.ids.length) : below asgard busy.ids[p] = p := by
  rw [below,exact.busy_array,Pool.nonzero_array]
  exact Ascending.countP_below busy.ascending p bound

variable (top : (asgard.members : Int) ≤ INT_MAX) (num : Nat) (fits : num ≤ asgard.members)
  (binres : Nat) (bound : binres < busy.ids.length)
include top fits

/-- Ids stand before and behind the cleared ones: a hole is left between them. -/
theorem freed_hole (after : 0 < binres) (cleared : binres < num) (before : num < busy.ids.length) :
    ∃ next, shmDealloc asgard num (asgard.dataPtr + busy.ids[binres]*1024) = .ok next ∧
      ¬ IdsExact next := by
  obtain ⟨pool,busyPool,ran,moved,_⟩ := exact.freed top num fits binres bound
  refine ⟨_,ran,?_⟩
  have shape : remaining binres num busy.array = _ := remaining_ids binres num (by omega)
  have front : (busy.ids.take binres).length = binres := by rw [List.length_take]; omega
  obtain ⟨id,rest,first⟩ : ∃ id rest, busy.ids.take binres = id::rest :=
    List.exists_cons_of_length_pos (by omega)
  have used : id ≠ 0 := busy.used id (List.mem_of_mem_take (first ▸ List.mem_cons_self))
  have kept : moveArray (remaining binres num busy.array) = .ok (remaining binres num busy.array) := by
    rw [shape,first]
    exact moveArray_cons id _ used
  obtain rfl : remaining binres num busy.array = busyPool := Except.ok.inj (kept.symm.trans moved)
  rintro ⟨_,next,exact'⟩
  have hole : ¬ binres < next.ids.length := by
    rw [← next.array_getD,← exact'.busy_array,not_not,shape,List.append_assoc,
      List.getD_append_right _ _ _ _ (by omega),front,Nat.sub_self,
      (by omega : num-binres = num-binres-1+1),List.replicate_succ]
    rfl
  have behind : num < next.ids.length := by
    rw [← next.array_getD,← exact'.busy_array]
    change (remaining binres num busy.array).getD num 0 ≠ 0
    have size : (busy.ids.take binres ++ List.replicate (num-binres) (0 : Int)).length = num := by
      rw [List.length_append,List.length_replicate,front]
      omega
    rw [shape,List.getD_append_right _ _ _ _ (by omega),size,Nat.sub_self,
      Nat.max_eq_right (by omega),List.drop_eq_getElem_cons before]
    exact busy.used _ (List.getElem_mem before)
  omega

/-- The free loop runs past the ids in use: its zeros overwrite free ids. -/
theorem freed_lost (short : busy.ids.length < num) :
    ∃ next, shmDealloc asgard num (asgard.dataPtr + busy.ids[binres]*1024) = .ok next ∧
      ¬ IdsExact next := by
  have total := exact.lengths
  obtain ⟨pool,busyPool,ran,moved,perm⟩ := exact.freed top num fits binres bound
  refine ⟨_,ran,?_⟩
  have rest : remaining binres num busy.array = (busy.take binres).array := by
    have none_behind : busy.array.drop num = List.replicate (asgard.members-num) 0 := by
      rw [Pool.array,List.drop_append,List.drop_of_length_le (by omega),List.nil_append,
        List.drop_replicate]
      congr 1
      omega
    rw [remaining,Nat.max_eq_right (by omega),none_behind,busy.array_take binres (by omega),
      List.append_assoc,List.replicate_append_replicate,Pool.array]
    simp only [Pool.take,List.length_take]
    congr 2
    omega
  rw [rest,Pool.moveArray_array] at moved
  obtain rfl := Except.ok.inj moved
  rintro ⟨idle,next,exact'⟩
  have freeLength : idle.ids.length = pool.ids.length := by
    rw [← idle.nonzero_array,← exact'.free_array,Pool.nonzero_array]
  have busyLength : next.ids.length = binres := by
    rw [← next.nonzero_array,← exact'.busy_array,Pool.nonzero_array]
    simp only [Pool.take,List.length_take]
    omega
  have low : (nonzero (free.array.take (asgard.members - num))).length ≤ asgard.members - num :=
    (List.length_filter_le _ _).trans (by simp)
  have mid : (nonzero (cleared binres num asgard.busyPool).reverse).length ≤ busy.ids.length-binres := by
    have part : cleared binres num asgard.busyPool =
        busy.ids.drop binres ++ List.replicate (num-busy.ids.length) 0 := by
      rw [cleared,exact.busy_array,Pool.array,List.take_append,List.take_of_length_le (by omega),
        List.take_replicate,List.drop_append_of_le_length (by omega),Nat.min_eq_left (by omega)]
    rw [part,List.reverse_append,nonzero_append,List.reverse_replicate,nonzero_zeros,List.nil_append]
    exact (List.length_filter_le _ _).trans (by simp)
  have high : nonzero (free.array.drop (asgard.members-binres)) = [] := by
    rw [Pool.array,List.drop_append,List.drop_of_length_le (by omega),List.nil_append,
      List.drop_replicate,nonzero_zeros]
  have gained : pool.ids.length ≤ asgard.members-num + (busy.ids.length-binres) := by
    rw [perm.length_eq,refilled,nonzero_append,nonzero_append,high,List.append_nil,List.length_append,
      Nat.max_eq_right (by omega)]
    omega
  have := exact'.lengths
  simp only at this
  omega

theorem freed_iff :
    ∃ next, shmDealloc asgard num (asgard.dataPtr + busy.ids[binres]*1024) = .ok next ∧
      (IdsExact next ↔ FreesCleanly asgard num busy.ids[binres]) := by
  rw [FreesCleanly,exact.below_eq binres bound,exact.held_eq]
  by_cases past : num ≤ binres
  · exact ⟨asgard,exact.freed_past top num fits binres bound past,
      iff_of_true ⟨free,busy,exact⟩ (.inl past)⟩
  by_cases short : busy.ids.length < num
  · obtain ⟨next,ran,lost⟩ := exact.freed_lost top num fits binres bound short
    exact ⟨next,ran,iff_of_false lost (by omega)⟩
  by_cases front : binres = 0
  · obtain ⟨pool,ran,_,exact'⟩ := exact.freed_front top num fits binres bound front (by omega)
    exact ⟨_,ran,iff_of_true ⟨_,_,exact'⟩ (.inr ⟨by omega,.inl front⟩)⟩
  by_cases whole : num = busy.ids.length
  · obtain ⟨pool,ran,exact'⟩ := exact.freed_tail top num fits binres bound whole
    exact ⟨_,ran,iff_of_true ⟨_,_,exact'⟩ (.inr ⟨by omega,.inr whole.symm⟩)⟩
  · obtain ⟨next,ran,lost⟩ := exact.freed_hole top num fits binres bound (by omega) (by omega) (by omega)
    exact ⟨next,ran,iff_of_false lost (by omega)⟩

end Exact

structure Handed (dataPtr : Int) (members : Nat) (heap : Heap) : Prop where
  base : heap.asgard.dataPtr = dataPtr
  size : heap.asgard.members = members
  blocks : ∀ block ∈ heap.live, block.num ≤ members ∧ ∃ id : Int, 1 ≤ id ∧ block.ptr = dataPtr + id*1024

section Steps
variable {dataPtr : Int} {members : Nat} (top : (members : Int) ≤ INT_MAX)
  {heap : Heap} (handed : Handed dataPtr members heap) (whole : IdsExact heap.asgard)
include top handed whole

theorem handed_alloc (num : Nat) (positive : 1 ≤ num) (fits : num ≤ heap.asgard.members)
    (result : Option Int) (asgard : Asgard) (ran : shmAlloc heap.asgard num = .ok (result,asgard)) :
    IdsExact asgard ∧ asgard.dataPtr = dataPtr ∧ asgard.members = members ∧
      ∀ ptr, result = some ptr → ∃ id : Int, 1 ≤ id ∧ ptr = dataPtr + id*1024 := by
  obtain ⟨base,size,_⟩ := handed
  obtain ⟨free,busy,exact⟩ := whole
  have topHeap : (heap.asgard.members : Int) ≤ INT_MAX := by rw [size]; exact top
  by_cases short : free.ids.length < num
  · have refused := shmAlloc_refuses heap.asgard free (exact.orderly topHeap) num fits short
    obtain ⟨rfl,rfl⟩ := Prod.mk.inj (Except.ok.inj (ran.symm.trans refused))
    exact ⟨⟨free,busy,exact⟩,base,size,by simp⟩
  · obtain ⟨next,granted,_,exact'⟩ := exact.granted topHeap num positive fits (by omega) (by omega)
    obtain ⟨rfl,rfl⟩ := Prod.mk.inj (Except.ok.inj (ran.symm.trans granted))
    refine ⟨⟨_,next,exact'⟩,base,size,?_⟩
    rintro ptr equal
    exact ⟨free.ids[0],(free.inside _ (List.getElem_mem _)).1,by rw [← base,← Option.some.inj equal]⟩

theorem conserved_step (call : Call) (next : Heap) (step : Step heap call next) :
    (IdsExact next.asgard ↔ Clean heap call) ∧
      (IdsExact next.asgard → Handed dataPtr members next) := by
  cases step with
  | granted num ptr asgard positive fits ran =>
    obtain ⟨whole',base,size,placed⟩ := handed_alloc top handed whole num positive fits _ _ ran
    refine ⟨iff_of_true whole' trivial,fun _ => ⟨base,size,?_⟩⟩
    intro block member
    rcases List.mem_cons.mp member with rfl | old
    · exact ⟨handed.size ▸ fits,placed ptr rfl⟩
    · exact handed.blocks block old
  | refused num asgard positive fits ran =>
    obtain ⟨whole',base,size,_⟩ := handed_alloc top handed whole num positive fits _ _ ran
    exact ⟨iff_of_true whole' trivial,fun _ => ⟨base,size,handed.blocks⟩⟩
  | freed block asgard owned ran =>
    obtain ⟨base,size,blocks⟩ := handed
    obtain ⟨free,busy,exact⟩ := whole
    have topHeap : (heap.asgard.members : Int) ≤ INT_MAX := by rw [size]; exact top
    obtain ⟨fits,id,positive,ptr⟩ := blocks block owned
    rw [← base] at ptr
    have target : (block.ptr - heap.asgard.dataPtr).tdiv 1024 = id := by
      rw [ptr,add_sub_cancel_left]
      exact Int.mul_tdiv_cancel id (by omega)
    rw [ptr] at ran
    by_cases used : id ∈ busy.ids
    · obtain ⟨binres,bound,rfl⟩ := List.mem_iff_getElem.mp used
      obtain ⟨next,ran',same⟩ := exact.freed_iff topHeap block.num (size ▸ fits) binres bound
      obtain rfl : next = asgard := Except.ok.inj (ran'.symm.trans ran)
      have kept : next.dataPtr = dataPtr ∧ next.members = members := by
        obtain ⟨_,_,shape,_⟩ := exact.freed topHeap block.num (size ▸ fits) binres bound
        obtain rfl := Except.ok.inj (ran.symm.trans shape)
        exact ⟨base,size⟩
      rw [Clean,target]
      exact ⟨same,fun _ => ⟨kept.1,kept.2,fun other member => blocks other (List.mem_of_mem_erase member)⟩⟩
    · have absent : id ∉ heap.asgard.busyPool := by
        intro member
        rw [exact.busy_array] at member
        have inIds := (mem_nonzero _ _).mpr ⟨member,by omega⟩
        rw [Pool.nonzero_array] at inIds
        exact used inIds
      have aborted := shmDealloc_aborts heap.asgard free (exact.orderly topHeap) block.num id absent
      rw [aborted] at ran
      cases ran

end Steps

/-- A run loses no id, leaves no hole and duplicates nothing exactly when each of
its frees is clean. -/
theorem ids_conserved (dataPtr : Int) (members : Nat) (top : (members : Int) ≤ INT_MAX)
    (trace : List (Heap × Call)) (heap : Heap) (run : Run Step (initial dataPtr members) trace heap) :
    Throughout (fun heap => IdsExact heap.asgard) trace heap ↔
      ∀ entry ∈ trace, Clean entry.1 entry.2 := by
  refine run.exact (fun heap => IdsExact heap.asgard) (Handed dataPtr members) Clean
    ⟨freePoolInit_exact dataPtr members,rfl,rfl,by simp [initial]⟩ ?_ ?_
  · intro s call t whole handed step
    exact (conserved_step top handed whole call t step).1
  · intro s call t whole handed step
    exact (conserved_step top handed whole call t step).2

theorem full_run : Run Step (initial 4096 3)
    [(initial 4096 3,.alloc 1),(⟨⟨4096,3,[2,3,0],[1,0,0]⟩,[⟨5120,1,[1]⟩]⟩,.alloc 2)]
    ⟨⟨4096,3,[0,0,0],[1,2,3]⟩,[⟨6144,2,[2,3]⟩,⟨5120,1,[1]⟩]⟩ := by
  have one : Step (initial 4096 3) (.alloc 1) ⟨⟨4096,3,[2,3,0],[1,0,0]⟩,[⟨5120,1,[1]⟩]⟩ :=
    .granted _ 1 5120 ⟨4096,3,[2,3,0],[1,0,0]⟩ (by decide) (by decide) (by decide +kernel)
  have two : Step ⟨⟨4096,3,[2,3,0],[1,0,0]⟩,[⟨5120,1,[1]⟩]⟩ (.alloc 2)
      ⟨⟨4096,3,[0,0,0],[1,2,3]⟩,[⟨6144,2,[2,3]⟩,⟨5120,1,[1]⟩]⟩ :=
    .granted _ 2 6144 ⟨4096,3,[0,0,0],[1,2,3]⟩ (by decide) (by decide) (by decide +kernel)
  exact (Run.single _ _ _ one).append (.single _ _ _ two)

theorem ids_conserved_front : IdsExact ⟨4096,3,[1,0,0],[2,3,0]⟩ := by
  have back : Step ⟨⟨4096,3,[0,0,0],[1,2,3]⟩,[⟨6144,2,[2,3]⟩,⟨5120,1,[1]⟩]⟩
      (.dealloc ⟨5120,1,[1]⟩) ⟨⟨4096,3,[1,0,0],[2,3,0]⟩,[⟨6144,2,[2,3]⟩]⟩ :=
    .freed _ _ ⟨4096,3,[1,0,0],[2,3,0]⟩ (by decide) (by decide +kernel)
  have kept := ids_conserved 4096 3 (by decide) _ _ (full_run.append (.single _ _ _ back))
  exact (kept.mpr (by simp [Clean,FreesCleanly,below,held,nonzero])).2

/-- The second given back instead: id 3 stays in the busy pool, behind a hole. -/
theorem ids_not_conserved : ¬ ∀ (members : Nat) (trace : List (Heap × Call)) (heap : Heap),
    1 ≤ members → Run Step (initial 4096 members) trace heap → IdsExact heap.asgard := by
  intro claimed
  have back : Step ⟨⟨4096,3,[0,0,0],[1,2,3]⟩,[⟨6144,2,[2,3]⟩,⟨5120,1,[1]⟩]⟩
      (.dealloc ⟨6144,2,[2,3]⟩) ⟨⟨4096,3,[2,0,0],[1,0,3]⟩,[⟨5120,1,[1]⟩]⟩ :=
    .freed _ _ ⟨4096,3,[2,0,0],[1,0,3]⟩ (by decide) (by decide +kernel)
  obtain ⟨_,busy,exact⟩ := claimed 3 _ _ (by decide) (full_run.append (.single _ _ _ back))
  have hole : ¬ 1 < busy.ids.length := by
    rw [← busy.array_getD,← exact.busy_array]
    decide
  have behind : 2 < busy.ids.length := by
    rw [← busy.array_getD,← exact.busy_array]
    decide
  omega

end Spsc.Allocator
