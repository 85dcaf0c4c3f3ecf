import Mathlib.Data.List.Pairwise
import Spsc.Allocator.Heap

/-! When blocks of mixed sizes stay apart. `shm_alloc` hands out the smallest
free ids whether or not they are consecutive, and writes them over the tail of
the busy pool whatever stands there. Where neither harms, a live block stands in
the busy pool as one piece, and the free loop clears nothing else. -/
namespace Spsc.Allocator
open Imperative RadixSort Runs Ascending

/-- The call of `shm_alloc` is refused, or the `num` smallest free ids are
consecutive and no id of a live block stands in the last `num` places of the
busy pool. -/
def TakesSequence (heap : Heap) : Call → Prop
  | .alloc num =>
    let asgard := heap.asgard
    asgard.freePool.getD (num-1) 0 = 0 ∨
      (asgard.freePool.getD (num-1) 0 = asgard.freePool.getD 0 0 + num - 1 ∧
        ∀ block ∈ heap.live, ∀ id ∈ block.ids, id ∉ asgard.busyPool.drop (asgard.members-num))
  | .dealloc _ => True

theorem infix_of_disjoint {ids left middle right : List Int} (part : ids <:+: left ++ (middle ++ right))
    (apart : ids.Disjoint middle) (some_middle : middle ≠ []) : ids <:+: left ∨ ids <:+: right := by
  obtain ⟨m,rest,rfl⟩ := List.exists_cons_of_ne_nil some_middle
  rcases List.infix_append_iff_ne_nil.mp part with front | behind | ⟨first,second,_,more,rfl,_,start⟩
  · exact .inl front
  · rcases List.infix_append_iff_ne_nil.mp behind with inside | back | ⟨first,second,more,_,rfl,last,_⟩
    · cases ids with
      | nil => exact .inl List.nil_infix
      | cons id tail => exact absurd (inside.subset List.mem_cons_self) (apart List.mem_cons_self)
    · exact .inr back
    · obtain ⟨id,member⟩ := List.exists_mem_of_ne_nil first more
      exact absurd (last.subset member) (apart (List.mem_append_left _ member))
  · obtain ⟨s,tail,rfl⟩ := List.exists_cons_of_ne_nil more
    obtain ⟨rfl,_⟩ := List.cons_prefix_cons.mp start
    exact absurd List.mem_cons_self (apart (List.mem_append_right _ List.mem_cons_self))

theorem remaining_piece (left ids right : List Int) :
    remaining left.length ids.length (left ++ (ids ++ right)) =
      left ++ List.replicate (ids.length-left.length) 0 ++ (ids.drop (ids.length-left.length) ++ right) := by
  rw [remaining,List.take_left,List.drop_append]
  have nothing : left.drop (max left.length ids.length) = [] := List.drop_of_length_le (by omega)
  rw [nothing,List.nil_append,(by omega : max left.length ids.length - left.length = ids.length-left.length),
    List.drop_append_of_le_length (by omega)]

theorem piece_kept (left ids right other busyPool : List Int) (part : other <:+: left ++ (ids ++ right))
    (apart : other.Disjoint ids) (some : ids ≠ []) (used : ∀ id ∈ other, id ≠ 0)
    (moved : moveArray (remaining left.length ids.length (left ++ (ids ++ right))) = .ok busyPool) :
    other <:+: busyPool := by
  have stays : other <:+: remaining left.length ids.length (left ++ (ids ++ right)) := by
    rw [remaining_piece]
    rcases infix_of_disjoint part apart some with front | back
    · exact (front.trans (List.prefix_append _ _).isInfix).trans (List.prefix_append _ _).isInfix
    · exact (back.trans (List.suffix_append _ _).isInfix).trans (List.suffix_append _ _).isInfix
  obtain ⟨zeros,items,split,compacted⟩ :=
    moveArray_split (remaining left.length ids.length (left ++ (ids ++ right)))
  obtain rfl := Except.ok.inj (compacted.symm.trans moved)
  rw [split] at stays
  refine List.IsInfix.trans ?_ (List.prefix_append items _).isInfix
  rcases Nat.eq_zero_or_pos zeros with rfl | positive
  · simpa using stays
  · have around : other <:+: [] ++ (List.replicate zeros 0 ++ items) := stays
    have inItems := infix_of_disjoint around
      (fun id member zero => used id member (List.eq_of_mem_replicate zero)) (by simp; omega)
    rcases inItems with empty | inItems
    · rw [List.eq_nil_of_infix_nil empty]
      exact List.nil_infix
    · exact inItems

structure Sequential (dataPtr : Int) (members : Nat) (heap : Heap) : Prop where
  base : heap.asgard.dataPtr = dataPtr
  size : heap.asgard.members = members
  orderly : ∃ free, Orderly heap.asgard free
  blocks : ∀ block ∈ heap.live, 1 ≤ block.num ∧ ∃ id : Int, 1 ≤ id ∧
    block.ptr = dataPtr + id*1024 ∧ block.ids = consecutive id block.num
  pieces : ∀ block ∈ heap.live, block.ids <:+: heap.asgard.busyPool
  apart : heap.live.Pairwise (fun a b => a.ids.Disjoint b.ids)

theorem initial_sequential (dataPtr : Int) (members : Nat) (top : (members : Int) ≤ INT_MAX) :
    Sequential dataPtr members (initial dataPtr members) where
  base := rfl
  size := rfl
  orderly := by
    obtain ⟨free,busy,exact⟩ := freePoolInit_exact dataPtr members
    exact ⟨free,exact.orderly top⟩
  blocks := by simp [initial]
  pieces := by simp [initial]
  apart := by simp [initial]

section Steps
variable {dataPtr : Int} {members : Nat} {heap : Heap} (sequential : Sequential dataPtr members heap)
include sequential

theorem sequential_alloc (num : Nat) (positive : 1 ≤ num) (fits : num ≤ heap.asgard.members)
    (taken : TakesSequence heap (.alloc num)) (result : Option Int) (asgard : Asgard)
    (ran : shmAlloc heap.asgard num = .ok (result,asgard)) :
    (result = none ∧ asgard = heap.asgard) ∨
      ∃ ptr, result = some ptr ∧
        Sequential dataPtr members ⟨asgard,⟨ptr,num,heap.asgard.freePool.take num⟩::heap.live⟩ := by
  obtain ⟨base,size,⟨free,orderly⟩,blocks,pieces,apart⟩ := sequential
  by_cases short : free.ids.length < num
  · have refused := shmAlloc_refuses heap.asgard free orderly num fits short
    obtain ⟨rfl,rfl⟩ := Prod.mk.inj (Except.ok.inj (ran.symm.trans refused))
    exact .inl ⟨rfl,rfl⟩
  have enough : num ≤ free.ids.length := by omega
  obtain ⟨busy,granted,perm,orderly'⟩ :=
    shmAlloc_grants heap.asgard free orderly num fits positive (by omega) enough
  obtain ⟨rfl,rfl⟩ := Prod.mk.inj (Except.ok.inj (ran.symm.trans granted))
  rw [TakesSequence,orderly.free_array,free.array_getElem (num-1) (by omega),
    free.array_getElem 0 (by omega)] at taken
  obtain ⟨tight,clear⟩ := taken.resolve_left (free.used _ (List.getElem_mem _))
  have ids : heap.asgard.freePool.take num = consecutive free.ids[0] num := by
    rw [orderly.free_array,free.array_take num enough]
    exact take_tight free.ascending num (by omega) enough tight
  have inFree : ∀ id ∈ consecutive free.ids[0] num, id ∈ free.ids.take num := by
    intro id member
    rwa [← ids,orderly.free_array,free.array_take num enough] at member
  have low := (free.inside _ (List.getElem_mem (by omega : 0 < free.ids.length))).1
  -- every live id is in the sorted busy pool, so every block is a piece of it
  have present : ∀ block ∈ heap.live, ∀ id ∈ block.ids, id ∈ nonzero heap.asgard.busyPool ∧
      id ∈ nonzero (heap.asgard.busyPool.take (heap.asgard.members-num)) := by
    intro block member id inBlock
    obtain ⟨_,first,firstLow,_,blockIds⟩ := blocks block member
    have used : id ≠ 0 := by
      have range := (mem_consecutive _ _ _).mp (blockIds ▸ inBlock)
      omega
    have inArray := (pieces block member).subset inBlock
    refine ⟨(mem_nonzero _ _).mpr ⟨inArray,used⟩,(mem_nonzero _ _).mpr ⟨?_,used⟩⟩
    rw [← List.take_append_drop (heap.asgard.members-num) heap.asgard.busyPool,List.mem_append] at inArray
    exact inArray.resolve_right (clear block member id inBlock)
  have piece : ∀ first count, 0 < count → (∀ id ∈ consecutive first count, id ∈ busy.ids) →
      consecutive first count <:+: busy.array := by
    intro first count some all
    exact (consecutive_part busy.ascending first count some all).trans (List.prefix_append _ _).isInfix
  right
  refine ⟨_,rfl,base,size,⟨_,orderly'⟩,?_,?_,List.pairwise_cons.mpr ⟨?_,apart⟩⟩
  · intro block member
    rcases List.mem_cons.mp member with rfl | old
    · exact ⟨positive,_,low,by rw [base],ids⟩
    · exact blocks block old
  · intro block member
    rcases List.mem_cons.mp member with rfl | old
    · rw [ids]
      exact piece _ _ (by omega) (fun id inBlock =>
        perm.mem_iff.mpr (List.mem_append_left _ (inFree id inBlock)))
    · obtain ⟨some,first,_,_,blockIds⟩ := blocks block old
      rw [blockIds]
      exact piece _ _ (by omega) (fun id inBlock =>
        perm.mem_iff.mpr (List.mem_append_right _ (present block old id (blockIds ▸ inBlock)).2))
  · intro block old id inNew inOld
    have free_id := List.mem_of_mem_take (inFree id (ids ▸ inNew))
    exact List.disjoint_of_nodup_append orderly.distinct free_id (present block old id inOld).1

theorem sequential_dealloc (block : Block) (owned : block ∈ heap.live) :
    ∃ asgard, shmDealloc heap.asgard block.num block.ptr = .ok asgard ∧
      Sequential dataPtr members ⟨asgard,heap.live.erase block⟩ := by
  obtain ⟨base,size,⟨free,orderly⟩,blocks,pieces,apart⟩ := sequential
  obtain ⟨some,id,low,ptr,ids⟩ := blocks block owned
  obtain ⟨left,right,split⟩ := pieces block owned
  rw [List.append_assoc] at split
  have length : block.ids.length = block.num := by rw [ids,consecutive_length]
  have fits : block.num ≤ heap.asgard.members := by
    rw [← orderly.busy_length,← split,List.length_append,List.length_append]
    omega
  have first : id ∈ block.ids := by
    rw [ids]
    exact (mem_consecutive _ _ _).mpr (by omega)
  have bound : left.length < heap.asgard.busyPool.length := by
    rw [← split,List.length_append,List.length_append]
    omega
  have found : heap.asgard.busyPool[left.length] = id := by
    simp only [← split,List.getElem_append_right (Nat.le_refl left.length),Nat.sub_self,ids]
    rw [List.getElem_append_left (by rw [consecutive_length]; omega),getElem_consecutive]
    simp
  have before : ∀ j (less : j < left.length), heap.asgard.busyPool[j] ≠ id := by
    intro j less same
    have inLeft : id ∈ nonzero left := by
      refine (mem_nonzero _ _).mpr ⟨?_,by omega⟩
      simp only [← split,List.getElem_append_left less] at same
      rw [← same]
      exact List.getElem_mem less
    have nodup := List.Nodup.of_append_right orderly.distinct
    rw [← split,nonzero_append,nonzero_append] at nodup
    exact List.disjoint_of_nodup_append nodup inLeft
      (List.mem_append_left _ ((mem_nonzero _ _).mpr ⟨first,by omega⟩))
  obtain ⟨pool,busyPool,ran,moved,_,orderly'⟩ := shmDealloc_moves heap.asgard free orderly block.num fits
    id left.length bound found before
  rw [← length,← split] at moved
  have nodupLive : heap.live.Nodup := apart.imp_of_mem (fun {a b} memberA _ disjoint same => by
    obtain ⟨someA,idA,_,_,idsA⟩ := blocks a memberA
    have inA : idA ∈ a.ids := by rw [idsA]; exact (mem_consecutive _ _ _).mpr (by omega)
    exact disjoint inA (same ▸ inA))
  have others : ∀ other ∈ heap.live.erase block, other ∈ heap.live ∧ other.ids.Disjoint block.ids := by
    intro other member
    obtain ⟨different,old⟩ := (nodupLive.mem_erase_iff).mp member
    have : Std.Symm (fun a b : Block => a.ids.Disjoint b.ids) := ⟨fun _ _ disjoint id inB inA => disjoint inA inB⟩
    exact ⟨old,apart.forall old owned different⟩
  rw [← base] at ptr
  rw [ptr]
  refine ⟨_,ran,base,size,⟨_,orderly'⟩,
    fun other member => blocks other (others other member).1,?_,apart.sublist List.erase_sublist⟩
  intro other member
  obtain ⟨old,disjoint⟩ := others other member
  refine piece_kept left block.ids right other.ids busyPool (split ▸ pieces other old) disjoint
    (List.ne_nil_of_mem first) ?_ moved
  intro otherId inOther
  obtain ⟨_,otherFirst,otherLow,_,otherIds⟩ := blocks other old
  have range := (mem_consecutive _ _ _).mp (otherIds ▸ inOther)
  omega

theorem sequential_step (call : Call) (next : Heap) (taken : TakesSequence heap call)
    (step : Step heap call next) : Sequential dataPtr members next := by
  cases step with
  | granted num ptr asgard positive fits ran =>
    rcases sequential_alloc sequential num positive fits taken _ _ ran with ⟨absurd,_⟩ | ⟨ptr',same,kept⟩
    · simp at absurd
    · obtain rfl := Option.some.inj same
      exact kept
  | refused num asgard positive fits ran =>
    rcases sequential_alloc sequential num positive fits taken _ _ ran with ⟨_,same⟩ | ⟨_,absurd,_⟩
    · rw [same]
      exact sequential
    · simp at absurd
  | freed block asgard owned ran =>
    obtain ⟨asgard',ran',kept⟩ := sequential_dealloc sequential block owned
    obtain rfl := Except.ok.inj (ran.symm.trans ran')
    exact kept

theorem sequential_apart : heap.live.Pairwise Apart ∧ ∀ block ∈ heap.live, InSegment heap.asgard block := by
  obtain ⟨base,size,⟨free,orderly⟩,blocks,pieces,apart⟩ := sequential
  constructor
  · apply apart.imp_of_mem
    intro a b inA inB disjoint
    obtain ⟨someA,first,_,ptrA,idsA⟩ := blocks a inA
    obtain ⟨someB,second,_,ptrB,idsB⟩ := blocks b inB
    rw [Apart,ptrA,ptrB]
    by_contra meet
    -- the larger of the two first ids is in both
    refine disjoint (a := max first second) ?_ ?_
    · rw [idsA,mem_consecutive]
      omega
    · rw [idsB,mem_consecutive]
      omega
  · intro block member
    obtain ⟨some,first,low,ptr,ids⟩ := blocks block member
    have last : first+block.num-1 ∈ block.ids := by
      rw [ids]
      exact (mem_consecutive _ _ _).mpr (by omega)
    have high := (orderly.busy_inside _ ((pieces block member).subset last)).2
    exact ⟨by rw [ptr,base]; omega,by rw [ptr,base]; omega⟩

end Steps

/-- In a run whose grants are all sequences, live blocks are apart, in the
segment, and sequential. -/
theorem blocks_apart (dataPtr : Int) (members : Nat) (top : (members : Int) ≤ INT_MAX)
    (trace : List (Heap × Call)) (heap : Heap) (run : Run Step (initial dataPtr members) trace heap)
    (conditions : ∀ entry ∈ trace, TakesSequence entry.1 entry.2) :
    Throughout (fun heap => heap.live.Pairwise Apart ∧ ∀ block ∈ heap.live,
      InSegment heap.asgard block ∧ ∃ id : Int, block.ptr = dataPtr + id*1024 ∧
        block.ids = (List.range block.num).map (fun (j : Nat) => id+j)) trace heap := by
  have kept := run.invariant (Sequential dataPtr members) TakesSequence
    (initial_sequential dataPtr members top)
    (fun s call t holds taken step => sequential_step holds call t taken step) conditions
  have facts : ∀ heap, Sequential dataPtr members heap → heap.live.Pairwise Apart ∧ ∀ block ∈ heap.live,
      InSegment heap.asgard block ∧ ∃ id : Int, block.ptr = dataPtr + id*1024 ∧
        block.ids = (List.range block.num).map (fun (j : Nat) => id+j) := by
    intro heap sequential
    obtain ⟨apart,inside⟩ := sequential_apart sequential
    refine ⟨apart,fun block member => ⟨inside block member,?_⟩⟩
    obtain ⟨_,id,_,ptr,ids⟩ := sequential.blocks block member
    exact ⟨id,ptr,ids⟩
  exact ⟨fun entry member => facts entry.1 (kept.1 entry member),facts heap kept.2⟩

theorem split_run : Run Step (initial 4096 3)
    [(initial 4096 3,.alloc 1),(⟨⟨4096,3,[2,3,0],[1,0,0]⟩,[⟨5120,1,[1]⟩]⟩,.alloc 1),
      (⟨⟨4096,3,[3,0,0],[1,2,0]⟩,[⟨6144,1,[2]⟩,⟨5120,1,[1]⟩]⟩,.dealloc ⟨5120,1,[1]⟩)]
    ⟨⟨4096,3,[1,3,0],[2,0,0]⟩,[⟨6144,1,[2]⟩]⟩ := by
  have one : Step (initial 4096 3) (.alloc 1) ⟨⟨4096,3,[2,3,0],[1,0,0]⟩,[⟨5120,1,[1]⟩]⟩ :=
    .granted _ 1 5120 ⟨4096,3,[2,3,0],[1,0,0]⟩ (by decide) (by decide) (by decide +kernel)
  have two : Step ⟨⟨4096,3,[2,3,0],[1,0,0]⟩,[⟨5120,1,[1]⟩]⟩ (.alloc 1)
      ⟨⟨4096,3,[3,0,0],[1,2,0]⟩,[⟨6144,1,[2]⟩,⟨5120,1,[1]⟩]⟩ :=
    .granted _ 1 6144 ⟨4096,3,[3,0,0],[1,2,0]⟩ (by decide) (by decide) (by decide +kernel)
  have back : Step ⟨⟨4096,3,[3,0,0],[1,2,0]⟩,[⟨6144,1,[2]⟩,⟨5120,1,[1]⟩]⟩ (.dealloc ⟨5120,1,[1]⟩)
      ⟨⟨4096,3,[1,3,0],[2,0,0]⟩,[⟨6144,1,[2]⟩]⟩ :=
    .freed _ _ ⟨4096,3,[1,3,0],[2,0,0]⟩ (by decide) (by decide +kernel)
  exact ((Run.single _ _ _ one).append (.single _ _ _ two)).append (.single _ _ _ back)

theorem blocks_apart_split : InSegment ⟨4096,3,[1,3,0],[2,0,0]⟩ ⟨6144,1,[2]⟩ := by
  have safe := blocks_apart 4096 3 (by decide) _ _ split_run
    (by simp [TakesSequence,initial,freePoolInit,List.range_succ])
  exact (safe.2.2 _ List.mem_cons_self).1

/-- A block of two then gets ids 1 and 3, and its range covers the live block of id 2. -/
theorem blocks_overlap : ¬ ∀ (members : Nat) (trace : List (Heap × Call)) (heap : Heap),
    1 ≤ members → Run Step (initial 4096 members) trace heap →
      heap.live.Pairwise Apart ∧ ∀ block ∈ heap.live, InSegment heap.asgard block := by
  intro claimed
  have last : Step ⟨⟨4096,3,[1,3,0],[2,0,0]⟩,[⟨6144,1,[2]⟩]⟩ (.alloc 2)
      ⟨⟨4096,3,[0,0,0],[1,2,3]⟩,[⟨5120,2,[1,3]⟩,⟨6144,1,[2]⟩]⟩ :=
    .granted _ 2 5120 ⟨4096,3,[0,0,0],[1,2,3]⟩ (by decide) (by decide) (by decide +kernel)
  have apart := (claimed 3 _ _ (by decide) (split_run.append (.single _ _ _ last))).1
  revert apart
  decide

end Spsc.Allocator
