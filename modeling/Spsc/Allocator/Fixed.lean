import Spsc.Allocator.Heap

/-! The allocator used with one block size `u`, as the producer uses it. The busy
pool is then a union of whole slabs `k*u+1 .. k*u+u`. A slab that is not the
first of the busy pool stands past position `u`, where the free loop does not
run, so such a block is never given back; but no pool is ever damaged. -/
namespace Spsc.Allocator
open Imperative RadixSort Runs Ascending

def slab (u k : Nat) : List Int := consecutive ((k*u : Nat)+1) u

theorem mem_slab (u k : Nat) (id : Int) : id ∈ slab u k ↔ (k*u : Nat)+1 ≤ id ∧ id ≤ (k*u : Nat)+u := by
  rw [slab,mem_consecutive]
  omega

theorem slab_of (u : Nat) (positive : 1 ≤ u) (id : Int) (low : 1 ≤ id) : ∃ k, id ∈ slab u k := by
  refine ⟨(id-1).toNat / u,(mem_slab _ _ _).mpr ?_⟩
  have split := Nat.div_add_mod (id-1).toNat u
  have small := Nat.mod_lt (id-1).toNat positive
  rw [Nat.mul_comm] at split
  omega

theorem slab_order (u k l : Nat) (less : k < l) : k*u + u ≤ l*u := by
  have := Nat.mul_le_mul_right u (by omega : k+1 ≤ l)
  rwa [Nat.succ_mul] at this

theorem slab_unique (u k l : Nat) (id : Int) (left : id ∈ slab u k) (right : id ∈ slab u l) : k = l := by
  rw [mem_slab] at left right
  rcases Nat.lt_trichotomy k l with less | same | more
  · have := slab_order u k l less
    omega
  · exact same
  · have := slab_order u l k more
    omega

/-- A set of ids that holds each slab whole or not at all. -/
def Aligned (u : Nat) (ids : List Int) : Prop :=
  ∀ k, (∃ id ∈ slab u k, id ∈ ids) → ∀ id ∈ slab u k, id ∈ ids

section Slabs
variable {asgard : Asgard} {free busy : Pool asgard.members} (exact : Exact asgard free busy)
  (u : Nat) (positive : 1 ≤ u) (aligned : Aligned u busy.ids)
include exact positive aligned

omit positive in
theorem idle_slab (k : Nat) (id other : Int) (mine : id ∈ slab u k) (same : other ∈ slab u k)
    (idle : id ∈ free.ids) (top : other ≤ asgard.members) : other ∈ free.ids := by
  have low := (mem_slab u k other).mp same
  rcases (exact.mem other).mpr ⟨by omega,top⟩ with free | used
  · exact free
  · exact absurd (aligned k ⟨other,same,used⟩ id mine) (exact.apart id idle)

theorem granted_slab (bound : 0 < free.ids.length) (enough : u ≤ free.ids.length) :
    ∃ k, free.ids.take u = slab u k ∧ free.ids[0] = (k*u : Nat)+1 := by
  have member : free.ids[0] ∈ free.ids := List.getElem_mem bound
  obtain ⟨k,mine⟩ := slab_of u positive free.ids[0] (free.inside _ member).1
  have range := (mem_slab u k _).mp mine
  have high := (free.inside _ member).2
  have first : free.ids[0] = (k*u : Nat)+1 := by
    have start : ((k*u : Nat)+1 : Int) ∈ slab u k := (mem_slab u k _).mpr (by omega)
    have idle := idle_slab exact u aligned k _ _ mine start member (by omega)
    have := head_le free.ascending bound _ idle
    omega
  have last : ((k*u : Nat) + u : Int) ≤ asgard.members := by
    have above := head_add_le free.ascending (u-1) bound (by omega)
    have := (free.inside _ (List.getElem_mem (by omega : u-1 < free.ids.length))).2
    omega
  refine ⟨k,?_,first⟩
  have run := run_slice free.ascending 0 bound _ first u (by
    intro j small
    exact idle_slab exact u aligned k _ _ mine ((mem_slab u k _).mpr (by omega)) member (by omega))
  rwa [List.drop_zero] at run

omit exact in
/-- A slab of the busy pool stands at its front or past its first `u` places. -/
theorem front_or_past (p k : Nat) (bound : p < busy.ids.length)
    (here : busy.ids[p] = (k*u : Nat)+1) : p = 0 ∨ u ≤ p := by
  by_contra between
  have zero : 0 < busy.ids.length := by omega
  have member : busy.ids[0] ∈ busy.ids := List.getElem_mem zero
  obtain ⟨l,mine⟩ := slab_of u positive busy.ids[0] (busy.inside _ member).1
  have whole := aligned l ⟨_,mine,member⟩
  have range := (mem_slab u l _).mp mine
  have first : busy.ids[0] = (l*u : Nat)+1 := by
    have := head_le busy.ascending zero _ (whole _ ((mem_slab u l ((l*u : Nat)+1)).mpr (by omega)))
    omega
  -- the first `u` entries are slab `l`, so position `p` is inside it
  obtain ⟨_,value⟩ := getElem_run busy.ascending 0 zero _ first u
    (fun j small => whole _ ((mem_slab u l _).mpr (by omega))) p (by omega)
  simp only [Nat.zero_add] at value
  have same := slab_unique u k l busy.ids[p] ((mem_slab _ _ _).mpr (by omega))
    ((mem_slab _ _ _).mpr (by omega))
  subst same
  omega

omit exact in
theorem front_slab (k : Nat) (bound : 0 < busy.ids.length) (here : busy.ids[0] = (k*u : Nat)+1) :
    busy.ids.take u = slab u k := by
  have whole := aligned k ⟨_,(mem_slab u k _).mpr ⟨here.ge,by omega⟩,List.getElem_mem bound⟩
  have run := run_slice busy.ascending 0 bound _ here u
    (fun j small => whole _ ((mem_slab u k _).mpr (by omega)))
  rwa [List.drop_zero] at run

omit exact positive aligned in
theorem aligned_append (k : Nat) (ids next : List Int) (aligned : Aligned u ids)
    (perm : next.Perm (slab u k ++ ids)) : Aligned u next := by
  rintro l ⟨id,mine,held⟩ other same
  rw [perm.mem_iff,List.mem_append] at held ⊢
  rcases held with new | old
  · exact .inl (slab_unique u k l id new mine ▸ same)
  · exact .inr (aligned l ⟨id,mine,old⟩ other same)

omit exact positive aligned in
theorem mem_drop_slab (k : Nat) (front : busy.ids.take u = slab u k) (id : Int) :
    id ∈ busy.ids.drop u ↔ id ∈ busy.ids ∧ id ∉ slab u k := by
  have nodup := busy.nodup
  have split := List.take_append_drop u busy.ids
  rw [← split] at nodup
  have apart := List.disjoint_of_nodup_append nodup
  constructor
  · intro rest
    exact ⟨List.mem_of_mem_drop rest,fun inSlab => apart (front ▸ inSlab) rest⟩
  · rintro ⟨held,outside⟩
    rw [← split,front,List.mem_append] at held
    exact held.resolve_left outside

omit exact positive in
theorem aligned_drop (k : Nat) (front : busy.ids.take u = slab u k) : Aligned u (busy.ids.drop u) := by
  rintro l ⟨id,mine,held⟩ other same
  rw [mem_drop_slab u k front] at held ⊢
  refine ⟨aligned l ⟨id,mine,held.1⟩ other same,fun inSlab => held.2 ?_⟩
  rwa [slab_unique u k l other inSlab same]

end Slabs

structure FixedSize (dataPtr : Int) (members u : Nat) (heap : Heap) : Prop where
  base : heap.asgard.dataPtr = dataPtr
  size : heap.asgard.members = members
  pools : ∃ free busy, Exact heap.asgard free busy ∧ Aligned u busy.ids ∧
    ∀ block ∈ heap.live, ∀ id ∈ block.ids, id ∈ busy.ids
  blocks : ∀ block ∈ heap.live, block.num = u ∧
    ∃ k : Nat, block.ids = slab u k ∧ block.ptr = dataPtr + ((k*u : Nat)+1)*1024
  distinct : (heap.live.map Block.ptr).Nodup

theorem initial_fixedSize (dataPtr : Int) (members u : Nat) :
    FixedSize dataPtr members u (initial dataPtr members) where
  base := rfl
  size := rfl
  pools := by
    obtain ⟨free,busy,exact⟩ := freePoolInit_exact dataPtr members
    have none_busy : busy.ids = [] := by
      rw [← busy.nonzero_array,← exact.busy_array]
      exact nonzero_zeros members
    refine ⟨free,busy,exact,?_,by simp [initial]⟩
    rintro k ⟨id,_,held⟩
    simp [none_busy] at held
  blocks := by simp [initial]
  distinct := by simp [initial]

section Steps
variable {dataPtr : Int} {members u : Nat} (top : (members : Int) ≤ INT_MAX) (positive : 1 ≤ u)
  {heap : Heap} (fixed : FixedSize dataPtr members u heap)
include top positive fixed

theorem fixedSize_alloc (fits : u ≤ heap.asgard.members) (result : Option Int) (asgard : Asgard)
    (ran : shmAlloc heap.asgard u = .ok (result,asgard)) :
    (result = none ∧ asgard = heap.asgard) ∨
      ∃ ptr, result = some ptr ∧
        FixedSize dataPtr members u ⟨asgard,⟨ptr,u,heap.asgard.freePool.take u⟩::heap.live⟩ := by
  obtain ⟨base,size,⟨free,busy,exact,aligned,owned⟩,blocks,distinct⟩ := fixed
  have topHeap : (heap.asgard.members : Int) ≤ INT_MAX := by rw [size]; exact top
  by_cases short : free.ids.length < u
  · have refused := shmAlloc_refuses heap.asgard free (exact.orderly topHeap) u fits short
    obtain ⟨rfl,rfl⟩ := Prod.mk.inj (Except.ok.inj (ran.symm.trans refused))
    exact .inl ⟨rfl,rfl⟩
  · have enough : u ≤ free.ids.length := by omega
    obtain ⟨next,granted,perm,exact'⟩ := exact.granted topHeap u positive fits (by omega) enough
    obtain ⟨k,taken,first⟩ := granted_slab exact u positive aligned (by omega) enough
    obtain ⟨rfl,rfl⟩ := Prod.mk.inj (Except.ok.inj (ran.symm.trans granted))
    rw [taken] at perm
    have ids : heap.asgard.freePool.take u = slab u k := by
      rw [exact.free_array,free.array_take u enough,taken]
    right
    refine ⟨_,rfl,base,size,⟨_,next,exact',aligned_append u k _ _ aligned perm,?_⟩,?_,?_⟩
    · intro block member id inBlock
      rw [perm.mem_iff,List.mem_append]
      rcases List.mem_cons.mp member with rfl | old
      · exact .inl (ids ▸ inBlock)
      · exact .inr (owned block old id inBlock)
    · intro block member
      rcases List.mem_cons.mp member with rfl | old
      · exact ⟨rfl,k,ids,by rw [first,base]⟩
      · exact blocks block old
    · refine List.nodup_cons.mpr ⟨?_,distinct⟩
      intro again
      obtain ⟨block,old,same⟩ := List.mem_map.mp again
      obtain ⟨_,l,blockIds,blockPtr⟩ := blocks block old
      have start : ((l*u : Nat)+1 : Int) ∈ slab u l := (mem_slab u l _).mpr (by omega)
      have used := owned block old _ (blockIds ▸ start)
      have idle : ((l*u : Nat)+1 : Int) ∈ free.ids := by
        have equal : ((l*u : Nat)+1 : Int) = free.ids[0] := by
          rw [base] at same
          simp only at same
          omega
        rw [equal]
        exact List.getElem_mem _
      exact exact.apart _ idle used

theorem fixedSize_dealloc (fits : u ≤ heap.asgard.members) (block : Block) (owned : block ∈ heap.live) :
    ∃ asgard, shmDealloc heap.asgard block.num block.ptr = .ok asgard ∧
      FixedSize dataPtr members u ⟨asgard,heap.live.erase block⟩ := by
  obtain ⟨base,size,⟨free,busy,exact,aligned,held⟩,blocks,distinct⟩ := fixed
  have topHeap : (heap.asgard.members : Int) ≤ INT_MAX := by rw [size]; exact top
  obtain ⟨num,k,ids,ptr⟩ := blocks block owned
  have start : ((k*u : Nat)+1 : Int) ∈ slab u k := (mem_slab u k _).mpr (by omega)
  obtain ⟨p,bound,here⟩ := List.mem_iff_getElem.mp (held block owned _ (ids ▸ start))
  have nodupLive : heap.live.Nodup := .of_map _ distinct
  have others : ∀ other ∈ heap.live.erase block, other ∈ heap.live ∧ other.ptr ≠ block.ptr := by
    intro other member
    obtain ⟨different,old⟩ := (nodupLive.mem_erase_iff).mp member
    exact ⟨old,fun same => different (List.inj_on_of_nodup_map distinct old owned same)⟩
  have distinct' : ((heap.live.erase block).map Block.ptr).Nodup :=
    distinct.sublist (List.erase_sublist.map _)
  have call : shmDealloc heap.asgard block.num block.ptr =
      shmDealloc heap.asgard u (heap.asgard.dataPtr + busy.ids[p]*1024) := by rw [num,ptr,here,base]
  rw [call]
  rcases front_or_past u positive aligned p k bound here with front | past
  · subst front
    have taken := front_slab u positive aligned k bound here
    have enough : u ≤ busy.ids.length := by
      have size := congrArg List.length taken
      simp only [slab,List.length_take,consecutive_length] at size
      omega
    obtain ⟨pool,ran,_,exact'⟩ := exact.freed_front topHeap u fits 0 bound rfl enough
    refine ⟨_,ran,base,size,⟨pool,_,exact',aligned_drop u aligned k taken,?_⟩,
      fun other member => blocks other (others other member).1,distinct'⟩
    intro other member id inOther
    obtain ⟨old,different⟩ := others other member
    obtain ⟨_,l,otherIds,otherPtr⟩ := blocks other old
    refine (mem_drop_slab u k taken id).mpr ⟨held other old id inOther,fun inBlock => different ?_⟩
    rw [otherPtr,ptr,slab_unique u l k id (otherIds ▸ inOther) inBlock]
  · exact ⟨_,exact.freed_past topHeap u fits p bound past,base,size,
      ⟨free,busy,exact,aligned,fun other member => held other (others other member).1⟩,
      fun other member => blocks other (others other member).1,distinct'⟩

theorem fixedSize_step (fits : u ≤ members) (call : Call) (next : Heap) (sized : call.num = u)
    (step : Step heap call next) : FixedSize dataPtr members u next := by
  have fitsHeap : u ≤ heap.asgard.members := by rw [fixed.size]; exact fits
  cases step with
  | granted num ptr asgard _ _ ran =>
    simp only [Call.num] at sized
    subst sized
    rcases fixedSize_alloc top positive fixed fitsHeap _ _ ran with ⟨absurd,_⟩ | ⟨ptr',same,kept⟩
    · simp at absurd
    · obtain rfl := Option.some.inj same
      exact kept
  | refused num asgard _ _ ran =>
    simp only [Call.num] at sized
    subst sized
    rcases fixedSize_alloc top positive fixed fitsHeap _ _ ran with ⟨_,same⟩ | ⟨_,absurd,_⟩
    · rw [same]
      exact fixed
    · simp at absurd
  | freed block asgard owned ran =>
    obtain ⟨asgard',ran',kept⟩ := fixedSize_dealloc top positive fixed fitsHeap block owned
    obtain rfl := Except.ok.inj (ran.symm.trans ran')
    exact kept

end Steps

/-- With one block size every block is a slab, live blocks are apart and in the
segment, the pools lose nothing, and no call fails. -/
theorem fixedSize_safe (dataPtr : Int) (members u : Nat) (top : (members : Int) ≤ INT_MAX)
    (positive : 1 ≤ u) (fits : u ≤ members) (trace : List (Heap × Call)) (heap : Heap)
    (run : Run Step (initial dataPtr members) trace heap)
    (sized : ∀ entry ∈ trace, entry.2.num = u) :
    (∀ block ∈ heap.live, block.num = u ∧ ∃ k : Nat,
      block.ids = (List.range u).map (fun (j : Nat) => ((k*u+1+j : Nat) : Int)) ∧
      block.ptr = dataPtr + 1024*(k*u+1 : Nat)) ∧
    heap.live.Pairwise Apart ∧
    (∀ block ∈ heap.live, InSegment heap.asgard block) ∧
    IdsExact heap.asgard ∧
    (∀ block ∈ heap.live, ∀ id ∈ block.ids, id ∈ heap.asgard.busyPool) ∧
    (∀ block ∈ heap.live, ∃ asgard, shmDealloc heap.asgard block.num block.ptr = .ok asgard) ∧
    ∃ result, shmAlloc heap.asgard u = .ok result := by
  have fixed : FixedSize dataPtr members u heap := (run.invariant (FixedSize dataPtr members u)
    (fun _ call => call.num = u) (initial_fixedSize dataPtr members u)
    (fun s call t kept same step => fixedSize_step top positive kept fits call t same step) sized).2
  have fitsHeap : u ≤ heap.asgard.members := by rw [fixed.size]; exact fits
  have freed := fun block owned => fixedSize_dealloc top positive fixed fitsHeap block owned
  obtain ⟨base,size,⟨free,busy,exact,aligned,owned⟩,blocks,distinct⟩ := fixed
  have inBusy : ∀ block ∈ heap.live, ∀ id ∈ block.ids, id ∈ heap.asgard.busyPool := by
    intro block member id inBlock
    rw [exact.busy_array,Pool.array]
    exact List.mem_append_left _ (owned block member id inBlock)
  refine ⟨?_,?_,?_,⟨free,busy,exact⟩,inBusy,fun block member => ?_,?_⟩
  · intro block member
    obtain ⟨num,k,ids,ptr⟩ := blocks block member
    refine ⟨num,k,?_,by rw [ptr]; push_cast; ring⟩
    rw [ids,slab,consecutive]
    apply List.map_congr_left
    intro j _
    push_cast
    ring
  · apply (List.pairwise_map.mp distinct).imp_of_mem
    intro a b ha hb different
    obtain ⟨aNum,k,_,aPtr⟩ := blocks a ha
    obtain ⟨bNum,l,_,bPtr⟩ := blocks b hb
    rcases Nat.lt_trichotomy k l with less | same | more
    · have := slab_order u k l less
      exact .inl (by rw [aPtr,bPtr,aNum]; omega)
    · exact absurd (by rw [aPtr,bPtr,same]) different
    · have := slab_order u l k more
      exact .inr (by rw [aPtr,bPtr,bNum]; omega)
  · intro block member
    obtain ⟨num,k,ids,ptr⟩ := blocks block member
    have last := owned block member ((k*u : Nat)+u) (ids ▸ (mem_slab u k _).mpr (by omega))
    have := (busy.inside _ last).2
    exact ⟨by rw [ptr,base]; omega,by rw [ptr,num,base]; omega⟩
  · obtain ⟨asgard,ran,_⟩ := freed block member
    exact ⟨asgard,ran⟩
  · have topHeap : (heap.asgard.members : Int) ≤ INT_MAX := by rw [size]; exact top
    by_cases short : free.ids.length < u
    · exact ⟨_,shmAlloc_refuses heap.asgard free (exact.orderly topHeap) u fitsHeap short⟩
    · obtain ⟨_,granted,_⟩ := exact.granted topHeap u positive fitsHeap (by omega) (by omega)
      exact ⟨_,granted⟩

theorem fixedSize_safe_two :
    [(⟨7168,2,[3,4]⟩ : Block)].Pairwise Apart ∧ IdsExact ⟨4096,5,[1,2,5,0,0],[3,4,0,0,0]⟩ ∧
      ∃ asgard, shmDealloc ⟨4096,5,[1,2,5,0,0],[3,4,0,0,0]⟩ 2 7168 = .ok asgard := by
  have one : Step (initial 4096 5) (.alloc 2) ⟨⟨4096,5,[3,4,5,0,0],[1,2,0,0,0]⟩,[⟨5120,2,[1,2]⟩]⟩ :=
    .granted _ 2 5120 ⟨4096,5,[3,4,5,0,0],[1,2,0,0,0]⟩ (by decide) (by decide) (by decide +kernel)
  have two : Step ⟨⟨4096,5,[3,4,5,0,0],[1,2,0,0,0]⟩,[⟨5120,2,[1,2]⟩]⟩ (.alloc 2)
      ⟨⟨4096,5,[5,0,0,0,0],[1,2,3,4,0]⟩,[⟨7168,2,[3,4]⟩,⟨5120,2,[1,2]⟩]⟩ :=
    .granted _ 2 7168 ⟨4096,5,[5,0,0,0,0],[1,2,3,4,0]⟩ (by decide) (by decide) (by decide +kernel)
  have back : Step ⟨⟨4096,5,[5,0,0,0,0],[1,2,3,4,0]⟩,[⟨7168,2,[3,4]⟩,⟨5120,2,[1,2]⟩]⟩
      (.dealloc ⟨5120,2,[1,2]⟩) ⟨⟨4096,5,[1,2,5,0,0],[3,4,0,0,0]⟩,[⟨7168,2,[3,4]⟩]⟩ :=
    .freed _ _ ⟨4096,5,[1,2,5,0,0],[3,4,0,0,0]⟩ (by decide) (by decide +kernel)
  have run := ((Run.single _ _ _ one).append (.single _ _ _ two)).append (.single _ _ _ back)
  have safe := fixedSize_safe 4096 5 2 (by decide) (by decide) (by decide) _ _ run (by simp [Call.num])
  exact ⟨safe.2.1,safe.2.2.2.1,safe.2.2.2.2.2.1 ⟨7168,2,[3,4]⟩ (by decide)⟩

end Spsc.Allocator
