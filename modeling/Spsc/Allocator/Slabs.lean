import Mathlib.Data.Finset.Range
import Spsc.Allocator.Fixed
import Spsc.Lib.Slots

/-! With one block size the allocator is a pool of slabs: it hands out the lowest
slab that is not in use, and takes back only the lowest slab in use. What is
given back out of that order is lost. -/
namespace Spsc.Allocator
open Imperative RadixSort Runs Ascending

def slabPtr (dataPtr : Int) (u k : Nat) : Int := dataPtr + ((k*u : Nat)+1)*1024

/-- The slab that a block of size `u` starts. -/
def slabOf (dataPtr : Int) (u : Nat) (ptr : Int) : Nat := ((ptr-dataPtr)/1024 - 1).toNat / u

def slabState (dataPtr : Int) (members u : Nat) (heap : Heap) : Slots.State Nat where
  used := (Finset.range (members/u)).filter (fun k => ((k*u : Nat)+1 : Int) ∈ heap.asgard.busyPool)
  owned := (Finset.range (members/u)).filter (fun k => slabPtr dataPtr u k ∈ heap.live.map Block.ptr)

def slabCall (dataPtr : Int) (u : Nat) : Call → Slots.Call Nat
  | .alloc _ => .take
  | .dealloc block => .give (slabOf dataPtr u block.ptr)

theorem slabOf_slabPtr (dataPtr : Int) (u k : Nat) (positive : 1 ≤ u) :
    slabOf dataPtr u (slabPtr dataPtr u k) = k := by
  have whole : (slabPtr dataPtr u k - dataPtr)/1024 - 1 = (k*u : Nat) := by
    unfold slabPtr
    omega
  rw [slabOf,whole,Int.toNat_natCast]
  exact Nat.mul_div_cancel k positive

theorem slabPtr_inj (dataPtr : Int) (u k l : Nat) (positive : 1 ≤ u)
    (same : slabPtr dataPtr u k = slabPtr dataPtr u l) : k = l := by
  rw [← slabOf_slabPtr dataPtr u k positive,same,slabOf_slabPtr dataPtr u l positive]

theorem slab_le (u k l : Nat) (positive : 1 ≤ u) (le : ((k*u : Nat)+1 : Int) ≤ (l*u : Nat)+1) : k ≤ l := by
  have scaled : k*u ≤ l*u := by omega
  exact Nat.le_of_mul_le_mul_right scaled positive

theorem slab_first (u k l : Nat) (positive : 1 ≤ u) (inside : ((l*u : Nat)+1 : Int) ∈ slab u k) : l = k :=
  slab_unique u l k _ ((mem_slab u l _).mpr (by omega)) inside

theorem slab_fits (members u k : Nat) (positive : 1 ≤ u) : k < members/u ↔ k*u+u ≤ members := by
  rw [← Nat.succ_mul,← Nat.le_div_iff_mul_le positive]
  exact Nat.lt_iff_add_one_le

theorem mem_owned (dataPtr : Int) (members u k : Nat) (heap : Heap) :
    k ∈ (slabState dataPtr members u heap).owned ↔
      k < members/u ∧ slabPtr dataPtr u k ∈ heap.live.map Block.ptr := by
  simp only [slabState,Finset.mem_filter,Finset.mem_range]

section Reading
variable {dataPtr : Int} {members u : Nat} {heap : Heap} {free busy : Pool heap.asgard.members}
  (exact : Exact heap.asgard free busy) (size : heap.asgard.members = members) (positive : 1 ≤ u)
  (aligned : Aligned u busy.ids)
include exact

theorem busy_iff (id : Int) (used : id ≠ 0) : id ∈ heap.asgard.busyPool ↔ id ∈ busy.ids := by
  rw [← busy.nonzero_array,← exact.busy_array,mem_nonzero]
  exact ⟨fun member => ⟨member,used⟩,fun member => member.1⟩

theorem mem_used (k : Nat) : k ∈ (slabState dataPtr members u heap).used ↔
    k < members/u ∧ ((k*u : Nat)+1 : Int) ∈ busy.ids := by
  simp only [slabState,Finset.mem_filter,Finset.mem_range]
  rw [busy_iff exact _ (by omega)]

include size positive aligned

/-- A busy id is in a slab that is in use. -/
theorem used_slab (id : Int) (held : id ∈ busy.ids) :
    ∃ k ∈ (slabState dataPtr members u heap).used, id ∈ slab u k := by
  obtain ⟨k,mine⟩ := slab_of u positive id (busy.inside id held).1
  have whole := aligned k ⟨id,mine,held⟩
  have first := whole ((k*u : Nat)+1) ((mem_slab u k _).mpr (by omega))
  have last := (busy.inside _ (whole ((k*u : Nat)+u) ((mem_slab u k _).mpr (by omega)))).2
  refine ⟨k,(mem_used exact k).mpr ⟨?_,first⟩,mine⟩
  rw [slab_fits members u k positive]
  omega

theorem idle_whole (k : Nat) (inside : k < members/u) (idle : k ∉ (slabState dataPtr members u heap).used) :
    ∀ id ∈ slab u k, id ∈ free.ids := by
  intro id mine
  have bound := (slab_fits members u k positive).mp inside
  have free_first : ((k*u : Nat)+1 : Int) ∈ free.ids := by
    rcases (exact.mem ((k*u : Nat)+1)).mpr (by omega) with free | used
    · exact free
    · exact absurd ((mem_used exact k).mpr ⟨inside,used⟩) idle
  have range := (mem_slab u k id).mp mine
  exact idle_slab exact u aligned k _ id ((mem_slab u k _).mpr (by omega)) mine free_first (by omega)

end Reading

section Moves
variable (dataPtr : Int) (members : Nat) {u : Nat} {heap : Heap} (next : Heap)
  {free busy : Pool heap.asgard.members} {free' busy' : Pool next.asgard.members} (exact : Exact heap.asgard free busy)
  (exact' : Exact next.asgard free' busy') (positive : 1 ≤ u) (k : Nat)
include exact exact' positive

theorem slabState_grown (inside : k < members/u) (perm : busy'.ids.Perm (slab u k ++ busy.ids))
    (live : next.live.map Block.ptr = slabPtr dataPtr u k :: heap.live.map Block.ptr) :
    slabState dataPtr members u next = ⟨insert k (slabState dataPtr members u heap).used,
      insert k (slabState dataPtr members u heap).owned⟩ := by
  apply Slots.State.ext
  · ext l
    rw [mem_used exact',Finset.mem_insert,mem_used exact,perm.mem_iff,List.mem_append]
    constructor
    · rintro ⟨bound,new | old⟩
      · exact .inl (slab_first u k l positive new)
      · exact .inr ⟨bound,old⟩
    · rintro (rfl | ⟨bound,old⟩)
      · exact ⟨inside,.inl ((mem_slab u l _).mpr (by omega))⟩
      · exact ⟨bound,.inr old⟩
  · ext l
    rw [mem_owned,Finset.mem_insert,mem_owned,live,List.mem_cons]
    constructor
    · rintro ⟨bound,new | old⟩
      · exact .inl (slabPtr_inj dataPtr u l k positive new)
      · exact .inr ⟨bound,old⟩
    · rintro (rfl | ⟨bound,old⟩)
      · exact ⟨inside,.inl rfl⟩
      · exact ⟨bound,.inr old⟩

theorem slabState_used (left : ∀ id, id ∈ busy'.ids ↔ id ∈ busy.ids ∧ id ∉ slab u k) :
    (slabState dataPtr members u next).used = (slabState dataPtr members u heap).used.erase k := by
  ext l
  rw [mem_used exact',Finset.mem_erase,mem_used exact,left]
  constructor
  · rintro ⟨bound,old,outside⟩
    refine ⟨?_,bound,old⟩
    rintro rfl
    exact outside ((mem_slab u l _).mpr (by omega))
  · rintro ⟨different,bound,old⟩
    exact ⟨bound,old,fun inSlab => different (slab_first u k l positive inSlab)⟩

end Moves

theorem slabState_owned (dataPtr : Int) (members u k : Nat) (heap : Heap) (asgard : Asgard) (positive : 1 ≤ u)
    (block : Block) (mine : block ∈ heap.live) (ptr : block.ptr = slabPtr dataPtr u k)
    (distinct : (heap.live.map Block.ptr).Nodup) :
    (slabState dataPtr members u ⟨asgard,heap.live.erase block⟩).owned =
      (slabState dataPtr members u heap).owned.erase k := by
  have left : ∀ l, slabPtr dataPtr u l ∈ (heap.live.erase block).map Block.ptr ↔
      l ≠ k ∧ slabPtr dataPtr u l ∈ heap.live.map Block.ptr := by
    intro l
    constructor
    · intro member
      obtain ⟨other,still,same⟩ := List.mem_map.mp member
      obtain ⟨different,old⟩ := (List.Nodup.of_map _ distinct).mem_erase_iff.mp still
      refine ⟨?_,List.mem_map.mpr ⟨other,old,same⟩⟩
      rintro rfl
      exact different (List.inj_on_of_nodup_map distinct old mine (same.trans ptr.symm))
    · rintro ⟨different,member⟩
      obtain ⟨other,old,same⟩ := List.mem_map.mp member
      refine List.mem_map.mpr ⟨other,(List.Nodup.of_map _ distinct).mem_erase_iff.mpr ⟨?_,old⟩,same⟩
      rintro rfl
      exact different (slabPtr_inj dataPtr u l k positive (same.symm.trans ptr))
  ext l
  rw [mem_owned,Finset.mem_erase,mem_owned,left]
  exact and_left_comm

section Steps
variable {dataPtr : Int} {members u : Nat} (top : (members : Int) ≤ INT_MAX) (positive : 1 ≤ u) (fits : u ≤ members)
  {heap : Heap} (fixed : FixedSize dataPtr members u heap)
include top positive fits fixed

theorem slabs_alloc (result : Option Int) (asgard : Asgard) (ran : shmAlloc heap.asgard u = .ok (result,asgard))
    (live : List Block) (grown : live.map Block.ptr = result.toList ++ heap.live.map Block.ptr) :
    Slots.Step (Finset.range (members/u)) (slabState dataPtr members u heap) .take
      (slabState dataPtr members u ⟨asgard,live⟩) := by
  obtain ⟨base,size,⟨free,busy,exact,aligned,owned⟩,blocks,distinct⟩ := fixed
  have topHeap : (heap.asgard.members : Int) ≤ INT_MAX := by rw [size]; exact top
  have fitsHeap : u ≤ heap.asgard.members := by rw [size]; exact fits
  have idle : ∀ k ∈ Finset.range (members/u), k ∉ (slabState dataPtr members u heap).used →
      ∀ id ∈ slab u k, id ∈ free.ids := fun k inside unused =>
    idle_whole exact size positive aligned k (Finset.mem_range.mp inside) unused
  by_cases short : free.ids.length < u
  · have refused := shmAlloc_refuses heap.asgard free (exact.orderly topHeap) u fitsHeap short
    obtain ⟨rfl,rfl⟩ := Prod.mk.inj (Except.ok.inj (ran.symm.trans refused))
    have same : slabState dataPtr members u ⟨heap.asgard,live⟩ = slabState dataPtr members u heap := by
      rw [Option.toList_none,List.nil_append] at grown
      simp only [slabState,grown]
    rw [same]
    refine .full _ ?_
    intro k inside
    by_contra unused
    have nodup : (slab u k).Nodup := List.Nodup.map (fun i j (same : _ = _) => by omega) List.nodup_range
    have := (List.subperm_of_subset nodup (idle k inside unused)).length_le
    rw [slab,consecutive_length] at this
    omega
  · have enough : u ≤ free.ids.length := by omega
    obtain ⟨next,granted,perm,exact'⟩ := exact.granted topHeap u positive fitsHeap (by omega) enough
    obtain ⟨k,taken,first⟩ := granted_slab exact u positive aligned (by omega) enough
    obtain ⟨rfl,rfl⟩ := Prod.mk.inj (Except.ok.inj (ran.symm.trans granted))
    rw [taken] at perm
    have inFree : ∀ id ∈ slab u k, id ∈ free.ids := by
      intro id mine
      rw [← taken] at mine
      exact List.mem_of_mem_take mine
    have last := (free.inside _ (inFree ((k*u : Nat)+u) ((mem_slab u k _).mpr (by omega)))).2
    have inside : k < members/u := (slab_fits members u k positive).mpr (by omega)
    have unused : k ∉ (slabState dataPtr members u heap).used := fun busy =>
      exact.apart _ (inFree _ ((mem_slab u k _).mpr (by omega))) ((mem_used exact k).mp busy).2
    have lowest : ∀ other ∈ Finset.range (members/u), other ∉ (slabState dataPtr members u heap).used →
        k ≤ other := by
      intro other bound unused
      have above := head_le free.ascending (by omega) _
        (idle other bound unused ((other*u : Nat)+1) ((mem_slab u other _).mpr (by omega)))
      exact slab_le u k other positive (first ▸ above)
    rw [slabState_grown dataPtr members ⟨_,live⟩ exact exact' positive k inside perm (by
      rw [grown,first,base]
      rfl)]
    exact .taken _ k (Finset.mem_range.mpr inside) unused lowest

theorem slabs_dealloc (block : Block) (asgard : Asgard) (owned : block ∈ heap.live)
    (ran : shmDealloc heap.asgard block.num block.ptr = .ok asgard) :
    Slots.Step (Finset.range (members/u)) (slabState dataPtr members u heap)
      (.give (slabOf dataPtr u block.ptr)) (slabState dataPtr members u ⟨asgard,heap.live.erase block⟩) := by
  obtain ⟨base,size,⟨free,busy,exact,aligned,held⟩,blocks,distinct⟩ := fixed
  have topHeap : (heap.asgard.members : Int) ≤ INT_MAX := by rw [size]; exact top
  have fitsHeap : u ≤ heap.asgard.members := by rw [size]; exact fits
  obtain ⟨num,k,ids,ptr⟩ := blocks block owned
  have start : ((k*u : Nat)+1 : Int) ∈ slab u k := (mem_slab u k _).mpr (by omega)
  have inBusy := held block owned
  rw [ids] at inBusy
  obtain ⟨p,bound,here⟩ := List.mem_iff_getElem.mp (inBusy _ start)
  have last := (busy.inside _ (inBusy ((k*u : Nat)+u) ((mem_slab u k _).mpr (by omega)))).2
  have inside : k < members/u := (slab_fits members u k positive).mpr (by omega)
  have mine : k ∈ (slabState dataPtr members u heap).owned :=
    (mem_owned dataPtr members u k heap).mpr ⟨inside,List.mem_map.mpr ⟨block,owned,ptr⟩⟩
  have rest := slabState_owned dataPtr members u k heap asgard positive block owned ptr distinct
  rw [num,ptr,← here,← base] at ran
  rw [ptr]
  change Slots.Step _ _ (.give (slabOf dataPtr u (slabPtr dataPtr u k))) _
  rw [slabOf_slabPtr dataPtr u k positive]
  rcases front_or_past u positive aligned p k bound here with front | past
  · subst front
    have taken := front_slab u positive aligned k bound here
    have enough : u ≤ busy.ids.length := by
      have size := congrArg List.length taken
      simp only [slab,List.length_take,consecutive_length] at size
      omega
    obtain ⟨pool,freed,_,exact'⟩ := exact.freed_front topHeap u fitsHeap 0 bound rfl enough
    obtain rfl := Except.ok.inj (ran.symm.trans freed)
    have used := slabState_used dataPtr members ⟨_,heap.live.erase block⟩ exact exact' positive k (mem_drop_slab u k taken)
    refine Slots.Step.give k mine rest (.inl ⟨?_,used⟩)
    intro other busyOther
    have above := head_le busy.ascending bound _ ((mem_used exact other).mp busyOther).2
    exact slab_le u k other positive (here ▸ above)
  · have freed := exact.freed_past topHeap u fitsHeap p bound past
    obtain rfl := Except.ok.inj (ran.symm.trans freed)
    -- the block is past the front of the busy pool, where another slab stands
    have zero : 0 < busy.ids.length := by omega
    obtain ⟨l,lower,front⟩ := used_slab exact size positive aligned busy.ids[0] (List.getElem_mem zero)
    refine Slots.Step.give k mine rest (.inr ⟨⟨l,lower,?_⟩,rfl⟩)
    have less := getElem_lt busy.ascending (by omega : 0 < p) zero bound
    have low := (mem_slab u l _).mp front
    by_contra above
    have := Nat.mul_le_mul_right u (Nat.le_of_not_lt above)
    omega

theorem slabs_step (call : Call) (next : Heap) (sized : call.num = u) (step : Step heap call next) :
    Slots.Step (Finset.range (members/u)) (slabState dataPtr members u heap) (slabCall dataPtr u call)
      (slabState dataPtr members u next) := by
  cases step with
  | granted num ptr asgard _ _ ran =>
    obtain rfl : num = u := sized
    exact slabs_alloc top positive fits fixed _ _ ran _ rfl
  | refused num asgard _ _ ran =>
    obtain rfl : num = u := sized
    exact slabs_alloc top positive fits fixed _ _ ran _ rfl
  | freed block asgard owned ran => exact slabs_dealloc top positive fits fixed block asgard owned ran

end Steps

/-- A buffer that is in use and that no block holds. -/
def Orphan (heap : Heap) (id : Int) : Prop :=
  id ∈ heap.asgard.busyPool ∧ id ≠ 0 ∧ ∀ block ∈ heap.live, id ∉ block.ids

section Orphans
variable {dataPtr : Int} {members u : Nat} (positive : 1 ≤ u) {heap : Heap} (fixed : FixedSize dataPtr members u heap)
include positive fixed

theorem owned_iff (k : Nat) (id : Int) (mine : id ∈ slab u k)
    (busy : k ∈ (slabState dataPtr members u heap).used) :
    k ∈ (slabState dataPtr members u heap).owned ↔ ∃ block ∈ heap.live, id ∈ block.ids := by
  rw [mem_owned]
  constructor
  · rintro ⟨_,held⟩
    obtain ⟨block,live,ptr⟩ := List.mem_map.mp held
    obtain ⟨_,l,ids,place⟩ := fixed.blocks block live
    obtain rfl := slabPtr_inj dataPtr u k l positive (ptr.symm.trans place)
    exact ⟨block,live,ids ▸ mine⟩
  · rintro ⟨block,live,inBlock⟩
    obtain ⟨_,l,ids,place⟩ := fixed.blocks block live
    obtain rfl := slab_unique u l k id (ids ▸ inBlock) mine
    refine ⟨Finset.mem_range.mp (Finset.mem_filter.mp busy).1,List.mem_map.mpr ⟨block,live,place⟩⟩

theorem used_iff (k : Nat) (id : Int) (mine : id ∈ slab u k) :
    k ∈ (slabState dataPtr members u heap).used ↔ id ∈ heap.asgard.busyPool := by
  obtain ⟨base,size,⟨free,busy,exact,aligned,held⟩,blocks,distinct⟩ := fixed
  have range := (mem_slab u k id).mp mine
  rw [busy_iff exact id (by omega)]
  constructor
  · intro inUse
    exact aligned k ⟨_,(mem_slab u k _).mpr (by omega),((mem_used exact k).mp inUse).2⟩ id mine
  · intro inBusy
    obtain ⟨l,inUse,here⟩ := used_slab exact size positive aligned id inBusy
    exact slab_unique u l k id here mine ▸ inUse

theorem orphan_iff (k : Nat) (id : Int) (mine : id ∈ slab u k) :
    Slots.Lost (slabState dataPtr members u heap) k ↔ Orphan heap id := by
  have range := (mem_slab u k id).mp mine
  constructor
  · rintro ⟨inUse,lost⟩
    refine ⟨(used_iff positive fixed k id mine).mp inUse,by omega,?_⟩
    intro block live inBlock
    exact lost ((owned_iff positive fixed k id mine inUse).mpr ⟨block,live,inBlock⟩)
  · rintro ⟨inBusy,_,none_holds⟩
    have inUse := (used_iff positive fixed k id mine).mpr inBusy
    refine ⟨inUse,fun owned => ?_⟩
    obtain ⟨block,live,inBlock⟩ := (owned_iff positive fixed k id mine inUse).mp owned
    exact none_holds block live inBlock

theorem busy_slab (id : Int) (inBusy : id ∈ heap.asgard.busyPool) (used : id ≠ 0) : ∃ k, id ∈ slab u k := by
  obtain ⟨free,busy,exact,_⟩ := fixed.pools
  exact slab_of u positive id (busy.inside id ((busy_iff exact id used).mp inBusy)).1

theorem lossFree_iff : Slots.LossFree (slabState dataPtr members u heap) ↔ ∀ id, ¬ Orphan heap id := by
  constructor
  · intro none_lost id orphan
    obtain ⟨k,mine⟩ := busy_slab positive fixed id orphan.1 orphan.2.1
    exact none_lost k ((orphan_iff positive fixed k id mine).mpr orphan)
  · intro none_lost k lost
    have first : ((k*u : Nat)+1 : Int) ∈ slab u k := (mem_slab u k _).mpr (by omega)
    exact none_lost _ ((orphan_iff positive fixed k _ first).mp lost)

theorem orderly_iff (block : Block) (owned : block ∈ heap.live) :
    Slots.Orderly (slabState dataPtr members u heap) (slabCall dataPtr u (.dealloc block)) ↔
      ∀ id ∈ heap.asgard.busyPool, id ≠ 0 → block.ptr ≤ dataPtr + id*1024 := by
  obtain ⟨_,k,_,place⟩ := fixed.blocks block owned
  have mine : slabOf dataPtr u block.ptr = k := by
    rw [place]
    exact slabOf_slabPtr dataPtr u k positive
  simp only [slabCall,Slots.Orderly,mine]
  constructor
  · intro lowest id inBusy used
    obtain ⟨l,here⟩ := busy_slab positive fixed id inBusy used
    have le := Nat.mul_le_mul_right u (lowest l ((used_iff positive fixed l id here).mpr inBusy))
    have range := (mem_slab u l id).mp here
    omega
  · intro lowest l inUse
    have first : ((l*u : Nat)+1 : Int) ∈ slab u l := (mem_slab u l _).mpr (by omega)
    have above := lowest _ ((used_iff positive fixed l _ first).mp inUse) (by omega)
    exact slab_le u k l positive (by omega)

end Orphans

section Runs
variable (dataPtr : Int) (members u : Nat) (top : (members : Int) ≤ INT_MAX) (positive : 1 ≤ u) (fits : u ≤ members)
include top positive fits

theorem slabs_run {heap later : Heap} {trace : List (Heap × Call)} (run : Run Step heap trace later)
    (fixed : FixedSize dataPtr members u heap) (sized : ∀ entry ∈ trace, entry.2.num = u) :
    Run (Slots.Step (Finset.range (members/u))) (slabState dataPtr members u heap)
      (trace.map (fun entry => (slabState dataPtr members u entry.1,slabCall dataPtr u entry.2)))
      (slabState dataPtr members u later) ∧ FixedSize dataPtr members u later :=
  run.image (slabState dataPtr members u) (slabCall dataPtr u) (FixedSize dataPtr members u)
    (fun _ call => call.num = u) fixed (fun _ call t kept same step =>
      ⟨fixedSize_step top positive kept fits call t same step,slabs_step top positive fits kept call t same step⟩) sized

end Runs

theorem slabState_initial (dataPtr : Int) (members u : Nat) :
    slabState dataPtr members u (initial dataPtr members) = Slots.start := by
  apply Slots.State.ext
  · ext k
    simp only [slabState,initial,freePoolInit,Slots.start,Finset.mem_filter,List.mem_replicate,
      Finset.notMem_empty,iff_false]
    omega
  · ext k
    simp [mem_owned,initial,Slots.start]

/-- Two blocks of two buffers, the second given back first. -/
theorem upper_first : Run Step (initial 4096 5)
    [(initial 4096 5,.alloc 2),
      (⟨⟨4096,5,[3,4,5,0,0],[1,2,0,0,0]⟩,[⟨5120,2,[1,2]⟩]⟩,.alloc 2),
      (⟨⟨4096,5,[5,0,0,0,0],[1,2,3,4,0]⟩,[⟨7168,2,[3,4]⟩,⟨5120,2,[1,2]⟩]⟩,.dealloc ⟨7168,2,[3,4]⟩)]
    ⟨⟨4096,5,[5,0,0,0,0],[1,2,3,4,0]⟩,[⟨5120,2,[1,2]⟩]⟩ := by
  have one : Step (initial 4096 5) (.alloc 2) ⟨⟨4096,5,[3,4,5,0,0],[1,2,0,0,0]⟩,[⟨5120,2,[1,2]⟩]⟩ :=
    .granted _ 2 5120 ⟨4096,5,[3,4,5,0,0],[1,2,0,0,0]⟩ (by decide) (by decide) (by decide +kernel)
  have two : Step ⟨⟨4096,5,[3,4,5,0,0],[1,2,0,0,0]⟩,[⟨5120,2,[1,2]⟩]⟩ (.alloc 2)
      ⟨⟨4096,5,[5,0,0,0,0],[1,2,3,4,0]⟩,[⟨7168,2,[3,4]⟩,⟨5120,2,[1,2]⟩]⟩ :=
    .granted _ 2 7168 ⟨4096,5,[5,0,0,0,0],[1,2,3,4,0]⟩ (by decide) (by decide) (by decide +kernel)
  have back : Step ⟨⟨4096,5,[5,0,0,0,0],[1,2,3,4,0]⟩,[⟨7168,2,[3,4]⟩,⟨5120,2,[1,2]⟩]⟩
      (.dealloc ⟨7168,2,[3,4]⟩) ⟨⟨4096,5,[5,0,0,0,0],[1,2,3,4,0]⟩,[⟨5120,2,[1,2]⟩]⟩ :=
    .freed _ _ ⟨4096,5,[5,0,0,0,0],[1,2,3,4,0]⟩ (by decide) (by decide +kernel)
  exact ((Run.single _ _ _ one).append (.single _ _ _ two)).append (.single _ _ _ back)

/-- Every run with one block size is a run of the pool of slabs: each successful
call is given the lowest slab that is not in use, a call is refused only when all
are in use, and only the lowest slab in use is ever taken back. -/
theorem fixedSize_refines (dataPtr : Int) (members u : Nat) (top : (members : Int) ≤ INT_MAX)
    (positive : 1 ≤ u) (fits : u ≤ members) (trace : List (Heap × Call)) (heap : Heap)
    (run : Run Step (initial dataPtr members) trace heap) (sized : ∀ entry ∈ trace, entry.2.num = u) :
    Run (Slots.Step (Finset.range (members/u))) Slots.start
      (trace.map (fun entry => (slabState dataPtr members u entry.1,slabCall dataPtr u entry.2)))
      (slabState dataPtr members u heap) := by
  have read := (slabs_run dataPtr members u top positive fits run (initial_fixedSize dataPtr members u) sized).1
  rwa [slabState_initial] at read

theorem fixedSize_refines_two :
    ∃ trace, Run (Slots.Step (Finset.range 2)) Slots.start trace ⟨{0,1},{0}⟩ := by
  have read := fixedSize_refines 4096 5 2 (by decide) (by decide) (by decide) _ _ upper_first (by simp [Call.num])
  have last : slabState 4096 5 2 ⟨⟨4096,5,[5,0,0,0,0],[1,2,3,4,0]⟩,[⟨5120,2,[1,2]⟩]⟩ = ⟨{0,1},{0}⟩ :=
    Slots.State.ext (by decide) (by decide)
  rw [last] at read
  exact ⟨_,read⟩

/-- No buffer is orphaned as long as, and only as long as, every block given back
lies below every buffer in use. -/
theorem fixedSize_orphans (dataPtr : Int) (members u : Nat) (top : (members : Int) ≤ INT_MAX)
    (positive : 1 ≤ u) (fits : u ≤ members) (trace : List (Heap × Call)) (heap : Heap)
    (run : Run Step (initial dataPtr members) trace heap) (sized : ∀ entry ∈ trace, entry.2.num = u) :
    Throughout (fun heap => ∀ id, ¬ Orphan heap id) trace heap ↔
      ∀ entry ∈ trace, ∀ block, entry.2 = .dealloc block →
        ∀ id ∈ entry.1.asgard.busyPool, id ≠ 0 → block.ptr ≤ dataPtr + id*1024 := by
  have fixed := run.invariant (FixedSize dataPtr members u) (fun _ call => call.num = u)
    (initial_fixedSize dataPtr members u)
    (fun _ call t kept same step => fixedSize_step top positive kept fits call t same step) sized
  have exact := Slots.Run.lossFree_iff (fixedSize_refines dataPtr members u top positive fits trace heap run sized)
  have visited : Throughout (fun heap => ∀ id, ¬ Orphan heap id) trace heap ↔
      Throughout Slots.LossFree (trace.map (fun entry => (slabState dataPtr members u entry.1,
        slabCall dataPtr u entry.2))) (slabState dataPtr members u heap) := by
    simp only [Throughout,List.forall_mem_map]
    rw [lossFree_iff positive fixed.2]
    exact and_congr_left' (forall₂_congr fun entry member => (lossFree_iff positive (fixed.1 entry member)).symm)
  rw [visited,exact,List.forall_mem_map]
  refine forall₂_congr fun entry member => ?_
  obtain ⟨after,step⟩ := run.taken entry member
  obtain ⟨before,call⟩ := entry
  cases call with
  | alloc num => simp [slabCall,Slots.Orderly]
  | dealloc block =>
    have owned : block ∈ before.live := by
      cases step with
      | freed _ _ owned => exact owned
    simp only [orderly_iff positive (fixed.1 _ member) block owned,Call.dealloc.injEq,forall_eq']

theorem fixedSize_orphans_upper : ∃ trace heap, Run Step (initial 4096 5) trace heap ∧
    ¬ Throughout (fun heap => ∀ id, ¬ Orphan heap id) trace heap := by
  refine ⟨_,_,upper_first,fun none_orphaned => ?_⟩
  have lowest := (fixedSize_orphans 4096 5 2 (by decide) (by decide) (by decide) _ _ upper_first
    (by simp [Call.num])).mp none_orphaned _ (List.mem_cons_of_mem _ (List.mem_cons_of_mem _ List.mem_cons_self))
    ⟨7168,2,[3,4]⟩ rfl 1 (by decide) (by decide)
  exact absurd lowest (by decide)

/-- An orphaned buffer stays one, and from then on no buffer above it that is in
use ever becomes free again. -/
theorem orphan_stays (dataPtr : Int) (members u : Nat) (top : (members : Int) ≤ INT_MAX)
    (positive : 1 ≤ u) (fits : u ≤ members) (past future : List (Heap × Call)) (heap later : Heap)
    (before : Run Step (initial dataPtr members) past heap) (after : Run Step heap future later)
    (sized : ∀ entry ∈ past ++ future, entry.2.num = u) (id : Int) (orphan : Orphan heap id) :
    Orphan later id ∧ ∀ other ∈ heap.asgard.busyPool, id ≤ other → other ∈ later.asgard.busyPool := by
  obtain ⟨_,fixed⟩ := slabs_run dataPtr members u top positive fits before (initial_fixedSize dataPtr members u)
    (fun entry member => sized entry (List.mem_append_left _ member))
  obtain ⟨read,fixed'⟩ := slabs_run dataPtr members u top positive fits after fixed
    (fun entry member => sized entry (List.mem_append_right _ member))
  obtain ⟨k,mine⟩ := busy_slab positive fixed id orphan.1 orphan.2.1
  obtain ⟨lost,kept⟩ := Slots.Run.stuck read k ((orphan_iff positive fixed k id mine).mpr orphan)
  refine ⟨(orphan_iff positive fixed' k id mine).mp lost,?_⟩
  intro other inBusy above
  have low := (mem_slab u k id).mp mine
  obtain ⟨l,here⟩ := busy_slab positive fixed other inBusy (by omega)
  have range := (mem_slab u l other).mp here
  have le : k ≤ l := by
    by_contra below
    have := slab_order u l k (Nat.lt_of_not_le below)
    omega
  exact (used_iff positive fixed' l other here).mp (kept l ((used_iff positive fixed l other here).mpr inBusy) le)

theorem orphan_stays_third : Orphan ⟨⟨4096,5,[1,2,5,0,0],[3,4,0,0,0]⟩,[]⟩ 3 ∧ (4 : Int) ∈ [3,4,0,0,0] := by
  have back : Step ⟨⟨4096,5,[5,0,0,0,0],[1,2,3,4,0]⟩,[⟨5120,2,[1,2]⟩]⟩ (.dealloc ⟨5120,2,[1,2]⟩)
      ⟨⟨4096,5,[1,2,5,0,0],[3,4,0,0,0]⟩,[]⟩ :=
    .freed _ _ ⟨4096,5,[1,2,5,0,0],[3,4,0,0,0]⟩ (by decide) (by decide +kernel)
  obtain ⟨orphan,above⟩ := orphan_stays 4096 5 2 (by decide) (by decide) (by decide) _ _ _ _ upper_first
    (.single _ _ _ back) (by simp [Call.num]) 3 ⟨by decide,by decide,by decide⟩
  have still : (4 : Int) ∈ [3,4,0,0,0] := above 4 (by decide) (by decide)
  exact ⟨orphan,still⟩

end Spsc.Allocator
