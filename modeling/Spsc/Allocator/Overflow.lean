import Spsc.Allocator
import Spsc.Lib.Runs
import Spsc.RadixSort.Move
import Spsc.RadixSort.Overflow

/-! Whatever the calls of the allocator, its pools hold no number above `members`, so that no sort of
a pool multiplies out of the ints. -/
namespace Spsc.Allocator
open Imperative RadixSort Runs

inductive PoolCall where
  | alloc (num : Int)
  | dealloc (num mem : Int)
  deriving DecidableEq, Repr

/-- A call that comes back, with any arguments. -/
def Called (asgard : Asgard) : PoolCall → Asgard → Prop
  | .alloc num, next => ∃ result, shmAlloc asgard num = .ok (result,next)
  | .dealloc num mem, next => shmDealloc asgard num mem = .ok next

/-- The arrays that a call gives to `radix_sort`. -/
inductive SortsPool (asgard : Asgard) : PoolCall → List Int → Prop
  | alloc (num : Int) (freePool busyPool : List Int)
      (moved : transfer asgard.members 0 num.toNat asgard.freePool asgard.busyPool = .ok (freePool,busyPool)) :
      SortsPool asgard (.alloc num) busyPool
  | dealloc (num mem binres : Int) (busyPool freePool : List Int)
      (found : binarySearch asgard.busyPool 0 asgard.members ((mem - asgard.dataPtr).tdiv 1024) = .ok binres)
      (moved : transfer asgard.members binres.toNat num.toNat asgard.busyPool asgard.freePool = .ok (busyPool,freePool)) :
      SortsPool asgard (.dealloc num mem) freePool

def Within (members : Nat) (pool : List Int) : Prop := ∀ id ∈ pool, 0 ≤ id ∧ id ≤ members

section Pools
variable {members : Nat} {pool next : List Int}

theorem Within.store {fault : Fault} {place id : Int} (within : Within members pool) (small : 0 ≤ id ∧ id ≤ members)
    (ran : store fault pool place id = .ok next) : Within members next := by
  obtain ⟨_,_,rfl⟩ := store_ok _ _ _ _ _ ran
  intro other member
  rcases List.mem_or_eq_of_mem_set member with old | rfl
  · exact within other old
  · exact small

theorem Within.load {fault : Fault} {place id : Int} (within : Within members pool) (ran : load fault pool place = .ok id) :
    0 ≤ id ∧ id ≤ members := by
  unfold Imperative.load at ran
  split at ran
  · split at ran
    · next value found =>
      obtain rfl := Except.ok.inj ran
      exact within value (List.mem_of_getElem? found)
    · cases ran
  · cases ran

theorem transfer_within (count first num : Nat) (source target source' target' : List Int)
    (from_within : Within members source) (to_within : Within members target)
    (moved : transfer count first num source target = .ok (source',target')) :
    Within members source' ∧ Within members target' := by
  refine forLoop_kept _ (fun pools => Within members pools.1 ∧ Within members pools.2) first (num-first) (source,target)
    (source',target') ?_ ⟨from_within,to_within⟩ moved
  rintro i ⟨front,back⟩ ⟨front',back'⟩ ⟨inFront,inBack⟩ turn
  obtain ⟨id,fetched,turn⟩ := bind_ok _ _ _ turn
  obtain ⟨grown,stored,turn⟩ := bind_ok _ _ _ turn
  obtain ⟨cleared,zeroed,turn⟩ := bind_ok _ _ _ turn
  obtain ⟨rfl,rfl⟩ := Prod.mk.inj (Except.ok.inj turn)
  exact ⟨inFront.store (by omega) zeroed,inBack.store (inFront.load fetched) stored⟩

theorem moveArray_within (within : Within members pool) (ran : moveArray pool = .ok next) : Within members next := by
  obtain ⟨zeros,items,split,moved⟩ := moveArray_split pool
  obtain rfl := Except.ok.inj (moved.symm.trans ran)
  intro id member
  apply within
  rw [split]
  rcases List.mem_append.mp member with item | zero
  · exact List.mem_append_right _ item
  · exact List.mem_append_left _ zero

theorem radixSort_within (top : (members : Int) ≤ INT_MAX) (within : Within members pool)
    (ran : radixSort pool = .ok next) : Within members next := by
  obtain ⟨sorted,same,perm,_⟩ := radixSort_sorts pool (fun id member => ⟨(within id member).1,(within id member).2.trans top⟩)
  obtain rfl := Except.ok.inj (same.symm.trans ran)
  exact fun id member => within id (perm.mem_iff.mp member)

end Pools

structure PoolsWithin (members : Nat) (asgard : Asgard) : Prop where
  size : asgard.members = members
  free : Within members asgard.freePool
  busy : Within members asgard.busyPool

theorem freePoolInit_within (dataPtr : Int) (members : Nat) : PoolsWithin members (freePoolInit dataPtr members) where
  size := rfl
  free := by
    intro id member
    obtain ⟨i,inside,rfl⟩ := List.mem_map.mp member
    have below := List.mem_range.mp inside
    omega
  busy := by
    intro id member
    rw [List.eq_of_mem_replicate member]
    omega

theorem called_within (members : Nat) (top : (members : Int) ≤ INT_MAX) (asgard next : Asgard) (call : PoolCall)
    (within : PoolsWithin members asgard) (called : Called asgard call next) : PoolsWithin members next := by
  obtain ⟨size,free,busy⟩ := within
  cases call with
  | alloc num =>
    obtain ⟨result,ran⟩ := called
    obtain ⟨_,_,ran⟩ := bind_ok _ _ _ ran
    obtain ⟨available,_,ran⟩ := bind_ok _ _ _ ran
    split at ran
    · obtain ⟨_,rfl⟩ := Prod.mk.inj (Except.ok.inj ran)
      exact ⟨size,free,busy⟩
    · obtain ⟨first,_,ran⟩ := bind_ok _ _ _ ran
      obtain ⟨⟨freePool,busyPool⟩,moved,ran⟩ := bind_ok _ _ _ ran
      obtain ⟨freeMoved,compacted,ran⟩ := bind_ok _ _ _ ran
      obtain ⟨busySorted,sorted,ran⟩ := bind_ok _ _ _ ran
      obtain ⟨busyMoved,settled,ran⟩ := bind_ok _ _ _ ran
      obtain ⟨_,rfl⟩ := Prod.mk.inj (Except.ok.inj ran)
      obtain ⟨freeWithin,busyWithin⟩ := transfer_within _ _ _ _ _ _ _ free busy moved
      exact ⟨size,moveArray_within freeWithin compacted,moveArray_within (radixSort_within top busyWithin sorted) settled⟩
  | dealloc num mem =>
    obtain ⟨binres,_,ran⟩ := bind_ok _ _ _ called
    obtain ⟨_,_,ran⟩ := bind_ok _ _ _ ran
    obtain ⟨⟨busyPool,freePool⟩,moved,ran⟩ := bind_ok _ _ _ ran
    obtain ⟨freeSorted,sorted,ran⟩ := bind_ok _ _ _ ran
    obtain ⟨freeMoved,settled,ran⟩ := bind_ok _ _ _ ran
    obtain ⟨busyMoved,compacted,ran⟩ := bind_ok _ _ _ ran
    obtain rfl := Except.ok.inj ran
    obtain ⟨busyWithin,freeWithin⟩ := transfer_within _ _ _ _ _ _ _ busy free moved
    exact ⟨size,moveArray_within (radixSort_within top freeWithin sorted) settled,moveArray_within busyWithin compacted⟩

theorem sorted_within (members : Nat) (asgard : Asgard) (call : PoolCall) (pool : List Int)
    (within : PoolsWithin members asgard) (sorts : SortsPool asgard call pool) : Within members pool := by
  cases sorts with
  | alloc num freePool busyPool moved => exact (transfer_within _ _ _ _ _ _ _ within.free within.busy moved).2
  | dealloc num mem binres busyPool freePool found moved =>
    exact (transfer_within _ _ _ _ _ _ _ within.busy within.free moved).2

theorem pools_small (dataPtr : Int) (members : Nat) (few : members ≤ 102399) (trace : List (Asgard × PoolCall))
    (asgard : Asgard) (run : Run Called (freePoolInit dataPtr members) trace asgard) (call : PoolCall) (pool : List Int)
    (sorts : SortsPool asgard call pool) : ¬ Overflows pool := by
  have top : (members : Int) ≤ INT_MAX := by
    unfold INT_MAX
    omega
  have kept := run.invariant (PoolsWithin members) (fun _ _ => True) (freePoolInit_within dataPtr members)
    (fun s call t within _ called => called_within members top s t call within called) (fun _ _ => trivial)
  have within := sorted_within members asgard call pool kept.2 sorts
  rw [overflows_iff pool (fun id member => ⟨(within id member).1,(within id member).2.trans top⟩)]
  rintro ⟨id,member,large⟩
  have small := (within id member).2
  omega

/-- The sort overflows on the arrays with an element from `10^9` on, and on no pool of the allocator
that the configuration can ask for. -/
theorem significantDigit_overflows :
    (∀ array : List Int, (∀ x ∈ array, 0 ≤ x ∧ x ≤ INT_MAX) → (Overflows array ↔ ∃ x ∈ array, 10^9 ≤ x)) ∧
    (∀ (largestNum significantDigit : Int) (turns : Nat) (array sorted : List Int),
      sortLoop largestNum turns significantDigit array = .ok sorted →
      (passes largestNum turns significantDigit).foldlM (fun array digit => sortDigit digit array) array = .ok sorted) ∧
    (∀ (dataPtr : Int) (members : Nat), members ≤ 102399 → ∀ trace asgard,
      Run Called (freePoolInit dataPtr members) trace asgard →
        ∀ call pool, SortsPool asgard call pool → ¬ Overflows pool) :=
  ⟨overflows_iff,fun largestNum significantDigit turns array sorted ran => sortLoop_passes largestNum turns significantDigit array
    sorted ran,
    fun dataPtr members few trace asgard run call pool sorts =>
      pools_small dataPtr members few trace asgard run call pool sorts⟩

theorem significantDigit_overflows_cases : Overflows [7,1000000000] ∧ ¬ Overflows [0,0,1] := by
  constructor
  · exact (significantDigit_overflows.1 [7,1000000000] (by decide)).mpr ⟨1000000000,by decide,by decide⟩
  · exact significantDigit_overflows.2.2 4096 3 (by decide) [] (freePoolInit 4096 3) .nil (.alloc 1) [0,0,1]
      (.alloc 1 [0,2,3] [0,0,1] (by decide))

end Spsc.Allocator
