import Spsc.RadixSort

/-! The shared-memory allocator of `asgard.c`. Addresses are absolute, so the
segment starts at `dataPtr`; `asgard.buffers`, which nothing reads after
`buffer_init`, is left out. The products of ints are exact, as they are below 2^21
members. -/
namespace Spsc.Allocator
open Imperative RadixSort

structure Asgard where
  dataPtr : Int
  members : Nat
  freePool : List Int
  busyPool : List Int
  deriving DecidableEq, Repr

def getOffset (asgard : Asgard) (mem : Int) : Int := mem - asgard.dataPtr

def initMemory (buffers : Int) : Nat := (buffers*1024 + 1024).toNat

def freePoolInit (dataPtr : Int) (members : Nat) : Asgard :=
  { dataPtr := dataPtr
    members := members
    freePool := (List.range members).map (fun (i : Nat) => (i : Int)+1)
    busyPool := List.replicate members 0 }

def bufferInit (dataPtr : Int) (sz : Nat) : Asgard := freePoolInit dataPtr (sz/1024 - 1)

def hasFree (freePool : List Int) : Nat → Nat → C Bool
  | _, 0 => .ok true
  | i, count+1 => do
    if (← load .bounds freePool i) = 0 then .ok false else hasFree freePool (i+1) count

/-- `for (i = first; i < num; i++) { to[members-1-i] = from[i]; from[i] = 0; }`,
the loop that moves ids from one pool to the tail of the other in both
`shm_alloc` and `shm_dealloc`. -/
def transfer (members first num : Nat) (source target : List Int) : C (List Int × List Int) :=
  forLoop (fun i (source,target) => do
    let id ← load .bounds source i
    let target ← store .bounds target ((members : Int)-1-i) id
    let source ← store .bounds source i 0
    .ok (source,target)) first (num-first) (source,target)

def shmAlloc (asgard : Asgard) (num : Int) : C (Option Int × Asgard) := do
  assert (num ≤ asgard.members)
  if !(← hasFree asgard.freePool 0 num.toNat) then .ok (none,asgard) else
  let first ← load .bounds asgard.freePool 0
  let root := asgard.dataPtr + first*1024
  let (freePool,busyPool) ← transfer asgard.members 0 num.toNat asgard.freePool asgard.busyPool
  let freePool ← moveArray freePool
  let busyPool ← radixSort busyPool
  let busyPool ← moveArray busyPool
  .ok (some root,{ asgard with freePool := freePool, busyPool := busyPool })

def shmDealloc (asgard : Asgard) (num mem : Int) : C Asgard := do
  let n := (mem - asgard.dataPtr).tdiv 1024
  let binres ← binarySearch asgard.busyPool 0 asgard.members n
  assert (-1 ≠ binres)
  let (busyPool,freePool) ←
    transfer asgard.members binres.toNat num.toNat asgard.busyPool asgard.freePool
  let freePool ← radixSort freePool
  let freePool ← moveArray freePool
  let busyPool ← moveArray busyPool
  .ok { asgard with freePool := freePool, busyPool := busyPool }

theorem bufferInit_members (dataPtr buffers : Int) (nonneg : 0 ≤ buffers) :
    bufferInit dataPtr (initMemory buffers) = freePoolInit dataPtr buffers.toNat := by
  have size : initMemory buffers / 1024 - 1 = buffers.toNat := by
    unfold initMemory
    omega
  rw [bufferInit,size]

end Spsc.Allocator
