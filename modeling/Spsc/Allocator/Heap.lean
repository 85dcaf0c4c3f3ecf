import Spsc.Allocator.Exact
import Spsc.Lib.Runs

/-! Runs of the allocator: calls of `shm_alloc` and `shm_dealloc` in any order,
with the blocks handed out and not yet given back. -/
namespace Spsc.Allocator
open Imperative RadixSort Runs

/-- A block as its owner knows it, and the ids that were taken for it. -/
structure Block where
  ptr : Int
  num : Nat
  ids : List Int
  deriving DecidableEq, Repr

structure Heap where
  asgard : Asgard
  live : List Block
  deriving DecidableEq, Repr

inductive Call where
  | alloc (num : Nat)
  | dealloc (block : Block)
  deriving DecidableEq, Repr

def Call.num : Call → Nat
  | .alloc num => num
  | .dealloc block => block.num

/-- One call. `shm_dealloc` gets a live block with its own `num`, once. -/
inductive Step : Heap → Call → Heap → Prop
  | granted (heap : Heap) (num : Nat) (ptr : Int) (asgard : Asgard) (positive : 1 ≤ num)
      (fits : num ≤ heap.asgard.members)
      (ran : shmAlloc heap.asgard num = .ok (some ptr,asgard)) :
      Step heap (.alloc num) ⟨asgard,⟨ptr,num,heap.asgard.freePool.take num⟩::heap.live⟩
  | refused (heap : Heap) (num : Nat) (asgard : Asgard) (positive : 1 ≤ num)
      (fits : num ≤ heap.asgard.members) (ran : shmAlloc heap.asgard num = .ok (none,asgard)) :
      Step heap (.alloc num) ⟨asgard,heap.live⟩
  | freed (heap : Heap) (block : Block) (asgard : Asgard) (owned : block ∈ heap.live)
      (ran : shmDealloc heap.asgard block.num block.ptr = .ok asgard) :
      Step heap (.dealloc block) ⟨asgard,heap.live.erase block⟩

def initial (dataPtr : Int) (members : Nat) : Heap := ⟨freePoolInit dataPtr members,[]⟩

def Apart (a b : Block) : Prop := a.ptr + 1024*a.num ≤ b.ptr ∨ b.ptr + 1024*b.num ≤ a.ptr

instance (a b : Block) : Decidable (Apart a b) := inferInstanceAs (Decidable (_ ∨ _))

def InSegment (asgard : Asgard) (block : Block) : Prop :=
  asgard.dataPtr ≤ block.ptr ∧ block.ptr + 1024*block.num ≤ asgard.dataPtr + (asgard.members+1)*1024

end Spsc.Allocator
