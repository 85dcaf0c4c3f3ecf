import Spsc.Allocator.Single
import Spsc.Jane

/-! What each part of `client_loop` does, in the situations Jane can be in: no
block yet, a block that holds the last chunk she read, or the whole file read. -/
namespace Spsc.Jane
open Imperative Hash Wire Allocator Segment

def chunk (u : Nat) (file : Bytes) (k : Nat) : Bytes := (file.drop (k*chunkSize u)).take (chunkSize u)

theorem chunkSize_pos (u : Nat) (positive : 1 ≤ u) : 0 < chunkSize u := by
  unfold chunkSize BIG_ENOUGH
  omega

theorem chunk_length_le (u : Nat) (file : Bytes) (k : Nat) : (chunk u file k).length ≤ chunkSize u := by
  simp [chunk]

theorem chunk_eq_nil (u : Nat) (positive : 1 ≤ u) (file : Bytes) (k : Nat) :
    chunk u file k = [] ↔ file.drop (k*chunkSize u) = [] := by
  have := chunkSize_pos u positive
  rw [chunk,List.take_eq_nil_iff]
  exact ⟨fun either => either.resolve_left (by omega),.inr⟩

theorem chunk_before (u : Nat) (positive : 1 ≤ u) (file : Bytes) (k l : Nat) (order : k ≤ l)
    (some_chunk : chunk u file l ≠ []) : chunk u file k ≠ [] := by
  intro none_left
  refine some_chunk ((chunk_eq_nil u positive file l).mpr ?_)
  rw [chunk_eq_nil u positive,List.drop_eq_nil_iff] at none_left
  rw [List.drop_eq_nil_iff]
  exact none_left.trans (Nat.mul_le_mul_right _ order)

theorem chunks_flatten (u : Nat) (file : Bytes) (count : Nat) :
    ((List.range count).map (chunk u file)).flatten = file.take (count*chunkSize u) := by
  induction count with
  | zero => simp
  | succ count ih =>
    rw [List.range_succ,List.map_append,List.flatten_append,ih,Nat.succ_mul,List.take_add]
    simp [chunk]

theorem readInputFile_some (u offset : Nat) (positive : 1 ≤ u) (unread segment : Bytes)
    (room : offset+u*1024 ≤ segment.length) (some_left : unread.take (chunkSize u) ≠ []) :
    ∃ next, readInputFile u (offset : Int) unread segment =
        .ok (some (((unread.take (chunkSize u)).length : Int),unread.drop (chunkSize u)),next) ∧
      Holds next offset (unread.take (chunkSize u)) ∧ next.length = segment.length := by
  have short : (unread.take (chunkSize u)).length ≤ chunkSize u := by simp
  unfold readInputFile
  generalize unread.take (chunkSize u) = bytes at *
  unfold chunkSize BIG_ENOUGH at short
  obtain ⟨filled,written,inside,size⟩ := writeBytes_holds segment offset bytes (by omega)
  have index : (offset : Int)+(bytes.length : Nat) = ((offset+bytes.length : Nat) : Int) := by omega
  refine ⟨filled.set (offset+bytes.length) 0,?_,holds_set filled offset _ bytes 0 inside le_rfl,by
    rw [List.length_set,size]⟩
  simp only [written,bind,Except.bind]
  rw [if_neg some_left,index,store_inside _ _ _ _ (by omega)]

theorem readInputFile_none (u offset : Nat) (unread segment : Bytes) (room : offset ≤ segment.length)
    (none_left : unread.take (chunkSize u) = []) :
    readInputFile u (offset : Int) unread segment = .ok (none,segment) := by
  have nothing : writeBytes segment (offset : Int) [] = .ok segment := by
    rw [writeBytes,if_pos (by simp [room])]
    simp
  unfold readInputFile
  simp only [none_left,nothing,bind,Except.bind,if_true]

theorem compare_eq (jane : Client) (text got : Bytes) (hashed : cString jane.md5 = .ok text) :
    compare jane got = .ok { jane with
      place := .loop
      failed := if got = text then false else jane.failed } := by
  unfold compare
  rw [hashed]
  simp only [bind,Except.bind]
  split <;> rfl

section Situations
variable (md5 : Bytes → Digest) (dataPtr : Int) (buffers u : Nat) (file : Bytes)

/-- Jane has no block, or the one block at offset 1024. -/
def HasBlock (jane : Client) : Prop :=
  (jane.shmBuffer = none ∧ jane.asgard = freePoolInit dataPtr buffers) ∨
    (jane.shmBuffer = some (dataPtr+1024) ∧ jane.asgard = lent dataPtr buffers u)

structure Common (jane : Client) (segment : Bytes) : Prop where
  uses : jane.useBuffers = u
  room : segment.length = (buffers+1)*1024
  text : jane.md5.length = BIG_ENOUGH

structure Fresh (jane : Client) : Prop where
  buffer : jane.shmBuffer = none
  pools : jane.asgard = freePoolInit dataPtr buffers
  none_read : jane.chunks = 0
  unread : jane.unread = file
  reading : jane.finishedReading = true
  clean : jane.failed = false

/-- A chunk was read: Jane has a block, and `md5` is the digest of the chunk. -/
structure Loaded (jane : Client) : Prop where
  buffer : jane.shmBuffer = some (dataPtr+1024)
  pools : jane.asgard = lent dataPtr buffers u
  some_read : 1 ≤ jane.chunks
  unread : jane.unread = file.drop (jane.chunks*chunkSize u)
  reading : jane.finishedReading = true
  bytes : chunk u file (jane.chunks-1) ≠ []
  length : jane.llen = (chunk u file (jane.chunks-1)).length
  digest : cString jane.md5 = .ok (digestText md5 (chunk u file (jane.chunks-1)))

/-- The file is at its end. -/
structure Drained (jane : Client) : Prop where
  done : jane.finishedReading = false
  clean : jane.failed = false
  all_read : chunk u file jane.chunks = []
  last : ∀ k < jane.chunks, chunk u file k ≠ []

/-- The block holds the last chunk that was read. -/
def Kept (jane : Client) (segment : Bytes) : Prop :=
  1 ≤ jane.chunks → Holds segment 1024 (chunk u file (jane.chunks-1))

end Situations

section Steps
variable (md5 : Bytes → Digest) {dataPtr : Int} {buffers u : Nat} (top : (buffers : Int) ≤ INT_MAX)
  (positive : 1 ≤ u) (fits : u ≤ buffers) {jane : Client} {segment : Bytes}
  (common : Common buffers u jane segment) (block : HasBlock dataPtr buffers u jane)
include top positive fits common block

theorem renewBuffer_eq : renewBuffer jane = .ok (dataPtr+1024,lent dataPtr buffers u) := by
  unfold renewBuffer
  rw [common.uses]
  rcases block with ⟨buffer,pools⟩ | ⟨buffer,pools⟩
  · rw [buffer,pools]
    simp only [bind,Except.bind]
    rw [shmAlloc_idle dataPtr buffers u top positive fits]
  · rw [buffer,pools]
    simp only [bind,Except.bind]
    rw [shmDealloc_lent dataPtr buffers u top positive fits]
    simp only
    rw [shmAlloc_idle dataPtr buffers u top positive fits]

omit top positive fits common block in
theorem offset_eq : getOffset (lent dataPtr buffers u) (dataPtr+1024) = ((1024 : Nat) : Int) := by
  simp only [getOffset,lent]
  omega

variable (file : Bytes) (reading : jane.finishedReading = true)
include reading

omit block in
theorem nextBuffer_retry (loaded : Loaded md5 dataPtr buffers u file jane) (failed : jane.failed = true) :
    nextBuffer md5 jane segment = .ok ({ jane with place := .send },segment) := by
  have renewed := renewBuffer_eq top positive fits common (.inr ⟨loaded.buffer,loaded.pools⟩)
  unfold nextBuffer
  rw [renewed]
  simp only [reading,failed,Bool.not_true,Bool.false_eq_true,if_false,bind,Except.bind]
  rw [← loaded.buffer,← loaded.pools,if_pos trivial]

variable (clean : jane.failed = false) (unread : jane.unread = file.drop (jane.chunks*chunkSize u))
include clean unread

theorem nextBuffer_reads (some_left : chunk u file jane.chunks ≠ []) :
    ∃ next segment', nextBuffer md5 jane segment = .ok (next,segment') ∧ Common buffers u next segment' ∧
      Loaded md5 dataPtr buffers u file next ∧ Kept u file next segment' ∧ next.place = .send ∧
      next.failed = false ∧ next.chunks = jane.chunks+1 := by
  have bytes : jane.unread.take (chunkSize u) = chunk u file jane.chunks := by rw [unread]; rfl
  have room : 1024+u*1024 ≤ segment.length := by
    rw [common.room]
    omega
  obtain ⟨segment',read,inside,size⟩ := readInputFile_some u 1024 positive jane.unread segment room
    (by rw [bytes]; exact some_left)
  rw [bytes] at read inside
  have hashed := readableHash_writes md5 (chunk u file jane.chunks) jane.md5 (BIG_ENOUGH-1)
    (by decide) (by rw [common.text]; decide)
  have rest : jane.unread.drop (chunkSize u) = file.drop ((jane.chunks+1)*chunkSize u) := by
    rw [unread,List.drop_drop,Nat.succ_mul]
  have ran : nextBuffer md5 jane segment = .ok ({ useBuffers := jane.useBuffers
                                                  asgard := lent dataPtr buffers u
                                                  unread := jane.unread.drop (chunkSize u)
                                                  place := .send
                                                  finishedReading := jane.finishedReading
                                                  shmBuffer := some (dataPtr+1024)
                                                  md5 := digestText md5 (chunk u file jane.chunks) ++
                                                    0::jane.md5.drop 33
                                                  failed := jane.failed
                                                  llen := (chunk u file jane.chunks).length
                                                  chunks := jane.chunks+1 },segment') := by
    unfold nextBuffer
    rw [reading,renewBuffer_eq top positive fits common block]
    simp only [Bool.not_true,Bool.false_eq_true,if_false,bind,Except.bind,clean]
    rw [common.uses,offset_eq,read]
    simp only
    rw [readBytes_holds _ _ _ inside]
    simp only
    rw [hashed]
  refine ⟨_,_,ran,⟨common.uses,by rw [size,common.room],?_⟩,?_,fun _ => inside,rfl,clean,rfl⟩
  · rw [List.length_append,List.length_cons,List.length_drop,digestText_length,common.text]
    rfl
  · exact { buffer := rfl
            pools := rfl
            some_read := Nat.le_add_left 1 _
            unread := rest
            reading := reading
            bytes := some_left
            length := rfl
            digest := cString_terminated _ _ (isHex_not_mem 0 (by decide) _ (digestText_isHex md5 _)) }

theorem nextBuffer_ends (none_left : chunk u file jane.chunks = [])
    (last : ∀ k < jane.chunks, chunk u file k ≠ []) :
    ∃ next, nextBuffer md5 jane segment = .ok (next,segment) ∧ Common buffers u next segment ∧
      Drained u file next ∧ next.place = .loop ∧ next.chunks = jane.chunks := by
  have bytes : jane.unread.take (chunkSize u) = [] := by rw [unread]; exact none_left
  have room : 1024 ≤ segment.length := by
    rw [common.room]
    omega
  have ran : nextBuffer md5 jane segment = .ok ({ jane with asgard := lent dataPtr buffers u
                                                            shmBuffer := some (dataPtr+1024)
                                                            finishedReading := false
                                                            place := .loop },segment) := by
    unfold nextBuffer
    rw [reading,renewBuffer_eq top positive fits common block]
    simp only [Bool.not_true,Bool.false_eq_true,if_false,bind,Except.bind,clean]
    rw [common.uses,offset_eq,readInputFile_none u 1024 jane.unread segment room bytes]
  exact ⟨_,ran,⟨common.uses,common.room,common.text⟩,⟨rfl,clean,none_left,last⟩,rfl,rfl⟩

end Steps
end Spsc.Jane
