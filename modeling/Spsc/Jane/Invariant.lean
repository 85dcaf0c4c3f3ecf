import Spsc.Jane.Steps
import Spsc.Wire.RoundTrip

/-! The situations of `client_loop` at each of its places, and that every part of
the loop leads from one of them to the next, whatever `send` and `recv` answer. -/
namespace Spsc.Jane
open Imperative Hash Wire Allocator Segment

variable (md5 : Bytes → Digest) (dataPtr : Int) (buffers u : Nat) (file : Bytes)

inductive Situation (jane : Client) : Prop
  | fresh (facts : Fresh dataPtr buffers file jane) (here : jane.place = .start ∨ jane.place = .loop)
  | loaded (facts : Loaded md5 dataPtr buffers u file jane)
      (here : (jane.place = .start ∧ jane.failed = true) ∨ jane.place = .loop ∨ jane.place = .send ∨
        ∃ receiver, jane.place = .receive receiver)
  | drained (facts : Drained u file jane)
      (here : jane.place = .loop ∨ jane.place = .finish ∨ jane.place = .finished)

structure Inv (jane : Client) (segment : Bytes) : Prop where
  common : Common buffers u jane segment
  situation : Situation md5 dataPtr buffers u file jane

theorem initial_inv (segment : Bytes) (room : segment.length = (buffers+1)*1024) :
    Inv md5 dataPtr buffers u file (.initial dataPtr buffers u file) segment where
  common := ⟨rfl,room,by simp [Client.initial]⟩
  situation := by
    refine .fresh ⟨rfl,?_,rfl,rfl,rfl,rfl⟩ (.inl rfl)
    have pools := bufferInit_members dataPtr buffers (by omega)
    rw [Int.toNat_natCast] at pools
    exact pools

theorem initial_kept (segment : Bytes) : Kept u file (.initial dataPtr buffers u file) segment := by
  intro some_read
  simp [Client.initial] at some_read

variable {md5 dataPtr buffers u file} {jane : Client} {segment : Bytes}

theorem Loaded.at (loaded : Loaded md5 dataPtr buffers u file jane) (place : Place) (failed : Bool) :
    Loaded md5 dataPtr buffers u file { jane with place := place, failed := failed } where
  buffer := loaded.buffer
  pools := loaded.pools
  some_read := loaded.some_read
  unread := loaded.unread
  reading := loaded.reading
  bytes := loaded.bytes
  length := loaded.length
  digest := loaded.digest

theorem Common.at (common : Common buffers u jane segment) (place : Place) (failed : Bool) :
    Common buffers u { jane with place := place, failed := failed } segment :=
  ⟨common.uses,common.room,common.text⟩

theorem Loaded.last (loaded : Loaded md5 dataPtr buffers u file jane) (positive : 1 ≤ u) :
    ∀ k < jane.chunks, chunk u file k ≠ [] :=
  fun k less => chunk_before u positive file k (jane.chunks-1) (by omega) loaded.bytes

def payload (md5 : Bytes → Digest) (bytes : Bytes) : Bytes := fields 1 1024 bytes.length (digestText md5 bytes)

theorem Loaded.frame_eq (loaded : Loaded md5 dataPtr buffers u file jane) :
    frame jane = .ok (framed (payload md5 (chunk u file (jane.chunks-1)))) := by
  unfold frame
  rw [loaded.digest,loaded.buffer,loaded.pools,loaded.length]
  simp only [bind,Except.bind,Option.getD_some,offset_eq]
  rfl

theorem Loaded.block_eq (loaded : Loaded md5 dataPtr buffers u file jane) (kept : Kept u file jane segment) :
    readBytes segment (getOffset jane.asgard (jane.shmBuffer.getD 0)) jane.llen =
      .ok (chunk u file (jane.chunks-1)) := by
  rw [loaded.buffer,loaded.pools,loaded.length,Option.getD_some,offset_eq]
  exact readBytes_holds _ _ _ (kept loaded.some_read)

theorem Loaded.compare_eq (loaded : Loaded md5 dataPtr buffers u file jane) (got : Bytes) :
    compare jane got = .ok { jane with
      place := .loop
      failed := if got = digestText md5 (chunk u file (jane.chunks-1)) then false else jane.failed } :=
  Jane.compare_eq jane _ got loaded.digest

variable (inv : Inv md5 dataPtr buffers u file jane segment)
include inv

theorem Inv.connect (here : jane.place = .start) :
    Inv md5 dataPtr buffers u file { jane with place := .loop } segment := by
  refine ⟨inv.common.at .loop jane.failed,?_⟩
  cases inv.situation with
  | fresh facts =>
    exact .fresh ⟨facts.buffer,facts.pools,facts.none_read,facts.unread,facts.reading,facts.clean⟩ (.inr rfl)
  | loaded facts => exact .loaded (facts.at .loop jane.failed) (.inr (.inl rfl))
  | drained _ elsewhere => simp [here] at elsewhere

theorem Inv.running (fault : Fault) : jane.place ≠ .aborted fault := by
  intro here
  cases inv.situation with
  | fresh _ elsewhere => simp [here] at elsewhere
  | loaded _ elsewhere => simp [here] at elsewhere
  | drained _ elsewhere => simp [here] at elsewhere

theorem Inv.drained (ended : jane.place = .finish ∨ jane.place = .finished) : Drained u file jane := by
  cases inv.situation with
  | fresh _ elsewhere => rcases ended with here | here <;> simp [here] at elsewhere
  | loaded _ elsewhere => rcases ended with here | here <;> simp [here] at elsewhere
  | drained facts => exact facts

theorem Inv.loaded_of_send (here : jane.place = .send) : Loaded md5 dataPtr buffers u file jane := by
  cases inv.situation with
  | fresh _ elsewhere => simp [here] at elsewhere
  | loaded facts => exact facts
  | drained _ elsewhere => simp [here] at elsewhere

theorem Inv.loaded_of_receive (receiver : Receiver) (here : jane.place = .receive receiver) :
    Loaded md5 dataPtr buffers u file jane := by
  cases inv.situation with
  | fresh _ elsewhere => simp [here] at elsewhere
  | loaded facts => exact facts
  | drained _ elsewhere => simp [here] at elsewhere

theorem Inv.gotoStart (loaded : Loaded md5 dataPtr buffers u file jane) :
    Inv md5 dataPtr buffers u file (gotoStart jane) segment :=
  ⟨inv.common.at .start true,.loaded (loaded.at .start true) (.inl ⟨rfl,rfl⟩)⟩

theorem Inv.receive (loaded : Loaded md5 dataPtr buffers u file jane) (receiver : Receiver) :
    Inv md5 dataPtr buffers u file { jane with place := .receive receiver } segment :=
  ⟨inv.common.at _ jane.failed,.loaded (loaded.at _ jane.failed) (.inr (.inr (.inr ⟨receiver,rfl⟩)))⟩

theorem Inv.loop (loaded : Loaded md5 dataPtr buffers u file jane) (failed : Bool) :
    Inv md5 dataPtr buffers u file { jane with place := .loop, failed := failed } segment :=
  ⟨inv.common.at .loop failed,.loaded (loaded.at .loop failed) (.inr (.inl rfl))⟩

theorem Inv.finish (here : jane.place = .finish) :
    Inv md5 dataPtr buffers u file { jane with place := .finished } segment := by
  have facts := inv.drained (.inl here)
  exact ⟨inv.common.at .finished jane.failed,
    .drained ⟨facts.done,facts.clean,facts.all_read,facts.last⟩ (.inr (.inr rfl))⟩

/-- What the head of the inner loop leads to: a retry, a new chunk, the end of
the file, or the way out of the loop. -/
inductive Next (md5 : Bytes → Digest) (dataPtr : Int) (buffers u : Nat) (file : Bytes)
    (jane : Client) (segment : Bytes) : Client → Bytes → Prop
  | retry (loaded : Loaded md5 dataPtr buffers u file jane) (failed : jane.failed = true) :
      Next md5 dataPtr buffers u file jane segment { jane with place := .send } segment
  | read (next : Client) (segment' : Bytes) (clean : jane.failed = false)
      (loaded : Loaded md5 dataPtr buffers u file next) (inside : Kept u file next segment')
      (here : next.place = .send) (flag : next.failed = false) (count : next.chunks = jane.chunks+1) :
      Next md5 dataPtr buffers u file jane segment next segment'
  | drained (next : Client) (clean : jane.failed = false) (facts : Drained u file next)
      (here : next.place = .loop) (count : next.chunks = jane.chunks) :
      Next md5 dataPtr buffers u file jane segment next segment
  | finish (facts : Drained u file jane) :
      Next md5 dataPtr buffers u file jane segment { jane with place := .finish } segment

theorem Inv.nextBuffer (top : (buffers : Int) ≤ INT_MAX) (positive : 1 ≤ u) (fits : u ≤ buffers) :
    ∃ next segment', nextBuffer md5 jane segment = .ok (next,segment') ∧
      Inv md5 dataPtr buffers u file next segment' ∧
      Next md5 dataPtr buffers u file jane segment next segment' := by
  obtain ⟨common,situation⟩ := inv
  -- a chunk is read, or the file ends, once `failed` is clear
  have read : ∀ (block : HasBlock dataPtr buffers u jane) (reading : jane.finishedReading = true)
      (clean : jane.failed = false) (unread : jane.unread = file.drop (jane.chunks*chunkSize u))
      (last : ∀ k < jane.chunks, chunk u file k ≠ []),
      ∃ next segment', Jane.nextBuffer md5 jane segment = .ok (next,segment') ∧
        Inv md5 dataPtr buffers u file next segment' ∧
        Next md5 dataPtr buffers u file jane segment next segment' := by
    intro block reading clean unread last
    by_cases none_left : chunk u file jane.chunks = []
    · obtain ⟨next,ran,common',facts,place,count⟩ := nextBuffer_ends md5 top positive fits common block file
        reading clean unread none_left last
      exact ⟨next,segment,ran,⟨common',.drained facts (.inl place)⟩,.drained next clean facts place count⟩
    · obtain ⟨next,segment',ran,common',loaded,inside,place,flag,count⟩ :=
        nextBuffer_reads md5 top positive fits common
        block file reading clean unread none_left
      exact ⟨next,segment',ran,⟨common',.loaded loaded (.inr (.inr (.inl place)))⟩,
        .read next segment' clean loaded inside place flag count⟩
  cases situation with
  | fresh facts =>
    apply read (.inl ⟨facts.buffer,facts.pools⟩) facts.reading facts.clean
    · rw [facts.unread,facts.none_read,Nat.zero_mul,List.drop_zero]
    · intro k less
      rw [facts.none_read] at less
      omega
  | loaded facts =>
    cases flag : jane.failed with
    | true =>
      refine ⟨_,_,nextBuffer_retry md5 top positive fits common file facts.reading facts flag,?_,.retry facts flag⟩
      exact ⟨common.at .send jane.failed,.loaded (facts.at .send jane.failed) (.inr (.inr (.inl rfl)))⟩
    | false => exact read (.inr ⟨facts.buffer,facts.pools⟩) facts.reading flag facts.unread (facts.last positive)
  | drained facts =>
    have ran : Jane.nextBuffer md5 jane segment = .ok ({ jane with place := .finish },segment) := by
      unfold Jane.nextBuffer
      rw [facts.done]
      rfl
    refine ⟨_,_,ran,⟨common.at .finish jane.failed,.drained ?_ (.inr (.inl rfl))⟩,.finish facts⟩
    exact ⟨facts.done,facts.clean,facts.all_read,facts.last⟩

omit inv in
theorem Next.kept (kept : Kept u file jane segment) {next : Client} {segment' : Bytes}
    (led : Next md5 dataPtr buffers u file jane segment next segment') : Kept u file next segment' := by
  cases led with
  | retry => exact kept
  | read _ _ _ _ inside => exact inside
  | drained next _ _ _ count =>
    unfold Kept
    rw [count]
    exact kept
  | finish => exact kept

end Spsc.Jane
