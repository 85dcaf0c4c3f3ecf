import Spsc.IniParser.Accepted
import Spsc.Thor.Interference
import Spsc.Wire.Payload

/-! The part of the shared segment that a request makes Thor read. Offset and length come from
the message, and only their signs are asserted. -/
namespace Spsc.Thor
open Imperative Hash Wire Segment IniParser Allocator

/-- Every byte of `[offset, offset+len)` is one of the `size` bytes of the segment. -/
def Covers (size : Nat) (range : Int × Int) : Prop :=
  ∀ place, range.1 ≤ place → place < range.1+range.2 → 0 ≤ place ∧ place < size

theorem covers_iff (size : Nat) (offset len : Int) (positive : 0 < offset) (nonneg : 0 ≤ len) :
    Covers size (offset,len) ↔ len = 0 ∨ offset+len ≤ size := by
  constructor
  · intro covers
    by_contra outside
    obtain ⟨some_len,behind⟩ := not_or.mp outside
    have last := covers (offset+len-1) (by simp only; omega) (by simp only; omega)
    omega
  · rintro (rfl | fits) place low high
    · simp only at low high
      omega
    · simp only at low high
      omega

variable (md5 : Bytes → Digest)

/-- What a call returns, with the ranges of the segment that it has read. -/
structure Reads where
  result : Server × C Bytes
  ranges : List (Int × Int)

/-- A read of the segment, and what follows it when it succeeds. -/
def readRange (segment : Bytes) (range : Int × Int) (thor : Server) (next : Bytes → Reads) : Reads :=
  match readBytes segment range.1 range.2 with
  | .error fault => ⟨(thor,.error fault),[range]⟩
  | .ok data => ⟨(next data).result,range::(next data).ranges⟩

/-- `server_socket_send` where `does_string_intact`, `server_flush_transaction` and `sstring_compute` each
read the segment themselves. -/
def sendReads (thor : Server) (segment payload : Bytes) : Reads :=
  match parseData payload with
  | .error fault => ⟨(thor,.error fault),[]⟩
  | .ok parsed =>
    let range := (parsed.offset,parsed.len)
    readRange segment range thor fun data =>
      match doesStringIntact md5 data parsed.md5 with
      | .error fault => ⟨(thor,.error fault),[]⟩
      | .ok false => ⟨(thor,reply REJECTION),[]⟩
      | .ok true =>
        readRange segment range thor fun data =>
          let thor := serverFlushTransaction thor data
          if thor.substringContext.isSome then
            readRange segment range thor fun data =>
              match search thor data with
              | .error fault => ⟨(thor,.error fault),[]⟩
              | .ok thor => ⟨(thor,reply payload),[]⟩
          else ⟨(thor,reply payload),[]⟩

/-- Whatever the segment holds, and whether or not Thor searches. -/
def TouchesOnly (size : Nat) (payload : Bytes) : Prop :=
  ∀ thor segment, segment.length = size → ∀ range ∈ (sendReads md5 thor segment payload).ranges, Covers size range

/-- The call reads the range that the message names and no other, and does what `server_socket_send` does. -/
theorem sendReads_call (thor : Server) (segment payload : Bytes) (parsed : Parsed) (parses : parseData payload = .ok parsed) :
    (sendReads md5 thor segment payload).result = serverSocketSend md5 thor segment payload ∧
      ∃ behind, (sendReads md5 thor segment payload).ranges = (parsed.offset,parsed.len)::behind ∧
        ∀ range ∈ behind, range = (parsed.offset,parsed.len) := by
  unfold sendReads serverSocketSend
  simp only [verify_parsed md5 segment payload parsed parses,parses,doesStringIntact_eq,readRange]
  cases reads : readBytes segment parsed.offset parsed.len with
  | error fault => exact ⟨rfl,[],rfl,by simp⟩
  | ok data =>
    simp only [bind,Except.bind]
    cases decide (digestText md5 data = parsed.md5) with
    | false => exact ⟨rfl,[],rfl,by simp⟩
    | true =>
      simp only [if_true]
      cases context : (serverFlushTransaction thor data).substringContext with
      | none =>
        have skips : search (serverFlushTransaction thor data) data = .ok (serverFlushTransaction thor data) := by
          simp only [search,context]
        simp only [skips,Option.isSome_none,Bool.false_eq_true,if_false]
        exact ⟨trivial,_,rfl,by simp⟩
      | some ss =>
        simp only [Option.isSome_some,if_true]
        cases search (serverFlushTransaction thor data) data with
        | error fault => exact ⟨rfl,_,rfl,by simp⟩
        | ok thor => exact ⟨rfl,_,rfl,by simp⟩

theorem touchesOnly_iff (size : Nat) (payload : Bytes) (parsed : Parsed) (parses : parseData payload = .ok parsed) :
    TouchesOnly md5 size payload ↔ Covers size (parsed.offset,parsed.len) := by
  constructor
  · intro touches
    obtain ⟨_,behind,same,_⟩ := sendReads_call md5 (.initial none) (List.replicate size 0) payload parsed parses
    exact touches (.initial none) (List.replicate size 0) List.length_replicate _ (same ▸ List.mem_cons_self)
  · intro covers thor segment _ range member
    obtain ⟨_,behind,same,all⟩ := sendReads_call md5 thor segment payload parsed parses
    rw [same] at member
    rcases List.mem_cons.mp member with rfl | later
    · exact covers
    · rw [all range later]
      exact covers

/-- A request that reaches outside makes the call fail before it has written anything. -/
theorem serverSocketSend_outside (thor : Server) (segment payload : Bytes) (parsed : Parsed)
    (parses : parseData payload = .ok parsed) (some_len : 0 < parsed.len)
    (outside : ¬ Covers segment.length (parsed.offset,parsed.len)) :
    serverSocketSend md5 thor segment payload = (thor,.error .bounds) := by
  obtain ⟨_,_,_,_,_,_,_,_,_,positive,_⟩ := parseData_ok payload parsed parses
  have fails : readBytes segment parsed.offset parsed.len = .error .bounds := by
    rw [covers_iff _ _ _ positive some_len.le,not_or] at outside
    exact if_neg (not_or.mpr ⟨outside.1,fun inside => outside.2 inside.2.2⟩)
  unfold serverSocketSend
  rw [verify_parsed md5 segment payload parsed parses,fails]
  rfl

/-- Thor touches only the segment exactly when the range asked for is empty or ends inside it. -/
theorem touches_segment (file : Bytes) (jane : JaneConfig) (thor : ThorConfig)
    (accepted : asgardConfigRead file = .ok (.returned true jane thor)) (payload : Bytes) (parsed : Parsed)
    (parses : parseData payload = .ok parsed) :
    TouchesOnly md5 (initMemory thor.buffers) payload ↔
      parsed.len = 0 ∨ parsed.offset+parsed.len ≤ (thor.buffers+1)*1024 := by
  obtain ⟨_,_,_,positive,same,_⟩ := asgardConfigRead_accepts file jane thor accepted
  obtain ⟨_,_,_,_,_,_,_,_,_,offsetLow,lenLow,_⟩ := parseData_ok payload parsed parses
  have size : (initMemory thor.buffers : Int) = (thor.buffers+1)*1024 := by
    unfold initMemory
    omega
  rw [touchesOnly_iff md5 _ _ parsed parses,covers_iff _ _ _ offsetLow lenLow,size]

theorem touches_segment_block : TouchesOnly knownMd5 (initMemory 2) (ascii ['1',',','1','0','2','4',',','9',',','A']) :=
  (touches_segment knownMd5 (sampleFile '1') ⟨some (ascii ['a']),2,1,1⟩ ⟨some (ascii ['b']),none,2,0,1⟩
    (by decide +kernel) (ascii ['1',',','1','0','2','4',',','9',',','A']) ⟨1,1024,9,ascii ['A']⟩
    (by decide +kernel)).mpr (.inr (by decide))

/-- The message asks for the byte behind a segment of 3072. -/
theorem touches_outside :
    asgardConfigRead (sampleFile '1') =
      .ok (.returned true ⟨some (ascii ['a']),2,1,1⟩ ⟨some (ascii ['b']),none,2,0,1⟩) ∧
    parseData (ascii ['1',',','3','0','7','2',',','1',',','A']) = .ok ⟨1,3072,1,ascii ['A']⟩ ∧
    serverSocketSend knownMd5 (.initial none) (List.replicate 3072 0) (ascii ['1',',','3','0','7','2',',','1',',','A']) =
      (.initial none,.error .bounds) ∧
    ¬ TouchesOnly knownMd5 (initMemory 2) (ascii ['1',',','3','0','7','2',',','1',',','A']) := by
  have parses : parseData (ascii ['1',',','3','0','7','2',',','1',',','A']) = .ok ⟨1,3072,1,ascii ['A']⟩ := by
    decide +kernel
  have outside : ¬ Covers 3072 (3072,1) := fun covers => absurd (covers 3072 le_rfl (by decide)).2 (by decide)
  refine ⟨by decide +kernel,parses,?_,fun touches => ?_⟩
  · refine serverSocketSend_outside knownMd5 _ _ _ ⟨1,3072,1,ascii ['A']⟩ parses (by decide) ?_
    rw [List.length_replicate]
    exact outside
  · exact outside ((touchesOnly_iff knownMd5 _ _ _ parses).mp touches)

end Spsc.Thor
