import Spsc.Lib.Runs
import Spsc.Substring.Stream
import Spsc.Thor.Answers

/-! Thor with any peer and any frames, and a segment that changes in any way between
his calls: what he has appended and searched is the verified data. -/
namespace Spsc.Thor
open Imperative Hash Wire Segment Runs Spsc.Substring

structure World where
  thor : Server
  segment : Bytes
  deriving DecidableEq, Repr

/-- A call of `server_loop` with what it meets, or a change of the segment. Calls that
fail send Thor back to `server_accept`. -/
inductive Event where
  | serverAccept
  | serverRcv (piece : Bytes)
  | serverRcvFails
  | serverSend (failed : Bool)
  | overwrite (segment : Bytes)
  deriving DecidableEq, Repr

def World.initial (pattern : Option Bytes) (segment : Bytes) : World := ⟨.initial pattern,segment⟩

variable (strcpy : StrCpy) (md5 : Bytes → Digest)

namespace World
variable (w : World)

def stand (place : Place) : World := { w with thor := { w.thor with place := place } }

def rcv (receiver : Receiver) (piece : Bytes) : World :=
  match receivePiece strcpy w.thor receiver piece with
  | .error fault => w.stand (.aborted fault)
  | .ok thor => { w with thor := thor }

def send (payload : Bytes) (failed : Bool) : World :=
  match serverSocketSend md5 w.thor w.segment payload with
  | (thor,.error fault) => stand { w with thor := thor } (.aborted fault)
  | (thor,.ok _) => stand { w with thor := thor } (if failed then .accept else .receive .start)

def next (event : Event) : Option World :=
  match event, w.thor.place with
  | .serverAccept, .accept => some (w.stand (.receive .start))
  | .serverRcv piece, .receive receiver => some (w.rcv strcpy receiver piece)
  | .serverRcvFails, .receive _ => some (w.stand .accept)
  | .serverSend failed, .handle payload => some (w.send md5 payload failed)
  | .overwrite segment, _ => if segment.length = w.segment.length then some { w with segment := segment } else none
  | _, _ => none

def Step (w : World) (event : Event) (after : World) : Prop := w.next strcpy md5 event = some after

/-- The fields of a frame that Thor handles and the bytes that they name, where
`parse_data` accepts it and its region is inside the segment. -/
def frame : Event → Option (Parsed × Bytes)
  | .serverSend _ =>
    match w.thor.place with
    | .handle payload =>
      match parseData payload with
      | .ok parsed =>
        match readBytes w.segment parsed.offset parsed.len with
        | .ok data => some (parsed,data)
        | .error _ => none
      | .error _ => none
    | _ => none
  | _ => none

end World

def frames (trace : List (World × Event)) : List (Parsed × Bytes) :=
  trace.filterMap (fun entry => entry.1.frame entry.2)

def verifiedData (frames : List (Parsed × Bytes)) : List Bytes :=
  (frames.filter (fun frame => digestText md5 frame.2 = frame.1.md5)).map (·.2)

/-- The context is that of one call over all of the output; where that call goes wrong
Thor has stopped. -/
def Searched (pattern : Option Bytes) (thor : Server) : Prop :=
  match pattern with
  | none => thor.substringContext = none
  | some pattern =>
    match sstringCompute (sstringInit pattern) thor.output.flatten with
    | .ok ss => thor.substringContext = some ss
    | .error fault => thor.place = .aborted fault

theorem receivePiece_place (thor next : Server) (receiver : Receiver) (piece : Bytes)
    (ran : receivePiece strcpy thor receiver piece = .ok next) : ∃ place, next = { thor with place := place } := by
  obtain ⟨received,_,ran⟩ := bind_ok _ _ _ ran
  cases received with
  | again receiver => exact ⟨_,(Except.ok.inj ran).symm⟩
  | failed => exact ⟨_,(Except.ok.inj ran).symm⟩
  | frame payload => exact ⟨_,(Except.ok.inj ran).symm⟩

theorem World.rcv_stand (w : World) (receiver : Receiver) (piece : Bytes) :
    ∃ place, w.rcv strcpy receiver piece = w.stand place := by
  unfold rcv
  split
  · exact ⟨_,rfl⟩
  · next next ran =>
    obtain ⟨place,rfl⟩ := receivePiece_place strcpy _ _ _ _ ran
    exact ⟨place,rfl⟩

/-- Every step moves Thor to another place, changes the segment, or is a call of
`server_socket_send`. -/
theorem World.step_cases (w after : World) (event : Event) (taken : w.Step strcpy md5 event after) :
    (w.frame event = none ∧ (∀ fault, w.thor.place ≠ .aborted fault) ∧ ∃ place, after = w.stand place) ∨
    (w.frame event = none ∧ after.thor = w.thor) ∨
    ∃ payload failed, event = .serverSend failed ∧ w.thor.place = .handle payload ∧ after = w.send md5 payload failed := by
  unfold Step next at taken
  split at taken
  · next here =>
    exact .inl ⟨rfl,by simp [here],_,(Option.some.inj taken).symm⟩
  · next receiver here =>
    obtain rfl := Option.some.inj taken
    exact .inl ⟨rfl,by simp [here],w.rcv_stand strcpy receiver _⟩
  · next here =>
    exact .inl ⟨rfl,by simp [here],_,(Option.some.inj taken).symm⟩
  · next failed payload here =>
    exact .inr (.inr ⟨payload,failed,rfl,here,(Option.some.inj taken).symm⟩)
  · split at taken
    · obtain rfl := Option.some.inj taken
      exact .inr (.inl ⟨rfl,rfl⟩)
    · cases taken
  · cases taken

theorem World.frame_send (w : World) (payload : Bytes) (failed : Bool) (here : w.thor.place = .handle payload) :
    (∃ parsed data, w.frame (.serverSend failed) = some (parsed,data) ∧
      verify md5 w.segment payload = .ok (data,decide (digestText md5 data = parsed.md5))) ∨
    (w.frame (.serverSend failed) = none ∧ ∃ fault, verify md5 w.segment payload = .error fault) := by
  unfold frame verify
  simp only [here]
  cases parses : parseData payload with
  | error fault => exact .inr ⟨rfl,fault,rfl⟩
  | ok parsed =>
    simp only [bind,Except.bind]
    cases reads : readBytes w.segment parsed.offset parsed.len with
    | error fault => exact .inr ⟨rfl,fault,rfl⟩
    | ok data =>
      simp only [doesStringIntact_eq]
      exact .inl ⟨parsed,data,rfl,rfl⟩

section Searched
variable {pattern : Option Bytes} {thor : Server} (searched : Searched pattern thor)
  (running : ∀ fault, thor.place ≠ .aborted fault)
include searched running

theorem Searched.stand (place : Place) : Searched pattern { thor with place := place } := by
  unfold Searched at searched ⊢
  split
  · exact searched
  · split
    · next computed =>
      simp only [computed] at searched
      exact searched
    · next fault computed =>
      simp only [computed] at searched
      exact absurd searched (running fault)

/-- One more append and one more call of `sstring_compute` are one call over all of the output. -/
theorem Searched.grows (data : Bytes) :
    (∃ next, search (serverFlushTransaction thor data) data = .ok next ∧ Searched pattern next ∧
      next.place = thor.place) ∨
    ∃ fault, search (serverFlushTransaction thor data) data = .error fault ∧
      Searched pattern { serverFlushTransaction thor data with place := .aborted fault } := by
  have whole : (serverFlushTransaction thor data).output.flatten = thor.output.flatten ++ data := by
    rw [serverFlushTransaction,List.flatten_append,List.flatten_singleton]
  cases pattern with
  | none =>
    have none : (serverFlushTransaction thor data).substringContext = none := searched
    refine .inl ⟨serverFlushTransaction thor data,?_,searched,rfl⟩
    rw [search,none]
  | some pattern =>
    unfold Searched at searched ⊢
    simp only at searched ⊢
    split at searched
    · next ss computed =>
      have context : (serverFlushTransaction thor data).substringContext = some ss := searched
      have further : sstringCompute (sstringInit pattern) (thor.output.flatten ++ data) = sstringCompute ss data := by
        rw [sstringCompute_append,computed]
        rfl
      have searches : search (serverFlushTransaction thor data) data =
          sstringCompute ss data >>= fun ss => .ok { serverFlushTransaction thor data with substringContext := some ss } := by
        rw [search,context]
      rw [searches]
      cases computed : sstringCompute ss data with
      | ok ss =>
        refine .inl ⟨_,rfl,?_,rfl⟩
        simp only [whole,further,computed]
      | error fault =>
        refine .inr ⟨fault,rfl,?_⟩
        simp only [whole,further,computed]
    · next fault _ => exact absurd searched (running fault)

end Searched

/-- Thor has appended the data, piece by piece, and searched all of it. -/
structure Follows (pattern : Option Bytes) (data : List Bytes) (thor : Server) : Prop where
  output : thor.output = data
  searched : Searched pattern thor

theorem initial_follows (pattern : Option Bytes) : Follows pattern [] (.initial pattern) where
  output := rfl
  searched := by cases pattern <;> rfl

theorem Follows.stand {pattern : Option Bytes} {data : List Bytes} {thor : Server} (follows : Follows pattern data thor)
    (running : ∀ fault, thor.place ≠ .aborted fault) (place : Place) :
    Follows pattern data { thor with place := place } where
  output := follows.output
  searched := follows.searched.stand running place

theorem Follows.send {pattern : Option Bytes} {before : List Bytes} {w : World} (follows : Follows pattern before w.thor)
    (payload : Bytes) (failed : Bool) (here : w.thor.place = .handle payload) :
    Follows pattern (before ++ verifiedData md5 (w.frame (.serverSend failed)).toList) (w.send md5 payload failed).thor := by
  have running : ∀ fault, w.thor.place ≠ .aborted fault := by simp [here]
  unfold World.send serverSocketSend
  rcases w.frame_send md5 payload failed here with ⟨parsed,data,handles,checked⟩ | ⟨none,fault,stopped⟩
  · rw [handles,checked]
    by_cases same : digestText md5 data = parsed.md5
    · have counted : verifiedData md5 (some (parsed,data)).toList = [data] := by simp [verifiedData,same]
      rw [counted]
      simp only [decide_eq_true same,if_true]
      rcases follows.searched.grows running data with ⟨next,found,searched,place⟩ | ⟨fault,failed,searched⟩
      · have output : next.output = before ++ [data] := by
          rw [search_output _ _ _ found,← follows.output]
          rfl
        have running' : ∀ fault, next.place ≠ .aborted fault := by simpa [place] using running
        rw [found]
        have grown : Follows pattern (before ++ [data]) next := ⟨output,searched⟩
        cases reply payload with
        | error fault => exact grown.stand running' _
        | ok sent => exact grown.stand running' _
      · rw [failed]
        refine ⟨?_,searched⟩
        rw [← follows.output]
        rfl
    · have counted : verifiedData md5 (some (parsed,data)).toList = [] := by simp [verifiedData,same]
      rw [counted,List.append_nil]
      simp only [decide_eq_false same,Bool.false_eq_true,if_false]
      cases reply REJECTION with
      | error fault => exact follows.stand running _
      | ok sent => exact follows.stand running _
  · rw [none,stopped]
    have counted : verifiedData md5 [] = [] := rfl
    rw [Option.toList_none,counted,List.append_nil]
    exact follows.stand running _

theorem Follows.step {pattern : Option Bytes} {before : List Bytes} {w after : World} (event : Event)
    (follows : Follows pattern before w.thor) (taken : w.Step strcpy md5 event after) :
    Follows pattern (before ++ verifiedData md5 (w.frame event).toList) after.thor := by
  have nothing : verifiedData md5 [] = [] := rfl
  rcases w.step_cases strcpy md5 after event taken with ⟨none,running,place,rfl⟩ | ⟨none,same⟩ |
    ⟨payload,failed,rfl,here,rfl⟩
  · rw [none,Option.toList_none,nothing,List.append_nil]
    exact follows.stand running place
  · rw [none,Option.toList_none,nothing,List.append_nil,same]
    exact follows
  · exact follows.send md5 payload failed here

theorem run_follows (pattern : Option Bytes) (segment : Bytes) (trace : List (World × Event)) (final : World)
    (run : Run (World.Step strcpy md5) (.initial pattern segment) trace final) :
    Follows pattern (verifiedData md5 (frames trace)) final.thor := by
  induction run with
  | nil => exact initial_follows pattern
  | snoc before event after trace _ last ih =>
    have grown : verifiedData md5 (frames (trace ++ [(before,event)])) =
        verifiedData md5 (frames trace) ++ verifiedData md5 (before.frame event).toList := by
      rw [frames,List.filterMap_append,verifiedData,List.filter_append,List.map_append]
      cases none : before.frame event <;> simp [verifiedData,frames,none]
    rw [grown]
    exact ih.step strcpy md5 event last

theorem rejected_unchanged (w after : World) (event : Event) (parsed : Parsed) (data : Bytes)
    (taken : w.Step strcpy md5 event after) (handled : w.frame event = some (parsed,data))
    (altered : digestText md5 data ≠ parsed.md5) :
    after.thor.output = w.thor.output ∧ after.thor.substringContext = w.thor.substringContext := by
  rcases w.step_cases strcpy md5 after event taken with ⟨none,_,_⟩ | ⟨none,_⟩ | ⟨payload,failed,rfl,here,rfl⟩
  · exact absurd (handled.symm.trans none) (Option.some_ne_none _)
  · exact absurd (handled.symm.trans none) (Option.some_ne_none _)
  · unfold World.send serverSocketSend
    rcases w.frame_send md5 payload failed here with ⟨parsed',data',handles,checked⟩ | ⟨none,_⟩
    · obtain ⟨rfl,rfl⟩ := Prod.mk.inj (Option.some.inj (handled.symm.trans handles))
      rw [checked]
      simp only [decide_eq_false altered,Bool.false_eq_true,if_false]
      cases reply REJECTION <;> exact ⟨rfl,rfl⟩
    · exact absurd (handled.symm.trans none) (Option.some_ne_none _)

theorem World.rcv_frame (w : World) (payload : Bytes)
    (whole : serverSocketRcv strcpy .start (framed payload) = .ok (.frame payload)) :
    w.rcv strcpy .start (framed payload) = w.stand (.handle payload) := by
  unfold rcv receivePiece
  rw [whole]
  rfl

theorem run_receives (pattern : Option Bytes) (segment payload : Bytes)
    (whole : serverSocketRcv strcpy .start (framed payload) = .ok (.frame payload)) :
    ∃ trace, Run (World.Step strcpy md5) (.initial pattern segment) trace
      ((World.initial pattern segment).stand (.handle payload)) := by
  let listening := (World.initial pattern segment).stand (.receive .start)
  have accepts : (World.initial pattern segment).Step strcpy md5 .serverAccept listening := rfl
  have receives : listening.Step strcpy md5 (.serverRcv (framed payload)) (listening.stand (.handle payload)) :=
    congrArg some (listening.rcv_frame strcpy payload whole)
  exact ⟨_,(Run.single _ _ _ accepts).append (.single _ _ _ receives)⟩

/-- Whatever frames come, over whatever connections, and however the segment changes between
the calls: the output is the verified data in its order, a frame with another digest changes
neither output nor context, and the context is that of one call over the whole output. -/
theorem verified_only (pattern : Option Bytes) (segment : Bytes) (trace : List (World × Event)) (final : World)
    (run : Run (World.Step strcpy md5) (.initial pattern segment) trace final) :
    final.thor.output.flatten = (verifiedData md5 (frames trace)).flatten ∧
    (∀ event after parsed data, final.Step strcpy md5 event after → final.frame event = some (parsed,data) →
      digestText md5 data ≠ parsed.md5 →
      after.thor.output = final.thor.output ∧ after.thor.substringContext = final.thor.substringContext) ∧
    ∀ text, pattern = some text →
      (∃ ss, sstringCompute (sstringInit text) final.thor.output.flatten = .ok ss ∧
        final.thor.substringContext = some ss) ∨
      text = [] ∧ ∃ fault, sstringCompute (sstringInit text) final.thor.output.flatten = .error fault ∧
        final.thor.place = .aborted fault := by
  have follows := run_follows strcpy md5 pattern segment trace final run
  refine ⟨congrArg List.flatten follows.output,
    fun event after parsed data => rejected_unchanged strcpy md5 final after event parsed data,?_⟩
  rintro text rfl
  have searched := follows.searched
  unfold Searched at searched
  simp only at searched
  cases computed : sstringCompute (sstringInit text) final.thor.output.flatten with
  | ok ss =>
    rw [computed] at searched
    exact .inl ⟨ss,rfl,searched⟩
  | error fault =>
    rw [computed] at searched
    refine .inr ⟨?_,fault,rfl,searched⟩
    by_contra some_text
    obtain ⟨ss,runs,_⟩ := sstringCompute_records text _ [] 0 0 _ (sstringInit_matching text some_text)
    rw [runs] at computed
    cases computed

theorem verified_only_one : ∃ trace final,
    Run (World.Step memmove knownMd5) (.initial (some (ascii ['b','c'])) (ascii ['-','a','b','c'])) trace final ∧
    final.thor.output = [ascii ['a','b','c']] ∧
    ∃ ss, sstringCompute (sstringInit (ascii ['b','c'])) (ascii ['a','b','c']) = .ok ss ∧
      final.thor.substringContext = some ss := by
  let payload := fields 1 1 3 (digestText knownMd5 (ascii ['a','b','c']))
  let handling := (World.initial (some (ascii ['b','c'])) (ascii ['-','a','b','c'])).stand (.handle payload)
  obtain ⟨trace,received⟩ := run_receives memmove knownMd5 (some (ascii ['b','c'])) (ascii ['-','a','b','c']) payload
    (by decide +kernel)
  have sends : handling.Step memmove knownMd5 (.serverSend false) (handling.send knownMd5 payload false) := rfl
  have answered := received.append (.single _ _ _ sends)
  have output : (handling.send knownMd5 payload false).thor.output = [ascii ['a','b','c']] := by decide +kernel
  have verified := (verified_only memmove knownMd5 _ _ _ _ answered).2.2 _ rfl
  rw [output] at verified
  rcases verified with searched | ⟨none,_⟩
  · exact ⟨_,_,answered,output,searched⟩
  · cases none

end Spsc.Thor
