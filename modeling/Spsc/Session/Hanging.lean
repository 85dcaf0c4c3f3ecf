import Spsc.Session.Order
import Spsc.Session.Stalled

/-! What a failing call of Thor leads to. He goes back to `server_accept` and leaves the
connection open, so nothing tells Jane to open another one, and both wait. -/
namespace Spsc.Session
open Imperative Hash Wire Segment Runs
open Spsc.Jane (chunk)

def Action.failsThor : Action → Bool
  | .serverRcvFails | .serverSendFails _ => true
  | _ => false

/-- Whatever fails, as long as every `strcpy` acts as a move Jane ends the transfer only when Thor has
each chunk of the file once. -/
theorem done_delivers (strcpy : StrCpy) (md5 : Bytes → Digest) (dataPtr : Int) (buffers u : Nat) (file segment : Bytes)
    (pattern : Option Bytes) (bufferRange : 2 ≤ buffers ∧ buffers ≤ 102399) (useRange : 1 ≤ u ∧ u ≤ buffers)
    (room : segment.length = (buffers+1)*1024) (trace : List (State × Action)) (final : State)
    (run : Run (Step strcpy md5 Untampered) (.initial dataPtr buffers u file segment pattern) trace final)
    (moves : ∀ entry ∈ trace, CopiesMove strcpy entry.1 entry.2)
    (ended : final.jane.place = .finish ∨ final.jane.place = .finished) :
    final.appended = List.range (chunkCount u file) ∧ final.thor.output.flatten = file := by
  obtain ⟨_,repeats,delivery⟩ := delivery_throughout md5 dataPtr buffers u file segment pattern bufferRange.2 useRange
    room strcpy trace final run moves
  obtain ⟨appended,whole⟩ := delivery.whole useRange.1 ended
  rw [drained_chunks useRange.1 (delivery.inv.drained ended)] at appended
  exact ⟨appended,whole⟩

/-- A call of Thor fails, and Jane ends the transfer all the same. -/
theorem done_delivers_abc : ∃ trace final,
    Run (Step memmove knownMd5 Untampered) (.initial 0 2 1 (ascii ['a','b','c']) (List.replicate 3072 0) none) trace final ∧
    (∃ entry ∈ trace, entry.2.failsThor = true) ∧ final.jane.place = .finished ∧
    final.appended = List.range (chunkCount 1 (ascii ['a','b','c'])) ∧ final.thor.output.flatten = ascii ['a','b','c'] := by
  have run := run_of_actions memmove knownMd5 Untampered (.initial 0 2 1 (ascii ['a','b','c']) (List.replicate 3072 0) none)
    [.clientSocketInit,.serverAccept,.nextBuffer,.clientSend,.serverRcv 61,.serverSendFails 61,.clientRcv 61,.nextBuffer,
      .nextBuffer,.clientDone] (by decide +kernel)
  have ended : ∃ trace final,
      Run (Step memmove knownMd5 Untampered) (.initial 0 2 1 (ascii ['a','b','c']) (List.replicate 3072 0) none) trace final ∧
      (∃ entry ∈ trace, entry.2.failsThor = true) ∧ final.jane.place = .finished :=
    ⟨_,_,run,by decide +kernel,by decide +kernel⟩
  obtain ⟨trace,final,run,failing,finished⟩ := ended
  exact ⟨trace,final,run,failing,finished,done_delivers memmove knownMd5 0 2 1 (ascii ['a','b','c'])
    (List.replicate 3072 0) none (by decide) (by decide) List.length_replicate trace final run
    (fun entry _ => memmove_copiesMove entry.1 entry.2) (.inr finished)⟩

section Invariant
variable (md5 : Bytes → Digest) (dataPtr : Int) (buffers u : Nat) (file : Bytes)

/-- Without a failing call of hers Jane opens one connection. -/
structure Sole (s : State) : Prop where
  talk : Talk md5 dataPtr buffers u file s
  opened : s.opened ≤ 1
  start : s.jane.place = .start → s.opened = 0

/-- Thor has left the connection, and there is no other. -/
structure Parted (s : State) : Prop where
  opened : s.opened = 1
  accepted : s.accepted = 1
  receive : ∀ receiver, s.thor.place ≠ .receive receiver
  handle : ∀ payload, s.thor.place ≠ .handle payload

end Invariant

section Steps
variable {md5 : Bytes → Digest} {dataPtr : Int} {buffers u : Nat} {file : Bytes} {s : State} {action : Action}

theorem Sole.step (sole : Sole md5 dataPtr buffers u file s) (high : buffers ≤ 102399) (positive : 1 ≤ u)
    (fits : u ≤ buffers) (enabled : s.Enabled action) (sound : action.failsJane = false) :
    Sole md5 dataPtr buffers u file (s.next memmove md5 action) := by
  have talk := talk_step sole.talk high positive fits enabled
  by_cases connects : action = .clientSocketInit
  · subst connects
    have none_opened := sole.start enabled
    refine ⟨talk,?_,fun start => nomatch start⟩
    change s.opened+1 ≤ 1
    omega
  refine ⟨talk,?_,fun start => ?_⟩
  · rw [next_opened md5 s action connects]
    exact sole.opened
  · rw [next_opened md5 s action connects]
    by_cases other : action.isThor = true ∨ action.isLoki = true
    · rw [next_jane md5 s action other] at start
      exact sole.start start
    -- only a failure takes Jane back to the start
    exfalso
    cases action with
    | clientSocketInit => exact connects rfl
    | nextBuffer =>
      have top : (buffers : Int) ≤ INT_MAX := by
        unfold INT_MAX
        omega
      obtain ⟨jane,segment,ran,_,led⟩ := sole.talk.inv.nextBuffer top positive fits
      have same : (s.next memmove md5 .nextBuffer).jane = jane := by
        change (s.prepare md5).jane = jane
        unfold State.prepare
        rw [ran]
      rw [same] at start
      cases led with
      | retry => cases start
      | read _ _ _ _ _ here => cases here.symm.trans start
      | drained _ _ _ here => cases here.symm.trans start
      | finish => cases start
    | clientSend =>
      have loaded := sole.talk.inv.loaded_of_send enabled
      have sent := clientSend_eq s id (fun jane => { jane with place := .receive .start }) _ loaded.frame_eq
      cases (congrArg (fun t : State => t.jane.place) sent).symm.trans start
    | clientRcv count =>
      obtain ⟨_,place,_,elsewhere,ran⟩ := sole.talk.clientRcv count enabled
      exact elsewhere ((congrArg (fun t : State => t.jane.place) ran).symm.trans start)
    | clientDone => cases start
    | clientSendFails => cases sound
    | clientRcvFails => cases sound
    | _ => simp [Action.isThor,Action.isLoki] at other

theorem Parted.idle (parted : Parted s) (enabled : s.Enabled action) : action.isThor = false := by
  cases action with
  | serverAccept =>
    have := enabled.2
    have := parted.opened
    have := parted.accepted
    omega
  | serverRcv => exact absurd enabled.1.choose_spec (parted.receive _)
  | serverRcvEnd => exact absurd enabled.1.choose_spec (parted.receive _)
  | serverRcvFails => exact absurd enabled.choose_spec (parted.receive _)
  | serverSend => exact absurd enabled.choose_spec (parted.handle _)
  | serverSendFails => exact absurd enabled.choose_spec (parted.handle _)
  | _ => rfl

theorem Parted.step (parted : Parted s) (sole : Sole md5 dataPtr buffers u file s) (enabled : s.Enabled action) :
    Parted (s.next memmove md5 action) ∧ (s.next memmove md5 action).thor = s.thor := by
  obtain ⟨thor,accepted,opened⟩ := next_side md5 s action (parted.idle enabled)
  have another : action ≠ .clientSocketInit := by
    rintro rfl
    have none_opened := sole.start enabled
    have := parted.opened
    omega
  refine ⟨⟨(opened another).trans parted.opened,accepted.trans parted.accepted,?_,?_⟩,thor⟩
  · rw [thor]
    exact parted.receive
  · rw [thor]
    exact parted.handle

theorem serverSend_left (payload : Bytes) (kept : Bytes → Bytes) :
    (s.serverSend md5 payload kept .accept).accepted = s.accepted ∧
      ((s.serverSend md5 payload kept .accept).thor.place = .accept ∨
        ∃ fault, (s.serverSend md5 payload kept .accept).thor.place = .aborted fault) := by
  unfold State.serverSend
  split
  · exact ⟨rfl,.inr ⟨_,rfl⟩⟩
  · simp only
    split
    · exact ⟨rfl,.inr ⟨_,rfl⟩⟩
    · exact ⟨rfl,.inl rfl⟩

theorem Sole.parts (sole : Sole md5 dataPtr buffers u file s) (failing : action.failsThor = true)
    (enabled : s.Enabled action) : Parted (s.next memmove md5 action) := by
  suffices left : s.thor.place ≠ .accept ∧ (s.next memmove md5 action).opened = s.opened ∧
      (s.next memmove md5 action).accepted = s.accepted ∧ ((s.next memmove md5 action).thor.place = .accept ∨
        ∃ fault, (s.next memmove md5 action).thor.place = .aborted fault) by
    obtain ⟨busy,opened,accepted,place⟩ := left
    have some_accepted := sole.talk.base.some_accepted busy
    have order := sole.talk.base.order
    have one := sole.opened
    refine ⟨by omega,by omega,fun receiver here => ?_,fun payload here => ?_⟩
    · rw [here] at place
      rcases place with place | ⟨_,place⟩ <;> cases place
    · rw [here] at place
      rcases place with place | ⟨_,place⟩ <;> cases place
  cases action with
  | serverRcvFails =>
    obtain ⟨receiver,here⟩ := enabled
    exact ⟨by simp [here],rfl,rfl,.inl rfl⟩
  | serverSendFails count =>
    obtain ⟨payload,here⟩ := enabled
    have opened := (next_client md5 s (.serverSendFails count) (.inl rfl)).2
    rw [s.next_serverSendFails memmove md5 payload count here] at opened ⊢
    exact ⟨by simp [here],opened,serverSend_left payload _⟩
  | _ => cases failing

end Steps

/-- As long as no call of Jane fails, Thor does nothing more after a failing call of his, whatever Loki
writes into a frame or to the segment: he waits for a connection, and only Jane could open one. Once Jane
waits and nothing is on the way to her, only a failure of hers goes on. -/
theorem failure_hangs (md5 : Bytes → Digest) (dataPtr : Int) (buffers u : Nat) (file segment : Bytes)
    (pattern : Option Bytes) (bufferRange : 2 ≤ buffers ∧ buffers ≤ 102399) (useRange : 1 ≤ u ∧ u ≤ buffers)
    (room : segment.length = (buffers+1)*1024) (trace : List (State × Action)) (final : State)
    (run : Run (Step memmove md5 (fun action => action.failsJane = false)) (.initial dataPtr buffers u file segment pattern)
      trace final)
    (before after : List (State × Action)) (failure : State × Action) (parts : trace = before ++ failure::after)
    (failing : failure.2.failsThor = true) :
    Throughout (fun s => s.thor = (failure.1.next memmove md5 failure.2).thor) after final ∧
      ∀ receiver, final.jane.place = .receive receiver → final.line.toJane = [] →
        ∀ action, final.Enabled action → action.isLoki = true ∨ action = .clientRcvFails := by
  have kept := run.invariant (Sole md5 dataPtr buffers u file) (fun _ _ => True)
    ⟨initial_talk md5 dataPtr buffers u file segment pattern room,Nat.zero_le 1,fun _ => rfl⟩
    (by
      rintro s action t sole _ ⟨sound,enabled,rfl⟩
      exact sole.step bufferRange.2 useRange.1 useRange.2 enabled sound)
    (fun _ _ => trivial)
  obtain ⟨_,_,tail⟩ := run.split before _ parts
  obtain ⟨rfl,next,⟨sound,enabled,rfl⟩,rest⟩ := tail.uncons
  have sole : Sole md5 dataPtr buffers u file failure.1 := kept.1 failure (by simp [parts])
  have both := rest.invariant
    (fun s => Sole md5 dataPtr buffers u file s ∧ Parted s ∧ s.thor = (failure.1.next memmove md5 failure.2).thor)
    (fun _ _ => True)
    ⟨sole.step bufferRange.2 useRange.1 useRange.2 enabled sound,sole.parts failing enabled,rfl⟩
    (by
      rintro s action t ⟨sole,parted,same⟩ _ ⟨sound,enabled,rfl⟩
      obtain ⟨parted',thor⟩ := parted.step sole enabled
      exact ⟨sole.step bufferRange.2 useRange.1 useRange.2 enabled sound,parted',thor.trans same⟩)
    (fun _ _ => trivial)
  refine ⟨⟨fun entry member => (both.1 entry member).2.2,both.2.2.2⟩,fun receiver waits nothing action enabled => ?_⟩
  have idle := both.2.2.1.idle enabled
  cases action with
  | lokiFrame => exact .inl rfl
  | lokiBuffer => exact .inl rfl
  | clientRcvFails => exact .inr rfl
  | clientRcv count =>
    have some_count := enabled.2
    rw [nothing] at some_count
    have := some_count.1.trans some_count.2
    simp at this
  | clientSocketInit => cases waits.symm.trans enabled
  | nextBuffer => cases waits.symm.trans enabled
  | clientSend => cases waits.symm.trans enabled
  | clientSendFails => cases waits.symm.trans enabled
  | clientDone => cases waits.symm.trans enabled
  | _ => cases idle

/-- Thor loses the connection before Jane sends her frame, and she waits for his answer. -/
theorem failure_hangs_waiting : ∃ final : State, final.jane.place = .receive .start ∧ final.line.toThor ≠ [] ∧
    final.thor.place = .accept ∧ final.thor.output = [] ∧
    ∀ action, final.Enabled action → action.isLoki = true ∨ action = .clientRcvFails := by
  have run := run_of_actions memmove knownMd5 (fun action => action.failsJane = false)
    (.initial 0 2 1 (ascii ['a','b','c']) (List.replicate 3072 0) none)
    [.clientSocketInit,.serverAccept,.serverRcvFails,.nextBuffer,.clientSend] (by decide +kernel)
  have hangs := failure_hangs knownMd5 0 2 1 (ascii ['a','b','c']) (List.replicate 3072 0) none (by decide) (by decide)
    List.length_replicate _ _ run [_,_] [_,_] _ rfl rfl
  exact ⟨_,by decide +kernel,by decide +kernel,by decide +kernel,by decide +kernel,
    hangs.2 .start (by decide +kernel) (by decide +kernel)⟩

end Spsc.Session
