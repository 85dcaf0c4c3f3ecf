import Spsc.Session.Completion
import Spsc.Session.Rejection

/-! What a failing call of Jane leads to. Only a comparison that no answer passes clears her
flag, so she offers the chunk she has again and again and never comes to the end of the file. -/
namespace Spsc.Session
open Imperative Hash Wire Allocator Segment Runs
open Spsc.Jane (chunk)

def Action.failsJane : Action → Bool
  | .clientSendFails _ | .clientRcvFails => true
  | _ => false

theorem next_client (md5 : Bytes → Digest) (s : State) (action : Action)
    (other : action.isThor = true ∨ action.isLoki = true) :
    (s.next memmove md5 action).jane = s.jane ∧ (s.next memmove md5 action).opened = s.opened := by
  have sends : ∀ payload kept after, (s.serverSend md5 payload kept after).jane = s.jane ∧
      (s.serverSend md5 payload kept after).opened = s.opened := by
    intro payload kept after
    unfold State.serverSend
    split
    · exact ⟨rfl,rfl⟩
    · simp only
      split <;> exact ⟨rfl,rfl⟩
  cases action with
  | serverRcv count =>
    simp only [State.next]
    split
    · unfold State.serverRcv
      simp only
      split <;> exact ⟨rfl,rfl⟩
    · exact ⟨rfl,rfl⟩
  | serverSend =>
    simp only [State.next]
    split
    · exact sends _ _ _
    · exact ⟨rfl,rfl⟩
  | serverSendFails count =>
    simp only [State.next]
    split
    · exact sends _ _ _
    · exact ⟨rfl,rfl⟩
  | serverAccept => exact ⟨rfl,rfl⟩
  | serverRcvEnd => exact ⟨rfl,rfl⟩
  | serverRcvFails => exact ⟨rfl,rfl⟩
  | lokiFrame => exact ⟨rfl,rfl⟩
  | lokiBuffer => exact ⟨rfl,rfl⟩
  | _ => rcases other with mine | mine <;> cases mine

theorem next_jane (md5 : Bytes → Digest) (s : State) (action : Action)
    (other : action.isThor = true ∨ action.isLoki = true) : (s.next memmove md5 action).jane = s.jane :=
  (next_client md5 s action other).1

theorem next_opened (md5 : Bytes → Digest) (s : State) (action : Action) (other : action ≠ .clientSocketInit) :
    (s.next memmove md5 action).opened = s.opened := by
  cases by_thor : action.isThor with
  | true => exact (next_client md5 s action (.inl by_thor)).2
  | false => exact (next_side md5 s action by_thor).2.2 other

section Steps
variable {md5 : Bytes → Digest} {dataPtr : Int} {buffers u : Nat} {file : Bytes} {s : State} {action : Action}
  (talk : Talk md5 dataPtr buffers u file s)
include talk

theorem talk_step (high : buffers ≤ 102399) (positive : 1 ≤ u) (fits : u ≤ buffers) (enabled : s.Enabled action) :
    Talk md5 dataPtr buffers u file (s.next memmove md5 action) := by
  by_cases receives : ∃ count, action = .clientRcv count
  · obtain ⟨count,rfl⟩ := receives
    exact (rcv_step talk count enabled).1
  · exact (silent_step talk high positive fits enabled (fun count same => receives ⟨count,same⟩)).1

/-- A `recv` of Jane changes what is on the way to her and her place, and nothing else. -/
theorem Talk.clientRcv (count : Nat) (enabled : s.Enabled (.clientRcv count)) :
    ∃ toJane place answer, place ≠ .start ∧ s.next memmove md5 (.clientRcv count) =
      s.setJane { s.line with toJane := toJane } { s.jane with place := place } answer := by
  obtain ⟨⟨receiver,here⟩,some_count,inside⟩ := enabled
  have loaded := talk.inv.loaded_of_receive receiver here
  have some_bytes : s.line.toJane ≠ [] := List.ne_nil_of_length_pos (by omega)
  have place := talk.place
  rw [here] at place
  rcases place with awaiting | answered
  · exact absurd awaiting.toJane some_bytes
  obtain ⟨⟨stored,text,rest,verdict,rfl,cut,told,_⟩,_⟩ := answered
  rw [s.next_clientRcv memmove md5 _ count here]
  rcases clientRcv_answered s stored text rest _ count some_count some_bytes told.framable cut loaded.digest with
    ⟨piece,left,_,_,ran⟩ | ⟨_,ran⟩
  · exact ⟨left,_,_,by simp,ran⟩
  · rw [if_neg (told.not_digest _ (digestText_isHex md5 (chunk u file (s.jane.chunks-1))))] at ran
    exact ⟨[],.loop,_,by simp,ran⟩

omit talk in
theorem gotoStart_failed (failed : s.jane.failed = true) : Jane.gotoStart s.jane = { s.jane with place := .start } := by
  rw [Jane.gotoStart,← failed]

theorem Talk.loaded (failed : s.jane.failed = true) : Jane.Loaded md5 dataPtr buffers u file s.jane ∧
    s.jane.place ≠ .finish ∧ s.jane.place ≠ .finished := by
  cases talk.inv.situation with
  | fresh facts => cases failed.symm.trans facts.clean
  | drained facts => cases failed.symm.trans facts.clean
  | loaded facts here =>
    refine ⟨facts,?_⟩
    rcases here with ⟨start,_⟩ | loop | send | ⟨receiver,receive⟩
    · simp [start]
    · simp [loop]
    · simp [send]
    · simp [receive]

/-- With her flag set, no call changes anything of Jane but her place. -/
theorem Talk.held (top : (buffers : Int) ≤ INT_MAX) (positive : 1 ≤ u) (fits : u ≤ buffers)
    (failed : s.jane.failed = true) (enabled : s.Enabled action) :
    ∃ place, (s.next memmove md5 action).jane = { s.jane with place := place } := by
  obtain ⟨loaded,unfinished,_⟩ := talk.loaded failed
  by_cases other : action.isThor = true ∨ action.isLoki = true
  · exact ⟨s.jane.place,next_jane md5 s action other⟩
  cases action with
  | clientSocketInit => exact ⟨.loop,rfl⟩
  | nextBuffer =>
    have retry := Jane.nextBuffer_retry md5 top positive fits talk.inv.common file loaded.reading loaded failed
    refine ⟨.send,?_⟩
    change (s.prepare md5).jane = _
    unfold State.prepare
    rw [retry]
  | clientSend =>
    refine ⟨.receive .start,?_⟩
    exact congrArg State.jane
      (clientSend_eq s id (fun jane => { jane with place := .receive .start }) _ loaded.frame_eq)
  | clientSendFails count =>
    have sent := clientSend_eq s (fun bytes => bytes.take count) Jane.gotoStart _ loaded.frame_eq
    exact ⟨.start,(congrArg State.jane sent).trans (gotoStart_failed failed)⟩
  | clientRcv count =>
    obtain ⟨_,place,_,_,ran⟩ := talk.clientRcv count enabled
    exact ⟨place,congrArg State.jane ran⟩
  | clientRcvFails => exact ⟨.start,gotoStart_failed failed⟩
  | clientDone => exact absurd enabled unfinished
  | _ => simp [Action.isThor,Action.isLoki] at other

theorem Talk.fails (failing : action.failsJane = true) (enabled : s.Enabled action) :
    (s.next memmove md5 action).jane.failed = true := by
  cases action with
  | clientSendFails count =>
    have sent := clientSend_eq s (fun bytes => bytes.take count) Jane.gotoStart _
      (talk.inv.loaded_of_send enabled).frame_eq
    exact congrArg (fun t : State => t.jane.failed) sent
  | clientRcvFails => rfl
  | _ => cases failing

end Steps

/-- Jane stands somewhere else in her loop, and is otherwise as she was. -/
def Held (jane : Jane.Client) (s : State) : Prop :=
  (∃ place, s.jane = { jane with place := place }) ∧ s.jane.failed = true ∧ s.jane.place ≠ .finish ∧
    s.jane.place ≠ .finished

/-- After a failing call of hers nothing of Jane changes but her place, whatever else fails and whatever
Loki writes into a frame for Thor or to the segment: no move of his changes a reply. So in a run that she
ends with `+DONE+` none of her calls failed. -/
theorem failure_holds (md5 : Bytes → Digest) (dataPtr : Int) (buffers u : Nat) (file segment : Bytes)
    (pattern : Option Bytes) (bufferRange : 2 ≤ buffers ∧ buffers ≤ 102399) (useRange : 1 ≤ u ∧ u ≤ buffers)
    (room : segment.length = (buffers+1)*1024) (trace : List (State × Action)) (final : State)
    (run : Run (Step memmove md5 (fun _ => True)) (.initial dataPtr buffers u file segment pattern) trace final) :
    (∀ before failure after, trace = before ++ failure::after → failure.2.failsJane = true →
      Throughout (Held (failure.1.next memmove md5 failure.2).jane) after final) ∧
    (final.jane.place = .finished → ∀ entry ∈ trace, entry.2.failsJane = false) := by
  have top : (buffers : Int) ≤ INT_MAX := by
    unfold INT_MAX
    omega
  have kept := run.invariant (Talk md5 dataPtr buffers u file) (fun _ _ => True)
    (initial_talk md5 dataPtr buffers u file segment pattern room)
    (by
      rintro s action t talk _ ⟨_,enabled,rfl⟩
      exact talk_step talk bufferRange.2 useRange.1 useRange.2 enabled)
    (fun _ _ => trivial)
  have held : ∀ before failure after, trace = before ++ failure::after → failure.2.failsJane = true →
      Throughout (Held (failure.1.next memmove md5 failure.2).jane) after final := by
    intro before failure after parts failing
    obtain ⟨_,_,tail⟩ := run.split before _ parts
    obtain ⟨rfl,next,⟨_,enabled,rfl⟩,rest⟩ := tail.uncons
    have talk : Talk md5 dataPtr buffers u file failure.1 := kept.1 failure (by simp [parts])
    have next := talk_step talk bufferRange.2 useRange.1 useRange.2 enabled
    have failed := talk.fails failing enabled
    have both := rest.invariant
      (fun s => Talk md5 dataPtr buffers u file s ∧ Held (failure.1.next memmove md5 failure.2).jane s) (fun _ _ => True)
      ⟨next,⟨_,rfl⟩,failed,(next.loaded failed).2⟩
      (by
        rintro s action t ⟨talk,⟨place,same⟩,failed,_⟩ _ ⟨_,enabled,rfl⟩
        obtain ⟨place',same'⟩ := talk.held top useRange.1 useRange.2 failed enabled
        have talk' := talk_step talk bufferRange.2 useRange.1 useRange.2 enabled
        have failed' : (s.next memmove md5 action).jane.failed = true := by
          rw [same']
          exact failed
        rw [same] at same'
        exact ⟨talk',⟨place',same'⟩,failed',(talk'.loaded failed').2⟩)
      (fun _ _ => trivial)
    exact ⟨fun entry member => (both.1 entry member).2,both.2.2⟩
  refine ⟨held,fun ended entry member => ?_⟩
  by_contra failing
  obtain ⟨before,after,parts⟩ := List.append_of_mem member
  exact (held before entry after parts (Bool.not_eq_false _ ▸ failing)).2.2.2.2 ended

/-- Thor accepts the chunk that Jane sends again, and she still does not go on. -/
theorem failure_holds_answered : ∃ final : State, final.thor.output = [ascii ['a','b','c']] ∧
    final.jane.place = .send ∧ final.jane.chunks = 1 ∧
    ∃ jane : Jane.Client, jane.place = .start ∧ Held jane final := by
  have run := run_of_actions memmove knownMd5 (fun _ => True)
    (.initial 0 2 1 (ascii ['a','b','c']) (List.replicate 3072 0) none)
    [.clientSocketInit,.nextBuffer,.clientSendFails 0,.clientSocketInit,.nextBuffer,.clientSend,.serverAccept,
      .serverRcvFails,.serverAccept,.serverRcv 61,.serverSend,.clientRcv 61,.nextBuffer] (by decide +kernel)
  have held := (failure_holds knownMd5 0 2 1 (ascii ['a','b','c']) (List.replicate 3072 0) none (by decide)
    (by decide) List.length_replicate _ _ run).1 [_,_] _ [_,_,_,_,_,_,_,_,_,_] rfl rfl
  exact ⟨_,by decide +kernel,by decide +kernel,by decide +kernel,_,by decide +kernel,held.2⟩

end Spsc.Session
