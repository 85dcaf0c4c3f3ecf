import Spsc.Session.Phases
import Spsc.Session.Stalled

/-! What Loki cannot change as long as no call fails: Thor answers each chunk once and in
order, and appends one block for each that he accepts. -/
namespace Spsc.Session
open Imperative Hash Wire Allocator Segment Runs
open Spsc.Jane (chunk chunkSize)

/-- What Thor has found so far; without failures there is one connection. -/
def State.verdicts (s : State) : List Bool := (s.wire 0).verdicts

/-- The numbers of the chunks that he has accepted. -/
def acceptedNumbers (verdicts : List Bool) : List Nat :=
  (List.range verdicts.length).filter (fun k => verdicts.getD k false)

theorem acceptedNumbers_snoc (verdicts : List Bool) (intact : Bool) :
    acceptedNumbers (verdicts ++ [intact]) = if intact then acceptedNumbers verdicts ++ [verdicts.length]
      else acceptedNumbers verdicts := by
  have before : (List.range verdicts.length).filter (fun k => (verdicts ++ [intact]).getD k false) =
      acceptedNumbers verdicts := by
    refine List.filter_congr fun k member => ?_
    rw [List.getD_append _ _ _ _ (List.mem_range.mp member)]
  rw [acceptedNumbers,List.length_append,List.length_singleton,List.range_succ,List.filter_append,before]
  cases intact <;> simp

section Invariant
variable (md5 : Bytes → Digest) (dataPtr : Int) (buffers u : Nat) (file : Bytes)

/-- How many chunks have their answer, at each place of Jane. -/
def Counted (s : State) : Jane.Place → Prop
  | .start => s.opened = 0 ∧ s.verdicts = [] ∧ s.jane.chunks = 0
  | .loop | .finish => s.opened = 1 ∧ s.verdicts.length = s.jane.chunks
  | .send => s.opened = 1 ∧ s.verdicts.length+1 = s.jane.chunks
  | .receive receiver => s.opened = 1 ∧ (Awaiting Asked s receiver ∧ s.verdicts.length+1 = s.jane.chunks ∨
      Answered Told s receiver ∧ s.verdicts.length = s.jane.chunks)
  | .finished => s.opened = 1 ∧ s.verdicts.length = s.jane.chunks ∧ (s.hearing 0).Ending
  | .aborted _ => False

structure Tally (s : State) : Prop where
  talk : Talk md5 dataPtr buffers u file s
  clean : s.jane.failed = false
  counted : Counted s s.jane.place
  appended : s.appended = acceptedNumbers s.verdicts
  output : s.thor.output.length = s.appended.length

theorem initial_tally (segment : Bytes) (pattern : Option Bytes) (room : segment.length = (buffers+1)*1024) :
    Tally md5 dataPtr buffers u file (.initial dataPtr buffers u file segment pattern) where
  talk := initial_talk md5 dataPtr buffers u file segment pattern room
  clean := rfl
  counted := ⟨rfl,rfl,rfl⟩
  appended := rfl
  output := rfl

end Invariant

section Moves
variable {s t : State} {here : Jane.Place} {receiver : Receiver}

/-- A move that answers nothing leaves the count as it is. -/
theorem Counted.kept (counted : Counted s here) (opened : t.opened = s.opened) (chunks : t.jane.chunks = s.jane.chunks)
    (verdicts : t.verdicts = s.verdicts) (awaits : ∀ receiver, Awaiting Asked s receiver → Awaiting Asked t receiver)
    (answered : ∀ receiver, Answered Told s receiver → Answered Told t receiver)
    (ends : (s.hearing 0).Ending → (t.hearing 0).Ending) : Counted t here := by
  unfold Counted at counted ⊢
  cases here with
  | start | loop | finish | send =>
    rw [opened,verdicts,chunks]
    exact counted
  | receive receiver =>
    rw [opened,verdicts,chunks]
    exact ⟨counted.1,counted.2.imp (And.imp_left (awaits receiver)) (And.imp_left (answered receiver))⟩
  | finished =>
    rw [opened,verdicts,chunks]
    exact ⟨counted.1,counted.2.1,ends counted.2.2⟩
  | aborted => exact counted

theorem Counted.le (counted : Counted s here) : s.verdicts.length ≤ s.jane.chunks := by
  unfold Counted at counted
  cases here with
  | start =>
    rw [counted.2.1]
    exact Nat.zero_le _
  | loop | finish => exact counted.2.le
  | send => omega
  | receive receiver =>
    rcases counted.2 with ⟨_,count⟩ | ⟨_,count⟩ <;> omega
  | finished => exact counted.2.1.le
  | aborted => exact counted.elim

theorem Counted.ge (counted : Counted s here) : s.jane.chunks ≤ s.verdicts.length+1 := by
  unfold Counted at counted
  cases here with
  | start => omega
  | loop | finish | send => omega
  | receive receiver =>
    rcases counted.2 with ⟨_,count⟩ | ⟨_,count⟩ <;> omega
  | finished => omega
  | aborted => exact counted.elim

theorem Counted.ended (counted : Counted s here) (done : here = .finish ∨ here = .finished) :
    s.verdicts.length = s.jane.chunks := by
  rcases done with rfl | rfl
  · exact counted.2
  · exact counted.2.1

theorem Quiet.verdicts_eq (quiet : Quiet s t) : t.verdicts = s.verdicts := quiet.verdicts 0

theorem Counted.quiet (counted : Counted s here) (quiet : Quiet s t) : Counted t here :=
  counted.kept quiet.opened (by rw [quiet.jane]) quiet.verdicts_eq
    (fun _ awaiting => awaiting.moves quiet (fun _ asked => asked.1)) (fun _ answered => answered.moves quiet)
    (fun ending => ending.moves (quiet.hearing 0))

end Moves

section Loki
variable {s : State} {connection : Nat} {sent forged : Forgery}

theorem ending_loki (enabled : s.Enabled (.lokiFrame connection sent forged)) (ending : (s.hearing 0).Ending) :
    ((s.lokiFrame connection forged).hearing 0).Ending := by
  by_cases own : 0 = connection
  · subst own
    rcases lokiFrame_hearing enabled with ⟨_,passed⟩ | ⟨before,_⟩ | ⟨_,before⟩
    · exact .inl passed
    · rw [before] at ending
      rcases ending with absent | ⟨bytes,same,inside⟩
      · cases absent
      · obtain rfl := Hearing.hears.inj same
        have short := inside.length_le
        rw [framed_length] at short
        exact absurd short (by simp [DONE_TRANS,ascii])
    · rw [before] at ending
      exact absurd ending (Hearing.not_ending_handles _ _)
  · rw [lokiFrame_elsewhere 0 own]
    exact ending

theorem lokiFrame_verdicts (connection : Nat) (forged : Forgery) :
    (s.lokiFrame connection forged).verdicts = s.verdicts := by
  by_cases own : 0 = connection
  · subst own
    simp [State.verdicts,State.lokiFrame]
  · simp [State.verdicts,State.lokiFrame,own]

theorem Counted.loki {here : Jane.Place} (enabled : s.Enabled (.lokiFrame connection sent forged))
    (counted : Counted s here) : Counted (s.lokiFrame connection forged) here := by
  obtain ⟨toJane,lineVerdicts⟩ : (s.lokiFrame connection forged).line.toJane = s.line.toJane ∧
      (s.lokiFrame connection forged).line.verdicts = s.line.verdicts := lokiFrame_line
  refine counted.kept rfl rfl (lokiFrame_verdicts connection forged) ?_ ?_ (ending_loki enabled)
  · intro receiver awaiting
    obtain ⟨text,asked,there⟩ := awaiting.asked
    exact ⟨awaiting.receiver,toJane.trans awaiting.toJane,asks_loki enabled _ text asked there⟩
  · intro receiver answered
    refine ⟨?_,idle_loki enabled _ answered.idle⟩
    rw [toJane,lineVerdicts]
    exact answered.told

end Loki

section Steps
variable {md5 : Bytes → Digest} {dataPtr : Int} {buffers u : Nat} {file : Bytes} {s : State} {action : Action}
  (tally : Tally md5 dataPtr buffers u file s)
include tally

theorem Tally.opened (busy : s.thor.place ≠ .accept) : s.opened = 1 ∧ s.accepted = 1 := by
  have some_accepted := tally.talk.base.some_accepted busy
  have order := tally.talk.base.order
  have counted := tally.counted
  suffices s.opened ≤ 1 by omega
  unfold Counted at counted
  cases here : s.jane.place with
  | start =>
    rw [here] at counted
    omega
  | aborted =>
    rw [here] at counted
    exact counted.elim
  | _ =>
    rw [here] at counted
    exact counted.1.le

/-- What Thor handles is the frame of the last chunk, or what Loki has made of it. -/
theorem Tally.asked (payload : Bytes) (handling : s.thor.place = .handle payload) :
    ∃ receiver, s.jane.place = .receive receiver ∧ Awaiting Asked s receiver ∧ s.verdicts.length+1 = s.jane.chunks := by
  obtain ⟨opened,accepted⟩ := tally.opened (by simp [handling])
  have handles := s.hearing_handle (s.accepted-1) payload (by omega) handling
  have own : s.opened-1 = s.accepted-1 := by omega
  have busy : ¬ (s.hearing (s.opened-1)).Idle := not_idle_own own handles
  have clear : ¬ Clear s := fun clear => busy clear.idle
  have counted := tally.counted
  have place := tally.talk.place
  unfold Counted at counted
  unfold TalkAt at place
  cases here : s.jane.place with
  | start =>
    rw [here] at counted
    omega
  | loop | send | finish =>
    rw [here] at place
    exact absurd place clear
  | finished =>
    rw [here] at counted
    obtain ⟨_,_,ending⟩ := counted
    rw [accepted] at handles
    rw [handles] at ending
    exact absurd ending (Hearing.not_ending_handles _ _)
  | aborted =>
    rw [here] at counted
    exact counted.elim
  | receive receiver =>
    rw [here] at counted
    refine ⟨receiver,rfl,counted.2.resolve_right (fun answered => busy answered.1.idle)⟩

theorem Tally.quiet {t : State} (quiet : Quiet s t) (talk : Talk md5 dataPtr buffers u file t) :
    Tally md5 dataPtr buffers u file t where
  talk := talk
  clean := by rw [quiet.jane]; exact tally.clean
  counted := by rw [quiet.jane]; exact tally.counted.quiet quiet
  appended := by rw [quiet.appended,quiet.verdicts_eq]; exact tally.appended
  output := by rw [quiet.output,quiet.appended]; exact tally.output

theorem Tally.replied {t : State} {payload data : Bytes} {intact : Bool} (handling : s.thor.place = .handle payload)
    (replied : Replied s t payload data intact) (talk : Talk md5 dataPtr buffers u file t) :
    Tally md5 dataPtr buffers u file t := by
  obtain ⟨opened,accepted⟩ := tally.opened (by simp [handling])
  obtain ⟨receiver,here,awaiting,counted⟩ := tally.asked payload handling
  have own : s.opened-1 = s.accepted-1 := by omega
  have handles := s.hearing_handle (s.accepted-1) payload (by omega) handling
  have found : t.verdicts = s.verdicts ++ [intact] := by
    have recorded := replied.verdicts
    rw [State.heard,State.heard,replied.accepted,accepted] at recorded
    exact recorded
  have answered : Answered Told t receiver := by
    refine awaiting.answered replied own handles (fun _ asked => asked.1.framable.short) (fun asked => ?_)
    cases intact with
    | true => exact asked
    | false => rfl
  refine ⟨talk,by rw [replied.jane]; exact tally.clean,?_,?_,?_⟩
  · rw [replied.jane,here]
    refine ⟨replied.opened.trans opened,.inr ⟨answered,?_⟩⟩
    rw [found,List.length_append,List.length_singleton,replied.jane,counted]
  · rw [replied.appended,found,acceptedNumbers_snoc,tally.appended,← counted,Nat.add_sub_cancel]
  · rw [replied.output,replied.appended]
    cases intact with
    | true => simpa using tally.output
    | false => exact tally.output

theorem Tally.connect (here : s.jane.place = .start) (talk : Talk md5 dataPtr buffers u file s.connect) :
    Tally md5 dataPtr buffers u file s.connect := by
  have counted := tally.counted
  rw [here] at counted
  obtain ⟨opened,none_found,none_read⟩ := counted
  have empty : s.connect.verdicts = [] := by
    simp [State.verdicts,State.connect,opened]
  refine ⟨talk,tally.clean,?_,?_,tally.output⟩
  · refine ⟨congrArg (· + 1) opened,?_⟩
    rw [empty]
    exact none_read.symm
  · have nothing := tally.appended
    rw [none_found] at nothing
    rw [empty]
    exact nothing

theorem Tally.prepare (top : (buffers : Int) ≤ INT_MAX) (positive : 1 ≤ u) (fits : u ≤ buffers)
    (here : s.jane.place = .loop) (talk : Talk md5 dataPtr buffers u file (s.prepare md5)) :
    Tally md5 dataPtr buffers u file (s.prepare md5) := by
  obtain ⟨jane,segment,ran,_,led⟩ := tally.talk.inv.nextBuffer top positive fits
  have counted := tally.counted
  rw [here] at counted
  obtain ⟨opened,answered⟩ := counted
  unfold State.prepare at talk ⊢
  rw [ran] at talk ⊢
  simp only at talk ⊢
  generalize (if jane.chunks = s.jane.chunks then s.answer else none) = answer at talk ⊢
  suffices jane.failed = false ∧
      Counted { s with jane := jane, segment := segment, answer := answer } jane.place from
    ⟨talk,this.1,this.2,tally.appended,tally.output⟩
  cases led with
  | retry _ failed => cases tally.clean.symm.trans failed
  | read _ _ _ _ _ next flag count =>
    rw [next]
    exact ⟨flag,opened,(congrArg (· + 1) answered).trans count.symm⟩
  | drained _ _ facts next count =>
    rw [next]
    exact ⟨facts.clean,opened,answered.trans count.symm⟩
  | finish facts => exact ⟨facts.clean,opened,answered⟩

/-- What Jane does on the connection changes neither what is found nor what is appended. -/
theorem Tally.setJane {line : Connection} {jane : Jane.Client} {answer : Option Bool} (opened : s.opened = 1)
    (found : line.verdicts = s.line.verdicts) (clean : jane.failed = s.jane.failed)
    (talk : Talk md5 dataPtr buffers u file (s.setJane line jane answer))
    (counted : (s.setJane line jane answer).verdicts = s.verdicts → Counted (s.setJane line jane answer) jane.place) :
    Tally md5 dataPtr buffers u file (s.setJane line jane answer) := by
  have verdicts : (s.setJane line jane answer).verdicts = s.verdicts := by
    rw [State.verdicts,setJane_wire opened,found,line_wire opened]
    rfl
  refine ⟨talk,clean.trans tally.clean,counted verdicts,?_,tally.output⟩
  rw [verdicts]
  exact tally.appended

theorem Tally.clientSend (high : u ≤ 102399) (here : s.jane.place = .send)
    (talk : Talk md5 dataPtr buffers u file (s.next memmove md5 .clientSend)) :
    Tally md5 dataPtr buffers u file (s.next memmove md5 .clientSend) := by
  have loaded := tally.talk.inv.loaded_of_send here
  have short := Jane.chunk_length_le u file (s.jane.chunks-1)
  unfold chunkSize BIG_ENOUGH at short
  have asked := payload_asked md5 (chunk u file (s.jane.chunks-1)) (by omega)
  have counted := tally.counted
  have place := tally.talk.place
  rw [here] at counted place
  obtain ⟨opened,unanswered⟩ := counted
  have clear : Clear s := place
  have sent : s.next memmove md5 .clientSend = s.setJane _ _ s.answer :=
    clientSend_eq s id (fun jane => { jane with place := .receive .start }) _ loaded.frame_eq
  rw [sent] at talk ⊢
  refine tally.setJane opened rfl rfl talk (fun verdicts => ?_)
  refine ⟨opened,.inl ⟨⟨rfl,?_,_,asked,?_⟩,?_⟩⟩
  · rw [setJane_line]
    exact clear.toJane
  · rw [show (s.setJane _ _ _).opened-1 = s.opened-1 from rfl,setJane_hearing s _ _ _ _ rfl]
    exact clear.idle.asks
  · rw [verdicts]
    exact unanswered

theorem Tally.clientRcv (count : Nat) (enabled : s.Enabled (.clientRcv count))
    (talk : Talk md5 dataPtr buffers u file (s.next memmove md5 (.clientRcv count))) :
    Tally md5 dataPtr buffers u file (s.next memmove md5 (.clientRcv count)) := by
  obtain ⟨⟨receiver,here⟩,some_count,inside⟩ := enabled
  have loaded := tally.talk.inv.loaded_of_receive receiver here
  have some_bytes : s.line.toJane ≠ [] := List.ne_nil_of_length_pos (by omega)
  have counted := tally.counted
  rw [here] at counted
  obtain ⟨opened,awaiting | ⟨answered,counted⟩⟩ := counted
  · exact absurd awaiting.1.toJane some_bytes
  obtain ⟨⟨stored,text,rest,verdict,rfl,cut,told,recorded⟩,idle⟩ := answered
  rw [s.next_clientRcv memmove md5 _ count here] at talk ⊢
  rcases clientRcv_answered s stored text rest _ count some_count some_bytes told.framable cut loaded.digest with
    ⟨piece,left,cut',_,ran⟩ | ⟨_,ran⟩
  · rw [ran] at talk ⊢
    refine tally.setJane opened rfl rfl talk (fun verdicts => ?_)
    refine ⟨opened,.inr ⟨⟨⟨stored ++ piece,text,rest,verdict,rfl,?_,told,?_⟩,setJane_idle s _ _ left idle⟩,?_⟩⟩
    · rw [setJane_line]
      exact cut'
    · rw [setJane_line]
      exact recorded
    · rw [verdicts]
      exact counted
  · -- whatever the answer is, it is not the digest, and Jane takes it for the end of the chunk
    rw [if_neg (told.not_digest _ (digestText_isHex md5 (chunk u file (s.jane.chunks-1))))] at ran
    rw [ran] at talk ⊢
    refine tally.setJane opened rfl rfl talk (fun verdicts => ⟨opened,?_⟩)
    rw [verdicts]
    exact counted

theorem Tally.clientDone (here : s.jane.place = .finish)
    (talk : Talk md5 dataPtr buffers u file (s.next memmove md5 .clientDone)) :
    Tally md5 dataPtr buffers u file (s.next memmove md5 .clientDone) := by
  have counted := tally.counted
  have place := tally.talk.place
  rw [here] at counted place
  obtain ⟨opened,answered⟩ := counted
  have clear : Clear s := place
  refine tally.setJane opened rfl rfl talk (fun verdicts => ⟨opened,?_,?_⟩)
  · rw [verdicts]
    exact answered
  · have own := setJane_hearing s { s.line with toThor := s.line.toThor ++ (DONE_TRANS ++ [0]), closed := true }
      { s.jane with place := .finished } s.answer _ rfl
    have idle := clear.idle
    rw [opened] at own idle
    have ending := idle.ending
    rw [← own] at ending
    exact ending

/-- As long as no call fails, every chunk is answered once. -/
theorem Tally.step (high : buffers ≤ 102399) (positive : 1 ≤ u) (fits : u ≤ buffers) (enabled : s.Enabled action)
    (sound : action.isFailure = false) : Tally md5 dataPtr buffers u file (s.next memmove md5 action) := by
  have talk := talk_step tally.talk high positive fits enabled
  have top : (buffers : Int) ≤ INT_MAX := by
    unfold INT_MAX
    omega
  cases action with
  | clientSocketInit => exact tally.connect enabled talk
  | nextBuffer => exact tally.prepare top positive fits enabled talk
  | clientSend => exact tally.clientSend (fits.trans high) enabled talk
  | clientRcv count => exact tally.clientRcv count enabled talk
  | clientDone => exact tally.clientDone enabled talk
  | serverAccept => exact tally.quiet (serverAccept_quiet s enabled.1 enabled.2) talk
  | serverRcv count =>
    obtain ⟨⟨receiver,here⟩,_,_⟩ := enabled
    obtain ⟨stored,rfl⟩ := tally.talk.base.tidy receiver here
    rw [s.next_serverRcv memmove md5 _ count here] at talk ⊢
    exact tally.quiet (serverRcv_quiet tally.talk.base stored count here) talk
  | serverRcvEnd =>
    obtain ⟨⟨receiver,here⟩,_,_⟩ := enabled
    exact tally.quiet (serverLeave_quiet tally.talk.base (by simp [here])) talk
  | serverSend =>
    obtain ⟨payload,here⟩ := enabled
    rw [s.next_serverSend memmove md5 payload here] at talk ⊢
    cases checked : Thor.verify md5 s.segment payload with
    | error fault => exact tally.quiet (serverSend_quiet tally.talk.base here md5 id _ fault checked) talk
    | ok found =>
      have replied := (serverSend_replied tally.talk.base here md5 id _ found.1 found.2 (fun _ => List.prefix_rfl)
        (.inr rfl) checked).1
      exact tally.replied here replied talk
  | lokiFrame connection sent forged =>
    have counted := tally.counted.loki enabled
    refine ⟨talk,tally.clean,counted,?_,tally.output⟩
    rw [show (State.next s memmove md5 (.lokiFrame connection sent forged)).verdicts = s.verdicts from
      lokiFrame_verdicts connection forged]
    exact tally.appended
  | lokiBuffer segment =>
    refine ⟨talk,tally.clean,?_,tally.appended,tally.output⟩
    have same : ∀ connection, State.hearing { s with segment := segment } connection = s.hearing connection :=
      fun connection => State.hearing_congr s _ connection rfl rfl rfl
    refine tally.counted.kept rfl rfl rfl ?_ ?_ ?_
    · exact fun _ awaiting => Awaiting.same (s := s) (t := { s with segment := segment }) rfl (same _) awaiting
    · exact fun _ answered => Answered.same (s := s) (t := { s with segment := segment }) rfl (same _) answered
    · intro ending
      rw [show (State.next s memmove md5 (.lokiBuffer segment)).hearing 0 = s.hearing 0 from same 0]
      exact ending
  | _ => cases sound

end Steps

/-- As long as no call fails, Thor finds once about each chunk and in the file's order, whatever Loki
writes into the frame on its way, which stays one frame, or to the segment between two calls; he
appends one block for each chunk that he accepts, and has found about every chunk when Jane ends the
transfer. -/
theorem verdict_each (md5 : Bytes → Digest) (dataPtr : Int) (buffers u : Nat) (file segment : Bytes)
    (pattern : Option Bytes) (bufferRange : 2 ≤ buffers ∧ buffers ≤ 102399) (useRange : 1 ≤ u ∧ u ≤ buffers)
    (room : segment.length = (buffers+1)*1024) (final : State)
    (reached : Reachable (Step memmove md5 (fun action => action.isFailure = false))
      (.initial dataPtr buffers u file segment pattern) final) :
    final.appended = acceptedNumbers final.verdicts ∧ final.thor.output.length = final.appended.length ∧
      final.verdicts.length ≤ final.jane.chunks ∧ final.jane.chunks ≤ final.verdicts.length+1 ∧
      (final.jane.place = .finish ∨ final.jane.place = .finished → final.verdicts.length = chunkCount u file) := by
  have tally := reached.invariant (fun s => Tally md5 dataPtr buffers u file s)
    (initial_tally md5 dataPtr buffers u file segment pattern room) (by
      rintro s action t tally ⟨sound,enabled,rfl⟩
      exact tally.step bufferRange.2 useRange.1 useRange.2 enabled sound)
  refine ⟨tally.appended,tally.output,?_,?_,fun done => ?_⟩
  · exact tally.counted.le
  · exact tally.counted.ge
  · rw [tally.counted.ended done,drained_chunks useRange.1 (tally.talk.inv.drained done)]

/-- Loki has the first chunk rejected, and the second one is appended. -/
theorem verdict_each_second : ∃ final : State, final.jane.place = .finished ∧ final.verdicts = [false,true] ∧
    final.appended = [1] ∧ final.appended = acceptedNumbers final.verdicts ∧
    final.verdicts.length = chunkCount 1 (List.replicate 1024 (char 'a')) := by
  have run := run_of_actions memmove knownMd5 (fun action => action.isFailure = false)
    (.initial 0 2 1 (List.replicate 1024 (char 'a')) (List.replicate 3072 0) none)
    [.clientSocketInit,.serverAccept,.nextBuffer,.clientSend,
      .lokiFrame 0 ⟨1024,1023,digestText knownMd5 (List.replicate 1023 (char 'a'))⟩
        ⟨1024,1023,digestText knownMd5 (ascii ['a'])⟩,.serverRcv 64,.serverSend,.clientRcv 62,
      .nextBuffer,.clientSend,.serverRcv 61,.serverSend,.clientRcv 61,.nextBuffer,.nextBuffer,.clientDone]
    (by decide +kernel)
  have ended : ∃ final : State, Reachable (Step memmove knownMd5 (fun action => action.isFailure = false))
      (.initial 0 2 1 (List.replicate 1024 (char 'a')) (List.replicate 3072 0) none) final ∧
      final.jane.place = .finished ∧ final.verdicts = [false,true] ∧ final.appended = [1] :=
    ⟨_,⟨_,run⟩,by decide +kernel⟩
  obtain ⟨final,reached,finished,found,appended⟩ := ended
  obtain ⟨numbers,_,_,_,all_found⟩ := verdict_each knownMd5 0 2 1 (List.replicate 1024 (char 'a'))
    (List.replicate 3072 0) none (by decide) (by decide) List.length_replicate final reached
  exact ⟨final,finished,found,appended,numbers,all_found (.inr finished)⟩

end Spsc.Session
