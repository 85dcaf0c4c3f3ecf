import Spsc.Exchange
import Spsc.Session.Line

/-! What holds whatever Loki does: on Jane's connection there is at most one frame,
perhaps a forged one, or Thor's answer to it. -/
namespace Spsc.Session
open Imperative Hash Wire Allocator Segment
open Spsc.Jane (chunk chunkSize)

/-- What Loki may leave of a frame. -/
def Asked (text : Bytes) : Prop := Legible text ∧ ∃ forgery : Forgery, text = forgery.text

def Told (verdict : Bool) (text : Bytes) : Prop := if verdict then Asked text else text = Thor.REJECTION

theorem Asked.not_rejection {text : Bytes} (asked : Asked text) : text ≠ Thor.REJECTION := by
  obtain ⟨_,forgery,rfl⟩ := asked
  intro same
  have comma : char ',' ∈ forgery.text := by simp [Forgery.text,fields]
  rw [same] at comma
  exact absurd comma (by decide)

theorem Told.framable {verdict : Bool} {text : Bytes} (told : Told verdict text) : Framable text := by
  cases verdict with
  | true => exact (show Asked text from told).1.framable
  | false => exact (show text = Thor.REJECTION from told) ▸ Thor.rejection_framable

theorem Told.not_digest {verdict : Bool} {text : Bytes} (told : Told verdict text) (digest : Bytes)
    (hex : ∀ byte ∈ digest, IsHex byte) : text ≠ digest := by
  cases verdict with
  | true =>
    obtain ⟨_,forgery,rfl⟩ := told
    exact Exchange.payload_not_digest _ _ _ _ _ hex
  | false => exact (show text = Thor.REJECTION from told) ▸ Exchange.rejection_not_digest digest hex

theorem payload_asked (md5 : Bytes → Digest) (bytes : Bytes) (short : bytes.length < 2^31) :
    Asked (Jane.payload md5 bytes) :=
  ⟨payload_legible md5 bytes short,⟨1024,bytes.length,digestText md5 bytes⟩,rfl⟩

section Invariant
variable (md5 : Bytes → Digest) (dataPtr : Int) (buffers u : Nat) (file : Bytes)

def TalkAt (s : State) : Jane.Place → Prop
  | .loop | .send | .finish => Clear s
  | .receive receiver => Awaiting Asked s receiver ∨ Answered Told s receiver
  | .start | .finished | .aborted _ => True

structure Talk (s : State) : Prop where
  base : Base s
  inv : Jane.Inv md5 dataPtr buffers u file s.jane s.segment
  place : TalkAt s s.jane.place

theorem initial_talk (segment : Bytes) (pattern : Option Bytes) (room : segment.length = (buffers+1)*1024) :
    Talk md5 dataPtr buffers u file (.initial dataPtr buffers u file segment pattern) where
  base := ⟨le_rfl,fun busy => absurd rfl busy,fun _ same => nomatch same⟩
  inv := Jane.initial_inv md5 dataPtr buffers u file segment room
  place := trivial

end Invariant

section Thor
variable {s t : State} {here : Jane.Place}

theorem TalkAt.moves (moved : Quiet s t) (place : TalkAt s here) : TalkAt t here := by
  cases here with
  | loop => exact Clear.moves moved place
  | send => exact Clear.moves moved place
  | finish => exact Clear.moves moved place
  | receive receiver =>
    rcases place with awaiting | answered
    · exact .inl (awaiting.moves moved (fun _ asked => asked.1))
    · exact .inr (answered.moves moved)
  | _ => trivial

theorem TalkAt.replied {payload data : Bytes} {intact : Bool} (base : Base s) (place : TalkAt s here)
    (handling : s.thor.place = .handle payload) (answer : Replied s t payload data intact) : TalkAt t here := by
  have some_accepted := base.some_accepted (by simp [handling])
  have hearing := s.hearing_handle (s.accepted-1) payload (by omega) handling
  have clear : Clear s → Clear t := by
    intro clear
    by_cases own : s.opened-1 = s.accepted-1
    · exact absurd clear.idle (not_idle_own own hearing)
    · obtain ⟨line,same⟩ := answer.line_eq own
      exact clear.same line same
  cases here with
  | loop => exact clear place
  | send => exact clear place
  | finish => exact clear place
  | receive receiver =>
    by_cases own : s.opened-1 = s.accepted-1
    · rcases place with awaiting | answered
      · refine .inr (awaiting.answered answer own hearing (fun _ asked => asked.1.framable.short) ?_)
        intro asked
        cases intact with
        | true => exact asked
        | false => rfl
      · exact absurd answered.idle (not_idle_own own hearing)
    · obtain ⟨line,same⟩ := answer.line_eq own
      rcases place with awaiting | answered
      · exact .inl (awaiting.same line same)
      · exact .inr (answered.same line same)
  | _ => trivial

theorem TalkAt.same (line : t.line = s.line) (hearing : t.hearing (t.opened-1) = s.hearing (s.opened-1))
    (place : TalkAt s here) : TalkAt t here := by
  cases here with
  | loop => exact Clear.same line hearing place
  | send => exact Clear.same line hearing place
  | finish => exact Clear.same line hearing place
  | receive receiver => exact place.imp (Awaiting.same line hearing) (Answered.same line hearing)
  | _ => trivial

end Thor

section Loki
variable {s : State} {connection : Nat} {sent forged : Forgery}

/-- A frame that Thor has not read to its end is another one now, and nothing else
that he hears changes. -/
theorem lokiFrame_hearing (enabled : s.Enabled (.lokiFrame connection sent forged)) :
    (s.hearing connection = .passed ∧ (s.lokiFrame connection forged).hearing connection = .passed) ∨
      (s.hearing connection = .hears (framed sent.text) ∧
        (s.lokiFrame connection forged).hearing connection = .hears (framed forged.text)) ∨
      ∃ payload, s.hearing connection = .handles payload (framed sent.text) := by
  obtain ⟨whole,front,_⟩ := enabled
  have altered : s.stored connection ++ ((s.lokiFrame connection forged).wire connection).toThor =
      framed forged.text := by
    obtain ⟨rest,cut⟩ := front
    simp only [State.lokiFrame,Function.update_self]
    rw [← cut,List.drop_left]
  rcases Nat.lt_or_ge (connection+1) s.accepted with earlier | not_earlier
  · left
    exact ⟨s.hearing_earlier connection earlier,(s.lokiFrame connection forged).hearing_earlier connection earlier⟩
  rcases Nat.lt_or_ge connection s.accepted with own | later
  · have here : s.accepted = connection+1 := by omega
    unfold State.stored at whole altered
    rw [if_pos here] at whole altered
    rw [State.hearing_here s connection here,State.hearing_here (s.lokiFrame connection forged) connection here,
      show (s.lokiFrame connection forged).thor.place = s.thor.place from rfl]
    cases place : s.thor.place with
    | accept => exact .inl ⟨rfl,rfl⟩
    | aborted => exact .inl ⟨rfl,rfl⟩
    | receive receiver =>
      rw [place] at whole altered
      exact .inr (.inl ⟨congrArg Hearing.hears whole,congrArg Hearing.hears altered⟩)
    | handle payload =>
      rw [place] at whole
      exact .inr (.inr ⟨payload,congrArg (Hearing.handles payload) whole⟩)
  · unfold State.stored at whole altered
    rw [if_neg (by omega)] at whole altered
    rw [State.hearing_later s connection later,State.hearing_later (s.lokiFrame connection forged) connection later]
    exact .inr (.inl ⟨congrArg Hearing.hears whole,congrArg Hearing.hears altered⟩)

theorem lokiFrame_elsewhere (other : Nat) (elsewhere : other ≠ connection) :
    (s.lokiFrame connection forged).hearing other = s.hearing other :=
  State.hearing_congr s _ other rfl rfl (by simp [State.lokiFrame,elsewhere])

theorem lokiFrame_line : (s.lokiFrame connection forged).line.toJane = s.line.toJane ∧
    (s.lokiFrame connection forged).line.verdicts = s.line.verdicts := by
  by_cases own : s.opened-1 = connection
  · simp [State.lokiFrame,State.line,own]
  · simp [State.lokiFrame,State.line,own]

theorem idle_loki (enabled : s.Enabled (.lokiFrame connection sent forged)) (other : Nat)
    (idle : (s.hearing other).Idle) : ((s.lokiFrame connection forged).hearing other).Idle := by
  by_cases own : other = connection
  · subst own
    rcases lokiFrame_hearing enabled with ⟨_,passed⟩ | ⟨before,_⟩ | ⟨_,before⟩
    · exact .inl passed
    · rw [before] at idle
      rcases idle with absent | empty
      · cases absent
      · exact absurd (Hearing.hears.inj empty) (framed_ne_nil _)
    · rw [before] at idle
      exact absurd idle (Hearing.not_idle_handles _ _)
  · rw [lokiFrame_elsewhere other own]
    exact idle

theorem asks_loki (enabled : s.Enabled (.lokiFrame connection sent forged)) (other : Nat) (text : Bytes)
    (asked : Asked text) (there : (s.hearing other).Asks text) :
    ∃ text, Asked text ∧ ((s.lokiFrame connection forged).hearing other).Asks text := by
  by_cases own : other = connection
  · subst own
    rcases lokiFrame_hearing enabled with ⟨_,passed⟩ | ⟨_,after⟩ | ⟨_,before⟩
    · exact ⟨text,asked,.inl passed⟩
    · exact ⟨forged.text,⟨enabled.2.2,forged,rfl⟩,.inr (.inl after)⟩
    · rw [before,Hearing.asks_handles] at there
      exact absurd there.2 (framed_ne_nil _)
  · rw [lokiFrame_elsewhere other own]
    exact ⟨text,asked,there⟩

theorem TalkAt.loki {here : Jane.Place} (enabled : s.Enabled (.lokiFrame connection sent forged))
    (place : TalkAt s here) : TalkAt (s.lokiFrame connection forged) here := by
  have toJane : (s.lokiFrame connection forged).line.toJane = s.line.toJane := lokiFrame_line.left
  have verdicts : (s.lokiFrame connection forged).line.verdicts = s.line.verdicts := lokiFrame_line.right
  have clear : Clear s → Clear (s.lokiFrame connection forged) :=
    fun clear => ⟨toJane.trans clear.toJane,idle_loki enabled _ clear.idle⟩
  cases here with
  | loop => exact clear place
  | send => exact clear place
  | finish => exact clear place
  | receive receiver =>
    rcases place with awaiting | answered
    · obtain ⟨text,asked,there⟩ := awaiting.asked
      exact .inl ⟨awaiting.receiver,toJane.trans awaiting.toJane,asks_loki enabled _ text asked there⟩
    · refine .inr ⟨?_,idle_loki enabled _ answered.idle⟩
      rw [toJane,verdicts]
      exact answered.told
  | _ => trivial

end Loki

/-- The next call of Jane reads another chunk than her first. -/
def AboutToRead (s : State) : Prop :=
  s.jane.place = .loop ∧ s.jane.finishedReading = true ∧ s.jane.failed = false ∧ 1 ≤ s.jane.chunks

instance (s : State) : Decidable (AboutToRead s) := inferInstanceAs (Decidable (_ ∧ _))

section Steps
variable {md5 : Bytes → Digest} {dataPtr : Int} {buffers u : Nat} {file : Bytes} {s t : State}
  (talk : Talk md5 dataPtr buffers u file s)
include talk

theorem setJane_talk (line : Connection) (jane : Jane.Client) (answer : Option Bool)
    (inv : Jane.Inv md5 dataPtr buffers u file jane s.segment)
    (place : TalkAt (s.setJane line jane answer) jane.place) :
    Talk md5 dataPtr buffers u file (s.setJane line jane answer) :=
  ⟨setJane_base s line jane answer talk.base,inv,place⟩

theorem Talk.others (base : Base t) (jane : t.jane = s.jane) (answer : t.answer = s.answer)
    (room : t.segment.length = s.segment.length) (place : TalkAt t s.jane.place) :
    Talk md5 dataPtr buffers u file t ∧ (AboutToRead t → AboutToRead s ∧ t.answer = s.answer) := by
  refine ⟨⟨base,?_,?_⟩,fun reads => ⟨?_,answer⟩⟩
  · rw [jane]
    exact ⟨⟨talk.inv.common.uses,room.trans talk.inv.common.room,talk.inv.common.text⟩,talk.inv.situation⟩
  · rw [jane]
    exact place
  · unfold AboutToRead at reads ⊢
    rw [jane] at reads
    exact reads

theorem Talk.quiet (moved : Quiet s t) :
    Talk md5 dataPtr buffers u file t ∧ (AboutToRead t → AboutToRead s ∧ t.answer = s.answer) :=
  talk.others moved.base moved.jane moved.answer (congrArg List.length moved.segment) (talk.place.moves moved)

theorem Talk.serverSend (payload : Bytes) (handling : s.thor.place = .handle payload) (kept : Bytes → Bytes)
    (after : Thor.Place) (part : ∀ bytes, kept bytes <+: bytes) (next : after = .accept ∨ after = .receive .start) :
    Talk md5 dataPtr buffers u file (s.serverSend md5 payload kept after) ∧
      (AboutToRead (s.serverSend md5 payload kept after) →
        AboutToRead s ∧ (s.serverSend md5 payload kept after).answer = s.answer) := by
  cases checked : Thor.verify md5 s.segment payload with
  | error fault => exact talk.quiet (serverSend_quiet talk.base handling md5 kept after fault checked)
  | ok found =>
    obtain ⟨data,intact⟩ := found
    obtain ⟨answer,_⟩ := serverSend_replied talk.base handling md5 kept after data intact part next checked
    exact talk.others answer.base answer.jane answer.answer (congrArg List.length answer.segment)
      (talk.place.replied talk.base handling answer)

theorem Talk.prepare (top : (buffers : Int) ≤ INT_MAX) (positive : 1 ≤ u) (fits : u ≤ buffers)
    (here : s.jane.place = .loop) :
    Talk md5 dataPtr buffers u file (s.prepare md5) ∧ ¬ AboutToRead (s.prepare md5) := by
  obtain ⟨jane,segment,ran,inv,led⟩ := talk.inv.nextBuffer top positive fits
  have place := talk.place
  rw [here] at place
  have clear : Clear s := place
  unfold State.prepare
  rw [ran]
  simp only
  generalize (if jane.chunks = s.jane.chunks then s.answer else none) = answer
  have same : State.hearing { s with jane := jane, segment := segment, answer := answer } (s.opened-1) =
      s.hearing (s.opened-1) := State.hearing_congr s _ _ rfl rfl rfl
  have clear' : Clear { s with jane := jane, segment := segment, answer := answer } :=
    Clear.same (s := s) rfl same clear
  refine ⟨⟨⟨talk.base.order,talk.base.some_accepted,talk.base.tidy⟩,inv,?_⟩,?_⟩
  · change TalkAt _ jane.place
    cases led with
    | retry => exact clear'
    | read _ _ _ _ _ next => rw [next]; exact clear'
    | drained _ _ _ next => rw [next]; exact clear'
    | finish => exact clear'
  · rintro ⟨place,reading,_⟩
    cases led with
    | retry => cases place
    | read _ _ _ _ _ next => cases next.symm.trans place
    | drained _ _ facts => cases facts.done.symm.trans reading
    | finish => cases place

theorem Talk.connect (here : s.jane.place = .start) :
    Talk md5 dataPtr buffers u file s.connect ∧ ¬ AboutToRead s.connect := by
  refine ⟨⟨connect_base s talk.base,talk.inv.connect here,connect_clear s talk.base⟩,?_⟩
  rintro ⟨_,_,clean,some_read⟩
  have clean : s.jane.failed = false := clean
  have some_read : 1 ≤ s.jane.chunks := some_read
  cases talk.inv.situation with
  | fresh facts => rw [facts.none_read] at some_read; omega
  | loaded _ elsewhere => simp [here,clean] at elsewhere
  | drained _ elsewhere => simp [here] at elsewhere

theorem Talk.clientSend (high : u ≤ 102399) (here : s.jane.place = .send) :
    Talk md5 dataPtr buffers u file (s.next memmove md5 .clientSend) ∧ ¬ AboutToRead (s.next memmove md5 .clientSend) := by
  have loaded := talk.inv.loaded_of_send here
  have short := Jane.chunk_length_le u file (s.jane.chunks-1)
  unfold Jane.chunkSize BIG_ENOUGH at short
  have asked := payload_asked md5 (Jane.chunk u file (s.jane.chunks-1)) (by omega)
  have place := talk.place
  rw [here] at place
  have clear : Clear s := place
  have sent : s.next memmove md5 .clientSend = s.setJane _ _ s.answer :=
    clientSend_eq s id (fun jane => { jane with place := .receive .start }) _ loaded.frame_eq
  rw [sent]
  refine ⟨setJane_talk talk _ _ _ (talk.inv.receive loaded .start) (.inl ⟨rfl,?_,_,asked,?_⟩),
    fun reads => nomatch reads.1⟩
  · rw [setJane_line]
    exact clear.toJane
  · rw [show (s.setJane _ _ _).opened-1 = s.opened-1 from rfl,setJane_hearing s _ _ _ _ rfl]
    exact clear.idle.asks

theorem Talk.clientSendFails (count : Nat) (here : s.jane.place = .send) :
    Talk md5 dataPtr buffers u file (s.next memmove md5 (.clientSendFails count)) ∧
      ¬ AboutToRead (s.next memmove md5 (.clientSendFails count)) := by
  have loaded := talk.inv.loaded_of_send here
  have sent : s.next memmove md5 (.clientSendFails count) = s.setJane _ _ s.answer :=
    clientSend_eq s (fun bytes => bytes.take count) Jane.gotoStart _ loaded.frame_eq
  rw [sent]
  exact ⟨setJane_talk talk _ _ _ (talk.inv.gotoStart loaded) trivial,fun reads => nomatch reads.1⟩

theorem Talk.clientRcvFails (receiver : Receiver) (here : s.jane.place = .receive receiver) :
    Talk md5 dataPtr buffers u file (s.next memmove md5 .clientRcvFails) ∧ ¬ AboutToRead (s.next memmove md5 .clientRcvFails) := by
  have left := setJane_talk talk s.line _ s.answer (talk.inv.gotoStart (talk.inv.loaded_of_receive receiver here))
    trivial
  rw [setJane_self] at left
  exact ⟨left,fun reads => nomatch reads.1⟩

theorem Talk.clientDone (here : s.jane.place = .finish) :
    Talk md5 dataPtr buffers u file (s.next memmove md5 .clientDone) ∧ ¬ AboutToRead (s.next memmove md5 .clientDone) :=
  ⟨setJane_talk talk _ _ s.answer (talk.inv.finish here) trivial,fun reads => nomatch reads.1⟩

end Steps
end Spsc.Session
