import Spsc.Jane.Invariant
import Spsc.Session.Thor

/-! Jane's connection: clear, with her frame on it, or with Thor's answer. -/
namespace Spsc.Session
open Imperative Hash Wire Segment

theorem payload_legible (md5 : Bytes → Digest) (bytes : Bytes) (short : bytes.length < 2^31) :
    Legible (Jane.payload md5 bytes) := by
  have hex := digestText_isHex md5 bytes
  have size := fields_length 1 1024 bytes.length (digestText md5 bytes) (by decide) (by decide) short
  rw [digestText_length] at size
  have room : (fields (1 : Nat) (1024 : Nat) bytes.length (digestText md5 bytes)).length+20 < BIG_ENOUGH :=
    lt_of_le_of_lt (Nat.add_le_add_right size 20) (by decide)
  exact fields_legible_hex 1 1024 bytes.length _ hex room

theorem hearing_more (s t : State) (connection : Nat) (bytes : Bytes) (accepted : t.accepted = s.accepted)
    (place : t.thor.place = s.thor.place)
    (carried : (t.wire connection).toThor = (s.wire connection).toThor ++ bytes) :
    t.hearing connection = (s.hearing connection).more bytes := by
  unfold State.hearing
  rw [accepted,place,carried]
  split
  · rfl
  split
  · rfl
  cases s.thor.place with
  | receive => simp only [Hearing.more,List.append_assoc]
  | _ => rfl

theorem not_idle_own {s : State} {payload rest : Bytes} (own : s.opened-1 = s.accepted-1)
    (handling : s.hearing (s.accepted-1) = .handles payload rest) : ¬ (s.hearing (s.opened-1)).Idle := by
  rw [own,handling]
  exact Hearing.not_idle_handles _ _

structure Clear (s : State) : Prop where
  toJane : s.line.toJane = []
  idle : (s.hearing (s.opened-1)).Idle

section Talk
variable (asks : Bytes → Prop) (tells : Bool → Bytes → Prop)

structure Awaiting (s : State) (receiver : Receiver) : Prop where
  receiver : receiver = .start
  toJane : s.line.toJane = []
  asked : ∃ text, asks text ∧ (s.hearing (s.opened-1)).Asks text

/-- Thor has answered, though not all of the answer may have been sent. -/
structure Answered (s : State) (receiver : Receiver) : Prop where
  told : ∃ stored text rest verdict, receiver = holding stored ∧
    stored ++ s.line.toJane ++ rest = framed text ∧ tells verdict text ∧ s.line.verdicts.getLast? = some verdict
  idle : (s.hearing (s.opened-1)).Idle

end Talk

section Same
variable {s t : State} (line : t.line = s.line) (hearing : t.hearing (t.opened-1) = s.hearing (s.opened-1))
include line hearing

theorem Clear.same (clear : Clear s) : Clear t :=
  ⟨by rw [line]; exact clear.toJane,by rw [hearing]; exact clear.idle⟩

theorem Awaiting.same {asks : Bytes → Prop} {receiver : Receiver} (awaiting : Awaiting asks s receiver) :
    Awaiting asks t receiver :=
  ⟨awaiting.receiver,by rw [line]; exact awaiting.toJane,by rw [hearing]; exact awaiting.asked⟩

theorem Answered.same {tells : Bool → Bytes → Prop} {receiver : Receiver} (answered : Answered tells s receiver) :
    Answered tells t receiver :=
  ⟨by rw [line]; exact answered.told,by rw [hearing]; exact answered.idle⟩

end Same

section Quiet
variable {s t : State} (quiet : Quiet s t)
include quiet

theorem Quiet.line_eq : t.line.toJane = s.line.toJane ∧ t.line.verdicts = s.line.verdicts := by
  unfold State.line
  rw [quiet.opened]
  exact ⟨quiet.toJane _,quiet.verdicts _⟩

theorem Quiet.moves : (s.hearing (s.opened-1)).Moves (t.hearing (t.opened-1)) := by
  rw [quiet.opened]
  exact quiet.hearing _

theorem Clear.moves (clear : Clear s) : Clear t :=
  ⟨quiet.line_eq.1.trans clear.toJane,clear.idle.moves quiet.moves⟩

theorem Awaiting.moves {asks : Bytes → Prop} {receiver : Receiver} (legible : ∀ text, asks text → Legible text)
    (awaiting : Awaiting asks s receiver) : Awaiting asks t receiver := by
  obtain ⟨text,asked,there⟩ := awaiting.asked
  exact ⟨awaiting.receiver,quiet.line_eq.1.trans awaiting.toJane,text,asked,
    there.moves (legible text asked) quiet.moves⟩

theorem Answered.moves {tells : Bool → Bytes → Prop} {receiver : Receiver} (answered : Answered tells s receiver) :
    Answered tells t receiver := by
  obtain ⟨toJane,verdicts⟩ := quiet.line_eq
  refine ⟨?_,answered.idle.moves quiet.moves⟩
  rw [toJane,verdicts]
  exact answered.told

end Quiet

section Replied
variable {s t : State} {payload data : Bytes} {intact : Bool} (replied : Replied s t payload data intact)
include replied

theorem Replied.line_eq (other : s.opened-1 ≠ s.accepted-1) :
    t.line = s.line ∧ t.hearing (t.opened-1) = s.hearing (s.opened-1) := by
  unfold State.line
  rw [replied.opened]
  exact ⟨replied.others _ other,replied.elsewhere _ other⟩

theorem Awaiting.answered {asks : Bytes → Prop} {tells : Bool → Bytes → Prop} {receiver : Receiver}
    (awaiting : Awaiting asks s receiver) (own : s.opened-1 = s.accepted-1)
    (handling : s.hearing (s.accepted-1) = .handles payload s.heard.toThor)
    (short : ∀ text, asks text → text.length+20 < BIG_ENOUGH)
    (tell : asks payload → tells intact (if intact then payload else Thor.REJECTION)) :
    Answered tells t receiver := by
  obtain ⟨text,asked,there⟩ := awaiting.asked
  have toJane := awaiting.toJane
  unfold State.line at toJane
  rw [own] at there toJane
  rw [handling] at there
  obtain ⟨rfl,none_left⟩ := (Hearing.asks_handles _ _).mp there
  obtain ⟨sent,carried,part⟩ := replied.toJane
  obtain ⟨rest,whole⟩ := part (short payload asked)
  have here : t.opened-1 = t.accepted-1 := by rw [replied.opened,replied.accepted,own]
  refine ⟨⟨[],_,rest,intact,awaiting.receiver,?_,tell asked,?_⟩,?_⟩
  · unfold State.heard at carried
    unfold State.line
    rw [here,carried,toJane,← whole]
    rfl
  · have recorded := replied.verdicts
    unfold State.heard at recorded
    unfold State.line
    rw [here,recorded]
    exact List.getLast?_concat
  · rw [here,replied.accepted]
    rcases replied.hearing with passed | hears
    · exact .inl passed
    · rw [none_left] at hears
      exact .inr hears

end Replied

def State.setJane (s : State) (line : Connection) (jane : Jane.Client) (answer : Option Bool) : State :=
  { s.setLine line with
    jane := jane
    answer := answer }

section Calls
variable (s : State) (line : Connection) (jane : Jane.Client) (answer : Option Bool)

theorem setJane_line : (s.setJane line jane answer).line = line := by
  simp [State.setJane,State.setLine,State.line]

theorem setJane_self : s.setJane s.line jane answer = { s with jane := jane, answer := answer } := by
  simp [State.setJane,State.setLine,State.line]

theorem setJane_base (base : Base s) : Base (s.setJane line jane answer) :=
  ⟨base.order,base.some_accepted,base.tidy⟩

theorem setJane_elsewhere (connection : Nat) (other : connection ≠ s.opened-1) :
    (s.setJane line jane answer).hearing connection = s.hearing connection :=
  State.hearing_congr s _ connection rfl rfl (by simp [State.setJane,State.setLine,other])

theorem setJane_hearing (bytes : Bytes) (carried : line.toThor = s.line.toThor ++ bytes) :
    (s.setJane line jane answer).hearing (s.opened-1) = (s.hearing (s.opened-1)).more bytes :=
  hearing_more s _ _ bytes rfl rfl (by simp [State.setJane,State.setLine,carried,State.line])

theorem setJane_same (toThor : line.toThor = s.line.toThor) (connection : Nat) :
    (s.setJane line jane answer).hearing connection = s.hearing connection := by
  by_cases own : connection = s.opened-1
  · refine State.hearing_congr s _ connection rfl rfl ?_
    simp [State.setJane,State.setLine,own,toThor,State.line]
  · exact setJane_elsewhere s line jane answer connection own

theorem setJane_idle (toJane : Bytes) (idle : (s.hearing (s.opened-1)).Idle) :
    ((s.setJane { s.line with toJane := toJane } jane answer).hearing (s.opened-1)).Idle := by
  rw [setJane_same s { s.line with toJane := toJane } jane answer rfl]
  exact idle

theorem clientSend_eq (kept : Bytes → Bytes) (after : Jane.Client → Jane.Client) (bytes : Bytes)
    (made : Jane.frame s.jane = .ok bytes) :
    s.clientSend kept after =
      s.setJane { s.line with toThor := s.line.toThor ++ kept bytes } (after s.jane) s.answer := by
  unfold State.clientSend
  rw [made]
  rfl

theorem connect_clear (base : Base s) : Clear s.connect := by
  have later : s.accepted ≤ s.opened := base.order
  constructor
  · simp [State.connect,State.line]
  · refine .inr ?_
    rw [show s.connect.opened-1 = s.opened from Nat.add_sub_cancel _ _,State.hearing_later s.connect _ later]
    simp [State.connect]

theorem connect_hearing (connection : Nat) (other : connection ≠ s.opened) :
    s.connect.hearing connection = s.hearing connection :=
  State.hearing_congr s _ connection rfl rfl (by simp [State.connect,other])

theorem connect_base (base : Base s) : Base s.connect :=
  ⟨Nat.le_succ_of_le base.order,base.some_accepted,base.tidy⟩

/-- A `recv` of some bytes of an answer: more of it is to come, or Jane compares. -/
theorem clientRcv_answered (stored text rest hash : Bytes) (count : Nat) (some_count : 1 ≤ count)
    (some_bytes : s.line.toJane ≠ []) (framable : Framable text)
    (cut : stored ++ s.line.toJane ++ rest = framed text) (hashed : cString s.jane.md5 = .ok hash) :
    (∃ piece left, stored ++ piece ++ left ++ rest = framed text ∧
      s.received memmove (holding stored) count = .ok (.again (holding (stored ++ piece))) ∧
      s.clientRcv memmove (holding stored) count = s.setJane { s.line with toJane := left }
        { s.jane with place := .receive (holding (stored ++ piece)) } s.answer) ∨
    (s.received memmove (holding stored) count = .ok (.frame text) ∧
      s.clientRcv memmove (holding stored) count = s.setJane { s.line with toJane := [] }
        { s.jane with place := .loop, failed := if text = hash then false else s.jane.failed }
        s.line.verdicts.getLast?) := by
  have size := congrArg List.length cut
  rw [framed_length,List.length_append,List.length_append] at size
  have short := framable.short
  have room : stored.length < BIG_ENOUGH := by omega
  unfold State.clientRcv State.received Jane.receivePiece clientSocketRcv
  simp only
  have positive : 0 < min count (holding stored).maxlen := by
    simp only [holding]
    omega
  generalize min count (holding stored).maxlen = taken at *
  have split : s.line.toJane.take taken ++ s.line.toJane.drop taken = s.line.toJane := List.take_append_drop _ _
  have some_piece : s.line.toJane.take taken ≠ [] := by
    rw [Ne,List.take_eq_nil_iff,not_or]
    exact ⟨by omega,some_bytes⟩
  by_cases all : s.line.toJane.drop taken ++ rest = []
  · right
    obtain ⟨none_left,rfl⟩ := List.append_eq_nil_iff.mp all
    rw [none_left,List.append_nil] at split
    rw [List.append_nil,← split] at cut
    rw [receive_last false text framable (by simp) stored _ some_piece cut,none_left]
    simp only [bind,Except.bind,Jane.compare_eq s.jane hash text hashed]
    exact ⟨trivial,rfl⟩
  · left
    have cut' : stored ++ s.line.toJane.take taken ++ (s.line.toJane.drop taken ++ rest) = framed text := by
      rw [← cut]
      conv_rhs => rw [← split]
      simp only [List.append_assoc]
    refine ⟨s.line.toJane.take taken,s.line.toJane.drop taken,by rw [List.append_assoc _ _ rest,cut'],?_⟩
    rw [receive_more false text framable (by simp) stored _ _ some_piece all cut']
    exact ⟨rfl,rfl⟩

end Calls

end Spsc.Session
