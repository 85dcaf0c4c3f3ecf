import Spsc.Session
import Spsc.Thor.Answers

/-! What Thor still has to hear on each connection, and how his calls change it. -/
namespace Spsc.Session
open Imperative Hash Wire Segment

/-- Thor has left the connection, or he will read the bytes, or he has a payload
before him. -/
inductive Hearing where
  | passed
  | hears (bytes : Bytes)
  | handles (payload rest : Bytes)

namespace Hearing

/-- What a call of Thor that sends nothing does to a connection. -/
inductive Moves : Hearing → Hearing → Prop
  | stays (hearing : Hearing) : Moves hearing hearing
  | leaves (hearing : Hearing) : Moves hearing .passed
  | frame (bytes payload rest : Bytes) (not_done : ¬ bytes <+: DONE_TRANS ++ [0])
      (whole : ∀ text, Legible text → bytes <+: framed text →
        bytes = framed text ∧ payload = text ∧ rest = []) :
      Moves (.hears bytes) (.handles payload rest)

def Idle (hearing : Hearing) : Prop := hearing = .passed ∨ hearing = .hears []

def Asks (text : Bytes) (hearing : Hearing) : Prop :=
  hearing = .passed ∨ hearing = .hears (framed text) ∨ hearing = .handles text []

/-- At most the frame of `text`, or a part that was sent before a failure. -/
def AtMost (text : Bytes) (hearing : Hearing) : Prop :=
  hearing = .passed ∨ (∃ bytes, hearing = .hears bytes ∧ bytes <+: framed text) ∨ hearing = .handles text []

def Ending (hearing : Hearing) : Prop :=
  hearing = .passed ∨ ∃ bytes, hearing = .hears bytes ∧ bytes <+: DONE_TRANS ++ [0]

def more (bytes : Bytes) : Hearing → Hearing
  | .passed => .passed
  | .hears before => .hears (before ++ bytes)
  | .handles payload rest => .handles payload (rest ++ bytes)

variable {before after : Hearing} {text : Bytes}

theorem not_idle_handles (payload rest : Bytes) : ¬ (handles payload rest).Idle := by simp [Idle]

theorem not_ending_handles (payload rest : Bytes) : ¬ (handles payload rest).Ending := by simp [Ending]

theorem asks_handles (payload rest : Bytes) : (handles payload rest).Asks text ↔ payload = text ∧ rest = [] := by
  simp [Asks]

theorem atMost_handles (payload rest : Bytes) :
    (handles payload rest).AtMost text ↔ payload = text ∧ rest = [] := by
  simp [AtMost]

theorem Idle.atMost (idle : before.Idle) : before.AtMost text := by
  rcases idle with rfl | rfl
  · exact .inl rfl
  · exact .inr (.inl ⟨[],rfl,List.nil_prefix⟩)

theorem Asks.atMost (asks : before.Asks text) : before.AtMost text := by
  rcases asks with rfl | rfl | rfl
  · exact .inl rfl
  · exact .inr (.inl ⟨_,rfl,List.prefix_rfl⟩)
  · exact .inr (.inr rfl)

theorem Idle.moves (idle : before.Idle) (moves : before.Moves after) : after.Idle := by
  cases moves with
  | stays => exact idle
  | leaves => exact .inl rfl
  | frame bytes _ _ not_done =>
    rcases idle with absent | empty
    · cases absent
    · obtain rfl := Hearing.hears.inj empty
      exact absurd List.nil_prefix not_done

theorem Ending.moves (ending : before.Ending) (moves : before.Moves after) : after.Ending := by
  cases moves with
  | stays => exact ending
  | leaves => exact .inl rfl
  | frame _ _ _ not_done =>
    rcases ending with absent | ⟨bytes,same,inside⟩
    · cases absent
    · obtain rfl := Hearing.hears.inj same
      exact absurd inside not_done

theorem AtMost.moves (legible : Legible text) (atMost : before.AtMost text) (moves : before.Moves after) :
    after.AtMost text := by
  cases moves with
  | stays => exact atMost
  | leaves => exact .inl rfl
  | frame _ _ _ _ whole =>
    rcases atMost with absent | ⟨bytes,same,inside⟩ | handling
    · cases absent
    · obtain rfl := Hearing.hears.inj same
      obtain ⟨_,rfl,rfl⟩ := whole text legible inside
      exact .inr (.inr rfl)
    · cases handling

theorem Asks.moves (legible : Legible text) (asks : before.Asks text) (moves : before.Moves after) :
    after.Asks text := by
  cases moves with
  | stays => exact asks
  | leaves => exact .inl rfl
  | frame _ _ _ _ whole =>
    rcases asks with absent | same | handling
    · cases absent
    · obtain rfl := Hearing.hears.inj same
      obtain ⟨_,rfl,rfl⟩ := whole text legible List.prefix_rfl
      exact .inr (.inr rfl)
    · cases handling

theorem Idle.asks (idle : before.Idle) : (before.more (framed text)).Asks text := by
  rcases idle with rfl | rfl
  · exact .inl rfl
  · exact .inr (.inl rfl)

theorem Idle.part (idle : before.Idle) (bytes : Bytes) (part : bytes <+: framed text) :
    (before.more bytes).AtMost text := by
  rcases idle with rfl | rfl
  · exact .inl rfl
  · exact .inr (.inl ⟨bytes,rfl,part⟩)

theorem Idle.ending (idle : before.Idle) : (before.more (DONE_TRANS ++ [0])).Ending := by
  rcases idle with rfl | rfl
  · exact .inl rfl
  · exact .inr ⟨_,rfl,List.prefix_rfl⟩

end Hearing

namespace State

def hearing (s : State) (connection : Nat) : Hearing :=
  if connection+1 < s.accepted then .passed else
  if s.accepted ≤ connection then .hears (s.wire connection).toThor else
  match s.thor.place with
  | .receive receiver => .hears (receiver.buffer.take receiver.pbuffer ++ (s.wire connection).toThor)
  | .handle payload => .handles payload (s.wire connection).toThor
  | _ => .passed

theorem hearing_congr (s t : State) (connection : Nat) (accepted : t.accepted = s.accepted)
    (place : t.thor.place = s.thor.place) (bytes : (t.wire connection).toThor = (s.wire connection).toThor) :
    t.hearing connection = s.hearing connection := by
  unfold hearing
  rw [accepted,place,bytes]

theorem hearing_later (s : State) (connection : Nat) (later : s.accepted ≤ connection) :
    s.hearing connection = .hears (s.wire connection).toThor := by
  rw [hearing,if_neg (by omega),if_pos later]

theorem hearing_earlier (s : State) (connection : Nat) (earlier : connection+1 < s.accepted) :
    s.hearing connection = .passed := if_pos earlier

theorem hearing_here (s : State) (connection : Nat) (here : s.accepted = connection+1) :
    s.hearing connection = match s.thor.place with
      | .receive receiver => .hears (receiver.buffer.take receiver.pbuffer ++ (s.wire connection).toThor)
      | .handle payload => .handles payload (s.wire connection).toThor
      | _ => .passed := by
  rw [hearing,if_neg (by omega),if_neg (by omega)]

theorem hearing_receive (s : State) (connection : Nat) (stored : Bytes) (here : s.accepted = connection+1)
    (place : s.thor.place = .receive (holding stored)) :
    s.hearing connection = .hears (stored ++ (s.wire connection).toThor) := by
  rw [hearing_here s connection here,place]
  simp only [holding,List.take_left]

theorem hearing_handle (s : State) (connection : Nat) (payload : Bytes) (here : s.accepted = connection+1)
    (place : s.thor.place = .handle payload) :
    s.hearing connection = .handles payload (s.wire connection).toThor := by
  rw [hearing_here s connection here,place]

end State

end Spsc.Session
