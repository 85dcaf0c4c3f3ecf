import Spsc.Session.Hearing

/-! Thor's calls: those that send nothing, and his answer to a payload. -/
namespace Spsc.Session
open Imperative Hash Wire Segment

structure Base (s : State) : Prop where
  order : s.accepted ≤ s.opened
  some_accepted : s.thor.place ≠ .accept → 1 ≤ s.accepted
  tidy : ∀ receiver, s.thor.place = .receive receiver → ∃ stored, receiver = holding stored

/-- A call of Thor that sends nothing. -/
structure Quiet (s t : State) : Prop where
  jane : t.jane = s.jane
  segment : t.segment = s.segment
  opened : t.opened = s.opened
  appended : t.appended = s.appended
  answer : t.answer = s.answer
  output : t.thor.output = s.thor.output
  toJane : ∀ connection, (t.wire connection).toJane = (s.wire connection).toJane
  verdicts : ∀ connection, (t.wire connection).verdicts = (s.wire connection).verdicts
  hearing : ∀ connection, (s.hearing connection).Moves (t.hearing connection)
  base : Base t

/-- Thor's answer to the payload he handles, or the part of it that he sent. -/
structure Replied (s t : State) (payload data : Bytes) (intact : Bool) : Prop where
  jane : t.jane = s.jane
  segment : t.segment = s.segment
  opened : t.opened = s.opened
  accepted : t.accepted = s.accepted
  answer : t.answer = s.answer
  appended : t.appended = if intact then s.appended ++ [s.jane.chunks-1] else s.appended
  output : t.thor.output = if intact then s.thor.output ++ [data] else s.thor.output
  others : ∀ connection, connection ≠ s.accepted-1 → t.wire connection = s.wire connection
  elsewhere : ∀ connection, connection ≠ s.accepted-1 → t.hearing connection = s.hearing connection
  toJane : ∃ sent, t.heard.toJane = s.heard.toJane ++ sent ∧
    (payload.length+20 < BIG_ENOUGH → sent <+: framed (if intact then payload else Thor.REJECTION))
  verdicts : t.heard.verdicts = s.heard.verdicts ++ [intact]
  hearing : t.hearing (s.accepted-1) = .passed ∨ t.hearing (s.accepted-1) = .hears s.heard.toThor
  base : Base t

theorem hearing_elsewhere (s t : State) (accepted : t.accepted = s.accepted) (connection : Nat)
    (other : s.accepted ≠ connection+1) (bytes : (t.wire connection).toThor = (s.wire connection).toThor) :
    t.hearing connection = s.hearing connection := by
  unfold State.hearing
  rw [accepted,bytes]
  split
  · rfl
  · rw [if_pos (by omega),if_pos (by omega)]

theorem serverAccept_quiet (s : State) (place : s.thor.place = .accept) (waiting : s.accepted < s.opened) :
    Quiet s s.serverAccept where
  jane := rfl
  segment := rfl
  opened := rfl
  appended := rfl
  answer := rfl
  output := rfl
  toJane := fun _ => rfl
  verdicts := fun _ => rfl
  base :=
    { order := waiting
      some_accepted := fun _ => Nat.le_add_left 1 _
      tidy := fun receiver same => ⟨[],(Thor.Place.receive.inj same).symm.trans start_holding⟩ }
  hearing := by
    intro connection
    have same : s.serverAccept.hearing connection = s.hearing connection := by
      rcases Nat.lt_trichotomy s.accepted connection with later | rfl | earlier
      · rw [State.hearing_later _ _ (show s.accepted+1 ≤ connection from later),State.hearing_later _ _ later.le]
        rfl
      · rw [State.hearing_receive _ _ [] rfl rfl,State.hearing_later _ _ le_rfl]
        rfl
      · rw [State.hearing_earlier _ _ (by omega : connection+1 < s.accepted+1)]
        rcases Nat.lt_or_ge (connection+1) s.accepted with left | here
        · rw [State.hearing_earlier _ _ left]
        · rw [State.hearing_here _ _ (by omega),place]
    rw [same]
    exact .stays _

def State.setThor (s : State) (place : Thor.Place) (rest : Bytes) : State :=
  { s.setHeard { s.heard with toThor := rest } with thor := { s.thor with place := place } }

/-- Thor after an answer that leaves `toJane` on the way. -/
def State.setReply (s : State) (thor : Thor.Server) (toJane : Bytes) (intact : Bool) (appended : List Nat) : State :=
  { s.setHeard { s.heard with toJane := toJane, verdicts := s.heard.verdicts ++ [intact] } with
    thor := thor
    appended := appended }

section Calls
variable {s : State} (base : Base s)
include base

theorem place_quiet (place : Thor.Place) (rest : Bytes) (busy : s.thor.place ≠ .accept)
    (tidy : ∀ receiver, place = .receive receiver → ∃ stored, receiver = holding stored)
    (moves : (s.hearing (s.accepted-1)).Moves ((s.setThor place rest).hearing (s.accepted-1))) :
    Quiet s (s.setThor place rest) where
  jane := rfl
  segment := rfl
  opened := rfl
  appended := rfl
  answer := rfl
  output := rfl
  toJane := by
    intro connection
    by_cases own : connection = s.accepted-1
    · simp [State.setThor,State.setHeard,State.heard,own]
    · simp [State.setThor,State.setHeard,own]
  verdicts := by
    intro connection
    by_cases own : connection = s.accepted-1
    · simp [State.setThor,State.setHeard,State.heard,own]
    · simp [State.setThor,State.setHeard,own]
  base := ⟨base.order,fun _ => base.some_accepted busy,tidy⟩
  hearing := by
    intro connection
    have some_accepted := base.some_accepted busy
    by_cases own : connection = s.accepted-1
    · rw [own]
      exact moves
    · rw [hearing_elsewhere s (s.setThor place rest) rfl connection (by omega)
        (by simp [State.setThor,State.setHeard,own])]
      exact .stays _

theorem leave_quiet (place : Thor.Place) (gone : place = .accept ∨ ∃ fault, place = .aborted fault)
    (rest : Bytes) (busy : s.thor.place ≠ .accept) :
    Quiet s (s.setThor place rest) := by
  have some_accepted := base.some_accepted busy
  apply place_quiet base place rest busy
  · intro receiver same
    rcases gone with rfl | ⟨_,rfl⟩ <;> cases same
  · rw [State.hearing_here (s.setThor place rest) _ (by omega : s.accepted = s.accepted-1+1)]
    rcases gone with rfl | ⟨_,rfl⟩ <;> exact .leaves _

omit base in
theorem setThor_self (place : Thor.Place) :
    s.setThor place s.heard.toThor = { s with thor := { s.thor with place := place } } := by
  simp [State.setThor,State.setHeard,State.heard]

theorem serverLeave_quiet (busy : s.thor.place ≠ .accept) : Quiet s s.serverLeave := by
  have left := leave_quiet base .accept (.inl rfl) s.heard.toThor busy
  rw [setThor_self] at left
  exact left

theorem serverRcv_quiet (stored : Bytes) (count : Nat) (place : s.thor.place = .receive (holding stored)) :
    Quiet s (s.serverRcv memmove (holding stored) count) := by
  have busy : s.thor.place ≠ .accept := by simp [place]
  have some_accepted := base.some_accepted busy
  have here : s.accepted = s.accepted-1+1 := by omega
  have hearing : s.hearing (s.accepted-1) = .hears (stored ++ s.heard.toThor) := s.hearing_receive _ stored here place
  unfold State.serverRcv Thor.receivePiece serverSocketRcv
  simp only
  generalize size : min count (holding stored).maxlen = taken
  have piece_short : (s.heard.toThor.take taken).take (BIG_ENOUGH-stored.length) = s.heard.toThor.take taken := by
    refine List.take_of_length_le ((List.length_take_le _ _).trans ?_)
    rw [← size]
    exact Nat.min_le_right _ _
  have split : s.heard.toThor.take taken ++ s.heard.toThor.drop taken = s.heard.toThor := List.take_append_drop _ _
  cases ran : receive memmove true (holding stored) (s.heard.toThor.take taken) with
  | error fault => exact leave_quiet base (.aborted fault) (.inr ⟨fault,rfl⟩) _ busy
  | ok received =>
    cases received with
    | failed => exact leave_quiet base .accept (.inl rfl) _ busy
    | again receiver =>
      have kept := receive_again memmove true stored _ receiver ran
      rw [piece_short] at kept
      subst kept
      refine place_quiet base (.receive _) _ busy (fun _ same => ⟨_,(Thor.Place.receive.inj same).symm⟩) ?_
      rw [State.hearing_receive (s.setThor _ _) _ (stored ++ s.heard.toThor.take taken) here rfl]
      simp only [State.setThor,State.setHeard,Function.update_self,List.append_assoc,split,hearing]
      exact .stays _
    | frame text =>
      refine place_quiet base (.handle text) _ busy (fun _ same => nomatch same) ?_
      rw [State.hearing_handle (s.setThor _ _) _ text here rfl]
      simp only [State.setThor,State.setHeard,Function.update_self,hearing]
      have some_piece : s.heard.toThor.take taken ≠ [] := by
        intro none_there
        rw [none_there,receive_nil] at ran
        cases ran
      have front : stored ++ s.heard.toThor.take taken <+: stored ++ s.heard.toThor :=
        (List.prefix_append_right_inj _).mpr (List.take_prefix _ _)
      refine .frame _ _ _ (fun done => ?_) (fun genuine legible inside => ?_)
      · rcases receive_done memmove stored _ some_piece (front.trans done) with other | other
        · cases ran.symm.trans other
        · cases ran.symm.trans other
      · obtain ⟨lost,cut⟩ := inside
        have cut' : stored ++ s.heard.toThor.take taken ++ (s.heard.toThor.drop taken ++ lost) = framed genuine := by
          rw [← cut]
          conv_rhs => rw [← split]
          simp only [List.append_assoc]
        by_cases none_left : s.heard.toThor.drop taken ++ lost = []
        · rw [none_left,List.append_nil] at cut'
          have last := receive_last true genuine legible.framable (fun _ => legible.quiet) stored _ some_piece cut'
          obtain ⟨gone,rfl⟩ := List.append_eq_nil_iff.mp none_left
          rw [List.append_nil] at cut
          exact ⟨cut,Received.frame.inj (Except.ok.inj (ran.symm.trans last)),gone⟩
        · have more := receive_more true genuine legible.framable (fun _ => legible.quiet) stored _ _ some_piece
            none_left cut'
          cases ran.symm.trans more

omit base in
theorem serverRcv_fault (receiver : Receiver) (count : Nat) (fault : Fault)
    (stopped : (s.serverRcv memmove receiver count).thor.place = .aborted fault) : fault = .bounds := by
  unfold State.serverRcv Thor.receivePiece serverSocketRcv at stopped
  simp only at stopped
  cases ran : receive memmove true receiver (s.heard.toThor.take (min count receiver.maxlen)) with
  | error fault' =>
    rw [ran] at stopped
    obtain rfl := Thor.Place.aborted.inj stopped
    exact receive_fault true _ _ _ ran
  | ok received =>
    rw [ran] at stopped
    cases received <;> cases stopped

section Answers
variable {payload : Bytes} (place : s.thor.place = .handle payload)
include place

theorem serverSend_quiet (md5 : Bytes → Digest) (kept : Bytes → Bytes) (after : Thor.Place) (fault : Fault)
    (failed : Thor.verify md5 s.segment payload = .error fault) : Quiet s (s.serverSend md5 payload kept after) := by
  have stopped := leave_quiet base (.aborted fault) (.inr ⟨fault,rfl⟩) s.heard.toThor (by simp [place])
  rw [setThor_self] at stopped
  unfold State.serverSend
  rw [failed]
  exact stopped

theorem replied_of (thor : Thor.Server) (toJane sent : Bytes) (data : Bytes) (intact : Bool) (appended : List Nat)
    (gone : ∀ payload, thor.place ≠ .handle payload)
    (tidy : ∀ receiver, thor.place = .receive receiver → receiver = .start)
    (output : thor.output = if intact then s.thor.output ++ [data] else s.thor.output)
    (recorded : appended = if intact then s.appended ++ [s.jane.chunks-1] else s.appended)
    (carried : toJane = s.heard.toJane ++ sent)
    (part : payload.length+20 < BIG_ENOUGH → sent <+: framed (if intact then payload else Thor.REJECTION)) :
    Replied s (s.setReply thor toJane intact appended) payload data intact where
  jane := rfl
  segment := rfl
  opened := rfl
  accepted := rfl
  answer := rfl
  appended := recorded
  output := output
  others := fun connection other => by simp [State.setReply,State.setHeard,other]
  elsewhere := by
    intro connection other
    have some_accepted := base.some_accepted (by simp [place])
    exact hearing_elsewhere s (s.setReply thor toJane intact appended) rfl connection (by omega)
      (by simp [State.setReply,State.setHeard,other])
  toJane := ⟨sent,by simp [State.setReply,State.setHeard,State.heard,carried],part⟩
  verdicts := by simp [State.setReply,State.setHeard,State.heard]
  hearing := by
    have some_accepted := base.some_accepted (by simp [place])
    rw [State.hearing_here (s.setReply thor toJane intact appended) _ (by omega : s.accepted = s.accepted-1+1),
      show (s.setReply thor toJane intact appended).thor.place = thor.place from rfl]
    cases at_place : thor.place with
    | accept => exact .inl rfl
    | aborted => exact .inl rfl
    | handle payload => exact absurd at_place (gone payload)
    | receive receiver =>
      rw [tidy receiver at_place,start_holding]
      exact .inr (by simp [State.setReply,State.setHeard,State.heard,holding])
  base :=
    { order := base.order
      some_accepted := fun _ => base.some_accepted (by simp [place])
      tidy := fun receiver same => ⟨[],(tidy receiver same).trans start_holding⟩ }

theorem serverSend_replied (md5 : Bytes → Digest) (kept : Bytes → Bytes) (after : Thor.Place) (data : Bytes)
    (intact : Bool) (part : ∀ bytes, kept bytes <+: bytes) (next : after = .accept ∨ after = .receive .start)
    (checked : Thor.verify md5 s.segment payload = .ok (data,intact)) :
    Replied s (s.serverSend md5 payload kept after) payload data intact ∧
      ∀ fault, (s.serverSend md5 payload kept after).thor.place = .aborted fault → fault = .bounds := by
  have gone : ∀ payload, after ≠ .handle payload := by rcases next with rfl | rfl <;> simp
  have tidy : ∀ receiver, after = .receive receiver → receiver = .start := by
    rcases next with rfl | rfl
    · simp
    · exact fun receiver same => (Thor.Place.receive.inj same).symm
  have never : ∀ fault, after ≠ .aborted fault := by rcases next with rfl | rfl <;> simp
  have answered := Thor.serverSocketSend_answered md5 s.thor s.segment payload data intact checked
  unfold State.serverSend
  rw [checked]
  simp only
  generalize Thor.serverSocketSend md5 s.thor s.segment payload = result at *
  cases answered with
  | accepted thor sent output whole =>
    refine ⟨replied_of base place { thor with place := after } _ (kept sent) data true _ gone tidy output rfl rfl ?_,
      ?_⟩
    · exact fun short => (part sent).trans (whole short ▸ List.prefix_rfl)
    · exact fun fault same => absurd same (never fault)
  | stopped thor output =>
    refine ⟨replied_of base place { thor with place := .aborted .bounds } _ [] data true _ (by simp) (by simp)
      output rfl (List.append_nil _).symm (fun _ => List.nil_prefix),?_⟩
    exact fun fault same => (Thor.Place.aborted.inj same).symm
  | rejected =>
    refine ⟨replied_of base place { s.thor with place := after } _ (kept (framed Thor.REJECTION)) data false _ gone
      tidy rfl rfl rfl (fun _ => part _),?_⟩
    exact fun fault same => absurd same (never fault)

end Answers
end Calls
end Spsc.Session
