import Spsc.Wire.Strcpy

/-! Which streams make a receive loop return a text that is not the one between
two markers. Both markers are searched from the start of the buffer. -/
namespace Spsc.Wire
open Imperative Hash

/-- The text between the first start marker and the first end marker behind it. -/
def Between (received text : Bytes) : Prop :=
  ∃ start stop, Search.find START_MARKER received = some start ∧
    Search.find END_MARKER (received.drop (start+START_MARKER.length)) = some stop ∧
    text = (received.drop (start+START_MARKER.length)).take stop

theorem Between.contiguous {received text : Bytes} (between : Between received text) :
    START_MARKER ++ (text ++ END_MARKER) <:+: received ∧ ¬ END_MARKER <:+: text := by
  obtain ⟨start,stop,opened,closed,rfl⟩ := between
  obtain ⟨_,⟨behind,here⟩,_⟩ := (Search.find_eq_some _ _ _).mp opened
  have rest : received.drop (start+START_MARKER.length) = behind := by
    rw [← List.drop_drop,← here,List.drop_left]
  rw [rest] at closed ⊢
  obtain ⟨bound,⟨after,ends⟩,first⟩ := (Search.find_eq_some _ _ _).mp closed
  refine ⟨⟨received.take start,after,?_⟩,fun inside => ?_⟩
  · have split : behind.take stop ++ (END_MARKER ++ after) = behind := by rw [ends,List.take_append_drop]
    conv_rhs => rw [← List.take_append_drop start received,← here,← split]
    simp only [List.append_assoc]
  · obtain ⟨front,tail,whole⟩ := inside
    have size := congrArg List.length whole
    simp only [List.length_append,List.length_take] at size
    have positive : 0 < END_MARKER.length := by decide
    refine first front.length (by omega) ?_
    rw [← List.take_append_drop stop behind,← whole,List.append_assoc,List.append_assoc,List.drop_left]
    exact List.prefix_append _ _

theorem markers_apart (text : Bytes) (start stop : Nat) (opened : Search.find START_MARKER text = some start)
    (closed : Search.find END_MARKER text = some stop) : stop < start ∨ start+START_MARKER.length ≤ stop := by
  rcases Nat.lt_or_ge stop start with before | behind
  · exact .inl before
  · obtain ⟨_,⟨rest,here⟩,_⟩ := (Search.find_eq_some _ _ _).mp opened
    have later := Search.find_drop _ _ _ _ behind closed
    rw [← here,find_end_behind] at later
    obtain ⟨place,_,same⟩ := Option.map_eq_some_iff.mp later
    exact .inr (by omega)

/-- What a receive loop makes of a text in which the markers stand at `start` and `stop`. -/
def cutText (text : Bytes) (start stop : Nat) : Bytes :=
  let behind := text.drop (start+START_MARKER.length)
  if stop < start then behind else behind.take (stop-(start+START_MARKER.length))

theorem cutFrame_text (text zeros : Bytes) (start stop : Nat) (solid : 0 ∉ text)
    (opened : Search.find START_MARKER text = some start) (closed : Search.find END_MARKER text = some stop) :
    cutFrame memmove (text ++ 0::zeros) start stop = .ok (cutText text start stop) := by
  obtain ⟨_,here,_⟩ := (Search.find_eq_some _ _ _).mp opened
  obtain ⟨_,there,_⟩ := (Search.find_eq_some _ _ _).mp closed
  have room := here.length_le
  have room' := there.length_le
  have size : START_MARKER.length = 10 := rfl
  have size' : END_MARKER.length = 10 := rfl
  rw [List.length_drop] at room room'
  have inside : stop < (text ++ 0::zeros).length := by
    rw [List.length_append]
    omega
  have behind_solid : ∀ k, 0 ∉ text.drop k := fun k member => solid (List.mem_of_mem_drop member)
  rw [cutFrame_memmove,store_inside _ _ _ _ inside,List.set_append_left _ _ (by omega)]
  simp only [bind,Except.bind]
  rw [List.drop_append_of_le_length (by rw [List.length_set]; omega)]
  rcases markers_apart text start stop opened closed with before | behind
  · rw [cutText,if_pos before,List.drop_set,if_pos (by omega)]
    exact cString_terminated _ _ (behind_solid _)
  · have cut : (text.set stop 0).drop (start+START_MARKER.length) =
        (text.drop (start+START_MARKER.length)).take (stop-(start+START_MARKER.length)) ++
          0::text.drop (stop+1) := by
      rw [List.drop_set,if_neg (by omega),List.set_eq_take_append_cons_drop,
        if_pos (by rw [List.length_drop]; omega),List.drop_drop]
      congr 3
      omega
    rw [cutText,if_neg (by omega),cut,List.append_assoc]
    exact cString_terminated _ _ (fun member => behind_solid _ (List.mem_of_mem_take member))

section Stream
variable (checkDone : Bool)

theorem receive_scan (stored piece : Bytes) (some_piece : piece ≠ []) (solid : 0 ∉ stored ++ piece)
    (quiet : Search.find DONE_TRANS (stored ++ piece) = none) (short : (stored ++ piece).length < BIG_ENOUGH) :
    receive memmove checkDone (holding stored) piece =
      match Search.find START_MARKER (stored ++ piece),Search.find END_MARKER (stored ++ piece) with
      | some start,some stop => .ok (.frame (cutText (stored ++ piece) start stop))
      | _,_ => .ok (.again (holding (stored ++ piece))) := by
  have room := short
  rw [List.length_append] at room
  have not_done : ¬ (checkDone = true ∧ (Search.find DONE_TRANS (stored ++ piece)).isSome = true) := by
    rw [quiet]
    exact fun both => nomatch both.2
  rw [receive_text memmove checkDone stored piece (stored ++ piece) _ some_piece room.le solid
    (holding_buffer (stored ++ piece) short),scan,if_neg not_done]
  cases opened : Search.find START_MARKER (stored ++ piece) with
  | none => rfl
  | some start =>
    cases closed : Search.find END_MARKER (stored ++ piece) with
    | none => rfl
    | some stop =>
      simp only
      rw [cutFrame_text _ _ start stop solid opened closed]
      rfl

def HasMarkers (text : Bytes) : Prop :=
  (Search.find START_MARKER text).isSome ∧ (Search.find END_MARKER text).isSome

instance (text : Bytes) : Decidable (HasMarkers text) := inferInstanceAs (Decidable (_ ∧ _))

/-- A text on which a receive loop stops. -/
def Ends (checkDone : Bool) (text : Bytes) : Prop :=
  checkDone = true ∧ (Search.find DONE_TRANS text).isSome ∨ HasMarkers text

/-- One turn whose buffer has a NUL behind `text`, on which the loop does not stop. -/
theorem receive_goes_on (stored piece text zeros : Bytes) (some_piece : piece ≠ [])
    (room : stored.length + piece.length ≤ BIG_ENOUGH) (solid : 0 ∉ text)
    (shape : (holding (stored ++ piece)).buffer = text ++ 0::zeros) (going : ¬ Ends checkDone text) :
    receive memmove checkDone (holding stored) piece = .ok (.again (holding (stored ++ piece))) := by
  obtain ⟨not_done,waiting⟩ := not_or.mp going
  rw [receive_text memmove checkDone stored piece text zeros some_piece room solid shape,scan,if_neg not_done]
  unfold HasMarkers at waiting
  cases opened : Search.find START_MARKER text with
  | none => rfl
  | some start =>
    cases closed : Search.find END_MARKER text with
    | none => rfl
    | some stop =>
      rw [opened,closed] at waiting
      exact absurd ⟨rfl,rfl⟩ waiting

theorem receive_again_scan (stored piece : Bytes) (some_piece : piece ≠ []) (solid : 0 ∉ stored ++ piece)
    (quiet : Search.find DONE_TRANS (stored ++ piece) = none) (short : (stored ++ piece).length < BIG_ENOUGH)
    (waiting : ¬ HasMarkers (stored ++ piece)) :
    receive memmove checkDone (holding stored) piece = .ok (.again (holding (stored ++ piece))) := by
  have room := short
  rw [List.length_append] at room
  refine receive_goes_on checkDone stored piece (stored ++ piece) _ some_piece room.le solid
    (holding_buffer (stored ++ piece) short) (not_or.mpr ⟨?_,waiting⟩)
  rw [quiet]
  exact fun both => nomatch both.2

/-- The loop stops with the piece that completes the two markers. -/
theorem rcvLoop_scan (stored : Bytes) (pieces : List Bytes) (some_pieces : ∀ piece ∈ pieces, piece ≠ [])
    (solid : 0 ∉ stored ++ pieces.flatten) (quiet : Search.find DONE_TRANS (stored ++ pieces.flatten) = none)
    (short : (stored ++ pieces.flatten).length < BIG_ENOUGH) (waiting : ¬ HasMarkers stored) :
    (∃ used rest start stop, pieces = used ++ rest ∧
      Search.find START_MARKER (stored ++ used.flatten) = some start ∧
      Search.find END_MARKER (stored ++ used.flatten) = some stop ∧
      rcvLoop (receive memmove checkDone) (holding stored) pieces =
        .ok (.frame (cutText (stored ++ used.flatten) start stop),rest)) ∨
    (rcvLoop (receive memmove checkDone) (holding stored) pieces = .ok (.again (holding (stored ++ pieces.flatten)),[]) ∧
      ¬ HasMarkers (stored ++ pieces.flatten)) := by
  induction pieces generalizing stored with
  | nil => exact .inr ⟨by simp [rcvLoop],by simpa using waiting⟩
  | cons piece rest ih =>
    rw [List.flatten_cons,← List.append_assoc] at solid quiet short ⊢
    have early : stored ++ piece <+: stored ++ piece ++ rest.flatten := List.prefix_append _ _
    have some_piece := some_pieces piece List.mem_cons_self
    have solid' : 0 ∉ stored ++ piece := fun member => solid (early.subset member)
    have quiet' := Search.find_part _ _ _ early.isInfix quiet
    have short' := early.length_le.trans_lt short
    by_cases waits : HasMarkers (stored ++ piece)
    · obtain ⟨start,opened⟩ := Option.isSome_iff_exists.mp waits.1
      obtain ⟨stop,closed⟩ := Option.isSome_iff_exists.mp waits.2
      refine .inl ⟨[piece],rest,start,stop,rfl,by simpa using opened,by simpa using closed,?_⟩
      rw [rcvLoop,receive_scan checkDone stored piece some_piece solid' quiet' short',opened,closed]
      simp [bind,Except.bind]
    · rw [rcvLoop,receive_again_scan checkDone stored piece some_piece solid' quiet' short' waits]
      simp only [bind,Except.bind]
      rcases ih (stored ++ piece) (fun other member => some_pieces other (List.mem_cons_of_mem _ member)) solid quiet
        short waits with ⟨used,rest',start,stop,rfl,opened,closed,ran⟩ | ended
      · refine .inl ⟨piece::used,rest',start,stop,rfl,?_,?_,?_⟩
        all_goals rw [List.flatten_cons,← List.append_assoc]
        · exact opened
        · exact closed
        · exact ran
      · exact .inr ended

end Stream

/-- The loop goes through, and a text that it returns stands between the markers of what it received. -/
def AcceptsDelimited (turn : Receiver → Bytes → C Received) (pieces : List Bytes) : Prop :=
  ∃ result rest, rcvLoop turn .start pieces = .ok (result,rest) ∧ ∀ text, result = .frame text →
    ∃ used, pieces = used ++ rest ∧ Between used.flatten text ∧
      START_MARKER ++ (text ++ END_MARKER) <:+: used.flatten ∧ ¬ END_MARKER <:+: text

def MarkersInOrder (stream : Bytes) : Prop :=
  ∀ start stop, Search.find START_MARKER stream = some start → Search.find END_MARKER stream = some stop → start < stop

theorem between_cutText (received : Bytes) (start stop : Nat) (opened : Search.find START_MARKER received = some start)
    (closed : Search.find END_MARKER received = some stop) :
    Between received (cutText received start stop) ↔ start < stop := by
  have apart := markers_apart received start stop opened closed
  have size : START_MARKER.length = 10 := rfl
  have size' : END_MARKER.length = 10 := rfl
  constructor
  · rintro ⟨start',place,opened',closed',same⟩
    obtain rfl := Option.some.inj (opened'.symm.trans opened)
    by_contra before
    -- the whole rest was taken, and no end marker can be behind it
    rw [cutText,if_pos (by omega)] at same
    obtain ⟨_,ends,_⟩ := (Search.find_eq_some _ _ _).mp closed'
    have room := ends.length_le
    have whole := congrArg List.length same
    simp only [List.length_drop,List.length_take] at room whole
    omega
  · intro before
    refine ⟨start,stop-(start+START_MARKER.length),opened,?_,by rw [cutText,if_neg (by omega)]⟩
    exact Search.find_drop _ _ _ _ (by omega) closed

theorem acceptsDelimited_iff (checkDone : Bool) (pieces : List Bytes) (some_pieces : ∀ piece ∈ pieces, piece ≠ [])
    (solid : 0 ∉ pieces.flatten) (quiet : Search.find DONE_TRANS pieces.flatten = none)
    (short : pieces.flatten.length < BIG_ENOUGH) :
    AcceptsDelimited (receive memmove checkDone) pieces ↔ MarkersInOrder pieces.flatten := by
  have scanned := rcvLoop_scan checkDone [] pieces some_pieces solid quiet short (by decide)
  rw [← start_holding] at scanned
  simp only [List.nil_append] at scanned
  rcases scanned with ⟨used,rest,start,stop,rfl,opened,closed,ran⟩ | ⟨ran,waits⟩
  · have early : used.flatten <+: (used ++ rest).flatten := by
      rw [List.flatten_append]
      exact List.prefix_append _ _
    have opened' := Search.find_grown _ _ _ _ early opened
    have closed' := Search.find_grown _ _ _ _ early closed
    constructor
    · rintro ⟨result,rest',returned,delimited⟩ start' stop' first last
      obtain rfl := Option.some.inj (first.symm.trans opened')
      obtain rfl := Option.some.inj (last.symm.trans closed')
      obtain ⟨rfl,rfl⟩ := Prod.mk.inj (Except.ok.inj (returned.symm.trans ran))
      obtain ⟨used',parts,between,_⟩ := delimited _ rfl
      obtain rfl := List.append_cancel_right parts
      exact (between_cutText _ _ _ opened closed).mp between
    · intro order
      refine ⟨_,rest,ran,fun text same => ?_⟩
      obtain rfl := Received.frame.inj same
      have between := (between_cutText _ _ _ opened closed).mpr (order _ _ opened' closed')
      exact ⟨used,rfl,between,between.contiguous⟩
  · refine iff_of_true ⟨_,[],ran,fun text same => ?_⟩ (fun start stop opened closed => ?_)
    · cases same
    · exact absurd ⟨by rw [opened]; rfl,by rw [closed]; rfl⟩ waits

theorem Between.unique {received text other : Bytes} (between : Between received text) (also : Between received other) :
    text = other := by
  obtain ⟨start,stop,opened,closed,rfl⟩ := between
  obtain ⟨start',stop',opened',closed',rfl⟩ := also
  obtain rfl := Option.some.inj (opened.symm.trans opened')
  obtain rfl := Option.some.inj (closed.symm.trans closed')
  rfl

/-- Two copies after which the loop accepts the same text are the same. -/
theorem accepts_moves (strcpy : StrCpy) (checkDone : Bool) (pieces : List Bytes)
    (accepts : AcceptsDelimited (receive strcpy checkDone) pieces)
    (moved : AcceptsDelimited (receive memmove checkDone) pieces) : LoopMoves strcpy checkDone pieces := by
  rintro ⟨buffer,t⟩ copied
  obtain ⟨rest,returns⟩ := rcvLoop_copied checkDone .start pieces buffer t copied
  obtain ⟨result,rest₁,ran,delimited⟩ := accepts
  obtain ⟨result',rest₂,ran',delimited'⟩ := moved
  rw [returns] at ran ran'
  rw [memmove_moves] at ran'
  unfold Moves
  cases left : strcpy buffer t >>= cString with
  | error fault =>
    rw [left] at ran
    cases ran
  | ok text =>
    cases read : cString (buffer.drop t) with
    | error fault =>
      rw [read] at ran'
      cases ran'
    | ok text' =>
      rw [left] at ran
      rw [read] at ran'
      obtain ⟨rfl,rfl⟩ := Prod.mk.inj (Except.ok.inj ran)
      obtain ⟨rfl,rfl⟩ := Prod.mk.inj (Except.ok.inj ran')
      obtain ⟨used,parts,between,_⟩ := delimited text rfl
      obtain ⟨used',parts',between',_⟩ := delimited' text' rfl
      obtain rfl := List.append_cancel_right (parts.symm.trans parts')
      rw [between.unique between']

theorem accepts_exact (strcpy : StrCpy) (checkDone : Bool) (pieces : List Bytes)
    (some_pieces : ∀ piece ∈ pieces, piece ≠ []) (solid : 0 ∉ pieces.flatten)
    (quiet : Search.find DONE_TRANS pieces.flatten = none) (short : pieces.flatten.length < BIG_ENOUGH)
    (either : MarkersInOrder pieces.flatten ∨ LoopMoves strcpy checkDone pieces) :
    AcceptsDelimited (receive strcpy checkDone) pieces ↔
      MarkersInOrder pieces.flatten ∧ LoopMoves strcpy checkDone pieces := by
  have exact := acceptsDelimited_iff checkDone pieces some_pieces solid quiet short
  have same : LoopMoves strcpy checkDone pieces →
      (AcceptsDelimited (receive strcpy checkDone) pieces ↔ MarkersInOrder pieces.flatten) := by
    intro moves
    rw [← exact]
    unfold AcceptsDelimited
    rw [loopMoves_same strcpy checkDone pieces moves]
  refine ⟨fun accepts => ?_,fun both => (same both.2).mpr both.1⟩
  rcases either with order | moves
  · exact ⟨order,accepts_moves strcpy checkDone pieces accepts (exact.mpr order)⟩
  · exact ⟨(same moves).mp accepts,moves⟩

/-- Both loops return the text between the markers exactly when the stream's first end marker is behind
its first start marker and the `strcpy` acts as a move, unless neither is the case. -/
theorem frame_delimited (strcpy : StrCpy) (pieces : List Bytes) (some_pieces : ∀ piece ∈ pieces, piece ≠ [])
    (solid : 0 ∉ pieces.flatten) (quiet : Search.find DONE_TRANS pieces.flatten = none)
    (short : pieces.flatten.length < BIG_ENOUGH) :
    (MarkersInOrder pieces.flatten ∨ LoopMoves strcpy true pieces →
      (AcceptsDelimited (serverSocketRcv strcpy) pieces ↔
        MarkersInOrder pieces.flatten ∧ LoopMoves strcpy true pieces)) ∧
    (MarkersInOrder pieces.flatten ∨ LoopMoves strcpy false pieces →
      (AcceptsDelimited (clientSocketRcv strcpy) pieces ↔
        MarkersInOrder pieces.flatten ∧ LoopMoves strcpy false pieces)) :=
  ⟨accepts_exact strcpy true pieces some_pieces solid quiet short,
    accepts_exact strcpy false pieces some_pieces solid quiet short⟩

theorem frame_delimited_split : AcceptsDelimited (serverSocketRcv memmove) [START_MARKER ++ [65],END_MARKER] := by
  have order : MarkersInOrder [START_MARKER ++ [65],END_MARKER].flatten := by
    intro start stop opened closed
    obtain rfl : start = 0 := Option.some.inj (opened.symm.trans (by decide))
    obtain rfl : stop = 11 := Option.some.inj (closed.symm.trans (by decide))
    decide
  exact ((frame_delimited memmove [START_MARKER ++ [65],END_MARKER] (by decide) (by decide) (by decide) (by decide)).1
    (.inl order)).mpr ⟨order,fun call _ => memmove_moves call.1 call.2⟩

/-- An end marker comes before the frame: the text returned goes on to the second one and past it. And a
frame of 41 bytes does not survive a copy by vectors. -/
theorem frame_not_delimited :
    rcvLoop (serverSocketRcv memmove) .start [END_MARKER ++ (START_MARKER ++ (65::END_MARKER))] =
      .ok (.frame (65::END_MARKER),[]) ∧
    ¬ AcceptsDelimited (serverSocketRcv memmove) [END_MARKER ++ (START_MARKER ++ (65::END_MARKER))] ∧
    ¬ AcceptsDelimited (clientSocketRcv memmove) [END_MARKER ++ (START_MARKER ++ (65::END_MARKER))] ∧
    CopiesApart vectorStrcpy ∧ ∃ text : Bytes, START_MARKER ++ (text ++ END_MARKER) = framed text ∧
      ¬ AcceptsDelimited (serverSocketRcv vectorStrcpy) [framed text] ∧
      ¬ AcceptsDelimited (clientSocketRcv vectorStrcpy) [framed text] := by
  have server : rcvLoop (serverSocketRcv memmove) .start [END_MARKER ++ (START_MARKER ++ (65::END_MARKER))] =
      .ok (.frame (65::END_MARKER),[]) := by decide +kernel
  have client : rcvLoop (clientSocketRcv memmove) .start [END_MARKER ++ (START_MARKER ++ (65::END_MARKER))] =
      .ok (.frame (65::END_MARKER),[]) := by decide +kernel
  have past : ∀ turn, rcvLoop turn .start [END_MARKER ++ (START_MARKER ++ (65::END_MARKER))] =
      .ok (.frame (65::END_MARKER),[]) →
      ¬ AcceptsDelimited turn [END_MARKER ++ (START_MARKER ++ (65::END_MARKER))] := by
    rintro turn ran ⟨_,_,returned,delimited⟩
    obtain ⟨rfl,rfl⟩ := Prod.mk.inj (Except.ok.inj (returned.symm.trans ran))
    obtain ⟨_,_,_,_,closed⟩ := delimited _ rfl
    exact closed (List.suffix_cons _ _).isInfix
  let text : Bytes := (List.range 41).map (fun i => (65+i).toUInt8)
  let left : Bytes := text.take 10 ++ ((text.drop 20).take 12 ++ text.drop 22)
  have server' : rcvLoop (serverSocketRcv vectorStrcpy) .start [framed text] = .ok (.frame left,[]) := by decide +kernel
  have client' : rcvLoop (clientSocketRcv vectorStrcpy) .start [framed text] = .ok (.frame left,[]) := by decide +kernel
  have other : ∀ turn, rcvLoop turn .start [framed text] = .ok (.frame left,[]) → ¬ AcceptsDelimited turn [framed text] := by
    rintro turn ran ⟨_,_,returned,delimited⟩
    obtain ⟨rfl,rfl⟩ := Prod.mk.inj (Except.ok.inj (returned.symm.trans ran))
    obtain ⟨used,parts,_,⟨front,behind,whole⟩,_⟩ := delimited _ rfl
    rw [List.append_nil] at parts
    have size := congrArg List.length whole
    have long : (START_MARKER ++ (left ++ END_MARKER)).length = [framed text].flatten.length := by decide +kernel
    rw [← parts] at size whole
    rw [List.length_append,List.length_append,long] at size
    obtain rfl : front = [] := List.eq_nil_of_length_eq_zero (by omega)
    obtain rfl : behind = [] := List.eq_nil_of_length_eq_zero (by omega)
    exact absurd whole (by decide +kernel)
  exact ⟨server,past _ server,past _ client,vectorStrcpy_copiesApart,text,rfl,other _ server',other _ client'⟩

end Spsc.Wire
