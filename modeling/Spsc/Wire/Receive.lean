import Spsc.Wire

/-! A receive loop that is fed one framed payload, cut anywhere, goes on until
the last piece and then has the payload. -/
namespace Spsc.Wire
open Imperative Hash

def holding (stored : Bytes) : Receiver :=
  ⟨stored ++ List.replicate (BIG_ENOUGH-stored.length) 0,stored.length,BIG_ENOUGH-stored.length⟩

theorem start_holding : Receiver.start = holding [] := rfl

def scan (checkDone : Bool) (text : Bytes) (next : Received) (cut : Nat → Nat → C Received) : C Received :=
  if checkDone ∧ (Search.find DONE_TRANS text).isSome then .ok .failed else
  match Search.find START_MARKER text,Search.find END_MARKER text with
  | some start,some stop => cut start stop
  | _,_ => .ok next

theorem holding_buffer (text : Bytes) (room : text.length < BIG_ENOUGH) :
    (holding text).buffer = text ++ 0::List.replicate (BIG_ENOUGH-text.length-1) 0 := by
  rw [← List.replicate_succ]
  simp only [holding]
  congr 2
  omega

theorem holding_fill (stored piece : Bytes) :
    (⟨(holding stored).buffer.take stored.length ++ piece ++
        (holding stored).buffer.drop (stored.length+piece.length),
      stored.length+piece.length,BIG_ENOUGH-stored.length-piece.length⟩ : Receiver) = holding (stored ++ piece) := by
  simp only [holding,List.length_append,Receiver.mk.injEq,true_and]
  refine ⟨?_,by omega⟩
  rw [List.take_left,List.drop_length_add_append,List.drop_replicate]
  congr 2
  omega

theorem store_cases (buffer : Bytes) (index : Nat) (value : Byte) :
    (∃ next, store Fault.bounds buffer index value = .ok next) ∨
      store Fault.bounds buffer index value = .error .bounds := by
  unfold store
  split
  · exact .inl ⟨_,rfl⟩
  · exact .inr rfl

theorem strstr_cases (buffer needle : Bytes) :
    (∃ place, strstr buffer needle = .ok place) ∨ strstr buffer needle = .error .bounds := by
  unfold strstr cString
  split
  · exact .inl ⟨_,rfl⟩
  · exact .inr rfl

theorem memmove_moves (buffer : Bytes) (t : Nat) : Moves memmove buffer t := by
  unfold Moves memmove cString
  by_cases inside : 0 ∈ buffer.drop t
  · have solid : 0 ∉ (buffer.drop t).takeWhile (fun byte => byte != 0) :=
      fun member => absurd (List.mem_takeWhile_imp member) (by simp)
    simp only [if_pos inside,bind,Except.bind]
    exact cString_terminated _ _ solid
  · simp only [if_neg inside,bind,Except.bind]

theorem memmove_copiesApart : CopiesApart memmove := by
  intro buffer t text read _
  unfold memmove
  rw [read]
  rfl

/-- What one turn can come to, whatever is in the buffer. -/
inductive Turn (receiver : Receiver) (piece : Bytes) : C Turned → Prop
  | failed : Turn receiver piece (.ok .failed)
  | again : Turn receiver piece (.ok (.again ⟨receiver.buffer.take receiver.pbuffer ++ piece ++
      receiver.buffer.drop (receiver.pbuffer+piece.length),receiver.pbuffer+piece.length,
      receiver.maxlen-piece.length⟩))
  | copy (buffer : Bytes) (t : Nat) : Turn receiver piece (.ok (.copy buffer t))
  | fault : Turn receiver piece (.error .bounds)

theorem Turn.bind {α : Type} {receiver : Receiver} {piece : Bytes} {first : C α} {rest : α → C Turned}
    (ran : (∃ a, first = .ok a) ∨ first = .error .bounds) (turns : ∀ a, Turn receiver piece (rest a)) :
    Turn receiver piece (first >>= rest) := by
  rcases ran with ⟨a,rfl⟩ | rfl
  · exact turns a
  · exact .fault

theorem Turn.tested {receiver : Receiver} {piece buffer : Bytes} {rest : Option Nat → C Turned}
    (checkDone : Bool) (turns : ∀ done, Turn receiver piece (rest done)) :
    Turn receiver piece (if checkDone then strstr buffer DONE_TRANS >>= rest else .ok none >>= rest) := by
  cases checkDone with
  | true => exact .bind (strstr_cases buffer DONE_TRANS) turns
  | false => exact turns none

theorem recvTurn_turn (checkDone : Bool) (receiver : Receiver) (piece : Bytes) :
    Turn receiver (piece.take receiver.maxlen) (recvTurn checkDone receiver piece) := by
  obtain ⟨buffer,pbuffer,maxlen⟩ := receiver
  unfold recvTurn
  simp only
  generalize piece.take maxlen = taken
  split
  · exact .failed
  refine .tested checkDone fun done => ?_
  split
  · exact .failed
  refine .bind (strstr_cases _ START_MARKER) fun start => ?_
  cases start with
  | none => exact .again
  | some start =>
    refine .bind (strstr_cases _ END_MARKER) fun stop => ?_
    cases stop with
    | none => exact .again
    | some stop => exact .bind (store_cases _ stop 0) fun cut => .copy cut _

section Copy
variable {strcpy : StrCpy} {checkDone : Bool} {receiver next : Receiver} {piece : Bytes}

theorem receive_of_error {fault : Fault} (turned : recvTurn checkDone receiver piece = .error fault) :
    receive strcpy checkDone receiver piece = .error fault := by
  rw [receive,turned]
  rfl

theorem receive_of_failed (turned : recvTurn checkDone receiver piece = .ok .failed) :
    receive strcpy checkDone receiver piece = .ok .failed := by
  rw [receive,turned]
  rfl

theorem receive_of_again (turned : recvTurn checkDone receiver piece = .ok (.again next)) :
    receive strcpy checkDone receiver piece = .ok (.again next) := by
  rw [receive,turned]
  rfl

theorem receive_of_copy {buffer : Bytes} {t : Nat} (turned : recvTurn checkDone receiver piece = .ok (.copy buffer t)) :
    receive strcpy checkDone receiver piece = Received.frame <$> (strcpy buffer t >>= cString) := by
  rw [receive,turned]
  rfl

/-- A turn that goes on does so whatever the copy would do. -/
theorem recvTurn_of_again (ran : receive strcpy checkDone receiver piece = .ok (.again next)) :
    recvTurn checkDone receiver piece = .ok (.again next) := by
  obtain ⟨turned,turn,rest⟩ := bind_ok _ _ _ ran
  cases turned with
  | again receiver =>
    obtain rfl := Received.again.inj (Except.ok.inj rest)
    exact turn
  | failed => cases rest
  | copy buffer t =>
    obtain ⟨text,_,last⟩ := bind_ok _ _ _ rest
    cases last

end Copy

theorem receive_fault (checkDone : Bool) (receiver : Receiver) (piece : Bytes) (fault : Fault)
    (ran : receive memmove checkDone receiver piece = .error fault) : fault = .bounds := by
  have turn := recvTurn_turn checkDone receiver piece
  cases turned : recvTurn checkDone receiver piece with
  | error other =>
    rw [turned] at turn
    cases turn
    exact (Except.error.inj ((receive_of_error turned).symm.trans ran)).symm
  | ok turned' =>
    cases turned' with
    | again next => cases (receive_of_again turned).symm.trans ran
    | failed => cases (receive_of_failed turned).symm.trans ran
    | copy buffer t =>
      have copied := (receive_of_copy turned).symm.trans ran
      rw [memmove_moves] at copied
      unfold cString at copied
      split at copied
      · cases copied
      · exact (Except.error.inj copied).symm

section Strcpy
variable (strcpy : StrCpy)

theorem receive_nil (checkDone : Bool) (receiver : Receiver) : receive strcpy checkDone receiver [] = .ok .failed :=
  receive_of_failed (by simp [recvTurn])

theorem receive_again (checkDone : Bool) (stored piece : Bytes) (receiver : Receiver)
    (ran : receive strcpy checkDone (holding stored) piece = .ok (.again receiver)) :
    receiver = holding (stored ++ piece.take (BIG_ENOUGH-stored.length)) := by
  have turn := recvTurn_turn checkDone (holding stored) piece
  rw [recvTurn_of_again ran] at turn
  cases turn
  exact holding_fill _ _

/-- The end of a receive loop, on a buffer in which the markers stand at `start` and `stop`. -/
def cutFrame (buffer : Bytes) (start stop : Nat) : C Bytes := do
  let buffer ← store .bounds buffer stop 0
  strcpy buffer (start+START_MARKER.length) >>= cString

/-- One turn depends on the text before the first NUL. -/
theorem recvTurn_text (checkDone : Bool) (stored piece text zeros : Bytes) (some_piece : piece ≠ [])
    (room : stored.length + piece.length ≤ BIG_ENOUGH) (solid : 0 ∉ text)
    (shape : (holding (stored ++ piece)).buffer = text ++ 0::zeros) :
    recvTurn checkDone (holding stored) piece =
      if checkDone ∧ (Search.find DONE_TRANS text).isSome then .ok .failed else
      match Search.find START_MARKER text,Search.find END_MARKER text with
      | some start,some stop => do
        .ok (.copy (← store .bounds (text ++ 0::zeros) stop 0) (start+START_MARKER.length))
      | _,_ => .ok (.again (holding (stored ++ piece))) := by
  have whole : piece.take (BIG_ENOUGH-stored.length) = piece := List.take_of_length_le (by omega)
  have fill := holding_fill stored piece
  have filled : (stored ++ List.replicate (BIG_ENOUGH-stored.length) (0 : Byte)).take stored.length ++ piece ++
      (stored ++ List.replicate (BIG_ENOUGH-stored.length) (0 : Byte)).drop (stored.length+piece.length) =
      (holding (stored ++ piece)).buffer := congrArg Receiver.buffer fill
  have next : (⟨(holding (stored ++ piece)).buffer,stored.length+piece.length,
      BIG_ENOUGH-stored.length-piece.length⟩ : Receiver) = holding (stored ++ piece) := by
    rw [← filled]
    exact fill
  unfold recvTurn
  simp only [holding,whole,if_neg some_piece]
  rw [filled,next,shape]
  simp only [strstr_terminated _ _ _ solid,bind,Except.bind]
  cases checkDone with
  | true =>
    simp only [if_true,true_and]
    split
    · rfl
    · cases Search.find START_MARKER text <;> cases Search.find END_MARKER text <;> rfl
  | false => cases Search.find START_MARKER text <;> cases Search.find END_MARKER text <;> rfl

theorem receive_text (checkDone : Bool) (stored piece text zeros : Bytes) (some_piece : piece ≠ [])
    (room : stored.length + piece.length ≤ BIG_ENOUGH) (solid : 0 ∉ text)
    (shape : (holding (stored ++ piece)).buffer = text ++ 0::zeros) :
    receive strcpy checkDone (holding stored) piece =
      scan checkDone text (.again (holding (stored ++ piece))) (fun start stop => do
        .ok (.frame (← cutFrame strcpy (text ++ 0::zeros) start stop))) := by
  rw [receive,recvTurn_text checkDone stored piece text zeros some_piece room solid shape,scan]
  split
  · rfl
  cases Search.find START_MARKER text with
  | none => rfl
  | some start =>
    cases Search.find END_MARKER text with
    | none => rfl
    | some stop =>
      simp only [cutFrame]
      cases store Fault.bounds (text ++ 0::zeros) stop 0 <;> rfl

/-- What Jane sends behind her last frame never becomes one. -/
theorem receive_done (stored piece : Bytes) (some_piece : piece ≠ [])
    (inside : stored ++ piece <+: DONE_TRANS ++ [0]) :
    receive strcpy true (holding stored) piece = .ok .failed ∨
      receive strcpy true (holding stored) piece = .ok (.again (holding (stored ++ piece))) := by
  have size := inside.length_le
  have whole : (DONE_TRANS ++ [(0 : Byte)]).length = 7 := rfl
  rw [whole,List.length_append] at size
  have room : stored.length+piece.length ≤ BIG_ENOUGH := size.trans (by decide)
  have no_start : ∀ text, text <+: DONE_TRANS → Search.find START_MARKER text = none := by
    intro text early
    refine Search.find_not_mem _ _ (char '<') (by decide) (fun member => ?_)
    exact absurd (early.subset member) (by decide)
  have turn : ∀ text zeros, text <+: DONE_TRANS → (holding (stored ++ piece)).buffer = text ++ 0::zeros →
      receive strcpy true (holding stored) piece = .ok .failed ∨
        receive strcpy true (holding stored) piece = .ok (.again (holding (stored ++ piece))) := by
    intro text zeros early shape
    have solid : 0 ∉ text := fun member => absurd (early.subset member) (by decide)
    rw [receive_text strcpy true stored piece text zeros some_piece room solid shape,scan,no_start text early]
    split
    · exact .inl rfl
    · exact .inr rfl
  have left : 7 < BIG_ENOUGH := by decide
  have filled := holding_buffer (stored ++ piece) (by rw [List.length_append]; omega)
  rcases List.prefix_concat_iff.mp inside with all | early
  · rw [all,List.append_assoc,← all] at filled
    exact turn DONE_TRANS _ List.prefix_rfl filled
  · exact turn _ _ early filled

end Strcpy

theorem cutFrame_memmove (buffer : Bytes) (start stop : Nat) : cutFrame memmove buffer start stop = (do
    let buffer ← store .bounds buffer stop 0
    cString (buffer.drop (start+START_MARKER.length))) := by
  have moves : ∀ cut t, (memmove cut t >>= cString) = cString (cut.drop t) := memmove_moves
  simp only [cutFrame,moves]

def framed (payload : Bytes) : Bytes := START_MARKER ++ (payload ++ END_MARKER)

/-- A payload that the markers around it delimit, whatever it is made of. -/
structure Framable (payload : Bytes) : Prop where
  solid : 0 ∉ payload
  closed : Search.find END_MARKER (START_MARKER ++ (payload ++ END_MARKER.dropLast)) = none
  short : payload.length + 20 < BIG_ENOUGH

theorem framed_length (payload : Bytes) : (framed payload).length = payload.length + 20 := by
  simp [framed,START_MARKER,END_MARKER,ascii]

theorem framed_ne_nil (payload : Bytes) : framed payload ≠ [] := by
  have size := framed_length payload
  exact List.ne_nil_of_length_pos (by omega)

theorem framed_solid (payload : Bytes) (framable : Framable payload) : 0 ∉ framed payload := by
  simp only [framed,List.mem_append,not_or]
  exact ⟨by decide,framable.solid,by decide⟩

/-- No end marker begins inside a marker that goes on with another character. -/
theorem find_end_past (second : Byte) (others rest : Bytes) (different : second ≠ char 'D')
    (outside : char '<' ∉ second::others) : Search.find END_MARKER (char '<'::(second::others ++ rest)) =
      (Search.find END_MARKER rest).map (fun i => i+(others.length+2)) := by
  have other : ¬ END_MARKER <+: char '<'::(second::others ++ rest) := by
    intro start
    have next : char 'D'::END_MARKER.tail.tail <+: second::(others ++ rest) := (List.cons_prefix_cons.mp start).2
    exact different (List.cons_prefix_cons.mp next).1.symm
  have skip := Search.find_skip (char '<') END_MARKER.tail (second::others) rest outside
  rw [show char '<'::END_MARKER.tail = END_MARKER from rfl] at skip
  rw [Search.find_step _ _ _ other,skip,Option.map_map]
  rfl

theorem find_end_behind (rest : Bytes) : Search.find END_MARKER (START_MARKER ++ rest) =
    (Search.find END_MARKER rest).map (fun i => i+START_MARKER.length) :=
  find_end_past (char 'C') START_MARKER.tail.tail rest (by decide) (by decide)

theorem framable_of_not_mem (payload : Bytes) (solid : 0 ∉ payload) (outside : char '<' ∉ payload)
    (short : payload.length + 20 < BIG_ENOUGH) : Framable payload where
  solid := solid
  short := short
  closed := by
    have needle : END_MARKER = char '<'::END_MARKER.tail := rfl
    rw [find_end_behind,needle,Search.find_skip _ _ _ _ outside]
    rfl

section Pieces
variable (checkDone : Bool) (payload : Bytes) (framable : Framable payload)
  (quiet : checkDone = true → Search.find DONE_TRANS (framed payload) = none)
include framable quiet

theorem receive_more (stored piece rest : Bytes) (some_piece : piece ≠ []) (some_rest : rest ≠ [])
    (cut : stored ++ piece ++ rest = framed payload) :
    receive memmove checkDone (holding stored) piece = .ok (.again (holding (stored ++ piece))) := by
  have size := framed_length payload
  have short := framable.short
  have total := congrArg List.length cut
  simp only [List.length_append] at total
  have positive : 0 < rest.length := List.length_pos_of_ne_nil some_rest
  have inside : stored ++ piece <+: framed payload := cut ▸ List.prefix_append _ _
  have solid : 0 ∉ stored ++ piece := fun member => framed_solid payload framable (inside.subset member)
  have shape := holding_buffer (stored ++ piece) (by rw [List.length_append]; omega)
  have before : stored ++ piece <+: START_MARKER ++ (payload ++ END_MARKER.dropLast) := by
    have whole : START_MARKER ++ (payload ++ END_MARKER.dropLast) <+: framed payload :=
      (List.prefix_append_right_inj _).mpr ((List.prefix_append_right_inj _).mpr (List.dropLast_prefix _))
    apply List.prefix_of_prefix_length_le inside whole
    simp [START_MARKER,END_MARKER,ascii]
    omega
  have open_end := Search.find_part END_MARKER _ _ before.isInfix framable.closed
  have not_done : ¬ (checkDone = true ∧ (Search.find DONE_TRANS (stored ++ piece)).isSome = true) := by
    rintro ⟨check,found⟩
    rw [Search.find_part _ _ _ inside.isInfix (quiet check)] at found
    cases found
  rw [receive_text memmove checkDone stored piece _ _ some_piece (by omega) solid shape,scan,if_neg not_done,open_end]
  cases Search.find START_MARKER (stored ++ piece) <;> rfl

theorem receive_last (stored piece : Bytes) (some_piece : piece ≠ []) (cut : stored ++ piece = framed payload) :
    receive memmove checkDone (holding stored) piece = .ok (.frame payload) := by
  have size := framed_length payload
  have short := framable.short
  have total := congrArg List.length cut
  simp only [List.length_append] at total
  have solid := framed_solid payload framable
  have shape : (holding (stored ++ piece)).buffer =
      framed payload ++ 0::List.replicate (BIG_ENOUGH-(framed payload).length-1) 0 := by
    rw [cut]
    exact holding_buffer (framed payload) (by omega)
  have not_done : ¬ (checkDone = true ∧ (Search.find DONE_TRANS (framed payload)).isSome = true) := by
    rintro ⟨check,found⟩
    rw [quiet check] at found
    cases found
  have start : Search.find START_MARKER (framed payload) = some 0 :=
    Search.find_front _ _ (List.prefix_append _ _)
  have stop : Search.find END_MARKER (framed payload) = some (START_MARKER ++ payload).length := by
    have closed := framable.closed
    rw [← List.append_assoc] at closed
    have complete := Search.find_complete END_MARKER (START_MARKER ++ payload) [] (by decide) closed
    rwa [List.append_nil,List.append_assoc] at complete
  rw [receive_text memmove checkDone stored piece _ _ some_piece (by omega) solid shape,scan,if_neg not_done,start,stop]
  have cutText : ∀ zeros, cutFrame memmove (framed payload ++ 0::zeros) 0 (START_MARKER ++ payload).length =
      .ok payload := by
    intro zeros
    have rest : framed payload ++ 0::zeros =
        (START_MARKER ++ payload) ++ char '<'::(END_MARKER.tail ++ 0::zeros) := by
      simp [framed]
      rfl
    rw [cutFrame_memmove,rest,store_middle _ _ _ _ _ _ rfl]
    simp only [bind,Except.bind,Nat.zero_add]
    rw [List.append_assoc,List.drop_left,cString_terminated _ _ framable.solid]
  simp only [cutText]
  rfl

/-- Any cut into non-empty pieces: the loop returns with the last one, and not before. -/
theorem rcvLoop_frame (stored : Bytes) (pieces : List Bytes) (some_pieces : ∀ piece ∈ pieces, piece ≠ [])
    (some_piece : pieces ≠ []) (cut : stored ++ pieces.flatten = framed payload) :
    rcvLoop (receive memmove checkDone) (holding stored) pieces = .ok (.frame payload,[]) := by
  induction pieces generalizing stored with
  | nil => exact absurd rfl some_piece
  | cons piece rest ih =>
    have here := some_pieces piece List.mem_cons_self
    rw [List.flatten_cons] at cut
    cases rest with
    | nil =>
      rw [List.flatten_nil,List.append_nil] at cut
      rw [rcvLoop,receive_last checkDone payload framable quiet stored piece here cut]
      rfl
    | cons next rest =>
      have more : (next::rest).flatten ≠ [] := by
        rw [List.flatten_cons]
        exact List.append_ne_nil_of_left_ne_nil (some_pieces next (by simp)) _
      rw [← List.append_assoc] at cut
      rw [rcvLoop,receive_more checkDone payload framable quiet stored piece _ here more cut]
      exact ih (stored ++ piece) (fun other member => some_pieces other (by simp [member])) (by simp) cut

theorem rcvLoop_start (pieces : List Bytes) (some_pieces : ∀ piece ∈ pieces, piece ≠ [])
    (cut : pieces.flatten = framed payload) :
    rcvLoop (receive memmove checkDone) .start pieces = .ok (.frame payload,[]) := by
  rw [start_holding]
  refine rcvLoop_frame checkDone payload framable quiet [] pieces some_pieces ?_ (by rw [List.nil_append,cut])
  rintro rfl
  exact framed_ne_nil payload cut.symm

theorem rcvLoop_waits (stored rest : Bytes) (pieces : List Bytes) (some_pieces : ∀ piece ∈ pieces, piece ≠ [])
    (some_rest : rest ≠ []) (cut : stored ++ pieces.flatten ++ rest = framed payload) :
    rcvLoop (receive memmove checkDone) (holding stored) pieces =
      .ok (.again (holding (stored ++ pieces.flatten)),[]) := by
  induction pieces generalizing stored with
  | nil => simp [rcvLoop]
  | cons piece pieces ih =>
    rw [List.flatten_cons,← List.append_assoc] at cut ⊢
    have more : pieces.flatten ++ rest ≠ [] := List.append_ne_nil_of_right_ne_nil _ some_rest
    rw [rcvLoop,receive_more checkDone payload framable quiet stored piece _
      (some_pieces piece List.mem_cons_self) more (by rw [← List.append_assoc,cut])]
    exact ih (stored ++ piece) (fun other member => some_pieces other (by simp [member])) cut

end Pieces
end Spsc.Wire
