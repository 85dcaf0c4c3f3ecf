import Spsc.Wire.Delimited

/-! How long a receive loop goes on, and when it reads past its buffer: no place of the buffer
is kept for a NUL behind what `recv` stores. -/
namespace Spsc.Wire
open Imperative Hash

/-- The loop ends within one call more than the buffer has bytes, what it stores fits, and every
`strstr` and the copy at the end find a NUL in the buffer. -/
structure StaysBounded (turn : Receiver → Bytes → C Received) (pieces : List Bytes) : Prop where
  returns : ∃ result rest, rcvLoop turn .start pieces = .ok (result,rest) ∧
    pieces.length ≤ rest.length + (BIG_ENOUGH+1)
  fits : ∀ front receiver rest, front <+: pieces → rcvLoop turn .start front = .ok (.again receiver,rest) →
    front.length ≤ BIG_ENOUGH ∧ receiver.pbuffer + receiver.maxlen = BIG_ENOUGH ∧
      receiver.buffer.length = BIG_ENOUGH

/-- One piece fills the buffer of a loop that has not stopped, and no stored byte is NUL. -/
def Fills (checkDone : Bool) (stored : Bytes) (pieces : List Bytes) : Prop :=
  ∃ used piece rest, pieces = used ++ piece::rest ∧ [] ∉ used ∧ ¬ Ends checkDone (stored ++ used.flatten) ∧
    (stored ++ used.flatten).length < BIG_ENOUGH ∧ BIG_ENOUGH ≤ (stored ++ used.flatten ++ piece).length ∧
    0 ∉ (stored ++ used.flatten ++ piece).take BIG_ENOUGH

theorem find_isSome_grown (needle front text : Bytes) (early : front <+: text)
    (found : (Search.find needle front).isSome) : (Search.find needle text).isSome := by
  obtain ⟨place,here⟩ := Option.isSome_iff_exists.mp found
  rw [Search.find_grown _ _ _ _ early here]
  rfl

section Loop
variable (checkDone : Bool)

theorem Ends.grown {checkDone : Bool} {front text : Bytes} (early : front <+: text) (ends : Ends checkDone front) :
    Ends checkDone text := by
  rcases ends with ⟨check,done⟩ | ⟨opened,closed⟩
  · exact .inl ⟨check,find_isSome_grown _ _ _ early done⟩
  · exact .inr ⟨find_isSome_grown _ _ _ early opened,find_isSome_grown _ _ _ early closed⟩

theorem receive_room (stored piece : Bytes) :
    receive memmove checkDone (holding stored) piece =
      receive memmove checkDone (holding stored) (piece.take (BIG_ENOUGH-stored.length)) := by
  simp only [receive,recvTurn,holding,List.take_take,min_self]
  rfl

/-- One turn whose buffer has a NUL behind `text`, on which the loop stops. -/
theorem receive_ends (stored piece text zeros : Bytes) (some_piece : piece ≠ [])
    (room : stored.length + piece.length ≤ BIG_ENOUGH) (solid : 0 ∉ text)
    (shape : (holding (stored ++ piece)).buffer = text ++ 0::zeros) (ends : Ends checkDone text) :
    ∃ result, receive memmove checkDone (holding stored) piece = .ok result ∧ ∀ receiver, result ≠ .again receiver := by
  rw [receive_text memmove checkDone stored piece text zeros some_piece room solid shape,scan]
  split
  · refine ⟨.failed,rfl,fun receiver same => ?_⟩
    cases same
  · next going =>
    rcases ends with done | ⟨opened,closed⟩
    · exact absurd done going
    · obtain ⟨start,opened⟩ := Option.isSome_iff_exists.mp opened
      obtain ⟨stop,closed⟩ := Option.isSome_iff_exists.mp closed
      rw [opened,closed]
      simp only
      rw [cutFrame_text text zeros start stop solid opened closed]
      refine ⟨.frame (cutText text start stop),rfl,fun receiver same => ?_⟩
      cases same

/-- The first search of a turn reads past a buffer that has no NUL left. -/
theorem receive_full (stored piece : Bytes) (some_piece : piece ≠ [])
    (room : stored.length + piece.length ≤ BIG_ENOUGH) (full : 0 ∉ (holding (stored ++ piece)).buffer) :
    receive memmove checkDone (holding stored) piece = .error .bounds := by
  have filled := congrArg Receiver.buffer (holding_fill stored piece)
  rw [← filled] at full
  have unread : ∀ needle, strstr ((holding stored).buffer.take stored.length ++ piece ++
      (holding stored).buffer.drop (stored.length+piece.length)) needle = .error .bounds := by
    intro needle
    rw [strstr,cString,if_neg full]
    rfl
  have whole : piece.take (BIG_ENOUGH-stored.length) = piece := List.take_of_length_le (by omega)
  unfold holding at unread
  refine receive_of_error ?_
  unfold recvTurn
  simp only [holding,whole,if_neg some_piece,unread]
  cases checkDone <;> rfl

theorem receive_failed (stored piece : Bytes) (none : piece.take (BIG_ENOUGH-stored.length) = []) :
    receive memmove checkDone (holding stored) piece = .ok .failed := by
  rw [receive_room,none,receive_nil]

/-- A NUL is in the buffer until every place of it holds another byte. -/
theorem holding_full (stored : Bytes) (size : stored.length ≤ BIG_ENOUGH) :
    0 ∉ (holding stored).buffer ↔ BIG_ENOUGH ≤ stored.length ∧ 0 ∉ stored := by
  simp only [holding,List.mem_append,not_or,List.mem_replicate,and_true]
  constructor
  · rintro ⟨solid,none⟩
    exact ⟨by omega,solid⟩
  · rintro ⟨full,solid⟩
    exact ⟨solid,by omega⟩

/-- What a loop that goes on has stored. -/
structure Waits (stored : Bytes) : Prop where
  size : stored.length ≤ BIG_ENOUGH
  going : 0 ∉ stored → stored.length < BIG_ENOUGH ∧ ¬ Ends checkDone stored

theorem start_waits : Waits checkDone [] := by
  refine ⟨by decide,fun _ => ⟨by decide,?_⟩⟩
  rintro (⟨_,done⟩ | marked)
  · exact absurd done (by decide)
  · exact absurd marked (by decide)

/-- The three outcomes of a turn that receives something. -/
theorem receive_outcomes (stored piece : Bytes) (some_piece : piece ≠ [])
    (room : stored.length + piece.length ≤ BIG_ENOUGH) :
    (receive memmove checkDone (holding stored) piece = .error .bounds ∧ BIG_ENOUGH ≤ (stored ++ piece).length ∧
      0 ∉ stored ++ piece) ∨
    ((∃ result, receive memmove checkDone (holding stored) piece = .ok result ∧ ∀ receiver, result ≠ .again receiver) ∧
      (0 ∉ stored ++ piece → (stored ++ piece).length < BIG_ENOUGH ∧ Ends checkDone (stored ++ piece))) ∨
    (receive memmove checkDone (holding stored) piece = .ok (.again (holding (stored ++ piece))) ∧
      Waits checkDone (stored ++ piece)) := by
  have size : (stored ++ piece).length ≤ BIG_ENOUGH := by rwa [List.length_append]
  by_cases full : 0 ∉ (holding (stored ++ piece)).buffer
  · exact .inl ⟨receive_full checkDone stored piece some_piece room full,(holding_full _ size).mp full⟩
  obtain ⟨text,zeros,shape,solid⟩ := List.eq_append_cons_of_mem (not_not.mp full)
  have short : 0 ∉ stored ++ piece → (stored ++ piece).length < BIG_ENOUGH := by
    intro clean
    by_contra long
    exact full ((holding_full _ size).mpr ⟨not_lt.mp long,clean⟩)
  have same : 0 ∉ stored ++ piece → text = stored ++ piece := by
    intro clean
    have read := cString_terminated text zeros solid
    rw [← shape,holding_buffer _ (short clean),cString_terminated _ _ clean] at read
    exact (Except.ok.inj read).symm
  by_cases ends : Ends checkDone text
  · exact .inr (.inl ⟨receive_ends checkDone stored piece text zeros some_piece room solid shape ends,
      fun clean => ⟨short clean,same clean ▸ ends⟩⟩)
  · exact .inr (.inr ⟨receive_goes_on checkDone stored piece text zeros some_piece room solid shape ends,
      size,fun clean => ⟨short clean,same clean ▸ ends⟩⟩)

variable {checkDone}

theorem Fills.waiting {stored : Bytes} {pieces : List Bytes} (fills : Fills checkDone stored pieces) :
    stored.length < BIG_ENOUGH ∧ ¬ Ends checkDone stored ∧ 0 ∉ stored := by
  obtain ⟨used,piece,rest,_,_,going,short,_,solid⟩ := fills
  have early : stored <+: stored ++ used.flatten := List.prefix_append _ _
  refine ⟨early.length_le.trans_lt short,fun ends => going (ends.grown early),fun member => solid ?_⟩
  rw [List.append_assoc,List.take_append]
  refine List.mem_append_left _ ?_
  rwa [List.take_of_length_le (early.length_le.trans short.le)]

theorem fills_cons (stored piece : Bytes) (rest : List Bytes) (some_piece : piece ≠ [])
    (going : ¬ Ends checkDone stored) (short : stored.length < BIG_ENOUGH) :
    Fills checkDone stored (piece::rest) ↔
      (BIG_ENOUGH ≤ (stored ++ piece).length ∧ 0 ∉ (stored ++ piece).take BIG_ENOUGH) ∨
        Fills checkDone (stored ++ piece) rest := by
  constructor
  · rintro ⟨used,last,behind,parts,some_pieces,open_end,small,full,solid⟩
    cases used with
    | nil =>
      obtain ⟨rfl,rfl⟩ := List.cons.inj parts
      simp only [List.flatten_nil,List.append_nil] at full solid
      exact .inl ⟨full,solid⟩
    | cons first used =>
      obtain ⟨rfl,rfl⟩ := List.cons.inj parts
      rw [List.flatten_cons,← List.append_assoc] at open_end small full solid
      exact .inr ⟨used,last,behind,rfl,fun member => some_pieces (List.mem_cons_of_mem _ member),open_end,small,
        full,solid⟩
  · rintro (⟨full,solid⟩ | ⟨used,last,behind,rfl,some_pieces,open_end,small,full,solid⟩)
    · exact ⟨[],piece,rest,rfl,by simp,by simpa using going,by simpa using short,by simpa using full,
        by simpa using solid⟩
    · refine ⟨piece::used,last,behind,rfl,?_,?_⟩
      · rw [List.mem_cons,not_or]
        exact ⟨Ne.symm some_piece,some_pieces⟩
      · rw [List.flatten_cons,← List.append_assoc]
        exact ⟨open_end,small,full,solid⟩

theorem not_fills_nil (stored : Bytes) : ¬ Fills checkDone stored [] := by
  rintro ⟨used,piece,rest,parts,_⟩
  exact absurd parts.symm (List.append_ne_nil_of_right_ne_nil _ (List.cons_ne_nil _ _))

theorem not_fills_empty (stored : Bytes) (rest : List Bytes) : ¬ Fills checkDone stored ([]::rest) := by
  rintro ⟨used,piece,behind,parts,some_pieces,_,short,full,_⟩
  cases used with
  | nil =>
    obtain ⟨rfl,rfl⟩ := List.cons.inj parts
    rw [List.append_nil] at full
    omega
  | cons first used =>
    obtain ⟨rfl,rfl⟩ := List.cons.inj parts
    exact some_pieces List.mem_cons_self

theorem take_buffer (stored piece : Bytes) (size : stored.length ≤ BIG_ENOUGH) :
    (stored ++ piece).take BIG_ENOUGH = stored ++ piece.take (BIG_ENOUGH-stored.length) := by
  rw [List.take_append,List.take_of_length_le size]

/-- A piece that leaves a NUL in the buffer does not fill it. -/
theorem fills_later (stored piece : Bytes) (rest : List Bytes) (some_piece : piece ≠ []) (waits : Waits checkDone stored)
    (short : 0 ∉ stored ++ piece.take (BIG_ENOUGH-stored.length) →
      (stored ++ piece.take (BIG_ENOUGH-stored.length)).length < BIG_ENOUGH) :
    Fills checkDone stored (piece::rest) ↔
      Fills checkDone (stored ++ piece.take (BIG_ENOUGH-stored.length)) rest := by
  have whole : (stored ++ piece.take (BIG_ENOUGH-stored.length)).length < BIG_ENOUGH →
      stored ++ piece.take (BIG_ENOUGH-stored.length) = stored ++ piece := by
    intro less
    rw [← take_buffer stored piece waits.size] at less ⊢
    rw [List.length_take] at less
    exact List.take_of_length_le (by omega)
  constructor
  · intro fills
    obtain ⟨small,going,_⟩ := fills.waiting
    rcases (fills_cons stored piece rest some_piece going small).mp fills with ⟨full,solid⟩ | later
    · have less := short (take_buffer stored piece waits.size ▸ solid)
      rw [← take_buffer stored piece waits.size,List.length_take] at less
      omega
    · have less := later.waiting.1
      have fits : piece.take (BIG_ENOUGH-stored.length) = piece := by
        rw [List.length_append] at less
        exact List.take_of_length_le (by omega)
      rwa [fits]
  · intro later
    obtain ⟨less,_,solid⟩ := later.waiting
    obtain ⟨small,going⟩ := waits.going (fun member => solid (List.mem_append_left _ member))
    rw [whole less] at later
    exact (fills_cons stored piece rest some_piece going small).mpr (.inr later)

/-- A loop that goes on returns unless its buffer is filled up. -/
theorem rcvLoop_returns {stored : Bytes} (waits : Waits checkDone stored) (pieces : List Bytes) :
    (∃ out, rcvLoop (receive memmove checkDone) (holding stored) pieces = .ok out) ↔ ¬ Fills checkDone stored pieces := by
  induction pieces generalizing stored with
  | nil => exact iff_of_true ⟨_,rfl⟩ (not_fills_nil stored)
  | cons piece rest ih =>
    rw [rcvLoop]
    by_cases none : piece.take (BIG_ENOUGH-stored.length) = []
    · rw [receive_failed checkDone stored piece none]
      refine iff_of_true ⟨_,rfl⟩ (fun fills => ?_)
      have short := fills.waiting.1
      rcases List.take_eq_nil_iff.mp none with zero | rfl
      · omega
      · exact not_fills_empty stored rest fills
    have some_piece : piece ≠ [] := by
      rintro rfl
      exact none List.take_nil
    have room : stored.length + (piece.take (BIG_ENOUGH-stored.length)).length ≤ BIG_ENOUGH := by
      have size := waits.size
      rw [List.length_take]
      omega
    rw [receive_room]
    rcases receive_outcomes checkDone stored _ none room with
      ⟨failed,full,solid⟩ | ⟨⟨result,ran,stops⟩,reached⟩ | ⟨ran,next⟩
    · rw [failed]
      obtain ⟨short,going⟩ := waits.going (fun member => solid (List.mem_append_left _ member))
      refine iff_of_false ?_ (not_not.mpr ?_)
      · rintro ⟨out,ran⟩
        cases ran
      rw [← take_buffer stored piece waits.size] at full solid
      exact (fills_cons stored piece rest some_piece going short).mpr
        (.inl ⟨full.trans (List.length_take_le' _ _),solid⟩)
    · rw [ran]
      refine iff_of_true ?_ (fun fills => ?_)
      · cases result with
        | again receiver => exact absurd rfl (stops receiver)
        | failed => exact ⟨_,rfl⟩
        | frame text => exact ⟨_,rfl⟩
      · have later := (fills_later stored piece rest some_piece waits (fun solid => (reached solid).1)).mp fills
        obtain ⟨_,going,solid⟩ := later.waiting
        exact going (reached solid).2
    · rw [ran,fills_later stored piece rest some_piece waits (fun solid => (next.going solid).1)]
      exact ih next

/-- Every call but the last one stores a byte. -/
theorem rcvLoop_bounded (stored : Bytes) (size : stored.length ≤ BIG_ENOUGH) (pieces rest : List Bytes)
    (result : Received) (ran : rcvLoop (receive memmove checkDone) (holding stored) pieces = .ok (result,rest)) :
    stored.length + pieces.length ≤ rest.length + (BIG_ENOUGH+1) ∧
      ∀ receiver, result = .again receiver →
        ∃ all, receiver = holding all ∧ stored.length + pieces.length ≤ all.length ∧ all.length ≤ BIG_ENOUGH := by
  induction pieces generalizing stored with
  | nil =>
    obtain ⟨rfl,rfl⟩ := Prod.mk.inj (Except.ok.inj ran)
    refine ⟨by rw [List.length_nil]; omega,fun receiver same => ?_⟩
    exact ⟨stored,(Received.again.inj same).symm,le_rfl,size⟩
  | cons piece pieces ih =>
    rw [rcvLoop] at ran
    obtain ⟨turn,received,ran⟩ := bind_ok _ _ _ ran
    cases turn with
    | failed =>
      obtain ⟨rfl,rfl⟩ := Prod.mk.inj (Except.ok.inj ran)
      refine ⟨by rw [List.length_cons]; omega,fun receiver same => ?_⟩
      cases same
    | frame text =>
      obtain ⟨rfl,rfl⟩ := Prod.mk.inj (Except.ok.inj ran)
      refine ⟨by rw [List.length_cons]; omega,fun receiver same => ?_⟩
      cases same
    | again receiver =>
      obtain rfl := receive_again memmove checkDone stored piece receiver received
      have some_taken : piece.take (BIG_ENOUGH-stored.length) ≠ [] := by
        intro none
        rw [receive_failed checkDone stored piece none] at received
        cases received
      have grows := List.length_pos_of_ne_nil some_taken
      have cut := List.length_take_le (BIG_ENOUGH-stored.length) piece
      obtain ⟨calls,stored_all⟩ := ih _ (by rw [List.length_append]; omega) ran
      rw [List.length_append] at calls stored_all
      refine ⟨by rw [List.length_cons]; omega,fun receiver same => ?_⟩
      obtain ⟨all,held,more,most⟩ := stored_all receiver same
      exact ⟨all,held,by rw [List.length_cons]; omega,most⟩

theorem staysBounded_iff (pieces : List Bytes) :
    StaysBounded (receive memmove checkDone) pieces ↔ ¬ Fills checkDone [] pieces := by
  rw [← rcvLoop_returns (start_waits checkDone) pieces]
  constructor
  · rintro ⟨⟨result,rest,ran,_⟩,_⟩
    exact ⟨_,ran⟩
  · rintro ⟨⟨result,rest⟩,ran⟩
    refine ⟨⟨result,rest,ran,?_⟩,fun front receiver rest' _ early => ?_⟩
    · have calls := (rcvLoop_bounded [] (Nat.zero_le _) pieces rest result ran).1
      rwa [List.length_nil,Nat.zero_add] at calls
    · obtain ⟨all,rfl,more,most⟩ := (rcvLoop_bounded [] (Nat.zero_le _) front rest' _ early).2 receiver rfl
      rw [List.length_nil,Nat.zero_add] at more
      refine ⟨more.trans most,?_,?_⟩
      · simp only [holding]
        omega
      · simp only [holding,List.length_append,List.length_replicate]
        omega

end Loop

/-- Both loops stay inside their buffer exactly when no stream fills it before they stop. -/
theorem receive_bounded (pieces : List Bytes) :
    (StaysBounded (serverSocketRcv memmove) pieces ↔ ¬ Fills true [] pieces) ∧
      (StaysBounded (clientSocketRcv memmove) pieces ↔ ¬ Fills false [] pieces) :=
  ⟨staysBounded_iff pieces,staysBounded_iff pieces⟩

/-- One `recv` that fills the buffer, without a marker: the first search runs out of it. -/
theorem receive_unbounded :
    rcvLoop (serverSocketRcv memmove) .start [List.replicate 1024 65] = .error .bounds ∧
    rcvLoop (clientSocketRcv memmove) .start [List.replicate 1024 65] = .error .bounds ∧
    ¬ StaysBounded (serverSocketRcv memmove) [List.replicate 1024 65] ∧
    ¬ StaysBounded (clientSocketRcv memmove) [List.replicate 1024 65] := by
  have server : rcvLoop (serverSocketRcv memmove) .start [List.replicate 1024 65] = .error .bounds := by decide +kernel
  have client : rcvLoop (clientSocketRcv memmove) .start [List.replicate 1024 65] = .error .bounds := by decide +kernel
  refine ⟨server,client,?_,?_⟩
  · rintro ⟨⟨_,_,ran,_⟩,_⟩
    exact nomatch server.symm.trans ran
  · rintro ⟨⟨_,_,ran,_⟩,_⟩
    exact nomatch client.symm.trans ran

end Spsc.Wire
