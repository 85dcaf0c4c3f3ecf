import Spsc.Wire.Receive

/-! What the receive loops rest on in `strcpy`: its source begins behind the start marker, ten
bytes behind its destination, and reaches into it, so that the language leaves the result open. -/
namespace Spsc.Wire
open Imperative Hash

/-- The buffer and the place of `t` where a turn calls `strcpy`. -/
def copyCall (checkDone : Bool) (receiver : Receiver) (piece : Bytes) : Option (Bytes × Nat) :=
  match recvTurn checkDone receiver piece with
  | .ok (.copy buffer t) => some (buffer,t)
  | _ => none

/-- The call that a whole loop makes. -/
def loopCall (checkDone : Bool) : Receiver → List Bytes → Option (Bytes × Nat)
  | _, [] => none
  | receiver, piece::rest =>
    match recvTurn checkDone receiver piece with
    | .ok (.again receiver) => loopCall checkDone receiver rest
    | .ok (.copy buffer t) => some (buffer,t)
    | _ => none

theorem receive_moves (strcpy : StrCpy) (checkDone : Bool) (receiver : Receiver) (piece : Bytes)
    (moves : ∀ call ∈ copyCall checkDone receiver piece, Moves strcpy call.1 call.2) :
    receive strcpy checkDone receiver piece = receive memmove checkDone receiver piece := by
  cases turned : recvTurn checkDone receiver piece with
  | error fault => rw [receive_of_error turned,receive_of_error turned]
  | ok turn =>
    cases turn with
    | again next => rw [receive_of_again turned,receive_of_again turned]
    | failed => rw [receive_of_failed turned,receive_of_failed turned]
    | copy buffer t =>
      have called : (buffer,t) ∈ copyCall checkDone receiver piece := by rw [copyCall,turned]; rfl
      rw [receive_of_copy turned,receive_of_copy turned,moves _ called,memmove_moves buffer t]

/-- A loop that calls no `strcpy` is the same with any. -/
theorem rcvLoop_uncopied (strcpy other : StrCpy) (checkDone : Bool) (receiver : Receiver) (pieces : List Bytes)
    (uncopied : loopCall checkDone receiver pieces = none) :
    rcvLoop (receive strcpy checkDone) receiver pieces = rcvLoop (receive other checkDone) receiver pieces := by
  induction pieces generalizing receiver with
  | nil => rfl
  | cons piece rest ih =>
    rw [loopCall] at uncopied
    rw [rcvLoop,rcvLoop]
    cases turned : recvTurn checkDone receiver piece with
    | error fault =>
      rw [receive_of_error turned,receive_of_error turned]
      rfl
    | ok turn =>
      rw [turned] at uncopied
      cases turn with
      | again next =>
        rw [receive_of_again turned,receive_of_again turned]
        exact ih next uncopied
      | failed =>
        rw [receive_of_failed turned,receive_of_failed turned]
        rfl
      | copy buffer t => cases uncopied

/-- The other loops return what their call leaves. -/
theorem rcvLoop_copied (checkDone : Bool) (receiver : Receiver) (pieces : List Bytes) (buffer : Bytes) (t : Nat)
    (copied : loopCall checkDone receiver pieces = some (buffer,t)) :
    ∃ rest, ∀ strcpy : StrCpy, rcvLoop (receive strcpy checkDone) receiver pieces =
      (fun text => (Received.frame text,rest)) <$> (strcpy buffer t >>= cString) := by
  induction pieces generalizing receiver with
  | nil => cases copied
  | cons piece rest ih =>
    rw [loopCall] at copied
    cases turned : recvTurn checkDone receiver piece with
    | error fault =>
      rw [turned] at copied
      cases copied
    | ok turn =>
      rw [turned] at copied
      cases turn with
      | again next =>
        obtain ⟨left,returns⟩ := ih next copied
        refine ⟨left,fun strcpy => ?_⟩
        rw [rcvLoop,receive_of_again turned]
        exact returns strcpy
      | failed => cases copied
      | copy found place =>
        obtain ⟨rfl,rfl⟩ := Prod.mk.inj (Option.some.inj copied)
        refine ⟨rest,fun strcpy => ?_⟩
        rw [rcvLoop,receive_of_copy turned]
        cases strcpy found place >>= cString <;> rfl

/-- The `strcpy` that ends the loop leaves the text that it was to copy. -/
def LoopMoves (strcpy : StrCpy) (checkDone : Bool) (pieces : List Bytes) : Prop :=
  ∀ call ∈ loopCall checkDone .start pieces, Moves strcpy call.1 call.2

theorem loopMoves_same (strcpy : StrCpy) (checkDone : Bool) (pieces : List Bytes) (moves : LoopMoves strcpy checkDone pieces) :
    rcvLoop (receive strcpy checkDone) .start pieces = rcvLoop (receive memmove checkDone) .start pieces := by
  cases copied : loopCall checkDone .start pieces with
  | none => exact rcvLoop_uncopied strcpy memmove checkDone .start pieces copied
  | some call =>
    obtain ⟨rest,returns⟩ := rcvLoop_copied checkDone .start pieces call.1 call.2 copied
    rw [returns,returns,moves call copied,memmove_moves]

theorem cString_ok (buffer text : Bytes) (read : cString buffer = .ok text) : ∃ rest, buffer = text ++ 0::rest := by
  unfold cString at read
  split at read
  · next inside =>
    obtain ⟨front,rest,shape,solid⟩ := List.eq_append_cons_of_mem inside
    have whole := cString_terminated front rest solid
    rw [← shape,cString,if_pos inside] at whole
    exact ⟨rest,(Except.ok.inj (read.symm.trans whole)) ▸ shape⟩
  · cases read

/-- `count` bytes of `buffer`, loaded at `src` and then stored at `dst`. -/
def copyBlock (buffer : Bytes) (dst src count : Nat) : Bytes :=
  buffer.take dst ++ ((buffer.drop src).take count ++ buffer.drop (dst+count))

/-- A `strcpy` by vectors: a text that fills one vector but not two goes as its first 32 bytes and then
as its last 32 bytes. -/
def vectorStrcpy : StrCpy := fun buffer t => do
  let text ← cString (buffer.drop t)
  let n := text.length+1
  if 32 ≤ n ∧ n ≤ 64 then .ok (copyBlock (copyBlock buffer 0 t 32) (n-32) (t+(n-32)) 32)
  else .ok (text ++ 0::buffer.drop n)

theorem copyBlock_front (buffer : Bytes) (src count : Nat) (inside : src+count ≤ buffer.length) :
    ∃ block, copyBlock buffer 0 src count = block ++ buffer.drop count ∧ block = (buffer.drop src).take count ∧
      block.length = count := by
  refine ⟨_,by simp [copyBlock],rfl,?_⟩
  rw [List.length_take,List.length_drop]
  omega

theorem vectorStrcpy_copiesApart : CopiesApart vectorStrcpy := by
  intro buffer t text read apart
  unfold vectorStrcpy
  rw [read]
  simp only [bind,Except.bind]
  split
  · next size =>
    obtain ⟨rest,source⟩ := cString_ok _ _ read
    have bound := congrArg List.length source
    rw [List.length_drop,List.length_append,List.length_cons] at bound
    obtain ⟨block,first,same,long⟩ := copyBlock_front buffer t 32 (by omega)
    -- the second load is behind what the first store has changed
    have second : (block ++ buffer.drop 32).drop (t+(text.length+1-32)) = (buffer.drop t).drop (text.length+1-32) := by
      rw [List.drop_append,List.drop_of_length_le (by omega),List.nil_append,List.drop_drop,List.drop_drop]
      congr 1
      omega
    have front : (block ++ buffer.drop 32).take (text.length+1-32) = (text ++ [0]).take (text.length+1-32) := by
      rw [List.take_append_of_le_length (by omega),same,List.take_take,source,List.append_cons,
        List.take_append_of_le_length (by rw [List.length_append,List.length_singleton]; omega)]
      congr 1
      omega
    have behind : (block ++ buffer.drop 32).drop (text.length+1-32+32) = buffer.drop (text.length+1) := by
      rw [List.drop_append,List.drop_of_length_le (by omega),List.nil_append,List.drop_drop]
      congr 1
      omega
    have last : ((text ++ 0::rest).drop (text.length+1-32)).take 32 = (text ++ [0]).drop (text.length+1-32) := by
      rw [List.append_cons,List.drop_append_of_le_length (by rw [List.length_append,List.length_singleton]; omega)]
      exact List.take_left' (by rw [List.length_drop,List.length_append,List.length_singleton]; omega)
    rw [first,copyBlock,second,front,behind,source,last,← List.append_assoc,List.take_append_drop,← List.append_cons]
  · rfl

end Spsc.Wire
