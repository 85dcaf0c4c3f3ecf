import Spsc.Hash
import Spsc.Lib.Decimal

/-! What goes over the socket: the frames that `client_socket_send` writes, the
two receive loops, and `parse_data`. A receive loop is given one `recv` result
at a time. -/
namespace Spsc.Wire
open Imperative Hash

def START_MARKER : Bytes := ascii ['<','C','E','E','E','F','A','C','E','>']
def END_MARKER : Bytes := ascii ['<','D','E','A','D','B','E','E','F','>']
def START_WITH_ACK_MARKER : Bytes :=
  ascii ['<','C','E','E','E','F','A','C','E','>','<','A','C','K','>']
def DONE_TRANS : Bytes := ascii ['+','D','O','N','E','+']

def digitByte (digit : Nat) : Byte := (48+digit).toUInt8

def decimal (n : Int) : Bytes :=
  let numeral := (Decimal.digits n.natAbs).map digitByte
  if n < 0 then char '-'::numeral else numeral

def fields (num offset dlen : Int) (data : Bytes) : Bytes :=
  decimal num ++ char ','::(decimal offset ++ char ','::(decimal dlen ++ char ','::data))

def clientSocketSend (num offset : Int) (dataToSend : Bytes) (dlen : Int) (ack : Bool) : Bytes :=
  (if ack then START_WITH_ACK_MARKER else START_MARKER) ++ (fields num offset dlen dataToSend ++ END_MARKER)

structure Receiver where
  buffer : Bytes
  pbuffer : Nat
  maxlen : Nat
  deriving DecidableEq, Repr

def Receiver.start : Receiver := ⟨List.replicate BIG_ENOUGH 0,0,BIG_ENOUGH⟩

/-- What `strcpy(buffer,buffer+t)` leaves in `buffer`. The two ranges overlap unless the text at `t`
is shorter than `t`, and then the language does not say what that is. -/
abbrev StrCpy := Bytes → Nat → C Bytes

/-- What the language says: a text that ends before it meets its copy is copied. -/
def CopiesApart (strcpy : StrCpy) : Prop :=
  ∀ buffer t text, cString (buffer.drop t) = .ok text → text.length < t →
    strcpy buffer t = .ok (text ++ 0::buffer.drop (text.length+1))

/-- The copy as if by way of another array. -/
def memmove : StrCpy := fun buffer t => do
  let text ← cString (buffer.drop t)
  .ok (text ++ 0::buffer.drop (text.length+1))

/-- This call leaves the text that it was to copy. -/
def Moves (strcpy : StrCpy) (buffer : Bytes) (t : Nat) : Prop :=
  (strcpy buffer t >>= cString) = cString (buffer.drop t)

/-- Where a turn of a receive loop leads: to the next `recv`, to a return of 1, or out of the loop
to `strcpy(buffer,buffer+t)`. -/
inductive Turned where
  | again (receiver : Receiver)
  | failed
  | copy (buffer : Bytes) (t : Nat)
  deriving DecidableEq, Repr

/-- One turn of a receive loop, with the NUL written at `end` when it is the last. `recv` writes at
most `maxlen` bytes of `piece`, and none at the end of the stream or when the buffer is full. -/
def recvTurn (checkDone : Bool) (receiver : Receiver) (piece : Bytes) : C Turned := do
  let ⟨buffer,pbuffer,maxlen⟩ := receiver
  let piece := piece.take maxlen
  if piece = [] then .ok .failed else
  let buffer := buffer.take pbuffer ++ piece ++ buffer.drop (pbuffer+piece.length)
  let done ← if checkDone then strstr buffer DONE_TRANS else .ok none
  if done.isSome then .ok .failed else
  let next := .again ⟨buffer,pbuffer+piece.length,maxlen-piece.length⟩
  match ← strstr buffer START_MARKER with
  | none => .ok next
  | some start =>
    match ← strstr buffer END_MARKER with
    | none => .ok next
    | some stop => .ok (.copy (← store .bounds buffer stop 0) (start+START_MARKER.length))

inductive Received where
  | again (receiver : Receiver)
  | failed
  | frame (text : Bytes)
  deriving DecidableEq, Repr

/-- A turn and, behind the last one, the copy; `text` is what the buffer then begins with. -/
def receive (strcpy : StrCpy) (checkDone : Bool) (receiver : Receiver) (piece : Bytes) : C Received := do
  match ← recvTurn checkDone receiver piece with
  | .again receiver => .ok (.again receiver)
  | .failed => .ok .failed
  | .copy buffer t => .ok (.frame (← strcpy buffer t >>= cString))

def serverSocketRcv (strcpy : StrCpy) : Receiver → Bytes → C Received := receive strcpy true

def clientSocketRcv (strcpy : StrCpy) : Receiver → Bytes → C Received := receive strcpy false

/-- A whole receive loop, with the `recv` results it has not used. -/
def rcvLoop (turn : Receiver → Bytes → C Received) : Receiver → List Bytes → C (Received × List Bytes)
  | receiver, [] => .ok (.again receiver,[])
  | receiver, piece::rest => do
    match ← turn receiver piece with
    | .again receiver => rcvLoop turn receiver rest
    | result => .ok (result,rest)

def isSpace (byte : Byte) : Bool := byte == 32 || (9 ≤ byte && byte ≤ 13)

def isDigit (byte : Byte) : Bool := 48 ≤ byte && byte ≤ 57

/-- `(int) strtol(text, NULL, 10)` with a 64-bit long. -/
def atoi (text : Bytes) : Int :=
  let text := text.dropWhile isSpace
  let negative := text.head? = some (char '-')
  let text := if negative ∨ text.head? = some (char '+') then text.tail else text
  let magnitude : Int := Decimal.value ((text.takeWhile isDigit).map (fun byte => byte.toNat-48))
  wrap32 (max (-2^63) (min (2^63-1) (if negative then -magnitude else magnitude)))

def copyField (field nums : Bytes) : C Bytes := do
  let nums ← forLoop (fun i nums => do
    let byte ← load .bounds field i
    store .bounds nums i byte) 0 field.length nums
  store .bounds nums field.length 0

/-- The number before the next comma, the text behind it, and `nums` as the copy
leaves it. Where there is no comma the copy runs on past the end of `nums`. -/
def parseField (t nums : Bytes) : C (Int × Bytes × Bytes) := do
  match Search.find [char ','] t with
  | none => .error .bounds
  | some comma =>
    let nums ← copyField (t.take comma) nums
    let text ← cString nums
    .ok (atoi text,t.drop (comma+1),nums)

structure Parsed where
  num : Int
  offset : Int
  len : Int
  md5 : Bytes
  deriving DecidableEq, Repr

def parseData (input : Bytes) : C Parsed := do
  assert ((Search.find [char ','] input).isSome)
  let (num,t,nums) ← parseField input (List.replicate 24 0)
  assert (num > 0)
  let (offset,t,nums) ← parseField t nums
  assert (offset > 0)
  let (len,t,_) ← parseField t nums
  assert (len ≥ 0)
  if BIG_ENOUGH ≤ t.length then .error .bounds else
  assert (t ≠ [])
  .ok ⟨num,offset,len,t⟩

end Spsc.Wire
