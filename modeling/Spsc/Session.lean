import Spsc.Jane
import Spsc.Lib.Runs
import Spsc.Thor
import Spsc.Wire.RoundTrip
import Mathlib.Logic.Function.Basic

/-! Jane and Thor over TCP connections, with the segment they share and the
attacker Loki. A connection is left open when either side goes back to its start,
so an old one may still bring Thor a frame. Each call is one step: Loki writes to
the segment between two calls, changes a frame that is on its way, and neither
connects nor touches a reply. -/
namespace Spsc.Session
open Imperative Hash Wire Segment Runs

/-- The bytes on the way to each side, and whether Jane has closed. `verdicts`,
what Thor found about the frames he answered here, is kept for the statements. -/
structure Connection where
  toThor : Bytes
  toJane : Bytes
  closed : Bool
  verdicts : List Bool
  deriving DecidableEq, Repr

/-- Jane's connection is the last one opened, Thor's the last one accepted.
`appended`, the chunk Jane had read last at each append, and `answer`, the verdict
in the last reply that she has received to the chunk, are kept for the statements. -/
structure State where
  jane : Jane.Client
  thor : Thor.Server
  segment : Bytes
  wire : Nat → Connection
  opened : Nat
  accepted : Nat
  appended : List Nat
  answer : Option Bool

def State.initial (dataPtr : Int) (buffers useBuffers : Nat) (inputFile segment : Bytes)
    (pattern : Option Bytes) : State where
  jane := .initial dataPtr buffers useBuffers inputFile
  thor := .initial pattern
  segment := segment
  wire := fun _ => ⟨[],[],false,[]⟩
  opened := 0
  accepted := 0
  appended := []
  answer := none

/-- What Loki may change in a frame, as long as it stays one frame. -/
structure Forgery where
  offset : Int
  len : Int
  md5 : Bytes
  deriving DecidableEq, Repr

def Forgery.text (forgery : Forgery) : Bytes := fields 1 forgery.offset forgery.len forgery.md5

/-- A call with its outcome, or a move of Loki: `sent`, the one frame on its way on
a connection, becomes `forged`, or the segment becomes another. A `send` that fails
may have sent the first `count` bytes; a `recv` returns `count` bytes. -/
inductive Action where
  | clientSocketInit
  | nextBuffer
  | clientSend
  | clientSendFails (count : Nat)
  | clientRcv (count : Nat)
  | clientRcvFails
  | clientDone
  | serverAccept
  | serverRcv (count : Nat)
  | serverRcvEnd
  | serverRcvFails
  | serverSend
  | serverSendFails (count : Nat)
  | lokiFrame (connection : Nat) (sent forged : Forgery)
  | lokiBuffer (segment : Bytes)
  deriving DecidableEq, Repr

def Action.isFailure : Action → Bool
  | .clientSendFails _ | .clientRcvFails | .serverRcvFails | .serverSendFails _ => true
  | _ => false

def Action.isAnswer : Action → Bool
  | .serverSend | .serverSendFails _ => true
  | _ => false

def Action.isLoki : Action → Bool
  | .lokiFrame _ _ _ | .lokiBuffer _ => true
  | _ => false

namespace State
variable (s : State)

def line : Connection := s.wire (s.opened-1)

def heard : Connection := s.wire (s.accepted-1)

def setLine (connection : Connection) : State :=
  { s with wire := Function.update s.wire (s.opened-1) connection }

def setHeard (connection : Connection) : State :=
  { s with wire := Function.update s.wire (s.accepted-1) connection }

/-- What Thor has read of the frame that is on its way on a connection. -/
def stored (connection : Nat) : Bytes :=
  if s.accepted = connection+1 then
    match s.thor.place with
    | .receive receiver => receiver.buffer.take receiver.pbuffer
    | _ => []
  else []

def Enabled : Action → Prop
  | .clientSocketInit => s.jane.place = .start
  | .nextBuffer => s.jane.place = .loop
  | .clientSend | .clientSendFails _ => s.jane.place = .send
  | .clientRcv count =>
    (∃ receiver, s.jane.place = .receive receiver) ∧ 1 ≤ count ∧ count ≤ s.line.toJane.length
  | .clientRcvFails => ∃ receiver, s.jane.place = .receive receiver
  | .clientDone => s.jane.place = .finish
  | .serverAccept => s.thor.place = .accept ∧ s.accepted < s.opened
  | .serverRcv count =>
    (∃ receiver, s.thor.place = .receive receiver) ∧ 1 ≤ count ∧ count ≤ s.heard.toThor.length
  | .serverRcvEnd => (∃ receiver, s.thor.place = .receive receiver) ∧ s.heard.toThor = [] ∧ s.heard.closed = true
  | .serverRcvFails => ∃ receiver, s.thor.place = .receive receiver
  | .serverSend | .serverSendFails _ => ∃ payload, s.thor.place = .handle payload
  | .lokiFrame connection sent forged =>
    s.stored connection ++ (s.wire connection).toThor = framed sent.text ∧
      s.stored connection <+: framed forged.text ∧ Legible forged.text
  | .lokiBuffer segment => segment.length = s.segment.length

instance (place : Jane.Place) : Decidable (∃ receiver, place = .receive receiver) :=
  match place with
  | .receive receiver => .isTrue ⟨receiver,rfl⟩
  | .start | .loop | .send | .finish | .finished | .aborted _ => .isFalse (by simp)

instance (place : Thor.Place) : Decidable (∃ receiver, place = .receive receiver) :=
  match place with
  | .receive receiver => .isTrue ⟨receiver,rfl⟩
  | .accept | .handle _ | .aborted _ => .isFalse (by simp)

instance (place : Thor.Place) : Decidable (∃ payload, place = .handle payload) :=
  match place with
  | .handle payload => .isTrue ⟨payload,rfl⟩
  | .accept | .receive _ | .aborted _ => .isFalse (by simp)

instance (action : Action) : Decidable (s.Enabled action) :=
  match action with
  | .clientSocketInit => inferInstanceAs (Decidable (s.jane.place = .start))
  | .nextBuffer => inferInstanceAs (Decidable (s.jane.place = .loop))
  | .clientSend | .clientSendFails _ => inferInstanceAs (Decidable (s.jane.place = .send))
  | .clientRcv count =>
    inferInstanceAs (Decidable ((∃ receiver, s.jane.place = .receive receiver) ∧ 1 ≤ count ∧
      count ≤ s.line.toJane.length))
  | .clientRcvFails => inferInstanceAs (Decidable (∃ receiver, s.jane.place = .receive receiver))
  | .clientDone => inferInstanceAs (Decidable (s.jane.place = .finish))
  | .serverAccept => inferInstanceAs (Decidable (s.thor.place = .accept ∧ s.accepted < s.opened))
  | .serverRcv count =>
    inferInstanceAs (Decidable ((∃ receiver, s.thor.place = .receive receiver) ∧ 1 ≤ count ∧
      count ≤ s.heard.toThor.length))
  | .serverRcvEnd =>
    inferInstanceAs (Decidable ((∃ receiver, s.thor.place = .receive receiver) ∧ s.heard.toThor = [] ∧
      s.heard.closed = true))
  | .serverRcvFails => inferInstanceAs (Decidable (∃ receiver, s.thor.place = .receive receiver))
  | .serverSend | .serverSendFails _ => inferInstanceAs (Decidable (∃ payload, s.thor.place = .handle payload))
  | .lokiFrame connection sent forged =>
    inferInstanceAs (Decidable (s.stored connection ++ (s.wire connection).toThor = framed sent.text ∧
      s.stored connection <+: framed forged.text ∧ Legible forged.text))
  | .lokiBuffer segment => inferInstanceAs (Decidable (segment.length = s.segment.length))

variable (strcpy : StrCpy) (md5 : Bytes → Digest)

def abortJane (fault : Fault) : State := { s with jane := { s.jane with place := .aborted fault } }

def abortThor (fault : Fault) : State := { s with thor := { s.thor with place := .aborted fault } }

def connect : State :=
  { s with
    jane := { s.jane with place := .loop }
    wire := Function.update s.wire s.opened ⟨[],[],false,[]⟩
    opened := s.opened+1 }

def prepare : State :=
  match Jane.nextBuffer md5 s.jane s.segment with
  | .error fault => s.abortJane fault
  | .ok (jane,segment) =>
    { s with
      jane := jane
      segment := segment
      answer := if jane.chunks = s.jane.chunks then s.answer else none }

/-- `client_socket_send`, where the connection carries what `kept` leaves of the
frame and Jane goes on as `after`. -/
def clientSend (kept : Bytes → Bytes) (after : Jane.Client → Jane.Client) : State :=
  match Jane.frame s.jane with
  | .error fault => s.abortJane fault
  | .ok bytes =>
    let line := s.line
    { s.setLine { line with toThor := line.toThor ++ kept bytes } with jane := after s.jane }

/-- What a `recv` of `count` bytes means to `client_socket_rcv`. -/
def received (receiver : Receiver) (count : Nat) : C Received :=
  clientSocketRcv strcpy receiver (s.line.toJane.take (min count receiver.maxlen))

def clientRcv (receiver : Receiver) (count : Nat) : State :=
  let line := s.line
  let taken := min count receiver.maxlen
  let s' := s.setLine { line with toJane := line.toJane.drop taken }
  match Jane.receivePiece strcpy s.jane receiver (line.toJane.take taken) with
  | .error fault => s'.abortJane fault
  | .ok jane =>
    { s' with
      jane := jane
      answer := match s.received strcpy receiver count with
        | .ok (.frame _) => line.verdicts.getLast?
        | _ => s.answer }

def clientDone : State :=
  let line := s.line
  { s.setLine { line with toThor := line.toThor ++ (DONE_TRANS ++ [0]), closed := true } with
    jane := { s.jane with place := .finished } }

def serverAccept : State :=
  { s with
    thor := { s.thor with place := .receive .start }
    accepted := s.accepted+1 }

def serverRcv (receiver : Receiver) (count : Nat) : State :=
  let heard := s.heard
  let count := min count receiver.maxlen
  let s' := s.setHeard { heard with toThor := heard.toThor.drop count }
  match Thor.receivePiece strcpy s.thor receiver (heard.toThor.take count) with
  | .error fault => s'.abortThor fault
  | .ok thor => { s' with thor := thor }

def serverLeave : State := { s with thor := { s.thor with place := .accept } }

/-- `server_socket_send`, where the connection carries what `kept` leaves of the
reply and Thor goes on at `after`. -/
def serverSend (payload : Bytes) (kept : Bytes → Bytes) (after : Thor.Place) : State :=
  let heard := s.heard
  match Thor.verify md5 s.segment payload with
  | .error fault => s.abortThor fault
  | .ok (_,intact) =>
    let found := { heard with verdicts := heard.verdicts ++ [intact] }
    let (thor,reply) := Thor.serverSocketSend md5 s.thor s.segment payload
    let appended := if intact then s.appended ++ [s.jane.chunks-1] else s.appended
    match reply with
    | .error fault => { (s.setHeard found) with thor := thor, appended := appended }.abortThor fault
    | .ok reply =>
      { s.setHeard { found with toJane := heard.toJane ++ kept reply } with
        thor := { thor with place := after }
        appended := appended }

def lokiFrame (connection : Nat) (forged : Forgery) : State :=
  let altered := s.wire connection
  let rest := (framed forged.text).drop (s.stored connection).length
  { s with wire := Function.update s.wire connection { altered with toThor := rest } }

def next : Action → State
  | .clientSocketInit => s.connect
  | .nextBuffer => s.prepare md5
  | .clientSend => s.clientSend id (fun jane => { jane with place := .receive .start })
  | .clientSendFails count => s.clientSend (fun bytes => bytes.take count) Jane.gotoStart
  | .clientRcv count =>
    match s.jane.place with
    | .receive receiver => s.clientRcv strcpy receiver count
    | _ => s
  | .clientRcvFails => { s with jane := Jane.gotoStart s.jane }
  | .clientDone => s.clientDone
  | .serverAccept => s.serverAccept
  | .serverRcv count =>
    match s.thor.place with
    | .receive receiver => s.serverRcv strcpy receiver count
    | _ => s
  | .serverRcvEnd | .serverRcvFails => s.serverLeave
  | .serverSend =>
    match s.thor.place with
    | .handle payload => s.serverSend md5 payload id (.receive .start)
    | _ => s
  | .serverSendFails count =>
    match s.thor.place with
    | .handle payload => s.serverSend md5 payload (fun bytes => bytes.take count) .accept
    | _ => s
  | .lokiFrame connection _ forged => s.lokiFrame connection forged
  | .lokiBuffer segment => { s with segment := segment }

theorem next_clientRcv (receiver : Receiver) (count : Nat) (here : s.jane.place = .receive receiver) :
    s.next strcpy md5 (.clientRcv count) = s.clientRcv strcpy receiver count := by simp only [next,here]

theorem next_serverRcv (receiver : Receiver) (count : Nat) (here : s.thor.place = .receive receiver) :
    s.next strcpy md5 (.serverRcv count) = s.serverRcv strcpy receiver count := by simp only [next,here]

theorem next_serverSend (payload : Bytes) (here : s.thor.place = .handle payload) :
    s.next strcpy md5 .serverSend = s.serverSend md5 payload id (.receive .start) := by simp only [next,here]

theorem next_serverSendFails (payload : Bytes) (count : Nat) (here : s.thor.place = .handle payload) :
    s.next strcpy md5 (.serverSendFails count) = s.serverSend md5 payload (fun bytes => bytes.take count) .accept := by
  simp only [next,here]

end State

/-- A step of the composition in which only the `allowed` actions happen. -/
def Step (strcpy : StrCpy) (md5 : Bytes → Digest) (allowed : Action → Prop) (s : State) (action : Action) (t : State) : Prop :=
  allowed action ∧ s.Enabled action ∧ t = s.next strcpy md5 action

theorem run_of_actions (strcpy : StrCpy) (md5 : Bytes → Digest) (allowed : Action → Prop) (s : State)
    (actions : List Action) (taken : ∀ entry ∈ walk (fun s action => State.next s strcpy md5 action) s actions,
      allowed entry.2 ∧ entry.1.Enabled entry.2) :
    Run (Step strcpy md5 allowed) s (walk (fun s action => State.next s strcpy md5 action) s actions)
      (actions.foldl (fun s action => State.next s strcpy md5 action) s) :=
  .walk _ actions s (fun entry member => ⟨(taken entry member).1,(taken entry member).2,rfl⟩)

end Spsc.Session
