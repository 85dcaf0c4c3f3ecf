import Spsc.Segment
import Spsc.Substring
import Spsc.Wire

/-! The consumer of `thor.c`: `server_loop` and what it calls. -/
namespace Spsc.Thor
open Imperative Hash Wire Segment Spsc.Substring

/-- Where `server_loop` stands: before `server_accept`, inside
`server_socket_rcv`, or before `server_socket_send` with the payload received. -/
inductive Place where
  | accept
  | receive (receiver : Receiver)
  | handle (payload : Bytes)
  | aborted (fault : Fault)
  deriving DecidableEq, Repr

/-- `output` is the output file, one entry for each `fwrite`; the search context
is there when `do_search` is set. -/
structure Server where
  place : Place
  output : List Bytes
  substringContext : Option Sstring
  deriving DecidableEq, Repr

def Server.initial (pattern : Option Bytes) : Server where
  place := .accept
  output := []
  substringContext := pattern.map sstringInit

def serverFlushTransaction (thor : Server) (data : Bytes) : Server :=
  { thor with output := thor.output ++ [data] }

def search (thor : Server) (data : Bytes) : C Server :=
  match thor.substringContext with
  | none => .ok thor
  | some ss => do
    let ss ← sstringCompute ss data
    .ok { thor with substringContext := some ss }

def REJECTION : Bytes := ascii ['-','-','-','-','-','-','-','-','-','>','l','o','k','i',' ','h','a','s',' ',
  'c','h','a','n','g','e','d',' ','m','e','s','s','a','g','e','.','<','-','-','-','-','-','-']

/-- The `snprintf` into a zeroed buffer of 1024 bytes and the `newlen` bytes of
it that are sent, where `newlen` is the length before any truncation. -/
def reply (text : Bytes) : C Bytes :=
  let whole := START_MARKER ++ (text ++ END_MARKER)
  if whole.length ≤ BIG_ENOUGH then .ok ((whole.take (BIG_ENOUGH-1) ++ [0]).take whole.length)
  else .error .bounds

variable (md5 : Bytes → Digest)

def verify (segment payload : Bytes) : C (Bytes × Bool) := do
  let parsed ← parseData payload
  let data ← readBytes segment parsed.offset parsed.len
  .ok (data,← doesStringIntact md5 data parsed.md5)

/-- The state after the call, and the bytes it sends or the fault that stops it;
the append stays made where the search goes wrong. -/
def serverSocketSend (thor : Server) (segment payload : Bytes) : Server × C Bytes :=
  match verify md5 segment payload with
  | .error fault => (thor,.error fault)
  | .ok (data,intact) =>
    if intact then
      let thor := serverFlushTransaction thor data
      match search thor data with
      | .error fault => (thor,.error fault)
      | .ok thor => (thor,reply payload)
    else (thor,reply REJECTION)

def receivePiece (strcpy : StrCpy) (thor : Server) (receiver : Receiver) (piece : Bytes) : C Server := do
  match ← serverSocketRcv strcpy receiver piece with
  | .again receiver => .ok { thor with place := .receive receiver }
  | .failed => .ok { thor with place := .accept }
  | .frame payload => .ok { thor with place := .handle payload }

end Spsc.Thor
