import Spsc.Allocator
import Spsc.Segment
import Spsc.Wire

/-! The producer of `jane.c`, built without threads. `client_loop` is cut at the
calls that block: between two of them it runs as one function. -/
namespace Spsc.Jane
open Imperative Hash Wire Allocator Segment

/-- Where `client_loop` stands: at `START`, at the head of the inner loop, before
`client_socket_send`, inside `client_socket_rcv`, behind both loops, or at its end. -/
inductive Place where
  | start
  | loop
  | send
  | receive (receiver : Receiver)
  | finish
  | finished
  | aborted (fault : Fault)
  deriving DecidableEq, Repr

/-- The variables of `client_loop` with what it uses of the configuration, the
allocator and the input file. `chunks`, the number of chunks read so far, is kept
for the statements and is not a variable of the source. -/
structure Client where
  useBuffers : Nat
  asgard : Asgard
  unread : Bytes
  place : Place
  finishedReading : Bool
  shmBuffer : Option Int
  md5 : Bytes
  failed : Bool
  llen : Int
  chunks : Nat
  deriving DecidableEq, Repr

/-- Jane before `START`. `md5` is uninitialised until the first `readable_hash`. -/
def Client.initial (dataPtr : Int) (buffers useBuffers : Nat) (inputFile : Bytes) : Client where
  useBuffers := useBuffers
  asgard := bufferInit dataPtr (initMemory buffers)
  unread := inputFile
  place := .start
  finishedReading := true
  shmBuffer := none
  md5 := List.replicate BIG_ENOUGH 0
  failed := false
  llen := 0
  chunks := 0

/-- The copy of the name; the file that it names is `inputFile` above. -/
def setInputFile (ipFile : Option Bytes) : C Bytes := do
  assert (ipFile ≠ none)
  .ok (ipFile.getD [])

def chunkSize (useBuffers : Nat) : Nat := useBuffers*BIG_ENOUGH - 1

/-- The call's `*len`, what it leaves of the file, and the segment with the block
filled and a NUL behind it; `none` at the end of the file. -/
def readInputFile (useBuffers : Nat) (offset : Int) (unread segment : Bytes) :
    C (Option (Int × Bytes) × Bytes) := do
  let chunk := unread.take (chunkSize useBuffers)
  let segment ← writeBytes segment offset chunk
  if chunk = [] then .ok (none,segment) else
  let segment ← store .bounds segment (offset+chunk.length) 0
  .ok (some (chunk.length,unread.drop (chunkSize useBuffers)),segment)

def renewBuffer (jane : Client) : C (Int × Asgard) := do
  let asgard ← match jane.shmBuffer with
    | some mem => shmDealloc jane.asgard jane.useBuffers mem
    | none => .ok jane.asgard
  match ← shmAlloc asgard jane.useBuffers with
  | (some buffer,asgard) => .ok (buffer,asgard)
  | (none,_) => .error .assert

variable (md5 : Bytes → Digest)

/-- `client_loop` from the head of the inner loop to the next blocking call. -/
def nextBuffer (jane : Client) (segment : Bytes) : C (Client × Bytes) := do
  if !jane.finishedReading then .ok ({ jane with place := .finish },segment) else
  let (buffer,asgard) ← renewBuffer jane
  let jane := { jane with asgard := asgard, shmBuffer := some buffer }
  if jane.failed then .ok ({ jane with place := .send },segment) else
  match ← readInputFile jane.useBuffers (getOffset asgard buffer) jane.unread segment with
  | (none,segment) => .ok ({ jane with finishedReading := false, place := .loop },segment)
  | (some (llen,unread),segment) =>
    let text ← readBytes segment (getOffset asgard buffer) llen
    let hash ← readableHash md5 text jane.md5 (BIG_ENOUGH-1)
    let jane := { jane with unread := unread, llen := llen, md5 := hash, chunks := jane.chunks+1 }
    .ok ({ jane with place := .send },segment)

/-- The bytes of the next `client_socket_send(1, get_offset(shm_buffer), md5,
llen, isAck())`; nothing ever sets the flag that `isAck` reads. -/
def frame (jane : Client) : C Bytes := do
  let text ← cString jane.md5
  .ok (clientSocketSend 1 (getOffset jane.asgard (jane.shmBuffer.getD 0)) text jane.llen false)

def gotoStart (jane : Client) : Client := { jane with failed := true, place := .start }

def compare (jane : Client) (got : Bytes) : C Client := do
  let text ← cString jane.md5
  if got = text then .ok { jane with failed := false, place := .loop }
  else .ok { jane with place := .loop }

def receivePiece (strcpy : StrCpy) (jane : Client) (receiver : Receiver) (piece : Bytes) : C Client := do
  match ← clientSocketRcv strcpy receiver piece with
  | .again receiver => .ok { jane with place := .receive receiver }
  | .failed => .ok (gotoStart jane)
  | .frame got => compare jane got

end Spsc.Jane
