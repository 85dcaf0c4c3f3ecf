import Spsc.CStrings

/-! The pattern matcher of `substring.c`, which Thor runs over what it appends. Its
`locations` are ints, `total` is a `long long`. -/
namespace Spsc.Substring
open Imperative

def MAX_OCCURANCE : Nat := 1024

structure Sstring where
  pattern : Bytes
  locations : List Int
  maxOccurance : Nat
  totalStates : Nat
  state : Nat
  count : Nat
  total : Int
  done : Bool
  deriving DecidableEq, Repr

/-- `substring` is the text; the copy that `strdup` makes ends with its NUL. -/
def sstringInit (substring : Bytes) : Sstring where
  pattern := substring ++ [0]
  locations := List.replicate MAX_OCCURANCE 0
  maxOccurance := MAX_OCCURANCE
  totalStates := substring.length
  state := 0
  count := 0
  total := 0
  done := false

/-- A turn of the loop of `sstring_compute`, where `int` converts the place that is stored into `locations`. -/
def matchByteAs (int : Int → Int) (ss : Sstring) (byte : Byte) : C Sstring := do
  let expected ← load .bounds ss.pattern ss.state
  if byte = expected then
    let ss := { ss with state := ss.state+1 }
    if ss.state = ss.totalStates then do
      let locations ← store .bounds ss.locations ss.count (int (ss.total - ((ss.totalStates : Int)-1)))
      let count := ss.count+1
      let done := if ss.maxOccurance = count then true else ss.done
      .ok { ss with state := 0, locations := locations, count := count, done := done }
    else .ok ss
  else .ok { ss with state := 0 }

def sstringComputeAs (int : Int → Int) (ss : Sstring) : Bytes → C Sstring
  | [] => .ok ss
  | byte::rest =>
    if ss.done then .ok ss else do
    let ss ← matchByteAs int ss byte
    sstringComputeAs int { ss with total := ss.total+1 } rest

def matchByte : Sstring → Byte → C Sstring := matchByteAs wrap32

def sstringCompute : Sstring → Bytes → C Sstring := sstringComputeAs wrap32

theorem sstringCompute_cons (ss : Sstring) (byte : Byte) (rest : Bytes) :
    sstringCompute ss (byte::rest) =
      if ss.done then .ok ss else matchByte ss byte >>= fun ss => sstringCompute { ss with total := ss.total+1 } rest := rfl

/-- The matcher asserts nothing: it can only go outside its arrays. -/
theorem matchByte_fault (ss : Sstring) (byte : Byte) (fault : Fault)
    (failed : matchByte ss byte = .error fault) : fault = .bounds := by
  rcases bind_error _ _ _ failed with unread | ⟨expected,_,failed⟩
  · exact load_error _ _ _ _ unread
  · simp only at failed
    split at failed
    · split at failed
      · rcases bind_error _ _ _ failed with unwritten | ⟨_,_,failed⟩
        · exact store_error _ _ _ _ _ unwritten
        · cases failed
      · cases failed
    · cases failed

theorem sstringCompute_fault (data : Bytes) (ss : Sstring) (fault : Fault)
    (failed : sstringCompute ss data = .error fault) : fault = .bounds := by
  induction data generalizing ss with
  | nil => cases failed
  | cons byte rest ih =>
    rw [sstringCompute_cons] at failed
    split at failed
    · cases failed
    · rcases bind_error _ _ _ failed with stopped | ⟨next,_,failed⟩
      · exact matchByte_fault _ _ _ stopped
      · exact ih _ failed

end Spsc.Substring
