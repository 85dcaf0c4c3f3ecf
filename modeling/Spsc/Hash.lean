import Spsc.CStrings
import Mathlib.Data.List.TakeWhile

/-! Digests and their readable form, from `util.c`. MD5 itself is a parameter,
a function to sixteen bytes. -/
namespace Spsc.Hash
open Imperative

abbrev Digest := Vector Byte 16

def BIG_ENOUGH : Nat := 1024

def table (num : Byte) : Byte :=
  match num.toNat with
  | 1 => char '1'
  | 2 => char '2'
  | 3 => char '3'
  | 4 => char '4'
  | 5 => char '5'
  | 6 => char '6'
  | 7 => char '7'
  | 8 => char '8'
  | 9 => char '9'
  | 10 => char 'A'
  | 11 => char 'B'
  | 12 => char 'C'
  | 13 => char 'D'
  | 14 => char 'E'
  | 15 => char 'F'
  | _ => char '0'

/-- The loop of `toDec`: two digits for each byte of `b`, written to the buffer
`r` from place `j` on. -/
def writeDigits (b r : Bytes) (rlen : Nat) : C (Nat × Bytes) :=
  forLoop (fun i (j,r) => do
    let byte ← load .bounds b i
    assert (rlen > j)
    let r ← store .bounds r (j : Nat) (table ((byte >>> 4) &&& 0x0F))
    assert (rlen > j+1)
    let r ← store .bounds r ((j+1 : Nat) : Int) (table (byte &&& 0x0F))
    .ok (j+2,r)) 0 b.length (0,r)

def toDec (b r : Bytes) (rlen : Nat) : C Bytes := do
  let (j,r) ← writeDigits b r rlen
  let r ← store .bounds r j 0
  assert (rlen > j)
  .ok r

variable (md5 : Bytes → Digest)

def readableHash (s d : Bytes) (dlen : Nat) : C Bytes := toDec (md5 s).toList d dlen

/-- The local buffer `sd` is uninitialised; `toDec` ends what it writes itself. -/
def doesStringIntact (s d : Bytes) : C Bool := do
  let sd ← readableHash md5 s (List.replicate BIG_ENOUGH 0) (BIG_ENOUGH-1)
  .ok (decide ((← cString sd) = d))

def hexByte (byte : Byte) : Bytes := [table ((byte >>> 4) &&& 0x0F),table (byte &&& 0x0F)]

def hexText (b : Bytes) : Bytes := b.flatMap hexByte

@[simp] theorem hexText_nil : hexText [] = [] := rfl

theorem hexText_length (b : Bytes) : (hexText b).length = 2*b.length := by
  induction b with
  | nil => rfl
  | cons byte b ih =>
    change (hexByte byte ++ hexText b).length = _
    rw [List.length_append,ih,List.length_cons]
    simp only [hexByte,List.length_cons,List.length_nil]
    omega

/-- One turn of that loop. -/
def digitTurn (b : Bytes) (rlen : Nat) (i : Nat) (state : Nat × Bytes) : C (Nat × Bytes) := do
  let byte ← load .bounds b i
  assert (rlen > state.1)
  let r ← store .bounds state.2 (state.1 : Nat) (table ((byte >>> 4) &&& 0x0F))
  assert (rlen > state.1+1)
  let r ← store .bounds r ((state.1+1 : Nat) : Int) (table (byte &&& 0x0F))
  .ok (state.1+2,r)

theorem writeDigits_turns (b r : Bytes) (rlen : Nat) :
    writeDigits b r rlen = forLoop (digitTurn b rlen) 0 b.length (0,r) := rfl

/-- The buffer when the digits of `i` bytes have been written. -/
def written (b r : Bytes) (i : Nat) : Bytes := hexText (b.take i) ++ r.drop (2*i)

section Turn
variable (b r : Bytes) (rlen i : Nat) (bound : i < b.length)
include bound

theorem written_front : (hexText (b.take i)).length = 2*i := by
  rw [hexText_length,List.length_take]
  omega

theorem written_succ : hexText (b.take (i+1)) = hexText (b.take i) ++ hexByte b[i] := by
  rw [List.take_succ_eq_append_getElem bound,hexText,List.flatMap_append]
  simp [hexText]

theorem digitTurn_writes (room : 2*i+1 < rlen) (fits : rlen ≤ r.length) :
    digitTurn b rlen i (2*i,written b r i) = .ok (2*(i+1),written b r (i+1)) := by
  have front := written_front b i bound
  simp only [digitTurn,load_inside _ _ _ bound,bind,Except.bind]
  rw [assert_holds _ (by omega : rlen > 2*i),written]
  simp only
  rw [List.drop_eq_getElem_cons (by omega : 2*i < r.length),store_middle _ _ _ _ _ _ front,
    assert_holds _ (by omega : rlen > 2*i+1)]
  simp only
  rw [List.drop_eq_getElem_cons (by omega : 2*i+1 < r.length),List.append_cons,
    store_middle _ _ _ _ _ _ (by simp [front]),written,written_succ b i bound]
  simp [hexByte,(by omega : 2*(i+1) = 2*i+2)]

end Turn

theorem digitTurns_write (b r : Bytes) (rlen count : Nat) (some_left : count ≤ b.length) (room : 2*count ≤ rlen)
    (fits : rlen ≤ r.length) : forLoop (digitTurn b rlen) 0 count (0,r) = .ok (2*count,written b r count) := by
  have turns := forLoop_closed (digitTurn b rlen) (fun i => (2*i,written b r i)) 0 count
    (fun i _ high => digitTurn_writes b r rlen i (by omega) (by omega) fits)
  rw [Nat.zero_add] at turns
  exact turns

theorem writeDigits_eq (b r : Bytes) (rlen : Nat) (room : 2*b.length ≤ rlen) (fits : rlen ≤ r.length) :
    writeDigits b r rlen = .ok (2*b.length,hexText b ++ r.drop (2*b.length)) := by
  rw [writeDigits_turns,digitTurns_write b r rlen b.length le_rfl room fits,written,List.take_length]

theorem toDec_writes (b r : Bytes) (rlen : Nat) (room : 2*b.length < rlen) (fits : rlen ≤ r.length) :
    toDec b r rlen = .ok (hexText b ++ 0::r.drop (2*b.length+1)) := by
  rw [toDec,writeDigits_eq b r rlen room.le fits]
  simp only [bind,Except.bind]
  rw [List.drop_eq_getElem_cons (by omega : 2*b.length < r.length),
    store_middle _ _ _ _ _ _ (hexText_length b)]
  simp only
  rw [assert_holds _ room]

def IsHex (byte : Byte) : Prop := (48 ≤ byte ∧ byte ≤ 57) ∨ (65 ≤ byte ∧ byte ≤ 70)

instance (byte : Byte) : Decidable (IsHex byte) := inferInstanceAs (Decidable (_ ∨ _))

theorem table_isHex (num : Byte) : IsHex (table num) := by
  unfold table
  split <;> decide

theorem hexText_isHex (b : Bytes) : ∀ byte ∈ hexText b, IsHex byte := by
  intro byte member
  obtain ⟨source,_,digit⟩ := List.mem_flatMap.mp member
  rcases List.mem_cons.mp digit with rfl | digit
  · exact table_isHex _
  · rw [List.mem_singleton.mp digit]
    exact table_isHex _

theorem isHex_not_mem (byte : Byte) (other : ¬ IsHex byte) (text : Bytes) (hex : ∀ byte ∈ text, IsHex byte) :
    byte ∉ text := fun member => other (hex byte member)

def digestText (s : Bytes) : Bytes := hexText (md5 s).toList

theorem digestText_length (s : Bytes) : (digestText md5 s).length = 32 := by
  rw [digestText,hexText_length,Vector.length_toList]

theorem digestText_isHex (s : Bytes) : ∀ byte ∈ digestText md5 s, IsHex byte := hexText_isHex _

theorem readableHash_writes (s d : Bytes) (dlen : Nat) (room : 32 < dlen) (fits : dlen ≤ d.length) :
    readableHash md5 s d dlen = .ok (digestText md5 s ++ 0::d.drop 33) := by
  have written := toDec_writes (md5 s).toList d dlen (by rw [Vector.length_toList]; omega) fits
  rw [Vector.length_toList] at written
  exact written

theorem doesStringIntact_eq (s d : Bytes) :
    doesStringIntact md5 s d = .ok (decide (digestText md5 s = d)) := by
  have written := readableHash_writes md5 s (List.replicate BIG_ENOUGH 0) (BIG_ENOUGH-1)
    (by decide) (by rw [List.length_replicate]; decide)
  have stop := cString_terminated (digestText md5 s) ((List.replicate BIG_ENOUGH 0).drop 33)
    (isHex_not_mem 0 (by decide) _ (digestText_isHex md5 s))
  unfold doesStringIntact
  rw [written]
  simp only [bind,Except.bind,stop]

/-- MD5 on the texts that the examples of this development hash. -/
def knownMd5 (s : Bytes) : Digest :=
  if s = ascii ['a','b','c'] then
    #v[0x90,0x01,0x50,0x98,0x3C,0xD2,0x4F,0xB0,0xD6,0x96,0x3F,0x7D,0x28,0xE1,0x7F,0x72]
  else if s = ascii ['a'] then
    #v[0x0C,0xC1,0x75,0xB9,0xC0,0xF1,0xB6,0xA8,0x31,0xC3,0x99,0xE2,0x69,0x77,0x26,0x61]
  else if s = List.replicate 1023 (char 'a') then
    #v[0xE3,0xE2,0x10,0xFF,0x5D,0xFC,0x9D,0xA7,0x89,0xCD,0xBE,0xE2,0x62,0x34,0x8D,0xB6]
  else
    #v[0xD4,0x1D,0x8C,0xD9,0x8F,0x00,0xB2,0x04,0xE9,0x80,0x09,0x98,0xEC,0xF8,0x42,0x7E]

end Spsc.Hash
