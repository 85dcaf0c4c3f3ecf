import Spsc.Hash
import Mathlib.Tactic.IntervalCases

/-! The text of a digest against its digits as numbers, and that the comparison of two texts decides
the comparison of their digests. -/
namespace Spsc.Hash
open Imperative

def HEX_DIGITS : Bytes := ascii ['0','1','2','3','4','5','6','7','8','9','A','B','C','D','E','F']

def hexDigit (value : Nat) : Byte := HEX_DIGITS.getD value 0

/-- The high half of each byte, then its low half. -/
def upperHex (b : Bytes) : Bytes := b.flatMap (fun byte => [hexDigit (byte.toNat/16),hexDigit (byte.toNat%16)])

theorem table_hexDigit (num : Byte) (small : num.toNat < 16) : table num = hexDigit num.toNat := by
  unfold table
  generalize num.toNat = value at small
  interval_cases value
  all_goals rfl

theorem high_half (byte : Byte) : ((byte >>> 4) &&& 0x0F).toNat = byte.toNat/16 := by
  have bound := byte.toNat_lt
  have shifted : (byte >>> 4).toNat = byte.toNat/16 := by
    rw [UInt8.toNat_shiftRight]
    exact Nat.shiftRight_eq_div_pow byte.toNat 4
  have masked := Nat.and_two_pow_sub_one_eq_mod (byte.toNat/16) 4
  rw [UInt8.toNat_and,shifted]
  exact masked.trans (Nat.mod_eq_of_lt (by omega))

theorem low_half (byte : Byte) : (byte &&& 0x0F).toNat = byte.toNat%16 := by
  rw [UInt8.toNat_and]
  exact Nat.and_two_pow_sub_one_eq_mod byte.toNat 4

theorem hexByte_digits (byte : Byte) : hexByte byte = [hexDigit (byte.toNat/16),hexDigit (byte.toNat%16)] := by
  have bound := byte.toNat_lt
  have high : table ((byte >>> 4) &&& 0x0F) = hexDigit (byte.toNat/16) := by
    rw [table_hexDigit _ (by rw [high_half]; omega),high_half]
  have low : table (byte &&& 0x0F) = hexDigit (byte.toNat%16) := by
    rw [table_hexDigit _ (by rw [low_half]; omega),low_half]
  rw [hexByte,high,low]

theorem hexText_digits (b : Bytes) : hexText b = upperHex b := List.flatMap_congr (fun byte _ => hexByte_digits byte)

theorem hexDigit_injective : ∀ m < 16, ∀ n < 16, hexDigit m = hexDigit n → m = n := by decide

theorem upperHex_injective (b c : Bytes) (same : upperHex b = upperHex c) : b = c := by
  induction b generalizing c with
  | nil =>
    cases c with
    | nil => rfl
    | cons byte c => cases same
  | cons byte b ih =>
    cases c with
    | nil => cases same
    | cons other c =>
      have bound := byte.toNat_lt
      have bound' := other.toNat_lt
      obtain ⟨first,later⟩ := List.cons.inj same
      obtain ⟨second,rest⟩ := List.cons.inj later
      have high := hexDigit_injective _ (by omega) _ (by omega) first
      have low := hexDigit_injective _ (by omega) _ (by omega) second
      have value : byte = other := UInt8.toNat_inj.mp (by omega)
      rw [value,ih c rest]

section Calls
variable (md5 : Bytes → Digest)

/-- `slen` bytes of `s` are hashed, and `snum` is not read. -/
def readableHashCall (s : Bytes) (slen : Nat) (_snum : Int) (d : Bytes) (dlen : Nat) : C Bytes :=
  if slen ≤ s.length then readableHash md5 (s.take slen) d dlen else .error .bounds

def doesStringIntactCall (s : Bytes) (slen : Nat) (_num : Int) (d : Bytes) : C Bool :=
  if slen ≤ s.length then do doesStringIntact md5 (s.take slen) (← cString d) else .error .bounds

theorem readableHashCall_whole (s d : Bytes) (num : Int) (dlen : Nat) :
    readableHashCall md5 s s.length num d dlen = readableHash md5 s d dlen := by
  rw [readableHashCall,if_pos le_rfl,List.take_length]

theorem doesStringIntactCall_whole (s text rest : Bytes) (num : Int) (solid : 0 ∉ text) :
    doesStringIntactCall md5 s s.length num (text ++ 0::rest) = .ok (decide (text = upperHex (md5 s).toList)) := by
  rw [doesStringIntactCall,if_pos le_rfl,List.take_length,cString_terminated text rest solid]
  change doesStringIntact md5 s text = _
  rw [doesStringIntact_eq,digestText,hexText_digits]
  congr 1
  exact decide_eq_decide.mpr eq_comm

theorem toDec_digits (b r : Bytes) (rlen : Nat) (room : 2*b.length+1 ≤ rlen) (fits : rlen ≤ r.length) :
    toDec b r rlen = .ok (upperHex b ++ 0::r.drop (2*b.length+1)) := by
  rw [toDec_writes b r rlen room fits,hexText_digits]

theorem toDec_injective (b c r : Bytes) (rlen : Nat) (room : 2*b.length+1 ≤ rlen) (fits : rlen ≤ r.length)
    (size : b.length = c.length) (same : toDec b r rlen = toDec c r rlen) : b = c := by
  rw [toDec_digits b r rlen room fits,toDec_digits c r rlen (size ▸ room) fits,size] at same
  exact upperHex_injective b c (List.append_cancel_right (Except.ok.inj same))

/-- The text that a digest is compared by has its digits, and no other digest has that text. -/
theorem verification_exact :
    (∀ (b r : Bytes) (rlen : Nat), 2*b.length+1 ≤ rlen → rlen ≤ r.length →
      toDec b r rlen = .ok (upperHex b ++ 0::r.drop (2*b.length+1))) ∧
    (∀ (b c r : Bytes) (rlen : Nat), 2*b.length+1 ≤ rlen → rlen ≤ r.length → b.length = c.length →
      toDec b r rlen = toDec c r rlen → b = c) ∧
    (∀ (s text rest : Bytes) (num : Int), 0 ∉ text →
      doesStringIntactCall md5 s s.length num (text ++ 0::rest) = .ok (decide (text = upperHex (md5 s).toList))) ∧
    (∀ (s t d : Bytes) (num times : Int) (dlen : Nat), 32 < dlen → dlen ≤ d.length →
      readableHashCall md5 s s.length num d dlen = readableHashCall md5 t t.length times d dlen → md5 s = md5 t) := by
  refine ⟨toDec_digits,toDec_injective,doesStringIntactCall_whole md5,?_⟩
  intro s t d num times dlen room fits same
  rw [readableHashCall_whole,readableHashCall_whole] at same
  have size : (md5 s).toList.length = (md5 t).toList.length := by rw [Vector.length_toList,Vector.length_toList]
  have equal := toDec_injective _ _ d dlen (by rw [Vector.length_toList]; omega) fits size same
  exact Vector.toList_inj.mp equal

end Calls

theorem verification_exact_abc : doesStringIntactCall knownMd5 (ascii ['a','b','c']) 3 1
    (upperHex (knownMd5 (ascii ['a','b','c'])).toList ++ [0]) = .ok true := by
  have accepted := (verification_exact knownMd5).2.2.1 (ascii ['a','b','c'])
    (upperHex (knownMd5 (ascii ['a','b','c'])).toList) [] 1 (by decide +kernel)
  rw [decide_eq_true rfl] at accepted
  exact accepted

end Spsc.Hash
