import Spsc.CValues
import Spsc.Lib.Search

/-! Characters and NUL-terminated strings in byte buffers. -/
namespace Spsc

def char (c : Char) : Byte := c.toNat.toUInt8

def ascii (chars : List Char) : Bytes := chars.map char

/-- The text before the first NUL. A buffer without one is read past its end. -/
def cString (buffer : Bytes) : C Bytes :=
  if 0 ∈ buffer then .ok (buffer.takeWhile (fun byte => byte != 0)) else .error .bounds

def strstr (buffer needle : Bytes) : C (Option Nat) := do
  let text ← cString buffer
  .ok (Search.find needle text)

theorem cString_terminated (text rest : Bytes) (inside : 0 ∉ text) :
    cString (text ++ 0::rest) = .ok text := by
  have used : ∀ byte ∈ text, (byte != 0) = true := by
    intro byte member
    exact bne_iff_ne.mpr (fun zero => inside (zero ▸ member))
  have stop : (text ++ 0::rest).takeWhile (fun byte => byte != 0) = text := by
    rw [List.takeWhile_append_of_pos used,List.takeWhile_cons_of_neg (by simp),List.append_nil]
  rw [cString,if_pos (by simp),stop]

theorem strstr_terminated (text rest needle : Bytes) (inside : 0 ∉ text) :
    strstr (text ++ 0::rest) needle = .ok (Search.find needle text) := by
  rw [strstr,cString_terminated text rest inside]
  rfl

end Spsc
