import Mathlib.Data.Nat.Digits.Lemmas

/-! Decimal numerals, most significant digit first. -/
namespace Decimal

def digits (n : Nat) : List Nat := if n = 0 then [0] else (Nat.digits 10 n).reverse

def value (numeral : List Nat) : Nat := numeral.foldl (fun acc digit => acc*10 + digit) 0

theorem value_reverse (numeral : List Nat) : value numeral.reverse = Nat.ofDigits 10 numeral := by
  rw [value,List.foldl_reverse,Nat.ofDigits_eq_foldr]
  congr 1
  funext digit acc
  simp only [Nat.cast_id]
  omega

theorem value_digits (n : Nat) : value (digits n) = n := by
  unfold digits
  split
  next zero => rw [zero]; rfl
  next => rw [value_reverse,Nat.ofDigits_digits]

theorem digits_lt (n digit : Nat) (member : digit ∈ digits n) : digit < 10 := by
  unfold digits at member
  split at member
  next =>
    rw [List.mem_singleton.mp member]
    omega
  next => exact Nat.digits_lt_base (by omega) (List.mem_reverse.mp member)

theorem digits_ne_nil (n : Nat) : digits n ≠ [] := by
  unfold digits
  split
  next => simp
  next nonzero => simpa [Nat.digits_eq_nil_iff_eq_zero] using nonzero

theorem digits_length_le (n count : Nat) (some : 0 < count) (bound : n < 10^count) :
    (digits n).length ≤ count := by
  unfold digits
  split
  next => exact some
  next nonzero =>
    rw [List.length_reverse]
    exact (Nat.digits_length_le_iff (by omega) n).mpr bound

end Decimal
