import Spsc.Lib.Imperative
import Mathlib.Algebra.Group.Nat.Defs

/-! What the C sources take from the language: bytes, 32-bit ints, and the ways
a run can go wrong. A failed assertion aborts the process; the other faults are
undefined behaviour, which no modelled run continues past. -/
namespace Spsc

abbrev Byte := UInt8
abbrev Bytes := List UInt8

inductive Fault where
  | assert
  | bounds
  | divide
  | spin
  deriving DecidableEq, Repr

abbrev C := Except Fault

def INT_MAX : Int := 2147483647

/-- The low 32 bits of `x`, read as a two's-complement int. -/
def wrap32 (x : Int) : Int := Int.bmod x (2^32)

theorem wrap32_small (x : Int) (low : -INT_MAX-1 ≤ x) (high : x ≤ INT_MAX) : wrap32 x = x := by
  unfold INT_MAX at low high
  exact Int.bmod_eq_of_le_mul_two (by omega) (by omega)

theorem wrap32_eq_self (x : Int) (nonneg : 0 ≤ x) : wrap32 x = x ↔ x ≤ INT_MAX := by
  constructor
  · intro same
    have := Int.bmod_lt (x := x) (by decide : 0 < 2^32)
    unfold wrap32 at same
    unfold INT_MAX
    omega
  · intro high
    exact wrap32_small x (by unfold INT_MAX; omega) high

def assert (condition : Prop) [Decidable condition] : C Unit :=
  if condition then .ok () else .error .assert

theorem assert_holds (condition : Prop) [Decidable condition] (holds : condition) :
    assert condition = .ok () := if_pos holds

theorem assert_ok (condition : Prop) [Decidable condition] {passed : Unit} (ran : assert condition = .ok passed) :
    condition := by
  unfold assert at ran
  split at ran
  · assumption
  · cases ran

end Spsc
