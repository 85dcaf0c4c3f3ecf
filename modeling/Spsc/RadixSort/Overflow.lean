import Spsc.RadixSort.Sorted

/-! When `significantDigit *= 10` leaves the ints. The loop multiplies once more behind the last
pass that it needs. -/
namespace Spsc.RadixSort
open Imperative

/-- The loop makes the passes that `passes` lists, and multiplies after each of them. -/
theorem sortLoop_passes (largestNum : Int) (turns : Nat) (significantDigit : Int) (array sorted : List Int)
    (ran : sortLoop largestNum turns significantDigit array = .ok sorted) :
    (passes largestNum turns significantDigit).foldlM (fun array digit => sortDigit digit array) array = .ok sorted := by
  induction turns generalizing significantDigit array with
  | zero => cases ran
  | succ turns ih =>
    rw [sortLoop] at ran
    rw [passes]
    split at ran
    · next again =>
      obtain ⟨next,pass,rest⟩ := bind_ok _ _ _ ran
      rw [if_pos again,List.foldlM_cons,pass]
      exact ih _ next rest
    · next done =>
      rw [if_neg done]
      exact ran

theorem again_iff (largestNum significantDigit : Int) (nonneg : 0 ≤ largestNum) (pos : 0 < significantDigit) :
    largestNum.tdiv significantDigit > 0 ↔ significantDigit ≤ largestNum := by
  have one := Int.le_ediv_iff_mul_le (a := 1) (b := largestNum) pos
  rw [one_mul] at one
  rw [Int.tdiv_eq_ediv_of_nonneg nonneg,← one]
  exact Int.add_one_le_iff.symm

/-- Below `10^9` the powers of ten end before the last one that is an int. -/
theorem passes_small (largestNum : Int) (nonneg : 0 ≤ largestNum) (small : largestNum < 10^9) (turns k : Nat)
    (few : k ≤ 9) (significantDigit : Int) (pass : significantDigit ∈ passes largestNum turns (10^k)) :
    significantDigit * 10 ≤ 10^9 := by
  induction turns generalizing k with
  | zero => cases pass
  | succ turns ih =>
    have pos : (0 : Int) < 10^k := by positivity
    rw [passes] at pass
    split at pass
    · next again =>
      have below := (again_iff largestNum (10^k) nonneg pos).mp again
      have fewer : k < 9 := by
        by_contra last
        obtain rfl : k = 9 := by omega
        omega
      rcases List.mem_cons.mp pass with rfl | later
      · rw [← pow_succ]
        exact pow_le_pow_right₀ (by omega) fewer
      · rw [wrap32_power k fewer] at later
        exact ih (k+1) fewer later
    · cases pass

/-- From `10^9` on the loop makes a pass with `10^9`. -/
theorem passes_large (largestNum : Int) (large : 10^9 ≤ largestNum) (left : Nat) (few : left ≤ 9) :
    10^9 ∈ passes largestNum (left+1) (10^(9-left)) := by
  have nonneg : 0 ≤ largestNum := by omega
  induction left with
  | zero =>
    rw [passes,if_pos ((again_iff largestNum _ nonneg (by positivity)).mpr large)]
    exact List.mem_cons_self
  | succ left ih =>
    have below : (10 : Int)^(9-(left+1)) ≤ 10^9 := pow_le_pow_right₀ (by omega) (by omega)
    have index : 9-(left+1)+1 = 9-left := by omega
    rw [passes,if_pos ((again_iff largestNum _ nonneg (by positivity)).mpr (below.trans large)),
      wrap32_power _ (by omega),index]
    exact List.mem_cons_of_mem _ (ih (by omega))

/-- Some execution of `significantDigit *= 10` has no int for its result. -/
def Overflows (array : List Int) : Prop :=
  ∃ turns, ∃ significantDigit ∈ passes (findLargestNum array) turns 1, INT_MAX < significantDigit * 10

theorem findLargestNum_mem (array : List Int) (x : Int) (member : x ∈ array) (nonneg : 0 ≤ x) :
    findLargestNum array ∈ array := by
  rcases (fold_largest array (-1)).2.2 with none | inside
  · have above := findLargestNum_le array x member
    have least : findLargestNum array = -1 := none
    omega
  · exact inside

theorem passes_none (turns : Nat) : passes (findLargestNum []) turns 1 = [] := by
  cases turns with
  | zero => rfl
  | succ turns => rfl

theorem overflows_iff (array : List Int) (inside : ∀ x ∈ array, 0 ≤ x ∧ x ≤ INT_MAX) :
    Overflows array ↔ ∃ x ∈ array, 10^9 ≤ x := by
  constructor
  · rintro ⟨turns,significantDigit,pass,above⟩
    cases array with
    | nil =>
      rw [passes_none] at pass
      cases pass
    | cons x rest =>
      have held := findLargestNum_mem (x::rest) x List.mem_cons_self (inside x List.mem_cons_self).1
      by_contra small
      have below : findLargestNum (x::rest) < 10^9 := by
        by_contra large
        exact small ⟨_,held,by omega⟩
      have bound := passes_small _ (inside _ held).1 below turns 0 (by omega) significantDigit pass
      unfold INT_MAX at above
      omega
  · rintro ⟨x,member,large⟩
    have top := findLargestNum_le array x member
    exact ⟨10,10^9,passes_large _ (by omega) 9 le_rfl,by decide⟩

end Spsc.RadixSort
