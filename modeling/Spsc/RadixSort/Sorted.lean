import Spsc.RadixSort.Pass
import Mathlib.Tactic.NormNum
import Mathlib.Tactic.Linarith
import Mathlib.Algebra.Order.Ring.Int

/-! `radix_sort` returns an ascending permutation of every array of non-negative
ints, also where `significantDigit` wraps. -/
namespace Spsc.RadixSort
open Imperative Buckets

/-- Ascending by the lowest `k` decimal digits. -/
def LowOrder (k : Nat) (array : List Int) : Prop :=
  array.Pairwise (fun x y => x % 10^k ≤ y % 10^k)

theorem emod_next (x p : Int) (nonneg : 0 ≤ x) (pos : 0 < p) :
    x % (p*10) = x % p + p * (x / p % 10) := by
  lift x to Nat using nonneg
  lift p to Nat using pos.le
  exact_mod_cast Nat.mod_mul

theorem slot_eq (significantDigit x : Int) (nonneg : 0 ≤ x) (pos : 0 < significantDigit) :
    (slot significantDigit x : Int) = x / significantDigit % 10 := by
  rw [← digit_slot _ _ nonneg pos,digit_eq _ _ nonneg pos]

theorem distribute_nonneg (significantDigit : Int) (pos : 0 < significantDigit) (array : List Int)
    (nonneg : ∀ x ∈ array, 0 ≤ x) :
    (distribute (slot significantDigit) 10 array).Perm array :=
  distribute_perm _ _ _ (fun x member => slot_lt _ _ (nonneg x member) pos)

theorem lowOrder_next (k : Nat) (array : List Int) (nonneg : ∀ x ∈ array, 0 ≤ x)
    (sorted : LowOrder k array) : LowOrder (k+1) (distribute (slot (10^k)) 10 array) := by
  have pos : (0 : Int) < 10^k := by positivity
  have same := distribute_nonneg (10^k) pos array nonneg
  apply (distribute_pairwise (slot (10^k)) 10 array _ sorted).imp_of_mem
  intro x y hx hy order
  have xn := nonneg x (same.mem_iff.mp hx)
  have yn := nonneg y (same.mem_iff.mp hy)
  have xs := slot_eq (10^k) x xn pos
  have ys := slot_eq (10^k) y yn pos
  have xlow := Int.emod_lt_of_pos x pos
  have ylow := Int.emod_nonneg y pos.ne'
  rw [pow_succ,emod_next x _ xn pos,emod_next y _ yn pos,← xs,← ys]
  rcases order with less | ⟨equal,low⟩
  · have step : (slot (10^k) x : Int) + 1 ≤ slot (10^k) y := by omega
    nlinarith [mul_le_mul_of_nonneg_left step pos.le]
  · rw [equal]
    linarith

theorem distribute_high (significantDigit : Int) (array : List Int)
    (large : INT_MAX / 10 < significantDigit) (inside : ∀ x ∈ array, 0 ≤ x ∧ x ≤ INT_MAX)
    (sorted : array.Pairwise (· ≤ ·)) :
    (distribute (slot significantDigit) 10 array).Pairwise (· ≤ ·) := by
  unfold INT_MAX at large inside
  have pos : 0 < significantDigit := by omega
  have same := distribute_nonneg significantDigit pos array (fun x member => (inside x member).1)
  apply (distribute_pairwise (slot significantDigit) 10 array _ sorted).imp_of_mem
  intro x y hx hy order
  obtain ⟨xn,xh⟩ := inside x (same.mem_iff.mp hx)
  obtain ⟨yn,yh⟩ := inside y (same.mem_iff.mp hy)
  rcases order with less | ⟨_,low⟩
  · have xs := slot_eq significantDigit x xn pos
    have ys := slot_eq significantDigit y yn pos
    -- the quotients are below ten, so the slots are the quotients
    have xd : x / significantDigit < 10 := Int.ediv_lt_of_lt_mul pos (by omega)
    have yd : y / significantDigit < 10 := Int.ediv_lt_of_lt_mul pos (by omega)
    have xq := Int.ediv_nonneg xn pos.le
    have yq := Int.ediv_nonneg yn pos.le
    by_contra above
    have ordered := Int.ediv_le_ediv pos (by omega : y ≤ x)
    omega
  · exact low

section Loop
variable (largestNum : Int) (top : largestNum ≤ INT_MAX)

theorem sortLoop_turn (turns : Nat) (significantDigit : Int) (array : List Int)
    (more : largestNum.tdiv significantDigit > 0) (pos : 0 < significantDigit)
    (nonneg : ∀ x ∈ array, 0 ≤ x) :
    sortLoop largestNum (turns+1) significantDigit array =
      sortLoop largestNum turns (wrap32 (significantDigit * 10))
        (distribute (slot significantDigit) 10 array) := by
  rw [sortLoop,if_pos more,sortDigit_distributes _ pos _ nonneg]
  rfl

theorem sortLoop_stop (turns : Nat) (significantDigit : Int) (array : List Int)
    (done : ¬largestNum.tdiv significantDigit > 0) :
    sortLoop largestNum (turns+1) significantDigit array = .ok array := by
  rw [sortLoop,if_neg done]

theorem below_of_done (significantDigit x : Int) (pos : 0 < significantDigit) (le : x ≤ largestNum)
    (done : ¬largestNum.tdiv significantDigit > 0) : x < significantDigit := by
  by_contra above
  apply done
  rw [Int.tdiv_eq_ediv_of_nonneg (by omega)]
  have one : 1 ≤ largestNum / significantDigit := Int.le_ediv_of_mul_le pos (by omega)
  omega

def Sorts (array : List Int) (outcome : C (List Int)) : Prop :=
  ∃ sorted, outcome = .ok sorted ∧ sorted.Perm array ∧ sorted.Pairwise (· ≤ ·)

variable (array : List Int) (inside : ∀ x ∈ array, 0 ≤ x ∧ x ≤ largestNum)

include top inside

/-- Past `10^9` the divisor has wrapped; the array is sorted by then and the two
passes that can still run keep it so. -/
theorem sortLoop_wrapped (turns : Nat) (sorted : array.Pairwise (· ≤ ·)) :
    Sorts array (sortLoop largestNum (turns+3) 1410065408 array) := by
  by_cases more : largestNum.tdiv 1410065408 > 0
  · have nonneg : ∀ x ∈ array, 0 ≤ x := fun x member => (inside x member).1
    have bounded : ∀ x ∈ array, 0 ≤ x ∧ x ≤ INT_MAX :=
      fun x member => ⟨(inside x member).1,(inside x member).2.trans top⟩
    rw [sortLoop_turn _ _ _ _ more (by omega) nonneg,
      show wrap32 (1410065408 * 10) = 1215752192 from rfl]
    have same := distribute_nonneg 1410065408 (by omega) array nonneg
    have next := distribute_high 1410065408 array (by decide) bounded sorted
    generalize distribute (slot 1410065408) 10 array = first at same next
    by_cases again : largestNum.tdiv 1215752192 > 0
    · have firstNonneg : ∀ x ∈ first, 0 ≤ x := fun x member => nonneg x (same.mem_iff.mp member)
      rw [sortLoop_turn _ _ _ _ again (by omega) firstNonneg,
        show wrap32 (1215752192 * 10) = -727379968 from rfl]
      have positive : 0 ≤ largestNum := by
        by_contra negative
        have zero : (-727379968 : Int) ≤ 0 := by omega
        have least : largestNum.tdiv 1215752192 ≤ 0 := by
          rw [← Int.neg_neg largestNum,Int.neg_tdiv]
          have := Int.tdiv_nonneg (by omega : 0 ≤ -largestNum) (by omega : (0 : Int) ≤ 1215752192)
          omega
        omega
      have nonpos := Int.tdiv_nonpos_of_nonneg_of_nonpos positive (by omega : (-727379968 : Int) ≤ 0)
      rw [sortLoop_stop _ _ _ _ (by omega)]
      exact ⟨_,rfl,(distribute_nonneg 1215752192 (by omega) first firstNonneg).trans same,
        distribute_high 1215752192 first (by decide)
          (fun x member => bounded x (same.mem_iff.mp member)) next⟩
    · rw [sortLoop_stop _ _ _ _ again]
      exact ⟨first,rfl,same,next⟩
  · rw [sortLoop_stop _ _ _ _ more]
    exact ⟨array,rfl,.refl _,sorted⟩

omit top in
theorem sorted_of_done (k : Nat) (low : LowOrder k array)
    (done : ¬largestNum.tdiv (10^k) > 0) : array.Pairwise (· ≤ ·) := by
  apply low.imp_of_mem
  intro x y hx hy order
  obtain ⟨xn,xl⟩ := inside x hx
  obtain ⟨yn,yl⟩ := inside y hy
  have pos : (0 : Int) < 10^k := by positivity
  rwa [Int.emod_eq_of_lt xn (below_of_done _ _ _ pos xl done),
    Int.emod_eq_of_lt yn (below_of_done _ _ _ pos yl done)] at order

omit array inside top largestNum in
theorem wrap32_power (k : Nat) (small : k < 9) : wrap32 (10^k * 10) = 10^(k+1) := by
  have below : (10 : Int)^(k+1) ≤ 10^9 := pow_le_pow_right₀ (by omega) (by omega)
  have pos : (0 : Int) < 10^(k+1) := by positivity
  rw [← pow_succ]
  exact wrap32_small _ (by unfold INT_MAX; omega) (by unfold INT_MAX; omega)

omit array inside top in
theorem sortLoop_digits (top : largestNum ≤ INT_MAX) (left : Nat) (few : left ≤ 9) (array : List Int)
    (inside : ∀ x ∈ array, 0 ≤ x ∧ x ≤ largestNum) (low : LowOrder (9-left) array) :
    Sorts array (sortLoop largestNum (left+4) (10^(9-left)) array) := by
  induction left generalizing array with
  | zero =>
    by_cases more : largestNum.tdiv (10^9) > 0
    · have nonneg : ∀ x ∈ array, 0 ≤ x := fun x member => (inside x member).1
      have same := distribute_nonneg (10^9) (by omega) array nonneg
      have next := lowOrder_next 9 array nonneg low
      have bounded : ∀ x ∈ distribute (slot (10^9)) 10 array, 0 ≤ x ∧ x ≤ largestNum :=
        fun x member => inside x (same.mem_iff.mp member)
      have sorted : (distribute (slot (10^9)) 10 array).Pairwise (· ≤ ·) := by
        apply next.imp_of_mem
        intro x y hx hy order
        have xb := bounded x hx
        have yb := bounded y hy
        unfold INT_MAX at top
        rwa [Int.emod_eq_of_lt xb.1 (by omega),Int.emod_eq_of_lt yb.1 (by omega)] at order
      rw [show 0+4 = 3+1 from rfl,Nat.sub_zero,sortLoop_turn _ _ _ _ more (by omega) nonneg,
        show wrap32 (10^9 * 10) = 1410065408 from rfl]
      obtain ⟨result,ran,perm,ascending⟩ := sortLoop_wrapped largestNum top _ bounded 0 sorted
      exact ⟨result,ran,perm.trans same,ascending⟩
    · rw [Nat.sub_zero,sortLoop_stop _ _ _ _ more]
      exact ⟨array,rfl,.refl _,sorted_of_done largestNum array inside 9 low more⟩
  | succ left ih =>
    by_cases more : largestNum.tdiv (10^(9-(left+1))) > 0
    · have nonneg : ∀ x ∈ array, 0 ≤ x := fun x member => (inside x member).1
      have pos : (0 : Int) < 10^(9-(left+1)) := by positivity
      have same := distribute_nonneg _ pos array nonneg
      have next := lowOrder_next _ array nonneg low
      have index : 9-(left+1)+1 = 9-left := by omega
      have power := wrap32_power (9-(left+1)) (by omega)
      rw [index] at power
      rw [show left+1+4 = left+4+1 from rfl,sortLoop_turn _ _ _ _ more pos nonneg,power]
      rw [index] at next
      obtain ⟨result,ran,perm,ascending⟩ := ih (by omega) _
        (fun x member => inside x (same.mem_iff.mp member)) next
      exact ⟨result,ran,perm.trans same,ascending⟩
    · rw [sortLoop_stop _ _ _ _ more]
      exact ⟨array,rfl,.refl _,sorted_of_done largestNum array inside _ low more⟩

end Loop

theorem fold_largest (array : List Int) (initial : Int) :
    let largest := array.foldl (fun largestNum x => if x > largestNum then x else largestNum) initial
    initial ≤ largest ∧ (∀ x ∈ array, x ≤ largest) ∧ (largest = initial ∨ largest ∈ array) := by
  induction array generalizing initial with
  | nil => simp
  | cons x rest ih =>
    simp only [List.foldl_cons]
    obtain ⟨low,all,source⟩ := ih (if x > initial then x else initial)
    have next : initial ≤ (if x > initial then x else initial) ∧
        x ≤ (if x > initial then x else initial) := by split <;> omega
    have from_these : (if x > initial then x else initial) = initial ∨
        (if x > initial then x else initial) = x := by split <;> simp
    refine ⟨next.1.trans low,?_,?_⟩
    · intro y member
      rcases List.mem_cons.mp member with rfl | tail
      · exact next.2.trans low
      · exact all y tail
    · rcases source with same | tail
      · rcases from_these with old | new
        · exact .inl (same.trans old)
        · exact .inr (by rw [same,new]; exact List.mem_cons_self)
      · exact .inr (List.mem_cons_of_mem _ tail)

theorem findLargestNum_le (array : List Int) (x : Int) (member : x ∈ array) :
    x ≤ findLargestNum array := (fold_largest array (-1)).2.1 x member

theorem findLargestNum_top (array : List Int) (top : ∀ x ∈ array, x ≤ INT_MAX) :
    findLargestNum array ≤ INT_MAX := by
  rcases (fold_largest array (-1)).2.2 with none | member
  · exact none.le.trans (by decide)
  · exact top _ member

/-- `radix_sort` ends, with every access inside its array and bucket, and leaves
an ascending permutation, for every array of non-negative ints. -/
theorem radixSort_sorts (array : List Int) (inside : ∀ x ∈ array, 0 ≤ x ∧ x ≤ INT_MAX) :
    Sorts array (radixSort array) := by
  have top := findLargestNum_top array (fun x member => (inside x member).2)
  have all : ∀ x ∈ array, 0 ≤ x ∧ x ≤ findLargestNum array :=
    fun x member => ⟨(inside x member).1,findLargestNum_le array x member⟩
  have low : LowOrder 0 array := by
    apply List.pairwise_of_forall
    intro x y
    simp
  exact sortLoop_digits (findLargestNum array) top 9 (by omega) array all low

theorem sortLoop_more (largestNum : Int) (turns more : Nat) (significantDigit : Int) (array sorted : List Int)
    (ran : sortLoop largestNum turns significantDigit array = .ok sorted) :
    sortLoop largestNum (turns+more) significantDigit array = .ok sorted := by
  induction turns generalizing significantDigit array with
  | zero => cases ran
  | succ turns ih =>
    rw [Nat.add_right_comm]
    rw [sortLoop] at ran ⊢
    split at ran
    · next again =>
      obtain ⟨next,pass,rest⟩ := bind_ok _ _ _ ran
      rw [if_pos again,pass]
      exact ih _ next rest
    · next done =>
      rw [if_neg done]
      exact ran

/-- The values of `significantDigit` with which the loop makes a pass. -/
def passes (largestNum : Int) : Nat → Int → List Int
  | 0, _ => []
  | turns+1, significantDigit =>
    if largestNum.tdiv significantDigit > 0 then significantDigit::passes largestNum turns (wrap32 (significantDigit * 10))
    else []

/-- A wrapped value that is not positive does not pass the loop's test. -/
theorem passes_pos (largestNum : Int) (nonneg : 0 ≤ largestNum) (turns : Nat) (first significantDigit : Int)
    (pass : significantDigit ∈ passes largestNum turns first) : 0 < significantDigit := by
  induction turns generalizing first with
  | zero => cases pass
  | succ turns ih =>
    rw [passes] at pass
    split at pass
    · next again =>
      rcases List.mem_cons.mp pass with rfl | later
      · by_contra negative
        have := Int.tdiv_nonpos_of_nonneg_of_nonpos nonneg (by omega : significantDigit ≤ 0)
        omega
      · exact ih _ later
    · cases pass

/-- However many turns the loop is given beyond the thirteen that it needs, it ends with the same
array, ascending and with the elements it began with; every pass counts in its ten buckets. -/
theorem radixSort_ascending (array : List Int) (inside : ∀ x ∈ array, 0 ≤ x ∧ x ≤ INT_MAX) :
    (∃ sorted, (∀ more, sortLoop (findLargestNum array) (sortTurns+more) 1 array = .ok sorted) ∧
      sorted.Perm array ∧ sorted.Pairwise (· ≤ ·)) ∧
    ∀ turns, ∀ significantDigit ∈ passes (findLargestNum array) turns 1, ∀ x ∈ array,
      0 ≤ digit significantDigit x ∧ digit significantDigit x ≤ 9 := by
  constructor
  · obtain ⟨sorted,ran,perm,ascending⟩ := radixSort_sorts array inside
    exact ⟨sorted,fun more => sortLoop_more _ _ more _ _ _ ran,perm,ascending⟩
  · intro turns significantDigit pass x member
    have nonneg := (inside x member).1
    have pos := passes_pos _ (nonneg.trans (findLargestNum_le array x member)) turns 1 significantDigit pass
    have small := slot_lt significantDigit x nonneg pos
    rw [digit_slot significantDigit x nonneg pos]
    omega

theorem radixSort_ascending_wrapped :
    sortLoop (findLargestNum [2147483647,0,1410065408,7]) (sortTurns+5) 1 [2147483647,0,1410065408,7] =
      .ok [0,7,1410065408,2147483647] := by
  obtain ⟨⟨sorted,ran,_⟩,_⟩ := radixSort_ascending [2147483647,0,1410065408,7] (by decide)
  have computed : sortLoop (findLargestNum [2147483647,0,1410065408,7]) (sortTurns+0) 1 [2147483647,0,1410065408,7] =
      .ok [0,7,1410065408,2147483647] := by decide +kernel
  obtain rfl := Except.ok.inj ((ran 0).symm.trans computed)
  exact ran 5

end Spsc.RadixSort
