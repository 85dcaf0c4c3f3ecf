import Spsc.RadixSort.Overflow
import Mathlib.Data.Nat.Digits.Lemmas

/-! What `radix_sort` does with any array of ints. A negative element has digits that are
not positive: the pass that finds one below zero leaves its bucket, and an element without
such a digit is sorted as a zero. -/
namespace Spsc.RadixSort
open Imperative Buckets

section Digit
variable (significantDigit : Int) (array : List Int)

theorem countDigits_negative (x : Int) (member : x ∈ array) (negative : digit significantDigit x < 0) :
    countDigits significantDigit array = .error .bounds := by
  cases ran : countDigits significantDigit array with
  | error fault =>
    rw [forLoop_error _ .bounds _ _ _ fault (fun i bucket fault failed => ?_) ran]
    rcases bind_error _ _ _ failed with loaded | ⟨y,_,rest⟩
    · exact load_error _ _ _ _ loaded
    rcases bind_error _ _ _ rest with loaded | ⟨n,_,stored⟩
    · exact load_error _ _ _ _ loaded
    · exact store_error _ _ _ _ _ stored
  | ok bucket =>
    obtain ⟨i,bound,rfl⟩ := List.getElem_of_mem member
    obtain ⟨s,t,turn⟩ := forLoop_turns _ _ _ _ _ ran i (Nat.zero_le i) (by omega)
    obtain ⟨y,loaded,rest⟩ := bind_ok _ _ _ turn
    rw [load_inside _ _ _ bound] at loaded
    obtain rfl := Except.ok.inj loaded
    obtain ⟨n,counted,_⟩ := bind_ok _ _ _ rest
    rw [load_negative _ _ _ negative] at counted
    cases counted

theorem sortDigit_negative (nonzero : significantDigit ≠ 0) (x : Int) (member : x ∈ array)
    (negative : digit significantDigit x < 0) : sortDigit significantDigit array = .error .bounds := by
  rw [sortDigit,if_neg nonzero,countDigits_negative significantDigit array x member negative]
  rfl

end Digit

section Loop
variable (largestNum : Int) (nonneg : 0 ≤ largestNum)
include nonneg

theorem sortLoop_negative (turns : Nat) (first : Int) (array : List Int) (significantDigit : Int)
    (pass : significantDigit ∈ passes largestNum turns first) (x : Int) (member : x ∈ array)
    (negative : digit significantDigit x < 0) : sortLoop largestNum turns first array = .error .bounds := by
  induction turns generalizing first array with
  | zero => cases pass
  | succ turns ih =>
    have positive := passes_pos largestNum nonneg (turns+1) first
    rw [passes] at pass positive
    split at pass
    · next again =>
      rw [if_pos again] at positive
      have nonzero : first ≠ 0 := (positive first List.mem_cons_self).ne'
      rw [sortLoop,if_pos again]
      by_cases here : ∃ y ∈ array, digit first y < 0
      · obtain ⟨y,inside,below⟩ := here
        rw [sortDigit_negative first array nonzero y inside below]
        rfl
      · have digits : ∀ y ∈ array, 0 ≤ digit first y := by
          intro y inside
          by_contra below
          exact here ⟨y,inside,by omega⟩
        rw [sortDigit_slots first array digits nonzero]
        have same := distribute_perm (slot first) 10 array (fun y _ => slot_lt_ten first y)
        rcases List.mem_cons.mp pass with rfl | later
        · exact absurd ⟨x,member,negative⟩ here
        · exact ih _ _ later (same.mem_iff.mpr member)
    · cases pass

/-- The loop moves the elements as it moves others with the same digits, and keeps the order of
those that it cannot tell apart. -/
theorem sortLoop_map (f : Int → Int) (turns : Nat) (first : Int) (array result : List Int)
    (digits : ∀ significantDigit ∈ passes largestNum turns first, ∀ x ∈ array,
      0 ≤ digit significantDigit x ∧ digit significantDigit (f x) = digit significantDigit x)
    (ran : sortLoop largestNum turns first (array.map f) = .ok result) :
    ∃ sorted, sortLoop largestNum turns first array = .ok sorted ∧ sorted.map f = result ∧ sorted.Perm array ∧
      ∀ y, sorted.filter (fun x => f x = y) = array.filter (fun x => f x = y) := by
  induction turns generalizing first array with
  | zero => cases ran
  | succ turns ih =>
    have positive := passes_pos largestNum nonneg (turns+1) first
    rw [passes] at digits positive
    rw [sortLoop] at ran ⊢
    by_cases again : largestNum.tdiv first > 0
    · rw [if_pos again] at digits positive ran ⊢
      have nonzero : first ≠ 0 := (positive first List.mem_cons_self).ne'
      have here := digits first List.mem_cons_self
      have mapped : ∀ x ∈ array.map f, 0 ≤ digit first x := by
        intro x member
        obtain ⟨y,inside,rfl⟩ := List.mem_map.mp member
        rw [(here y inside).2]
        exact (here y inside).1
      have slots : ∀ x ∈ array, slot first (f x) = slot first x :=
        fun x member => congrArg Int.toNat (here x member).2
      have same := distribute_perm (slot first) 10 array (fun y _ => slot_lt_ten first y)
      rw [sortDigit_slots first _ mapped nonzero,← distribute_map (slot first) _ f 10 array slots] at ran
      rw [sortDigit_slots first array (fun x member => (here x member).1) nonzero]
      obtain ⟨sorted,rest,result_eq,perm,kept⟩ := ih (wrap32 (first*10)) (distribute (slot first) 10 array)
        (fun p pass x member => digits p (List.mem_cons_of_mem _ pass) x (same.mem_iff.mp member)) ran
      refine ⟨sorted,rest,result_eq,perm.trans same,fun y => (kept y).trans ?_⟩
      refine distribute_filter (slot first) 10 array _ (slot first y) (slot_lt_ten first y) (fun x member alike => ?_)
      rw [← slots x member,of_decide_eq_true alike]
    · rw [if_neg again] at ran ⊢
      exact ⟨array,rfl,Except.ok.inj ran,.refl _,fun _ => rfl⟩

end Loop

theorem digit_multiple (j : Nat) (x : Int) (multiple : 10^(j+1) ∣ x) : digit (10^j) x = 0 := by
  obtain ⟨m,rfl⟩ := multiple
  have pos : (0 : Int) < 10^j := by positivity
  rw [digit,pow_succ,mul_assoc,Int.mul_tdiv_cancel_left _ pos.ne']
  exact Int.mul_tmod_right 10 m

/-- Digit after digit of a negative number is zero when none of them is below zero. -/
theorem power_dvd (x : Int) (negative : x < 0) (d : Nat) (digits : ∀ j < d, 0 ≤ digit (10^j) x) : 10^d ∣ x := by
  induction d with
  | zero => exact one_dvd x
  | succ d ih =>
    obtain ⟨m,rfl⟩ := ih (fun j less => digits j (by omega))
    have pos : (0 : Int) < 10^d := by positivity
    have below : m < 0 := by
      by_contra above
      have := mul_nonneg pos.le (not_lt.mp above)
      omega
    have last := digits d (by omega)
    rw [digit,Int.mul_tdiv_cancel_left _ pos.ne',← neg_neg m,Int.neg_tmod,
      Int.tmod_eq_emod_of_nonneg (by omega)] at last
    have tens : (10 : Int) ∣ m := by omega
    rw [pow_succ]
    exact mul_dvd_mul_left _ tens

section Passes
variable (largestNum : Int)

theorem passes_power (left more k : Nat) (few : k+left ≤ 9) (reached : 10^(k+left) ≤ largestNum) :
    10^(k+left) ∈ passes largestNum (left+1+more) (10^k) := by
  have nonneg : 0 ≤ largestNum := (by positivity : (0 : Int) ≤ 10^(k+left)).trans reached
  have again : ∀ k', k' ≤ k+left → largestNum.tdiv (10^k') > 0 := by
    intro k' less
    exact (again_iff largestNum _ nonneg (by positivity)).mpr ((pow_le_pow_right₀ (by omega) less).trans reached)
  induction left generalizing k with
  | zero =>
    rw [Nat.add_right_comm,passes,if_pos (again k (by omega))]
    exact List.mem_cons_self
  | succ left ih =>
    have index : k+(left+1) = k+1+left := by omega
    rw [show left+1+1+more = left+1+more+1 by omega,passes,if_pos (again k (by omega)),wrap32_power k (by omega),index]
    rw [index] at few reached again
    exact List.mem_cons_of_mem _ (ih (k+1) few reached again)

theorem passes_powers (nonneg : 0 ≤ largestNum) (small : largestNum < 10^9) (turns k : Nat) (few : k ≤ 9)
    (significantDigit : Int) (pass : significantDigit ∈ passes largestNum turns (10^k)) :
    ∃ j, significantDigit = 10^j ∧ 10^j ≤ largestNum := by
  induction turns generalizing k with
  | zero => cases pass
  | succ turns ih =>
    rw [passes] at pass
    split at pass
    · next again =>
      have below := (again_iff largestNum (10^k) nonneg (by positivity)).mp again
      have fewer : k < 9 := by
        by_contra last
        obtain rfl : k = 9 := by omega
        omega
      rcases List.mem_cons.mp pass with rfl | later
      · exact ⟨k,rfl,below⟩
      · rw [wrap32_power k fewer] at later
        exact ih (k+1) fewer later
    · cases pass

end Passes

/-- How many decimal digits the largest element has. -/
def decimals (array : List Int) : Nat := (Nat.digits 10 (findLargestNum array).toNat).length

theorem lt_decimals (array : List Int) (nonneg : 0 ≤ findLargestNum array) (j : Nat) :
    j < decimals array ↔ 10^j ≤ findLargestNum array := by
  rw [decimals,Nat.lt_digits_length_iff (by decide),Int.le_toNat nonneg]
  exact_mod_cast Iff.rfl

/-- Every negative element ends in as many zeros as the largest element has digits. -/
def Multiples (array : List Int) : Prop := ∀ x ∈ array, x < 0 → 10^decimals array ∣ x

section Array
variable (array : List Int) (nonneg : 0 ≤ findLargestNum array)
  (inside : ∀ x ∈ array, -INT_MAX-1 ≤ x ∧ x ≤ INT_MAX)
include nonneg inside

theorem multiples_iff : Multiples array ↔
    ∀ significantDigit ∈ passes (findLargestNum array) sortTurns 1, ∀ x ∈ array, 0 ≤ digit significantDigit x := by
  have top := findLargestNum_top array (fun x member => (inside x member).2)
  constructor
  · intro multiples significantDigit pass x member
    have pos := passes_pos _ nonneg _ _ _ pass
    by_cases negative : x < 0
    · have multiple := multiples x member negative
      by_cases small : findLargestNum array < 10^9
      · obtain ⟨j,rfl,reached⟩ := passes_powers _ nonneg small sortTurns 0 (by omega) _ pass
        have less := (lt_decimals array nonneg j).mpr reached
        exact (digit_multiple j x ((pow_dvd_pow 10 less).trans multiple)).ge
      · -- the largest element has ten digits, and no negative int ends in ten zeros
        have ten : 10 ≤ decimals array := (lt_decimals array nonneg 9).mpr (by omega)
        obtain ⟨m,rfl⟩ := (pow_dvd_pow 10 ten).trans multiple
        have low := (inside _ member).1
        unfold INT_MAX at low
        omega
    · exact digit_nonneg significantDigit x (by omega) pos
  · intro digits x member negative
    refine power_dvd x negative _ (fun j less => digits _ ?_ x member)
    have reached := (lt_decimals array nonneg j).mp less
    have few : j ≤ 9 := by
      by_contra more
      have : (10 : Int)^10 ≤ 10^j := pow_le_pow_right₀ (by omega) (by omega)
      unfold INT_MAX at top
      omega
    have found := passes_power (findLargestNum array) j (12-j) 0 (by omega) (by rwa [Nat.zero_add])
    rwa [Nat.zero_add,show j+1+(12-j) = sortTurns by unfold sortTurns; omega] at found

/-- As a zero, a negative element that ends in enough zeros has the same digits. -/
theorem digit_max (multiples : Multiples array) (significantDigit : Int)
    (pass : significantDigit ∈ passes (findLargestNum array) sortTurns 1) (x : Int) (member : x ∈ array) :
    0 ≤ digit significantDigit x ∧ digit significantDigit (max x 0) = digit significantDigit x := by
  have counted := (multiples_iff array nonneg inside).mp multiples significantDigit pass x member
  refine ⟨counted,?_⟩
  by_cases negative : x < 0
  · have pos := passes_pos _ nonneg _ _ _ pass
    have below : digit significantDigit x ≤ 0 := by
      have mirrored := digit_nonneg significantDigit (-x) (by omega) pos
      rw [digit,Int.neg_tdiv,Int.neg_tmod] at mirrored
      exact Int.neg_nonneg.mp mirrored
    rw [max_eq_right negative.le,show digit significantDigit 0 = 0 by simp [digit]]
    omega
  · rw [max_eq_left (by omega)]

end Array

theorem ascending_split (sorted : List Int) (ascending : (sorted.map (max · 0)).Pairwise (· ≤ ·)) :
    sorted = sorted.filter (· ≤ 0) ++ sorted.filter (0 < ·) ∧ (sorted.filter (0 < ·)).Pairwise (· ≤ ·) := by
  rw [List.pairwise_map] at ascending
  constructor
  · induction sorted with
    | nil => rfl
    | cons x rest ih =>
      rw [List.pairwise_cons] at ascending
      have split := ih ascending.2
      by_cases positive : 0 < x
      · have all : ∀ y ∈ x::rest, 0 < y := by
          intro y member
          rcases List.mem_cons.mp member with rfl | later
          · exact positive
          · have := ascending.1 y later
            omega
        have none_left : (x::rest).filter (· ≤ 0) = [] := by
          refine List.filter_eq_nil_iff.mpr fun y member below => ?_
          have := of_decide_eq_true below
          have := all y member
          omega
        rw [none_left,List.filter_eq_self.mpr (fun y member => decide_eq_true (all y member)),List.nil_append]
      · simp only [List.filter_cons,decide_eq_true (not_lt.mp positive),decide_eq_false positive,if_true,
          Bool.false_eq_true,if_false,List.cons_append]
        rw [← split]
  · refine (ascending.filter _).imp_of_mem fun {x y} left right order => ?_
    have := of_decide_eq_true (List.mem_filter.mp left).2
    have := of_decide_eq_true (List.mem_filter.mp right).2
    omega

/-- An access of `radix_sort` leaves its bucket exactly when a negative element does not end in as
many zeros as the largest has digits. Else the elements that are not positive come first, as they
stood, and the others behind them in ascending order. -/
theorem radixSort_exact (array : List Int) (inside : ∀ x ∈ array, -INT_MAX-1 ≤ x ∧ x ≤ INT_MAX) :
    (¬ Multiples array → radixSort array = .error .bounds) ∧
      (Multiples array → ∃ ascending, radixSort array = .ok (array.filter (· ≤ 0) ++ ascending) ∧
        ascending.Perm (array.filter (0 < ·)) ∧ ascending.Pairwise (· ≤ ·)) := by
  have top := findLargestNum_top array (fun x member => (inside x member).2)
  have largest : ∀ x ∈ array, x ≤ findLargestNum array := findLargestNum_le array
  by_cases nonneg : 0 ≤ findLargestNum array
  · constructor
    · intro other
      rw [multiples_iff array nonneg inside] at other
      push Not at other
      obtain ⟨significantDigit,pass,x,member,negative⟩ := other
      exact sortLoop_negative _ nonneg sortTurns 1 array significantDigit pass x member negative
    · intro multiples
      have bounded : ∀ x ∈ array.map (max · 0), 0 ≤ x ∧ x ≤ findLargestNum array := by
        intro x member
        obtain ⟨y,held,rfl⟩ := List.mem_map.mp member
        have := largest y held
        omega
      have low : LowOrder (9-9) (array.map (max · 0)) := by
        apply List.pairwise_of_forall
        intro x y
        simp
      obtain ⟨result,mapped,_,ordered⟩ := sortLoop_digits _ top 9 le_rfl _ bounded low
      obtain ⟨sorted,ran,rfl,perm,kept⟩ := sortLoop_map _ nonneg (max · 0) sortTurns 1 array result
        (digit_max array nonneg inside multiples) mapped
      obtain ⟨split,ascending⟩ := ascending_split sorted ordered
      have zeros : ∀ items : List Int, items.filter (fun x => max x 0 = 0) = items.filter (· ≤ 0) := by
        intro items
        exact List.filter_congr fun x _ => by simp
      have front := kept 0
      rw [zeros,zeros] at front
      rw [front] at split
      refine ⟨sorted.filter (0 < ·),ran.trans (congrArg Except.ok split),perm.filter _,ascending⟩
  · -- without an element from zero on, no pass is made
    have below : ∀ x ∈ array, x ≤ 0 := fun x member => (largest x member).trans (by omega)
    have least : findLargestNum array = -1 := by
      have := (fold_largest array (-1)).1
      have : -1 ≤ findLargestNum array := this
      omega
    constructor
    · intro other
      refine absurd (fun x _ _ => ?_) other
      rw [decimals,least]
      exact one_dvd x
    · intro _
      refine ⟨[],?_,?_,.nil⟩
      · rw [List.append_nil,List.filter_eq_self.mpr (fun x member => decide_eq_true (below x member)),radixSort,least]
        rfl
      · rw [List.filter_eq_nil_iff.mpr]
        intro x member positive
        have := of_decide_eq_true positive
        have := below x member
        omega

theorem radixSort_exact_zeros : radixSort [30,-100,7,0] = .ok [-100,0,7,30] ∧ radixSort [30,-10] = .error .bounds := by
  have zeros : Multiples [30,-100,7,0] := by
    have largest : decimals [30,-100,7,0] = 2 := by
      rw [decimals,show findLargestNum [30,-100,7,0] = 30 from rfl]
      simp
    intro x member
    rw [largest]
    revert x
    decide
  have short : ¬ Multiples [30,-10] := by
    have largest : decimals [30,-10] = 2 := by
      rw [decimals,show findLargestNum [30,-10] = 30 from rfl]
      simp
    intro multiples
    have multiple := multiples (-10) (by decide) (by decide)
    rw [largest] at multiple
    exact absurd multiple (by decide)
  obtain ⟨ascending,ran,perm,ordered⟩ := (radixSort_exact [30,-100,7,0] (by decide)).2 zeros
  have positives : ([30,-100,7,0] : List Int).filter (0 < ·) = [30,7] := by decide
  rw [positives] at perm
  obtain rfl : ascending = [7,30] := (perm.trans (.swap 7 30 [])).eq_of_pairwise' ordered (by decide)
  exact ⟨ran,(radixSort_exact [30,-10] (by decide)).1 short⟩

end Spsc.RadixSort
