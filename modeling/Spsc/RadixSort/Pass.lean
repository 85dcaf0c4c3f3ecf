import Spsc.RadixSort
import Spsc.Lib.Buckets
import Mathlib.Data.Int.Basic
import Mathlib.Tactic.Ring

/-! One pass of `radix_sort` is the stable distribution of the array by one
decimal digit, and none of its accesses leaves an array. -/
namespace Spsc.RadixSort
open Imperative Buckets

def slot (significantDigit x : Int) : Nat := (digit significantDigit x).toNat

theorem digit_eq (significantDigit x : Int) (nonneg : 0 ≤ x) (pos : 0 < significantDigit) :
    digit significantDigit x = x / significantDigit % 10 := by
  have quotient : 0 ≤ x / significantDigit := Int.ediv_nonneg nonneg pos.le
  rw [digit,Int.tdiv_eq_ediv_of_nonneg nonneg,Int.tmod_eq_emod_of_nonneg quotient]

theorem digit_slot (significantDigit x : Int) (nonneg : 0 ≤ x) (pos : 0 < significantDigit) :
    digit significantDigit x = slot significantDigit x := by
  rw [slot,digit_eq significantDigit x nonneg pos]
  omega

theorem slot_lt (significantDigit x : Int) (nonneg : 0 ≤ x) (pos : 0 < significantDigit) :
    slot significantDigit x < 10 := by
  rw [slot,digit_eq significantDigit x nonneg pos]
  omega

theorem digit_nonneg (significantDigit x : Int) (nonneg : 0 ≤ x) (pos : 0 < significantDigit) :
    0 ≤ digit significantDigit x := by
  rw [digit_slot significantDigit x nonneg pos]
  exact Int.natCast_nonneg _

theorem digit_eq_slot (significantDigit x : Int) (counted : 0 ≤ digit significantDigit x) :
    digit significantDigit x = slot significantDigit x := (Int.toNat_of_nonneg counted).symm

theorem slot_lt_ten (significantDigit x : Int) : slot significantDigit x < 10 := by
  have below : digit significantDigit x < 10 := Int.tmod_lt_of_pos _ (by decide)
  unfold slot
  omega

section Pass
variable (significantDigit : Int) (array : List Int) (digits : ∀ x ∈ array, 0 ≤ digit significantDigit x)

def table (f : Nat → Nat) : List Int := (List.range 10).map (fun d => (f d : Int))

theorem table_length (f : Nat → Nat) : (table f).length = 10 := by simp [table]

theorem table_load (f : Nat → Nat) (d : Nat) (small : d < 10) :
    load Fault.bounds (table f) d = .ok (f d : Int) := by
  rw [load_inside _ _ _ (by simpa [table_length] using small)]
  simp [table]

theorem table_store (f g : Nat → Nat) (d : Nat) (value : Int) (small : d < 10)
    (here : value = g d) (others : ∀ e < 10, e ≠ d → f e = g e) :
    store Fault.bounds (table f) d value = .ok (table g) := by
  rw [store_inside _ _ _ _ (by simpa [table_length] using small)]
  congr 1
  apply List.ext_getElem
  · simp [table]
  · intro e left right
    have bound : e < 10 := by simpa [table_length] using right
    by_cases same : e = d
    · subst same
      simp [table,here]
    · simp [table,List.getElem_set_ne (Ne.symm same),others e bound same]

def tally (items : List Int) (d : Nat) : Nat := (bucket (slot significantDigit) items d).length

theorem tally_take (i d : Nat) (bound : i < array.length) :
    tally significantDigit (array.take (i+1)) d = tally significantDigit (array.take i) d +
      if slot significantDigit array[i] = d then 1 else 0 := by
  rw [List.take_succ_eq_append_getElem bound,tally,bucket_append,List.length_append,bucket_cons]
  split <;> simp [tally,bucket]

include digits

theorem countDigits_table :
    countDigits significantDigit array = .ok (table (tally significantDigit array)) := by
  have counted := forLoop_closed (fun i bucket => do
      let x ← load Fault.bounds array i
      let n ← load .bounds bucket (digit significantDigit x)
      store .bounds bucket (digit significantDigit x) (n+1))
    (fun i => table (tally significantDigit (array.take i))) 0 array.length (by
      intro i _ high
      have bound : i < array.length := by omega
      have member := digits _ (List.getElem_mem bound)
      have small := slot_lt_ten significantDigit array[i]
      simp only [load_inside _ _ _ bound,bind,Except.bind]
      rw [digit_eq_slot significantDigit _ member,table_load _ _ small]
      apply table_store _ _ _ _ small
      · rw [tally_take _ _ _ _ bound]
        simp
      · intro e _ different
        rw [tally_take _ _ _ _ bound,if_neg (Ne.symm different),Nat.add_zero])
  have start : table (tally significantDigit (array.take 0)) = List.replicate 10 0 := by
    simp [table,tally,bucket]
  simp only [start,Nat.zero_add,List.take_length] at counted
  exact counted

omit digits in
theorem accumulate_table (f : Nat → Nat) :
    accumulate (table f) = .ok (table (fun d => ((List.range (d+1)).map f).sum)) := by
  have summed := forLoop_closed (fun i bucket => do
      let here ← load Fault.bounds bucket i
      let before ← load .bounds bucket ((i : Int)-1)
      store .bounds bucket i (here+before))
    (fun i => table (fun d => if d < i then ((List.range (d+1)).map f).sum else f d)) 1 9 (by
      intro i low high
      have previous : ((i : Int)-1) = ((i-1 : Nat) : Int) := by omega
      simp only [bind,Except.bind]
      rw [table_load _ _ (by omega),previous]
      simp only []
      rw [table_load _ _ (by omega)]
      apply table_store _ _ _ _ (by omega)
      · obtain ⟨j,rfl⟩ : ∃ j, i = j+1 := ⟨i-1,by omega⟩
        simp [List.range_succ]
        omega
      · intro e _ different
        by_cases below : e < i
        · simp [below,Nat.lt_succ_of_lt below]
        · simp [below,show ¬e < i+1 by omega])
  have first : table (fun d => if d < 1 then ((List.range (d+1)).map f).sum else f d) = table f := by
    simp only [table]
    apply List.map_congr_left
    intro d _
    cases d <;> simp
  have last : table (fun d => if d < 1+9 then ((List.range (d+1)).map f).sum else f d) =
      table (fun d => ((List.range (d+1)).map f).sum) := by
    simp only [table]
    apply List.map_congr_left
    intro d inside
    have := List.mem_range.mp inside
    simp [this]
  rw [← first,← last]
  exact summed

/-- What the backwards fill has done once the last elements, from `i` on, are
placed: every bucket holds its share of them at its end. -/
def Filled (i : Nat) (state : List Int × List (Option Int)) : Prop :=
  state.1 = table (fun d => starts (bucket (slot significantDigit) array) d +
    tally significantDigit (array.take i) d) ∧
  state.2.length = array.length ∧
  ∀ d < 10, ∀ j (inside : j < (bucket (slot significantDigit) (array.drop i) d).length),
    state.2[starts (bucket (slot significantDigit) array) d +
      tally significantDigit (array.take i) d + j]? =
        some (some (bucket (slot significantDigit) (array.drop i) d)[j])

omit digits in
theorem tally_split (i d : Nat) : tally significantDigit (array.take i) d +
    (bucket (slot significantDigit) (array.drop i) d).length =
      (bucket (slot significantDigit) array d).length := by
  rw [tally,← List.length_append,← bucket_append,List.take_append_drop]

omit digits in
theorem starts_all : starts (bucket (slot significantDigit) array) 10 = array.length := by
  rw [← length_flatMap_range]
  exact (distribute_perm (slot significantDigit) 10 array
    (fun x _ => slot_lt_ten _ x)).length_eq

/-- Where the element at `i` goes: behind those of its bucket that are before it. -/
def place (i : Nat) (bound : i < array.length) : Nat :=
  starts (bucket (slot significantDigit) array) (slot significantDigit array[i]) +
    tally significantDigit (array.take i) (slot significantDigit array[i])

omit digits in
theorem tally_own (i : Nat) (bound : i < array.length) :
    tally significantDigit (array.take (i+1)) (slot significantDigit array[i]) =
      tally significantDigit (array.take i) (slot significantDigit array[i])+1 := by
  rw [tally_take _ _ _ _ bound,if_pos rfl]

omit digits in
theorem place_lt (i : Nat) (bound : i < array.length) : place significantDigit array i bound < array.length := by
  have small := slot_lt_ten significantDigit array[i]
  have counted := tally_own significantDigit array i bound
  have total := tally_split significantDigit array (i+1) (slot significantDigit array[i])
  have room := starts_before (bucket (slot significantDigit) array) _ _ small
  rw [starts_all significantDigit array] at room
  unfold place
  omega

omit digits in
theorem place_apart (i : Nat) (bound : i < array.length) (d j : Nat) (other : slot significantDigit array[i] ≠ d)
    (inside : j < (bucket (slot significantDigit) (array.drop i) d).length) :
    place significantDigit array i bound ≠
      starts (bucket (slot significantDigit) array) d + tally significantDigit (array.take i) d + j := by
  have counted := tally_own significantDigit array i bound
  have own := tally_split significantDigit array (i+1) (slot significantDigit array[i])
  have total := tally_split significantDigit array i d
  unfold place
  rcases Nat.lt_or_gt_of_ne other with less | more
  · have room := starts_before (bucket (slot significantDigit) array) _ _ less
    omega
  · have room := starts_before (bucket (slot significantDigit) array) _ _ more
    omega

theorem fill_writes (i : Nat) (bound : i < array.length) (semiSorted : List (Option Int))
    (size : semiSorted.length = array.length) :
    (do
      let counters := table (fun d => starts (bucket (slot significantDigit) array) d +
        tally significantDigit (array.take (i+1)) d)
      let x ← load Fault.bounds array i
      let n ← load .bounds counters (digit significantDigit x)
      let bucket ← store .bounds counters (digit significantDigit x) (n-1)
      let semiSorted ← store .bounds semiSorted (n-1) (some x)
      .ok (bucket,semiSorted)) =
    .ok (table (fun d => starts (bucket (slot significantDigit) array) d +
      tally significantDigit (array.take i) d),
      semiSorted.set (place significantDigit array i bound) (some array[i])) := by
  have member := digits _ (List.getElem_mem bound)
  have small := slot_lt_ten significantDigit array[i]
  have counted := tally_own significantDigit array i bound
  have below := place_lt significantDigit array i bound
  simp only [load_inside _ _ _ bound,bind,Except.bind]
  rw [digit_eq_slot significantDigit _ member,table_load _ _ small]
  simp only []
  rw [table_store _ (fun d => starts (bucket (slot significantDigit) array) d +
    tally significantDigit (array.take i) d) _ _ small (by rw [counted]; simp; omega) (by
      intro e _ different
      rw [tally_take _ _ _ _ bound,if_neg (Ne.symm different),Nat.add_zero])]
  have index : ((starts (bucket (slot significantDigit) array) (slot significantDigit array[i]) +
      tally significantDigit (array.take (i+1)) (slot significantDigit array[i]) : Nat) : Int) - 1 =
      (place significantDigit array i bound : Int) := by
    rw [counted,place]
    omega
  rw [index]
  simp only []
  rw [store_inside _ _ _ _ (by omega)]

theorem fill_step (i : Nat) (bound : i < array.length) (state : List Int × List (Option Int))
    (filled : Filled significantDigit array (i+1) state) :
    ∃ next, (do
      let x ← load Fault.bounds array i
      let n ← load .bounds state.1 (digit significantDigit x)
      let bucket ← store .bounds state.1 (digit significantDigit x) (n-1)
      let semiSorted ← store .bounds state.2 (n-1) (some x)
      .ok (bucket,semiSorted)) = .ok next ∧ Filled significantDigit array i next := by
  obtain ⟨counters,semiSorted⟩ := state
  obtain ⟨tabled,size,placed⟩ := filled
  simp only at tabled size placed
  subst tabled
  have small := slot_lt_ten significantDigit array[i]
  have dropped : array.drop i = array[i] :: array.drop (i+1) := List.drop_eq_getElem_cons bound
  refine ⟨_,fill_writes significantDigit array digits i bound semiSorted size,rfl,by simpa,?_⟩
  intro d ten j inside
  by_cases same : slot significantDigit array[i] = d
  · subst same
    have grown : bucket (slot significantDigit) (array.drop i) (slot significantDigit array[i]) =
        array[i] :: bucket (slot significantDigit) (array.drop (i+1)) (slot significantDigit array[i]) := by
      rw [dropped,bucket_cons,if_pos rfl]
    have below := place_lt significantDigit array i bound
    unfold place at below ⊢
    cases j with
    | zero => simp [grown,size ▸ below]
    | succ j =>
      rw [List.getElem?_set_ne (by omega)]
      have old := placed _ small j (by simpa [grown] using inside)
      rw [tally_own _ _ _ bound] at old
      simp only [grown,List.getElem_cons_succ]
      rw [← old]
      congr 1
      omega
  · have kept : bucket (slot significantDigit) (array.drop i) d =
        bucket (slot significantDigit) (array.drop (i+1)) d := by
      rw [dropped,bucket_cons,if_neg same]
    have old := placed d ten j (by rwa [← kept])
    rw [tally_take _ _ _ _ bound,if_neg same,Nat.add_zero] at old
    rw [List.getElem?_set_ne (place_apart significantDigit array i bound d j same inside),old]
    congr 2
    exact (List.getElem_of_eq kept.symm _)

theorem fill_distributes : ∃ counters, fill significantDigit array
    (table (fun d => starts (bucket (slot significantDigit) array) (d+1))) =
      .ok (counters,(distribute (slot significantDigit) 10 array).map some) := by
  have initial : Filled significantDigit array (array.length-0)
      (table (fun d => starts (bucket (slot significantDigit) array) (d+1)),
        List.replicate array.length none) := by
    refine ⟨?_,by simp,?_⟩
    · simp only [starts_succ,Nat.sub_zero,List.take_length]
      rfl
    · intro d _ j inside
      simp [bucket] at inside
  obtain ⟨⟨counters,semiSorted⟩,ran,_,size,placed⟩ := forLoop_invariant
    (fun t (state : List Int × List (Option Int)) => do
      let x ← load Fault.bounds array ((array.length : Int)-1-t)
      let n ← load .bounds state.1 (digit significantDigit x)
      let bucket ← store .bounds state.1 (digit significantDigit x) (n-1)
      let semiSorted ← store .bounds state.2 (n-1) (some x)
      .ok (bucket,semiSorted))
    (fun t state => Filled significantDigit array (array.length-t) state) 0 array.length _ initial (by
      intro t state _ high filled
      have index : (array.length : Int)-1-t = ((array.length-1-t : Nat) : Int) := by omega
      have before : array.length-t = array.length-1-t+1 := by omega
      have after : array.length-(t+1) = array.length-1-t := by omega
      rw [index,after]
      rw [before] at filled
      exact fill_step significantDigit array digits _ (by omega) state filled)
  refine ⟨counters,ran.trans ?_⟩
  simp only [Nat.zero_add,Nat.sub_self,List.take_zero,List.drop_zero] at placed size
  congr 2
  rw [distribute,List.map_flatMap]
  apply eq_flatMap_range
  · rw [size,← starts_all significantDigit array]
    simp [starts]
  · intro d ten j inside
    have here := placed d ten j (by simpa using inside)
    simp only [List.getElem_map]
    rw [← here]
    simp [starts,tally,bucket]

omit digits in
theorem copyBack_all (sorted : List Int) (size : sorted.length = array.length) :
    copyBack (sorted.map some) array = .ok sorted := by
  unfold copyBack
  refine (forLoop_closed _ (fun i => sorted.take i ++ array.drop i) 0 array.length ?_).trans (congrArg Except.ok ?_)
  · intro i _ high
    have left : i < sorted.length := by omega
    have right : i < array.length := by omega
    rw [load_inside _ _ _ (by simpa using left)]
    simp only [List.getElem_map,bind,Except.bind]
    rw [store_inside _ _ _ _ (by simp; omega)]
    congr 1
    have front : (sorted.take i).length = i := by simp; omega
    rw [List.set_append_right _ _ (by omega),front,Nat.sub_self,List.drop_eq_getElem_cons right,
      List.set_cons_zero,List.take_succ_eq_append_getElem left,List.append_assoc]
    rfl
  · have none_left : array.drop sorted.length = [] := List.drop_of_length_le (by omega)
    rw [Nat.zero_add,← size,none_left,List.append_nil,List.take_length]

/-- A pass succeeds on every array without a negative digit, and its result is the
stable distribution by the digit. -/
theorem sortDigit_slots (nonzero : significantDigit ≠ 0) :
    sortDigit significantDigit array = .ok (distribute (slot significantDigit) 10 array) := by
  obtain ⟨counters,filled⟩ := fill_distributes significantDigit array digits
  have size := (distribute_perm (slot significantDigit) 10 array (fun x _ => slot_lt_ten _ x)).length_eq
  rw [sortDigit,if_neg nonzero,countDigits_table significantDigit array digits]
  simp only [bind,Except.bind]
  rw [accumulate_table]
  simp only []
  rw [show (fun d => ((List.range (d+1)).map (tally significantDigit array)).sum) =
    fun d => starts (bucket (slot significantDigit) array) (d+1) from rfl,filled]
  simp only []
  exact copyBack_all array _ size

end Pass

theorem sortDigit_distributes (significantDigit : Int) (pos : 0 < significantDigit) (array : List Int)
    (nonneg : ∀ x ∈ array, 0 ≤ x) :
    sortDigit significantDigit array = .ok (distribute (slot significantDigit) 10 array) :=
  sortDigit_slots significantDigit array (fun x member => digit_nonneg significantDigit x (nonneg x member) pos)
    pos.ne'

end Spsc.RadixSort
