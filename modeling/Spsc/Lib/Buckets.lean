import Mathlib.Data.List.Perm.Basic
import Mathlib.Data.List.Flatten
import Mathlib.Data.List.Sort
import Mathlib.Algebra.GroupWithZero.Nat

/-! Stable distribution of a list into numbered buckets, the pass of a counting
or radix sort. Every claim is about arbitrary items and an arbitrary key. -/
namespace Buckets

variable {α β : Type}

def bucket (key : α → Nat) (items : List α) (d : Nat) : List α := items.filter (fun x => key x == d)

def distribute (key : α → Nat) (count : Nat) (items : List α) : List α :=
  (List.range count).flatMap (bucket key items)

def starts (groups : Nat → List β) (d : Nat) : Nat :=
  ((List.range d).map (fun e => (groups e).length)).sum

theorem starts_zero (groups : Nat → List β) : starts groups 0 = 0 := rfl

theorem starts_succ (groups : Nat → List β) (d : Nat) :
    starts groups (d+1) = starts groups d + (groups d).length := by
  simp [starts,List.range_succ]

theorem starts_before (groups : Nat → List β) (d e : Nat) (before : d < e) :
    starts groups d + (groups d).length ≤ starts groups e := by
  induction e with
  | zero => omega
  | succ e ih =>
    rw [starts_succ]
    by_cases same : d = e
    · subst same; omega
    · have := ih (by omega); omega

theorem length_flatMap_range (groups : Nat → List β) (count : Nat) :
    ((List.range count).flatMap groups).length = starts groups count := by
  simp [starts,List.length_flatMap]

/-- A list that holds every group at its start is the groups in order. -/
theorem eq_flatMap_range (groups : Nat → List β) (count : Nat) (items : List β)
    (size : items.length = starts groups count)
    (filled : ∀ d < count, ∀ j (inside : j < (groups d).length),
      items[starts groups d + j]? = some (groups d)[j]) :
    items = (List.range count).flatMap groups := by
  induction count generalizing items with
  | zero => simpa [starts_zero] using size
  | succ count ih =>
    rw [starts_succ] at size
    have first := ih (items.take (starts groups count)) (by simp; omega) (by
      intro d small j inside
      have room := starts_before groups d count small
      rw [List.getElem?_take_of_lt (by omega)]
      exact filled d (by omega) j inside)
    have last : items.drop (starts groups count) = groups count := by
      apply List.ext_getElem
      · simp; omega
      · intro j left right
        have found := filled count (by omega) j right
        rw [List.getElem_drop]
        exact (List.getElem_eq_iff _).mpr found
    rw [List.range_succ,List.flatMap_append,← first]
    conv_lhs => rw [← List.take_append_drop (starts groups count) items]
    simp [last]

theorem bucket_cons (key : α → Nat) (x : α) (items : List α) (d : Nat) :
    bucket key (x::items) d = if key x = d then x :: bucket key items d else bucket key items d := by
  by_cases same : key x = d <;> simp [bucket,same]

theorem bucket_append (key : α → Nat) (left right : List α) (d : Nat) :
    bucket key (left++right) d = bucket key left d ++ bucket key right d := by
  simp [bucket]

theorem distribute_perm_filter (key : α → Nat) (count : Nat) (items : List α) :
    (distribute key count items).Perm (items.filter (fun x => key x < count)) := by
  induction count with
  | zero => simp [distribute]
  | succ count ih =>
    have split := List.filter_append_perm (fun x => decide (key x < count))
      (items.filter (fun x => key x < count+1))
    have low : (items.filter (fun x => key x < count+1)).filter (fun x => decide (key x < count)) =
        items.filter (fun x => key x < count) := by
      rw [List.filter_filter]
      apply List.filter_congr
      intro x _
      simp only [← Bool.decide_and,decide_eq_decide]
      omega
    have high : (items.filter (fun x => key x < count+1)).filter (fun x => !decide (key x < count)) =
        bucket key items count := by
      rw [List.filter_filter,bucket]
      apply List.filter_congr
      intro x _
      rw [Bool.eq_iff_iff]
      simp
      omega
    rw [low,high] at split
    rw [distribute,List.range_succ,List.flatMap_append]
    simpa [distribute] using (ih.append_right _).trans split

theorem distribute_perm (key : α → Nat) (count : Nat) (items : List α)
    (inside : ∀ x ∈ items, key x < count) : (distribute key count items).Perm items := by
  have all : items.filter (fun x => key x < count) = items := by
    simpa [List.filter_eq_self] using inside
  simpa only [all] using distribute_perm_filter key count items

/-- Stability: a distribution is ordered by key first and, inside one key, by
whatever order the items had. -/
theorem distribute_pairwise (key : α → Nat) (count : Nat) (items : List α) (r : α → α → Prop)
    (sorted : items.Pairwise r) :
    (distribute key count items).Pairwise (fun x y => key x < key y ∨ key x = key y ∧ r x y) := by
  rw [distribute,List.pairwise_flatMap]
  constructor
  · intro d _
    apply (sorted.filter _).imp_of_mem
    intro x y hx hy related
    simp only [List.mem_filter,beq_iff_eq] at hx hy
    exact .inr ⟨hx.2.trans hy.2.symm,related⟩
  · apply List.pairwise_lt_range.imp
    intro d e less x hx y hy
    simp only [bucket,List.mem_filter,beq_iff_eq] at hx hy
    exact .inl (by omega)

theorem distribute_map (key : α → Nat) (key' : β → Nat) (f : α → β) (count : Nat) (items : List α)
    (same : ∀ x ∈ items, key' (f x) = key x) :
    (distribute key count items).map f = distribute key' count (items.map f) := by
  rw [distribute,distribute,List.map_flatMap]
  congr 1
  funext d
  rw [bucket,bucket,List.filter_map]
  congr 1
  refine List.filter_congr fun x member => ?_
  rw [Function.comp_apply,same x member]

/-- Items of one key stay in the order that they are in. -/
theorem distribute_filter (key : α → Nat) (count : Nat) (items : List α) (keep : α → Bool) (d : Nat) (small : d < count)
    (same : ∀ x ∈ items, keep x = true → key x = d) :
    (distribute key count items).filter keep = items.filter keep := by
  have none_kept : ∀ e, e ≠ d → (bucket key items e).filter keep = [] := by
    intro e other
    refine List.filter_eq_nil_iff.mpr fun x member kept => ?_
    obtain ⟨inside,here⟩ := List.mem_filter.mp member
    exact other ((beq_iff_eq.mp here).symm.trans (same x inside kept))
  have all_kept : (bucket key items d).filter keep = items.filter keep := by
    rw [bucket,List.filter_filter]
    refine List.filter_congr fun x member => ?_
    cases kept : keep x with
    | false => rfl
    | true => simp [same x member kept]
  rw [distribute,List.filter_flatMap]
  obtain ⟨more,rfl⟩ : ∃ more, count = d+(more+1) := ⟨count-d-1,by omega⟩
  have before : (List.range d).flatMap (fun e => (bucket key items e).filter keep) = [] :=
    List.flatMap_eq_nil_iff.mpr fun e member => none_kept e (List.mem_range.mp member).ne
  have behind : ((List.range more).map (fun e => d+(e+1))).flatMap (fun e => (bucket key items e).filter keep) = [] := by
    refine List.flatMap_eq_nil_iff.mpr fun e member => none_kept e ?_
    obtain ⟨k,_,rfl⟩ := List.mem_map.mp member
    omega
  rw [List.range_add,List.flatMap_append,before,List.range_succ_eq_map,List.map_cons,List.map_map,List.flatMap_cons,
    Nat.add_zero,all_kept]
  exact (congrArg (items.filter keep ++ ·) behind).trans (List.append_nil _)

end Buckets
