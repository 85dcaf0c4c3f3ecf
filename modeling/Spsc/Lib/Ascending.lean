import Mathlib.Data.List.Sort
import Mathlib.Data.Int.Basic

/-! Strictly ascending lists of integers, and the runs of consecutive integers
inside them. -/
namespace Ascending

/-- `first, first+1, ...`, `count` integers in all. -/
def consecutive (first : Int) (count : Nat) : List Int :=
  (List.range count).map (fun (j : Nat) => first+j)

@[simp] theorem consecutive_length (first : Int) (count : Nat) :
    (consecutive first count).length = count := by simp [consecutive]

theorem mem_consecutive (first id : Int) (count : Nat) :
    id ∈ consecutive first count ↔ first ≤ id ∧ id < first+count := by
  simp only [consecutive,List.mem_map,List.mem_range]
  constructor
  · rintro ⟨j,bound,rfl⟩
    omega
  · intro bounds
    exact ⟨(id-first).toNat,by omega,by omega⟩

theorem getElem_consecutive (first : Int) (count j : Nat) (bound : j < (consecutive first count).length) :
    (consecutive first count)[j] = first+j := by simp [consecutive]

variable {ids : List Int} (ascending : ids.Pairwise (· < ·))
include ascending

theorem getElem_lt {i j : Nat} (less : i < j) (iBound : i < ids.length) (jBound : j < ids.length) :
    ids[i] < ids[j] :=
  List.pairwise_iff_getElem.mp ascending i j iBound jBound less

theorem index_lt {i j : Nat} (iBound : i < ids.length) (jBound : j < ids.length)
    (less : ids[i] < ids[j]) : i < j := by
  by_contra above
  rcases Nat.lt_or_eq_of_le (Nat.le_of_not_lt above) with after | same
  · have := getElem_lt ascending after jBound iBound
    omega
  · subst same
    omega

theorem head_le (bound : 0 < ids.length) (id : Int) (member : id ∈ ids) : ids[0] ≤ id := by
  obtain ⟨i,inside,rfl⟩ := List.mem_iff_getElem.mp member
  rcases Nat.eq_zero_or_pos i with zero | pos
  · subst zero
    exact le_rfl
  · exact (getElem_lt ascending pos bound inside).le

theorem gap_le (i d : Nat) (start : i < ids.length) (bound : i+d < ids.length) :
    ids[i] + (d : Int) ≤ ids[i+d] := by
  induction d with
  | zero => simp
  | succ d ih =>
    have := ih (by omega)
    have := getElem_lt ascending (by omega : i+d < i+(d+1)) (by omega) bound
    omega

theorem head_add_le (i : Nat) (zero : 0 < ids.length) (bound : i < ids.length) :
    ids[0] + (i : Int) ≤ ids[i] := by
  have gap := gap_le ascending 0 i zero (by omega)
  simpa using gap

theorem countP_below (p : Nat) (bound : p < ids.length) : ids.countP (fun other => other < ids[p]) = p := by
  have before : (ids.take p).countP (fun other => other < ids[p]) = p := by
    rw [List.countP_eq_length.mpr,List.length_take,Nat.min_eq_left bound.le]
    intro other member
    obtain ⟨i,inside,rfl⟩ := List.mem_iff_getElem.mp member
    rw [List.length_take] at inside
    rw [List.getElem_take,decide_eq_true_iff]
    exact getElem_lt ascending (by omega) (by omega) bound
  have after : (ids.drop p).countP (fun other => other < ids[p]) = 0 := by
    apply List.countP_eq_zero.mpr
    intro other member
    obtain ⟨i,inside,rfl⟩ := List.mem_iff_getElem.mp member
    rw [List.length_drop] at inside
    rw [List.getElem_drop,decide_eq_true_iff]
    rcases Nat.eq_zero_or_pos i with rfl | positive
    · simp
    · have := getElem_lt ascending (by omega : p < p+i) bound (by omega)
      omega
  have split : (ids.take p ++ ids.drop p).countP (fun other => decide (other < ids[p])) = _ :=
    List.countP_append
  rwa [List.take_append_drop,before,after,Nat.add_zero] at split

theorem take_tight (count : Nat) (some : 0 < count) (bound : count ≤ ids.length)
    (tight : ids[count-1] = ids[0] + (count : Int) - 1) : ids.take count = consecutive ids[0] count := by
  apply List.ext_getElem
  · simp [bound]
  · intro j left right
    rw [consecutive_length] at right
    have low := head_add_le ascending j (by omega) (by omega)
    have high := gap_le ascending j (count-1-j) (by omega) (by omega)
    simp only [(by omega : j+(count-1-j) = count-1)] at high
    rw [List.getElem_take,getElem_consecutive]
    omega

/-- Consecutive integers that are all in an ascending list stand side by side. -/
theorem getElem_run (p : Nat) (bound : p < ids.length) (first : Int) (here : ids[p] = first)
    (count : Nat) (present : ∀ j < count, first + (j : Nat) ∈ ids) (j : Nat) (small : j < count) :
    ∃ inside : p+j < ids.length, ids[p+j] = first+j := by
  induction j with
  | zero => exact ⟨bound,by simpa using here⟩
  | succ j ih =>
    obtain ⟨inside,value⟩ := ih (by omega)
    obtain ⟨q,qBound,found⟩ := List.mem_iff_getElem.mp (present (j+1) small)
    have after : p+j < q := index_lt ascending inside qBound (by omega)
    refine ⟨by omega,?_⟩
    have above := getElem_lt ascending (by omega : p+j < p+(j+1)) inside (by omega)
    rcases Nat.lt_or_eq_of_le (by omega : p+(j+1) ≤ q) with before | same
    · have below := getElem_lt ascending before (by omega) qBound
      omega
    · subst same
      omega

theorem run_slice (p : Nat) (bound : p < ids.length) (first : Int) (here : ids[p] = first)
    (count : Nat) (present : ∀ j < count, first + (j : Nat) ∈ ids) :
    (ids.drop p).take count = consecutive first count := by
  rcases Nat.eq_zero_or_pos count with none | some
  · subst none
    rfl
  · have run := getElem_run ascending p bound first here count present
    obtain ⟨inside,_⟩ := run (count-1) (by omega)
    apply List.ext_getElem
    · simp; omega
    · intro j left right
      obtain ⟨_,value⟩ := run j (by simpa using right)
      rw [getElem_consecutive,← value]
      simp

theorem consecutive_part (first : Int) (count : Nat) (some : 0 < count)
    (present : ∀ id ∈ consecutive first count, id ∈ ids) : consecutive first count <:+: ids := by
  obtain ⟨p,bound,here⟩ := List.mem_iff_getElem.mp
    (present first ((mem_consecutive first first count).mpr (by omega)))
  rw [← run_slice ascending p bound first here count
    (fun j small => present _ ((mem_consecutive _ _ _).mpr (by omega)))]
  exact (List.take_prefix _ _).isInfix.trans (List.drop_suffix _ _).isInfix

theorem drop_eq_filter (count : Nat) : ids.drop count = ids.filter (fun id => id ∉ ids.take count) := by
  have distinct : (ids.take count ++ ids.drop count).Nodup := by
    rw [List.take_append_drop]
    apply ascending.imp
    intro x y less
    omega
  have split : ids.filter (fun id => id ∉ ids.take count) =
      (ids.take count ++ ids.drop count).filter (fun id => id ∉ ids.take count) := by
    rw [List.take_append_drop]
  rw [split,List.filter_append,List.filter_eq_nil_iff.mpr (by simp),List.nil_append,List.filter_eq_self.mpr]
  intro id behind
  simpa using fun front => List.disjoint_of_nodup_append distinct front behind

omit ascending in
theorem eq_merge {ids left right : List Int} (ascending : ids.Pairwise (· < ·)) (first : left.Pairwise (· < ·))
    (second : right.Pairwise (· < ·)) (perm : ids.Perm (left ++ right)) : ids = left.merge right (· ≤ ·) := by
  have merged : (left.merge right (· ≤ ·)).Pairwise (· ≤ ·) := by
    simpa using (first.imp (fun less => less.le)).merge (second.imp (fun less => less.le))
  have same : (left.merge right (· ≤ ·)).Perm (left ++ right) := List.merge_perm_append _
  exact (perm.trans same.symm).eq_of_pairwise (fun x y _ _ (low : x ≤ y) (high : y ≤ x) => le_antisymm low high)
    (ascending.imp (fun less => less.le)) merged

end Ascending
