import Mathlib.Data.List.Infix

/-! The first place where one list stands inside another, and what can be said of
it when the list is only known up to some point. -/
namespace Search

variable {α : Type} [DecidableEq α]

def find (needle : List α) : List α → Option Nat
  | [] => if needle.isPrefixOf [] then some 0 else none
  | x::rest =>
    if needle.isPrefixOf (x::rest) then some 0 else (find needle rest).map (fun i => i+1)

theorem find_front (needle hay : List α) (start : needle <+: hay) : find needle hay = some 0 := by
  cases hay with
  | nil => rw [find,if_pos (List.isPrefixOf_iff_prefix.mpr start)]
  | cons x rest => rw [find,if_pos (List.isPrefixOf_iff_prefix.mpr start)]

theorem find_step (needle : List α) (x : α) (rest : List α) (other : ¬ needle <+: x::rest) :
    find needle (x::rest) = (find needle rest).map (fun i => i+1) := by
  rw [find,if_neg (fun same => other (List.isPrefixOf_iff_prefix.mp same))]

theorem find_eq_none (needle hay : List α) : find needle hay = none ↔ ¬ needle <:+: hay := by
  induction hay with
  | nil =>
    cases needle with
    | nil => simp [find]
    | cons x rest => simp [find,List.isPrefixOf]
  | cons x rest ih =>
    rw [List.infix_cons_iff,not_or]
    by_cases start : needle <+: x::rest
    · rw [find_front _ _ start]
      exact iff_of_false (by simp) (fun both => both.1 start)
    · rw [find_step _ _ _ start,Option.map_eq_none_iff,ih]
      exact ⟨fun none => ⟨start,none⟩,fun both => both.2⟩

theorem find_part (needle part hay : List α) (inside : part <:+: hay) (absent : find needle hay = none) :
    find needle part = none := by
  rw [find_eq_none] at absent ⊢
  exact fun found => absent (found.trans inside)

theorem find_not_mem (needle hay : List α) (x : α) (inNeedle : x ∈ needle) (outside : x ∉ hay) :
    find needle hay = none :=
  (find_eq_none _ _).mpr (fun found => outside (found.subset inNeedle))

theorem find_skip (first : α) (needle front hay : List α) (outside : first ∉ front) :
    find (first::needle) (front ++ hay) = (find (first::needle) hay).map (fun i => i+front.length) := by
  induction front with
  | nil => simp
  | cons x front ih =>
    obtain ⟨other,rest⟩ := List.ne_and_not_mem_of_not_mem_cons outside
    rw [List.cons_append,find_step _ _ _ (fun start => other (List.cons_prefix_cons.mp start).1),ih rest,
      Option.map_map]
    rfl

/-- An occurrence that needs the needle's own last element is the first one. -/
theorem find_complete (needle front rest : List α) (some_needle : needle ≠ [])
    (absent : find needle (front ++ needle.dropLast) = none) :
    find needle (front ++ (needle ++ rest)) = some front.length := by
  induction front with
  | nil => exact find_front _ _ (List.prefix_append _ _)
  | cons x front ih =>
    have later := ih (find_part _ _ _ (List.suffix_cons _ _).isInfix absent)
    have size : needle.dropLast.length + 1 = needle.length := by
      have := List.length_pos_of_ne_nil some_needle
      rw [List.length_dropLast]
      omega
    have other : ¬ needle <+: x::(front ++ (needle ++ rest)) := by
      intro start
      refine (find_eq_none _ _).mp absent (List.IsPrefix.isInfix ?_)
      refine List.prefix_of_prefix_length_le start ?_ (by simp only [List.length_append,List.length_cons]; omega)
      have cut : needle.dropLast <+: needle ++ rest := (List.dropLast_prefix _).trans (List.prefix_append _ _)
      exact (List.prefix_append_right_inj (x::front)).mpr cut
    rw [List.cons_append,find_step _ _ _ other,later]
    rfl

/-- The place found is the first one at which the needle stands. -/
theorem find_eq_some (needle hay : List α) (k : Nat) :
    find needle hay = some k ↔ k ≤ hay.length ∧ needle <+: hay.drop k ∧ ∀ j < k, ¬ needle <+: hay.drop j := by
  induction hay generalizing k with
  | nil =>
    by_cases start : needle <+: []
    · rw [find_front _ _ start]
      constructor
      · rintro ⟨⟩
        exact ⟨le_rfl,start,fun j less => absurd less (by omega)⟩
      · rintro ⟨bound,_,_⟩
        obtain rfl : k = 0 := by simpa using bound
        rfl
    · have absent : find needle [] = none :=
        (find_eq_none _ _).mpr (fun found => start (List.infix_nil.mp found ▸ List.prefix_rfl))
      rw [absent]
      refine iff_of_false (by simp) ?_
      rintro ⟨_,here,_⟩
      rw [List.drop_nil] at here
      exact start here
  | cons x rest ih =>
    by_cases start : needle <+: x::rest
    · rw [find_front _ _ start]
      constructor
      · rintro ⟨⟩
        exact ⟨Nat.zero_le _,start,fun j less => absurd less (by omega)⟩
      · rintro ⟨_,_,first⟩
        rcases Nat.eq_zero_or_pos k with rfl | later
        · rfl
        · exact absurd start (first 0 later)
    · rw [find_step _ _ _ start]
      cases k with
      | zero => exact iff_of_false (by simp) (fun both => start both.2.1)
      | succ k =>
        simp only [Option.map_eq_some_iff,Nat.add_right_cancel_iff,exists_eq_right,ih k,List.length_cons,
          List.drop_succ_cons,Nat.add_le_add_iff_right]
        refine and_congr_right fun _ => and_congr_right fun _ => ⟨fun first j less => ?_,fun first j less => ?_⟩
        · cases j with
          | zero => exact start
          | succ j => exact first j (by omega)
        · exact first (j+1) (by omega)

theorem find_drop (needle hay : List α) (j k : Nat) (before : j ≤ k) (found : find needle hay = some k) :
    find needle (hay.drop j) = some (k-j) := by
  obtain ⟨bound,here,first⟩ := (find_eq_some _ _ _).mp found
  refine (find_eq_some _ _ _).mpr ⟨by rw [List.length_drop]; omega,?_,fun i less => ?_⟩
  · rwa [List.drop_drop,Nat.add_sub_cancel' before]
  · rw [List.drop_drop]
    exact first (j+i) (by omega)

theorem find_grown (needle front hay : List α) (k : Nat) (inside : front <+: hay)
    (found : find needle front = some k) : find needle hay = some k := by
  obtain ⟨rest,rfl⟩ := inside
  obtain ⟨bound,here,first⟩ := (find_eq_some _ _ _).mp found
  have room := here.length_le
  rw [List.length_drop] at room
  refine (find_eq_some _ _ _).mpr ⟨by rw [List.length_append]; omega,?_,fun j less earlier => first j less ?_⟩
  · rw [List.drop_append_of_le_length bound]
    exact here.trans (List.prefix_append _ _)
  · rw [List.drop_append_of_le_length (by omega)] at earlier
    refine List.prefix_of_prefix_length_le earlier (List.prefix_append _ _) ?_
    rw [List.length_drop]
    omega

theorem find_single (x : α) (hay : List α) (k : Nat) (found : find [x] hay = some k) :
    ∃ front rest, hay = front ++ x::rest ∧ x ∉ front ∧ front.length = k := by
  obtain ⟨bound,⟨rest,here⟩,first⟩ := (find_eq_some _ _ _).mp found
  refine ⟨hay.take k,rest,?_,fun member => ?_,by rw [List.length_take]; omega⟩
  · conv_lhs => rw [← List.take_append_drop k hay,← here]
    rfl
  · obtain ⟨j,inside,rfl⟩ := List.mem_iff_getElem.mp member
    rw [List.length_take] at inside
    refine first j (by omega) ?_
    rw [List.getElem_take,List.drop_eq_getElem_cons (by omega : j < hay.length)]
    exact ⟨_,rfl⟩

end Search
