import Mathlib.Data.List.Infix

/-! The occurrences of a pattern in a stream that a reader meets who goes on behind
each one, and the matcher that keeps only the length of its current partial match
and drops it when the next element breaks it. -/
namespace Occurrences

variable {α : Type} [DecidableEq α] (pattern : List α)

/-- From `place` on, after `skip` more elements: the leftmost occurrence, then the
leftmost one behind it, and so on. -/
def occurrences : Nat → Nat → List α → List Nat
  | _, _, [] => []
  | skip+1, place, _::rest => occurrences skip (place+1) rest
  | 0, place, x::rest =>
    if pattern <+: x::rest then place::occurrences (pattern.length-1) (place+1) rest
    else occurrences 0 (place+1) rest

/-- The matcher at `place`, behind a partial match of length `state`. -/
def scan : Nat → Nat → List α → List Nat
  | _, _, [] => []
  | state, place, x::rest =>
    if pattern[state]? = some x then
      if state+1 = pattern.length then (place+1-pattern.length)::scan 0 (place+1) rest
      else scan (state+1) (place+1) rest
    else scan 0 (place+1) rest

/-- Behind a partial match of length `state`, until `count` occurrences are met:
none begins inside a partial match that fails, or at the element that broke it. -/
def Clean : Nat → Nat → List α → Prop
  | 0, _, _ => True
  | _+1, _, [] => True
  | count+1, state, x::rest =>
    if pattern[state]? = some x then
      if state+1 = pattern.length then Clean count 0 rest else Clean (count+1) (state+1) rest
    else (∀ j < state, ¬ pattern <+: (pattern.take state ++ x::rest).drop (j+1)) ∧ Clean (count+1) 0 rest

instance decidableClean : ∀ count state stream, Decidable (Clean pattern count state stream)
  | 0, _, _ => .isTrue (by simp [Clean])
  | _+1, _, [] => .isTrue (by simp [Clean])
  | count+1, state, x::rest =>
    if here : pattern[state]? = some x then
      if whole : state+1 = pattern.length then
        have := decidableClean count 0 rest
        decidable_of_iff (Clean pattern count 0 rest) (by rw [Clean,if_pos here,if_pos whole])
      else
        have := decidableClean (count+1) (state+1) rest
        decidable_of_iff (Clean pattern (count+1) (state+1) rest) (by rw [Clean,if_pos here,if_neg whole])
    else
      have := decidableClean (count+1) 0 rest
      decidable_of_iff ((∀ j < state, ¬ pattern <+: (pattern.take state ++ x::rest).drop (j+1)) ∧
        Clean pattern (count+1) 0 rest) (by rw [Clean,if_neg here])

theorem occurrences_short (place : Nat) (stream : List α) (short : stream.length < pattern.length) :
    occurrences pattern 0 place stream = [] := by
  induction stream generalizing place with
  | nil => rfl
  | cons x rest ih =>
    have other : ¬ pattern <+: x::rest := fun start => by
      have := start.length_le
      omega
    rw [occurrences,if_neg other]
    exact ih (place+1) (by rw [List.length_cons] at short; omega)

theorem occurrences_skip (skip place : Nat) (front rest : List α) (size : front.length = skip) :
    occurrences pattern skip place (front ++ rest) = occurrences pattern 0 (place+skip) rest := by
  induction front generalizing skip place with
  | nil =>
    subst size
    rfl
  | cons x front ih =>
    obtain ⟨skip,rfl⟩ : ∃ count, skip = count+1 := ⟨front.length,size.symm⟩
    rw [List.cons_append,occurrences,ih skip (place+1) (by simpa using size)]
    congr 1
    omega

theorem occurrences_found (place : Nat) (rest : List α) (some_pattern : pattern ≠ []) :
    occurrences pattern 0 place (pattern ++ rest) =
      place::occurrences pattern 0 (place+pattern.length) rest := by
  obtain ⟨x,tail,rfl⟩ := List.exists_cons_of_ne_nil some_pattern
  rw [List.cons_append,occurrences,if_pos ⟨rest,rfl⟩]
  rw [occurrences_skip (x::tail) ((x::tail).length-1) (place+1) tail rest rfl]
  congr 2
  simp only [List.length_cons]
  omega

/-- Where no occurrence begins in the front, the reader passes over it. -/
theorem occurrences_passed (place : Nat) (front rest : List α)
    (none_begins : ∀ j < front.length, ¬ pattern <+: (front ++ rest).drop j) :
    occurrences pattern 0 place (front ++ rest) = occurrences pattern 0 (place+front.length) rest := by
  induction front generalizing place with
  | nil => rfl
  | cons x front ih =>
    have other : ¬ pattern <+: x::(front ++ rest) := none_begins 0 (by simp)
    rw [List.cons_append,occurrences,if_neg other,
      ih (place+1) (fun j less => none_begins (j+1) (by rw [List.length_cons]; omega)),List.length_cons]
    congr 1
    omega

theorem occurrences_ne_nil (place j : Nat) (stream : List α) (some_pattern : pattern ≠ [])
    (inside : pattern <+: stream.drop j) : occurrences pattern 0 place stream ≠ [] := by
  induction stream generalizing place j with
  | nil =>
    rw [List.drop_nil] at inside
    exact absurd (List.prefix_nil.mp inside) some_pattern
  | cons x rest ih =>
    rw [occurrences]
    split
    · exact List.cons_ne_nil _ _
    · next other =>
      cases j with
      | zero => exact absurd inside other
      | succ j => exact ih (place+1) j inside

theorem scan_short (state place : Nat) (stream : List α) (short : state+stream.length < pattern.length) :
    scan pattern state place stream = [] := by
  induction stream generalizing state place with
  | nil => rfl
  | cons x rest ih =>
    rw [List.length_cons] at short
    rw [scan]
    split
    · rw [if_neg (by omega)]
      exact ih (state+1) (place+1) (by omega)
    · exact ih 0 (place+1) (by omega)

omit [DecidableEq α] in
theorem take_succ_state (state : Nat) (x : α) (rest : List α) (here : pattern[state]? = some x) :
    pattern.take state ++ x::rest = pattern.take (state+1) ++ rest := by
  rw [List.take_add_one,here]
  simp

omit [DecidableEq α] in
theorem forall_prefix_cons (property : List α → Prop) (x : α) (rest : List α) (none : property []) :
    (∀ front, front <+: x::rest → property front) ↔ ∀ front, front <+: rest → property (x::front) := by
  constructor
  · intro all front inside
    exact all _ (List.cons_prefix_cons.mpr ⟨rfl,inside⟩)
  · intro all front inside
    cases front with
    | nil => exact none
    | cons y front =>
      obtain ⟨rfl,short⟩ := List.cons_prefix_cons.mp inside
      exact all front short

omit [DecidableEq α] in
theorem broken_not_prefix (state : Nat) (x : α) (rest : List α) (some_state : state < pattern.length)
    (broken : pattern[state]? ≠ some x) : ¬ pattern <+: pattern.take state ++ x::rest := by
  intro start
  refine broken ?_
  have size : (pattern.take state).length = state := by rw [List.length_take]; omega
  have same := List.prefix_iff_getElem?.mp start state some_state
  rw [List.getElem?_append_right (by omega),size,Nat.sub_self] at same
  rw [List.getElem?_eq_getElem some_state]
  exact same.symm

omit [DecidableEq α] in
theorem prefix_behind (kept : List α) (x : α) (front rest : List α) (inside : front <+: rest) :
    kept ++ x::front <+: kept ++ x::rest :=
  (List.prefix_append_right_inj _).mpr (List.cons_prefix_cons.mpr ⟨rfl,inside⟩)

/-- Every place that the matcher finds is one of an occurrence. -/
theorem scan_sound (state place : Nat) (stream : List α) (some_state : state < pattern.length) (found : Nat)
    (recorded : found ∈ scan pattern state (place+state) stream) :
    ∃ k, found = place+k ∧ pattern <+: (pattern.take state ++ stream).drop k := by
  induction stream generalizing state place with
  | nil => cases recorded
  | cons x rest ih =>
    rw [scan] at recorded
    have later : ∀ count, found ∈ scan pattern 0 (place+count) rest →
        ∃ k, found = place+(count+k) ∧ pattern <+: rest.drop k := by
      intro count member
      obtain ⟨k,same,begins⟩ := ih 0 (place+count) (by omega) member
      refine ⟨k,by omega,?_⟩
      rwa [List.take_zero,List.nil_append] at begins
    split at recorded
    · next here =>
      rw [take_succ_state pattern state x rest here]
      split at recorded
      · next whole =>
        have all : pattern.take (state+1) = pattern := List.take_of_length_le (by omega)
        rw [all]
        rcases List.mem_cons.mp recorded with first | member
        · exact ⟨0,by omega,List.prefix_append _ _⟩
        · rw [Nat.add_assoc,whole] at member
          obtain ⟨k,same,begins⟩ := later _ member
          refine ⟨pattern.length+k,same,?_⟩
          rwa [List.drop_length_add_append]
      · exact ih (state+1) place (by omega) recorded
    · obtain ⟨k,same,begins⟩ := later (state+1) recorded
      refine ⟨state+1+k,same,?_⟩
      have size : (pattern.take state ++ [x]).length = state+1 := by
        rw [List.length_append,List.length_take,List.length_singleton]
        omega
      rw [List.append_cons,← size,List.drop_length_add_append]
      exact begins

/-- The places found are at least the pattern's length apart. -/
theorem scan_apart (state place : Nat) (stream : List α) (some_state : state < pattern.length) :
    (scan pattern state (place+state) stream).Pairwise (fun first second => first+pattern.length ≤ second) := by
  induction stream generalizing state place with
  | nil => exact List.Pairwise.nil
  | cons x rest ih =>
    rw [scan]
    have next := ih 0 (place+state+1) (by omega)
    split
    · split
      · next whole =>
        refine List.pairwise_cons.mpr ⟨fun second member => ?_,next⟩
        obtain ⟨k,same,_⟩ := scan_sound pattern 0 (place+state+1) rest (by omega) second member
        omega
      · exact ih (state+1) place (by omega)
    · exact next

section Broken
variable (state : Nat) (x : α) (some_state : state < pattern.length) (broken : pattern[state]? ≠ some x)
include some_state broken

theorem occurrences_broken (place : Nat) (rest : List α)
    (none_begins : ∀ j < state, ¬ pattern <+: (pattern.take state ++ x::rest).drop (j+1)) :
    occurrences pattern 0 place (pattern.take state ++ x::rest) = occurrences pattern 0 (place+(state+1)) rest := by
  have size : (pattern.take state ++ [x]).length = state+1 := by
    rw [List.length_append,List.length_take,List.length_singleton]
    omega
  have passed := occurrences_passed pattern place (pattern.take state ++ [x]) rest (by
    intro j less
    rw [List.append_assoc,List.singleton_append]
    cases j with
    | zero => exact broken_not_prefix pattern state x rest some_state broken
    | succ j => exact none_begins j (by omega))
  rwa [size,List.append_assoc,List.singleton_append] at passed

omit broken in
/-- At the end of an occurrence that a failed match hides, the matcher has found
nothing in what followed the failure. -/
theorem hidden_occurrence (place j : Nat) (rest : List α) (inside : j < state)
    (begins : pattern <+: (pattern.take state ++ x::rest).drop (j+1)) :
    ∃ front, front <+: rest ∧ scan pattern 0 (place+(state+1)) front = [] ∧
      occurrences pattern 0 place (pattern.take state ++ x::front) ≠ [] := by
  have length := begins.length_le
  rw [List.length_drop,List.length_append,List.length_take,List.length_cons] at length
  refine ⟨rest.take (j+pattern.length-state),List.take_prefix _ _,?_,?_⟩
  · exact scan_short pattern 0 _ _ (by rw [List.length_take]; omega)
  · refine occurrences_ne_nil pattern place (j+1) _ (List.ne_nil_of_length_pos (by omega)) ?_
    refine List.prefix_of_prefix_length_le begins ?_ ?_
    · exact (prefix_behind _ x _ _ (List.take_prefix _ _)).drop _
    · rw [List.length_drop,List.length_append,List.length_take,List.length_cons,List.length_take]
      omega

variable {β : Type} (record value : Nat → β)

/-- Behind an element that breaks the match the matcher is right exactly when the match
hid no occurrence and it is right from there on. -/
theorem broken_exact (count place : Nat) (rest : List α)
    (later : (∀ front, front <+: rest → ((scan pattern 0 (place+(state+1)) front).take (count+1)).map record =
        ((occurrences pattern 0 (place+(state+1)) front).take (count+1)).map value) ↔
      Clean pattern (count+1) 0 rest ∧
        ∀ found ∈ (occurrences pattern 0 (place+(state+1)) rest).take (count+1), record found = value found) :
    (∀ front, front <+: rest → ((scan pattern 0 (place+(state+1)) front).take (count+1)).map record =
        ((occurrences pattern 0 place (pattern.take state ++ x::front)).take (count+1)).map value) ↔
      ((∀ j < state, ¬ pattern <+: (pattern.take state ++ x::rest).drop (j+1)) ∧ Clean pattern (count+1) 0 rest) ∧
        ∀ found ∈ (occurrences pattern 0 place (pattern.take state ++ x::rest)).take (count+1),
          record found = value found := by
  by_cases hidden : ∀ j < state, ¬ pattern <+: (pattern.take state ++ x::rest).drop (j+1)
  · have passed : ∀ front, front <+: rest → occurrences pattern 0 place (pattern.take state ++ x::front) =
        occurrences pattern 0 (place+(state+1)) front := by
      intro front inside
      refine occurrences_broken pattern state x some_state broken place front (fun j less begins => ?_)
      exact hidden j less (begins.trans ((prefix_behind _ x front rest inside).drop _))
    rw [passed rest List.prefix_rfl,and_assoc,and_iff_right hidden]
    exact Iff.trans (forall₂_congr (fun front inside => by rw [passed front inside])) later
  · refine iff_of_false (fun all => ?_) (fun both => hidden both.1.1)
    obtain ⟨j,less,begins⟩ : ∃ j < state, pattern <+: (pattern.take state ++ x::rest).drop (j+1) := by
      by_contra none
      exact hidden (fun j less begins => none ⟨j,less,begins⟩)
    obtain ⟨front,inside,nothing_found,found⟩ :=
      hidden_occurrence pattern state x some_state place j rest less begins
    have same := all front inside
    rw [nothing_found] at same
    have empty := List.map_eq_nil_iff.mp same.symm
    rcases List.take_eq_nil_iff.mp empty with absurd_count | none
    · cases absurd_count
    · exact found none

end Broken

section Record
variable {β : Type} (record value : Nat → β)

/-- The matcher, recording its places through `record`, is right about every front of
the stream exactly when the stream is clean and `record` is right about the places. -/
theorem scan_exact (count state place : Nat) (stream : List α) (some_state : state < pattern.length) :
    (∀ front, front <+: stream →
      ((scan pattern state (place+state) front).take count).map record =
        ((occurrences pattern 0 place (pattern.take state ++ front)).take count).map value) ↔
    Clean pattern count state stream ∧
      ∀ found ∈ (occurrences pattern 0 place (pattern.take state ++ stream)).take count, record found = value found := by
  have nothing : ∀ state place, state < pattern.length →
      occurrences pattern 0 place (pattern.take state ++ []) = [] := by
    intro state place small
    exact occurrences_short pattern place _ (by rw [List.append_nil,List.length_take]; omega)
  induction stream generalizing count state place with
  | nil =>
    rw [nothing state place some_state]
    refine iff_of_true (fun front inside => ?_) ⟨by cases count <;> simp [Clean],by simp⟩
    obtain rfl := List.prefix_nil.mp inside
    rw [nothing state place some_state]
    simp [scan]
  | cons x rest ih =>
    cases count with
    | zero => simp [Clean]
    | succ count =>
      rw [forall_prefix_cons _ x rest (by rw [nothing state place some_state]; simp [scan])]
      by_cases here : pattern[state]? = some x
      · simp only [scan,Clean,if_pos here,take_succ_state pattern state x _ here]
        by_cases whole : state+1 = pattern.length
        · have all : pattern.take (state+1) = pattern := List.take_of_length_le (by omega)
          have some_pattern : pattern ≠ [] := List.ne_nil_of_length_pos (by omega)
          have next : place+state+1 = place+pattern.length+0 := by omega
          have first : place+pattern.length+0-pattern.length = place := by omega
          have later := ih count 0 (place+pattern.length) (by omega)
          simp only [List.take_zero,List.nil_append] at later
          simp only [if_pos whole,all,occurrences_found pattern _ _ some_pattern,first,next,List.take_succ_cons,
            List.map_cons,List.cons.injEq,List.forall_mem_cons]
          refine Iff.trans ?_ ((and_congr_right fun _ => later).trans and_left_comm)
          exact ⟨fun all => ⟨(all [] List.nil_prefix).1,fun front inside => (all front inside).2⟩,
            fun both front inside => ⟨both.1,both.2 front inside⟩⟩
        · simp only [if_neg whole]
          exact ih (count+1) (state+1) place (by omega)
      · have later := ih (count+1) 0 (place+(state+1)) (by omega)
        simp only [List.take_zero,List.nil_append,Nat.add_zero] at later
        simp only [scan,Clean,if_neg here]
        exact broken_exact pattern state x some_state here record value count place rest later

end Record
end Occurrences
