import Mathlib.Data.Finset.Basic
import Mathlib.Data.Finset.SDiff
import Mathlib.Data.Finset.Insert
import Spsc.Lib.Runs

/-! A pool of ordered slots that hands out the lowest slot not in use and takes
back only the lowest slot in use. Any other slot that its owner gives up stays
in use with no owner: it is lost. -/
namespace Slots
open Runs

variable {α : Type} [LinearOrder α]

@[ext]
structure State (α : Type) where
  used : Finset α
  owned : Finset α

inductive Call (α : Type) where
  | take
  | give (slot : α)

inductive Step (slots : Finset α) : State α → Call α → State α → Prop
  | taken (s : State α) (slot : α) (idle : slot ∈ slots) (free : slot ∉ s.used)
      (lowest : ∀ other ∈ slots, other ∉ s.used → slot ≤ other) :
      Step slots s .take ⟨insert slot s.used,insert slot s.owned⟩
  | full (s : State α) (none_free : slots ⊆ s.used) : Step slots s .take s
  | given (s : State α) (slot : α) (mine : slot ∈ s.owned) (lowest : ∀ other ∈ s.used, slot ≤ other) :
      Step slots s (.give slot) ⟨s.used.erase slot,s.owned.erase slot⟩
  | kept (s : State α) (slot other : α) (mine : slot ∈ s.owned) (below : other < slot)
      (busy : other ∈ s.used) : Step slots s (.give slot) ⟨s.used,s.owned.erase slot⟩

def start : State α := ⟨∅,∅⟩

/-- Every owner's slot is in use. -/
def Held (s : State α) : Prop := s.owned ⊆ s.used

def Lost (s : State α) (slot : α) : Prop := slot ∈ s.used ∧ slot ∉ s.owned

def LossFree (s : State α) : Prop := ∀ slot, ¬ Lost s slot

/-- A call that gives nothing up but the lowest slot in use. -/
def Orderly (s : State α) : Call α → Prop
  | .take => True
  | .give slot => ∀ other ∈ s.used, slot ≤ other

variable {slots : Finset α} {s t : State α} {call : Call α}

theorem Step.give (slot : α) (mine : slot ∈ s.owned) (owned : t.owned = s.owned.erase slot)
    (used : (∀ other ∈ s.used, slot ≤ other) ∧ t.used = s.used.erase slot ∨
      (∃ other ∈ s.used, other < slot) ∧ t.used = s.used) : Step slots s (.give slot) t := by
  obtain ⟨left,rest⟩ := t
  obtain rfl : rest = s.owned.erase slot := owned
  rcases used with ⟨lowest,same⟩ | ⟨⟨other,busy,below⟩,same⟩
  · obtain rfl : left = s.used.erase slot := same
    exact .given s slot mine lowest
  · obtain rfl : left = s.used := same
    exact .kept s slot other mine below busy

theorem Step.held (step : Step slots s call t) (held : Held s) : Held t := by
  intro slot mine
  cases step with
  | taken new =>
    rcases Finset.mem_insert.mp mine with rfl | old
    · exact Finset.mem_insert_self _ _
    · exact Finset.mem_insert_of_mem (held old)
  | full => exact held mine
  | given freed =>
    obtain ⟨different,old⟩ := Finset.mem_erase.mp mine
    exact Finset.mem_erase.mpr ⟨different,held old⟩
  | kept freed => exact held (Finset.mem_erase.mp mine).2

theorem Step.lossFree_iff (step : Step slots s call t) (none_lost : LossFree s) (held : Held s) :
    LossFree t ↔ Orderly s call := by
  have owner : ∀ slot ∈ s.used, slot ∈ s.owned :=
    fun slot busy => by_contra fun other => none_lost slot ⟨busy,other⟩
  cases step with
  | taken new =>
    refine iff_of_true ?_ trivial
    rintro slot ⟨busy,lost⟩
    rw [Finset.mem_insert,not_or] at lost
    exact lost.2 (owner slot ((Finset.mem_insert.mp busy).resolve_left lost.1))
  | full => exact iff_of_true none_lost trivial
  | given freed _ lowest =>
    refine iff_of_true ?_ lowest
    rintro slot ⟨busy,lost⟩
    obtain ⟨different,old⟩ := Finset.mem_erase.mp busy
    exact lost (Finset.mem_erase.mpr ⟨different,owner slot old⟩)
  | kept freed other mine below busy =>
    refine iff_of_false (fun free => ?_) (fun lowest => absurd (lowest other busy) (not_le.mpr below))
    exact free freed ⟨held mine,Finset.notMem_erase freed s.owned⟩

theorem Step.lost (step : Step slots s call t) (slot : α) (lost : Lost s slot) : Lost t slot := by
  obtain ⟨busy,orphan⟩ := lost
  cases step with
  | taken new _ free =>
    refine ⟨Finset.mem_insert_of_mem busy,fun mine => orphan ?_⟩
    refine (Finset.mem_insert.mp mine).resolve_left ?_
    rintro rfl
    exact free busy
  | full => exact ⟨busy,orphan⟩
  | given freed mine =>
    refine ⟨Finset.mem_erase.mpr ⟨?_,busy⟩,fun still => orphan (Finset.mem_erase.mp still).2⟩
    rintro rfl
    exact orphan mine
  | kept freed => exact ⟨busy,fun still => orphan (Finset.mem_erase.mp still).2⟩

/-- What stands above a lost slot is never taken back. -/
theorem Step.stuck (step : Step slots s call t) (slot other : α) (lost : Lost s slot) (above : slot ≤ other)
    (busy : other ∈ s.used) : other ∈ t.used := by
  cases step with
  | taken new => exact Finset.mem_insert_of_mem busy
  | full => exact busy
  | given freed mine lowest =>
    refine Finset.mem_erase.mpr ⟨?_,busy⟩
    rintro rfl
    obtain rfl := le_antisymm above (lowest slot lost.1)
    exact lost.2 mine
  | kept freed => exact busy

variable {trace : List (State α × Call α)}

theorem Run.lossFree_iff (run : Run (Step slots) start trace t) :
    Throughout LossFree trace t ↔ ∀ entry ∈ trace, Orderly entry.1 entry.2 :=
  run.exact LossFree Held Orderly ⟨by simp [LossFree,Lost,start],Finset.Subset.refl _⟩
    (fun _ _ _ free held step => step.lossFree_iff free held) (fun _ _ _ _ held step _ => step.held held)

theorem Run.stuck (run : Run (Step slots) s trace t) (slot : α) (lost : Lost s slot) :
    Lost t slot ∧ ∀ other ∈ s.used, slot ≤ other → other ∈ t.used := by
  induction run with
  | nil => exact ⟨lost,fun _ busy _ => busy⟩
  | snoc before call after trace _ last ih =>
    obtain ⟨still,kept⟩ := ih
    exact ⟨last.lost slot still,fun other busy above => last.stuck slot other still above (kept other busy above)⟩

end Slots
