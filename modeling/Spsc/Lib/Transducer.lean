import Mathlib.Data.List.Basic

/-! Machines that read one symbol at a time and put out any number of others for it, with a last
output at the end of the input. -/
namespace Transducer

structure Machine (σ α β : Type) where
  step : σ → α → σ × List β
  finish : σ → List β

namespace Machine
variable {σ α β γ : Type} (m : Machine σ α β)

/-- The state that an input leads to. -/
def after (s : σ) (input : List α) : σ := input.foldl (fun s x => (m.step s x).1) s

/-- What is put out while an input is read. -/
def out : σ → List α → List β
  | _, [] => []
  | s, x::rest => (m.step s x).2 ++ out (m.step s x).1 rest

def run (s : σ) (input : List α) : List β := m.out s input ++ m.finish (m.after s input)

theorem run_cons (s : σ) (x : α) (rest : List α) : m.run s (x::rest) = (m.step s x).2 ++ m.run (m.step s x).1 rest := by
  rw [run,out,List.append_assoc]
  rfl

theorem after_append (s : σ) (xs ys : List α) : m.after s (xs ++ ys) = m.after (m.after s xs) ys := List.foldl_append

theorem out_append (s : σ) (xs ys : List α) : m.out s (xs ++ ys) = m.out s xs ++ m.out (m.after s xs) ys := by
  induction xs generalizing s with
  | nil => rfl
  | cons x xs ih =>
    rw [List.cons_append,out,out,ih,List.append_assoc]
    rfl

theorem run_append (s : σ) (xs ys : List α) : m.run s (xs ++ ys) = m.out s xs ++ m.run (m.after s xs) ys := by
  rw [run,run,out_append,after_append,List.append_assoc]

/-- A view of the states that the steps respect is what a machine on the views computes. -/
theorem after_view {τ : Type} (view : σ → τ) (next : τ → α → τ)
    (steps : ∀ s x, view (m.step s x).1 = next (view s) x) (s : σ) (input : List α) :
    view (m.after s input) = input.foldl next (view s) := by
  induction input generalizing s with
  | nil => rfl
  | cons x rest ih =>
    rw [List.foldl_cons,← steps]
    exact ih _

/-- Two states that stay related put out lists of one shape. -/
theorem run_related (related : σ → σ → Prop) (shape : β → γ)
    (steps : ∀ s t x, related s t → related (m.step s x).1 (m.step t x).1 ∧
      (m.step s x).2.map shape = (m.step t x).2.map shape)
    (ends : ∀ s t, related s t → (m.finish s).map shape = (m.finish t).map shape) (s t : σ) (both : related s t)
    (input : List α) : (m.run s input).map shape = (m.run t input).map shape := by
  induction input generalizing s t with
  | nil => exact ends s t both
  | cons x rest ih =>
    obtain ⟨onward,same⟩ := steps s t x both
    rw [run_cons,run_cons,List.map_append,List.map_append,same,ih _ _ onward]

end Machine
end Transducer
