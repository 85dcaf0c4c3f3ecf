import Mathlib.Data.List.Basic
import Mathlib.Data.Nat.ModEq

/-! A first-in first-out queue in an array whose end meets its beginning: `tail` is
the place of the oldest item and the others follow it around. -/
namespace Ring

variable {α : Type}

structure Holds (slots : List (Option α)) (tail : Nat) (items : List α) : Prop where
  start : tail < slots.length
  fits : items.length ≤ slots.length
  stored : ∀ i (inside : i < items.length), slots[(tail+i) % slots.length]? = some (some items[i])

/-- The place behind `place`, where the last one is followed by the first. -/
def after (size place : Nat) : Nat := if size ≤ place+1 then 0 else place+1

theorem after_eq (size place : Nat) (inside : place < size) : after size place = (place+1) % size := by
  unfold after
  split
  · rw [(by omega : place+1 = size),Nat.mod_self]
  · exact (Nat.mod_eq_of_lt (by omega)).symm

theorem after_add (size tail count : Nat) (some_size : 0 < size) :
    after size ((tail+count) % size) = (tail+(count+1)) % size := by
  rw [after_eq _ _ (Nat.mod_lt _ some_size),Nat.mod_add_mod,Nat.add_assoc]

theorem holds_nil (slots : List (Option α)) (some_slots : 0 < slots.length) : Holds slots 0 [] where
  start := some_slots
  fits := Nat.zero_le _
  stored := by simp

section Held
variable {slots : List (Option α)} {tail : Nat} {items : List α} (held : Holds slots tail items)
include held

theorem Holds.push (item : α) (room : items.length < slots.length) :
    Holds (slots.set ((tail+items.length) % slots.length) (some item)) tail (items ++ [item]) where
  start := by rw [List.length_set]; exact held.start
  fits := by rw [List.length_set,List.length_append]; exact room
  stored := by
    intro i inside
    rw [List.length_append,List.length_singleton] at inside
    rw [List.length_set]
    rcases Nat.lt_succ_iff_lt_or_eq.mp inside with old | rfl
    · have apart : (tail+items.length) % slots.length ≠ (tail+i) % slots.length := by
        intro same
        have close : items.length ≡ i [MOD slots.length] := Nat.ModEq.add_left_cancel' tail same
        have := close.eq_of_lt_of_lt room (by omega)
        omega
      rw [List.getElem?_set_ne apart,held.stored i old,List.getElem_append_left old]
    · rw [List.getElem?_set_self (Nat.mod_lt _ (by omega)),List.getElem_append_right le_rfl]
      simp

theorem Holds.front (item : α) (rest : List α) (parts : items = item::rest) : slots[tail]? = some (some item) := by
  subst parts
  have first := held.stored 0 (Nat.succ_pos _)
  rwa [Nat.add_zero,Nat.mod_eq_of_lt held.start] at first

theorem Holds.pop (item : α) (rest : List α) (parts : items = item::rest) :
    Holds slots (after slots.length tail) rest where
  start := by
    rw [after_eq _ _ held.start]
    exact Nat.mod_lt _ (Nat.zero_lt_of_lt held.start)
  fits := by
    have fits := held.fits
    rw [parts,List.length_cons] at fits
    omega
  stored := by
    subst parts
    intro i inside
    have next := held.stored (i+1) (Nat.succ_lt_succ inside)
    rw [after_eq _ _ held.start,Nat.mod_add_mod,Nat.add_assoc,Nat.add_comm 1 i,next]
    rfl

end Held
end Ring
