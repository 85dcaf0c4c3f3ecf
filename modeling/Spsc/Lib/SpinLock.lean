import Mathlib.Logic.Function.Basic
import Spsc.Lib.Runs

/-! Threads that share a memory and guard regions of code with one spin lock: a
test-and-set, and while that finds the lock taken, reads until it is free. Every
instruction is a step. What a region does to the memory, seen from outside, it
does at once. -/
namespace SpinLock
open Runs

/-- Where a step inside a region leads: on to another point of it, to its end
with the lock given back next, or to its end with the lock kept. -/
inductive After (κ : Type) where
  | goto (point : κ)
  | unlock
  | keep
  deriving DecidableEq, Repr

/-- `ready` is what a thread must find in the memory to call a region of its
own, `halted` a memory in which no thread goes on. -/
structure Program (θ ρ κ σ : Type) where
  owner : ρ → θ
  ready : ρ → σ → Prop
  first : ρ → κ
  micro : κ → σ → σ × After κ
  halted : σ → Prop

inductive Place (ρ κ : Type) where
  | outside
  | testAndSet (region : ρ)
  | spin (region : ρ)
  | inside (region : ρ) (point : κ)
  | release
  | kept
  deriving DecidableEq, Repr

variable {θ ρ κ σ : Type}

/-- The place of the thread that has the lock. -/
def Place.Holds : Place ρ κ → Prop
  | .inside _ _ | .release | .kept => True
  | .outside | .testAndSet _ | .spin _ => False

/-- A region that the thread is about to enter. -/
def Place.Waits (region : ρ) : Place ρ κ → Prop
  | .testAndSet r | .spin r => r = region
  | _ => False

def After.place (region : ρ) : After κ → Place ρ κ
  | .goto point => .inside region point
  | .unlock => .release
  | .keep => .kept

structure Machine (θ ρ κ σ : Type) where
  memory : σ
  word : Bool
  place : θ → Place ρ κ

variable (p : Program θ ρ κ σ)

def Machine.move [DecidableEq θ] (s : Machine θ ρ κ σ) (i : θ) (place : Place ρ κ) : Machine θ ρ κ σ :=
  { s with place := Function.update s.place i place }

def start (memory : σ) : Machine θ ρ κ σ := ⟨memory,false,fun _ => .outside⟩

/-- One instruction of one thread. -/
inductive Step [DecidableEq θ] : Machine θ ρ κ σ → θ → Machine θ ρ κ σ → Prop
  | calls (s : Machine θ ρ κ σ) (r : ρ) (going : ¬ p.halted s.memory) (here : s.place (p.owner r) = .outside)
      (ready : p.ready r s.memory) : Step s (p.owner r) (s.move (p.owner r) (.testAndSet r))
  | takes (s : Machine θ ρ κ σ) (i : θ) (r : ρ) (going : ¬ p.halted s.memory) (here : s.place i = .testAndSet r)
      (free : s.word = false) : Step s i { s.move i (.inside r (p.first r)) with word := true }
  | finds (s : Machine θ ρ κ σ) (i : θ) (r : ρ) (going : ¬ p.halted s.memory) (here : s.place i = .testAndSet r)
      (taken : s.word = true) : Step s i (s.move i (.spin r))
  | spins (s : Machine θ ρ κ σ) (i : θ) (r : ρ) (going : ¬ p.halted s.memory) (here : s.place i = .spin r)
      (taken : s.word = true) : Step s i s
  | retries (s : Machine θ ρ κ σ) (i : θ) (r : ρ) (going : ¬ p.halted s.memory) (here : s.place i = .spin r)
      (free : s.word = false) : Step s i (s.move i (.testAndSet r))
  | works (s : Machine θ ρ κ σ) (i : θ) (r : ρ) (k : κ) (going : ¬ p.halted s.memory) (here : s.place i = .inside r k) :
      Step s i { s.move i ((p.micro k s.memory).2.place r) with memory := (p.micro k s.memory).1 }
  | releases (s : Machine θ ρ κ σ) (i : θ) (going : ¬ p.halted s.memory) (here : s.place i = .release) :
      Step s i { s.move i .outside with word := false }

/-- The points and memories that a region goes through when no other thread runs. -/
inductive Within (r : ρ) (base : σ) : κ → σ → Prop
  | enter : Within r base (p.first r) base
  | goes (k next : κ) (s : σ) (within : Within r base k s) (on : (p.micro k s).2 = .goto next) :
      Within r base next (p.micro k s).1

/-- A region run as a whole, with whether it keeps the lock. -/
def Whole (r : ρ) (base after : σ) (locked : Bool) : Prop :=
  ∃ k s, Within p r base k s ∧ (p.micro k s).1 = after ∧
    (p.micro k s).2 = bif locked then .keep else .unlock

/-- Regions as single steps, with the thread that has kept the lock. -/
inductive Atomic : σ × Option θ → ρ → σ × Option θ → Prop
  | region (s after : σ) (locked : Bool) (r : ρ) (going : ¬ p.halted s) (ready : p.ready r s)
      (whole : Whole p r s after locked) : Atomic (s,none) r (after,if locked then some (p.owner r) else none)

/-- No region of one thread changes what another thread looked at before it called `lock`. -/
def Private : Prop :=
  ∀ (r other : ρ) (base : σ) (k : κ) (s : σ), p.owner r ≠ p.owner other → Within p other base k s →
    p.ready r s → p.ready r (p.micro k s).1

/-- How the memory relates to `base`, the memory between two regions. -/
structure Guarded (base : σ) (keeper : Option θ) (s : Machine θ ρ κ σ) : Prop where
  exclusive : ∀ i j, (s.place i).Holds → (s.place j).Holds → i = j
  word : s.word = true ↔ ∃ i, (s.place i).Holds
  waits : ∀ i r, (s.place i).Waits r → p.owner r = i ∧ p.ready r s.memory
  inside : ∀ i r k, s.place i = .inside r k →
    p.owner r = i ∧ p.ready r base ∧ ¬ p.halted base ∧ Within p r base k s.memory
  settled : (∀ i r k, s.place i ≠ .inside r k) → s.memory = base
  keeper : ∀ i, keeper = some i ↔ s.place i = .kept

variable {p} {base : σ} {keeper : Option θ} {s t : Machine θ ρ κ σ}

theorem Place.inside_holds (place : Place ρ κ) (r : ρ) (k : κ) (here : place = .inside r k) : place.Holds := by
  rw [here]
  trivial

theorem Place.waits_free (place : Place ρ κ) (r : ρ) (waits : place.Waits r) : ¬ place.Holds := by
  cases place with
  | testAndSet | spin => exact id
  | outside | inside | release | kept => cases waits

theorem After.holds (r : ρ) (after : After κ) : (after.place r).Holds := by cases after <;> trivial

theorem Machine.move_self [DecidableEq θ] (s : Machine θ ρ κ σ) (i : θ) (place : Place ρ κ) : (s.move i place).place i = place := by
  simp only [Machine.move,Function.update_self]

theorem Machine.move_other [DecidableEq θ] (s : Machine θ ρ κ σ) (i j : θ) (place : Place ρ κ) (other : j ≠ i) :
    (s.move i place).place j = s.place j := by
  simp only [Machine.move,Function.update_of_ne other]

namespace Guarded

theorem start (memory : σ) : Guarded p memory none (SpinLock.start memory) where
  exclusive := fun _ _ holds => holds.elim
  word := iff_of_false Bool.false_ne_true (fun ⟨_,holds⟩ => holds)
  waits := fun _ _ waits => waits.elim
  inside := by
    intro i r k here
    cases here
  settled := fun _ => rfl
  keeper := by
    intro i
    refine iff_of_false (Option.some_ne_none i).symm (fun here => ?_)
    cases here

variable (guarded : Guarded p base keeper s)
include guarded

/-- The thread that has the lock is the only one that a step of it has to be checked for. -/
theorem others (i j : θ) (mine : (s.place i).Holds) (other : j ≠ i) : ¬ (s.place j).Holds :=
  fun holds => other (guarded.exclusive j i holds mine)

theorem free (i : θ) (untaken : s.word = false) : ¬ (s.place i).Holds := by
  intro holds
  rw [guarded.word.mpr ⟨i,holds⟩] at untaken
  cases untaken

/-- A step outside the regions. -/
theorem shift [DecidableEq θ] (i : θ) (place : Place ρ κ) (before : ¬ (s.place i).Holds) (after : ¬ place.Holds)
    (waits : ∀ r, place.Waits r → p.owner r = i ∧ p.ready r s.memory) : Guarded p base keeper (s.move i place) := by
  have same : ∀ j, ((s.move i place).place j).Holds → (s.move i place).place j = s.place j := by
    intro j holds
    refine s.move_other i j place ?_
    rintro rfl
    rw [s.move_self] at holds
    exact after holds
  have kept : ∀ j, (s.place j).Holds → (s.move i place).place j = s.place j := by
    intro j holds
    refine s.move_other i j place ?_
    rintro rfl
    exact before holds
  constructor
  · intro j k holds holds'
    rw [same j holds] at holds
    rw [same k holds'] at holds'
    exact guarded.exclusive j k holds holds'
  · refine guarded.word.trans (exists_congr fun j => ⟨fun holds => ?_,fun holds => ?_⟩)
    · rwa [kept j holds]
    · rwa [same j holds] at holds
  · intro j r waiting
    by_cases here : j = i
    · subst here
      rw [s.move_self] at waiting
      exact waits r waiting
    · rw [s.move_other i j place here] at waiting
      exact guarded.waits j r waiting
  · intro j r k here
    rw [same j (Place.inside_holds _ r k here)] at here
    exact guarded.inside j r k here
  · intro none_inside
    refine guarded.settled fun j r k here => none_inside j r k ?_
    rw [kept j (Place.inside_holds _ r k here),here]
  · intro j
    refine (guarded.keeper j).trans ⟨fun here => ?_,fun here => ?_⟩
    · rw [kept j (by rw [here]; trivial),here]
    · rwa [same j (by rw [here]; trivial)] at here

/-- A step of the thread that has the lock, or takes it. -/
theorem hold [DecidableEq θ] (i : θ) (place : Place ρ κ) (memory base' : σ) (keeper' : Option θ) (word : Bool)
    (taken : word = true) (alone : ∀ j, j ≠ i → ¬ (s.place j).Holds) (after : place.Holds)
    (waits : ∀ j r, j ≠ i → (s.place j).Waits r → p.ready r memory)
    (inside : ∀ r k, place = .inside r k → p.owner r = i ∧ p.ready r base' ∧ ¬ p.halted base' ∧ Within p r base' k memory)
    (settled : (∀ r k, place ≠ .inside r k) → memory = base') (keeps : ∀ j, keeper' = some j ↔ j = i ∧ place = .kept) :
    Guarded p base' keeper' { s.move i place with memory := memory, word := word } := by
  have mine : ∀ j, ((s.move i place).place j).Holds → j = i := by
    intro j holds
    by_contra other
    rw [s.move_other i j place other] at holds
    exact alone j other holds
  have here : (s.move i place).place i = place := s.move_self i place
  constructor
  · intro j k holds holds'
    rw [mine j holds,mine k holds']
  · exact iff_of_true taken ⟨i,by rwa [here]⟩
  · intro j r waiting
    have other : j ≠ i := by
      rintro rfl
      rw [here] at waiting
      exact Place.waits_free place r waiting after
    rw [s.move_other i j place other] at waiting
    exact ⟨(guarded.waits j r waiting).1,waits j r other waiting⟩
  · intro j r k point
    obtain rfl := mine j (Place.inside_holds _ r k point)
    exact inside r k (here.symm.trans point)
  · intro none_inside
    exact settled fun r k point => none_inside i r k (here.trans point)
  · intro j
    rw [keeps j]
    constructor
    · rintro ⟨rfl,kept⟩
      exact here.trans kept
    · intro kept
      obtain rfl := mine j (by rw [kept]; trivial)
      exact ⟨rfl,here.symm.trans kept⟩

theorem release [DecidableEq θ] (i : θ) (here : s.place i = .release) :
    Guarded p base keeper { s.move i .outside with word := false } := by
  have alone : ∀ j, ¬ ((s.move i .outside).place j).Holds := by
    intro j holds
    by_cases same : j = i
    · rw [same,s.move_self] at holds
      exact holds
    · rw [s.move_other i j _ same] at holds
      exact guarded.others i j (by rw [here]; trivial) same holds
  constructor
  · intro j k holds
    exact absurd holds (alone j)
  · exact iff_of_false Bool.false_ne_true (fun ⟨j,holds⟩ => alone j holds)
  · intro j r waiting
    have other : j ≠ i := by
      rintro rfl
      rw [s.move_self] at waiting
      cases waiting
    rw [s.move_other i j _ other] at waiting
    exact guarded.waits j r waiting
  · intro j r k point
    exact absurd (Place.inside_holds _ r k point) (alone j)
  · intro _
    refine guarded.settled fun j r k point => ?_
    obtain rfl := guarded.exclusive j i (Place.inside_holds _ r k point) (by rw [here]; trivial)
    rw [here] at point
    cases point
  · intro j
    refine iff_of_false (fun kept => ?_) (fun kept => alone j (by rw [kept]; trivial))
    have point := (guarded.keeper j).mp kept
    obtain rfl := guarded.exclusive j i (by rw [point]; trivial) (by rw [here]; trivial)
    rw [here] at point
    cases point

theorem not_kept (i : θ) (holds : (s.place i).Holds) (here : s.place i ≠ .kept) : keeper = none := by
  rw [Option.eq_none_iff_forall_ne_some]
  intro j keeps
  have kept := (guarded.keeper j).mp keeps
  obtain rfl := guarded.exclusive j i (by rw [kept]; trivial) holds
  exact here kept

/-- Each step leaves the memory between the regions as it was, or runs one region on it. -/
theorem step [DecidableEq θ] (secret : Private p) (i : θ) (taken : Step p s i t) :
    Guarded p base keeper t ∨ ∃ r base' keeper', Atomic p (base,keeper) r (base',keeper') ∧
      Guarded p base' keeper' t := by
  cases taken with
  | calls r going here ready =>
    refine .inl (guarded.shift (p.owner r) (.testAndSet r) (by rw [here]; exact id) id ?_)
    rintro r' rfl
    exact ⟨rfl,ready⟩
  | takes _ r going here free =>
    have idle := fun j => guarded.free j free
    obtain ⟨owner,ready⟩ := guarded.waits i r (by rw [here]; rfl)
    have same := guarded.settled fun j r k point => idle j (Place.inside_holds _ r k point)
    refine .inl (guarded.hold i _ s.memory base keeper true rfl (fun j _ => idle j) trivial
      (fun j r' _ waiting => (guarded.waits j r' waiting).2) ?_ (fun outside => absurd rfl (outside r (p.first r))) ?_)
    · rintro r' k ⟨⟩
      rw [same] at ready going
      exact ⟨owner,ready,going,same ▸ .enter⟩
    · intro j
      refine iff_of_false (fun keeps => ?_) (fun ⟨_,point⟩ => by cases point)
      exact idle j (by rw [(guarded.keeper j).mp keeps]; trivial)
  | finds _ r going here =>
    refine .inl (guarded.shift i (.spin r) (by rw [here]; exact id) id ?_)
    rintro r' rfl
    exact guarded.waits i _ (by rw [here]; rfl)
  | spins => exact .inl guarded
  | retries _ r going here =>
    refine .inl (guarded.shift i (.testAndSet r) (by rw [here]; exact id) id ?_)
    rintro r' rfl
    exact guarded.waits i _ (by rw [here]; rfl)
  | works _ r k going here =>
    have holds : (s.place i).Holds := Place.inside_holds _ r k here
    obtain ⟨owner,ready,goingBase,within⟩ := guarded.inside i r k here
    obtain rfl := guarded.not_kept i holds (by rw [here]; rintro ⟨⟩)
    have waits : ∀ j r', j ≠ i → (s.place j).Waits r' → p.ready r' (p.micro k s.memory).1 := by
      intro j r' other waiting
      obtain ⟨owner',ready'⟩ := guarded.waits j r' waiting
      exact secret r' r base k s.memory (by rw [owner,owner']; exact other) within ready'
    have moved := fun base' keeper' => guarded.hold i ((p.micro k s.memory).2.place r) (p.micro k s.memory).1
      base' keeper' s.word (guarded.word.mpr ⟨i,holds⟩) (fun j => guarded.others i j holds) (After.holds r _) waits
    have run : ∀ locked, (p.micro k s.memory).2 = (bif locked then .keep else .unlock) →
        Atomic p (base,none) r ((p.micro k s.memory).1,if locked then some (p.owner r) else none) := fun locked after =>
      .region base _ locked r goingBase ready ⟨k,s.memory,within,rfl,after⟩
    cases after : (p.micro k s.memory).2 with
    | goto next =>
      rw [after] at moved
      refine .inl (moved base none ?_ (fun outside => absurd rfl (outside r next)) (by simp [After.place]))
      rintro r' k' ⟨⟩
      exact ⟨owner,ready,goingBase,.goes k next s.memory within after⟩
    | unlock =>
      rw [after] at moved
      exact .inr ⟨r,_,_,run false after,moved _ _ (by rintro r' k' ⟨⟩) (fun _ => rfl) (by simp [After.place])⟩
    | keep =>
      rw [after] at moved
      exact .inr ⟨r,_,_,run true after,moved _ _ (by rintro r' k' ⟨⟩) (fun _ => rfl)
        (by simp [After.place,owner,eq_comm])⟩
  | releases _ going here => exact .inl (guarded.release i here)

end Guarded

/-- A thread that has kept the lock takes no more steps. -/
theorem Step.kept [DecidableEq θ] (i j : θ) (taken : Step p s i t) (here : s.place j = .kept) : t.place j = .kept := by
  have moved : ∀ place, j ≠ i → (s.move i place).place j = .kept :=
    fun place other => (s.move_other i j place other).trans here
  cases taken with
  | spins => exact here
  | calls r _ there | takes _ r _ there | finds _ r _ there | retries _ r _ there | works _ r k _ there
  | releases _ _ there =>
    refine moved _ ?_
    rintro rfl
    rw [here] at there
    cases there

/-- Any run of the instructions is a run of whole regions, as far as they are over. -/
theorem run_atomic [DecidableEq θ] (secret : Private p) (memory : σ) (final : Machine θ ρ κ σ)
    (reached : Reachable (Step p) (start memory) final) :
    ∃ base keeper, Reachable (Atomic p) (memory,none) (base,keeper) ∧ Guarded p base keeper final := by
  refine reached.invariant (fun s => ∃ base keeper, Reachable (Atomic p) (memory,none) (base,keeper) ∧
    Guarded p base keeper s) ⟨memory,none,⟨[],.nil⟩,.start memory⟩ ?_
  rintro s i t ⟨base,keeper,⟨trace,run⟩,guarded⟩ taken
  rcases guarded.step secret i taken with same | ⟨r,base',keeper',region,next⟩
  · exact ⟨base,keeper,⟨trace,run⟩,same⟩
  · exact ⟨base',keeper',⟨_,.snoc _ r _ trace run region⟩,next⟩

/-- A thread that finds the lock free and is left alone gets through its region. -/
theorem Within.run [DecidableEq θ] (r : ρ) (k : κ) (memory : σ) (within : Within p r s.memory k memory)
    (going : ∀ k memory, Within p r s.memory k memory → ¬ p.halted memory) (ready : p.ready r s.memory)
    (here : s.place (p.owner r) = .outside) (free : s.word = false) :
    ∃ t, Reachable (Step p) s t ∧ t.memory = memory ∧ t.place (p.owner r) = .inside r k := by
  induction within with
  | enter =>
    have alive := going (p.first r) s.memory .enter
    have call := Step.calls s r alive here ready
    have take := Step.takes (s.move (p.owner r) (.testAndSet r)) (p.owner r) r alive (s.move_self _ _) free
    exact ⟨_,⟨_,(Run.single _ _ _ call).append (.single _ _ _ take)⟩,rfl,Machine.move_self _ _ _⟩
  | goes k next memory within on ih =>
    obtain ⟨t,⟨trace,run⟩,rfl,inside⟩ := ih
    have work := Step.works t (p.owner r) r k (going k t.memory within) inside
    refine ⟨_,⟨_,.snoc _ _ _ trace run work⟩,rfl,?_⟩
    rw [on]
    exact t.move_self _ _

theorem Whole.run [DecidableEq θ] (r : ρ) (after : σ) (locked : Bool) (whole : Whole p r s.memory after locked)
    (going : ∀ k memory, Within p r s.memory k memory → ¬ p.halted memory) (ready : p.ready r s.memory)
    (here : s.place (p.owner r) = .outside) (free : s.word = false) :
    ∃ t, Reachable (Step p) s t ∧ t.memory = after ∧
      t.place (p.owner r) = bif locked then .kept else .release := by
  obtain ⟨k,memory,within,rfl,held⟩ := whole
  obtain ⟨t,⟨trace,run⟩,rfl,inside⟩ := within.run r k memory going ready here free
  have work := Step.works t (p.owner r) r k (going k t.memory within) inside
  refine ⟨_,⟨_,.snoc _ _ _ trace run work⟩,rfl,?_⟩
  rw [held]
  cases locked <;> exact t.move_self _ _

end SpinLock
