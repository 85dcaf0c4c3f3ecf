import Spsc.Hash

/-! What `toDec` makes of a byte array for every size of its buffer, and what `toBin` makes of that
text. `toBin` is only called from the tests. -/
namespace Spsc.Hash
open Imperative

def nibbles (ch : Byte) : Byte :=
  if ch = char '1' then 0x1 else
  if ch = char '2' then 0x2 else
  if ch = char '3' then 0x3 else
  if ch = char '4' then 0x4 else
  if ch = char '5' then 0x5 else
  if ch = char '6' then 0x6 else
  if ch = char '7' then 0x7 else
  if ch = char '8' then 0x8 else
  if ch = char '9' then 0x9 else
  if ch = char 'A' then 0xA else
  if ch = char 'B' then 0xB else
  if ch = char 'C' then 0xC else
  if ch = char 'D' then 0xD else
  if ch = char 'E' then 0xE else
  if ch = char 'F' then 0xF else 0x0

/-- `(nibbles(high) << 4 & 0xF0) & (nibbles(low) & 0x0F)`. -/
def joined (high low : Byte) : Byte := ((nibbles high <<< 4) &&& 0xF0) &&& (nibbles low &&& 0x0F)

/-- `i` goes up by two, so its loop has half as many turns as `rlen`, rounded up. -/
def toBin (r : Bytes) (rlen : Nat) (b : Bytes) (blen : Nat) : C Bytes := do
  let (_,b) ← forLoop (fun turn (j,b) => do
    assert (blen > j)
    let high ← load .bounds r ((2*turn : Nat) : Int)
    let low ← load .bounds r ((2*turn+1 : Nat) : Int)
    let b ← store .bounds b (j : Nat) (joined high low)
    .ok (j+1,b)) 0 ((rlen+1)/2) ((0 : Nat),b)
  .ok b

/-- The two halves are joined with `&`, and no bit is in both. -/
theorem joined_zero (high low : Byte) : joined high low = 0 := by
  have apart : joined high low = (nibbles high <<< 4 &&& nibbles low) &&& (0xF0 &&& 0x0F) := by
    unfold joined
    ac_rfl
  rw [apart,(by decide : (0xF0 &&& 0x0F : Byte) = 0),UInt8.and_zero]

/-- Whatever the digits say, `toBin` writes zeros. -/
theorem toBin_zeros (r out : Bytes) (count blen : Nat) (text : 2*count ≤ r.length) (room : count ≤ blen)
    (fits : blen ≤ out.length) : toBin r (2*count) out blen = .ok (List.replicate count 0 ++ out.drop count) := by
  have zeroed := forLoop_closed (fun turn (state : Nat × Bytes) => do
      assert (blen > state.1)
      let high ← load Fault.bounds r ((2*turn : Nat) : Int)
      let low ← load Fault.bounds r ((2*turn+1 : Nat) : Int)
      let b ← store Fault.bounds state.2 (state.1 : Nat) (joined high low)
      .ok (state.1+1,b))
    (fun turn => (turn,List.replicate turn 0 ++ out.drop turn)) 0 count (by
      intro turn _ high
      have digits : 2*turn+1 < r.length := by omega
      simp only
      rw [assert_holds _ (by omega : blen > turn)]
      simp only [bind,Except.bind]
      rw [load_inside _ _ _ (by omega : 2*turn < r.length),load_inside _ _ _ digits]
      simp only
      rw [List.drop_eq_getElem_cons (by omega : turn < out.length),
        store_middle _ _ _ _ _ _ (List.length_replicate),joined_zero,List.replicate_succ']
      simp)
  have turns : (2*count+1)/2 = count := by omega
  have start : forLoop _ 0 count ((0 : Nat),out) = _ := zeroed
  rw [toBin,turns,start]
  simp [bind,Except.bind]

/-- Decoding gives back the bytes that were encoded where these are all zero, and nowhere else. -/
theorem toBin_toDec (b r out : Bytes) (rlen blen : Nat) (text : 2*b.length+1 ≤ rlen) (fits : rlen ≤ r.length)
    (room : b.length ≤ blen) (holds : blen ≤ out.length) :
    (∃ digits, toDec b r rlen = .ok digits ∧ toBin digits (2*b.length) out blen = .ok (b ++ out.drop b.length)) ↔
      ∀ byte ∈ b, byte = 0 := by
  have encoded := toDec_writes b r rlen text fits
  have decoded := toBin_zeros (hexText b ++ 0::r.drop (2*b.length+1)) out b.length blen
    (by rw [List.length_append,hexText_length]; omega) room holds
  constructor
  · rintro ⟨digits,ran,back⟩
    obtain rfl := Except.ok.inj (encoded.symm.trans ran)
    have same := List.append_cancel_right (Except.ok.inj (decoded.symm.trans back))
    intro byte member
    rw [← same] at member
    exact List.eq_of_mem_replicate member
  · intro zeros
    refine ⟨_,encoded,?_⟩
    rw [decoded,← List.eq_replicate_iff.mpr ⟨rfl,zeros⟩]

theorem toBin_toDec_zero : ∃ digits, toDec [0] [7,7,7] 3 = .ok digits ∧ toBin digits 2 [7,7] 1 = .ok [0,7] :=
  (toBin_toDec [0] [7,7,7] [7,7] 3 1 (by decide) (by decide) (by decide) (by decide)).mpr
    (List.forall_mem_singleton.mpr rfl)

theorem toBin_loses : ¬ ∃ digits, toDec [0xC3] [0,0,0] 3 = .ok digits ∧ toBin digits 2 [0] 1 = .ok [0xC3] := by
  rintro ⟨digits,ran,back⟩
  have encoded : toDec [0xC3] [0,0,0] 3 = .ok [67,51,0] := by decide
  have decoded : toBin [67,51,0] 2 [0] 1 = .ok [0] := by decide
  obtain rfl := Except.ok.inj (encoded.symm.trans ran)
  cases decoded.symm.trans back

section Short
variable (b r : Bytes)

/-- The turn for which the buffer has no two places left fails one of its two assertions. -/
theorem digitTurn_short (i : Nat) (bound : i < b.length) (last : r.length/2 = i) :
    digitTurn b r.length i (2*i,written b r i) = .error .assert := by
  have front := written_front b i bound
  simp only [digitTurn,load_inside _ _ _ bound,bind,Except.bind]
  by_cases even : r.length = 2*i
  · rw [assert,if_neg (by omega)]
  · rw [assert_holds _ (by omega : r.length > 2*i),written]
    simp only
    rw [List.drop_eq_getElem_cons (by omega : 2*i < r.length),store_middle _ _ _ _ _ _ front]
    simp only
    rw [assert,if_neg (by omega)]

theorem toDec_stops (short : r.length < 2*b.length) : toDec b r r.length = .error .assert := by
  obtain ⟨left,size⟩ : ∃ left, b.length = r.length/2+(left+1) := ⟨b.length-r.length/2-1,by omega⟩
  have turns := digitTurns_write b r r.length (r.length/2) (by omega) (by omega) le_rfl
  rw [toDec,writeDigits_turns,size,forLoop_append,turns]
  simp only [bind,Except.bind,forLoop,Nat.zero_add]
  rw [digitTurn_short b r (r.length/2) (by omega) rfl]

/-- The NUL is stored before the assertion that there is room for it. -/
theorem toDec_outside (exact : r.length = 2*b.length) : toDec b r r.length = .error .bounds := by
  have outside : ¬ ((0 : Int) ≤ (2*b.length : Nat) ∧
      ((2*b.length : Nat) : Int) < ((hexText b ++ r.drop (2*b.length)).length : Nat)) := by
    rw [List.length_append,hexText_length,List.length_drop]
    omega
  rw [toDec,writeDigits_eq b r r.length exact.ge le_rfl]
  simp only [bind,Except.bind]
  rw [store,if_neg outside]

end Short

/-- In a buffer of `rlen` characters every store is inside, or an assertion has failed before it,
unless the digits fill the buffer. -/
theorem toDec_inside (b r : Bytes) (rlen : Nat) (size : r.length = rlen) (positive : 1 ≤ rlen) :
    (toDec b r rlen ≠ .error .bounds) ↔ rlen ≠ 2*b.length := by
  subst size
  constructor
  · intro inside exact
    exact inside (toDec_outside b r exact)
  · intro other failed
    rcases Nat.lt_or_gt_of_ne other with short | long
    · rw [toDec_stops b r short] at failed
      cases failed
    · rw [toDec_writes b r r.length long le_rfl] at failed
      cases failed

theorem toDec_inside_short : toDec [0xC3] [7] 1 ≠ .error .bounds :=
  (toDec_inside [0xC3] [7] 1 rfl (by decide)).mpr (by decide)

theorem toDec_overruns : toDec [0xC3] [7,7] 2 = .error .bounds := by decide

end Spsc.Hash
