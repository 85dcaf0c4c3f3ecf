import Spsc.CValues

/-! Ranges of bytes in the shared segment, by offset. -/
namespace Spsc.Segment

/-- A read of no bytes touches none, wherever it points. -/
def readBytes (segment : Bytes) (offset len : Int) : C Bytes :=
  if len = 0 ∨ (0 ≤ offset ∧ 0 ≤ len ∧ offset+len ≤ segment.length) then
    .ok ((segment.drop offset.toNat).take len.toNat)
  else .error .bounds

def writeBytes (segment : Bytes) (offset : Int) (bytes : Bytes) : C Bytes :=
  if 0 ≤ offset ∧ offset+bytes.length ≤ segment.length then
    .ok (segment.take offset.toNat ++ bytes ++ segment.drop (offset.toNat+bytes.length))
  else .error .bounds

def Holds (segment : Bytes) (offset : Nat) (bytes : Bytes) : Prop :=
  ∃ front rest, segment = front ++ (bytes ++ rest) ∧ front.length = offset

theorem readBytes_holds (segment : Bytes) (offset : Nat) (bytes : Bytes) (holds : Holds segment offset bytes) :
    readBytes segment offset bytes.length = .ok bytes := by
  obtain ⟨front,rest,rfl,size⟩ := holds
  rw [readBytes,if_pos (.inr (by simp; omega))]
  simp only [Int.toNat_natCast,← size]
  rw [List.drop_left,List.take_left]

theorem writeBytes_holds (segment : Bytes) (offset : Nat) (bytes : Bytes)
    (fits : offset+bytes.length ≤ segment.length) :
    ∃ next, writeBytes segment offset bytes = .ok next ∧ Holds next offset bytes ∧
      next.length = segment.length := by
  refine ⟨_,if_pos (by omega),⟨segment.take offset,segment.drop (offset+bytes.length),?_,?_⟩,?_⟩
  · simp
  · rw [List.length_take]
    omega
  · simp
    omega

theorem holds_set (segment : Bytes) (offset place : Nat) (bytes : Bytes) (value : Byte)
    (holds : Holds segment offset bytes) (behind : offset+bytes.length ≤ place) :
    Holds (segment.set place value) offset bytes := by
  obtain ⟨front,rest,rfl,size⟩ := holds
  refine ⟨front,rest.set (place-front.length-bytes.length) value,?_,size⟩
  rw [List.set_append_right _ _ (by omega),List.set_append_right _ _ (by omega)]

end Spsc.Segment
