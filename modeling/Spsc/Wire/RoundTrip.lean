import Spsc.Wire.Parse
import Spsc.Wire.Receive

/-! Jane's frames at Thor's end of the connection. -/
namespace Spsc.Wire
open Imperative Hash

theorem clientSocketSend_framed (num offset len : Int) (md5 : Bytes) :
    clientSocketSend num offset md5 len false = framed (fields num offset len md5) := rfl

/-- A text whose frame gets through to Thor. -/
structure Legible (text : Bytes) : Prop where
  framable : Framable text
  quiet : Search.find DONE_TRANS (framed text) = none

instance (text : Bytes) : Decidable (Framable text) :=
  decidable_of_iff (0 ∉ text ∧ Search.find END_MARKER (START_MARKER ++ (text ++ END_MARKER.dropLast)) = none ∧
    text.length + 20 < BIG_ENOUGH) ⟨fun ⟨solid,closed,short⟩ => ⟨solid,closed,short⟩,
      fun framable => ⟨framable.solid,framable.closed,framable.short⟩⟩

instance (text : Bytes) : Decidable (Legible text) :=
  decidable_of_iff (Framable text ∧ Search.find DONE_TRANS (framed text) = none)
    ⟨fun ⟨framable,quiet⟩ => ⟨framable,quiet⟩,fun legible => ⟨legible.framable,legible.quiet⟩⟩

theorem fields_legible (num offset len : Int) (md5 : Bytes) (solid : 0 ∉ md5) (opening : char '<' ∉ md5)
    (plus : char '+' ∉ md5) (short : (fields num offset len md5).length + 20 < BIG_ENOUGH) :
    Legible (fields num offset len md5) where
  framable := framable_of_not_mem _
    (fields_not_mem _ _ _ _ 0 (by decide) (by decide) (by decide) solid)
    (fields_not_mem _ _ _ _ _ (by decide) (by decide) (by decide) opening) short
  quiet := by
    apply Search.find_not_mem _ _ (char '+') (by decide)
    simp only [framed,List.mem_append,not_or]
    exact ⟨by decide,fields_not_mem _ _ _ _ _ (by decide) (by decide) (by decide) plus,by decide⟩

theorem fields_legible_hex (num offset len : Int) (md5 : Bytes) (hex : ∀ byte ∈ md5, IsHex byte)
    (short : (fields num offset len md5).length + 20 < BIG_ENOUGH) : Legible (fields num offset len md5) :=
  fields_legible num offset len md5 (isHex_not_mem _ (by decide) _ hex) (isHex_not_mem _ (by decide) _ hex)
    (isHex_not_mem _ (by decide) _ hex) short

/-- Whatever the cut, Thor has the payload when the last piece came in and not
before, and parses Jane's fields out of it. -/
theorem frame_roundTrip (num offset len : Int) (md5 : Bytes) (numRange : 1 ≤ num ∧ num ≤ INT_MAX)
    (offsetRange : 1 ≤ offset ∧ offset ≤ INT_MAX) (lenRange : 0 ≤ len ∧ len ≤ INT_MAX)
    (some_md5 : md5 ≠ []) (hex : ∀ byte ∈ md5, IsHex byte)
    (short : (clientSocketSend num offset md5 len false).length < BIG_ENOUGH)
    (pieces : List Bytes) (some_pieces : ∀ piece ∈ pieces, piece ≠ [])
    (cut : pieces.flatten = clientSocketSend num offset md5 len false) :
    ∃ payload, clientSocketSend num offset md5 len false = START_MARKER ++ (payload ++ END_MARKER) ∧
      rcvLoop (serverSocketRcv memmove) .start pieces = .ok (.frame payload,[]) ∧
      (∀ count < pieces.length, ∃ receiver,
        rcvLoop (serverSocketRcv memmove) .start (pieces.take count) = .ok (.again receiver,[])) ∧
      parseData payload = .ok ⟨num,offset,len,md5⟩ := by
  unfold INT_MAX at numRange offsetRange lenRange
  obtain ⟨num,rfl⟩ := Int.eq_ofNat_of_zero_le (by omega : 0 ≤ num)
  obtain ⟨offset,rfl⟩ := Int.eq_ofNat_of_zero_le (by omega : 0 ≤ offset)
  obtain ⟨len,rfl⟩ := Int.eq_ofNat_of_zero_le lenRange.1
  rw [clientSocketSend_framed,framed_length] at short
  rw [clientSocketSend_framed] at cut
  obtain ⟨framable,silent⟩ := fields_legible_hex num offset len md5 hex short
  have quiet : true = true → Search.find DONE_TRANS (framed (fields num offset len md5)) = none := fun _ => silent
  have payload_long : md5.length < (fields num offset len md5).length + 20 := by
    simp only [fields,List.length_append,List.length_cons]
    omega
  refine ⟨fields num offset len md5,rfl,?_,?_,?_⟩
  · exact rcvLoop_start true _ framable quiet pieces some_pieces cut
  · intro count fewer
    have split : (pieces.take count).flatten ++ (pieces.drop count).flatten = framed (fields num offset len md5) := by
      rw [← List.flatten_append,List.take_append_drop,cut]
    have behind : (pieces.drop count).flatten ≠ [] := by
      rw [List.drop_eq_getElem_cons fewer,List.flatten_cons]
      exact List.append_ne_nil_of_left_ne_nil (some_pieces _ (List.getElem_mem fewer)) _
    exact ⟨_,rcvLoop_waits true _ framable quiet [] _ (pieces.take count)
      (fun piece member => some_pieces piece (List.mem_of_mem_take member)) behind (by rw [List.nil_append,split])⟩
  · unfold BIG_ENOUGH at short
    exact parseData_fields num offset len md5 (by omega) (by omega) (by omega) (by omega) (by omega)
      some_md5 (by omega)

theorem frame_roundTrip_split :
    rcvLoop (serverSocketRcv memmove) .start [(clientSocketSend 1 1024 [65] 3 false).take 11,
      (clientSocketSend 1 1024 [65] 3 false).drop 11] = .ok (.frame (fields 1 1024 3 [65]),[]) := by
  obtain ⟨payload,frame,received,_⟩ := frame_roundTrip 1 1024 3 [65] (by decide) (by decide) (by decide)
    (by decide) (List.forall_mem_singleton.mpr (.inr (by decide))) (by decide +kernel)
    [(clientSocketSend 1 1024 [65] 3 false).take 11,
      (clientSocketSend 1 1024 [65] 3 false).drop 11] (by decide +kernel) (by simp)
  have same : payload = fields 1 1024 3 [65] :=
    (List.append_cancel_right (List.append_cancel_left frame)).symm
  rw [received,same]

end Spsc.Wire
