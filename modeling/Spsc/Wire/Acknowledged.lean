import Spsc.Wire.RoundTrip
import Spsc.Wire.Strcpy

/-! The frames that Jane would send with `ack` set. Thor's loop takes the marker in them for part of
the text, and the number that begins with it is not above zero. -/
namespace Spsc.Wire
open Imperative Hash

def ACK_MARK : Bytes := ascii ['<','A','C','K','>']

theorem ackMarker_split : START_WITH_ACK_MARKER = START_MARKER ++ ACK_MARK := by decide

theorem clientSocketSend_ack (num offset len : Int) (md5 : Bytes) :
    clientSocketSend num offset md5 len true = framed (ACK_MARK ++ fields num offset len md5) := by
  rw [clientSocketSend,if_pos rfl,ackMarker_split,framed,List.append_assoc,List.append_assoc]

theorem framable_marked (payload : Bytes) (solid : 0 ∉ payload) (outside : char '<' ∉ payload)
    (short : (ACK_MARK ++ payload).length + 20 < BIG_ENOUGH) : Framable (ACK_MARK ++ payload) where
  solid := by
    rw [List.mem_append,not_or]
    exact ⟨by decide,solid⟩
  short := short
  closed := by
    have past := find_end_past (char 'A') ACK_MARK.tail.tail (payload ++ END_MARKER.dropLast) (by decide) (by decide)
    have skipped := Search.find_skip (char '<') END_MARKER.tail payload END_MARKER.dropLast outside
    have ended : Search.find END_MARKER (payload ++ END_MARKER.dropLast) = none := skipped.trans rfl
    rw [ended] at past
    rw [find_end_behind,List.append_assoc,
      show ACK_MARK = char '<'::char 'A'::ACK_MARK.tail.tail from rfl,List.cons_append,past]
    rfl

theorem atoi_other (first : Byte) (rest : Bytes) (solid : isSpace first = false) (digit : isDigit first = false)
    (minus : first ≠ char '-') (plus : first ≠ char '+') : atoi (first::rest) = 0 := by
  have start : (first::rest).dropWhile isSpace = first::rest := List.dropWhile_cons_of_neg (by simp [solid])
  have none : (first::rest).takeWhile isDigit = [] := List.takeWhile_cons_of_neg (by simp [digit])
  have minus' : ¬ (some first = some (char '-')) := fun same => minus (Option.some.inj same)
  have plus' : ¬ (some first = some (char '+')) := fun same => plus (Option.some.inj same)
  simp only [atoi,start,List.head?_cons,minus',plus',or_self,if_false,none]
  rfl

theorem atoi_marked (rest : Bytes) : atoi (ACK_MARK ++ rest) = 0 :=
  atoi_other (char '<') (ACK_MARK.tail ++ rest) (by decide) (by decide) (by decide) (by decide)

/-- What stands before the first comma is not a number. -/
theorem parseData_marked (num : Nat) (offset len : Int) (md5 : Bytes) (small : num < 2^31) :
    parseData (ACK_MARK ++ fields num offset len md5) = .error .assert := by
  have size := decimal_length num small.le
  have no_comma : char ',' ∉ ACK_MARK ++ decimal num := by
    rw [List.mem_append,not_or]
    exact ⟨by decide,decimal_not_mem num _ (by decide)⟩
  have solid : 0 ∉ ACK_MARK ++ decimal num := by
    rw [List.mem_append,not_or]
    exact ⟨by decide,decimal_not_mem num 0 (by decide)⟩
  have room : (ACK_MARK ++ decimal num).length < (List.replicate 24 (0 : Byte)).length := by
    rw [List.length_append,List.length_replicate]
    change 5+_ < 24
    omega
  have first := parseField_field (ACK_MARK ++ decimal num) (decimal offset ++ char ','::(decimal len ++ char ','::md5))
    (List.replicate 24 0) no_comma solid room
  rw [atoi_marked] at first
  rw [fields,← List.append_assoc,parseData,find_comma _ _ no_comma,first]
  rfl

/-- Whatever the fields and the cut, with a `strcpy` that acts as a move Thor receives the marker as text
and stops at an assertion, where the plain frame gives back the fields. -/
theorem ackFrame_stops (strcpy : StrCpy) (num offset len : Int) (md5 : Bytes) (numRange : 1 ≤ num ∧ num ≤ INT_MAX)
    (offsetRange : 1 ≤ offset ∧ offset ≤ INT_MAX) (lenRange : 0 ≤ len ∧ len ≤ INT_MAX)
    (hex : ∀ byte ∈ md5, IsHex byte) (short : (clientSocketSend num offset md5 len true).length < BIG_ENOUGH)
    (pieces : List Bytes) (some_pieces : ∀ piece ∈ pieces, piece ≠ []) (moves : LoopMoves strcpy true pieces) :
    (pieces.flatten = clientSocketSend num offset md5 len true → ∃ text,
      rcvLoop (serverSocketRcv strcpy) .start pieces = .ok (.frame text,[]) ∧ text = ACK_MARK ++ fields num offset len md5 ∧
        parseData text = .error .assert) ∧
    (pieces.flatten = clientSocketSend num offset md5 len false → ∃ text,
      rcvLoop (serverSocketRcv strcpy) .start pieces = .ok (.frame text,[]) ∧ text = fields num offset len md5 ∧
        (md5 ≠ [] → parseData text = .ok ⟨num,offset,len,md5⟩)) := by
  rw [serverSocketRcv,loopMoves_same strcpy true pieces moves]
  unfold INT_MAX at numRange offsetRange lenRange
  obtain ⟨num,rfl⟩ := Int.eq_ofNat_of_zero_le (by omega : 0 ≤ num)
  obtain ⟨offset,rfl⟩ := Int.eq_ofNat_of_zero_le (by omega : 0 ≤ offset)
  obtain ⟨len,rfl⟩ := Int.eq_ofNat_of_zero_le lenRange.1
  have size : ACK_MARK.length = 5 := rfl
  rw [clientSocketSend_ack,framed_length] at short
  rw [clientSocketSend_ack,clientSocketSend_framed]
  have room := short
  rw [List.length_append] at room
  constructor
  · intro cut
    have solid := fields_not_mem num offset len md5 0 (by decide) (by decide) (by decide)
      (isHex_not_mem 0 (by decide) _ hex)
    have opening := fields_not_mem num offset len md5 (char '<') (by decide) (by decide) (by decide)
      (isHex_not_mem _ (by decide) _ hex)
    have plus := fields_not_mem num offset len md5 (char '+') (by decide) (by decide) (by decide)
      (isHex_not_mem _ (by decide) _ hex)
    have quiet : Search.find DONE_TRANS (framed (ACK_MARK ++ fields num offset len md5)) = none := by
      apply Search.find_not_mem _ _ (char '+') (by decide)
      simp only [framed,List.mem_append,not_or]
      exact ⟨by decide,⟨by decide,plus⟩,by decide⟩
    exact ⟨_,rcvLoop_start true _ (framable_marked _ solid opening short) (fun _ => quiet) pieces some_pieces cut,rfl,
      parseData_marked num offset len md5 (by omega)⟩
  · intro cut
    obtain ⟨framable,quiet⟩ := fields_legible_hex num offset len md5 hex (by omega)
    have bounded : md5.length < 1024 := by
      unfold BIG_ENOUGH at room
      simp only [fields,List.length_append,List.length_cons] at room
      omega
    exact ⟨_,rcvLoop_start true _ framable (fun _ => quiet) pieces some_pieces cut,rfl,fun some_md5 =>
      parseData_fields num offset len md5 (by omega) (by omega) (by omega) (by omega) (by omega) some_md5 bounded⟩

theorem ackFrame_stops_whole : ∃ text,
    rcvLoop (serverSocketRcv memmove) .start [clientSocketSend 1 1024 [65] 3 true] = .ok (.frame text,[]) ∧
      text = ACK_MARK ++ fields 1 1024 3 [65] ∧ parseData text = .error .assert :=
  (ackFrame_stops memmove 1 1024 3 [65] (by decide) (by decide) (by decide)
    (List.forall_mem_singleton.mpr (.inr (by decide))) (by decide +kernel)
    [clientSocketSend 1 1024 [65] 3 true] (by simp [clientSocketSend_ack,framed_ne_nil])
    (fun call _ => memmove_moves call.1 call.2)).1 (by simp)

theorem ackFrame_differs :
    (rcvLoop (serverSocketRcv memmove) .start [clientSocketSend 1 1024 [65] 3 false] = .ok (.frame (fields 1 1024 3 [65]),[]) ∧
      parseData (fields 1 1024 3 [65]) = .ok ⟨1,1024,3,[65]⟩) ∧
    rcvLoop (serverSocketRcv memmove) .start [clientSocketSend 1 1024 [65] 3 true] =
        .ok (.frame (ACK_MARK ++ fields 1 1024 3 [65]),[]) ∧
      parseData (ACK_MARK ++ fields 1 1024 3 [65]) = .error .assert := by
  decide +kernel

end Spsc.Wire
