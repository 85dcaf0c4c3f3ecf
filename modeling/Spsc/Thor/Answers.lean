import Spsc.Thor
import Spsc.Wire.RoundTrip

/-! The two answers of `server_socket_send`. -/
namespace Spsc.Thor
open Imperative Hash Wire Segment

theorem reply_eq (text : Bytes) : reply text =
    if (framed text).length ≤ BIG_ENOUGH then
      .ok (((framed text).take (BIG_ENOUGH-1) ++ [0]).take (framed text).length)
    else .error .bounds := rfl

theorem reply_framed (text : Bytes) (short : text.length+20 < BIG_ENOUGH) : reply text = .ok (framed text) := by
  have size := framed_length text
  rw [reply_eq,if_pos (by omega),List.take_of_length_le (i := BIG_ENOUGH-1) (by omega),List.take_left]

theorem rejection_framable : Framable REJECTION := by
  constructor <;> decide

variable (md5 : Bytes → Digest)

theorem verify_fields (segment data text : Bytes) (num offset len : Nat) (numRange : 1 ≤ num ∧ num < 2^31)
    (offsetRange : 1 ≤ offset ∧ offset < 2^31) (lenHigh : len < 2^31) (some_text : text ≠ [])
    (short : text.length < 1024) (named : readBytes segment offset len = .ok data) :
    verify md5 segment (fields num offset len text) = .ok (data,decide (digestText md5 data = text)) := by
  unfold verify
  rw [parseData_fields num offset len text numRange.1 numRange.2 offsetRange.1 offsetRange.2 lenHigh some_text short]
  simp only [bind,Except.bind,named,doesStringIntact_eq]

theorem search_output (thor next : Server) (data : Bytes) (ran : search thor data = .ok next) :
    next.output = thor.output := by
  unfold search at ran
  split at ran
  · obtain rfl := Except.ok.inj ran
    rfl
  · obtain ⟨ss,_,rest⟩ := bind_ok _ _ _ ran
    obtain rfl := Except.ok.inj rest
    rfl

theorem search_fault (thor : Server) (data : Bytes) (fault : Fault) (failed : search thor data = .error fault) :
    fault = .bounds := by
  unfold search at failed
  split at failed
  · cases failed
  · rcases bind_error _ _ _ failed with stopped | ⟨_,_,failed⟩
    · exact Substring.sstringCompute_fault _ _ _ stopped
    · cases failed

/-- Intact data is appended and the payload sent back, unless the search or the
copy of a long payload stops Thor; other data is answered with the message, and
nothing else changes. -/
inductive Answered (thor : Server) (payload data : Bytes) : Bool → Server × C Bytes → Prop
  | accepted (next : Server) (sent : Bytes) (appended : next.output = thor.output ++ [data])
      (whole : payload.length+20 < BIG_ENOUGH → sent = framed payload) :
      Answered thor payload data true (next,.ok sent)
  | stopped (next : Server) (appended : next.output = thor.output ++ [data]) :
      Answered thor payload data true (next,.error .bounds)
  | rejected : Answered thor payload data false (thor,.ok (framed REJECTION))

theorem serverSocketSend_answered (thor : Server) (segment payload data : Bytes) (intact : Bool)
    (checked : verify md5 segment payload = .ok (data,intact)) :
    Answered thor payload data intact (serverSocketSend md5 thor segment payload) := by
  unfold serverSocketSend
  rw [checked]
  cases intact with
  | true =>
    simp only [if_true]
    cases found : search (serverFlushTransaction thor data) data with
    | error fault =>
      rw [search_fault _ _ _ found]
      exact .stopped _ rfl
    | ok next =>
      have kept := search_output _ _ _ found
      cases made : reply payload with
      | error fault =>
        rw [reply_eq] at made
        split at made
        · cases made
        · obtain rfl := Except.error.inj made
          exact .stopped next kept
      | ok sent =>
        refine .accepted next sent kept (fun short => ?_)
        exact Except.ok.inj (made.symm.trans (reply_framed payload short))
  | false =>
    simp only [Bool.false_eq_true,if_false]
    rw [reply_framed REJECTION rejection_framable.short]
    exact .rejected

end Spsc.Thor
