import Spsc.Jane.Steps
import Spsc.Thor.Answers

/-! One exchange: Jane's frame at Thor's end, his answer at hers, and what she
makes of it. Thor accepts with the whole payload, Jane compares with the digest. -/
namespace Spsc.Exchange
open Imperative Hash Wire Segment Jane Thor

theorem payload_not_digest (num offset len : Int) (data text : Bytes) (hex : ∀ byte ∈ text, IsHex byte) :
    fields num offset len data ≠ text := by
  intro same
  have comma : char ',' ∈ fields num offset len data := by simp [fields]
  exact isHex_not_mem _ (by decide) _ hex (same ▸ comma)

theorem rejection_not_digest (text : Bytes) (hex : ∀ byte ∈ text, IsHex byte) : REJECTION ≠ text := by
  intro same
  have dash : char '-' ∈ REJECTION := by decide
  exact isHex_not_mem _ (by decide) _ hex (same ▸ dash)

/-- The two ends agree on the outcome exactly when it is a rejection. -/
theorem answer_agrees (md5 : Bytes → Digest) (jane : Client) (thor thor' : Server)
    (segment chunk data payload answer : Bytes) (offset len : Int) (sent back : List Bytes)
    (hashed : cString jane.md5 = .ok (digestText md5 chunk)) (offsetRange : 1 ≤ offset ∧ offset ≤ INT_MAX)
    (lenRange : 0 ≤ len ∧ len ≤ INT_MAX) (named : readBytes segment offset len = .ok data)
    (some_sent : ∀ piece ∈ sent, piece ≠ [])
    (cutSent : sent.flatten = clientSocketSend 1 offset (digestText md5 chunk) len false)
    (received : rcvLoop (serverSocketRcv memmove) .start sent = .ok (.frame payload,[]))
    (answered : serverSocketSend md5 thor segment payload = (thor',.ok answer))
    (some_back : ∀ piece ∈ back, piece ≠ []) (cutBack : back.flatten = answer) :
    ∃ intact got jane', verify md5 segment payload = .ok (data,intact) ∧
      rcvLoop (clientSocketRcv memmove) .start back = .ok (.frame got,[]) ∧ Jane.compare jane got = .ok jane' ∧
      (((intact = true → got = digestText md5 chunk ∧ jane'.failed = false) ∧
        (intact = false → got ≠ digestText md5 chunk)) ↔ digestText md5 data ≠ digestText md5 chunk) := by
  unfold INT_MAX at offsetRange lenRange
  obtain ⟨offset,rfl⟩ := Int.eq_ofNat_of_zero_le (by omega : 0 ≤ offset)
  obtain ⟨len,rfl⟩ := Int.eq_ofNat_of_zero_le lenRange.1
  have hex := digestText_isHex md5 chunk
  have long := digestText_length md5 chunk
  have size := fields_length 1 offset len (digestText md5 chunk) (by decide) (by omega) (by omega)
  have short : (fields (1 : Nat) offset len (digestText md5 chunk)).length+20 < BIG_ENOUGH := by
    unfold BIG_ENOUGH
    omega
  obtain ⟨framable,quiet⟩ := fields_legible_hex (1 : Nat) offset len _ hex short
  have arrives := rcvLoop_start true _ framable (fun _ => quiet) sent some_sent cutSent
  obtain rfl := Received.frame.inj (Prod.mk.inj (Except.ok.inj (received.symm.trans arrives))).1
  have checked := verify_fields md5 segment data (digestText md5 chunk) 1 offset len (by decide) (by omega) (by omega)
    (List.ne_nil_of_length_pos (by omega)) (by omega) named
  have outcome := serverSocketSend_answered md5 thor segment _ data _ checked
  rw [answered] at outcome
  by_cases intact : digestText md5 data = digestText md5 chunk
  · rw [decide_eq_true intact] at checked outcome
    cases outcome with
    | accepted _ _ _ whole =>
      rw [whole short] at cutBack
      refine ⟨_,_,_,checked,rcvLoop_start false _ framable (by simp) back some_back cutBack,
        Jane.compare_eq jane _ _ hashed,?_⟩
      have other := payload_not_digest (1 : Nat) offset len (digestText md5 chunk) _ hex
      exact ⟨fun agree => absurd (agree.1 rfl).1 other,fun broken => absurd intact broken⟩
  · rw [decide_eq_false intact] at checked outcome
    cases outcome with
    | rejected =>
      refine ⟨_,_,_,checked,rcvLoop_start false _ rejection_framable (by simp) back some_back cutBack,
        Jane.compare_eq jane _ _ hashed,?_⟩
      have other := rejection_not_digest _ hex
      exact ⟨fun _ => intact,fun _ => ⟨fun agree => by simp at agree,fun _ => other⟩⟩

theorem answer_agrees_empty : ∃ got, rcvLoop (clientSocketRcv memmove) .start [framed REJECTION] = .ok (.frame got,[]) ∧
    got ≠ digestText knownMd5 (ascii ['a','b','c']) := by
  have received : rcvLoop (serverSocketRcv memmove) .start
      [clientSocketSend 1 1024 (digestText knownMd5 (ascii ['a','b','c'])) 0 false] =
      .ok (.frame (fields 1 1024 0 (digestText knownMd5 (ascii ['a','b','c']))),[]) := by decide +kernel
  have answered : serverSocketSend knownMd5 (.initial none) (List.replicate 3072 0)
      (fields 1 1024 0 (digestText knownMd5 (ascii ['a','b','c']))) =
      (.initial none,.ok (framed REJECTION)) := by decide +kernel
  obtain ⟨intact,got,_,checked,arrived,_,agree⟩ := answer_agrees knownMd5
    { Client.initial 0 2 1 (ascii ['a','b','c']) with
      md5 := digestText knownMd5 (ascii ['a','b','c']) ++ List.replicate 992 0 }
    (.initial none) (.initial none) (List.replicate 3072 0) (ascii ['a','b','c']) [] _ _ 1024 0 [_] [framed REJECTION]
    (by decide +kernel) (by decide) (by decide) (by decide +kernel) (by decide +kernel) (by simp) received answered
    (by decide +kernel) (by simp)
  refine ⟨got,arrived,(agree.mpr (by decide +kernel)).2 ?_⟩
  have rejected : verify knownMd5 (List.replicate 3072 0)
      (fields 1 1024 0 (digestText knownMd5 (ascii ['a','b','c']))) = .ok ([],false) := by decide +kernel
  exact (Prod.mk.inj (Except.ok.inj (checked.symm.trans rejected))).2

/-- Thor accepts, and Jane does not find what she compares with. -/
theorem acceptance_not_matched : ∃ segment payload answer got,
    readBytes segment 1024 3 = .ok (ascii ['a','b','c']) ∧
    rcvLoop (serverSocketRcv memmove) .start
      [clientSocketSend 1 1024 (digestText knownMd5 (ascii ['a','b','c'])) 3 false] = .ok (.frame payload,[]) ∧
    verify knownMd5 segment payload = .ok (ascii ['a','b','c'],true) ∧
    serverSocketSend knownMd5 (.initial none) segment payload =
      (serverFlushTransaction (.initial none) (ascii ['a','b','c']),.ok answer) ∧
    rcvLoop (clientSocketRcv memmove) .start [answer] = .ok (.frame got,[]) ∧
    got ≠ digestText knownMd5 (ascii ['a','b','c']) :=
  ⟨List.replicate 1024 0 ++ (ascii ['a','b','c'] ++ List.replicate 2045 0),
    fields 1 1024 3 (digestText knownMd5 (ascii ['a','b','c'])),
    framed (fields 1 1024 3 (digestText knownMd5 (ascii ['a','b','c']))),
    fields 1 1024 3 (digestText knownMd5 (ascii ['a','b','c'])),
    by decide +kernel,by decide +kernel,by decide +kernel,by decide +kernel,by decide +kernel,by decide +kernel⟩

end Spsc.Exchange
