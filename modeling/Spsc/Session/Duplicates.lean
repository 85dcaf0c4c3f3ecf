import Spsc.Session.Order

/-! When a chunk is appended more than once. -/
namespace Spsc.Session
open Imperative Hash Wire Allocator Segment Runs
open Spsc.Jane (chunk)

theorem appended_same (md5 : Bytes → Digest) (s : State) (action : Action) (silent : action.isAnswer = false) :
    (s.next memmove md5 action).appended = s.appended := by
  cases action with
  | serverSend => cases silent
  | serverSendFails => cases silent
  | nextBuffer =>
    change (s.prepare md5).appended = s.appended
    unfold State.prepare
    split <;> rfl
  | clientSend =>
    change (s.clientSend _ _).appended = s.appended
    unfold State.clientSend
    split <;> rfl
  | clientSendFails =>
    change (s.clientSend _ _).appended = s.appended
    unfold State.clientSend
    split <;> rfl
  | clientRcv count =>
    simp only [State.next]
    split
    · unfold State.clientRcv
      simp only
      split <;> rfl
    · rfl
  | serverRcv count =>
    simp only [State.next]
    split
    · unfold State.serverRcv
      simp only
      split <;> rfl
    · rfl
  | _ => rfl

theorem nodup_repeated (m repeats : Nat) : (List.range m ++ List.replicate (repeats+1) m).Nodup ↔ repeats = 0 := by
  constructor
  · intro distinct
    have tail := distinct.of_append_right
    rw [List.nodup_replicate] at tail
    omega
  · rintro rfl
    rw [Nat.zero_add,List.replicate_one,← List.range_succ]
    exact List.nodup_range

/-- Every chunk is appended at most once exactly when Thor handles a frame only
while he has fewer chunks than Jane has read. -/
theorem appended_once (md5 : Bytes → Digest) (dataPtr : Int) (buffers u : Nat) (file segment : Bytes)
    (pattern : Option Bytes) (bufferRange : 2 ≤ buffers ∧ buffers ≤ 102399) (useRange : 1 ≤ u ∧ u ≤ buffers)
    (room : segment.length = (buffers+1)*1024) (trace : List (State × Action)) (final : State)
    (run : Run (Step memmove md5 Untampered) (.initial dataPtr buffers u file segment pattern) trace final) :
    Throughout (fun s => s.thor.output = s.appended.map (chunk u file)) trace final ∧
      (Throughout (fun s => s.appended.Nodup) trace final ↔
        ∀ entry ∈ trace, entry.2.isAnswer = true → entry.1.thor.output.length < entry.1.jane.chunks) := by
  have initial := initial_delivery md5 dataPtr buffers u file segment pattern room
  have stays : ∀ s action t, (∃ repeats, Delivery md5 dataPtr buffers u file repeats s) →
      Step memmove md5 Untampered s action t → ∃ repeats, Delivery md5 dataPtr buffers u file repeats t := by
    rintro s action t ⟨repeats,delivery⟩ ⟨honest,enabled,rfl⟩
    obtain ⟨repeats',next,_⟩ := delivery_step bufferRange.2 useRange.1 useRange.2 delivery enabled honest
    exact ⟨repeats',next⟩
  constructor
  · have delivered := run.invariant (fun s => ∃ repeats, Delivery md5 dataPtr buffers u file repeats s)
      (fun _ _ => True) ⟨0,initial⟩ (fun s action t delivery _ step => stays s action t delivery step)
      (fun _ _ => trivial)
    refine ⟨fun entry member => ?_,?_⟩
    · obtain ⟨_,delivery⟩ := delivered.1 entry member
      exact delivery.output
    · obtain ⟨_,delivery⟩ := delivered.2
      exact delivery.output
  · refine run.exact (fun s => s.appended.Nodup) (fun s => ∃ repeats, Delivery md5 dataPtr buffers u file repeats s)
      (fun s action => action.isAnswer = true → s.thor.output.length < s.jane.chunks)
      ⟨List.nodup_nil,0,initial⟩ ?_ (fun s action t _ delivery step _ => stays s action t delivery step)
    rintro s action t distinct ⟨repeats,delivery⟩ ⟨_,enabled,rfl⟩
    cases answers : action.isAnswer with
    | false =>
      rw [appended_same md5 s action answers]
      exact ⟨fun _ absent => (nomatch absent),fun _ => distinct⟩
    | true =>
      obtain ⟨next,same,some_read⟩ := answer_step bufferRange.2 useRange.2 delivery enabled answers
      rw [next.appended,same,nodup_repeated,delivery.output,delivery.appended]
      simp only [List.length_map,List.length_append,List.length_range,List.length_replicate]
      exact ⟨fun none_yet _ => by omega,fun few => by
        have := few trivial
        omega⟩

theorem appended_once_first : ∃ final : State, final.appended = [0] ∧ final.appended.Nodup := by
  have run := run_of_actions memmove knownMd5 Untampered (.initial 0 2 1 (ascii ['a','b','c']) (List.replicate 3072 0) none)
    [.clientSocketInit,.nextBuffer,.clientSendFails 20,.clientSocketInit,.serverAccept,.nextBuffer,.clientSend,
      .serverRcv 20,.serverRcvFails,.serverAccept,.serverRcv 61,.serverSend] (by decide +kernel)
  have once := (appended_once knownMd5 0 2 1 (ascii ['a','b','c']) (List.replicate 3072 0) none (by decide)
    (by decide) List.length_replicate _ _ run).2.mpr (by decide +kernel)
  exact ⟨_,by decide +kernel,once.2⟩

/-- Thor appends, Jane's `recv` fails, and she sends the chunk again. -/
theorem appended_twice : ∃ final : State,
    Reachable (Step memmove knownMd5 Untampered) (.initial 0 2 1 (ascii ['a','b','c']) (List.replicate 3072 0) none) final ∧
    final.thor.output = [ascii ['a','b','c'],ascii ['a','b','c']] ∧ final.appended = [0,0] ∧
    ¬ final.appended.Nodup := by
  have run := run_of_actions memmove knownMd5 Untampered (.initial 0 2 1 (ascii ['a','b','c']) (List.replicate 3072 0) none)
    [.clientSocketInit,.serverAccept,.nextBuffer,.clientSend,.serverRcv 61,.serverSend,.clientRcvFails,
      .clientSocketInit,.nextBuffer,.clientSend,.serverRcvFails,.serverAccept,.serverRcv 61,.serverSend]
    (by decide +kernel)
  exact ⟨_,⟨_,run⟩,by decide +kernel⟩

end Spsc.Session
