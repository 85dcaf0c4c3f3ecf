import Spsc.Session
import Spsc.Wire.Strcpy

/-! The calls of `strcpy` in a run. Where each of them acts as a move, the run is one with `memmove`. -/
namespace Spsc.Session
open Imperative Hash Wire Segment Runs

/-- The call of `strcpy` that a step makes: the buffer and the place of its source. -/
def State.copies (s : State) : Action → Option (Bytes × Nat)
  | .clientRcv count =>
    match s.jane.place with
    | .receive receiver => copyCall false receiver (s.line.toJane.take (min count receiver.maxlen))
    | _ => none
  | .serverRcv count =>
    match s.thor.place with
    | .receive receiver => copyCall true receiver (s.heard.toThor.take (min count receiver.maxlen))
    | _ => none
  | _ => none

def CopiesMove (strcpy : StrCpy) (s : State) (action : Action) : Prop :=
  ∀ call ∈ s.copies action, Moves strcpy call.1 call.2

theorem memmove_copiesMove (s : State) (action : Action) : CopiesMove memmove s action :=
  fun call _ => memmove_moves call.1 call.2

theorem next_copiesMove (strcpy : StrCpy) (md5 : Bytes → Digest) (s : State) (action : Action)
    (moves : CopiesMove strcpy s action) : s.next strcpy md5 action = s.next memmove md5 action := by
  cases action with
  | clientRcv count =>
    unfold CopiesMove State.copies at moves
    simp only at moves
    unfold State.next
    cases here : s.jane.place with
    | receive receiver =>
      rw [here] at moves
      have same := receive_moves strcpy false receiver _ moves
      simp only [State.clientRcv,State.received,Jane.receivePiece,clientSocketRcv,same]
    | _ => rfl
  | serverRcv count =>
    unfold CopiesMove State.copies at moves
    simp only at moves
    unfold State.next
    cases here : s.thor.place with
    | receive receiver =>
      rw [here] at moves
      have same := receive_moves strcpy true receiver _ moves
      simp only [State.serverRcv,Thor.receivePiece,serverSocketRcv,same]
    | _ => rfl
  | _ => rfl

theorem run_copiesMove {strcpy : StrCpy} {md5 : Bytes → Digest} {allowed : Action → Prop} {start final : State}
    {trace : List (State × Action)} (run : Run (Step strcpy md5 allowed) start trace final)
    (moves : ∀ entry ∈ trace, CopiesMove strcpy entry.1 entry.2) : Run (Step memmove md5 allowed) start trace final :=
  run.mono (by
    rintro entry member after ⟨may,enabled,rfl⟩
    exact ⟨may,enabled,next_copiesMove strcpy md5 entry.1 entry.2 (moves entry member)⟩)

end Spsc.Session
