import Spsc.Jane.Invariant
import Spsc.Lib.Runs

/-! `client_loop` on its own, with every outcome that its two socket calls can
have, and what a retry sends. -/
namespace Spsc.Jane
open Imperative Hash Wire Allocator Segment Runs

structure State where
  jane : Client
  segment : Bytes

/-- A step of `client_loop`, with the outcome of the call it waits for. -/
inductive Outcome where
  | connect
  | prepare
  | sent
  | sendFailed
  | received (got : Bytes)
  | rcvFailed
  | finish

def IsSend : Outcome → Prop
  | .sent | .sendFailed => True
  | _ => False

def IsFailure : Outcome → Prop
  | .sendFailed | .rcvFailed => True
  | _ => False

def orAbort (state : State) : C State → State
  | .ok next => next
  | .error fault => { state with jane := { state.jane with place := .aborted fault } }

variable (md5 : Bytes → Digest)

inductive Step : State → Outcome → State → Prop
  | connect (state : State) (here : state.jane.place = .start) :
      Step state .connect { state with jane := { state.jane with place := .loop } }
  | prepare (state : State) (here : state.jane.place = .loop) :
      Step state .prepare (orAbort state (do
        let (jane,segment) ← nextBuffer md5 state.jane state.segment
        .ok ⟨jane,segment⟩))
  | sent (state : State) (here : state.jane.place = .send) :
      Step state .sent (orAbort state (do
        let _ ← frame state.jane
        .ok { state with jane := { state.jane with place := .receive .start } }))
  | sendFailed (state : State) (here : state.jane.place = .send) :
      Step state .sendFailed (orAbort state (do
        let _ ← frame state.jane
        .ok { state with jane := gotoStart state.jane }))
  | received (state : State) (receiver : Receiver) (got : Bytes) (here : state.jane.place = .receive receiver) :
      Step state (.received got) (orAbort state (do
        let jane ← compare state.jane got
        .ok { state with jane := jane }))
  | rcvFailed (state : State) (receiver : Receiver) (here : state.jane.place = .receive receiver) :
      Step state .rcvFailed { state with jane := gotoStart state.jane }
  | finish (state : State) (here : state.jane.place = .finish) :
      Step state .finish { state with jane := { state.jane with place := .finished } }

/-- Two states from which the same frame about the same bytes is sent, with the
same pools. -/
def SameFrame (left right : State) : Prop :=
  getOffset left.jane.asgard (left.jane.shmBuffer.getD 0) =
      getOffset right.jane.asgard (right.jane.shmBuffer.getD 0) ∧
    left.jane.llen = right.jane.llen ∧ cString left.jane.md5 = cString right.jane.md5 ∧
    frame left.jane = frame right.jane ∧ left.segment = right.segment ∧
    left.jane.asgard = right.jane.asgard

section Steps
variable {md5} {dataPtr : Int} {buffers u : Nat} {file : Bytes}

theorem step_inv (top : (buffers : Int) ≤ INT_MAX) (positive : 1 ≤ u) (fits : u ≤ buffers)
    (state : State) (outcome : Outcome) (next : State)
    (inv : Inv md5 dataPtr buffers u file state.jane state.segment) (step : Step md5 state outcome next) :
    Inv md5 dataPtr buffers u file next.jane next.segment ∧
      (Kept u file state.jane state.segment → Kept u file next.jane next.segment) := by
  cases step with
  | connect here => exact ⟨inv.connect here,id⟩
  | prepare here =>
    obtain ⟨jane,segment,ran,next,led⟩ := inv.nextBuffer top positive fits
    rw [ran]
    exact ⟨next,fun kept => led.kept kept⟩
  | sent here =>
    have loaded := inv.loaded_of_send here
    rw [loaded.frame_eq]
    exact ⟨inv.receive loaded .start,id⟩
  | sendFailed here =>
    have loaded := inv.loaded_of_send here
    rw [loaded.frame_eq]
    exact ⟨inv.gotoStart loaded,id⟩
  | received receiver got here =>
    have loaded := inv.loaded_of_receive receiver here
    rw [loaded.compare_eq]
    exact ⟨inv.loop loaded _,id⟩
  | rcvFailed receiver here => exact ⟨inv.gotoStart (inv.loaded_of_receive receiver here),id⟩
  | finish here => exact ⟨inv.finish here,id⟩

/-- Between two sends: the reply is awaited, or it came and no failure can
follow, or a failure came and everything but the place is as it was. -/
inductive Phase (sent : State) : Prop → State → Prop
  | waiting (receiver : Receiver) (failed : Bool) :
      Phase sent False ⟨{ sent.jane with place := .receive receiver, failed := failed },sent.segment⟩
  | answered (state : State) (here : state.jane.place ≠ .start)
      (not_waiting : ∀ receiver, state.jane.place ≠ .receive receiver) : Phase sent False state
  | retrying (place : Place) (here : place = .start ∨ place = .loop ∨ place = .send) :
      Phase sent True ⟨{ sent.jane with place := place, failed := true },sent.segment⟩

theorem phase_step (sent : State) (common : Common buffers u sent.jane sent.segment)
    (loaded : Loaded md5 dataPtr buffers u file sent.jane)
    (top : (buffers : Int) ≤ INT_MAX) (positive : 1 ≤ u) (fits : u ≤ buffers)
    (state : State) (outcome : Outcome) (next : State) (before : Prop)
    (inv : Inv md5 dataPtr buffers u file state.jane state.segment)
    (phase : Phase sent before state) (quiet : ¬ IsSend outcome) (step : Step md5 state outcome next) :
    ∃ after, Phase sent after next ∧ ((before ∨ IsFailure outcome) → after) := by
  cases step with
  | connect here =>
    cases phase with
    | waiting => simp at here
    | answered _ elsewhere => exact absurd here elsewhere
    | retrying => exact ⟨True,.retrying .loop (.inr (.inl rfl)),fun _ => trivial⟩
  | prepare here =>
    cases phase with
    | waiting => simp at here
    | answered =>
      obtain ⟨jane,segment,ran,_,led⟩ := inv.nextBuffer top positive fits
      rw [ran]
      refine ⟨False,.answered _ ?_ ?_,by simp [IsFailure]⟩
      all_goals cases led <;> simp_all [orAbort,bind,Except.bind]
    | retrying place =>
      have renewed := nextBuffer_retry md5 top positive fits (common.at place true) file loaded.reading
        (loaded.at place true) rfl
      rw [renewed]
      exact ⟨True,.retrying .send (.inr (.inr rfl)),fun _ => trivial⟩
  | sent => exact absurd trivial quiet
  | sendFailed => exact absurd trivial quiet
  | received receiver got here =>
    cases phase with
    | waiting _ failed =>
      rw [(loaded.at (.receive _) failed).compare_eq]
      exact ⟨False,.answered _ (by simp [orAbort,bind,Except.bind]) (by simp [orAbort,bind,Except.bind]),
        by simp [IsFailure]⟩
    | answered _ _ elsewhere => exact absurd here (elsewhere receiver)
    | retrying place elsewhere =>
      simp only at here
      simp [here] at elsewhere
  | rcvFailed receiver here =>
    cases phase with
    | waiting => exact ⟨True,.retrying .start (.inl rfl),fun _ => trivial⟩
    | answered _ _ elsewhere => exact absurd here (elsewhere receiver)
    | retrying place elsewhere =>
      simp only at here
      simp [here] at elsewhere
  | finish here =>
    cases phase with
    | waiting => simp at here
    | answered => exact ⟨False,.answered _ (by simp) (by simp),by simp [IsFailure]⟩
    | retrying place elsewhere =>
      simp only at here
      simp [here] at elsewhere

theorem phase_run (sent : State) (common : Common buffers u sent.jane sent.segment)
    (loaded : Loaded md5 dataPtr buffers u file sent.jane)
    (top : (buffers : Int) ≤ INT_MAX) (positive : 1 ≤ u) (fits : u ≤ buffers)
    (start final : State) (trace : List (State × Outcome)) (before : Prop)
    (run : Run (Step md5) start trace final) (inv : Inv md5 dataPtr buffers u file start.jane start.segment)
    (phase : Phase sent before start) (quiet : ∀ entry ∈ trace, ¬ IsSend entry.2) :
    Inv md5 dataPtr buffers u file final.jane final.segment ∧
      ∃ after, Phase sent after final ∧ ((before ∨ ∃ entry ∈ trace, IsFailure entry.2) → after) := by
  induction run with
  | nil => exact ⟨inv,before,phase,by simp⟩
  | snoc state outcome next trace _ last ih =>
    obtain ⟨inv',middle,phase',carried⟩ := ih (fun entry member => quiet entry (List.mem_append_left _ member))
    obtain ⟨after,phase'',carried'⟩ := phase_step sent common loaded top positive fits state outcome next middle
      inv' phase' (quiet (state,outcome) (by simp)) last
    refine ⟨step_inv top positive fits state outcome next inv' last |>.1,after,phase'',?_⟩
    rintro (early | ⟨entry,member,failure⟩)
    · exact carried' (.inl (carried (.inl early)))
    · rcases List.mem_append.mp member with old | new
      · exact carried' (.inl (carried (.inr ⟨entry,old,failure⟩)))
      · rw [List.mem_singleton.mp new] at failure
        exact carried' (.inr failure)

theorem phase_start (sent next : State) (outcome : Outcome) (sends : IsSend outcome)
    (inv : Inv md5 dataPtr buffers u file sent.jane sent.segment) (step : Step md5 sent outcome next) :
    Phase sent (IsFailure outcome) next := by
  cases step with
  | sent here =>
    have loaded := inv.loaded_of_send here
    rw [loaded.frame_eq]
    simp only [IsFailure]
    exact .waiting .start sent.jane.failed
  | sendFailed here =>
    have loaded := inv.loaded_of_send here
    rw [loaded.frame_eq]
    simp only [IsFailure]
    exact .retrying .start (.inl rfl)
  | connect => exact sends.elim
  | prepare => exact sends.elim
  | received => exact sends.elim
  | rcvFailed => exact sends.elim
  | finish => exact sends.elim

theorem send_place (state next : State) (outcome : Outcome) (sends : IsSend outcome)
    (step : Step md5 state outcome next) : state.jane.place = .send := by
  cases step with
  | sent here => exact here
  | sendFailed here => exact here
  | connect => exact sends.elim
  | prepare => exact sends.elim
  | received => exact sends.elim
  | rcvFailed => exact sends.elim
  | finish => exact sends.elim

end Steps

/-- A frame sent after a failure is the one that failed, about the bytes that
were hashed, with the pools as they were; and nothing ever aborts. -/
theorem retry_resends (md5 : Bytes → Digest) (dataPtr : Int) (buffers u : Nat) (file segment : Bytes)
    (top : (buffers : Int) ≤ INT_MAX) (positive : 1 ≤ u) (fits : u ≤ buffers)
    (room : segment.length = (buffers+1)*1024) (trace : List (State × Outcome)) (final : State)
    (run : Run (Step md5) ⟨.initial dataPtr buffers u file,segment⟩ trace final) :
    (∀ before first middle second after, trace = before ++ first::(middle ++ second::after) →
      IsSend first.2 → IsSend second.2 → (∀ entry ∈ middle, ¬ IsSend entry.2) →
      (IsFailure first.2 ∨ ∃ entry ∈ middle, IsFailure entry.2) → SameFrame first.1 second.1) ∧
    (∀ entry ∈ trace, IsSend entry.2 →
      readBytes entry.1.segment (getOffset entry.1.jane.asgard (entry.1.jane.shmBuffer.getD 0))
        entry.1.jane.llen = .ok (chunk u file (entry.1.jane.chunks-1)) ∧
      cString entry.1.jane.md5 = .ok (digestText md5 (chunk u file (entry.1.jane.chunks-1)))) ∧
    Throughout (fun state => ∀ fault, state.jane.place ≠ .aborted fault) trace final := by
  have kept := run.invariant
    (fun state => Inv md5 dataPtr buffers u file state.jane state.segment ∧ Kept u file state.jane state.segment)
    (fun _ _ => True)
    ⟨initial_inv md5 dataPtr buffers u file segment room,initial_kept dataPtr buffers u file segment⟩
    (fun state outcome next inv _ step =>
      (step_inv top positive fits state outcome next inv.1 step).imp_right (fun kept => kept inv.2))
    (fun _ _ => trivial)
  refine ⟨?_,?_,fun entry member => (kept.1 entry member).1.running,kept.2.1.running⟩
  · rintro before first middle second after rfl sendsFirst sendsSecond quiet failure
    obtain ⟨_,_,tail⟩ := run.split before _ rfl
    obtain ⟨rfl,next,step,rest⟩ := tail.uncons
    obtain ⟨state,between,tail⟩ := rest.split middle _ rfl
    obtain ⟨rfl,_,again,_⟩ := tail.uncons
    have inv := (kept.1 first (by simp)).1
    have loaded := inv.loaded_of_send (send_place _ _ _ sendsFirst step)
    obtain ⟨_,phase,ended,carried⟩ := phase_run first.1 inv.common loaded top positive fits next second.1 middle _
      between (step_inv top positive fits _ _ _ inv step).1 (phase_start _ _ _ sendsFirst inv step) quiet
    have place := send_place _ _ _ sendsSecond again
    have failed := carried failure
    obtain ⟨state,outcome⟩ := second
    cases ended with
    | waiting => exact failed.elim
    | answered => exact failed.elim
    | retrying => exact ⟨rfl,rfl,rfl,rfl,rfl,rfl⟩
  · intro entry member sends
    obtain ⟨before,after,rfl⟩ := List.append_of_mem member
    obtain ⟨_,_,tail⟩ := run.split before _ rfl
    obtain ⟨rfl,_,step,_⟩ := tail.uncons
    obtain ⟨inv,inside⟩ := kept.1 entry member
    have loaded := inv.loaded_of_send (send_place _ _ _ sends step)
    exact ⟨loaded.block_eq inside,loaded.digest⟩

theorem retry_resends_once : ∃ trace final, Run (Step knownMd5) ⟨.initial 0 2 1 (ascii ['a','b','c']),List.replicate 3072 0⟩
      trace final ∧ ∃ lost ∈ trace, ∃ sent ∈ trace, lost.2 = .sendFailed ∧ sent.2 = .sent ∧ lost.1.jane.failed = false ∧
    sent.1.jane.failed = true ∧ SameFrame lost.1 sent.1 := by
  have start : Run (Step knownMd5) ⟨.initial 0 2 1 (ascii ['a','b','c']),List.replicate 3072 0⟩ [_] _ :=
    .single _ _ _ (.connect _ rfl)
  have read := start.append (.single _ _ _ (.prepare _ rfl))
  have failed := read.append (.single _ _ _ (.sendFailed _ (by decide +kernel)))
  have again := failed.append (.single _ _ _ (.connect _ (by decide +kernel)))
  have kept := again.append (.single _ _ _ (.prepare _ rfl))
  have sent := kept.append (.single _ _ _ (.sent _ (by decide +kernel)))
  have resends := (retry_resends knownMd5 0 2 1 (ascii ['a','b','c']) (List.replicate 3072 0) (by decide)
    (by decide) (by decide) List.length_replicate _ _ sent).1 [_,_] _ [_,_] _ [] rfl trivial trivial
    (List.forall_mem_cons.mpr ⟨id,List.forall_mem_cons.mpr ⟨id,by simp⟩⟩) (.inl trivial)
  exact ⟨_,_,sent,_,.tail _ (.tail _ (.head _)),_,.tail _ (.tail _ (.tail _ (.tail _ (.tail _ (.head _))))),rfl,rfl,
    by decide +kernel,by decide +kernel,resends⟩

end Spsc.Jane
