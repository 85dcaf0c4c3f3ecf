import Spsc.Session.Phases
import Spsc.Thor.Statistics

/-! What a session comes to when nothing fails: it makes boundedly many calls, and can only
stop with the whole file appended and searched. -/
namespace Spsc.Session
open Imperative Hash Wire Segment Runs
open Spsc.Jane (chunk chunkSize)
open Spsc.Thor (Searched printed report)
open Spsc.Substring (MAX_OCCURANCE location)
open Occurrences (Clean occurrences scan scan_exact)

def Action.isThor : Action → Bool
  | .serverAccept | .serverRcv _ | .serverRcvEnd | .serverRcvFails | .serverSend | .serverSendFails _ => true
  | _ => false

theorem next_side (md5 : Bytes → Digest) (s : State) (action : Action) (other : action.isThor = false) :
    (s.next memmove md5 action).thor = s.thor ∧ (s.next memmove md5 action).accepted = s.accepted ∧
      (action ≠ .clientSocketInit → (s.next memmove md5 action).opened = s.opened) := by
  have sends : ∀ kept after, (s.clientSend kept after).thor = s.thor ∧ (s.clientSend kept after).accepted = s.accepted ∧
      (s.clientSend kept after).opened = s.opened := by
    intro kept after
    unfold State.clientSend
    split <;> exact ⟨rfl,rfl,rfl⟩
  cases action with
  | nextBuffer =>
    change (s.prepare md5).thor = s.thor ∧ (s.prepare md5).accepted = s.accepted ∧ (_ → (s.prepare md5).opened = s.opened)
    unfold State.prepare
    split <;> exact ⟨rfl,rfl,fun _ => rfl⟩
  | clientSend => exact (sends _ _).imp_right (And.imp_right fun same _ => same)
  | clientSendFails count => exact (sends _ _).imp_right (And.imp_right fun same _ => same)
  | clientRcv count =>
    simp only [State.next]
    split
    · unfold State.clientRcv
      simp only
      split <;> exact ⟨rfl,rfl,fun _ => rfl⟩
    · exact ⟨rfl,rfl,fun _ => rfl⟩
  | clientSocketInit => exact ⟨rfl,rfl,fun another => absurd rfl another⟩
  | clientRcvFails => exact ⟨rfl,rfl,fun _ => rfl⟩
  | clientDone => exact ⟨rfl,rfl,fun _ => rfl⟩
  | lokiFrame => exact ⟨rfl,rfl,fun _ => rfl⟩
  | lokiBuffer => exact ⟨rfl,rfl,fun _ => rfl⟩
  | _ => cases other

theorem next_thor (md5 : Bytes → Digest) (s : State) (action : Action) (other : action.isThor = false) :
    (s.next memmove md5 action).thor = s.thor := (next_side md5 s action other).1

section Search
variable {md5 : Bytes → Digest} {pattern : Option Bytes} {s : State} (searched : Searched pattern s.thor)
include searched

theorem searched_send (payload : Bytes) (kept : Bytes → Bytes) (after : Thor.Place) (here : s.thor.place = .handle payload) :
    Searched pattern (s.serverSend md5 payload kept after).thor := by
  have running : ∀ fault, s.thor.place ≠ .aborted fault := by simp [here]
  unfold State.serverSend
  cases checked : Thor.verify md5 s.segment payload with
  | error fault => exact searched.stand running _
  | ok found =>
    obtain ⟨data,intact⟩ := found
    simp only [Thor.serverSocketSend,checked]
    cases intact with
    | false =>
      simp only [Bool.false_eq_true,if_false]
      cases Thor.reply Thor.REJECTION with
      | error fault => exact searched.stand running _
      | ok sent => exact searched.stand running _
    | true =>
      simp only [if_true]
      rcases searched.grows running data with ⟨next,found,searched,place⟩ | ⟨fault,failed,searched⟩
      · have running : ∀ fault, next.place ≠ .aborted fault := by simp [place,here]
        rw [found]
        simp only
        cases Thor.reply payload with
        | error fault => exact searched.stand running _
        | ok sent => exact searched.stand running _
      · rw [failed]
        exact searched

/-- Whatever happens in a session, Thor has searched what he has appended. -/
theorem searched_step (action : Action) (enabled : s.Enabled action) : Searched pattern (s.next memmove md5 action).thor := by
  cases by_thor : action.isThor with
  | false =>
    rw [next_thor md5 s action by_thor]
    exact searched
  | true =>
    cases action with
    | serverAccept => exact searched.stand (by simp [enabled.1]) _
    | serverRcv count =>
      obtain ⟨⟨receiver,here⟩,_⟩ := enabled
      have running : ∀ fault, s.thor.place ≠ .aborted fault := by simp [here]
      rw [s.next_serverRcv memmove md5 receiver count here]
      unfold State.serverRcv
      simp only
      split
      · exact searched.stand running _
      · next thor ran =>
        obtain ⟨place,rfl⟩ := Thor.receivePiece_place _ _ _ _ _ ran
        exact searched.stand running _
    | serverRcvEnd =>
      obtain ⟨⟨receiver,here⟩,_⟩ := enabled
      exact searched.stand (by simp [here]) _
    | serverRcvFails =>
      obtain ⟨receiver,here⟩ := enabled
      exact searched.stand (by simp [here]) _
    | serverSend =>
      obtain ⟨payload,here⟩ := enabled
      rw [s.next_serverSend memmove md5 payload here]
      exact searched_send searched payload _ _ here
    | serverSendFails count =>
      obtain ⟨payload,here⟩ := enabled
      rw [s.next_serverSendFails memmove md5 payload count here]
      exact searched_send searched payload _ _ here
    | _ => cases by_thor

end Search

/-- Whatever fails and whatever Loki writes into the frame on its way or, between two calls, to the
segment: what Thor prints when he leaves a connection is about all that he has appended, across its blocks:
the first places at which a scan finds the pattern there, which are those of its first occurrences if none
hides behind a failed partial match or begins where no int can say. -/
theorem statistics_printed (md5 : Bytes → Digest) (dataPtr : Int) (buffers u : Nat) (file segment text : Bytes)
    (some_text : text ≠ []) (solid : 0 ∉ text) (final : State)
    (reached : Reachable (Step memmove md5 (fun _ => True)) (.initial dataPtr buffers u file segment (some text)) final) :
    printed final.thor =
        .ok (report text (((scan text 0 0 final.thor.output.flatten).take MAX_OCCURANCE).map location)) ∧
      (Clean text MAX_OCCURANCE 0 final.thor.output.flatten →
        (∀ place ∈ (occurrences text 0 0 final.thor.output.flatten).take MAX_OCCURANCE, (place : Int) ≤ INT_MAX) →
        printed final.thor = .ok (report text
          (((occurrences text 0 0 final.thor.output.flatten).take MAX_OCCURANCE).map (fun place : Nat => (place : Int))))) := by
  have searched := reached.invariant (fun s => Searched (some text) s.thor) (Thor.initial_follows (some text)).searched
    (by
      rintro s action t searched ⟨_,enabled,rfl⟩
      exact searched_step searched action enabled)
  have scanned := searched.printed (fun _ same => Option.some.inj same ▸ some_text) text rfl solid
  refine ⟨scanned,fun clean low => ?_⟩
  have exactly := (scan_exact text location (fun place : Nat => (place : Int)) MAX_OCCURANCE 0 0 final.thor.output.flatten
    (List.length_pos_of_ne_nil some_text)).mpr
  simp only [List.take_zero,List.nil_append,Nat.add_zero] at exactly
  rw [scanned,exactly ⟨clean,fun place member => (wrap32_eq_self place (Int.natCast_nonneg place)).mpr (low place member)⟩
    _ List.prefix_rfl]

/-- The chunk is appended twice, and the pattern is found where the two meet. -/
theorem statistics_printed_twice : ∃ final : State, final.thor.output = [ascii ['a','b'],ascii ['a','b']] ∧
    printed final.thor = .ok (report (ascii ['b','a']) [1]) := by
  have run := run_of_actions memmove knownMd5 (fun _ => True)
    (.initial 0 2 1 (ascii ['a','b']) (List.replicate 3072 0) (some (ascii ['b','a'])))
    [.clientSocketInit,.serverAccept,.nextBuffer,.clientSend,.serverRcv 61,.serverSend,.clientRcvFails,
      .clientSocketInit,.nextBuffer,.clientSend,.serverRcvFails,.serverAccept,.serverRcv 61,.serverSend]
    (by decide +kernel)
  have appended : ∃ final, Reachable (Step memmove knownMd5 (fun _ => True))
      (.initial 0 2 1 (ascii ['a','b']) (List.replicate 3072 0) (some (ascii ['b','a']))) final ∧
      final.thor.output = [ascii ['a','b'],ascii ['a','b']] := ⟨_,⟨_,run⟩,by decide +kernel⟩
  obtain ⟨final,reached,output⟩ := appended
  have printed := (statistics_printed knownMd5 0 2 1 (ascii ['a','b']) (List.replicate 3072 0) (ascii ['b','a'])
    (by decide) (by decide) final reached).2
  rw [output] at printed
  exact ⟨final,output,printed (by decide +kernel) (by decide +kernel)⟩

/-- When Jane ends the transfer Thor has each chunk once and the whole file. -/
theorem Delivery.whole {md5 : Bytes → Digest} {dataPtr : Int} {buffers u repeats : Nat} {file : Bytes} {s : State}
    (positive : 1 ≤ u) (delivery : Delivery md5 dataPtr buffers u file repeats s)
    (ended : s.jane.place = .finish ∨ s.jane.place = .finished) :
    s.appended = List.range s.jane.chunks ∧ s.thor.output.flatten = file := by
  have drained := delivery.inv.drained ended
  obtain ⟨few,counted⟩ := delivery.once drained.clean
  have all : s.jane.chunks-1+repeats = s.jane.chunks := by
    have := counted ended
    omega
  have appended := delivery.appended_range few
  rw [all] at appended
  have nothing_left := drained.all_read
  rw [Jane.chunk_eq_nil u positive,List.drop_eq_nil_iff] at nothing_left
  refine ⟨appended,?_⟩
  rw [delivery.output,appended,Jane.chunks_flatten,List.take_of_length_le nothing_left]

section Undisturbed
variable (md5 : Bytes → Digest) (dataPtr : Int) (buffers u : Nat) (file : Bytes)

/-- What holds as long as nothing fails, with a bound on the calls that are left. -/
structure Going (n : Nat) (s : State) : Prop where
  delivery : ∃ repeats, Delivery md5 dataPtr buffers u file repeats s
  clean : s.jane.failed = false
  remaining : Remaining md5 u file n s

variable {md5 dataPtr buffers u file} {n : Nat} {s t : State} {action : Action}

theorem initial_going (segment : Bytes) (pattern : Option Bytes) (room : segment.length = (buffers+1)*1024) :
    Going md5 dataPtr buffers u file (173*chunkCount u file+13) (.initial dataPtr buffers u file segment pattern) where
  delivery := ⟨0,initial_delivery md5 dataPtr buffers u file segment pattern room⟩
  clean := rfl
  remaining := ⟨13,⟨rfl,rfl,rfl,rfl⟩,rfl⟩

variable (high : buffers ≤ 102399) (positive : 1 ≤ u) (fits : u ≤ buffers) (going : Going md5 dataPtr buffers u file n s)

include high positive fits in
theorem Going.step (going : Going md5 dataPtr buffers u file n s) (taken : Step memmove md5 Undisturbed s action t) :
    ∃ m < n, Going md5 dataPtr buffers u file m t := by
  obtain ⟨undisturbed,enabled,rfl⟩ := taken
  obtain ⟨⟨repeats,delivery⟩,clean,remaining⟩ := going
  obtain ⟨repeats',next,flag⟩ := delivery_step high positive fits delivery enabled undisturbed.1
  obtain ⟨m,less,left⟩ := remaining_step high positive fits delivery clean remaining undisturbed enabled
  exact ⟨m,less,⟨repeats',next⟩,flag undisturbed.2 clean,left⟩

include positive going in
theorem Going.whole (ended : s.jane.place = .finished) : s.thor.output.flatten = file := by
  obtain ⟨⟨repeats,delivery⟩,_,_⟩ := going
  exact (delivery.whole positive (.inr ended)).2

/-- Thor is searching for the pattern, if there is one, and has not stopped. -/
structure Serving (pattern : Option Bytes) (s : State) : Prop where
  searched : Searched pattern s.thor
  running : ∀ fault, s.thor.place ≠ .aborted fault

include going fits high in
theorem Serving.step {pattern : Option Bytes} (some_pattern : ∀ text, pattern = some text → text ≠ [])
    (serving : Serving pattern s) (taken : Step memmove md5 Undisturbed s action t) : Serving pattern t := by
  obtain ⟨⟨honest,sound⟩,enabled,rfl⟩ := taken
  refine ⟨searched_step serving.searched action enabled,?_⟩
  obtain ⟨⟨repeats,delivery⟩,clean,stage,phase,_⟩ := going
  have low : u ≤ 102399 := fits.trans high
  cases by_thor : action.isThor with
  | false =>
    rw [next_thor md5 s action by_thor]
    exact serving.running
  | true =>
    cases action with
    | serverAccept => simp [State.next,State.serverAccept]
    | serverRcv count =>
      obtain ⟨⟨receiver,here⟩,some_count,inside⟩ := enabled
      rw [s.next_serverRcv memmove md5 receiver count here]
      exact (phase.serverRcv (current_legible low s) receiver count here some_count inside).2
    | serverRcvEnd => simp [State.next,State.serverLeave]
    | serverSend =>
      obtain ⟨payload,here⟩ := enabled
      obtain ⟨rfl,_,some_read,_⟩ := delivery.handled payload here
      have legible : Legible (current md5 u file s) := current_legible low s
      have short := legible.framable.short
      obtain ⟨next,found,_,_⟩ := serving.searched.runs some_pattern serving.running (chunk u file (s.jane.chunks-1))
      rw [s.next_serverSend memmove md5 _ here]
      unfold State.serverSend
      rw [delivery.verify_current low some_read]
      simp only [Thor.serverSocketSend,delivery.verify_current low some_read,if_true,found,Thor.reply_framed _ short]
      simp
    | serverRcvFails => cases sound
    | serverSendFails => cases sound
    | _ => cases by_thor

/-- Nothing is left to be done: Jane has ended the transfer, Thor has left the connection, and
he has appended the file and searched it. -/
structure Complete (pattern : Option Bytes) (file : Bytes) (s : State) : Prop where
  jane : s.jane.place = .finished
  thor : s.thor.place = .accept
  output : s.thor.output.flatten = file
  searched : Searched pattern s.thor

include going positive in
theorem Going.complete {pattern : Option Bytes} (serving : Serving pattern s)
    (last : ∀ action t, ¬ Step memmove md5 Undisturbed s action t) : Complete pattern file s := by
  obtain ⟨_,phase,_⟩ := going.remaining
  rcases phase.goes_on serving.running with ⟨action,undisturbed,enabled⟩ | ⟨ended,left⟩
  · exact absurd ⟨undisturbed,enabled,rfl⟩ (last action (s.next memmove md5 action))
  · exact ⟨ended,left,going.whole positive ended,serving.searched⟩

end Undisturbed

/-- However the calls interleave and however the bytes are cut, a transfer in which nothing
fails is over after boundedly many calls. -/
theorem transfer_bounded (md5 : Bytes → Digest) (dataPtr : Int) (buffers u : Nat) (file segment : Bytes)
    (pattern : Option Bytes) (bufferRange : 2 ≤ buffers ∧ buffers ≤ 102399) (useRange : 1 ≤ u ∧ u ≤ buffers)
    (room : segment.length = (buffers+1)*1024) (trace : List (State × Action)) (final : State)
    (run : Run (Step memmove md5 Undisturbed) (.initial dataPtr buffers u file segment pattern) trace final) :
    trace.length ≤ 173*chunkCount u file+13 := by
  obtain ⟨rest,_,counted⟩ := run.bounded (Going md5 dataPtr buffers u file) _ (initial_going segment pattern room)
    (fun n s action t going taken => Going.step bufferRange.2 useRange.1 useRange.2 going taken)
  omega

theorem transfer_bounded_abc : ∃ trace final, Run (Step memmove knownMd5 Undisturbed)
    (.initial 0 2 1 (ascii ['a','b','c']) (List.replicate 3072 0) none) trace final ∧ trace.length = 11 ∧
    trace.length ≤ 173*chunkCount 1 (ascii ['a','b','c'])+13 := by
  have run := run_of_actions memmove knownMd5 Undisturbed (.initial 0 2 1 (ascii ['a','b','c']) (List.replicate 3072 0) none)
    [.clientSocketInit,.serverAccept,.nextBuffer,.clientSend,.serverRcv 10,.serverRcv 51,.serverSend,.clientRcv 61,
      .nextBuffer,.nextBuffer,.clientDone] (by decide +kernel)
  exact ⟨_,_,run,rfl,transfer_bounded knownMd5 0 2 1 (ascii ['a','b','c']) (List.replicate 3072 0) none (by decide)
    (by decide) List.length_replicate _ _ run⟩

section Run
variable (md5 : Bytes → Digest) (dataPtr : Int) (buffers u : Nat) (file segment : Bytes) (pattern : Option Bytes)
  (high : buffers ≤ 102399) (positive : 1 ≤ u) (fits : u ≤ buffers) (room : segment.length = (buffers+1)*1024)
  (some_pattern : ∀ text, pattern = some text → text ≠ [])

include high positive fits room some_pattern in
theorem reachable_going (s : State)
    (reached : Reachable (Step memmove md5 Undisturbed) (.initial dataPtr buffers u file segment pattern) s) :
    (∃ n, Going md5 dataPtr buffers u file n s) ∧ Serving pattern s := by
  refine reached.invariant (fun s => (∃ n, Going md5 dataPtr buffers u file n s) ∧ Serving pattern s) ⟨?_,?_⟩ ?_
  · exact ⟨_,initial_going segment pattern room⟩
  · exact ⟨(Thor.initial_follows pattern).searched,by simp [State.initial,Thor.Server.initial]⟩
  · rintro s action t ⟨⟨n,going⟩,serving⟩ taken
    obtain ⟨m,_,next⟩ := Going.step high positive fits going taken
    exact ⟨⟨m,next⟩,serving.step high fits going some_pattern taken⟩

include high positive fits room some_pattern in
/-- Every run without failures can be carried on until nothing is left to be done, and then
the transfer is complete. -/
theorem complete_at_last (s : State)
    (reached : Reachable (Step memmove md5 Undisturbed) (.initial dataPtr buffers u file segment pattern) s) :
    (∃ final, Reachable (Step memmove md5 Undisturbed) s final ∧ Complete pattern file final) ∧
      ((∀ action t, ¬ Step memmove md5 Undisturbed s action t) → Complete pattern file s) := by
  obtain ⟨⟨n,going⟩,serving⟩ := reachable_going md5 dataPtr buffers u file segment pattern high positive fits room
    some_pattern s reached
  refine ⟨?_,going.complete positive serving⟩
  have falls : ∀ n s action t, Going md5 dataPtr buffers u file n s → Step memmove md5 Undisturbed s action t →
      ∃ m < n, Going md5 dataPtr buffers u file m t :=
    fun n s action t going taken => Going.step high positive fits going taken
  obtain ⟨final,⟨trace,run⟩,last⟩ := exists_last (Going md5 dataPtr buffers u file) falls n s going
  obtain ⟨before,first⟩ := reached
  obtain ⟨⟨_,going⟩,serving⟩ := reachable_going md5 dataPtr buffers u file segment pattern high positive fits room
    some_pattern final ⟨_,first.append run⟩
  exact ⟨final,⟨trace,run⟩,going.complete positive serving last⟩

end Run
end Spsc.Session
