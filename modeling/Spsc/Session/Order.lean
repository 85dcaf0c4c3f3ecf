import Spsc.Session.Delivery
import Spsc.Session.Strcpy

/-! The order of what Thor appends, in every state reached without Loki, and what
he has when nothing fails either, as long as `strcpy` acts as a move. -/
namespace Spsc.Session
open Imperative Hash Wire Allocator Segment Runs
open Spsc.Jane (chunk chunkSize)

/-- Connections may fail anywhere; frames, replies and the segment are left alone. -/
def Untampered (action : Action) : Prop := action.isLoki = false

def Undisturbed (action : Action) : Prop := action.isLoki = false ∧ action.isFailure = false

instance (action : Action) : Decidable (Untampered action) := inferInstanceAs (Decidable (action.isLoki = false))

instance (action : Action) : Decidable (Undisturbed action) := inferInstanceAs (Decidable (_ ∧ _))

section Steps
variable {md5 : Bytes → Digest} {dataPtr : Int} {buffers u : Nat} {file : Bytes}
  {repeats : Nat} {s t : State} {action : Action}
  (high : buffers ≤ 102399) (positive : 1 ≤ u) (fits : u ≤ buffers)
  (delivery : Delivery md5 dataPtr buffers u file repeats s) (enabled : s.Enabled action)
include high positive fits delivery enabled

omit positive in
theorem answer_step (answers : action.isAnswer = true) :
    Delivery md5 dataPtr buffers u file (repeats+1) (s.next memmove md5 action) ∧ (s.next memmove md5 action).jane = s.jane ∧
      1 ≤ s.jane.chunks := by
  have low : u ≤ 102399 := fits.trans high
  have sent : ∀ payload, s.thor.place = .handle payload → ∀ (kept : Bytes → Bytes) (after : Thor.Place),
      (∀ bytes, kept bytes <+: bytes) → after = .accept ∨ after = .receive .start →
      Delivery md5 dataPtr buffers u file (repeats+1) (s.serverSend md5 payload kept after) ∧
        (s.serverSend md5 payload kept after).jane = s.jane ∧ 1 ≤ s.jane.chunks := by
    intro payload here kept after part next
    obtain ⟨rfl,_,some_read,_⟩ := delivery.handled payload here
    obtain ⟨replied,fault⟩ := serverSend_replied delivery.base here md5 kept after _ true part next
      (delivery.verify_current low some_read)
    exact ⟨delivery.replied low _ here replied fault,replied.jane,some_read⟩
  cases action with
  | serverSend =>
    obtain ⟨payload,here⟩ := enabled
    rw [s.next_serverSend memmove md5 payload here]
    exact sent payload here id _ (fun _ => List.prefix_rfl) (.inr rfl)
  | serverSendFails count =>
    obtain ⟨payload,here⟩ := enabled
    rw [s.next_serverSendFails memmove md5 payload count here]
    exact sent payload here _ _ (fun bytes => List.take_prefix count bytes) (.inl rfl)
  | _ => cases answers

theorem delivery_step (honest : action.isLoki = false) :
    ∃ repeats', Delivery md5 dataPtr buffers u file repeats' (s.next memmove md5 action) ∧
      (action.isFailure = false → s.jane.failed = false → (s.next memmove md5 action).jane.failed = false) := by
  have low : u ≤ 102399 := fits.trans high
  have top : (buffers : Int) ≤ INT_MAX := by
    unfold INT_MAX
    omega
  cases action with
  | clientSocketInit => exact ⟨_,delivery.connect enabled,fun _ => id⟩
  | nextBuffer =>
    obtain ⟨repeats',next,clean⟩ := delivery.prepare top positive fits enabled
    exact ⟨repeats',next,fun _ => clean⟩
  | clientSend =>
    have loaded := delivery.inv.loaded_of_send enabled
    refine ⟨_,delivery.clientSend enabled,fun _ clean => ?_⟩
    have sent := clientSend_eq s id (fun jane => { jane with place := .receive .start }) _ loaded.frame_eq
    exact (congrArg (fun t : State => t.jane.failed) sent).trans clean
  | clientSendFails count =>
    exact ⟨_,delivery.clientSendFails (fun bytes => bytes.take count) (fun bytes => List.take_prefix count bytes)
      enabled,fun success => nomatch success⟩
  | clientRcv count =>
    obtain ⟨⟨receiver,here⟩,some_count,inside⟩ := enabled
    obtain ⟨next,flag⟩ := delivery.clientRcv low receiver count here some_count inside
    rw [s.next_clientRcv memmove md5 receiver count here]
    exact ⟨_,next,fun _ clean => flag.trans clean⟩
  | clientRcvFails =>
    obtain ⟨receiver,here⟩ := enabled
    exact ⟨_,delivery.clientRcvFails receiver here,fun success => nomatch success⟩
  | clientDone => exact ⟨_,delivery.clientDone enabled,fun _ => id⟩
  | serverAccept =>
    exact ⟨_,delivery.quiet low (serverAccept_quiet s enabled.1 enabled.2) (fun _ stopped => nomatch stopped),
      fun _ => id⟩
  | serverRcv count =>
    obtain ⟨⟨receiver,here⟩,_,_⟩ := enabled
    obtain ⟨stored,rfl⟩ := delivery.base.tidy receiver here
    have moved := serverRcv_quiet delivery.base stored count here
    rw [s.next_serverRcv memmove md5 _ count here]
    exact ⟨_,delivery.quiet low moved (fun fault => serverRcv_fault (holding stored) count fault),fun _ clean => by
      rw [moved.jane]; exact clean⟩
  | serverRcvEnd =>
    obtain ⟨⟨receiver,here⟩,_,_⟩ := enabled
    exact ⟨_,delivery.quiet low (serverLeave_quiet delivery.base (by simp [here])) (fun _ stopped => nomatch stopped),
      fun _ => id⟩
  | serverRcvFails =>
    obtain ⟨receiver,here⟩ := enabled
    exact ⟨_,delivery.quiet low (serverLeave_quiet delivery.base (by simp [here])) (fun _ stopped => nomatch stopped),
      fun _ => id⟩
  | serverSend =>
    obtain ⟨next,same,_⟩ := answer_step high fits delivery enabled rfl
    exact ⟨_,next,fun _ clean => by rw [same]; exact clean⟩
  | serverSendFails count =>
    obtain ⟨next,same,_⟩ := answer_step high fits delivery enabled rfl
    exact ⟨_,next,fun _ clean => by rw [same]; exact clean⟩
  | lokiFrame => cases honest
  | lokiBuffer => cases honest

end Steps

section Facts
variable {md5 : Bytes → Digest} {dataPtr : Int} {buffers u : Nat} {file : Bytes} {repeats : Nat} {s : State}
  (delivery : Delivery md5 dataPtr buffers u file repeats s)
include delivery

theorem Delivery.in_file (positive : 1 ≤ u) : ∀ k < s.jane.chunks, chunk u file k ≠ [] := by
  cases delivery.inv.situation with
  | fresh facts =>
    intro k less
    rw [facts.none_read] at less
    omega
  | loaded facts => exact facts.last positive
  | drained facts => exact facts.last

theorem Delivery.once (clean : s.jane.failed = false) :
    repeats ≤ 1 ∧ (s.jane.place = .finish ∨ s.jane.place = .finished → repeats = min s.jane.chunks 1) := by
  have place := delivery.place
  cases here : s.jane.place with
  | aborted fault => exact absurd here (delivery.inv.running fault)
  | start =>
    rw [here] at place
    have none_yet := (place clean).2
    exact ⟨by omega,by simp⟩
  | loop =>
    rw [here] at place
    have counted := place.2.2 clean
    exact ⟨by omega,by simp⟩
  | send =>
    rw [here] at place
    have none_yet := place.2.2 clean
    exact ⟨by omega,by simp⟩
  | receive =>
    rw [here] at place
    refine ⟨?_,by simp⟩
    rcases place.2 with ⟨_,none_yet⟩ | ⟨_,_,once⟩
    · exact (none_yet clean).le.trans (Nat.zero_le 1)
    · exact (once clean).le
  | finish =>
    rw [here] at place
    have counted := place.2.2 clean
    exact ⟨by omega,fun _ => counted⟩
  | finished =>
    rw [here] at place
    have counted := place.2.2
    exact ⟨by omega,fun _ => counted⟩

theorem Delivery.appended_range (few : repeats ≤ 1) : s.appended = List.range (s.jane.chunks-1+repeats) := by
  rw [delivery.appended]
  obtain rfl | rfl : repeats = 0 ∨ repeats = 1 := by omega
  · rw [List.replicate_zero,List.append_nil]
    rfl
  · rw [List.replicate_one,← List.range_succ]

end Facts

theorem mapIdx_replicate {α : Type} (f : Nat → α) (m : Nat) (tail : List Nat) :
    ((List.replicate m 1 ++ tail).mapIdx (fun k n => List.replicate n (f k))).flatten =
      (List.range m).map f ++ (tail.mapIdx (fun k n => List.replicate n (f (m+k)))).flatten := by
  induction m generalizing f with
  | zero => simp
  | succ m ih =>
    rw [List.replicate_succ,List.cons_append,List.mapIdx_cons,List.flatten_cons,ih (fun k => f (k+1)),
      List.range_succ_eq_map,List.map_cons,List.map_map]
    simp [Nat.add_right_comm]

/-- The chunks in the file's order, each of them some number of times. -/
def InOrder (u : Nat) (file : Bytes) (output : List Bytes) : Prop :=
  ∃ counts : List Nat, (∀ count ∈ counts, 1 ≤ count) ∧ (∀ k < counts.length, chunk u file k ≠ []) ∧
    output = (counts.mapIdx (fun k count => List.replicate count (chunk u file k))).flatten

theorem InOrder.front {u : Nat} {file first : Bytes} {rest : List Bytes} (order : InOrder u file (first::rest)) :
    first = chunk u file 0 := by
  obtain ⟨counts,positive,_,output⟩ := order
  cases counts with
  | nil => cases output
  | cons count counts =>
    obtain ⟨more,rfl⟩ := Nat.exists_eq_succ_of_ne_zero (Nat.one_le_iff_ne_zero.mp (positive count List.mem_cons_self))
    rw [List.mapIdx_cons,List.flatten_cons,List.replicate_succ,List.cons_append] at output
    exact (List.cons.inj output).1

theorem Delivery.inOrder {md5 : Bytes → Digest} {dataPtr : Int} {buffers u : Nat} {file : Bytes} {repeats : Nat} {s : State}
    (delivery : Delivery md5 dataPtr buffers u file repeats s) (positive : 1 ≤ u) : InOrder u file s.thor.output := by
  have in_file := delivery.in_file positive
  have output := delivery.output
  rw [delivery.appended,List.map_append,List.map_replicate] at output
  rcases Nat.eq_zero_or_pos repeats with rfl | some_repeats
  · refine ⟨List.replicate (s.jane.chunks-1) 1,?_,?_,?_⟩
    · intro count member
      exact (List.eq_of_mem_replicate member).ge
    · intro k less
      rw [List.length_replicate] at less
      exact in_file k (by omega)
    · have counted := mapIdx_replicate (chunk u file) (s.jane.chunks-1) []
      rw [List.append_nil] at counted
      rw [output,counted]
      rfl
  · have some_read : 1 ≤ s.jane.chunks := by
      by_contra none_read
      have := delivery.none_read (by omega)
      omega
    refine ⟨List.replicate (s.jane.chunks-1) 1 ++ [repeats],?_,?_,?_⟩
    · intro count member
      rcases List.mem_append.mp member with front | last
      · exact (List.eq_of_mem_replicate front).ge
      · rw [List.mem_singleton.mp last]
        exact some_repeats
    · intro k less
      rw [List.length_append,List.length_replicate,List.length_singleton] at less
      exact in_file k (by omega)
    · rw [output,mapIdx_replicate]
      simp

section Run
variable (md5 : Bytes → Digest) (dataPtr : Int) (buffers u : Nat) (file segment : Bytes) (pattern : Option Bytes)
  (bufferRange : buffers ≤ 102399) (useRange : 1 ≤ u ∧ u ≤ buffers) (room : segment.length = (buffers+1)*1024)
include bufferRange useRange room

/-- With a `strcpy` that acts as a move, Thor has in every state what the invariant says. -/
theorem delivery_throughout (strcpy : StrCpy) (trace : List (State × Action)) (final : State)
    (run : Run (Step strcpy md5 Untampered) (.initial dataPtr buffers u file segment pattern) trace final)
    (moves : ∀ entry ∈ trace, CopiesMove strcpy entry.1 entry.2) :
    Throughout (fun s => ∃ repeats, Delivery md5 dataPtr buffers u file repeats s) trace final := by
  refine (run_copiesMove run moves).invariant _ (fun _ _ => True)
    ⟨0,initial_delivery md5 dataPtr buffers u file segment pattern room⟩ ?_ (fun _ _ => trivial)
  rintro s action t ⟨repeats,delivery⟩ _ ⟨honest,enabled,rfl⟩
  obtain ⟨repeats',next,_⟩ := delivery_step bufferRange useRange.1 useRange.2 delivery enabled honest
  exact ⟨repeats',next⟩

theorem delivery_clean (strcpy : StrCpy) (trace : List (State × Action)) (final : State)
    (run : Run (Step strcpy md5 Undisturbed) (.initial dataPtr buffers u file segment pattern) trace final)
    (moves : ∀ entry ∈ trace, CopiesMove strcpy entry.1 entry.2) :
    Throughout (fun s => (∃ repeats, Delivery md5 dataPtr buffers u file repeats s) ∧ s.jane.failed = false) trace final := by
  refine (run_copiesMove run moves).invariant _ (fun _ _ => True)
    ⟨⟨0,initial_delivery md5 dataPtr buffers u file segment pattern room⟩,rfl⟩ ?_ (fun _ _ => trivial)
  rintro s action t ⟨⟨repeats,delivery⟩,clean⟩ _ ⟨⟨honest,sound⟩,enabled,rfl⟩
  obtain ⟨repeats',next,flag⟩ := delivery_step bufferRange useRange.1 useRange.2 delivery enabled honest
  exact ⟨⟨repeats',next⟩,flag sound clean⟩

end Run

/-- Where every `strcpy` acts as a move, Thor has the chunks in the file's order in every state. -/
theorem chunks_in_order (strcpy : StrCpy) (md5 : Bytes → Digest) (dataPtr : Int) (buffers u : Nat) (file segment : Bytes)
    (pattern : Option Bytes) (bufferRange : 2 ≤ buffers ∧ buffers ≤ 102399) (useRange : 1 ≤ u ∧ u ≤ buffers)
    (room : segment.length = (buffers+1)*1024) (trace : List (State × Action)) (final : State)
    (run : Run (Step strcpy md5 Untampered) (.initial dataPtr buffers u file segment pattern) trace final)
    (moves : ∀ entry ∈ trace, CopiesMove strcpy entry.1 entry.2) :
    Throughout (fun s => InOrder u file s.thor.output) trace final :=
  (delivery_throughout md5 dataPtr buffers u file segment pattern bufferRange.2 useRange room strcpy trace final run
    moves).imp fun _ ⟨_,delivery⟩ => delivery.inOrder useRange.1

theorem chunks_in_order_twice : ∃ trace final,
    Run (Step memmove knownMd5 Untampered) (.initial 0 2 1 (ascii ['a','b','c']) (List.replicate 3072 0) none) trace final ∧
    final.thor.output = [ascii ['a','b','c'],ascii ['a','b','c']] ∧
    Throughout (fun s => InOrder 1 (ascii ['a','b','c']) s.thor.output) trace final := by
  have run := run_of_actions memmove knownMd5 Untampered
    (.initial 0 2 1 (ascii ['a','b','c']) (List.replicate 3072 0) none)
    [.clientSocketInit,.serverAccept,.nextBuffer,.clientSend,.serverRcv 61,.serverSend,.clientRcvFails,
      .clientSocketInit,.nextBuffer,.clientSend,.serverRcvFails,.serverAccept,.serverRcv 61,.serverSend]
    (by decide +kernel)
  exact ⟨_,_,run,by decide +kernel,chunks_in_order memmove knownMd5 0 2 1 (ascii ['a','b','c']) (List.replicate 3072 0)
    none (by decide) (by decide) List.length_replicate _ _ run (fun entry _ => memmove_copiesMove entry.1 entry.2)⟩

/-- A digest function under which the texts of one byte have a digest of zeros. -/
def zeroMd5 (s : Bytes) : Digest := if s.length = 1 then Vector.replicate 16 0 else knownMd5 s

/-- Copied by vectors, the first frame comes apart and the second does not: Thor rejects the first chunk,
Jane reads on, and he appends the second. -/
theorem chunks_out_of_order : CopiesApart vectorStrcpy ∧ ∃ trace final,
    Run (Step vectorStrcpy zeroMd5 Untampered)
      (.initial 0 2 1 (List.replicate 1024 (char 'a')) (List.replicate 3072 0) none) trace final ∧
    final.thor.output = [ascii ['a']] ∧ ¬ InOrder 1 (List.replicate 1024 (char 'a')) final.thor.output := by
  have run := run_of_actions vectorStrcpy zeroMd5 Untampered
    (.initial 0 2 1 (List.replicate 1024 (char 'a')) (List.replicate 3072 0) none)
    [.clientSocketInit,.serverAccept,.nextBuffer,.clientSend,.serverRcv 64,.serverSend,.clientRcv 62,
      .nextBuffer,.clientSend,.serverRcv 61,.serverSend] (by decide +kernel)
  have reached : ∃ trace final, Run (Step vectorStrcpy zeroMd5 Untampered)
      (.initial 0 2 1 (List.replicate 1024 (char 'a')) (List.replicate 3072 0) none) trace final ∧
      final.thor.output = [ascii ['a']] := ⟨_,_,run,by decide +kernel⟩
  obtain ⟨trace,final,run,output⟩ := reached
  refine ⟨vectorStrcpy_copiesApart,trace,final,run,output,fun order => ?_⟩
  rw [output] at order
  exact absurd (congrArg List.length order.front) (by decide +kernel)

/-- Thor has the first chunks of the file, once each, and all of it when Jane ends the transfer; neither
of them stops at an assertion. -/
structure Exact (u : Nat) (file : Bytes) (s : State) : Prop where
  chunks : s.thor.output.flatten = ((List.range s.thor.output.length).map (chunk u file)).flatten
  jane : ∀ fault, s.jane.place ≠ .aborted fault
  thor : s.thor.place ≠ .aborted .assert
  whole : s.jane.place = .finish ∨ s.jane.place = .finished → s.thor.output.flatten = file

theorem Delivery.exact {md5 : Bytes → Digest} {dataPtr : Int} {buffers u : Nat} {file : Bytes} {repeats : Nat} {s : State}
    (delivery : Delivery md5 dataPtr buffers u file repeats s) (clean : s.jane.failed = false) (positive : 1 ≤ u) :
    Exact u file s := by
  obtain ⟨few,ended⟩ := delivery.once clean
  have appended := delivery.appended_range few
  have output := delivery.output
  rw [appended] at output
  refine ⟨?_,delivery.inv.running,(fun stopped => nomatch delivery.fault _ stopped),fun done => ?_⟩
  · rw [output,List.length_map,List.length_range]
  · have all : s.jane.chunks-1+repeats = s.jane.chunks := by
      have := ended done
      omega
    have nothing_left := (delivery.inv.drained done).all_read
    rw [Jane.chunk_eq_nil u positive,List.drop_eq_nil_iff] at nothing_left
    rw [output,all,Jane.chunks_flatten,List.take_of_length_le nothing_left]

/-- Where nothing fails and every `strcpy` acts as a move, delivery is exact in every state. -/
theorem delivery_exact (strcpy : StrCpy) (md5 : Bytes → Digest) (dataPtr : Int) (buffers u : Nat) (file segment : Bytes)
    (pattern : Option Bytes) (bufferRange : 2 ≤ buffers ∧ buffers ≤ 102399) (useRange : 1 ≤ u ∧ u ≤ buffers)
    (room : segment.length = (buffers+1)*1024) (trace : List (State × Action)) (final : State)
    (run : Run (Step strcpy md5 Undisturbed) (.initial dataPtr buffers u file segment pattern) trace final)
    (moves : ∀ entry ∈ trace, CopiesMove strcpy entry.1 entry.2) : Throughout (Exact u file) trace final :=
  (delivery_clean md5 dataPtr buffers u file segment pattern bufferRange.2 useRange room strcpy trace final run moves).imp
    fun _ ⟨⟨_,delivery⟩,clean⟩ => delivery.exact clean useRange.1

theorem delivery_exact_finished : ∃ trace final,
    Run (Step memmove knownMd5 Undisturbed) (.initial 0 2 1 (ascii ['a','b','c']) (List.replicate 3072 0) none) trace final ∧
    final.jane.place = .finished ∧ Throughout (Exact 1 (ascii ['a','b','c'])) trace final := by
  have run := run_of_actions memmove knownMd5 Undisturbed
    (.initial 0 2 1 (ascii ['a','b','c']) (List.replicate 3072 0) none)
    [.clientSocketInit,.serverAccept,.nextBuffer,.clientSend,.serverRcv 10,.serverRcv 51,.serverSend,.clientRcv 61,
      .nextBuffer,.nextBuffer,.clientDone] (by decide +kernel)
  exact ⟨_,_,run,by decide +kernel,delivery_exact memmove knownMd5 0 2 1 (ascii ['a','b','c']) (List.replicate 3072 0)
    none (by decide) (by decide) List.length_replicate _ _ run (fun entry _ => memmove_copiesMove entry.1 entry.2)⟩

/-- Copied by vectors, the frame of the one chunk comes apart; Thor rejects it, and Jane ends the transfer. -/
theorem delivery_lost : CopiesApart vectorStrcpy ∧ ∃ trace final,
    Run (Step vectorStrcpy knownMd5 Undisturbed) (.initial 0 2 1 (ascii ['a','b','c']) (List.replicate 3072 0) none)
      trace final ∧
    final.jane.place = .finished ∧ final.thor.output = [] ∧ ¬ Exact 1 (ascii ['a','b','c']) final := by
  have run := run_of_actions vectorStrcpy knownMd5 Undisturbed
    (.initial 0 2 1 (ascii ['a','b','c']) (List.replicate 3072 0) none)
    [.clientSocketInit,.serverAccept,.nextBuffer,.clientSend,.serverRcv 61,.serverSend,.clientRcv 62,
      .nextBuffer,.nextBuffer,.clientDone] (by decide +kernel)
  have reached : ∃ trace final, Run (Step vectorStrcpy knownMd5 Undisturbed)
      (.initial 0 2 1 (ascii ['a','b','c']) (List.replicate 3072 0) none) trace final ∧
      final.jane.place = .finished ∧ final.thor.output = [] := ⟨_,_,run,by decide +kernel⟩
  obtain ⟨trace,final,run,finished,output⟩ := reached
  refine ⟨vectorStrcpy_copiesApart,trace,final,run,finished,output,fun exact => ?_⟩
  have whole := exact.whole (.inr finished)
  rw [output] at whole
  cases whole

end Spsc.Session
