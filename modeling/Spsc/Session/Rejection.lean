import Spsc.Session.Tampered

/-! When Jane goes on to another chunk after a rejection. Thor's message never sets
her flag, and only a set flag keeps her from reading. -/
namespace Spsc.Session
open Imperative Hash Wire Allocator Segment Runs
open Spsc.Jane (chunk)

/-- Jane reads on only with an acceptance of her last chunk. -/
def Informed (s : State) : Prop := AboutToRead s → s.answer = some true

instance (s : State) : Decidable (Informed s) := inferInstanceAs (Decidable (_ → _))

def State.taken (s : State) : Action → Option (C Received)
  | .clientRcv count =>
    match s.jane.place with
    | .receive receiver => some (s.received memmove receiver count)
    | _ => none
  | _ => none

/-- With this `recv`, `client_socket_rcv` returns the rejection. -/
def TakesRejection (s : State) (action : Action) : Prop := s.taken action = some (.ok (.frame Thor.REJECTION))

instance (s : State) (action : Action) : Decidable (TakesRejection s action) := inferInstanceAs (Decidable (_ = _))

section Steps
variable {md5 : Bytes → Digest} {dataPtr : Int} {buffers u : Nat} {file : Bytes} {s : State} {action : Action}

theorem rcv_step (talk : Talk md5 dataPtr buffers u file s) (count : Nat)
    (enabled : s.Enabled (.clientRcv count)) :
    Talk md5 dataPtr buffers u file (s.next memmove md5 (.clientRcv count)) ∧
      (Informed (s.next memmove md5 (.clientRcv count)) ↔
        (TakesRejection s (.clientRcv count) → s.jane.failed = true)) := by
  obtain ⟨⟨receiver,here⟩,some_count,inside⟩ := enabled
  have loaded := talk.inv.loaded_of_receive receiver here
  have some_bytes : s.line.toJane ≠ [] := List.ne_nil_of_length_pos (by omega)
  have place := talk.place
  have taken : s.taken (.clientRcv count) = some (s.received memmove receiver count) := by simp only [State.taken,here]
  unfold TakesRejection
  rw [s.next_clientRcv memmove md5 receiver count here,taken]
  rw [here] at place
  rcases place with awaiting | answered
  · exact absurd awaiting.toJane some_bytes
  obtain ⟨⟨stored,text,rest,verdict,rfl,cut,told,recorded⟩,idle⟩ := answered
  rcases clientRcv_answered s stored text rest _ count some_count some_bytes told.framable cut loaded.digest with
    ⟨piece,left,cut',received,ran⟩ | ⟨received,ran⟩
  · rw [ran,received]
    refine ⟨setJane_talk talk _ _ _ (talk.inv.receive loaded _)
      (.inr ⟨⟨stored ++ piece,text,rest,verdict,rfl,?_,told,?_⟩,setJane_idle s _ _ left idle⟩),
      fun _ again => (nomatch again),fun _ reads => (nomatch reads.1)⟩
    · rw [setJane_line]
      exact cut'
    · rw [setJane_line]
      exact recorded
  · have other := told.not_digest _ (digestText_isHex md5 (chunk u file (s.jane.chunks-1)))
    rw [ran,received,if_neg other]
    refine ⟨setJane_talk talk _ _ _ (talk.inv.loop loaded s.jane.failed)
      ⟨by rw [setJane_line],setJane_idle s _ _ [] idle⟩,?_⟩
    have reads : AboutToRead (s.setJane { s.line with toJane := [] }
        { s.jane with place := .loop, failed := s.jane.failed } s.line.verdicts.getLast?) ↔ s.jane.failed = false :=
      ⟨fun reads => reads.2.2.1,fun clean => ⟨rfl,loaded.reading,clean,loaded.some_read⟩⟩
    unfold Informed
    rw [reads]
    change (s.jane.failed = false → s.line.verdicts.getLast? = some true) ↔ _
    rw [recorded]
    cases verdict with
    | true =>
      have accepted := (show Asked text from told).not_rejection
      exact ⟨fun _ same => absurd (Received.frame.inj (Except.ok.inj (Option.some.inj same))) accepted,
        fun _ _ => rfl⟩
    | false =>
      obtain rfl : text = Thor.REJECTION := told
      refine ⟨fun informed _ => ?_,fun held clean => ?_⟩
      · by_contra clean
        cases informed (Bool.eq_false_iff.mpr clean)
      · rw [held rfl] at clean
        cases clean

theorem silent_step (talk : Talk md5 dataPtr buffers u file s) (high : buffers ≤ 102399) (positive : 1 ≤ u)
    (fits : u ≤ buffers) (enabled : s.Enabled action) (silent : ∀ count, action ≠ .clientRcv count) :
    Talk md5 dataPtr buffers u file (s.next memmove md5 action) ∧
      (AboutToRead (s.next memmove md5 action) → AboutToRead s ∧ (s.next memmove md5 action).answer = s.answer) := by
  have top : (buffers : Int) ≤ INT_MAX := by
    unfold INT_MAX
    omega
  cases action with
  | clientRcv count => exact absurd rfl (silent count)
  | clientSocketInit => exact (talk.connect enabled).imp_right (fun not_yet reads => absurd reads not_yet)
  | nextBuffer => exact (talk.prepare top positive fits enabled).imp_right (fun not_yet reads => absurd reads not_yet)
  | clientSend =>
    exact (talk.clientSend (fits.trans high) enabled).imp_right (fun not_yet reads => absurd reads not_yet)
  | clientSendFails count =>
    exact (talk.clientSendFails count enabled).imp_right (fun not_yet reads => absurd reads not_yet)
  | clientRcvFails =>
    obtain ⟨receiver,here⟩ := enabled
    exact (talk.clientRcvFails receiver here).imp_right (fun not_yet reads => absurd reads not_yet)
  | clientDone => exact (talk.clientDone enabled).imp_right (fun not_yet reads => absurd reads not_yet)
  | serverAccept => exact talk.quiet (serverAccept_quiet s enabled.1 enabled.2)
  | serverRcv count =>
    obtain ⟨⟨receiver,here⟩,_,_⟩ := enabled
    obtain ⟨stored,rfl⟩ := talk.base.tidy receiver here
    rw [s.next_serverRcv memmove md5 _ count here]
    exact talk.quiet (serverRcv_quiet talk.base stored count here)
  | serverRcvEnd =>
    obtain ⟨⟨receiver,here⟩,_,_⟩ := enabled
    exact talk.quiet (serverLeave_quiet talk.base (by simp [here]))
  | serverRcvFails =>
    obtain ⟨receiver,here⟩ := enabled
    exact talk.quiet (serverLeave_quiet talk.base (by simp [here]))
  | serverSend =>
    obtain ⟨payload,here⟩ := enabled
    rw [s.next_serverSend memmove md5 payload here]
    exact talk.serverSend payload here id _ (fun _ => List.prefix_rfl) (.inr rfl)
  | serverSendFails count =>
    obtain ⟨payload,here⟩ := enabled
    rw [s.next_serverSendFails memmove md5 payload count here]
    exact talk.serverSend payload here _ _ (fun bytes => List.take_prefix count bytes) (.inl rfl)
  | lokiFrame connection sent forged =>
    exact talk.others ⟨talk.base.order,talk.base.some_accepted,talk.base.tidy⟩ rfl rfl rfl (talk.place.loki enabled)
  | lokiBuffer segment =>
    exact talk.others (t := { s with segment := segment }) ⟨talk.base.order,talk.base.some_accepted,talk.base.tidy⟩
      rfl rfl enabled (TalkAt.same (s := s) rfl (State.hearing_congr s _ _ rfl rfl rfl) talk.place)

end Steps

/-- Jane goes on only with an acceptance exactly when every rejection that she
takes finds her flag set by an earlier failure. -/
theorem reads_informed (md5 : Bytes → Digest) (dataPtr : Int) (buffers u : Nat) (file segment : Bytes)
    (pattern : Option Bytes) (bufferRange : 2 ≤ buffers ∧ buffers ≤ 102399) (useRange : 1 ≤ u ∧ u ≤ buffers)
    (room : segment.length = (buffers+1)*1024) (trace : List (State × Action)) (final : State)
    (run : Run (Step memmove md5 (fun _ => True)) (.initial dataPtr buffers u file segment pattern) trace final) :
    Throughout Informed trace final ↔
      ∀ entry ∈ trace, TakesRejection entry.1 entry.2 → entry.1.jane.failed = true := by
  have step : ∀ s action t, Talk md5 dataPtr buffers u file s → Step memmove md5 (fun _ => True) s action t →
      Talk md5 dataPtr buffers u file t ∧
        (Informed s → (Informed t ↔ (TakesRejection s action → s.jane.failed = true))) := by
    rintro s action t talk ⟨_,enabled,rfl⟩
    by_cases ends : ∃ count, action = .clientRcv count
    · obtain ⟨count,rfl⟩ := ends
      exact (rcv_step talk count enabled).imp_right (fun exact _ => exact)
    · obtain ⟨next,stays⟩ := silent_step talk bufferRange.2 useRange.1 useRange.2 enabled
        (fun count same => ends ⟨count,same⟩)
      refine ⟨next,fun informed => ⟨fun _ takes => ?_,fun _ reads => ?_⟩⟩
      · cases action with
        | clientRcv count => exact absurd ⟨count,rfl⟩ ends
        | _ => cases takes
      · obtain ⟨before,same⟩ := stays reads
        rw [same]
        exact informed before
  exact run.exact Informed (Talk md5 dataPtr buffers u file)
    (fun s action => TakesRejection s action → s.jane.failed = true)
    ⟨fun reads => (nomatch reads.1),initial_talk md5 dataPtr buffers u file segment pattern room⟩
    (fun s action t informed talk taken => (step s action t talk taken).2 informed)
    (fun s action t _ talk taken _ => (step s action t talk taken).1)

theorem reads_informed_retry : ∃ final : State,
    (final.jane.place = .send ∧ final.jane.chunks = 1 ∧ final.answer = some false) ∧ Informed final := by
  have run := run_of_actions memmove knownMd5 (fun _ => True)
    (.initial 0 2 1 (ascii ['a','b','c']) (List.replicate 3072 0) none)
    [.clientSocketInit,.nextBuffer,.clientSendFails 20,.clientSocketInit,.serverAccept,.serverRcvFails,.serverAccept,
      .nextBuffer,.clientSend,.lokiFrame 1 ⟨1024,3,digestText knownMd5 (ascii ['a','b','c'])⟩
        ⟨1024,3,digestText knownMd5 (ascii ['a'])⟩,.serverRcv 61,.serverSend,.clientRcv 62,.nextBuffer]
    (by decide +kernel)
  have informed := (reads_informed knownMd5 0 2 1 (ascii ['a','b','c']) (List.replicate 3072 0) none (by decide)
    (by decide) List.length_replicate _ _ run).mpr (by decide +kernel)
  exact ⟨_,by decide +kernel,informed.2⟩

/-- The first chunk is rejected, and Jane's next call reads the second. -/
theorem reads_rejected : ∃ final : State, Reachable (Step memmove knownMd5 (fun _ => True))
      (.initial 0 2 1 (List.replicate 1024 (char 'a')) (List.replicate 3072 0) none) final ∧
    final.answer = some false ∧ ¬ Informed final ∧
    final.Enabled .nextBuffer ∧ (final.next memmove knownMd5 .nextBuffer).jane.chunks = final.jane.chunks+1 := by
  have run := run_of_actions memmove knownMd5 (fun _ => True)
    (.initial 0 2 1 (List.replicate 1024 (char 'a')) (List.replicate 3072 0) none)
    [.clientSocketInit,.serverAccept,.nextBuffer,.clientSend,
      .lokiFrame 0 ⟨1024,1023,digestText knownMd5 (List.replicate 1023 (char 'a'))⟩
        ⟨1024,1023,digestText knownMd5 (ascii ['a'])⟩,.serverRcv 64,.serverSend,.clientRcv 62]
    (by decide +kernel)
  exact ⟨_,⟨_,run⟩,by decide +kernel⟩

end Spsc.Session
