import Spsc.Hash.Verification
import Spsc.Session.Delivery
import Spsc.Session.Stalled

/-! What Thor appends when Loki gets at the shared segment but not at the frames. Whatever Thor
still hears is about the last chunk that Jane read, so a block that he accepts cannot be told
from that chunk by its digest. -/
namespace Spsc.Session
open Imperative Hash Wire Allocator Segment Runs
open Spsc.Jane (chunk chunkSize)

/-- Calls may fail and the segment may be overwritten, and the frames arrive as they were sent. -/
def FramesKept : Action → Prop
  | .lokiFrame _ _ _ => False
  | _ => True

instance (action : Action) : Decidable (FramesKept action) := by
  unfold FramesKept
  split <;> infer_instance

section Invariant
variable (md5 : Bytes → Digest) (dataPtr : Int) (buffers u : Nat) (file : Bytes)

/-- Neither the length nor the digest tells the two texts apart. -/
def Alike (data bytes : Bytes) : Prop := data.length = bytes.length ∧ md5 data = md5 bytes

def About (s : State) (hearing : Hearing) : Prop :=
  (1 ≤ s.jane.chunks ∧ hearing.AtMost (current md5 u file s)) ∨ hearing.Ending

structure Genuine (s : State) : Prop where
  talk : Talk md5 dataPtr buffers u file s
  single : s.jane.failed = false → s.opened ≤ 1 ∧ (s.jane.place = .start → s.opened = 0)
  about : ∀ connection < s.opened, About md5 u file s (s.hearing connection)
  order : s.appended.Pairwise (· ≤ ·)
  read : ∀ k ∈ s.appended, k < s.jane.chunks
  output : List.Forall₂ (fun data k => Alike md5 data (chunk u file k)) s.thor.output s.appended

theorem initial_genuine (segment : Bytes) (pattern : Option Bytes) (room : segment.length = (buffers+1)*1024) :
    Genuine md5 dataPtr buffers u file (.initial dataPtr buffers u file segment pattern) where
  talk := initial_talk md5 dataPtr buffers u file segment pattern room
  single := fun _ => ⟨Nat.zero_le 1,fun _ => rfl⟩
  about := fun connection none_there => absurd none_there (Nat.not_lt_zero connection)
  order := .nil
  read := by simp [State.initial]
  output := .nil

end Invariant

/-- Whatever the segment holds, the bytes that Thor finds intact cannot be told from those of the frame. -/
theorem verify_alike (md5 : Bytes → Digest) (segment bytes : Bytes) (room : 1024+bytes.length ≤ segment.length)
    (short : bytes.length < 2^31) : ∃ data intact,
    Thor.verify md5 segment (Jane.payload md5 bytes) = .ok (data,intact) ∧ (intact = true → Alike md5 data bytes) := by
  have long := digestText_length md5 bytes
  have named : readBytes segment (1024 : Nat) bytes.length = .ok ((segment.drop 1024).take bytes.length) := by
    rw [readBytes,if_pos (by omega)]
    rfl
  have checked := Thor.verify_fields md5 segment _ (digestText md5 bytes) 1 1024 bytes.length (by decide) (by decide)
    short (List.ne_nil_of_length_pos (by omega)) (by omega) named
  refine ⟨_,_,checked,fun intact => ⟨?_,?_⟩⟩
  · rw [List.length_take,List.length_drop]
    omega
  · have same := of_decide_eq_true intact
    unfold digestText at same
    rw [hexText_digits,hexText_digits] at same
    exact Vector.toList_inj.mp (upperHex_injective _ _ same)

section Steps
variable {md5 : Bytes → Digest} {dataPtr : Int} {buffers u : Nat} {file : Bytes} {s t : State}

theorem Hearing.Idle.about {hearing : Hearing} (idle : hearing.Idle) : About md5 u file s hearing := by
  rcases idle with rfl | rfl
  · exact .inr (.inl rfl)
  · exact .inr (.inr ⟨[],rfl,List.nil_prefix⟩)

theorem About.moves {before after : Hearing} (high : u ≤ 102399) (about : About md5 u file s before)
    (moves : before.Moves after) : About md5 u file s after := by
  rcases about with ⟨some_read,atMost⟩ | ending
  · exact .inl ⟨some_read,atMost.moves (current_legible high s) moves⟩
  · exact .inr (ending.moves moves)

theorem About.same {hearing : Hearing} (chunks : t.jane.chunks = s.jane.chunks) (about : About md5 u file s hearing) :
    About md5 u file t hearing := by
  unfold About current at about ⊢
  rw [chunks]
  exact about

variable (genuine : Genuine md5 dataPtr buffers u file s)
include genuine

/-- A call that appends nothing and does not read from the file. -/
theorem Genuine.keeps (talk : Talk md5 dataPtr buffers u file t) (chunks : t.jane.chunks = s.jane.chunks)
    (appended : t.appended = s.appended) (output : t.thor.output = s.thor.output)
    (single : t.jane.failed = false → t.opened ≤ 1 ∧ (t.jane.place = .start → t.opened = 0))
    (about : ∀ connection < t.opened, About md5 u file s (t.hearing connection)) :
    Genuine md5 dataPtr buffers u file t where
  talk := talk
  single := single
  about := fun connection inside => (about connection inside).same chunks
  order := by rw [appended]; exact genuine.order
  read := by rw [appended,chunks]; exact genuine.read
  output := by rw [appended,output]; exact genuine.output

theorem Genuine.setJane (line : Connection) (jane : Jane.Client) (answer : Option Bool)
    (talk : Talk md5 dataPtr buffers u file (s.setJane line jane answer)) (chunks : jane.chunks = s.jane.chunks)
    (single : jane.failed = false → s.jane.failed = false ∧ jane.place ≠ .start)
    (own : About md5 u file s ((s.setJane line jane answer).hearing (s.opened-1))) :
    Genuine md5 dataPtr buffers u file (s.setJane line jane answer) := by
  refine genuine.keeps talk chunks rfl rfl (fun clean => ?_) (fun connection inside => ?_)
  · obtain ⟨clean,going⟩ := single clean
    exact ⟨(genuine.single clean).1,fun start => absurd start going⟩
  · by_cases last : connection = s.opened-1
    · exact last ▸ own
    · rw [setJane_elsewhere s line jane answer connection last]
      exact genuine.about connection inside

theorem Genuine.quiet (high : u ≤ 102399) (talk : Talk md5 dataPtr buffers u file t) (moved : Quiet s t) :
    Genuine md5 dataPtr buffers u file t := by
  refine genuine.keeps talk (by rw [moved.jane]) moved.appended moved.output ?_ (fun connection inside => ?_)
  · rw [moved.jane,moved.opened]
    exact genuine.single
  · rw [moved.opened] at inside
    exact (genuine.about connection inside).moves high (moved.hearing connection)

theorem Genuine.connect (talk : Talk md5 dataPtr buffers u file s.connect) (here : s.jane.place = .start) :
    Genuine md5 dataPtr buffers u file s.connect := by
  refine genuine.keeps talk rfl rfl rfl (fun clean => ?_) (fun connection inside => ?_)
  · have none_open := (genuine.single clean).2 here
    exact ⟨Nat.succ_le_succ none_open.le,fun start => nomatch start⟩
  · by_cases last : connection = s.opened
    · subst last
      exact (connect_clear s genuine.talk.base).idle.about
    · rw [connect_hearing s connection last]
      have inside : connection < s.opened+1 := inside
      exact genuine.about connection (by omega)

/-- Before Jane reads another chunk, nothing is left of the last one on her only connection. -/
theorem Genuine.prepare (top : (buffers : Int) ≤ INT_MAX) (positive : 1 ≤ u) (fits : u ≤ buffers)
    (here : s.jane.place = .loop) : Genuine md5 dataPtr buffers u file (s.prepare md5) := by
  have talk := (genuine.talk.prepare top positive fits here).1
  have place := genuine.talk.place
  rw [here] at place
  have clear : Clear s := place
  obtain ⟨jane,segment,ran,_,led⟩ := genuine.talk.inv.nextBuffer top positive fits
  unfold State.prepare at talk ⊢
  rw [ran] at talk ⊢
  simp only at talk ⊢
  generalize (if jane.chunks = s.jane.chunks then s.answer else none) = answer at talk ⊢
  have hearing : ∀ connection, State.hearing { s with jane := jane, segment := segment, answer := answer } connection =
      s.hearing connection := fun connection => State.hearing_congr s _ connection rfl rfl rfl
  have stays : ∀ (chunks : jane.chunks = s.jane.chunks), (jane.failed = false → s.jane.failed = false) →
      jane.place ≠ .start →
      Genuine md5 dataPtr buffers u file { s with jane := jane, segment := segment, answer := answer } := by
    intro chunks clean going
    refine genuine.keeps talk chunks rfl rfl (fun flag => ?_) (fun connection inside => ?_)
    · exact ⟨(genuine.single (clean flag)).1,fun start => absurd start going⟩
    · rw [hearing]
      exact genuine.about connection inside
  cases led with
  | retry => exact stays rfl id (by simp)
  | drained _ clean _ next count => exact stays count (fun _ => clean) (by simp [next])
  | finish => exact stays rfl id (by simp)
  | read _ _ clean _ _ next _ count =>
    have one := (genuine.single clean).1
    exact
      { talk := talk
        single := fun _ => ⟨one,fun start => by cases next.symm.trans start⟩
        about := by
          intro connection inside
          have inside : connection < s.opened := inside
          rw [hearing,show connection = s.opened-1 by omega]
          exact clear.idle.about
        order := genuine.order
        read := by
          intro k member
          have before := genuine.read k member
          change k < jane.chunks
          omega
        output := genuine.output }

/-- The calls of Jane other than those that open a connection or renew her buffer. -/
theorem Genuine.jane (action : Action) (talk : Talk md5 dataPtr buffers u file (s.next memmove md5 action))
    (enabled : s.Enabled action) (mine : action.isThor = false) (honest : action.isLoki = false)
    (later : action ≠ .clientSocketInit ∧ action ≠ .nextBuffer) :
    Genuine md5 dataPtr buffers u file (s.next memmove md5 action) := by
  have place := genuine.talk.place
  cases action with
  | clientSend =>
    rw [show s.jane.place = .send from enabled] at place
    have clear : Clear s := place
    have loaded := genuine.talk.inv.loaded_of_send enabled
    have sent : s.next memmove md5 .clientSend = s.setJane _ _ s.answer :=
      clientSend_eq s id (fun jane => { jane with place := .receive .start }) _ loaded.frame_eq
    rw [sent] at talk ⊢
    refine genuine.setJane _ _ _ talk rfl (fun clean => ⟨clean,by simp⟩) (.inl ⟨loaded.some_read,?_⟩)
    rw [setJane_hearing s _ _ _ _ rfl]
    exact clear.idle.asks.atMost
  | clientSendFails count =>
    rw [show s.jane.place = .send from enabled] at place
    have clear : Clear s := place
    have loaded := genuine.talk.inv.loaded_of_send enabled
    have sent : s.next memmove md5 (.clientSendFails count) = s.setJane _ _ s.answer :=
      clientSend_eq s (fun bytes => bytes.take count) Jane.gotoStart _ loaded.frame_eq
    rw [sent] at talk ⊢
    refine genuine.setJane _ _ _ talk rfl (fun clean => nomatch clean) (.inl ⟨loaded.some_read,?_⟩)
    rw [setJane_hearing s _ _ _ _ rfl]
    exact clear.idle.part _ (List.take_prefix _ _)
  | clientRcv count =>
    obtain ⟨toJane,place,answer,going,ran⟩ := genuine.talk.clientRcv count enabled
    rw [ran] at talk ⊢
    refine genuine.keeps talk rfl rfl rfl (fun clean => ?_) (fun connection inside => ?_)
    · exact ⟨(genuine.single clean).1,fun start => absurd start going⟩
    · rw [setJane_same s { s.line with toJane := toJane } _ _ rfl]
      exact genuine.about connection inside
  | clientRcvFails => exact genuine.keeps talk rfl rfl rfl (fun clean => nomatch clean) genuine.about
  | clientDone =>
    rw [show s.jane.place = .finish from enabled] at place
    have clear : Clear s := place
    refine genuine.setJane _ _ s.answer talk rfl (fun clean => ⟨clean,by simp⟩) (.inr ?_)
    rw [setJane_hearing s _ _ _ _ rfl]
    exact clear.idle.ending
  | clientSocketInit => exact absurd rfl later.1
  | nextBuffer => exact absurd rfl later.2
  | lokiFrame => cases honest
  | lokiBuffer => cases honest
  | _ => cases mine

/-- A payload that Thor handles is Jane's last one. -/
theorem Genuine.handled (payload : Bytes) (handling : s.thor.place = .handle payload) :
    payload = current md5 u file s ∧ s.heard.toThor = [] ∧ 1 ≤ s.jane.chunks := by
  have some_accepted := genuine.talk.base.some_accepted (by simp [handling])
  have order := genuine.talk.base.order
  have about := genuine.about (s.accepted-1) (by omega)
  rw [s.hearing_handle (s.accepted-1) payload (by omega) handling] at about
  rcases about with ⟨some_read,atMost⟩ | ending
  · obtain ⟨same,none_left⟩ := (Hearing.atMost_handles _ _).mp atMost
    exact ⟨same,none_left,some_read⟩
  · exact absurd ending (Hearing.not_ending_handles _ _)

theorem Genuine.replied (payload data : Bytes) (intact : Bool) (handling : s.thor.place = .handle payload)
    (talk : Talk md5 dataPtr buffers u file t) (answer : Replied s t payload data intact)
    (alike : intact = true → Alike md5 data (chunk u file (s.jane.chunks-1))) : Genuine md5 dataPtr buffers u file t := by
  obtain ⟨_,none_left,some_read⟩ := genuine.handled payload handling
  have still : t.jane.chunks = s.jane.chunks := by rw [answer.jane]
  have about : ∀ connection < t.opened, About md5 u file s (t.hearing connection) := by
    intro connection inside
    rw [answer.opened] at inside
    by_cases own : connection = s.accepted-1
    · subst own
      rcases answer.hearing with passed | hears
      · exact Hearing.Idle.about (.inl passed)
      · rw [none_left] at hears
        exact Hearing.Idle.about (.inr hears)
    · rw [answer.elsewhere connection own]
      exact genuine.about connection inside
  have single : t.jane.failed = false → t.opened ≤ 1 ∧ (t.jane.place = .start → t.opened = 0) := by
    rw [answer.jane,answer.opened]
    exact genuine.single
  have appended := answer.appended
  have output := answer.output
  cases intact with
  | false =>
    rw [if_neg (by simp)] at appended output
    exact genuine.keeps talk still appended output single about
  | true =>
    rw [if_pos rfl] at appended output
    exact
      { talk := talk
        single := single
        about := fun connection inside => (about connection inside).same still
        order := by
          rw [appended,List.pairwise_append]
          refine ⟨genuine.order,List.pairwise_singleton _ _,fun k member last same => ?_⟩
          have before := genuine.read k member
          rw [List.mem_singleton.mp same]
          omega
        read := by
          rw [appended,still]
          intro k member
          rcases List.mem_append.mp member with old | new
          · exact genuine.read k old
          · rw [List.mem_singleton.mp new]
            omega
        output := by
          rw [appended,output]
          exact List.rel_append genuine.output (.cons (alike rfl) .nil) }

theorem Genuine.answers (high : buffers ≤ 102399) (fits : u ≤ buffers) (payload : Bytes)
    (handling : s.thor.place = .handle payload) (kept : Bytes → Bytes) (after : Thor.Place)
    (part : ∀ bytes, kept bytes <+: bytes) (next : after = .accept ∨ after = .receive .start)
    (talk : Talk md5 dataPtr buffers u file (s.serverSend md5 payload kept after)) :
    Genuine md5 dataPtr buffers u file (s.serverSend md5 payload kept after) := by
  obtain ⟨rfl,_,_⟩ := genuine.handled payload handling
  have short := Jane.chunk_length_le u file (s.jane.chunks-1)
  have room := genuine.talk.inv.common.room
  unfold chunkSize BIG_ENOUGH at short
  obtain ⟨data,intact,checked,alike⟩ := verify_alike md5 s.segment (chunk u file (s.jane.chunks-1)) (by omega) (by omega)
  obtain ⟨answer,_⟩ := serverSend_replied genuine.talk.base handling md5 kept after data intact part next checked
  exact genuine.replied _ data intact handling talk answer alike

theorem genuine_step (high : buffers ≤ 102399) (positive : 1 ≤ u) (fits : u ≤ buffers) (action : Action)
    (enabled : s.Enabled action) (kept : FramesKept action) :
    Genuine md5 dataPtr buffers u file (s.next memmove md5 action) := by
  have low : u ≤ 102399 := fits.trans high
  have top : (buffers : Int) ≤ INT_MAX := by
    unfold INT_MAX
    omega
  have talk := talk_step genuine.talk high positive fits enabled
  cases action with
  | clientSocketInit => exact genuine.connect talk enabled
  | nextBuffer => exact genuine.prepare top positive fits enabled
  | serverAccept => exact genuine.quiet low talk (serverAccept_quiet s enabled.1 enabled.2)
  | serverRcv count =>
    obtain ⟨⟨receiver,here⟩,_,_⟩ := enabled
    obtain ⟨stored,rfl⟩ := genuine.talk.base.tidy receiver here
    rw [s.next_serverRcv memmove md5 _ count here] at talk ⊢
    exact genuine.quiet low talk (serverRcv_quiet genuine.talk.base stored count here)
  | serverRcvEnd =>
    obtain ⟨⟨receiver,here⟩,_,_⟩ := enabled
    exact genuine.quiet low talk (serverLeave_quiet genuine.talk.base (by simp [here]))
  | serverRcvFails =>
    obtain ⟨receiver,here⟩ := enabled
    exact genuine.quiet low talk (serverLeave_quiet genuine.talk.base (by simp [here]))
  | serverSend =>
    obtain ⟨payload,here⟩ := enabled
    rw [s.next_serverSend memmove md5 payload here] at talk ⊢
    exact genuine.answers high fits payload here id _ (fun _ => List.prefix_rfl) (.inr rfl) talk
  | serverSendFails count =>
    obtain ⟨payload,here⟩ := enabled
    rw [s.next_serverSendFails memmove md5 payload count here] at talk ⊢
    exact genuine.answers high fits payload here _ _ (fun bytes => List.take_prefix count bytes) (.inl rfl) talk
  | lokiBuffer segment =>
    refine genuine.keeps talk rfl rfl rfl genuine.single (fun connection inside => ?_)
    rw [show (s.next memmove md5 (.lokiBuffer segment)).hearing connection = s.hearing connection from
      State.hearing_congr s _ connection rfl rfl rfl]
    exact genuine.about connection inside
  | lokiFrame => exact kept.elim
  | _ => exact genuine.jane _ talk enabled rfl rfl (by simp)

end Steps

/-- However Loki writes to the segment between two calls and whatever calls fail, every block that Thor appends has
the length and the digest of a chunk of the file, and the chunks come in the file's order. -/
theorem appended_genuine (md5 : Bytes → Digest) (dataPtr : Int) (buffers u : Nat) (file segment : Bytes)
    (pattern : Option Bytes) (bufferRange : 2 ≤ buffers ∧ buffers ≤ 102399) (useRange : 1 ≤ u ∧ u ≤ buffers)
    (room : segment.length = (buffers+1)*1024) (final : State)
    (reached : Reachable (Step memmove md5 FramesKept) (.initial dataPtr buffers u file segment pattern) final) :
    ∃ numbers : List Nat, numbers.Pairwise (· ≤ ·) ∧ (∀ k ∈ numbers, k < final.jane.chunks) ∧
      List.Forall₂ (fun data k => data.length = (chunk u file k).length ∧ md5 data = md5 (chunk u file k))
        final.thor.output numbers := by
  have genuine := reached.invariant (Genuine md5 dataPtr buffers u file)
    (initial_genuine md5 dataPtr buffers u file segment pattern room) (by
      rintro s action t genuine ⟨kept,enabled,rfl⟩
      exact genuine_step genuine bufferRange.2 useRange.1 useRange.2 action enabled kept)
  exact ⟨final.appended,genuine.order,genuine.read,genuine.output⟩

/-- Loki overwrites the first chunk, Thor rejects it, and the second is appended. -/
theorem appended_genuine_second : ∃ (final : State) (numbers : List Nat), final.jane.chunks = 2 ∧
    final.thor.output = [ascii ['a']] ∧ List.Forall₂ (fun data k =>
      data.length = (chunk 1 (List.replicate 1024 (char 'a')) k).length ∧
        knownMd5 data = knownMd5 (chunk 1 (List.replicate 1024 (char 'a')) k)) final.thor.output numbers := by
  have run := run_of_actions memmove knownMd5 FramesKept
    (.initial 0 2 1 (List.replicate 1024 (char 'a')) (List.replicate 3072 0) none)
    [.clientSocketInit,.serverAccept,.nextBuffer,.clientSend,.lokiBuffer (List.replicate 3072 0),.serverRcv 64,
      .serverSend,.clientRcv 62,.nextBuffer,.clientSend,.serverRcv 61,.serverSend] (by decide +kernel)
  obtain ⟨numbers,_,_,output⟩ := appended_genuine knownMd5 0 2 1 (List.replicate 1024 (char 'a')) (List.replicate 3072 0)
    none (by decide) (by decide) List.length_replicate _ ⟨_,run⟩
  exact ⟨_,numbers,by decide +kernel,by decide +kernel,output⟩

end Spsc.Session
