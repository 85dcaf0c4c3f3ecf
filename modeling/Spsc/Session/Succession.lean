import Spsc.Session.Completion
import Spsc.Thor.OutputFile

/-! One Thor and one producer after another. He keeps the output and the search context
between them, so what he does for the later ones is told by what a Thor who has just started
and does not search does for them. -/
namespace Spsc.Session
open Imperative Hash Wire Segment Runs
open Spsc.Thor (Server Searched OutputFile printed report search serverFlushTransaction flushes)
open Spsc.Substring (MAX_OCCURANCE location)

/-- The session as if Thor had only just started, and without a pattern. -/
def State.fresh (s : State) (old : Nat) : State :=
  { s with thor := { s.thor with output := s.thor.output.drop old, substringContext := none } }

theorem search_found (thor next : Server) (data : Bytes) (found : search thor data = .ok next) :
    ∃ context, next = { thor with substringContext := context } := by
  unfold search at found
  split at found
  · obtain rfl := Except.ok.inj found
    exact ⟨thor.substringContext,rfl⟩
  · obtain ⟨ss,_,rest⟩ := bind_ok _ _ _ found
    obtain rfl := Except.ok.inj rest
    exact ⟨some ss,rfl⟩

section Fresh
variable {md5 : Bytes → Digest} {pattern : Option Bytes} {old : Nat} {s : State}

theorem fresh_send (payload : Bytes) (kept : Bytes → Bytes) (after : Thor.Place) (here : s.thor.place = .handle payload)
    (searched : Searched pattern s.thor) (some_pattern : ∀ text, pattern = some text → text ≠ [])
    (before : old ≤ s.thor.output.length) :
    (s.fresh old).serverSend md5 payload kept after = (s.serverSend md5 payload kept after).fresh old := by
  unfold State.serverSend
  have same : Thor.verify md5 (s.fresh old).segment payload = Thor.verify md5 s.segment payload := rfl
  rw [same]
  cases checked : Thor.verify md5 s.segment payload with
  | error fault => rfl
  | ok found =>
    obtain ⟨data,intact⟩ := found
    have checked' : Thor.verify md5 (s.fresh old).segment payload = .ok (data,intact) := checked
    simp only [Thor.serverSocketSend,checked,checked']
    cases intact with
    | false =>
      simp only [Bool.false_eq_true,if_false]
      cases Thor.reply Thor.REJECTION with
      | error fault => rfl
      | ok sent => rfl
    | true =>
      obtain ⟨next,found,_⟩ := searched.runs some_pattern (by simp [here]) data
      obtain ⟨context,rfl⟩ := search_found _ _ _ found
      have appended : (s.thor.output ++ [data]).drop old = s.thor.output.drop old ++ [data] :=
        List.drop_append_of_le_length before
      have none : search (serverFlushTransaction (s.fresh old).thor data) data =
          .ok (serverFlushTransaction (s.fresh old).thor data) := rfl
      simp only [if_true,found,none]
      cases Thor.reply payload with
      | error fault => simp only [State.abortThor,State.fresh,serverFlushTransaction,appended]; rfl
      | ok sent => simp only [State.fresh,serverFlushTransaction,appended]; rfl

theorem fresh_enabled (s : State) (old : Nat) (action : Action) : (s.fresh old).Enabled action ↔ s.Enabled action := by
  cases action <;> exact Iff.rfl

theorem fresh_next (action : Action) (enabled : s.Enabled action) (searched : Searched pattern s.thor)
    (some_pattern : ∀ text, pattern = some text → text ≠ []) (before : old ≤ s.thor.output.length) :
    (s.fresh old).next memmove md5 action = (s.next memmove md5 action).fresh old := by
  have sends : ∀ kept after, (s.fresh old).clientSend kept after = (s.clientSend kept after).fresh old := by
    intro kept after
    unfold State.clientSend
    have same : Jane.frame (s.fresh old).jane = Jane.frame s.jane := rfl
    rw [same]
    split <;> rfl
  cases action with
  | clientSocketInit => rfl
  | nextBuffer =>
    change (s.fresh old).prepare md5 = (s.prepare md5).fresh old
    unfold State.prepare
    have same : Jane.nextBuffer md5 (s.fresh old).jane (s.fresh old).segment = Jane.nextBuffer md5 s.jane s.segment := rfl
    rw [same]
    split <;> rfl
  | clientSend => exact sends id (fun jane => { jane with place := .receive .start })
  | clientSendFails count => exact sends (fun bytes => bytes.take count) Jane.gotoStart
  | clientRcv count =>
    obtain ⟨⟨receiver,here⟩,_⟩ := enabled
    rw [s.next_clientRcv memmove md5 receiver count here,(s.fresh old).next_clientRcv memmove md5 receiver count here]
    unfold State.clientRcv
    simp only
    have same : Jane.receivePiece memmove (s.fresh old).jane receiver
          ((s.fresh old).line.toJane.take (min count receiver.maxlen)) =
        Jane.receivePiece memmove s.jane receiver (s.line.toJane.take (min count receiver.maxlen)) := rfl
    rw [same]
    split <;> rfl
  | clientRcvFails => rfl
  | clientDone => rfl
  | serverAccept => rfl
  | serverRcv count =>
    obtain ⟨⟨receiver,here⟩,_⟩ := enabled
    rw [s.next_serverRcv memmove md5 receiver count here,(s.fresh old).next_serverRcv memmove md5 receiver count here]
    unfold State.serverRcv Thor.receivePiece
    simp only
    have same : (s.fresh old).heard = s.heard := rfl
    rw [same]
    cases serverSocketRcv memmove receiver (s.heard.toThor.take (min count receiver.maxlen)) with
    | error fault => rfl
    | ok received => cases received <;> rfl
  | serverRcvEnd => rfl
  | serverRcvFails => rfl
  | serverSend =>
    obtain ⟨payload,here⟩ := enabled
    rw [s.next_serverSend memmove md5 payload here,(s.fresh old).next_serverSend memmove md5 payload here]
    exact fresh_send payload _ _ here searched some_pattern before
  | serverSendFails count =>
    obtain ⟨payload,here⟩ := enabled
    rw [s.next_serverSendFails memmove md5 payload count here,(s.fresh old).next_serverSendFails memmove md5 payload count here]
    exact fresh_send payload _ _ here searched some_pattern before
  | lokiFrame => rfl
  | lokiBuffer => rfl

theorem fresh_step {allowed : Action → Prop} {action : Action} {t : State} (taken : Step memmove md5 allowed s action t)
    (searched : Searched pattern s.thor) (some_pattern : ∀ text, pattern = some text → text ≠ [])
    (before : old ≤ s.thor.output.length) : Step memmove md5 allowed (s.fresh old) action (t.fresh old) := by
  obtain ⟨may,enabled,rfl⟩ := taken
  exact ⟨may,(fresh_enabled s old action).mpr enabled,(fresh_next action enabled searched some_pattern before).symm⟩

end Fresh

theorem next_output (md5 : Bytes → Digest) (s : State) (action : Action) (enabled : s.Enabled action) :
    s.thor.output <+: (s.next memmove md5 action).thor.output := by
  have sends : ∀ payload kept after, s.thor.output <+: (s.serverSend md5 payload kept after).thor.output := by
    intro payload kept after
    unfold State.serverSend
    cases checked : Thor.verify md5 s.segment payload with
    | error fault => exact List.prefix_rfl
    | ok found =>
      obtain ⟨data,intact⟩ := found
      simp only [Thor.serverSocketSend,checked]
      cases intact with
      | false =>
        simp only [Bool.false_eq_true,if_false]
        cases Thor.reply Thor.REJECTION <;> exact List.prefix_rfl
      | true =>
        simp only [if_true]
        cases found : search (serverFlushTransaction s.thor data) data with
        | error fault => exact List.prefix_append _ _
        | ok next =>
          obtain ⟨context,rfl⟩ := search_found _ _ _ found
          cases Thor.reply payload <;> exact List.prefix_append _ _
  cases by_thor : action.isThor with
  | false => rw [next_thor md5 s action by_thor]
  | true =>
    cases action with
    | serverAccept => exact List.prefix_rfl
    | serverRcv count =>
      obtain ⟨⟨receiver,here⟩,_⟩ := enabled
      rw [s.next_serverRcv memmove md5 receiver count here]
      unfold State.serverRcv
      simp only
      split
      · exact List.prefix_rfl
      · next thor ran =>
        obtain ⟨place,rfl⟩ := Thor.receivePiece_place _ _ _ _ _ ran
        exact List.prefix_rfl
    | serverRcvEnd => exact List.prefix_rfl
    | serverRcvFails => exact List.prefix_rfl
    | serverSend =>
      obtain ⟨payload,here⟩ := enabled
      rw [s.next_serverSend memmove md5 payload here]
      exact sends payload _ _
    | serverSendFails count =>
      obtain ⟨payload,here⟩ := enabled
      rw [s.next_serverSendFails memmove md5 payload count here]
      exact sends payload _ _
    | _ => cases by_thor

/-- A producer: where it has the segment, how many buffers it uses and what it sends. -/
structure Job where
  dataPtr : Int
  useBuffers : Nat
  inputFile : Bytes
  deriving DecidableEq, Repr

/-- Thor goes on as he is. The connections he had are accepted and left, so they are
counted anew. -/
def Job.begin (job : Job) (buffers : Nat) (thor : Server) (segment : Bytes) : State :=
  { State.initial job.dataPtr buffers job.useBuffers job.inputFile segment none with thor := thor }

/-- Transfers without failures, each from its beginning until nothing is left to be done. -/
inductive Served (md5 : Bytes → Digest) (buffers : Nat) : Server → Bytes → List Job → Server → Bytes → Prop
  | none (thor : Server) (segment : Bytes) : Served md5 buffers thor segment [] thor segment
  | next (thor last : Server) (segment ending : Bytes) (job : Job) (rest : List Job) (t : State)
      (transfer : Reachable (Step memmove md5 Undisturbed) (job.begin buffers thor segment) t)
      (ended : ∀ action after, ¬ Step memmove md5 Undisturbed t action after)
      (served : Served md5 buffers t.thor t.segment rest last ending) :
      Served md5 buffers thor segment (job::rest) last ending

section Transfer
variable {md5 : Bytes → Digest} {buffers : Nat} {pattern : Option Bytes} {job : Job} {thor : Server} {segment : Bytes}
  (some_pattern : ∀ text, pattern = some text → text ≠ []) (ready : thor.place = .accept) (searched : Searched pattern thor)
include some_pattern ready searched

/-- Seen without what Thor did before, a transfer is one with a Thor who has just started. -/
theorem transfer_fresh (t : State) (transfer : Reachable (Step memmove md5 Undisturbed) (job.begin buffers thor segment) t) :
    Reachable (Step memmove md5 Undisturbed) (.initial job.dataPtr buffers job.useBuffers job.inputFile segment none)
      (t.fresh thor.output.length) ∧ Searched pattern t.thor ∧ thor.output <+: t.thor.output := by
  have begins : (job.begin buffers thor segment).fresh thor.output.length =
      .initial job.dataPtr buffers job.useBuffers job.inputFile segment none := by
    simp only [Job.begin,State.fresh,State.initial,Thor.Server.initial,ready,List.drop_length,Option.map_none]
  refine transfer.invariant (fun t => Reachable (Step memmove md5 Undisturbed)
    (.initial job.dataPtr buffers job.useBuffers job.inputFile segment none) (t.fresh thor.output.length) ∧
    Searched pattern t.thor ∧ thor.output <+: t.thor.output) ⟨⟨[],begins ▸ .nil⟩,searched,List.prefix_rfl⟩ ?_
  rintro s action t ⟨⟨trace,run⟩,searched,before⟩ taken
  have taken' := fresh_step taken searched some_pattern before.length_le
  obtain ⟨_,enabled,rfl⟩ := taken
  exact ⟨⟨_,.snoc _ action _ trace run taken'⟩,searched_step searched action enabled,
    before.trans (next_output md5 s action enabled)⟩

variable (high : buffers ≤ 102399) (uses : 1 ≤ job.useBuffers ∧ job.useBuffers ≤ buffers)
  (room : segment.length = (buffers+1)*1024)
include high uses room

theorem transfer_over (t : State) (transfer : Reachable (Step memmove md5 Undisturbed) (job.begin buffers thor segment) t)
    (ended : ∀ action after, ¬ Step memmove md5 Undisturbed t action after) :
    t.thor.place = .accept ∧ Searched pattern t.thor ∧ t.segment.length = (buffers+1)*1024 ∧
      t.thor.output.flatten = thor.output.flatten ++ job.inputFile := by
  obtain ⟨reached,searched',⟨added,grown⟩⟩ := transfer_fresh some_pattern ready searched t transfer
  obtain ⟨⟨_,going⟩,_⟩ := reachable_going md5 job.dataPtr buffers job.useBuffers job.inputFile segment none high uses.1
    uses.2 room (by simp) _ reached
  have complete : Complete none job.inputFile (t.fresh thor.output.length) := by
    refine (complete_at_last md5 job.dataPtr buffers job.useBuffers job.inputFile segment none high uses.1 uses.2 room
      (by simp) _ reached).2 ?_
    rintro action after ⟨undisturbed,enabled,_⟩
    exact ended action _ ⟨undisturbed,(fresh_enabled t _ action).mp enabled,rfl⟩
  refine ⟨complete.thor,searched',going.delivery.choose_spec.inv.common.room,?_⟩
  have output : (t.thor.output.drop thor.output.length).flatten = job.inputFile := complete.output
  rw [← grown,List.drop_left] at output
  rw [← grown,List.flatten_append,output]

/-- A transfer comes to its end. -/
theorem transfer_ends : ∃ t, Reachable (Step memmove md5 Undisturbed) (job.begin buffers thor segment) t ∧
    ∀ action after, ¬ Step memmove md5 Undisturbed t action after := by
  have left : ∀ s, Reachable (Step memmove md5 Undisturbed) (job.begin buffers thor segment) s →
      ∃ n, Going md5 job.dataPtr buffers job.useBuffers job.inputFile n (s.fresh thor.output.length) := fun s reached =>
    (reachable_going md5 job.dataPtr buffers job.useBuffers job.inputFile segment none high uses.1 uses.2 room (by simp) _
      (transfer_fresh some_pattern ready searched s reached).1).1
  have start : Reachable (Step memmove md5 Undisturbed) (job.begin buffers thor segment) (job.begin buffers thor segment) :=
    ⟨[],.nil⟩
  obtain ⟨n,going⟩ := left _ start
  have falls : ∀ n s action t, (Reachable (Step memmove md5 Undisturbed) (job.begin buffers thor segment) s ∧
        Going md5 job.dataPtr buffers job.useBuffers job.inputFile n (s.fresh thor.output.length)) →
      Step memmove md5 Undisturbed s action t →
      ∃ m < n, Reachable (Step memmove md5 Undisturbed) (job.begin buffers thor segment) t ∧
        Going md5 job.dataPtr buffers job.useBuffers job.inputFile m (t.fresh thor.output.length) := by
    rintro n s action t ⟨⟨trace,run⟩,going⟩ taken
    have next : Reachable (Step memmove md5 Undisturbed) (job.begin buffers thor segment) t :=
      ⟨_,.snoc s action t trace run taken⟩
    obtain ⟨_,searched',before⟩ := transfer_fresh some_pattern ready searched s ⟨trace,run⟩
    obtain ⟨m,less,going'⟩ := Going.step high uses.1 uses.2 going
      (fresh_step taken searched' some_pattern before.length_le)
    exact ⟨m,less,next,going'⟩
  obtain ⟨final,⟨trace,run⟩,last⟩ := exists_last _ falls n _ ⟨start,going⟩
  exact ⟨final,⟨trace,run⟩,last⟩

end Transfer

section Succession
variable {md5 : Bytes → Digest} {buffers : Nat} {pattern : Option Bytes} {jobs : List Job} {thor : Server} {segment : Bytes}
  (some_pattern : ∀ text, pattern = some text → text ≠ []) (ready : thor.place = .accept) (searched : Searched pattern thor)
  (high : buffers ≤ 102399) (uses : ∀ job ∈ jobs, 1 ≤ job.useBuffers ∧ job.useBuffers ≤ buffers)
  (room : segment.length = (buffers+1)*1024)
include some_pattern ready searched high uses room

theorem served_output (last : Server) (ending : Bytes) (served : Served md5 buffers thor segment jobs last ending) :
    last.place = .accept ∧ Searched pattern last ∧
      last.output.flatten = thor.output.flatten ++ (jobs.map Job.inputFile).flatten := by
  induction served with
  | none thor segment => exact ⟨ready,searched,by simp⟩
  | next thor last segment ending job rest t transfer ended _ ih =>
    obtain ⟨place,found,size,output⟩ :=
      transfer_over some_pattern ready searched high (uses job List.mem_cons_self) room t transfer ended
    obtain ⟨left,searched',whole⟩ := ih place found (fun job member => uses job (List.mem_cons_of_mem _ member)) size
    refine ⟨left,searched',?_⟩
    rw [whole,output,List.map_cons,List.flatten_cons,List.append_assoc]

theorem served_exists : ∃ last ending, Served md5 buffers thor segment jobs last ending := by
  induction jobs generalizing thor segment with
  | nil => exact ⟨thor,segment,.none thor segment⟩
  | cons job rest ih =>
    have own := uses job List.mem_cons_self
    obtain ⟨t,transfer,ended⟩ := transfer_ends some_pattern ready searched high own room
    obtain ⟨place,found,size,_⟩ := transfer_over some_pattern ready searched high own room t transfer ended
    obtain ⟨last,ending,served⟩ := ih place found (fun job member => uses job (List.mem_cons_of_mem _ member)) size
    exact ⟨last,ending,.next thor last segment ending job rest t transfer ended served⟩

end Succession

/-- One Thor serves any number of producers one after another: every list of transfers can be made, and
then he has the files behind each other, and what he prints is about them as one stream. -/
theorem succession_delivers (md5 : Bytes → Digest) (buffers : Nat) (pattern : Option Bytes) (segment : Bytes)
    (jobs : List Job) (some_pattern : ∀ text, pattern = some text → text ≠ []) (bufferRange : buffers ≤ 102399)
    (uses : ∀ job ∈ jobs, 1 ≤ job.useBuffers ∧ job.useBuffers ≤ buffers) (room : segment.length = (buffers+1)*1024) :
    (∃ last ending, Served md5 buffers (.initial pattern) segment jobs last ending) ∧
    ∀ last ending, Served md5 buffers (.initial pattern) segment jobs last ending →
      last.place = .accept ∧ last.output.flatten = (jobs.map Job.inputFile).flatten ∧
      ∀ text, pattern = some text → 0 ∉ text → printed last = .ok (report text
        (((Occurrences.scan text 0 0 (jobs.map Job.inputFile).flatten).take MAX_OCCURANCE).map location)) := by
  have searched := (Thor.initial_follows pattern).searched
  refine ⟨served_exists some_pattern rfl searched bufferRange uses room,fun last ending served => ?_⟩
  obtain ⟨place,found,output⟩ := served_output some_pattern rfl searched bufferRange uses room last ending served
  have whole : last.output.flatten = (jobs.map Job.inputFile).flatten := output
  refine ⟨place,whole,fun text here solid => ?_⟩
  rw [found.printed some_pattern text here solid,whole]

/-- The pattern is found where two files meet. -/
theorem succession_delivers_meeting : ∃ last ending,
    Served knownMd5 2 (.initial (some (ascii ['b','a']))) (List.replicate 3072 0)
      [⟨0,1,ascii ['a','b']⟩,⟨4096,2,ascii ['a','b']⟩] last ending ∧
    last.output.flatten = ascii ['a','b','a','b'] ∧ printed last = .ok (report (ascii ['b','a']) [1]) := by
  obtain ⟨⟨last,ending,served⟩,all⟩ := succession_delivers knownMd5 2 (some (ascii ['b','a'])) (List.replicate 3072 0)
    [⟨0,1,ascii ['a','b']⟩,⟨4096,2,ascii ['a','b']⟩] (by rintro text ⟨⟩; decide) (by decide) (by decide)
    List.length_replicate
  obtain ⟨_,output,prints⟩ := all last ending served
  exact ⟨last,ending,served,output,prints _ rfl (by decide)⟩

/-- One process of Thor and the producers that he serves. -/
structure Service (md5 : Bytes → Digest) (buffers : Nat) where
  pattern : Option Bytes
  jobs : List Job
  segment : Bytes
  last : Server
  ending : Bytes
  some_pattern : ∀ text, pattern = some text → text ≠ []
  range : buffers ≤ 102399
  uses : ∀ job ∈ jobs, 1 ≤ job.useBuffers ∧ job.useBuffers ≤ buffers
  room : segment.length = (buffers+1)*1024
  served : Served md5 buffers (.initial pattern) segment jobs last ending

def Service.files {md5 : Bytes → Digest} {buffers : Nat} (service : Service md5 buffers) : Bytes :=
  (service.jobs.map Job.inputFile).flatten

theorem Service.output {md5 : Bytes → Digest} {buffers : Nat} (service : Service md5 buffers) :
    service.last.output.flatten = service.files :=
  (served_output service.some_pattern rfl (Thor.initial_follows service.pattern).searched service.range service.uses
    service.room service.last service.ending service.served).2.2

/-- The output file is never emptied: where it can always be opened, what it holds in the end is what it held
before Thor was first started, and behind it every file that was ever transferred. -/
theorem services_append (md5 : Bytes → Digest) (buffers : Nat) (services : List (Service md5 buffers)) (old : OutputFile) :
    ∃ final, (services.map (fun service => flushes true service.last.output)).foldlM OutputFile.process old = .ok final ∧
      final.contents = old.contents ++ (services.map Service.files).flatten := by
  obtain ⟨final,ran⟩ := Thor.processes_run (services.map (fun service => service.last.output)) old
  rw [List.map_map] at ran
  refine ⟨final,ran,?_⟩
  have safe : ∀ calls ∈ services.map (fun service => flushes true service.last.output), ¬ Thor.Wipes calls := by
    intro calls member
    obtain ⟨service,_,rfl⟩ := List.mem_map.mp member
    exact Thor.flushes_safe true service.last.output
  rw [Thor.processes_keep _ old final safe ran]
  congr 1
  clear ran safe
  induction services with
  | nil => rfl
  | cons service rest ih =>
    simp only [List.map_cons,List.flatten_cons,Thor.flushed_append]
    rw [Thor.flushed_flushes,service.output,ih]

/-- Nothing is left to be done when Jane has finished and Thor waits for a connection that nobody opens. -/
theorem nothing_left {md5 : Bytes → Digest} (s : State) (finished : s.jane.place = .finished) (waits : s.thor.place = .accept)
    (all : s.accepted = s.opened) (action : Action) (t : State) : ¬ Step memmove md5 Undisturbed s action t := by
  rintro ⟨⟨honest,_⟩,enabled,_⟩
  cases action with
  | lokiFrame => cases honest
  | lokiBuffer => cases honest
  | _ => simp [State.Enabled,finished,waits,all] at enabled

/-- A producer whose file has three bytes, and one run of its transfer. -/
def sampleJob : Job := ⟨0,1,ascii ['a','b','c']⟩

def sampleActions : List Action :=
  [.clientSocketInit,.serverAccept,.nextBuffer,.clientSend,.serverRcv 61,.serverSend,.clientRcv 61,.nextBuffer,.nextBuffer,
    .clientDone,.serverRcv 7]

def sampleEnd : State :=
  sampleActions.foldl (fun s action => State.next s memmove knownMd5 action)
    (sampleJob.begin 2 (.initial none) (List.replicate 3072 0))

def sampleService : Service knownMd5 2 where
  pattern := none
  jobs := [sampleJob]
  segment := List.replicate 3072 0
  last := sampleEnd.thor
  ending := sampleEnd.segment
  some_pattern := fun _ none_there => nomatch none_there
  range := by decide
  uses := by decide
  room := List.length_replicate
  served := .next _ _ _ _ sampleJob [] sampleEnd
    ⟨_,run_of_actions memmove knownMd5 Undisturbed _ sampleActions (by decide +kernel)⟩
    (nothing_left sampleEnd (by decide +kernel) (by decide +kernel) (by decide +kernel)) (.none _ _)

theorem services_append_twice : ∃ final,
    [flushes true sampleService.last.output,flushes true sampleService.last.output].foldlM OutputFile.process
      ⟨some (ascii ['x']),false⟩ = .ok final ∧ final.contents = ascii ['x','a','b','c','a','b','c'] :=
  services_append knownMd5 2 [sampleService,sampleService] ⟨some (ascii ['x']),false⟩

end Spsc.Session
