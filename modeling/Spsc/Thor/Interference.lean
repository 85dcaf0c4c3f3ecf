import Spsc.Thor.History

/-! `server_socket_send` as the three steps it makes on the segment (verify, append and
search), and a process that may overwrite the segment between any two of them. -/
namespace Spsc.Thor
open Imperative Hash Wire Segment Runs

/-- Where Thor stands in the call; `data` is what the step before found in the region. -/
inductive Stage where
  | outside
  | verified (parsed : Parsed) (data : Bytes)
  | appended (parsed : Parsed) (data : Bytes)
  deriving DecidableEq, Repr

inductive Use where
  | append (parsed : Parsed) (data : Bytes)
  | search (appended data : Bytes)
  deriving DecidableEq, Repr

/-- `uses`, what the calls have done with bytes of the segment, is kept for the statements. -/
structure Interleaved where
  world : World
  stage : Stage
  uses : List Use
  deriving DecidableEq, Repr

inductive Move where
  | other (event : Event)
  | verify (failed : Bool)
  | append
  | search (failed : Bool)
  | overwrite (segment : Bytes)
  deriving DecidableEq, Repr

def Interleaved.initial (pattern : Option Bytes) (segment : Bytes) : Interleaved :=
  ⟨.initial pattern segment,.outside,[]⟩

variable (strcpy : StrCpy) (md5 : Bytes → Digest)

/-- The end of a call: the `send` of the reply. -/
def World.answer (w : World) (reply : C Bytes) (failed : Bool) : World :=
  match reply with
  | .error fault => w.stand (.aborted fault)
  | .ok _ => w.stand (if failed then .accept else .receive .start)

namespace Interleaved
variable (s : Interleaved)

def leave (world : World) : Interleaved := { s with world := world, stage := .outside }

def verify (payload : Bytes) (failed : Bool) : Interleaved :=
  match parseData payload with
  | .error fault => s.leave (s.world.stand (.aborted fault))
  | .ok parsed =>
    match Thor.verify md5 s.world.segment payload with
    | .error fault => s.leave (s.world.stand (.aborted fault))
    | .ok (data,true) => { s with stage := .verified parsed data }
    | .ok (_,false) => s.leave (s.world.answer (reply REJECTION) failed)

def append (parsed : Parsed) : Interleaved :=
  match readBytes s.world.segment parsed.offset parsed.len with
  | .error fault => s.leave (s.world.stand (.aborted fault))
  | .ok data =>
    { world := { s.world with thor := serverFlushTransaction s.world.thor data }
      stage := .appended parsed data
      uses := s.uses ++ [.append parsed data] }

/-- Without `do_search` the step only replies. -/
def search (payload : Bytes) (parsed : Parsed) (appended : Bytes) (failed : Bool) : Interleaved :=
  match s.world.thor.substringContext with
  | none => s.leave (s.world.answer (reply payload) failed)
  | some _ =>
    match readBytes s.world.segment parsed.offset parsed.len with
    | .error fault => s.leave (s.world.stand (.aborted fault))
    | .ok data =>
      let searched : Interleaved := { s with uses := s.uses ++ [.search appended data] }
      match Thor.search s.world.thor data with
      | .error fault => searched.leave (s.world.stand (.aborted fault))
      | .ok thor => searched.leave (World.answer { s.world with thor := thor } (reply payload) failed)

def next (move : Move) : Option Interleaved :=
  match move, s.stage, s.world.thor.place with
  | .verify failed, .outside, .handle payload => some (s.verify md5 payload failed)
  | .append, .verified parsed _, _ => some (s.append parsed)
  | .search failed, .appended parsed data, .handle payload => some (s.search payload parsed data failed)
  | .overwrite segment, _, _ =>
    if segment.length = s.world.segment.length then some { s with world := { s.world with segment := segment } }
    else none
  | .other (.serverSend _), _, _ => none
  | .other event, .outside, _ => (s.world.next strcpy md5 event).map s.leave
  | _, _, _ => none

def Step (s : Interleaved) (move : Move) (t : Interleaved) : Prop := s.next strcpy md5 move = some t

end Interleaved

def Use.Sound : Use → Prop
  | .append parsed data => digestText md5 data = parsed.md5
  | .search appended data => data = appended

def Sound (s : Interleaved) : Prop := ∀ use ∈ s.uses, use.Sound md5

/-- Since the step before, the region has kept its digest until the append, and its bytes
until the search. -/
def Undisturbed (s : Interleaved) (move : Move) : Prop :=
  match move, s.stage with
  | .append, .verified parsed data =>
    ∀ found, readBytes s.world.segment parsed.offset parsed.len = .ok found → digestText md5 found = digestText md5 data
  | .search _, .appended parsed data =>
    s.world.thor.substringContext.isSome →
      ∀ found, readBytes s.world.segment parsed.offset parsed.len = .ok found → found = data
  | _, _ => True

theorem World.send_verified (w : World) (payload : Bytes) (failed : Bool) :
    w.send md5 payload failed =
      match Thor.verify md5 w.segment payload with
      | .error fault => w.stand (.aborted fault)
      | .ok (data,true) =>
        let flushed := { w with thor := serverFlushTransaction w.thor data }
        match search flushed.thor data with
        | .error fault => flushed.stand (.aborted fault)
        | .ok thor => World.answer { w with thor := thor } (reply payload) failed
      | .ok (_,false) => w.answer (reply REJECTION) failed := by
  unfold World.send serverSocketSend
  rcases Thor.verify md5 w.segment payload with fault | ⟨data,_ | _⟩
  · rfl
  · simp only [Bool.false_eq_true,if_false]
    cases reply REJECTION <;> rfl
  · simp only [if_true]
    cases Thor.search (serverFlushTransaction w.thor data) data with
    | error fault => rfl
    | ok thor => cases reply payload <;> rfl

theorem verify_parsed (segment payload : Bytes) (parsed : Parsed) (parses : parseData payload = .ok parsed) :
    Thor.verify md5 segment payload =
      readBytes segment parsed.offset parsed.len >>= fun data => .ok (data,decide (digestText md5 data = parsed.md5)) := by
  unfold Thor.verify
  simp only [parses,bind,Except.bind,doesStringIntact_eq]

theorem verify_announced (segment payload : Bytes) (parsed : Parsed) (data : Bytes) (parses : parseData payload = .ok parsed)
    (reads : readBytes segment parsed.offset parsed.len = .ok data) (same : digestText md5 data = parsed.md5) :
    Thor.verify md5 segment payload = .ok (data,true) := by
  rw [verify_parsed md5 segment payload parsed parses,reads]
  exact congrArg (fun verdict => Except.ok (data,verdict)) (decide_eq_true same)

theorem Interleaved.search_undisturbed (s : Interleaved) (payload : Bytes) (parsed : Parsed) (data : Bytes) (failed : Bool)
    (reads : readBytes s.world.segment parsed.offset parsed.len = .ok data) :
    ∃ uses, s.search payload parsed data failed =
      ⟨match Thor.search s.world.thor data with
        | .error fault => s.world.stand (.aborted fault)
        | .ok thor => World.answer { s.world with thor := thor } (reply payload) failed,.outside,uses⟩ := by
  unfold search
  cases context : s.world.thor.substringContext with
  | none =>
    have skipped : Thor.search s.world.thor data = .ok s.world.thor := by rw [Thor.search,context]
    rw [skipped]
    exact ⟨_,rfl⟩
  | some ss =>
    simp only [reads]
    cases Thor.search s.world.thor data with
    | error fault => exact ⟨_,rfl⟩
    | ok thor => exact ⟨_,rfl⟩

/-- The verification ends the call, or finds the digest that the frame announces. -/
theorem Interleaved.verify_cases (s : Interleaved) (payload : Bytes) (failed : Bool) :
    s.verify md5 payload failed = s.leave (s.world.send md5 payload failed) ∨
    ∃ parsed data, parseData payload = .ok parsed ∧ readBytes s.world.segment parsed.offset parsed.len = .ok data ∧
      digestText md5 data = parsed.md5 ∧ s.verify md5 payload failed = { s with stage := .verified parsed data } := by
  rw [World.send_verified,verify]
  cases parses : parseData payload with
  | error fault =>
    have stopped : Thor.verify md5 s.world.segment payload = .error fault := by rw [Thor.verify,parses]; rfl
    rw [stopped]
    exact .inl rfl
  | ok parsed =>
    cases reads : readBytes s.world.segment parsed.offset parsed.len with
    | error fault =>
      rw [verify_parsed md5 _ payload parsed parses,reads]
      exact .inl rfl
    | ok data =>
      by_cases same : digestText md5 data = parsed.md5
      · refine .inr ⟨parsed,data,rfl,reads,same,?_⟩
        rw [verify_announced md5 _ payload parsed data parses reads same]
      · rw [verify_parsed md5 _ payload parsed parses,reads]
        refine .inl ?_
        simp only [bind,Except.bind,decide_eq_false same]

/-- Without interference the steps are one call of `server_socket_send`. -/
theorem Interleaved.undisturbed_call (s : Interleaved) (payload : Bytes) (failed : Bool) (outside : s.stage = .outside)
    (here : s.world.thor.place = .handle payload) :
    ∃ moves uses, (moves = [.verify failed] ∨ moves = [.verify failed,.append,.search failed]) ∧
      moves.foldlM (fun s move => s.next strcpy md5 move) s = some ⟨s.world.send md5 payload failed,.outside,uses⟩ := by
  have enters : s.next strcpy md5 (.verify failed) = some (s.verify md5 payload failed) := by
    unfold next
    simp only [outside,here]
  rcases s.verify_cases md5 payload failed with ends | ⟨parsed,data,parses,reads,same,verified⟩
  · refine ⟨_,s.uses,.inl rfl,?_⟩
    rw [List.foldlM_cons,enters,ends]
    rfl
  · let flushed : Interleaved := ⟨{ s.world with thor := serverFlushTransaction s.world.thor data },
      .appended parsed data,s.uses ++ [.append parsed data]⟩
    have appends : next strcpy md5 { s with stage := .verified parsed data } .append = some flushed := by
      unfold next append
      simp only [reads]
      rfl
    have handles : flushed.world.thor.place = .handle payload := here
    have searches : flushed.next strcpy md5 (.search failed) = some (flushed.search payload parsed data failed) := by
      unfold next
      simp only [handles]
      rfl
    obtain ⟨uses,ends⟩ := flushed.search_undisturbed payload parsed data failed reads
    refine ⟨_,uses,.inr rfl,?_⟩
    rw [List.foldlM_cons,enters,verified,World.send_verified,verify_announced md5 _ payload parsed data parses reads same]
    simp only [bind,Option.bind,List.foldlM_cons,appends,searches,ends]
    rfl

/-- In a verified frame the region had the announced digest. -/
def Checked (s : Interleaved) : Prop :=
  ∀ parsed data, s.stage = .verified parsed data → digestText md5 data = parsed.md5

theorem sound_use (s : Interleaved) (sound : Sound md5 s) (use : Use) :
    (∀ entry ∈ s.uses ++ [use], entry.Sound md5) ↔ use.Sound md5 := by
  rw [List.forall_mem_append,List.forall_mem_singleton]
  exact and_iff_right sound

theorem append_sound (s : Interleaved) (parsed : Parsed) (data : Bytes) (sound : Sound md5 s) (checked : Checked md5 s)
    (here : s.stage = .verified parsed data) : Sound md5 (s.append parsed) ↔ Undisturbed md5 s .append := by
  have announced := checked parsed data here
  unfold Interleaved.append Undisturbed
  simp only [here]
  cases reads : readBytes s.world.segment parsed.offset parsed.len with
  | error fault => exact iff_of_true sound (fun _ none => by cases none)
  | ok found =>
    refine (sound_use md5 s sound _).trans ?_
    rw [Use.Sound,← announced]
    exact ⟨fun same now reads => Except.ok.inj reads ▸ same,fun kept => kept found rfl⟩

theorem search_sound (s : Interleaved) (payload : Bytes) (parsed : Parsed) (data : Bytes) (failed : Bool)
    (sound : Sound md5 s) (here : s.stage = .appended parsed data) :
    Sound md5 (s.search payload parsed data failed) ↔ Undisturbed md5 s (.search failed) := by
  unfold Interleaved.search Undisturbed
  simp only [here]
  cases s.world.thor.substringContext with
  | none => exact iff_of_true sound (fun none => by cases none)
  | some ss =>
    cases reads : readBytes s.world.segment parsed.offset parsed.len with
    | error fault => exact iff_of_true sound (fun _ _ none => by cases none)
    | ok found =>
      have used : (∀ use ∈ s.uses ++ [.search data found], use.Sound md5) ↔
          ∀ now, Except.ok (ε := Fault) found = .ok now → now = data := by
        rw [sound_use md5 s sound,Use.Sound]
        exact ⟨fun same now reads => Except.ok.inj reads ▸ same,fun kept => kept found rfl⟩
      refine Iff.trans ?_ (used.trans ⟨fun same _ => same,fun same => same rfl⟩)
      simp only
      split <;> rfl

theorem verify_uses (s : Interleaved) (payload : Bytes) (failed : Bool) :
    (s.verify md5 payload failed).uses = s.uses := by
  rcases s.verify_cases md5 payload failed with ends | ⟨parsed,data,_,_,_,verified⟩
  · rw [ends]
    rfl
  · rw [verified]

theorem checked_elsewhere (s : Interleaved) (elsewhere : ∀ parsed data, s.stage ≠ .verified parsed data) :
    Checked md5 s := fun parsed data here => absurd here (elsewhere parsed data)

theorem verify_checked (s : Interleaved) (payload : Bytes) (failed : Bool) :
    Checked md5 (s.verify md5 payload failed) := by
  rcases s.verify_cases md5 payload failed with ends | ⟨parsed,data,_,_,same,verified⟩
  · rw [ends]
    exact checked_elsewhere md5 _ (fun _ _ => Stage.noConfusion)
  · rw [verified]
    intro parsed' data' here
    obtain ⟨rfl,rfl⟩ := Stage.verified.inj here
    exact same

theorem append_stage (s : Interleaved) (parsed parsed' : Parsed) (data : Bytes) :
    (s.append parsed).stage ≠ .verified parsed' data := by
  unfold Interleaved.append
  split
  all_goals exact Stage.noConfusion

theorem search_stage (s : Interleaved) (payload : Bytes) (parsed parsed' : Parsed) (appended data : Bytes) (failed : Bool) :
    (s.search payload parsed appended failed).stage ≠ .verified parsed' data := by
  unfold Interleaved.search
  repeat' split
  all_goals exact Stage.noConfusion

/-- The append and the search use bytes of the segment; the other moves use none, and
only a verification leaves a frame verified. -/
theorem Interleaved.step_cases (s t : Interleaved) (move : Move) (taken : s.Step strcpy md5 move t) :
    (∃ parsed data, move = .append ∧ s.stage = .verified parsed data ∧ t = s.append parsed) ∨
    (∃ payload parsed data failed, move = .search failed ∧ s.stage = .appended parsed data ∧
      t = s.search payload parsed data failed) ∨
    (t.uses = s.uses ∧ Undisturbed md5 s move ∧ (Checked md5 s → Checked md5 t)) := by
  unfold Step next at taken
  split at taken
  · next failed payload _ _ =>
    obtain rfl := Option.some.inj taken
    exact .inr (.inr ⟨verify_uses md5 s payload failed,trivial,fun _ => verify_checked md5 s payload failed⟩)
  · next _ parsed data here => exact .inl ⟨parsed,data,rfl,here,(Option.some.inj taken).symm⟩
  · next failed parsed data payload here _ =>
    exact .inr (.inl ⟨payload,parsed,data,failed,rfl,here,(Option.some.inj taken).symm⟩)
  · split at taken
    · obtain rfl := Option.some.inj taken
      exact .inr (.inr ⟨rfl,trivial,id⟩)
    · cases taken
  · cases taken
  · obtain ⟨world,_,rfl⟩ := Option.map_eq_some_iff.mp taken
    exact .inr (.inr ⟨rfl,trivial,fun _ => checked_elsewhere md5 _ (fun _ _ => Stage.noConfusion)⟩)
  · cases taken

theorem step_sound (s t : Interleaved) (move : Move) (sound : Sound md5 s) (checked : Checked md5 s)
    (taken : s.Step strcpy md5 move t) : Sound md5 t ↔ Undisturbed md5 s move := by
  rcases s.step_cases strcpy md5 t move taken with ⟨parsed,data,rfl,here,rfl⟩ | ⟨payload,parsed,data,failed,rfl,here,rfl⟩ |
    ⟨same,undisturbed,_⟩
  · exact append_sound md5 s parsed data sound checked here
  · exact search_sound md5 s payload parsed data failed sound here
  · refine iff_of_true ?_ undisturbed
    rw [Sound,same]
    exact sound

theorem step_checked (s t : Interleaved) (move : Move) (checked : Checked md5 s) (taken : s.Step strcpy md5 move t) :
    Checked md5 t := by
  rcases s.step_cases strcpy md5 t move taken with ⟨parsed,_,_,_,rfl⟩ | ⟨payload,parsed,data,failed,_,_,rfl⟩ | ⟨_,_,kept⟩
  · exact checked_elsewhere md5 _ (append_stage s parsed)
  · exact checked_elsewhere md5 _ (fun parsed' data' => search_stage s payload parsed parsed' data data' failed)
  · exact kept checked

/-- A frame whose digest the region has gets as far as the append. -/
theorem Interleaved.run_verifies (pattern : Option Bytes) (segment payload : Bytes) (parsed : Parsed) (data : Bytes)
    (whole : serverSocketRcv strcpy .start (framed payload) = .ok (.frame payload)) (parses : parseData payload = .ok parsed)
    (reads : readBytes segment parsed.offset parsed.len = .ok data) (same : digestText md5 data = parsed.md5) :
    ∃ trace, (∀ entry ∈ trace, Undisturbed md5 entry.1 entry.2) ∧
      Run (Interleaved.Step strcpy md5) (.initial pattern segment) trace
        ⟨(World.initial pattern segment).stand (.handle payload),.verified parsed data,[]⟩ := by
  let listening : Interleaved := ⟨(World.initial pattern segment).stand (.receive .start),.outside,[]⟩
  let handling := listening.leave (listening.world.stand (.handle payload))
  have accepts : (Interleaved.initial pattern segment).Step strcpy md5 (.other .serverAccept) listening := rfl
  have receives : listening.Step strcpy md5 (.other (.serverRcv (framed payload))) handling :=
    congrArg (fun world => some (listening.leave world)) (listening.world.rcv_frame strcpy payload whole)
  have checks : Thor.verify md5 handling.world.segment payload = .ok (data,true) :=
    verify_announced md5 segment payload parsed data parses reads same
  have verified : handling.verify md5 payload false = { handling with stage := .verified parsed data } := by
    rw [verify,parses,checks]
  have verifies : handling.Step strcpy md5 (.verify false) { handling with stage := .verified parsed data } :=
    congrArg some verified
  refine ⟨_,?_,((Run.single _ _ _ accepts).append (.single _ _ _ receives)).append (.single _ _ _ verifies)⟩
  simp [Undisturbed]

/-- All that is appended has the announced digest, and all that is searched was appended, exactly
in the runs in which the attacker leaves a frame's region as it was from step to step. -/
theorem used_as_verified (pattern : Option Bytes) (segment : Bytes) (trace : List (Interleaved × Move)) (final : Interleaved)
    (run : Run (Interleaved.Step strcpy md5) (.initial pattern segment) trace final) :
    Throughout (Sound md5) trace final ↔ ∀ entry ∈ trace, Undisturbed md5 entry.1 entry.2 := by
  refine run.exact (Sound md5) (Checked md5) (Undisturbed md5) ⟨by simp [Sound,Interleaved.initial],?_⟩ ?_ ?_
  · exact checked_elsewhere md5 _ (fun _ _ => Stage.noConfusion)
  · intro s move t sound checked taken
    exact step_sound strcpy md5 s t move sound checked taken
  · intro s move t _ checked taken _
    exact step_checked strcpy md5 s t move checked taken

theorem used_as_verified_one : ∃ trace final,
    Run (Interleaved.Step memmove knownMd5) (.initial (some (ascii ['b','c'])) (ascii ['-','a','b','c'])) trace final ∧
    final.uses = [.append ⟨1,1,3,digestText knownMd5 (ascii ['a','b','c'])⟩ (ascii ['a','b','c']),
      .search (ascii ['a','b','c']) (ascii ['a','b','c'])] ∧ Throughout (Sound knownMd5) trace final := by
  let payload := fields 1 1 3 (digestText knownMd5 (ascii ['a','b','c']))
  let parsed : Parsed := ⟨1,1,3,digestText knownMd5 (ascii ['a','b','c'])⟩
  obtain ⟨_,quiet,verifies⟩ := Interleaved.run_verifies memmove knownMd5 (some (ascii ['b','c'])) (ascii ['-','a','b','c']) payload
    parsed (ascii ['a','b','c']) (by decide +kernel) (by decide +kernel) rfl rfl
  let verified : Interleaved := ⟨(World.initial (some (ascii ['b','c'])) (ascii ['-','a','b','c'])).stand (.handle payload),
    .verified parsed (ascii ['a','b','c']),[]⟩
  let appended := verified.append parsed
  have appends : verified.Step memmove knownMd5 .append appended := rfl
  have searches : appended.Step memmove knownMd5 (.search false) (appended.search payload parsed (ascii ['a','b','c']) false) := rfl
  have run := (verifies.append (.single _ _ _ appends)).append (.single _ _ _ searches)
  refine ⟨_,_,run,by decide +kernel,(used_as_verified memmove knownMd5 _ _ _ _ run).mpr ?_⟩
  simp only [List.forall_mem_append,List.forall_mem_singleton]
  refine ⟨⟨quiet,?_⟩,?_⟩
  · intro found same
    obtain rfl := Except.ok.inj same
    rfl
  · intro _ found same
    exact (Except.ok.inj same).symm

/-- The region is overwritten behind the verification, and again behind the append. -/
theorem used_unverified : ∃ trace final,
    Run (Interleaved.Step memmove knownMd5) (.initial (some (ascii ['b','c'])) (ascii ['-','a','b','c'])) trace final ∧
    final.world.thor.output = [ascii ['x','y','z']] ∧
    final.uses = [.append ⟨1,1,3,digestText knownMd5 (ascii ['a','b','c'])⟩ (ascii ['x','y','z']),
      .search (ascii ['x','y','z']) (ascii ['a','b','c'])] ∧
    ¬ Throughout (Sound knownMd5) trace final := by
  let payload := fields 1 1 3 (digestText knownMd5 (ascii ['a','b','c']))
  let parsed : Parsed := ⟨1,1,3,digestText knownMd5 (ascii ['a','b','c'])⟩
  obtain ⟨_,_,verifies⟩ := Interleaved.run_verifies memmove knownMd5 (some (ascii ['b','c'])) (ascii ['-','a','b','c']) payload
    parsed (ascii ['a','b','c']) (by decide +kernel) (by decide +kernel) rfl rfl
  let overwrite (s : Interleaved) (segment : Bytes) : Interleaved := { s with world := { s.world with segment := segment } }
  let verified : Interleaved := ⟨(World.initial (some (ascii ['b','c'])) (ascii ['-','a','b','c'])).stand (.handle payload),
    .verified parsed (ascii ['a','b','c']),[]⟩
  let altered := overwrite verified (ascii ['-','x','y','z'])
  let appended := altered.append parsed
  let restored := overwrite appended (ascii ['-','a','b','c'])
  have alters : verified.Step memmove knownMd5 (.overwrite (ascii ['-','x','y','z'])) altered := rfl
  have appends : altered.Step memmove knownMd5 .append appended := rfl
  have restores : appended.Step memmove knownMd5 (.overwrite (ascii ['-','a','b','c'])) restored := rfl
  have searches : restored.Step memmove knownMd5 (.search false) (restored.search payload parsed (ascii ['x','y','z']) false) := rfl
  have run := (((verifies.append (.single _ _ _ alters)).append (.single _ _ _ appends)).append
    (.single _ _ _ restores)).append (.single _ _ _ searches)
  have used : (restored.search payload parsed (ascii ['x','y','z']) false).uses =
      [.append parsed (ascii ['x','y','z']),.search (ascii ['x','y','z']) (ascii ['a','b','c'])] := by decide +kernel
  refine ⟨_,_,run,by decide +kernel,used,fun sound => ?_⟩
  have last : ascii ['a','b','c'] = ascii ['x','y','z'] :=
    sound.2 (.search (ascii ['x','y','z']) (ascii ['a','b','c'])) (by rw [used]; simp)
  exact absurd last (by decide)

end Spsc.Thor
