import Spsc.IniParser.Accepted
import Spsc.IniParser.Decision
import Spsc.Session.Succession

/-! The two programs from their start: what the `main` functions make of the configuration file,
and that an accepted configuration leads to a transfer of the whole file, if Thor can open his. -/
namespace Spsc.Program
open Imperative Hash Wire Allocator IniParser Session Runs
open Spsc.Jane (Client)
open Spsc.Thor (Server OutputFile printed report flushes)
open Spsc.Substring (MAX_OCCURANCE location)

/-- `main` of `jane.c` up to `client_loop`, or `none` where it exits. The files can all be opened. -/
def janeMain (dataPtr : Int) (files : Bytes → Bytes) (configFile : Bytes) : C (Option Client) := do
  match ← asgardConfigRead configFile with
  | .exited => .ok none
  | .returned value jane _ =>
    assert (value = true)
    let inputFile ← Jane.setInputFile jane.inputTextFile
    .ok (some (.initial dataPtr jane.buffers.toNat jane.useBuffers.toNat (files inputFile)))

/-- `main` of `thor.c` up to `server_loop`, with `thor_output_file_str`. No check asks whether there is one. -/
def thorMain (configFile : Bytes) : C (Option (Server × Option Bytes)) := do
  match ← asgardConfigRead configFile with
  | .exited => .ok none
  | .returned value _ thor =>
    assert (value = true)
    let thorOutputFileStr := thor.outputTextFile
    if thor.doSearch ≠ 0 then
      match thor.pattern with
      | none => .error .bounds
      | some pattern => .ok (some (.initial (some pattern),thorOutputFileStr))
    else .ok (some (.initial none,thorOutputFileStr))

/-- Both programs, and the file that Thor appends to. It is not the one that Jane reads. -/
structure Programs where
  session : State
  thorOutputFileStr : Option Bytes
  outputFile : OutputFile

/-- Both programs with one configuration file, the segment as they find it and the output file as Thor does. -/
def launch (dataPtr : Int) (files : Bytes → Bytes) (configFile segment : Bytes) (disk : Option Bytes) :
    C (Option Programs) := do
  match ← janeMain dataPtr files configFile, ← thorMain configFile with
  | some jane, some (thor,thorOutputFileStr) =>
    .ok (some { session := { jane := jane
                             thor := thor
                             segment := segment
                             wire := fun _ => ⟨[],[],false,[]⟩
                             opened := 0
                             accepted := 0
                             appended := []
                             answer := none }
                thorOutputFileStr := thorOutputFileStr
                outputFile := ⟨disk,false⟩ })
  | _, _ => .ok none

namespace Programs
variable (fopen : Bytes → Bool) (strcpy : StrCpy) (md5 : Bytes → Digest) (s : Programs)

/-- Whether `fopen` opens the file that Thor appends to. Without a name it opens none. -/
def opens : Bool := s.thorOutputFileStr.any fopen

/-- A step of the session, and what Thor flushes in it. Where the assertion on the opened file fails
he stops before he searches or answers. -/
def next (action : Action) : Programs :=
  let session := s.session.next strcpy md5 action
  let blocks := session.thor.output.drop s.session.thor.output.length
  match (flushes (s.opens fopen) blocks).foldlM OutputFile.call s.outputFile with
  | .ok outputFile => { s with session := session, outputFile := outputFile }
  | .error fault => { s with session := s.session.abortThor fault }

def Step (allowed : Action → Prop) (s : Programs) (action : Action) (t : Programs) : Prop :=
  allowed action ∧ s.session.Enabled action ∧ t = s.next fopen strcpy md5 action

end Programs

/-- What Thor searches for. -/
def searched (thor : ThorConfig) : Option Bytes := if thor.doSearch ≠ 0 then thor.pattern else none

section Accepted
variable {dataPtr : Int} {files : Bytes → Bytes} {configFile segment : Bytes} {jane : JaneConfig} {thor : ThorConfig}
  (accepted : asgardConfigRead configFile = .ok (.returned true jane thor))
include accepted

theorem accepted_range : 2 ≤ jane.buffers ∧ jane.buffers ≤ 102399 := by
  obtain ⟨sections,_,read,positive,_⟩ := asgardConfigRead_accepts configFile jane thor accepted
  obtain ⟨_,_,_,range⟩ := janePair_fields _ jane (readSections_some _ _ _ _ _ read).1
  unfold InRange at range
  omega

/-- Thor searches for a text of the file, if he searches. -/
theorem accepted_search : (thor.doSearch ≠ 0 → thor.pattern ≠ none) ∧ ∀ text, thor.pattern = some text → 0 ∉ text := by
  obtain ⟨sections,parsed,_⟩ := bind_ok _ _ _ accepted
  have decides := asgardConfigRead_decides configFile sections parsed
  rw [accepted,decision] at decides
  split at decides
  · cases decides
  split at decides
  · cases decides
  next agree =>
  split at decides
  · cases decides
  next searches =>
  obtain ⟨_,rfl,rfl⟩ := ConfigRead.returned.inj (Except.ok.inj decides)
  have search := (not_not.mp agree).search
  refine ⟨fun some_search none_there => searches ⟨search.resolve_left some_search,none_there⟩,fun text found => ?_⟩
  exact firstText_solid PATTERN THOR sections (iniParse_solid configFile sections parsed) text found

theorem janeMain_eq (name : Bytes) (input : jane.inputTextFile = some name) :
    janeMain dataPtr files configFile =
      .ok (some (.initial dataPtr jane.buffers.toNat jane.useBuffers.toNat (files name))) := by
  unfold janeMain
  rw [accepted]
  simp only [bind,Except.bind]
  rw [input]
  rfl

theorem thorMain_eq : thorMain configFile = .ok (some (.initial (searched thor),thor.outputTextFile)) := by
  have search := (accepted_search accepted).1
  unfold thorMain searched
  rw [accepted]
  simp only [bind,Except.bind,assert_holds]
  split
  · next some_search =>
    obtain ⟨text,found⟩ := Option.ne_none_iff_exists'.mp (search some_search)
    rw [found]
  · rfl

/-- Both programs start, as the session begins. -/
theorem launch_eq (name : Bytes) (disk : Option Bytes) (input : jane.inputTextFile = some name) :
    launch dataPtr files configFile segment disk = .ok (some
      ⟨.initial dataPtr jane.buffers.toNat jane.useBuffers.toNat (files name) segment (searched thor),
        thor.outputTextFile,⟨disk,false⟩⟩) := by
  unfold launch
  rw [janeMain_eq accepted name input,thorMain_eq accepted]
  rfl

end Accepted

section Programs
variable {fopen : Bytes → Bool} {strcpy : StrCpy} {md5 : Bytes → Digest} {allowed : Action → Prop} {start s : Programs}

/-- As long as the file can be opened, the file grows by what Thor flushes and the session goes on as it does alone. -/
theorem next_opens (action : Action) (opened : s.opens fopen = true) (enabled : s.session.Enabled action) :
    (s.next fopen memmove md5 action).session = s.session.next memmove md5 action ∧
      (s.next fopen memmove md5 action).opens fopen = true ∧ ∀ old,
        s.outputFile.contents = old ++ s.session.thor.output.flatten →
        (s.next fopen memmove md5 action).outputFile.contents =
          old ++ (s.session.next memmove md5 action).thor.output.flatten := by
  obtain ⟨added,grown⟩ := next_output md5 s.session action enabled
  obtain ⟨file,ran,whole⟩ := Thor.flushes_run ((s.session.next memmove md5 action).thor.output.drop
    s.session.thor.output.length) s.outputFile
  have taken : s.next fopen memmove md5 action =
      { s with session := s.session.next memmove md5 action, outputFile := file } := by
    unfold Programs.next
    rw [opened]
    simp only [ran]
  rw [taken]
  refine ⟨rfl,opened,fun old kept => ?_⟩
  rw [← grown,List.drop_left] at whole
  rw [whole,kept,← grown,List.flatten_append,List.append_assoc]

/-- A run of the programs is one of the session. -/
theorem session_reached (old : Bytes) (opened : start.opens fopen = true)
    (begins : start.outputFile.contents = old ++ start.session.thor.output.flatten)
    (reached : Reachable (Programs.Step fopen memmove md5 allowed) start s) :
    Reachable (Step memmove md5 allowed) start.session s.session ∧ s.opens fopen = true ∧
      s.outputFile.contents = old ++ s.session.thor.output.flatten := by
  obtain ⟨trace,run⟩ := reached
  have taken : ∀ (s : Programs) (action : Action) (t : Programs),
      (s.opens fopen = true ∧ s.outputFile.contents = old ++ s.session.thor.output.flatten) → True →
      Programs.Step fopen memmove md5 allowed s action t →
      (t.opens fopen = true ∧ t.outputFile.contents = old ++ t.session.thor.output.flatten) ∧
        Step memmove md5 allowed s.session action t.session := by
    rintro s action t ⟨opened,kept⟩ _ ⟨may,enabled,rfl⟩
    obtain ⟨session,still,grows⟩ := next_opens action opened enabled
    refine ⟨⟨still,?_⟩,may,enabled,session⟩
    rw [grows old kept,session]
  obtain ⟨image,kept⟩ := run.image Programs.session id _ _ ⟨opened,begins⟩ taken (fun _ _ => trivial)
  exact ⟨⟨_,image⟩,kept⟩

/-- A run of the session is one of the programs. -/
theorem programs_reach (opened : s.opens fopen = true) (final : State)
    (reached : Reachable (Step memmove md5 allowed) s.session final) :
    ∃ t, Reachable (Programs.Step fopen memmove md5 allowed) s t ∧ t.session = final := by
  obtain ⟨trace,run⟩ := reached
  have lifts : ∀ (t : Programs) (action : Action) (after : State), t.opens fopen = true →
      Step memmove md5 allowed t.session action after →
      ∃ t', Programs.Step fopen memmove md5 allowed t action t' ∧ t'.opens fopen = true ∧ t'.session = after := by
    rintro t action after opened ⟨may,enabled,rfl⟩
    obtain ⟨session,still,_⟩ := next_opens action opened enabled
    exact ⟨_,⟨may,enabled,rfl⟩,still,session⟩
  obtain ⟨trace',t,run,_,same⟩ := run.lift Programs.session _ s rfl opened lifts
  exact ⟨t,⟨trace',run⟩,same⟩

/-- Where the file cannot be opened, nothing is ever written. -/
theorem unopened_empty (closed : start.opens fopen = false) (file : start.outputFile.thorOutputFile = false)
    (reached : Reachable (Programs.Step fopen strcpy md5 allowed) start s) : s.outputFile = start.outputFile := by
  have kept := reached.invariant (fun s => s.opens fopen = false ∧ s.outputFile = start.outputFile) ⟨closed,rfl⟩ (by
    rintro s action t ⟨closed,same⟩ ⟨_,_,rfl⟩
    unfold Programs.next
    rw [closed]
    simp only [Thor.flushes_closed _ s.outputFile (same ▸ file)]
    split
    · next outputFile ran =>
      split at ran
      · exact ⟨closed,(Except.ok.inj ran).symm.trans same⟩
      · cases ran
    · exact ⟨closed,same⟩)
  exact kept.2

end Programs

/-- Jane has sent `+DONE+`, Thor waits for another producer, his file holds the whole of hers behind what
it held before, and he prints where the pattern is found in it. -/
structure Delivered (pattern : Option Bytes) (file old : Bytes) (s : Programs) : Prop where
  jane : s.session.jane.place = .finished
  thor : s.session.thor.place = .accept
  output : s.outputFile.contents = old ++ file
  statistics : printed s.session.thor = .ok (match pattern with
    | none => []
    | some text => report text (((Occurrences.scan text 0 0 file).take MAX_OCCURANCE).map location))

/-- Where the session is complete and the file has grown by what Thor has flushed, all is delivered. -/
theorem delivered_of_complete {s : Programs} {pattern : Option Bytes} {file old : Bytes}
    (solid : ∀ text, pattern = some text → text ≠ [] ∧ 0 ∉ text)
    (written : s.outputFile.contents = old ++ s.session.thor.output.flatten)
    (complete : Complete pattern file s.session) : Delivered pattern file old s := by
  refine ⟨complete.jane,complete.thor,by rw [written,complete.output],?_⟩
  have found := complete.searched
  cases pattern with
  | none =>
    have none_there : s.session.thor.substringContext = none := found
    rw [printed,none_there]
  | some text =>
    simp only
    rw [found.printed (fun text same => (solid text same).1) text rfl (solid text rfl).2,complete.output]

/-- With a configuration that is accepted and that names a file, some buffers of those it has and no
empty pattern, both programs start. If Thor can open his file then, however the calls of a run without
failures interleave, it comes to an end, and it ends only with the file delivered; if not, he writes nothing. -/
theorem program_delivers (md5 : Bytes → Digest) (fopen : Bytes → Bool) (dataPtr : Int) (files : Bytes → Bytes)
    (configFile segment name : Bytes) (disk : Option Bytes) (jane : JaneConfig) (thor : ThorConfig)
    (accepted : asgardConfigRead configFile = .ok (.returned true jane thor)) (input : jane.inputTextFile = some name)
    (uses : 1 ≤ jane.useBuffers ∧ jane.useBuffers ≤ jane.buffers) (some_pattern : searched thor ≠ some [])
    (room : segment.length = initMemory jane.buffers) :
    ∃ start, launch dataPtr files configFile segment disk = .ok (some start) ∧
      (thor.outputTextFile.any fopen = true → ∀ s, Reachable (Programs.Step fopen memmove md5 Undisturbed) start s →
        (∃ final, Reachable (Programs.Step fopen memmove md5 Undisturbed) s final ∧
          Delivered (searched thor) (files name) (disk.getD []) final) ∧
        ((∀ action t, ¬ Programs.Step fopen memmove md5 Undisturbed s action t) →
          Delivered (searched thor) (files name) (disk.getD []) s)) ∧
      (thor.outputTextFile.any fopen = false → ∀ s, Reachable (Programs.Step fopen memmove md5 Undisturbed) start s →
        s.outputFile.disk = disk) := by
  let start : Programs := ⟨.initial dataPtr jane.buffers.toNat jane.useBuffers.toNat (files name) segment (searched thor),
    thor.outputTextFile,⟨disk,false⟩⟩
  refine ⟨start,launch_eq accepted name disk input,fun (opens : start.opens fopen = true) s reached => ?_,
    fun (closed : start.opens fopen = false) s reached => by rw [unopened_empty closed rfl reached]⟩
  obtain ⟨low,high⟩ := accepted_range accepted
  obtain ⟨_,solid⟩ := accepted_search accepted
  have pattern : ∀ text, searched thor = some text → text ≠ [] ∧ 0 ∉ text := by
    intro text search
    refine ⟨fun none_there => some_pattern (none_there ▸ search),?_⟩
    unfold searched at search
    split at search
    · exact solid text search
    · cases search
  have begins : start.outputFile.contents = disk.getD [] ++ start.session.thor.output.flatten := (List.append_nil _).symm
  obtain ⟨session,opened,written⟩ := session_reached (disk.getD []) opens begins reached
  obtain ⟨⟨final,further,complete⟩,last⟩ := complete_at_last md5 dataPtr jane.buffers.toNat jane.useBuffers.toNat
    (files name) segment (searched thor) (by omega) (by omega) (by omega) (by rw [room]; unfold initMemory; omega)
    (fun text search => (pattern text search).1) s.session session
  obtain ⟨t,reaches,rfl⟩ := programs_reach opened final further
  obtain ⟨_,_,written'⟩ := session_reached (disk.getD []) opened written reaches
  refine ⟨⟨t,reaches,delivered_of_complete pattern written' complete⟩,fun stuck =>
    delivered_of_complete pattern written (last ?_)⟩
  rintro action after ⟨undisturbed,enabled,_⟩
  exact stuck action _ ⟨undisturbed,enabled,rfl⟩

theorem program_delivers_search : ∃ start final,
    launch 0 (fun _ => ascii ['a','b','c'])
      (sampleFile '1' ++ DO_SEARCH ++ ascii ['=','1','\n'] ++ PATTERN ++ ascii ['=','b','\n']) (List.replicate 3072 0)
      (some (ascii ['x'])) = .ok (some start) ∧
    Reachable (Programs.Step (fun _ => true) memmove knownMd5 Undisturbed) start final ∧
    final.outputFile.contents = ascii ['x','a','b','c'] ∧ printed final.session.thor = .ok (report (ascii ['b']) [1]) := by
  obtain ⟨start,launched,runs,_⟩ := program_delivers knownMd5 (fun _ => true) 0 (fun _ => ascii ['a','b','c'])
    (sampleFile '1' ++ DO_SEARCH ++ ascii ['=','1','\n'] ++ PATTERN ++ ascii ['=','b','\n']) (List.replicate 3072 0)
    (ascii ['a']) (some (ascii ['x'])) ⟨some (ascii ['a']),2,1,1⟩ ⟨some (ascii ['b']),some (ascii ['b']),2,1,1⟩
    (by decide +kernel) rfl (by decide) (by decide) (by rw [List.length_replicate]; rfl)
  obtain ⟨⟨final,reached,delivered⟩,_⟩ := runs rfl start ⟨[],.nil⟩
  exact ⟨start,final,launched,reached,delivered.output,delivered.statistics⟩

end Spsc.Program
