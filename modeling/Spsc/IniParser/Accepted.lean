import Spsc.IniParser.Config
import Spsc.Jane.Retry

/-! What an accepted configuration means for the run of Jane: which of them keep her from
every assertion, and her reads inside the block that she has. -/
namespace Spsc.IniParser
open Imperative Hash Allocator Jane Runs

/-- The size that `read_input_file` gives to `fread`. -/
def readSize (useBuffers : Int) : Int := useBuffers*BIG_ENOUGH - 1

/-- Jane has not stopped, and the block that she takes next has room for a read and the NUL. -/
structure Unbroken (useBuffers : Int) (state : Jane.State) : Prop where
  running : ∀ fault, state.jane.place ≠ .aborted fault
  block : ∀ buffer asgard, state.jane.finishedReading = true → renewBuffer state.jane = .ok (buffer,asgard) →
    0 ≤ readSize useBuffers ∧ readSize useBuffers+1 ≤ useBuffers*1024 ∧
      getOffset asgard buffer+useBuffers*1024 ≤ state.segment.length

structure Safe (jane : JaneConfig) (thor : ThorConfig) : Prop where
  range : 2 ≤ jane.buffers ∧ jane.buffers ≤ 102399
  same : thor.buffers = jane.buffers
  uses : 1 ≤ jane.useBuffers ∧ jane.useBuffers ≤ jane.buffers
  input : ∃ name, setInputFile jane.inputTextFile = .ok name
  output : thor.outputTextFile ≠ none
  pattern : thor.doSearch = 1 → thor.pattern ≠ none
  runs : ∀ md5 dataPtr inputFile segment trace final, segment.length = initMemory jane.buffers →
    Run (Jane.Step md5) ⟨.initial dataPtr jane.buffers.toNat jane.useBuffers.toNat inputFile,segment⟩ trace final →
    Unbroken jane.useBuffers final

/-- The numbers and names that the configuration is not checked for. -/
structure Complete (sections : List Section) : Prop where
  uses : 1 ≤ firstNumber USE_BUFFERS (pairsOf JANE sections) ∧
    firstNumber USE_BUFFERS (pairsOf JANE sections) ≤ firstNumber BUFFERS (pairsOf JANE sections)
  input : firstText INPUT_TEXT_FILE (pairsOf JANE sections) ≠ none
  output : firstText OUTPUT_TEXT_FILE (pairsOf THOR sections) ≠ none

theorem setInputFile_iff (ipFile : Option Bytes) : (∃ name, setInputFile ipFile = .ok name) ↔ ipFile ≠ none := by
  cases ipFile with
  | none => exact iff_of_false (fun ⟨_,ran⟩ => nomatch ran) (fun some_file => some_file rfl)
  | some name => exact iff_of_true ⟨name,rfl⟩ (Option.some_ne_none name)

section Runs
variable {md5 : Bytes → Digest} {dataPtr : Int} {buffers u : Nat} {file : Bytes}

theorem unbroken_of_inv (top : (buffers : Int) ≤ INT_MAX) (positive : 1 ≤ u) (fits : u ≤ buffers) (state : Jane.State)
    (inv : Inv md5 dataPtr buffers u file state.jane state.segment) : Unbroken u state where
  running := inv.running
  block := by
    intro buffer asgard reading renewed
    have hasBlock : HasBlock dataPtr buffers u state.jane := by
      cases inv.situation with
      | fresh facts => exact .inl ⟨facts.buffer,facts.pools⟩
      | loaded facts => exact .inr ⟨facts.buffer,facts.pools⟩
      | drained facts =>
        rw [facts.done] at reading
        cases reading
    have taken := renewBuffer_eq top positive fits inv.common hasBlock
    obtain ⟨rfl,rfl⟩ := Prod.mk.inj (Except.ok.inj (renewed.symm.trans taken))
    rw [offset_eq,inv.common.room]
    unfold readSize BIG_ENOUGH
    omega

theorem run_unbroken (top : (buffers : Int) ≤ INT_MAX) (positive : 1 ≤ u) (fits : u ≤ buffers) (segment : Bytes)
    (room : segment.length = (buffers+1)*1024) (trace : List (Jane.State × Outcome)) (final : Jane.State)
    (run : Run (Jane.Step md5) ⟨.initial dataPtr buffers u file,segment⟩ trace final) : Unbroken u final := by
  have kept := run.invariant (fun state => Inv md5 dataPtr buffers u file state.jane state.segment) (fun _ _ => True)
    (initial_inv md5 dataPtr buffers u file segment room)
    (fun state outcome next inv _ taken => (Jane.step_inv top positive fits state outcome next inv taken).1)
    (fun _ _ => trivial)
  exact unbroken_of_inv top positive fits final kept.2

end Runs

/-- An accepted configuration is safe exactly when the file gives what is not checked. -/
theorem accepted_safe (file : Bytes) (jane : JaneConfig) (thor : ThorConfig)
    (accepted : asgardConfigRead file = .ok (.returned true jane thor)) :
    ∃ sections, iniParse file = .ok sections ∧ (Safe jane thor ↔ Complete sections) := by
  obtain ⟨sections,parsed,read,positive,same,pattern⟩ := asgardConfigRead_accepts file jane thor accepted
  obtain ⟨janeRead,thorRead⟩ := readSections_some _ _ _ _ _ read
  obtain ⟨input,uses,buffers,inRange⟩ := janePair_fields _ _ janeRead
  have output := thorPair_fields _ _ thorRead
  have range : 2 ≤ jane.buffers ∧ jane.buffers ≤ 102399 := inRange.resolve_left (by omega)
  refine ⟨sections,parsed,?_,?_⟩
  · intro safe
    refine ⟨?_,?_,?_⟩
    · rw [← uses,← buffers]
      exact safe.uses
    · rw [← input]
      exact (setInputFile_iff _).mp safe.input
    · rw [← output]
      exact safe.output
  · intro complete
    obtain ⟨low,high⟩ := complete.uses
    rw [← uses] at low high
    rw [← buffers] at high
    refine ⟨range,same.symm,⟨low,high⟩,(setInputFile_iff _).mpr (input ▸ complete.input),output ▸ complete.output,
      fun searches => pattern searches.symm,?_⟩
    intro md5 dataPtr inputFile segment trace final room run
    obtain ⟨u,counted⟩ := Int.eq_ofNat_of_zero_le (by omega : 0 ≤ jane.useBuffers)
    obtain ⟨members,all⟩ := Int.eq_ofNat_of_zero_le (by omega : 0 ≤ jane.buffers)
    rw [counted,all,Int.toNat_natCast,Int.toNat_natCast] at run
    have size : segment.length = (members+1)*1024 := by
      rw [room,all]
      unfold initMemory
      omega
    rw [counted]
    exact run_unbroken (by unfold INT_MAX; omega) (by omega) (by omega) segment size trace final run

/-- With an accepted configuration every product of ints that the model leaves exact is in range: the size of
the segment, the place of a block whose id is in the pools, and the size of a read. -/
theorem accepted_products (file : Bytes) (jane : JaneConfig) (thor : ThorConfig)
    (accepted : asgardConfigRead file = .ok (.returned true jane thor)) :
    wrap32 (wrap32 (jane.buffers*1024)+1024) = initMemory jane.buffers ∧
    (∀ id, 0 ≤ id → id ≤ jane.buffers → wrap32 (id*1024) = id*1024) ∧
    (1 ≤ jane.useBuffers → jane.useBuffers ≤ jane.buffers →
      wrap32 (wrap32 (jane.useBuffers*1024)-1) = chunkSize jane.useBuffers.toNat) := by
  obtain ⟨sections,_,read,positive,_⟩ := asgardConfigRead_accepts file jane thor accepted
  obtain ⟨_,_,_,inRange⟩ := janePair_fields _ _ (readSections_some _ _ _ _ _ read).1
  have high : jane.buffers ≤ 102399 := (inRange.resolve_left (by omega)).2
  have small : ∀ x, 0 ≤ x → x ≤ 102400*1024 → wrap32 x = x := fun x low top =>
    (wrap32_eq_self x low).mpr (by unfold INT_MAX; omega)
  refine ⟨?_,fun id low top => small _ (by omega) (by omega),fun some_used fits => ?_⟩
  · rw [small (jane.buffers*1024) (by omega) (by omega),small _ (by omega) (by omega)]
    unfold initMemory
    omega
  · rw [small (jane.useBuffers*1024) (by omega) (by omega),small _ (by omega) (by omega)]
    unfold chunkSize BIG_ENOUGH
    omega

/-- A file with two buffers, of which the given number are used at once. -/
def sampleFile (used : Char) : Bytes :=
  let producer := char '['::(JANE ++ ascii [']','\n']) ++ (INPUT_TEXT_FILE ++ ascii ['=','a','\n']) ++
    (BUFFERS ++ ascii ['=','2','\n']) ++ (USE_BUFFERS ++ ascii ['=',used,'\n']) ++ (PORT ++ ascii ['=','1','\n'])
  let consumer := char '['::(THOR ++ ascii [']','\n']) ++ (OUTPUT_TEXT_FILE ++ ascii ['=','b','\n']) ++
    (BUFFERS ++ ascii ['=','2','\n']) ++ (PORT ++ ascii ['=','1','\n'])
  producer ++ consumer

theorem accepted_safe_one : Safe ⟨some (ascii ['a']),2,1,1⟩ ⟨some (ascii ['b']),none,2,0,1⟩ := by
  obtain ⟨sections,parsed,exactly⟩ := accepted_safe (sampleFile '1') ⟨some (ascii ['a']),2,1,1⟩
    ⟨some (ascii ['b']),none,2,0,1⟩ (by decide +kernel)
  have sections_eq : iniParse (sampleFile '1') = .ok [⟨JANE,[⟨INPUT_TEXT_FILE,ascii ['a']⟩,⟨BUFFERS,ascii ['2']⟩,
      ⟨USE_BUFFERS,ascii ['1']⟩,⟨PORT,ascii ['1']⟩]⟩,⟨THOR,[⟨OUTPUT_TEXT_FILE,ascii ['b']⟩,⟨BUFFERS,ascii ['2']⟩,
      ⟨PORT,ascii ['1']⟩]⟩] := by decide +kernel
  obtain rfl := Except.ok.inj (parsed.symm.trans sections_eq)
  exact exactly.mpr ⟨by decide +kernel,by decide +kernel,by decide +kernel⟩

/-- Three buffers of two are to be used at once: the file is accepted, and Jane's first
call of `shm_alloc` fails its assertion. -/
theorem accepted_unsafe :
    asgardConfigRead (sampleFile '3') =
      .ok (.returned true ⟨some (ascii ['a']),2,3,1⟩ ⟨some (ascii ['b']),none,2,0,1⟩) ∧
    (∃ trace final, Run (Jane.Step knownMd5) ⟨.initial 0 2 3 (ascii ['a','b','c']),List.replicate 3072 0⟩ trace final ∧
      final.jane.place = .aborted .assert) ∧
    ¬ Safe ⟨some (ascii ['a']),2,3,1⟩ ⟨some (ascii ['b']),none,2,0,1⟩ := by
  refine ⟨by decide +kernel,?_,fun safe => absurd safe.uses (by decide)⟩
  have start : Run (Jane.Step knownMd5) ⟨.initial 0 2 3 (ascii ['a','b','c']),List.replicate 3072 0⟩ [_] _ :=
    .single _ _ _ (.connect _ rfl)
  exact ⟨_,_,start.append (.single _ _ _ (.prepare _ rfl)),by decide +kernel⟩

end Spsc.IniParser
