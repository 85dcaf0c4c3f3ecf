import Spsc.Thor

/-! The file that Thor appends to, and his handle on it. `fopen` may fail at any call, and a
process starts without a handle. -/
namespace Spsc.Thor
open Imperative Wire

/-- The file of the name `thor_output_file_str`, if there is one, and whether
`thor_output_file` is open. -/
structure OutputFile where
  disk : Option Bytes
  thorOutputFile : Bool
  deriving DecidableEq, Repr

def OutputFile.contents (file : OutputFile) : Bytes := file.disk.getD []

/-- `server_flush_transaction`, where `opens` tells what `fopen` does; the file is opened
to append. -/
def OutputFile.flushTransaction (file : OutputFile) (opens : Bool) (data : Bytes) : C OutputFile := do
  let thorOutputFile := if file.thorOutputFile then true else opens
  assert (thorOutputFile = true)
  .ok ⟨some (file.contents ++ data),thorOutputFile⟩

/-- `server_truncate_output_file`. An `fopen` that fails leaves `fclose` with NULL. -/
def OutputFile.truncateOutputFile (file : OutputFile) (opens : Bool) : C OutputFile :=
  if file.thorOutputFile = false then .ok file
  else if opens then .ok ⟨some [],false⟩
  else .error .bounds

inductive FileCall where
  | flush (data : Bytes)
  | truncate
  deriving DecidableEq, Repr

def FileCall.data : FileCall → Bytes
  | .flush data => data
  | .truncate => []

def OutputFile.call (file : OutputFile) : FileCall × Bool → C OutputFile
  | (.flush data,opens) => file.flushTransaction opens data
  | (.truncate,opens) => file.truncateOutputFile opens

def OutputFile.process (file : OutputFile) (calls : List (FileCall × Bool)) : C OutputFile :=
  calls.foldlM OutputFile.call { file with thorOutputFile := false }

def flushed (calls : List (FileCall × Bool)) : Bytes := calls.flatMap (fun call => call.1.data)

/-- A process that truncates the file after it has written to it. -/
def Wipes (calls : List (FileCall × Bool)) : Prop :=
  ∃ written opens rest, calls = written ++ (.truncate,opens)::rest ∧ ∃ call ∈ written, call.1 ≠ .truncate

section Calls
variable {file next : OutputFile} {opens : Bool}

theorem flush_ok (data : Bytes) (ran : file.flushTransaction opens data = .ok next) :
    next.contents = file.contents ++ data ∧ next.thorOutputFile = true := by
  obtain ⟨_,passed,rest⟩ := bind_ok _ _ _ ran
  obtain rfl := Except.ok.inj rest
  exact ⟨rfl,assert_ok _ passed⟩

theorem truncate_ok (ran : file.truncateOutputFile opens = .ok next) :
    file.thorOutputFile = false ∧ next = file ∨ next.contents = [] ∧ next.thorOutputFile = false := by
  unfold OutputFile.truncateOutputFile at ran
  split at ran
  · next closed => exact .inl ⟨closed,(Except.ok.inj ran).symm⟩
  · split at ran
    · obtain rfl := Except.ok.inj ran
      exact .inr ⟨rfl,rfl⟩
    · cases ran

end Calls

theorem flushed_append (first second : List (FileCall × Bool)) :
    flushed (first ++ second) = flushed first ++ flushed second := List.flatMap_append

theorem foldlM_snoc (calls : List (FileCall × Bool)) (call : FileCall × Bool) (start final : OutputFile)
    (ran : (calls ++ [call]).foldlM OutputFile.call start = .ok final) :
    ∃ before, calls.foldlM OutputFile.call start = .ok before ∧ before.call call = .ok final := by
  rw [List.foldlM_append] at ran
  obtain ⟨before,first,last⟩ := bind_ok _ _ _ ran
  rw [List.foldlM_cons] at last
  obtain ⟨after,taken,rest⟩ := bind_ok _ _ _ last
  obtain rfl := Except.ok.inj rest
  exact ⟨before,first,taken⟩

theorem wipes_append (calls rest : List (FileCall × Bool)) (wipes : Wipes calls) : Wipes (calls ++ rest) := by
  obtain ⟨written,opens,after,rfl,some_written⟩ := wipes
  exact ⟨written,opens,after ++ rest,by simp,some_written⟩

/-- Nothing is lost in a process that does not wipe the file; the handle is open only
behind a flush. -/
theorem process_keeps (calls : List (FileCall × Bool)) (start final : OutputFile) (closed : start.thorOutputFile = false)
    (safe : ¬ Wipes calls) (ran : calls.foldlM OutputFile.call start = .ok final) :
    final.contents = start.contents ++ flushed calls ∧
      (final.thorOutputFile = true → ∃ call ∈ calls, call.1 ≠ .truncate) := by
  induction calls using List.reverseRecOn generalizing final with
  | nil =>
    obtain rfl := Except.ok.inj ran
    exact ⟨(List.append_nil _).symm,fun isOpen => by rw [closed] at isOpen; cases isOpen⟩
  | append_singleton calls call ih =>
    obtain ⟨before,first,last⟩ := foldlM_snoc calls call start final ran
    obtain ⟨kept,behind⟩ := ih before (fun wipes => safe (wipes_append calls [call] wipes)) first
    rw [flushed_append,← List.append_assoc,← kept]
    obtain ⟨call,opens⟩ := call
    cases call with
    | flush data =>
      obtain ⟨grown,_⟩ := flush_ok data last
      exact ⟨by rw [grown]; simp [flushed,FileCall.data],fun _ => ⟨(.flush data,opens),by simp,by simp⟩⟩
    | truncate =>
      have shut : before.thorOutputFile = false := by
        rw [Bool.eq_false_iff]
        intro isOpen
        exact safe ⟨calls,opens,[],rfl,behind isOpen⟩
      obtain rfl : final = before := by
        change before.truncateOutputFile opens = .ok final at last
        rw [OutputFile.truncateOutputFile,if_pos shut] at last
        exact (Except.ok.inj last).symm
      exact ⟨by simp [flushed,FileCall.data],fun isOpen => by rw [shut] at isOpen; cases isOpen⟩

/-- Behind a flush the file is empty whenever the handle is closed. -/
theorem process_open (calls : List (FileCall × Bool)) (start final : OutputFile) (some_written : ∃ call ∈ calls, call.1 ≠ .truncate)
    (ran : calls.foldlM OutputFile.call start = .ok final) : final.thorOutputFile = true ∨ final.contents = [] := by
  induction calls using List.reverseRecOn generalizing final with
  | nil =>
    obtain ⟨_,member,_⟩ := some_written
    cases member
  | append_singleton calls call ih =>
    obtain ⟨before,first,last⟩ := foldlM_snoc calls call start final ran
    obtain ⟨call,opens⟩ := call
    cases call with
    | flush data => exact .inl (flush_ok data last).2
    | truncate =>
      rcases truncate_ok last with ⟨closed,rfl⟩ | ⟨emptied,_⟩
      · obtain ⟨other,member,writes⟩ := some_written
        rcases List.mem_append.mp member with old | new
        · exact ih final ⟨other,old,writes⟩ first
        · rw [List.mem_singleton.mp new] at writes
          exact absurd rfl writes
      · exact .inr emptied

/-- What a process that wipes the file leaves in it. -/
theorem process_wipes (written rest : List (FileCall × Bool)) (opens : Bool) (start final : OutputFile)
    (some_written : ∃ call ∈ written, call.1 ≠ .truncate) (last : ∀ call ∈ rest, call.1 ≠ .truncate)
    (ran : (written ++ (.truncate,opens)::rest).foldlM OutputFile.call start = .ok final) : final.contents = flushed rest := by
  rw [List.foldlM_append] at ran
  obtain ⟨before,first,tail⟩ := bind_ok _ _ _ ran
  rw [List.foldlM_cons] at tail
  obtain ⟨emptied,truncated,tail⟩ := bind_ok _ _ _ tail
  obtain ⟨closed,nothing⟩ : emptied.thorOutputFile = false ∧ emptied.contents = [] := by
    rcases truncate_ok truncated with ⟨closed,rfl⟩ | ⟨nothing,closed⟩
    · exact ⟨closed,(process_open written start emptied some_written first).resolve_left (by simp [closed])⟩
    · exact ⟨closed,nothing⟩
  have safe : ¬ Wipes rest := by
    rintro ⟨_,opens,_,rfl,_⟩
    exact last (.truncate,opens) (by simp) rfl
  rw [(process_keeps rest emptied final closed safe tail).1,nothing,List.nil_append]

theorem processes_keep (processes : List (List (FileCall × Bool))) (start final : OutputFile)
    (safe : ∀ calls ∈ processes, ¬ Wipes calls) (ran : processes.foldlM OutputFile.process start = .ok final) :
    final.contents = start.contents ++ flushed processes.flatten := by
  induction processes generalizing start with
  | nil =>
    obtain rfl := Except.ok.inj ran
    exact (List.append_nil _).symm
  | cons calls rest ih =>
    rw [List.foldlM_cons] at ran
    obtain ⟨next,first,tail⟩ := bind_ok _ _ _ ran
    have kept := (process_keeps calls _ next rfl (safe calls List.mem_cons_self) first).1
    rw [ih next (fun other member => safe other (List.mem_cons_of_mem _ member)) tail,kept,List.flatten_cons,flushed_append,
      List.append_assoc]
    rfl

/-- The calls that append `blocks`, where `fopen` opens the file or does not. -/
def flushes (opens : Bool) (blocks : List Bytes) : List (FileCall × Bool) := blocks.map (fun data => (.flush data,opens))

theorem flushed_flushes (opens : Bool) (blocks : List Bytes) : flushed (flushes opens blocks) = blocks.flatten := by
  rw [flushed,flushes,List.flatMap_map]
  exact List.flatMap_id'

theorem flushes_safe (opens : Bool) (blocks : List Bytes) : ¬ Wipes (flushes opens blocks) := by
  rintro ⟨written,outcome,rest,same,_⟩
  have inside : (FileCall.truncate,outcome) ∈ flushes opens blocks := by
    rw [same]
    simp
  simp [flushes] at inside

theorem flushes_run (blocks : List Bytes) (file : OutputFile) :
    ∃ next, (flushes true blocks).foldlM OutputFile.call file = .ok next ∧
      next.contents = file.contents ++ blocks.flatten := by
  induction blocks generalizing file with
  | nil => exact ⟨file,rfl,(List.append_nil _).symm⟩
  | cons data rest ih =>
    obtain ⟨next,ran,whole⟩ := ih ⟨some (file.contents ++ data),true⟩
    have first : file.call (.flush data,true) = .ok ⟨some (file.contents ++ data),true⟩ := by
      simp only [OutputFile.call,OutputFile.flushTransaction,ite_self]
      rfl
    refine ⟨next,?_,?_⟩
    · rw [flushes,List.map_cons,List.foldlM_cons,first]
      exact ran
    · rw [whole,List.flatten_cons,← List.append_assoc]
      rfl

/-- Where the file is not open and cannot be opened, the first flush stops at the assertion. -/
theorem flushes_closed (blocks : List Bytes) (file : OutputFile) (closed : file.thorOutputFile = false) :
    (flushes false blocks).foldlM OutputFile.call file = if blocks = [] then .ok file else .error .assert := by
  cases blocks with
  | nil => rfl
  | cons data rest =>
    have first : file.call (.flush data,false) = .error .assert := by
      simp only [OutputFile.call,OutputFile.flushTransaction,closed]
      rfl
    rw [flushes,List.map_cons,List.foldlM_cons,first]
    rfl

theorem processes_run (outputs : List (List Bytes)) (file : OutputFile) :
    ∃ next, (outputs.map (flushes true)).foldlM OutputFile.process file = .ok next := by
  induction outputs generalizing file with
  | nil => exact ⟨file,rfl⟩
  | cons blocks rest ih =>
    obtain ⟨middle,first,_⟩ := flushes_run blocks { file with thorOutputFile := false }
    obtain ⟨next,ran⟩ := ih middle
    refine ⟨next,?_⟩
    rw [List.map_cons,List.foldlM_cons,OutputFile.process,first]
    exact ran

/-- The file that any number of processes leave behind holds what it held before and all that was ever
flushed, unless a process truncates it after a flush of its own; then it holds what was flushed behind the
last such truncation. -/
theorem outputFile_contents (processes : List (List (FileCall × Bool))) (old final : OutputFile)
    (ran : processes.foldlM OutputFile.process old = .ok final) :
    ((∀ calls ∈ processes, ¬ Wipes calls) → final.contents = old.contents ++ flushed processes.flatten) ∧
    ∀ earlier later written rest opens, processes = earlier ++ (written ++ (.truncate,opens)::rest)::later →
      (∃ call ∈ written, call.1 ≠ .truncate) → (∀ call ∈ rest, call.1 ≠ .truncate) → (∀ calls ∈ later, ¬ Wipes calls) →
      final.contents = flushed rest ++ flushed later.flatten := by
  refine ⟨fun safe => processes_keep processes old final safe ran,?_⟩
  rintro earlier later written rest opens rfl some_written last safe
  rw [List.foldlM_append] at ran
  obtain ⟨before,_,tail⟩ := bind_ok _ _ _ ran
  rw [List.foldlM_cons] at tail
  obtain ⟨next,wiped,tail⟩ := bind_ok _ _ _ tail
  rw [processes_keep later next final safe tail,process_wipes written rest opens _ next some_written last wiped]

/-- The second process truncates before it writes, which does nothing; the third one after. -/
theorem outputFile_contents_wiped : ∃ final,
    [[(FileCall.flush (ascii ['a']),true)],[(.truncate,true),(.flush (ascii ['b']),true)],
      [(.flush (ascii ['c']),true),(.truncate,true),(.flush (ascii ['d']),true)],[(.flush (ascii ['e']),true)]].foldlM
        OutputFile.process ⟨none,false⟩ = .ok final ∧ final.contents = ascii ['d','e'] := by
  obtain ⟨final,ran⟩ : ∃ final, [[(FileCall.flush (ascii ['a']),true)],[(.truncate,true),(.flush (ascii ['b']),true)],
      [(.flush (ascii ['c']),true),(.truncate,true),(.flush (ascii ['d']),true)],[(.flush (ascii ['e']),true)]].foldlM
        OutputFile.process ⟨none,false⟩ = .ok final := ⟨_,rfl⟩
  refine ⟨final,ran,(outputFile_contents _ _ final ran).2
    [[(.flush (ascii ['a']),true)],[(.truncate,true),(.flush (ascii ['b']),true)]] [[(.flush (ascii ['e']),true)]]
    [(.flush (ascii ['c']),true)] [(.flush (ascii ['d']),true)] true rfl (by decide) (by decide) ?_⟩
  rintro calls member ⟨written,opens,rest,same,_⟩
  rw [List.mem_singleton.mp member] at same
  have inside : (FileCall.truncate,opens) ∈ [(FileCall.flush (ascii ['e']),true)] := by
    rw [same]
    simp
  simp at inside

end Spsc.Thor
