import Spsc.IniParser.Config

/-! What `asgard_config_read` comes to: of every key the first text, or the first number that is not
zero, in the PRODUCER or CONSUMER sections, whatever sections lie between them, and the checks that these
values have to pass. -/
namespace Spsc.IniParser
open Imperative Wire

/-- The first number of buffers, if there is one, is one that the program does not exit at. -/
def BuffersFit (pairs : List IniPair) : Prop :=
  ∀ pair ∈ pairs.find? (fun pair => pair.key = BUFFERS), 2 ≤ atoi pair.value ∧ atoi pair.value ≤ 102399

instance (pairs : List IniPair) : Decidable (BuffersFit pairs) := by
  unfold BuffersFit
  infer_instance

def janeConfig (pairs : List IniPair) : JaneConfig where
  inputTextFile := firstText INPUT_TEXT_FILE pairs
  buffers := firstNumber BUFFERS pairs
  useBuffers := firstNumber USE_BUFFERS pairs
  port := firstNumber PORT pairs

def thorConfig (pairs : List IniPair) : ThorConfig where
  outputTextFile := firstText OUTPUT_TEXT_FILE pairs
  pattern := firstText PATTERN pairs
  buffers := firstNumber BUFFERS pairs
  doSearch := firstNumber DO_SEARCH pairs
  port := firstNumber PORT pairs

/-- The two configurations go together. The number of buffers that Jane uses at once is not looked at. -/
structure Agree (jane : JaneConfig) (thor : ThorConfig) : Prop where
  buffers : 0 < jane.buffers ∧ jane.buffers = thor.buffers
  search : thor.doSearch = 0 ∨ thor.doSearch = 1
  port : jane.port ≠ 0 ∧ jane.port = thor.port

instance (jane : JaneConfig) (thor : ThorConfig) : Decidable (Agree jane thor) :=
  decidable_of_iff ((0 < jane.buffers ∧ jane.buffers = thor.buffers) ∧ (thor.doSearch = 0 ∨ thor.doSearch = 1) ∧
    jane.port ≠ 0 ∧ jane.port = thor.port)
    ⟨fun all => ⟨all.1,all.2.1,all.2.2⟩,fun agree => ⟨agree.buffers,agree.search,agree.port⟩⟩

def decision (producer consumer : List IniPair) : C ConfigRead :=
  let jane := janeConfig producer
  let thor := thorConfig consumer
  if ¬ (BuffersFit producer ∧ BuffersFit consumer) then .ok .exited else
  if ¬ Agree jane thor then .ok (.returned false jane thor) else
  if thor.doSearch = 1 ∧ thor.pattern = none then .error .assert else
  .ok (.returned true jane thor)

section Fold
variable {σ : Type} (step : σ → IniPair → Option σ) (field : σ → Int)
  (reads : ∀ s pair, (step s pair).map field = setBuffers (field s) pair)
include reads

theorem foldlM_set (pairs : List IniPair) (s : σ) (set : field s ≠ 0) : (pairs.foldlM step s).isSome = true := by
  induction pairs generalizing s with
  | nil => rfl
  | cons pair pairs ih =>
    have read := reads s pair
    rw [setBuffers,if_neg (fun both => set both.1)] at read
    obtain ⟨next,taken,same⟩ := Option.map_eq_some_iff.mp read
    rw [List.foldlM_cons,taken]
    exact ih next (same ▸ set)

/-- The loop goes through exactly when the first number of buffers does. -/
theorem foldlM_fits (pairs : List IniPair) (s : σ) (unset : field s = 0) :
    (pairs.foldlM step s).isSome = true ↔ BuffersFit pairs := by
  induction pairs generalizing s with
  | nil => simp [BuffersFit]
  | cons pair pairs ih =>
    have read := reads s pair
    rw [List.foldlM_cons]
    by_cases named : pair.key = BUFFERS
    · have first : BuffersFit (pair::pairs) ↔ 2 ≤ atoi pair.value ∧ atoi pair.value ≤ 102399 := by
        simp [BuffersFit,named]
      rw [setBuffers,if_pos ⟨unset,named⟩] at read
      simp only at read
      rw [first]
      split at read
      · next outside =>
        rw [Option.map_eq_none_iff.mp read]
        exact iff_of_false (by simp) (by omega)
      · next inside =>
        obtain ⟨next,taken,same⟩ := Option.map_eq_some_iff.mp read
        rw [taken]
        exact iff_of_true (foldlM_set step field reads pairs next (by omega)) (by omega)
    · have later : BuffersFit (pair::pairs) ↔ BuffersFit pairs := by simp [BuffersFit,named]
      rw [setBuffers,if_neg (fun both => named both.2)] at read
      obtain ⟨next,taken,same⟩ := Option.map_eq_some_iff.mp read
      rw [taken,later]
      exact ih next (same.trans unset)

end Fold

theorem janePairs_eq (pairs : List IniPair) :
    pairs.foldlM janePair ⟨none,0,0,0⟩ = if BuffersFit pairs then some (janeConfig pairs) else none := by
  have fits := foldlM_fits janePair JaneConfig.buffers (by
    intro jane pair
    unfold janePair
    cases setBuffers jane.buffers pair <;> rfl) pairs ⟨none,0,0,0⟩ rfl
  split
  · next inside =>
    obtain ⟨jane,ran⟩ := Option.isSome_iff_exists.mp (fits.mpr inside)
    obtain ⟨input,uses,buffers,_⟩ := janePair_fields pairs jane ran
    have port := foldlM_number janePair JaneConfig.port PORT (by
      intro jane pair next read
      obtain ⟨buffers,_,rest⟩ := Option.bind_eq_some_iff.mp read
      obtain rfl := Option.some.inj rest
      rfl) pairs _ _ ran
    rw [ran]
    obtain ⟨inputTextFile,found,used,entry⟩ := jane
    simp only at input uses buffers port
    rw [janeConfig,input,uses,buffers,port]
    rfl
  · next outside => exact Option.not_isSome_iff_eq_none.mp (fun through => outside (fits.mp through))

theorem thorPairs_eq (pairs : List IniPair) :
    pairs.foldlM thorPair ⟨none,none,0,0,0⟩ = if BuffersFit pairs then some (thorConfig pairs) else none := by
  have fits := foldlM_fits thorPair ThorConfig.buffers (by
    intro thor pair
    unfold thorPair
    cases setBuffers thor.buffers pair <;> rfl) pairs ⟨none,none,0,0,0⟩ rfl
  split
  · next inside =>
    obtain ⟨thor,ran⟩ := Option.isSome_iff_exists.mp (fits.mpr inside)
    have sets : ∀ thor pair next, thorPair thor pair = some next →
        next.pattern = setText thor.pattern PATTERN pair ∧ next.buffers = setNumber thor.buffers BUFFERS pair ∧
          next.doSearch = setNumber thor.doSearch DO_SEARCH pair ∧ next.port = setNumber thor.port PORT pair := by
      intro thor pair next read
      obtain ⟨buffers,set,rest⟩ := Option.bind_eq_some_iff.mp read
      obtain rfl := Option.some.inj rest
      exact ⟨rfl,(setBuffers_some _ _ _ set).1,rfl,rfl⟩
    have output := thorPair_fields pairs thor ran
    have pattern := foldlM_text thorPair ThorConfig.pattern PATTERN
      (fun thor pair next read => (sets thor pair next read).1) pairs _ _ ran
    have buffers := foldlM_number thorPair ThorConfig.buffers BUFFERS
      (fun thor pair next read => (sets thor pair next read).2.1) pairs _ _ ran
    have search := foldlM_number thorPair ThorConfig.doSearch DO_SEARCH
      (fun thor pair next read => (sets thor pair next read).2.2.1) pairs _ _ ran
    have port := foldlM_number thorPair ThorConfig.port PORT
      (fun thor pair next read => (sets thor pair next read).2.2.2) pairs _ _ ran
    rw [ran]
    obtain ⟨outputTextFile,text,found,searches,entry⟩ := thor
    simp only [if_true,Option.none_or] at output pattern buffers search port
    rw [thorConfig,output,pattern,buffers,search,port]
  · next outside => exact Option.not_isSome_iff_eq_none.mp (fun through => outside (fits.mp through))

theorem readPairs_foldlM {σ : Type} (name : Bytes) (step : σ → IniPair → Option σ) (config : σ) (s : Section)
    (sections : List Section) : (pairsOf name (s::sections)).foldlM step config =
      (readPairs name step config s).bind (fun next => (pairsOf name sections).foldlM step next) := by
  unfold readPairs
  split
  · next named =>
    have first : pairsOf name (s::sections) = s.configPair ++ pairsOf name sections := by simp [pairsOf,named]
    rw [first,List.foldlM_append]
    rfl
  · next other =>
    have later : pairsOf name (s::sections) = pairsOf name sections := by simp [pairsOf,other]
    rw [later]
    rfl

/-- The loop over the sections reads the two kinds of them independently. -/
theorem readSections_apart (sections : List Section) (jane : JaneConfig) (thor : ThorConfig) :
    sections.foldlM readSection (jane,thor) =
      ((pairsOf JANE sections).foldlM janePair jane).bind (fun jane =>
        ((pairsOf THOR sections).foldlM thorPair thor).bind (fun thor => some (jane,thor))) := by
  induction sections generalizing jane thor with
  | nil => rfl
  | cons s sections ih =>
    rw [List.foldlM_cons,readPairs_foldlM,readPairs_foldlM]
    unfold readSection
    simp only [bind]
    cases readPairs JANE janePair jane s with
    | none => rfl
    | some jane =>
      cases readPairs THOR thorPair thor s with
      | none => simp
      | some thor => exact ih jane thor

theorem readSections_eq (sections : List Section) :
    readSections sections =
      if BuffersFit (pairsOf JANE sections) ∧ BuffersFit (pairsOf THOR sections) then
        some (janeConfig (pairsOf JANE sections),thorConfig (pairsOf THOR sections))
      else none := by
  rw [readSections,readSections_apart,janePairs_eq,thorPairs_eq]
  by_cases jane : BuffersFit (pairsOf JANE sections)
  · by_cases thor : BuffersFit (pairsOf THOR sections) <;> simp [jane,thor]
  · simp [jane]

theorem asgardConfigRead_decides (file : Bytes) (sections : List Section) (parsed : iniParse file = .ok sections) :
    asgardConfigRead file = decision (pairsOf JANE sections) (pairsOf THOR sections) := by
  unfold asgardConfigRead
  rw [parsed]
  simp only [bind,Except.bind]
  rw [readSections_eq,decision]
  generalize janeConfig (pairsOf JANE sections) = jane
  generalize thorConfig (pairsOf THOR sections) = thor
  by_cases fit : BuffersFit (pairsOf JANE sections) ∧ BuffersFit (pairsOf THOR sections)
  · rw [if_pos fit,if_neg (not_not.mpr fit)]
    simp only
    -- what the source asks of the number of buffers used at once is never true
    have idle : ¬ (0 ≥ jane.useBuffers ∧ jane.useBuffers > jane.buffers) ∨ ¬ 0 < jane.buffers := by omega
    by_cases buffers : 0 < jane.buffers ∧ jane.buffers = thor.buffers
    · have idle := idle.resolve_right (fun none => none buffers.1)
      rw [if_neg (not_not.mpr buffers),if_neg idle]
      by_cases search : thor.doSearch = 0 ∨ thor.doSearch = 1
      · rw [if_neg (by omega)]
        by_cases port : jane.port ≠ 0 ∧ jane.port = thor.port
        · rw [if_neg (by omega),if_neg (not_not.mpr (show Agree jane thor from ⟨buffers,search,port⟩))]
          by_cases searches : thor.doSearch = 1
          · rw [if_pos searches.symm]
            cases text : thor.pattern with
            | none => simp [assert,searches]
            | some pattern => simp [assert]
          · rw [if_neg (Ne.symm searches),if_neg (fun both => searches both.1)]
        · rw [if_pos (by omega),if_pos (fun agree => port agree.port)]
      · rw [if_pos (by omega),if_pos (fun agree => search agree.search)]
    · rw [if_pos buffers,if_pos (fun agree => buffers agree.buffers)]
  · rw [if_neg fit,if_pos fit]

/-- The texts that `read_line` sets end at their NUL. -/
def Entry.Solid : Entry → Prop
  | .header name => 0 ∉ name
  | .pair k v => 0 ∉ k ∧ 0 ∉ v

theorem cString_solid (buffer text : Bytes) (read : cString buffer = .ok text) : 0 ∉ text := by
  unfold cString at read
  split at read
  · obtain rfl := Except.ok.inj read
    intro member
    exact absurd (List.mem_takeWhile_imp member) (by decide)
  · cases read

theorem atEnd_solid (place : Place) (s rest left : Bytes) (k : Option Bytes) (entry : Entry)
    (solid : ∀ key, k = some key → 0 ∉ key)
    (ran : (do .ok (← atEnd place s k,rest) : C (Option Entry × Bytes)) = .ok (some entry,left)) : entry.Solid := by
  obtain ⟨_,made,last⟩ := bind_ok _ _ _ ran
  obtain ⟨rfl,_⟩ := Prod.mk.inj (Except.ok.inj last)
  unfold atEnd at made
  split at made
  · obtain ⟨v,read,last⟩ := bind_ok _ _ _ made
    obtain rfl := Option.some.inj (Except.ok.inj last)
    exact ⟨solid _ rfl,cString_solid _ _ read⟩
  · cases made

theorem readLine_solid (file : Bytes) (place : Place) (s : Bytes) (i : Nat) (k : Option Bytes) (entry : Entry) (rest : Bytes)
    (solid : ∀ key, k = some key → 0 ∉ key) (ran : readLine place s i k file = .ok (some entry,rest)) : entry.Solid := by
  induction file generalizing place s i k with
  | nil => exact atEnd_solid _ _ _ _ _ _ solid ran
  | cons ch behind ih =>
    rw [readLine] at ran
    cases acts : act place k.isSome ch with
    | skip place' =>
      rw [acts] at ran
      exact ih _ _ _ _ solid ran
    | keep place' =>
      rw [acts] at ran
      obtain ⟨_,_,ran⟩ := bind_ok _ _ _ ran
      exact ih _ _ _ _ solid ran
    | key =>
      rw [acts] at ran
      obtain ⟨key,read,ran⟩ := bind_ok _ _ _ ran
      refine ih _ _ _ _ (fun key' same => ?_) ran
      obtain rfl := Option.some.inj same
      exact cString_solid _ _ read
    | name =>
      rw [acts] at ran
      obtain ⟨name,read,last⟩ := bind_ok _ _ _ ran
      obtain ⟨same,_⟩ := Prod.mk.inj (Except.ok.inj last)
      obtain rfl := Option.some.inj same
      exact cString_solid _ _ read
    | value =>
      rw [acts] at ran
      obtain ⟨v,read,last⟩ := bind_ok _ _ _ ran
      obtain ⟨same,_⟩ := Prod.mk.inj (Except.ok.inj last)
      obtain rfl := Option.some.inj same
      refine ⟨?_,cString_solid _ _ read⟩
      cases k with
      | none => exact List.not_mem_nil
      | some key => exact solid key rfl
    | stop =>
      rw [acts] at ran
      cases ran

def SolidPairs (sections : List Section) : Prop := ∀ s ∈ sections, ∀ pair ∈ s.configPair, 0 ∉ pair.key ∧ 0 ∉ pair.value

theorem addEntry_solid (sections grown : List Section) (entry : Entry) (solid : SolidPairs sections)
    (entrySolid : entry.Solid) (added : addEntry sections entry = .ok grown) : SolidPairs grown := by
  cases (addEntry_added _ _ _).mp added with
  | header _ name _ => exact List.forall_mem_append.mpr ⟨solid,by simp⟩
  | pair earlier currSection k v _ =>
    obtain ⟨before,current⟩ := List.forall_mem_append.mp solid
    refine List.forall_mem_append.mpr ⟨before,List.forall_mem_singleton.mpr (List.forall_mem_append.mpr ⟨?_,?_⟩)⟩
    · exact current currSection List.mem_cons_self
    · exact List.forall_mem_singleton.mpr entrySolid

theorem iniParse_solid (file : Bytes) (sections : List Section) (ran : iniParse file = .ok sections) :
    SolidPairs sections := by
  suffices all : ∀ turns before (file : Bytes), SolidPairs before → parseFrom turns before file = .ok sections →
      SolidPairs sections from all _ [] file (by simp [SolidPairs]) ran
  intro turns
  induction turns with
  | zero => exact fun _ _ _ none => by cases none
  | succ turns ih =>
    intro before file solid ran
    obtain ⟨⟨entry,rest⟩,read,ran⟩ := bind_ok _ _ _ ran
    cases entry with
    | none => exact Except.ok.inj ran ▸ solid
    | some entry =>
      obtain ⟨grown,added,ran⟩ := bind_ok _ _ _ ran
      have entrySolid := readLine_solid file _ _ _ none entry rest (by simp) read
      exact ih grown rest (addEntry_solid _ _ _ solid entrySolid added) ran

theorem firstText_solid (name : Bytes) (kind : Bytes) (sections : List Section) (solid : SolidPairs sections) (text : Bytes)
    (found : firstText name (pairsOf kind sections) = some text) : 0 ∉ text := by
  obtain ⟨pair,here,rfl⟩ := Option.map_eq_some_iff.mp found
  obtain ⟨s,listed,inside⟩ := List.mem_flatMap.mp (List.mem_of_find?_eq_some here)
  exact (solid s (List.mem_of_mem_filter listed) pair inside).2

/-- Whatever the order of the sections and what lies between them: the program exits at a first number of
buffers out of range, and otherwise accepts the first values of the keys exactly when they agree. -/
theorem asgardConfigRead_exact (file : Bytes) :
    asgardConfigRead file =
      iniParse file >>= fun sections => decision (pairsOf JANE sections) (pairsOf THOR sections) := by
  cases parsed : iniParse file with
  | error fault =>
    unfold asgardConfigRead
    rw [parsed]
    rfl
  | ok sections => exact asgardConfigRead_decides file sections parsed

end Spsc.IniParser
