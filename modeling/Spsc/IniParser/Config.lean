import Spsc.IniParser
import Spsc.Wire

/-! `asgard_config_read`: the two configurations that it makes of the sections of the file,
and when it accepts them. -/
namespace Spsc.IniParser
open Imperative Wire

def INPUT_TEXT_FILE : Bytes := ascii ['I','N','P','U','T','_','T','E','X','T','_','F','I','L','E']
def USE_BUFFERS : Bytes := ascii ['U','S','E','_','B','U','F','F','E','R','S']
def BUFFERS : Bytes := ascii ['B','U','F','F','E','R','S']
def PATTERN : Bytes := ascii ['P','A','T','T','E','R','N']
def OUTPUT_TEXT_FILE : Bytes := ascii ['O','U','T','P','U','T','_','T','E','X','T','_','F','I','L','E']
def DO_SEARCH : Bytes := ascii ['D','O','_','S','E','A','R','C','H']
def PORT : Bytes := ascii ['p','o','r','t']
def JANE : Bytes := ascii ['P','R','O','D','U','C','E','R']
def THOR : Bytes := ascii ['C','O','N','S','U','M','E','R']

structure JaneConfig where
  inputTextFile : Option Bytes
  buffers : Int
  useBuffers : Int
  port : Int
  deriving DecidableEq, Repr

structure ThorConfig where
  outputTextFile : Option Bytes
  pattern : Option Bytes
  buffers : Int
  doSearch : Int
  port : Int
  deriving DecidableEq, Repr

/-- A number that is still zero, and a text that is still missing, are set by a pair of their name. -/
def setNumber (old : Int) (name : Bytes) (pair : IniPair) : Int :=
  if old = 0 ∧ pair.key = name then atoi pair.value else old

def setText (old : Option Bytes) (name : Bytes) (pair : IniPair) : Option Bytes :=
  if old = none ∧ pair.key = name then some pair.value else old

/-- The number of buffers, or `none` where the program exits. -/
def setBuffers (old : Int) (pair : IniPair) : Option Int :=
  if old = 0 ∧ pair.key = BUFFERS then
    let buffers := atoi pair.value
    if buffers < 2 ∨ buffers > 102399 then none else some buffers
  else some old

def janePair (jane : JaneConfig) (pair : IniPair) : Option JaneConfig := do
  let buffers ← setBuffers jane.buffers pair
  some { inputTextFile := setText jane.inputTextFile INPUT_TEXT_FILE pair
         buffers := buffers
         useBuffers := setNumber jane.useBuffers USE_BUFFERS pair
         port := setNumber jane.port PORT pair }

def thorPair (thor : ThorConfig) (pair : IniPair) : Option ThorConfig := do
  let buffers ← setBuffers thor.buffers pair
  some { outputTextFile := setText thor.outputTextFile OUTPUT_TEXT_FILE pair
         pattern := setText thor.pattern PATTERN pair
         buffers := buffers
         doSearch := setNumber thor.doSearch DO_SEARCH pair
         port := setNumber thor.port PORT pair }

/-- The loop over the pairs of a section, if it has the name. -/
def readPairs {σ : Type} (name : Bytes) (step : σ → IniPair → Option σ) (config : σ) (s : Section) : Option σ :=
  if s.name = name then s.configPair.foldlM step config else some config

def readSection (configs : JaneConfig × ThorConfig) (s : Section) : Option (JaneConfig × ThorConfig) := do
  let jane ← readPairs JANE janePair configs.1 s
  let thor ← readPairs THOR thorPair configs.2 s
  some (jane,thor)

def readSections (sections : List Section) : Option (JaneConfig × ThorConfig) :=
  sections.foldlM readSection (⟨none,0,0,0⟩,⟨none,none,0,0,0⟩)

inductive ConfigRead where
  | exited
  | returned (value : Bool) (jane : JaneConfig) (thor : ThorConfig)
  deriving DecidableEq, Repr

def asgardConfigRead (file : Bytes) : C ConfigRead := do
  match readSections (← iniParse file) with
  | none => .ok .exited
  | some (jane,thor) =>
    if ¬ (0 < jane.buffers ∧ jane.buffers = thor.buffers) then .ok (.returned false jane thor) else
    if 0 ≥ jane.useBuffers ∧ jane.useBuffers > jane.buffers then .ok (.returned false jane thor) else
    if 0 ≠ thor.doSearch ∧ 1 ≠ thor.doSearch then .ok (.returned false jane thor) else
    if 0 = jane.port ∨ jane.port ≠ thor.port then .ok (.returned false jane thor) else
    if 1 = thor.doSearch then do
      assert (thor.pattern ≠ none)
      .ok (.returned true jane thor)
    else .ok (.returned true jane thor)

/-- The pairs of all sections of a name, in the order of the file. -/
def pairsOf (name : Bytes) (sections : List Section) : List IniPair :=
  (sections.filter (fun s => s.name = name)).flatMap (·.configPair)

def firstNumber (name : Bytes) (pairs : List IniPair) : Int :=
  (((pairs.filter (fun pair => pair.key = name)).map (fun pair => atoi pair.value)).find? (fun value => value ≠ 0)).getD 0

def firstText (name : Bytes) (pairs : List IniPair) : Option Bytes :=
  (pairs.find? (fun pair => pair.key = name)).map (·.value)

section Fold
variable {σ : Type} (step : σ → IniPair → Option σ)

theorem foldlM_number (field : σ → Int) (name : Bytes)
    (sets : ∀ s pair t, step s pair = some t → field t = setNumber (field s) name pair)
    (pairs : List IniPair) (s t : σ) (ran : pairs.foldlM step s = some t) :
    field t = if field s = 0 then firstNumber name pairs else field s := by
  induction pairs generalizing s with
  | nil =>
    obtain rfl := Option.some.inj ran
    split
    · assumption
    · rfl
  | cons pair pairs ih =>
    obtain ⟨next,taken,ran⟩ := Option.bind_eq_some_iff.mp ran
    rw [ih next ran,sets s pair next taken,setNumber]
    by_cases unset : field s = 0
    · by_cases named : pair.key = name
      · by_cases zero : atoi pair.value = 0 <;> simp [unset,named,zero,firstNumber]
      · simp [unset,named,firstNumber]
    · simp [unset]

theorem foldlM_text (field : σ → Option Bytes) (name : Bytes)
    (sets : ∀ s pair t, step s pair = some t → field t = setText (field s) name pair)
    (pairs : List IniPair) (s t : σ) (ran : pairs.foldlM step s = some t) :
    field t = (field s).or (firstText name pairs) := by
  induction pairs generalizing s with
  | nil =>
    obtain rfl := Option.some.inj ran
    simp [firstText]
  | cons pair pairs ih =>
    obtain ⟨next,taken,ran⟩ := Option.bind_eq_some_iff.mp ran
    rw [ih next ran,sets s pair next taken,setText]
    cases field s with
    | some text => simp
    | none => by_cases named : pair.key = name <;> simp [named,firstText]

theorem foldlM_kept (kept : σ → Prop) (keeps : ∀ s pair t, kept s → step s pair = some t → kept t)
    (pairs : List IniPair) (s t : σ) (start : kept s) (ran : pairs.foldlM step s = some t) : kept t := by
  induction pairs generalizing s with
  | nil => exact Option.some.inj ran ▸ start
  | cons pair pairs ih =>
    obtain ⟨next,taken,ran⟩ := Option.bind_eq_some_iff.mp ran
    exact ih next (keeps s pair next start taken) ran

end Fold

/-- No number yet, or one in the range that is checked. -/
def InRange (buffers : Int) : Prop := buffers = 0 ∨ 2 ≤ buffers ∧ buffers ≤ 102399

theorem setBuffers_some (old buffers : Int) (pair : IniPair) (set : setBuffers old pair = some buffers) :
    buffers = setNumber old BUFFERS pair ∧ (InRange old → InRange buffers) := by
  unfold setBuffers at set
  unfold setNumber
  split at set
  · next named =>
    rw [if_pos named]
    simp only at set
    split at set
    · cases set
    · obtain rfl := Option.some.inj set
      exact ⟨rfl,fun _ => .inr (by omega)⟩
  · next other =>
    obtain rfl := Option.some.inj set
    exact ⟨(if_neg other).symm,id⟩

theorem readPairs_append {σ : Type} (name : Bytes) (step : σ → IniPair → Option σ) (config next : σ) (s : Section)
    (sections : List Section) (read : readPairs name step config s = some next) :
    (pairsOf name (s::sections)).foldlM step config = (pairsOf name sections).foldlM step next := by
  unfold readPairs at read
  split at read
  · next named =>
    have first : pairsOf name (s::sections) = s.configPair ++ pairsOf name sections := by simp [pairsOf,named]
    rw [first,List.foldlM_append,read]
    rfl
  · next other =>
    have later : pairsOf name (s::sections) = pairsOf name sections := by simp [pairsOf,other]
    rw [later,Option.some.inj read]

/-- What the PRODUCER and CONSUMER sections set, whatever comes between them. -/
theorem readSections_some (sections : List Section) (jane jane' : JaneConfig) (thor thor' : ThorConfig)
    (ran : sections.foldlM readSection (jane,thor) = some (jane',thor')) :
    (pairsOf JANE sections).foldlM janePair jane = some jane' ∧
      (pairsOf THOR sections).foldlM thorPair thor = some thor' := by
  induction sections generalizing jane thor with
  | nil =>
    obtain ⟨rfl,rfl⟩ := Prod.mk.inj (Option.some.inj ran)
    exact ⟨rfl,rfl⟩
  | cons s sections ih =>
    obtain ⟨configs,read,ran⟩ := Option.bind_eq_some_iff.mp ran
    obtain ⟨janeNext,janeRead,read⟩ := Option.bind_eq_some_iff.mp read
    obtain ⟨thorNext,thorRead,read⟩ := Option.bind_eq_some_iff.mp read
    obtain rfl := Option.some.inj read
    rw [readPairs_append _ _ _ _ _ _ janeRead,readPairs_append _ _ _ _ _ _ thorRead]
    exact ih janeNext thorNext ran

theorem janePair_some (jane next : JaneConfig) (pair : IniPair) (read : janePair jane pair = some next) :
    next.inputTextFile = setText jane.inputTextFile INPUT_TEXT_FILE pair ∧
    next.useBuffers = setNumber jane.useBuffers USE_BUFFERS pair ∧
    next.buffers = setNumber jane.buffers BUFFERS pair ∧ (InRange jane.buffers → InRange next.buffers) := by
  unfold janePair at read
  obtain ⟨buffers,set,rest⟩ := Option.bind_eq_some_iff.mp read
  obtain rfl := Option.some.inj rest
  exact ⟨rfl,rfl,setBuffers_some _ _ _ set⟩

theorem thorPair_some (thor next : ThorConfig) (pair : IniPair) (read : thorPair thor pair = some next) :
    next.outputTextFile = setText thor.outputTextFile OUTPUT_TEXT_FILE pair := by
  unfold thorPair at read
  obtain ⟨buffers,_,rest⟩ := Option.bind_eq_some_iff.mp read
  obtain rfl := Option.some.inj rest
  rfl

/-- What the pairs of the PRODUCER sections set. -/
theorem janePair_fields (pairs : List IniPair) (jane : JaneConfig)
    (ran : pairs.foldlM janePair ⟨none,0,0,0⟩ = some jane) :
    jane.inputTextFile = firstText INPUT_TEXT_FILE pairs ∧ jane.useBuffers = firstNumber USE_BUFFERS pairs ∧
      jane.buffers = firstNumber BUFFERS pairs ∧ InRange jane.buffers := by
  refine ⟨?_,?_,?_,?_⟩
  · exact (foldlM_text janePair JaneConfig.inputTextFile INPUT_TEXT_FILE
      (fun jane pair next read => (janePair_some jane next pair read).1) pairs _ _ ran).trans Option.none_or
  · exact foldlM_number janePair JaneConfig.useBuffers USE_BUFFERS
      (fun jane pair next read => (janePair_some jane next pair read).2.1) pairs _ _ ran
  · exact foldlM_number janePair JaneConfig.buffers BUFFERS
      (fun jane pair next read => (janePair_some jane next pair read).2.2.1) pairs _ _ ran
  · exact foldlM_kept janePair (fun jane => InRange jane.buffers)
      (fun jane pair next kept read => (janePair_some jane next pair read).2.2.2 kept) pairs _ _ (.inl rfl) ran

/-- What the pairs of the CONSUMER sections set. -/
theorem thorPair_fields (pairs : List IniPair) (thor : ThorConfig)
    (ran : pairs.foldlM thorPair ⟨none,none,0,0,0⟩ = some thor) :
    thor.outputTextFile = firstText OUTPUT_TEXT_FILE pairs := by
  have set := foldlM_text thorPair ThorConfig.outputTextFile OUTPUT_TEXT_FILE
    (fun thor pair next read => thorPair_some thor next pair read) pairs _ _ ran
  exact set.trans Option.none_or

/-- What is checked before the configuration is accepted. -/
theorem asgardConfigRead_accepts (file : Bytes) (jane : JaneConfig) (thor : ThorConfig)
    (accepted : asgardConfigRead file = .ok (.returned true jane thor)) :
    ∃ sections, iniParse file = .ok sections ∧ readSections sections = some (jane,thor) ∧
      0 < jane.buffers ∧ jane.buffers = thor.buffers ∧ (1 = thor.doSearch → thor.pattern ≠ none) := by
  obtain ⟨sections,parsed,rest⟩ := bind_ok _ _ _ accepted
  refine ⟨sections,parsed,?_⟩
  cases read : readSections sections with
  | none =>
    rw [read] at rest
    cases rest
  | some configs =>
    obtain ⟨jane',thor'⟩ := configs
    rw [read] at rest
    simp only at rest
    split at rest
    · cases rest
    next checked =>
    split at rest
    · cases rest
    split at rest
    · cases rest
    split at rest
    · cases rest
    obtain ⟨positive,same⟩ := Classical.not_not.mp checked
    split at rest
    · obtain ⟨_,passed,rest⟩ := bind_ok _ _ _ rest
      obtain ⟨_,rfl,rfl⟩ := ConfigRead.returned.inj (Except.ok.inj rest)
      exact ⟨rfl,positive,same,fun _ => assert_ok _ passed⟩
    · next idle =>
      obtain ⟨_,rfl,rfl⟩ := ConfigRead.returned.inj (Except.ok.inj rest)
      exact ⟨rfl,positive,same,fun searches => absurd searches idle⟩

end Spsc.IniParser
