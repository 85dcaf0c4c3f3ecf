import Spsc.IniParser.Decision
import Spsc.IniParser.Layout
import Spsc.Wire.Parse

/-! A configuration that is written into a file comes back from `asgard_config_read`, however the
file is laid out. -/
namespace Spsc.IniParser
open Imperative Wire

def textPair (name : Bytes) (text : Option Bytes) : List IniPair := text.toList.map (fun value => ⟨name,value⟩)

def numberPair (name : Bytes) (number : Int) : IniPair := ⟨name,decimal number⟩

def producerPairs (jane : JaneConfig) : List IniPair :=
  textPair INPUT_TEXT_FILE jane.inputTextFile ++
    [numberPair BUFFERS jane.buffers,numberPair USE_BUFFERS jane.useBuffers,numberPair PORT jane.port]

def consumerPairs (thor : ThorConfig) : List IniPair :=
  textPair OUTPUT_TEXT_FILE thor.outputTextFile ++ textPair PATTERN thor.pattern ++
    [numberPair BUFFERS thor.buffers,numberPair DO_SEARCH thor.doSearch,numberPair PORT thor.port]

def configSections (jane : JaneConfig) (thor : ThorConfig) : List Section :=
  [⟨JANE,producerPairs jane⟩,⟨THOR,consumerPairs thor⟩]

def IsInt (n : Int) : Prop := -INT_MAX-1 ≤ n ∧ n ≤ INT_MAX

/-- The two configurations are accepted, and their texts have only bytes without a meaning to the parser. -/
structure Writable (jane : JaneConfig) (thor : ThorConfig) : Prop where
  agree : Agree jane thor
  range : 2 ≤ jane.buffers ∧ jane.buffers ≤ 102399
  search : thor.doSearch = 1 → thor.pattern ≠ none
  uses : IsInt jane.useBuffers
  port : IsInt jane.port
  input : ∀ text, jane.inputTextFile = some text → Fits text
  output : ∀ text, thor.outputTextFile = some text → Fits text
  pattern : ∀ text, thor.pattern = some text → Fits text

theorem atoi_negative (n : Nat) (positive : 0 < n) (small : n ≤ 2^31) : atoi (decimal (-n)) = -n := by
  have written : decimal (-n) = char '-'::decimal n := by
    rw [decimal_nat,decimal,if_pos (by omega),Int.natAbs_neg,Int.natAbs_natCast]
  have all : (decimal n).takeWhile isDigit = decimal n := List.takeWhile_eq_self_iff.mpr (decimal_isDigit n)
  have back : (decimal n).map (fun byte => byte.toNat-48) = Decimal.digits n := by
    rw [decimal_nat,List.map_map]
    conv_rhs => rw [← List.map_id (Decimal.digits n)]
    exact List.map_congr_left (fun digit member => (digitByte_spec digit (Decimal.digits_lt n digit member)).2)
  have start : (char '-'::decimal n).dropWhile isSpace = char '-'::decimal n :=
    List.dropWhile_cons_of_neg (by decide)
  simp only [written,atoi,start,List.head?_cons,List.tail_cons,true_or,if_true,all,back,Decimal.value_digits]
  rw [min_eq_right (by omega),max_eq_right (by omega)]
  exact wrap32_small _ (by unfold INT_MAX; omega) (by unfold INT_MAX; omega)

theorem atoi_number (n : Int) (range : IsInt n) : atoi (decimal n) = n := by
  unfold IsInt INT_MAX at range
  rcases Int.lt_or_le n 0 with negative | positive
  · obtain ⟨m,rfl⟩ : ∃ m : Nat, n = -m := ⟨n.natAbs,by omega⟩
    exact atoi_negative m (by omega) (by omega)
  · obtain ⟨m,rfl⟩ := Int.eq_ofNat_of_zero_le positive
    exact atoi_decimal m (by omega)

theorem plain_of_isDigit (ch : Byte) (digit : isDigit ch = true) : Plain ch := by
  have other : ∀ value : Byte, isDigit value = false → ch ≠ value := by
    rintro _ none rfl
    rw [digit] at none
    cases none
  refine ⟨other 0 (by decide),other EOF (by decide),other 10 (by decide),?_,other _ (by decide),other _ (by decide),
    other _ (by decide),other _ (by decide)⟩
  simp [isBlank,other 9 (by decide),other 32 (by decide),other 13 (by decide)]

theorem number_fits (n : Int) (range : IsInt n) : Fits (decimal n) := by
  unfold IsInt INT_MAX at range
  have digits : ∀ ch ∈ decimal n.natAbs, Plain ch := fun ch member =>
    plain_of_isDigit ch (decimal_isDigit n.natAbs ch member)
  have short := decimal_length n.natAbs (by omega)
  rw [decimal_nat] at digits short
  unfold decimal
  split
  · refine ⟨List.forall_mem_cons.mpr ⟨by decide,digits⟩,?_⟩
    rw [List.length_cons]
    exact (Nat.succ_le_succ short).trans_lt (by decide)
  · exact ⟨digits,short.trans_lt (by decide)⟩

theorem firstText_textPair (name : Bytes) (text : Option Bytes) (rest : List IniPair) (none_left : firstText name rest = none) :
    firstText name (textPair name text ++ rest) = text := by
  cases text with
  | none => exact none_left
  | some value => simp [textPair,firstText]

theorem firstText_skip (name other : Bytes) (text : Option Bytes) (rest : List IniPair) (differs : other ≠ name) :
    firstText name (textPair other text ++ rest) = firstText name rest := by
  cases text <;> simp [textPair,firstText,differs]

theorem firstNumber_skip (name other : Bytes) (text : Option Bytes) (rest : List IniPair) (differs : other ≠ name) :
    firstNumber name (textPair other text ++ rest) = firstNumber name rest := by
  cases text <;> simp [textPair,firstNumber,differs]

theorem firstNumber_other (name other : Bytes) (number : Int) (rest : List IniPair) (differs : other ≠ name) :
    firstNumber name (numberPair other number::rest) = firstNumber name rest := by
  simp [firstNumber,numberPair,differs]

theorem firstNumber_here (name : Bytes) (number : Int) (range : IsInt number) (rest : List IniPair)
    (none_left : firstNumber name rest = 0) : firstNumber name (numberPair name number::rest) = number := by
  have back := atoi_number number range
  by_cases zero : number = 0
  · subst zero
    unfold firstNumber at none_left ⊢
    simp [numberPair,back] at none_left ⊢
    exact none_left
  · simp [firstNumber,numberPair,back,zero]

theorem buffersFit_skip (other : Bytes) (text : Option Bytes) (rest : List IniPair) (differs : other ≠ BUFFERS) :
    BuffersFit (textPair other text ++ rest) ↔ BuffersFit rest := by
  cases text <;> simp [textPair,BuffersFit,differs]

theorem buffersFit_first (number : Int) (range : 2 ≤ number ∧ number ≤ 102399) (rest : List IniPair) :
    BuffersFit (numberPair BUFFERS number::rest) := by
  have back := atoi_number number (by unfold IsInt INT_MAX; omega)
  simp [BuffersFit,numberPair,back]
  exact range

theorem textPair_fits (name : Bytes) (text : Option Bytes) (key : Fits name) (value : ∀ v, text = some v → Fits v) :
    ∀ pair ∈ textPair name text, Entry.Fits (.pair pair.key pair.value) := by
  intro pair member
  cases text with
  | none => cases member
  | some v =>
    obtain rfl := List.mem_singleton.mp member
    exact ⟨key,value v rfl⟩

theorem numberPair_fits (name : Bytes) (number : Int) (key : Fits name) (range : IsInt number) :
    Entry.Fits (.pair (numberPair name number).key (numberPair name number).value) := ⟨key,number_fits number range⟩

section Written
variable {jane : JaneConfig} {thor : ThorConfig} (writable : Writable jane thor)
include writable

theorem Writable.ranges : IsInt jane.buffers ∧ IsInt thor.buffers ∧ IsInt thor.doSearch ∧ IsInt thor.port := by
  have range := writable.range
  have same := writable.agree.buffers.2
  have search := writable.agree.search
  have port := writable.agree.port.2 ▸ writable.port
  refine ⟨?_,?_,?_,port⟩
  all_goals
    unfold IsInt INT_MAX
    omega

theorem Writable.producer : BuffersFit (producerPairs jane) ∧ janeConfig (producerPairs jane) = jane := by
  obtain ⟨buffers,_⟩ := writable.ranges
  refine ⟨(buffersFit_skip _ _ _ (by decide)).mpr (buffersFit_first _ writable.range _),?_⟩
  unfold janeConfig producerPairs
  rw [firstText_textPair _ _ _ rfl,firstNumber_skip BUFFERS _ _ _ (by decide),
    firstNumber_skip USE_BUFFERS _ _ _ (by decide),firstNumber_skip PORT _ _ _ (by decide)]
  rw [firstNumber_here BUFFERS _ buffers _ (by
      rw [firstNumber_other _ _ _ _ (by decide),firstNumber_other _ _ _ _ (by decide)]
      rfl),
    firstNumber_other USE_BUFFERS _ _ _ (by decide),firstNumber_here USE_BUFFERS _ writable.uses _ (by
      rw [firstNumber_other _ _ _ _ (by decide)]
      rfl),
    firstNumber_other PORT _ _ _ (by decide),firstNumber_other PORT _ _ _ (by decide),
    firstNumber_here PORT _ writable.port _ rfl]

theorem Writable.consumer : BuffersFit (consumerPairs thor) ∧ thorConfig (consumerPairs thor) = thor := by
  obtain ⟨_,buffers,search,port⟩ := writable.ranges
  have range : 2 ≤ thor.buffers ∧ thor.buffers ≤ 102399 := writable.agree.buffers.2 ▸ writable.range
  unfold thorConfig consumerPairs
  rw [List.append_assoc]
  refine ⟨?_,?_⟩
  · exact (buffersFit_skip _ _ _ (by decide)).mpr ((buffersFit_skip _ _ _ (by decide)).mpr (buffersFit_first _ range _))
  rw [firstText_textPair OUTPUT_TEXT_FILE _ _ (by rw [firstText_skip _ _ _ _ (by decide)]; rfl),
    firstText_skip PATTERN _ _ _ (by decide),firstText_textPair PATTERN _ _ rfl]
  rw [firstNumber_skip BUFFERS _ _ _ (by decide),firstNumber_skip BUFFERS _ _ _ (by decide),
    firstNumber_skip DO_SEARCH _ _ _ (by decide),firstNumber_skip DO_SEARCH _ _ _ (by decide),
    firstNumber_skip PORT _ _ _ (by decide),firstNumber_skip PORT _ _ _ (by decide)]
  rw [firstNumber_here BUFFERS _ buffers _ (by
      rw [firstNumber_other _ _ _ _ (by decide),firstNumber_other _ _ _ _ (by decide)]
      rfl),
    firstNumber_other DO_SEARCH _ _ _ (by decide),firstNumber_here DO_SEARCH _ search _ (by
      rw [firstNumber_other _ _ _ _ (by decide)]
      rfl),
    firstNumber_other PORT _ _ _ (by decide),firstNumber_other PORT _ _ _ (by decide),
    firstNumber_here PORT _ port _ rfl]

theorem Writable.fits : ∀ entry ∈ (configSections jane thor).flatMap Section.entries, entry.Fits := by
  obtain ⟨buffers,buffers',search,port⟩ := writable.ranges
  have producer : ∀ pair ∈ producerPairs jane, Entry.Fits (.pair pair.key pair.value) := by
    refine List.forall_mem_append.mpr ⟨textPair_fits _ _ (by decide) writable.input,?_⟩
    simp only [List.forall_mem_cons]
    exact ⟨numberPair_fits _ _ (by decide) buffers,numberPair_fits _ _ (by decide) writable.uses,
      numberPair_fits _ _ (by decide) writable.port,by simp⟩
  have consumer : ∀ pair ∈ consumerPairs thor, Entry.Fits (.pair pair.key pair.value) := by
    refine List.forall_mem_append.mpr ⟨List.forall_mem_append.mpr
      ⟨textPair_fits _ _ (by decide) writable.output,textPair_fits _ _ (by decide) writable.pattern⟩,?_⟩
    simp only [List.forall_mem_cons]
    exact ⟨numberPair_fits _ _ (by decide) buffers',numberPair_fits _ _ (by decide) search,
      numberPair_fits _ _ (by decide) port,by simp⟩
  have entries : ∀ name pairs, Fits name → (∀ pair ∈ pairs, Entry.Fits (.pair pair.key pair.value)) →
      ∀ entry ∈ Section.entries ⟨name,pairs⟩, entry.Fits := by
    intro name pairs header all
    exact List.forall_mem_cons.mpr ⟨header,List.forall_mem_map.mpr all⟩
  intro entry member
  obtain ⟨s,listed,inside⟩ := List.mem_flatMap.mp member
  rcases List.mem_cons.mp listed with rfl | other
  · exact entries _ _ (by decide) producer entry inside
  · obtain rfl := List.mem_singleton.mp other
    exact entries _ _ (by decide) consumer entry inside

theorem Writable.parsed (layout : Layout) (valid : ∀ line ∈ layout.all, line.Valid)
    (made : layout.entries = (configSections jane thor).flatMap Section.entries) :
    iniParse layout.render = .ok (configSections jane thor) := by
  obtain ⟨lines,last⟩ := layout
  obtain ⟨turns,size⟩ := Nat.le.dest (Layout.entries_length lines last)
  have few : ∀ s ∈ configSections jane thor, s.configPair.length ≤ MAX_CONFIGS := by
    have text : ∀ name text, (textPair name text).length ≤ 1 := by
      intro name text
      cases text <;> simp [textPair]
    have first := text INPUT_TEXT_FILE jane.inputTextFile
    have second := text OUTPUT_TEXT_FILE thor.outputTextFile
    have third := text PATTERN thor.pattern
    simp [configSections,producerPairs,consumerPairs,MAX_CONFIGS]
    omega
  rw [iniParse,← size,(by omega : (Layout.entries ⟨lines,last⟩).length+turns+1 =
    turns+1+(Layout.entries ⟨lines,last⟩).length),
    parseFrom_layout lines last [] turns valid (made ▸ writable.fits),made]
  exact foldlM_sections [] _ (show 2 ≤ MAX_CONFIGS by decide) few

end Written

/-- Whatever comments, blanks and line ends are put between the lines of a configuration, and with or
without an end of the last one, it is read back as it was written. -/
theorem asgardConfigRead_written (jane : JaneConfig) (thor : ThorConfig) (writable : Writable jane thor) (layout : Layout)
    (valid : ∀ line ∈ layout.all, line.Valid)
    (made : layout.entries = (configSections jane thor).flatMap Section.entries) :
    asgardConfigRead layout.render = .ok (.returned true jane thor) := by
  obtain ⟨fit,producer⟩ := writable.producer
  obtain ⟨fit',consumer⟩ := writable.consumer
  have janePairs : pairsOf JANE (configSections jane thor) = producerPairs jane := by
    simp [pairsOf,configSections,show THOR ≠ JANE by decide]
  have thorPairs : pairsOf THOR (configSections jane thor) = consumerPairs thor := by
    simp [pairsOf,configSections,show JANE ≠ THOR by decide]
  rw [asgardConfigRead_decides _ _ (writable.parsed layout valid made),janePairs,thorPairs,decision]
  simp only [producer,consumer]
  rw [if_neg (not_not.mpr ⟨fit,fit'⟩),if_neg (not_not.mpr writable.agree),
    if_neg (fun both => writable.search both.1 both.2)]

/-- The configuration of the repository, with a comment and a blank line before the second section and
blanks around the pattern. -/
theorem asgardConfigRead_written_sample : ∃ file,
    asgardConfigRead file = .ok (.returned true ⟨some (ascii ['d','a','t','a','_','b','i','g']),20,10,34001⟩
      ⟨some (ascii ['t','h','o','r','_','o','p','.','t','x','t']),some (ascii ['C','h','i','n','a']),20,1,34001⟩) := by
  have writable : Writable ⟨some (ascii ['d','a','t','a','_','b','i','g']),20,10,34001⟩
      ⟨some (ascii ['t','h','o','r','_','o','p','.','t','x','t']),some (ascii ['C','h','i','n','a']),20,1,34001⟩ :=
    { agree := by decide
      range := by decide
      search := by decide
      uses := ⟨by decide,by decide⟩
      port := ⟨by decide,by decide⟩
      input := fun text same => Option.some.inj same ▸ by decide +kernel
      output := fun text same => Option.some.inj same ▸ by decide +kernel
      pattern := fun text same => Option.some.inj same ▸ by decide +kernel }
  exact ⟨_,asgardConfigRead_written _ _ writable
    ⟨[(.comment (ascii ['c']),false),(.header [] JANE [],false),
      (.pair INPUT_TEXT_FILE (ascii ['d','a','t','a','_','b','i','g']),true),
      (.pair BUFFERS (decimal 20),false),(.pair USE_BUFFERS (decimal 10),false),(.pair PORT (decimal 34001),false),
      (.comment (ascii ['=']),true),(.blank [],false),(.header (ascii [' ']) THOR [],false),
      (.pair OUTPUT_TEXT_FILE (ascii ['t','h','o','r','_','o','p','.','t','x','t']),false),
      (.pair PATTERN (ascii [' ','C','h','i',' ','n','a']),false),(.pair BUFFERS (decimal 20),false),
      (.pair DO_SEARCH (decimal 1),false)],some (.pair PORT (decimal 34001))⟩
    (by decide +kernel) (by decide +kernel)⟩

end Spsc.IniParser
