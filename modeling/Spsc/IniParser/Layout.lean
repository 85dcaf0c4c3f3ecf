import Spsc.IniParser

/-! The layouts of a well-formed file, and that the parser gives back from each of them the
sections it was made of. -/
namespace Spsc.IniParser
open Imperative

/-- A byte that has no meaning to the parser. -/
def Plain (ch : Byte) : Prop :=
  ch ≠ 0 ∧ ch ≠ EOF ∧ ch ≠ 10 ∧ isBlank ch = false ∧
    ch ≠ char '=' ∧ ch ≠ char '#' ∧ ch ≠ char '[' ∧ ch ≠ char ']'

def Fits (text : Bytes) : Prop := (∀ ch ∈ text, Plain ch) ∧ text.length < 1024

def Entry.Fits : Entry → Prop
  | .header name => IniParser.Fits name
  | .pair k v => IniParser.Fits k ∧ IniParser.Fits v

/-- A text without the blanks in it. -/
def solid (text : Bytes) : Bytes := text.filter (fun ch => !isBlank ch)

inductive Line where
  | blank (blanks : Bytes)
  | comment (text : Bytes)
  | header (before name behind : Bytes)
  | pair (key value : Bytes)
  deriving DecidableEq, Repr

def Line.text : Line → Bytes
  | .blank blanks => blanks
  | .comment text => char '#'::text
  | .header before name behind => before ++ char '['::(name ++ char ']'::behind)
  | .pair key value => key ++ char '='::value

def Line.entry : Line → Option Entry
  | .blank _ | .comment _ => none
  | .header _ name _ => some (.header name)
  | .pair key value => some (.pair (solid key) (solid value))

def Line.Valid : Line → Prop
  | .blank blanks => ∀ ch ∈ blanks, isBlank ch = true
  | .comment text => ∀ ch ∈ text, ch ≠ 0 ∧ ch ≠ EOF ∧ ch ≠ 10
  | .header before _ behind => (∀ ch ∈ before, isBlank ch = true) ∧ ∀ ch ∈ behind, isBlank ch = true
  | .pair _ _ => True

/-- Lines that end with LF, or with CRLF where the flag is set, and perhaps one at the end of the
file that does not. -/
structure Layout where
  lines : List (Line × Bool)
  last : Option Line
  deriving DecidableEq, Repr

def lineEnd (crlf : Bool) : Bytes := if crlf then [13,10] else [10]

namespace Layout
variable (layout : Layout)

def all : List Line := layout.lines.map (·.1) ++ layout.last.toList

def render : Bytes :=
  layout.lines.flatMap (fun line => line.1.text ++ lineEnd line.2) ++ (layout.last.map Line.text).getD []

def entries : List Entry := layout.all.filterMap Line.entry

end Layout

def Section.entries (s : Section) : List Entry := .header s.name::s.configPair.map (fun pair => .pair pair.key pair.value)

def held (text : Bytes) : Bytes := text ++ List.replicate (1024-text.length) 0

theorem cString_held (text : Bytes) (clean : 0 ∉ text) (short : text.length < 1024) :
    cString (held text) = .ok text := by
  obtain ⟨room,size⟩ : ∃ room, 1024-text.length = room+1 := ⟨1023-text.length,by omega⟩
  rw [held,size,List.replicate_succ]
  exact cString_terminated _ _ clean

/-- A byte that the outer loop of `read_line` stores. -/
def Stored (ch : Byte) : Prop :=
  ch ≠ 0 ∧ ch ≠ EOF ∧ ch ≠ 10 ∧ isBlank ch = false ∧ ch ≠ char '=' ∧ ch ≠ char '#' ∧ ch ≠ char '['

/-- A text that this loop stores whole, with a NUL behind it. -/
def Storable (text : Bytes) : Prop := (∀ ch ∈ text, Stored ch) ∧ text.length < 1024

theorem Storable.read {text : Bytes} (storable : Storable text) : cString (held text) = .ok text :=
  cString_held text (fun member => (storable.1 0 member).1 rfl) storable.2

theorem Fits.storable {text : Bytes} (fits : Fits text) : Storable text := by
  refine ⟨fun ch member => ?_,fits.2⟩
  obtain ⟨nul,eof,newline,solid,equals,hash,opening,_⟩ := fits.1 ch member
  exact ⟨nul,eof,newline,solid,equals,hash,opening⟩

theorem store_held (text : Bytes) (ch : Byte) (short : text.length < 1024) :
    store Fault.bounds (held text) (text.length : Nat) ch = .ok (held (text ++ [ch])) := by
  obtain ⟨room,size⟩ : ∃ room, 1024-text.length = room+1 := ⟨1023-text.length,by omega⟩
  rw [held,size,List.replicate_succ,store_middle _ _ _ _ _ _ rfl,held,List.length_append,List.append_assoc]
  congr 4
  rw [List.length_singleton]
  omega

theorem isBlank_cases (ch : Byte) (blank : isBlank ch = true) : ch = 9 ∨ ch = 32 ∨ ch = 13 := by
  simpa [isBlank,or_assoc] using blank

section Act
variable (place : Place) (keyed : Bool) (ch : Byte)

/-- At the end of the file a value is taken, or the parser stops. -/
theorem act_eof : act place keyed EOF = if place = .line ∧ keyed = true then .value else .stop := by
  cases place <;> cases keyed <;> rfl

theorem act_stop (stops : act place keyed ch = .stop) : ch = EOF ∨ ch = 0 := by
  by_contra other
  obtain ⟨eof,nul⟩ := not_or.mp other
  simp only [act] at stops
  rw [if_neg eof] at stops
  cases place with
  | header =>
    simp only at stops
    split at stops <;> cases stops
  | comment => cases stops
  | line =>
    simp only [if_neg nul] at stops
    repeat' split at stops
    all_goals cases stops

theorem act_key (keys : act place keyed ch = .key) : ch = char '=' := by
  by_cases eof : ch = EOF
  · rw [eof,act_eof] at keys
    split at keys <;> cases keys
  simp only [act] at keys
  rw [if_neg eof] at keys
  cases place with
  | header =>
    simp only at keys
    split at keys <;> cases keys
  | comment => cases keys
  | line =>
    simp only at keys
    repeat' split at keys
    all_goals first | assumption | cases keys

theorem act_blank (blank : isBlank ch = true) : act .line keyed ch = .skip .line := by
  rcases isBlank_cases ch blank with rfl | rfl | rfl
  all_goals rfl

theorem act_stored (stored : Stored ch) : act .line keyed ch = .keep .line := by
  obtain ⟨nul,eof,newline,solid,equals,hash,opening⟩ := stored
  simp only [act]
  rw [if_neg eof,if_neg nul,if_neg opening,if_neg hash,if_neg (by rw [solid]; decide),if_neg (fun both => newline both.1),
    if_neg equals,if_neg newline]

theorem act_name (nul : ch ≠ 0) (eof : ch ≠ EOF) (other : ch ≠ char ']') : act .header keyed ch = .keep .header := by
  simp only [act]
  rw [if_neg eof,if_neg other,if_neg nul]

theorem act_comment (nul : ch ≠ 0) (eof : ch ≠ EOF) (other : ch ≠ 10) : act .comment keyed ch = .skip .comment := by
  simp only [act]
  rw [if_neg eof,if_neg (not_or.mpr ⟨other,nul⟩)]

/-- A byte behind which the loops go on is not the end of the file. -/
theorem act_onward (takes : act place keyed ch ≠ .value) (goes : act place keyed ch ≠ .stop) : ch ≠ EOF := by
  rintro rfl
  rw [act_eof] at takes goes
  split at takes
  · exact takes rfl
  · next other => exact goes (if_neg other)

end Act

theorem readLine_blank (s : Bytes) (i : Nat) (k : Option Bytes) (ch : Byte) (rest : Bytes) (blank : isBlank ch = true) :
    readLine .line s i k (ch::rest) = readLine .line s i k rest := by rw [readLine,act_blank k.isSome ch blank]

theorem readLine_store (s : Bytes) (i : Nat) (k : Option Bytes) (ch : Byte) (rest : Bytes) (stored : Stored ch) :
    readLine .line s i k (ch::rest) = store .bounds s (i : Nat) ch >>= fun s => readLine .line s (i+1) k rest := by
  rw [readLine,act_stored k.isSome ch stored]

theorem readLine_stored (k : Option Bytes) (text : Bytes) (ch : Byte) (rest : Bytes) (stored : Stored ch)
    (short : text.length < 1024) :
    readLine .line (held text) text.length k (ch::rest) =
      readLine .line (held (text ++ [ch])) (text ++ [ch]).length k rest := by
  rw [readLine_store _ _ _ _ _ stored,store_held text ch short,List.length_append]
  rfl

theorem solid_blank (ch : Byte) (text : Bytes) (blank : isBlank ch = true) : solid (ch::text) = solid text := by
  simp [solid,blank]

theorem solid_cons (ch : Byte) (text : Bytes) (other : ¬ isBlank ch = true) : solid (ch::text) = ch::solid text := by
  simp [solid,other]

/-- The loop drops the blanks of a text and stores the rest of it. -/
theorem readLine_text (k : Option Bytes) (more rest text : Bytes) (stored : ∀ ch ∈ solid more, Stored ch)
    (short : (text ++ solid more).length < 1024) :
    readLine .line (held text) text.length k (more ++ rest) =
      readLine .line (held (text ++ solid more)) (text ++ solid more).length k rest := by
  induction more generalizing text with
  | nil => simp [solid]
  | cons ch more ih =>
    rw [List.cons_append]
    by_cases blank : isBlank ch = true
    · rw [solid_blank ch more blank] at stored short ⊢
      rw [readLine_blank _ _ _ _ _ blank]
      exact ih text stored short
    · rw [solid_cons ch more blank] at stored short ⊢
      rw [List.append_cons text ch] at short ⊢
      have room : text.length < 1024 := by
        rw [List.append_assoc,List.length_append] at short
        omega
      rw [readLine_stored k text ch _ (stored ch List.mem_cons_self) room]
      exact ih (text ++ [ch]) (fun other member => stored other (List.mem_cons_of_mem _ member)) short

theorem solid_blanks (blanks : Bytes) (blank : ∀ ch ∈ blanks, isBlank ch = true) : solid blanks = [] := by
  rw [solid,List.filter_eq_nil_iff]
  intro ch member
  rw [blank ch member]
  decide

theorem readLine_blanks (blanks rest : Bytes) (blank : ∀ ch ∈ blanks, isBlank ch = true) :
    readLine .line cleared 0 none (blanks ++ rest) = readLine .line cleared 0 none rest := by
  have none_left := solid_blanks blanks blank
  have skipped := readLine_text none blanks rest [] (by simp [none_left]) (by simp [none_left])
  rwa [none_left] at skipped

theorem readLine_comment (text rest : Bytes) (quiet : ∀ ch ∈ text, ch ≠ 0 ∧ ch ≠ EOF ∧ ch ≠ 10) (s : Bytes) (i : Nat)
    (k : Option Bytes) : readLine .comment s i k (text ++ rest) = readLine .comment s i k rest := by
  induction text with
  | nil => rfl
  | cons ch text ih =>
    obtain ⟨nul,eof,newline⟩ := quiet ch List.mem_cons_self
    rw [List.cons_append,readLine,act_comment k.isSome ch nul eof newline]
    exact ih (fun other member => quiet other (List.mem_cons_of_mem _ member))

theorem readLine_name (name behind text : Bytes) (fits : Fits (text ++ name)) (k : Option Bytes) :
    readLine .header (held text) text.length k (name ++ char ']'::behind) =
      .ok (some (.header (text ++ name)),behind) := by
  induction name generalizing text with
  | nil =>
    rw [List.append_nil] at fits ⊢
    change cString (held text) >>= _ = _
    rw [fits.storable.read]
    rfl
  | cons ch name ih =>
    obtain ⟨nul,eof,_,_,_,_,_,closing⟩ := fits.1 ch (by simp)
    have short := fits.2
    rw [List.length_append,List.length_cons] at short
    rw [List.append_cons text ch name] at fits ⊢
    rw [List.cons_append,readLine,act_name k.isSome ch nul eof closing]
    simp only
    rw [store_held text ch (by omega)]
    rw [← ih (text ++ [ch]) fits,List.length_append]
    rfl

/-- The first `=` ends the key. -/
theorem readLine_equals (key : Bytes) (rest : Bytes) (keyFits : Storable (solid key)) :
    readLine .line cleared 0 none (key ++ char '='::rest) = readLine .line cleared 0 (some (solid key)) rest := by
  have keyRead := readLine_text none key (char '='::rest) [] keyFits.1 keyFits.2
  rw [List.nil_append] at keyRead
  refine keyRead.trans ?_
  change cString (held (solid key)) >>= _ = _
  rw [keyFits.read]
  rfl

theorem readLine_pair (key value rest : Bytes) (keyFits : Storable (solid key)) (valueFits : Storable (solid value)) :
    readLine .line cleared 0 none (key ++ char '='::(value ++ rest)) =
      readLine .line (held (solid value)) (solid value).length (some (solid key)) rest :=
  (readLine_equals key (value ++ rest) keyFits).trans
    (readLine_text (some (solid key)) value rest [] valueFits.1 valueFits.2)

theorem readLine_newline (k v rest : Bytes) (valueFits : Storable v) :
    readLine .line (held v) v.length (some k) (10::rest) = .ok (some (.pair k v),rest) := by
  change cString (held v) >>= _ = _
  rw [valueFits.read]
  rfl

/-- What the end of a line, or of the file, does in each place: behind it `rest` is read. -/
structure Ends (tail rest : Bytes) : Prop where
  skipped : readLine .line cleared 0 none tail = readLine .line cleared 0 none rest
  comment : readLine .comment cleared 0 none tail = readLine .line cleared 0 none rest
  value : ∀ k v, Fits v → readLine .line (held v) v.length (some k) tail = .ok (some (.pair k v),rest)

theorem ends_lineEnd (crlf : Bool) (rest : Bytes) : Ends (lineEnd crlf ++ rest) rest := by
  have value : ∀ k v, Fits v → readLine .line (held v) v.length (some k) (10::rest) = .ok (some (.pair k v),rest) :=
    fun k v fits => readLine_newline k v rest fits.storable
  cases crlf with
  | false => exact ⟨rfl,rfl,value⟩
  | true => exact ⟨rfl,rfl,fun k v fits => (readLine_blank _ _ _ _ _ rfl).trans (value k v fits)⟩

theorem ends_file : Ends [] [] where
  skipped := rfl
  comment := rfl
  value := by
    intro k v fits
    rw [readLine,atEnd,fits.storable.read]
    rfl

theorem Line.skipped (line : Line) (tail rest : Bytes) (ends : Ends tail rest) (valid : line.Valid)
    (no_entry : line.entry = none) :
    readLine .line cleared 0 none (line.text ++ tail) = readLine .line cleared 0 none rest := by
  cases line with
  | blank blanks => exact (readLine_blanks blanks tail valid).trans ends.skipped
  | comment text => exact (readLine_comment text tail valid cleared 0 none).trans ends.comment
  | header => cases no_entry
  | pair => cases no_entry

theorem Line.read (line : Line) (tail rest : Bytes) (ends : Ends tail rest) (valid : line.Valid) (entry : Entry)
    (has_entry : line.entry = some entry) (fits : entry.Fits) :
    ∃ left, readLine .line cleared 0 none (line.text ++ tail) = .ok (some entry,left) ∧
      readLine .line cleared 0 none left = readLine .line cleared 0 none rest := by
  cases line with
  | blank => cases has_entry
  | comment => cases has_entry
  | header before name behind =>
    obtain rfl := Option.some.inj has_entry
    refine ⟨behind ++ tail,?_,(readLine_blanks behind tail valid.2).trans ends.skipped⟩
    rw [text,List.append_assoc,readLine_blanks before _ valid.1,List.cons_append,List.append_assoc]
    exact readLine_name name (behind ++ tail) [] fits none
  | pair key value =>
    obtain rfl := Option.some.inj has_entry
    refine ⟨rest,?_,rfl⟩
    rw [text,List.append_assoc,List.cons_append,readLine_pair key value tail fits.1.storable fits.2.storable]
    exact ends.value _ _ fits.2

theorem parseFrom_congr (turns : Nat) (sections : List Section) (left right : Bytes)
    (same : readLine .line cleared 0 none left = readLine .line cleared 0 none right) :
    parseFrom turns sections left = parseFrom turns sections right := by
  cases turns with
  | zero => rfl
  | succ turns => rw [parseFrom,parseFrom,same]

theorem parseFrom_line (line : Line) (tail rest : Bytes) (ends : Ends tail rest) (valid : line.Valid)
    (fits : ∀ entry ∈ line.entry, entry.Fits) (turns : Nat) (sections : List Section) :
    parseFrom (turns+line.entry.toList.length) sections (line.text ++ tail) =
      line.entry.toList.foldlM addEntry sections >>= fun sections => parseFrom turns sections rest := by
  cases has_entry : line.entry with
  | none => exact parseFrom_congr turns sections _ _ (line.skipped tail rest ends valid has_entry)
  | some entry =>
    obtain ⟨left,read,same⟩ := line.read tail rest ends valid entry has_entry (fits entry has_entry)
    have turn : parseFrom (turns+1) sections (line.text ++ tail) =
        addEntry sections entry >>= fun sections => parseFrom turns sections left := by
      rw [parseFrom,read]
      rfl
    have onward : (fun sections => parseFrom turns sections left) = fun sections => parseFrom turns sections rest :=
      funext fun sections => parseFrom_congr turns sections _ _ same
    rw [onward] at turn
    simp only [Option.toList_some,List.length_singleton,List.foldlM_cons,List.foldlM_nil]
    rw [turn]
    cases addEntry sections entry <;> rfl

theorem Layout.cons (line : Line) (crlf : Bool) (lines : List (Line × Bool)) (last : Option Line) :
    render ⟨(line,crlf)::lines,last⟩ = line.text ++ (lineEnd crlf ++ render ⟨lines,last⟩) ∧
      entries ⟨(line,crlf)::lines,last⟩ = line.entry.toList ++ entries ⟨lines,last⟩ := by
  constructor
  · simp [render]
  · cases has_entry : line.entry <;> simp [entries,all,has_entry]

theorem parseFrom_layout (lines : List (Line × Bool)) (last : Option Line) (sections : List Section) (turns : Nat)
    (valid : ∀ line ∈ Layout.all ⟨lines,last⟩, line.Valid) (fits : ∀ entry ∈ Layout.entries ⟨lines,last⟩, entry.Fits) :
    parseFrom (turns+1+(Layout.entries ⟨lines,last⟩).length) sections (Layout.render ⟨lines,last⟩) =
      (Layout.entries ⟨lines,last⟩).foldlM addEntry sections := by
  induction lines generalizing sections with
  | nil =>
    cases last with
    | none => rfl
    | some line =>
      have whole := parseFrom_line line [] [] ends_file (valid line (by simp [Layout.all]))
        (fun entry member => fits entry (by simp [Layout.entries,Layout.all]; exact member)) (turns+1) sections
      rw [List.append_nil] at whole
      have entries : Layout.entries ⟨[],some line⟩ = line.entry.toList := by
        cases has_entry : line.entry <;> simp [Layout.entries,Layout.all,has_entry]
      rw [entries]
      refine whole.trans ?_
      cases line.entry.toList.foldlM addEntry sections <;> rfl
  | cons line lines ih =>
    obtain ⟨line,crlf⟩ := line
    obtain ⟨render,entries⟩ := Layout.cons line crlf lines last
    rw [entries] at fits
    have later : ∀ sections, parseFrom (turns+1+(Layout.entries ⟨lines,last⟩).length) sections (Layout.render ⟨lines,last⟩) =
        (Layout.entries ⟨lines,last⟩).foldlM addEntry sections := fun sections =>
      ih sections (fun other member => valid other (List.mem_cons_of_mem _ member))
        (fun entry member => fits entry (List.mem_append_right _ member))
    rw [render,entries,List.length_append,Nat.add_comm line.entry.toList.length,← Nat.add_assoc,
      parseFrom_line line _ _ (ends_lineEnd crlf _) (valid line List.mem_cons_self)
        (fun entry member => fits entry (List.mem_append_left _ (by simpa using member))),List.foldlM_append]
    exact congrArg _ (funext later)

theorem foldlM_pairs (before : List Section) (name : Bytes) (pairs more : List IniPair)
    (few : (pairs ++ more).length ≤ MAX_CONFIGS) :
    (more.map (fun pair => Entry.pair pair.key pair.value)).foldlM addEntry (before ++ [⟨name,pairs⟩]) =
      .ok (before ++ [⟨name,pairs ++ more⟩]) := by
  induction more generalizing pairs with
  | nil => simp [pure,Except.pure]
  | cons pair more ih =>
    have room : pairs.length < MAX_CONFIGS := by
      rw [List.length_append,List.length_cons] at few
      omega
    have added : addEntry (before ++ [⟨name,pairs⟩]) (.pair pair.key pair.value) = .ok (before ++ [⟨name,pairs ++ [pair]⟩]) :=
      (addEntry_added _ _ _).mpr (.pair before ⟨name,pairs⟩ pair.key pair.value room)
    rw [List.map_cons,List.foldlM_cons,added]
    rw [List.append_cons pairs pair more] at few ⊢
    exact ih (pairs ++ [pair]) few

theorem foldlM_sections (before sections : List Section) (few : (before ++ sections).length ≤ MAX_CONFIGS)
    (few_pairs : ∀ s ∈ sections, s.configPair.length ≤ MAX_CONFIGS) :
    (sections.flatMap Section.entries).foldlM addEntry before = .ok (before ++ sections) := by
  induction sections generalizing before with
  | nil => simp [pure,Except.pure]
  | cons s sections ih =>
    have room : before.length < MAX_CONFIGS := by
      rw [List.length_append,List.length_cons] at few
      omega
    have opened : addEntry before (.header s.name) = .ok (before ++ [⟨s.name,[]⟩]) :=
      (addEntry_added _ _ _).mpr (.header before s.name room)
    have filled := foldlM_pairs before s.name [] s.configPair (few_pairs s List.mem_cons_self)
    rw [List.flatMap_cons,List.foldlM_append,Section.entries,List.foldlM_cons,opened]
    simp only [bind,Except.bind] at filled ⊢
    rw [filled]
    rw [List.append_cons before s sections] at few ⊢
    exact ih (before ++ [s]) few (fun other member => few_pairs other (List.mem_cons_of_mem _ member))

theorem Line.entry_length (line : Line) : line.entry.toList.length ≤ line.text.length := by
  cases line with
  | blank => exact Nat.zero_le _
  | comment => exact Nat.zero_le _
  | header =>
    simp [entry,text]
    omega
  | pair =>
    simp [entry,text]
    omega

theorem Layout.entries_length (lines : List (Line × Bool)) (last : Option Line) :
    (entries ⟨lines,last⟩).length ≤ (render ⟨lines,last⟩).length := by
  induction lines with
  | nil =>
    cases last with
    | none => exact Nat.zero_le _
    | some line =>
      have short := line.entry_length
      cases has_entry : line.entry <;> simp [entries,all,render,has_entry] at short ⊢
      exact short
  | cons line lines ih =>
    obtain ⟨line,crlf⟩ := line
    obtain ⟨rendered,listed⟩ := Layout.cons line crlf lines last
    have short := line.entry_length
    rw [rendered,listed]
    simp only [List.length_append]
    omega

/-- However a well-formed file is laid out, the parser returns the sections that it was made of. -/
theorem iniParse_layout (sections : List Section) (few : sections.length ≤ MAX_CONFIGS)
    (few_pairs : ∀ s ∈ sections, s.configPair.length ≤ MAX_CONFIGS)
    (fits : ∀ entry ∈ sections.flatMap Section.entries, entry.Fits) (layout : Layout)
    (valid : ∀ line ∈ layout.all, line.Valid) (made : layout.entries = sections.flatMap Section.entries) :
    iniParse layout.render = .ok sections := by
  obtain ⟨lines,last⟩ := layout
  obtain ⟨turns,size⟩ := Nat.le.dest (Layout.entries_length lines last)
  have parsed := parseFrom_layout lines last [] turns valid (made ▸ fits)
  rw [iniParse,← size,(by omega : (Layout.entries ⟨lines,last⟩).length+turns+1 =
    turns+1+(Layout.entries ⟨lines,last⟩).length),parsed,made]
  exact foldlM_sections [] sections few few_pairs

instance (ch : Byte) : Decidable (Plain ch) := by
  unfold Plain
  infer_instance

instance (text : Bytes) : Decidable (Fits text) := @instDecidableAnd _ _ (List.decidableBAll _ _) (Nat.decLt _ _)

instance (entry : Entry) : Decidable entry.Fits :=
  match entry with
  | .header name => inferInstanceAs (Decidable (Fits name))
  | .pair k v => inferInstanceAs (Decidable (Fits k ∧ Fits v))

instance (line : Line) : Decidable line.Valid :=
  match line with
  | .blank blanks => inferInstanceAs (Decidable (∀ ch ∈ blanks, isBlank ch = true))
  | .comment text => inferInstanceAs (Decidable (∀ ch ∈ text, ch ≠ 0 ∧ ch ≠ EOF ∧ ch ≠ 10))
  | .header before _ behind =>
    inferInstanceAs (Decidable ((∀ ch ∈ before, isBlank ch = true) ∧ ∀ ch ∈ behind, isBlank ch = true))
  | .pair _ _ => .isTrue trivial

theorem iniParse_layout_one :
    iniParse (ascii ['#','[','\n',' ','[','A',']','\t','\r','\n','k',' ','e',' ','=',' ','v','\r','\n','\n','l','=']) =
      .ok [⟨ascii ['A'],[⟨ascii ['k','e'],ascii ['v']⟩,⟨ascii ['l'],[]⟩]⟩] :=
  iniParse_layout [⟨ascii ['A'],[⟨ascii ['k','e'],ascii ['v']⟩,⟨ascii ['l'],[]⟩]⟩] (by decide) (by decide) (by decide +kernel)
    ⟨[(.comment (ascii ['[']),false),(.header (ascii [' ']) (ascii ['A']) (ascii ['\t']),true),
      (.pair (ascii ['k',' ','e',' ']) (ascii [' ','v']),true),(.blank [],false)],
      some (.pair (ascii ['l']) [])⟩ (by decide +kernel) (by decide +kernel)

end Spsc.IniParser
