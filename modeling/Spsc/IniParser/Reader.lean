import Spsc.IniParser.Values
import Spsc.Lib.Transducer

/-! The parser as a machine over bytes whose buffer has no bound, and that what the parser makes of
a file is made of the entries that this machine puts out. -/
namespace Spsc.IniParser
open Imperative Transducer

/-- Where `read_line` stands between two bytes. -/
structure Reading where
  place : Place
  text : Bytes
  k : Option Bytes
  deriving DecidableEq, Repr

namespace Reading

def start : Reading := ⟨.line,[],none⟩

def store (reading : Reading) (ch : Byte) : Reading := { reading with text := reading.text ++ [ch] }

def next (reading : Reading) (ch : Byte) : Reading × List Entry :=
  match act reading.place reading.k.isSome ch with
  | .skip place => ({ reading with place := place },[])
  | .keep place => ({ reading.store ch with place := place },[])
  | .key => (⟨.line,[],some reading.text⟩,[])
  | .name => (start,[.header reading.text])
  | .value => (start,[.pair (reading.k.getD []) reading.text])
  | .stop => (reading,[])

def ended (reading : Reading) : List Entry :=
  match reading.place, reading.k with
  | .line, some k => [.pair k reading.text]
  | _, _ => []

end Reading

def reader : Machine Reading Byte Entry := ⟨Reading.next,Reading.ended⟩

def entriesOf (file : Bytes) : List Entry := reader.run .start file

/-- A byte that is neither a NUL nor reads as the end of the file. -/
def Readable (text : Bytes) : Prop := ∀ ch ∈ text, ch ≠ 0 ∧ ch ≠ EOF

theorem Readable.tail {ch : Byte} {rest : Bytes} (readable : Readable (ch::rest)) : Readable rest :=
  fun other member => readable other (List.mem_cons_of_mem _ member)

/-- What the outer loop tells apart. -/
theorem line_cases (ch : Byte) (readable : ch ≠ 0 ∧ ch ≠ EOF) :
    ch = char '[' ∨ ch = char '#' ∨ isBlank ch = true ∨ ch = char '=' ∨ ch = 10 ∨ Stored ch := by
  by_cases mark : isMark ch = true
  · rcases isMark_cases ch mark with rfl | rfl | rfl
    · exact .inr (.inr (.inr (.inl rfl)))
    · exact .inr (.inl rfl)
    · exact .inl rfl
  by_cases blank : isBlank ch = true
  · exact .inr (.inr (.inl blank))
  by_cases newline : ch = 10
  · exact .inr (.inr (.inr (.inr (.inl newline))))
  · exact .inr (.inr (.inr (.inr (.inr (stored_of_unmarked ch ⟨readable.1,readable.2,newline⟩
      (Bool.eq_false_iff.mpr blank) (Bool.eq_false_iff.mpr mark))))))

section Steps
variable (text rest : Bytes) (k : Option Bytes)

theorem run_opening : reader.run ⟨.line,text,k⟩ (char '['::rest) = reader.run ⟨.header,text,k⟩ rest := rfl

theorem run_hash : reader.run ⟨.line,text,k⟩ (char '#'::rest) = reader.run ⟨.comment,text,k⟩ rest := rfl

theorem step_blank (ch : Byte) (blank : isBlank ch = true) : reader.step ⟨.line,text,k⟩ ch = (⟨.line,text,k⟩,[]) := by
  simp only [reader,Reading.next,act_blank k.isSome ch blank]

theorem run_blank (ch : Byte) (blank : isBlank ch = true) :
    reader.run ⟨.line,text,k⟩ (ch::rest) = reader.run ⟨.line,text,k⟩ rest := by
  rw [Machine.run_cons,step_blank text k ch blank]
  rfl

theorem run_equals : reader.run ⟨.line,text,k⟩ (char '='::rest) = reader.run ⟨.line,[],some text⟩ rest := rfl

theorem run_skip : reader.run ⟨.line,text,none⟩ (10::rest) = reader.run ⟨.line,text,none⟩ rest := rfl

theorem run_pair (key : Bytes) : reader.run ⟨.line,text,some key⟩ (10::rest) = .pair key text::entriesOf rest := rfl

theorem step_stored (ch : Byte) (stored : Stored ch) :
    reader.step ⟨.line,text,k⟩ ch = (⟨.line,text ++ [ch],k⟩,[]) := by
  simp only [reader,Reading.next,act_stored k.isSome ch stored]
  rfl

theorem run_stored (ch : Byte) (stored : Stored ch) :
    reader.run ⟨.line,text,k⟩ (ch::rest) = reader.run ⟨.line,text ++ [ch],k⟩ rest := by
  rw [Machine.run_cons,step_stored text k ch stored]
  rfl

theorem run_close : reader.run ⟨.header,text,k⟩ (char ']'::rest) = .header text::entriesOf rest := rfl

theorem run_uncomment : reader.run ⟨.comment,text,k⟩ (10::rest) = reader.run ⟨.line,text,k⟩ rest := rfl

section Inside
variable (ch : Byte) (readable : ch ≠ 0 ∧ ch ≠ EOF)
include readable

theorem step_comment (other : ch ≠ 10) : reader.step ⟨.comment,text,k⟩ ch = (⟨.comment,text,k⟩,[]) := by
  simp only [reader,Reading.next,act_comment k.isSome ch readable.1 readable.2 other]

theorem run_comment (other : ch ≠ 10) :
    reader.run ⟨.comment,text,k⟩ (ch::rest) = reader.run ⟨.comment,text,k⟩ rest := by
  rw [Machine.run_cons,step_comment text k ch readable other]
  rfl

theorem step_name (open_name : ch ≠ char ']') :
    reader.step ⟨.header,text,k⟩ ch = (⟨.header,text ++ [ch],k⟩,[]) := by
  simp only [reader,Reading.next,act_name k.isSome ch readable.1 readable.2 open_name]
  rfl

theorem run_name (open_name : ch ≠ char ']') :
    reader.run ⟨.header,text,k⟩ (ch::rest) = reader.run ⟨.header,text ++ [ch],k⟩ rest := by
  rw [Machine.run_cons,step_name text k ch readable open_name]
  rfl

end Inside

/-- A header that is closed takes its name up to the first `]`. -/
theorem run_header (readable : Readable rest) (closed : char ']' ∈ rest) : ∃ name behind, rest = name ++ char ']'::behind ∧
    ∀ text k, reader.run ⟨.line,text,k⟩ (char '['::rest) = .header (text ++ name)::entriesOf behind := by
  obtain ⟨name,behind,rfl,open_name⟩ := List.eq_append_cons_of_mem closed
  refine ⟨name,behind,rfl,fun text k => ?_⟩
  clear closed
  rw [run_opening]
  induction name generalizing text with
  | nil =>
    rw [List.append_nil]
    exact run_close text behind k
  | cons ch name ih =>
    obtain ⟨other,later⟩ := List.ne_and_not_mem_of_not_mem_cons open_name
    rw [List.cons_append,run_name text _ k ch (readable ch List.mem_cons_self) (Ne.symm other),ih later readable.tail,
      List.append_assoc]
    rfl

end Steps

theorem cString_held_ok (text v : Bytes) (clean : 0 ∉ text) (read : cString (held text) = .ok v) : v = text := by
  by_cases short : text.length < 1024
  · exact (Except.ok.inj ((cString_held text clean short).symm.trans read)).symm
  · rw [held,Nat.sub_eq_zero_of_le (not_lt.mp short),List.replicate_zero,List.append_nil,cString,if_neg clean] at read
    cases read

theorem store_clean (text : Bytes) (ch : Byte) (clean : 0 ∉ text) (nul : ch ≠ 0) : 0 ∉ text ++ [ch] := by
  rw [List.mem_append,not_or,List.mem_singleton]
  exact ⟨clean,Ne.symm nul⟩

/-- What a call of `read_line` that returns has to do with a list of entries. -/
def Gives (entries : List Entry) (read : C (Option Entry × Bytes)) : Prop :=
  ∀ entry rest, read = .ok (entry,rest) →
    Readable rest ∧ entries = (match entry with | none => [] | some entry => entry::entriesOf rest)

theorem Gives.read {text rest : Bytes} (make : Bytes → Entry) (clean : 0 ∉ text) (readable : Readable rest) :
    Gives (make text::entriesOf rest) (cString (held text) >>= fun text => .ok (some (make text),rest)) := by
  intro entry left ran
  obtain ⟨v,read,last⟩ := bind_ok _ _ _ ran
  obtain ⟨rfl,rfl⟩ := Prod.mk.inj (Except.ok.inj last)
  rw [cString_held_ok text v clean read]
  exact ⟨readable,rfl⟩

theorem Gives.store {entries : List Entry} {text more : Bytes} {ch : Byte} {place : Place} {k : Option Bytes}
    (onward : Gives entries (readLine place (held (text ++ [ch])) (text ++ [ch]).length k more)) :
    Gives entries (store .bounds (held text) (text.length : Nat) ch >>= fun s =>
      readLine place s (text.length+1) k more) := by
  intro entry rest ran
  exact onward entry rest (store_onward ran)

theorem atEnd_gives (text : Bytes) (place : Place) (k : Option Bytes) (clean : 0 ∉ text) :
    Gives (reader.run ⟨place,text,k⟩ []) (readLine place (held text) text.length k []) := by
  have none_left : Readable [] := fun _ member => nomatch member
  have silent : Gives [] (.ok (none,[])) := by
    intro entry rest ran
    obtain ⟨rfl,rfl⟩ := Prod.mk.inj (Except.ok.inj ran)
    exact ⟨none_left,rfl⟩
  cases place with
  | header => exact silent
  | comment => exact silent
  | line =>
    cases k with
    | none => exact silent
    | some k =>
      have given := Gives.read (.pair k) clean none_left
      rw [readLine,atEnd_value]
      exact given

theorem readLine_gives (file text : Bytes) (place : Place) (k : Option Bytes) (readable : Readable file)
    (clean : 0 ∉ text) : Gives (reader.run ⟨place,text,k⟩ file) (readLine place (held text) text.length k file) := by
  induction file generalizing place text k with
  | nil => exact atEnd_gives text place k clean
  | cons ch more ih =>
    obtain ⟨nul,eof⟩ := readable ch List.mem_cons_self
    have later := readable.tail
    have kept := fun place => ih (text ++ [ch]) place k later (store_clean text ch clean nul)
    rw [readLine,Machine.run_cons]
    simp only [reader,Reading.next]
    cases acts : act place k.isSome ch with
    | skip place' => exact ih text place' k later clean
    | keep place' => exact Gives.store (kept place')
    | key =>
      intro entry rest ran
      obtain ⟨v,read,last⟩ := bind_ok _ _ _ ran
      rw [cString_held_ok text v clean read] at last
      exact ih [] .line (some text) later (List.not_mem_nil) entry rest last
    | name => exact Gives.read .header clean later
    | value => exact Gives.read (.pair (k.getD [])) clean later
    | stop => exact absurd (act_stop place k.isSome ch acts) (not_or.mpr ⟨eof,nul⟩)

/-- The sections that `ini_parse` returns are made of the entries that the machine puts out. -/
theorem parseFrom_entries (turns : Nat) (sections result : List Section) (file : Bytes) (readable : Readable file)
    (ran : parseFrom turns sections file = .ok result) : (entriesOf file).foldlM addEntry sections = .ok result := by
  induction turns generalizing sections file with
  | zero => cases ran
  | succ turns ih =>
    obtain ⟨⟨entry,rest⟩,read,last⟩ := bind_ok _ _ _ ran
    obtain ⟨later,same⟩ := readLine_gives file [] .line none readable List.not_mem_nil entry rest read
    rw [entriesOf,Reading.start,same]
    cases entry with
    | none => exact last
    | some entry =>
      obtain ⟨next,added,onward⟩ := bind_ok _ _ _ last
      rw [List.foldlM_cons,added]
      exact ih next rest later onward

theorem addEntry_entries (sections next : List Section) (entry : Entry) (added : addEntry sections entry = .ok next) :
    next.flatMap Section.entries = sections.flatMap Section.entries ++ [entry] := by
  cases (addEntry_added sections next entry).mp added with
  | header _ name room =>
    rw [List.flatMap_append]
    rfl
  | pair earlier currSection k v room => simp [Section.entries]

theorem foldlM_entries (entries : List Entry) (sections result : List Section)
    (ran : entries.foldlM addEntry sections = .ok result) :
    result.flatMap Section.entries = sections.flatMap Section.entries ++ entries := by
  induction entries generalizing sections with
  | nil =>
    obtain rfl := Except.ok.inj ran
    rw [List.append_nil]
  | cons entry entries ih =>
    obtain ⟨next,added,onward⟩ := bind_ok _ _ _ ran
    rw [ih next onward,addEntry_entries sections next entry added,List.append_assoc]
    rfl

end Spsc.IniParser
