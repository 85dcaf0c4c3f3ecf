import Spsc.IniParser.Layout

/-! One line with a key and a value. Comments may start only at the start of a line, but `=`, `#`
and `[` are tested at every place of it. -/
namespace Spsc.IniParser
open Imperative

/-- A byte that `read_line` takes for a mark wherever it stands. -/
def isMark (ch : Byte) : Bool := ch == char '=' || ch == char '#' || ch == char '['

/-- The line gives one pair with the whole value, and nothing of what is behind it is used. -/
def OnePair (key value rest : Bytes) : Prop :=
  readLine .line cleared 0 none (key ++ char '='::(value ++ 10::rest)) = .ok (some (.pair key (solid value)),rest)

/-- What such a line does to the section that `ini_parse` is in. -/
theorem OnePair.parsed {key value rest : Bytes} (pair : OnePair key value rest) (turns : Nat) (sections : List Section) :
    parseFrom (turns+1) sections (key ++ char '='::(value ++ 10::rest)) =
      addEntry sections (.pair key (solid value)) >>= fun sections => parseFrom turns sections rest := by
  rw [parseFrom,pair]
  rfl

theorem isMark_cases (ch : Byte) (mark : isMark ch = true) : ch = char '=' ∨ ch = char '#' ∨ ch = char '[' := by
  simpa [isMark,or_assoc] using mark

theorem stored_of_unmarked (ch : Byte) (clean : ch ≠ 0 ∧ ch ≠ EOF ∧ ch ≠ 10) (solid : isBlank ch = false)
    (unmarked : isMark ch = false) : Stored ch := by
  obtain ⟨nul,eof,newline⟩ := clean
  simp only [isMark,Bool.or_eq_false_iff,beq_eq_false_iff_ne] at unmarked
  exact ⟨nul,eof,newline,solid,unmarked.1.1,unmarked.1.2,unmarked.2⟩

theorem storable_of_unmarked (text : Bytes) (stored : ∀ ch ∈ text, (ch ≠ 0 ∧ ch ≠ EOF ∧ ch ≠ 10) ∧ isBlank ch = false ∧
    isMark ch = false) (short : text.length < 1024) : Storable text := by
  refine ⟨fun ch member => ?_,short⟩
  obtain ⟨clean,full,unmarked⟩ := stored ch member
  exact stored_of_unmarked ch clean full unmarked

theorem cString_held_le (text v : Bytes) (read : cString (held text) = .ok v) : v.length ≤ text.length := by
  unfold cString at read
  split at read
  · obtain rfl := Except.ok.inj read
    rw [held,List.takeWhile_append]
    split
    · rw [List.takeWhile_replicate]
      simp
    · exact (List.takeWhile_prefix _).length_le
  · cases read

theorem store_held_ok (text s : Bytes) (ch : Byte) (ran : store Fault.bounds (held text) (text.length : Nat) ch = .ok s) :
    text.length < 1024 ∧ s = held (text ++ [ch]) := by
  have inside := (store_ok _ _ _ _ _ ran).2.1
  rw [held,List.length_append,List.length_replicate] at inside
  have short : text.length < 1024 := by omega
  exact ⟨short,(Except.ok.inj ((store_held text ch short).symm.trans ran)).symm⟩

/-- A store that succeeds leaves the text with the byte behind it. -/
theorem store_onward {place : Place} {text rest : Bytes} {k : Option Bytes} {ch : Byte} {out : Option Entry × Bytes}
    (ran : (store Fault.bounds (held text) (text.length : Nat) ch >>= fun s => readLine place s (text.length+1) k rest) =
      .ok out) :
    readLine place (held (text ++ [ch])) (text ++ [ch]).length k rest = .ok out := by
  obtain ⟨s,written,onward⟩ := bind_ok _ _ _ ran
  obtain ⟨_,rfl⟩ := store_held_ok text s ch written
  rw [List.length_append]
  exact onward

section Value
variable {rest k v : Bytes}

/-- No pair comes from behind a `[` on the same line. -/
theorem header_no_pair (more s : Bytes) (i : Nat) (key : Option Bytes) (clean : ∀ ch ∈ more, ch ≠ 0 ∧ ch ≠ EOF ∧ ch ≠ 10)
    (ran : readLine .header s i key (more ++ 10::rest) = .ok (some (.pair k v),rest)) : False := by
  induction more generalizing s i with
  | nil =>
    obtain ⟨s,_,ran⟩ := bind_ok _ _ _ ran
    cases rest with
    | nil => cases ran
    | cons ch rest =>
      have short := readLine_shorter _ _ _ _ _ _ _ ran
      rw [List.length_cons] at short
      omega
  | cons ch more ih =>
    obtain ⟨nul,eof,_⟩ := clean ch List.mem_cons_self
    by_cases closing : ch = char ']'
    · rw [closing] at ran
      obtain ⟨_,_,ran⟩ := bind_ok _ _ _ ran
      cases ran
    · rw [List.cons_append,readLine,act_name key.isSome ch nul eof closing] at ran
      obtain ⟨s,_,ran⟩ := bind_ok _ _ _ ran
      exact ih s (i+1) (fun other member => clean other (List.mem_cons_of_mem _ member)) ran

/-- A comment goes on over the end of the line, and what ends the file behind it is the value so far. -/
theorem comment_value (more text : Bytes) (key : Bytes) (clean : ∀ ch ∈ more, ch ≠ 0 ∧ ch ≠ EOF ∧ ch ≠ 10)
    (ran : readLine .comment (held text) text.length (some key) (more ++ 10::rest) = .ok (some (.pair k v),rest)) :
    v.length ≤ text.length := by
  rw [readLine_comment more _ clean] at ran
  cases rest with
  | nil =>
    obtain ⟨entry,ended,ran⟩ := bind_ok _ _ _ ran
    obtain ⟨value,read,ended⟩ := bind_ok _ _ _ ended
    obtain rfl := Except.ok.inj ended
    obtain ⟨_,rfl⟩ := Entry.pair.inj (Option.some.inj (Prod.mk.inj (Except.ok.inj ran)).1)
    exact cString_held_le text value read
  | cons ch rest =>
    have short := readLine_shorter (ch::rest) .line _ _ _ _ _ ran
    rw [List.length_cons] at short
    omega

/-- Each mark in the rest of a line makes the value shorter than what the line holds. -/
theorem readLine_value (more text key : Bytes) (clean : ∀ ch ∈ more, ch ≠ 0 ∧ ch ≠ EOF ∧ ch ≠ 10)
    (ran : readLine .line (held text) text.length (some key) (more ++ 10::rest) = .ok (some (.pair k v),rest)) :
    v.length + more.countP isMark ≤ text.length + (solid more).length := by
  induction more generalizing text key with
  | nil =>
    obtain ⟨value,read,ran⟩ := bind_ok _ _ _ ran
    obtain ⟨_,rfl⟩ := Entry.pair.inj (Option.some.inj (Prod.mk.inj (Except.ok.inj ran)).1)
    exact cString_held_le text value read
  | cons ch more ih =>
    have here := clean ch List.mem_cons_self
    have later : ∀ other ∈ more, other ≠ 0 ∧ other ≠ EOF ∧ other ≠ 10 :=
      fun other member => clean other (List.mem_cons_of_mem _ member)
    rw [List.cons_append] at ran
    by_cases blank : isBlank ch = true
    · rw [readLine_blank _ _ _ _ _ blank] at ran
      have unmarked : isMark ch = false := by
        rcases isBlank_cases ch blank with rfl | rfl | rfl
        all_goals decide
      rw [solid_blank ch more blank,List.countP_cons_of_neg (by rw [unmarked]; decide)]
      exact ih text key later ran
    rw [solid_cons ch more blank,List.length_cons]
    by_cases mark : isMark ch = true
    · rw [List.countP_cons_of_pos mark]
      have most : more.countP isMark ≤ (solid more).length := by
        rw [List.countP_eq_length_filter]
        refine (List.monotone_filter_right more (fun ch mark => ?_)).length_le
        rcases isMark_cases ch mark with rfl | rfl | rfl
        all_goals decide
      rcases isMark_cases ch mark with rfl | rfl | rfl
      · obtain ⟨_,_,ran⟩ := bind_ok _ _ _ ran
        have short := ih [] _ later ran
        rw [List.length_nil] at short
        omega
      · have short := comment_value more text key later ran
        omega
      · exact (header_no_pair more _ _ _ later ran).elim
    · have plain := stored_of_unmarked ch here (Bool.eq_false_iff.mpr blank) (Bool.eq_false_iff.mpr mark)
      rw [readLine_store _ _ _ _ _ plain] at ran
      have short := ih (text ++ [ch]) key later (store_onward ran)
      rw [List.length_append,List.length_singleton] at short
      rw [List.countP_cons_of_neg mark]
      omega

/-- A key with a NUL in it, or with a byte that reads as the end of the file, gives no entry. -/
theorem readLine_key (key text tail left : Bytes) (entry : Entry)
    (unmarked : ∀ ch ∈ key, ch ≠ 10 ∧ isBlank ch = false ∧ isMark ch = false)
    (ran : readLine .line (held text) text.length none (key ++ tail) = .ok (some entry,left)) : 0 ∉ key ∧ EOF ∉ key := by
  induction key generalizing text with
  | nil => simp
  | cons ch key ih =>
    obtain ⟨newline,solid,clear⟩ := unmarked ch List.mem_cons_self
    have eof : ch ≠ EOF := by
      rintro rfl
      cases ran
    have nul : ch ≠ 0 := by
      rintro rfl
      cases ran
    rw [List.cons_append,readLine_store _ _ _ _ _ (stored_of_unmarked ch ⟨nul,eof,newline⟩ solid clear)] at ran
    obtain ⟨no_nul,no_eof⟩ := ih (text ++ [ch]) (fun other member => unmarked other (List.mem_cons_of_mem _ member))
      (store_onward ran)
    rw [List.mem_cons,List.mem_cons,not_or,not_or]
    exact ⟨⟨Ne.symm nul,no_nul⟩,⟨Ne.symm eof,no_eof⟩⟩

end Value

theorem solid_eq_self (text : Bytes) (full : ∀ ch ∈ text, isBlank ch = false) : solid text = text := by
  rw [solid,List.filter_eq_self]
  intro ch member
  rw [full ch member]
  rfl

/-- A line gives its key and its whole value exactly when the value has no mark in it and the key no
byte that ends the reading. -/
theorem value_whole (key value rest : Bytes) (key_unmarked : ∀ ch ∈ key, ch ≠ 10 ∧ isBlank ch = false ∧ isMark ch = false)
    (value_clean : ∀ ch ∈ value, ch ≠ 0 ∧ ch ≠ EOF ∧ ch ≠ 10) (key_short : key.length < 1024)
    (value_short : value.length < 1024) :
    OnePair key value rest ↔ (0 ∉ key ∧ EOF ∉ key) ∧ ∀ ch ∈ value, isMark ch = false := by
  have same : solid key = key := solid_eq_self key (fun ch member => (key_unmarked ch member).2.1)
  have keyStored : 0 ∉ key ∧ EOF ∉ key → Storable (solid key) := by
    rintro ⟨no_nul,no_eof⟩
    rw [same]
    refine storable_of_unmarked key (fun ch member => ?_) key_short
    obtain ⟨newline,clear⟩ := key_unmarked ch member
    exact ⟨⟨fun nul => no_nul (nul ▸ member),fun eof => no_eof (eof ▸ member),newline⟩,clear⟩
  constructor
  · intro pair
    have keyClean := readLine_key key [] _ _ _ key_unmarked pair
    refine ⟨keyClean,?_⟩
    unfold OnePair at pair
    rw [readLine_equals key _ (keyStored keyClean)] at pair
    have marks := readLine_value value [] _ value_clean pair
    rw [List.length_nil] at marks
    intro ch member
    have none_left : value.countP isMark = 0 := by omega
    exact Bool.eq_false_iff.mpr (List.countP_eq_zero.mp none_left ch member)
  · rintro ⟨keyClean,unmarked⟩
    have valueStored : Storable (solid value) := by
      refine storable_of_unmarked (solid value) (fun ch member => ?_) ((List.length_filter_le _ _).trans_lt value_short)
      obtain ⟨inside,full⟩ := List.mem_filter.mp member
      exact ⟨value_clean ch inside,by simpa using full,unmarked ch inside⟩
    unfold OnePair
    rw [readLine_pair key value (10::rest) (keyStored keyClean) valueStored,same]
    exact readLine_newline key (solid value) rest valueStored

theorem value_whole_path : OnePair (ascii ['k']) (ascii ['/','a',' ','b']) [] :=
  (value_whole (ascii ['k']) (ascii ['/','a',' ','b']) [] (by decide +kernel) (by decide +kernel) (by decide) (by decide)).mpr
    (by decide +kernel)

/-- The value of `K=a=b` is cut at its `=`, and what is before that becomes the key. -/
theorem value_cut :
    iniParse (ascii ['[','A',']','\n','K','=','a','=','b','\n']) = .ok [⟨ascii ['A'],[⟨ascii ['a'],ascii ['b']⟩]⟩] ∧
    ¬ OnePair (ascii ['K']) (ascii ['a','=','b']) [] := by
  refine ⟨by decide +kernel,fun pair => ?_⟩
  have read : readLine .line cleared 0 none (ascii ['K','=','a','=','b','\n']) =
      .ok (some (.pair (ascii ['a']) (ascii ['b'])),[]) := by decide +kernel
  have both := read.symm.trans pair
  exact absurd both (by decide)

end Spsc.IniParser
