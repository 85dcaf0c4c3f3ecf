import Mathlib.Data.List.Shortlex
import Spsc.IniParser.Reader

/-! When the lines of a configuration are read apart from each other. A newline ends a line only
where a key has been read and no comment is open; otherwise what has been read stays. -/
namespace Spsc.IniParser
open Imperative Transducer

/-- What a text leaves unfinished: nothing, a text without `=`, or a pair whose newline went with a comment. -/
inductive Open where
  | nothing
  | text
  | pair
  deriving DecidableEq, Repr

def Open.stored : Open → Open
  | .pair => .pair
  | _ => .text

def Open.next : Place × Open → Byte → Place × Open
  | (place,left), ch =>
    match act place (decide (left = .pair)) ch with
    | .skip place => (place,left)
    | .keep place => (place,left.stored)
    | .key => (.line,.pair)
    | .name | .value => (.line,.nothing)
    | .stop => (place,left)

def leaves (text : Bytes) : Open := (text.foldl Open.next (.line,.nothing)).2

/-- A text without its comments; each goes with the newline behind it. -/
def uncommented : Bool → Bytes → Bytes
  | _, [] => []
  | true, ch::rest => uncommented (ch != 10) rest
  | false, ch::rest => if ch = char '#' then uncommented true rest else ch::uncommented false rest

/-- The rest of the line, or of the text, is blank. -/
def EndsPair (text : Bytes) : Prop := ∀ ch ∈ (text.dropWhile isBlank).head?, ch = 10

/-- Another `=` or a header comes before the end of the line. -/
def ReplacesKey (text : Bytes) : Prop := ∃ ch ∈ text.takeWhile (fun ch => ch != 10), ch = char '=' ∨ ch = char '['

/-- An unfinished text in front gets into no key, and into no section's name where names count. -/
def KeepsOut (names : Bool) (text : Bytes) : Prop :=
  match text.dropWhile (fun ch => ch != char '[' && ch != char '=') with
  | [] => True
  | ch::rest => if ch = char '[' then names = false else ReplacesKey rest

def Harmless (names : Bool) : Open → Bytes → Prop
  | .nothing, _ => True
  | .text, text => KeepsOut names (uncommented false text)
  | .pair, text => EndsPair (uncommented false text)

/-- Nothing that is left unfinished before the line, or by it, gets into what is behind. -/
def Apart (names : Bool) (pre line post : Bytes) : Prop :=
  Harmless names (leaves pre) (line ++ 10::post) ∧ Harmless names (leaves (line ++ [10])) post

/-- A text of whole lines, each `[` of which is closed on its line. -/
structure WholeLines (text : Bytes) : Prop where
  readable : Readable text
  ended : text.getLast? = some 10 ∨ text = []
  closed : ∀ front behind, text = front ++ char '['::behind → char ']' ∈ behind.takeWhile (fun ch => ch != 10)

def pairsIn (sections : List Section) : List IniPair := sections.flatMap Section.configPair

def Entry.isPair : Entry → Bool
  | .header _ => false
  | .pair _ _ => true

def Entry.size : Entry → Nat
  | .header name => name.length
  | .pair k v => k.length+v.length

/-- The entries that are compared. -/
def shown (names : Bool) (entries : List Entry) : List Entry := entries.filter (fun entry => names || entry.isPair)

def Larger (a b : Entry) : Prop := b.size < a.size

instance : Std.Asymm Larger := ⟨fun _ _ => Nat.lt_asymm⟩

/-- Fewer entries are shown, or the first one that differs is larger. -/
def Worse (names : Bool) (es fs : List Entry) : Prop := List.Shortlex Larger (shown names es) (shown names fs)

/-- A condition that says whether the same entries are shown, which otherwise are worse. -/
inductive Judged (names : Bool) (condition : Prop) (es fs : List Entry) : Prop
  | same (holds : condition) (equal : shown names es = shown names fs)
  | worse (fails : ¬ condition) (worse : Worse names es fs)

section Shown
variable {names : Bool} {condition : Prop} {es fs : List Entry}

theorem shown_append (names : Bool) (es fs : List Entry) : shown names (es ++ fs) = shown names es ++ shown names fs :=
  List.filter_append _ _

theorem shown_cons (names : Bool) (entry : Entry) (es : List Entry) (counts : (names || entry.isPair) = true) :
    shown names (entry::es) = entry::shown names es := List.filter_cons_of_pos counts

theorem shown_length (kinds : es.map Entry.isPair = fs.map Entry.isPair) :
    (shown names es).length = (shown names fs).length := by
  have counted : ∀ es : List Entry, (shown names es).length = (es.map Entry.isPair).countP (fun pair => names || pair) := by
    intro es
    rw [shown,List.countP_map,List.countP_eq_length_filter]
    rfl
  rw [counted,counted,kinds]

theorem shortlex_irrefl (es : List Entry) : ¬ List.Shortlex Larger es es := fun worse => asymm worse worse

theorem Worse.append_left (before : List Entry) (worse : Worse names es fs) : Worse names (before ++ es) (before ++ fs) := by
  unfold Worse
  rw [shown_append,shown_append]
  exact List.Shortlex.append_left worse _

theorem Worse.lost {pair : Entry} (is_pair : pair.isPair = true) (kinds : es.map Entry.isPair = fs.map Entry.isPair) :
    Worse names es (pair::fs) := by
  refine List.Shortlex.of_length_lt ?_
  rw [shown_cons names pair fs (by rw [is_pair,Bool.or_true]),List.length_cons,shown_length kinds]
  exact Nat.lt_succ_self _

theorem Worse.first {a b : Entry} (larger : b.size < a.size) (counts : (names || a.isPair) = true)
    (counts' : (names || b.isPair) = true) (kinds : es.map Entry.isPair = fs.map Entry.isPair) :
    Worse names (a::es) (b::fs) := by
  unfold Worse
  rw [shown_cons names a es counts,shown_cons names b fs counts']
  refine List.Shortlex.of_lex ?_ (.rel larger)
  rw [List.length_cons,List.length_cons,shown_length kinds]

theorem Judged.congr {other : Prop} (judged : Judged names condition es fs) (iff : condition ↔ other) :
    Judged names other es fs := by
  cases judged with
  | same holds equal => exact .same (iff.mp holds) equal
  | worse fails worse => exact .worse (fun holds => fails (iff.mpr holds)) worse

theorem Judged.append_left (before : List Entry) (judged : Judged names condition es fs) :
    Judged names condition (before ++ es) (before ++ fs) := by
  cases judged with
  | same holds equal => exact .same holds (by rw [shown_append,shown_append,equal])
  | worse fails worse => exact .worse fails (worse.append_left before)

theorem Judged.both {other : Prop} {gs : List Entry} (first : Judged names condition es fs)
    (second : Judged names other fs gs) : shown names es = shown names gs ↔ condition ∧ other := by
  cases first with
  | same holds equal =>
    rw [equal]
    cases second with
    | same holds' equal' => exact iff_of_true equal' ⟨holds,holds'⟩
    | worse fails worse =>
      refine iff_of_false (fun same => ?_) (fun both => fails both.2)
      unfold Worse at worse
      rw [same] at worse
      exact shortlex_irrefl _ worse
  | worse fails worse =>
    refine iff_of_false (fun same => ?_) (fun both => fails both.1)
    unfold Worse at worse
    rw [same] at worse
    cases second with
    | same _ equal =>
      rw [equal] at worse
      exact shortlex_irrefl _ worse
    | worse _ worse' => exact asymm worse worse'

end Shown

/-- Where the machine stands in a text, in no header. -/
def placeOf (comment : Bool) : Place := if comment then .comment else .line

/-- The rest of a text of whole lines, from some place of it on. -/
structure Whole (place : Place) (text : Bytes) : Prop where
  readable : Readable text
  ended : text.getLast? = some 10 ∨ text = []
  closed : ∀ front behind, text = front ++ char '['::behind → char ']' ∈ behind
  header : place = .header → char ']' ∈ text
  comment : place = .comment → text ≠ []

theorem WholeLines.whole {text : Bytes} (lines : WholeLines text) : Whole .line text where
  readable := lines.readable
  ended := lines.ended
  closed := fun front behind parts => (List.takeWhile_prefix _).subset (lines.closed front behind parts)
  header := fun other => nomatch other
  comment := fun other => nomatch other

theorem Whole.append {first second : Bytes} (whole : Whole .line first) (whole' : Whole .line second) :
    Whole .line (first ++ second) where
  readable := fun ch member => (List.mem_append.mp member).elim (whole.readable ch) (whole'.readable ch)
  ended := by
    rcases whole'.ended with ended | rfl
    · exact .inl (by rw [List.getLast?_append,ended]; rfl)
    · rw [List.append_nil]
      exact whole.ended
  closed := by
    intro front behind parts
    rcases List.append_eq_append_iff.mp parts with ⟨before,rfl,later⟩ | ⟨inside,rfl,same⟩
    · exact whole'.closed before behind later
    · cases inside with
      | nil => exact whole'.closed [] behind same.symm
      | cons ch inside =>
        obtain ⟨rfl,rfl⟩ := List.cons.inj same
        exact List.mem_append_left _ (whole.closed front inside rfl)
  header := fun other => nomatch other
  comment := fun other => nomatch other

namespace Whole
variable {place : Place} {ch : Byte} {rest : Bytes} (whole : Whole place (ch::rest))
include whole

theorem behind (next : Place) (header : next = .header → char ']' ∈ rest) (comment : next = .comment → rest ≠ []) :
    Whole next rest where
  readable := whole.readable.tail
  ended := by
    cases rest with
    | nil => exact .inr rfl
    | cons other rest =>
      rcases whole.ended with ended | none
      · exact .inl (by rwa [List.getLast?_cons_cons] at ended)
      · cases none
  closed := fun front behind parts => whole.closed (ch::front) behind (by rw [parts]; rfl)
  header := header
  comment := comment

theorem line : Whole .line rest := whole.behind .line (fun other => nomatch other) (fun other => nomatch other)

theorem into_comment (other : ch ≠ 10) : Whole .comment rest := by
  refine whole.behind .comment (fun other => nomatch other) (fun _ none => other ?_)
  rcases whole.ended with ended | absent
  · rw [none] at ended
    exact Option.some.inj ended
  · cases absent

theorem closing (opening : ch = char '[') : char ']' ∈ rest := whole.closed [] rest (by rw [opening]; rfl)

end Whole

/-- Two readings in which the same bytes are ended by the same kinds of entries. -/
theorem run_kinds (place : Place) (text text' : Bytes) (k k' : Option Bytes) (keys : k.isSome = k'.isSome) (input : Bytes) :
    (reader.run ⟨place,text,k⟩ input).map Entry.isPair = (reader.run ⟨place,text',k'⟩ input).map Entry.isPair := by
  refine reader.run_related (fun r r' => r.place = r'.place ∧ r.k.isSome = r'.k.isSome) Entry.isPair ?_ ?_
    ⟨place,text,k⟩ ⟨place,text',k'⟩ ⟨rfl,keys⟩ input
  · rintro ⟨place,text,k⟩ ⟨_,text',k'⟩ ch ⟨rfl,keys⟩
    have acts : act place k'.isSome ch = act place k.isSome ch := congrArg (fun keyed => act place keyed ch) keys.symm
    simp only [reader,Reading.next,acts]
    cases act place k.isSome ch with
    | skip place' => exact ⟨⟨rfl,keys⟩,rfl⟩
    | keep place' => exact ⟨⟨rfl,keys⟩,rfl⟩
    | key => exact ⟨⟨rfl,rfl⟩,rfl⟩
    | name => exact ⟨⟨rfl,rfl⟩,rfl⟩
    | value => exact ⟨⟨rfl,rfl⟩,rfl⟩
    | stop => exact ⟨⟨rfl,keys⟩,rfl⟩
  · rintro ⟨place,text,k⟩ ⟨_,text',k'⟩ ⟨rfl,keys⟩
    cases place with
    | header => rfl
    | comment => rfl
    | line =>
      cases k with
      | none => cases k' with
        | none => rfl
        | some k' => cases keys
      | some k => cases k' with
        | none => cases keys
        | some k' => rfl

theorem placeOf_false : placeOf false = .line := rfl

theorem run_placeOf (text rest : Bytes) (k : Option Bytes) (ch : Byte) (readable : ch ≠ 0 ∧ ch ≠ EOF) :
    reader.run ⟨placeOf true,text,k⟩ (ch::rest) = reader.run ⟨placeOf (ch != 10),text,k⟩ rest := by
  by_cases newline : ch = 10
  · rw [newline]
    exact run_uncomment text rest k
  · rw [placeOf,placeOf,if_pos rfl,if_pos (bne_iff_ne.mpr newline)]
    exact run_comment text rest k ch readable newline

/-- Induction over the bytes of a text in the way that the machine reads them, up to the first header.
Comments are skipped. -/
theorem Whole.read {motive : Bool → Bytes → Prop} (ended : motive false [])
    (skipped : ∀ c text c' rest, (∀ t k, reader.run ⟨placeOf c,t,k⟩ text = reader.run ⟨placeOf c',t,k⟩ rest) →
      uncommented c text = uncommented c' rest → motive c' rest → motive c text)
    (blank : ∀ ch rest, isBlank ch = true → motive false rest → motive false (ch::rest))
    (equals : ∀ rest, Whole .line rest → motive false (char '='::rest))
    (newline : ∀ rest, motive false rest → motive false (10::rest))
    (opening : ∀ rest, Readable rest → char ']' ∈ rest → motive false (char '['::rest))
    (stored : ∀ ch rest, Stored ch → Whole .line rest → motive false rest → motive false (ch::rest))
    (comment : Bool) (text : Bytes) (whole : Whole (placeOf comment) text) : motive comment text := by
  induction text generalizing comment with
  | nil =>
    cases comment with
    | true => exact absurd rfl (whole.comment rfl)
    | false => exact ended
  | cons ch rest ih =>
    cases comment with
    | true =>
      refine skipped true (ch::rest) (ch != 10) rest 
        (fun t k => run_placeOf t rest k ch (whole.readable ch List.mem_cons_self)) rfl (ih _ ?_)
      by_cases last : ch = 10
      · rw [last]
        exact whole.line
      · rw [placeOf,if_pos (bne_iff_ne.mpr last)]
        exact whole.into_comment last
    | false =>
      rcases line_cases ch (whole.readable ch List.mem_cons_self) with rfl | rfl | blanks | rfl | rfl | plain
      · exact opening rest whole.readable.tail (whole.closing rfl)
      · exact skipped false (char '#'::rest) true rest (fun t k => run_hash t rest k) rfl
          (ih true (whole.into_comment (by decide)))
      · exact blank ch rest blanks (ih false whole.line)
      · exact equals rest whole.line
      · exact newline rest (ih false whole.line)
      · exact stored ch rest plain whole.line (ih false whole.line)

theorem uncommented_cons (ch : Byte) (rest : Bytes) (other : ch ≠ char '#') :
    uncommented false (ch::rest) = ch::uncommented false rest := if_neg other

theorem blank_other (ch : Byte) (blank : isBlank ch = true) :
    ch ≠ char '#' ∧ ch ≠ char '[' ∧ ch ≠ char '=' ∧ ch ≠ 10 := by
  rcases isBlank_cases ch blank with rfl | rfl | rfl
  all_goals decide

theorem replacesKey_skip (ch : Byte) (rest : Bytes) (opening : ch ≠ char '[') (equals : ch ≠ char '=') (newline : ch ≠ 10) :
    ReplacesKey (ch::rest) ↔ ReplacesKey rest := by
  unfold ReplacesKey
  rw [List.takeWhile_cons_of_pos (p := fun ch => ch != 10) (bne_iff_ne.mpr newline)]
  simp [opening,equals]

theorem replacesKey_here (ch : Byte) (rest : Bytes) (mark : ch = char '=' ∨ ch = char '[') : ReplacesKey (ch::rest) := by
  refine ⟨ch,?_,mark⟩
  rw [List.takeWhile_cons_of_pos (p := fun ch => ch != 10) (by rcases mark with rfl | rfl <;> decide)]
  exact List.mem_cons_self

theorem not_replacesKey (rest : Bytes) : ¬ ReplacesKey (10::rest) := by
  rintro ⟨ch,member,_⟩
  rw [List.takeWhile_cons_of_neg (by decide)] at member
  cases member

/-- Two readings that differ in the key only. -/
theorem key_judged (names : Bool) (key key' : Bytes) (longer : key.length < key'.length) (comment : Bool) (post : Bytes)
    (whole : Whole (placeOf comment) post) (value : Bytes) :
    Judged names (ReplacesKey (uncommented comment post)) (reader.run ⟨placeOf comment,value,some key'⟩ post)
      (reader.run ⟨placeOf comment,value,some key⟩ post) := by
  have larger : ∀ value, (Entry.pair key value).size < (Entry.pair key' value).size :=
    fun _ => Nat.add_lt_add_right longer _
  refine whole.read (motive := fun comment post => ∀ value, Judged names (ReplacesKey (uncommented comment post))
    (reader.run ⟨placeOf comment,value,some key'⟩ post) (reader.run ⟨placeOf comment,value,some key⟩ post))
    ?_ ?_ ?_ ?_ ?_ ?_ ?_ comment post value
  · intro value
    refine .worse (fun ⟨_,member,_⟩ => nomatch member) ?_
    exact Worse.first (larger value) (Bool.or_true names) (Bool.or_true names) rfl
  · intro c text c' rest same bare ih value
    rw [same,same,bare]
    exact ih value
  · intro ch rest blank ih value
    obtain ⟨hash,opening,equals,newline⟩ := blank_other ch blank
    rw [uncommented_cons ch rest hash,placeOf_false,run_blank _ _ _ _ blank,run_blank _ _ _ _ blank]
    exact (ih value).congr (replacesKey_skip ch _ opening equals newline).symm
  · intro rest _ value
    rw [placeOf_false,run_equals,run_equals]
    exact .same (replacesKey_here _ _ (.inl rfl)) rfl
  · intro rest _ value
    rw [placeOf_false,run_pair,run_pair]
    exact .worse (not_replacesKey _) (Worse.first (larger value) (Bool.or_true names) (Bool.or_true names) rfl)
  · intro rest readable closed value
    obtain ⟨name,behind,rfl,header⟩ := run_header rest readable closed
    rw [placeOf_false,header,header]
    exact .same (replacesKey_here _ _ (.inr rfl)) rfl
  · intro ch rest plain _ ih value
    have ⟨_,_,newline,_,equals,hash,opening⟩ := plain
    rw [uncommented_cons ch rest hash,placeOf_false,run_stored _ _ _ ch plain,run_stored _ _ _ ch plain]
    exact (ih (value ++ [ch])).congr (replacesKey_skip ch _ opening equals newline).symm

theorem keepsOut_skip (names : Bool) (ch : Byte) (rest : Bytes) (opening : ch ≠ char '[') (equals : ch ≠ char '=') :
    KeepsOut names (ch::rest) ↔ KeepsOut names rest := by
  unfold KeepsOut
  rw [List.dropWhile_cons_of_pos (by rw [bne_iff_ne.mpr opening,bne_iff_ne.mpr equals]; rfl)]

theorem keepsOut_equals (names : Bool) (rest : Bytes) : KeepsOut names (char '='::rest) ↔ ReplacesKey rest := by
  unfold KeepsOut
  rw [List.dropWhile_cons_of_neg (by decide)]
  exact iff_of_eq (if_neg (by decide))

theorem keepsOut_opening (names : Bool) (rest : Bytes) : KeepsOut names (char '['::rest) ↔ names = false := by
  unfold KeepsOut
  rw [List.dropWhile_cons_of_neg (by decide)]
  exact iff_of_eq (if_pos rfl)

/-- Two readings without a key, of which the first has something in front of its text. -/
theorem text_judged (names : Bool) (front : Bytes) (some_front : front ≠ []) (comment : Bool) (post : Bytes)
    (whole : Whole (placeOf comment) post) (text : Bytes) :
    Judged names (KeepsOut names (uncommented comment post)) (reader.run ⟨placeOf comment,front ++ text,none⟩ post)
      (reader.run ⟨placeOf comment,text,none⟩ post) := by
  have longer : ∀ text : Bytes, text.length < (front ++ text).length := by
    intro text
    rw [List.length_append]
    exact Nat.lt_add_of_pos_left (List.length_pos_of_ne_nil some_front)
  refine whole.read (motive := fun comment post => ∀ text, Judged names (KeepsOut names (uncommented comment post))
    (reader.run ⟨placeOf comment,front ++ text,none⟩ post) (reader.run ⟨placeOf comment,text,none⟩ post))
    ?_ ?_ ?_ ?_ ?_ ?_ ?_ comment post text
  · exact fun text => .same trivial rfl
  · intro c more c' rest same bare ih text
    rw [same,same,bare]
    exact ih text
  · intro ch rest blank ih text
    obtain ⟨hash,opening,equals,_⟩ := blank_other ch blank
    rw [uncommented_cons ch rest hash,placeOf_false,run_blank _ _ _ _ blank,run_blank _ _ _ _ blank]
    exact (ih text).congr (keepsOut_skip names ch _ opening equals).symm
  · intro rest later text
    rw [placeOf_false,run_equals,run_equals]
    exact (key_judged names text (front ++ text) (longer text) false rest later []).congr (keepsOut_equals names _).symm
  · intro rest ih text
    rw [placeOf_false,run_skip,run_skip]
    exact (ih text).congr (keepsOut_skip names 10 _ (by decide) (by decide)).symm
  · intro rest readable closed text
    obtain ⟨name,behind,rfl,header⟩ := run_header rest readable closed
    rw [placeOf_false,header,header]
    refine Judged.congr ?_ (keepsOut_opening names _).symm
    cases names with
    | false => exact .same rfl rfl
    | true =>
      refine .worse Bool.noConfusion (Worse.first ?_ rfl rfl rfl)
      have more := longer text
      simp only [Entry.size,List.length_append] at more ⊢
      omega
  · intro ch rest plain _ ih text
    have ⟨_,_,_,_,equals,hash,opening⟩ := plain
    rw [uncommented_cons ch rest hash,placeOf_false,run_stored _ _ _ ch plain,run_stored _ _ _ ch plain,
      List.append_assoc]
    exact (ih (text ++ [ch])).congr (keepsOut_skip names ch _ opening equals).symm

/-- A pair whose value has grown, and the same pair read apart from what follows. -/
theorem grown_worse (names : Bool) (key value : Bytes) (comment : Bool) (post : Bytes)
    (whole : Whole (placeOf comment) post) (grown text : Bytes) (longer : value.length < grown.length) :
    Worse names (reader.run ⟨placeOf comment,grown,some key⟩ post)
      (.pair key value::reader.run ⟨placeOf comment,text,none⟩ post) := by
  refine whole.read (motive := fun comment post => ∀ grown text : Bytes, value.length < grown.length →
    Worse names (reader.run ⟨placeOf comment,grown,some key⟩ post)
      (.pair key value::reader.run ⟨placeOf comment,text,none⟩ post))
    ?_ ?_ ?_ ?_ ?_ ?_ ?_ comment post grown text longer
  · intro grown text longer
    exact Worse.first (Nat.add_lt_add_left longer _) (Bool.or_true names) (Bool.or_true names) rfl
  · intro c more c' rest same _ ih grown text longer
    rw [same,same]
    exact ih grown text longer
  · intro ch rest blank ih grown text longer
    rw [placeOf_false,run_blank _ _ _ _ blank,run_blank _ _ _ _ blank]
    exact ih grown text longer
  · intro rest _ grown text _
    rw [placeOf_false,run_equals,run_equals]
    exact Worse.lost rfl (run_kinds .line [] [] (some grown) (some text) rfl rest)
  · intro rest _ grown text longer
    rw [placeOf_false,run_pair,run_skip]
    exact Worse.first (Nat.add_lt_add_left longer _) (Bool.or_true names) (Bool.or_true names)
      (run_kinds .line [] text none none rfl rest)
  · intro rest readable closed grown text _
    obtain ⟨name,behind,rfl,header⟩ := run_header rest readable closed
    rw [placeOf_false,header,header]
    exact Worse.lost rfl rfl
  · intro ch rest plain _ ih grown text longer
    rw [placeOf_false,run_stored _ _ _ ch plain,run_stored _ _ _ ch plain]
    exact ih _ _ (longer.trans_le (by rw [List.length_append]; exact Nat.le_add_right _ _))

theorem not_endsPair (ch : Byte) (rest : Bytes) (solid : isBlank ch = false) (other : ch ≠ 10) : ¬ EndsPair (ch::rest) := by
  intro ends
  unfold EndsPair at ends
  rw [List.dropWhile_cons_of_neg (by rw [solid]; decide)] at ends
  exact other (ends ch rfl)

/-- A pair that has not been ended, and the same pair read apart from what follows. -/
theorem pair_judged (names : Bool) (key value : Bytes) (comment : Bool) (post : Bytes)
    (whole : Whole (placeOf comment) post) :
    Judged names (EndsPair (uncommented comment post)) (reader.run ⟨placeOf comment,value,some key⟩ post)
      (.pair key value::reader.run ⟨placeOf comment,[],none⟩ post) := by
  refine whole.read (motive := fun comment post => Judged names (EndsPair (uncommented comment post))
    (reader.run ⟨placeOf comment,value,some key⟩ post) (.pair key value::reader.run ⟨placeOf comment,[],none⟩ post))
    ?_ ?_ ?_ ?_ ?_ ?_ ?_ comment post
  · exact .same (fun _ member => nomatch member) rfl
  · intro c text c' rest same bare ih
    rw [same,same,bare]
    exact ih
  · intro ch rest blank ih
    rw [uncommented_cons ch rest (blank_other ch blank).1,placeOf_false,run_blank _ _ _ _ blank,run_blank _ _ _ _ blank]
    refine ih.congr ?_
    unfold EndsPair
    rw [List.dropWhile_cons_of_pos blank]
  · intro rest _
    rw [placeOf_false,run_equals,run_equals]
    exact .worse (not_endsPair _ _ (by decide) (by decide))
      (Worse.lost rfl (run_kinds .line [] [] (some value) (some []) rfl rest))
  · intro rest _
    rw [placeOf_false,run_pair,run_skip]
    exact .same (fun ch member => (Option.some.inj member).symm) rfl
  · intro rest readable closed
    obtain ⟨name,behind,rfl,header⟩ := run_header rest readable closed
    rw [placeOf_false,header,header]
    exact .worse (not_endsPair _ _ (by decide) (by decide)) (Worse.lost rfl rfl)
  · intro ch rest plain later _
    have ⟨_,_,newline,solid,_,hash,_⟩ := plain
    rw [uncommented_cons ch rest hash,placeOf_false,run_stored _ _ _ ch plain,run_stored _ _ _ ch plain]
    refine .worse (not_endsPair _ _ solid newline) ?_
    -- the value has grown, and the text apart from it has only what came now
    have longer : value.length < (value ++ [ch]).length := by
      rw [List.length_append]
      exact Nat.lt_succ_self _
    exact grown_worse names key value false rest later (value ++ [ch]) ([] ++ [ch]) longer

def Reading.left (reading : Reading) : Open :=
  match reading.k, reading.text with
  | some _, _ => .pair
  | none, [] => .nothing
  | none, _::_ => .text

theorem Reading.left_store (reading : Reading) (ch : Byte) : (reading.store ch).left = reading.left.stored := by
  obtain ⟨place,text,k⟩ := reading
  cases k with
  | some k => rfl
  | none => cases text <;> rfl

theorem Reading.left_keyed (reading : Reading) : decide (reading.left = .pair) = reading.k.isSome := by
  obtain ⟨place,text,k⟩ := reading
  cases k with
  | some k => rfl
  | none => cases text <;> rfl

theorem Reading.left_next (reading : Reading) (ch : Byte) :
    ((reading.next ch).1.place,(reading.next ch).1.left) = Open.next (reading.place,reading.left) ch := by
  have stores := reading.left_store ch
  simp only [next,Open.next,reading.left_keyed]
  cases act reading.place reading.k.isSome ch with
  | skip place => rfl
  | keep place => exact Prod.ext rfl stores
  | key => rfl
  | name => rfl
  | value => rfl
  | stop => rfl

theorem leaves_after (text : Bytes) : leaves text = (reader.after .start text).left := by
  have view := reader.after_view (fun reading => (reading.place,reading.left)) Open.next Reading.left_next .start text
  exact (congrArg Prod.snd view).symm

/-- A text of whole lines ends outside every header and comment. -/
theorem after_line (place : Place) (text before : Bytes) (k : Option Bytes) (whole : Whole place text) :
    (reader.after ⟨place,before,k⟩ text).place = .line := by
  induction text generalizing place before k with
  | nil =>
    cases place with
    | line => rfl
    | header => exact absurd (whole.header rfl) List.not_mem_nil
    | comment => exact absurd rfl (whole.comment rfl)
  | cons ch rest ih =>
    have onward : reader.after ⟨place,before,k⟩ (ch::rest) = reader.after (reader.step ⟨place,before,k⟩ ch).1 rest := rfl
    rw [onward]
    cases place with
    | header =>
      by_cases closing : ch = char ']'
      · rw [closing]
        exact ih .line [] none whole.line
      · rw [step_name before k ch (whole.readable ch List.mem_cons_self) closing]
        have closed := (List.mem_cons.mp (whole.header rfl)).resolve_left (Ne.symm closing)
        exact ih .header _ k (whole.behind .header (fun _ => closed) (fun other => nomatch other))
    | comment =>
      by_cases newline : ch = 10
      · rw [newline]
        exact ih .line before k whole.line
      · rw [step_comment before k ch (whole.readable ch List.mem_cons_self) newline]
        exact ih .comment before k (whole.into_comment newline)
    | line =>
      rcases line_cases ch (whole.readable ch List.mem_cons_self) with rfl | rfl | blank | rfl | rfl | plain
      · exact ih .header before k (whole.behind .header (fun _ => whole.closing rfl) (fun other => nomatch other))
      · exact ih .comment before k (whole.into_comment (by decide))
      · rw [step_blank before k ch blank]
        exact ih .line before k whole.line
      · exact ih .line [] (some before) whole.line
      · cases k with
        | none => exact ih .line before none whole.line
        | some k => exact ih .line [] none whole.line
      · rw [step_stored before k ch plain]
        exact ih .line _ k whole.line

/-- The entries of two texts that follow each other are those of each exactly when what the first
leaves unfinished is harmless. -/
theorem entries_judged (names : Bool) (pre post : Bytes) (wholePre : Whole .line pre) (wholePost : Whole .line post) :
    Judged names (Harmless names (leaves pre) post) (entriesOf (pre ++ post)) (entriesOf pre ++ entriesOf post) := by
  have lines : (reader.after .start pre).place = .line := after_line .line pre [] none wholePre
  have whole : entriesOf (pre ++ post) = reader.out .start pre ++ reader.run (reader.after .start pre) post :=
    reader.run_append .start pre post
  have parts : entriesOf pre ++ entriesOf post =
      reader.out .start pre ++ (reader.finish (reader.after .start pre) ++ entriesOf post) := List.append_assoc _ _ _
  rw [leaves_after,whole,parts]
  refine Judged.append_left _ ?_
  generalize reader.after .start pre = reading at lines ⊢
  obtain ⟨place,text,k⟩ := reading
  obtain rfl : place = .line := lines
  cases k with
  | some key => exact pair_judged names key text false post wholePost
  | none =>
    cases text with
    | nil => exact .same trivial rfl
    | cons ch text =>
      have judged := text_judged names (ch::text) (List.cons_ne_nil _ _) false post wholePost []
      rw [List.append_nil] at judged
      exact judged

def IniPair.entry (pair : IniPair) : Entry := .pair pair.key pair.value

theorem shown_pairs (sections : List Section) :
    shown false (sections.flatMap Section.entries) = (pairsIn sections).map IniPair.entry := by
  induction sections with
  | nil => rfl
  | cons s sections ih =>
    have here : shown false s.entries = s.configPair.map IniPair.entry := by
      rw [shown,Section.entries,List.filter_cons_of_neg Bool.noConfusion]
      refine List.filter_eq_self.mpr (fun entry member => ?_)
      obtain ⟨pair,_,rfl⟩ := List.mem_map.mp member
      rfl
    have first : pairsIn (s::sections) = s.configPair ++ pairsIn sections := rfl
    rw [List.flatMap_cons,shown_append,ih,here,first,List.map_append]

theorem shown_all (entries : List Entry) : shown true entries = entries := List.filter_eq_self.mpr (fun _ _ => rfl)

/-- What the parser makes of a line between two texts is what it makes of the three of them one
after the other, exactly when nothing unfinished gets from one into the next. -/
theorem lines_apart (pre line post : Bytes) (wholePre : WholeLines pre) (wholePost : WholeLines post)
    (lineClean : ∀ ch ∈ line, ch ≠ 0 ∧ ch ≠ EOF ∧ ch ≠ 10 ∧ ch ≠ char '[') (before middle expected actual : List Section)
    (parsedPre : iniParse pre = .ok before) (parsedLine : parseFrom (line.length+2) before (line ++ [10]) = .ok middle)
    (parsedPost : parseFrom (post.length+1) middle post = .ok expected)
    (parsed : iniParse (pre ++ (line ++ 10::post)) = .ok actual) :
    (actual = expected ↔ Apart true pre line post) ∧ (pairsIn actual = pairsIn expected ↔ Apart false pre line post) := by
  have readableLine : Readable (line ++ [10]) := by
    intro ch member
    rcases List.mem_append.mp member with inside | last
    · exact ⟨(lineClean ch inside).1,(lineClean ch inside).2.1⟩
    · rw [List.mem_singleton.mp last]
      decide
  have wholeLine : Whole .line (line ++ [10]) := by
    refine ⟨readableLine,.inl List.getLast?_concat,fun front behind parts => ?_,(fun other => nomatch other),
      (fun other => nomatch other)⟩
    have opening : char '[' ∈ line ++ [10] := parts ▸ List.mem_append_right front List.mem_cons_self
    rcases List.mem_append.mp opening with inside | last
    · exact absurd rfl (lineClean _ inside).2.2.2
    · exact absurd (List.mem_singleton.mp last) (by decide)
  have rest : line ++ 10::post = (line ++ [10]) ++ post := List.append_cons line 10 post
  have wholeRest : Whole .line (line ++ 10::post) := rest ▸ wholeLine.append wholePost.whole
  have judged := fun names => Judged.both (entries_judged names pre (line ++ 10::post) wholePre.whole wholeRest)
    (rest ▸ (entries_judged names (line ++ [10]) post wholeLine wholePost.whole).append_left (entriesOf pre))
  have together := parseFrom_entries _ _ _ _ (wholePre.whole.append wholeRest).readable parsed
  have apart : (entriesOf pre ++ (entriesOf (line ++ [10]) ++ entriesOf post)).foldlM addEntry [] = .ok expected := by
    rw [List.foldlM_append,parseFrom_entries _ _ _ _ wholePre.readable parsedPre]
    simp only [bind,Except.bind]
    rw [List.foldlM_append,parseFrom_entries _ _ _ _ readableLine parsedLine]
    exact parseFrom_entries _ _ _ _ wholePost.readable parsedPost
  have made : actual.flatMap Section.entries = entriesOf (pre ++ (line ++ 10::post)) := foldlM_entries _ _ _ together
  have made' : expected.flatMap Section.entries = entriesOf pre ++ (entriesOf (line ++ [10]) ++ entriesOf post) :=
    foldlM_entries _ _ _ apart
  constructor
  · unfold Apart
    rw [← judged true,shown_all,shown_all]
    constructor
    · rintro rfl
      exact made.symm.trans made'
    · intro same
      rw [← same] at apart
      exact Except.ok.inj (together.symm.trans apart)
  · have injective : Function.Injective IniPair.entry := by
      rintro ⟨key,value⟩ ⟨key',value'⟩ same
      obtain ⟨rfl,rfl⟩ := Entry.pair.inj same
      rfl
    unfold Apart
    rw [← judged false,← made,← made',shown_pairs,shown_pairs]
    exact ⟨congrArg _,fun same => injective.list_map same⟩

theorem lines_apart_pairs : Apart true (ascii ['[','A',']','\n']) (ascii ['k','=','v']) (ascii ['l','=','w','\n']) := by
  have header : WholeLines (ascii ['[','A',']','\n']) := by
    refine ⟨by unfold Readable; decide +kernel,.inl rfl,fun front behind parts => ?_⟩
    cases front with
    | nil =>
      obtain ⟨_,rfl⟩ := List.cons.inj parts
      decide +kernel
    | cons ch front =>
      have later : ascii ['A',']','\n'] = front ++ char '['::behind := (List.cons.inj parts).2
      have opening : char '[' ∈ ascii ['A',']','\n'] := by
        rw [later]
        exact List.mem_append_right front List.mem_cons_self
      exact absurd opening (by decide +kernel)
  have pair : WholeLines (ascii ['l','=','w','\n']) := by
    refine ⟨by unfold Readable; decide +kernel,.inl rfl,fun front behind parts => ?_⟩
    have opening : char '[' ∈ ascii ['l','=','w','\n'] := parts ▸ List.mem_append_right front List.mem_cons_self
    exact absurd opening (by decide +kernel)
  refine (lines_apart (ascii ['[','A',']','\n']) (ascii ['k','=','v']) (ascii ['l','=','w','\n']) header pair
    (by decide +kernel)
    [⟨ascii ['A'],[]⟩] [⟨ascii ['A'],[⟨ascii ['k'],ascii ['v']⟩]⟩]
    [⟨ascii ['A'],[⟨ascii ['k'],ascii ['v']⟩,⟨ascii ['l'],ascii ['w']⟩]⟩]
    [⟨ascii ['A'],[⟨ascii ['k'],ascii ['v']⟩,⟨ascii ['l'],ascii ['w']⟩]⟩] ?_ ?_ ?_ ?_).1.mp rfl
  all_goals decide +kernel

/-- The line `abc` has no `=`, and gets into the key of the next one. -/
theorem lines_joined :
    iniParse (ascii ['[','A',']','\n']) = .ok [⟨ascii ['A'],[]⟩] ∧
    parseFrom 5 [⟨ascii ['A'],[]⟩] (ascii ['a','b','c','\n']) = .ok [⟨ascii ['A'],[]⟩] ∧
    parseFrom 5 [⟨ascii ['A'],[]⟩] (ascii ['k','=','v','\n']) = .ok [⟨ascii ['A'],[⟨ascii ['k'],ascii ['v']⟩]⟩] ∧
    iniParse (ascii ['[','A',']','\n'] ++ (ascii ['a','b','c'] ++ 10::ascii ['k','=','v','\n'])) =
      .ok [⟨ascii ['A'],[⟨ascii ['a','b','c','k'],ascii ['v']⟩]⟩] ∧
    pairsIn [⟨ascii ['A'],[⟨ascii ['a','b','c','k'],ascii ['v']⟩]⟩] ≠
      pairsIn [⟨ascii ['A'],[⟨ascii ['k'],ascii ['v']⟩]⟩] := by
  decide +kernel

end Spsc.IniParser
