import Spsc.IniParser.Tokens

/-! Which calls of `read_line` a file leads `ini_parse` to, and where their texts and entries are
stored. -/
namespace Spsc.IniParser
open Imperative Transducer

/-- The calls of `read_line`: the sections there are by then, and what is left of the file. -/
inductive Calls (file : Bytes) : List Section → Bytes → Prop
  | first : Calls file [] file
  | next (sections grown : List Section) (rest more : Bytes) (entry : Entry) (call : Calls file sections rest)
      (read : readLine .line cleared 0 none rest = .ok (some entry,more)) (added : addEntry sections entry = .ok grown) :
      Calls file grown more

/-- The stores for an entry, which come before the checks: an eleventh section is stored where `sections`
has a place for it, a pair in a `config_pair` of `MAX_CONFIGS` places. -/
def StoresInside (capacity : Nat) (sections : List Section) : Entry → Prop
  | .header _ => sections.length < capacity
  | .pair _ _ => ∃ currSection, sections.getLast? = some currSection ∧ currSection.configPair.length < MAX_CONFIGS

/-- `calloc(MAX_CONFIGS, sizeof(section))`: a section takes the room of three pointers. -/
def SECTION_SLOTS : Nat := 3*MAX_CONFIGS

structure Tally where
  sections : Nat
  pairs : Nat
  deriving DecidableEq, Repr

def Tally.count (counted : Tally) (token : Token) : Tally :=
  match token.kind with
  | .name => ⟨counted.sections+1,0⟩
  | .value => ⟨counted.sections,counted.pairs+1⟩
  | .key | .dropped => counted

/-- The sections that some tokens open, and the pairs behind the last of them. -/
def tally (past : List Token) : Tally := past.foldl Tally.count ⟨0,0⟩

/-- There is a section for a pair, and room for what the token stands for. -/
def Roomy (capacity : Nat) (past : List Token) (token : Token) : Prop :=
  match token.kind with
  | .name => (tally past).sections < capacity
  | .value => 0 < (tally past).sections ∧ (tally past).pairs < MAX_CONFIGS
  | .key | .dropped => True

/-- Tokens that all fit the buffer, none of which is rejected. -/
def Sound (past : List Token) : Prop :=
  ∀ front token back, past = front ++ token::back → token.Fits ∧ Roomy MAX_CONFIGS front token

/-- A token of the file that the parser gets to. -/
def Reached (file : Bytes) (past : List Token) (token : Token) : Prop := Sound past ∧ past ++ [token] <+: tokens file

structure Matches (sections : List Section) (past : List Token) : Prop where
  count : sections.length = (tally past).sections
  pairs : ∀ currSection, sections.getLast? = some currSection → currSection.configPair.length = (tally past).pairs

theorem tally_snoc (past : List Token) (token : Token) : tally (past ++ [token]) = (tally past).count token := by
  rw [tally,List.foldl_append]
  rfl

theorem sound_nil : Sound [] := by
  intro front token back split
  exact absurd split.symm (List.append_ne_nil_of_right_ne_nil _ (List.cons_ne_nil _ _))

theorem Sound.snoc {past : List Token} {token : Token} (sound : Sound past) (fits : token.Fits)
    (roomy : Roomy MAX_CONFIGS past token) : Sound (past ++ [token]) := by
  intro front other back split
  rcases List.eq_nil_or_concat' back with rfl | ⟨earlier,last,rfl⟩
  · obtain ⟨rfl,same⟩ := List.append_inj' split rfl
    obtain rfl := List.singleton_injective same
    exact ⟨fits,roomy⟩
  · rw [← List.cons_append,← List.append_assoc] at split
    exact sound front other earlier (List.append_inj_left' split rfl)

theorem Sound.front {front back : List Token} (sound : Sound (front ++ back)) : Sound front := by
  rintro before token behind rfl
  exact sound before token (behind ++ back) (by rw [List.append_assoc,List.cons_append])

section Keys
variable {past keys : List Token} (all_keys : ∀ key ∈ keys, IsKey key)
include all_keys

theorem Sound.with_keys (sound : Sound past) : Sound (past ++ keys) := by
  induction keys generalizing past with
  | nil => rwa [List.append_nil]
  | cons key keys ih =>
    obtain ⟨⟨kind,fits,_⟩,later⟩ := List.forall_mem_cons.mp all_keys
    have grown := ih later (sound.snoc fits (by rw [Roomy,kind]; trivial))
    rwa [List.append_assoc] at grown

theorem tally_keys : tally (past ++ keys) = tally past := by
  induction keys generalizing past with
  | nil => rw [List.append_nil]
  | cons key keys ih =>
    obtain ⟨⟨kind,_,_⟩,later⟩ := List.forall_mem_cons.mp all_keys
    rw [List.append_cons,ih later,tally_snoc,Tally.count,kind]

theorem Matches.with_keys {sections : List Section} (same : Matches sections past) : Matches sections (past ++ keys) where
  count := by rw [tally_keys all_keys,same.count]
  pairs := by
    rw [tally_keys all_keys]
    exact same.pairs

end Keys

section Entries
variable {sections : List Section} {past : List Token} {entry : Entry} {token : Token}

theorem storesInside_roomy (capacity : Nat) (same : Matches sections past) (kind : token.kind = entry.kind) :
    StoresInside capacity sections entry ↔ Roomy capacity past token := by
  cases entry with
  | header name =>
    change token.kind = .name at kind
    rw [StoresInside,Roomy,kind,same.count]
  | pair k v =>
    change token.kind = .value at kind
    simp only [StoresInside,Roomy,kind]
    rw [← same.count]
    constructor
    · rintro ⟨currSection,last,room⟩
      rw [← same.pairs currSection last]
      exact ⟨List.length_pos_of_ne_nil (fun none => by rw [none] at last; cases last),room⟩
    · rintro ⟨some_section,room⟩
      obtain ⟨currSection,last⟩ := Option.isSome_iff_exists.mp
        (List.getLast?_isSome.mpr (List.ne_nil_of_length_pos some_section))
      exact ⟨currSection,last,by rwa [same.pairs currSection last]⟩

/-- An entry is added where its stores are inside, the capacity of `sections` being what is checked. -/
theorem addEntry_inside : (∃ grown, addEntry sections entry = .ok grown) ↔ StoresInside MAX_CONFIGS sections entry := by
  constructor
  · rintro ⟨grown,added⟩
    cases (addEntry_added sections grown entry).mp added with
    | header _ name room => exact room
    | pair earlier currSection k v room => exact ⟨currSection,List.getLast?_concat,room⟩
  · intro inside
    cases entry with
    | header name => exact ⟨_,(addEntry_added sections _ _).mpr (.header sections name inside)⟩
    | pair k v =>
      obtain ⟨currSection,last,room⟩ := inside
      obtain ⟨earlier,rfl⟩ := List.getLast?_eq_some_iff.mp last
      exact ⟨_,(addEntry_added _ _ _).mpr (.pair earlier currSection k v room)⟩

theorem addEntry_matches {grown : List Section} (same : Matches sections past) (kind : token.kind = entry.kind)
    (added : addEntry sections entry = .ok grown) : Matches grown (past ++ [token]) := by
  cases (addEntry_added sections grown entry).mp added with
  | header _ name room =>
    change token.kind = .name at kind
    constructor
    · rw [tally_snoc,Tally.count,kind,List.length_append,same.count]
      rfl
    · intro currSection found
      rw [List.getLast?_concat] at found
      obtain rfl := Option.some.inj found
      rw [tally_snoc,Tally.count,kind]
      rfl
  | pair earlier currSection k v room =>
    change token.kind = .value at kind
    have size := same.pairs currSection List.getLast?_concat
    constructor
    · rw [tally_snoc,Tally.count,kind,← same.count,List.length_append,List.length_append]
      rfl
    · intro other found
      rw [List.getLast?_concat] at found
      obtain rfl := Option.some.inj found
      rw [tally_snoc,Tally.count,kind,← size,List.length_append]
      rfl

end Entries

/-- The call of `read_line` with which `ini_parse` ends, and what it ends with. -/
inductive LastCall (sections : List Section) (rest : Bytes) : C (List Section) → Prop
  | failed (fault : Fault) (read : readLine .line cleared 0 none rest = .error fault) : LastCall sections rest (.error fault)
  | finished (more : Bytes) (read : readLine .line cleared 0 none rest = .ok (none,more)) : LastCall sections rest (.ok sections)
  | rejected (entry : Entry) (more : Bytes) (fault : Fault)
      (read : readLine .line cleared 0 none rest = .ok (some entry,more)) (refused : addEntry sections entry = .error fault) :
      LastCall sections rest (.error fault)

theorem parseFrom_last (file : Bytes) (turns : Nat) (sections : List Section) (rest : Bytes) (enough : rest.length < turns)
    (calls : Calls file sections rest) :
    ∃ last left, Calls file last left ∧ LastCall last left (parseFrom turns sections rest) := by
  induction turns generalizing sections rest with
  | zero => exact absurd enough (Nat.not_lt_zero _)
  | succ turns ih =>
    rw [parseFrom]
    cases read : readLine .line cleared 0 none rest with
    | error fault => exact ⟨sections,rest,calls,.failed fault read⟩
    | ok result =>
      obtain ⟨entry,more⟩ := result
      cases entry with
      | none => exact ⟨sections,rest,calls,.finished more read⟩
      | some entry =>
        simp only [bind,Except.bind]
        cases added : addEntry sections entry with
        | error fault => exact ⟨sections,rest,calls,.rejected entry more fault read added⟩
        | ok grown =>
          have short := readLine_returns rest more entry read
          exact ih grown more (by omega) (.next sections grown rest more entry calls read added)

/-- What `ini_parse` ends with is what its last call leads to. -/
theorem iniParse_last (file : Bytes) : ∃ sections rest, Calls file sections rest ∧ LastCall sections rest (iniParse file) :=
  parseFrom_last file (file.length+1) [] file (Nat.lt_succ_self _) .first

section Reaching
variable {file rest : Bytes} {sections : List Section}

/-- Behind each call lie the tokens that were taken and stored before it. -/
theorem Calls.past (calls : Calls file sections rest) :
    ∃ past, tokens file = past ++ tokens rest ∧ Sound past ∧ Matches sections past := by
  induction calls with
  | first => exact ⟨[],rfl,sound_nil,⟨rfl,fun _ none => by cases none⟩⟩
  | next sections grown rest more entry call read added ih =>
    obtain ⟨past,split,sound,same⟩ := ih
    obtain ⟨keys,token,behind,spelled,all_keys,closes⟩ := call_spells rest
    rw [read] at closes
    cases closes with
    | taken entry more fits kind consumed onward =>
      have same' := same.with_keys all_keys
      have roomy := (storesInside_roomy MAX_CONFIGS same' kind).mp (addEntry_inside.mp ⟨grown,added⟩)
      refine ⟨past ++ keys ++ [token],?_,(sound.with_keys all_keys).snoc fits roomy,addEntry_matches same' kind added⟩
      rw [split,spelled,onward,List.append_assoc,List.append_assoc]
      rfl

/-- Each call ends with a token that the parser gets to. -/
theorem Calls.token (calls : Calls file sections rest) : ∃ past token behind, Reached file past token ∧
    Matches sections past ∧ Closes rest token behind (readLine .line cleared 0 none rest) := by
  obtain ⟨past,split,sound,same⟩ := calls.past
  obtain ⟨keys,token,behind,spelled,all_keys,closes⟩ := call_spells rest
  refine ⟨past ++ keys,token,behind,⟨sound.with_keys all_keys,behind,?_⟩,same.with_keys all_keys,closes⟩
  rw [split,spelled,List.append_assoc,List.append_assoc]
  rfl

/-- From a call on, the parser gets to each token that only sound ones stand before. -/
theorem Calls.onward (size : Nat) (more : List Token) (short : more.length < size) (token : Token) (past : List Token)
    (calls : Calls file sections rest) (same : Matches sections past) (sound : Sound (past ++ more))
    (inside : more ++ [token] <+: tokens rest) : IsKey token ∨ ∃ sections rest behind, Calls file sections rest ∧
      Matches sections (past ++ more) ∧ Closes rest token behind (readLine .line cleared 0 none rest) := by
  induction size generalizing more past sections rest with
  | zero => exact absurd short (Nat.not_lt_zero _)
  | succ size ih =>
    obtain ⟨keys,closing,behind,spelled,all_keys,closes⟩ := call_spells rest
    obtain ⟨tail,split⟩ := inside
    rw [spelled,List.append_assoc,List.singleton_append] at split
    have here : more = keys → token = closing → ∃ sections rest behind, Calls file sections rest ∧
        Matches sections (past ++ more) ∧ Closes rest token behind (readLine .line cleared 0 none rest) := by
      rintro rfl rfl
      exact ⟨sections,rest,behind,calls,same.with_keys all_keys,closes⟩
    rcases List.append_eq_append_iff.mp split with ⟨front,ahead,later⟩ | ⟨back,ahead,later⟩
    · cases front with
      | nil => exact .inr (here (by rw [ahead,List.append_nil]) (List.cons.inj later).1)
      | cons key front =>
        refine .inl (all_keys token ?_)
        rw [ahead,(List.cons.inj later).1]
        exact List.mem_append_right _ List.mem_cons_self
    · cases back with
      | nil => exact .inr (here (by rw [ahead,List.append_nil]) (List.cons.inj later).1.symm)
      | cons closed back =>
        -- the call of the token comes later than this one, which has ended with a sound token
        obtain ⟨rfl,onward⟩ := List.cons.inj later
        rw [ahead] at sound short ⊢
        obtain ⟨fits,roomy⟩ := sound (past ++ keys) closing back (by rw [List.append_assoc])
        have same' := same.with_keys all_keys
        generalize reading : readLine .line cleared 0 none rest = result at closes
        cases closes with
        | overrun misfit => exact absurd fits misfit
        | ends more fits kind last read stops =>
          rw [last] at onward
          exact absurd onward.symm (List.append_ne_nil_of_right_ne_nil _ (List.cons_ne_nil _ _))
        | taken entry left fits kind read left_tokens =>
          obtain ⟨grown,added⟩ := addEntry_inside.mpr ((storesInside_roomy MAX_CONFIGS same' kind).mpr roomy)
          have fewer : back.length < size := by
            rw [List.length_append,List.length_cons] at short
            omega
          have regroup : past ++ (keys ++ closing::back) = (past ++ keys ++ [closing]) ++ back := by
            rw [List.append_assoc,List.append_assoc]
            rfl
          rw [regroup] at sound ⊢
          exact ih back fewer (past ++ keys ++ [closing]) (.next sections grown rest left entry calls reading added)
            (addEntry_matches same' kind added) sound
            ⟨tail,by rw [← left_tokens,onward,List.append_assoc]; rfl⟩

theorem Reached.call {past : List Token} {token : Token} (reached : Reached file past token) :
    IsKey token ∨ ∃ sections rest behind, Calls file sections rest ∧ Matches sections past ∧
      Closes rest token behind (readLine .line cleared 0 none rest) :=
  Calls.first.onward (past.length+1) past (Nat.lt_succ_self _) token [] ⟨rfl,fun _ none => by cases none⟩
    (by rw [List.nil_append]; exact reached.1) reached.2

end Reaching

/-- Every store and every `strdup` is inside the line buffer exactly where the texts that the parser
gets to fit it. -/
theorem lineBuffer_kept (file : Bytes) :
    (∀ sections rest, Calls file sections rest → ∀ fault, readLine .line cleared 0 none rest ≠ .error fault) ↔
      ∀ past token, Reached file past token → token.Fits := by
  constructor
  · intro kept past token reached
    rcases reached.call with key | ⟨sections,rest,behind,calls,_,closes⟩
    · exact key.2.1
    · have inside := kept sections rest calls
      generalize readLine .line cleared 0 none rest = result at closes inside
      cases closes with
      | overrun misfit => exact absurd rfl (inside .bounds)
      | ends rest fits => exact fits
      | taken entry rest fits => exact fits
  · intro fit sections rest calls fault failed
    obtain ⟨past,token,behind,reached,_,closes⟩ := calls.token
    rw [failed] at closes
    cases closes with
    | overrun misfit => exact misfit (fit past token reached)

/-- Bytes that are stored one behind the other do not stop at the end of the buffer. -/
theorem readLine_long (more rest text : Bytes) (k : Option Bytes) (stored : ∀ ch ∈ more, Stored ch)
    (bounded : text.length ≤ 1024) (long : 1024 < text.length + more.length) :
    readLine .line (held text) text.length k (more ++ rest) = .error .bounds := by
  induction more generalizing text with
  | nil => exact absurd bounded (not_le.mpr long)
  | cons ch more ih =>
    obtain ⟨here,later⟩ := List.forall_mem_cons.mp stored
    rw [List.length_cons] at long
    by_cases short : text.length < 1024
    · have size : (text ++ [ch]).length = text.length+1 := List.length_append
      rw [List.cons_append,readLine_stored k text ch _ here short]
      exact ih (text ++ [ch]) later (by omega) (by omega)
    · rw [List.cons_append,readLine_store _ _ _ _ _ here,store_full text ch (not_lt.mp short)]
      rfl

theorem lineBuffer_overrun : ¬ ∀ file sections rest, Calls file sections rest →
    ∀ fault, readLine .line cleared 0 none rest ≠ .error fault := by
  intro kept
  have letters : ∀ ch ∈ List.replicate 1025 (char 'a'), Stored ch := by
    intro ch member
    rw [List.eq_of_mem_replicate member]
    unfold Stored
    decide
  have overrun := readLine_long (List.replicate 1025 (char 'a')) [] [] none letters (Nat.zero_le _)
    (by rw [List.length_replicate]; decide)
  exact kept _ _ _ .first _ overrun

def Few (sections : List Section) : Prop :=
  sections.length ≤ MAX_CONFIGS ∧ ∀ s ∈ sections, s.configPair.length ≤ MAX_CONFIGS

theorem addEntry_few (sections grown : List Section) (entry : Entry) (few : Few sections)
    (added : addEntry sections entry = .ok grown) : Few grown := by
  obtain ⟨count,pairs⟩ := few
  cases (addEntry_added sections grown entry).mp added with
  | header _ name room =>
    refine ⟨by rw [List.length_append]; exact room,fun s member => ?_⟩
    rcases List.mem_append.mp member with old | new
    · exact pairs s old
    · rw [List.mem_singleton.mp new]
      exact Nat.zero_le _
  | pair earlier currSection k v room =>
    refine ⟨by rwa [List.length_append] at count ⊢,fun s member => ?_⟩
    rcases List.mem_append.mp member with old | new
    · exact pairs s (List.mem_append_left _ old)
    · rw [List.mem_singleton.mp new,List.length_append]
      exact room

theorem Calls.few {file rest : Bytes} {sections : List Section} (calls : Calls file sections rest) : Few sections := by
  induction calls with
  | first => exact ⟨Nat.zero_le _,fun _ none => absurd none List.not_mem_nil⟩
  | next sections grown rest more entry call read added ih => exact addEntry_few sections grown entry ih added

theorem iniParse_few (file : Bytes) (sections : List Section) (ran : iniParse file = .ok sections) : Few sections := by
  obtain ⟨last,rest,calls,ended⟩ := iniParse_last file
  rw [ran] at ended
  cases ended with
  | finished more read => exact calls.few

/-- No entry is stored outside its arrays, and a file with too many of them is not accepted. -/
structure EntriesKept (capacity : Nat) (file : Bytes) : Prop where
  stores : ∀ sections rest, Calls file sections rest → ∀ entry more,
    readLine .line cleared 0 none rest = .ok (some entry,more) → StoresInside capacity sections entry
  few : ∀ sections, iniParse file = .ok sections → Few sections

/-- Every entry is stored inside its arrays exactly where there is room for each that the parser gets
to, and a section for each pair. -/
theorem entries_kept (file : Bytes) (capacity : Nat) : EntriesKept capacity file ↔
    ∀ past token, Reached file past token → token.Fits → Roomy capacity past token := by
  constructor
  · rintro ⟨kept,_⟩ past token reached fits
    rcases reached.call with key | ⟨sections,rest,behind,calls,same,closes⟩
    · rw [Roomy,key.1]
      trivial
    · have inside := kept sections rest calls
      generalize readLine .line cleared 0 none rest = result at closes inside
      cases closes with
      | overrun misfit => exact absurd fits misfit
      | ends rest fits kind =>
        rw [Roomy,kind]
        trivial
      | taken entry more fits kind => exact (storesInside_roomy capacity same kind).mp (inside entry more rfl)
  · intro roomy
    refine ⟨fun sections rest calls entry more read => ?_,iniParse_few file⟩
    obtain ⟨past,token,behind,reached,same,closes⟩ := calls.token
    rw [read] at closes
    cases closes with
    | taken entry more fits kind => exact (storesInside_roomy capacity same kind).mpr (roomy past token reached fits)

theorem entries_misplaced : ¬ ∀ file, EntriesKept SECTION_SLOTS file := by
  intro kept
  have read : readLine .line cleared 0 none (ascii ['k','=','v']) = .ok (some (.pair (ascii ['k']) (ascii ['v'])),[]) := by
    decide +kernel
  obtain ⟨_,none,_⟩ := (kept (ascii ['k','=','v'])).stores [] _ .first _ _ read
  cases none

end Spsc.IniParser
