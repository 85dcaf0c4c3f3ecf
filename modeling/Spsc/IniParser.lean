import Spsc.CStrings

/-! The parser of `ini_parser.c`. `read_line` is one function of what is left of the
file and of where its loops stand, and what its turns do with a byte is another. -/
namespace Spsc.IniParser
open Imperative

def MAX_CONFIGS : Nat := 10

/-- `fgetc` into a char: the byte 255 reads as the end of the file. -/
def EOF : Byte := 255

structure IniPair where
  key : Bytes
  value : Bytes
  deriving DecidableEq, Repr

structure Section where
  name : Bytes
  configPair : List IniPair
  deriving DecidableEq, Repr

/-- What `read_line` sets when it returns true. -/
inductive Entry where
  | header (name : Bytes)
  | pair (k v : Bytes)
  deriving DecidableEq, Repr

/-- The outer loop of `read_line`, the loop behind a `[`, or the one behind a `#`. -/
inductive Place where
  | line
  | header
  | comment
  deriving DecidableEq, Repr

def cleared : Bytes := List.replicate 1024 0

def atEnd (place : Place) (s : Bytes) (k : Option Bytes) : C (Option Entry) :=
  match place, k with
  | .line, some k => do .ok (some (.pair k (← cString s)))
  | _, _ => .ok none

def isBlank (ch : Byte) : Bool := ch == 9 || ch == 32 || ch == 13

/-- What a turn of the loops does with the byte it has read: nothing, `s[i++] = ch`, `strdup(s)` for the key, for
the section or for the value, of which the last two return true, or `return false`. -/
inductive Act where
  | skip (place : Place)
  | keep (place : Place)
  | key
  | name
  | value
  | stop
  deriving DecidableEq, Repr

/-- `keyed` tells whether `*k` is set. -/
def act (place : Place) (keyed : Bool) (ch : Byte) : Act :=
  if ch = EOF then
    match place, keyed with
    | .line, true => .value
    | _, _ => .stop
  else
  match place with
  -- a NUL ends the inner loop, and the outer one stores it
  | .header => if ch = char ']' then .name else .keep (if ch = 0 then .line else .header)
  | .comment => .skip (if ch = 10 ∨ ch = 0 then .line else .comment)
  | .line =>
    if ch = 0 then .stop else
    if ch = char '[' then .skip .header else
    if ch = char '#' then .skip .comment else
    if isBlank ch then .skip .line else
    if ch = 10 ∧ keyed = false then .skip .line else
    if ch = char '=' then .key else
    if ch = 10 then .value else .keep .line

/-- The entry, or `none` where `read_line` returns false, and the rest of the file. -/
def readLine (place : Place) (s : Bytes) (i : Nat) (k : Option Bytes) : Bytes → C (Option Entry × Bytes)
  | [] => do .ok (← atEnd place s k,[])
  | ch::rest =>
    match act place k.isSome ch with
    | .skip place => readLine place s i k rest
    | .keep place => do
      let s ← store .bounds s i ch
      readLine place s (i+1) k rest
    | .key => do readLine .line cleared 0 (some (← cString s)) rest
    | .name => do .ok (some (.header (← cString s)),rest)
    | .value => do .ok (some (.pair (k.getD []) (← cString s)),rest)
    | .stop => .ok (none,rest)

/-- The eleventh pair is written behind `config_pair` before the assertion fails. -/
def addPair (s : Section) (k v : Bytes) : C Section :=
  if s.configPair.length < MAX_CONFIGS then .ok { s with configPair := s.configPair ++ [⟨k,v⟩] }
  else .error .bounds

/-- Before the first section `curr_section` is uninitialised. -/
def addEntry (sections : List Section) : Entry → C (List Section)
  | .header name => do
    assert (sections.length < MAX_CONFIGS)
    .ok (sections ++ [⟨name,[]⟩])
  | .pair k v =>
    match sections.getLast? with
    | none => .error .bounds
    | some currSection => do .ok (sections.dropLast ++ [← addPair currSection k v])

/-- The loop of `ini_parse`, of at most the given number of turns. -/
def parseFrom : Nat → List Section → Bytes → C (List Section)
  | 0, _, _ => .error .spin
  | turns+1, sections, file => do
    match ← readLine .line cleared 0 none file with
    | (none,_) => .ok sections
    | (some entry,rest) => do parseFrom turns (← addEntry sections entry) rest

def iniParse (file : Bytes) : C (List Section) := parseFrom (file.length+1) [] file

/-- What has been added where nothing has failed. -/
inductive Added : List Section → Entry → List Section → Prop
  | header (sections : List Section) (name : Bytes) (room : sections.length < MAX_CONFIGS) :
      Added sections (.header name) (sections ++ [⟨name,[]⟩])
  | pair (earlier : List Section) (currSection : Section) (k v : Bytes) (room : currSection.configPair.length < MAX_CONFIGS) :
      Added (earlier ++ [currSection]) (.pair k v)
        (earlier ++ [{ currSection with configPair := currSection.configPair ++ [⟨k,v⟩] }])

theorem addEntry_added (sections grown : List Section) (entry : Entry) :
    addEntry sections entry = .ok grown ↔ Added sections entry grown := by
  constructor
  · intro added
    cases entry with
    | header name =>
      obtain ⟨_,room,last⟩ := bind_ok _ _ _ added
      obtain rfl := Except.ok.inj last
      exact .header sections name (assert_ok _ room)
    | pair k v =>
      cases current : sections.getLast? with
      | none =>
        simp only [addEntry,current] at added
        cases added
      | some currSection =>
        simp only [addEntry,current] at added
        obtain ⟨grown,paired,last⟩ := bind_ok _ _ _ added
        obtain rfl := Except.ok.inj last
        obtain ⟨earlier,rfl⟩ := List.getLast?_eq_some_iff.mp current
        rw [List.dropLast_concat]
        unfold addPair at paired
        split at paired
        · next room =>
          obtain rfl := Except.ok.inj paired
          exact .pair earlier currSection k v room
        · cases paired
  · intro added
    cases added with
    | header _ name room =>
      rw [addEntry,assert_holds _ room]
      rfl
    | pair earlier currSection k v room =>
      rw [addEntry,List.getLast?_concat,List.dropLast_concat]
      simp only
      rw [addPair,if_pos room]
      rfl

theorem addEntry_ends (sections : List Section) (entry : Entry) : addEntry sections entry ≠ .error .spin := by
  intro stopped
  cases entry with
  | header name =>
    rcases bind_error _ _ _ stopped with failed | ⟨_,_,failed⟩
    · unfold assert at failed
      split at failed <;> cases failed
    · cases failed
  | pair k v =>
    simp only [addEntry] at stopped
    split at stopped
    · cases stopped
    · rcases bind_error _ _ _ stopped with failed | ⟨_,_,failed⟩
      · unfold addPair at failed
        split at failed <;> cases failed
      · cases failed

theorem cString_bounds (s : Bytes) (fault : Fault) (failed : cString s = .error fault) : fault = .bounds := by
  unfold cString at failed
  split at failed
  · cases failed
  · exact (Except.error.inj failed).symm

theorem atEnd_bounds (place : Place) (s : Bytes) (k : Option Bytes) (fault : Fault)
    (failed : atEnd place s k = .error fault) : fault = .bounds := by
  unfold atEnd at failed
  split at failed
  · rcases bind_error _ _ _ failed with unread | ⟨_,_,failed⟩
    · exact cString_bounds _ _ unread
    · cases failed
  · cases failed

/-- A file that ends behind a key ends its value. -/
theorem atEnd_value (s k rest : Bytes) : (do .ok (← atEnd .line s (some k),rest) : C (Option Entry × Bytes)) =
    cString s >>= fun v => .ok (some (.pair k v),rest) := by
  rw [atEnd]
  cases cString s <;> rfl

/-- A turn of the loops returns, or goes on behind the byte it has read. -/
inductive Turn (rest : Bytes) (result : C (Option Entry × Bytes)) : Prop
  | returns (made : C (Option Entry)) (same : result = made >>= fun entry => .ok (entry,rest))
      (bounds : ∀ fault, made = .error fault → fault = .bounds)
  | onward (change : C (Bytes × Option Bytes)) (place : Place) (i : Nat)
      (same : result = change >>= fun new => readLine place new.1 i new.2 rest)
      (bounds : ∀ fault, change = .error fault → fault = .bounds)

theorem readLine_turn (place : Place) (s : Bytes) (i : Nat) (k : Option Bytes) (ch : Byte) (rest : Bytes) :
    Turn rest (readLine place s i k (ch::rest)) := by
  have stores : ∀ place', Turn rest (store .bounds s i ch >>= fun s => readLine place' s (i+1) k rest) := by
    intro place'
    refine .onward (store .bounds s i ch >>= fun s => .ok (s,k)) place' (i+1) ?_ (fun fault failed => ?_)
    · cases store Fault.bounds s i ch <;> rfl
    · rcases bind_error _ _ _ failed with unwritten | ⟨_,_,failed⟩
      · exact store_error _ _ _ _ _ unwritten
      · cases failed
  have texts : ∀ make : Bytes → Option Entry, Turn rest (cString s >>= fun text => .ok (make text,rest)) := by
    intro make
    refine .returns (cString s >>= fun text => .ok (make text)) ?_ (fun fault failed => ?_)
    · cases cString s <;> rfl
    · rcases bind_error _ _ _ failed with unread | ⟨_,_,failed⟩
      · exact cString_bounds _ _ unread
      · cases failed
  rw [readLine]
  cases act place k.isSome ch with
  | skip place' => exact .onward (.ok (s,k)) place' i rfl (fun fault none => by cases none)
  | keep place' => exact stores place'
  | key =>
    refine .onward (cString s >>= fun text => .ok (cleared,some text)) .line 0 ?_ (fun fault failed => ?_)
    · cases cString s <;> rfl
    · rcases bind_error _ _ _ failed with unread | ⟨_,_,failed⟩
      · exact cString_bounds _ _ unread
      · cases failed
  | name => exact texts (fun text => some (.header text))
  | value => exact texts (fun text => some (.pair (k.getD []) text))
  | stop => exact .returns (.ok none) rfl (fun fault none => by cases none)

theorem readLine_bounds (file : Bytes) (place : Place) (s : Bytes) (i : Nat) (k : Option Bytes) (fault : Fault)
    (failed : readLine place s i k file = .error fault) : fault = .bounds := by
  induction file generalizing place s i k with
  | nil =>
    rcases bind_error _ _ _ failed with stopped | ⟨_,_,failed⟩
    · exact atEnd_bounds _ _ _ _ stopped
    · cases failed
  | cons ch rest ih =>
    cases readLine_turn place s i k ch rest with
    | returns made same bounds =>
      rw [same] at failed
      rcases bind_error _ _ _ failed with stopped | ⟨_,_,failed⟩
      · exact bounds _ stopped
      · cases failed
    | onward change place' i' same bounds =>
      rw [same] at failed
      rcases bind_error _ _ _ failed with stopped | ⟨_,_,failed⟩
      · exact bounds _ stopped
      · exact ih _ _ _ _ failed

theorem readLine_shorter (file : Bytes) (place : Place) (s : Bytes) (i : Nat) (k : Option Bytes) (entry : Option Entry)
    (rest : Bytes) (ran : readLine place s i k file = .ok (entry,rest)) : rest.length ≤ file.length-1 := by
  induction file generalizing place s i k with
  | nil =>
    obtain ⟨_,_,ran⟩ := bind_ok _ _ _ ran
    rw [← (Prod.mk.inj (Except.ok.inj ran)).2]
    exact le_rfl
  | cons ch behind ih =>
    cases readLine_turn place s i k ch behind with
    | returns made same bounds =>
      rw [same] at ran
      obtain ⟨_,_,ran⟩ := bind_ok _ _ _ ran
      rw [← (Prod.mk.inj (Except.ok.inj ran)).2]
      exact le_rfl
    | onward change place' i' same bounds =>
      rw [same] at ran
      obtain ⟨_,_,ran⟩ := bind_ok _ _ _ ran
      have short := ih _ _ _ _ ran
      rw [List.length_cons]
      omega

/-- A call that returns true has read something. -/
theorem readLine_returns (rest more : Bytes) (entry : Entry)
    (read : readLine .line cleared 0 none rest = .ok (some entry,more)) : more.length < rest.length := by
  have short := readLine_shorter _ _ _ _ _ _ _ read
  have some_left : rest ≠ [] := by
    rintro rfl
    cases read
  have positive := List.length_pos_of_ne_nil some_left
  omega

/-- The loop of `ini_parse` ends on every file. -/
theorem iniParse_ends (file : Bytes) : iniParse file ≠ .error .spin := by
  suffices ends : ∀ turns sections (file : Bytes), file.length < turns → parseFrom turns sections file ≠ .error .spin from
    ends (file.length+1) [] file (Nat.lt_succ_self _)
  intro turns
  induction turns with
  | zero => exact fun _ _ none => absurd none (Nat.not_lt_zero _)
  | succ turns ih =>
    intro sections file enough failed
    rcases bind_error _ _ _ failed with stopped | ⟨⟨entry,rest⟩,read,failed⟩
    · cases readLine_bounds _ _ _ _ _ _ stopped
    · cases entry with
      | none => cases failed
      | some entry =>
        have short := readLine_returns file rest entry read
        rcases bind_error _ _ _ failed with stopped | ⟨sections,_,failed⟩
        · exact addEntry_ends _ entry stopped
        · exact ih sections rest (by omega) failed

end Spsc.IniParser
