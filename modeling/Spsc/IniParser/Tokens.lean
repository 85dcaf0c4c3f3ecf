import Spsc.IniParser.Layout
import Spsc.Lib.Transducer

/-! The texts that a file of any bytes spells: a machine that keeps what `read_line` stores in a
buffer without bound, and each call of `read_line` against the next of its texts. -/
namespace Spsc.IniParser
open Imperative Transducer

/-- What becomes of a text: it is taken for a section, a key or a value, or left in the buffer. -/
inductive Kind where
  | name
  | key
  | value
  | dropped
  deriving DecidableEq, Repr

/-- A text and the byte on which it was complete, if that was not the end of the file. -/
structure Token where
  kind : Kind
  text : Bytes
  closing : Option Byte
  deriving DecidableEq, Repr

/-- The buffer has room for every byte of the text and, where the text is taken, a NUL. -/
def Token.Fits (token : Token) : Prop :=
  token.text.length ≤ 1024 ∧ (token.kind ≠ .dropped → token.text.length < 1024 ∨ 0 ∈ token.text)

def Entry.kind : Entry → Kind
  | .header _ => .name
  | .pair _ _ => .value

theorem Entry.kind_taken (entry : Entry) : entry.kind ≠ .dropped := by
  cases entry with
  | header name => exact (by decide : Kind.name ≠ .dropped)
  | pair k v => exact (by decide : Kind.value ≠ .dropped)

structure Scanning where
  place : Place
  text : Bytes
  keyed : Bool
  deriving DecidableEq, Repr

namespace Scanning

def start : Scanning := ⟨.line,[],false⟩

/-- At a value the parser goes on with the next call, elsewhere the end stops it. -/
def ended (scanning : Scanning) (closing : Option Byte) : Option Scanning × List Token :=
  if scanning.place = .line ∧ scanning.keyed = true then (some start,[⟨.value,scanning.text,closing⟩])
  else (none,[⟨.dropped,scanning.text,closing⟩])

def next (scanning : Scanning) (ch : Byte) : Option Scanning × List Token :=
  let ⟨place,text,keyed⟩ := scanning
  match act place keyed ch with
  | .skip place => (some ⟨place,text,keyed⟩,[])
  | .keep place => (some ⟨place,text ++ [ch],keyed⟩,[])
  | .key => (some ⟨.line,[],true⟩,[⟨.key,text,some ch⟩])
  | .name => (some start,[⟨.name,text,some ch⟩])
  | .value => (some start,[⟨.value,text,some ch⟩])
  | .stop => (none,[⟨.dropped,text,some ch⟩])

/-- Behind a value at the end of the file there is one more call, which finds nothing. -/
def finish (scanning : Scanning) : List Token :=
  match scanning.ended none with
  | (some _,tokens) => tokens ++ [⟨.dropped,[],none⟩]
  | (none,tokens) => tokens

end Scanning

/-- A state of `none` is a parser that has stopped. -/
def scanner : Machine (Option Scanning) Byte Token where
  step
    | none, _ => (none,[])
    | some scanning, ch => scanning.next ch
  finish
    | none => []
    | some scanning => scanning.finish

def tokens (file : Bytes) : List Token := scanner.run (some .start) file

theorem run_stopped (file : Bytes) : scanner.run none file = [] := by
  induction file with
  | nil => rfl
  | cons ch rest ih =>
    rw [Machine.run_cons]
    exact ih

theorem held_full (text : Bytes) (full : 1024 ≤ text.length) : held text = text := by
  rw [held,Nat.sub_eq_zero_of_le full,List.replicate_zero,List.append_nil]

theorem store_full (text : Bytes) (ch : Byte) (full : 1024 ≤ text.length) :
    store Fault.bounds (held text) (text.length : Nat) ch = .error .bounds := by
  rw [held_full text full,store,if_neg (fun inside => Int.lt_irrefl _ inside.2)]

theorem cString_full (text : Bytes) (full : ¬ (text.length < 1024 ∨ 0 ∈ text)) : cString (held text) = .error .bounds := by
  rw [not_or,not_lt] at full
  rw [held_full text full.1,cString,if_neg full.2]

theorem cString_room (text : Bytes) (room : text.length < 1024 ∨ 0 ∈ text) : ∃ v, cString (held text) = .ok v := by
  have nul : 0 ∈ held text := by
    rcases room with short | inside
    · exact List.mem_append_right _ (List.mem_replicate.mpr ⟨by omega,rfl⟩)
    · exact List.mem_append_left _ inside
  exact ⟨_,if_pos nul⟩

section Turn
variable (place : Place) (text : Bytes) (k : Option Bytes) (ch : Byte) (rest : Bytes)

/-- One byte, as the machine and as `read_line` take it. -/
inductive Together : Option Scanning × List Token → C (Option Entry × Bytes) → Prop
  | stored (place' : Place) (other : ch ≠ EOF) : Together (some ⟨place',text ++ [ch],k.isSome⟩,[])
      (store .bounds (held text) (text.length : Nat) ch >>= fun s => readLine place' s (text.length+1) k rest)
  | skipped (place' : Place) (other : ch ≠ EOF) : Together (some ⟨place',text,k.isSome⟩,[])
      (readLine place' (held text) text.length k rest)
  | keyed (equals : ch = char '=') : Together (some ⟨.line,[],true⟩,[⟨.key,text,some ch⟩])
      (cString (held text) >>= fun v => readLine .line cleared 0 (some v) rest)
  | taken (kind : Kind) (make : Bytes → Entry) (same : ∀ v, (make v).kind = kind) :
      Together (some .start,[⟨kind,text,some ch⟩]) (cString (held text) >>= fun v => .ok (some (make v),rest))
  | dropped (stops : ch = EOF ∨ ch = 0) : Together (none,[⟨.dropped,text,some ch⟩]) (.ok (none,rest))

theorem next_together : Together text k ch rest (Scanning.next ⟨place,text,k.isSome⟩ ch)
    (readLine place (held text) text.length k (ch::rest)) := by
  have onward := act_onward place k.isSome ch
  rw [readLine]
  simp only [Scanning.next]
  cases acts : act place k.isSome ch with
  | skip place' => exact .skipped place' (onward (by simp [acts]) (by simp [acts]))
  | keep place' => exact .stored place' (onward (by simp [acts]) (by simp [acts]))
  | key => exact .keyed (act_key place k.isSome ch acts)
  | name => exact .taken .name .header (fun _ => rfl)
  | value => exact .taken .value (.pair (k.getD [])) (fun _ => rfl)
  | stop => exact .dropped (act_stop place k.isSome ch acts)

end Turn

theorem run_some (scanning : Scanning) (ch : Byte) (rest : Bytes) : scanner.run (some scanning) (ch::rest) =
    (scanning.next ch).2 ++ scanner.run (scanning.next ch).1 rest := scanner.run_cons (some scanning) ch rest

/-- A text with too many bytes is too long whatever becomes of it. -/
theorem run_over (file text : Bytes) (place : Place) (k : Option Bytes) (long : 1024 < text.length) :
    ∃ token behind, scanner.run (some ⟨place,text,k.isSome⟩) file = token::behind ∧ ¬ token.Fits := by
  have misfit : ∀ kind closing, ¬ Token.Fits ⟨kind,text,closing⟩ := fun _ _ fits => not_le.mpr long fits.1
  induction file generalizing place text with
  | nil =>
    change ∃ token behind, Scanning.finish _ = _ ∧ _
    unfold Scanning.finish Scanning.ended
    split
    · next ended =>
      split at ended
      · obtain ⟨_,rfl⟩ := Prod.mk.inj ended
        exact ⟨_,_,rfl,misfit _ _⟩
      · cases ended
    · next ended =>
      split at ended
      · cases ended
      · obtain ⟨_,rfl⟩ := Prod.mk.inj ended
        exact ⟨_,_,rfl,misfit _ _⟩
  | cons ch rest ih =>
    have together := next_together place text k ch rest
    rw [run_some]
    generalize Scanning.next ⟨place,text,k.isSome⟩ ch = stepped at together
    generalize readLine place (held text) text.length k (ch::rest) = result at together
    cases together with
    | stored place' other =>
      have longer : 1024 < (text ++ [ch]).length := by
        rw [List.length_append]
        omega
      exact ih (text ++ [ch]) place' longer (fun _ _ fits => not_le.mpr longer fits.1)
    | skipped place' other => exact ih text place' long misfit
    | keyed equals => exact ⟨_,_,rfl,misfit _ _⟩
    | taken kind make same => exact ⟨_,_,rfl,misfit _ _⟩
    | dropped stops => exact ⟨_,_,rfl,misfit _ _⟩

/-- A call has read a file up to what it leaves, and a byte 255 in it just if that ended it. -/
def ReadUpTo (file rest : Bytes) (closing : Option Byte) : Prop :=
  ∃ consumed, file = consumed ++ rest ∧ (EOF ∈ consumed ↔ closing = some EOF)

theorem ReadUpTo.cons {file rest : Bytes} {closing : Option Byte} {ch : Byte} (other : ch ≠ EOF)
    (read : ReadUpTo file rest closing) : ReadUpTo (ch::file) rest closing := by
  obtain ⟨consumed,rfl,ended⟩ := read
  refine ⟨ch::consumed,rfl,?_⟩
  rw [List.mem_cons,or_iff_right (Ne.symm other)]
  exact ended

theorem ReadUpTo.single (ch : Byte) (rest : Bytes) : ReadUpTo (ch::rest) rest (some ch) := by
  refine ⟨[ch],rfl,?_⟩
  rw [List.mem_singleton,Option.some.injEq]
  exact eq_comm

theorem ReadUpTo.none_left : ReadUpTo [] [] none := ⟨[],rfl,iff_of_false List.not_mem_nil (by decide)⟩

/-- A call that ends with a token, and what the tokens behind it are. -/
inductive Closes (file : Bytes) (token : Token) (behind : List Token) : C (Option Entry × Bytes) → Prop
  | overrun (misfit : ¬ token.Fits) : Closes file token behind (.error .bounds)
  | ends (rest : Bytes) (fits : token.Fits) (kind : token.kind = .dropped) (last : behind = [])
      (read : ReadUpTo file rest token.closing)
      (stops : token.closing = none ∧ rest = [] ∨ token.closing = some EOF ∨ 0 ∈ file) :
      Closes file token behind (.ok (none,rest))
  | taken (entry : Entry) (rest : Bytes) (fits : token.Fits) (kind : token.kind = entry.kind)
      (read : ReadUpTo file rest token.closing) (onward : behind = tokens rest) :
      Closes file token behind (.ok (some entry,rest))

def IsKey (token : Token) : Prop := token.kind = .key ∧ token.Fits ∧ token.closing ≠ some EOF

/-- A call takes some keys, and then the token that it ends with. -/
inductive Spells (file : Bytes) : List Token → C (Option Entry × Bytes) → Prop
  | intro (keys : List Token) (token : Token) (behind : List Token) (result : C (Option Entry × Bytes))
      (all_keys : ∀ key ∈ keys, IsKey key) (closes : Closes file token behind result) :
      Spells file (keys ++ token::behind) result

section Call
variable {file rest : Bytes} {result : C (Option Entry × Bytes)} {ch : Byte}

theorem Closes.cons {token : Token} {behind : List Token} (other : ch ≠ EOF) (closes : Closes file token behind result) :
    Closes (ch::file) token behind result := by
  cases closes with
  | overrun misfit => exact .overrun misfit
  | ends rest fits kind last read stops =>
    refine .ends rest fits kind last (read.cons other) ?_
    rcases stops with ended | eof | nul
    · exact .inl ended
    · exact .inr (.inl eof)
    · exact .inr (.inr (List.mem_cons_of_mem _ nul))
  | taken entry rest fits kind read onward => exact .taken entry rest fits kind (read.cons other) onward

theorem Spells.cons {toks : List Token} (other : ch ≠ EOF) (spells : Spells file toks result) :
    Spells (ch::file) toks result := by
  obtain ⟨keys,token,behind,_,all_keys,closes⟩ := spells
  exact .intro keys token behind _ all_keys (closes.cons other)

theorem Spells.single {token : Token} {behind : List Token} (closes : Closes file token behind result) :
    Spells file (token::behind) result := .intro [] token behind result (fun _ none => absurd none List.not_mem_nil) closes

theorem Spells.key {key : Token} {toks : List Token} (is_key : IsKey key) (spells : Spells file toks result) :
    Spells file (key::toks) result := by
  obtain ⟨keys,token,behind,_,all_keys,closes⟩ := spells
  exact .intro (key::keys) token behind _ (List.forall_mem_cons.mpr ⟨is_key,all_keys⟩) closes

theorem closes_taken (text : Bytes) (kind : Kind) (closing : Option Byte) (make : Bytes → Entry)
    (same : ∀ v, (make v).kind = kind) (bounded : text.length ≤ 1024) (read : ReadUpTo file rest closing) :
    Closes file ⟨kind,text,closing⟩ (tokens rest) (cString (held text) >>= fun v => .ok (some (make v),rest)) := by
  by_cases room : text.length < 1024 ∨ 0 ∈ text
  · obtain ⟨v,unread⟩ := cString_room text room
    rw [unread]
    exact .taken (make v) rest ⟨bounded,fun _ => room⟩ (same v).symm read rfl
  · rw [cString_full text room]
    exact .overrun (fun fits => room (fits.2 (same [] ▸ (make []).kind_taken)))

theorem atEnd_spells (place : Place) (text : Bytes) (k : Option Bytes) (bounded : text.length ≤ 1024) :
    Spells [] (scanner.run (some ⟨place,text,k.isSome⟩) []) (readLine place (held text) text.length k []) := by
  have silent : Spells [] [⟨.dropped,text,none⟩] (.ok (none,[])) :=
    .single (.ends [] ⟨bounded,fun other => absurd rfl other⟩ rfl rfl .none_left (.inl ⟨rfl,rfl⟩))
  cases place with
  | header => exact silent
  | comment => exact silent
  | line =>
    cases k with
    | none => exact silent
    | some k =>
      rw [readLine,atEnd_value]
      exact .single (closes_taken text .value none (.pair k) (fun _ => rfl) bounded .none_left)

theorem readLine_spells (file text : Bytes) (place : Place) (k : Option Bytes) (bounded : text.length ≤ 1024) :
    Spells file (scanner.run (some ⟨place,text,k.isSome⟩) file) (readLine place (held text) text.length k file) := by
  induction file generalizing place text k with
  | nil => exact atEnd_spells place text k bounded
  | cons ch rest ih =>
    have together := next_together place text k ch rest
    rw [run_some]
    generalize Scanning.next ⟨place,text,k.isSome⟩ ch = stepped at together
    generalize readLine place (held text) text.length k (ch::rest) = result at together
    cases together with
    | stored place' other =>
      by_cases short : text.length < 1024
      · rw [store_held text ch short]
        have onward := ih (text ++ [ch]) place' k (by rw [List.length_append]; exact short)
        rw [List.length_append] at onward
        exact onward.cons other
      · obtain ⟨token,behind,first,misfit⟩ := run_over rest (text ++ [ch]) place' k
          (by rw [List.length_append,List.length_singleton]; omega)
        rw [store_full text ch (not_lt.mp short)]
        change Spells _ (scanner.run _ rest) _
        rw [first]
        exact .single (.overrun misfit)
    | skipped place' other => exact (ih text place' k bounded).cons other
    | keyed equals =>
      have other : ch ≠ EOF := by
        rw [equals]
        decide
      by_cases room : text.length < 1024 ∨ 0 ∈ text
      · obtain ⟨v,unread⟩ := cString_room text room
        rw [unread]
        refine Spells.key ⟨rfl,⟨bounded,fun _ => room⟩,fun same => other (Option.some.inj same)⟩ ?_
        exact (ih [] .line (some v) (Nat.zero_le _)).cons other
      · rw [cString_full text room]
        exact .single (.overrun (fun fits => room (fits.2 (by decide : Kind.key ≠ .dropped))))
    | taken kind make same => exact .single (closes_taken text kind (some ch) make same bounded (.single ch rest))
    | dropped stops =>
      refine .single (.ends rest ⟨bounded,fun other => absurd rfl other⟩ rfl (run_stopped rest) (.single ch rest) ?_)
      rcases stops with eof | nul
      · exact .inr (.inl (congrArg some eof))
      · exact .inr (.inr (nul ▸ List.mem_cons_self))

/-- The same for a call that begins with an empty buffer. -/
theorem call_spells (file : Bytes) : ∃ keys token behind, tokens file = keys ++ token::behind ∧
    (∀ key ∈ keys, IsKey key) ∧ Closes file token behind (readLine .line cleared 0 none file) := by
  have spells : Spells file (tokens file) (readLine .line cleared 0 none file) :=
    readLine_spells file [] .line none (Nat.zero_le _)
  generalize tokens file = toks at spells
  obtain ⟨keys,token,behind,_,all_keys,closes⟩ := spells
  exact ⟨keys,token,behind,rfl,all_keys,closes⟩

end Call
end Spsc.IniParser
