import Spsc.IniParser.Calls

/-! Where the parser takes a byte of the file for its end: at the first byte 255, if it gets there. -/
namespace Spsc.IniParser
open Imperative Transducer

/-- The parser gets to the end of a file that stops here. -/
def ReachesEnd (file : Bytes) : Prop := ∃ past token, Reached file past token ∧ token.Fits ∧ token.closing = none

/-- A call that returns has met no byte that it took for the end of the file, has nothing left where it
returns false, and less than before where it returns true. -/
def EndsAtEnd (rest : Bytes) : Prop := ∀ entry more, readLine .line cleared 0 none rest = .ok (entry,more) →
  (∀ consumed, rest = consumed ++ more → EOF ∉ consumed) ∧ (entry = none → more = []) ∧
    (entry ≠ none → more.length < rest.length)

namespace Scanning

/-- A step of the machine is one that some call of `read_line` makes with it. -/
theorem next_called (scanning : Scanning) (ch : Byte) : ∃ (k : Option Bytes) (result : C (Option Entry × Bytes)),
    Together scanning.text k ch [] (scanning.next ch) result := by
  obtain ⟨place,text,keyed⟩ := scanning
  cases keyed with
  | false => exact ⟨none,_,next_together place text none ch []⟩
  | true => exact ⟨some [],_,next_together place text (some []) ch []⟩

theorem next_closing (scanning : Scanning) (ch : Byte) : ∀ token ∈ (scanning.next ch).2, token.closing = some ch := by
  obtain ⟨k,result,together⟩ := scanning.next_called ch
  generalize scanning.next ch = stepped at together
  cases together with
  | stored place other => exact fun _ none => absurd none List.not_mem_nil
  | skipped place other => exact fun _ none => absurd none List.not_mem_nil
  | keyed equals => exact List.forall_mem_singleton.mpr rfl
  | taken kind make same => exact List.forall_mem_singleton.mpr rfl
  | dropped stops => exact List.forall_mem_singleton.mpr rfl

theorem next_alive (scanning : Scanning) (ch : Byte) (nul : ch ≠ 0) (eof : ch ≠ EOF) :
    ∃ onward, (scanning.next ch).1 = some onward := by
  obtain ⟨k,result,together⟩ := scanning.next_called ch
  generalize scanning.next ch = stepped at together
  cases together with
  | stored place other => exact ⟨_,rfl⟩
  | skipped place other => exact ⟨_,rfl⟩
  | keyed equals => exact ⟨_,rfl⟩
  | taken kind make same => exact ⟨_,rfl⟩
  | dropped stops => exact absurd stops (not_or.mpr ⟨eof,nul⟩)

theorem ended_token (scanning : Scanning) : ∃ kind, (∀ closing, (scanning.ended closing).2 = [⟨kind,scanning.text,closing⟩]) ∧
    ∃ behind, scanning.finish = ⟨kind,scanning.text,none⟩::behind := by
  by_cases value : scanning.place = .line ∧ scanning.keyed = true
  · refine ⟨.value,fun closing => by rw [ended,if_pos value],[⟨.dropped,[],none⟩],?_⟩
    rw [finish,ended,if_pos value]
    rfl
  · refine ⟨.dropped,fun closing => by rw [ended,if_neg value],[],?_⟩
    rw [finish,ended,if_neg value]

theorem next_eof (scanning : Scanning) : scanning.next EOF = scanning.ended (some EOF) := by
  simp only [next,ended,act_eof]
  by_cases value : scanning.place = .line ∧ scanning.keyed = true
  · simp only [if_pos value]
  · simp only [if_neg value]

theorem finish_closing (scanning : Scanning) : ∀ token ∈ scanning.finish, token.closing = none := by
  by_cases value : scanning.place = .line ∧ scanning.keyed = true
  · rw [finish,ended,if_pos value]
    exact List.forall_mem_cons.mpr ⟨rfl,List.forall_mem_singleton.mpr rfl⟩
  · rw [finish,ended,if_neg value]
    exact List.forall_mem_singleton.mpr rfl

end Scanning

theorem after_alive (before : Bytes) (scanning : Scanning) (readable : ∀ ch ∈ before, ch ≠ 0 ∧ ch ≠ EOF) :
    ∃ onward, scanner.after (some scanning) before = some onward := by
  induction before generalizing scanning with
  | nil => exact ⟨scanning,rfl⟩
  | cons ch before ih =>
    obtain ⟨⟨nul,eof⟩,later⟩ := List.forall_mem_cons.mp readable
    obtain ⟨onward,step⟩ := scanning.next_alive ch nul eof
    obtain ⟨last,led⟩ := ih onward later
    exact ⟨last,by rw [← led,← step]; rfl⟩

/-- What is put out while bytes are read is closed by one of them. -/
theorem out_closing (before : Bytes) (state : Option Scanning) :
    ∀ token ∈ scanner.out state before, ∃ ch ∈ before, token.closing = some ch := by
  induction before generalizing state with
  | nil => exact fun _ none => absurd none List.not_mem_nil
  | cons ch before ih =>
    intro token member
    rw [Machine.out] at member
    rcases List.mem_append.mp member with here | later
    · cases state with
      | none => exact absurd here List.not_mem_nil
      | some scanning => exact ⟨ch,List.mem_cons_self,scanning.next_closing ch token here⟩
    · obtain ⟨other,inside,closing⟩ := ih _ token later
      exact ⟨other,List.mem_cons_of_mem _ inside,closing⟩

/-- A token that is not closed by the end of the file is closed by one of its bytes. -/
theorem Reached.closing {file : Bytes} {past : List Token} {token : Token} (reached : Reached file past token)
    (closed : token.closing ≠ none) : ∃ ch ∈ file, token.closing = some ch := by
  have member : token ∈ tokens file := reached.2.subset (List.mem_append_right _ List.mem_cons_self)
  rcases List.mem_append.mp member with read | ended
  · exact out_closing file _ token read
  · refine absurd ?_ closed
    cases led : scanner.after (some .start) file with
    | none =>
      rw [led] at ended
      exact absurd ended List.not_mem_nil
    | some scanning =>
      rw [led] at ended
      exact scanning.finish_closing token ended

/-- The first token that is closed in some way is reached where those before it are sound. -/
theorem first_reached (file : Bytes) (out behind : List Token) (first : Token) (split : tokens file = out ++ first::behind)
    (absent : ∀ token ∈ out, token.closing ≠ first.closing) :
    (∃ past token, Reached file past token ∧ token.Fits ∧ token.closing = first.closing) ↔ Sound out ∧ first.Fits := by
  constructor
  · rintro ⟨past,token,⟨sound,tail,inside⟩,fits,closing⟩
    rw [split,List.append_assoc,List.singleton_append] at inside
    rcases List.append_eq_append_iff.mp inside with ⟨front,ahead,later⟩ | ⟨back,ahead,later⟩
    · cases front with
      | nil =>
        rw [List.append_nil] at ahead
        rw [ahead,← (List.cons.inj later).1]
        exact ⟨sound,fits⟩
      | cons other front =>
        refine absurd closing (absent token ?_)
        rw [ahead,(List.cons.inj later).1]
        exact List.mem_append_right _ List.mem_cons_self
    · rw [ahead] at sound
      cases back with
      | nil =>
        rw [(List.cons.inj later).1]
        exact ⟨sound.front,fits⟩
      | cons other back =>
        obtain ⟨rfl,_⟩ := List.cons.inj later
        exact ⟨sound.front,(sound out first back rfl).1⟩
  · rintro ⟨sound,fits⟩
    exact ⟨out,first,⟨sound,behind,by rw [split,List.append_assoc]; rfl⟩,fits,rfl⟩

/-- The parser takes the first byte 255 for the end just if it gets to the end of what is before it. -/
theorem reachesEnd_iff (before behind : Bytes) (nul : 0 ∉ before) (eof : EOF ∉ before) : ReachesEnd before ↔
    ∃ past token, Reached (before ++ EOF::behind) past token ∧ token.Fits ∧ token.closing = some EOF := by
  have readable : ∀ ch ∈ before, ch ≠ 0 ∧ ch ≠ EOF :=
    fun ch member => ⟨fun same => nul (same ▸ member),fun same => eof (same ▸ member)⟩
  obtain ⟨scanning,led⟩ := after_alive before .start readable
  obtain ⟨kind,ended,rest,finish⟩ := scanning.ended_token
  have whole : tokens before = scanner.out (some .start) before ++ ⟨kind,scanning.text,none⟩::rest := by
    rw [tokens,Machine.run,led,← finish]
    rfl
  have cut : tokens (before ++ EOF::behind) = scanner.out (some .start) before ++ ⟨kind,scanning.text,some EOF⟩::
      scanner.run (scanning.next EOF).1 behind := by
    have step : (scanning.next EOF).2 = [⟨kind,scanning.text,some EOF⟩] := by
      rw [scanning.next_eof]
      exact ended (some EOF)
    rw [tokens,Machine.run_append,led,run_some,step]
    rfl
  have open_end := first_reached before _ _ _ whole (by
    intro token member same
    obtain ⟨ch,_,closing⟩ := out_closing before _ token member
    rw [closing] at same
    cases same)
  have at_byte := first_reached (before ++ EOF::behind) _ _ _ cut (by
    intro token member same
    obtain ⟨ch,inside,closing⟩ := out_closing before _ token member
    rw [closing] at same
    exact eof (Option.some.inj same ▸ inside))
  exact open_end.trans at_byte.symm

theorem Calls.suffix {file rest : Bytes} {sections : List Section} (calls : Calls file sections rest) : rest <:+ file := by
  induction calls with
  | first => exact List.suffix_rfl
  | next sections grown rest more entry call read added ih =>
    obtain ⟨keys,token,behind,_,_,closes⟩ := call_spells rest
    rw [read] at closes
    cases closes with
    | taken entry more fits kind consumed onward =>
      obtain ⟨consumed,split,_⟩ := consumed
      exact List.IsSuffix.trans ⟨consumed,split.symm⟩ ih

theorem ReadUpTo.eof_iff {file rest consumed : Bytes} {closing : Option Byte} (read : ReadUpTo file rest closing)
    (split : file = consumed ++ rest) : EOF ∈ consumed ↔ closing = some EOF := by
  obtain ⟨other,split',ended⟩ := read
  rw [List.append_cancel_right (split.symm.trans split')]
  exact ended

/-- A call that returns has read up to the byte on which its last token is closed. -/
theorem Closes.returned {rest more : Bytes} {token : Token} {behind : List Token} {entry : Option Entry}
    (closes : Closes rest token behind (.ok (entry,more))) : token.Fits ∧ ReadUpTo rest more token.closing ∧
      (entry = none → token.closing = none ∧ more = [] ∨ token.closing = some EOF ∨ 0 ∈ rest) := by
  cases closes with
  | ends more fits kind last read stops => exact ⟨fits,read,fun _ => stops⟩
  | taken entry more fits kind read onward => exact ⟨fits,read,fun none => by cases none⟩

/-- Where the parser gets to no byte 255, no call takes one for the end. -/
theorem Calls.endsAtEnd {file rest : Bytes} {sections : List Section} (calls : Calls file sections rest) (nul : 0 ∉ file)
    (unreached : ∀ past token, Reached file past token → token.Fits → token.closing ≠ some EOF) : EndsAtEnd rest := by
  intro entry more returned
  obtain ⟨past,token,behind,reached,_,closes⟩ := calls.token
  rw [returned] at closes
  obtain ⟨fits,read,stops⟩ := closes.returned
  have open_end := unreached past token reached fits
  refine ⟨fun consumed split member => open_end ((read.eof_iff split).mp member),?_,?_⟩
  · intro returns_false
    rcases stops returns_false with ⟨_,none_left⟩ | closing | member
    · exact none_left
    · exact absurd closing open_end
    · exact absurd (calls.suffix.subset member) nul
  · intro returns_true
    cases entry with
    | none => exact absurd rfl returns_true
    | some entry => exact readLine_returns rest more entry returned

/-- The parser ends, and takes no byte for the end of the file, exactly where no byte 255 stands
behind bytes that it gets to the end of. -/
theorem file_consumed (file : Bytes) (nul : 0 ∉ file) :
    (iniParse file ≠ .error .spin ∧ ∀ sections rest, Calls file sections rest → EndsAtEnd rest) ↔
      ∀ before behind, file = before ++ EOF::behind → EOF ∉ before → ¬ ReachesEnd before := by
  constructor
  · rintro ⟨_,ends⟩ before behind rfl eof reaches
    have solid : 0 ∉ before := fun member => nul (List.mem_append_left _ member)
    obtain ⟨past,token,reached,fits,closing⟩ := (reachesEnd_iff before behind solid eof).mp reaches
    rcases reached.call with key | ⟨sections,rest,_,calls,_,closes⟩
    · exact key.2.2 closing
    · have end_only := ends sections rest calls
      unfold EndsAtEnd at end_only
      generalize readLine .line cleared 0 none rest = result at closes end_only
      cases result with
      | error fault =>
        cases closes with
        | overrun misfit => exact misfit fits
      | ok returned =>
        obtain ⟨consumed,split,ended⟩ := closes.returned.2.1
        exact (end_only returned.1 returned.2 rfl).1 consumed split (ended.mpr closing)
  · intro unreached
    refine ⟨iniParse_ends file,fun sections rest calls => calls.endsAtEnd nul ?_⟩
    intro past token reached fits closing
    have member : EOF ∈ file := by
      obtain ⟨ch,inside,same⟩ := reached.closing (closing ▸ Option.some_ne_none EOF)
      rw [closing] at same
      exact Option.some.inj same ▸ inside
    obtain ⟨before,later,rfl,first⟩ := List.eq_append_cons_of_mem member
    have solid : 0 ∉ before := fun inside => nul (List.mem_append_left _ inside)
    exact unreached before later rfl first ((reachesEnd_iff before later solid first).mpr ⟨past,token,reached,fits,closing⟩)

theorem file_consumed_header : EndsAtEnd (ascii ['[','A',']','\n']) := by
  have consumed := (file_consumed (ascii ['[','A',']','\n']) (by decide)).mpr (by
    intro before behind split
    have member : EOF ∈ ascii ['[','A',']','\n'] := split ▸ List.mem_append_right _ List.mem_cons_self
    exact absurd member (by decide))
  exact consumed.2 [] _ .first

/-- The byte 255 before a letter: the letter is not read. -/
theorem file_not_consumed : ¬ ∀ file, 0 ∉ file →
    iniParse file ≠ .error .spin ∧ ∀ sections rest, Calls file sections rest → EndsAtEnd rest := by
  intro consumed
  have ends := (consumed [255,char 'a'] (by decide)).2 [] _ .first
  have left := (ends none [char 'a'] rfl).2.1 rfl
  cases left

end Spsc.IniParser
