import Spsc.IniParser.Config
import Spsc.Substring.Stream

/-! Which patterns and streams keep the matcher inside its pattern and its table. An empty
pattern, which the configuration may give, has no state at which a match is complete. -/
namespace Spsc.Substring
open Imperative IniParser

/-- Before each byte the state is inside the copy of the pattern, its NUL included, and a place
is left in the table as long as the matcher goes on; no call goes outside either. -/
def StaysInside (pattern : Bytes) (chunks : List Bytes) : Prop :=
  (∃ ss, chunks.foldlM sstringCompute (sstringInit pattern) = .ok ss) ∧
  ∀ front byte rest, chunks.flatten = front ++ byte::rest →
    ∃ ss, sstringCompute (sstringInit pattern) front = .ok ss ∧ ss.state ≤ pattern.length ∧
      (ss.done = false → ss.count < ss.maxOccurance)

theorem staysInside_some (pattern : Bytes) (some_pattern : pattern ≠ []) (chunks : List Bytes) :
    StaysInside pattern chunks := by
  have start := sstringInit_matching pattern some_pattern
  refine ⟨?_,fun front byte rest _ => ?_⟩
  · obtain ⟨final,_,_,ran,_⟩ := sstringCompute_keeps pattern chunks.flatten [] 0 0 _ start
    exact ⟨final,by rw [sstringCompute_chunks]; exact ran⟩
  · obtain ⟨final,state,place,ran,matching⟩ := sstringCompute_keeps pattern front [] 0 0 _ start
    refine ⟨final,ran,?_,fun going => ?_⟩
    · rw [matching.stands]
      exact matching.inside.le
    · rw [matching.count,matching.max]
      exact matching.fewer (by rw [going]; exact Bool.noConfusion)

/-- The context of an empty pattern as long as no NUL has come. -/
structure Idle (ss : Sstring) : Prop where
  text : ss.pattern = [0]
  states : ss.totalStates = 0
  stands : ss.state = 0
  running : ss.done = false
  empty : ss.count = 0
  max : ss.maxOccurance = MAX_OCCURANCE

theorem sstringInit_idle : Idle (sstringInit []) := ⟨rfl,rfl,rfl,rfl,rfl,rfl⟩

section Empty
variable {ss : Sstring} (idle : Idle ss)
include idle

theorem Idle.going : ¬ ss.done = true := by
  rw [idle.running]
  exact Bool.noConfusion

/-- Another byte than NUL changes nothing, and a NUL is taken for the pattern's own. -/
theorem Idle.byte (byte : Byte) :
    matchByte ss byte = .ok { ss with state := if byte = 0 then 1 else 0 } := by
  have read : load Fault.bounds ss.pattern ss.state = .ok 0 := by
    rw [idle.text,idle.stands]
    rfl
  rw [matchByte,matchByteAs,read]
  simp only [bind,Except.bind]
  by_cases nul : byte = 0
  · rw [if_pos nul,if_pos nul,idle.stands,if_neg (by rw [idle.states]; decide)]
  · rw [if_neg nul,if_neg nul]

theorem Idle.front (front : Bytes) (solid : 0 ∉ front) :
    ∃ final, sstringCompute ss front = .ok final ∧ Idle final := by
  induction front generalizing ss with
  | nil => exact ⟨ss,rfl,idle⟩
  | cons byte front ih =>
    obtain ⟨nul,later⟩ := not_or.mp (mt List.mem_cons.mpr solid)
    have next : Idle { ss with state := 0, total := ss.total+1 } :=
      ⟨idle.text,idle.states,rfl,idle.running,idle.empty,idle.max⟩
    obtain ⟨final,ran,kept⟩ := ih next later
    refine ⟨final,?_,kept⟩
    rw [sstringCompute_cons,if_neg idle.going,idle.byte,if_neg (Ne.symm nul)]
    exact ran

theorem Idle.last (byte : Byte) : ∃ final, sstringCompute ss [byte] = .ok final := by
  rw [sstringCompute_cons,if_neg idle.going,idle.byte]
  exact ⟨_,rfl⟩

/-- The byte behind a NUL is compared with one behind the pattern. -/
theorem Idle.fails (byte : Byte) (rest : Bytes) : sstringCompute ss (0::byte::rest) = .error .bounds := by
  rw [sstringCompute_cons,if_neg idle.going,idle.byte,if_pos rfl]
  have outside : load Fault.bounds ss.pattern ((1 : Nat) : Int) = .error .bounds := by
    rw [idle.text]
    rfl
  simp only [bind,Except.bind]
  rw [sstringCompute_cons,if_neg idle.going,matchByte,matchByteAs]
  simp only [outside,bind,Except.bind]

end Empty

theorem staysInside_empty (chunks : List Bytes) : StaysInside [] chunks ↔ 0 ∉ chunks.flatten.dropLast := by
  constructor
  · rintro ⟨⟨ss,ran⟩,_⟩ nul
    obtain ⟨front,behind,parts,solid⟩ := List.eq_append_cons_of_mem nul
    have some_stream : chunks.flatten ≠ [] := by
      intro none
      rw [none] at nul
      cases nul
    have whole : chunks.flatten = front ++ 0::(behind ++ [chunks.flatten.getLast some_stream]) := by
      conv_lhs => rw [← List.dropLast_append_getLast some_stream,parts]
      simp
    obtain ⟨byte,rest,same⟩ : ∃ byte rest, behind ++ [chunks.flatten.getLast some_stream] = byte::rest := by
      cases behind with
      | nil => exact ⟨_,_,rfl⟩
      | cons byte rest => exact ⟨_,_,rfl⟩
    obtain ⟨next,early,idle⟩ := sstringInit_idle.front front solid
    rw [sstringCompute_chunks,whole,same,sstringCompute_append,early] at ran
    have failed := idle.fails byte rest
    exact absurd (failed.symm.trans ran) (fun both => nomatch both)
  · intro solid
    refine ⟨?_,fun front byte rest parts => ?_⟩
    · rw [sstringCompute_chunks]
      rcases List.eq_nil_or_concat' chunks.flatten with none | ⟨front,byte,whole⟩
      · rw [none]
        exact ⟨_,rfl⟩
      · rw [whole,List.dropLast_concat] at solid
        obtain ⟨next,early,idle⟩ := sstringInit_idle.front front solid
        rw [whole,sstringCompute_append,early]
        exact idle.last byte
    · have early : front <+: chunks.flatten.dropLast := by
        rw [parts,List.dropLast_append_of_ne_nil (List.cons_ne_nil _ _)]
        exact List.prefix_append _ _
      obtain ⟨next,ran,idle⟩ := sstringInit_idle.front front (fun member => solid (early.subset member))
      refine ⟨next,ran,idle.stands.le,fun _ => ?_⟩
      rw [idle.empty,idle.max]
      decide

/-- The matcher stays inside its pattern and its table exactly when the pattern is not empty or no
NUL comes before the last byte. -/
theorem search_inside (pattern : Bytes) (chunks : List Bytes) :
    StaysInside pattern chunks ↔ pattern ≠ [] ∨ 0 ∉ chunks.flatten.dropLast := by
  by_cases none : pattern = []
  · rw [none,staysInside_empty]
    simp
  · exact iff_of_true (staysInside_some pattern none chunks) (.inl none)

/-- A file with `PATTERN=` and nothing behind it. -/
def searchFile : Bytes :=
  let producer := char '['::(JANE ++ ascii [']','\n']) ++ (INPUT_TEXT_FILE ++ ascii ['=','a','\n']) ++
    (BUFFERS ++ ascii ['=','2','\n']) ++ (USE_BUFFERS ++ ascii ['=','1','\n']) ++ (PORT ++ ascii ['=','1','\n'])
  let consumer := char '['::(THOR ++ ascii [']','\n']) ++ (OUTPUT_TEXT_FILE ++ ascii ['=','b','\n']) ++
    (BUFFERS ++ ascii ['=','2','\n']) ++ (DO_SEARCH ++ ascii ['=','1','\n']) ++ (PATTERN ++ ascii ['=','\n']) ++
    (PORT ++ ascii ['=','1','\n'])
  producer ++ consumer

/-- The empty pattern is accepted, and the second byte is compared with what is behind the pattern. -/
theorem search_outside :
    asgardConfigRead searchFile =
      .ok (.returned true ⟨some (ascii ['a']),2,1,1⟩ ⟨some (ascii ['b']),some [],2,1,1⟩) ∧
    sstringCompute (sstringInit []) [0,65] = .error .bounds ∧ ¬ StaysInside [] [[0,65]] := by
  refine ⟨by decide +kernel,by decide +kernel,fun inside => ?_⟩
  exact absurd ((staysInside_empty [[0,65]]).mp inside) (by decide)

end Spsc.Substring
