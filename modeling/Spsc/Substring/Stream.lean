import Spsc.Substring
import Spsc.Lib.Occurrences

/-! The matcher over a stream that comes in chunks, and when it finds what a reader
would find who tries every place. -/
namespace Spsc.Substring
open Imperative Occurrences

theorem sstringCompute_done (ss : Sstring) (data : Bytes) (done : ss.done = true) : sstringCompute ss data = .ok ss := by
  cases data with
  | nil => rfl
  | cons byte rest => rw [sstringCompute_cons,if_pos done]

section Chunks
variable (int : Int → Int)

theorem sstringComputeAs_append (ss : Sstring) (front rest : Bytes) :
    sstringComputeAs int ss (front ++ rest) = sstringComputeAs int ss front >>= fun ss => sstringComputeAs int ss rest := by
  induction front generalizing ss with
  | nil => rfl
  | cons byte front ih =>
    rw [List.cons_append,sstringComputeAs,sstringComputeAs]
    by_cases done : ss.done = true
    · rw [if_pos done,if_pos done]
      cases rest with
      | nil => rfl
      | cons byte rest => exact (if_pos done).symm
    · rw [if_neg done,if_neg done]
      cases turn : matchByteAs int ss byte with
      | error fault => rfl
      | ok next => exact ih _

/-- The calls over successive chunks amount to one call over all of them. -/
theorem sstringComputeAs_chunks (ss : Sstring) (chunks : List Bytes) :
    chunks.foldlM (sstringComputeAs int) ss = sstringComputeAs int ss chunks.flatten := by
  induction chunks generalizing ss with
  | nil => rfl
  | cons chunk chunks ih =>
    rw [List.foldlM_cons,List.flatten_cons,sstringComputeAs_append]
    exact congrArg _ (funext ih)

end Chunks

theorem sstringCompute_append (ss : Sstring) (front rest : Bytes) :
    sstringCompute ss (front ++ rest) = sstringCompute ss front >>= fun ss => sstringCompute ss rest :=
  sstringComputeAs_append wrap32 ss front rest

theorem sstringCompute_chunks (ss : Sstring) (chunks : List Bytes) :
    chunks.foldlM sstringCompute ss = sstringCompute ss chunks.flatten :=
  sstringComputeAs_chunks wrap32 ss chunks

def recorded (ss : Sstring) : List Int := ss.locations.take ss.count

def location (place : Nat) : Int := wrap32 place

/-- The context behind `place` bytes of the stream, with the occurrences found and
the length of the partial match. -/
structure Matching (pattern : Bytes) (found : List Nat) (state place : Nat) (ss : Sstring) : Prop where
  text : ss.pattern = pattern ++ [0]
  states : ss.totalStates = pattern.length
  max : ss.maxOccurance = MAX_OCCURANCE
  stands : ss.state = state
  total : ss.total = place
  count : ss.count = found.length
  locations : ss.locations = found.map location ++ List.replicate (MAX_OCCURANCE-found.length) 0
  running : ss.done = decide (found.length = MAX_OCCURANCE)
  few : found.length ≤ MAX_OCCURANCE
  inside : state < pattern.length
  behind : state ≤ place

theorem sstringInit_matching (pattern : Bytes) (some_pattern : pattern ≠ []) :
    Matching pattern [] 0 0 (sstringInit pattern) where
  text := rfl
  states := rfl
  max := rfl
  stands := rfl
  total := rfl
  count := rfl
  locations := rfl
  running := rfl
  few := by decide
  inside := List.length_pos_of_ne_nil some_pattern
  behind := le_rfl

section Steps
variable {pattern : Bytes} {found : List Nat} {state place : Nat} {ss : Sstring}
  (matching : Matching pattern found state place ss)
include matching

theorem Matching.recorded : recorded ss = found.map location := by
  have size : (found.map location).length = found.length := List.length_map _
  rw [Substring.recorded,matching.locations,matching.count,← size,List.take_left]

theorem Matching.expected : ∃ expected, load Fault.bounds ss.pattern ss.state = .ok expected ∧
    pattern[state]? = some expected := by
  have inside := matching.inside
  refine ⟨pattern[state],?_,List.getElem?_eq_getElem inside⟩
  rw [matching.text,matching.stands,load_inside _ _ _ (by rw [List.length_append]; omega),List.getElem_append_left inside]

theorem Matching.fewer (going : ¬ ss.done = true) : found.length < MAX_OCCURANCE := by
  have few := matching.few
  have not_all : found.length ≠ MAX_OCCURANCE := fun all => going (matching.running.trans (decide_eq_true all))
  omega

/-- The byte goes on with the partial match. -/
theorem Matching.extends (byte : Byte) (here : pattern[state]? = some byte) (more : state+1 ≠ pattern.length) :
    ∃ next, matchByte ss byte = .ok next ∧
      Matching pattern found (state+1) (place+1) { next with total := next.total+1 } := by
  obtain ⟨expected,read,same⟩ := matching.expected
  obtain rfl : byte = expected := Option.some.inj (here.symm.trans same)
  have inside := matching.inside
  have behind := matching.behind
  refine ⟨{ ss with state := ss.state+1 },?_,?_⟩
  · rw [matchByte,matchByteAs,read]
    refine (if_pos rfl).trans (if_neg ?_)
    rw [matching.stands,matching.states]
    exact more
  · exact { matching with
      stands := congrArg (·+1) matching.stands
      total := congrArg (·+1) matching.total
      inside := by omega
      behind := by omega }

/-- The byte completes the occurrence that began `pattern.length` bytes before. -/
theorem Matching.completes (byte : Byte) (here : pattern[state]? = some byte) (whole : state+1 = pattern.length)
    (going : ¬ ss.done = true) :
    ∃ next, matchByte ss byte = .ok next ∧
      Matching pattern (found ++ [place+1-pattern.length]) 0 (place+1) { next with total := next.total+1 } := by
  obtain ⟨expected,read,same⟩ := matching.expected
  obtain rfl : byte = expected := Option.some.inj (here.symm.trans same)
  have inside := matching.inside
  have behind := matching.behind
  have fewer := matching.fewer going
  have began : wrap32 (ss.total-((ss.totalStates : Int)-1)) = location (place+1-pattern.length) := by
    rw [matching.total,matching.states,location]
    congr 1
    omega
  have room : MAX_OCCURANCE-found.length = (MAX_OCCURANCE-(found.length+1))+1 := by omega
  obtain ⟨locations,stored,placed⟩ : ∃ locations,
      store Fault.bounds ss.locations ss.count (location (place+1-pattern.length)) = .ok locations ∧
      locations = found.map location ++ location (place+1-pattern.length)::
        List.replicate (MAX_OCCURANCE-(found.length+1)) 0 := by
    refine ⟨_,?_,rfl⟩
    rw [matching.locations,matching.count,room,List.replicate_succ]
    exact store_middle _ _ _ _ _ _ (List.length_map _)
  refine ⟨{ ss with
    state := 0
    locations := locations
    count := ss.count+1
    done := if ss.maxOccurance = ss.count+1 then true else ss.done },?_,?_⟩
  · rw [matchByte,matchByteAs,read]
    refine (if_pos rfl).trans ((if_pos ?_).trans ?_)
    · rw [matching.stands,matching.states]
      exact whole
    · rw [began,stored]
      rfl
  · exact { matching with
      stands := rfl
      total := congrArg (·+1) matching.total
      count := by rw [List.length_append,matching.count]; rfl
      locations := by
        rw [placed,List.map_append,List.length_append,List.append_assoc]
        rfl
      running := by
        rw [matching.max,matching.count,matching.running,List.length_append,List.length_singleton,
          decide_eq_false (Nat.ne_of_lt fewer),eq_comm]
        by_cases last : MAX_OCCURANCE = found.length+1
        · rw [if_pos last,decide_eq_true last.symm]
        · rw [if_neg last,decide_eq_false (Ne.symm last)]
      few := by rw [List.length_append]; exact fewer
      inside := by omega
      behind := by omega }

/-- The byte breaks the partial match. -/
theorem Matching.breaks (byte : Byte) (broken : pattern[state]? ≠ some byte) :
    ∃ next, matchByte ss byte = .ok next ∧ Matching pattern found 0 (place+1) { next with total := next.total+1 } := by
  obtain ⟨expected,read,same⟩ := matching.expected
  have other : byte ≠ expected := fun equal => broken (equal ▸ same)
  have inside := matching.inside
  refine ⟨{ ss with state := 0 },?_,?_⟩
  · rw [matchByte,matchByteAs,read]
    exact if_neg other
  · exact { matching with
      stands := rfl
      total := congrArg (·+1) matching.total
      inside := by omega
      behind := by omega }

/-- One byte, as the scan takes it. -/
theorem Matching.step (byte : Byte) (going : ¬ ss.done = true) :
    ∃ next found' state', matchByte ss byte = .ok next ∧
      Matching pattern found' state' (place+1) { next with total := next.total+1 } ∧
      (∀ rest, found' ++ scan pattern state' (place+1) rest = found ++ scan pattern state place (byte::rest)) ∧
      (found' = found ∨ pattern.length ≤ place+1 ∧ found' = found ++ [place+1-pattern.length]) := by
  have inside := matching.inside
  have behind := matching.behind
  by_cases here : pattern[state]? = some byte
  · by_cases whole : state+1 = pattern.length
    · obtain ⟨next,turn,kept⟩ := matching.completes byte here whole going
      refine ⟨next,_,_,turn,kept,fun rest => ?_,.inr ⟨by omega,rfl⟩⟩
      rw [scan,if_pos here,if_pos whole,List.append_assoc,List.singleton_append]
    · obtain ⟨next,turn,kept⟩ := matching.extends byte here whole
      refine ⟨next,_,_,turn,kept,fun rest => ?_,.inl rfl⟩
      rw [scan,if_pos here,if_neg whole]
  · obtain ⟨next,turn,kept⟩ := matching.breaks byte here
    refine ⟨next,_,_,turn,kept,fun rest => ?_,.inl rfl⟩
    rw [scan,if_neg here]

theorem Matching.all_found (done : ss.done = true) (later : List Nat) : (found ++ later).take MAX_OCCURANCE = found := by
  have all := matching.running
  rw [done] at all
  rw [← of_decide_eq_true all.symm,List.take_left]

end Steps

/-- Over any stream the matcher stays inside its arrays and finds what `scan` finds, up to
the last place there is. -/
theorem sstringCompute_keeps (pattern : Bytes) (stream : Bytes) (found : List Nat) (state place : Nat) (ss : Sstring)
    (matching : Matching pattern found state place ss) :
    ∃ final state' place', sstringCompute ss stream = .ok final ∧
      Matching pattern ((found ++ scan pattern state place stream).take MAX_OCCURANCE) state' place' final := by
  induction stream generalizing found state place ss with
  | nil =>
    refine ⟨ss,state,place,rfl,?_⟩
    rw [scan,List.append_nil,List.take_of_length_le matching.few]
    exact matching
  | cons byte rest ih =>
    by_cases done : ss.done = true
    · refine ⟨ss,state,place,sstringCompute_done ss _ done,?_⟩
      rw [matching.all_found done]
      exact matching
    · obtain ⟨next,found',state',turn,kept,same,_⟩ := matching.step byte done
      obtain ⟨final,last,total,ran,matched⟩ := ih _ _ _ _ kept
      rw [same rest] at matched
      refine ⟨final,last,total,?_,matched⟩
      rw [sstringCompute_cons,if_neg done,turn]
      exact ran

theorem sstringCompute_records (pattern : Bytes) (stream : Bytes) (found : List Nat) (state place : Nat) (ss : Sstring)
    (matching : Matching pattern found state place ss) :
    ∃ final, sstringCompute ss stream = .ok final ∧
      recorded final = ((found ++ scan pattern state place stream).take MAX_OCCURANCE).map location := by
  obtain ⟨final,_,_,ran,matched⟩ := sstringCompute_keeps pattern stream found state place ss matching
  exact ⟨final,ran,matched.recorded⟩

/-- The calls over the chunks record the first occurrences in the stream, each at its place. -/
def FindsAll (pattern : Bytes) (chunks : List Bytes) : Prop :=
  ∃ ss, chunks.foldlM sstringCompute (sstringInit pattern) = .ok ss ∧
    recorded ss = ((occurrences pattern 0 0 chunks.flatten).take MAX_OCCURANCE).map (fun place : Nat => (place : Int))

theorem findsAll_iff (pattern : Bytes) (some_pattern : pattern ≠ []) (chunks : List Bytes) :
    FindsAll pattern chunks ↔ ((scan pattern 0 0 chunks.flatten).take MAX_OCCURANCE).map location =
      ((occurrences pattern 0 0 chunks.flatten).take MAX_OCCURANCE).map (fun place : Nat => (place : Int)) := by
  obtain ⟨final,ran,records⟩ := sstringCompute_records pattern chunks.flatten [] 0 0 _ (sstringInit_matching pattern some_pattern)
  rw [FindsAll,sstringCompute_chunks,ran,← List.nil_append (scan pattern 0 0 chunks.flatten),← records]
  constructor
  · rintro ⟨ss,same,finds⟩
    obtain rfl := Except.ok.inj same
    exact finds
  · intro finds
    exact ⟨final,rfl,finds⟩

/-- However far into the stream the calls have come and however it is cut, nothing is
missed exactly when none of the first occurrences hides behind a failed partial match and
each begins where an int can say. -/
theorem sstringCompute_finds (pattern stream : Bytes) (some_pattern : pattern ≠ []) :
    (∀ chunks, chunks.flatten <+: stream → FindsAll pattern chunks) ↔
      Clean pattern MAX_OCCURANCE 0 stream ∧
        ∀ place ∈ (occurrences pattern 0 0 stream).take MAX_OCCURANCE, (place : Int) ≤ INT_MAX := by
  have exactly := scan_exact pattern location (fun place : Nat => (place : Int)) MAX_OCCURANCE 0 0 stream
    (List.length_pos_of_ne_nil some_pattern)
  simp only [List.take_zero,List.nil_append,Nat.add_zero] at exactly
  have places : ∀ place : Nat, location place = place ↔ (place : Int) ≤ INT_MAX :=
    fun place => wrap32_eq_self place (Int.natCast_nonneg place)
  simp only [places] at exactly
  refine Iff.trans ?_ exactly
  constructor
  · intro all front inside
    have finds := (findsAll_iff pattern some_pattern [front]).mp (all [front] (by simpa using inside))
    simpa using finds
  · intro all chunks inside
    exact (findsAll_iff pattern some_pattern chunks).mpr (all _ inside)

theorem sstringCompute_finds_twice : FindsAll (ascii ['m','a','d'])
    [ascii ['m','a','d','g','a','i','m','a','d'],ascii ['m','a','d','g','a','i','m','a','d']] :=
  (sstringCompute_finds (ascii ['m','a','d'])
    (ascii ['m','a','d','g','a','i','m','a','d','m','a','d','g','a','i','m','a','d']) (by decide)).mpr (by decide +kernel)
    _ (by decide)

/-- The third `a` breaks the match, and the occurrence that begins at the second is lost. -/
theorem sstringCompute_misses :
    occurrences (ascii ['a','a','b']) 0 0 (ascii ['a','a','a','b']) = [1] ∧
    ¬ FindsAll (ascii ['a','a','b']) [ascii ['a','a','a','b']] := by
  have missed : scan (ascii ['a','a','b']) 0 0 (ascii ['a','a','a','b']) = [] := by decide
  have there : occurrences (ascii ['a','a','b']) 0 0 (ascii ['a','a','a','b']) = [1] := by decide
  refine ⟨there,fun finds => ?_⟩
  have same := (findsAll_iff _ (by decide) _).mp finds
  rw [List.flatten_singleton,missed,there] at same
  exact absurd same (by decide)

end Spsc.Substring
