import Spsc.Substring.Stream

/-! The matcher with places that are not cut to an int: what it records is real, and what
the code stores instead. -/
namespace Spsc.Substring
open Imperative Occurrences

/-- The context as the code has it. -/
def narrow (ss : Sstring) : Sstring := { ss with locations := ss.locations.map wrap32 }

theorem store_map {α β : Type} (f : α → β) (array : List α) (index : Int) (value : α) :
    store Fault.bounds (array.map f) index (f value) = (store Fault.bounds array index value).map (List.map f) := by
  unfold store
  rw [List.length_map]
  split
  · rw [← List.map_set]
    rfl
  · rfl

theorem matchByte_narrow (ss : Sstring) (byte : Byte) :
    matchByte (narrow ss) byte = (matchByteAs id ss byte).map narrow := by
  unfold matchByte matchByteAs
  simp only [narrow]
  cases load Fault.bounds ss.pattern ss.state with
  | error fault => rfl
  | ok expected =>
    simp only [bind,Except.bind]
    by_cases here : byte = expected
    · by_cases whole : ss.state+1 = ss.totalStates
      · simp only [if_pos here,if_pos whole,store_map,id]
        cases store Fault.bounds ss.locations ss.count (ss.total - ((ss.totalStates : Int)-1)) <;> rfl
      · simp only [if_pos here,if_neg whole]
        exact if_neg whole
    · simp only [if_neg here]
      rfl

theorem sstringCompute_narrow (ss : Sstring) (data : Bytes) :
    sstringCompute (narrow ss) data = (sstringComputeAs id ss data).map narrow := by
  induction data generalizing ss with
  | nil => rfl
  | cons byte rest ih =>
    rw [sstringCompute_cons,sstringComputeAs,matchByte_narrow]
    by_cases done : ss.done = true
    · have same : (narrow ss).done = true := done
      rw [if_pos done,if_pos same]
      rfl
    · have same : ¬ (narrow ss).done = true := done
      rw [if_neg done,if_neg same]
      cases matchByteAs id ss byte with
      | error fault => rfl
      | ok next => exact ih { next with total := next.total+1 }

/-- A byte leaves the locations, or stores one where the next belongs. -/
theorem matchByteAs_locations (ss next : Sstring) (byte : Byte) (turn : matchByteAs id ss byte = .ok next) :
    next.count = ss.count ∧ next.locations = ss.locations ∨
    next.count = ss.count+1 ∧
      next.locations = ss.locations.set ss.count (ss.total - ((ss.totalStates : Int)-1)) := by
  obtain ⟨expected,_,turn⟩ := bind_ok _ _ _ turn
  simp only at turn
  split at turn
  · split at turn
    · obtain ⟨locations,stored,turn⟩ := bind_ok _ _ _ turn
      obtain rfl := Except.ok.inj turn
      obtain ⟨_,_,rfl⟩ := store_ok _ _ _ _ _ stored
      exact .inr ⟨rfl,rfl⟩
    · obtain rfl := Except.ok.inj turn
      exact .inl ⟨rfl,rfl⟩
  · obtain rfl := Except.ok.inj turn
    exact .inl ⟨rfl,rfl⟩

/-- `locations` with exactly these places in it. -/
def listed (found : List Nat) : List Int :=
  found.map (fun place : Nat => (place : Int)) ++ List.replicate (MAX_OCCURANCE-found.length) 0

theorem listed_set (found : List Nat) (place : Nat) (few : found.length < MAX_OCCURANCE) :
    (listed found).set found.length (place : Int) = listed (found ++ [place]) := by
  obtain ⟨room,size⟩ : ∃ room, MAX_OCCURANCE-found.length = room+1 := ⟨MAX_OCCURANCE-found.length-1,by omega⟩
  have left : MAX_OCCURANCE-(found ++ [place]).length = room := by
    rw [List.length_append,List.length_singleton]
    omega
  rw [listed,listed,left,size,List.replicate_succ,List.set_append_right _ _ (by rw [List.length_map]),List.length_map,
    Nat.sub_self,List.map_append,List.append_assoc]
  rfl

/-- The matcher whose places are not cut finds what the code's does. -/
theorem exact_keeps (pattern : Bytes) (stream : Bytes) (found : List Nat) (state place : Nat) (ss : Sstring)
    (matching : Matching pattern found state place (narrow ss)) (all : ss.locations = listed found) :
    ∃ final state' place', sstringComputeAs id ss stream = .ok final ∧
      Matching pattern ((found ++ scan pattern state place stream).take MAX_OCCURANCE) state' place' (narrow final) ∧
      final.locations = listed ((found ++ scan pattern state place stream).take MAX_OCCURANCE) := by
  induction stream generalizing found state place ss with
  | nil =>
    refine ⟨ss,state,place,rfl,?_⟩
    rw [scan,List.append_nil,List.take_of_length_le matching.few]
    exact ⟨matching,all⟩
  | cons byte rest ih =>
    by_cases done : ss.done = true
    · refine ⟨ss,state,place,by rw [sstringComputeAs,if_pos done],?_⟩
      rw [matching.all_found done]
      exact ⟨matching,all⟩
    · obtain ⟨cut,found',state',turn,kept,same,either⟩ := matching.step byte done
      obtain ⟨next,exactly,rfl⟩ : ∃ next, matchByteAs id ss byte = .ok next ∧ narrow next = cut := by
        rw [matchByte_narrow] at turn
        cases ran : matchByteAs id ss byte with
        | error fault =>
          rw [ran] at turn
          cases turn
        | ok next => exact ⟨next,rfl,Except.ok.inj (ran ▸ turn)⟩
      have counted : next.count = found'.length := kept.count
      have before : ss.count = found.length := matching.count
      have stands : next.locations = listed found' := by
        rcases matchByteAs_locations ss next byte exactly with ⟨count,locations⟩ | ⟨count,locations⟩
        · rcases either with rfl | ⟨_,rfl⟩
          · rw [locations,all]
          · rw [List.length_append,List.length_singleton] at counted
            omega
        · rcases either with rfl | ⟨began,rfl⟩
          · omega
          · have position : ss.total - ((ss.totalStates : Int)-1) = ((place+1-pattern.length : Nat) : Int) := by
              have total : ss.total = place := matching.total
              have states : ss.totalStates = pattern.length := matching.states
              rw [total,states]
              omega
            rw [locations,all,before,position,listed_set found _ (matching.fewer done)]
      obtain ⟨final,last,total,ran,matched⟩ := ih found' state' (place+1) { next with total := next.total+1 } kept stands
      rw [same rest] at matched
      refine ⟨final,last,total,?_,matched⟩
      rw [sstringComputeAs,if_neg done,exactly]
      exact ran

theorem narrow_init (pattern : Bytes) : narrow (sstringInit pattern) = sstringInit pattern := by
  have zeros : (List.replicate MAX_OCCURANCE (0 : Int)).map wrap32 = List.replicate MAX_OCCURANCE 0 := List.map_replicate
  rw [narrow,sstringInit,zeros]

/-- The two runs over any chunks, and what `scan` has to do with them. -/
theorem exact_run (pattern : Bytes) (some_pattern : pattern ≠ []) (chunks : List Bytes) :
    ∃ ss, chunks.foldlM (sstringComputeAs id) (sstringInit pattern) = .ok ss ∧
      chunks.foldlM sstringCompute (sstringInit pattern) = .ok (narrow ss) ∧
      ss.count = ((scan pattern 0 0 chunks.flatten).take MAX_OCCURANCE).length ∧
      ss.locations = listed ((scan pattern 0 0 chunks.flatten).take MAX_OCCURANCE) := by
  have start := sstringInit_matching pattern some_pattern
  rw [← narrow_init] at start
  obtain ⟨ss,_,_,ran,matching,all⟩ := exact_keeps pattern chunks.flatten [] 0 0 _ start rfl
  refine ⟨ss,?_,?_,matching.count,all⟩
  · rw [sstringComputeAs_chunks]
    exact ran
  · rw [sstringCompute_chunks,← narrow_init,sstringCompute_narrow,ran]
    rfl

theorem recorded_listed (ss : Sstring) (found : List Nat) (count : ss.count = found.length)
    (all : ss.locations = listed found) : recorded ss = found.map (fun place : Nat => (place : Int)) := by
  have size : (found.map (fun place : Nat => (place : Int))).length = found.length := List.length_map _
  rw [recorded,all,count,listed,← size,List.take_left]

/-- What is recorded is real, and however the stream is cut the context is that of one call. -/
theorem sstringCompute_sound (pattern : Bytes) (some_pattern : pattern ≠ []) (chunks : List Bytes) :
    ∃ ss, chunks.foldlM (sstringComputeAs id) (sstringInit pattern) = .ok ss ∧
      chunks.foldlM sstringCompute (sstringInit pattern) = .ok (narrow ss) ∧
      sstringComputeAs id (sstringInit pattern) chunks.flatten = .ok ss ∧
      ss.count ≤ MAX_OCCURANCE ∧ (recorded ss).length = ss.count ∧
      (∀ l ∈ recorded ss, ∃ place : Nat, l = place ∧ (chunks.flatten.drop place).take pattern.length = pattern) ∧
      (recorded ss).Pairwise (fun first second => first+(pattern.length : Int) ≤ second) := by
  have some_length := List.length_pos_of_ne_nil some_pattern
  obtain ⟨ss,ran,cut,count,all⟩ := exact_run pattern some_pattern chunks
  have places := recorded_listed ss _ count all
  refine ⟨ss,ran,cut,by rw [← sstringComputeAs_chunks]; exact ran,?_,?_,?_,?_⟩
  · rw [count]
    exact List.length_take_le _ _
  · rw [places,List.length_map,count]
  · intro l member
    rw [places] at member
    obtain ⟨place,found,rfl⟩ := List.mem_map.mp member
    obtain ⟨k,same,begins⟩ := scan_sound pattern 0 0 chunks.flatten some_length place (List.mem_of_mem_take found)
    obtain rfl : place = k := same.trans (Nat.zero_add k)
    exact ⟨place,rfl,(List.prefix_iff_eq_take.mp begins).symm⟩
  · rw [places,List.pairwise_map]
    refine ((scan_apart pattern 0 0 chunks.flatten some_length).sublist (List.take_sublist _ _)).imp ?_
    intro first second apart
    exact_mod_cast apart

theorem sstringCompute_sound_split : ∃ ss,
    [ascii ['m','a'],[],ascii ['d','g','m','a','d']].foldlM (sstringComputeAs id) (sstringInit (ascii ['m','a','d'])) = .ok ss ∧
    recorded ss = [0,4] ∧ (recorded ss).Pairwise (fun first second => first+3 ≤ second) := by
  obtain ⟨ss,ran,_,_,_,_,_,apart⟩ := sstringCompute_sound (ascii ['m','a','d']) (by decide)
    [ascii ['m','a'],[],ascii ['d','g','m','a','d']]
  refine ⟨ss,ran,?_,apart⟩
  have computed : ([ascii ['m','a'],[],ascii ['d','g','m','a','d']].foldlM (sstringComputeAs id)
      (sstringInit (ascii ['m','a','d']))).map recorded = .ok [0,4] := by decide +kernel
  rw [ran] at computed
  exact Except.ok.inj computed

/-- The entries of `locations` are the places at which the matches start, though each was stored into an int. -/
def RecordsExactly (pattern : Bytes) (chunks : List Bytes) : Prop :=
  ∃ ss exact, chunks.foldlM sstringCompute (sstringInit pattern) = .ok ss ∧
    chunks.foldlM (sstringComputeAs id) (sstringInit pattern) = .ok exact ∧ recorded ss = recorded exact

/-- The places stored are right exactly when every match starts where an int can say. -/
theorem locations_exact (pattern : Bytes) (some_pattern : pattern ≠ []) (chunks : List Bytes) :
    RecordsExactly pattern chunks ↔
      ∀ place ∈ (scan pattern 0 0 chunks.flatten).take MAX_OCCURANCE, (place : Int) ≤ INT_MAX := by
  obtain ⟨ss,ran,cut,count,all⟩ := exact_run pattern some_pattern chunks
  have places := recorded_listed ss _ count all
  have stored : recorded (narrow ss) = (recorded ss).map wrap32 := by
    rw [recorded,recorded,List.map_take]
    rfl
  have whole : RecordsExactly pattern chunks ↔ (recorded ss).map wrap32 = recorded ss := by
    rw [RecordsExactly,ran,cut,← stored]
    constructor
    · rintro ⟨_,_,first,second,same⟩
      obtain rfl := Except.ok.inj first
      obtain rfl := Except.ok.inj second
      exact same
    · intro same
      exact ⟨_,_,rfl,rfl,same⟩
  have same : (recorded ss).map wrap32 = recorded ss ↔ ∀ l ∈ recorded ss, wrap32 l = l := by
    conv_lhs => rhs; rw [← List.map_id (recorded ss)]
    exact List.map_inj_left
  rw [whole,same,places,List.forall_mem_map]
  exact forall₂_congr fun place _ => wrap32_eq_self place (Int.natCast_nonneg place)

theorem locations_exact_twice : RecordsExactly (ascii ['m','a','d'])
    [ascii ['m','a','d','g','a','i','m','a','d'],ascii ['m','a','d','g','a','i','m','a','d']] :=
  (locations_exact (ascii ['m','a','d']) (by decide) _).mpr (by decide +kernel)

/-- A match behind 2^31 bytes is recorded at a negative place. -/
theorem locations_wrap : ∃ ss,
    sstringCompute (sstringInit (ascii ['a'])) (List.replicate (2^31) (char 'b') ++ ascii ['a']) = .ok ss ∧
    recorded ss = [-2147483648] ∧
    ¬ RecordsExactly (ascii ['a']) [List.replicate (2^31) (char 'b') ++ ascii ['a']] := by
  have late : ∀ n place, scan (ascii ['a']) 0 place (List.replicate n (char 'b') ++ ascii ['a']) = [place+n] := by
    intro n
    induction n with
    | zero => exact fun place => rfl
    | succ n ih =>
      intro place
      rw [List.replicate_succ,List.cons_append,scan,if_neg (by decide),ih (place+1),Nat.add_right_comm,Nat.add_assoc]
  obtain ⟨ss,ran,records⟩ := sstringCompute_records (ascii ['a']) (List.replicate (2^31) (char 'b') ++ ascii ['a']) [] 0 0 _
    (sstringInit_matching (ascii ['a']) (by decide))
  rw [late,List.nil_append] at records
  refine ⟨ss,ran,records,?_⟩
  rintro ⟨_,_,stored,exactly,same⟩
  obtain ⟨wide,wideRan,_,count,all⟩ := exact_run (ascii ['a']) (by decide) [List.replicate (2^31) (char 'b') ++ ascii ['a']]
  rw [List.flatten_singleton,late] at count all
  have places := recorded_listed wide _ count all
  rw [sstringCompute_chunks,List.flatten_singleton] at stored
  obtain rfl := Except.ok.inj (stored.symm.trans ran)
  obtain rfl := Except.ok.inj (exactly.symm.trans wideRan)
  rw [records,places] at same
  exact absurd same (by decide)

end Spsc.Substring
