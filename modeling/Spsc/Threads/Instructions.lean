import Spsc.Lib.SpinLock
import Spsc.Threads

/-! The same producer with the two threads interleaved instruction by instruction.
`lock` is `while (__sync_lock_test_and_set(exclusion, 1)) while (*exclusion);`, and
between it and `unlock` each call is a step. -/
namespace Spsc.Threads
open Imperative Allocator Segment Jane Q Runs SpinLock

inductive Thread where
  | reader
  | main
  deriving DecidableEq, Repr

/-- The calls made under `qlock`. -/
inductive Point where
  | full
  | alloc
  | read (shmBuffer : Int)
  | add (shmBuffer : Int)
  | empty (failed : Bool)
  | remove (failed : Bool)
  | dealloc
  deriving DecidableEq, Repr

def Action.thread : Action → Thread
  | .keepBuffersReady => .reader
  | .getReadyBuffer _ | .freeBuffers => .main

def Action.ready (s : State) : Action → Prop
  | .keepBuffersReady => s.reader = .looping
  | .getReadyBuffer _ => s.shmBuffer = none
  | .freeBuffers => s.shmBuffer ≠ none

def Action.first : Action → Point
  | .keepBuffersReady => .full
  | .getReadyBuffer failed => .empty failed
  | .freeBuffers => .dealloc

def Point.action : Point → Action
  | .full | .alloc | .read _ | .add _ => .keepBuffersReady
  | .empty failed | .remove failed => .getReadyBuffer failed
  | .dealloc => .freeBuffers

namespace State

def call (s : State) : Point → State × After Point
  | .full => if qFull s.q then (s,.unlock) else (s,.goto .alloc)
  | .alloc =>
    match shmAlloc s.asgard s.useBuffers with
    | .error fault => (s.abort fault,.keep)
    | .ok (none,_) => (s.abort .assert,.keep)
    | .ok (some shmBuffer,asgard) => ({ s with asgard := asgard },.goto (.read shmBuffer))
  | .read shmBuffer =>
    match readInputFile s.useBuffers (getOffset s.asgard shmBuffer) s.unread s.segment with
    | .error fault => (s.abort fault,.keep)
    | .ok (some (llen,unread),segment) =>
      let s := { s with unread := unread, segment := segment, llen := llen }
      ({ s with reader := .returned, qlock := true, read := s.read ++ [(s.bytes shmBuffer llen,llen)] },.keep)
    | .ok (none,segment) => ({ s with segment := segment },.goto (.add shmBuffer))
  | .add shmBuffer =>
    match qAdd s.q shmBuffer s.llen with
    | .error fault => (s.abort fault,.keep)
    | .ok (false,_) => (s.abort .assert,.keep)
    | .ok (true,q) =>
      let s := { s with q := q }
      ({ s with queued := s.queued ++ [(s.bytes shmBuffer s.llen,s.llen)] },.unlock)
  | .empty failed => if qEmpty s.q then (s,.unlock) else (s,.goto (.remove failed))
  | .remove failed =>
    match qRemove s.q with
    | .error fault => (s.abort fault,.keep)
    | .ok (none,q) => ({ s with q := q },.unlock)
    | .ok (some e,q) =>
      ({ s with
        q := q
        shmBuffer := if failed then none else some e.line
        handed := s.handed ++ [(s.bytes e.line e.sz,e.sz)] },.unlock)
  | .dealloc =>
    match s.shmBuffer with
    | none => (s,.unlock)
    | some shmBuffer =>
      match shmDealloc s.asgard s.useBuffers shmBuffer with
      | .error fault => (s.abort fault,.keep)
      | .ok asgard => ({ s with asgard := asgard, shmBuffer := none },.unlock)

end State

def producer : Program Thread Action Point State where
  owner := Action.thread
  ready := fun action s => action.ready s
  first := Action.first
  micro := fun point s => s.call point
  halted := fun s => s.aborted ≠ none

/-- What the region has found so far, and what it has changed. -/
def Stage (base : State) : Point → State → Prop
  | .full, s => s = base
  | .alloc, s => qFull base.q = false ∧ s = base
  | .read shmBuffer, s => qFull base.q = false ∧ ∃ asgard,
      shmAlloc base.asgard base.useBuffers = .ok (some shmBuffer,asgard) ∧ s = { base with asgard := asgard }
  | .add shmBuffer, s => qFull base.q = false ∧ ∃ asgard segment,
      shmAlloc base.asgard base.useBuffers = .ok (some shmBuffer,asgard) ∧
      readInputFile base.useBuffers (getOffset asgard shmBuffer) base.unread base.segment = .ok (none,segment) ∧
      s = { base with asgard := asgard, segment := segment }
  | .empty _, s => s = base
  | .remove _, s => qEmpty base.q = false ∧ s = base
  | .dealloc, s => s = base

theorem stage_first (base : State) (action : Action) : Stage base action.first base := by cases action <;> rfl

/-- Equal, or stopped by the same assertion. -/
def Agrees (s t : State) : Prop := s = t ∨ s.aborted = t.aborted ∧ t.aborted ≠ none

def State.turn (s : State) : Action → State
  | .keepBuffersReady => s.keepBuffersReady
  | .getReadyBuffer failed => s.getReadyBuffer failed
  | .freeBuffers =>
    match s.shmBuffer with
    | none => s
    | some shmBuffer => s.freeBuffers shmBuffer

/-- A call that the region goes on from leaves it at its next stage; with the last one it is
the turn that is taken for it. -/
def Leads (base : State) (action : Action) (s : State) : After Point → Prop
  | .goto next => next.action = action ∧ Stage base next s
  | .keep => Agrees s (base.turn action) ∧ s.qlock = true
  | .unlock => Agrees s (base.turn action) ∧ s.qlock = base.qlock

theorem keepBuffersReady_leads (base s : State) (point : Point) (mine : point.action = .keepBuffersReady)
    (stage : Stage base point s) : Leads base .keepBuffersReady (s.call point).1 (s.call point).2 := by
  cases point with
  | full =>
    obtain rfl : s = base := stage
    simp only [State.call]
    split
    · next full => exact ⟨.inl (if_pos full).symm,rfl⟩
    · next room => exact ⟨rfl,Bool.eq_false_iff.mpr room,rfl⟩
  | alloc =>
    obtain ⟨room,rfl⟩ := stage
    simp only [State.call]
    split
    · next ran => exact ⟨.inl (by simp [State.turn,State.keepBuffersReady,room,ran]),rfl⟩
    · next ran => exact ⟨.inl (by simp [State.turn,State.keepBuffersReady,room,ran]),rfl⟩
    · next ran => exact ⟨rfl,room,_,ran,rfl⟩
  | read shmBuffer =>
    obtain ⟨room,asgard,granted,rfl⟩ := stage
    simp only [State.call]
    split
    · next ran => exact ⟨.inr (by simp [State.turn,State.keepBuffersReady,State.abort,room,granted,ran]),rfl⟩
    · next ran => exact ⟨.inl (by simp [State.turn,State.keepBuffersReady,room,granted,ran]),rfl⟩
    · next ran => exact ⟨rfl,room,asgard,_,granted,ran,rfl⟩
  | add shmBuffer =>
    obtain ⟨room,asgard,segment,granted,ended,rfl⟩ := stage
    simp only [State.call]
    split
    · next ran => exact ⟨.inr (by simp [State.turn,State.keepBuffersReady,State.abort,room,granted,ended,ran]),rfl⟩
    · next ran => exact ⟨.inr (by simp [State.turn,State.keepBuffersReady,State.abort,room,granted,ended,ran]),rfl⟩
    · next ran => exact ⟨.inl (by simp [State.turn,State.keepBuffersReady,room,granted,ended,ran]),rfl⟩
  | empty | remove | dealloc => cases mine

theorem getReadyBuffer_leads (base s : State) (point : Point) (failed : Bool)
    (mine : point.action = .getReadyBuffer failed) (stage : Stage base point s) :
    Leads base (.getReadyBuffer failed) (s.call point).1 (s.call point).2 := by
  cases point with
  | empty failed =>
    obtain rfl := Action.getReadyBuffer.inj mine
    obtain rfl : s = base := stage
    simp only [State.call]
    split
    · next empty => exact ⟨.inl (if_pos empty).symm,rfl⟩
    · next some_elems => exact ⟨rfl,Bool.eq_false_iff.mpr some_elems,rfl⟩
  | remove failed =>
    obtain rfl := Action.getReadyBuffer.inj mine
    obtain ⟨some_elems,rfl⟩ := stage
    simp only [State.call]
    split
    all_goals next ran => exact ⟨.inl (by simp [State.turn,State.getReadyBuffer,some_elems,ran]),rfl⟩
  | full | alloc | read | add | dealloc => cases mine

theorem freeBuffers_leads (base s : State) (stage : Stage base .dealloc s) :
    Leads base .freeBuffers (s.call .dealloc).1 (s.call .dealloc).2 := by
  obtain rfl : s = base := stage
  simp only [State.call]
  split
  · next none_held => exact ⟨.inl (by simp [State.turn,none_held]),rfl⟩
  · next held =>
    split
    all_goals next ran => exact ⟨.inl (by simp [State.turn,State.freeBuffers,held,ran]),rfl⟩

/-- The calls of a region, made one after the other, are the turn that is taken for it. -/
theorem call_leads (base s : State) (point : Point) (stage : Stage base point s) :
    Leads base point.action (s.call point).1 (s.call point).2 := by
  cases here : point.action with
  | keepBuffersReady => exact keepBuffersReady_leads base s point here stage
  | getReadyBuffer failed => exact getReadyBuffer_leads base s point failed here stage
  | freeBuffers =>
    cases point with
    | dealloc => exact freeBuffers_leads base s stage
    | full | alloc | read | add | empty | remove => cases here

theorem within_stage (base s : State) (action : Action) (point : Point)
    (within : Within producer action base point s) : point.action = action ∧ Stage base point s := by
  induction within with
  | enter => exact ⟨by cases action <;> rfl,stage_first base action⟩
  | goes point next s _ on ih =>
    have leads := call_leads base s point ih.2
    rw [show (s.call point).2 = .goto next from on] at leads
    exact ⟨leads.1.trans ih.1,leads.2⟩

theorem call_shmBuffer (s : State) (point : Point) (mine : point.action.thread = .reader) :
    (s.call point).1.shmBuffer = s.shmBuffer := by
  cases point with
  | full | alloc | read | add => simp only [State.call]; split <;> rfl
  | empty | remove | dealloc => cases mine

theorem call_reader (s : State) (point : Point) (mine : point.action.thread = .main) :
    (s.call point).1.reader = s.reader := by
  cases point with
  | full | alloc | read | add => cases mine
  | empty | remove => simp only [State.call]; split <;> rfl
  | dealloc =>
    simp only [State.call]
    split
    · rfl
    · split <;> rfl

theorem producer_private : Private producer := by
  intro action other base point s apart within ready
  obtain ⟨rfl,_⟩ := within_stage base s other point within
  change action.thread ≠ point.action.thread at apart
  change action.ready (s.call point).1
  change action.ready s at ready
  cases action with
  | keepBuffersReady =>
    have mine : point.action.thread = .main := by
      cases here : point.action.thread with
      | main => rfl
      | reader => exact absurd here.symm apart
    exact (call_reader s point mine).trans ready
  | getReadyBuffer | freeBuffers =>
    have mine : point.action.thread = .reader := by
      cases here : point.action.thread with
      | reader => rfl
      | main => exact absurd here.symm apart
    simp only [Action.ready] at ready ⊢
    rwa [call_shmBuffer s point mine]

theorem step_turn (s : State) (action : Action) (going : s.aborted = none) (free : s.qlock = false)
    (ready : action.ready s) : s.Step action (s.turn action) := by
  unfold State.Step State.next
  rw [if_neg (by simp [going,free])]
  cases action with
  | keepBuffersReady =>
    have looping : s.reader = .looping := ready
    rw [looping]
    rfl
  | getReadyBuffer failed =>
    have none_held : s.shmBuffer = none := ready
    rw [none_held]
    cases s.reader <;> rfl
  | freeBuffers =>
    obtain ⟨shmBuffer,held⟩ := Option.ne_none_iff_exists'.mp ready
    simp only [State.turn,held]

theorem whole_turn (base s : State) (point : Point) (locked : Bool) (free : base.qlock = false)
    (stage : Stage base point s) (outcome : (s.call point).2 = bif locked then .keep else .unlock) :
    Agrees (s.call point).1 (base.turn point.action) ∧ (s.call point).1.qlock = locked := by
  have leads := call_leads base s point stage
  rw [outcome] at leads
  cases locked with
  | true => exact leads
  | false => exact ⟨leads.1,leads.2.trans free⟩

/-- What whole regions reach from `start`, and with it the steps of `next`. -/
def Follows (start s : State) (keeper : Option Thread) : Prop :=
  s.qlock = keeper.isSome ∧ ∃ base, Reachable State.Step start base ∧ Agrees s base

theorem atomic_follows (start s t : State) (before after : Option Thread) (action : Action)
    (follows : Follows start s before) (region : Atomic producer (s,before) action (t,after)) :
    Follows start t after := by
  obtain ⟨held,base,⟨trace,run⟩,agrees⟩ := follows
  cases region with
  | region _ _ locked _ going ready whole =>
    have alive : s.aborted = none := not_not.mp going
    obtain rfl : s = base := by
      rcases agrees with same | ⟨stopped,aborted⟩
      · exact same
      · exact absurd (stopped.symm.trans alive) aborted
    obtain ⟨point,last,within,rfl,outcome⟩ := whole
    obtain ⟨rfl,stage⟩ := within_stage s last action point within
    obtain ⟨same,lock⟩ := whole_turn s last point locked held stage outcome
    refine ⟨?_,_,⟨_,.snoc _ _ _ _ run (step_turn s point.action alive held ready)⟩,same⟩
    rw [show (producer.micro point last).1.qlock = locked from lock]
    cases locked <;> rfl

/-- Interleaved instruction by instruction, at most one thread is between `lock` and
`unlock` at a time, and what is done there is done as by single steps. -/
theorem regions_atomic (start : State) (free : start.qlock = false)
    (trace : List (Machine Thread Action Point State × Thread)) (final : Machine Thread Action Point State)
    (run : Run (SpinLock.Step producer) (SpinLock.start start) trace final) :
    (∀ i j, (final.place i).Holds → (final.place j).Holds → i = j) ∧
    (final.word = true ↔ ∃ i, (final.place i).Holds) ∧
    ∃ base, Reachable State.Step start base ∧
      ((∀ i action point, final.place i ≠ .inside action point) → Agrees final.memory base) := by
  obtain ⟨settled,keeper,regions,guarded⟩ := run_atomic producer_private start final ⟨trace,run⟩
  have follows : Follows start settled keeper := by
    refine regions.invariant (fun s => Follows start s.1 s.2) ⟨free,start,⟨[],.nil⟩,.inl rfl⟩ ?_
    intro s action t follows region
    exact atomic_follows start s.1 t.1 s.2 t.2 action follows region
  obtain ⟨_,base,reached,agrees⟩ := follows
  exact ⟨guarded.exclusive,guarded.word,base,reached,fun none_inside => guarded.settled none_inside ▸ agrees⟩

/-- Both threads call `lock`, and the reader is first. -/
theorem contended (start : State) (going : start.aborted = none) (looping : start.reader = .looping)
    (none_held : start.shmBuffer = none) :
    ∃ final, Reachable (SpinLock.Step producer) (SpinLock.start start) final ∧
      final.place .reader = .inside .keepBuffersReady .full ∧ final.place .main = .spin (.getReadyBuffer false) := by
  have alive : ¬ producer.halted start := not_not.mpr going
  have one := Step.calls (p := producer) (SpinLock.start start) .keepBuffersReady alive rfl looping
  have two := Step.calls (p := producer) ((SpinLock.start start).move .reader (.testAndSet .keepBuffersReady))
    (.getReadyBuffer false) alive rfl none_held
  have three := Step.takes (p := producer) (((SpinLock.start start).move .reader (.testAndSet .keepBuffersReady)).move
    .main (.testAndSet (.getReadyBuffer false))) .reader .keepBuffersReady alive rfl rfl
  exact ⟨_,⟨_,(((Run.single _ _ _ one).append (.single _ _ _ two)).append (.single _ _ _ three)).append
    (.single _ _ _ (.finds _ .main (.getReadyBuffer false) alive rfl rfl))⟩,rfl,rfl⟩

theorem regions_atomic_contended : ∃ start final, Reachable (SpinLock.Step producer) (SpinLock.start start) final ∧
    final.place .main = .spin (.getReadyBuffer false) ∧ final.word = true ∧
    ∀ i, (final.place i).Holds → i = .reader := by
  obtain ⟨final,⟨trace,run⟩,inside,waiting⟩ := contended
    ⟨1,freePoolInit 0 2,[],[],⟨1,0,0,0,[none]⟩,false,.looping,0,none,none,[],[],[]⟩ rfl rfl rfl
  obtain ⟨exclusive,word,_⟩ := regions_atomic _ rfl trace final run
  have holds : (final.place .reader).Holds := Place.inside_holds _ _ _ inside
  exact ⟨_,final,⟨trace,run⟩,waiting,word.mpr ⟨.reader,holds⟩,fun i mine => exclusive i .reader mine holds⟩

theorem stage_frame (base s : State) (point : Point) (stage : Stage base point s) :
    s.aborted = base.aborted ∧ s.queued = base.queued ∧ s.handed = base.handed ∧ s.read = base.read := by
  cases point with
  | full | empty | dealloc =>
    obtain rfl : s = base := stage
    exact ⟨rfl,rfl,rfl,rfl⟩
  | alloc | remove =>
    obtain ⟨_,rfl⟩ := stage
    exact ⟨rfl,rfl,rfl,rfl⟩
  | read =>
    obtain ⟨_,_,_,rfl⟩ := stage
    exact ⟨rfl,rfl,rfl,rfl⟩
  | add =>
    obtain ⟨_,_,_,_,_,rfl⟩ := stage
    exact ⟨rfl,rfl,rfl,rfl⟩

section Stalls
variable {dataPtr : Int} {buffers u : Nat} {file : Bytes} {start : State}
  (nothing : Nothing dataPtr buffers u file start) (started : Started dataPtr buffers start)
  (top : (buffers : Int) ≤ INT_MAX) (positive : 1 ≤ u) (fits : u ≤ buffers) (some_file : file ≠ [])
include nothing started top positive fits some_file

theorem first_turn : start.keepBuffersReady.aborted = none ∧ start.keepBuffersReady.qlock = true ∧
    start.keepBuffersReady.queued = start.queued ∧ start.keepBuffersReady.handed = start.handed ∧
    start.keepBuffersReady.read = [(chunk u file 0,((chunk u file 0).length : Int))] := by
  have first : chunk u file 0 = file.take (chunkSize u) := by rw [chunk,Nat.zero_mul,List.drop_zero]
  have some_left : file.take (chunkSize u) ≠ [] := by
    rw [ne_eq,List.take_eq_nil_iff]
    have := chunkSize_pos u positive
    exact fun either => either.elim (by omega) some_file
  obtain ⟨segment,ran,holds,_⟩ := readInputFile_some u 1024 positive file start.segment
    (by rw [nothing.room]; omega) some_left
  unfold State.keepBuffersReady
  rw [started.room,nothing.uses,started.pools,shmAlloc_idle dataPtr buffers u top positive fits]
  simp only [Bool.false_eq_true,if_false]
  rw [offset_eq,nothing.unread,ran]
  refine ⟨started.going,rfl,rfl,rfl,?_⟩
  simp only [nothing.read,List.nil_append,State.bytes,first,offset_eq,Int.toNat_natCast]
  obtain ⟨front,rest,rfl,size⟩ := holds
  rw [List.drop_append_of_le_length size.ge,List.drop_of_length_le size.le,List.nil_append,List.take_left]

theorem first_whole : Whole producer .keepBuffersReady start start.keepBuffersReady true := by
  have some_left : file.take (chunkSize u) ≠ [] := by
    rw [ne_eq,List.take_eq_nil_iff]
    have := chunkSize_pos u positive
    exact fun either => either.elim (by omega) some_file
  obtain ⟨segment,ran,_⟩ := readInputFile_some u 1024 positive file start.segment
    (by rw [nothing.room]; omega) some_left
  have granted := shmAlloc_idle dataPtr buffers u top positive fits
  have full : start.call .full = (start,.goto .alloc) := by
    simp only [State.call,started.room,Bool.false_eq_true,if_false]
  have alloc : start.call .alloc =
      ({ start with asgard := lent dataPtr buffers u },.goto (.read (dataPtr+1024))) := by
    simp only [State.call,nothing.uses,started.pools,granted]
  have read : (State.call { start with asgard := lent dataPtr buffers u } (.read (dataPtr+1024))) =
      (start.keepBuffersReady,.keep) := by
    simp only [State.call,State.keepBuffersReady,started.room,nothing.uses,started.pools,granted,offset_eq,
      nothing.unread,ran,Bool.false_eq_true,if_false]
  have one : Within producer .keepBuffersReady start .alloc (start.call .full).1 :=
    Within.goes (p := producer) Point.full Point.alloc start .enter (congrArg Prod.snd full)
  rw [full] at one
  have two : Within producer .keepBuffersReady start (.read (dataPtr+1024)) (start.call .alloc).1 :=
    Within.goes (p := producer) Point.alloc _ start one (congrArg Prod.snd alloc)
  rw [alloc] at two
  exact ⟨_,_,two,congrArg Prod.fst read,congrArg Prod.snd read⟩

/-- What whole regions make of it: nothing, or the reader's first turn. -/
def Stalled (start s : State) (keeper : Option Thread) : Prop :=
  s = start ∧ keeper = none ∨ s = start.keepBuffersReady ∧ keeper = some .reader

theorem atomic_stalled (s t : State) (before after : Option Thread) (action : Action)
    (stalled : Stalled start s before) (region : Atomic producer (s,before) action (t,after)) :
    Stalled start t after := by
  obtain ⟨going,taken,_⟩ := first_turn nothing started top positive fits some_file
  cases region with
  | region _ _ locked _ _ ready whole =>
    obtain ⟨rfl,_⟩ := stalled.resolve_right (fun kept => by cases kept.2)
    obtain ⟨point,last,within,rfl,outcome⟩ := whole
    obtain ⟨rfl,stage⟩ := within_stage s last action point within
    obtain ⟨same,lock⟩ := whole_turn s last point locked started.free stage outcome
    change Stalled s (last.call point).1 _
    have settles : ∀ t : State, t.aborted = none → Agrees (last.call point).1 t → (last.call point).1 = t :=
      fun t alive agrees => agrees.resolve_right (fun stopped => stopped.2 alive)
    cases turn : point.action with
    | keepBuffersReady =>
      rw [turn] at same
      have moved := settles _ going same
      rw [moved] at lock
      rw [moved,← lock,taken]
      exact .inr ⟨rfl,rfl⟩
    | getReadyBuffer failed =>
      have idle : s.getReadyBuffer failed = s := if_pos (started.queue.empty.mpr rfl)
      rw [turn] at same
      have moved : (last.call point).1 = s := settles s started.going (idle ▸ same)
      rw [moved] at lock
      rw [moved,← lock,started.free]
      exact .inl ⟨rfl,rfl⟩
    | freeBuffers =>
      rw [turn] at ready
      exact absurd nothing.held ready

variable {final : Machine Thread Action Point State}
  (reached : Reachable (SpinLock.Step producer) (SpinLock.start start) final)
include reached

theorem stalled_memory : ∃ base keeper, Guarded producer base keeper final ∧ Stalled start base keeper := by
  obtain ⟨base,keeper,regions,guarded⟩ := run_atomic producer_private start final reached
  refine ⟨base,keeper,guarded,?_⟩
  refine regions.invariant (fun s => Stalled start s.1 s.2) (.inl ⟨rfl,rfl⟩) ?_
  intro s action t stalled region
  exact atomic_stalled nothing started top positive fits some_file s.1 t.1 s.2 t.2 action stalled region

/-- As long as the reader has not kept the lock, all is as at the start. -/
theorem before_turn (untaken : final.place .reader ≠ .kept) :
    final.memory.aborted = start.aborted ∧ final.memory.queued = start.queued ∧
      final.memory.handed = start.handed ∧ final.memory.read = start.read := by
  obtain ⟨base,keeper,guarded,stalled⟩ := stalled_memory nothing started top positive fits some_file reached
  obtain ⟨rfl,rfl⟩ : base = start ∧ keeper = none :=
    stalled.resolve_right (fun kept => untaken ((guarded.keeper .reader).mp kept.2))
  by_cases outcome : ∀ i action point, final.place i ≠ .inside action point
  · rw [guarded.settled outcome]
    exact ⟨rfl,rfl,rfl,rfl⟩
  · simp only [not_forall,not_not] at outcome
    obtain ⟨i,action,point,here⟩ := outcome
    obtain ⟨_,_,_,within⟩ := guarded.inside i action point here
    exact stage_frame base final.memory point (within_stage base final.memory action point within).2

theorem after_turn (taken : final.place .reader = .kept) :
    final.memory = start.keepBuffersReady ∧ ¬ (final.place .main).Holds := by
  obtain ⟨base,keeper,guarded,stalled⟩ := stalled_memory nothing started top positive fits some_file reached
  have keeps := (guarded.keeper .reader).mpr taken
  obtain ⟨rfl,_⟩ := stalled.resolve_left (fun untaken => by rw [untaken.2] at keeps; cases keeps)
  have holds : (final.place .reader).Holds := by
    rw [taken]
    trivial
  refine ⟨guarded.settled fun i action point here => ?_,guarded.others .reader .main holds (by decide)⟩
  obtain rfl := guarded.exclusive i .reader (Place.inside_holds _ action point here) holds
  rw [taken] at here
  cases here

omit reached in
theorem first_reached : ∃ final, Reachable (SpinLock.Step producer) (SpinLock.start start) final ∧
    final.memory = start.keepBuffersReady ∧ final.place .reader = .kept := by
  have whole := first_whole nothing started top positive fits some_file
  have going : ∀ point s, Within producer .keepBuffersReady start point s → ¬ producer.halted s := by
    intro point s within
    have frame := (stage_frame start s point (within_stage start s _ point within).2).1
    exact not_not.mpr (frame.trans started.going)
  exact Whole.run (s := SpinLock.start start) Action.keepBuffersReady _ true whole going started.looping rfl rfl

end Stalls

/-- On a file that is not empty no chunk is ever queued or handed out, whatever the
interleaving: once the reader has read the first one, the lock is never free again. -/
theorem threaded_stalls (dataPtr : Int) (buffers u : Nat) (file segment : Bytes) (capacity llen : Int) (start : State)
    (top : (buffers : Int) ≤ INT_MAX) (uses : 1 ≤ u ∧ u ≤ buffers) (room : segment.length = (buffers+1)*1024)
    (positive : 0 < capacity) (some_file : file ≠ [])
    (starts : State.initial dataPtr buffers u file segment capacity llen = .ok start) :
    (∀ trace final, Run (SpinLock.Step producer) (SpinLock.start start) trace final →
      final.memory.aborted = none ∧ final.memory.queued = [] ∧ final.memory.handed = [] ∧
      (final.memory.read ≠ [] → final.memory.read = [(chunk u file 0,((chunk u file 0).length : Int))] ∧
        ∀ future later, Run (SpinLock.Step producer) final future later →
          later.memory = final.memory ∧ later.word = true ∧ ¬ (later.place .main).Holds)) ∧
    ∃ final, Reachable (SpinLock.Step producer) (SpinLock.start start) final ∧ final.memory.read ≠ [] := by
  obtain ⟨nothing,started⟩ := initial_nothing _ _ _ _ _ _ _ _ room positive starts
  have queued : start.queued = [] := by
    obtain ⟨q,ran,_⟩ := qInit_holds capacity positive
    unfold State.initial at starts
    rw [ran] at starts
    obtain rfl := Except.ok.inj starts
    rfl
  obtain ⟨going,_,same,handed,read⟩ := first_turn nothing started top uses.1 uses.2 some_file
  refine ⟨fun trace final run => ?_,?_⟩
  · by_cases taken : final.place .reader = .kept
    · obtain ⟨settled,_⟩ := after_turn nothing started top uses.1 uses.2 some_file ⟨trace,run⟩ taken
      rw [settled]
      refine ⟨going,same.trans queued,handed.trans nothing.handed,fun _ => ⟨read,fun future later after => ?_⟩⟩
      have still : later.place .reader = .kept := (show Reachable _ _ _ from ⟨future,after⟩).invariant
        (fun s => s.place .reader = .kept) taken (fun s i t kept step => step.kept i .reader kept)
      have whole : Reachable (SpinLock.Step producer) (SpinLock.start start) later := ⟨_,run.append after⟩
      obtain ⟨memory,out⟩ := after_turn nothing started top uses.1 uses.2 some_file whole still
      obtain ⟨base,keeper,guarded,_⟩ := stalled_memory nothing started top uses.1 uses.2 some_file whole
      exact ⟨memory,guarded.word.mpr ⟨.reader,by rw [still]; trivial⟩,out⟩
    · obtain ⟨alive,none_queued,none_handed,none_read⟩ :=
        before_turn nothing started top uses.1 uses.2 some_file ⟨trace,run⟩ taken
      refine ⟨alive.trans started.going,none_queued.trans queued,none_handed.trans nothing.handed,fun some_read => ?_⟩
      exact absurd (none_read.trans nothing.read) some_read
  · obtain ⟨final,reached,settled,_⟩ := first_reached nothing started top uses.1 uses.2 some_file
    refine ⟨final,reached,?_⟩
    rw [settled,read]
    exact List.cons_ne_nil _ _

theorem threaded_stalls_abc : ∃ start final,
    State.initial 0 2 1 (ascii ['a','b','c']) (List.replicate 3072 0) 1 0 = .ok start ∧
    Reachable (SpinLock.Step producer) (SpinLock.start start) final ∧ final.memory.read = [(ascii ['a','b','c'],3)] ∧
    final.memory.handed = [] := by
  obtain ⟨runs,final,⟨trace,run⟩,some_read⟩ := threaded_stalls 0 2 1 (ascii ['a','b','c']) (List.replicate 3072 0) 1 0 _
    (by decide) (by decide) List.length_replicate (by decide) (by decide) rfl
  obtain ⟨_,_,handed,first⟩ := runs trace final run
  exact ⟨_,final,rfl,⟨trace,run⟩,(first some_read).1,handed⟩

end Spsc.Threads
