import Spsc.Jane.Steps
import Spsc.Lib.Runs
import Spsc.Q

/-! The producer of `jane.c` built with `threaded`: a thread that reads the file into
buffers and queues them, and the main thread that takes them. What happens under `qlock`
is one step. -/
namespace Spsc.Threads
open Imperative Allocator Segment Jane Q Runs

inductive Reader where
  | looping
  | returned
  deriving DecidableEq, Repr

/-- `llen` is the reader's uninitialised variable, `shmBuffer` the buffer that the main
thread holds. `read`, `queued` and `handed`, the bytes and lengths that were read from
the file, put into the queue and handed out, are kept for the statements. An assertion that
fails stops the process inside a locked region. -/
structure State where
  useBuffers : Nat
  asgard : Asgard
  unread : Bytes
  segment : Bytes
  q : Queue
  qlock : Bool
  reader : Reader
  llen : Int
  shmBuffer : Option Int
  aborted : Option Fault
  read : List (Bytes × Int)
  queued : List (Bytes × Int)
  handed : List (Bytes × Int)
  deriving DecidableEq, Repr

def State.initial (dataPtr : Int) (buffers useBuffers : Nat) (inputFile segment : Bytes) (capacity llen : Int) :
    C State := do
  let q ← qInit capacity
  .ok { useBuffers := useBuffers
        asgard := bufferInit dataPtr (initMemory buffers)
        unread := inputFile
        segment := segment
        q := q
        qlock := false
        reader := .looping
        llen := llen
        shmBuffer := none
        aborted := none
        read := []
        queued := []
        handed := [] }

/-- A turn of one of the two loops, or a call of `free_buffers`. In a retry the main
thread drops the element that it took. -/
inductive Action where
  | keepBuffersReady
  | getReadyBuffer (failed : Bool)
  | freeBuffers
  deriving DecidableEq, Repr

namespace State
variable (s : State)

def abort (fault : Fault) : State := { s with aborted := some fault, qlock := true }

/-- The bytes of a buffer, as far as its length goes inside the segment. -/
def bytes (line sz : Int) : Bytes := (s.segment.drop (getOffset s.asgard line).toNat).take sz.toNat

/-- The reader keeps the lock when `read_input_file` has read something and returns true. -/
def keepBuffersReady : State :=
  if qFull s.q then s else
  match shmAlloc s.asgard s.useBuffers with
  | .error fault => s.abort fault
  | .ok (none,_) => s.abort .assert
  | .ok (some shmBuffer,asgard) =>
    match readInputFile s.useBuffers (getOffset asgard shmBuffer) s.unread s.segment with
    | .error fault => s.abort fault
    | .ok (some (llen,unread),segment) =>
      let s := { s with asgard := asgard, unread := unread, segment := segment, llen := llen }
      { s with reader := .returned, qlock := true, read := s.read ++ [(s.bytes shmBuffer llen,llen)] }
    | .ok (none,segment) =>
      match qAdd s.q shmBuffer s.llen with
      | .error fault => s.abort fault
      | .ok (false,_) => s.abort .assert
      | .ok (true,q) =>
        let s := { s with asgard := asgard, segment := segment, q := q }
        { s with queued := s.queued ++ [(s.bytes shmBuffer s.llen,s.llen)] }

def getReadyBuffer (failed : Bool) : State :=
  if qEmpty s.q then s else
  match qRemove s.q with
  | .error fault => s.abort fault
  | .ok (none,q) => { s with q := q }
  | .ok (some e,q) =>
    { s with
      q := q
      shmBuffer := if failed then none else some e.line
      handed := s.handed ++ [(s.bytes e.line e.sz,e.sz)] }

def freeBuffers (shmBuffer : Int) : State :=
  match shmDealloc s.asgard s.useBuffers shmBuffer with
  | .error fault => s.abort fault
  | .ok asgard => { s with asgard := asgard, shmBuffer := none }

/-- A thread that finds the lock taken waits. -/
def next (action : Action) : Option State :=
  if s.aborted.isSome ∨ s.qlock = true then none else
  match action, s.reader, s.shmBuffer with
  | .keepBuffersReady, .looping, _ => some s.keepBuffersReady
  | .getReadyBuffer failed, _, none => some (s.getReadyBuffer failed)
  | .freeBuffers, _, some shmBuffer => some (s.freeBuffers shmBuffer)
  | _, _, _ => none

def Step (s : State) (action : Action) (t : State) : Prop := s.next action = some t

end State

/-- The chunks of a file, with their lengths. -/
def chunkSequence (u : Nat) (file : Bytes) : List (Bytes × Int) :=
  (List.range ((file.length+chunkSize u-1)/chunkSize u)).map (fun k => (chunk u file k,((chunk u file k).length : Int)))

/-- What is handed out are the first chunks of the file, all that was read is queued, and
the lock is free between the turns. -/
structure InOrder (u : Nat) (file : Bytes) (s : State) : Prop where
  handed : s.handed <+: chunkSequence u file
  queued : s.read.Sublist s.queued
  unlocked : s.aborted = none → s.qlock = false

/-- A turn in which the reader reads nothing and the main thread gets nothing. -/
def Idle (s : State) : Action → Prop
  | .keepBuffersReady => qFull s.q = true ∨ s.unread = []
  | .getReadyBuffer _ => qEmpty s.q = true
  | .freeBuffers => True

theorem State.step_cases (s t : State) (action : Action) (taken : s.Step action t) :
    (s.aborted = none ∧ s.qlock = false) ∧
    ((action = .keepBuffersReady ∧ t = s.keepBuffersReady) ∨
    (∃ failed, action = .getReadyBuffer failed ∧ t = s.getReadyBuffer failed) ∨
    ∃ shmBuffer, s.shmBuffer = some shmBuffer ∧ action = .freeBuffers ∧ t = s.freeBuffers shmBuffer) := by
  unfold Step next at taken
  split at taken
  · cases taken
  · next running =>
    obtain ⟨going,free⟩ := not_or.mp running
    refine ⟨⟨Option.not_isSome_iff_eq_none.mp going,Bool.eq_false_iff.mpr free⟩,?_⟩
    split at taken
    · exact .inl ⟨rfl,(Option.some.inj taken).symm⟩
    · exact .inr (.inl ⟨_,rfl,(Option.some.inj taken).symm⟩)
    · next shmBuffer here => exact .inr (.inr ⟨shmBuffer,here,rfl,(Option.some.inj taken).symm⟩)
    · cases taken

theorem readInputFile_ended (u : Nat) (offset : Int) (segment next : Bytes) (result : Option (Int × Bytes))
    (ran : readInputFile u offset [] segment = .ok (result,next)) : result = none ∧ next.length = segment.length := by
  obtain ⟨written,wrote,rest⟩ := bind_ok _ _ _ ran
  rw [List.take_nil,if_pos rfl] at rest
  obtain ⟨rfl,rfl⟩ := Prod.mk.inj (Except.ok.inj rest)
  refine ⟨rfl,?_⟩
  rw [List.take_nil,writeBytes] at wrote
  split at wrote
  · obtain rfl := Except.ok.inj wrote
    simp
  · cases wrote

section Nothing
variable (dataPtr : Int) (buffers u : Nat) (file : Bytes)

/-- No chunk has been read and none handed out; as long as the file has something to
read, the reader has had no turn. -/
structure Nothing (s : State) : Prop where
  uses : s.useBuffers = u
  room : s.segment.length = (buffers+1)*1024
  unread : s.unread = file
  read : s.read = []
  handed : s.handed = []
  held : s.shmBuffer = none
  queue : ∃ elems, Q.Holds s.q elems
  untouched : file ≠ [] → s.asgard = freePoolInit dataPtr buffers ∧ Q.Holds s.q []

variable {dataPtr buffers u file} {s : State} (nothing : Nothing dataPtr buffers u file s)
include nothing

theorem Nothing.inOrder (unlocked : s.aborted = none → s.qlock = false) : InOrder u file s where
  handed := by rw [nothing.handed]; exact List.nil_prefix
  queued := by rw [nothing.read]; exact List.nil_sublist _
  unlocked := unlocked

theorem Nothing.abort (fault : Fault) : Nothing dataPtr buffers u file (s.abort fault) where
  uses := nothing.uses
  room := nothing.room
  unread := nothing.unread
  read := nothing.read
  handed := nothing.handed
  held := nothing.held
  queue := nothing.queue
  untouched := nothing.untouched

/-- At the end of the file the reader queues the buffer and goes on. -/
theorem Nothing.ended (ended : file = []) (free : s.qlock = false) :
    Nothing dataPtr buffers u file s.keepBuffersReady ∧
      (s.keepBuffersReady.aborted = none → s.keepBuffersReady.qlock = false) := by
  subst ended
  have aborts : ∀ fault, Nothing dataPtr buffers u [] (s.abort fault) ∧
      ((s.abort fault).aborted = none → (s.abort fault).qlock = false) :=
    fun fault => ⟨nothing.abort fault,fun none => by cases none⟩
  unfold State.keepBuffersReady
  split
  · exact ⟨nothing,fun _ => free⟩
  rw [nothing.unread]
  split
  · exact aborts _
  · exact aborts _
  next shmBuffer asgard _ =>
  split
  · exact aborts _
  · next read => cases (readInputFile_ended _ _ _ _ _ read).1
  · next segment read =>
    obtain ⟨elems,holds⟩ := nothing.queue
    obtain ⟨added,q,ran,_,kept⟩ := holds.add shmBuffer s.llen
    rw [ran]
    cases added with
    | false => exact aborts _
    | true =>
      refine ⟨?_,fun _ => free⟩
      exact { uses := nothing.uses
              room := (readInputFile_ended _ _ _ _ _ read).2.trans nothing.room
              unread := rfl
              read := nothing.read
              handed := nothing.handed
              held := nothing.held
              queue := ⟨_,kept⟩
              untouched := fun some_file => absurd rfl some_file }

variable (top : (buffers : Int) ≤ INT_MAX) (positive : 1 ≤ u) (fits : u ≤ buffers)
include top positive fits

/-- The first chunk that the reader reads is not queued, and the lock is not given back. -/
theorem Nothing.reads (some_file : file ≠ []) (room : qFull s.q = false) (going : s.aborted = none) :
    ¬ InOrder u file s.keepBuffersReady := by
  intro inOrder
  have some_left : file.take (chunkSize u) ≠ [] := by
    rw [ne_eq,List.take_eq_nil_iff]
    have := chunkSize_pos u positive
    exact fun either => either.elim (by omega) some_file
  obtain ⟨pools,_⟩ := nothing.untouched some_file
  obtain ⟨segment,ran,_,_⟩ := readInputFile_some u 1024 positive file s.segment
    (by rw [nothing.room]; omega) some_left
  have locked : s.keepBuffersReady.aborted = none ∧ s.keepBuffersReady.qlock = true := by
    unfold State.keepBuffersReady
    rw [room,nothing.uses,pools,shmAlloc_idle dataPtr buffers u top positive fits]
    simp only [Bool.false_eq_true,if_false]
    rw [offset_eq,nothing.unread,ran]
    exact ⟨going,rfl⟩
  rw [inOrder.unlocked locked.1] at locked
  cases locked.2

omit top fits in
/-- What the main thread gets then is no chunk of the file. -/
theorem Nothing.gets (failed : Bool) (waiting : qEmpty s.q = false) : ¬ InOrder u file (s.getReadyBuffer failed) := by
  intro inOrder
  obtain ⟨elems,holds⟩ := nothing.queue
  have some_elems : elems ≠ [] := fun none => by
    rw [holds.empty.mpr none] at waiting
    cases waiting
  have ended : file = [] := by
    by_contra some_file
    rw [(nothing.untouched some_file).2.empty.mpr rfl] at waiting
    cases waiting
  obtain ⟨elem,rest,rfl⟩ := List.exists_cons_of_ne_nil some_elems
  obtain ⟨q,ran,_⟩ := holds.remove
  have handed : (s.getReadyBuffer failed).handed ≠ [] := by
    unfold State.getReadyBuffer
    rw [waiting,ran]
    simp
  have none : chunkSequence u file = [] := by
    have := chunkSize_pos u positive
    rw [ended,chunkSequence,List.length_nil,Nat.zero_add,Nat.div_eq_of_lt (by omega)]
    rfl
  have inside := inOrder.handed
  rw [none] at inside
  exact handed (List.prefix_nil.mp inside)

/-- A turn keeps the order exactly when it is idle, and an idle one leaves nothing read and nothing handed out. -/
theorem Nothing.step (t : State) (action : Action) (taken : s.Step action t) :
    (InOrder u file t ↔ Idle s action) ∧ (Idle s action → Nothing dataPtr buffers u file t) := by
  obtain ⟨⟨going,free⟩,turn⟩ := s.step_cases t action taken
  rcases turn with ⟨rfl,rfl⟩ | ⟨failed,rfl,rfl⟩ | ⟨shmBuffer,held,_⟩
  · cases full : qFull s.q with
    | true =>
      have waits : s.keepBuffersReady = s := if_pos full
      rw [waits]
      exact ⟨iff_of_true (nothing.inOrder (fun _ => free)) (.inl full),fun _ => nothing⟩
    | false =>
      by_cases ended : file = []
      · obtain ⟨next,unlocked⟩ := nothing.ended ended free
        exact ⟨iff_of_true (next.inOrder unlocked) (.inr (nothing.unread.trans ended)),fun _ => next⟩
      · have busy : ¬ Idle s .keepBuffersReady := by
          rintro (stopped | none_left)
          · rw [full] at stopped
            cases stopped
          · exact ended (nothing.unread.symm.trans none_left)
        exact ⟨iff_of_false (nothing.reads top positive fits ended full going) busy,fun idle => absurd idle busy⟩
  · cases waiting : qEmpty s.q with
    | true =>
      have waits : s.getReadyBuffer failed = s := if_pos waiting
      rw [waits]
      exact ⟨iff_of_true (nothing.inOrder (fun _ => free)) waiting,fun _ => nothing⟩
    | false =>
      have busy : ¬ Idle s (.getReadyBuffer failed) := fun idle => by
        rw [Idle,waiting] at idle
        cases idle
      exact ⟨iff_of_false (nothing.gets positive failed waiting) busy,fun idle => absurd idle busy⟩
  · rw [nothing.held] at held
    cases held

end Nothing

structure Started (dataPtr : Int) (buffers : Nat) (start : State) : Prop where
  pools : start.asgard = freePoolInit dataPtr buffers
  queue : Q.Holds start.q []
  room : qFull start.q = false
  going : start.aborted = none
  free : start.qlock = false
  looping : start.reader = .looping

theorem initial_nothing (dataPtr : Int) (buffers u : Nat) (file segment : Bytes) (capacity llen : Int) (start : State)
    (room : segment.length = (buffers+1)*1024) (positive : 0 < capacity)
    (starts : State.initial dataPtr buffers u file segment capacity llen = .ok start) :
    Nothing dataPtr buffers u file start ∧ Started dataPtr buffers start := by
  obtain ⟨q,ran,some_room,holds⟩ := qInit_holds capacity positive
  unfold State.initial at starts
  rw [ran] at starts
  obtain rfl := Except.ok.inj starts
  have pools := bufferInit_members dataPtr buffers (by omega)
  rw [Int.toNat_natCast] at pools
  exact ⟨⟨rfl,room,rfl,rfl,rfl,rfl,⟨[],holds⟩,fun _ => ⟨pools,holds⟩⟩,⟨pools,holds,some_room,rfl,rfl,rfl⟩⟩

theorem Started.reads (dataPtr : Int) (buffers : Nat) (start : State) (started : Started dataPtr buffers start) :
    start.Step .keepBuffersReady start.keepBuffersReady := by
  unfold State.Step State.next
  rw [if_neg (by simp [started.going,started.free]),started.looping]

/-- On an empty file the first turn of the reader queues a buffer that nothing was read into. -/
theorem Started.queues (dataPtr : Int) (buffers u : Nat) (start : State) (started : Started dataPtr buffers start)
    (nothing : Nothing dataPtr buffers u [] start) (top : (buffers : Int) ≤ INT_MAX) (positive : 1 ≤ u) (fits : u ≤ buffers) :
    start.keepBuffersReady.aborted = none ∧ start.keepBuffersReady.qlock = false ∧
      start.keepBuffersReady.shmBuffer = none ∧ qEmpty start.keepBuffersReady.q = false := by
  obtain ⟨added,q,ran,adds,kept⟩ := started.queue.add (dataPtr+1024) start.llen
  obtain rfl := adds.mpr started.room
  have nothing_left := readInputFile_none u 1024 [] start.segment (by rw [nothing.room]; omega) List.take_nil
  unfold State.keepBuffersReady
  rw [started.room,nothing.uses,started.pools,shmAlloc_idle dataPtr buffers u top positive fits]
  simp only [Bool.false_eq_true,if_false]
  rw [offset_eq,nothing.unread,nothing_left]
  simp only [ran]
  refine ⟨started.going,started.free,nothing.held,?_⟩
  rw [Bool.eq_false_iff,ne_eq,kept.empty]
  simp

/-- The hand-off keeps the file's order exactly in the runs in which nothing is read from the
file and nothing handed out; whatever the file, some run breaks it. -/
theorem handOff_fails (dataPtr : Int) (buffers u : Nat) (file segment : Bytes) (capacity llen : Int) (start : State)
    (top : (buffers : Int) ≤ INT_MAX) (uses : 1 ≤ u ∧ u ≤ buffers) (room : segment.length = (buffers+1)*1024)
    (positive : 0 < capacity) (starts : State.initial dataPtr buffers u file segment capacity llen = .ok start) :
    (∀ trace final, Run State.Step start trace final →
      (Throughout (InOrder u file) trace final ↔ ∀ entry ∈ trace, Idle entry.1 entry.2)) ∧
    ∃ final, Reachable State.Step start final ∧ ¬ InOrder u file final := by
  obtain ⟨nothing,started⟩ := initial_nothing _ _ _ _ _ _ _ _ room positive starts
  have step := fun (s t : State) (action : Action) (facts : Nothing dataPtr buffers u file s) =>
    facts.step top uses.1 uses.2 t action
  refine ⟨fun trace final run => ?_,?_⟩
  · refine run.exact (InOrder u file) (Nothing dataPtr buffers u file) Idle
      ⟨nothing.inOrder (fun _ => started.free),nothing⟩ ?_ ?_
    · intro s action t _ facts taken
      exact (step s t action facts taken).1
    · intro s action t _ facts taken inOrder
      exact (step s t action facts taken).2 ((step s t action facts taken).1.mp inOrder)
  · by_cases some_file : file = []
    · subst some_file
      obtain ⟨going,free,held,waiting⟩ :=
        started.queues dataPtr buffers u start nothing top uses.1 uses.2
      have first := started.reads
      have next := (nothing.ended rfl started.free).1
      have second : start.keepBuffersReady.Step (.getReadyBuffer false) (start.keepBuffersReady.getReadyBuffer false) := by
        unfold State.Step State.next
        rw [if_neg (by simp [going,free]),held]
      exact ⟨_,⟨_,(Run.single _ _ _ first).append (.single _ _ _ second)⟩,next.gets uses.1 false waiting⟩
    · exact ⟨_,⟨_,Run.single _ _ _ started.reads⟩,
        nothing.reads top uses.1 uses.2 some_file started.room started.going⟩

theorem handOff_fails_empty : ∃ start final, State.initial 0 2 1 [] (List.replicate 3072 0) 1 7 = .ok start ∧
    Reachable State.Step start final ∧ ¬ InOrder 1 [] final := by
  have fails := handOff_fails 0 2 1 [] (List.replicate 3072 0) 1 7 _ (by decide) (by decide) List.length_replicate
    (by decide) rfl
  obtain ⟨final,reached,broken⟩ := fails.2
  exact ⟨_,final,rfl,reached,broken⟩

/-- The reader has returned with the lock, and the chunk it read is not in the queue. -/
theorem handOff_stuck : ∃ start final, State.initial 0 2 1 (ascii ['a','b','c']) (List.replicate 3072 0) 1 0 = .ok start ∧
    Reachable State.Step start final ∧ final.reader = .returned ∧ final.qlock = true ∧
    final.read = [(ascii ['a','b','c'],3)] ∧ final.queued = [] ∧ ¬ InOrder 1 (ascii ['a','b','c']) final := by
  obtain ⟨_,started⟩ := initial_nothing 0 2 1 (ascii ['a','b','c']) (List.replicate 3072 0) 1 0 _ List.length_replicate
    (by decide) rfl
  refine ⟨_,_,rfl,⟨_,Run.single _ _ _ started.reads⟩,by decide +kernel,by decide +kernel,by decide +kernel,
    by decide +kernel,fun inOrder => ?_⟩
  exact absurd (inOrder.unlocked (by decide +kernel)) (by decide +kernel)

end Spsc.Threads
