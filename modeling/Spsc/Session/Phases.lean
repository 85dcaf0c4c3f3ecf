import Spsc.Session.Order

/-! A session in which nothing fails: where the exchange stands, and how many calls may
still be made. -/
namespace Spsc.Session
open Imperative Hash Wire Segment Runs
open Spsc.Jane (chunk chunkSize Kept)

def chunkCount (u : Nat) (file : Bytes) : Nat := (file.length+chunkSize u-1)/chunkSize u

theorem lt_chunkCount (u : Nat) (positive : 1 ≤ u) (file : Bytes) (k : Nat) :
    k < chunkCount u file ↔ chunk u file k ≠ [] := by
  have size := Jane.chunkSize_pos u positive
  rw [ne_eq,Jane.chunk_eq_nil u positive,List.drop_eq_nil_iff,Nat.not_le,chunkCount,Nat.lt_iff_add_one_le,
    Nat.le_div_iff_mul_le size,Nat.succ_mul]
  omega

theorem drained_chunks {u : Nat} {file : Bytes} {jane : Jane.Client} (positive : 1 ≤ u)
    (drained : Jane.Drained u file jane) : jane.chunks = chunkCount u file := by
  have all_read : ¬ jane.chunks < chunkCount u file := by
    rw [lt_chunkCount u positive file jane.chunks]
    exact not_not_intro drained.all_read
  have last := fun less => (lt_chunkCount u positive file (jane.chunks-1)).mpr (drained.last _ less)
  omega

/-- What is on the way on the one connection. -/
structure OnLine (s : State) (toThor toJane : Bytes) (closed : Bool) : Prop where
  opened : s.opened = 1
  toThor : (s.wire 0).toThor = toThor
  toJane : (s.wire 0).toJane = toJane
  closed : (s.wire 0).closed = closed

/-- Thor has read `stored` of what he was sent, with the calls of `server_accept` that are left. -/
inductive Reads (s : State) (stored : Bytes) : Nat → Prop
  | waiting (accepted : s.accepted = 0) (place : s.thor.place = .accept) (nothing : stored = []) : Reads s stored 1
  | reading (accepted : s.accepted = 1) (place : s.thor.place = .receive (holding stored)) : Reads s stored 0

section Phases
variable (text : Bytes) (s : State)

/-- The phases between Jane's frame and her comparison, with the calls that may still be made
until then. `stopped` is where the search has gone outside its arrays. -/
inductive Asking (receiver : Receiver) : Nat → Prop
  | asked (fresh : receiver = .start) (stored rest : Bytes) (n : Nat) (reads : Reads s stored n)
      (online : OnLine s rest [] false) (cut : stored ++ rest = framed text) (some_rest : rest ≠ []) :
      Asking receiver (97+rest.length+n)
  | handling (fresh : receiver = .start) (accepted : s.accepted = 1) (thor : s.thor.place = .handle text)
      (online : OnLine s [] [] false) : Asking receiver 97
  | answered (stored rest : Bytes) (received : receiver = holding stored) (reads : Reads s [] 0)
      (online : OnLine s [] rest false) (cut : stored ++ rest = framed text) (some_rest : rest ≠ []) :
      Asking receiver (11+rest.length)
  | stopped (fresh : receiver = .start) (thor : s.thor.place = .aborted .bounds) (online : OnLine s [] [] false) :
      Asking receiver 0

/-- The phases behind the last chunk. -/
inductive Leaving : Nat → Prop
  | ended (stored rest : Bytes) (n : Nat) (reads : Reads s stored n) (online : OnLine s rest [] true)
      (cut : stored ++ rest = DONE_TRANS ++ [0]) : Leaving (rest.length+1+n)
  | gone (opened : s.opened = 1) (accepted : s.accepted = 1) (thor : s.thor.place = .accept) : Leaving 0

structure Still (calls n : Nat) : Prop where
  online : OnLine s [] [] false
  reads : ∃ waiting, Reads s [] waiting ∧ n = calls+waiting

/-- Where the exchange stands, with the calls that may still be made before the next chunk. -/
def Phase (n : Nat) : Jane.Place → Prop
  | .start => s.opened = 0 ∧ s.accepted = 0 ∧ s.thor.place = .accept ∧ n = 13
  | .loop => Still s (if s.jane.finishedReading then 11 else 10) n
  | .send => Still s 183 n
  | .receive receiver => Asking text s receiver n
  | .finish => Still s 9 n
  | .finished => Leaving s n
  | .aborted _ => False

end Phases

section Moves
variable {s : State} {line : Connection} {jane : Jane.Client} {answer : Option Bool}

theorem setJane_wire (opened : s.opened = 1) : (s.setJane line jane answer).wire 0 = line := by
  have own := setJane_line s line jane answer
  unfold State.line at own
  rwa [show (s.setJane line jane answer).opened = s.opened from rfl,opened] at own

theorem line_wire (opened : s.opened = 1) : s.line = s.wire 0 := by rw [State.line,opened]

theorem heard_wire (accepted : s.accepted = 1) : s.heard = s.wire 0 := by rw [State.heard,accepted]

theorem OnLine.setJane {toThor toJane : Bytes} {closed : Bool} (opened : s.opened = 1) (sent : line.toThor = toThor)
    (left : line.toJane = toJane) (flag : line.closed = closed) : OnLine (s.setJane line jane answer) toThor toJane closed where
  opened := opened
  toThor := by rw [setJane_wire opened,sent]
  toJane := by rw [setJane_wire opened,left]
  closed := by rw [setJane_wire opened,flag]

theorem Reads.congr {t : State} {stored : Bytes} {n : Nat} (reads : Reads s stored n) (accepted : t.accepted = s.accepted)
    (place : t.thor.place = s.thor.place) : Reads t stored n := by
  cases reads with
  | waiting none_accepted here nothing => exact .waiting (accepted.trans none_accepted) (place.trans here) nothing
  | reading one_accepted here => exact .reading (accepted.trans one_accepted) (place.trans here)

theorem setHeard_wire (accepted : s.accepted = 1) (heard : Connection) : (s.setHeard heard).wire 0 = heard := by
  simp [State.setHeard,accepted]

theorem OnLine.heard {toThor toJane : Bytes} {closed : Bool} (online : OnLine s toThor toJane closed)
    (accepted : s.accepted = 1) : s.heard.toThor = toThor ∧ s.heard.toJane = toJane ∧ s.heard.closed = closed := by
  rw [heard_wire accepted]
  exact ⟨online.toThor,online.toJane,online.closed⟩

/-- What is on the way depends on the connection and their number alone. -/
theorem OnLine.congr {t : State} {toThor toJane : Bytes} {closed : Bool} (online : OnLine s toThor toJane closed)
    (opened : t.opened = s.opened) (wire : t.wire 0 = s.wire 0) : OnLine t toThor toJane closed where
  opened := opened.trans online.opened
  toThor := by rw [wire,online.toThor]
  toJane := by rw [wire,online.toJane]
  closed := by rw [wire,online.closed]

theorem OnLine.setHeard {toThor toJane : Bytes} {closed : Bool} (opened : s.opened = 1) (accepted : s.accepted = 1)
    (heard : Connection) (sent : heard.toThor = toThor) (left : heard.toJane = toJane) (flag : heard.closed = closed) :
    OnLine (s.setHeard heard) toThor toJane closed where
  opened := opened
  toThor := by rw [setHeard_wire accepted,sent]
  toJane := by rw [setHeard_wire accepted,left]
  closed := by rw [setHeard_wire accepted,flag]

theorem OnLine.setThor {toThor toJane : Bytes} {closed : Bool} (online : OnLine s toThor toJane closed)
    (accepted : s.accepted = 1) (place : Thor.Place) (rest : Bytes) : OnLine (s.setThor place rest) rest toJane closed := by
  obtain ⟨_,left,flag⟩ := online.heard accepted
  exact (OnLine.setHeard online.opened accepted { s.heard with toThor := rest } rfl left flag).congr rfl rfl

end Moves
/-- A `recv` of some bytes of what is left of a frame: more is to come, or the frame is there. -/
theorem receive_left (checkDone : Bool) (text stored rest : Bytes) (count : Nat) (framable : Framable text)
    (quiet : checkDone = true → Search.find DONE_TRANS (framed text) = none) (some_count : 1 ≤ count)
    (cut : stored ++ rest = framed text) (some_rest : rest ≠ []) :
    (∃ piece left, rest = piece ++ left ∧ piece ≠ [] ∧ left ≠ [] ∧
      rest.drop (min count (holding stored).maxlen) = left ∧
      receive memmove checkDone (holding stored) (rest.take (min count (holding stored).maxlen)) =
        .ok (.again (holding (stored ++ piece)))) ∨
    (rest.drop (min count (holding stored).maxlen) = [] ∧
      receive memmove checkDone (holding stored) (rest.take (min count (holding stored).maxlen)) = .ok (.frame text)) := by
  have size := congrArg List.length cut
  rw [framed_length,List.length_append] at size
  have short := framable.short
  have positive : 0 < min count (holding stored).maxlen := by
    simp only [holding]
    have := List.length_pos_of_ne_nil some_rest
    omega
  generalize min count (holding stored).maxlen = taken at *
  have split : rest.take taken ++ rest.drop taken = rest := List.take_append_drop _ _
  have some_piece : rest.take taken ≠ [] := by
    rw [ne_eq,List.take_eq_nil_iff,not_or]
    exact ⟨by omega,some_rest⟩
  by_cases all : rest.drop taken = []
  · rw [all,List.append_nil] at split
    refine .inr ⟨all,receive_last checkDone text framable quiet stored _ some_piece ?_⟩
    rw [split,cut]
  · refine .inl ⟨_,_,split.symm,some_piece,all,rfl,receive_more checkDone text framable quiet stored _ _ some_piece all ?_⟩
    rw [List.append_assoc,split,cut]

section Steps
variable {md5 : Bytes → Digest} {dataPtr : Int} {buffers u : Nat} {file : Bytes} {repeats : Nat} {s : State}

theorem framed_current_length (high : u ≤ 102399) (s : State) : (framed (current md5 u file s)).length ≤ 85 := by
  have short := Jane.chunk_length_le u file (s.jane.chunks-1)
  unfold chunkSize BIG_ENOUGH at short
  have size := fields_length 1 1024 (chunk u file (s.jane.chunks-1)).length
    (digestText md5 (chunk u file (s.jane.chunks-1))) (by decide) (by decide) (by omega)
  rw [digestText_length] at size
  rw [framed_length]
  exact Nat.add_le_add_right size 20

variable (md5 u file) in
/-- What Jane has not read of the file and the phase that she is in bound the calls that are left. -/
def Remaining (n : Nat) (s : State) : Prop :=
  ∃ stage, Phase (current md5 u file s) s stage s.jane.place ∧ n = 173*(chunkCount u file-s.jane.chunks)+stage

theorem Remaining.less {t : State} {n stage stage' : Nat} (counted : n = 173*(chunkCount u file-s.jane.chunks)+stage)
    (same : t.jane.chunks = s.jane.chunks) (phase : Phase (current md5 u file s) t stage' t.jane.place)
    (less : stage' < stage) : ∃ m < n, Remaining md5 u file m t := by
  have still : current md5 u file t = current md5 u file s := by rw [current,current,same]
  rw [← still] at phase
  refine ⟨_,?_,stage',phase,rfl⟩
  rw [same]
  omega

theorem Still.congr {t : State} {calls n : Nat} (still : Still s calls n) (thor : t.thor = s.thor)
    (accepted : t.accepted = s.accepted) (online : OnLine t [] [] false) (calls' : Nat) :
    ∃ waiting, n = calls+waiting ∧ Still t calls' (calls'+waiting) := by
  obtain ⟨waiting,reads,counted⟩ := still.reads
  exact ⟨waiting,counted,online,waiting,reads.congr accepted (by rw [thor]),rfl⟩

variable (delivery : Delivery md5 dataPtr buffers u file repeats s) {stage : Nat}

include delivery in
theorem Phase.connect (here : s.jane.place = .start) (phase : Phase (current md5 u file s) s stage .start) :
    ∃ stage' < stage, Phase (current md5 u file s) s.connect stage' .loop := by
  obtain ⟨opened,accepted,thor,rfl⟩ := phase
  have reading : s.jane.finishedReading = true := by
    cases delivery.inv.situation with
    | fresh facts => exact facts.reading
    | loaded facts => exact facts.reading
    | drained _ elsewhere => simp [here] at elsewhere
  refine ⟨12,by decide,?_⟩
  have calls : (if s.connect.jane.finishedReading then 11 else 10) = 11 := if_pos reading
  rw [Phase,calls]
  have empty : s.connect.wire 0 = ⟨[],[],false,[]⟩ := by
    simp [State.connect,opened]
  refine ⟨⟨?_,?_,?_,?_⟩,1,.waiting accepted thor rfl,rfl⟩
  · change s.opened+1 = 1
    rw [opened]
  all_goals rw [empty]

theorem nextBuffer_done (md5 : Bytes → Digest) (jane : Jane.Client) (segment : Bytes) (done : jane.finishedReading = false) :
    Jane.nextBuffer md5 jane segment = .ok ({ jane with place := .finish },segment) := by
  unfold Jane.nextBuffer
  rw [done]
  rfl

include delivery in
theorem Remaining.prepare (clean : s.jane.failed = false) (top : (buffers : Int) ≤ INT_MAX) (positive : 1 ≤ u) (fits : u ≤ buffers) {n : Nat}
    (here : s.jane.place = .loop) (remaining : Remaining md5 u file n s) :
    ∃ m < n, Remaining md5 u file m (s.prepare md5) := by
  obtain ⟨stage,phase,counted⟩ := remaining
  rw [here] at phase
  obtain ⟨online,waiting,reads,rfl⟩ := phase
  unfold State.prepare
  cases reading : s.jane.finishedReading with
  | false =>
    rw [nextBuffer_done md5 s.jane s.segment reading]
    rw [reading] at counted
    exact Remaining.less counted rfl ⟨online.congr rfl rfl,waiting,reads.congr rfl rfl,rfl⟩ (by simp)
  | true =>
    rw [reading,if_pos rfl] at counted
    obtain ⟨jane,segment,ran,_,led⟩ := delivery.inv.nextBuffer top positive fits
    rw [ran]
    simp only
    cases led with
    | retry _ failed => cases clean.symm.trans failed
    | read _ _ _ loaded _ next _ count =>
      have some_left : s.jane.chunks < chunkCount u file := by
        rw [lt_chunkCount u positive]
        have bytes := loaded.bytes
        rwa [count,Nat.add_sub_cancel] at bytes
      refine ⟨173*(chunkCount u file-jane.chunks)+(183+waiting),?_,183+waiting,?_,rfl⟩
      · rw [count]
        omega
      · change Phase _ _ _ jane.place
        rw [next]
        exact ⟨online.congr rfl rfl,waiting,reads.congr rfl rfl,rfl⟩
    | drained _ _ facts next count =>
      have less : 10+waiting < 11+waiting := by omega
      refine Remaining.less counted count ?_ less
      change Phase _ _ _ jane.place
      rw [next,Phase]
      refine ⟨online.congr rfl rfl,waiting,reads.congr rfl rfl,?_⟩
      rw [show (if jane.finishedReading then 11 else 10) = 10 by rw [facts.done]; rfl]
    | finish facts => cases reading.symm.trans facts.done

include delivery in
theorem Remaining.clientSend (high : u ≤ 102399) {n : Nat} (here : s.jane.place = .send)
    (remaining : Remaining md5 u file n s) : ∃ m < n, Remaining md5 u file m (s.next memmove md5 .clientSend) := by
  obtain ⟨stage,phase,counted⟩ := remaining
  rw [here] at phase
  obtain ⟨online,waiting,reads,rfl⟩ := phase
  have size : (framed (current md5 u file s)).length ≤ 85 := framed_current_length high s
  have loaded := delivery.inv.loaded_of_send here
  have sent : s.next memmove md5 .clientSend = s.setJane _ _ s.answer :=
    clientSend_eq s id (fun jane => { jane with place := .receive .start }) _ loaded.frame_eq
  rw [sent]
  refine Remaining.less counted rfl (.asked rfl [] (framed (current md5 u file s)) waiting (reads.congr rfl rfl)
    (.setJane online.opened ?_ ?_ ?_) rfl (framed_ne_nil _)) (by omega)
  · rw [line_wire online.opened,online.toThor]
    rfl
  · rw [line_wire online.opened,online.toJane]
  · rw [line_wire online.opened,online.closed]

include delivery in
theorem Remaining.clientRcv (high : u ≤ 102399) {n : Nat} (receiver : Receiver) (count : Nat)
    (here : s.jane.place = .receive receiver) (some_count : 1 ≤ count) (inside : count ≤ s.line.toJane.length)
    (remaining : Remaining md5 u file n s) : ∃ m < n, Remaining md5 u file m (s.clientRcv memmove receiver count) := by
  obtain ⟨stage,phase,counted⟩ := remaining
  rw [here] at phase
  have some_bytes : s.line.toJane ≠ [] := List.ne_nil_of_length_pos (by omega)
  have none_there : ∀ {toThor : Bytes} {closed : Bool}, ¬ OnLine s toThor [] closed := fun online => by
    rw [line_wire online.opened,online.toJane] at some_bytes
    exact some_bytes rfl
  cases phase with
  | asked _ _ _ _ _ online => exact absurd online none_there
  | handling _ _ _ online => exact absurd online none_there
  | stopped _ _ online => exact absurd online none_there
  | answered stored rest received reads online cut some_rest =>
    subst received
    have loaded := delivery.inv.loaded_of_receive _ here
    have line : s.line.toJane = rest := by rw [line_wire online.opened,online.toJane]
    rw [State.clientRcv,Jane.receivePiece,line,clientSocketRcv]
    rcases receive_left false _ stored rest count (current_legible high s).framable (by simp) some_count cut some_rest
      with ⟨piece,left,rfl,some_piece,some_left,behind,again⟩ | ⟨behind,frame⟩
    · rw [again,behind]
      have fewer := List.length_pos_of_ne_nil some_piece
      refine Remaining.less counted rfl (.answered (stored ++ piece) left rfl (reads.congr rfl rfl)
        (.setJane online.opened ?_ rfl ?_) ?_ some_left) ?_
      · rw [line_wire online.opened,online.toThor]
      · rw [line_wire online.opened,online.closed]
      · rw [List.append_assoc,cut]
      · rw [List.length_append]
        omega
    · rw [frame,behind]
      simp only [bind,Except.bind,loaded.compare_eq]
      have fewer := List.length_pos_of_ne_nil some_rest
      have less : 11 < 11+rest.length := by omega
      refine Remaining.less counted rfl ⟨.setJane online.opened ?_ rfl ?_,0,reads.congr rfl rfl,?_⟩ less
      · rw [line_wire online.opened,online.toThor]
      · rw [line_wire online.opened,online.closed]
      · exact (if_pos loaded.reading).symm

theorem Remaining.clientDone {n : Nat} (here : s.jane.place = .finish) (remaining : Remaining md5 u file n s) :
    ∃ m < n, Remaining md5 u file m s.clientDone := by
  obtain ⟨stage,phase,counted⟩ := remaining
  rw [here] at phase
  obtain ⟨online,waiting,reads,rfl⟩ := phase
  have left : (DONE_TRANS ++ [(0 : Byte)]).length = 7 := rfl
  refine Remaining.less (t := s.clientDone) counted rfl (.ended [] (DONE_TRANS ++ [0]) waiting (reads.congr rfl rfl)
    (.setJane online.opened ?_ ?_ rfl) rfl) (by omega)
  · rw [line_wire online.opened,online.toThor]
    rfl
  · rw [line_wire online.opened,online.toJane]

theorem Reads.accept {stored : Bytes} {waiting : Nat} (reads : Reads s stored waiting) (here : s.thor.place = .accept) :
    waiting = 1 ∧ Reads s.serverAccept stored 0 := by
  cases reads with
  | waiting none_accepted _ nothing =>
    refine ⟨rfl,.reading (congrArg (· + 1) none_accepted) ?_⟩
    rw [nothing,← start_holding]
    rfl
  | reading _ place => cases place.symm.trans here

theorem Still.accept {calls n : Nat} (still : Still s calls n) (here : s.thor.place = .accept) :
    ∃ m < n, Still s.serverAccept calls m := by
  obtain ⟨online,waiting,reads,rfl⟩ := still
  obtain ⟨rfl,reading⟩ := reads.accept here
  exact ⟨calls,Nat.lt_succ_self calls,online.congr rfl rfl,0,reading,rfl⟩

theorem Phase.accept {text : Bytes} {place : Jane.Place} {n : Nat} (phase : Phase text s n place)
    (here : s.thor.place = .accept) (waiting : s.accepted < s.opened) : ∃ m < n, Phase text s.serverAccept m place := by
  cases place with
  | start =>
    have opened := phase.1
    omega
  | loop => exact Still.accept phase here
  | send => exact Still.accept phase here
  | finish => exact Still.accept phase here
  | aborted => exact phase.elim
  | receive receiver =>
    cases phase with
    | asked fresh stored rest _ reads online cut some_rest =>
      obtain ⟨rfl,reading⟩ := reads.accept here
      exact ⟨_,Nat.lt_succ_self _,.asked fresh stored rest 0 reading
        (online.congr rfl rfl) cut some_rest⟩
    | handling _ _ thor => cases thor.symm.trans here
    | stopped _ thor => cases thor.symm.trans here
    | answered _ _ _ reads =>
      have gone := (reads.accept here).1
      cases gone
  | finished =>
    cases phase with
    | ended stored rest _ reads online cut =>
      obtain ⟨rfl,reading⟩ := reads.accept here
      exact ⟨_,Nat.lt_succ_self _,.ended stored rest 0 reading
        (online.congr rfl rfl) cut⟩
    | gone opened accepted => omega

theorem Reads.receive {stored : Bytes} {waiting : Nat} {receiver : Receiver} (reads : Reads s stored waiting)
    (here : s.thor.place = .receive receiver) : waiting = 0 ∧ s.accepted = 1 ∧ receiver = holding stored := by
  cases reads with
  | waiting _ place => cases place.symm.trans here
  | reading accepted place => exact ⟨rfl,accepted,Thor.Place.receive.inj (here.symm.trans place)⟩

theorem Still.receive {calls n : Nat} {receiver : Receiver} (still : Still s calls n)
    (here : s.thor.place = .receive receiver) : s.heard.toThor = [] ∧ s.heard.closed = false := by
  obtain ⟨_,reads,_⟩ := still.reads
  obtain ⟨_,accepted,_⟩ := reads.receive here
  rw [heard_wire accepted]
  exact ⟨still.online.toThor,still.online.closed⟩

theorem Asking.serverRcv {text : Bytes} {asker : Receiver} {n : Nat} (asking : Asking text s asker n) (legible : Legible text)
    (receiver : Receiver) (count : Nat) (here : s.thor.place = .receive receiver) (some_count : 1 ≤ count)
    (some_bytes : s.heard.toThor ≠ []) : (∃ m < n, Asking text (s.serverRcv memmove receiver count) asker m) ∧
      ∀ fault, (s.serverRcv memmove receiver count).thor.place ≠ .aborted fault := by
  cases asking with
  | asked fresh stored rest _ reads online cut some_rest =>
    obtain ⟨rfl,accepted,rfl⟩ := reads.receive here
    have heard : s.heard.toThor = rest := (online.heard accepted).1
    rw [State.serverRcv,Thor.receivePiece,heard,serverSocketRcv]
    rcases receive_left true _ stored rest count legible.framable (fun _ => legible.quiet) some_count cut some_rest
      with ⟨piece,left,rfl,some_piece,some_left,behind,again⟩ | ⟨behind,frame⟩
    · rw [again,behind]
      have fewer := List.length_pos_of_ne_nil some_piece
      refine ⟨⟨_,?_,.asked fresh (stored ++ piece) left 0 (.reading accepted rfl) (online.setThor accepted _ left) ?_
        some_left⟩,by simp [bind,Except.bind]⟩
      · rw [List.length_append]
        omega
      · rw [List.append_assoc,cut]
    · rw [frame,behind]
      have fewer := List.length_pos_of_ne_nil some_rest
      exact ⟨⟨97,by omega,.handling fresh accepted rfl (online.setThor accepted _ [])⟩,by simp [bind,Except.bind]⟩
  | handling _ _ thor => cases thor.symm.trans here
  | stopped _ thor => cases thor.symm.trans here
  | answered _ _ _ reads online => exact absurd (online.heard (reads.receive here).2.1).1 some_bytes

theorem Leaving.serverRcv {n : Nat} (leaving : Leaving s n) (receiver : Receiver) (count : Nat)
    (here : s.thor.place = .receive receiver) (some_count : 1 ≤ count) (some_bytes : s.heard.toThor ≠ []) :
    (∃ m < n, Leaving (s.serverRcv memmove receiver count) m) ∧
      ∀ fault, (s.serverRcv memmove receiver count).thor.place ≠ .aborted fault := by
  cases leaving with
  | ended stored rest _ reads online cut =>
    obtain ⟨rfl,accepted,rfl⟩ := reads.receive here
    have heard : s.heard.toThor = rest := (online.heard accepted).1
    rw [heard] at some_bytes
    have some_rest := List.length_pos_of_ne_nil some_bytes
    have positive : 0 < min count (holding stored).maxlen := by
      have whole := congrArg List.length cut
      have seven : (DONE_TRANS ++ [(0 : Byte)]).length = 7 := rfl
      rw [List.length_append,seven] at whole
      simp only [holding]
      unfold BIG_ENOUGH
      omega
    rw [State.serverRcv,Thor.receivePiece,heard,serverSocketRcv]
    generalize min count (holding stored).maxlen = taken at *
    have split : rest.take taken ++ rest.drop taken = rest := List.take_append_drop _ _
    have some_piece : rest.take taken ≠ [] := by
      rw [ne_eq,List.take_eq_nil_iff,not_or]
      exact ⟨by omega,some_bytes⟩
    have fewer : (rest.drop taken).length < rest.length := by
      rw [List.length_drop]
      omega
    rcases receive_done memmove stored _ some_piece (cut ▸ (List.prefix_append_right_inj _).mpr (List.take_prefix _ _))
      with failed | again
    · rw [failed]
      exact ⟨⟨0,Nat.succ_pos _,.gone online.opened accepted rfl⟩,by simp [bind,Except.bind]⟩
    · rw [again]
      refine ⟨⟨_,?_,.ended (stored ++ rest.take taken) (rest.drop taken) 0 (.reading accepted rfl)
        (online.setThor accepted _ _) ?_⟩,by simp [bind,Except.bind]⟩
      · omega
      · rw [List.append_assoc,split,cut]
  | gone _ _ thor => cases thor.symm.trans here

theorem Phase.serverRcv {text : Bytes} {place : Jane.Place} {n : Nat} (phase : Phase text s n place) (legible : Legible text)
    (receiver : Receiver) (count : Nat) (here : s.thor.place = .receive receiver) (some_count : 1 ≤ count)
    (inside : count ≤ s.heard.toThor.length) : (∃ m < n, Phase text (s.serverRcv memmove receiver count) m place) ∧
      ∀ fault, (s.serverRcv memmove receiver count).thor.place ≠ .aborted fault := by
  have some_bytes : s.heard.toThor ≠ [] := List.ne_nil_of_length_pos (by omega)
  cases place with
  | start => cases phase.2.2.1.symm.trans here
  | loop => exact absurd (Still.receive phase here).1 some_bytes
  | send => exact absurd (Still.receive phase here).1 some_bytes
  | finish => exact absurd (Still.receive phase here).1 some_bytes
  | aborted => exact phase.elim
  | receive asker => exact Asking.serverRcv phase legible receiver count here some_count some_bytes
  | finished => exact Leaving.serverRcv phase receiver count here some_count some_bytes

theorem Phase.leave {text : Bytes} {place : Jane.Place} {n : Nat} (phase : Phase text s n place) (receiver : Receiver)
    (here : s.thor.place = .receive receiver) (closed : s.heard.closed = true) : ∃ m < n, Phase text s.serverLeave m place := by
  cases place with
  | start => cases phase.2.2.1.symm.trans here
  | loop => cases (Still.receive phase here).2.symm.trans closed
  | send => cases (Still.receive phase here).2.symm.trans closed
  | finish => cases (Still.receive phase here).2.symm.trans closed
  | aborted => exact phase.elim
  | receive receiver =>
    cases phase with
    | asked _ _ _ _ reads online =>
      rw [heard_wire (reads.receive here).2.1,online.closed] at closed
      cases closed
    | handling _ _ thor => cases thor.symm.trans here
    | stopped _ thor => cases thor.symm.trans here
    | answered _ _ _ reads online =>
      rw [heard_wire (reads.receive here).2.1,online.closed] at closed
      cases closed
  | finished =>
    cases phase with
    | ended _ _ _ reads online =>
      obtain ⟨rfl,accepted,_⟩ := reads.receive here
      exact ⟨0,Nat.succ_pos _,.gone online.opened accepted rfl⟩
    | gone _ _ thor => cases thor.symm.trans here

theorem Reads.not_handle {stored : Bytes} {waiting : Nat} (reads : Reads s stored waiting) (payload : Bytes) :
    s.thor.place ≠ .handle payload := by
  cases reads with
  | waiting _ place => simp [place]
  | reading _ place => simp [place]

include delivery in
theorem Phase.serverSend (high : u ≤ 102399) {place : Jane.Place} {n : Nat} (phase : Phase (current md5 u file s) s n place)
    (at_place : s.jane.place = place) (payload : Bytes) (here : s.thor.place = .handle payload) :
    ∃ m < n, Phase (current md5 u file s) (s.serverSend md5 payload id (.receive .start)) m place := by
  have elsewhere : ∀ {calls n : Nat}, ¬ Still s calls n := fun still => by
    obtain ⟨_,reads,_⟩ := still.reads
    exact reads.not_handle payload here
  cases place with
  | start => cases phase.2.2.1.symm.trans here
  | loop => exact absurd phase elsewhere
  | send => exact absurd phase elsewhere
  | finish => exact absurd phase elsewhere
  | aborted => exact phase.elim
  | finished =>
    cases phase with
    | ended _ _ _ reads => exact absurd here (reads.not_handle payload)
    | gone _ _ thor => cases thor.symm.trans here
  | receive receiver =>
    cases phase with
    | asked _ _ _ _ reads => exact absurd here (reads.not_handle payload)
    | answered _ _ _ reads => exact absurd here (reads.not_handle payload)
    | stopped _ thor => cases thor.symm.trans here
    | handling fresh accepted thor online =>
      obtain rfl := Thor.Place.handle.inj (here.symm.trans thor)
      have loaded := delivery.inv.loaded_of_receive receiver at_place
      have size : (framed (current md5 u file s)).length ≤ 85 := framed_current_length high s
      have legible : Legible (current md5 u file s) := current_legible high s
      have short := legible.framable.short
      have checked := delivery.verify_current high loaded.some_read
      have answered := Thor.serverSocketSend_answered md5 s.thor s.segment _ _ true checked
      obtain ⟨sent_before,left_before,not_closed⟩ := online.heard accepted
      unfold State.serverSend
      rw [checked]
      simp only
      generalize Thor.serverSocketSend md5 s.thor s.segment _ = result at *
      cases answered with
      | accepted next sent _ whole =>
        rw [left_before,whole short]
        refine ⟨11+(framed (current md5 u file s)).length,by omega,.answered [] _ (fresh.trans start_holding)
          (.reading accepted (congrArg Thor.Place.receive start_holding)) ?_ rfl (framed_ne_nil _)⟩
        exact (OnLine.setHeard online.opened accepted
          ⟨s.heard.toThor,framed (current md5 u file s),s.heard.closed,s.heard.verdicts ++ [true]⟩
          sent_before rfl not_closed).congr rfl rfl
      | stopped next =>
        refine ⟨0,by decide,.stopped fresh rfl ?_⟩
        exact (OnLine.setHeard online.opened accepted { s.heard with verdicts := s.heard.verdicts ++ [true] }
          sent_before left_before not_closed).congr rfl rfl

/-- Every call that is made leaves fewer to be made. -/
theorem remaining_step (high : buffers ≤ 102399) (positive : 1 ≤ u) (fits : u ≤ buffers) {n : Nat} {action : Action}
    (delivery : Delivery md5 dataPtr buffers u file repeats s) (clean : s.jane.failed = false)
    (remaining : Remaining md5 u file n s) (undisturbed : Undisturbed action) (enabled : s.Enabled action) :
    ∃ m < n, Remaining md5 u file m (s.next memmove md5 action) := by
  have low : u ≤ 102399 := fits.trans high
  have top : (buffers : Int) ≤ INT_MAX := by
    unfold INT_MAX
    omega
  have jane : ∀ t : State, t.jane = s.jane → (∀ stage, Phase (current md5 u file s) s stage s.jane.place →
      ∃ stage' < stage, Phase (current md5 u file s) t stage' s.jane.place) → ∃ m < n, Remaining md5 u file m t := by
    intro t same falls
    obtain ⟨stage,phase,counted⟩ := remaining
    obtain ⟨stage',less,next⟩ := falls stage phase
    exact Remaining.less counted (by rw [same]) (by rw [same]; exact next) less
  obtain ⟨honest,sound⟩ := undisturbed
  cases action with
  | clientSocketInit =>
    obtain ⟨stage,phase,counted⟩ := remaining
    rw [show s.jane.place = .start from enabled] at phase
    obtain ⟨stage',less,next⟩ := Phase.connect delivery enabled phase
    exact Remaining.less (t := s.connect) counted rfl next less
  | nextBuffer => exact Remaining.prepare delivery clean top positive fits enabled remaining
  | clientSend => exact Remaining.clientSend delivery low enabled remaining
  | clientRcv count =>
    obtain ⟨⟨receiver,here⟩,some_count,inside⟩ := enabled
    rw [s.next_clientRcv memmove md5 receiver count here]
    exact Remaining.clientRcv delivery low receiver count here some_count inside remaining
  | clientDone => exact Remaining.clientDone enabled remaining
  | serverAccept => exact jane s.serverAccept rfl (fun stage phase => phase.accept enabled.1 enabled.2)
  | serverRcv count =>
    obtain ⟨⟨receiver,here⟩,some_count,inside⟩ := enabled
    obtain ⟨stored,rfl⟩ := delivery.base.tidy receiver here
    rw [s.next_serverRcv memmove md5 _ count here]
    exact jane _ (serverRcv_quiet delivery.base stored count here).jane
      (fun stage phase => (phase.serverRcv (current_legible low s) _ count here some_count inside).1)
  | serverRcvEnd =>
    obtain ⟨⟨receiver,here⟩,_,closed⟩ := enabled
    exact jane s.serverLeave rfl (fun stage phase => phase.leave receiver here closed)
  | serverSend =>
    obtain ⟨payload,here⟩ := enabled
    have some_payload : s.Enabled .serverSend := ⟨payload,here⟩
    have same := (answer_step high fits delivery some_payload rfl).2.1
    rw [s.next_serverSend memmove md5 payload here] at same ⊢
    exact jane _ same (fun stage phase => Phase.serverSend delivery low phase rfl payload here)
  | clientSendFails => cases sound
  | clientRcvFails => cases sound
  | serverRcvFails => cases sound
  | serverSendFails => cases sound
  | lokiFrame => cases honest
  | lokiBuffer => cases honest

omit delivery in
theorem Reads.accepts {stored : Bytes} {waiting : Nat} (reads : Reads s stored waiting) (opened : s.opened = 1) :
    s.Enabled .serverAccept ∨ s.accepted = 1 ∧ s.thor.place = .receive (holding stored) := by
  cases reads with
  | waiting accepted place => exact .inl ⟨place,by omega⟩
  | reading accepted place => exact .inr ⟨accepted,place⟩

/-- Some call can be made in every phase but the last, unless Thor has stopped. -/
theorem Phase.goes_on {text : Bytes} {n : Nat} (phase : Phase text s n s.jane.place)
    (running : ∀ fault, s.thor.place ≠ .aborted fault) :
    (∃ action, Undisturbed action ∧ s.Enabled action) ∨ s.jane.place = .finished ∧ s.thor.place = .accept := by
  cases here : s.jane.place with
  | start => exact .inl ⟨.clientSocketInit,by decide,here⟩
  | loop => exact .inl ⟨.nextBuffer,by decide,here⟩
  | send => exact .inl ⟨.clientSend,by decide,here⟩
  | finish => exact .inl ⟨.clientDone,by decide,here⟩
  | aborted =>
    rw [here] at phase
    exact phase.elim
  | receive receiver =>
    rw [here] at phase
    cases phase with
    | asked _ stored rest _ reads online cut some_rest =>
      rcases reads.accepts online.opened with accepts | ⟨accepted,place⟩
      · exact .inl ⟨.serverAccept,by decide,accepts⟩
      · refine .inl ⟨.serverRcv 1,by decide,⟨_,place⟩,le_rfl,?_⟩
        rw [heard_wire accepted,online.toThor]
        exact List.length_pos_of_ne_nil some_rest
    | handling _ _ thor => exact .inl ⟨.serverSend,by decide,text,thor⟩
    | answered _ rest _ _ online _ some_rest =>
      refine .inl ⟨.clientRcv 1,by decide,⟨receiver,here⟩,le_rfl,?_⟩
      rw [line_wire online.opened,online.toJane]
      exact List.length_pos_of_ne_nil some_rest
    | stopped _ thor => exact absurd thor (running _)
  | finished =>
    rw [here] at phase
    cases phase with
    | ended stored rest _ reads online cut =>
      rcases reads.accepts online.opened with accepts | ⟨accepted,place⟩
      · exact .inl ⟨.serverAccept,by decide,accepts⟩
      · by_cases none_left : rest = []
        · refine .inl ⟨.serverRcvEnd,by decide,⟨_,place⟩,?_,?_⟩
          · rw [heard_wire accepted,online.toThor,none_left]
          · rw [heard_wire accepted,online.closed]
        · refine .inl ⟨.serverRcv 1,by decide,⟨_,place⟩,le_rfl,?_⟩
          rw [heard_wire accepted,online.toThor]
          exact List.length_pos_of_ne_nil none_left
    | gone _ _ thor => exact .inr ⟨rfl,thor⟩

end Steps
end Spsc.Session
