import Spsc.Exchange
import Spsc.Session.Line

/-! What holds in every state that is reached without Loki, however many calls
fail. Thor has every chunk before Jane's last one once, and the last one any number
of times; what he may still hear is about that chunk, or the end. -/
namespace Spsc.Session
open Imperative Hash Wire Allocator Segment
open Spsc.Jane (chunk chunkSize Kept)

section Invariant
variable (md5 : Bytes → Digest) (dataPtr : Int) (buffers u : Nat) (file : Bytes)

def current (s : State) : Bytes := Jane.payload md5 (chunk u file (s.jane.chunks-1))

/-- What is on Jane's connection where she stands. Without a failure of hers Thor
has appended her last chunk just when he has answered. -/
def AtPlace (s : State) (repeats : Nat) : Jane.Place → Prop
  | .start => s.jane.failed = false → s.opened = 0 ∧ repeats = 0
  | .loop | .finish => 1 ≤ s.opened ∧ Clear s ∧ (s.jane.failed = false → repeats = min s.jane.chunks 1)
  | .send => 1 ≤ s.opened ∧ Clear s ∧ (s.jane.failed = false → repeats = 0)
  | .receive receiver => 1 ≤ s.opened ∧
    ((Awaiting (fun text => text = current md5 u file s) s receiver ∧ (s.jane.failed = false → repeats = 0)) ∨
      (Answered (fun verdict text => verdict = true ∧ text = current md5 u file s) s receiver ∧ 1 ≤ repeats ∧
        (s.jane.failed = false → repeats = 1)))
  | .finished => 1 ≤ s.opened ∧ (s.hearing (s.opened-1)).Ending ∧ repeats = min s.jane.chunks 1
  | .aborted _ => True

structure Delivery (repeats : Nat) (s : State) : Prop where
  base : Base s
  inv : Jane.Inv md5 dataPtr buffers u file s.jane s.segment
  kept : Kept u file s.jane s.segment
  output : s.thor.output = s.appended.map (chunk u file)
  appended : s.appended = List.range (s.jane.chunks-1) ++ List.replicate repeats (s.jane.chunks-1)
  none_read : s.jane.chunks = 0 → repeats = 0
  left : ∀ connection < s.opened, connection+1 < s.opened ∨ s.jane.place = .start →
    (s.hearing connection).AtMost (current md5 u file s)
  single : s.jane.failed = false → s.opened ≤ 1
  place : AtPlace md5 u file s repeats s.jane.place
  fault : ∀ fault, s.thor.place = .aborted fault → fault = .bounds

theorem initial_delivery (segment : Bytes) (pattern : Option Bytes) (room : segment.length = (buffers+1)*1024) :
    Delivery md5 dataPtr buffers u file 0 (.initial dataPtr buffers u file segment pattern) where
  base := ⟨le_rfl,fun busy => absurd rfl busy,fun _ same => nomatch same⟩
  inv := Jane.initial_inv md5 dataPtr buffers u file segment room
  kept := Jane.initial_kept dataPtr buffers u file segment
  output := rfl
  appended := rfl
  none_read := fun _ => rfl
  left := fun connection none_there => absurd none_there (Nat.not_lt_zero connection)
  single := fun _ => Nat.zero_le 1
  place := fun _ => ⟨rfl,rfl⟩
  fault := fun _ same => nomatch same

end Invariant

section Steps
variable {md5 : Bytes → Digest} {dataPtr : Int} {buffers u : Nat} {file : Bytes}

theorem current_legible (high : u ≤ 102399) (s : State) : Legible (current md5 u file s) := by
  have short := Jane.chunk_length_le u file (s.jane.chunks-1)
  unfold chunkSize BIG_ENOUGH at short
  exact payload_legible md5 _ (by omega)

variable {repeats : Nat} {s : State}

theorem AtPlace.moves {t : State} {here : Jane.Place} (high : u ≤ 102399) (moved : Quiet s t)
    (place : AtPlace md5 u file s repeats here) : AtPlace md5 u file t repeats here := by
  have still : current md5 u file t = current md5 u file s := by
    unfold current
    rw [moved.jane]
  have legible : Legible (current md5 u file s) := current_legible high s
  cases here <;> simp only [AtPlace,moved.jane,moved.opened,still] at place ⊢
  case start => exact place
  case loop => exact ⟨place.1,place.2.1.moves moved,place.2.2⟩
  case send => exact ⟨place.1,place.2.1.moves moved,place.2.2⟩
  case receive receiver =>
    refine ⟨place.1,?_⟩
    rcases place.2 with ⟨awaiting,none_yet⟩ | ⟨answered,once⟩
    · exact .inl ⟨awaiting.moves moved (fun text same => same ▸ legible),none_yet⟩
    · exact .inr ⟨answered.moves moved,once⟩
  case finish => exact ⟨place.1,place.2.1.moves moved,place.2.2⟩
  case finished => exact ⟨place.1,place.2.1.moves (moved.hearing _),place.2.2⟩

theorem AtPlace.elsewhere {t : State} {here : Jane.Place} {payload data : Bytes} {intact : Bool}
    (place : AtPlace md5 u file s repeats here) (answer : Replied s t payload data intact)
    (failed : s.jane.failed = true) (other : s.opened-1 ≠ s.accepted-1)
    (unfinished : here ≠ .finished) : AtPlace md5 u file t (repeats+1) here := by
  obtain ⟨line,hearing⟩ := answer.line_eq other
  have still : current md5 u file t = current md5 u file s := by
    unfold current
    rw [answer.jane]
  have clear : Clear s → Clear t := Clear.same line hearing
  cases here <;> simp only [AtPlace,answer.jane,answer.opened,still,failed] at place ⊢
  case start => exact fun clean => nomatch clean
  case loop => exact ⟨place.1,clear place.2.1,fun clean => nomatch clean⟩
  case send => exact ⟨place.1,clear place.2.1,fun clean => nomatch clean⟩
  case finish => exact ⟨place.1,clear place.2.1,fun clean => nomatch clean⟩
  case finished => exact absurd rfl unfinished
  case receive receiver =>
    refine ⟨place.1,?_⟩
    rcases place.2 with ⟨awaiting,_⟩ | ⟨answered,_,_⟩
    · exact .inl ⟨awaiting.same line hearing,fun clean => nomatch clean⟩
    · exact .inr ⟨answered.same line hearing,Nat.le_add_left 1 _,fun clean => nomatch clean⟩

variable (delivery : Delivery md5 dataPtr buffers u file repeats s)
include delivery

theorem Delivery.failed_read (failed : s.jane.failed = true) : 1 ≤ s.jane.chunks := by
  cases delivery.inv.situation with
  | fresh facts => rw [facts.clean] at failed; cases failed
  | loaded facts => exact facts.some_read
  | drained facts => rw [facts.clean] at failed; cases failed

theorem Delivery.connect (here : s.jane.place = .start) :
    Delivery md5 dataPtr buffers u file repeats s.connect where
  base := connect_base s delivery.base
  inv := delivery.inv.connect here
  kept := delivery.kept
  output := delivery.output
  appended := delivery.appended
  none_read := delivery.none_read
  left := by
    intro connection inside earlier
    have old : connection < s.opened := by
      rcases earlier with less | absurd_place
      · exact Nat.lt_of_succ_lt_succ less
      · cases absurd_place
    rw [connect_hearing s connection (by omega)]
    exact delivery.left connection old (.inr here)
  single := by
    intro clean
    have place := delivery.place
    rw [here] at place
    exact Nat.succ_le_succ (place clean).1.le
  place := by
    have place := delivery.place
    rw [here] at place
    refine ⟨Nat.le_add_left 1 _,connect_clear s delivery.base,fun clean => ?_⟩
    obtain ⟨_,none_yet⟩ := place clean
    have none_read : s.jane.chunks = 0 := by
      cases delivery.inv.situation with
      | fresh facts => exact facts.none_read
      | loaded _ elsewhere =>
        have clean : s.jane.failed = false := clean
        simp [here,clean] at elsewhere
      | drained _ elsewhere => simp [here] at elsewhere
    change repeats = min s.jane.chunks 1
    omega
  fault := delivery.fault

theorem Delivery.setJane (line : Connection) (jane : Jane.Client) (answer : Option Bool)
    (inv : Jane.Inv md5 dataPtr buffers u file jane s.segment) (same : jane.chunks = s.jane.chunks)
    (clean : jane.failed = false → s.jane.failed = false)
    (own : jane.place = .start → ((s.setJane line jane answer).hearing (s.opened-1)).AtMost (current md5 u file s))
    (place : AtPlace md5 u file (s.setJane line jane answer) repeats jane.place) :
    Delivery md5 dataPtr buffers u file repeats (s.setJane line jane answer) := by
  have still : current md5 u file (s.setJane line jane answer) = current md5 u file s := by
    unfold current
    rw [show (s.setJane line jane answer).jane.chunks = jane.chunks from rfl,same]
  refine
    { base := setJane_base s line jane answer delivery.base
      inv := inv
      kept := ?_
      output := delivery.output
      appended := ?_
      none_read := ?_
      left := ?_
      single := fun flag => delivery.single (clean flag)
      place := place
      fault := delivery.fault }
  · change 1 ≤ jane.chunks → Holds s.segment 1024 (chunk u file (jane.chunks-1))
    rw [same]
    exact delivery.kept
  · change s.appended = List.range (jane.chunks-1) ++ List.replicate repeats (jane.chunks-1)
    rw [same]
    exact delivery.appended
  · change jane.chunks = 0 → repeats = 0
    rw [same]
    exact delivery.none_read
  · intro connection inside earlier
    rw [still]
    by_cases last : connection = s.opened-1
    · subst last
      rcases earlier with less | start
      · have inside : s.opened-1+1 < s.opened := less
        omega
      · exact own start
    · rw [setJane_elsewhere s line jane answer connection last]
      refine delivery.left connection inside (.inl ?_)
      have inside : connection < s.opened := inside
      omega

theorem Delivery.read (jane : Jane.Client) (segment : Bytes) (answer : Option Bool)
    (inv : Jane.Inv md5 dataPtr buffers u file jane segment) (kept : Kept u file jane segment)
    (count : jane.chunks = s.jane.chunks+1) (here : s.jane.place = .loop) (clean : s.jane.failed = false)
    (next : jane.place = .send) :
    Delivery md5 dataPtr buffers u file 0 { s with jane := jane, segment := segment, answer := answer } := by
  have place := delivery.place
  rw [here] at place
  obtain ⟨some_opened,clear,once⟩ := place
  have one := delivery.single clean
  have hearing : ∀ connection,
      State.hearing { s with jane := jane, segment := segment, answer := answer } connection =
      s.hearing connection := fun connection => State.hearing_congr s _ connection rfl rfl rfl
  exact
    { base := ⟨delivery.base.order,delivery.base.some_accepted,delivery.base.tidy⟩
      inv := inv
      kept := kept
      output := delivery.output
      appended := by
        change s.appended = List.range (jane.chunks-1) ++ []
        rw [delivery.appended,once clean,count,Nat.add_sub_cancel,List.append_nil]
        rcases Nat.eq_zero_or_pos s.jane.chunks with none_read | some_read
        · rw [none_read]
          rfl
        · rw [Nat.min_eq_right some_read,List.replicate_one,← List.range_succ]
          exact congrArg List.range (Nat.sub_add_cancel some_read)
      none_read := fun none_read => by
        have none_read : jane.chunks = 0 := none_read
        omega
      left := by
        intro connection inside earlier
        rcases earlier with less | start
        · have less : connection+1 < s.opened := less
          omega
        · have start : jane.place = .start := start
          rw [next] at start
          cases start
      single := fun _ => one
      place := by
        change AtPlace md5 u file _ 0 jane.place
        rw [next]
        exact ⟨some_opened,⟨clear.toJane,by rw [hearing]; exact clear.idle⟩,fun _ => rfl⟩
      fault := delivery.fault }

theorem Delivery.prepare (top : (buffers : Int) ≤ INT_MAX) (positive : 1 ≤ u) (fits : u ≤ buffers)
    (here : s.jane.place = .loop) :
    ∃ repeats', Delivery md5 dataPtr buffers u file repeats' (s.prepare md5) ∧
      (s.jane.failed = false → (s.prepare md5).jane.failed = false) := by
  obtain ⟨jane,segment,ran,inv,led⟩ := delivery.inv.nextBuffer top positive fits
  have place := delivery.place
  rw [here] at place
  obtain ⟨some_opened,clear,once⟩ := place
  have kept := led.kept delivery.kept
  unfold State.prepare
  rw [ran]
  simp only
  generalize (if jane.chunks = s.jane.chunks then s.answer else none) = answer
  have clear' : ∀ jane, Clear (s.setJane s.line jane answer) := by
    intro jane
    refine ⟨by rw [setJane_line]; exact clear.toJane,?_⟩
    rw [setJane_same s s.line jane answer rfl]
    exact clear.idle
  cases led with
  | retry loaded failed =>
    have stays := delivery.setJane s.line { s.jane with place := .send } answer inv rfl id (fun start => nomatch start)
      ⟨some_opened,clear' _,fun flag => by
        have flag : s.jane.failed = false := flag
        rw [failed] at flag
        cases flag⟩
    rw [setJane_self] at stays
    exact ⟨_,stays,id⟩
  | read _ _ clean _ _ next flag count =>
    exact ⟨0,delivery.read jane segment answer inv kept count here clean next,fun _ => flag⟩
  | drained _ clean facts next count =>
    have stays := delivery.setJane s.line jane answer inv count (fun _ => clean) (by simp [next]) (by
      rw [next]
      refine ⟨some_opened,clear' _,fun _ => ?_⟩
      rw [once clean]
      exact congrArg (min · 1) count.symm)
    rw [setJane_self] at stays
    exact ⟨_,stays,fun _ => facts.clean⟩
  | finish facts =>
    have stays := delivery.setJane s.line { s.jane with place := .finish } answer inv rfl id
      (fun start => nomatch start) ⟨some_opened,clear' _,once⟩
    rw [setJane_self] at stays
    exact ⟨_,stays,id⟩

theorem Delivery.clientSend (here : s.jane.place = .send) :
    Delivery md5 dataPtr buffers u file repeats
      (s.clientSend id (fun jane => { jane with place := .receive .start })) := by
  have place := delivery.place
  rw [here] at place
  obtain ⟨some_opened,clear,once⟩ := place
  have loaded := delivery.inv.loaded_of_send here
  rw [clientSend_eq s _ _ _ loaded.frame_eq]
  refine delivery.setJane _ _ _ (delivery.inv.receive loaded .start) rfl id (fun start => nomatch start)
    ⟨some_opened,.inl ⟨⟨rfl,?_,_,rfl,?_⟩,once⟩⟩
  · rw [setJane_line]
    exact clear.toJane
  · rw [show (s.setJane _ _ _).opened-1 = s.opened-1 from rfl,setJane_hearing s _ _ _ _ rfl]
    exact clear.idle.asks

theorem Delivery.clientSendFails (kept : Bytes → Bytes) (part : ∀ bytes, kept bytes <+: bytes)
    (here : s.jane.place = .send) :
    Delivery md5 dataPtr buffers u file repeats (s.clientSend kept Jane.gotoStart) := by
  have place := delivery.place
  rw [here] at place
  obtain ⟨_,clear,_⟩ := place
  have loaded := delivery.inv.loaded_of_send here
  rw [clientSend_eq s _ _ _ loaded.frame_eq]
  refine delivery.setJane _ _ _ (delivery.inv.gotoStart loaded) rfl (fun clean => nomatch clean) (fun _ => ?_)
    (fun clean => nomatch clean)
  rw [setJane_hearing s _ _ _ _ rfl]
  exact clear.idle.part _ (part _)

theorem Delivery.clientRcvFails (receiver : Receiver) (here : s.jane.place = .receive receiver) :
    Delivery md5 dataPtr buffers u file repeats { s with jane := Jane.gotoStart s.jane } := by
  have place := delivery.place
  rw [here] at place
  have loaded := delivery.inv.loaded_of_receive receiver here
  have left := delivery.setJane s.line (Jane.gotoStart s.jane) s.answer (delivery.inv.gotoStart loaded) rfl
    (fun clean => nomatch clean) (fun _ => by
      rw [setJane_same s s.line _ _ rfl]
      rcases place.2 with ⟨awaiting,_⟩ | ⟨answered,_⟩
      · obtain ⟨_,rfl,there⟩ := awaiting.asked
        exact there.atMost
      · exact answered.idle.atMost) (fun clean => nomatch clean)
  rw [setJane_self] at left
  exact left

theorem Delivery.clientRcv (high : u ≤ 102399) (receiver : Receiver) (count : Nat)
    (here : s.jane.place = .receive receiver) (some_count : 1 ≤ count) (inside : count ≤ s.line.toJane.length) :
    Delivery md5 dataPtr buffers u file repeats (s.clientRcv memmove receiver count) ∧
      (s.clientRcv memmove receiver count).jane.failed = s.jane.failed := by
  have place := delivery.place
  rw [here] at place
  obtain ⟨some_opened,under_way⟩ := place
  have loaded := delivery.inv.loaded_of_receive receiver here
  have some_bytes : s.line.toJane ≠ [] := List.ne_nil_of_length_pos (by omega)
  rcases under_way with ⟨awaiting,_⟩ | ⟨answered,some_repeats,once⟩
  · exact absurd awaiting.toJane some_bytes
  obtain ⟨⟨stored,text,rest,verdict,rfl,cut,⟨rfl,rfl⟩,recorded⟩,idle⟩ := answered
  rcases clientRcv_answered s stored _ rest _ count some_count some_bytes (current_legible high s).framable cut
    loaded.digest with ⟨piece,left,cut',_,ran⟩ | ⟨_,ran⟩
  · rw [ran]
    refine ⟨delivery.setJane _ _ _ (delivery.inv.receive loaded _) rfl id (fun start => nomatch start)
      ⟨some_opened,.inr ⟨⟨⟨stored ++ piece,_,rest,true,rfl,?_,⟨rfl,rfl⟩,?_⟩,setJane_idle s _ _ left idle⟩,
        some_repeats,once⟩⟩,rfl⟩
    · rw [setJane_line]
      exact cut'
    · rw [setJane_line]
      exact recorded
  · have other : current md5 u file s ≠ digestText md5 (chunk u file (s.jane.chunks-1)) :=
      Exchange.payload_not_digest _ _ _ _ _ (digestText_isHex md5 _)
    rw [ran,if_neg other]
    refine ⟨delivery.setJane _ _ _ (delivery.inv.loop loaded s.jane.failed) rfl id (fun start => nomatch start)
      ⟨some_opened,⟨?_,setJane_idle s _ _ [] idle⟩,fun clean => ?_⟩,rfl⟩
    · rw [setJane_line]
    · exact (once clean).trans (Nat.min_eq_right loaded.some_read).symm

theorem Delivery.clientDone (here : s.jane.place = .finish) :
    Delivery md5 dataPtr buffers u file repeats s.clientDone := by
  have place := delivery.place
  rw [here] at place
  obtain ⟨some_opened,clear,once⟩ := place
  have clean := (delivery.inv.drained (.inl here)).clean
  refine delivery.setJane { s.line with toThor := s.line.toThor ++ (DONE_TRANS ++ [0]), closed := true } _ s.answer
    (delivery.inv.finish here) rfl id (fun start => nomatch start) ⟨some_opened,?_,once clean⟩
  rw [show (s.setJane _ _ _).opened-1 = s.opened-1 from rfl,setJane_hearing s _ _ _ _ rfl]
  exact clear.idle.ending

theorem Delivery.quiet {t : State} (high : u ≤ 102399) (moved : Quiet s t)
    (fault : ∀ fault, t.thor.place = .aborted fault → fault = .bounds) :
    Delivery md5 dataPtr buffers u file repeats t where
  base := moved.base
  inv := by rw [moved.jane,moved.segment]; exact delivery.inv
  kept := by rw [moved.jane,moved.segment]; exact delivery.kept
  output := by rw [moved.output,moved.appended]; exact delivery.output
  appended := by rw [moved.appended,moved.jane]; exact delivery.appended
  none_read := by rw [moved.jane]; exact delivery.none_read
  left := by
    intro connection inside earlier
    rw [moved.opened] at inside earlier
    rw [moved.jane] at earlier
    have there := (delivery.left connection inside earlier).moves (current_legible high s) (moved.hearing connection)
    unfold current at there ⊢
    rw [moved.jane]
    exact there
  single := by rw [moved.jane,moved.opened]; exact delivery.single
  place := by rw [moved.jane]; exact delivery.place.moves high moved
  fault := fault

/-- A payload that Thor handles is the one about Jane's last chunk. It came over
Jane's connection, or after a failure over an older one. -/
theorem Delivery.handled (payload : Bytes) (handling : s.thor.place = .handle payload) :
    payload = current md5 u file s ∧ s.heard.toThor = [] ∧ 1 ≤ s.jane.chunks ∧
      ((s.jane.failed = true ∧ (s.jane.place = .start ∨ s.opened-1 ≠ s.accepted-1)) ∨
        (s.opened-1 = s.accepted-1 ∧ ∃ receiver, s.jane.place = .receive receiver)) := by
  have some_accepted := delivery.base.some_accepted (by simp [handling])
  have order := delivery.base.order
  have hearing := s.hearing_handle (s.accepted-1) payload (by omega) handling
  have place := delivery.place
  by_cases old : s.accepted-1+1 < s.opened ∨ s.jane.place = .start
  · have failed : s.jane.failed = true := by
      by_contra clean
      have clean := Bool.eq_false_iff.mpr clean
      have one := delivery.single clean
      rcases old with less | start
      · omega
      · rw [start] at place
        have none_open := (place clean).1
        omega
    have atMost := delivery.left (s.accepted-1) (by omega) old
    rw [hearing] at atMost
    obtain ⟨same,none_left⟩ := (Hearing.atMost_handles _ _).mp atMost
    refine ⟨same,none_left,delivery.failed_read failed,.inl ⟨failed,?_⟩⟩
    rcases old with less | start
    · exact .inr (by omega)
    · exact .inl start
  · obtain ⟨last,later⟩ := not_or.mp old
    have own : s.opened-1 = s.accepted-1 := by omega
    cases here : s.jane.place with
    | start => exact absurd here later
    | loop =>
      rw [here] at place
      exact absurd place.2.1.idle (not_idle_own own hearing)
    | send =>
      rw [here] at place
      exact absurd place.2.1.idle (not_idle_own own hearing)
    | finish =>
      rw [here] at place
      exact absurd place.2.1.idle (not_idle_own own hearing)
    | finished =>
      rw [here] at place
      obtain ⟨_,ending,_⟩ := place
      rw [own,hearing] at ending
      exact absurd ending (Hearing.not_ending_handles _ _)
    | aborted fault => exact absurd here (delivery.inv.running fault)
    | receive receiver =>
      rw [here] at place
      have loaded := delivery.inv.loaded_of_receive receiver here
      rcases place.2 with ⟨awaiting,_⟩ | ⟨answered,_⟩
      · obtain ⟨_,rfl,there⟩ := awaiting.asked
        rw [own,hearing] at there
        obtain ⟨same,none_left⟩ := (Hearing.asks_handles _ _).mp there
        exact ⟨same,none_left,loaded.some_read,.inr ⟨own,receiver,rfl⟩⟩
      · exact absurd answered.idle (not_idle_own own hearing)

theorem Delivery.verify_current (high : u ≤ 102399) (some_read : 1 ≤ s.jane.chunks) :
    Thor.verify md5 s.segment (current md5 u file s) = .ok (chunk u file (s.jane.chunks-1),true) := by
  have short := Jane.chunk_length_le u file (s.jane.chunks-1)
  unfold chunkSize BIG_ENOUGH at short
  have long := digestText_length md5 (chunk u file (s.jane.chunks-1))
  have checked := Thor.verify_fields md5 s.segment _ (digestText md5 (chunk u file (s.jane.chunks-1))) 1 1024
    (chunk u file (s.jane.chunks-1)).length (by decide) (by decide) (by omega)
    (List.ne_nil_of_length_pos (by omega)) (by omega) (readBytes_holds _ _ _ (delivery.kept some_read))
  rw [decide_eq_true rfl] at checked
  exact checked

theorem Delivery.replied {t : State} (high : u ≤ 102399) (payload : Bytes) (handling : s.thor.place = .handle payload)
    (answer : Replied s t payload (chunk u file (s.jane.chunks-1)) true)
    (fault : ∀ fault, t.thor.place = .aborted fault → fault = .bounds) :
    Delivery md5 dataPtr buffers u file (repeats+1) t := by
  obtain ⟨same,none_left,some_read,how⟩ := delivery.handled payload handling
  have still : current md5 u file t = current md5 u file s := by
    unfold current
    rw [answer.jane]
  have appended := answer.appended
  have output := answer.output
  rw [if_pos rfl] at appended output
  refine
    { base := answer.base
      inv := by rw [answer.jane,answer.segment]; exact delivery.inv
      kept := by rw [answer.jane,answer.segment]; exact delivery.kept
      output := by rw [output,appended,delivery.output,List.map_append]; rfl
      appended := ?_
      none_read := fun none_read => by rw [answer.jane] at none_read; omega
      left := ?_
      single := by rw [answer.jane,answer.opened]; exact delivery.single
      place := ?_
      fault := fault }
  · rw [appended,answer.jane,delivery.appended,List.append_assoc,List.replicate_succ']
  · intro connection inside earlier
    rw [answer.opened] at inside earlier
    rw [answer.jane] at earlier
    rw [still]
    by_cases own : connection = s.accepted-1
    · subst own
      rcases answer.hearing with passed | hears
      · rw [passed]
        exact .inl rfl
      · rw [hears,none_left]
        exact .inr (.inl ⟨[],rfl,List.nil_prefix⟩)
    · rw [answer.elsewhere connection own]
      exact delivery.left connection inside earlier
  · have place := delivery.place
    rw [answer.jane]
    rcases how with ⟨failed,start | other⟩ | ⟨own,receiver,here⟩
    · rw [start]
      intro clean
      rw [answer.jane,failed] at clean
      cases clean
    · refine place.elsewhere answer failed other (fun done => ?_)
      cases failed.symm.trans (delivery.inv.drained (.inr done)).clean
    · have hearing := s.hearing_handle (s.accepted-1) payload (by
        have some_accepted := delivery.base.some_accepted (by simp [handling])
        omega) handling
      rw [here] at place ⊢
      simp only [AtPlace,answer.jane,answer.opened,still] at place ⊢
      refine ⟨place.1,.inr ?_⟩
      rcases place.2 with ⟨awaiting,none_yet⟩ | ⟨answered,_⟩
      · refine ⟨awaiting.answered answer own hearing ?_ (fun same => ⟨rfl,same⟩),Nat.le_add_left 1 _,
          fun clean => ?_⟩
        · rintro _ rfl
          exact (current_legible high s).framable.short
        · rw [none_yet clean]
      · exact absurd answered.idle (not_idle_own own hearing)

end Steps
end Spsc.Session
