import Spsc.Thor.History
import Mathlib.Data.List.GetD

/-! The statistics that `print_sstring` prints when `server_loop` goes back to
`server_accept`. -/
namespace Spsc.Thor
open Imperative Wire Spsc.Substring

def TITLE : Bytes := ascii ['-','-','-','-','-','-','-','-','>',' ','p','a','t','t','e','r','n',' ','s','t','a','s','t','i','c','s',' ',
  '<','-','-','-','-','-','-','-','-','-','-','-','-','-','-','-','\n']

def RULE : Bytes := List.replicate 43 (char '-') ++ [char '\n']

def foundLine (pattern : Bytes) (count : Int) : Bytes :=
  ascii ['p','a','t','t','e','r','n',' ','<'] ++ pattern ++ ascii ['>',' ','i','s',' ','f','o','u','n','d',' '] ++
    decimal count ++ ascii [' ','t','i','m','e','s','.','\n']

def locationLine (i place : Int) : Bytes :=
  ascii ['l','c','o','a','t','i','o','n','['] ++ decimal i ++ ascii [']',' ','=',' '] ++ decimal place ++ ascii ['.','\n']

/-- What the call writes; `DEBUG_SSTRING` is not defined. -/
def printSstring (ss : Sstring) : C Bytes := do
  let pattern ← cString ss.pattern
  let lines ← forLoop (fun i lines => do
    let place ← load .bounds ss.locations i
    .ok (lines ++ locationLine i place)) 0 ss.count (TITLE ++ foundLine pattern ss.count)
  .ok (lines ++ RULE)

/-- What `server_loop` prints when it leaves a connection. -/
def printed (thor : Server) : C Bytes :=
  match thor.substringContext with
  | none => .ok []
  | some ss => printSstring ss

/-- The statistics about a pattern and the places where it was found. -/
def report (pattern : Bytes) (places : List Int) : Bytes :=
  TITLE ++ foundLine pattern places.length ++ (places.mapIdx (fun (i : Nat) place => locationLine i place)).flatten ++ RULE

theorem printSstring_report (ss : Sstring) (pattern rest : Bytes) (text : ss.pattern = pattern ++ 0::rest)
    (solid : 0 ∉ pattern) (fits : ss.count ≤ ss.locations.length) :
    printSstring ss = .ok (report pattern (recorded ss)) := by
  have size : (recorded ss).length = ss.count := by
    rw [recorded,List.length_take]
    omega
  have places : ∀ i < ss.count, load Fault.bounds ss.locations i = .ok ((recorded ss).getD i 0) := by
    intro i less
    rw [load_inside _ _ _ (by omega),recorded,List.getD_eq_getElem _ _ (by rw [List.length_take]; omega),List.getElem_take]
  have loop := forLoop_closed (fun (i : Nat) lines => do
    let place ← load Fault.bounds ss.locations i
    .ok (lines ++ locationLine i place))
    (fun i => TITLE ++ foundLine pattern ss.count ++
      (((recorded ss).take i).mapIdx (fun (i : Nat) place => locationLine i place)).flatten) 0 ss.count (by
    intro i _ less
    rw [Nat.zero_add] at less
    have last : (recorded ss).take (i+1) = (recorded ss).take i ++ [(recorded ss).getD i 0] := by
      rw [List.take_succ_eq_append_getElem (by omega),List.getD_eq_getElem _ _ (by omega)]
    simp only [places i less,bind,Except.bind]
    rw [last,List.mapIdx_append,List.flatten_append,List.append_assoc]
    have short : ((recorded ss).take i).length = i := by
      rw [List.length_take]
      omega
    simp [short])
  rw [printSstring,text,cString_terminated pattern rest solid]
  simp only [bind,Except.bind] at loop ⊢
  rw [List.take_zero,List.mapIdx_nil,List.flatten_nil,List.append_nil,Nat.zero_add] at loop
  rw [loop,List.take_of_length_le size.le,report,size]

section Searched
variable {pattern : Option Bytes} {thor : Server} (searched : Searched pattern thor)
  (some_pattern : ∀ text, pattern = some text → text ≠ [])
include searched some_pattern

/-- With some pattern the context is that of a search of all that is appended. -/
theorem Searched.context (text : Bytes) (here : pattern = some text) :
    ∃ ss state place, sstringCompute (sstringInit text) thor.output.flatten = .ok ss ∧ thor.substringContext = some ss ∧
      Matching text ((Occurrences.scan text 0 0 thor.output.flatten).take MAX_OCCURANCE) state place ss := by
  obtain ⟨ss,state,place,ran,matching⟩ := sstringCompute_keeps text thor.output.flatten [] 0 0 _
    (sstringInit_matching text (some_pattern text here))
  subst here
  unfold Searched at searched
  simp only [ran] at searched
  exact ⟨ss,state,place,ran,searched,matching⟩

/-- The search of what is appended next does not fail. -/
theorem Searched.runs (running : ∀ fault, thor.place ≠ .aborted fault) (data : Bytes) :
    ∃ next, search (serverFlushTransaction thor data) data = .ok next ∧ Searched pattern next ∧
      next.place = thor.place := by
  rcases searched.grows running data with found | ⟨fault,failed,_⟩
  · exact found
  cases here : pattern with
  | none =>
    subst here
    have none : (serverFlushTransaction thor data).substringContext = none := searched
    rw [search,none] at failed
    cases failed
  | some text =>
    obtain ⟨ss,_,_,_,context,matching⟩ := searched.context some_pattern text here
    obtain ⟨next,_,_,ran,_⟩ := sstringCompute_keeps text data _ _ _ ss matching
    have there : (serverFlushTransaction thor data).substringContext = some ss := context
    rw [search,there] at failed
    simp only [ran,bind,Except.bind] at failed
    cases failed

/-- What is printed are the places at which a scan of all that is appended finds the pattern. -/
theorem Searched.printed (text : Bytes) (here : pattern = some text) (solid : 0 ∉ text) :
    printed thor = .ok (report text (((Occurrences.scan text 0 0 thor.output.flatten).take MAX_OCCURANCE).map location)) := by
  obtain ⟨ss,_,_,_,context,matching⟩ := searched.context some_pattern text here
  have few := matching.few
  have fits : ss.count ≤ ss.locations.length := by
    rw [matching.count,matching.locations,List.length_append,List.length_map,List.length_replicate]
    omega
  rw [Thor.printed,context]
  simp only
  rw [printSstring_report ss text [] matching.text solid fits,matching.recorded]

end Searched
end Spsc.Thor
