import Spsc.Wire.Parse
import Spsc.Wire.Receive

/-! Which payloads `parse_data` gets through. It looks for a first comma, but
takes the second and the third one for granted, and copies what stands before
each of them into 24 bytes. -/
namespace Spsc.Wire
open Imperative Hash

theorem copyField_short (field nums next : Bytes) (ran : copyField field nums = .ok next) :
    field.length < nums.length := by
  obtain ⟨copied,loop,last⟩ := bind_ok _ _ _ ran
  have size : copied.length = nums.length := by
    refine forLoop_kept _ (fun buffer => buffer.length = nums.length) 0 field.length nums copied ?_ rfl loop
    intro i buffer after same turn
    obtain ⟨byte,_,stored⟩ := bind_ok _ _ _ turn
    obtain ⟨_,_,rfl⟩ := store_ok _ _ _ _ _ stored
    rw [List.length_set,same]
  have inside := (store_ok _ _ _ _ _ last).2.1
  omega

theorem parseField_ok (t nums rest next : Bytes) (value : Int) (solid : 0 ∉ t)
    (ran : parseField t nums = .ok (value,rest,next)) :
    ∃ field, t = field ++ char ','::rest ∧ char ',' ∉ field ∧ field.length < nums.length ∧ value = atoi field ∧
      next.length = nums.length := by
  cases found : Search.find [char ','] t with
  | none =>
    rw [parseField,found] at ran
    cases ran
  | some comma =>
    obtain ⟨field,behind,rfl,no_comma,rfl⟩ := Search.find_single _ _ _ found
    have short : field.length < nums.length := by
      rw [parseField,found] at ran
      obtain ⟨copied,done,_⟩ := bind_ok _ _ _ ran
      rw [List.take_left] at done
      exact copyField_short field nums copied done
    have same := parseField_field field behind nums no_comma (fun member => solid (by simp [member])) short
    obtain ⟨rfl,rfl,rfl⟩ := Prod.mk.inj (Except.ok.inj (ran.symm.trans same)) |>.imp id Prod.mk.inj
    refine ⟨field,rfl,no_comma,short,rfl,?_⟩
    simp only [List.length_append,List.length_cons,List.length_drop]
    omega

/-- Three numbers in the ranges that are asserted, each before a comma and short
enough for `nums`, and a text behind them. -/
def Parsable (payload : Bytes) : Prop :=
  ∃ num offset len md5, payload = num ++ char ','::(offset ++ char ','::(len ++ char ','::md5)) ∧
    (∀ field ∈ [num,offset,len], char ',' ∉ field ∧ field.length < 24) ∧
    0 < atoi num ∧ 0 < atoi offset ∧ 0 ≤ atoi len ∧ md5 ≠ []

/-- What a call that returns has read, field by field, and what it has asserted. -/
theorem parseData_ok (payload : Bytes) (parsed : Parsed) (ran : parseData payload = .ok parsed) :
    ∃ t t' nums nums' nums'', parseField payload (List.replicate 24 0) = .ok (parsed.num,t,nums) ∧
      parseField t nums = .ok (parsed.offset,t',nums') ∧ parseField t' nums' = .ok (parsed.len,parsed.md5,nums'') ∧
      0 < parsed.num ∧ 0 < parsed.offset ∧ 0 ≤ parsed.len ∧ parsed.md5 ≠ [] := by
  obtain ⟨_,_,ran⟩ := bind_ok _ _ _ ran
  obtain ⟨⟨num,t,nums⟩,first,ran⟩ := bind_ok _ _ _ ran
  obtain ⟨_,numLow,ran⟩ := bind_ok _ _ _ ran
  obtain ⟨⟨offset,t',nums'⟩,second,ran⟩ := bind_ok _ _ _ ran
  obtain ⟨_,offsetLow,ran⟩ := bind_ok _ _ _ ran
  obtain ⟨⟨len,t'',nums''⟩,third,ran⟩ := bind_ok _ _ _ ran
  obtain ⟨_,lenLow,ran⟩ := bind_ok _ _ _ ran
  split at ran
  · cases ran
  obtain ⟨_,some_text,ran⟩ := bind_ok _ _ _ ran
  obtain rfl := Except.ok.inj ran
  exact ⟨t,t',nums,nums',nums'',first,second,third,assert_ok _ numLow,assert_ok _ offsetLow,assert_ok _ lenLow,
    assert_ok _ some_text⟩

theorem parsable_of_parseData (payload : Bytes) (parsed : Parsed) (solid : 0 ∉ payload)
    (ran : parseData payload = .ok parsed) : Parsable payload := by
  obtain ⟨t,t',nums,nums',nums'',first,second,third,numLow,offsetLow,lenLow,some_text⟩ := parseData_ok payload parsed ran
  obtain ⟨field,rfl,no_comma,short,num,size⟩ := parseField_ok _ _ _ _ _ solid first
  have solid' : 0 ∉ t := fun member => solid (by simp [member])
  obtain ⟨field',rfl,no_comma',short',offset,size'⟩ := parseField_ok _ _ _ _ _ solid' second
  have solid'' : 0 ∉ t' := fun member => solid' (by simp [member])
  obtain ⟨field'',rfl,no_comma'',short'',len,_⟩ := parseField_ok _ _ _ _ _ solid'' third
  rw [List.length_replicate] at size short
  rw [num] at numLow
  rw [offset] at offsetLow
  rw [len] at lenLow
  refine ⟨field,field',field'',parsed.md5,rfl,?_,numLow,offsetLow,lenLow,some_text⟩
  simp only [List.forall_mem_cons]
  exact ⟨⟨no_comma,short⟩,⟨no_comma',by omega⟩,⟨no_comma'',by omega⟩,by simp⟩

theorem parseData_of_parsable (payload : Bytes) (solid : 0 ∉ payload) (short : payload.length ≤ 1004)
    (parsable : Parsable payload) : ∃ parsed, parseData payload = .ok parsed := by
  obtain ⟨num,offset,len,md5,rfl,fields_fit,numLow,offsetLow,lenLow,some_md5⟩ := parsable
  obtain ⟨numFits,offsetFits,lenFits⟩ : (char ',' ∉ num ∧ num.length < 24) ∧
      (char ',' ∉ offset ∧ offset.length < 24) ∧ (char ',' ∉ len ∧ len.length < 24) := by
    simpa using fields_fit
  simp only [List.mem_append,List.mem_cons,not_or] at solid
  obtain ⟨numSolid,_,offsetSolid,_,lenSolid,_,_⟩ := solid
  have first := parseField_field num (offset ++ char ','::(len ++ char ','::md5)) (List.replicate 24 0) numFits.1
    numSolid (by rw [List.length_replicate]; exact numFits.2)
  have second := parseField_field offset (len ++ char ','::md5) (num ++ 0::(List.replicate 24 0).drop (num.length+1))
    offsetFits.1 offsetSolid (by simp; omega)
  have third := parseField_field len md5 (offset ++ 0::(num ++ 0::(List.replicate 24 0).drop (num.length+1)).drop
    (offset.length+1)) lenFits.1 lenSolid (by simp; omega)
  have room : ¬ BIG_ENOUGH ≤ md5.length := by
    simp only [List.length_append,List.length_cons] at short
    unfold BIG_ENOUGH
    omega
  refine ⟨⟨atoi num,atoi offset,atoi len,md5⟩,?_⟩
  unfold parseData
  rw [find_comma _ _ numFits.1,first]
  simp only [Option.isSome_some,bind,Except.bind]
  rw [assert_holds _ trivial,assert_holds _ numLow]
  simp only [second]
  rw [assert_holds _ offsetLow]
  simp only [third]
  rw [assert_holds _ lenLow]
  simp only
  rw [if_neg room,assert_holds _ some_md5]

/-- `parse_data` gets through a payload exactly when it is well formed; on any
other one an assertion fails or a copy leaves its buffer. -/
theorem parseData_survives (payload : Bytes) (solid : 0 ∉ payload) (short : payload.length ≤ 1004) :
    (∃ parsed, parseData payload = .ok parsed) ↔ Parsable payload :=
  ⟨fun ⟨parsed,ran⟩ => parsable_of_parseData payload parsed solid ran,
    parseData_of_parsable payload solid short⟩

theorem parseData_survives_frame : ∃ parsed, parseData (ascii ['1',',','2',',','0',',','A']) = .ok parsed :=
  (parseData_survives (ascii ['1',',','2',',','0',',','A']) (by decide) (by decide)).mpr
    ⟨ascii ['1'],ascii ['2'],ascii ['0'],ascii ['A'],rfl,by decide,by decide,by decide,by decide,by decide⟩

/-- The second comma is missing, and the copy of the offset runs out of `nums`. -/
theorem parseData_dies :
    rcvLoop (serverSocketRcv memmove) .start [framed (ascii ['1',',','2'])] = .ok (.frame (ascii ['1',',','2']),[]) ∧
    parseData (ascii ['1',',','2']) = .error .bounds := by
  decide +kernel

end Spsc.Wire
