import Spsc.Wire

/-! `parse_data` gives back the fields that `client_socket_send` printed, and
the payload has none of the characters that end it early. -/
namespace Spsc.Wire
open Imperative Hash

theorem digitByte_spec (digit : Nat) (small : digit < 10) :
    isDigit (digitByte digit) = true ∧ (digitByte digit).toNat - 48 = digit := by
  revert digit
  decide

theorem decimal_nat (n : Nat) : decimal n = (Decimal.digits n).map digitByte := by
  rw [decimal,if_neg (by omega)]
  rfl

theorem decimal_isDigit (n : Nat) : ∀ byte ∈ decimal n, isDigit byte = true := by
  intro byte member
  rw [decimal_nat] at member
  obtain ⟨digit,inside,rfl⟩ := List.mem_map.mp member
  exact (digitByte_spec digit (Decimal.digits_lt n digit inside)).1

theorem decimal_not_mem (n : Nat) (byte : Byte) (other : isDigit byte = false) : byte ∉ decimal n := by
  intro member
  rw [decimal_isDigit n byte member] at other
  cases other

theorem decimal_head (n : Nat) : ∃ first rest, decimal n = first::rest ∧ isDigit first = true := by
  have some_digit : decimal n ≠ [] := by
    rw [decimal_nat]
    simpa using Decimal.digits_ne_nil n
  obtain ⟨first,rest,split⟩ := List.exists_cons_of_ne_nil some_digit
  exact ⟨first,rest,split,decimal_isDigit n first (split ▸ List.mem_cons_self)⟩

theorem decimal_length (n : Nat) (small : n ≤ 2^31) : (decimal n).length ≤ 10 := by
  rw [decimal_nat,List.length_map]
  exact Decimal.digits_length_le n 10 (by omega) (by omega)

theorem isDigit_not_space (byte : Byte) (digit : isDigit byte = true) :
    isSpace byte = false ∧ byte ≠ char '-' ∧ byte ≠ char '+' := by
  have other : ∀ value : Byte, isDigit value = false → byte ≠ value := by
    rintro _ none rfl
    rw [digit] at none
    cases none
  refine ⟨?_,other _ (by decide),other _ (by decide)⟩
  simp only [isDigit,Bool.and_eq_true,decide_eq_true_eq] at digit
  have low : 48 ≤ byte.toNat := UInt8.le_iff_toNat_le.mp digit.1
  have blank : byte ≠ 32 := other 32 (by decide)
  simp [isSpace,blank,UInt8.le_iff_toNat_le]
  omega

theorem atoi_decimal (n : Nat) (small : n < 2^31) : atoi (decimal n) = n := by
  obtain ⟨first,rest,split,digit⟩ := decimal_head n
  obtain ⟨solid,minus,plus⟩ := isDigit_not_space first digit
  have all : (decimal n).takeWhile isDigit = decimal n :=
    List.takeWhile_eq_self_iff.mpr (decimal_isDigit n)
  have back : (decimal n).map (fun byte => byte.toNat-48) = Decimal.digits n := by
    rw [decimal_nat,List.map_map]
    conv_rhs => rw [← List.map_id (Decimal.digits n)]
    exact List.map_congr_left (fun digit member => (digitByte_spec digit (Decimal.digits_lt n digit member)).2)
  have start : (decimal n).dropWhile isSpace = decimal n := by
    rw [split,List.dropWhile_cons_of_neg (by simp [solid])]
  have head : (decimal n).head? = some first := by rw [split]; rfl
  have minus' : ¬ (some first = some (char '-')) := fun same => minus (Option.some.inj same)
  have plus' : ¬ (some first = some (char '+')) := fun same => plus (Option.some.inj same)
  simp only [atoi,start,head,minus',plus',or_self,if_false,all,back,Decimal.value_digits]
  rw [min_eq_right (by omega),max_eq_right (by omega)]
  exact wrap32_small _ (by unfold INT_MAX; omega) (by unfold INT_MAX; omega)

theorem copyField_eq (field nums : Bytes) (room : field.length < nums.length) :
    copyField field nums = .ok (field ++ 0::nums.drop (field.length+1)) := by
  have copied := forLoop_closed (fun i nums => do
      let byte ← load Fault.bounds field i
      store .bounds nums i byte)
    (fun i => field.take i ++ nums.drop i) 0 field.length (by
      intro i _ high
      have bound : i < field.length := by omega
      rw [load_inside _ _ _ bound]
      simp only [bind,Except.bind]
      rw [List.drop_eq_getElem_cons (by omega : i < nums.length),
        store_middle _ _ _ _ _ _ (by simp; omega),List.take_succ_eq_append_getElem bound,List.append_assoc]
      rfl)
  simp only [List.take_zero,List.nil_append,List.drop_zero,Nat.zero_add,List.take_length] at copied
  unfold copyField
  rw [copied]
  simp only [bind,Except.bind]
  rw [List.drop_eq_getElem_cons room,store_middle _ _ _ _ _ _ rfl]

theorem find_comma (field rest : Bytes) (no_comma : char ',' ∉ field) :
    Search.find [char ','] (field ++ char ','::rest) = some field.length := by
  rw [Search.find_skip _ _ _ _ no_comma,Search.find_front _ _ (by simp)]
  simp

theorem parseField_field (field rest nums : Bytes) (no_comma : char ',' ∉ field) (solid : 0 ∉ field)
    (short : field.length < nums.length) :
    parseField (field ++ char ','::rest) nums =
      .ok (atoi field,rest,field ++ 0::nums.drop (field.length+1)) := by
  rw [parseField,find_comma field rest no_comma]
  simp only [List.take_left]
  rw [copyField_eq _ _ short]
  simp only [bind,Except.bind]
  rw [cString_terminated _ _ solid]
  simp

theorem parseField_decimal (n : Nat) (small : n < 2^31) (rest nums : Bytes) (size : nums.length = 24) :
    ∃ nums', parseField (decimal n ++ char ','::rest) nums = .ok ((n : Int),rest,nums') ∧
      nums'.length = 24 := by
  have short := decimal_length n small.le
  refine ⟨decimal n ++ 0::nums.drop ((decimal n).length+1),?_,by simp; omega⟩
  rw [parseField_field _ _ _ (decimal_not_mem n _ (by decide)) (decimal_not_mem n 0 (by decide)) (by omega),
    atoi_decimal n small]

theorem parseData_fields (num offset len : Nat) (md5 : Bytes) (numLow : 1 ≤ num) (numHigh : num < 2^31)
    (offsetLow : 1 ≤ offset) (offsetHigh : offset < 2^31) (lenHigh : len < 2^31)
    (some_md5 : md5 ≠ []) (fits : md5.length < 1024) :
    parseData (fields num offset len md5) = .ok ⟨num,offset,len,md5⟩ := by
  obtain ⟨nums,first,size⟩ := parseField_decimal num numHigh
    (decimal offset ++ char ','::(decimal len ++ char ','::md5)) (List.replicate 24 0) (by simp)
  obtain ⟨nums',second,size'⟩ := parseField_decimal offset offsetHigh (decimal len ++ char ','::md5) nums size
  obtain ⟨nums'',third,_⟩ := parseField_decimal len lenHigh md5 nums' size'
  unfold parseData fields
  rw [find_comma _ _ (decimal_not_mem num _ (by decide)),first]
  simp only [Option.isSome_some,bind,Except.bind]
  rw [assert_holds _ trivial,assert_holds _ (by omega)]
  simp only [second]
  rw [assert_holds _ (by omega)]
  simp only [third]
  rw [assert_holds _ (by omega)]
  simp only
  rw [if_neg (by unfold BIG_ENOUGH; omega),assert_holds _ some_md5]

theorem fields_length (num offset len : Nat) (md5 : Bytes) (numHigh : num < 2^31) (offsetHigh : offset < 2^31)
    (lenHigh : len < 2^31) : (fields num offset len md5).length ≤ 33 + md5.length := by
  have := decimal_length num numHigh.le
  have := decimal_length offset offsetHigh.le
  have := decimal_length len lenHigh.le
  simp only [fields,List.length_append,List.length_cons]
  omega

theorem decimal_outside (n : Int) (byte : Byte) (digit : isDigit byte = false) (sign : byte ≠ char '-') :
    byte ∉ decimal n := by
  have numeral := decimal_not_mem n.natAbs byte digit
  rw [decimal_nat] at numeral
  unfold decimal
  split
  · rw [List.mem_cons,not_or]
    exact ⟨sign,numeral⟩
  · exact numeral

/-- A character that no number and no comma is made of is in the payload only if
it is in the digest. -/
theorem fields_not_mem (num offset len : Int) (md5 : Bytes) (byte : Byte) (digit : isDigit byte = false)
    (sign : byte ≠ char '-') (comma : byte ≠ char ',') (outside : byte ∉ md5) :
    byte ∉ fields num offset len md5 := by
  simp only [fields,List.mem_append,List.mem_cons,not_or]
  exact ⟨decimal_outside num byte digit sign,comma,decimal_outside offset byte digit sign,comma,
    decimal_outside len byte digit sign,comma,outside⟩

end Spsc.Wire
