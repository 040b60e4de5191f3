import Dcurl.RemoteInterface

/-! The request that `remote_do_pow` publishes and `remote_worker` decodes. The body
ends where its C string does, and the worker hands four bytes to `strtol`. -/
namespace Dcurl

def isSpace (value : Int8) : Bool := value == 32 || (decide (9 ≤ value) && decide (value ≤ 13))

def isDigit (value : Int8) : Bool := decide (48 ≤ value) && decide (value ≤ 57)

def digitValue (value : Int8) : Nat := (value.toInt - 48).toNat

/-- The digits of `strtol` in base 10; none where it reads past the bytes. -/
def strtolDigits (acc : Nat) : List Int8 → Option Nat
  | [] => none
  | value :: rest =>
      if isDigit value then strtolDigits (acc * 10 + digitValue value) rest else some acc

/-- `strtol(bytes, NULL, 10)`; none where it reads past the bytes. -/
def strtol (bytes : List Int8) : Option Int :=
  match bytes.dropWhile isSpace with
  | [] => none
  | sign :: rest =>
      if sign = 45 then (strtolDigits 0 rest).map fun n : Nat => -(n : Int)
      else if sign = 43 then (strtolDigits 0 rest).map fun n : Nat => (n : Int)
      else (strtolDigits 0 (sign :: rest)).map fun n : Nat => (n : Int)

def receiveBuffer (body : List Int8) (following : Nat → Int8) (i : Nat) : Int8 :=
  body[i]?.getD (following (i - body.length))

/-- What `remote_worker` takes from the buffer: the transaction and the weight. -/
def decodeRequest (buffer : Nat → Int8) : Option (Vector Int8 2673 × Int) :=
  let trytes := Vector.ofFn fun i : Fin 2673 => buffer i
  let buf := Vector.ofFn fun i : Fin 4 => buffer (2673 + i)
  (strtol buf.toList).map fun mwm => (trytes, mwm)

def RoundTrips (buf : Vector Int8 4) (inputTrytes : Vector Int8 2673) (mwm : Nat)
    (following : Nat → Int8) : Prop :=
  decodeRequest (receiveBuffer (messageBytes buf inputTrytes mwm) following) =
    some (inputTrytes, (mwm : Int))

/-- No digit follows the body, or it is the weight 0 and what follows are zeros that
end within the four bytes. -/
def Delimited (mwm : Nat) (following : Nat → Int8) : Prop :=
  isDigit (following 0) = false ∨
    mwm = 0 ∧ following 0 = 48 ∧
      (isDigit (following 1) = false ∨ following 1 = 48 ∧ isDigit (following 2) = false)

section digits

def digitByte (k : Nat) : Int8 := Int8.ofNat k.digitChar.toNat

theorem digitByte_spec : ∀ k < 10, isDigit (digitByte k) = true ∧ digitValue (digitByte k) = k ∧
    digitByte k ≠ 0 := by
  decide

theorem decimal_of_lt {n : Nat} (hn : n < 10) : decimal n = [digitByte n] := by
  unfold decimal
  rw [Nat.toDigits_of_lt_base hn]
  rfl

theorem decimal_of_le {n : Nat} (hn : 10 ≤ n) :
    decimal n = decimal (n / 10) ++ [digitByte (n % 10)] := by
  unfold decimal
  rw [Nat.toDigits_of_base_le (by decide) hn, List.map_append]
  rfl

theorem isDigit_of_mem_decimal (n : Nat) :
    ∀ value ∈ decimal n, isDigit value = true ∧ value ≠ 0 := by
  induction n using Nat.strong_induction_on with
  | _ n ih =>
      intro value hmem
      by_cases hn : n < 10
      · rw [decimal_of_lt hn, List.mem_singleton] at hmem
        have ⟨hdigit, _, hne⟩ := digitByte_spec n hn
        exact hmem ▸ ⟨hdigit, hne⟩
      · rw [decimal_of_le (by omega), List.mem_append, List.mem_singleton] at hmem
        cases hmem with
        | inl hrest => exact ih (n / 10) (by omega) value hrest
        | inr hlast =>
            have ⟨hdigit, _, hne⟩ := digitByte_spec (n % 10) (by omega)
            exact hlast ▸ ⟨hdigit, hne⟩

theorem length_decimal {n : Nat} (hn : n < 1000) :
    1 ≤ (decimal n).length ∧ (decimal n).length ≤ 3 := by
  by_cases hone : n < 10
  · rw [decimal_of_lt hone]
    simp
  · rw [decimal_of_le (by omega), List.length_append, List.length_singleton]
    by_cases htwo : n / 10 < 10
    · rw [decimal_of_lt htwo]
      simp
    · rw [decimal_of_le (by omega), List.length_append, List.length_singleton,
        decimal_of_lt (by omega)]
      simp

theorem strtolDigits_decimal (n : Nat) (rest : List Int8) :
    strtolDigits 0 (decimal n ++ rest) = strtolDigits n rest := by
  induction n using Nat.strong_induction_on generalizing rest with
  | _ n ih =>
      by_cases hn : n < 10
      · have ⟨hdigit, hvalue, _⟩ := digitByte_spec n hn
        rw [decimal_of_lt hn, List.singleton_append, strtolDigits, if_pos hdigit, hvalue,
          Nat.zero_mul, Nat.zero_add]
      · have ⟨hdigit, hvalue, _⟩ := digitByte_spec (n % 10) (by omega)
        rw [decimal_of_le (by omega), List.append_assoc, ih (n / 10) (by omega),
          List.singleton_append, strtolDigits, if_pos hdigit, hvalue, Nat.div_add_mod']

theorem strtolDigits_cons (n : Nat) (value : Int8) (rest : List Int8) :
    strtolDigits n (value :: rest) =
      if isDigit value then strtolDigits (n * 10 + digitValue value) rest else some n := rfl

theorem le_of_strtolDigits {acc n : Nat} {bytes : List Int8}
    (h : strtolDigits acc bytes = some n) : acc ≤ n := by
  induction bytes generalizing acc with
  | nil => cases h
  | cons value rest ih =>
      unfold strtolDigits at h
      split at h
      · have hle := ih h
        omega
      · exact le_of_eq (Option.some.inj h)

theorem digitValue_eq_zero_iff {value : Int8} (hdigit : isDigit value = true) :
    digitValue value = 0 ↔ value = 48 := by
  unfold isDigit at hdigit
  rw [Bool.and_eq_true, decide_eq_true_eq, Int8.le_iff_toInt_le] at hdigit
  have hle : 48 ≤ value.toInt := hdigit.1
  unfold digitValue
  constructor
  · intro hzero
    apply Int8.toInt_inj.mp
    change value.toInt = 48
    omega
  · intro heq
    rw [heq]
    rfl

/-- One more byte leaves the number as it is only if it is no digit, or the digit 0
after the number 0. -/
theorem strtolDigits_eq_self_iff {n : Nat} {value : Int8} {rest : List Int8} :
    strtolDigits n (value :: rest) = some n ↔
      isDigit value = false ∨ n = 0 ∧ value = 48 ∧ strtolDigits 0 rest = some 0 := by
  rw [strtolDigits_cons]
  cases hdigit : isDigit value with
  | false => simp
  | true =>
      rw [if_pos rfl]
      constructor
      · intro h
        have hle := le_of_strtolDigits h
        have hn : n = 0 := by omega
        have hvalue : digitValue value = 0 := by omega
        rw [hn, hvalue] at h
        exact Or.inr ⟨hn, (digitValue_eq_zero_iff hdigit).mp hvalue, h⟩
      · intro h
        have ⟨hn, hvalue, hrest⟩ := h.resolve_left Bool.noConfusion
        rw [hn, (digitValue_eq_zero_iff hdigit).mpr hvalue]
        exact hrest

theorem strtol_of_isDigit {value : Int8} {rest : List Int8} (hdigit : isDigit value = true) :
    strtol (value :: rest) = (strtolDigits 0 (value :: rest)).map fun n : Nat => (n : Int) := by
  have hplain : ∀ value : Int8, isDigit value = true → isSpace value = false ∧ value ≠ 45 ∧
      value ≠ 43 := by
    apply forall_int8
    decide
  have ⟨hspace, hminus, hplus⟩ := hplain value hdigit
  unfold strtol
  rw [List.dropWhile_cons_of_neg (by rw [hspace]; exact Bool.false_ne_true)]
  simp only [hminus, hplus, if_false]

end digits

section request

variable {buf : Vector Int8 4} {inputTrytes : Vector Int8 2673} {mwm : Nat}
  {following : Nat → Int8}

theorem toList_printMwm (buf : Vector Int8 4) (hlength : (decimal mwm).length ≤ 3) :
    (printMwm buf mwm).toList =
      decimal mwm ++ 0 :: buf.toList.drop ((decimal mwm).length + 1) := by
  unfold printMwm
  rw [List.take_of_length_le hlength]
  rw [← List.singleton_append (x := 0) (l := buf.toList.drop _), ← List.append_assoc]
  apply List.ext_getElem
  · simp
    omega
  · intro i hi _
    rw [Vector.length_toList] at hi
    rw [Vector.getElem_toList, getElem_memcpy, if_pos (Nat.zero_le i), Nat.sub_zero]
    by_cases hlt : i < (decimal mwm ++ [0]).length
    · rw [List.getElem?_eq_getElem hlt, List.getElem_append_left hlt, Option.getD_some]
    · have hle := Nat.le_of_not_lt hlt
      have hlast : (decimal mwm ++ [0]).length = (decimal mwm).length + 1 := by simp
      rw [List.getElem?_eq_none hle, List.getElem_append_right hle, List.getElem_drop,
        Option.getD_none, Vector.getElem_toList]
      congr 1
      omega

theorem messageBytes_eq (hvalid : inputTrytes.toList.all isTryte = true) (hmwm : mwm ≤ 243) :
    messageBytes buf inputTrytes mwm = inputTrytes.toList ++ decimal mwm := by
  have htrytes : ∀ value ∈ inputTrytes.toList, decide (value ≠ 0) = true := by
    intro value hmem
    have htryte := List.all_eq_true.mp hvalid value hmem
    rw [decide_eq_true_eq]
    intro hzero
    rw [hzero] at htryte
    cases htryte
  have hdigits : ∀ value ∈ decimal mwm, decide (value ≠ 0) = true := by
    intro value hmem
    rw [decide_eq_true_eq]
    exact (isDigit_of_mem_decimal mwm value hmem).2
  unfold messageBytes
  rw [toList_printMwm buf (length_decimal (by omega)).2, List.takeWhile_append_of_pos htrytes,
    List.takeWhile_append_of_pos hdigits, List.takeWhile_cons_of_neg (by decide), List.append_nil]

theorem parsed_eq (hmwm : mwm ≤ 243) :
    (Vector.ofFn fun i : Fin 4 =>
      receiveBuffer (inputTrytes.toList ++ decimal mwm) following (2673 + i)).toList =
      decimal mwm ++ (List.range (4 - (decimal mwm).length)).map following := by
  have hlength := length_decimal (n := mwm) (by omega)
  apply List.ext_getElem
  · simp
    omega
  · intro i hi _
    rw [Vector.getElem_toList, Vector.getElem_ofFn]
    unfold receiveBuffer
    rw [List.getElem?_append_right (by simp), List.length_append, Vector.length_toList]
    rw [show 2673 + i - 2673 = i by omega,
      show 2673 + i - (2673 + (decimal mwm).length) = i - (decimal mwm).length by omega]
    by_cases hlt : i < (decimal mwm).length
    · rw [List.getElem?_eq_getElem hlt, List.getElem_append_left hlt, Option.getD_some]
    · have hle := Nat.le_of_not_lt hlt
      rw [List.getElem?_eq_none hle, List.getElem_append_right hle, Option.getD_none,
        List.getElem_map, List.getElem_range]

theorem decodeRequest_eq (hmwm : mwm ≤ 243) :
    decodeRequest (receiveBuffer (inputTrytes.toList ++ decimal mwm) following) =
      (strtolDigits mwm ((List.range (4 - (decimal mwm).length)).map following)).map
        fun n : Nat => (inputTrytes, (n : Int)) := by
  have htrytes : (Vector.ofFn fun i : Fin 2673 =>
      receiveBuffer (inputTrytes.toList ++ decimal mwm) following i) = inputTrytes := by
    ext i hi
    rw [Vector.getElem_ofFn]
    unfold receiveBuffer
    rw [List.getElem?_append_left (by simpa using hi), List.getElem?_eq_getElem (by simpa using hi),
      Option.getD_some, Vector.getElem_toList]
  have hlength := length_decimal (n := mwm) (by omega)
  unfold decodeRequest
  simp only [parsed_eq hmwm, htrytes]
  rw [← strtolDigits_decimal]
  cases hdecimal : decimal mwm with
  | nil =>
      rw [hdecimal] at hlength
      cases hlength.1
  | cons first rest =>
      have hmem : first ∈ decimal mwm := hdecimal ▸ List.mem_cons_self
      rw [List.cons_append, strtol_of_isDigit (isDigit_of_mem_decimal mwm first hmem).1,
        Option.map_map]
      rfl

theorem roundTrips_iff_parses (hvalid : inputTrytes.toList.all isTryte = true)
    (hmwm : mwm ≤ 243) :
    RoundTrips buf inputTrytes mwm following ↔
      strtolDigits mwm ((List.range (4 - (decimal mwm).length)).map following) = some mwm := by
  unfold RoundTrips
  rw [messageBytes_eq hvalid hmwm, decodeRequest_eq hmwm, Option.map_eq_some_iff]
  constructor
  · intro ⟨n, hn, heq⟩
    rw [hn]
    simpa using heq
  · intro h
    exact ⟨mwm, h, rfl⟩

end request

/-- The request round-trips exactly when what follows the body cannot be taken for
more digits of its weight. -/
theorem request_roundTrips_iff (buf : Vector Int8 4) (inputTrytes : Vector Int8 2673) (mwm : Nat)
    (following : Nat → Int8) (hvalid : inputTrytes.toList.all isTryte = true)
    (hmwm : mwm ≤ 243) :
    RoundTrips buf inputTrytes mwm following ↔ Delimited mwm following := by
  have hlength := length_decimal (n := mwm) (by omega)
  rw [roundTrips_iff_parses hvalid hmwm]
  unfold Delimited
  by_cases hzero : mwm = 0
  · subst hzero
    have hthree : (List.range (4 - (decimal 0).length)).map following =
        [following 0, following 1, following 2] := rfl
    rw [hthree, strtolDigits_eq_self_iff, strtolDigits_eq_self_iff, strtolDigits_eq_self_iff]
    simp [strtolDigits]
  · have ⟨k, hk⟩ : ∃ k, 4 - (decimal mwm).length = k + 1 := ⟨3 - (decimal mwm).length, by omega⟩
    rw [hk, List.range_succ_eq_map, List.map_cons, strtolDigits_eq_self_iff]
    simp [hzero]

theorem request_roundTrips_iff_zeroed :
    RoundTrips (Vector.replicate 4 0) (Vector.replicate 2673 57) 14 (fun _ => 0) ↔
      Delimited 14 (fun _ => 0) :=
  request_roundTrips_iff _ _ 14 _ nines_valid (by decide)

/-- A zero that an earlier request left after the body makes 140 of the weight 14. -/
theorem not_roundTrips_stale : ¬∀ (buf : Vector Int8 4) (inputTrytes : Vector Int8 2673) (mwm : Nat)
    (following : Nat → Int8), inputTrytes.toList.all isTryte = true → mwm ≤ 243 →
      RoundTrips buf inputTrytes mwm following := by
  intro h
  have htrip := h (Vector.replicate 4 0) (Vector.replicate 2673 57) 14
    (fun i => if i = 0 then 48 else 0) nines_valid (by decide)
  rw [roundTrips_iff_parses nines_valid (by decide)] at htrip
  revert htrip
  decide

end Dcurl
