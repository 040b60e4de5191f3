import Dcurl.Constants
import Dcurl.Spec.Trit

/-! `trinary.c`: objects that hold trits or trytes, and the scalar conversions
between them. Allocation is taken to succeed, and the length of an object is
the length of its data; three times the number of trytes is taken to fit the
`int` that holds it. -/
namespace Dcurl

inductive TrinaryType where
  | trits
  | trytes
  deriving DecidableEq

structure TrinaryObject where
  data : List Int8
  type : TrinaryType

def trytesToTritsMappings : List (List Int8) :=
  [[0, 0, 0], [1, 0, 0], [-1, 1, 0], [0, 1, 0], [1, 1, 0], [-1, -1, 1],
    [0, -1, 1], [1, -1, 1], [-1, 0, 1], [0, 0, 1], [1, 0, 1], [-1, 1, 1],
    [0, 1, 1], [1, 1, 1], [-1, -1, -1], [0, -1, -1], [1, -1, -1], [-1, 0, -1],
    [0, 0, -1], [1, 0, -1], [-1, 1, -1], [0, 1, -1], [1, 1, -1], [-1, -1, 0],
    [0, -1, 0], [1, -1, 0], [-1, 0, 0]]

def isTrit (value : Int8) : Bool := !(value < -1 || value > 1)

def isTryte (value : Int8) : Bool := !((value < 65 || value > 90) && value != 57)

def validateTrits (object : TrinaryObject) : Bool :=
  object.type = .trits && object.data.all isTrit

def validateTrytes (object : TrinaryObject) : Bool :=
  object.type = .trytes && object.data.all isTryte

def initTrits (src : List Int8) : Option TrinaryObject :=
  let trits : TrinaryObject := ⟨src, .trits⟩
  if validateTrits trits then some trits else none

/-- In the scalar build, which looks at every byte. -/
def initTrytes (src : List Int8) : Option TrinaryObject :=
  let trytes : TrinaryObject := ⟨src, .trytes⟩
  if validateTrytes trytes then some trytes else none

/-- The body of the loop of `trytes_from_trits`, in `int` arithmetic. -/
def tryteOfTrits (first second third : Int8) : Int8 :=
  let j := first.toInt + second.toInt * 3 + third.toInt * 9
  let j := if j < 0 then j + 27 else j
  tryteAlphabet.getD j.toNat 0

def packTrits : List Int8 → List Int8
  | first :: second :: third :: rest => tryteOfTrits first second third :: packTrits rest
  | _ => []

/-- `none` is the `NULL` pointer. -/
def trytesFromTrits : Option TrinaryObject → Option TrinaryObject
  | none => none
  | some trits =>
      if trits.data.length % 3 ≠ 0 || !validateTrits trits then none
      else initTrytes (packTrits trits.data)

/-- The body of the loop of `trits_from_trytes`. -/
def tritsOfTryte (tryte : Int8) : List Int8 :=
  let idx := if tryte = 57 then 0 else tryte.toInt - 65 + 1
  trytesToTritsMappings.getD idx.toNat []

def unpackTrytes (trytes : List Int8) : List Int8 := trytes.flatMap tritsOfTryte

def tritsFromTrytes : Option TrinaryObject → Option TrinaryObject
  | none => none
  | some trytes =>
      if !validateTrytes trytes then none
      else initTrits (unpackTrytes trytes.data)

section element

theorem forall_int8 {p : Int8 → Prop} (h : ∀ bits : BitVec 8, p (Int8.ofBitVec bits))
    (value : Int8) : p value := h value.toBitVec

theorem isTrit_iff (value : Int8) :
    isTrit value = true ↔ ∃ trit : Trit, trit.toInt8 = value := by
  have hdecode : isTrit value = (Trit.ofInt8 value).isSome := by
    revert value
    apply forall_int8
    decide
  rw [hdecode, Option.isSome_iff_exists]
  constructor
  · intro ⟨trit, h⟩
    exact ⟨trit, Trit.toInt8_of_ofInt8 h⟩
  · intro ⟨trit, h⟩
    exact ⟨trit, by rw [← h, Trit.ofInt8_toInt8]⟩

@[simp] theorem isTrit_toInt8 (trit : Trit) : isTrit trit.toInt8 = true :=
  (isTrit_iff _).mpr ⟨trit, rfl⟩

theorem isTryte_iff_mem (value : Int8) :
    isTryte value = true ↔ value ∈ tryteAlphabet := by
  revert value
  apply forall_int8
  decide

theorem tritsOfTryte_spec {tryte : Int8} (htryte : isTryte tryte = true) :
    ∃ first second third : Trit,
      tritsOfTryte tryte = [first.toInt8, second.toInt8, third.toInt8] ∧
        tryteOfTrits first.toInt8 second.toInt8 third.toInt8 = tryte := by
  have htable : tryteAlphabet.all fun value =>
      [Trit.neg, .zero, .pos].any fun first => [Trit.neg, .zero, .pos].any fun second =>
        [Trit.neg, .zero, .pos].any fun third =>
          tritsOfTryte value == [first.toInt8, second.toInt8, third.toInt8] &&
            tryteOfTrits first.toInt8 second.toInt8 third.toInt8 == value := by
    decide
  have hentry := List.all_eq_true.mp htable tryte ((isTryte_iff_mem tryte).mp htryte)
  simp only [List.any_eq_true, Bool.and_eq_true, beq_iff_eq] at hentry
  have ⟨first, _, second, _, third, _, h⟩ := hentry
  exact ⟨first, second, third, h⟩

theorem tryteOfTrits_spec (first second third : Trit) :
    isTryte (tryteOfTrits first.toInt8 second.toInt8 third.toInt8) = true ∧
      tritsOfTryte (tryteOfTrits first.toInt8 second.toInt8 third.toInt8) =
        [first.toInt8, second.toInt8, third.toInt8] := by
  cases first <;> cases second <;> cases third <;> decide

end element

section lists

variable {trytes trits : List Int8}

theorem unpackTrytes_replicate {tryte trit : Int8}
    (htrits : tritsOfTryte tryte = List.replicate 3 trit) (n : Nat) :
    unpackTrytes (List.replicate n tryte) = List.replicate (n * 3) trit := by
  rw [unpackTrytes, List.flatMap_replicate, htrits, List.flatten_replicate_replicate]

theorem unpackTrytes_append (left right : List Int8) :
    unpackTrytes (left ++ right) = unpackTrytes left ++ unpackTrytes right :=
  List.flatMap_append

theorem length_unpackTrytes (h : trytes.all isTryte = true) :
    (unpackTrytes trytes).length = 3 * trytes.length := by
  induction trytes with
  | nil => rfl
  | cons tryte rest ih =>
      rw [List.all_cons, Bool.and_eq_true] at h
      obtain ⟨first, second, third, htrits, _⟩ := tritsOfTryte_spec h.1
      rw [unpackTrytes, List.flatMap_cons, htrits, List.length_append, List.length_cons]
      have := ih h.2
      rw [unpackTrytes] at this
      simp only [List.length_cons, List.length_nil, this]
      omega

theorem all_isTrit_unpackTrytes (h : trytes.all isTryte = true) :
    (unpackTrytes trytes).all isTrit = true := by
  rw [unpackTrytes, List.all_flatMap, List.all_eq_true]
  intro tryte hmem
  obtain ⟨first, second, third, htrits, _⟩ :=
    tritsOfTryte_spec (List.all_eq_true.mp h tryte hmem)
  rw [htrits]
  simp

@[simp] theorem packTrits_unpackTrytes (h : trytes.all isTryte = true) :
    packTrits (unpackTrytes trytes) = trytes := by
  induction trytes with
  | nil => rfl
  | cons tryte rest ih =>
      rw [List.all_cons, Bool.and_eq_true] at h
      obtain ⟨first, second, third, htrits, hpack⟩ := tritsOfTryte_spec h.1
      have hrest := ih h.2
      rw [unpackTrytes] at hrest ⊢
      rw [List.flatMap_cons, htrits]
      simp only [List.cons_append, List.nil_append, packTrits, hpack, hrest]

theorem packTrits_spec (hlength : trits.length % 3 = 0) (h : trits.all isTrit = true) :
    (packTrits trits).all isTryte = true ∧ unpackTrytes (packTrits trits) = trits := by
  induction trits using packTrits.induct with
  | case1 first second third rest ih =>
      simp only [List.all_cons, Bool.and_eq_true] at h
      obtain ⟨hfirst, hsecond, hthird, hrest⟩ := h
      obtain ⟨first, rfl⟩ := (isTrit_iff _).mp hfirst
      obtain ⟨second, rfl⟩ := (isTrit_iff _).mp hsecond
      obtain ⟨third, rfl⟩ := (isTrit_iff _).mp hthird
      have hspec := tryteOfTrits_spec first second third
      have hih := ih (by simp only [List.length_cons] at hlength; omega) hrest
      constructor
      · rw [packTrits, List.all_cons, hspec.1, hih.1]
        rfl
      · rw [packTrits, unpackTrytes, List.flatMap_cons, hspec.2, ← unpackTrytes, hih.2]
        rfl
  | case2 trits hshort =>
      match trits, hlength, hshort with
      | [], _, _ => exact ⟨rfl, rfl⟩
      | first :: second :: third :: rest, _, hshort =>
          exact absurd rfl (hshort first second third rest)

theorem length_packTrits (trits : List Int8) : (packTrits trits).length = trits.length / 3 := by
  induction trits using packTrits.induct with
  | case1 first second third rest ih =>
      rw [packTrits, List.length_cons, ih]
      simp only [List.length_cons]
      omega
  | case2 trits hshort =>
      match trits, hshort with
      | [], _ => rfl
      | [_], _ => simp [packTrits]
      | [_, _], _ => simp [packTrits]
      | first :: second :: third :: rest, hshort =>
          exact absurd rfl (hshort first second third rest)

end lists

section objects

theorem initTrits_eq_some_iff {src : List Int8} {object : TrinaryObject} :
    initTrits src = some object ↔ src.all isTrit = true ∧ object = ⟨src, .trits⟩ := by
  unfold initTrits validateTrits
  by_cases h : src.all isTrit = true <;> simp [h, eq_comm]

theorem initTrytes_eq_some_iff {src : List Int8} {object : TrinaryObject} :
    initTrytes src = some object ↔ src.all isTryte = true ∧ object = ⟨src, .trytes⟩ := by
  unfold initTrytes validateTrytes
  by_cases h : src.all isTryte = true <;> simp [h, eq_comm]

theorem initTrits_of_valid {src : List Int8} (h : src.all isTrit = true) :
    initTrits src = some ⟨src, .trits⟩ := initTrits_eq_some_iff.mpr ⟨h, rfl⟩

theorem initTrytes_of_valid {src : List Int8} (h : src.all isTryte = true) :
    initTrytes src = some ⟨src, .trytes⟩ := initTrytes_eq_some_iff.mpr ⟨h, rfl⟩

theorem tritsFromTrytes_of_valid {trytes : List Int8} (h : trytes.all isTryte = true) :
    tritsFromTrytes (some ⟨trytes, .trytes⟩) = some ⟨unpackTrytes trytes, .trits⟩ := by
  unfold tritsFromTrytes validateTrytes
  simp only [h]
  exact initTrits_of_valid (all_isTrit_unpackTrytes h)

theorem trytesFromTrits_of_valid {trits : List Int8} (hlength : trits.length % 3 = 0)
    (h : trits.all isTrit = true) :
    trytesFromTrits (some ⟨trits, .trits⟩) = some ⟨packTrits trits, .trytes⟩ := by
  unfold trytesFromTrits validateTrits
  simp only [h, hlength]
  exact initTrytes_of_valid (packTrits_spec hlength h).1

end objects

section conversions

theorem all_isTryte_iff {trytes : List Int8} :
    trytes.all isTryte = true ↔ ∀ value ∈ trytes, value ∈ tryteAlphabet := by
  rw [List.all_eq_true]
  exact forall₂_congr fun value _ => isTryte_iff_mem value

theorem isTrit_iff_eq (value : Int8) :
    isTrit value = true ↔ value = -1 ∨ value = 0 ∨ value = 1 := by
  rw [isTrit_iff]
  constructor
  · intro ⟨trit, htrit⟩
    cases trit with
    | neg => exact Or.inl htrit.symm
    | zero => exact Or.inr (Or.inl htrit.symm)
    | pos => exact Or.inr (Or.inr htrit.symm)
  · rintro (rfl | rfl | rfl)
    · exact ⟨.neg, rfl⟩
    · exact ⟨.zero, rfl⟩
    · exact ⟨.pos, rfl⟩

theorem all_isTrit_iff {trits : List Int8} :
    trits.all isTrit = true ↔ ∀ value ∈ trits, value = -1 ∨ value = 0 ∨ value = 1 := by
  rw [List.all_eq_true]
  exact forall₂_congr fun value _ => isTrit_iff_eq value

def TrinaryObject.IsTrytes (object : TrinaryObject) : Prop :=
  object.type = .trytes ∧ ∀ value ∈ object.data, value ∈ tryteAlphabet

def TrinaryObject.IsTrits (object : TrinaryObject) : Prop :=
  object.type = .trits ∧ (∀ value ∈ object.data, value = -1 ∨ value = 0 ∨ value = 1) ∧
    object.data.length % 3 = 0

variable {object : TrinaryObject}

theorem validateTrytes_iff : validateTrytes object = true ↔ object.IsTrytes := by
  unfold validateTrytes TrinaryObject.IsTrytes
  rw [Bool.and_eq_true, decide_eq_true_iff, all_isTryte_iff]

theorem tritsFromTrytes_of_isTrytes (h : object.IsTrytes) :
    tritsFromTrytes (some object) = some ⟨unpackTrytes object.data, .trits⟩ := by
  obtain ⟨data, type⟩ := object
  obtain ⟨htype, hdata⟩ := h
  subst htype
  exact tritsFromTrytes_of_valid (all_isTryte_iff.mpr hdata)

theorem trytesFromTrits_of_isTrits (h : object.IsTrits) :
    trytesFromTrits (some object) = some ⟨packTrits object.data, .trytes⟩ := by
  obtain ⟨data, type⟩ := object
  obtain ⟨htype, hdata, hlength⟩ := h
  subst htype
  exact trytesFromTrits_of_valid hlength (all_isTrit_iff.mpr hdata)

theorem tritsFromTrytes_eq_none_iff (object : Option TrinaryObject) :
    tritsFromTrytes object = none ↔ ∀ trytes, object = some trytes → ¬trytes.IsTrytes := by
  cases object with
  | none => exact ⟨fun _ _ h => (by cases h), fun _ => rfl⟩
  | some trytes =>
      constructor
      · rintro hnone _ ⟨⟩ hvalid
        rw [tritsFromTrytes_of_isTrytes hvalid] at hnone
        cases hnone
      · intro hinvalid
        have hvalidate : validateTrytes trytes = false := by
          rw [Bool.eq_false_iff, Ne, validateTrytes_iff]
          exact hinvalid trytes rfl
        simp only [tritsFromTrytes, hvalidate, Bool.not_false, if_true]

theorem trytesFromTrits_eq_none_iff (object : Option TrinaryObject) :
    trytesFromTrits object = none ↔ ∀ trits, object = some trits → ¬trits.IsTrits := by
  cases object with
  | none => exact ⟨fun _ _ h => (by cases h), fun _ => rfl⟩
  | some trits =>
      constructor
      · rintro hnone _ ⟨⟩ hvalid
        rw [trytesFromTrits_of_isTrits hvalid] at hnone
        cases hnone
      · intro hinvalid
        have hguard : (decide (trits.data.length % 3 ≠ 0) || !validateTrits trits) = true := by
          rw [Bool.or_eq_true, decide_eq_true_iff, Bool.not_eq_true', Bool.eq_false_iff]
          by_contra hvalid
          rw [not_or, not_not, not_not] at hvalid
          have ⟨hlength, hvalidate⟩ := hvalid
          unfold validateTrits at hvalidate
          rw [Bool.and_eq_true, decide_eq_true_iff, all_isTrit_iff] at hvalidate
          exact hinvalid trits rfl ⟨hvalidate.1, hvalidate.2, hlength⟩
        simp only [trytesFromTrits, hguard, if_true]

end conversions

section lossless

/-- The scalar conversions undo each other on all objects that they accept, and
`NULL` is what they return for all others. -/
theorem conversions_lossless :
    (∀ trytes : TrinaryObject, trytes.IsTrytes →
      trytesFromTrits (tritsFromTrytes (some trytes)) = some trytes) ∧
    (∀ trits : TrinaryObject, trits.IsTrits →
      tritsFromTrytes (trytesFromTrits (some trits)) = some trits) ∧
    (∀ object, tritsFromTrytes object = none ↔
      ∀ trytes, object = some trytes → ¬trytes.IsTrytes) ∧
    (∀ object, trytesFromTrits object = none ↔
      ∀ trits, object = some trits → ¬trits.IsTrits) := by
  refine ⟨?_, ?_, tritsFromTrytes_eq_none_iff, trytesFromTrits_eq_none_iff⟩
  · intro trytes htrytes
    have hdata := all_isTryte_iff.mpr htrytes.2
    have hlength := length_unpackTrytes hdata
    rw [tritsFromTrytes_of_isTrytes htrytes,
      trytesFromTrits_of_valid (by omega) (all_isTrit_unpackTrytes hdata),
      packTrits_unpackTrytes hdata, ← htrytes.1]
  · intro trits htrits
    have ⟨hdata, hunpack⟩ := packTrits_spec htrits.2.2 (all_isTrit_iff.mpr htrits.2.1)
    rw [trytesFromTrits_of_isTrits htrits, tritsFromTrytes_of_valid hdata, hunpack, ← htrits.1]

/-- The trytes "A9" and their trits. -/
theorem conversions_lossless_pair :
    trytesFromTrits (tritsFromTrytes (some ⟨[65, 57], .trytes⟩)) = some ⟨[65, 57], .trytes⟩ ∧
      tritsFromTrytes (trytesFromTrits (some ⟨[1, 0, 0, 0, 0, 0], .trits⟩)) =
        some ⟨[1, 0, 0, 0, 0, 0], .trits⟩ :=
  ⟨conversions_lossless.1 ⟨[65, 57], .trytes⟩ ⟨rfl, all_isTryte_iff.mp (by decide)⟩,
    conversions_lossless.2.1 ⟨[1, 0, 0, 0, 0, 0], .trits⟩
      ⟨rfl, all_isTrit_iff.mp (by decide), rfl⟩⟩

end lossless

end Dcurl
