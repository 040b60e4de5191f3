import Dcurl.Library.Simd
import Dcurl.TrinarySse42

/-! The conversions of `trinary_sse42.h`, sixteen trytes at a time, against the
scalar loops of `trinary.c`. -/
namespace Dcurl

open Library Simd

/-- `_mm_loadu_si128((__m128i *) data + k)`. -/
def loadVector (data : List Int8) (k : Nat) : M128 := Vector.ofFn fun i => data.getD (16 * k + i) 0

def msb : Int8 := -128

section trits

def validateTritsSse42 (trits : TrinaryObject) : Bool :=
  let len := trits.data.length
  ((List.range (len / 16)).all fun k =>
    let data := loadVector trits.data k
    let result := orSi128 (cmpgtEpi8 data (set1Epi8 1)) (cmpltEpi8 data (set1Epi8 (-1)))
    result.all (· == 0)) &&
    (trits.data.drop (len / 16 * 16)).all isTrit

def initTritsSse42 (src : List Int8) : Option TrinaryObject :=
  let trits : TrinaryObject := ⟨src, .trits⟩
  if trits.type = .trits && validateTritsSse42 trits then some trits else none

end trits

section trytesFromTrits

def tryteAlphabetForSimd : Vector M128 2 :=
  #v[Vector.ofFn fun i => tryteAlphabet.getD i 0,
    Vector.ofFn fun i => tryteAlphabet.getD (16 + i) 0]

def packShuffleLow : Vector M128 3 :=
  #v[#v[0, 3, 6, 9, 12, 15, msb, msb, msb, msb, msb, msb, msb, msb, msb, msb],
    #v[msb, msb, msb, msb, msb, msb, 2, 5, 8, 11, 14, msb, msb, msb, msb, msb],
    #v[msb, msb, msb, msb, msb, msb, msb, msb, msb, msb, msb, 1, 4, 7, 10, 13]]

def packShuffleMid : Vector M128 3 :=
  #v[#v[1, 4, 7, 10, 13, msb, msb, msb, msb, msb, msb, msb, msb, msb, msb, msb],
    #v[msb, msb, msb, msb, msb, 0, 3, 6, 9, 12, 15, msb, msb, msb, msb, msb],
    #v[msb, msb, msb, msb, msb, msb, msb, msb, msb, msb, msb, 2, 5, 8, 11, 14]]

def packShuffleHigh : Vector M128 3 :=
  #v[#v[2, 5, 8, 11, 14, msb, msb, msb, msb, msb, msb, msb, msb, msb, msb, msb],
    #v[msb, msb, msb, msb, msb, 1, 4, 7, 10, 13, msb, msb, msb, msb, msb, msb],
    #v[msb, msb, msb, msb, msb, msb, msb, msb, msb, msb, 0, 3, 6, 9, 12, 15]]

/-- `_mm_set_epi32(0xFF00FF00, 0xFF00FF00, 0xFF00FF00, 0xFF00FF00)`. -/
def byteInterMask : M128 := Vector.ofFn fun i => if i.val % 2 = 0 then 0 else -1

/-- `mid_result` and `high_result`: a product for the high bytes and one for the low
bytes of the 16-bit elements. -/
def times (factor : Int8) (trit : M128) : M128 :=
  orSi128
    (andSi128 byteInterMask (mulloEpi16 (andSi128 trit byteInterMask) (set1Epi16 factor)))
    (andnotSi128 byteInterMask
      (mulloEpi16 (andSi128 trit (notSi128 byteInterMask)) (set1Epi16 factor)))

/-- From the offset into the alphabet to the trytes. -/
def assignTrytes (alphabetOffset : M128) : M128 :=
  let cmpResult := cmpgtEpi8 alphabetOffset (set1Epi8 15)
  let resultLt := shuffleEpi8 tryteAlphabetForSimd[0] alphabetOffset
  let resultGe := shuffleEpi8 tryteAlphabetForSimd[1] (subEpi8 alphabetOffset (set1Epi8 16))
  orSi128 (andnotSi128 cmpResult resultLt) (andSi128 cmpResult resultGe)

def packVectors (dataFirst dataMid dataLast : M128) : M128 :=
  let lowTrit := shuffle3 packShuffleLow dataFirst dataMid dataLast
  let midTrit := shuffle3 packShuffleMid dataFirst dataMid dataLast
  let highTrit := shuffle3 packShuffleHigh dataFirst dataMid dataLast
  let alphabetOffset := addEpi8 lowTrit (addEpi8 (times 3 midTrit) (times 9 highTrit))
  let tmpMask := cmpltEpi8 alphabetOffset (set1Epi8 0)
  let alphabetOffsetAdd := addEpi8 alphabetOffset (set1Epi8 27)
  assignTrytes (orSi128 (andSi128 tmpMask alphabetOffsetAdd) (andnotSi128 tmpMask alphabetOffset))

def packTritsSse42 (trits : List Int8) : List Int8 :=
  let blocks := trits.length / 3 / 16
  ((List.range blocks).flatMap fun i =>
    (packVectors (loadVector trits (i * 3)) (loadVector trits (i * 3 + 1))
      (loadVector trits (i * 3 + 2))).toList) ++
    (List.range' (blocks * 16) (trits.length / 3 - blocks * 16)).map fun i =>
      tryteOfTrits (trits.getD (i * 3) 0) (trits.getD (i * 3 + 1) 0) (trits.getD (i * 3 + 2) 0)

def trytesFromTritsSse42 (trits : TrinaryObject) : Option TrinaryObject :=
  initTrytesSse42 (packTritsSse42 trits.data)

end trytesFromTrits

section tritsFromTrytes

def literal (chars : List Char) : M128 :=
  Vector.ofFn fun i => (chars.map fun char => Int8.ofNat char.toNat).getD i 0

def setLowTrit0 : M128 := literal ['9', 'C', 'F', 'I', 'L', 'O', 'R', 'U', 'X']
def setLowTritP1 : M128 := literal ['A', 'D', 'G', 'J', 'M', 'P', 'S', 'V', 'Y']
def setLowTritN1 : M128 := literal ['B', 'E', 'H', 'K', 'N', 'Q', 'T', 'W', 'Z']
def rangeMidTrit0 : M128 := literal ['9', '9', 'A', 'A', 'H', 'J', 'Q', 'S', 'Z', 'Z']
def rangeMidTritP1 : M128 := literal ['B', 'D', 'K', 'M', 'T', 'V']
def rangeMidTritN1 : M128 := literal ['E', 'G', 'N', 'P', 'W', 'Y']
def rangeHighTrit0 : M128 := literal ['9', '9', 'A', 'D', 'W', 'Z']
def rangeHighTritP1 : M128 := literal ['E', 'M']
def rangeHighTritN1 : M128 := literal ['N', 'V']

def equalAny (pattern : List Int8) (value : Int8) : Bool :=
  (List.range 16).any fun i =>
    decide (i < implicitLength pattern) && decide (pattern.getD i 0 = value)

def inRanges (pattern : List Int8) (value : Int8) : Bool :=
  (List.range 8).any fun i =>
    decide (2 * i + 1 < implicitLength pattern) && decide (pattern.getD (2 * i) 0 ≤ value) &&
      decide (value ≤ pattern.getD (2 * i + 1) 0)

/-- `_mm_cmpistrm` on sixteen signed bytes with `_SIDD_UNIT_MASK`. -/
def cmpistrm (compare : List Int8 → Int8 → Bool) (pattern src : M128) : M128 :=
  Vector.ofFn fun i =>
    if i.val < implicitLength src.toList && compare pattern.toList src[i] then -1 else 0

/-- `low_trit`, `mid_trit` and `high_trit`, from the patterns of the trits 0, 1 and -1. -/
def selectTrit (compare : List Int8 → Int8 → Bool) (pattern0 patternP1 patternN1 data : M128) :
    M128 :=
  orSi128 (andSi128 (cmpistrm compare pattern0 data) (set1Epi8 0))
    (orSi128 (andSi128 (cmpistrm compare patternP1 data) (set1Epi8 1))
      (andSi128 (cmpistrm compare patternN1 data) (set1Epi8 (-1))))

def unpackShuffleFirst : Vector M128 3 :=
  #v[#v[0, msb, msb, 1, msb, msb, 2, msb, msb, 3, msb, msb, 4, msb, msb, 5],
    #v[msb, 0, msb, msb, 1, msb, msb, 2, msb, msb, 3, msb, msb, 4, msb, msb],
    #v[msb, msb, 0, msb, msb, 1, msb, msb, 2, msb, msb, 3, msb, msb, 4, msb]]

def unpackShuffleMid : Vector M128 3 :=
  #v[#v[msb, msb, 6, msb, msb, 7, msb, msb, 8, msb, msb, 9, msb, msb, 10, msb],
    #v[5, msb, msb, 6, msb, msb, 7, msb, msb, 8, msb, msb, 9, msb, msb, 10],
    #v[msb, 5, msb, msb, 6, msb, msb, 7, msb, msb, 8, msb, msb, 9, msb, msb]]

def unpackShuffleLast : Vector M128 3 :=
  #v[#v[msb, 11, msb, msb, 12, msb, msb, 13, msb, msb, 14, msb, msb, 15, msb, msb],
    #v[msb, msb, 11, msb, msb, 12, msb, msb, 13, msb, msb, 14, msb, msb, 15, msb],
    #v[10, msb, msb, 11, msb, msb, 12, msb, msb, 13, msb, msb, 14, msb, msb, 15]]

def unpackVector (data : M128) : List Int8 :=
  let lowTrit := selectTrit equalAny setLowTrit0 setLowTritP1 setLowTritN1 data
  let midTrit := selectTrit inRanges rangeMidTrit0 rangeMidTritP1 rangeMidTritN1 data
  let highTrit := selectTrit inRanges rangeHighTrit0 rangeHighTritP1 rangeHighTritN1 data
  let dataFirst := shuffle3 unpackShuffleFirst lowTrit midTrit highTrit
  let dataMid := shuffle3 unpackShuffleMid lowTrit midTrit highTrit
  let dataLast := shuffle3 unpackShuffleLast lowTrit midTrit highTrit
  dataFirst.toList ++ dataMid.toList ++ dataLast.toList

def unpackTrytesSse42 (trytes : List Int8) : List Int8 :=
  ((List.range (trytes.length / 16)).flatMap fun i => unpackVector (loadVector trytes i)) ++
    (trytes.drop (trytes.length / 16 * 16)).flatMap tritsOfTryte

def tritsFromTrytesSse42 (trytes : TrinaryObject) : Option TrinaryObject :=
  initTritsSse42 (unpackTrytesSse42 trytes.data)

end tritsFromTrytes

section vectors

variable {data : List Int8}

theorem getElem_loadVector (data : List Int8) (k : Nat) {i : Nat} (hi : i < 16) :
    (loadVector data k)[i] = data.getD (16 * k + i) 0 := Vector.getElem_ofFn ..

theorem flat_loadVector (data : List Int8) (k : Nat) {p : Nat} (hp : p < 48) :
    flat (loadVector data (k * 3)) (loadVector data (k * 3 + 1)) (loadVector data (k * 3 + 2)) p =
      data.getD (48 * k + p) 0 := by
  have hbyte : p % 16 < 16 := Nat.mod_lt _ (by decide)
  unfold flat
  simp only [Library.getElem_fin, getElem_loadVector data _ hbyte]
  split
  · congr 1
    omega
  · split
    · congr 1
      omega
    · congr 1
      omega

theorem toList_eq_map {vector : M128} {f : Nat → Int8}
    (h : ∀ i (hi : i < 16), vector[i] = f i) : vector.toList = (List.range 16).map f := by
  apply List.ext_getElem
  · simp
  · intro i hi _
    rw [List.getElem_map, List.getElem_range]
    exact h i (by simpa using hi)

end vectors

section pack

theorem getElem_byteInterMask {i : Nat} (hi : i < 16) :
    byteInterMask[i] = if i % 2 = 0 then 0 else -1 := Vector.getElem_ofFn ..

theorem getElem_times (factor : Int8) (trit : M128) {i : Nat} (hi : i < 16) :
    (times factor trit)[i] = trit[i] * factor := by
  have hnot : ~~~(0 : Int8) = -1 := rfl
  have hnot' : ~~~(-1 : Int8) = 0 := rfl
  unfold times
  simp only [getElem_orSi128, getElem_andSi128, getElem_andnotSi128, getElem_mulloEpi16,
    getElem_notSi128, getElem_byteInterMask, getElem_set1Epi16]
  have heven : i / 2 * 2 % 2 = 0 := by omega
  have hodd : ¬(i / 2 * 2 + 1) % 2 = 0 := by omega
  simp only [heven, hodd, if_true, if_false]
  by_cases hi2 : i % 2 = 0
  · have hindex : i / 2 * 2 = i := by omega
    simp only [hi2, if_true, hnot, hnot', hindex]
    simp [extract_low_product]
  · have hindex : i / 2 * 2 + 1 = i := by omega
    have hone : i % 2 = 1 := by omega
    simp only [hone, hnot, hnot', hindex]
    simp [extract_high_product]

def assignTryte (low mid high : Int8) : Int8 :=
  let offset := low + (mid * 3 + high * 9)
  let mask : Int8 := if offset < 0 then -1 else 0
  let offset := (mask &&& (offset + 27)) ||| (~~~mask &&& offset)
  let cmpResult : Int8 := if 15 < offset then -1 else 0
  (~~~cmpResult &&& shuffleByte tryteAlphabetForSimd[0] offset) |||
    (cmpResult &&& shuffleByte tryteAlphabetForSimd[1] (offset - 16))

theorem assignTryte_eq {low mid high : Int8} (hlow : isTrit low = true) (hmid : isTrit mid = true)
    (hhigh : isTrit high = true) : assignTryte low mid high = tryteOfTrits low mid high := by
  obtain ⟨low, rfl⟩ := (isTrit_iff _).mp hlow
  obtain ⟨mid, rfl⟩ := (isTrit_iff _).mp hmid
  obtain ⟨high, rfl⟩ := (isTrit_iff _).mp hhigh
  cases low <;> cases mid <;> cases high <;> decide

theorem packShuffle_selects : Selects packShuffleLow (fun i => 3 * i) ∧
    Selects packShuffleMid (fun i => 3 * i + 1) ∧ Selects packShuffleHigh (fun i => 3 * i + 2) := by
  decide

theorem getElem_packVectors (a b c : M128) {i : Nat} (hi : i < 16) :
    (packVectors a b c)[i] =
      assignTryte (flat a b c (3 * i)) (flat a b c (3 * i + 1)) (flat a b c (3 * i + 2)) := by
  have ⟨hlow, hmid, hhigh⟩ := packShuffle_selects
  simp only [packVectors, assignTrytes, getElem_orSi128, getElem_andSi128, getElem_andnotSi128,
    getElem_addEpi8, getElem_subEpi8, getElem_cmpgtEpi8, getElem_cmpltEpi8, getElem_set1Epi8,
    getElem_shuffleEpi8, getElem_times, getElem_shuffle3 hlow, getElem_shuffle3 hmid,
    getElem_shuffle3 hhigh]
  rfl

theorem packTrits_eq_map (trits : List Int8) :
    packTrits trits = (List.range (trits.length / 3)).map fun i =>
      tryteOfTrits (trits.getD (i * 3) 0) (trits.getD (i * 3 + 1) 0)
        (trits.getD (i * 3 + 2) 0) := by
  induction trits using packTrits.induct with
  | case1 first second third rest ih =>
      have hlength : (first :: second :: third :: rest).length / 3 = rest.length / 3 + 1 := by
        simp only [List.length_cons]
        omega
      rw [packTrits, ih, hlength, List.range_succ_eq_map, List.map_cons, List.map_map]
      congr 1
      apply List.map_congr_left
      intro i _
      simp [Nat.add_mul]
  | case2 trits hshort =>
      rcases trits with _ | ⟨first, _ | ⟨second, _ | ⟨third, rest⟩⟩⟩
      · rfl
      · simp [packTrits]
      · simp [packTrits]
      · exact absurd rfl (hshort first second third rest)

theorem isTrit_getD {trits : List Int8} (h : trits.all isTrit = true) (i : Nat) :
    isTrit (trits.getD i 0) = true := by
  by_cases hi : i < trits.length
  · rw [List.getD_eq_getElem _ _ hi]
    exact List.all_eq_true.mp h _ (List.getElem_mem hi)
  · rw [List.getD_eq_default _ _ (by omega)]
    rfl

/-- The vector loop and its tail fill `src` as the scalar loop does. -/
theorem packTritsSse42_eq {trits : List Int8} (h : trits.all isTrit = true) :
    packTritsSse42 trits = packTrits trits := by
  have hblock : ∀ k, (packVectors (loadVector trits (k * 3)) (loadVector trits (k * 3 + 1))
      (loadVector trits (k * 3 + 2))).toList = (List.range 16).map fun i =>
        tryteOfTrits (trits.getD ((16 * k + i) * 3) 0) (trits.getD ((16 * k + i) * 3 + 1) 0)
          (trits.getD ((16 * k + i) * 3 + 2) 0) := by
    intro k
    apply toList_eq_map
    intro i hi
    rw [getElem_packVectors _ _ _ hi, flat_loadVector trits k (by omega),
      flat_loadVector trits k (by omega), flat_loadVector trits k (by omega),
      assignTryte_eq (isTrit_getD h _) (isTrit_getD h _) (isTrit_getD h _)]
    congr 2 <;> omega
  have hsplit : trits.length / 3 =
      16 * (trits.length / 3 / 16) + (trits.length / 3 - 16 * (trits.length / 3 / 16)) := by
    omega
  unfold packTritsSse42
  simp only [hblock]
  rw [flatMap_range_map 16 _ fun i => tryteOfTrits (trits.getD (i * 3) 0)
      (trits.getD (i * 3 + 1) 0) (trits.getD (i * 3 + 2) 0), packTrits_eq_map,
    Nat.mul_comm _ 16, List.range'_eq_map_range, ← List.map_append]
  conv_rhs => rw [hsplit, List.range_add]

end pack

section unpack

theorem implicitLength_of_ne_zero {bytes : List Int8} (h : ∀ value ∈ bytes, value ≠ 0) :
    implicitLength bytes = bytes.length := by
  unfold implicitLength
  rw [List.takeWhile_eq_self_iff.mpr]
  intro value hmem
  simpa using h value hmem

def selectByte (compare : List Int8 → Int8 → Bool) (pattern0 patternP1 patternN1 : M128)
    (value : Int8) : Int8 :=
  ((if compare pattern0.toList value then -1 else 0) &&& 0) |||
    (((if compare patternP1.toList value then -1 else 0) &&& 1) |||
      ((if compare patternN1.toList value then -1 else 0) &&& -1))

theorem getElem_cmpistrm (compare : List Int8 → Int8 → Bool) (pattern : M128) {src : M128}
    (hsrc : ∀ value ∈ src.toList, value ≠ 0) {i : Nat} (hi : i < 16) :
    (cmpistrm compare pattern src)[i] = if compare pattern.toList src[i] then -1 else 0 := by
  have hlength : i < implicitLength src.toList := by
    rw [implicitLength_of_ne_zero hsrc]
    simpa using hi
  unfold cmpistrm
  rw [Vector.getElem_ofFn]
  simp [hlength]

theorem getElem_selectTrit (compare : List Int8 → Int8 → Bool) (pattern0 patternP1 patternN1 : M128)
    {data : M128} (hdata : ∀ value ∈ data.toList, value ≠ 0) {i : Nat} (hi : i < 16) :
    (selectTrit compare pattern0 patternP1 patternN1 data)[i] =
      selectByte compare pattern0 patternP1 patternN1 data[i] := by
  simp only [selectTrit, getElem_orSi128, getElem_andSi128, getElem_set1Epi8,
    getElem_cmpistrm compare _ hdata hi, selectByte]

theorem selectByte_eq {value : Int8} (h : isTryte value = true) :
    selectByte equalAny setLowTrit0 setLowTritP1 setLowTritN1 value =
        (tritsOfTryte value).getD 0 0 ∧
      selectByte inRanges rangeMidTrit0 rangeMidTritP1 rangeMidTritN1 value =
        (tritsOfTryte value).getD 1 0 ∧
      selectByte inRanges rangeHighTrit0 rangeHighTritP1 rangeHighTritN1 value =
        (tritsOfTryte value).getD 2 0 := by
  have htable : ∀ value ∈ tryteAlphabet,
      selectByte equalAny setLowTrit0 setLowTritP1 setLowTritN1 value =
          (tritsOfTryte value).getD 0 0 ∧
        selectByte inRanges rangeMidTrit0 rangeMidTritP1 rangeMidTritN1 value =
          (tritsOfTryte value).getD 1 0 ∧
        selectByte inRanges rangeHighTrit0 rangeHighTritP1 rangeHighTritN1 value =
          (tritsOfTryte value).getD 2 0 := by
    decide +kernel
  exact htable value ((isTryte_iff_mem value).mp h)

theorem unpackShuffle_selects :
    Selects unpackShuffleFirst (fun i => 16 * (i % 3) + i / 3) ∧
      Selects unpackShuffleMid (fun i => 16 * ((16 + i) % 3) + (16 + i) / 3) ∧
        Selects unpackShuffleLast (fun i => 16 * ((32 + i) % 3) + (32 + i) / 3) := by
  decide

def tritAt (trytes : List Int8) (p : Nat) : Int8 :=
  (tritsOfTryte (trytes.getD (p / 3) 0)).getD (p % 3) 0

theorem unpackTrytes_eq_map {trytes : List Int8} (h : trytes.all isTryte = true) :
    unpackTrytes trytes = (List.range (3 * trytes.length)).map (tritAt trytes) := by
  induction trytes with
  | nil => rfl
  | cons tryte rest ih =>
      rw [List.all_cons, Bool.and_eq_true] at h
      obtain ⟨first, second, third, htrits, _⟩ := tritsOfTryte_spec h.1
      have hlater : ∀ p, tritAt (tryte :: rest) (3 + p) = tritAt rest p := by
        intro p
        have hindex : (3 + p) / 3 = p / 3 + 1 := by omega
        unfold tritAt
        rw [hindex, List.getD_cons_succ, Nat.add_mod_left]
      have hrange : 3 * (tryte :: rest).length = 3 + 3 * rest.length := by
        rw [List.length_cons]
        omega
      rw [hrange, List.range_add, List.map_append, List.map_map]
      have htail : (tritAt (tryte :: rest)) ∘ (3 + ·) = tritAt rest := funext hlater
      rw [htail, ← ih h.2]
      unfold unpackTrytes
      rw [List.flatMap_cons]
      congr 1
      simp [List.range_succ, tritAt, htrits]

theorem flat_selectTrit {data : M128} (hdata : data.toList.all isTryte = true) {p : Nat}
    (hp : p < 48) :
    flat (selectTrit equalAny setLowTrit0 setLowTritP1 setLowTritN1 data)
      (selectTrit inRanges rangeMidTrit0 rangeMidTritP1 rangeMidTritN1 data)
      (selectTrit inRanges rangeHighTrit0 rangeHighTritP1 rangeHighTritN1 data)
      (16 * (p % 3) + p / 3) = tritAt data.toList p := by
  have hne : ∀ value ∈ data.toList, value ≠ 0 := by
    intro value hmem hzero
    have htryte := List.all_eq_true.mp hdata value hmem
    rw [hzero] at htryte
    exact absurd htryte (by decide)
  have hbyte : p / 3 < 16 := by omega
  have hread : data.toList.getD (p / 3) 0 = data[p / 3] := by
    rw [List.getD_eq_getElem _ _ (by simpa using hbyte), Vector.getElem_toList]
  have htryte : isTryte data[p / 3] = true :=
    List.all_eq_true.mp hdata _ (Vector.mem_toList_iff.mpr (Vector.getElem_mem hbyte))
  have ⟨hlow, hmid, hhigh⟩ := selectByte_eq htryte
  have hvector : (16 * (p % 3) + p / 3) / 16 = p % 3 := by omega
  have hindex : (16 * (p % 3) + p / 3) % 16 = p / 3 := by omega
  unfold flat tritAt
  simp only [hvector, hindex, hread, Library.getElem_fin, getElem_selectTrit _ _ _ _ hne hbyte,
    hlow, hmid, hhigh]
  have hthree : p % 3 = 0 ∨ p % 3 = 1 ∨ p % 3 = 2 := by omega
  rcases hthree with h | h | h <;> rw [h] <;> rfl

theorem unpackVector_eq {data : M128} (hdata : data.toList.all isTryte = true) :
    unpackVector data = unpackTrytes data.toList := by
  have ⟨hfirst, hmid, hlast⟩ := unpackShuffle_selects
  have hlength : 3 * data.toList.length = 16 + 16 + 16 := by simp
  rw [unpackTrytes_eq_map hdata, hlength, List.range_add, List.range_add, List.map_append,
    List.map_append, List.map_map, List.map_map]
  unfold unpackVector
  dsimp only
  congr 1
  · congr 1
    · apply toList_eq_map
      intro i hi
      rw [getElem_shuffle3 hfirst _ _ _ hi, flat_selectTrit hdata (by omega)]
    · apply toList_eq_map
      intro i hi
      rw [getElem_shuffle3 hmid _ _ _ hi, flat_selectTrit hdata (by omega)]
      rfl
  · apply toList_eq_map
    intro i hi
    rw [getElem_shuffle3 hlast _ _ _ hi, flat_selectTrit hdata (by omega)]
    rfl

theorem toList_loadVector {data : List Int8} {k : Nat} (hk : k < data.length / 16) :
    (loadVector data k).toList = loadBlock data k := by
  apply List.ext_getElem
  · simp [loadBlock]
    omega
  · intro i hi _
    have hi16 : i < 16 := by simpa using hi
    rw [Vector.getElem_toList, getElem_loadVector data k hi16,
      List.getD_eq_getElem _ _ (by omega)]
    simp [loadBlock]

theorem unpackTrytesSse42_eq {trytes : List Int8} (h : trytes.all isTryte = true) :
    unpackTrytesSse42 trytes = unpackTrytes trytes := by
  have hblock : ∀ k ∈ List.range (trytes.length / 16),
      unpackVector (loadVector trytes k) = unpackTrytes (loadBlock trytes k) := by
    intro k hk
    have hload := toList_loadVector (List.mem_range.mp hk)
    rw [unpackVector_eq, hload]
    rw [hload, List.all_eq_true]
    intro value hmem
    exact List.all_eq_true.mp h value (List.mem_of_mem_drop (List.mem_of_mem_take hmem))
  unfold unpackTrytesSse42
  rw [List.flatMap_congr hblock]
  unfold unpackTrytes
  rw [← List.flatMap_assoc, flatMap_loadBlock, Nat.mul_comm, ← List.flatMap_append,
    List.take_append_drop]

end unpack

section objects

theorem validateTritsSse42_of_valid {trits : List Int8} (h : trits.all isTrit = true) :
    validateTritsSse42 ⟨trits, .trits⟩ = true := by
  have hbyte : ∀ value : Int8, isTrit value = true →
      (((if 1 < value then -1 else 0) ||| (if value < -1 then -1 else 0) : Int8) == 0) = true := by
    intro value hvalue
    obtain ⟨trit, rfl⟩ := (isTrit_iff _).mp hvalue
    cases trit <;> decide
  unfold validateTritsSse42
  rw [Bool.and_eq_true]
  constructor
  · rw [List.all_eq_true]
    intro k _
    apply Vector.all_iff_forall.mpr
    intro i hi
    simp only [getElem_orSi128, getElem_cmpgtEpi8, getElem_cmpltEpi8, getElem_set1Epi8,
      getElem_loadVector]
    exact hbyte _ (isTrit_getD h _)
  · rw [List.all_eq_true]
    intro value hmem
    exact List.all_eq_true.mp h value (List.mem_of_mem_drop hmem)

theorem initTritsSse42_of_valid {src : List Int8} (h : src.all isTrit = true) :
    initTritsSse42 src = some ⟨src, .trits⟩ := by
  unfold initTritsSse42
  simp [validateTritsSse42_of_valid h]

theorem initTrytesSse42_of_valid {src : List Int8} (h : src.all isTryte = true) :
    initTrytesSse42 src = some ⟨src, .trytes⟩ := by
  unfold initTrytesSse42
  simp [validateTrytesSse42_eq, all_inspectedBytes h]

theorem tritsFromTrytesSse42_of_valid {trytes : List Int8} (h : trytes.all isTryte = true) :
    tritsFromTrytesSse42 ⟨trytes, .trytes⟩ = some ⟨unpackTrytes trytes, .trits⟩ := by
  unfold tritsFromTrytesSse42
  rw [unpackTrytesSse42_eq h]
  exact initTritsSse42_of_valid (all_isTrit_unpackTrytes h)

theorem trytesFromTritsSse42_of_valid {trits : List Int8} (hlength : trits.length % 3 = 0)
    (h : trits.all isTrit = true) :
    trytesFromTritsSse42 ⟨trits, .trits⟩ = some ⟨packTrits trits, .trytes⟩ := by
  unfold trytesFromTritsSse42
  rw [packTritsSse42_eq h]
  exact initTrytesSse42_of_valid (packTrits_spec hlength h).1

/-- On trytes the vector build returns the trits of the scalar loop, and on trits
its trytes. -/
theorem convertersAgree :
    (∀ trytes : List Int8, trytes.all isTryte = true →
      tritsFromTrytesSse42 ⟨trytes, .trytes⟩ = some ⟨unpackTrytes trytes, .trits⟩ ∧
        tritsFromTrytesSse42 ⟨trytes, .trytes⟩ = tritsFromTrytes (some ⟨trytes, .trytes⟩)) ∧
    (∀ trits : List Int8, trits.length % 3 = 0 → trits.all isTrit = true →
      trytesFromTritsSse42 ⟨trits, .trits⟩ = some ⟨packTrits trits, .trytes⟩ ∧
        trytesFromTritsSse42 ⟨trits, .trits⟩ = trytesFromTrits (some ⟨trits, .trits⟩)) := by
  constructor
  · intro trytes h
    have hresult := tritsFromTrytesSse42_of_valid h
    exact ⟨hresult, hresult.trans (tritsFromTrytes_of_valid h).symm⟩
  · intro trits hlength h
    have hresult := trytesFromTritsSse42_of_valid hlength h
    exact ⟨hresult, hresult.trans (trytesFromTrits_of_valid hlength h).symm⟩

/-- Twenty trytes: a block and a tail of four. -/
theorem convertersAgree_twenty :
    tritsFromTrytesSse42 ⟨List.replicate 20 65, .trytes⟩ =
        some ⟨unpackTrytes (List.replicate 20 65), .trits⟩ ∧
      trytesFromTritsSse42 ⟨List.replicate 60 1, .trits⟩ =
        some ⟨packTrits (List.replicate 60 1), .trytes⟩ :=
  ⟨(convertersAgree.1 (List.replicate 20 65) (by decide)).1,
    (convertersAgree.2 (List.replicate 60 1) (by decide) (by decide)).1⟩

end objects

end Dcurl
