import Mathlib.Data.List.GetD
import Mathlib.Data.List.TakeWhile
import Dcurl.Trinary

/-! `validate_trytes_sse42` of `trinary_sse42.h` against the scalar loop of
`validate_trytes`. -/
namespace Dcurl

/-- The length of a string operand: its elements before the first NUL. -/
def implicitLength (bytes : List Int8) : Nat := (bytes.takeWhile (· != 0)).length

/-- `_mm_cmpistrc` on sixteen signed bytes with range comparison and masked
negative polarity: the carry flag, set when some bit of the second intermediate
result is. Bits past the end of `src` are forced to 0 and not negated. -/
def cmpistrc (pattern src : List Int8) : Bool :=
  let inSomeRange (value : Int8) : Bool :=
    (List.range 8).any fun i =>
      decide (2 * i + 1 < implicitLength pattern) && decide (pattern.getD (2 * i) 0 ≤ value) &&
        decide (value ≤ pattern.getD (2 * i + 1) 0)
  let intRes1 (j : Nat) : Bool := j < implicitLength src && inSomeRange (src.getD j 0)
  let intRes2 (j : Nat) : Bool := if j < implicitLength src then !intRes1 j else intRes1 j
  (List.range 16).any intRes2

def trytePattern : List Int8 := [65, 90, 57, 57, 0, 0, 0, 0, 0, 0, 0, 0, 0, 0, 0, 0]

def loadBlock (data : List Int8) (i : Nat) : List Int8 := (data.drop (16 * i)).take 16

def validateTrytesSse42 (trytes : TrinaryObject) : Bool :=
  let len := trytes.data.length
  ((List.range (len / 16)).all fun i => !cmpistrc trytePattern (loadBlock trytes.data i)) &&
    (trytes.data.drop (len / 16 * 16)).all isTryte

/-- `init_trytes` in the build that defines `__SSE4_2__`. -/
def initTrytesSse42 (src : List Int8) : Option TrinaryObject :=
  let trytes : TrinaryObject := ⟨src, .trytes⟩
  if trytes.type = .trytes && validateTrytesSse42 trytes then some trytes else none

/-- The bytes the vector validator looks at: of each full block those before its
first NUL, and the rest that fills no block. -/
def inspectedBytes (data : List Int8) : List Int8 :=
  (List.range (data.length / 16)).flatMap (fun i => (loadBlock data i).takeWhile (· != 0)) ++
    data.drop (data.length / 16 * 16)

section blocks

theorem implicitLength_trytePattern : implicitLength trytePattern = 4 := by decide

theorem implicitLength_le (bytes : List Int8) : implicitLength bytes ≤ bytes.length :=
  (List.takeWhile_prefix _).length_le

theorem inRange_iff (value : Int8) :
    ((List.range 8).any fun i =>
      decide (2 * i + 1 < implicitLength trytePattern) &&
        decide (trytePattern.getD (2 * i) 0 ≤ value) &&
          decide (value ≤ trytePattern.getD (2 * i + 1) 0)) = isTryte value := by
  rw [implicitLength_trytePattern]
  revert value
  apply forall_int8
  decide

/-- The instruction flags a block exactly when a byte before its first NUL is
no tryte. -/
theorem cmpistrc_trytePattern {block : List Int8} (hlength : block.length ≤ 16) :
    cmpistrc trytePattern block = !((block.takeWhile (· != 0)).all isTryte) := by
  have hle := (implicitLength_le block).trans hlength
  unfold cmpistrc
  simp only [inRange_iff]
  rw [Bool.eq_iff_iff, List.any_eq_true, Bool.not_eq_true', List.all_eq_false]
  constructor
  · intro ⟨j, _, hj⟩
    split at hj
    · rename_i hlt
      have hget : (block.takeWhile (· != 0))[j]? = some (block.getD j 0) := by
        have hlt' : j < block.length := hlt.trans_le (implicitLength_le block)
        rw [List.getElem?_eq_getElem hlt, (List.takeWhile_prefix _).getElem hlt,
          List.getD_eq_getElem _ _ hlt']
      refine ⟨block.getD j 0, List.mem_of_getElem? hget, ?_⟩
      simpa [hlt] using hj
    · rename_i hlt
      simp [hlt] at hj
  · intro ⟨value, hmem, hvalue⟩
    obtain ⟨j, hj, hget⟩ := List.getElem_of_mem hmem
    have hlt : j < implicitLength block := hj
    refine ⟨j, List.mem_range.mpr (by omega), ?_⟩
    rw [(List.takeWhile_prefix _).getElem hj] at hget
    rw [if_pos hlt, List.getD_eq_getElem _ _ (by have := implicitLength_le block; omega), hget]
    simpa [hlt] using hvalue

theorem length_loadBlock_le (data : List Int8) (i : Nat) : (loadBlock data i).length ≤ 16 :=
  List.length_take_le _ _

theorem validateTrytesSse42_eq (trytes : TrinaryObject) :
    validateTrytesSse42 trytes = (inspectedBytes trytes.data).all isTryte := by
  unfold validateTrytesSse42 inspectedBytes
  simp only [List.all_append, List.all_flatMap]
  congr 1
  apply List.all_congr rfl
  intro i
  rw [cmpistrc_trytePattern (length_loadBlock_le _ _), Bool.not_not]

theorem flatMap_loadBlock (data : List Int8) (n : Nat) :
    (List.range n).flatMap (loadBlock data) = data.take (16 * n) := by
  induction n with
  | zero => simp
  | succ n ih =>
      rw [List.range_succ, List.flatMap_append, ih, List.flatMap_singleton, loadBlock,
        Nat.mul_succ, List.take_add]

end blocks

section agreement

theorem all_inspectedBytes {data : List Int8} (h : data.all isTryte = true) :
    (inspectedBytes data).all isTryte = true := by
  rw [List.all_eq_true] at h ⊢
  intro value hmem
  apply h
  rcases List.mem_append.mp hmem with hmem | hmem
  · obtain ⟨i, _, hmem⟩ := List.mem_flatMap.mp hmem
    exact List.mem_of_mem_drop (List.mem_of_mem_take ((List.takeWhile_subset _) hmem))
  · exact List.mem_of_mem_drop hmem

theorem inspectedBytes_of_no_nul {data : List Int8}
    (h : ∀ value ∈ data.take (data.length / 16 * 16), value ≠ 0) :
    inspectedBytes data = data := by
  have hblocks : ∀ i ∈ List.range (data.length / 16),
      (loadBlock data i).takeWhile (· != 0) = loadBlock data i := by
    intro i hi
    apply List.takeWhile_eq_self_iff.mpr
    intro value hmem
    have hvalue : value ∈ (List.range (data.length / 16)).flatMap (loadBlock data) :=
      List.mem_flatMap.mpr ⟨i, hi, hmem⟩
    rw [flatMap_loadBlock, Nat.mul_comm] at hvalue
    simpa using h value hvalue
  unfold inspectedBytes
  rw [List.flatMap_congr hblocks, flatMap_loadBlock, Nat.mul_comm 16, List.take_append_drop]

/-- The vector build accepts what the scalar build accepts: the two validators
agree, and so do the two `init_trytes`. -/
def BuildsAgree (data : List Int8) : Prop :=
  validateTrytesSse42 ⟨data, .trytes⟩ = data.all isTryte ∧
    initTrytesSse42 data = initTrytes data

theorem buildsAgree_iff_validators (data : List Int8) :
    BuildsAgree data ↔ (inspectedBytes data).all isTryte = data.all isTryte := by
  unfold BuildsAgree initTrytesSse42 initTrytes validateTrytes
  simp only [validateTrytesSse42_eq]
  constructor
  · intro h
    exact h.1
  · intro h
    simp only [h, and_self]

/-- The builds agree exactly on the inputs that have no NUL in a full block or
have a bad byte that no NUL of its block precedes. -/
theorem buildsAgree_iff (data : List Int8) :
    BuildsAgree data ↔
      (∀ value ∈ data.take (data.length / 16 * 16), value ≠ 0) ∨
        ∃ value ∈ inspectedBytes data, isTryte value = false := by
  rw [buildsAgree_iff_validators]
  constructor
  · intro heq
    by_cases hall : data.all isTryte = true
    · left
      intro value hmem hzero
      have htryte := List.all_eq_true.mp hall value (List.mem_of_mem_take hmem)
      rw [hzero] at htryte
      exact absurd htryte (by decide)
    · right
      rw [Bool.not_eq_true] at hall
      rw [hall] at heq
      simpa using List.all_eq_false.mp heq
  · intro h
    rcases h with hnul | ⟨value, hmem, hbad⟩
    · rw [inspectedBytes_of_no_nul hnul]
    · have hinspected : (inspectedBytes data).all isTryte = false :=
        List.all_eq_false.mpr ⟨value, hmem, by rw [hbad]; exact Bool.false_ne_true⟩
      rw [hinspected]
      symm
      rw [Bool.eq_false_iff]
      intro hall
      rw [all_inspectedBytes hall] at hinspected
      cases hinspected

/-- Sixteen NULs: the vector validator takes them for sixteen trytes. -/
theorem not_buildsAgree_nul : ¬BuildsAgree (List.replicate 16 0) := by
  intro h
  have hsse42 : validateTrytesSse42 ⟨List.replicate 16 0, .trytes⟩ = true := by decide
  have hscalar : (List.replicate 16 (0 : Int8)).all isTryte = false := by decide
  rw [h.1, hscalar] at hsse42
  cases hsse42

end agreement

end Dcurl
