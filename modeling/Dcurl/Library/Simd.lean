import Mathlib.Data.List.Range
import Dcurl.Library.Indexing

/-! Vectors of sixteen signed bytes, the instructions on them, and loops that
work through an array block by block. -/
namespace Dcurl.Library.Simd

abbrev M128 := Vector Int8 16

def orSi128 (a b : M128) : M128 := Vector.zipWith (· ||| ·) a b
def andSi128 (a b : M128) : M128 := Vector.zipWith (· &&& ·) a b
def andnotSi128 (a b : M128) : M128 := Vector.zipWith (fun a b => ~~~a &&& b) a b
def notSi128 (a : M128) : M128 := a.map (~~~·)
def addEpi8 (a b : M128) : M128 := Vector.zipWith (· + ·) a b
def subEpi8 (a b : M128) : M128 := Vector.zipWith (· - ·) a b
def cmpgtEpi8 (a b : M128) : M128 := Vector.zipWith (fun a b => if b < a then -1 else 0) a b
def cmpltEpi8 (a b : M128) : M128 := Vector.zipWith (fun a b => if a < b then -1 else 0) a b
def set1Epi8 (value : Int8) : M128 := Vector.replicate 16 value

def set1Epi16 (value : Int8) : M128 := Vector.ofFn fun i => if i.val % 2 = 0 then value else 0

def epi16 (low high : Int8) : BitVec 16 := high.toBitVec ++ low.toBitVec

/-- The low halves of the products of the 16-bit elements. -/
def mulloEpi16 (a b : M128) : M128 :=
  Vector.ofFn fun i =>
    let low := i.val / 2 * 2
    let product := epi16 a[low] a[low + 1] * epi16 b[low] b[low + 1]
    Int8.ofBitVec (product.extractLsb' (8 * (i.val % 2)) 8)

/-- A mask byte with its top bit set gives zero, any other selects by its low four
bits. -/
def shuffleByte (a : M128) (mask : Int8) : Int8 :=
  if mask < 0 then 0 else a.get ⟨mask.toBitVec.toNat % 16, Nat.mod_lt _ (by decide)⟩

def shuffleEpi8 (a mask : M128) : M128 := mask.map (shuffleByte a)

section lanes

variable (a b : M128) {i : Nat} (hi : i < 16)

@[simp] theorem getElem_orSi128 : (orSi128 a b)[i] = a[i] ||| b[i] := Vector.getElem_zipWith ..

@[simp] theorem getElem_andSi128 : (andSi128 a b)[i] = a[i] &&& b[i] := Vector.getElem_zipWith ..

@[simp] theorem getElem_andnotSi128 : (andnotSi128 a b)[i] = ~~~a[i] &&& b[i] :=
  Vector.getElem_zipWith ..

@[simp] theorem getElem_notSi128 : (notSi128 a)[i] = ~~~a[i] := Vector.getElem_map ..

@[simp] theorem getElem_addEpi8 : (addEpi8 a b)[i] = a[i] + b[i] := Vector.getElem_zipWith ..

@[simp] theorem getElem_subEpi8 : (subEpi8 a b)[i] = a[i] - b[i] := Vector.getElem_zipWith ..

@[simp] theorem getElem_cmpgtEpi8 : (cmpgtEpi8 a b)[i] = if b[i] < a[i] then -1 else 0 :=
  Vector.getElem_zipWith ..

@[simp] theorem getElem_cmpltEpi8 : (cmpltEpi8 a b)[i] = if a[i] < b[i] then -1 else 0 :=
  Vector.getElem_zipWith ..

@[simp] theorem getElem_set1Epi8 (value : Int8) : (set1Epi8 value)[i] = value :=
  Vector.getElem_replicate ..

@[simp] theorem getElem_set1Epi16 (value : Int8) :
    (set1Epi16 value)[i] = if i % 2 = 0 then value else 0 := Vector.getElem_ofFn ..

@[simp] theorem getElem_shuffleEpi8 (mask : M128) :
    (shuffleEpi8 a mask)[i] = shuffleByte a mask[i] := Vector.getElem_map ..

end lanes

section product

theorem toNat_epi16 (low high : Int8) :
    (epi16 low high).toNat = 256 * high.toBitVec.toNat + low.toBitVec.toNat := by
  unfold epi16
  rw [BitVec.toNat_append, Nat.shiftLeft_eq, Nat.mul_comm,
    ← Nat.two_pow_add_eq_or_of_lt low.toBitVec.isLt]

theorem extract_low_product (byte factor : Int8) :
    Int8.ofBitVec ((epi16 byte 0 * epi16 factor 0).extractLsb' 0 8) = byte * factor := by
  have hzero : (0 : Int8).toBitVec.toNat = 0 := rfl
  apply Int8.toBitVec.inj
  apply BitVec.eq_of_toNat_eq
  rw [Int8.toBitVec_mul, BitVec.toNat_mul, Int8.toBitVec_ofBitVec, BitVec.extractLsb'_toNat,
    BitVec.toNat_mul, toNat_epi16, toNat_epi16]
  simp only [hzero, Nat.mul_zero, Nat.zero_add, Nat.shiftRight_zero]
  exact Nat.mod_mod_of_dvd _ (by decide)

theorem extract_high_product (byte factor : Int8) :
    Int8.ofBitVec ((epi16 0 byte * epi16 factor 0).extractLsb' 8 8) = byte * factor := by
  have hzero : (0 : Int8).toBitVec.toNat = 0 := rfl
  apply Int8.toBitVec.inj
  apply BitVec.eq_of_toNat_eq
  rw [Int8.toBitVec_mul, BitVec.toNat_mul, Int8.toBitVec_ofBitVec, BitVec.extractLsb'_toNat,
    BitVec.toNat_mul, toNat_epi16, toNat_epi16]
  simp only [hzero, Nat.mul_zero, Nat.zero_add, Nat.add_zero, Nat.shiftRight_eq_div_pow]
  rw [Nat.mul_assoc, show 2 ^ 16 = 256 * 256 by rfl, Nat.mul_mod_mul_left,
    Nat.mul_div_cancel_left _ (by decide)]
  exact Nat.mod_mod _ _

theorem getElem_mulloEpi16 (a b : M128) {i : Nat} (hi : i < 16) :
    (mulloEpi16 a b)[i] = Int8.ofBitVec ((epi16 (a[i / 2 * 2]) (a[i / 2 * 2 + 1]) *
      epi16 (b[i / 2 * 2]) (b[i / 2 * 2 + 1])).extractLsb' (8 * (i % 2)) 8) :=
  Vector.getElem_ofFn ..

end product

section select

def flat (first second third : M128) (p : Nat) : Int8 :=
  let byte : Fin 16 := ⟨p % 16, Nat.mod_lt _ (by decide)⟩
  if p / 16 = 0 then first[byte] else if p / 16 = 1 then second[byte] else third[byte]

def shuffle3 (masks : Vector M128 3) (a b c : M128) : M128 :=
  orSi128 (shuffleEpi8 a masks[0]) (orSi128 (shuffleEpi8 b masks[1]) (shuffleEpi8 c masks[2]))

theorem shuffleByte_clear (a : M128) : shuffleByte a (-128) = 0 := by
  unfold shuffleByte
  rw [if_pos (by decide)]

theorem shuffleByte_select (a : M128) {k : Nat} (hk : k < 16) :
    shuffleByte a (Int8.ofNat k) = a[k] := by
  have hmask : ∀ k : Fin 16,
      ¬Int8.ofNat k.val < 0 ∧ (Int8.ofNat k.val).toBitVec.toNat % 16 = k.val := by
    decide
  have ⟨hpos, hselect⟩ := hmask ⟨k, hk⟩
  unfold shuffleByte
  rw [if_neg hpos]
  simp only [hselect]
  rfl

/-- For each byte the mask of one vector selects `target` and the two others clear. -/
def Selects (masks : Vector M128 3) (target : Nat → Nat) : Prop :=
  ∀ i : Fin 16, target i < 48 ∧ ∀ v : Fin 3,
    masks[v][i] = if target i / 16 = v.val then Int8.ofNat (target i % 16) else -128

instance (masks : Vector M128 3) (target : Nat → Nat) : Decidable (Selects masks target) :=
  inferInstanceAs (Decidable (∀ _, _))

theorem getElem_shuffle3 {masks : Vector M128 3} {target : Nat → Nat}
    (hmasks : Selects masks target) (a b c : M128) {i : Nat} (hi : i < 16) :
    (shuffle3 masks a b c)[i] = flat a b c (target i) := by
  have ⟨htarget, hmask⟩ := hmasks ⟨i, hi⟩
  have hbyte : target i % 16 < 16 := Nat.mod_lt _ (by decide)
  have hread : ∀ (v : M128) (t : Fin 3), shuffleByte v masks[t][i] =
      if target i / 16 = t.val then v[target i % 16] else 0 := by
    intro v t
    have hentry : masks[t][i] =
        if target i / 16 = t.val then Int8.ofNat (target i % 16) else -128 := hmask t
    rw [hentry]
    split
    · exact shuffleByte_select v hbyte
    · exact shuffleByte_clear v
  have hfirst : shuffleByte a masks[0][i] = _ := hread a 0
  have hsecond : shuffleByte b masks[1][i] = _ := hread b 1
  have hthird : shuffleByte c masks[2][i] = _ := hread c 2
  have hcases : target i / 16 = 0 ∨ target i / 16 = 1 ∨ target i / 16 = 2 := by
    change target i < 48 at htarget
    omega
  unfold shuffle3 flat
  simp only [getElem_orSi128, getElem_shuffleEpi8]
  rw [hfirst, hsecond, hthird]
  rcases hcases with h | h | h <;> simp [h]

end select

section blocks

theorem flatMap_range_map {α : Type*} (size n : Nat) (f : Nat → α) :
    ((List.range n).flatMap fun k => (List.range size).map fun i => f (size * k + i)) =
      (List.range (size * n)).map f := by
  induction n with
  | zero => simp
  | succ n ih =>
      rw [List.range_succ, List.flatMap_append, ih, List.flatMap_singleton, Nat.mul_succ,
        List.range_add, List.map_append, List.map_map]
      rfl

end blocks

end Dcurl.Library.Simd
