import Dcurl.Lanes

/-! The bit-sliced transforms of `pow_c.c`, `pow_sse.c` and the AVX2 half of
`pow_avx.c`. The arrays `lmid` and `hmid` hold two states each: the words from 0
and the words from `STATE_TRITS_LENGTH` on are the two buffers. -/
namespace Dcurl

open Library PingPong

variable {w : Nat}

/-- What one trit of the next state is computed from: `lfrom[t1]`, `hfrom[t1]`,
`lfrom[t2]` and `hfrom[t2]`. -/
abbrev Gate (w : Nat) := BitVec w → BitVec w → BitVec w → BitVec w → BitVec w × BitVec w

def fillWords (gate : Gate w) (count : Nat) (source target : Words w) : Words w :=
  let out (j : Fin 729) : BitVec w × BitVec w :=
    let t1 := index j.castSucc
    let t2 := index j.succ
    gate source.low[t1] source.high[t1] source.low[t2] source.high[t2]
  { low := Vector.ofFn fun j => if j.val < count then (out j).1 else target.low[j]
    high := Vector.ofFn fun j => if j.val < count then (out j).2 else target.high[j] }

def fullRound (gate : Gate w) (source : Words w) : Words w := fillWords gate 729 source source

/-- Eighty full rounds, then one round over the first `HASH_TRITS_LENGTH` trits. -/
def transformWords (gate : Gate w) (buffers : Buffers (Words w)) : Buffers (Words w) :=
  let full := (pass (fillWords gate 729))^[80] (start buffers)
  (pass (fillWords gate 243) full).buffers

def gate64 : Gate 64 := fun alpha beta low2 high2 =>
  let delta := alpha &&& (low2 ^^^ beta)
  (~~~delta, (alpha ^^^ high2) ||| delta)

def transform64 (buffers : Buffers (Words 64)) : Buffers (Words 64) :=
  transformWords gate64 buffers

def gate128 : Gate 128 := fun alpha beta low2 high2 =>
  let delta := alpha &&& (beta ^^^ low2)
  (~~~delta, (alpha ^^^ high2) ||| delta)

def transform128 (buffers : Buffers (Words 128)) : Buffers (Words 128) :=
  transformWords gate128 buffers

def andnot256 (a b : BitVec 256) : BitVec 256 := ~~~a &&& b

def gate256 : Gate 256 := fun alpha beta low2 high2 =>
  let one := BitVec.allOnes 256
  let delta := alpha &&& (low2 ^^^ beta)
  (andnot256 delta one, (alpha ^^^ high2) ||| delta)

def transform256 (buffers : Buffers (Words 256)) : Buffers (Words 256) :=
  transformWords gate256 buffers

section gates

/-- A gate computes the substitution box in every lane. -/
def Gate.Lawful (gate : Gate w) : Prop :=
  ∀ (alpha beta low2 high2 : BitVec w) (lane : Nat) (a b : Trit), lane < w →
    alpha.getLsbD lane = a.lowBit → beta.getLsbD lane = a.highBit →
    low2.getLsbD lane = b.lowBit → high2.getLsbD lane = b.highBit →
      (gate alpha beta low2 high2).1.getLsbD lane = (Spec.sbox a b).lowBit ∧
        (gate alpha beta low2 high2).2.getLsbD lane = (Spec.sbox a b).highBit

theorem gate64_lawful : gate64.Lawful := by
  intro alpha beta low2 high2 lane a b hlane halpha hbeta hlow hhigh
  simp only [gate64, BitVec.getLsbD_not, BitVec.getLsbD_and, BitVec.getLsbD_xor,
    BitVec.getLsbD_or, halpha, hbeta, hlow, hhigh, hlane, decide_true, Bool.true_and]
  cases a <;> cases b <;> decide

theorem gate128_eq (alpha beta low2 high2 : BitVec 128) :
    gate128 alpha beta low2 high2 =
      (~~~(alpha &&& (low2 ^^^ beta)), (alpha ^^^ high2) ||| (alpha &&& (low2 ^^^ beta))) := by
  simp only [gate128, BitVec.xor_comm beta low2]

theorem gate128_lawful : gate128.Lawful := by
  intro alpha beta low2 high2 lane a b hlane halpha hbeta hlow hhigh
  simp only [gate128_eq, BitVec.getLsbD_not, BitVec.getLsbD_and, BitVec.getLsbD_xor,
    BitVec.getLsbD_or, halpha, hbeta, hlow, hhigh, hlane, decide_true, Bool.true_and]
  cases a <;> cases b <;> decide

theorem gate256_lawful : gate256.Lawful := by
  intro alpha beta low2 high2 lane a b hlane halpha hbeta hlow hhigh
  simp only [gate256, andnot256, BitVec.and_allOnes, BitVec.getLsbD_not, BitVec.getLsbD_and,
    BitVec.getLsbD_xor, BitVec.getLsbD_or, halpha, hbeta, hlow, hhigh, hlane, decide_true,
    Bool.true_and]
  cases a <;> cases b <;> decide

end gates

section rounds

variable {gate : Gate w} (hgate : gate.Lawful)

theorem fillWords_full :
    fillWords gate 729 = fun source _ => fullRound gate source := by
  funext source target
  simp only [fullRound, fillWords, Fin.is_lt, if_true]

include hgate

theorem trit?_fillWords {count lane : Nat} (hlane : lane < w) {source target : Words w}
    {trits : Spec.State} (hsource : source.Holds lane trits) {j : Fin 729}
    (hj : j.val < count) :
    (fillWords gate count source target).trit? lane j = some (Spec.curlRound trits)[j] := by
  obtain ⟨halpha, hbeta⟩ := Words.trit?_eq_some_iff.mp (hsource (index j.castSucc))
  obtain ⟨hlow, hhigh⟩ := Words.trit?_eq_some_iff.mp (hsource (index j.succ))
  rw [Words.trit?_eq_some_iff, Spec.getElem_curlRound]
  simp only [fillWords, Library.getElem_fin, Vector.getElem_ofFn, hj, if_true]
  exact hgate _ _ _ _ lane _ _ hlane halpha hbeta hlow hhigh

theorem valid_fillWords {count : Nat} {source target : Words w} (hsource : source.Valid)
    (htarget : ∀ j : Fin 729, count ≤ j.val → ∀ lane < w, target.trit? lane j ≠ none) :
    (fillWords gate count source target).Valid := by
  rw [Words.valid_iff]
  intro j lane hlane
  by_cases hj : j.val < count
  · have ⟨trits, htrits⟩ := hsource.exists_holds hlane
    rw [trit?_fillWords hgate hlane htrits hj]
    exact Option.some_ne_none _
  · have hsame : (fillWords gate count source target).trit? lane j = target.trit? lane j := by
      simp only [Words.trit?, fillWords, Library.getElem_fin, Vector.getElem_ofFn, hj, if_false]
    rw [hsame]
    exact htarget j (Nat.le_of_not_lt hj) lane hlane

theorem valid_transformWords {buffers : Buffers (Words w)} (hfirst : buffers.first.Valid) :
    (transformWords gate buffers).first.Valid ∧ (transformWords gate buffers).second.Valid := by
  have hfill : ∀ source target : Words w, source.Valid →
      (fillWords gate 729 source target).Valid := by
    intro source target hsource
    apply valid_fillWords hgate hsource
    intro j hj
    omega
  have ⟨hne, hsource, htarget⟩ :=
    iterate_pass_keeps hfill (start buffers) nofun hfirst 79
  have ⟨hne', hsource', htarget'⟩ := pass_keeps (fillWords gate 243) hne hsource
    (valid_fillWords hgate hsource fun j _ lane hlane => Words.valid_iff.mp htarget j lane hlane)
  exact forall_read hne' hsource' htarget'

theorem holds_fullRound_iterate {lane : Nat} (hlane : lane < w) {words : Words w}
    {trits : Spec.State} (hwords : words.Holds lane trits) (n : Nat) :
    ((fullRound gate)^[n] words).Holds lane (Spec.curlRound^[n] trits) := by
  induction n with
  | zero => exact hwords
  | succ n ih =>
      rw [Function.iterate_succ_apply', Function.iterate_succ_apply']
      intro j
      exact trit?_fillWords hgate hlane ih j.isLt

theorem trit?_transformWords {lane : Nat} (hlane : lane < w) {buffers : Buffers (Words w)}
    {trits : Spec.State} (hfirst : buffers.first.Holds lane trits) {j : Fin 729}
    (hj : j.val < 243) :
    (transformWords gate buffers).second.trit? lane j = some (Spec.curl trits)[j] := by
  obtain ⟨hsource, htarget⟩ := iterate_pointers (fullRound gate) buffers 80
  have hread := read_iterate (fullRound gate) buffers 80
  unfold transformWords
  rw [fillWords_full]
  -- After the even number of full rounds the source is the first buffer again.
  simp only [PingPong.pass, hsource, htarget, hread, Spec.curl_eq]
  exact trit?_fillWords hgate hlane (holds_fullRound_iterate hgate hlane hfirst 80) hj

end rounds

/-- The bytes of one lane after a bit-sliced transform are the hash bytes that
`_transform` computes from the bytes of that lane before it. -/
theorem transformWords_lane {gate : Gate w} (hgate : gate.Lawful)
    (buffers : Buffers (Words w)) (hvalid : buffers.first.Valid) {lane : Nat} (hlane : lane < w)
    {j : Fin 729} (hj : j.val < 243) :
    ((transformWords gate buffers).second.trit? lane j).map Trit.toInt8 =
      some (transform (buffers.first.laneBytes lane))[j] := by
  obtain ⟨trits, htrits⟩ := hvalid.exists_holds hlane
  rw [trit?_transformWords hgate hlane htrits hj, htrits.laneBytes_eq, transform_embed]
  simp

/-- In every lane of every word size, the words from `STATE_TRITS_LENGTH` on
decode to the first `HASH_TRITS_LENGTH` trits of the scalar transform. -/
theorem bitSliced_eq_transform :
    (∀ buffers : Buffers (Words 64), buffers.first.Valid → ∀ lane < 64, ∀ j : Fin 729,
      j.val < 243 → ((transform64 buffers).second.trit? lane j).map Trit.toInt8 =
        some (transform (buffers.first.laneBytes lane))[j]) ∧
    (∀ buffers : Buffers (Words 128), buffers.first.Valid → ∀ lane < 128, ∀ j : Fin 729,
      j.val < 243 → ((transform128 buffers).second.trit? lane j).map Trit.toInt8 =
        some (transform (buffers.first.laneBytes lane))[j]) ∧
    (∀ buffers : Buffers (Words 256), buffers.first.Valid → ∀ lane < 256, ∀ j : Fin 729,
      j.val < 243 → ((transform256 buffers).second.trit? lane j).map Trit.toInt8 =
        some (transform (buffers.first.laneBytes lane))[j]) := by
  refine ⟨?_, ?_, ?_⟩
  · intro buffers hvalid lane hlane j hj
    exact transformWords_lane gate64_lawful buffers hvalid hlane hj
  · intro buffers hvalid lane hlane j hj
    exact transformWords_lane gate128_lawful buffers hvalid hlane hj
  · intro buffers hvalid lane hlane j hj
    exact transformWords_lane gate256_lawful buffers hvalid hlane hj

/-- In lane `k`, trit `i` is 0 where bit `k` of `i` is set, and -1 elsewhere. -/
def bitWords (w : Nat) : Words w where
  low := Vector.replicate 729 (BitVec.allOnes w)
  high := Vector.ofFn fun i => BitVec.ofNat w i

theorem bitWords_valid (w : Nat) : (bitWords w).Valid := by
  intro i lane hlane h
  simp [bitWords, hlane] at h

/-- The lanes 0 to 9 of the words all differ. -/
theorem bitSliced_eq_transform_bits :
    ((transform64 ⟨bitWords 64, bitWords 64⟩).second.trit? 3 242).map Trit.toInt8 =
        some (transform ((bitWords 64).laneBytes 3))[242] ∧
      ((transform128 ⟨bitWords 128, bitWords 128⟩).second.trit? 9 17).map Trit.toInt8 =
        some (transform ((bitWords 128).laneBytes 9))[17] ∧
      ((transform256 ⟨bitWords 256, bitWords 256⟩).second.trit? 5 100).map Trit.toInt8 =
        some (transform ((bitWords 256).laneBytes 5))[100] :=
  ⟨bitSliced_eq_transform.1 ⟨bitWords 64, bitWords 64⟩ (bitWords_valid 64) 3 (by decide)
      242 (by decide),
    bitSliced_eq_transform.2.1 ⟨bitWords 128, bitWords 128⟩ (bitWords_valid 128) 9
      (by decide) 17 (by decide),
    bitSliced_eq_transform.2.2 ⟨bitWords 256, bitWords 256⟩ (bitWords_valid 256) 5
      (by decide) 100 (by decide)⟩

end Dcurl
