import Dcurl.Curl

/-! Bit-sliced states. Position `i` of a state is the pair of words `low[i]` and
`high[i]`, and bit `lane` of the pair is the trit that lane has there. -/
namespace Dcurl

variable {w : Nat}

structure Words (w : Nat) where
  low : Vector (BitVec w) 729
  high : Vector (BitVec w) 729

namespace Words

/-- The trit of a lane; none for the bit pair `(0,0)`. -/
def trit? (words : Words w) (lane : Nat) (i : Fin 729) : Option Trit :=
  Trit.ofBits (words.low[i].getLsbD lane) (words.high[i].getLsbD lane)

def Valid (words : Words w) : Prop :=
  ∀ (i : Fin 729) (lane : Nat), lane < w →
    ¬(words.low[i].getLsbD lane = false ∧ words.high[i].getLsbD lane = false)

def Holds (words : Words w) (lane : Nat) (trits : Spec.State) : Prop :=
  ∀ i : Fin 729, words.trit? lane i = some trits[i]

/-- The bytes a lane decodes to. The byte 2 stands where the lane has no trit. -/
def laneBytes (words : Words w) (lane : Nat) : CurlState :=
  Vector.ofFn fun i => ((words.trit? lane i).map Trit.toInt8).getD 2

theorem trit?_eq_some_iff {words : Words w} {lane : Nat} {i : Fin 729} {trit : Trit} :
    words.trit? lane i = some trit ↔
      words.low[i].getLsbD lane = trit.lowBit ∧ words.high[i].getLsbD lane = trit.highBit :=
  Trit.ofBits_eq_some_iff

theorem Valid.exists_holds {words : Words w} (hvalid : words.Valid) {lane : Nat}
    (hlane : lane < w) : ∃ trits, words.Holds lane trits := by
  have hsome : ∀ i : Fin 729, ∃ trit, words.trit? lane i = some trit := by
    intro i
    apply Option.ne_none_iff_exists'.mp
    intro hnone
    exact hvalid i lane hlane (Trit.ofBits_eq_none_iff.mp hnone)
  choose trits htrits using hsome
  refine ⟨Vector.ofFn trits, ?_⟩
  intro i
  simpa using htrits i

theorem valid_iff {words : Words w} :
    words.Valid ↔ ∀ (i : Fin 729) (lane : Nat), lane < w → words.trit? lane i ≠ none := by
  apply forall_congr'
  intro i
  apply forall_congr'
  intro lane
  apply forall_congr'
  intro _
  exact not_congr Trit.ofBits_eq_none_iff.symm

theorem valid_of_holds {words : Words w} (h : ∀ lane < w, ∃ trits, words.Holds lane trits) :
    words.Valid := by
  rw [valid_iff]
  intro i lane hlane hnone
  have ⟨trits, hholds⟩ := h lane hlane
  rw [hholds i] at hnone
  cases hnone

theorem Holds.laneBytes_eq {words : Words w} {lane : Nat} {trits : Spec.State}
    (h : words.Holds lane trits) : words.laneBytes lane = embed trits := by
  ext i hi
  have hi' := h ⟨i, hi⟩
  simp only [Library.getElem_fin] at hi'
  simp [laneBytes, hi']

end Words

end Dcurl
