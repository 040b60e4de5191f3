import Mathlib.Logic.Function.Iterate
import Dcurl.Constants
import Dcurl.Spec.Trit

/-! The Curl permutation on trits, independent of how a trit is stored. -/
namespace Dcurl.Spec

abbrev State := Vector Trit 729

/-- The substitution box; the first argument is the trit at `indices[i]`. -/
def sbox : Trit → Trit → Trit
  | .neg, .neg => .pos
  | .zero, .neg => .zero
  | .pos, .neg => .neg
  | .neg, .zero => .pos
  | .zero, .zero => .neg
  | .pos, .zero => .zero
  | .neg, .pos => .neg
  | .zero, .pos => .pos
  | .pos, .pos => .zero

def curlRound (state : State) : State :=
  Vector.ofFn fun i => sbox state[index i.castSucc] state[index i.succ]

theorem getElem_curlRound (state : State) (i : Fin 729) :
    (curlRound state)[i] = sbox state[index i.castSucc] state[index i.succ] := by
  simp [curlRound]

def curl (state : State) : State := curlRound^[81] state

theorem curl_eq (state : State) : curl state = curlRound (curlRound^[80] state) :=
  Function.iterate_succ_apply' curlRound 80 state

theorem curlRound_replicate_iterate (n : Nat) (trit : Trit) :
    curlRound^[n] (Vector.replicate 729 trit) =
      Vector.replicate 729 ((fun trit => sbox trit trit)^[n] trit) := by
  induction n generalizing trit with
  | zero => rfl
  | succ n ih =>
      have hround : curlRound (Vector.replicate 729 trit) =
          Vector.replicate 729 (sbox trit trit) := by
        ext i hi
        simp [curlRound]
      rw [Function.iterate_succ_apply, hround, ih, Function.iterate_succ_apply]

/-- The box takes 0 to -1, to 1 and back to 0, and 81 rounds are 27 such turns. -/
theorem curl_replicate_zero :
    curl (Vector.replicate 729 .zero) = Vector.replicate 729 .zero :=
  curlRound_replicate_iterate 81 .zero

/-- The last `m` of the hash trits are zero. -/
def HasWeight (m : Nat) (state : State) : Prop :=
  ∀ i : Fin 729, 243 - m ≤ i.val → i.val < 243 → state[i] = .zero

instance (m : Nat) (state : State) : Decidable (HasWeight m state) :=
  inferInstanceAs (Decidable (∀ i : Fin 729, 243 - m ≤ i.val → i.val < 243 → state[i] = .zero))

theorem hasWeight_curl_zero (m : Nat) : HasWeight m (curl (Vector.replicate 729 .zero)) := by
  rw [curl_replicate_zero]
  intro i _ _
  exact Vector.getElem_replicate i.isLt

end Dcurl.Spec
