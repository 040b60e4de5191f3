import Mathlib.Data.Fintype.BigOperators
import Mathlib.Data.Fintype.Pi
import Dcurl.Spec.Curl

/-! How much the Curl permutation forgets. A round and one trit of its argument
determine the argument, so 81 rounds merge at most `3 ^ 81` states, and there
are mid states that no nonce completes to a hash of zeros. -/
namespace Dcurl.Spec

theorem val_index (i : Fin 730) : (index i).val = 364 * i.val % 729 := indices_eq i

theorem exists_index (p : Fin 729) : ∃ i : Fin 729, index i.castSucc = p := by
  refine ⟨⟨727 * p.val % 729, Nat.mod_lt _ (by decide)⟩, ?_⟩
  apply Fin.ext
  rw [val_index, Fin.val_castSucc]
  change 364 * (727 * p.val % 729) % 729 = p.val
  omega

theorem sbox_left_injective (right : Trit) : Function.Injective fun left => sbox left right := by
  intro left left' heq
  cases right <;> cases left <;> cases left' <;> first | rfl | cases heq

theorem index_last : index (Fin.last 729) = index 0 := by
  apply Fin.ext
  rw [val_index, val_index]
  exact Nat.mul_mod_left 364 729

/-- The first trit and the round determine the state, from the end of the walk
back to its start. -/
theorem eq_of_curlRound {left right : State} (hfirst : left[index 0] = right[index 0])
    (hround : curlRound left = curlRound right) : left = right := by
  have hlast : left[index (Fin.last 729)] = right[index (Fin.last 729)] := by
    simp only [index_last]
    exact hfirst
  have hback : ∀ i : Fin (729 + 1), left[index i] = right[index i] := by
    intro i
    induction i using Fin.reverseInduction with
    | last => exact hlast
    | cast i ih =>
        have hbox := congrArg (fun state : State => state[i]) hround
        simp only [getElem_curlRound] at hbox
        rw [ih] at hbox
        exact sbox_left_injective _ hbox
  have hall : ∀ p : Fin 729, left[p] = right[p] := by
    intro p
    have ⟨i, hi⟩ := exists_index p
    exact hi ▸ hback i.castSucc
  ext i hi
  exact hall ⟨i, hi⟩

def trace (rounds : Nat) (state : State) : Fin rounds → Trit :=
  fun r => (curlRound^[r.val] state)[index 0]

theorem eq_of_iterate {rounds : Nat} {left right : State}
    (htrace : trace rounds left = trace rounds right)
    (hrounds : curlRound^[rounds] left = curlRound^[rounds] right) : left = right := by
  induction rounds with
  | zero => exact hrounds
  | succ rounds ih =>
      have hlast := congrFun htrace (Fin.last rounds)
      have hbefore : curlRound^[rounds] left = curlRound^[rounds] right := by
        apply eq_of_curlRound hlast
        rw [Function.iterate_succ_apply', Function.iterate_succ_apply'] at hrounds
        exact hrounds
      apply ih _ hbefore
      funext r
      exact congrFun htrace r.castSucc

section counting

instance : Fintype Trit where
  elems := {.neg, .zero, .pos}
  complete := by
    intro trit
    cases trit <;> decide

def complete (fill : State) (rest : Fin 648 → Trit) : State :=
  Vector.ofFn fun p =>
    if h : p.val < 162 then rest ⟨p.val, by omega⟩
    else if h : 243 ≤ p.val then rest ⟨p.val - 81, by omega⟩
    else fill[p]

theorem getElem_complete_of_nonce (fill : State) (rest : Fin 648 → Trit) {p : Fin 729}
    (hlow : 162 ≤ p.val) (hhigh : p.val < 243) : (complete fill rest)[p] = fill[p] := by
  simp [complete, show ¬p.val < 162 by omega, show ¬243 ≤ p.val by omega]

theorem complete_injective (fill : State) {rest rest' : Fin 648 → Trit}
    (heq : ∀ p : Fin 729, p.val < 162 ∨ 243 ≤ p.val →
      (complete fill rest)[p] = (complete fill rest')[p]) : rest = rest' := by
  funext k
  by_cases hk : k.val < 162
  · have hat := heq ⟨k.val, by omega⟩ (Or.inl hk)
    simpa [complete, hk] using hat
  · have hat := heq ⟨k.val + 81, by omega⟩ (Or.inr (by simp; omega))
    simpa [complete, show ¬k.val + 81 < 162 by omega, show 162 ≤ k.val by omega] using hat

def capacity (state : State) : Fin 486 → Trit := fun k => state[243 + k.val]

theorem eq_of_hasWeight {left right : State} (hleft : HasWeight 243 left)
    (hright : HasWeight 243 right) (hcapacity : capacity left = capacity right) :
    left = right := by
  ext i hi
  by_cases hhash : i < 243
  · exact (hleft ⟨i, hi⟩ (Nat.zero_le _) hhash).trans (hright ⟨i, hi⟩ (Nat.zero_le _) hhash).symm
  · have hat := congrFun hcapacity ⟨i - 243, by omega⟩
    simpa [capacity, show 243 + (i - 243) = i by omega] using hat

/-- There are `3 ^ 648` mid states up to the nonce, and at most `3 ^ 567` states
with a hash of zeros. -/
theorem exists_hopeless (fill : State) : ∃ mid : State,
    (∀ p : Fin 729, 162 ≤ p.val → p.val < 243 → mid[p] = fill[p]) ∧
      ∀ trits : State, (∀ p : Fin 729, p.val < 162 ∨ 243 ≤ p.val → trits[p] = mid[p]) →
        ¬HasWeight 243 (curl trits) := by
  apply Classical.by_contradiction
  intro hnone
  have hall : ∀ rest : Fin 648 → Trit, ∃ trits : State,
      (∀ p : Fin 729, p.val < 162 ∨ 243 ≤ p.val → trits[p] = (complete fill rest)[p]) ∧
        HasWeight 243 (curl trits) := by
    intro rest
    apply Classical.by_contradiction
    intro hrest
    refine hnone ⟨complete fill rest, fun p => getElem_complete_of_nonce fill rest, ?_⟩
    intro trits hagree hweight
    exact hrest ⟨trits, hagree, hweight⟩
  choose solve hagree hweight using hall
  have hinjective : Function.Injective fun rest =>
      (capacity (curl (solve rest)), trace 81 (solve rest)) := by
    intro rest rest' heq
    have ⟨hcapacity, htrace⟩ := Prod.mk.inj heq
    have hcurl := eq_of_hasWeight (hweight rest) (hweight rest') hcapacity
    have hsolve := eq_of_iterate htrace hcurl
    apply complete_injective fill
    intro p hp
    rw [← hagree rest p hp, ← hagree rest' p hp, hsolve]
  have hcard := Fintype.card_le_of_injective _ hinjective
  have htrit : Fintype.card Trit = 3 := rfl
  simp only [Fintype.card_prod, Fintype.card_fun, Fintype.card_fin, htrit, ← Nat.pow_add] at hcard
  exact absurd ((Nat.pow_le_pow_iff_right (by decide)).mp hcard) (by decide)

end counting

end Dcurl.Spec
