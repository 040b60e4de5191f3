import Mathlib.Data.List.OfFn
import Dcurl.Spec.Curl

/-! A run of trits inside a state, read as a counter whose least significant
trit comes first. -/
namespace Dcurl.Spec

open Library Odometer

def window (state : State) (start len : Nat) (h : start + len ≤ 729) : List (Digit 2) :=
  List.ofFn fun k : Fin len => (state[start + k.val]).digit

/-- The state with the digits written over its trits from `start` on. -/
def overlay (state : State) (start : Nat) (digits : List (Digit 2)) : State :=
  Vector.ofFn fun p =>
    if start ≤ p.val then digits[p.val - start]?.elim state[p] Trit.ofDigit else state[p]

@[simp] theorem length_window (state : State) (start len : Nat) (h : start + len ≤ 729) :
    (window state start len h).length = len := by
  simp [window]

theorem window_congr {left right : State} {start len : Nat} (h : start + len ≤ 729)
    (heq : ∀ p : Fin 729, start ≤ p.val → p.val < start + len → left[p] = right[p]) :
    window left start len h = window right start len h := by
  apply congrArg List.ofFn
  funext k
  exact congrArg Trit.digit (heq ⟨start + k.val, by omega⟩ (by simp) (by simp))

theorem getElem_overlay (state : State) (start : Nat) (digits : List (Digit 2))
    (p : Fin 729) :
    (overlay state start digits)[p] =
      if start ≤ p.val then digits[p.val - start]?.elim state[p] Trit.ofDigit
      else state[p] := by
  simp [overlay]

theorem getElem_overlay_of_outside (state : State) {start : Nat} {digits : List (Digit 2)}
    {p : Fin 729} (hp : p.val < start ∨ start + digits.length ≤ p.val) :
    (overlay state start digits)[p] = state[p] := by
  rw [getElem_overlay]
  split
  · rw [List.getElem?_eq_none (by omega)]
    rfl
  · rfl

theorem getElem_overlay_of_inside (state : State) {start : Nat} {digits : List (Digit 2)}
    {p : Fin 729} (hstart : start ≤ p.val) (hp : p.val - start < digits.length) :
    (overlay state start digits)[p] = Trit.ofDigit digits[p.val - start] := by
  rw [getElem_overlay, if_pos hstart, List.getElem?_eq_getElem hp]
  rfl

theorem getElem_overlay_replicate (state : State) (start n : Nat) (trit : Trit) (p : Fin 729) :
    (overlay state start (List.replicate n trit.digit))[p] =
      if start ≤ p.val ∧ p.val < start + n then trit else state[p] := by
  rw [getElem_overlay, List.getElem?_replicate]
  by_cases hstart : start ≤ p.val
  · by_cases hend : p.val < start + n
    · rw [if_pos hstart, if_pos (by omega), if_pos ⟨hstart, hend⟩]
      exact Trit.ofDigit_digit trit
    · rw [if_pos hstart, if_neg (by omega), if_neg (by omega)]
      rfl
  · rw [if_neg hstart, if_neg (by omega)]

theorem getElem_overlay_head (state : State) {start : Nat} (hstart : start < 729)
    (digit : Digit 2) (digits : List (Digit 2)) :
    (overlay state start (digit :: digits))[(⟨start, hstart⟩ : Fin 729)] = Trit.ofDigit digit := by
  rw [getElem_overlay]
  simp

@[simp] theorem overlay_nil (state : State) (start : Nat) : overlay state start [] = state := by
  ext i hi
  exact getElem_overlay_of_outside state (p := ⟨i, hi⟩) (by simp; omega)

theorem overlay_window (state : State) (start len : Nat) (h : start + len ≤ 729) :
    overlay state start (window state start len h) = state := by
  ext i hi
  have hget := getElem_overlay state start (window state start len h) ⟨i, hi⟩
  simp only [Library.getElem_fin] at hget
  rw [hget]
  split
  · rename_i hstart
    by_cases hlen : i - start < len
    · have hsum : start + (i - start) = i := by omega
      rw [List.getElem?_eq_getElem (by simpa using hlen), Option.elim_some]
      simp only [window, List.getElem_ofFn, hsum]
      exact Trit.ofDigit_digit _
    · rw [List.getElem?_eq_none (by simpa using hlen)]
      rfl
  · rfl

theorem overlay_cons (state : State) {start : Nat} (hstart : start < 729) (digit : Digit 2)
    (digits : List (Digit 2)) :
    overlay state start (digit :: digits) =
      overlay (state.set start (Trit.ofDigit digit)) (start + 1) digits := by
  ext i hi
  have hleft := getElem_overlay state start (digit :: digits) ⟨i, hi⟩
  have hright := getElem_overlay (state.set start (Trit.ofDigit digit)) (start + 1) digits ⟨i, hi⟩
  simp only [Library.getElem_fin, Vector.getElem_set] at hleft hright
  rw [hleft, hright]
  by_cases heq : start = i
  · subst heq
    simp
  · by_cases hle : start ≤ i
    · have hsucc : i - start = (i - (start + 1)) + 1 := by omega
      rw [if_pos hle, if_pos (by omega), hsucc, List.getElem?_cons_succ, if_neg heq]
    · rw [if_neg hle, if_neg (by omega), if_neg heq]

theorem overlay_cons_window (state : State) {start len : Nat} (h : start + 1 + len ≤ 729)
    (digit : Digit 2) :
    overlay state start (digit :: window state (start + 1) len h) =
      state.set start (Trit.ofDigit digit) := by
  have hwindow : window state (start + 1) len h =
      window (state.set start (Trit.ofDigit digit)) (start + 1) len h := by
    apply window_congr
    intro p hp _
    rw [Library.getElem_fin, Library.getElem_fin, Vector.getElem_set_ne _ _ (by omega)]
  rw [overlay_cons state (by omega), hwindow, overlay_window]

theorem set_overlay_cons (state : State) {start : Nat} (hstart : start < 729)
    (digit digit' : Digit 2) (digits : List (Digit 2)) :
    (overlay state start (digit :: digits)).set start (Trit.ofDigit digit') =
      overlay state start (digit' :: digits) := by
  ext i hi
  have hleft := getElem_overlay state start (digit :: digits) ⟨i, hi⟩
  have hright := getElem_overlay state start (digit' :: digits) ⟨i, hi⟩
  simp only [Library.getElem_fin] at hleft hright
  rw [Vector.getElem_set, hleft, hright]
  by_cases heq : start = i
  · subst heq
    simp
  · rw [if_neg heq]
    by_cases hle : start ≤ i
    · have hsucc : i - start = (i - (start + 1)) + 1 := by omega
      rw [if_pos hle, if_pos hle, hsucc, List.getElem?_cons_succ, List.getElem?_cons_succ]
    · rw [if_neg hle, if_neg hle]

theorem overlay_inj (left right : State) (start : Nat) {digits digits' : List (Digit 2)}
    (h : start + digits.length ≤ 729) (hlength : digits.length = digits'.length)
    (heq : ∀ p : Fin 729, start ≤ p.val → p.val < start + digits.length →
      (overlay left start digits)[p] = (overlay right start digits')[p]) :
    digits = digits' := by
  apply List.ext_getElem hlength
  intro k hk hk'
  have hp := heq ⟨start + k, by omega⟩ (by simp) (by simp; omega)
  rw [getElem_overlay_of_inside left (by simp) (by simpa using hk),
    getElem_overlay_of_inside right (by simp) (by simpa using hk')] at hp
  have hdigit := congrArg Trit.digit hp
  simpa using hdigit

end Dcurl.Spec
