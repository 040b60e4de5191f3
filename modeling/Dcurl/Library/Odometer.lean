import Mathlib.Data.Nat.Digits.Lemmas
import Mathlib.Data.Fin.Basic

/-! Fixed-width counters that carry from digit to digit. A counter is the list
of its digits, least significant first, in the radix `b + 1`. -/
namespace Dcurl.Library.Odometer

variable {b : Nat}

abbrev Digit (b : Nat) := Fin (b + 1)

instance (priority := 2000) digitNeZero (b : Nat) : NeZero (b + 1) := ⟨Nat.succ_ne_zero b⟩

def value (digits : List (Digit b)) : Nat :=
  Nat.ofDigits (b + 1) (digits.map Fin.val)

/-- One increment.  A digit that wraps passes the carry on; the carry out of
the last digit is lost. -/
def tick : List (Digit b) → List (Digit b)
  | [] => []
  | digit :: rest => if digit = Fin.last b then 0 :: tick rest else (digit + 1) :: rest

def visitsLast : List (Digit b) → Bool
  | [] => true
  | [_] => true
  | digit :: next :: rest => digit = Fin.last b && visitsLast (next :: rest)

@[simp] theorem value_nil : value ([] : List (Digit b)) = 0 := rfl

@[simp] theorem value_cons (digit : Digit b) (rest : List (Digit b)) :
    value (digit :: rest) = digit.val + (b + 1) * value rest := by
  simp [value, Nat.ofDigits_cons]

@[simp] theorem length_tick (digits : List (Digit b)) :
    (tick digits).length = digits.length := by
  induction digits with
  | nil => rfl
  | cons digit rest ih =>
      unfold tick
      split <;> simp [ih]

@[simp] theorem length_tick_iterate (digits : List (Digit b)) (n : Nat) :
    (tick^[n] digits).length = digits.length := by
  induction n with
  | zero => rfl
  | succ n ih => rw [Function.iterate_succ_apply', length_tick, ih]

theorem value_lt (digits : List (Digit b)) :
    value digits < (b + 1) ^ digits.length := by
  induction digits with
  | nil => simp
  | cons digit rest ih =>
      rw [value_cons, List.length_cons, Nat.pow_succ']
      have hdigit := digit.isLt
      calc digit.val + (b + 1) * value rest
          < (b + 1) + (b + 1) * value rest := by omega
        _ = (b + 1) * (value rest + 1) := by ring
        _ ≤ (b + 1) * (b + 1) ^ rest.length := Nat.mul_le_mul_left _ ih

theorem value_injective {left right : List (Digit b)} (hlength : left.length = right.length)
    (hvalue : value left = value right) : left = right := by
  induction left generalizing right with
  | nil => exact (List.length_eq_zero_iff.mp hlength.symm).symm
  | cons digit rest ih =>
      cases right with
      | nil => simp at hlength
      | cons digit' rest' =>
          simp only [value_cons] at hvalue
          have hdigit : digit = digit' := by
            have hmod := congrArg (· % (b + 1)) hvalue
            simp only [Nat.add_mul_mod_self_left, Nat.mod_eq_of_lt digit.isLt,
              Nat.mod_eq_of_lt digit'.isLt] at hmod
            exact Fin.ext hmod
          subst hdigit
          have hrest : value rest = value rest' :=
            Nat.eq_of_mul_eq_mul_left (Nat.succ_pos b) (Nat.add_left_cancel hvalue)
          rw [ih (by simpa using hlength) hrest]

theorem value_tick (digits : List (Digit b)) :
    value (tick digits) = (value digits + 1) % (b + 1) ^ digits.length := by
  induction digits with
  | nil => simp [tick]
  | cons digit rest ih =>
      unfold tick
      split
      · rename_i hlast
        subst hlast
        rw [value_cons, value_cons, ih, List.length_cons, Nat.pow_succ']
        simp only [Fin.val_zero, Fin.val_last, Nat.zero_add]
        rw [show b + (b + 1) * value rest + 1 = (b + 1) * (value rest + 1) by ring,
          Nat.mul_mod_mul_left]
      · rename_i hlast
        have hlt : digit.val < b := by
          have hne : digit.val ≠ b := fun h => hlast (Fin.ext h)
          omega
        have hsucc : (digit + 1).val = digit.val + 1 :=
          Fin.val_add_one_of_lt (Fin.lt_last_iff_ne_last.mpr hlast)
        have hbound := value_lt ((digit + 1) :: rest)
        rw [value_cons, hsucc, List.length_cons] at hbound
        rw [value_cons, value_cons, hsucc, List.length_cons,
          Nat.mod_eq_of_lt (by omega)]
        omega

theorem value_tick_iterate (digits : List (Digit b)) (n : Nat) :
    value (tick^[n] digits) = (value digits + n) % (b + 1) ^ digits.length := by
  induction n with
  | zero => exact (Nat.mod_eq_of_lt (value_lt digits)).symm
  | succ n ih =>
      rw [Function.iterate_succ_apply', value_tick, ih, length_tick_iterate,
        Nat.mod_add_mod, Nat.add_assoc]

theorem tick_iterate_injective (digits : List (Digit b)) {m n : Nat}
    (hm : m < (b + 1) ^ digits.length) (hn : n < (b + 1) ^ digits.length)
    (heq : tick^[m] digits = tick^[n] digits) : m = n := by
  have hvalue := congrArg value heq
  rw [value_tick_iterate, value_tick_iterate] at hvalue
  have hmod : m ≡ n [MOD (b + 1) ^ digits.length] := Nat.ModEq.add_left_cancel' _ hvalue
  exact Nat.ModEq.eq_of_lt_of_lt hmod hm hn

theorem full_iff {digit rest period : Nat} (hdigit : digit < b + 1) (hrest : rest < period) :
    digit = b ∧ rest = period - 1 ↔ digit + (b + 1) * rest = (b + 1) * period - 1 := by
  have hperiod : (b + 1) * period = (b + 1) * (period - 1) + (b + 1) := by
    rw [← Nat.mul_succ, Nat.succ_eq_add_one, Nat.sub_add_cancel (by omega)]
  constructor
  · intro ⟨hd, hr⟩
    rw [hd, hr]
    omega
  · intro h
    have hmul : (b + 1) * rest ≤ (b + 1) * (period - 1) := Nat.mul_le_mul_left _ (by omega)
    have hd : digit = b := by omega
    exact ⟨hd, Nat.eq_of_mul_eq_mul_left (show 0 < b + 1 by omega) (by omega)⟩

/-- The last digit is visited exactly when the digits below it are all at
their maximum. -/
theorem visitsLast_iff (digits : List (Digit b)) {low : Nat}
    (hlength : digits.length = low + 1) :
    visitsLast digits = true ↔ value digits % (b + 1) ^ low = (b + 1) ^ low - 1 := by
  induction low generalizing digits with
  | zero =>
      obtain ⟨digit, rfl⟩ := List.length_eq_one_iff.mp hlength
      simp [visitsLast, Nat.mod_one]
  | succ low ih =>
      match digits, hlength with
      | digit :: next :: rest, hlength =>
          have htail := ih (next :: rest) (by simpa using hlength)
          have hdigit := digit.isLt
          have hlast : digit = Fin.last b ↔ digit.val = b := by
            rw [Fin.ext_iff, Fin.val_last]
          rw [visitsLast, Bool.and_eq_true, decide_eq_true_eq, htail, hlast,
            value_cons digit (next :: rest), Nat.pow_succ', Nat.mod_mul,
            Nat.add_mul_mod_self_left, Nat.mod_eq_of_lt hdigit,
            Nat.add_mul_div_left _ _ (Nat.succ_pos b), Nat.div_eq_of_lt hdigit, Nat.zero_add]
          exact full_iff hdigit (Nat.mod_lt _ (Nat.pow_pos (Nat.succ_pos b)))

/-- How many increments run before the one that visits the last of `low + 1`
digits. -/
def headroom (low : Nat) (digits : List (Digit b)) : Nat :=
  (b + 1) ^ low - 1 - value digits % (b + 1) ^ low

theorem headroom_lt (low : Nat) (digits : List (Digit b)) :
    headroom low digits < (b + 1) ^ low := by
  have hpow : 0 < (b + 1) ^ low := Nat.pow_pos (Nat.succ_pos b)
  unfold headroom
  generalize value digits % (b + 1) ^ low = spent
  omega

section run

variable {low : Nat} {digits : List (Digit b)} (hlength : digits.length = low + 1)
include hlength

theorem value_tick_iterate_of_le {n : Nat} (hn : n ≤ headroom low digits) :
    value (tick^[n] digits) = value digits + n := by
  rw [value_tick_iterate, Nat.mod_eq_of_lt]
  have hlt := value_lt digits
  rw [hlength, Nat.pow_succ] at *
  have hpow : 0 < (b + 1) ^ low := Nat.pow_pos (Nat.succ_pos b)
  have hdecompose := Nat.div_add_mod (value digits) ((b + 1) ^ low)
  have hquot : value digits / (b + 1) ^ low < b + 1 := by
    rw [Nat.div_lt_iff_lt_mul hpow, Nat.mul_comm]
    exact hlt
  have hmul : (b + 1) ^ low * (value digits / (b + 1) ^ low + 1) ≤
      (b + 1) ^ low * (b + 1) := Nat.mul_le_mul_left _ hquot
  rw [Nat.mul_add, Nat.mul_one] at hmul
  have hmod := Nat.mod_lt (value digits) hpow
  unfold headroom at hn
  generalize value digits % (b + 1) ^ low = spent at *
  omega

theorem visitsLast_tick_iterate_iff {n : Nat} (hn : n ≤ headroom low digits) :
    visitsLast (tick^[n] digits) = true ↔ n = headroom low digits := by
  rw [visitsLast_iff _ (by rw [length_tick_iterate, hlength]),
    value_tick_iterate_of_le hlength hn]
  have hpow : 0 < (b + 1) ^ low := Nat.pow_pos (Nat.succ_pos b)
  have hmod := Nat.mod_lt (value digits) hpow
  unfold headroom at hn ⊢
  have hsum : (value digits + n) % (b + 1) ^ low =
      value digits % (b + 1) ^ low + n := by
    rw [← Nat.mod_add_mod]
    generalize value digits % (b + 1) ^ low = spent at *
    exact Nat.mod_eq_of_lt (by omega)
  rw [hsum]
  generalize value digits % (b + 1) ^ low = spent at *
  omega

theorem not_visitsLast_of_lt {n : Nat} (hn : n < headroom low digits) :
    visitsLast (tick^[n] digits) = false := by
  have h := visitsLast_tick_iterate_iff hlength hn.le
  exact Bool.eq_false_iff.mpr fun hvisits => hn.ne (h.mp hvisits)

theorem visitsLast_headroom : visitsLast (tick^[headroom low digits] digits) = true :=
  (visitsLast_tick_iterate_iff hlength le_rfl).mpr rfl

/-- The counters met before the last digit is visited are the successors of
the start that share its last digit. -/
theorem exists_tick_iterate_iff (target : List (Digit b)) (htarget : target.length = low + 1) :
    (∃ n, 0 < n ∧ n ≤ headroom low digits ∧ tick^[n] digits = target) ↔
      value digits < value target ∧
        value target / (b + 1) ^ low = value digits / (b + 1) ^ low := by
  have hpow : 0 < (b + 1) ^ low := Nat.pow_pos (Nat.succ_pos b)
  have hmod := Nat.mod_lt (value digits) hpow
  have hmod' := Nat.mod_lt (value target) hpow
  have hdecompose := Nat.div_add_mod (value digits) ((b + 1) ^ low)
  have hdecompose' := Nat.div_add_mod (value target) ((b + 1) ^ low)
  constructor
  · rintro ⟨n, hpos, hle, rfl⟩
    rw [value_tick_iterate_of_le hlength hle]
    refine ⟨by omega, ?_⟩
    unfold headroom at hle
    generalize value digits % (b + 1) ^ low = spent at *
    have hsum : spent + n < (b + 1) ^ low := by omega
    rw [← hdecompose, Nat.add_assoc, Nat.mul_add_div hpow, Nat.mul_add_div hpow,
      Nat.div_eq_of_lt hsum, Nat.div_eq_of_lt hmod]
  · rintro ⟨hlt, hquot⟩
    rw [hquot] at hdecompose'
    have hle : value target - value digits ≤ headroom low digits := by
      unfold headroom
      generalize value digits % (b + 1) ^ low = spent at *
      omega
    refine ⟨value target - value digits, by omega, hle, ?_⟩
    apply value_injective (by rw [length_tick_iterate, hlength, htarget])
    rw [value_tick_iterate_of_le hlength hle]
    omega

end run

end Dcurl.Library.Odometer
