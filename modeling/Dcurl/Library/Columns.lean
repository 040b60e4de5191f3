import Mathlib.Data.Nat.Count
import Dcurl.Library.Odometer

/-! Counters that run side by side in lanes and carry together. All lanes advance
a digit at once, and the next digit follows when one of the leading lanes wraps,
so that lanes with different digits count in step but not by their own carries. -/
namespace Dcurl.Library.Columns

open Odometer (Digit)

variable {b : Nat}

abbrev Column (b : Nat) := Nat → Digit b

def full (leads : List Nat) (column : Column b) : Bool :=
  leads.any fun lane => column lane == Fin.last b

/-- One increment of all lanes, the least significant column first. -/
def tick (leads : List Nat) : List (Column b) → List (Column b)
  | [] => []
  | column :: rest =>
      (fun lane => column lane + 1) :: if full leads column then tick leads rest else rest

def shift (column : Column b) (n : Nat) : Column b := fun lane => column lane + Fin.ofNat (b + 1) n

def carries (leads : List Nat) (column : Column b) (n : Nat) : Nat :=
  Nat.count (fun j => full leads (shift column j) = true) n

def digitsOf (columns : List (Column b)) (lane : Nat) : List (Digit b) :=
  columns.map fun column => column lane

@[simp] theorem digitsOf_cons (column : Column b) (rest : List (Column b)) (lane : Nat) :
    digitsOf (column :: rest) lane = column lane :: digitsOf rest lane := rfl

def shared (digits : List (Digit b)) : List (Column b) := digits.map fun digit _ => digit

@[simp] theorem digitsOf_shared (digits : List (Digit b)) (lane : Nat) :
    digitsOf (shared digits) lane = digits := by
  simp [digitsOf, shared, Function.comp_def]

@[simp] theorem shift_zero (column : Column b) : shift column 0 = column := by
  funext lane
  simp [shift]

theorem shift_succ (column : Column b) (n : Nat) (lane : Nat) :
    shift column n lane + 1 = shift column (n + 1) lane := by
  apply Fin.ext
  simp [shift, Fin.val_add, Nat.add_assoc]

theorem shift_mod (column : Column b) (n : Nat) : shift column (n % (b + 1)) = shift column n := by
  funext lane
  simp [shift, Fin.ofNat]

variable (leads : List Nat)

theorem tick_iterate_cons (column : Column b) (rest : List (Column b)) (n : Nat) :
    (tick leads)^[n] (column :: rest) =
      shift column n :: (tick leads)^[carries leads column n] rest := by
  induction n with
  | zero => simp [carries]
  | succ n ih =>
      have hcarries : carries leads column (n + 1) =
          carries leads column n + if full leads (shift column n) = true then 1 else 0 :=
        Nat.count_succ _ n
      rw [Function.iterate_succ_apply', ih, tick, hcarries]
      congr 1
      · funext lane
        exact shift_succ column n lane
      · split
        · exact (Function.iterate_succ_apply' _ _ _).symm
        · rfl

/-- The carries repeat with the radix. -/
theorem carries_eq (column : Column b) (n : Nat) :
    carries leads column n =
      n / (b + 1) * carries leads column (b + 1) + carries leads column (n % (b + 1)) := by
  have hperiod : ∀ periods n, carries leads column (periods * (b + 1) + n) =
      periods * carries leads column (b + 1) + carries leads column n := by
    intro periods n
    induction periods with
    | zero => simp
    | succ periods ih =>
        have hshift : ∀ k, shift column (b + 1 + k) = shift column k := by
          intro k
          rw [← shift_mod column (b + 1 + k), Nat.add_mod_left, shift_mod]
        have hsplit : carries leads column (b + 1 + (periods * (b + 1) + n)) =
            carries leads column (b + 1) + carries leads column (periods * (b + 1) + n) := by
          unfold carries
          rw [Nat.count_add]
          simp only [hshift]
        rw [show (periods + 1) * (b + 1) + n = b + 1 + (periods * (b + 1) + n) by ring, hsplit, ih]
        ring
  conv_lhs => rw [← Nat.div_add_mod' n (b + 1)]
  exact hperiod _ _

theorem tick_shared (hleads : leads ≠ []) (digits : List (Digit b)) :
    tick leads (shared digits) = shared (Odometer.tick digits) := by
  induction digits with
  | nil => rfl
  | cons digit rest ih =>
      have hfull : full leads (fun _ => digit) = decide (digit = Fin.last b) := by
        have ⟨lane, others, hcons⟩ := List.exists_cons_of_ne_nil hleads
        simp only [full, hcons, List.any_cons, beq_eq_decide]
        cases hlast : decide (digit = Fin.last b) <;> simp
      have hcons : tick leads (shared (digit :: rest)) = (fun _ => digit + 1) ::
          if full leads (fun _ => digit) = true then tick leads (shared rest) else shared rest :=
        rfl
      rw [hcons, hfull, ih, Odometer.tick]
      by_cases hlast : digit = Fin.last b
      · subst hlast
        simp [shared]
      · simp [hlast, shared]

theorem tick_iterate_shared (hleads : leads ≠ []) (digits : List (Digit b)) (n : Nat) :
    (tick leads)^[n] (shared digits) = shared (Odometer.tick^[n] digits) := by
  induction n with
  | zero => rfl
  | succ n ih =>
      rw [Function.iterate_succ_apply', Function.iterate_succ_apply', ih, tick_shared _ hleads]

@[simp] theorem length_tick (columns : List (Column b)) :
    (tick leads columns).length = columns.length := by
  induction columns with
  | nil => rfl
  | cons column rest ih =>
      unfold tick
      split <;> simp [ih]

@[simp] theorem length_tick_iterate (columns : List (Column b)) (n : Nat) :
    ((tick leads)^[n] columns).length = columns.length := by
  induction n with
  | zero => rfl
  | succ n ih => rw [Function.iterate_succ_apply', length_tick, ih]

@[simp] theorem length_digitsOf (columns : List (Column b)) (lane : Nat) :
    (digitsOf columns lane).length = columns.length := by
  simp [digitsOf]

end Dcurl.Library.Columns
