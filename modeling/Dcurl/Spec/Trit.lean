import Dcurl.Library.Odometer

/-! Balanced ternary digits, free of any representation, and the two
representations the program uses: a signed byte, and a pair of bits in which
`(0,0)` stands for no trit. -/
namespace Dcurl

open Library

instance (priority := 3000) digitTwoNeZero : NeZero (2 + 1) := ⟨by decide⟩

inductive Trit where
  | neg
  | zero
  | pos
  deriving DecidableEq, Repr, Inhabited

namespace Trit

def toInt8 : Trit → Int8
  | neg => -1
  | zero => 0
  | pos => 1

def ofInt8 (value : Int8) : Option Trit :=
  if value = -1 then some neg
  else if value = 0 then some zero
  else if value = 1 then some pos
  else none

@[simp] theorem ofInt8_toInt8 (trit : Trit) : ofInt8 trit.toInt8 = some trit := by
  cases trit <;> decide

theorem toInt8_injective : Function.Injective toInt8 := by
  intro left right h
  have hsome := congrArg ofInt8 h
  simpa using hsome

theorem toInt8_of_ofInt8 {value : Int8} {trit : Trit} (h : ofInt8 value = some trit) :
    trit.toInt8 = value := by
  unfold ofInt8 at h
  split at h
  · rename_i hvalue
    cases h
    exact hvalue.symm
  · split at h
    · rename_i hvalue
      cases h
      exact hvalue.symm
    · split at h
      · rename_i hvalue
        cases h
        exact hvalue.symm
      · cases h

def lowBit : Trit → Bool
  | neg => true
  | zero => true
  | pos => false

def highBit : Trit → Bool
  | neg => false
  | zero => true
  | pos => true

def ofBits : Bool → Bool → Option Trit
  | true, true => some zero
  | false, true => some pos
  | true, false => some neg
  | false, false => none

theorem ofBits_eq_some_iff {low high : Bool} {trit : Trit} :
    ofBits low high = some trit ↔ low = trit.lowBit ∧ high = trit.highBit := by
  cases low <;> cases high <;> cases trit <;> decide

theorem ofBits_eq_none_iff {low high : Bool} :
    ofBits low high = none ↔ low = false ∧ high = false := by
  cases low <;> cases high <;> decide

theorem xor_bits_eq_false_iff (trit : Trit) :
    (trit.lowBit ^^ trit.highBit) = false ↔ trit = zero := by
  cases trit <;> decide

/-- The successor on -1, 0, 1 that wraps from 1 to -1. -/
def next : Trit → Trit
  | neg => zero
  | zero => pos
  | pos => neg

def digit : Trit → Odometer.Digit 2
  | neg => 0
  | zero => 1
  | pos => 2

def ofDigit : Odometer.Digit 2 → Trit
  | 0 => neg
  | 1 => zero
  | 2 => pos

@[simp] theorem digit_ofDigit (value : Odometer.Digit 2) : (ofDigit value).digit = value := by
  revert value
  decide

@[simp] theorem ofDigit_digit (trit : Trit) : ofDigit trit.digit = trit := by
  cases trit <;> rfl

theorem digit_eq_last_iff (trit : Trit) : trit.digit = Fin.last 2 ↔ trit = pos := by
  cases trit <;> decide

@[simp] theorem next_ofDigit (value : Odometer.Digit 2) :
    (ofDigit value).next = ofDigit (value + 1) := by
  revert value
  decide

end Trit

def embed {n : Nat} (trits : Vector Trit n) : Vector Int8 n := trits.map Trit.toInt8

@[simp] theorem getElem_embed {n : Nat} (trits : Vector Trit n) (i : Nat) (hi : i < n) :
    (embed trits)[i] = trits[i].toInt8 := by
  simp [embed]

end Dcurl
