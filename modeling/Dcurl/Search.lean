import Dcurl.Spec.Counter
import Dcurl.Lanes

/-! The loops that the CPU back ends share, over words of any number of lanes.
Each back end instantiates them with its own width, constants and tests. -/
namespace Dcurl

open Library Odometer

variable {w : Nat}

def positions : (start len : Nat) → start + len ≤ 729 → List (Fin 729)
  | _, 0, _ => []
  | start, len + 1, h => ⟨start, by omega⟩ :: positions (start + 1) len (by omega)

theorem mem_positions {start len : Nat} (h : start + len ≤ 729) (p : Fin 729) :
    p ∈ positions start len h ↔ start ≤ p.val ∧ p.val < start + len := by
  induction len generalizing start with
  | zero =>
      simp only [positions, List.not_mem_nil, false_iff]
      omega
  | succ len ih =>
      simp only [positions, List.mem_cons, ih, Fin.ext_iff]
      omega

namespace Words

def advance (mid : Words w) (i : Fin 729) : Words w where
  low := mid.low.set i (mid.high[i] ^^^ mid.low[i])
  high := mid.high.set i mid.low[i]

def put (mid : Words w) (i : Fin 729) (low high : BitVec w) : Words w where
  low := mid.low.set i low
  high := mid.high.set i high

theorem trit?_put (mid : Words w) (i p : Fin 729) (low high : BitVec w) (lane : Nat) :
    (mid.put i low high).trit? lane p =
      if p = i then Trit.ofBits (low.getLsbD lane) (high.getLsbD lane)
      else mid.trit? lane p := by
  unfold trit? put
  simp only [Library.getElem_fin, Vector.getElem_set, Fin.ext_iff, eq_comm (a := i.val)]
  split <;> rfl

theorem Holds.put {mid : Words w} {lane : Nat} {trits : Spec.State}
    (h : mid.Holds lane trits) (i : Fin 729) {low high : BitVec w} {trit : Trit}
    (hlow : low.getLsbD lane = trit.lowBit) (hhigh : high.getLsbD lane = trit.highBit) :
    (mid.put i low high).Holds lane (trits.set i trit) := by
  intro p
  rw [trit?_put, Trit.ofBits_eq_some_iff.mpr ⟨hlow, hhigh⟩, h p]
  simp only [Library.getElem_fin, Vector.getElem_set, Fin.ext_iff, eq_comm (a := i.val)]
  split <;> rfl

theorem trit?_advance (mid : Words w) (i p : Fin 729) (lane : Nat) :
    (mid.advance i).trit? lane p =
      if p = i then (mid.trit? lane i).map Trit.next else mid.trit? lane p := by
  have hput : mid.advance i = mid.put i (mid.high[i] ^^^ mid.low[i]) mid.low[i] := rfl
  rw [hput, trit?_put, BitVec.getLsbD_xor]
  unfold trit?
  cases mid.low[i].getLsbD lane <;> cases mid.high[i].getLsbD lane <;> rfl

theorem Holds.advance {mid : Words w} {lane : Nat} {trits : Spec.State}
    (h : mid.Holds lane trits) (i : Fin 729) :
    (mid.advance i).Holds lane (trits.set i trits[i].next) := by
  intro p
  rw [trit?_advance, h i, h p]
  simp only [Library.getElem_fin, Vector.getElem_set, Fin.ext_iff, eq_comm (a := i.val)]
  split <;> rfl

/-- A lane holds a state that agrees with `mid` outside the positions from
`start` to `stop`. -/
def HoldsOutside (words : Words w) (lane start stop : Nat) (mid : Spec.State) : Prop :=
  ∃ trits : Spec.State, words.Holds lane trits ∧
    ∀ p : Fin 729, p.val < start ∨ stop ≤ p.val → trits[p] = mid[p]

theorem Holds.outside {words : Words w} {lane : Nat} {mid : Spec.State}
    (h : words.Holds lane mid) (start stop : Nat) : words.HoldsOutside lane start stop mid :=
  ⟨mid, h, fun _ _ => rfl⟩

theorem HoldsOutside.put {words : Words w} {lane start stop : Nat} {mid : Spec.State}
    (h : words.HoldsOutside lane start stop mid) (hlane : lane < w) {i : Fin 729}
    (hstart : start ≤ i.val) (hstop : i.val < stop) {low high : BitVec w}
    (hcover : low ||| high = BitVec.allOnes w) :
    (words.put i low high).HoldsOutside lane start stop mid := by
  have ⟨trits, hholds, hagree⟩ := h
  have hbits : (low.getLsbD lane || high.getLsbD lane) = true := by
    rw [← BitVec.getLsbD_or, hcover, BitVec.getLsbD_allOnes, decide_eq_true hlane]
  have hsome : ∃ trit : Trit,
      low.getLsbD lane = trit.lowBit ∧ high.getLsbD lane = trit.highBit := by
    cases hlow : low.getLsbD lane <;> cases hhigh : high.getLsbD lane
    · simp [hlow, hhigh] at hbits
    · exact ⟨.pos, rfl, rfl⟩
    · exact ⟨.neg, rfl, rfl⟩
    · exact ⟨.zero, rfl, rfl⟩
  have ⟨trit, hlow, hhigh⟩ := hsome
  refine ⟨_, hholds.put i hlow hhigh, ?_⟩
  intro p hp
  rw [Library.getElem_fin, Vector.getElem_set_ne _ _ (by omega)]
  exact hagree p hp

end Words

/-- `for (i = start; i < stop && carry; i++)` with the loop test `goOn`. The
flag says that the loop ended with `i == stop`. -/
def carryLoop (goOn : Fin 729 → BitVec w → Bool)
    (carryOf : BitVec w → BitVec w → BitVec w) :
    List (Fin 729) → BitVec w → Words w → Bool × Words w
  | [], _, mid => (true, mid)
  | i :: rest, carry, mid =>
      if goOn i carry then
        carryLoop goOn carryOf rest (carryOf mid.low[i] mid.high[i]) (mid.advance i)
      else (false, mid)

section carryLoop

variable (goOn : Fin 729 → BitVec w → Bool) (carryOf : BitVec w → BitVec w → BitVec w)

theorem exists_holds_carryLoop {lane : Nat} (indices : List (Fin 729)) (carry : BitVec w)
    {mid : Words w} {trits : Spec.State} (hmid : mid.Holds lane trits) :
    ∃ trits' : Spec.State, (carryLoop goOn carryOf indices carry mid).2.Holds lane trits' ∧
      ∀ p ∉ indices, trits'[p] = trits[p] := by
  induction indices generalizing carry mid trits with
  | nil => exact ⟨trits, hmid, fun _ _ => rfl⟩
  | cons i rest ih =>
      rw [carryLoop]
      split
      · have ⟨trits', hholds, hkeep⟩ := ih (carryOf mid.low[i] mid.high[i]) (hmid.advance i)
        refine ⟨trits', hholds, ?_⟩
        intro p hp
        rw [List.mem_cons, not_or] at hp
        rw [hkeep p hp.2, Library.getElem_fin,
          Vector.getElem_set_ne _ _ (fun h => hp.1 (Fin.ext h.symm))]
        rfl
      · exact ⟨trits, hmid, fun _ _ => rfl⟩

theorem holdsOutside_carryLoop_iterate {words : Words w} {lane start stop first len : Nat}
    {mid : Spec.State} (hlen : first + len ≤ 729) (hfirst : start ≤ first)
    (hlast : first + len ≤ stop) (carry : BitVec w) (n : Nat)
    (h : words.HoldsOutside lane start stop mid) :
    ((fun words => (carryLoop goOn carryOf (positions first len hlen) carry words).2)^[n]
      words).HoldsOutside lane start stop mid := by
  induction n with
  | zero => exact h
  | succ n ih =>
      rw [Function.iterate_succ_apply']
      have ⟨trits, hholds, hagree⟩ := ih
      have ⟨trits', hholds', hkeep⟩ :=
        exists_holds_carryLoop goOn carryOf (positions first len hlen) carry hholds
      refine ⟨trits', hholds', ?_⟩
      intro p hp
      have hmem : p ∉ positions first len hlen := by
        rw [mem_positions]
        omega
      rw [hkeep p hmem]
      exact hagree p hp

variable {goOn carryOf}

theorem words_of_uniform {mid : Words w} {i : Fin 729} {trit : Trit}
    (h : ∀ lane < w, mid.trit? lane i = some trit) :
    mid.low[i] = (if trit.lowBit then BitVec.allOnes w else 0#w) ∧
      mid.high[i] = (if trit.highBit then BitVec.allOnes w else 0#w) := by
  constructor
  · apply BitVec.eq_of_getLsbD_eq
    intro lane hlane
    rw [(Words.trit?_eq_some_iff.mp (h lane hlane)).1]
    cases trit <;> simp [Trit.lowBit, hlane]
  · apply BitVec.eq_of_getLsbD_eq
    intro lane hlane
    rw [(Words.trit?_eq_some_iff.mp (h lane hlane)).2]
    cases trit <;> simp [Trit.highBit, hlane]

variable (hcarryOf : ∀ low high, carryOf low high = high &&& ~~~low)

include hcarryOf in
theorem carryOf_of_uniform {mid : Words w} {i : Fin 729} {trit : Trit}
    (h : ∀ lane < w, mid.trit? lane i = some trit) :
    carryOf mid.low[i] mid.high[i] = if trit = .pos then BitVec.allOnes w else 0#w := by
  have ⟨hlow, hhigh⟩ := words_of_uniform h
  rw [hcarryOf, hlow, hhigh]
  cases trit <;> simp [Trit.lowBit, Trit.highBit]

include hcarryOf in
/-- On digits that all lanes share, the carry loop is one increment, and it
reaches its bound exactly when it visits the last digit. -/
theorem carryLoop_overlay {start len : Nat} {digits : List (Digit 2)}
    (hdigits : digits.length = len) (hlen : start + len ≤ 729) {carry : BitVec w}
    {mid : Words w} {base : Nat → Spec.State}
    (hfirst : ∀ p : Fin 729, p.val = start → goOn p carry = true)
    (hlater : ∀ p : Fin 729, start < p.val →
      goOn p (BitVec.allOnes w) = true ∧ goOn p 0#w = false)
    (hmid : ∀ lane < w, mid.Holds lane (Spec.overlay (base lane) start digits)) :
    (carryLoop goOn carryOf (positions start len hlen) carry mid).1 = visitsLast digits ∧
      ∀ lane < w, (carryLoop goOn carryOf (positions start len hlen) carry mid).2.Holds
        lane (Spec.overlay (base lane) start (tick digits)) := by
  subst hdigits
  induction digits generalizing start carry mid base with
  | nil => exact ⟨rfl, hmid⟩
  | cons digit rest ih =>
      have hstart : start < 729 := by
        rw [List.length_cons] at hlen
        omega
      have huniform : ∀ lane < w, mid.trit? lane ⟨start, hstart⟩ = some (Trit.ofDigit digit) := by
        intro lane hlane
        rw [hmid lane hlane, Spec.getElem_overlay_head]
      have hadvance : ∀ lane < w, (mid.advance ⟨start, hstart⟩).Holds lane
          (Spec.overlay (base lane) start ((digit + 1) :: rest)) := by
        intro lane hlane
        rw [← Spec.set_overlay_cons _ hstart digit]
        have hstep := (hmid lane hlane).advance ⟨start, hstart⟩
        rw [Spec.getElem_overlay_head, Trit.next_ofDigit] at hstep
        exact hstep
      simp only [List.length_cons, positions, carryLoop, hfirst ⟨start, hstart⟩ rfl, if_true]
      rw [carryOf_of_uniform hcarryOf huniform]
      by_cases hlast : digit = Fin.last 2
      · -- The digit wraps and every lane carries on.
        subst hlast
        rw [if_pos (show Trit.ofDigit (Fin.last 2) = .pos from rfl), tick, if_pos rfl]
        have hcarried : ∀ lane < w, (mid.advance ⟨start, hstart⟩).Holds lane
            (Spec.overlay ((base lane).set start (Trit.ofDigit 0)) (start + 1) rest) := by
          intro lane hlane
          rw [← Spec.overlay_cons _ hstart]
          exact hadvance lane hlane
        have hrest := ih (fun p hp => (hlater p (by omega)).1) (fun p hp => hlater p (by omega))
          hcarried (by rw [List.length_cons] at hlen; omega)
        refine ⟨hrest.1.trans ?_, ?_⟩
        · cases rest <;> simp [visitsLast]
        · intro lane hlane
          rw [Spec.overlay_cons _ hstart]
          exact hrest.2 lane hlane
      · have hpos : Trit.ofDigit digit ≠ .pos := by
          rw [Ne, ← Trit.digit_eq_last_iff, Trit.digit_ofDigit]
          exact hlast
        rw [if_neg hpos, tick, if_neg hlast]
        cases rest with
        | nil => exact ⟨rfl, hadvance⟩
        | cons next rest =>
            have hstop := (hlater ⟨start + 1, by simp only [List.length_cons] at hlen; omega⟩
              (by simp)).2
            simp only [List.length_cons, positions, carryLoop, hstop, Bool.false_eq_true, if_false]
            refine ⟨?_, hadvance⟩
            rw [visitsLast, decide_eq_false hlast, Bool.false_and]

theorem carryLoop_overlay_of_test (hcarryOf : ∀ low high, carryOf low high = high &&& ~~~low)
    {test : BitVec w → Bool} (hones : test (BitVec.allOnes w) = true) (hzero : test 0#w = false)
    {start len : Nat} {digits : List (Digit 2)} (hdigits : digits.length = len)
    (hlen : start + len ≤ 729) {carry : BitVec w} {mid : Words w} {base : Nat → Spec.State}
    (hmid : ∀ lane < w, mid.Holds lane (Spec.overlay (base lane) start digits)) :
    (carryLoop (fun i carry => i.val == start || test carry) carryOf (positions start len hlen)
        carry mid).1 = visitsLast digits ∧
      ∀ lane < w, (carryLoop (fun i carry => i.val == start || test carry) carryOf
        (positions start len hlen) carry mid).2.Holds lane
          (Spec.overlay (base lane) start (tick digits)) := by
  apply carryLoop_overlay hcarryOf hdigits hlen _ _ hmid
  · intro p hp
    rw [hp, beq_self_eq_true, Bool.true_or]
  · intro p hp
    rw [beq_false_of_ne (by omega), Bool.false_or, Bool.false_or]
    exact ⟨hones, hzero⟩

end carryLoop

def element (word : BitVec w) (j : Nat) : BitVec 64 := word.extractLsb' (64 * j) 64

/-- The first loop of `check`: `none` when it returns early because `dead` holds
of the probe. -/
def probeLoop (dead : BitVec w → Bool) (words : Words w) :
    List (Fin 729) → BitVec w → Option (BitVec w)
  | [], probe => some probe
  | i :: rest, probe =>
      let probe := probe &&& ~~~(words.low[i] ^^^ words.high[i])
      if dead probe then none else probeLoop dead words rest probe

/-- The second loop of `check`, over the bits of each element in turn. -/
def firstLane (elements : Nat) (probe : BitVec w) : Option Nat :=
  ((List.range elements).flatMap fun j => (List.range 64).map fun i => (i, j)).findSome?
    fun (i, j) => if (element probe j).getLsbD i then some (i + j * 64) else none

/-- `check`, where `absent` is returned when the second loop finds no bit. -/
def checkWith (elements : Nat) (hbits : BitVec w) (dead : BitVec w → Bool) (absent : Int)
    (words : Words w) (m : Nat) : Int :=
  match probeLoop dead words (positions (243 - m) (243 - (243 - m)) (weight_inside m)) hbits with
  | none => -1
  | some probe =>
      match firstLane elements probe with
      | some lane => lane
      | none => absent

/-- `seri`, where `bit` shifts and masks the word of the chosen lane. -/
def seriWith (bit : BitVec w → Bool) (words : Words w) (r : Vector Int8 81) : Vector Int8 81 :=
  Vector.ofFn fun k =>
    let ll := bit (words.low[k.val + 162])
    let hh := bit (words.high[k.val + 162])
    if !hh && ll then -1
    else if hh && ll then 0
    else if hh && !ll then 1
    else r[k]

/-- `para`. A byte that is no trit leaves the words as they were, here zero. -/
def paraWith (lbits hbits : BitVec w) (state : CurlState) : Words w where
  low := state.map fun trit =>
    if trit = 0 then hbits else if trit = 1 then lbits else if trit = -1 then hbits else 0#w
  high := state.map fun trit =>
    if trit = 0 then hbits else if trit = 1 then hbits else if trit = -1 then lbits else 0#w

section check

theorem getLsbD_element (word : BitVec w) (i j : Nat) :
    (element word j).getLsbD i = (decide (i < 64) && word.getLsbD (64 * j + i)) := by
  simp [element]

theorem getLsbD_element_shift (word : BitVec w) {lane index n : Nat} (hn : n < 64)
    (hlane : lane = 64 * index + n) :
    (element word index >>> n).getLsbD 0 = word.getLsbD lane := by
  rw [BitVec.getLsbD_ushiftRight, getLsbD_element, Nat.add_zero, decide_eq_true hn, Bool.true_and,
    hlane]

theorem eq_zero_of_elements {word : BitVec w} {n : Nat} (hw : w ≤ 64 * n)
    (h : ∀ j < n, element word j = 0) : word = 0#w := by
  apply BitVec.eq_of_getLsbD_eq
  intro lane hlane
  have hbit := getLsbD_element word (lane % 64) (lane / 64)
  rw [h (lane / 64) (by omega), decide_eq_true (Nat.mod_lt _ (by decide)), Bool.true_and,
    Nat.div_add_mod] at hbit
  rw [← hbit]
  simp

theorem getLsbD_probeLoop {dead : BitVec w → Bool} {words : Words w}
    {indices : List (Fin 729)} {probe final : BitVec w} {lane : Nat} (hlane : lane < w)
    (h : probeLoop dead words indices probe = some final) :
    final.getLsbD lane = true ↔ probe.getLsbD lane = true ∧
      ∀ i ∈ indices, (words.low[i].getLsbD lane ^^ words.high[i].getLsbD lane) = false := by
  induction indices generalizing probe with
  | nil =>
      cases h
      simp
  | cons i rest ih =>
      rw [probeLoop] at h
      split at h
      · cases h
      · rw [ih h, List.forall_mem_cons, BitVec.getLsbD_and, BitVec.getLsbD_not,
          BitVec.getLsbD_xor, Bool.and_eq_true, and_assoc]
        simp [hlane]

theorem probeLoop_eq_none {dead : BitVec w → Bool} {words : Words w} {indices : List (Fin 729)}
    {probe : BitVec w} {lane : Nat}
    (hdead : ∀ probe, dead probe = true → probe.getLsbD lane = false)
    (hlane : lane < w) (hprobe : probe.getLsbD lane = true)
    (h : probeLoop dead words indices probe = none) :
    ∃ i ∈ indices, (words.low[i].getLsbD lane ^^ words.high[i].getLsbD lane) = true := by
  induction indices generalizing probe with
  | nil => cases h
  | cons i rest ih =>
      by_cases hbit : (words.low[i].getLsbD lane ^^ words.high[i].getLsbD lane) = true
      · exact ⟨i, List.mem_cons_self, hbit⟩
      · have hnext : (probe &&& ~~~(words.low[i] ^^^ words.high[i])).getLsbD lane = true := by
          rw [BitVec.getLsbD_and, BitVec.getLsbD_not, BitVec.getLsbD_xor,
            Bool.eq_false_iff.mpr hbit]
          simp [hlane, hprobe]
        rw [probeLoop] at h
        split at h
        · rename_i hgone
          rw [hdead _ hgone] at hnext
          cases hnext
        · have ⟨j, hj, hfails⟩ := ih hnext h
          exact ⟨j, List.mem_cons_of_mem i hj, hfails⟩

theorem probeLoop_eq_some {dead : BitVec w → Bool} {words : Words w} {indices : List (Fin 729)}
    {probe final : BitVec w} (hne : indices ≠ [])
    (h : probeLoop dead words indices probe = some final) : dead final = false := by
  induction indices generalizing probe with
  | nil => exact absurd rfl hne
  | cons i rest ih =>
      rw [probeLoop] at h
      split at h
      · cases h
      · rename_i halive
        cases rest with
        | nil =>
            cases h
            exact Bool.eq_false_iff.mpr halive
        | cons next rest => exact ih (List.cons_ne_nil _ _) h

theorem getLsbD_of_dead {dead : BitVec w → Bool}
    (hdead : ∀ probe, dead probe = true → probe = 0#w) (lane : Nat) :
    ∀ probe, dead probe = true → probe.getLsbD lane = false := by
  intro probe h
  rw [hdead probe h, BitVec.getLsbD_zero]

theorem firstLane_eq_some {elements : Nat} {probe : BitVec w} {lane : Nat}
    (h : firstLane elements probe = some lane) :
    lane < 64 * elements ∧ probe.getLsbD lane = true := by
  have ⟨(i, j), hmem, hbit⟩ := List.exists_of_findSome?_eq_some h
  simp only [List.mem_flatMap, List.mem_map, List.mem_range, Prod.mk.injEq] at hmem
  have ⟨j', hj, i', hi, hi', hj'⟩ := hmem
  simp only [getLsbD_element, Bool.and_eq_true, decide_eq_true_eq, Option.ite_none_right_eq_some,
    Option.some.injEq] at hbit
  have hlane : lane = 64 * j + i := by omega
  rw [hlane]
  exact ⟨by omega, hbit.1.2⟩

theorem firstLane_eq_none {elements : Nat} {probe : BitVec w}
    (h : firstLane elements probe = none) {lane : Nat} (hlane : lane < 64 * elements) :
    probe.getLsbD lane = false := by
  rw [firstLane, List.findSome?_eq_none_iff] at h
  have hbit := h (lane % 64, lane / 64) (by
    simp only [List.mem_flatMap, List.mem_map, List.mem_range, Prod.mk.injEq]
    exact ⟨lane / 64, by omega, lane % 64, by omega, rfl, rfl⟩)
  simp only [getLsbD_element, ite_eq_right_iff, reduceCtorEq, imp_false, Bool.and_eq_true,
    decide_eq_true_eq, not_and, Bool.not_eq_true] at hbit
  have hsplit := hbit (by omega)
  rwa [Nat.div_add_mod] at hsplit

variable {elements : Nat} {hbits : BitVec w} {dead : BitVec w → Bool} {absent : Int}
variable {words : Words w} {m : Nat} (hash : Nat → Spec.State)

omit hash in
theorem xor_getLsbD_eq_false_iff {lane : Nat} {i : Fin 729} {trit : Trit}
    (h : words.trit? lane i = some trit) :
    (words.low[i].getLsbD lane ^^ words.high[i].getLsbD lane) = false ↔ trit = .zero := by
  have ⟨hlow, hhigh⟩ := Words.trit?_eq_some_iff.mp h
  rw [hlow, hhigh, Trit.xor_bits_eq_false_iff]

/-- A lane that `check` returns has the required zeros. -/
theorem checkWith_sound (hw : 64 * elements = w) (habsent : absent < 0)
    (hwords : ∀ lane < w, ∀ i : Fin 729, i.val < 243 →
      words.trit? lane i = some (hash lane)[i])
    (h : 0 ≤ checkWith elements hbits dead absent words m) :
    (checkWith elements hbits dead absent words m).toNat < w ∧
      Spec.HasWeight m (hash (checkWith elements hbits dead absent words m).toNat) := by
  unfold checkWith at h ⊢
  split at h
  · omega
  · rename_i probe hprobe
    split at h
    · rename_i lane hlane
      have ⟨hlt, hbit⟩ := firstLane_eq_some hlane
      rw [hw] at hlt
      refine ⟨hlt, ?_⟩
      intro i hi hi'
      have hzero := ((getLsbD_probeLoop hlt hprobe).mp hbit).2 i
        ((mem_positions _ i).mpr ⟨hi, by omega⟩)
      exact (xor_getLsbD_eq_false_iff (hwords lane hlt i hi')).mp hzero
    · omega

/-- With an early exit that never drops a lane `check` does not miss it. -/
theorem checkWith_complete (hw : 64 * elements = w) (hhbits : hbits = BitVec.allOnes w)
    (hwords : ∀ lane < w, ∀ i : Fin 729, i.val < 243 →
      words.trit? lane i = some (hash lane)[i])
    {lane : Nat} (hdead : ∀ probe, dead probe = true → probe.getLsbD lane = false)
    (hlane : lane < w) (hweight : Spec.HasWeight m (hash lane)) :
    0 ≤ checkWith elements hbits dead absent words m := by
  have hall : hbits.getLsbD lane = true := by
    rw [hhbits, BitVec.getLsbD_allOnes, decide_eq_true hlane]
  have hzero : ∀ i ∈ positions (243 - m) (243 - (243 - m)) (weight_inside m),
      (words.low[i].getLsbD lane ^^ words.high[i].getLsbD lane) = false := by
    intro i hi
    have ⟨hge, hlt⟩ := (mem_positions _ i).mp hi
    rw [xor_getLsbD_eq_false_iff (hwords lane hlane i (by omega))]
    exact hweight i hge (by omega)
  unfold checkWith
  split
  · rename_i hprobe
    have ⟨i, hi, hfails⟩ := probeLoop_eq_none hdead hlane hall hprobe
    rw [hzero i hi] at hfails
    cases hfails
  · rename_i probe hprobe
    split
    · exact Int.natCast_nonneg _
    · rename_i hnone
      have hbit := firstLane_eq_none hnone (hw ▸ hlane)
      rw [(getLsbD_probeLoop hlane hprobe).mpr ⟨hall, hzero⟩] at hbit
      cases hbit

end check

def nonceOf (trits : Spec.State) : Vector Int8 81 :=
  Vector.ofFn fun k => (trits[k.val + 162]).toInt8

theorem seriWith_of_holds {words : Words w} {lane : Nat} {trits : Spec.State}
    (h : words.Holds lane trits) {bit : BitVec w → Bool}
    (hbit : ∀ word, bit word = word.getLsbD lane) (r : Vector Int8 81) :
    seriWith bit words r = nonceOf trits := by
  ext k hk
  have ⟨hlow, hhigh⟩ := Words.trit?_eq_some_iff.mp (h ⟨k + 162, by omega⟩)
  simp only [Library.getElem_fin] at hlow hhigh
  simp only [seriWith, nonceOf, Vector.getElem_ofFn, hbit, hlow, hhigh]
  cases trits[k + 162] <;> rfl

theorem paraWith_embed {lane : Nat} (hlane : lane < w) (trits : Spec.State) :
    (paraWith 0#w (BitVec.allOnes w) (embed trits)).Holds lane trits := by
  intro i
  rw [Words.trit?_eq_some_iff]
  simp only [paraWith, Library.getElem_fin, Vector.getElem_map, getElem_embed]
  cases trits[i.val] <;> simp [Trit.toInt8, Trit.lowBit, Trit.highBit, hlane]

end Dcurl
