import Mathlib.Algebra.BigOperators.Group.Finset.Piecewise
import Mathlib.Algebra.Order.BigOperators.Group.Finset
import Mathlib.Data.Nat.Cast.Basic

/-! Admission by a counter and slots by a table of free entries. A party is
counted before it takes a slot and gives the slot back before it is discounted,
so the two tables are never changed together. -/
namespace Dcurl.Library.Slots

inductive Stage where
  | outside
  | admitted
  | owns (slot : Nat)
  deriving DecidableEq

def Stage.isInside : Stage → Bool
  | .outside => false
  | .admitted => true
  | .owns _ => true

/-- What links the counter and the table to the parties. -/
structure Consistent (capacity : Nat) (free : Nat → Bool) (working : Int)
    (stages : List Stage) : Prop where
  counted : working = stages.countP Stage.isInside
  bounded : stages.countP Stage.isInside ≤ capacity
  slots : ∀ i < capacity, (free i).toNat + stages.count (.owns i) = 1
  inRange : ∀ i, .owns i ∈ stages → i < capacity

section lists

variable {α : Type*}

theorem countP_set_add {p : α → Bool} {list : List α} {k : Nat} {old : α} (new : α)
    (hk : list[k]? = some old) :
    (list.set k new).countP p + (p old).toNat = list.countP p + (p new).toNat := by
  induction list generalizing k with
  | nil => cases hk
  | cons head rest ih =>
      cases k with
      | zero =>
          have hhead : head = old := by simpa using hk
          rw [List.set_cons_zero, List.countP_cons, List.countP_cons, hhead]
          cases p old <;> cases p new <;> simp
      | succ k =>
          have hrest := ih (k := k) (by simpa using hk)
          rw [List.set_cons_succ, List.countP_cons, List.countP_cons]
          omega

theorem count_set_add [DecidableEq α] {list : List α} {k : Nat} {old : α} (new value : α)
    (hk : list[k]? = some old) :
    (list.set k new).count value + (if old = value then 1 else 0) =
      list.count value + (if new = value then 1 else 0) := by
  have hset := countP_set_add (p := (· == value)) new hk
  rw [beq_eq_decide (a := old), beq_eq_decide (a := new)] at hset
  unfold List.count
  by_cases hold : old = value <;> by_cases hnew : new = value <;>
    simpa [hold, hnew] using hset

theorem set_eq_self {list : List α} {k : Nat} {old : α} (hk : list[k]? = some old) :
    list.set k old = list := by
  have ⟨hlt, hget⟩ := List.getElem?_eq_some_iff.mp hk
  rw [← hget, List.set_getElem_self]

end lists

/-- No party that has been let in owns more than one slot. -/
theorem sum_count_owns_le (capacity : Nat) (stages : List Stage) :
    ∑ i ∈ Finset.range capacity, stages.count (.owns i) + stages.count .admitted ≤
      stages.countP Stage.isInside := by
  induction stages with
  | nil => simp
  | cons stage rest ih =>
      cases stage with
      | outside => simpa [Stage.isInside] using ih
      | admitted =>
          simp only [List.count_cons, List.countP_cons, Stage.isInside, beq_iff_eq, reduceCtorEq,
            if_false, if_true, Nat.add_zero]
          omega
      | owns slot =>
          have hone : ∑ i ∈ Finset.range capacity, (if slot = i then 1 else 0) ≤ 1 := by
            rw [Finset.sum_ite_eq]
            split <;> omega
          simp only [List.count_cons, List.countP_cons, Stage.isInside, beq_iff_eq, reduceCtorEq,
            Stage.owns.injEq, if_false, if_true, Nat.add_zero, Finset.sum_add_distrib]
          omega

theorem countP_isInside_of_outside {stages : List Stage}
    (houtside : ∀ stage ∈ stages, stage = .outside) : stages.countP Stage.isInside = 0 := by
  rw [List.countP_eq_zero]
  intro stage hmem
  rw [houtside stage hmem]
  exact Bool.false_ne_true

theorem count_owns_of_outside {stages : List Stage}
    (houtside : ∀ stage ∈ stages, stage = .outside) (i : Nat) : stages.count (.owns i) = 0 := by
  rw [List.count_eq_zero]
  intro hmem
  exact Stage.noConfusion (houtside _ hmem)

namespace Consistent

variable {capacity : Nat} {free : Nat → Bool} {working : Int} {stages : List Stage}

theorem working_nonneg (h : Consistent capacity free working stages) : 0 ≤ working := by
  rw [h.counted]
  exact Int.natCast_nonneg _

theorem working_le (h : Consistent capacity free working stages) : working ≤ capacity := by
  rw [h.counted]
  exact Int.ofNat_le.mpr h.bounded

theorem exists_free (h : Consistent capacity free working stages)
    (hadmitted : Stage.admitted ∈ stages) : ∃ i < capacity, free i = true := by
  by_contra hnone
  have hone : ∀ i ∈ Finset.range capacity, stages.count (.owns i) = 1 := by
    intro i hi
    have hlt := Finset.mem_range.mp hi
    have hfree : free i = false := by
      cases hvalue : free i with
      | false => rfl
      | true => exact absurd ⟨i, hlt, hvalue⟩ hnone
    simpa [hfree] using h.slots i hlt
  have hsum := sum_count_owns_le capacity stages
  rw [Finset.sum_const_nat hone, Finset.card_range, Nat.mul_one] at hsum
  have hpos := List.count_pos_iff.mpr hadmitted
  have hbound := h.bounded
  omega

theorem owner_unique (h : Consistent capacity free working stages) {k k' i : Nat}
    (hk : stages[k]? = some (.owns i)) (hk' : stages[k']? = some (.owns i)) : k = k' := by
  by_contra hne
  have hlt := h.inRange i (List.mem_of_getElem? hk)
  have hset := count_set_add Stage.outside (Stage.owns i) hk
  have hstill : Stage.owns i ∈ stages.set k .outside := by
    apply List.mem_of_getElem?
    rw [List.getElem?_set_ne hne]
    exact hk'
  have hpos := List.count_pos_iff.mpr hstill
  have hslot := h.slots i hlt
  rw [if_pos rfl, if_neg Stage.noConfusion] at hset
  omega

theorem of_outside (h : Consistent capacity free working stages)
    (houtside : ∀ stage ∈ stages, stage = .outside) :
    working = 0 ∧ ∀ i < capacity, free i = true := by
  constructor
  · rw [h.counted, countP_isInside_of_outside houtside]
    rfl
  · intro i hi
    have hslot := h.slots i hi
    rw [count_owns_of_outside houtside] at hslot
    cases hfree : free i with
    | true => rfl
    | false =>
        rw [hfree] at hslot
        exact absurd hslot (by decide)

theorem setUp (capacity : Nat) (hfree : ∀ i < capacity, free i = true)
    (houtside : ∀ stage ∈ stages, stage = .outside) :
    Consistent capacity free 0 stages := by
  have hcount := countP_isInside_of_outside houtside
  constructor
  · rw [hcount]
    rfl
  · rw [hcount]
    exact Nat.zero_le _
  · intro i hi
    rw [hfree i hi, count_owns_of_outside houtside]
    rfl
  · intro i hmem
    exact Stage.noConfusion (houtside _ hmem)

theorem congr {free' : Nat → Bool} (h : Consistent capacity free working stages)
    (hfree : ∀ i < capacity, free' i = free i) : Consistent capacity free' working stages where
  counted := h.counted
  bounded := h.bounded
  slots := fun i hi => (hfree i hi).symm ▸ h.slots i hi
  inRange := h.inRange

theorem append_outside (h : Consistent capacity free working stages) :
    Consistent capacity free working (stages ++ [.outside]) := by
  have hcount : (stages ++ [Stage.outside]).countP Stage.isInside =
      stages.countP Stage.isInside := by
    rw [List.countP_append]
    rfl
  constructor
  · rw [hcount]
    exact h.counted
  · rw [hcount]
    exact h.bounded
  · intro i hi
    rw [List.count_append]
    exact h.slots i hi
  · intro i hmem
    rw [List.mem_append, List.mem_singleton] at hmem
    cases hmem with
    | inl hmem => exact h.inRange i hmem
    | inr heq => exact Stage.noConfusion heq

section steps

variable {k i : Nat}

theorem stay (h : Consistent capacity free working stages) {stage : Stage}
    (hk : stages[k]? = some stage) : Consistent capacity free working (stages.set k stage) := by
  rw [set_eq_self hk]
  exact h

theorem letIn (h : Consistent capacity free working stages) (hk : stages[k]? = some .outside)
    (hlt : working < capacity) :
    Consistent capacity free (working + 1) (stages.set k .admitted) := by
  have hcount := countP_set_add (p := Stage.isInside) .admitted hk
  simp only [Stage.isInside, Bool.toNat_false, Bool.toNat_true, Nat.add_zero] at hcount
  have hcounted := h.counted
  constructor
  · rw [hcount, hcounted]
    rfl
  · omega
  · intro j hj
    have hset := count_set_add Stage.admitted (Stage.owns j) hk
    rw [if_neg Stage.noConfusion, if_neg Stage.noConfusion] at hset
    have hslot := h.slots j hj
    omega
  · intro j hmem
    cases List.mem_or_eq_of_mem_set hmem with
    | inl hmem => exact h.inRange j hmem
    | inr heq => exact Stage.noConfusion heq

theorem take (h : Consistent capacity free working stages) (hk : stages[k]? = some .admitted)
    (hi : i < capacity) (hfree : free i = true) :
    Consistent capacity (Function.update free i false) working (stages.set k (.owns i)) := by
  have hcount := countP_set_add (p := Stage.isInside) (.owns i) hk
  simp only [Stage.isInside, Bool.toNat_true] at hcount
  constructor
  · rw [Nat.add_right_cancel hcount]
    exact h.counted
  · rw [Nat.add_right_cancel hcount]
    exact h.bounded
  · intro j hj
    have hset := count_set_add (Stage.owns i) (Stage.owns j) hk
    have hslot := h.slots j hj
    rw [if_neg Stage.noConfusion] at hset
    by_cases hij : j = i
    · subst hij
      rw [hfree, Bool.toNat_true] at hslot
      rw [if_pos rfl] at hset
      rw [Function.update_self, Bool.toNat_false]
      omega
    · rw [if_neg (fun heq => hij (Stage.owns.inj heq).symm)] at hset
      rw [Function.update_of_ne hij]
      omega
  · intro j hmem
    cases List.mem_or_eq_of_mem_set hmem with
    | inl hmem => exact h.inRange j hmem
    | inr heq => exact (Stage.owns.inj heq) ▸ hi

theorem release (h : Consistent capacity free working stages) (hk : stages[k]? = some (.owns i)) :
    Consistent capacity (Function.update free i true) working (stages.set k .admitted) := by
  have hcount := countP_set_add (p := Stage.isInside) .admitted hk
  simp only [Stage.isInside, Bool.toNat_true] at hcount
  constructor
  · rw [Nat.add_right_cancel hcount]
    exact h.counted
  · rw [Nat.add_right_cancel hcount]
    exact h.bounded
  · intro j hj
    have hset := count_set_add Stage.admitted (Stage.owns j) hk
    have hslot := h.slots j hj
    rw [if_neg (c := Stage.admitted = Stage.owns j) Stage.noConfusion] at hset
    by_cases hij : j = i
    · subst hij
      rw [if_pos rfl] at hset
      rw [Function.update_self, Bool.toNat_true]
      omega
    · rw [if_neg (fun heq => hij (Stage.owns.inj heq).symm)] at hset
      rw [Function.update_of_ne hij]
      omega
  · intro j hmem
    cases List.mem_or_eq_of_mem_set hmem with
    | inl hmem => exact h.inRange j hmem
    | inr heq => exact Stage.noConfusion heq

theorem leave (h : Consistent capacity free working stages) (hk : stages[k]? = some .admitted) :
    Consistent capacity free (working - 1) (stages.set k .outside) := by
  have hcount := countP_set_add (p := Stage.isInside) .outside hk
  simp only [Stage.isInside, Bool.toNat_false, Bool.toNat_true, Nat.add_zero] at hcount
  have hcounted := h.counted
  have hbounded := h.bounded
  constructor
  · omega
  · omega
  · intro j hj
    have hset := count_set_add Stage.outside (Stage.owns j) hk
    rw [if_neg Stage.noConfusion, if_neg Stage.noConfusion] at hset
    have hslot := h.slots j hj
    omega
  · intro j hmem
    cases List.mem_or_eq_of_mem_set hmem with
    | inl hmem => exact h.inRange j hmem
    | inr heq => exact Stage.noConfusion heq

end steps

end Consistent

end Dcurl.Library.Slots
