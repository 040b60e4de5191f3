import Dcurl.KernelSearch

/-! `setup_ids` and `transform` of `pow_kernel.cl` for the local size that `pwork`
finds, whatever limit the device has for a work group. -/
namespace Dcurl.PowKernel

/-- What `transform` does when the device allows `numWorkGroup` work items. -/
structure TransformsRight (numWorkGroup : Nat) : Prop where
  /-- The work items share the indices among them, each index once. -/
  inside : ∀ id < localWorkSize numWorkGroup, ∀ i < nTrits id (localWorkSize numWorkGroup),
    id + i * localWorkSize numWorkGroup < 729
  shared : ∀ p < 729, ∃! pass : Nat × Nat, pass.1 < localWorkSize numWorkGroup ∧
    pass.2 < nTrits pass.1 (localWorkSize numWorkGroup) ∧
      pass.1 + pass.2 * localWorkSize numWorkGroup = p
  /-- `sp_low[i]` and `sp_high[i]` -/
  inBounds : ∀ id < localWorkSize numWorkGroup, ∀ i < nTrits id (localWorkSize numWorkGroup),
    i < 3
  rounds : ∀ (state : Words 64) (lane : Nat) (trits : Spec.State), lane < 64 →
    state.Holds lane trits →
      (transform (localWorkSize numWorkGroup) state).Holds lane (Spec.curl trits)

section size

variable {numWorkGroup : Nat}

theorem shrink_le (hpos : 0 < numWorkGroup) {fuel exponent : Nat} (hfuel : exponent ≤ fuel) :
    shrink numWorkGroup fuel (3 ^ exponent) ≤ numWorkGroup := by
  induction fuel generalizing exponent with
  | zero =>
      rw [Nat.le_zero.mp hfuel]
      exact hpos
  | succ fuel ih =>
      rw [shrink]
      split
      · rename_i hlarge
        cases exponent with
        | zero =>
            rw [pow_zero] at hlarge
            omega
        | succ exponent =>
            rw [Nat.pow_succ, Nat.mul_div_cancel _ (by decide)]
            exact ih (by omega)
      · omega

theorem localWorkSize_le (hpos : 0 < numWorkGroup) :
    localWorkSize numWorkGroup ≤ numWorkGroup :=
  shrink_le hpos (le_refl 6)

theorem localWorkSize_of_le (h : 243 ≤ numWorkGroup) :
    localWorkSize numWorkGroup = 729 ∨ localWorkSize numWorkGroup = 243 := by
  unfold localWorkSize
  rw [shrink]
  split
  · right
    rw [shrink, if_neg (show ¬729 / 3 > numWorkGroup by omega)]
  · exact Or.inl rfl

end size

section partition

variable {lSize : Nat} (hpos : 0 < lSize) (hdvd : lSize ∣ 729)

include hpos hdvd

theorem index_lt {id i : Nat} (hid : id < lSize) (hi : i < nTrits id lSize) :
    id + i * lSize < 729 := by
  rw [nTrits_eq hpos hdvd hid] at hi
  calc id + i * lSize < lSize + i * lSize := Nat.add_lt_add_right hid _
    _ = (i + 1) * lSize := by rw [Nat.succ_mul, Nat.add_comm]
    _ ≤ 729 / lSize * lSize := Nat.mul_le_mul_right _ hi
    _ = 729 := Nat.div_mul_cancel hdvd

theorem existsUnique_pass {p : Nat} (hp : p < 729) :
    ∃! pass : Nat × Nat, pass.1 < lSize ∧ pass.2 < nTrits pass.1 lSize ∧
      pass.1 + pass.2 * lSize = p := by
  have hid : p % lSize < lSize := Nat.mod_lt _ hpos
  refine ⟨(p % lSize, p / lSize), ⟨hid, ?_, Nat.mod_add_div' _ _⟩, ?_⟩
  · rw [nTrits_eq hpos hdvd hid]
    apply Nat.div_lt_of_lt_mul
    rw [Nat.mul_comm, Nat.div_mul_cancel hdvd]
    exact hp
  · rintro ⟨id, i⟩ ⟨hlt, _, hsum⟩
    dsimp only at hlt hsum
    rw [← hsum, Nat.add_mul_mod_self_right, Nat.mod_eq_of_lt hlt, Nat.add_mul_div_right _ _ hpos,
      Nat.div_eq_of_lt hlt, Nat.zero_add]

end partition

/-- A work item of a small group has more indices than its arrays have room for. -/
theorem exists_pass_three {numWorkGroup : Nat} (hpos : 0 < numWorkGroup)
    (hsmall : numWorkGroup < 243) :
    0 < localWorkSize numWorkGroup ∧ 3 < nTrits 0 (localWorkSize numWorkGroup) := by
  have ⟨hsize, hdvd⟩ := localWorkSize_dvd hpos
  have hle := localWorkSize_le hpos
  refine ⟨hsize, ?_⟩
  rw [nTrits_eq hsize hdvd hsize]
  have hmul := Nat.div_mul_cancel hdvd
  by_contra hfew
  have hbound := Nat.mul_le_mul_right (localWorkSize numWorkGroup) (Nat.le_of_not_lt hfew)
  omega

/-- `transform` is right exactly on the devices that allow at least 243 work items. -/
theorem transformsRight_iff (numWorkGroup : Nat) (hpos : 1 ≤ numWorkGroup) :
    TransformsRight numWorkGroup ↔ 243 ≤ numWorkGroup := by
  have ⟨hsize, hdvd⟩ := localWorkSize_dvd hpos
  constructor
  · intro hright
    by_contra hsmall
    have ⟨hitem, hpass⟩ := exists_pass_three hpos (Nat.lt_of_not_le hsmall)
    exact absurd (hright.inBounds 0 hitem 3 hpass) (by decide)
  · intro hlarge
    have hcase := localWorkSize_of_le hlarge
    constructor
    · exact fun id hid i hi => index_lt hsize hdvd hid hi
    · exact fun p hp => existsUnique_pass hsize hdvd hp
    · exact fun id _ i hi => lt_of_lt_of_le hi (nTrits_le hcase id)
    · intro state lane trits hlane hholds
      rw [transform_eq hcase]
      exact holds_fullRound_iterate gate64_lawful hlane hholds 81

theorem transformsRight_iff_256 : TransformsRight 256 ↔ 243 ≤ 256 :=
  transformsRight_iff 256 (by decide)

/-- The fallback of one work item. -/
theorem not_transformsRight_one : ¬∀ numWorkGroup, 1 ≤ numWorkGroup →
    TransformsRight numWorkGroup := by
  intro hall
  have hright := hall 1 le_rfl
  exact absurd (hright.inBounds 0 (by decide) 3 (by decide)) (by decide)

end Dcurl.PowKernel
