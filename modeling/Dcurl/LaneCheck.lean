import Dcurl.PowAvx

/-! `check_256` of the AVX1 build. Its early exit compares the probe with 0.0
element by element, and a double whose sign bit alone is set equals 0.0. -/
namespace Dcurl.PowAvx

def EndsInZeros (words : Words 256) (m lane : Nat) : Prop :=
  ∀ i : Fin 729, 243 - m ≤ i.val → i.val < 243 → words.trit? lane i = some .zero

/-- `check_256` returns a lane exactly when there is one with the zeros, and it is
such a lane. -/
def ChecksRight (words : Words 256) (m : Nat) : Prop :=
  (0 ≤ check256Pd words m ↔ ∃ lane < 256, EndsInZeros words m lane) ∧
    ∀ lane : Nat, check256Pd words m = lane → lane < 256 ∧ EndsInZeros words m lane

def IsSignLane (lane : Nat) : Prop := lane % 64 = 63

instance (lane : Nat) : Decidable (IsSignLane lane) := inferInstanceAs (Decidable (lane % 64 = 63))

section double

theorem isZeroDouble_iff (bits : BitVec 64) :
    isZeroDouble bits = true ↔ ∀ i < 63, bits.getLsbD i = false := by
  have hsign : ∀ i < 64, (0x8000000000000000 : BitVec 64).getLsbD i = decide (i = 63) := by
    decide
  unfold isZeroDouble
  rw [Bool.or_eq_true, beq_iff_eq, beq_iff_eq]
  constructor
  · rintro (rfl | rfl) i hi
    · exact BitVec.getLsbD_zero
    · rw [hsign i (by omega), decide_eq_false (by omega)]
  · intro hclear
    cases htop : bits.getLsbD 63 with
    | false =>
        left
        apply BitVec.eq_of_getLsbD_eq
        intro i hi
        rw [BitVec.ofNat_eq_ofNat, BitVec.getLsbD_zero]
        by_cases hlow : i < 63
        · exact hclear i hlow
        · rw [show i = 63 by omega, htop]
    | true =>
        right
        apply BitVec.eq_of_getLsbD_eq
        intro i hi
        rw [hsign i hi]
        by_cases hlow : i < 63
        · rw [hclear i hlow, decide_eq_false (by omega)]
        · rw [show i = 63 by omega, htop]
          rfl

def deadPd (probe : BitVec 256) : Bool :=
  isZeroDouble (element probe 0) && isZeroDouble (element probe 1) &&
    isZeroDouble (element probe 2) && isZeroDouble (element probe 3)

theorem isZeroDouble_element_iff (probe : BitVec 256) (j : Nat) :
    isZeroDouble (element probe j) = true ↔ ∀ i < 63, probe.getLsbD (64 * j + i) = false := by
  rw [isZeroDouble_iff]
  apply forall_congr'
  intro i
  apply forall_congr'
  intro hi
  rw [getLsbD_element, decide_eq_true (by omega), Bool.true_and]

/-- The early exit sees all lanes but the four of the sign bits. -/
theorem deadPd_iff (probe : BitVec 256) :
    deadPd probe = true ↔ ∀ lane < 256, ¬IsSignLane lane → probe.getLsbD lane = false := by
  unfold deadPd
  simp only [Bool.and_eq_true, isZeroDouble_element_iff]
  constructor
  · intro ⟨⟨⟨hzero, hone⟩, htwo⟩, hthree⟩ lane hlane hsign
    unfold IsSignLane at hsign
    have hsplit : lane = 64 * (lane / 64) + lane % 64 := by omega
    have hcase : lane / 64 = 0 ∨ lane / 64 = 1 ∨ lane / 64 = 2 ∨ lane / 64 = 3 := by omega
    rw [hsplit]
    obtain h | h | h | h := hcase
    · exact h ▸ hzero _ (by omega)
    · exact h ▸ hone _ (by omega)
    · exact h ▸ htwo _ (by omega)
    · exact h ▸ hthree _ (by omega)
  · intro hclear
    have helement : ∀ j < 4, ∀ i < 63, probe.getLsbD (64 * j + i) = false := by
      intro j hj i hi
      apply hclear _ (by omega)
      unfold IsSignLane
      omega
    exact ⟨⟨⟨helement 0 (by decide), helement 1 (by decide)⟩, helement 2 (by decide)⟩,
      helement 3 (by decide)⟩

end double

section check

variable {words : Words 256} {m : Nat}

theorem check256Pd_eq (words : Words 256) (m : Nat) :
    check256Pd words m = checkWith 4 hbits deadPd (-2) words m := rfl

theorem exists_hash (hvalid : words.Valid) (m : Nat) : ∃ hash : Nat → Spec.State,
    (∀ lane < 256, ∀ i : Fin 729, i.val < 243 → words.trit? lane i = some (hash lane)[i]) ∧
      ∀ lane < 256, EndsInZeros words m lane ↔ Spec.HasWeight m (hash lane) := by
  choose! hash hholds using fun (lane : Nat) (hlane : lane < 256) => hvalid.exists_holds hlane
  refine ⟨hash, fun lane hlane i _ => hholds lane hlane i, ?_⟩
  intro lane hlane
  apply forall_congr'
  intro i
  apply forall_congr'
  intro _
  apply forall_congr'
  intro _
  rw [hholds lane hlane i, Option.some.injEq]

theorem endsInZeros_of_check (hvalid : words.Valid) {lane : Nat}
    (h : check256Pd words m = lane) : lane < 256 ∧ EndsInZeros words m lane := by
  have ⟨hash, hwords, hweight⟩ := exists_hash hvalid m
  rw [check256Pd_eq] at h
  have hhit : 0 ≤ checkWith 4 hbits deadPd (-2) words m := h ▸ Int.natCast_nonneg lane
  have hsound := checkWith_sound hash (show 64 * 4 = 256 from rfl) (by decide) hwords hhit
  rw [h, Int.toNat_natCast] at hsound
  exact ⟨hsound.1, (hweight lane hsound.1).mpr hsound.2⟩

theorem check_nonneg (hvalid : words.Valid) {lane : Nat} (hlane : lane < 256)
    (hsign : ¬IsSignLane lane) (hzeros : EndsInZeros words m lane) :
    0 ≤ check256Pd words m := by
  have ⟨hash, hwords, hweight⟩ := exists_hash hvalid m
  apply checkWith_complete hash rfl hbits_eq hwords _ hlane ((hweight lane hlane).mp hzeros)
  intro probe hdead
  exact (deadPd_iff probe).mp hdead lane hlane hsign

theorem exists_of_check_nonneg (hvalid : words.Valid) (hm : m ≠ 0)
    (hhit : 0 ≤ check256Pd words m) :
    ∃ lane < 256, ¬IsSignLane lane ∧ EndsInZeros words m lane := by
  have ⟨hash, hwords, hweight⟩ := exists_hash hvalid m
  have hmem : ∀ i : Fin 729, i ∈ positions (243 - m) (243 - (243 - m)) (weight_inside m) ↔
      243 - m ≤ i.val ∧ i.val < 243 := by
    intro i
    rw [mem_positions]
    omega
  rw [check256Pd_eq] at hhit
  unfold checkWith at hhit
  split at hhit
  · omega
  · rename_i probe hprobe
    have hne : positions (243 - m) (243 - (243 - m)) (weight_inside m) ≠ [] :=
      List.ne_nil_of_mem ((hmem ⟨242, by decide⟩).mpr
        ⟨show 243 - m ≤ 242 by omega, show 242 < 243 by decide⟩)
    have halive := probeLoop_eq_some hne hprobe
    have hnot : ¬∀ lane < 256, ¬IsSignLane lane → probe.getLsbD lane = false := by
      rw [← deadPd_iff, halive]
      exact Bool.false_ne_true
    push Not at hnot
    have ⟨lane, hlane, hsign, hbit⟩ := hnot
    refine ⟨lane, hlane, hsign, (hweight lane hlane).mpr ?_⟩
    intro i hge hlt
    have hxor := ((getLsbD_probeLoop hlane hprobe).mp (Bool.eq_true_of_not_eq_false hbit)).2 i
      ((hmem i).mpr ⟨hge, hlt⟩)
    exact (xor_getLsbD_eq_false_iff (hwords lane hlane i hlt)).mp hxor

theorem endsInZeros_zero (words : Words 256) (lane : Nat) : EndsInZeros words 0 lane := by
  intro i hge hlt
  omega

/-- `check_256` of the AVX1 build is right exactly where the lanes with the zeros are
not lanes of sign bits only. -/
theorem checksRight_iff (words : Words 256) (hvalid : words.Valid) (m : Nat) :
    ChecksRight words m ↔ m = 0 ∨ ((∃ lane < 256, EndsInZeros words m lane) →
      ∃ lane < 256, ¬IsSignLane lane ∧ EndsInZeros words m lane) := by
  constructor
  · intro hright
    by_cases hm : m = 0
    · exact Or.inl hm
    · exact Or.inr fun hsome => exists_of_check_nonneg hvalid hm (hright.1.mpr hsome)
  · intro hcase
    refine ⟨⟨?_, ?_⟩, fun lane h => endsInZeros_of_check hvalid h⟩
    · intro hhit
      exact ⟨_, endsInZeros_of_check hvalid (Int.toNat_of_nonneg hhit).symm⟩
    · intro hsome
      cases hcase with
      | inl hm =>
          subst hm
          exact check_nonneg hvalid (show 0 < 256 by decide) (by decide) (endsInZeros_zero words 0)
      | inr hlanes =>
          have ⟨lane, hlane, hsign, hzeros⟩ := hlanes hsome
          exact check_nonneg hvalid hlane hsign hzeros

end check

section sign

def zeroLanes (lanes : BitVec 256) : Words 256 :=
  ⟨Vector.replicate 729 (BitVec.allOnes 256), Vector.replicate 729 lanes⟩

theorem zeroLanes_valid (lanes : BitVec 256) : (zeroLanes lanes).Valid := by
  intro i lane hlane h
  have hlow := h.1
  simp only [zeroLanes, Library.getElem_fin, Vector.getElem_replicate, BitVec.getLsbD_allOnes,
    hlane, decide_true] at hlow
  cases hlow

theorem endsInZeros_zeroLanes {lanes : BitVec 256} {lane : Nat} (hlane : lane < 256)
    (hset : lanes.getLsbD lane = true) (m : Nat) : EndsInZeros (zeroLanes lanes) m lane := by
  intro i _ _
  rw [Words.trit?_eq_some_iff]
  simp only [zeroLanes, Library.getElem_fin, Vector.getElem_replicate, hset,
    BitVec.getLsbD_allOnes, hlane, decide_true]
  exact ⟨rfl, rfl⟩

/-- Zeros in lane 63, of sign bits, and in lane 64. -/
theorem checksRight_iff_two :
    ChecksRight (zeroLanes (3 <<< 63)) 14 ∧ EndsInZeros (zeroLanes (3 <<< 63)) 14 63 := by
  refine ⟨(checksRight_iff _ (zeroLanes_valid _) 14).mpr (Or.inr fun _ => ?_),
    endsInZeros_zeroLanes (by decide) (by decide) 14⟩
  exact ⟨64, by decide, by decide, endsInZeros_zeroLanes (by decide) (by decide) 14⟩

/-- Lane 63 alone has a zero. -/
theorem not_checksRight_sign :
    ¬∀ words : Words 256, words.Valid → ∀ m ≤ 243, ChecksRight words m := by
  intro hall
  have hright := hall (zeroLanes (1 <<< 63)) (zeroLanes_valid _) 1 (by decide)
  have hhit := hright.1.mpr ⟨63, by decide, endsInZeros_zeroLanes (by decide) (by decide) 1⟩
  have hmissed : check256Pd (zeroLanes (1 <<< 63)) 1 = -1 := by decide +kernel
  rw [hmissed] at hhit
  exact absurd hhit (by decide)

end sign

end Dcurl.PowAvx
