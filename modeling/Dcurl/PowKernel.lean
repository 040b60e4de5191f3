import Dcurl.SearchSpace

/-! `pow_kernel.cl` with the start state and the local size that `pow_cl.c` gives
it. A group has its own 729 words, from `gid` on in the buffers, and its work
items run in lockstep. -/
namespace Dcurl.PowKernel

open Library Odometer

def highBits : BitVec 64 := 0xFFFFFFFFFFFFFFFF
def lowBits : BitVec 64 := 0x0000000000000000

def low0 : BitVec 64 := 0xDB6DB6DB6DB6DB6D
def high0 : BitVec 64 := 0xB6DB6DB6DB6DB6DB
def low1 : BitVec 64 := 0xF1F8FC7E3F1F8FC7
def high1 : BitVec 64 := 0x8FC7E3F1F8FC7E3F
def low2 : BitVec 64 := 0x7FFFE00FFFFC01FF
def high2 : BitVec 64 := 0xFFC01FFFF803FFFF
def low3 : BitVec 64 := 0xFFC0000007FFFFFF
def high3 : BitVec 64 := 0x003FFFFFFFFFFFFF

def initState (state : CurlState) : Words 64 :=
  let mid : Words 64 := {
    low := state.map fun trit =>
      if trit = 0 then highBits else if trit = 1 then lowBits else highBits
    high := state.map fun trit =>
      if trit = 0 then highBits else if trit = 1 then highBits else lowBits }
  let mid := mid.put 162 low0 high0
  let mid := mid.put 163 low1 high1
  let mid := mid.put 164 low2 high2
  mid.put 165 low3 high3

/-- The loop of `pwork` that divides the local size by 3, with as many passes as
729 allows. -/
def shrink (numWorkGroup : Nat) : Nat → Nat → Nat
  | 0, size => size
  | fuel + 1, size => if size > numWorkGroup then shrink numWorkGroup fuel (size / 3) else size

def localWorkSize (numWorkGroup : Nat) : Nat := shrink numWorkGroup 6 729

def nTrits (id lSize : Nat) : Nat :=
  let lRem := 729 % lSize
  let n := 729 / lSize
  let n := n + if lRem = 0 then 0 else 1
  n - if n * id < 729 then 0 else 1

/-- The `j` of the loops over `n_trits`, none of them out of bounds for the local
sizes of `pwork`. -/
def itemIndices (lSize id : Nat) : List (Fin 729) :=
  (List.range (nTrits id lSize)).filterMap fun i =>
    if h : id + i * lSize < 729 then some ⟨id + i * lSize, h⟩ else none

/-- The indices of all work items. Each is one work item's, so that the order of
the items does not matter. -/
def groupIndices (lSize : Nat) : List (Fin 729) := (List.range lSize).flatMap (itemIndices lSize)

def increment (start len : Nat) (h : start + len ≤ 729) (mid : Words 64) : Words 64 :=
  (carryLoop (fun _ carry => carry != 0) (fun low hi => hi &&& ~~~low) (positions start len h) 1
    mid).2

/-- `mid_low[gid + j] = mid_low[j]`, and `mid_high` alike. -/
def copyFrom (source : Words 64) (mid : Words 64) (j : Fin 729) : Words 64 :=
  mid.put j source.low[j] source.high[j]

/-- The kernel `init` on the words of a group. Group 0 has the start state. There is no barrier
between the copies and the increments of item 0: this is what the items do in lockstep. -/
def init (lSize grId glOff : Nat) (source mid : Words 64) : Words 64 :=
  if grId = 0 then source
  else
    (increment 166 27 incrN_inside)^[grId + glOff]
      ((groupIndices lSize).foldl (copyFrom source) mid)

/-- The words of a group after `init` and `k` increments of `search`; `pwork` has
the global offset 0. -/
def midAfter (state : CurlState) (lSize grId : Nat) (mid : Words 64) (k : Nat) : Words 64 :=
  (increment 193 50 incr_inside)^[k] (init lSize grId 0 (initState state) mid)

def check (state : Words 64) (minWeightMagnitude : Nat) : BitVec 64 :=
  (probeLoop (fun probe => probe == 0) state
    (positions (243 - minWeightMagnitude) (243 - (243 - minWeightMagnitude))
      (weight_inside minWeightMagnitude))
    highBits).getD 0

def hashTrit (mid : Words 64) (nonceProbe : BitVec 64) (j : Fin 729) : Int8 :=
  if mid.low[j] &&& nonceProbe = 0 then 1
  else if mid.high[j] &&& nonceProbe = 0 then -1
  else 0

def writeTrit (mid : Words 64) (nonceProbe : BitVec 64) (tritHash : Vector Int8 243)
    (j : Fin 729) : Vector Int8 243 :=
  if h : j.val < 243 then tritHash.set j.val (hashTrit mid nonceProbe j) else tritHash

def writeHash (lSize : Nat) (mid : Words 64) (nonceProbe : BitVec 64)
    (tritHash : Vector Int8 243) : Vector Int8 243 :=
  (groupIndices lSize).foldl (writeTrit mid nonceProbe) tritHash

def finalize (lSize grId : Nat) (found : Int8) (mid : Words 64) (nonceProbe : BitVec 64)
    (tritHash : Vector Int8 243) : Vector Int8 243 :=
  if (grId : Int) = found.toInt - 1 ∧ nonceProbe ≠ 0 then writeHash lSize mid nonceProbe tritHash
  else tritHash

section indices

variable {numWorkGroup : Nat}

theorem shrink_dvd (hpos : 0 < numWorkGroup) (fuel exponent : Nat) (hle : exponent ≤ 6) :
    0 < shrink numWorkGroup fuel (3 ^ exponent) ∧
      shrink numWorkGroup fuel (3 ^ exponent) ∣ 729 := by
  induction fuel generalizing exponent with
  | zero => exact ⟨Nat.pow_pos (by decide), pow_dvd_pow 3 hle⟩
  | succ fuel ih =>
      rw [shrink]
      split
      · rename_i hlarge
        cases exponent with
        | zero =>
            rw [pow_zero] at hlarge
            omega
        | succ exponent =>
            rw [Nat.pow_succ, Nat.mul_div_cancel _ (by decide)]
            exact ih exponent (by omega)
      · exact ⟨Nat.pow_pos (by decide), pow_dvd_pow 3 hle⟩

theorem localWorkSize_dvd (hpos : 0 < numWorkGroup) :
    0 < localWorkSize numWorkGroup ∧ localWorkSize numWorkGroup ∣ 729 :=
  shrink_dvd hpos 6 6 (le_refl 6)

theorem nTrits_eq {lSize id : Nat} (hpos : 0 < lSize) (hdvd : lSize ∣ 729) (hid : id < lSize) :
    nTrits id lSize = 729 / lSize := by
  have hlt : 729 / lSize * id < 729 := by
    calc 729 / lSize * id < 729 / lSize * lSize :=
          Nat.mul_lt_mul_of_pos_left hid (Nat.div_pos (Nat.le_of_dvd (by decide) hdvd) hpos)
      _ = 729 := Nat.div_mul_cancel hdvd
  unfold nTrits
  simp only [Nat.mod_eq_zero_of_dvd hdvd, if_true, Nat.add_zero, hlt, Nat.sub_zero]

theorem mem_groupIndices {lSize : Nat} (hpos : 0 < lSize) (hdvd : lSize ∣ 729) (p : Fin 729) :
    p ∈ groupIndices lSize := by
  have hid : p.val % lSize < lSize := Nat.mod_lt _ hpos
  have hsum : p.val % lSize + p.val / lSize * lSize = p.val := Nat.mod_add_div' _ _
  apply List.mem_flatMap.mpr
  refine ⟨p.val % lSize, List.mem_range.mpr hid, ?_⟩
  apply List.mem_filterMap.mpr
  refine ⟨p.val / lSize, ?_, ?_⟩
  · rw [List.mem_range, nTrits_eq hpos hdvd hid]
    apply Nat.div_lt_of_lt_mul
    rw [Nat.mul_comm, Nat.div_mul_cancel hdvd]
    exact p.isLt
  · simp only [hsum, p.isLt, dif_pos]

end indices

section mid

theorem foldl_copyFrom (source mid : Words 64) (indices : List (Fin 729)) (p : Fin 729) :
    (indices.foldl (copyFrom source) mid).low[p] =
        (if p ∈ indices then source.low[p] else mid.low[p]) ∧
      (indices.foldl (copyFrom source) mid).high[p] =
        (if p ∈ indices then source.high[p] else mid.high[p]) := by
  induction indices generalizing mid with
  | nil => exact ⟨rfl, rfl⟩
  | cons j rest ih =>
      have ⟨hlow, hhigh⟩ := ih (copyFrom source mid j)
      rw [List.foldl_cons, hlow, hhigh]
      by_cases hpj : p = j
      · subst hpj
        simp [copyFrom, Words.put]
      · have hne : j.val ≠ p.val := fun h => hpj (Fin.ext h.symm)
        simp [copyFrom, Words.put, hpj, Vector.getElem_set_ne, hne]

theorem foldl_copyFrom_group {lSize : Nat} (hpos : 0 < lSize) (hdvd : lSize ∣ 729)
    (source mid : Words 64) : (groupIndices lSize).foldl (copyFrom source) mid = source := by
  have hall := fun p => foldl_copyFrom source mid (groupIndices lSize) p
  cases hcopied : (groupIndices lSize).foldl (copyFrom source) mid with
  | mk low high =>
      rw [hcopied] at hall
      have hlow : low = source.low := by
        apply Vector.ext
        intro i hi
        exact (hall ⟨i, hi⟩).1.trans (if_pos (mem_groupIndices hpos hdvd _))
      have hhigh : high = source.high := by
        apply Vector.ext
        intro i hi
        exact (hall ⟨i, hi⟩).2.trans (if_pos (mem_groupIndices hpos hdvd _))
      rw [hlow, hhigh]

theorem initState_embed (mid : Spec.State) :
    initState (embed mid) = PowC.prepare (embed mid) 0 := by
  have hpara : (Words.mk
      ((embed mid).map fun trit =>
        if trit = 0 then highBits else if trit = 1 then lowBits else highBits)
      ((embed mid).map fun trit =>
        if trit = 0 then highBits else if trit = 1 then highBits else lowBits)) =
      PowC.para (embed mid) := by
    unfold PowC.para paraWith
    congr 1
    · apply Vector.ext
      intro i hi
      rw [Vector.getElem_map, Vector.getElem_map, getElem_embed]
      cases mid[i] <;> rfl
    · apply Vector.ext
      intro i hi
      rw [Vector.getElem_map, Vector.getElem_map, getElem_embed]
      cases mid[i] <;> rfl
  unfold initState
  rw [hpara]
  rfl

/-- A group searches what the thread of `pow_c` with the same number searches. -/
theorem midAfter_eq {lSize : Nat} (hpos : 0 < lSize) (hdvd : lSize ∣ 729) (mid : Spec.State)
    (grId : Nat) (own : Words 64) (k : Nat) :
    midAfter (embed mid) lSize grId own k = PowC.backend.counterAt (embed mid) grId k := by
  have hinit : init lSize grId 0 (initState (embed mid)) own = PowC.prepare (embed mid) grId := by
    unfold init
    split
    · rename_i hzero
      rw [initState_embed, hzero]
    · rw [foldl_copyFrom_group hpos hdvd, initState_embed]
      rfl
  unfold midAfter
  rw [hinit]
  rfl

end mid

section check

def Matches (state : Words 64) (m lane : Nat) : Prop :=
  ∀ i : Fin 729, 243 - m ≤ i.val → i.val < 243 → state.trit? lane i = some .zero

theorem getLsbD_check {state : Words 64} (hvalid : state.Valid) (m : Nat) {lane : Nat}
    (hlane : lane < 64) : (check state m).getLsbD lane = true ↔ Matches state m lane := by
  have ⟨trits, htrits⟩ := hvalid.exists_holds hlane
  have hhigh : highBits.getLsbD lane = true := by
    rw [show highBits = BitVec.allOnes 64 from rfl, BitVec.getLsbD_allOnes, decide_eq_true hlane]
  have hmatches : Matches state m lane ↔
      ∀ i ∈ positions (243 - m) (243 - (243 - m)) (weight_inside m),
        (state.low[i].getLsbD lane ^^ state.high[i].getLsbD lane) = false := by
    constructor
    · intro h i hi
      have ⟨hge, hlt⟩ := (mem_positions _ i).mp hi
      exact (xor_getLsbD_eq_false_iff (h i hge (by omega))).mpr rfl
    · intro h i hge hlt
      have hxor := h i ((mem_positions _ i).mpr ⟨hge, by omega⟩)
      rw [htrits i]
      exact congrArg some ((xor_getLsbD_eq_false_iff (htrits i)).mp hxor)
  rw [hmatches]
  unfold check
  cases hprobe : probeLoop (fun probe => probe == 0) state
      (positions (243 - m) (243 - (243 - m)) (weight_inside m)) highBits with
  | none =>
      have hdead := getLsbD_of_dead
        (fun (probe : BitVec 64) (h : (probe == 0) = true) => beq_iff_eq.mp h) lane
      have ⟨i, hi, hfails⟩ := probeLoop_eq_none hdead hlane hhigh hprobe
      simp only [Option.getD_none, BitVec.ofNat_eq_ofNat, BitVec.getLsbD_zero, Bool.false_eq_true,
        false_iff]
      intro hall
      rw [hall i hi] at hfails
      cases hfails
  | some probe =>
      rw [Option.getD_some, getLsbD_probeLoop hlane hprobe]
      simp [hhigh]

end check

section finalize

variable {mid : Words 64} {nonceProbe : BitVec 64} {trits : Nat → Trit} {j : Fin 729}

theorem and_eq_zero_iff (word nonceProbe : BitVec 64) :
    word &&& nonceProbe = 0 ↔
      ∀ lane < 64, nonceProbe.getLsbD lane = true → word.getLsbD lane = false := by
  constructor
  · intro hzero lane _ hprobe
    have hbit := congrArg (fun value => value.getLsbD lane) hzero
    simpa [hprobe] using hbit
  · intro hclear
    apply BitVec.eq_of_getLsbD_eq
    intro lane hlane
    rw [BitVec.getLsbD_and, BitVec.ofNat_eq_ofNat, BitVec.getLsbD_zero]
    cases hprobe : nonceProbe.getLsbD lane with
    | false => rw [Bool.and_false]
    | true => rw [hclear lane hlane hprobe, Bool.false_and]

/-- `finalize` reads 1 or -1 only where all lanes of the probe hold it. -/
theorem hashTrit_eq (htrits : ∀ lane < 64, mid.trit? lane j = some (trits lane)) :
    hashTrit mid nonceProbe j =
      if ∀ lane < 64, nonceProbe.getLsbD lane = true → trits lane = .pos then 1
      else if ∀ lane < 64, nonceProbe.getLsbD lane = true → trits lane = .neg then -1
      else 0 := by
  have hlow : (∀ lane < 64, nonceProbe.getLsbD lane = true → mid.low[j].getLsbD lane = false) ↔
      ∀ lane < 64, nonceProbe.getLsbD lane = true → trits lane = .pos := by
    apply forall_congr'
    intro lane
    apply forall_congr'
    intro hlane
    rw [(Words.trit?_eq_some_iff.mp (htrits lane hlane)).1]
    cases trits lane <;> simp [Trit.lowBit]
  have hhigh : (∀ lane < 64, nonceProbe.getLsbD lane = true → mid.high[j].getLsbD lane = false) ↔
      ∀ lane < 64, nonceProbe.getLsbD lane = true → trits lane = .neg := by
    apply forall_congr'
    intro lane
    apply forall_congr'
    intro hlane
    rw [(Words.trit?_eq_some_iff.mp (htrits lane hlane)).2]
    cases trits lane <;> simp [Trit.highBit]
  unfold hashTrit
  simp only [and_eq_zero_iff, hlow, hhigh]

theorem hashTrit_eq_toInt8_iff (htrits : ∀ lane < 64, mid.trit? lane j = some (trits lane))
    {lane : Nat} (hlane : lane < 64) (hprobe : nonceProbe.getLsbD lane = true) :
    hashTrit mid nonceProbe j = (trits lane).toInt8 ↔
      trits lane = .zero ∨
        ∀ other < 64, nonceProbe.getLsbD other = true → trits other = trits lane := by
  have hnot : ∀ trit, trits lane ≠ trit →
      ¬∀ other < 64, nonceProbe.getLsbD other = true → trits other = trit :=
    fun trit hne hall => hne (hall lane hlane hprobe)
  rw [hashTrit_eq htrits]
  cases htrit : trits lane with
  | zero =>
      rw [if_neg (hnot .pos (by rw [htrit]; decide)), if_neg (hnot .neg (by rw [htrit]; decide))]
      exact ⟨fun _ => Or.inl rfl, fun _ => rfl⟩
  | pos =>
      by_cases hall : ∀ other < 64, nonceProbe.getLsbD other = true → trits other = .pos
      · rw [if_pos hall]
        exact ⟨fun _ => Or.inr hall, fun _ => rfl⟩
      · rw [if_neg hall, if_neg (hnot .neg (by rw [htrit]; decide))]
        refine ⟨fun heq => absurd heq (by decide), fun hcase => ?_⟩
        exact absurd (hcase.resolve_left (by decide)) hall
  | neg =>
      rw [if_neg (hnot .pos (by rw [htrit]; decide))]
      by_cases hall : ∀ other < 64, nonceProbe.getLsbD other = true → trits other = .neg
      · rw [if_pos hall]
        exact ⟨fun _ => Or.inr hall, fun _ => rfl⟩
      · rw [if_neg hall]
        refine ⟨fun heq => absurd heq (by decide), fun hcase => ?_⟩
        exact absurd (hcase.resolve_left (by decide)) hall

theorem getElem_foldl_writeTrit (indices : List (Fin 729)) (tritHash : Vector Int8 243)
    (hj : j.val < 243) :
    (indices.foldl (writeTrit mid nonceProbe) tritHash)[j.val] =
      if j ∈ indices then hashTrit mid nonceProbe j else tritHash[j.val] := by
  induction indices generalizing tritHash with
  | nil => rfl
  | cons i rest ih =>
      rw [List.foldl_cons, ih]
      by_cases hij : j = i
      · subst hij
        simp [writeTrit, hj]
      · have hne : i.val ≠ j.val := fun h => hij (Fin.ext h.symm)
        by_cases hlt : i.val < 243
        · simp [writeTrit, hlt, hij, Vector.getElem_set_ne, hne]
        · simp [writeTrit, hlt, hij]

theorem getElem_finalize {lSize grId : Nat} {found : Int8} (hpos : 0 < lSize)
    (hdvd : lSize ∣ 729) (hfound : (grId : Int) = found.toInt - 1) (hprobe : nonceProbe ≠ 0)
    (tritHash : Vector Int8 243) (hj : j.val < 243) :
    (finalize lSize grId found mid nonceProbe tritHash)[j.val] = hashTrit mid nonceProbe j := by
  unfold finalize writeHash
  rw [if_pos ⟨hfound, hprobe⟩, getElem_foldl_writeTrit _ _ hj,
    if_pos (mem_groupIndices hpos hdvd _)]

end finalize

section lanes

variable (start : Spec.State) (grId k : Nat)

theorem getElem_candidateAt_of_outside (lane other : Nat) {p : Fin 729}
    (hp : p.val < 162 ∨ 166 ≤ p.val) :
    (PowC.candidateAt start grId k lane)[p] = (PowC.candidateAt start grId k other)[p] := by
  have hpattern : ∀ lane, (Spec.overlay start 162 (PowC.pattern lane))[p] = start[p] :=
    fun lane => Spec.getElem_overlay_of_outside _ hp
  unfold PowC.candidateAt PowC.candidate
  simp only [Spec.getElem_overlay, hpattern]

def laneTrit (lane q : Nat) : Trit := Trit.ofDigit (Fin.ofNat 3 (lane / 3 ^ q + 1))

theorem getElem?_pattern (lane : Nat) {q : Nat} (hq : q < 4) :
    (PowC.pattern lane)[q]? = some (Fin.ofNat 3 (lane / 3 ^ q + 1)) := by
  match q, hq with
  | 0, _ => simp [PowC.pattern]
  | 1, _ => rfl
  | 2, _ => rfl
  | 3, _ => rfl

theorem getElem_candidateAt_of_pattern (lane : Nat) {p : Fin 729} (hp : 162 ≤ p.val)
    (hp' : p.val < 166) :
    (PowC.candidateAt start grId k lane)[p] = laneTrit lane (p.val - 162) := by
  unfold PowC.candidateAt
  rw [PowC.getElem_candidate_of_lt_thread _ _ _ _ hp', Spec.getElem_overlay, if_pos hp,
    getElem?_pattern lane (by omega)]
  rfl

end lanes

section oneLane

/-- Wherever `check` leaves a lane, `finalize` gives the trits of one of those
lanes, as it was tested. -/
def ReturnsOneLane (start : Spec.State) (lSize grId k : Nat) (own state : Words 64)
    (m : Nat) (found : Int8) (tritHash : Vector Int8 243) : Prop :=
  check state m ≠ 0 →
    ∃ lane < 64, (check state m).getLsbD lane = true ∧
      ∀ (j : Fin 729) (hj : j.val < 243),
        ((midAfter (embed start) lSize grId own k).trit? lane j).map Trit.toInt8 =
          some (finalize lSize grId found (midAfter (embed start) lSize grId own k)
            (check state m) tritHash)[j.val]

/-- Some lane with the required zeros has, at each of the trits 162 to 165, a zero
or the trit that all such lanes have; or there is no such lane. -/
def Recoverable (state : Words 64) (m : Nat) : Prop :=
  (∃ lane < 64, Matches state m lane) →
    ∃ lane < 64, Matches state m lane ∧
      ∀ q < 4, laneTrit lane q = .zero ∨
        ∀ other < 64, Matches state m other → laneTrit other q = laneTrit lane q

variable {start : Spec.State} {grId k : Nat} {state : Words 64} {m lane : Nat}

theorem check_ne_zero_iff (hvalid : state.Valid) :
    check state m ≠ 0 ↔ ∃ lane < 64, Matches state m lane := by
  constructor
  · intro hne
    by_contra hnone
    apply hne
    apply BitVec.eq_of_getLsbD_eq
    intro lane hlane
    rw [BitVec.ofNat_eq_ofNat, BitVec.getLsbD_zero]
    apply Bool.eq_false_iff.mpr
    intro hbit
    exact hnone ⟨lane, hlane, (getLsbD_check hvalid m hlane).mp hbit⟩
  · intro ⟨lane, hlane, hmatches⟩ hzero
    have hbit := (getLsbD_check hvalid m hlane).mpr hmatches
    rw [hzero] at hbit
    simp at hbit

theorem map_trit?_eq_hashTrit_iff {mid : Words 64} {trits : Nat → Spec.State}
    (hmid : ∀ lane < 64, mid.Holds lane (trits lane)) (hvalid : state.Valid) (hlane : lane < 64)
    (hmatches : Matches state m lane) (p : Fin 729) :
    (mid.trit? lane p).map Trit.toInt8 = some (hashTrit mid (check state m) p) ↔
      (trits lane)[p] = .zero ∨
        ∀ other < 64, Matches state m other → (trits other)[p] = (trits lane)[p] := by
  have hiff := hashTrit_eq_toInt8_iff (fun lane hlane => hmid lane hlane p) hlane
    ((getLsbD_check hvalid m hlane).mpr hmatches)
  rw [hmid lane hlane p, Option.map_some, Option.some.injEq, eq_comm, hiff]
  apply or_congr Iff.rfl
  apply forall_congr'
  intro other
  apply forall_congr'
  intro hother
  rw [getLsbD_check hvalid m hother]

/-- Only the four patterns decide whether a lane is read back as it was tested. -/
theorem forall_candidateAt_iff (start : Spec.State) (grId k : Nat) (others : Nat → Prop)
    (lane : Nat) :
    (∀ j : Fin 729, j.val < 243 →
        (PowC.candidateAt start grId k lane)[j] = .zero ∨
          ∀ other < 64, others other →
            (PowC.candidateAt start grId k other)[j] =
              (PowC.candidateAt start grId k lane)[j]) ↔
      ∀ q < 4, laneTrit lane q = .zero ∨
        ∀ other < 64, others other → laneTrit other q = laneTrit lane q := by
  have hread := fun (j : Fin 729) (hj : 162 ≤ j.val) (hj' : j.val < 166) (lane : Nat) =>
    getElem_candidateAt_of_pattern start grId k lane hj hj'
  constructor
  · intro hall q hq
    have ⟨j, hj⟩ : ∃ j : Fin 729, j.val = 162 + q := ⟨⟨162 + q, by omega⟩, rfl⟩
    have hcase := hall j (by omega)
    simp only [hread j (by omega) (by omega), show j.val - 162 = q by omega] at hcase
    exact hcase
  · intro hpattern j _
    by_cases hinside : 162 ≤ j.val ∧ j.val < 166
    · simp only [hread j hinside.1 hinside.2]
      exact hpattern (j.val - 162) (by omega)
    · right
      intro other _ _
      exact getElem_candidateAt_of_outside start grId k other lane (by omega)

theorem holds_midAfter {lSize : Nat} (hpos : 0 < lSize) (hdvd : lSize ∣ 729) (start : Spec.State)
    (grId : Nat) (own : Words 64) (k : Nat) :
    ∀ lane < 64, (midAfter (embed start) lSize grId own k).Holds lane
      (PowC.candidateAt start grId k lane) := by
  intro lane hlane
  rw [midAfter_eq hpos hdvd]
  exact PowC.holds_counterAt grId k lane hlane

theorem returnsOneLane_iff_of_dvd {lSize : Nat} (hpos : 0 < lSize) (hdvd : lSize ∣ 729)
    (start : Spec.State) {grId : Nat} (k : Nat) (own : Words 64) (hvalid : state.Valid)
    {found : Int8} (hfound : (grId : Int) = found.toInt - 1) (tritHash : Vector Int8 243) :
    ReturnsOneLane start lSize grId k own state m found tritHash ↔ Recoverable state m := by
  have hmid := holds_midAfter hpos hdvd start grId own k
  unfold ReturnsOneLane Recoverable
  revert hmid
  generalize midAfter (embed start) lSize grId own k = mid
  intro hmid
  rw [check_ne_zero_iff hvalid]
  apply forall_congr'
  intro hsome
  apply exists_congr
  intro lane
  apply and_congr_right
  intro hlane
  rw [getLsbD_check hvalid m hlane]
  apply and_congr_right
  intro hmatches
  rw [← forall_candidateAt_iff start grId k]
  apply forall_congr'
  intro j
  apply forall_congr'
  intro hj
  rw [getElem_finalize hpos hdvd hfound ((check_ne_zero_iff hvalid).mpr hsome) _ hj]
  exact map_trit?_eq_hashTrit_iff hmid hvalid hlane hmatches _

/-- With the work items of `init` in lockstep, `finalize` gives a tested nonce exactly when the
lanes with the required zeros can be told apart from what it reads. -/
theorem returnsOneLane_iff (start : Spec.State) (numWorkGroup grId k : Nat) (own state : Words 64)
    (m : Nat) (found : Int8) (tritHash : Vector Int8 243) (hgroup : 0 < numWorkGroup)
    (hvalid : state.Valid) (hfound : (grId : Int) = found.toInt - 1) :
    ReturnsOneLane start (localWorkSize numWorkGroup) grId k own state m found tritHash ↔
      Recoverable state m := by
  have ⟨hpos, hdvd⟩ := localWorkSize_dvd hgroup
  exact returnsOneLane_iff_of_dvd hpos hdvd start k own hvalid hfound tritHash

end oneLane

section lanes

def zeroLanes (lanes : BitVec 64) : Words 64 :=
  ⟨Vector.replicate 729 highBits, Vector.replicate 729 lanes⟩

theorem trit?_zeroLanes (lanes : BitVec 64) {lane : Nat} (hlane : lane < 64) (j : Fin 729) :
    (zeroLanes lanes).trit? lane j = some (if lanes.getLsbD lane then .zero else .neg) := by
  have hhigh : highBits.getLsbD lane = true := by
    rw [show highBits = BitVec.allOnes 64 from rfl, BitVec.getLsbD_allOnes, decide_eq_true hlane]
  rw [Words.trit?_eq_some_iff]
  simp only [zeroLanes, Library.getElem_fin, Vector.getElem_replicate, hhigh]
  cases lanes.getLsbD lane <;> exact ⟨rfl, rfl⟩

theorem zeroLanes_valid (lanes : BitVec 64) : (zeroLanes lanes).Valid := by
  intro j lane hlane hbits
  have hnone := Trit.ofBits_eq_none_iff.mpr hbits
  have hsome := trit?_zeroLanes lanes hlane j
  unfold Words.trit? at hsome
  rw [hnone] at hsome
  cases hsome

theorem matches_zeroLanes (lanes : BitVec 64) {lane : Nat} (hlane : lane < 64) :
    Matches (zeroLanes lanes) 14 lane ↔ lanes.getLsbD lane = true := by
  constructor
  · intro h
    have hlast := h ⟨242, by decide⟩ (by decide) (by decide)
    rw [trit?_zeroLanes lanes hlane, Option.some.injEq] at hlast
    by_contra hclear
    rw [if_neg hclear] at hlast
    cases hlast
  · intro hset j _ _
    rw [trit?_zeroLanes lanes hlane, if_pos hset]

/-- One lane with the zeros is read back. -/
theorem returnsOneLane_iff_single :
    ReturnsOneLane PowC.lowest (localWorkSize 256) 1 1 (zeroLanes 0) (zeroLanes 1) 14 2
      (Vector.replicate 243 0) := by
  apply (returnsOneLane_iff PowC.lowest 256 1 1 (zeroLanes 0) (zeroLanes 1) 14 2
    (Vector.replicate 243 0) (by decide) (zeroLanes_valid 1) (by decide)).mpr
  intro _
  refine ⟨0, by decide, (matches_zeroLanes 1 (by decide)).mpr (by decide), ?_⟩
  intro q _
  right
  intro other hother hmatches
  have hbit := (matches_zeroLanes 1 hother).mp hmatches
  have honly : ∀ lane < 64, (1 : BitVec 64).getLsbD lane = true → lane = 0 := by decide
  rw [honly other hother hbit]

/-- The lanes 1 and 2 differ at trit 162 only, and neither has a zero there. -/
theorem not_returnsOneLane_double :
    ¬ReturnsOneLane PowC.lowest (localWorkSize 256) 1 1 (zeroLanes 0) (zeroLanes 6) 14 2
      (Vector.replicate 243 0) := by
  have ⟨hpos, hdvd⟩ := localWorkSize_dvd (show 0 < 256 by decide)
  rw [returnsOneLane_iff_of_dvd hpos hdvd _ _ _ (zeroLanes_valid 6) (by decide)]
  intro h
  have hone := (matches_zeroLanes 6 (show 1 < 64 by decide)).mpr (by decide)
  have htwo := (matches_zeroLanes 6 (show 2 < 64 by decide)).mpr (by decide)
  have ⟨lane, hlane, hmatches, hread⟩ := h ⟨1, by decide, hone⟩
  have hbit := (matches_zeroLanes 6 hlane).mp hmatches
  have honly : ∀ lane < 64, (6 : BitVec 64).getLsbD lane = true → lane = 1 ∨ lane = 2 := by decide
  cases honly lane hlane hbit with
  | inl heq =>
      rw [heq] at hread
      cases hread 0 (by decide) with
      | inl hzero => exact absurd hzero (by decide)
      | inr hsame => exact absurd (hsame 2 (by decide) htwo) (by decide)
  | inr heq =>
      rw [heq] at hread
      cases hread 0 (by decide) with
      | inl hzero => exact absurd hzero (by decide)
      | inr hsame => exact absurd (hsame 1 (by decide) hone) (by decide)

end lanes

end Dcurl.PowKernel
