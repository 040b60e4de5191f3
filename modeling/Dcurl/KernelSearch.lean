import Dcurl.PowKernel

/-! The kernel `search`. The work items of a group run in lockstep: what they do
between two barriers, all of them do on the same memory. -/
namespace Dcurl.PowKernel

open Library Odometer PingPong

structure Private where
  low : Vector (BitVec 64) 3
  high : Vector (BitVec 64) 3

/-- The `i` and `j` of the loops over `n_trits` in `transform`, none of them out of
bounds for a local size of 729 or 243. -/
def itemPasses (lSize id : Nat) : List (Fin 3 × Fin 729) :=
  (List.range (nTrits id lSize)).filterMap fun i =>
    if h : i < 3 ∧ id + i * lSize < 729 then some (⟨i, h.1⟩, ⟨id + i * lSize, h.2⟩) else none

def gather (state : Words 64) (item : Private) (pass : Fin 3 × Fin 729) : Private :=
  let (i, j) := pass
  let alpha := state.low[index j.castSucc]
  let beta := state.high[index j.castSucc]
  let delta := alpha &&& (beta ^^^ state.low[index j.succ])
  { low := item.low.set i (~~~delta)
    high := item.high.set i ((alpha ^^^ state.high[index j.succ]) ||| delta) }

def scatter (item : Private) (state : Words 64) (pass : Fin 3 × Fin 729) : Words 64 :=
  let (i, j) := pass
  state.put j item.low[i] item.high[i]

/-- One round: all items fill their private arrays, then all items write. -/
def transformRound (lSize : Nat) (group : Words 64 × (Nat → Private)) :
    Words 64 × (Nat → Private) :=
  let items := fun id => (itemPasses lSize id).foldl (gather group.1) (group.2 id)
  ((List.range lSize).foldl
    (fun state id => (itemPasses lSize id).foldl (scatter (items id)) state) group.1, items)

/-- The private arrays are written before they are read. -/
def unset : Private := ⟨Vector.replicate 3 0, Vector.replicate 3 0⟩

def transform (lSize : Nat) (state : Words 64) : Words 64 :=
  ((transformRound lSize)^[81] (state, fun _ => unset)).1

structure Group where
  mid : Words 64
  state : Words 64
  nonceProbe : BitVec 64

def searchPass (lSize minWeightMagnitude : Nat) (group : Group) : Group :=
  let mid := increment 193 50 (by decide) group.mid
  let state := (groupIndices lSize).foldl (copyFrom mid) group.state
  let state := transform lSize state
  { mid := mid, state := state, nonceProbe := check state minWeightMagnitude }

/-- A group after `init` and `k` passes of `search`, from what its buffers held. -/
def groupAfter (state : CurlState) (lSize minWeightMagnitude grId : Nat) (own : Group)
    (k : Nat) : Group :=
  (searchPass lSize minWeightMagnitude)^[k]
    { own with mid := init lSize grId 0 (initState state) own.mid }

section transform

variable {lSize : Nat}

theorem nTrits_le (hsize : lSize = 729 ∨ lSize = 243) (id : Nat) : nTrits id lSize ≤ 3 := by
  unfold nTrits
  cases hsize with
  | inl h =>
      subst h
      simp only [Nat.mod_self, if_true, Nat.div_self (show 0 < 729 by decide)]
      omega
  | inr h =>
      subst h
      simp only [show 729 % 243 = 0 by decide, show 729 / 243 = 3 by decide, if_true]
      omega

theorem dvd_of_size (hsize : lSize = 729 ∨ lSize = 243) : 0 < lSize ∧ lSize ∣ 729 := by
  cases hsize with
  | inl h =>
      subst h
      exact ⟨by decide, dvd_refl 729⟩
  | inr h =>
      subst h
      exact ⟨by decide, by decide⟩

theorem map_snd_itemPasses (hsize : lSize = 729 ∨ lSize = 243) (id : Nat) :
    (itemPasses lSize id).map Prod.snd = itemIndices lSize id := by
  unfold itemPasses itemIndices
  rw [List.map_filterMap]
  apply List.filterMap_congr
  intro i hi
  have hlt : i < 3 := lt_of_lt_of_le (List.mem_range.mp hi) (nTrits_le hsize id)
  by_cases hj : id + i * lSize < 729
  · simp [hlt, hj]
  · simp [hj]

theorem nodup_fst_itemPasses (id : Nat) : ((itemPasses lSize id).map Prod.fst).Nodup := by
  unfold itemPasses
  rw [List.map_filterMap]
  apply List.Nodup.filterMap _ List.nodup_range
  intro i i' slot hslot hslot'
  simp only [Option.mem_def, Option.map_eq_some_iff, Option.dite_none_right_eq_some,
    Option.some.injEq] at hslot hslot'
  obtain ⟨pass, ⟨_, hpass⟩, hfst⟩ := hslot
  obtain ⟨pass', ⟨_, hpass'⟩, hfst'⟩ := hslot'
  subst hpass hpass' hfst
  exact (Fin.mk.inj hfst').symm

theorem gather_eq (state : Words 64) (item : Private) (i : Fin 3) (j : Fin 729) :
    gather state item (i, j) =
      ⟨item.low.set i (fullRound gate64 state).low[j],
        item.high.set i (fullRound gate64 state).high[j]⟩ := by
  simp only [gather, fullRound, fillWords, gate64, Library.getElem_fin, Vector.getElem_ofFn,
    Fin.is_lt, if_true]
  rw [BitVec.xor_comm state.high[(index j.castSucc).val]]

theorem getElem_foldl_gather (state : Words 64) (item : Private)
    {passes : List (Fin 3 × Fin 729)} (hnodup : (passes.map Prod.fst).Nodup)
    {i : Fin 3} {j : Fin 729} (hmem : (i, j) ∈ passes) :
    (passes.foldl (gather state) item).low[i] = (fullRound gate64 state).low[j] ∧
      (passes.foldl (gather state) item).high[i] = (fullRound gate64 state).high[j] := by
  induction passes using List.reverseRecOn with
  | nil => cases hmem
  | append_singleton rest pass ih =>
      obtain ⟨i', j'⟩ := pass
      rw [List.map_append, List.nodup_append] at hnodup
      rw [List.foldl_append, List.foldl_cons, List.foldl_nil, gather_eq]
      by_cases hslot : i' = i
      · subst hslot
        have hj : j = j' := by
          cases List.mem_append.mp hmem with
          | inl hrest =>
              have hne := hnodup.2.2 i' (List.mem_map_of_mem hrest) i' (by simp)
              exact absurd rfl hne
          | inr hlast => simpa using hlast
        subst hj
        simp
      · have hrest : (i, j) ∈ rest := by
          cases List.mem_append.mp hmem with
          | inl hrest => exact hrest
          | inr hlast =>
              rw [List.mem_singleton, Prod.mk.injEq] at hlast
              exact absurd hlast.1.symm hslot
        have ⟨hlow, hhigh⟩ := ih hnodup.1 hrest
        have hne : i'.val ≠ i.val := fun h => hslot (Fin.ext h)
        simpa [Vector.getElem_set_ne, hne] using And.intro hlow hhigh

theorem foldl_scatter {state : Words 64} {item : Private} {passes : List (Fin 3 × Fin 729)}
    (hitem : ∀ i j, (i, j) ∈ passes →
      item.low[i] = state.low[j] ∧ item.high[i] = state.high[j]) (target : Words 64) :
    passes.foldl (scatter item) target = (passes.map Prod.snd).foldl (copyFrom state) target := by
  induction passes generalizing target with
  | nil => rfl
  | cons pass rest ih =>
      have ⟨hlow, hhigh⟩ := hitem pass.1 pass.2 List.mem_cons_self
      have hwrite : scatter item target pass = copyFrom state target pass.2 := by
        simp only [scatter, copyFrom, hlow, hhigh]
      rw [List.foldl_cons, hwrite, List.map_cons, List.foldl_cons]
      exact ih (fun i j hmem => hitem i j (List.mem_cons_of_mem pass hmem)) _

theorem transformRound_fst (hsize : lSize = 729 ∨ lSize = 243) (state : Words 64)
    (items : Nat → Private) : (transformRound lSize (state, items)).1 = fullRound gate64 state := by
  have ⟨hpos, hdvd⟩ := dvd_of_size hsize
  have hscatter : ∀ (id : Nat) (target : Words 64),
      (itemPasses lSize id).foldl
          (scatter ((itemPasses lSize id).foldl (gather state) (items id))) target =
        (itemIndices lSize id).foldl (copyFrom (fullRound gate64 state)) target := by
    intro id target
    rw [← map_snd_itemPasses hsize]
    apply foldl_scatter
    intro i j hmem
    exact getElem_foldl_gather state (items id) (nodup_fst_itemPasses id) hmem
  unfold transformRound
  simp only [hscatter]
  rw [← List.foldl_flatMap]
  exact foldl_copyFrom_group hpos hdvd _ _

theorem transform_eq (hsize : lSize = 729 ∨ lSize = 243) (state : Words 64) :
    transform lSize state = (fullRound gate64)^[81] state := by
  unfold transform
  generalize 81 = rounds
  induction rounds with
  | zero => rfl
  | succ rounds ih =>
      rw [Function.iterate_succ_apply', Function.iterate_succ_apply', ← ih]
      exact transformRound_fst hsize _ _

theorem second_transformWords {w : Nat} (gate : Gate w) (mid : Words w) {j : Fin 729}
    (hj : j.val < 243) :
    (transformWords gate ⟨mid, mid⟩).second.low[j] = ((fullRound gate)^[81] mid).low[j] ∧
      (transformWords gate ⟨mid, mid⟩).second.high[j] = ((fullRound gate)^[81] mid).high[j] := by
  obtain ⟨hsource, htarget⟩ := iterate_pointers (fullRound gate) ⟨mid, mid⟩ 80
  have hread := read_iterate (fullRound gate) ⟨mid, mid⟩ 80
  have hlast : ∀ source target : Words w,
      (fillWords gate 243 source target).low[j] = (fullRound gate source).low[j] ∧
        (fillWords gate 243 source target).high[j] = (fullRound gate source).high[j] := by
    intro source target
    simp [fullRound, fillWords, hj]
  unfold transformWords
  rw [fillWords_full, Function.iterate_succ_apply' _ 80]
  simp only [PingPong.pass, hsource, htarget, hread]
  exact hlast _ _

end transform

section check

theorem probeLoop_congr {w : Nat} {dead : BitVec w → Bool} {left right : Words w}
    {indices : List (Fin 729)} (heq : ∀ i ∈ indices,
      left.low[i] = right.low[i] ∧ left.high[i] = right.high[i]) (probe : BitVec w) :
    probeLoop dead left indices probe = probeLoop dead right indices probe := by
  induction indices generalizing probe with
  | nil => rfl
  | cons i rest ih =>
      have ⟨hlow, hhigh⟩ := heq i List.mem_cons_self
      have hrest := ih fun i' hmem => heq i' (List.mem_cons_of_mem i hmem)
      simp only [probeLoop, hlow, hhigh, hrest]

theorem firstLane_one (probe : BitVec 64) :
    firstLane 1 probe = (List.range 64).find? fun i => probe.getLsbD i := by
  rw [List.find?_eq_findSome?_guard]
  unfold firstLane
  rw [List.range_one, List.flatMap_singleton, List.findSome?_map]
  congr 1
  funext i
  have hbit : (element probe 0).getLsbD i = probe.getLsbD i := by
    rw [getLsbD_element]
    by_cases hi : i < 64
    · simp [hi]
    · rw [BitVec.getLsbD_of_ge probe i (by omega)]
      simp [hi]
  simp [hbit, Option.guard]

def Lowest (probe : BitVec 64) (lane : Nat) : Prop :=
  probe.getLsbD lane = true ∧ ∀ other < lane, probe.getLsbD other = false

theorem firstLane_one_eq_some {probe : BitVec 64} {lane : Nat}
    (h : firstLane 1 probe = some lane) : Lowest probe lane := by
  rw [firstLane_one, List.find?_range_eq_some] at h
  refine ⟨h.1, ?_⟩
  intro other hother
  simpa using h.2.2 other hother

theorem firstLane_one_eq_none {probe : BitVec 64} (h : firstLane 1 probe = none) : probe = 0 := by
  apply BitVec.eq_of_getLsbD_eq
  intro lane hlane
  simpa using firstLane_eq_none h (show lane < 64 * 1 by omega)

/-- The check of the kernel and the check of `pow_c` on the same words. -/
theorem check_agrees (state : Words 64) (m : Nat) :
    (check state m ≠ 0 ↔ 0 ≤ PowC.check state m) ∧
      (check state m ≠ 0 → ∃ lane : Nat, PowC.check state m = lane ∧
        Lowest (check state m) lane) := by
  have hbits : PowC.hbits = highBits := rfl
  unfold check PowC.check checkWith
  rw [hbits]
  cases hprobe : probeLoop (fun probe => probe == 0) state
      (positions (243 - m) (243 - (243 - m)) (weight_inside m)) highBits with
  | none => simp
  | some probe =>
      dsimp only
      rw [Option.getD_some]
      cases hlane : firstLane 1 probe with
      | none => simp [firstLane_one_eq_none hlane]
      | some lane =>
          have hlowest := firstLane_one_eq_some hlane
          have hne : probe ≠ 0 := by
            intro hzero
            have hbit := hlowest.1
            rw [hzero] at hbit
            simp at hbit
          exact ⟨iff_of_true hne (Int.natCast_nonneg lane), fun _ => ⟨lane, rfl, hlowest⟩⟩

theorem check_congr {left right : Words 64} (heq : ∀ j : Fin 729, j.val < 243 →
    left.low[j] = right.low[j] ∧ left.high[j] = right.high[j]) (m : Nat) :
    PowC.check left m = PowC.check right m := by
  have hwords : ∀ i ∈ positions (243 - m) (243 - (243 - m)) (weight_inside m),
      left.low[i] = right.low[i] ∧ left.high[i] = right.high[i] := by
    intro i hi
    have ⟨_, hlt⟩ := (mem_positions _ i).mp hi
    exact heq i (by omega)
  unfold PowC.check checkWith
  rw [probeLoop_congr hwords]

end check

section search

variable {lSize : Nat} (hsize : lSize = 729 ∨ lSize = 243)

include hsize

theorem searchPass_eq (m : Nat) (group : Group) :
    (searchPass lSize m group).mid = increment 193 50 (by decide) group.mid ∧
      (searchPass lSize m group).nonceProbe =
        check ((fullRound gate64)^[81] (searchPass lSize m group).mid) m := by
  have ⟨hpos, hdvd⟩ := dvd_of_size hsize
  refine ⟨rfl, ?_⟩
  unfold searchPass
  dsimp only
  rw [foldl_copyFrom_group hpos hdvd, transform_eq hsize]

/-- The counter words of a group are those of the thread of `pow_c` with its number. -/
theorem mid_groupAfter (mid : Spec.State) (m grId : Nat) (own : Group) (k : Nat) :
    (groupAfter (embed mid) lSize m grId own k).mid =
      PowC.backend.counterAt (embed mid) grId k := by
  have ⟨hpos, hdvd⟩ := dvd_of_size hsize
  rw [← midAfter_eq hpos hdvd mid grId own.mid]
  unfold groupAfter midAfter
  induction k with
  | zero => rfl
  | succ k ih =>
      rw [Function.iterate_succ_apply', Function.iterate_succ_apply', ← ih]
      exact (searchPass_eq hsize m _).1

/-- After `k` passes a group and the thread of `pow_c` with its number have the
same counter and the same outcome of `check`. -/
theorem groupAfter_simulates (mid : Spec.State) (m grId : Nat) (own : Group) (k : Nat)
    (hk : 1 ≤ k) :
    (groupAfter (embed mid) lSize m grId own k).mid = PowC.backend.counterAt (embed mid) grId k ∧
      ((groupAfter (embed mid) lSize m grId own k).nonceProbe ≠ 0 ↔
        0 ≤ PowC.backend.tryBatch (PowC.backend.counterAt (embed mid) grId k) m) ∧
      ((groupAfter (embed mid) lSize m grId own k).nonceProbe ≠ 0 → ∃ lane : Nat,
        PowC.backend.tryBatch (PowC.backend.counterAt (embed mid) grId k) m = lane ∧
          Lowest (groupAfter (embed mid) lSize m grId own k).nonceProbe lane) := by
  have hmid := mid_groupAfter hsize mid m grId own k
  obtain ⟨k, rfl⟩ := Nat.exists_eq_add_of_le' hk
  have hprobe : (groupAfter (embed mid) lSize m grId own (k + 1)).nonceProbe =
      check ((fullRound gate64)^[81] (PowC.backend.counterAt (embed mid) grId (k + 1))) m := by
    rw [← hmid]
    unfold groupAfter
    rw [Function.iterate_succ_apply']
    exact (searchPass_eq hsize m _).2
  have htry : PowC.backend.tryBatch (PowC.backend.counterAt (embed mid) grId (k + 1)) m =
      PowC.check ((fullRound gate64)^[81] (PowC.backend.counterAt (embed mid) grId (k + 1))) m :=
    check_congr (fun j hj => second_transformWords gate64 _ hj) m
  rw [hprobe, htry]
  exact ⟨hmid, check_agrees _ m⟩

omit hsize in
theorem groupAfter_simulates_first :
    let group := groupAfter (embed PowC.lowest) 243 14 1 ⟨zeroLanes 0, zeroLanes 0, 0⟩ 1
    let words := PowC.backend.counterAt (embed PowC.lowest) 1 1
    group.mid = words ∧ (group.nonceProbe ≠ 0 ↔ 0 ≤ PowC.backend.tryBatch words 14) ∧
      (group.nonceProbe ≠ 0 → ∃ lane : Nat, PowC.backend.tryBatch words 14 = lane ∧
        Lowest group.nonceProbe lane) :=
  groupAfter_simulates (Or.inr rfl) PowC.lowest 14 1 ⟨zeroLanes 0, zeroLanes 0, 0⟩ 1 le_rfl

end search

end Dcurl.PowKernel
