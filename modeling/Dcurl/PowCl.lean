import Dcurl.KernelRuns
import Dcurl.KernelTransform
import Dcurl.Drivers

/-! The driver `pow_cl` around the kernels: what it answers when its calls of OpenCL
succeed, and with which launch. -/
namespace Dcurl.PowKernel

open Library Odometer

/-- The fields of `pow_cl_context_t` and of its `cl_context_t` that the driver uses. -/
structure PowClContext where
  inputTrytes : Vector Int8 2673
  outputTrytes : Vector Int8 2673
  mwm : Nat
  numCores : Nat
  numWorkGroup : Nat
  clHashCount : UInt64
  hashCount : UInt64

/-- What the buffers hold before a run, and the four bytes behind `loop_count` on
the stack, which `write_cl_buffer` copies along with it. -/
structure Device (n : Nat) where
  groups : Fin n → Group
  tritHash : Vector Int8 243
  behindLoopCount : Nat

/-- `*loop_count`. Of `*min_weight_magnitude` only the low half counts, since `i` of
`check` is an `int`. -/
def Device.loopCount {n : Nat} (device : Device n) : Nat := 32 + 2 ^ 32 * device.behindLoopCount

structure Calls (n : Nat) where
  writesBuffers : Bool
  runsInit : Bool
  turns : List (Turn n)
  runsFinalize : Bool
  buf : Option (Vector Int8 243)
  readsTritHash : Bool

structure Calls.Succeed {n : Nat} (calls : Calls n) : Prop where
  writesBuffers : calls.writesBuffers = true
  runsInit : calls.runsInit = true
  turns : ∀ turn ∈ calls.turns, turn.Succeeds
  runsFinalize : calls.runsFinalize = true
  buf : calls.buf.isSome = true
  readsTritHash : calls.readsTritHash = true

def readResult {n : Nat} (lSize : Nat) (tritHash : Vector Int8 243) (calls : Calls n)
    (final : Pool n Searcher (Found n)) : Option (Vector Int8 243) :=
  let found := final.shared.found
  if calls.runsFinalize = false then none
  else
    let tritHash := finalizeAll lSize found (fun g => (final.threads g).group) tritHash
    calls.buf.bind fun buf =>
      if 0 < found ∧ calls.readsTritHash = false then none
      else some ((readBack found tritHash).getD buf)

/-- `pwork`: the `hash_count` that it leaves and its result. -/
def pwork (ctx : PowClContext) (device : Device ctx.numCores) (calls : Calls ctx.numCores)
    (state : CurlState) : Option (UInt64 × Option (Vector Int8 243)) :=
  let lSize := localWorkSize ctx.numWorkGroup
  if calls.writesBuffers = false ∨ calls.runsInit = false then some (0, none)
  else
    (searchLoop (searchPass lSize ctx.mwm) device.loopCount calls.turns
      (initGroups state lSize device.groups)).map fun ended =>
        (64 * UInt64.ofNat ctx.numCores * 32,
          ended.bind (readResult lSize device.tritHash calls))

def finishCl (ctx : PowClContext) (txTrit : TrinaryObject) (powResult : Option (Vector Int8 243)) :
    Bool × PowClContext :=
  match powResult with
  | none => (false, ctx)
  | some buf =>
      let data := txTrit.data.take (8019 - 243) ++ buf.toList ++ txTrit.data.drop 8019
      match trytesFromTrits (some { txTrit with data := data }) with
      | none => (false, ctx)
      | some resTryte =>
          (true, { ctx with
            outputTrytes := memcpy ctx.outputTrytes 0 (resTryte.data.take 2673)
            hashCount := ctx.clHashCount })

/-- `pow_cl`; `none` when the turns of `calls` do not take the loop to its end. -/
def powCl (ctx : PowClContext) (device : Device ctx.numCores) (calls : Calls ctx.numCores) :
    Option (Bool × PowClContext) :=
  match initTrytes ctx.inputTrytes.toList with
  | none => some (false, ctx)
  | some txTryte =>
      match tritsFromTrytes (some txTryte) with
      | none => some (false, ctx)
      | some txTrit =>
          match txToCstate txTryte with
          | none => some (false, ctx)
          | some cState =>
              (pwork ctx device calls cState).map fun (hashCount, powResult) =>
                finishCl { ctx with clHashCount := hashCount } txTrit powResult

def PowClContext.Solves (ctx : PowClContext) (output : Vector Int8 2673) : Prop :=
  output.toList.take 2646 = ctx.inputTrytes.toList.take 2646 ∧
    HashEndsInZeros ctx.mwm output.toList

section batch

variable (mid : Spec.State) (m g k : Nat)

def hashWords : Words 64 := (fullRound gate64)^[81] (PowC.backend.counterAt (embed mid) g k)

variable {mid m g k}

theorem holds_hashWords : ∀ lane < 64, (hashWords mid g k).Holds lane
    (Spec.curl (PowC.candidateAt mid g k lane)) := fun lane hlane =>
  holds_fullRound_iterate gate64_lawful hlane (PowC.holds_counterAt g k lane hlane) 81

theorem valid_hashWords : (hashWords mid g k).Valid :=
  Words.valid_of_holds fun lane hlane => ⟨_, holds_hashWords lane hlane⟩

theorem nonceProbe_groupAfter {lSize : Nat} (hsize : lSize = 729 ∨ lSize = 243) (own : Group) :
    (groupAfter (embed mid) lSize m g own (k + 1)).nonceProbe =
      check (hashWords mid g (k + 1)) m := by
  unfold hashWords
  rw [← mid_groupAfter hsize mid m g own]
  unfold groupAfter
  rw [Function.iterate_succ_apply']
  exact (searchPass_eq hsize m _).2

/-- A group hits in the same batches as the thread of `pow_c` with its number. -/
theorem nonceProbe_eq_zero_iff {lSize : Nat} (hsize : lSize = 729 ∨ lSize = 243) (own : Group)
    (hk : 0 < k) :
    (groupAfter (embed mid) lSize m g own k).nonceProbe = 0 ↔
      PowC.backend.tryBatch (PowC.backend.counterAt (embed mid) g k) m < 0 := by
  have hiff := (groupAfter_simulates hsize mid m g own k hk).2.1
  rw [← not_iff_not]
  exact hiff.trans not_lt.symm

theorem check_hashWords_ne_zero {i : Nat} (hhits : PowC.backend.Hits mid m g i) :
    check (hashWords mid g (i + 1)) m ≠ 0 := by
  rw [← nonceProbe_groupAfter (Or.inr rfl) ⟨zeroLanes 0, zeroLanes 0, 0⟩, Ne,
    nonceProbe_eq_zero_iff (Or.inr rfl) _ (Nat.succ_pos i)]
  exact not_lt.mpr hhits.2

theorem getElem_candidateAt_eq (mid : Spec.State) {g k lane : Nat} {p : Fin 729}
    (hp : p.val < 162 ∨ 243 ≤ p.val) : (PowC.candidateAt mid g k lane)[p] = mid[p] := by
  unfold PowC.candidateAt PowC.candidate
  rw [Spec.getElem_overlay_of_outside _ (by simp; omega),
    Spec.getElem_overlay_of_outside _ (by simp [PowC.length_threadDigits]; omega),
    Spec.getElem_overlay_of_outside _ (by simp [PowC.pattern]; omega)]

theorem exists_read {words : Words 64}
    (hwords : ∀ lane < 64, words.Holds lane (PowC.candidateAt mid g k lane))
    (hprobe : check (hashWords mid g k) m ≠ 0) :
    ∃ trits : Spec.State, (∀ j : Fin 729, j.val < 243 →
        trits[j].toInt8 = hashTrit words (check (hashWords mid g k) m) j) ∧
      ∀ p : Fin 729, p.val < 162 ∨ 243 ≤ p.val → trits[p] = mid[p] := by
  have hread : ∀ j : Fin 729, ∃ trit : Trit,
      trit.toInt8 = hashTrit words (check (hashWords mid g k) m) j := by
    intro j
    unfold hashTrit
    split
    · exact ⟨.pos, rfl⟩
    · split
      · exact ⟨.neg, rfl⟩
      · exact ⟨.zero, rfl⟩
  choose trit htrit using hread
  refine ⟨Vector.ofFn fun p => if p.val < 243 then trit p else mid[p], ?_, ?_⟩
  · intro j hj
    simpa [hj] using htrit j
  · intro p hp
    by_cases hlt : p.val < 243
    · have ⟨lane, hlane, hmatches⟩ := (check_ne_zero_iff valid_hashWords).mp hprobe
      have hcase := (map_trit?_eq_hashTrit_iff hwords valid_hashWords hlane hmatches p).mpr
        (Or.inr fun other _ _ => by
          rw [getElem_candidateAt_eq mid hp, getElem_candidateAt_eq mid hp])
      rw [hwords lane hlane p, Option.map_some, Option.some.injEq, ← htrit p,
        getElem_candidateAt_eq mid hp] at hcase
      simpa [hlt] using (Trit.toInt8_injective hcase).symm
    · simp [hlt]

end batch

section answer

variable {mid trits : Spec.State} {m : Nat}

theorem unpackTrytes_answer {data : List Int8} (hvalid : data.all isTryte = true)
    (hlength : data.length = 2673)
    (hmid : memcpy (absorbed data) 0 (unpackTrytes (data.drop 2592)) = embed mid)
    (hagree : ∀ p : Fin 729, p.val < 162 ∨ 243 ≤ p.val → trits[p] = mid[p]) :
    unpackTrytes ((data.drop 2592).take 54 ++ nonceTrytes trits) =
      (embed trits).toList.take 243 := by
  have hpack := packTrits_spec (by simp) (all_isTrit_nonceOf trits)
  have hhead : (unpackTrytes ((data.drop 2592).take 54)).length = 162 := by
    rw [length_unpackTrytes (all_take (all_drop hvalid _) _), List.length_take, List.length_drop]
    omega
  have hlast : (unpackTrytes ((data.drop 2592).take 54 ++ nonceTrytes trits)).length = 243 := by
    rw [unpackTrytes_append, nonceTrytes, hpack.2]
    simp [hhead]
  have hanswer := memcpy_answer hvalid hlength hmid hagree
  apply List.ext_getElem
  · simp [hlast]
  · intro i hi _
    have hlt : i < 729 := by omega
    have hget := congrArg (fun state : CurlState => state[i]) hanswer
    rw [getElem_memcpy, if_pos (Nat.zero_le i), Nat.sub_zero, List.getElem?_eq_getElem hi] at hget
    simpa using hget

theorem finishCl_of_read {ctx : PowClContext}
    (hvalid : ctx.inputTrytes.toList.all isTryte = true)
    (hmid : txToCstate ⟨ctx.inputTrytes.toList, .trytes⟩ = some (embed mid))
    (hagree : ∀ p : Fin 729, p.val < 162 ∨ 243 ≤ p.val → trits[p] = mid[p])
    {buf : Vector Int8 243} (hbuf : ∀ (j : Fin 729) (hj : j.val < 243),
      buf[j.val] = trits[j].toInt8) :
    ∃ ctx', finishCl ctx ⟨unpackTrytes ctx.inputTrytes.toList, .trits⟩ (some buf) = (true, ctx') ∧
      ctx'.outputTrytes.toList = ctx.inputTrytes.toList.take 2646 ++ nonceTrytes trits := by
  have hlength : ctx.inputTrytes.toList.length = 2673 := Vector.length_toList
  generalize ctx.inputTrytes.toList = data at hvalid hmid hlength
  rw [txToCstate_of_valid hvalid hlength, Option.some.injEq] at hmid
  have hpack := packTrits_spec (by simp) (all_isTrit_nonceOf trits)
  have hanswer : (data.take 2646 ++ nonceTrytes trits).all isTryte = true := by
    rw [List.all_append, all_take hvalid, nonceTrytes, hpack.1]
    rfl
  have hlen : (data.take 2646 ++ nonceTrytes trits).length = 2673 := by
    rw [List.length_append, List.length_take, length_nonceTrytes]
    omega
  have hlist : buf.toList = (embed trits).toList.take 243 := by
    apply List.ext_getElem
    · simp
    · intro i hi _
      have hlt : i < 243 := by simpa using hi
      rw [Vector.getElem_toList, hbuf ⟨i, by omega⟩ hlt]
      simp
  have hhead : (unpackTrytes data).take (8019 - 243) = unpackTrytes (data.take 2592) := by
    have hfirst : (unpackTrytes (data.take 2592)).length = 7776 := by
      rw [length_unpackTrytes (all_take hvalid _), List.length_take]
      omega
    conv_lhs => rw [← List.take_append_drop 2592 data, unpackTrytes_append]
    exact List.take_left' hfirst
  have htail : (unpackTrytes data).drop 8019 = [] := by
    apply List.drop_eq_nil_of_le
    rw [length_unpackTrytes hvalid]
    omega
  have hdata : (unpackTrytes data).take (8019 - 243) ++ buf.toList ++
      (unpackTrytes data).drop 8019 = unpackTrytes (data.take 2646 ++ nonceTrytes trits) := by
    rw [hhead, htail, List.append_nil, hlist, ← unpackTrytes_answer hvalid hlength hmid hagree,
      ← unpackTrytes_append, ← List.append_assoc, show 2646 = 2592 + 54 from rfl, List.take_add]
  have hmod : (unpackTrytes (data.take 2646 ++ nonceTrytes trits)).length % 3 = 0 := by
    rw [length_unpackTrytes hanswer]
    omega
  have hconvert : trytesFromTrits
      (some ⟨unpackTrytes (data.take 2646 ++ nonceTrytes trits), .trits⟩) =
      some ⟨data.take 2646 ++ nonceTrytes trits, .trytes⟩ := by
    rw [trytesFromTrits_of_valid hmod (all_isTrit_unpackTrytes hanswer),
      packTrits_unpackTrytes hanswer]
  unfold finishCl
  simp only [hdata, hconvert]
  refine ⟨_, rfl, ?_⟩
  rw [List.take_of_length_le hlen.le]
  exact toList_memcpy_full _ hlen

end answer

section winner

variable {n m lSize loopCount : Nat} {mid : Spec.State} {own : Fin n → Group}
  {final : Pool n Searcher (Found n)}

theorem iterate_initGroups (mid : Spec.State) (own : Fin n → Group) (g : Fin n) (k : Nat) :
    (searchPass lSize m)^[k] (initGroups (embed mid) lSize own g) =
      groupAfter (embed mid) lSize m g (own g) k := rfl

theorem quiet_iff (hsize : lSize = 729 ∨ lSize = 243) (k : Nat) :
    Quiet (searchPass lSize m) (initGroups (embed mid) lSize own) k ↔
      ∀ g : Fin n, PowC.backend.Misses mid m g k := by
  apply forall_congr'
  intro g
  apply forall_congr'
  intro k'
  apply forall_congr'
  intro hpos
  apply forall_congr'
  intro _
  rw [iterate_initGroups]
  exact nonceProbe_eq_zero_iff hsize (own g) hpos

theorem ReadsWinner.found_pos {tritHash : Vector Int8 243} (h : ReadsWinner lSize tritHash final) :
    0 < final.shared.found := by
  have ⟨_, _, _, _, _, hread, _⟩ := h
  by_contra hclear
  rw [readBack, if_neg hclear] at hread
  cases hread

theorem readsWinner_of_searchLoop (hn : n ≤ 127) (hsize : lSize = 729 ∨ lSize = 243)
    {turns : List (Turn n)} {start : Fin n → Group}
    (hloop : searchLoop (searchPass lSize m) loopCount turns start = some (some final))
    (tritHash : Vector Int8 243) : ReadsWinner lSize tritHash final := by
  have ⟨hpos, hdvd⟩ := dvd_of_size hsize
  have ⟨_, _, _, _, _, hlaunch, hfound⟩ := searchLoop_eq_some hn hloop
  have hwriters : final.shared.writers ≠ [] := by
    intro hnone
    have hraced := (raced_of_launch hn hlaunch).found_eq
    rw [hnone] at hraced
    exact hfound hraced
  exact readsWinner_of_le hn hpos hdvd tritHash hlaunch hwriters

/-- The group whose trits the host reads has come to the first batch in which the
thread of `pow_c` with its number hits. -/
theorem exists_winner (hn : n ≤ 127) (hsize : lSize = 729 ∨ lSize = 243)
    {turns : List (Turn n)} (hloop : searchLoop (searchPass lSize m) loopCount turns
      (initGroups (embed mid) lSize own) = some (some final)) :
    ∃ (g : Fin n) (i : Nat), PowC.backend.Hits mid m g i ∧
      ∀ (calls : Calls n) (tritHash : Vector Int8 243),
        (calls.Succeed → (readResult lSize tritHash calls final).isSome = true) ∧
        ∀ buf, readResult lSize tritHash calls final = some buf →
          ∀ (j : Fin 729) (hj : j.val < 243), buf[j.val] =
            hashTrit (PowC.backend.counterAt (embed mid) g (i + 1))
              (check (hashWords mid g (i + 1)) m) j := by
  have ⟨launches, _, hhits, groups, hgroups, hlaunch, _⟩ := searchLoop_eq_some hn hloop
  have hwinner := readsWinner_of_searchLoop hn hsize hloop
  have ⟨_, g, hmem, hname, _⟩ := hwinner (Vector.replicate 243 0)
  have ⟨_, k, hswept⟩ := swept_of_launch hn hlaunch g
  have ⟨hk, hprobe⟩ := hswept.wrote.mp hmem
  have hlast : ∀ k', (searchPass lSize m)^[k'] (groups g) =
      groupAfter (embed mid) lSize m g (own g) (k' + launches * loopCount) := by
    intro k'
    rw [hgroups, ← Function.iterate_add_apply]
    rfl
  obtain ⟨i, hi⟩ := Nat.exists_eq_add_of_le' (show 1 ≤ k + launches * loopCount by omega)
  have hgroup : (final.threads g).group = groupAfter (embed mid) lSize m g (own g) (i + 1) := by
    rw [hswept.group_eq, hlast, hi]
  rw [hlast, hi] at hprobe
  refine ⟨g, i, ⟨?_, ?_⟩, ?_⟩
  · intro k' hpos' hle
    rw [← nonceProbe_eq_zero_iff hsize (own g) hpos']
    by_cases hearly : k' ≤ launches * loopCount
    · exact hhits.1 g k' hpos' hearly
    · have hmissed := hswept.missed (k' - launches * loopCount) (by omega) (by omega)
      rwa [hlast, Nat.sub_add_cancel (by omega)] at hmissed
  · by_contra hmiss
    exact hprobe ((nonceProbe_eq_zero_iff hsize (own g) (Nat.succ_pos i)).mpr (not_le.mp hmiss))
  · intro calls tritHash
    have ⟨_, g', _, hname', buf', hread, hbuf'⟩ := hwinner tritHash
    have hg : g' = g := Fin.ext (by omega)
    subst hg
    have hset := (hwinner tritHash).found_pos
    refine ⟨?_, ?_⟩
    · intro hsucceed
      have ⟨buf, hbuf⟩ := Option.isSome_iff_exists.mp hsucceed.buf
      simp [readResult, hsucceed.runsFinalize, hsucceed.readsTritHash, hbuf]
    · intro buf hresult
      simp only [readResult, hread, Option.getD_some] at hresult
      split at hresult
      · cases hresult
      · have ⟨_, _, hresult⟩ := Option.bind_eq_some_iff.mp hresult
        split at hresult
        · cases hresult
        · cases hresult
          intro j hj
          rw [hbuf' j hj, hgroup, nonceProbe_groupAfter hsize, mid_groupAfter hsize]

end winner

section driver

variable {ctx : PowClContext} {mid : Spec.State}

def PowClContext.StartsAt (ctx : PowClContext) (mid : Spec.State) : Prop :=
  txToCstate ⟨ctx.inputTrytes.toList, .trytes⟩ = some (embed mid)

theorem exists_startsAt (hvalid : ctx.inputTrytes.toList.all isTryte = true) :
    ∃ mid, ctx.StartsAt mid := by
  have ⟨mid, hmid⟩ := isTritState_cState hvalid _ (all_drop hvalid 2592)
  refine ⟨mid, ?_⟩
  unfold PowClContext.StartsAt
  rw [txToCstate_of_valid hvalid (Vector.length_toList), hmid]

theorem powCl_eq (hvalid : ctx.inputTrytes.toList.all isTryte = true) (hmid : ctx.StartsAt mid)
    (device : Device ctx.numCores) (calls : Calls ctx.numCores) :
    powCl ctx device calls = (pwork ctx device calls (embed mid)).map fun result =>
      finishCl { ctx with clHashCount := result.1 }
        ⟨unpackTrytes ctx.inputTrytes.toList, .trits⟩ result.2 := by
  unfold PowClContext.StartsAt at hmid
  unfold powCl
  simp only [initTrytes_of_valid hvalid, tritsFromTrytes_of_valid hvalid, hmid]

end driver

section main

/-- A device on which the kernels keep to their arrays and the groups have names, and
a weight that the hash has room for. -/
structure PowClContext.Supported (ctx : PowClContext) : Prop where
  numCores_le : ctx.numCores ≤ 127
  numWorkGroup_ge : 243 ≤ ctx.numWorkGroup
  mwm_le : ctx.mwm ≤ 243

variable {ctx ctx' : PowClContext} {device : Device ctx.numCores} {calls : Calls ctx.numCores}
  {mid : Spec.State}

def PowClContext.HitsAfter (ctx : PowClContext) (mid : Spec.State) (loopCount launches : Nat) :
    Prop :=
  (∀ g < ctx.numCores, PowC.backend.Misses mid ctx.mwm g (launches * loopCount)) ∧
    ∃ g < ctx.numCores, ¬PowC.backend.Misses mid ctx.mwm g ((launches + 1) * loopCount)

theorem hitsAfter_iff {lSize : Nat} (hsize : lSize = 729 ∨ lSize = 243)
    (own : Fin ctx.numCores → Group) (loopCount launches : Nat) :
    HitsAfter (searchPass lSize ctx.mwm) loopCount (initGroups (embed mid) lSize own) launches ↔
      ctx.HitsAfter mid loopCount launches := by
  unfold HitsAfter PowClContext.HitsAfter
  rw [quiet_iff hsize, quiet_iff hsize, not_forall]
  simp only [Fin.forall_iff, Fin.exists_iff, exists_prop]

theorem powCl_of_searchLoop (hctx : ctx.Supported)
    (hvalid : ctx.inputTrytes.toList.all isTryte = true) (hmid : ctx.StartsAt mid)
    (hsucceed : calls.Succeed) {final : Pool ctx.numCores Searcher (Found ctx.numCores)}
    (hloop : searchLoop (searchPass (localWorkSize ctx.numWorkGroup) ctx.mwm) device.loopCount
      calls.turns (initGroups (embed mid) (localWorkSize ctx.numWorkGroup) device.groups) =
        some (some final)) :
    ∃ ctx', powCl ctx device calls = some (true, ctx') := by
  have hsize := localWorkSize_of_le hctx.numWorkGroup_ge
  have ⟨g, i, hhits, hresult⟩ := exists_winner hctx.numCores_le hsize hloop
  have ⟨buf, hread⟩ := Option.isSome_iff_exists.mp ((hresult calls device.tritHash).1 hsucceed)
  have hbuf := (hresult calls device.tritHash).2 buf hread
  have ⟨trits, htrits, hagree⟩ :=
    exists_read (PowC.holds_counterAt g (i + 1)) (check_hashWords_ne_zero hhits)
  let counted : PowClContext :=
    { ctx with clHashCount := 64 * UInt64.ofNat ctx.numCores * 32 }
  have ⟨answered, hanswered, _⟩ := finishCl_of_read (show counted.inputTrytes.toList.all
    isTryte = true from hvalid) hmid hagree fun j hj => (hbuf j hj).trans (htrits j hj).symm
  have hpwork : pwork ctx device calls (embed mid) =
      some (64 * UInt64.ofNat ctx.numCores * 32, some buf) := by
    unfold pwork
    simp [hsucceed.writesBuffers, hsucceed.runsInit, hloop, hread]
  refine ⟨answered, ?_⟩
  rw [powCl_eq hvalid hmid, hpwork, Option.map_some]
  exact congrArg some hanswered

theorem exists_loop_of_succeed {result : Bool} (hvalid : ctx.inputTrytes.toList.all isTryte = true)
    (hmid : ctx.StartsAt mid) (hsucceed : calls.Succeed)
    (hpow : powCl ctx device calls = some (result, ctx')) :
    ∃ final, searchLoop (searchPass (localWorkSize ctx.numWorkGroup) ctx.mwm) device.loopCount
      calls.turns (initGroups (embed mid) (localWorkSize ctx.numWorkGroup) device.groups) =
        some (some final) := by
  rw [powCl_eq hvalid hmid] at hpow
  have ⟨_, hpwork, _⟩ := Option.map_eq_some_iff.mp hpow
  unfold pwork at hpwork
  simp only [hsucceed.writesBuffers, hsucceed.runsInit, Bool.true_eq_false, or_self, if_false]
    at hpwork
  have ⟨ended, hended, _⟩ := Option.map_eq_some_iff.mp hpwork
  have ⟨final, hfinal⟩ := isSome_of_searchLoop hsucceed.turns hended
  exact ⟨final, hfinal ▸ hended⟩

theorem exists_powCl_from {launches : Nat} (hctx : ctx.Supported)
    (hvalid : ctx.inputTrytes.toList.all isTryte = true) (hmid : ctx.StartsAt mid)
    (hhits : ctx.HitsAfter mid device.loopCount launches) {turns : List (Turn ctx.numCores)}
    {groups : Fin ctx.numCores → Group} {schedule : List (Fin ctx.numCores)}
    {pool : Pool ctx.numCores Searcher (Found ctx.numCores)}
    (hafter : loopAfter (searchPass (localWorkSize ctx.numWorkGroup) ctx.mwm) device.loopCount
      turns (initGroups (embed mid) (localWorkSize ctx.numWorkGroup) device.groups) = some groups)
    (hrun : Machine.run (Pool.step (search (searchPass (localWorkSize ctx.numWorkGroup) ctx.mwm)
      device.loopCount)) (enqueue groups) schedule = some pool) :
    ∃ (rest : List (Fin ctx.numCores)) (more : List (Turn ctx.numCores))
      (calls : Calls ctx.numCores) (ctx' : PowClContext), calls.Succeed ∧
      calls.turns = turns ++ ⟨some (schedule ++ rest), true⟩ :: more ∧
      calls.turns.length = launches + 1 ∧ powCl ctx device calls = some (true, ctx') := by
  have hsize := localWorkSize_of_le hctx.numWorkGroup_ge
  have hcores := hctx.numCores_le
  rw [← hitsAfter_iff hsize device.groups] at hhits
  have ⟨hall, hquiet, hgroups, hloop⟩ := loopAfter_eq_some hcores hafter
  obtain ⟨left, rfl⟩ := Nat.exists_eq_add_of_le (hhits.le_of_quiet hquiet)
  rw [← hitsAfter_add_iff hquiet hgroups] at hhits
  have ⟨rest, more, final, hlength, hmore, hend⟩ := exists_searchLoop hcores hhits hrun
  let calls : Calls ctx.numCores :=
    ⟨true, true, turns ++ ⟨some (schedule ++ rest), true⟩ :: more, true,
      some (Vector.replicate 243 0), true⟩
  have hsucceed : calls.Succeed := by
    refine ⟨rfl, rfl, ?_, rfl, rfl, rfl⟩
    intro turn hturn
    cases List.mem_append.mp hturn with
    | inl hdone => exact hall turn hdone
    | inr hrest =>
        cases List.mem_cons.mp hrest with
        | inl hthis => exact hthis ▸ ⟨rfl, rfl⟩
        | inr hlater => exact hmore turn hlater
  have ⟨ctx', hpow⟩ := powCl_of_searchLoop hctx hvalid hmid hsucceed ((hloop _).trans hend)
  refine ⟨rest, more, calls, ctx', hsucceed, rfl, ?_, hpow⟩
  simp only [calls, List.length_append, List.length_cons, hlength]
  omega

/-- Where the groups come to a hit, `pow_cl` ends with the launch of the first, under
every interleaving, and returns true unless a call fails; from any point of the search
it can be brought to this end. -/
theorem powCl_finds (ctx : PowClContext) (device : Device ctx.numCores) (mid : Spec.State)
    (launches : Nat) (hctx : ctx.Supported) (hvalid : ctx.inputTrytes.toList.all isTryte = true)
    (hmid : ctx.StartsAt mid) (hhits : ctx.HitsAfter mid device.loopCount launches) :
    let pass := searchPass (localWorkSize ctx.numWorkGroup) ctx.mwm
    let start := initGroups (embed mid) (localWorkSize ctx.numWorkGroup) device.groups
    (∀ (calls : Calls ctx.numCores) (result : Bool) (ctx' : PowClContext), calls.Succeed →
      powCl ctx device calls = some (result, ctx') →
        result = true ∧ launches < calls.turns.length) ∧
    ∀ (turns : List (Turn ctx.numCores)) (groups : Fin ctx.numCores → Group)
      (schedule : List (Fin ctx.numCores)) (pool : Pool ctx.numCores Searcher (Found ctx.numCores)),
      loopAfter pass device.loopCount turns start = some groups →
      Machine.run (Pool.step (search pass device.loopCount)) (enqueue groups) schedule =
        some pool →
      schedule.length ≤ ctx.numCores * (2 * device.loopCount + 1) ∧
        ∃ (rest : List (Fin ctx.numCores)) (more : List (Turn ctx.numCores))
          (calls : Calls ctx.numCores) (ctx' : PowClContext), calls.Succeed ∧
          calls.turns = turns ++ ⟨some (schedule ++ rest), true⟩ :: more ∧
          calls.turns.length = launches + 1 ∧ powCl ctx device calls = some (true, ctx') := by
  intro pass start
  have hsize := localWorkSize_of_le hctx.numWorkGroup_ge
  have hcores := hctx.numCores_le
  refine ⟨?_, ?_⟩
  · intro calls result ctx' hsucceed hpow
    have ⟨final, hloop⟩ := exists_loop_of_succeed hvalid hmid hsucceed hpow
    have ⟨other, hlt, hother, _⟩ := searchLoop_eq_some hcores hloop
    have ⟨_, htrue⟩ := powCl_of_searchLoop hctx hvalid hmid hsucceed hloop
    rw [htrue, Option.some.injEq, Prod.mk.injEq] at hpow
    rw [← hitsAfter_iff hsize device.groups] at hhits
    exact ⟨hpow.1.symm, hhits.unique hother ▸ hlt⟩
  · intro turns groups schedule pool hafter hrun
    exact ⟨(launch_ends hcores hrun).1, exists_powCl_from hctx hvalid hmid hhits hafter hrun⟩

end main

section nines

def nines : PowClContext where
  inputTrytes := almostNines
  outputTrytes := Vector.replicate 2673 0
  mwm := 14
  numCores := 2
  numWorkGroup := 256
  clHashCount := 0
  hashCount := 0

def ninesDevice : Device nines.numCores where
  groups _ := ⟨zeroLanes 0, zeroLanes 0, 0⟩
  tritHash := Vector.replicate 243 0
  behindLoopCount := 0

theorem nines_supported : nines.Supported := ⟨by decide, by decide, by decide⟩

theorem nines_valid : nines.inputTrytes.toList.all isTryte = true := almostNines_valid

theorem nines_startsAt : nines.StartsAt PowC.almostZero := txToCstate_almostNines

theorem nines_hitsAfter : nines.HitsAfter PowC.almostZero ninesDevice.loopCount 0 := by
  refine ⟨fun g _ k hpos hk => by omega, 0, by decide, fun hmisses => ?_⟩
  exact absurd (PowC.tryBatch_almostZero 14) (not_le.mpr (hmisses 1 (by decide) (by decide)))

theorem powCl_finds_nines : ∃ (calls : Calls nines.numCores) (ctx' : PowClContext),
    calls.Succeed ∧ calls.turns.length = 1 ∧ powCl nines ninesDevice calls = some (true, ctx') := by
  have hfinds := powCl_finds nines ninesDevice PowC.almostZero 0 nines_supported nines_valid
    nines_startsAt nines_hitsAfter
  have ⟨_, _, _, calls, ctx', hsucceed, _, hlength, hpow⟩ := hfinds.2 [] _ [] _ rfl rfl
  exact ⟨calls, ctx', hsucceed, hlength, hpow⟩

end nines

end Dcurl.PowKernel
