import Dcurl.DriverMemory
import Dcurl.PowCl

/-! What `pow_cl` allocates, and the block that it does not free where the last of its
calls of OpenCL fails. -/
namespace Dcurl.Memory

open Library PowKernel

/-- What the loop of `pwork` leaves when it has ended: the `hash_count`, and the groups,
unless a call has failed. -/
abbrev LoopEnd (n : Nat) : Type := UInt64 × Option (Pool n Searcher (Found n))

/-- The end of `pwork`; `bytes` is what a block of `malloc` holds. The block stays where
the read fails. -/
def readResult {n : Nat} (lSize : Nat) (tritHash : Vector Int8 243) (calls : Calls n)
    (bytes : Vector Int8 243) (final : Option (Pool n Searcher (Found n))) :
    Mem (Option (Nat × Vector Int8 243)) := do
  let some final := final | return none
  let found := final.shared.found
  if calls.runsFinalize = false then return none
  let tritHash := finalizeAll lSize found (fun g => (final.threads g).group) tritHash
  let some buf ← Mem.take | return none
  if 0 < found ∧ calls.readsTritHash = false then return none
  Mem.touch (some buf)
  return some (buf, (readBack found tritHash).getD bytes)

def powClFail (txTrit txTryte resTryte : Option Object) (cState powResult : Option Nat) :
    Mem Unit := do
  freeTrinaryObject txTrit
  freeTrinaryObject txTryte
  freeTrinaryObject resTryte
  Mem.give cState
  Mem.give powResult

def Object.withResult (t : Object) (buf : Vector Int8 243) : Object :=
  let data := t.held.data.take (8019 - 243) ++ buf.toList ++ t.held.data.drop 8019
  { t with held := { t.held with data := data } }

def powCl (ctx : PowClContext) (device : Device ctx.numCores) (calls : Calls ctx.numCores)
    (bytes : Vector Int8 243) (loop : CurlState → LoopEnd ctx.numCores) :
    Mem (Bool × PowClContext) := do
  let some txTryte ← initTrytes (pure ()) ctx.inputTrytes.toList
    | do
      powClFail none none none none none
      return (false, ctx)
  let some txTrit ← tritsFromTrytes (some txTryte)
    | do
      powClFail none (some txTryte) none none none
      return (false, ctx)
  let some (cState, state) ← txToCstate txTryte
    | do
      powClFail (some txTrit) (some txTryte) none none none
      return (false, ctx)
  Mem.touch (some cState)
  let counted := { ctx with clHashCount := (loop state).1 }
  let some (powResult, buf) ←
      readResult (localWorkSize ctx.numWorkGroup) device.tritHash calls bytes (loop state).2
    | do
      powClFail (some txTrit) (some txTryte) none (some cState) none
      return (false, counted)
  touchObject (some txTrit)
  Mem.touch (some powResult)
  let txTrit := txTrit.withResult buf
  let some resTryte ← trytesFromTrits (some txTrit)
    | do
      powClFail (some txTrit) (some txTryte) none (some cState) (some powResult)
      return (false, counted)
  touchObject (some resTryte)
  let answered := { counted with
    outputTrytes := memcpy counted.outputTrytes 0 (resTryte.held.data.take 2673)
    hashCount := counted.clHashCount }
  powClFail (some txTrit) (some txTryte) (some resTryte) (some cState) (some powResult)
  return (true, answered)

section loop

def loopLeaves (ctx : PowClContext) (device : Device ctx.numCores) (calls : Calls ctx.numCores)
    (state : CurlState) : LoopEnd ctx.numCores :=
  let lSize := localWorkSize ctx.numWorkGroup
  if calls.writesBuffers = false ∨ calls.runsInit = false then (0, none)
  else
    (64 * UInt64.ofNat ctx.numCores * 32,
      (searchLoop (searchPass lSize ctx.mwm) device.loopCount calls.turns
        (initGroups state lSize device.groups)).getD none)

/-- What `malloc` gives is in the hands of the heap, what it holds is not. -/
def withBuf {n : Nat} (calls : Calls n) (bytes : Vector Int8 243) : Calls n :=
  { calls with buf := some bytes }

def clOutcome (ctx : PowClContext) (device : Device ctx.numCores) (calls : Calls ctx.numCores)
    (bytes : Vector Int8 243) (loop : CurlState → LoopEnd ctx.numCores) : Bool × PowClContext :=
  match Dcurl.initTrytes ctx.inputTrytes.toList with
  | none => (false, ctx)
  | some txTryte =>
      match Dcurl.tritsFromTrytes (some txTryte) with
      | none => (false, ctx)
      | some txTrit =>
          match Dcurl.txToCstate txTryte with
          | none => (false, ctx)
          | some state =>
              finishCl { ctx with clHashCount := (loop state).1 } txTrit ((loop state).2.bind
                (PowKernel.readResult (localWorkSize ctx.numWorkGroup) device.tritHash
                  (withBuf calls bytes)))

def lastReadFails {n : Nat} (calls : Calls n) (final : Option (Pool n Searcher (Found n))) : Bool :=
  match final with
  | none => false
  | some final => calls.runsFinalize && decide (0 < final.shared.found) && !calls.readsTritHash

def unfreed (ctx : PowClContext) (calls : Calls ctx.numCores)
    (loop : CurlState → LoopEnd ctx.numCores) : Nat :=
  match Dcurl.initTrytes ctx.inputTrytes.toList with
  | none => 0
  | some txTryte =>
      match Dcurl.tritsFromTrytes (some txTryte), Dcurl.txToCstate txTryte with
      | some _, some state => if lastReadFails calls (loop state).2 then 1 else 0
      | _, _ => 0

theorem finishCl_some (ctx : PowClContext) (txTrit : Object) (buf : Vector Int8 243) :
    finishCl ctx txTrit.held (some buf) =
      match Dcurl.trytesFromTrits (some (txTrit.withResult buf).held) with
      | none => (false, ctx)
      | some resTryte =>
          (true, { ctx with
            outputTrytes := memcpy ctx.outputTrytes 0 (resTryte.data.take 2673)
            hashCount := ctx.clHashCount }) := rfl

variable {ctx : PowClContext} {device : Device ctx.numCores} {calls : Calls ctx.numCores}
  {bytes : Vector Int8 243}

theorem eq_loopLeaves_of_pwork {state : CurlState} {result : UInt64 × Option (Vector Int8 243)}
    (hpwork : pwork ctx device (withBuf calls bytes) state = some result) :
    result = ((loopLeaves ctx device calls state).1, (loopLeaves ctx device calls state).2.bind
      (PowKernel.readResult (localWorkSize ctx.numWorkGroup) device.tritHash
        (withBuf calls bytes))) := by
  unfold pwork at hpwork
  unfold loopLeaves
  by_cases hfails : calls.writesBuffers = false ∨ calls.runsInit = false
  · rw [if_pos (show (withBuf calls bytes).writesBuffers = false ∨
      (withBuf calls bytes).runsInit = false from hfails)] at hpwork
    rw [if_pos hfails]
    exact (Option.some.inj hpwork).symm
  · rw [if_neg (show ¬((withBuf calls bytes).writesBuffers = false ∨
      (withBuf calls bytes).runsInit = false) from hfails)] at hpwork
    obtain ⟨ended, hended, heq⟩ := Option.map_eq_some_iff.mp hpwork
    have hloop : searchLoop (searchPass (localWorkSize ctx.numWorkGroup) ctx.mwm) device.loopCount
        calls.turns (initGroups state (localWorkSize ctx.numWorkGroup) device.groups) =
      some ended := hended
    simp only [if_neg hfails, hloop, Option.getD_some]
    exact heq.symm

theorem clOutcome_of_powCl {result : Bool × PowClContext}
    (hpow : PowKernel.powCl ctx device (withBuf calls bytes) = some result) :
    clOutcome ctx device calls bytes (loopLeaves ctx device calls) = result := by
  unfold PowKernel.powCl at hpow
  unfold clOutcome
  cases htryte : Dcurl.initTrytes ctx.inputTrytes.toList with
  | none =>
      rw [htryte] at hpow
      exact Option.some.inj hpow
  | some txTryte =>
      cases htrit : Dcurl.tritsFromTrytes (some txTryte) with
      | none =>
          simp only [htryte, htrit] at hpow
          simp only [htrit]
          exact Option.some.inj hpow
      | some txTrit =>
          cases hstate : Dcurl.txToCstate txTryte with
          | none =>
              simp only [htryte, htrit, hstate] at hpow
              simp only [htrit, hstate]
              exact Option.some.inj hpow
          | some state =>
              simp only [htryte, htrit, hstate] at hpow
              simp only [htrit, hstate]
              obtain ⟨_, hpwork, hfinish⟩ := Option.map_eq_some_iff.mp hpow
              rw [eq_loopLeaves_of_pwork hpwork] at hfinish
              exact hfinish

end loop

section driver

variable {grants : Nat → Bool} {allowed : Prop}

theorem triple_readResult {n : Nat} (lSize : Nat) (tritHash : Vector Int8 243) (calls : Calls n)
    (bytes : Vector Int8 243) (final : Option (Pool n Searcher (Found n))) :
    Mem.Triple grants allowed 0 (readResult lSize tritHash calls bytes final) fun r owned =>
      ∃ left, owned = Mem.block (r.map Prod.fst) + left ∧
        (r.map Prod.snd = final.bind (PowKernel.readResult lSize tritHash (withBuf calls bytes)) ∧
          left.card = (if lastReadFails calls final then 1 else 0) ∨ Mem.Denied grants) := by
  cases final with
  | none => exact .pure ⟨0, rfl, Or.inl ⟨rfl, rfl⟩⟩
  | some final =>
      have hbuf : (withBuf calls bytes).buf = some bytes := rfl
      have hreads : (withBuf calls bytes).readsTritHash = calls.readsTritHash := rfl
      have hruns : (withBuf calls bytes).runsFinalize = calls.runsFinalize := rfl
      simp only [readResult, lastReadFails, Option.bind_some, PowKernel.readResult, hbuf, hreads,
        hruns]
      apply Mem.Triple.ite
      · intro hfinalize
        exact .pure ⟨0, rfl, Or.inl (by simp [hfinalize])⟩
      intro hfinalize
      apply Mem.Triple.take
      · intro hdenied
        exact .pure ⟨0, rfl, Or.inr hdenied⟩
      intro buf
      rw [add_zero]
      apply Mem.Triple.ite
      · rintro ⟨hfound, hread⟩
        exact .pure ⟨{buf}, (zero_add _).symm, Or.inl (by simp [hfinalize, hfound, hread])⟩
      intro hread
      have hreadable : (0 < final.shared.found → calls.readsTritHash = true) := by
        simpa using hread
      apply Mem.Triple.touch (Multiset.mem_singleton_self buf)
      refine .pure ⟨0, (add_zero _).symm, Or.inl ⟨?_, ?_⟩⟩
      · simp [hfinalize, hread]
      · simpa using fun _ hfound => hreadable hfound

theorem triple_powClFail (rest : Multiset Nat) {txTrit txTryte resTryte : Option Object}
    {cState powResult : Option Nat} {α : Type} {a : α} {post : α → Multiset Nat → Prop}
    (hpost : post a rest) :
    Mem.Triple grants allowed
      (blocks txTrit + (blocks txTryte + (blocks resTryte +
        (Mem.block cState + (Mem.block powResult + rest)))))
      (do
        powClFail txTrit txTryte resTryte cState powResult
        return a) post := by
  have hfree : Mem.Triple grants allowed
      (blocks txTrit + (blocks txTryte + (blocks resTryte +
        (Mem.block cState + (Mem.block powResult + rest)))))
      (powClFail txTrit txTryte resTryte cState powResult) fun _ owned => owned = rest := by
    apply (triple_freeTrinaryObject txTrit).release rfl
    intro _
    apply (triple_freeTrinaryObject txTryte).release rfl
    intro _
    apply (triple_freeTrinaryObject resTryte).release rfl
    intro _
    apply Mem.Triple.give rfl
    apply ((Mem.triple_give powResult).frame rest).mono id
    rintro _ _ ⟨_, rfl, rfl⟩
    exact zero_add rest
  apply hfree.bind
  rintro _ _ rfl
  exact .pure hpost

variable {ctx : PowClContext} {device : Device ctx.numCores} {calls : Calls ctx.numCores}
  {bytes : Vector Int8 243} {loop : CurlState → LoopEnd ctx.numCores}

theorem triple_powCl :
    Mem.Triple grants (Mem.Denied grants) 0 (powCl ctx device calls bytes loop)
      fun result owned => result = clOutcome ctx device calls bytes loop ∧
        owned.card = unfreed ctx calls loop ∨ Mem.Denied grants := by
  apply (triple_initTrytes_local ctx.inputTrytes.toList).bind
  rintro (_ | txTryte) _ ⟨rfl, htryte⟩
  · refine .of_eq ?_ (triple_powClFail 0 (htryte.imp_left fun heq => ?_))
    · simp [blocks, Mem.block]
    have hnone : Dcurl.initTrytes ctx.inputTrytes.toList = none := heq.symm
    simp [clOutcome, unfreed, hnone]
  apply (triple_tritsFromTrytes (some txTryte)).bind
  rintro (_ | txTrit) _ ⟨_, ⟨rfl, htrit⟩, rfl⟩
  · refine .of_eq ?_ (triple_powClFail 0 (htryte.elim (fun htryte =>
      htrit.imp_left fun heq => ?_) Or.inr))
    · simp [blocks, Mem.block]
    have hinit : Dcurl.initTrytes ctx.inputTrytes.toList = some txTryte.held := htryte.symm
    have hnone : Dcurl.tritsFromTrytes (some txTryte.held) = none := heq.symm
    simp [clOutcome, unfreed, hinit, hnone]
  apply (triple_txToCstate txTryte).step (blocks (some txTrit)) (add_comm _ _)
  rintro (_ | ⟨cState, state⟩) _ ⟨_, ⟨rfl, hstate⟩, rfl⟩
  · refine .of_eq ?_ (triple_powClFail 0 (htryte.elim (fun htryte =>
      htrit.elim (fun htrit => hstate.imp_left fun heq => ?_) Or.inr) Or.inr))
    · simp only [blocks, Mem.block, Option.map_none]
      abel
    have hinit : Dcurl.initTrytes ctx.inputTrytes.toList = some txTryte.held := htryte.symm
    have hsome : Dcurl.tritsFromTrytes (some txTryte.held) = some txTrit.held := htrit.symm
    have hnone : Dcurl.txToCstate txTryte.held = none := heq.symm
    simp [clOutcome, unfreed, hinit, hsome, hnone]
  apply Mem.Triple.touch (by simp [Mem.block])
  have hloop : (clOutcome ctx device calls bytes loop =
      finishCl { ctx with clHashCount := (loop state).1 } txTrit.held ((loop state).2.bind
        (PowKernel.readResult (localWorkSize ctx.numWorkGroup) device.tritHash
          (withBuf calls bytes))) ∧
      unfreed ctx calls loop = if lastReadFails calls (loop state).2 then 1 else 0) ∨
      Mem.Denied grants := by
    refine htryte.elim (fun htryte => htrit.elim (fun htrit => hstate.imp_left fun hstate => ?_)
      Or.inr) Or.inr
    have hinit : Dcurl.initTrytes ctx.inputTrytes.toList = some txTryte.held := htryte.symm
    have hsome : Dcurl.tritsFromTrytes (some txTryte.held) = some txTrit.held := htrit.symm
    have hcState : Dcurl.txToCstate txTryte.held = some state := hstate.symm
    simp [clOutcome, unfreed, hinit, hsome, hcState]
  apply (triple_readResult (localWorkSize ctx.numWorkGroup) device.tritHash calls bytes
    (loop state).2).step _ (zero_add _).symm
  rintro (_ | ⟨powResult, buf⟩) _ ⟨left, rfl, hresult⟩
  · refine .of_eq ?_ (triple_powClFail left (hloop.elim (fun hloop =>
      hresult.imp_left fun hresult => ?_) Or.inr))
    · simp only [blocks, Mem.block, Option.map_none, Option.map_some]
      abel
    rw [hloop.1, hloop.2, hresult.2, ← hresult.1]
    exact ⟨rfl, rfl⟩
  have hanswer : (clOutcome ctx device calls bytes loop =
      finishCl { ctx with clHashCount := (loop state).1 } txTrit.held (some buf) ∧
      unfreed ctx calls loop = left.card) ∨ Mem.Denied grants := by
    refine hloop.elim (fun hloop => hresult.imp_left fun hresult => ?_) Or.inr
    rw [hloop.1, hloop.2, hresult.2, ← hresult.1]
    exact ⟨rfl, rfl⟩
  apply touchObject_bind (by
    simp only [blocks]
    exact (Multiset.le_add_left _ _).trans (Multiset.le_add_left _ _))
  apply Mem.Triple.touch (by simp [Mem.block])
  apply (triple_trytesFromTrits (some (txTrit.withResult buf))).step
    (blocks (some txTryte) + (Mem.block (some cState) + (Mem.block (some powResult) + left))) (by
      simp only [blocks, Mem.block, Option.map_some, Object.withResult]
      abel)
  rintro (_ | resTryte) _ ⟨_, ⟨rfl, hpack⟩, rfl⟩
  · refine .of_eq ?_ (triple_powClFail left (hanswer.elim (fun hanswer =>
      hpack.imp_left fun hnone => ?_) Or.inr))
    · simp only [blocks, Mem.block, Object.withResult]
      abel
    have hnone : Dcurl.trytesFromTrits (some (txTrit.withResult buf).held) = none := hnone.symm
    rw [hanswer.1, hanswer.2, finishCl_some, hnone]
    exact ⟨rfl, rfl⟩
  apply touchObject_bind ((Multiset.le_add_right _ _).trans (Multiset.le_add_right _ _))
  refine .of_eq ?_ (triple_powClFail left (hanswer.elim (fun hanswer =>
    hpack.imp_left fun hsome => ?_) Or.inr))
  · simp only [blocks, Mem.block, Object.withResult]
    abel
  have hsome : Dcurl.trytesFromTrits (some (txTrit.withResult buf).held) = some resTryte.held :=
    hsome.symm
  rw [hanswer.1, hanswer.2, finishCl_some, hsome]
  exact ⟨rfl, rfl⟩

end driver

section leaks

structure ClCall where
  ctx : PowClContext
  device : Device ctx.numCores
  calls : Calls ctx.numCores
  bytes : Vector Int8 243

def ClCall.run (call : ClCall) : Mem (Bool × PowClContext) :=
  powCl call.ctx call.device call.calls call.bytes (loopLeaves call.ctx call.device call.calls)

def ClCall.Returns (call : ClCall) (result : Bool × PowClContext) : Prop :=
  PowKernel.powCl call.ctx call.device (withBuf call.calls call.bytes) = some result

def ClCall.unfreed (call : ClCall) : Nat :=
  Memory.unfreed call.ctx call.calls (loopLeaves call.ctx call.device call.calls)

/-- Calls one after another that all come to an end. Where `malloc` never fails, each frees
all of its blocks but one of those whose last read fails. -/
theorem powCl_leaks (grants : Nat → Bool) (hgrants : ∀ p, grants p = true) (calls : List ClCall)
    (results : List (Bool × PowClContext)) (hresults : List.Forall₂ ClCall.Returns calls results)
    (heap : Heap) :
    ∃ heap', (calls.mapM' ClCall.run).run grants heap = some (results, heap') ∧
      heap.live ⊆ heap'.live ∧
      heap'.live.card = heap.live.card + (calls.map ClCall.unfreed).sum := by
  have hgranted : ¬Mem.Denied grants := by simp [Mem.Denied, hgrants]
  let outcome := fun call : ClCall => clOutcome call.ctx call.device call.calls call.bytes
    (loopLeaves call.ctx call.device call.calls)
  have hcall : ∀ call : ClCall, Mem.Triple grants (Mem.Denied grants) 0 call.run
      fun result owned => result = outcome call ∧ owned.card = call.unfreed ∨ Mem.Denied grants :=
    fun call => triple_powCl
  have heq : calls.map outcome = results := by
    induction hresults with
    | nil => rfl
    | cons hreturns _ ih => rw [List.map_cons, ih, ← clOutcome_of_powCl hreturns]
  obtain ⟨_, hdenied⟩ | ⟨returned, heap', owned, hrun, howned, hsubset, hcard⟩ :=
    (Mem.Triple.mapM hcall calls).grows heap
  · exact absurd hdenied hgranted
  · obtain ⟨rfl, hsum⟩ := howned.resolve_right hgranted
    exact ⟨heap', heq ▸ hrun, hsubset, hsum ▸ hcard⟩

variable {ctx : PowClContext} {device : Device ctx.numCores} {calls : Calls ctx.numCores}
  {mid : Spec.State} {final : Pool ctx.numCores Searcher (Found ctx.numCores)}

theorem unfreed_of_searchLoop (hctx : ctx.Supported)
    (hvalid : ctx.inputTrytes.toList.all isTryte = true) (hmid : ctx.StartsAt mid)
    (hwrites : calls.writesBuffers = true) (hinit : calls.runsInit = true)
    (hloop : searchLoop (searchPass (localWorkSize ctx.numWorkGroup) ctx.mwm) device.loopCount
      calls.turns (initGroups (embed mid) (localWorkSize ctx.numWorkGroup) device.groups) =
        some (some final)) :
    unfreed ctx calls (loopLeaves ctx device calls) =
      if calls.runsFinalize && !calls.readsTritHash then 1 else 0 := by
  unfold PowClContext.StartsAt at hmid
  have hfound := (readsWinner_of_searchLoop hctx.numCores_le
    (localWorkSize_of_le hctx.numWorkGroup_ge) hloop device.tritHash).found_pos
  simp only [unfreed, initTrytes_of_valid hvalid, tritsFromTrytes_of_valid hvalid, hmid, loopLeaves,
    hwrites, hinit, Bool.true_eq_false, or_self, if_false, hloop, Option.getD_some, lastReadFails,
    hfound, decide_true, Bool.and_true]

/-- Two calls of which the second fails at its last read. -/
theorem powCl_leaks_nines : ∃ (calls : PowKernel.Calls PowKernel.nines.numCores)
    (bytes : Vector Int8 243) (results : List (Bool × PowClContext)) (heap' : Heap),
    (List.mapM' ClCall.run [⟨PowKernel.nines, ninesDevice, calls, bytes⟩,
      ⟨PowKernel.nines, ninesDevice, { calls with readsTritHash := false }, bytes⟩]).run
        (fun _ => true) ⟨∅, 0, by simp⟩ = some (results, heap') ∧ heap'.live.card = 1 := by
  have hmid := nines_startsAt
  obtain ⟨_, _, calls, ctx', hsucceed, _, _, hpow⟩ := exists_powCl_from
    nines_supported PowKernel.nines_valid hmid nines_hitsAfter
    (show loopAfter _ _ [] _ = _ from rfl) (show Machine.run _ _ [] = _ from rfl)
  obtain ⟨bytes, hbytes⟩ := Option.isSome_iff_exists.mp hsucceed.buf
  obtain ⟨final, hloop⟩ := exists_loop_of_succeed PowKernel.nines_valid hmid hsucceed hpow
  have hcalls : withBuf calls bytes = calls := by
    unfold withBuf
    rw [← hbytes]
  have hreturns : ClCall.Returns ⟨PowKernel.nines, ninesDevice, calls, bytes⟩ (true, ctx') := by
    unfold ClCall.Returns
    rw [hcalls]
    exact hpow
  have hfails : ∃ result, ClCall.Returns
      ⟨PowKernel.nines, ninesDevice, { calls with readsTritHash := false }, bytes⟩ result := by
    unfold ClCall.Returns
    rw [powCl_eq PowKernel.nines_valid hmid]
    simp [pwork, withBuf, hsucceed.writesBuffers, hsucceed.runsInit, hloop]
  obtain ⟨result, hfails⟩ := hfails
  obtain ⟨heap', hrun, _, hcard⟩ := powCl_leaks (fun _ => true) (fun _ => rfl) _ _
    (.cons hreturns (.cons hfails .nil)) ⟨∅, 0, by simp⟩
  refine ⟨calls, bytes, _, heap', hrun, ?_⟩
  let failing : PowKernel.Calls PowKernel.nines.numCores := { calls with readsTritHash := false }
  have hfreed : unfreed PowKernel.nines calls (loopLeaves PowKernel.nines ninesDevice calls) =
      0 := by
    rw [unfreed_of_searchLoop nines_supported PowKernel.nines_valid hmid
      hsucceed.writesBuffers hsucceed.runsInit hloop, hsucceed.readsTritHash]
    simp
  have hleft : unfreed PowKernel.nines failing (loopLeaves PowKernel.nines ninesDevice failing) =
      1 := by
    rw [unfreed_of_searchLoop nines_supported PowKernel.nines_valid hmid
      (show failing.writesBuffers = true from hsucceed.writesBuffers) hsucceed.runsInit hloop]
    simp [failing, hsucceed.runsFinalize]
  rw [hcard, List.map_cons, List.map_cons, ClCall.unfreed, ClCall.unfreed, hfreed, hleft]
  rfl

end leaks

end Dcurl.Memory
