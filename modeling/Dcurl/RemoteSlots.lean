import Dcurl.DcurlEntry
import Dcurl.RemoteInterface

/-! The remote branch of `dcurl_entry`, one step at a time. Its table of contexts is an
array of booleans where that of the local implementations is a bitmap, and every step on
the one refines the step on the other. -/
namespace Dcurl

open Library

variable {Queue : Type}

def takeRemoteSlot (remote : RemoteImplContext) : Option (Nat × RemoteImplContext) :=
  ((List.range remote.numMaxThread.toNat).find? fun i => !remote.slots i).map fun i =>
    (i, { remote with slots := Function.update remote.slots i true })

def fillRemoteContext (request : Request) (i : Nat) (remote : RemoteImplContext) :
    RemoteImplContext :=
  remote.putContext i { remote.context i with
    inputTrytes := request.trytes
    mwm := request.mwm
    indexOfContext := i }

theorem getRemoteContext_eq (request : Request) (remote : RemoteImplContext) :
    getRemoteContext request remote = (takeRemoteSlot remote).map fun (i, remote) =>
      (i, fillRemoteContext request i remote) := by
  unfold getRemoteContext takeRemoteSlot fillRemoteContext
  rw [Option.map_map]
  rfl

def remoteWorkStep (attempt : Attempt Queue) (request : Request) (work : Work)
    (remote : RemoteImplContext) : Option (Work × RemoteImplContext) :=
  match work with
  | .admitted =>
      match takeRemoteSlot remote with
      | none => some (.noContext, remote)
      | some (i, remote) => some (.filling i, remote)
  | .noContext => none
  | .filling i => some (.holding i, fillRemoteContext request i remote)
  | .holding i =>
      let (done, ctx) := remoteDoPow attempt (remote.context i)
      some (if done then .computed i else .answered i none, remote.putContext i ctx)
  | .computed i => some (.answered i (some (remote.context i).outputTrytes), remote)
  | .answered i res => some (.freed res, freeRemoteContext remote i)
  | .freed res => some (.exited res, exitRemoteContext remote)
  | .exited _ => none

/-- The remote interface as an implementation: what it does where the local ones search. -/
def remoteFunctions : PowFunctions PowRemoteContext (Attempt Queue) where
  checks numMaxThread _ := !(numMaxThread ≤ 0)
  setUp _ ctx := ctx
  fill request ctx := { ctx with inputTrytes := request.trytes, mwm := request.mwm }
  doThePow attempt ctx := some (remoteDoPow attempt ctx)
  getPowResult ctx := ctx.outputTrytes

namespace RemoteImplContext

/-- The implementation that the array of slots stands for. -/
structure Refines (remote : RemoteImplContext) (impl : ImplContext PowRemoteContext) : Prop where
  numMaxThread_eq : impl.numMaxThread = remote.numMaxThread
  numWorkingThread_eq : impl.numWorkingThread = remote.numWorkingThread
  slots : ∀ i < remote.numMaxThread.toNat, impl.free i = !remote.slots i
  context : ∀ i, remote.context i =
    { (impl.context i).ctx with indexOfContext := (impl.context i).indexOfContext }

variable {remote remote' : RemoteImplContext} {impl : ImplContext PowRemoteContext}
  {attempt : Attempt Queue} {request : Request} {work work' : Work}

theorem getLsbD_orBit (bitmap : BitVec 32) (index : Nat) {j : Nat} (hj : j < 32) :
    (bitmap ||| bit index).getLsbD j = Function.update bitmap.getLsbD index true j := by
  by_cases hindex : index < 32
  · exact getLsbD_setBit bitmap hindex j
  · have hne : j ≠ index := by omega
    have hzero : bit index = 0#32 := by
      unfold bit
      rw [BitVec.shiftLeft_eq_zero (by omega)]
    simp [hzero, hne]

theorem takeBit_eq_find? {bitmap : BitVec 32} {indices : List Nat} (p : Nat → Bool)
    (h : ∀ j ∈ indices, j < 32 ∧ bitmap.getLsbD j = p j) :
    takeBit bitmap indices = (indices.find? p).map fun i => (i, bitmap &&& ~~~bit i) := by
  induction indices with
  | nil => rfl
  | cons i rest ih =>
      have ⟨hlt, hp⟩ := h i List.mem_cons_self
      have hi := and_bit_ne_zero_iff bitmap hlt
      rw [takeBit, List.find?_cons]
      cases hbit : p i with
      | true => rw [if_pos (hi.mpr (hp.trans hbit))]; rfl
      | false =>
          rw [if_neg fun hne => Bool.false_ne_true (hbit.symm.trans (hp.symm.trans (hi.mp hne)))]
          exact ih fun j hj => h j (List.mem_cons_of_mem _ hj)

theorem Refines.take (h : remote.Refines impl) (hfits : remote.numMaxThread ≤ 31) :
    (takeRemoteSlot remote = none ∧ getPowContext impl = none) ∨
      ∃ i remote' impl', takeRemoteSlot remote = some (i, remote') ∧
        getPowContext impl = some (i, impl') ∧ remote'.Refines impl' := by
  have hlt : ∀ j < remote.numMaxThread.toNat, j < 32 := fun j hj => by omega
  unfold takeRemoteSlot getPowContext
  rw [h.numMaxThread_eq, takeBit_eq_find? (fun i => !remote.slots i)
    fun j hj => ⟨hlt j (List.mem_range.mp hj), h.slots j (List.mem_range.mp hj)⟩]
  cases hfound : (List.range remote.numMaxThread.toNat).find? fun i => !remote.slots i with
  | none => exact Or.inl ⟨rfl, rfl⟩
  | some i =>
      have hi := hlt i (List.mem_range.mp (List.mem_of_find?_eq_some hfound))
      refine Or.inr ⟨i, _, _, rfl, rfl, rfl, h.numWorkingThread_eq, fun j hj => ?_, h.context⟩
      have hslot : impl.bitmap.getLsbD j = !remote.slots j := h.slots j hj
      unfold ImplContext.free
      rw [getLsbD_clearBit _ hi (hlt j hj)]
      by_cases hji : j = i
      · simp [hji]
      · simpa [hji] using hslot

theorem Refines.putSlot (h : remote.Refines impl) (i : Nat) {ctx : PowRemoteContext}
    {slot : Slot PowRemoteContext}
    (hctx : ctx = { slot.ctx with indexOfContext := slot.indexOfContext }) :
    (remote.putContext i ctx).Refines (impl.putSlot i slot) := by
  refine ⟨h.numMaxThread_eq, h.numWorkingThread_eq, h.slots, fun j => ?_⟩
  by_cases hji : j = i
  · subst hji
    simpa [putContext, ImplContext.putSlot] using hctx
  · simpa [putContext, ImplContext.putSlot, hji] using h.context j

theorem remoteDoPow_indexOfContext (attempt : Attempt Queue) (ctx : PowRemoteContext) (i : Nat) :
    remoteDoPow attempt { ctx with indexOfContext := i } =
      ((remoteDoPow attempt ctx).1, { (remoteDoPow attempt ctx).2 with indexOfContext := i }) := by
  unfold remoteDoPow
  cases attempt.declareCallbackQueue with
  | none => rfl
  | some replyToQueue =>
      simp only
      split
      · cases attempt.waitResponse replyToQueue <;> rfl
      · rfl

theorem Refines.free (h : remote.Refines impl) (hfits : remote.numMaxThread ≤ 31) (i : Nat) :
    (freeRemoteContext remote i).Refines (freePowContext impl i) := by
  refine ⟨h.numMaxThread_eq, h.numWorkingThread_eq, fun j hj => ?_, h.context⟩
  have hslot : impl.bitmap.getLsbD j = !remote.slots j := h.slots j hj
  have hlt : j < remote.numMaxThread.toNat := hj
  have hindex : (remote.context i).indexOfContext = (impl.context i).indexOfContext := by
    rw [h.context i]
  unfold ImplContext.free freePowContext freeRemoteContext
  rw [getLsbD_orBit _ _ (by omega), hindex]
  by_cases hne : j = (impl.context i).indexOfContext
  · simp [hne]
  · simpa [hne] using hslot

theorem Refines.workStep (h : remote.Refines impl) (hfits : remote.numMaxThread ≤ 31)
    (hstep : remoteWorkStep attempt request work remote = some (work', remote')) :
    ∃ impl', Dcurl.workStep remoteFunctions attempt request work impl = some (work', impl') ∧
      remote'.Refines impl' := by
  cases work with
  | admitted =>
      cases h.take hfits with
      | inl hnone =>
          simp only [remoteWorkStep, hnone.1] at hstep
          cases hstep
          exact ⟨impl, by simp only [Dcurl.workStep, hnone.2], h⟩
      | inr hsome =>
          obtain ⟨i, remote', impl', htake, hget, hrefines⟩ := hsome
          simp only [remoteWorkStep, htake] at hstep
          cases hstep
          exact ⟨impl', by simp only [Dcurl.workStep, hget], hrefines⟩
  | noContext => cases hstep
  | filling i =>
      cases hstep
      refine ⟨_, rfl, h.putSlot i ?_⟩
      rw [h.context i]
      rfl
  | holding i =>
      have hpow := remoteDoPow_indexOfContext attempt (impl.context i).ctx
        (impl.context i).indexOfContext
      rw [← h.context i] at hpow
      simp only [remoteWorkStep, hpow] at hstep
      cases hstep
      exact ⟨_, rfl, h.putSlot i rfl⟩
  | computed i =>
      cases hstep
      refine ⟨impl, ?_, h⟩
      rw [h.context i]
      rfl
  | answered i res =>
      cases hstep
      exact ⟨_, rfl, h.free hfits i⟩
  | freed res =>
      cases hstep
      refine ⟨_, rfl, h.numMaxThread_eq, ?_, h.slots, h.context⟩
      simp [exitImplContext, exitRemoteContext, h.numWorkingThread_eq]
  | exited res => cases hstep

theorem Refines.enter_eq_none (h : remote.Refines impl)
    (henter : enterRemoteContext remote = none) :
    enterImplContext impl = none := by
  unfold enterRemoteContext at henter
  unfold enterImplContext
  rw [h.numWorkingThread_eq, h.numMaxThread_eq]
  split at henter <;> simp_all

theorem Refines.enter_eq_some (h : remote.Refines impl)
    (henter : enterRemoteContext remote = some remote') :
    ∃ impl', enterImplContext impl = some impl' ∧ remote'.Refines impl' := by
  unfold enterRemoteContext at henter
  split at henter
  · cases henter
  · rename_i hroom
    cases henter
    refine ⟨{ impl with numWorkingThread := impl.numWorkingThread + 1 }, ?_, h.numMaxThread_eq, ?_,
      h.slots, h.context⟩
    · unfold enterImplContext
      rw [h.numWorkingThread_eq, h.numMaxThread_eq, if_neg hroom]
    · simp [h.numWorkingThread_eq]

end RemoteImplContext

/-- What the remote interface answers is what some attempt on the call's own request got. -/
theorem exists_attempt_of_answers {request : Request} {res : Option (Vector Int8 2673)}
    (h : Answers (remoteFunctions : PowFunctions PowRemoteContext (Attempt Queue)) request res) :
    ∃ attempt : Attempt Queue, attempt.answer request = res := by
  have hpow : ∀ (attempt : Attempt Queue) (ctx : PowRemoteContext) result ctx',
      remoteDoPow attempt { ctx with inputTrytes := request.trytes, mwm := request.mwm } =
        (result, ctx') →
      attempt.answer request = if result then some ctx'.outputTrytes else none := by
    intro attempt ctx result ctx' hresult
    have heq : remoteDoPow attempt { ctx with inputTrytes := request.trytes, mwm := request.mwm } =
      _ := remoteDoPow_eq request rfl rfl
    rw [heq] at hresult
    cases hanswer : attempt.answer request <;> rw [hanswer] at hresult <;> cases hresult <;> rfl
  cases res with
  | none =>
      have ⟨attempt, ctx, ctx', h⟩ := h
      exact ⟨attempt, hpow attempt ctx false ctx' (Option.some.inj h)⟩
  | some res =>
      have ⟨attempt, ctx, ctx', h, hres⟩ := h
      exact ⟨attempt, hres ▸ hpow attempt ctx true ctx' (Option.some.inj h)⟩

end Dcurl
