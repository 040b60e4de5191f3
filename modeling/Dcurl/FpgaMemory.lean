import Dcurl.PowFpga
import Dcurl.TrinaryMemory

/-! What `pow_fpga.c` allocates, opens and maps, and that it gives it back. A descriptor and
a mapping are blocks like those of `malloc`: a call that fails is a request that is denied. -/
namespace Dcurl.Memory

open Library

structure FpgaContext where
  self : Nat
  ctrlFd : Nat
  inFd : Nat
  outFd : Nat
  devMemFd : Nat
  fpgaRegsMap : Nat

def FpgaContext.blocks (ctx : FpgaContext) : Multiset Nat :=
  {ctx.fpgaRegsMap} + ({ctx.devMemFd} + ({ctx.outFd} + ({ctx.inFd} + ({ctx.ctrlFd} + {ctx.self}))))

section labels

def failToOpenCtrl (ctx : Nat) : Mem (Option FpgaContext) := do
  Mem.give (some ctx)
  return none

def failToOpenIdata (ctx ctrlFd : Nat) : Mem (Option FpgaContext) := do
  Mem.give (some ctrlFd)
  failToOpenCtrl ctx

def failToOpenOdata (ctx ctrlFd inFd : Nat) : Mem (Option FpgaContext) := do
  Mem.give (some inFd)
  failToOpenIdata ctx ctrlFd

def failToOpenMem (ctx ctrlFd inFd outFd : Nat) : Mem (Option FpgaContext) := do
  Mem.give (some outFd)
  failToOpenOdata ctx ctrlFd inFd

def failToMmap (ctx ctrlFd inFd outFd devMemFd : Nat) : Mem (Option FpgaContext) := do
  Mem.give (some devMemFd)
  failToOpenMem ctx ctrlFd inFd outFd

end labels

def powFpgaContextInitialize : Mem (Option FpgaContext) := do
  let some ctx ← Mem.take | return none
  let some ctrlFd ← Mem.take | failToOpenCtrl ctx
  let some inFd ← Mem.take | failToOpenIdata ctx ctrlFd
  let some outFd ← Mem.take | failToOpenOdata ctx ctrlFd inFd
  let some devMemFd ← Mem.take | failToOpenMem ctx ctrlFd inFd outFd
  let some fpgaRegsMap ← Mem.take | failToMmap ctx ctrlFd inFd outFd devMemFd
  return some ⟨ctx, ctrlFd, inFd, outFd, devMemFd, fpgaRegsMap⟩

def powFpgaContextDestroy (ctx : FpgaContext) : Mem Unit := do
  Mem.give (some ctx.inFd)
  Mem.give (some ctx.outFd)
  Mem.give (some ctx.ctrlFd)
  Mem.give (some ctx.fpgaRegsMap)
  Mem.give (some ctx.devMemFd)
  Mem.give (some ctx.self)

section context

variable {grants : Nat → Bool} {allowed : Prop} {rest : Multiset Nat}

/-- All that a context holds or, where a request was denied, nothing. -/
structure AllOrNothing (grants : Nat → Bool) (ctx : Option FpgaContext) (owned : Multiset Nat) :
    Prop where
  owned_eq : owned = (ctx.map FpgaContext.blocks).getD 0
  denied : ctx = none → Mem.Denied grants

theorem triple_failToOpenCtrl (ctx : Nat) (hdenied : Mem.Denied grants) :
    Mem.Triple grants allowed {ctx} (failToOpenCtrl ctx) (AllOrNothing grants) :=
  .give (add_zero _).symm (.pure ⟨rfl, fun _ => hdenied⟩)

theorem triple_label {fd : Nat} {label : Mem (Option FpgaContext)}
    (hlabel : Mem.Triple grants allowed rest label (AllOrNothing grants)) :
    Mem.Triple grants allowed ({fd} + rest)
      (do
        Mem.give (some fd)
        label) (AllOrNothing grants) :=
  .give rfl hlabel

theorem triple_powFpgaContextInitialize :
    Mem.Triple grants allowed 0 powFpgaContextInitialize (AllOrNothing grants) := by
  apply Mem.Triple.take
  · intro hdenied
    exact .pure ⟨rfl, fun _ => hdenied⟩
  intro ctx
  rw [add_zero]
  apply Mem.Triple.take
  · intro hdenied
    exact triple_failToOpenCtrl ctx hdenied
  intro ctrlFd
  apply Mem.Triple.take
  · intro hdenied
    exact triple_label (triple_failToOpenCtrl ctx hdenied)
  intro inFd
  apply Mem.Triple.take
  · intro hdenied
    exact triple_label (triple_label (triple_failToOpenCtrl ctx hdenied))
  intro outFd
  apply Mem.Triple.take
  · intro hdenied
    exact triple_label (triple_label (triple_label (triple_failToOpenCtrl ctx hdenied)))
  intro devMemFd
  apply Mem.Triple.take
  · intro hdenied
    exact triple_label (triple_label (triple_label (triple_label
      (triple_failToOpenCtrl ctx hdenied))))
  intro fpgaRegsMap
  exact .pure ⟨rfl, by simp⟩

theorem triple_powFpgaContextDestroy (ctx : FpgaContext) :
    Mem.Triple grants allowed ctx.blocks (powFpgaContextDestroy ctx) fun _ owned => owned = 0 := by
  obtain ⟨self, ctrlFd, inFd, outFd, devMemFd, fpgaRegsMap⟩ := ctx
  apply Mem.Triple.of_eq (show _ = ({inFd} + ({outFd} + ({ctrlFd} + ({fpgaRegsMap} +
    ({devMemFd} + {self})))) : Multiset Nat) by
      simp only [FpgaContext.blocks]
      abel)
  refine .give (p := some inFd) rfl ?_
  refine .give (p := some outFd) rfl ?_
  refine .give (p := some ctrlFd) rfl ?_
  refine .give (p := some fpgaRegsMap) rfl ?_
  refine .give (p := some devMemFd) rfl ?_
  exact Mem.triple_give (some self)

/-- However its calls end, `pow_fpga_context_initialize` holds six resources or none, and
`pow_fpga_context_destroy` gives all of them back. -/
theorem powFpgaContext_balanced (grants : Nat → Bool) (heap : Heap) :
    ∃ ctx heap', powFpgaContextInitialize.run grants heap = some (ctx, heap') ∧
      (ctx = none → heap'.live = heap.live ∧ Mem.Denied grants) ∧
      ∀ held, ctx = some held → heap.live ⊆ heap'.live ∧
        heap'.live.card = heap.live.card + 6 ∧
        ∃ last, (powFpgaContextDestroy held).run grants heap' = some ((), last) ∧
          last.live = heap.live := by
  have hinit : Mem.Triple grants False 0 powFpgaContextInitialize (AllOrNothing grants) :=
    triple_powFpgaContextInitialize
  obtain ⟨_, hfalse⟩ | ⟨ctx, heap', owned, hrun, ⟨rfl, hdenied⟩, hlive⟩ :=
    hinit heap heap.live.val (add_zero _).symm
  · exact hfalse.elim
  refine ⟨ctx, heap', hrun, ?_, ?_⟩
  · rintro rfl
    exact ⟨Finset.val_injective (hlive.trans (add_zero _)), hdenied rfl⟩
  · rintro held rfl
    obtain ⟨hsubset, hcard, hrestored⟩ :=
      Mem.Triple.restores hlive (triple_powFpgaContextDestroy held)
    refine ⟨hsubset, hcard.trans ?_, hrestored⟩
    simp [FpgaContext.blocks]

end context

section driver

variable {State : Type}

def powFpgaFail (objectTryte objectTrit objectNonceTrit nonceTryte : Option Object) : Mem Unit := do
  freeTrinaryObject objectTryte
  freeTrinaryObject objectTrit
  freeTrinaryObject objectNonceTrit
  freeTrinaryObject nonceTryte

def powFpga (device : PowFpga.Device State) (fpgaOutNonceTrit : Vector Int8 81)
    (ctx : PowFpga.PowFpgaContext) (state : State) :
    Mem (Bool × PowFpga.PowFpgaContext × State) := do
  let some objectTryte ← initTrytes (pure ()) ctx.inputTrytes.toList
    | do
      powFpgaFail none none none none
      return (false, ctx, state)
  let some objectTrit ← tritsFromTrytes (some objectTryte)
    | do
      powFpgaFail (some objectTryte) none none none
      return (false, ctx, state)
  touchObject (some objectTrit)
  match PowFpga.transfer device (objectTrit.held.data.take 8019) ctx.mwm state with
  | (none, state) => do
      powFpgaFail (some objectTryte) (some objectTrit) none none
      return (false, ctx, state)
  | (some bytes, state) => do
      let nonceTrit := memcpy fpgaOutNonceTrit 0 bytes
      let some objectNonceTrit ← initTrits (pure ()) nonceTrit.toList
        | do
          powFpgaFail (some objectTryte) (some objectTrit) none none
          return (false, ctx, state)
      let some nonceTryte ← trytesFromTrits (some objectNonceTrit)
        | do
          powFpgaFail (some objectTryte) (some objectTrit) (some objectNonceTrit) none
          return (false, ctx, state)
      touchObject (some nonceTryte)
      let output := memcpy ctx.outputTrytes 0 (ctx.inputTrytes.toList.take (7938 / 3))
      let ctx := { ctx with
        hashCount := (device.cpowMap state 4).toUInt64
        outputTrytes :=
          memcpy output (7938 / 3) (nonceTryte.held.data.take ((8019 - 7938) / 3)) }
      powFpgaFail (some objectTryte) (some objectTrit) (some objectNonceTrit) (some nonceTryte)
      return (true, ctx, state)

variable {grants : Nat → Bool} {allowed : Prop} {device : PowFpga.Device State}
  {fpgaOutNonceTrit : Vector Int8 81} {ctx : PowFpga.PowFpgaContext} {state : State}

theorem triple_powFpgaFail {objectTryte objectTrit objectNonceTrit nonceTryte : Option Object}
    {α : Type} {a : α} {post : α → Multiset Nat → Prop} (hpost : post a 0) :
    Mem.Triple grants allowed
      (blocks objectTryte + (blocks objectTrit + (blocks objectNonceTrit + blocks nonceTryte)))
      (do
        powFpgaFail objectTryte objectTrit objectNonceTrit nonceTryte
        return a) post := by
  have hfree : Mem.Triple grants allowed
      (blocks objectTryte + (blocks objectTrit + (blocks objectNonceTrit + blocks nonceTryte)))
      (powFpgaFail objectTryte objectTrit objectNonceTrit nonceTryte) fun _ owned => owned = 0 := by
    apply (triple_freeTrinaryObject objectTryte).release rfl
    intro _
    apply (triple_freeTrinaryObject objectTrit).release rfl
    intro _
    apply (triple_freeTrinaryObject objectNonceTrit).release rfl
    intro _
    exact triple_freeTrinaryObject nonceTryte
  exact hfree.release (add_zero _).symm fun _ => .pure hpost

theorem triple_powFpga :
    Mem.Triple grants (Mem.Denied grants) 0 (powFpga device fpgaOutNonceTrit ctx state)
      fun r owned => owned = 0 ∧
        (r = PowFpga.powFpga device fpgaOutNonceTrit ctx state ∨ Mem.Denied grants) := by
  apply (triple_initTrytes_local ctx.inputTrytes.toList).bind
  rintro (_ | objectTryte) _ ⟨rfl, htryte⟩
  · refine .of_eq ?_ (triple_powFpgaFail ⟨rfl, htryte.imp_left fun heq => ?_⟩)
    · simp [blocks]
    have hnone : Dcurl.initTrytes ctx.inputTrytes.toList = none := heq.symm
    simp only [PowFpga.powFpga, hnone]
    rfl
  apply (triple_tritsFromTrytes (some objectTryte)).bind
  rintro (_ | objectTrit) _ ⟨_, ⟨rfl, htrit⟩, rfl⟩
  · refine .of_eq ?_ (triple_powFpgaFail ⟨rfl, htryte.elim (fun heq =>
      htrit.imp_left fun hnone => ?_) Or.inr⟩)
    · simp [blocks]
    have hinit : Dcurl.initTrytes ctx.inputTrytes.toList = some objectTryte.held := heq.symm
    have hnone : Dcurl.tritsFromTrytes (some objectTryte.held) = none := hnone.symm
    simp only [PowFpga.powFpga, hinit, hnone]
  have hpow : Dcurl.tritsFromTrytes (Dcurl.initTrytes ctx.inputTrytes.toList) =
      some objectTrit.held ∨ Mem.Denied grants := by
    refine htryte.elim (fun heq => htrit.imp_left fun hsome => ?_) Or.inr
    rw [← heq]
    exact hsome.symm
  apply touchObject_bind (Multiset.le_add_right _ _)
  rcases htransfer : PowFpga.transfer device (objectTrit.held.data.take 8019) ctx.mwm state with
    ⟨_ | bytes, last⟩
  · refine .of_eq ?_ (triple_powFpgaFail ⟨rfl, hpow.imp_left fun hpow => ?_⟩)
    · simp only [blocks]
      abel
    simp only [PowFpga.powFpga, hpow, htransfer]
  simp only
  apply (triple_initTrits_local (memcpy fpgaOutNonceTrit 0 bytes).toList).step _ (zero_add _).symm
  rintro (_ | objectNonceTrit) _ ⟨rfl, hnonce⟩
  · refine .of_eq ?_ (triple_powFpgaFail ⟨rfl, hpow.elim (fun hpow =>
      hnonce.imp_left fun hnone => ?_) Or.inr⟩)
    · simp only [blocks]
      abel
    have hnone : Dcurl.initTrits (memcpy fpgaOutNonceTrit 0 bytes).toList = none := hnone.symm
    simp only [PowFpga.powFpga, hpow, htransfer, PowFpga.finishFpga, hnone]
  apply (triple_trytesFromTrits (some objectNonceTrit)).step _ rfl
  rintro (_ | nonceTryte) _ ⟨_, ⟨rfl, hpack⟩, rfl⟩
  · refine .of_eq ?_ (triple_powFpgaFail ⟨rfl, hpow.elim (fun hpow => hnonce.elim (fun hnonce =>
      hpack.imp_left fun hnone => ?_) Or.inr) Or.inr⟩)
    · simp only [blocks]
      abel
    have hinit : Dcurl.initTrits (memcpy fpgaOutNonceTrit 0 bytes).toList =
      some objectNonceTrit.held := hnonce.symm
    have hnone : Dcurl.trytesFromTrits (some objectNonceTrit.held) = none := hnone.symm
    simp only [PowFpga.powFpga, hpow, htransfer, PowFpga.finishFpga, hinit, hnone]
  apply touchObject_bind ((Multiset.le_add_right _ _).trans (Multiset.le_add_right _ _))
  refine .of_eq ?_ (triple_powFpgaFail ⟨rfl, hpow.elim (fun hpow => hnonce.elim (fun hnonce =>
    hpack.imp_left fun hpack => ?_) Or.inr) Or.inr⟩)
  · simp only [blocks]
    abel
  have hinit : Dcurl.initTrits (memcpy fpgaOutNonceTrit 0 bytes).toList =
    some objectNonceTrit.held := hnonce.symm
  have hpack : Dcurl.trytesFromTrits (some objectNonceTrit.held) = some nonceTryte.held :=
    hpack.symm
  simp only [PowFpga.powFpga, hpow, htransfer, PowFpga.finishFpga, hinit, hpack]

/-- Whatever `malloc` and the device files answer, `pow_fpga` gives all of its blocks back,
unless a denied block makes it go wrong. -/
theorem powFpga_frees (device : PowFpga.Device State) (fpgaOutNonceTrit : Vector Int8 81)
    (ctx : PowFpga.PowFpgaContext) (state : State) (grants : Nat → Bool) (heap : Heap) :
    ((powFpga device fpgaOutNonceTrit ctx state).run grants heap = none ∧ Mem.Denied grants) ∨
    ∃ r heap', (powFpga device fpgaOutNonceTrit ctx state).run grants heap = some (r, heap') ∧
      heap'.live = heap.live ∧
      (r = PowFpga.powFpga device fpgaOutNonceTrit ctx state ∨ Mem.Denied grants) :=
  triple_powFpga.balanced heap

end driver

end Dcurl.Memory
