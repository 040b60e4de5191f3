import Dcurl.CpuContext
import Dcurl.Library.Machine

/-! `dcurl_entry` on the implementations of `impl_list`, for any number of calls
at once. A step of a call is what it does under one lock, or on data that is its
own. -/
namespace Dcurl

open Library

inductive Work where
  | admitted
  /-- `get_pow_context` returned `NULL`, which `do_the_pow` reads. -/
  | noContext
  | filling (slot : Nat)
  | holding (slot : Nat)
  | computed (slot : Nat)
  | answered (slot : Nat) (res : Option (Vector Int8 2673))
  | freed (res : Option (Vector Int8 2673))
  | exited (res : Option (Vector Int8 2673))

inductive Phase (ι : Type) where
  /-- In `list_for_each`, with the implementations still to be asked. -/
  | scanning (rest : List ι)
  | waiting
  | working (impl : ι) (work : Work)
  | returned (impl : ι) (res : Option (Vector Int8 2673))
  /-- Returned `NULL` since nothing was initialized. -/
  | refused

structure Call (ι : Type) where
  request : Request
  phase : Phase ι

structure System (ι Ctx : Type) where
  impls : ι → ImplContext Ctx
  implList : List ι
  isInitialized : Bool
  notify : Nat
  calls : List (Call ι)

inductive Action (ι Ctx Choice : Type) where
  | init (hosts : ι → Host Ctx)
  | destroy
  | entry (request : Request)
  | advance (call : Nat) (choice : Choice)

section steps

variable {ι Ctx Choice : Type}

def workStep (functions : PowFunctions Ctx Choice) (choice : Choice) (request : Request)
    (work : Work) (impl : ImplContext Ctx) : Option (Work × ImplContext Ctx) :=
  match work with
  | .admitted =>
      match getPowContext impl with
      | none => some (.noContext, impl)
      | some (i, impl) => some (.filling i, impl)
  | .noContext => none
  | .filling i => some (.holding i, fillSlot functions request i impl)
  | .holding i =>
      (functions.doThePow choice (impl.context i).ctx).map fun (result, ctx) =>
        (if result then .computed i else .answered i none,
          impl.putSlot i { impl.context i with ctx := ctx })
  | .computed i => some (.answered i (some (functions.getPowResult (impl.context i).ctx)), impl)
  | .answered i res => some (.freed res, freePowContext impl i)
  | .freed res => some (.exited res, exitImplContext impl)
  | .exited _ => none

def Phase.isOver : Phase ι → Bool
  | .returned _ _ => true
  | .refused => true
  | _ => false

def System.idle (system : System ι Ctx) : Bool := system.calls.all fun call => call.phase.isOver

variable [DecidableEq ι]

def System.setImpl (system : System ι Ctx) (j : ι) (impl : ImplContext Ctx) : System ι Ctx :=
  { system with impls := Function.update system.impls j impl }

variable (functions : ι → PowFunctions Ctx Choice)

def callStep (choice : Choice) (system : System ι Ctx) (call : Call ι) :
    Option (Phase ι × System ι Ctx) :=
  match call.phase with
  | .scanning [] => some (.waiting, system)
  | .scanning (j :: rest) =>
      match enterImplContext (system.impls j) with
      | none => some (.scanning rest, system)
      | some impl => some (.working j .admitted, system.setImpl j impl)
  | .waiting =>
      if system.notify = 0 then none
      else some (.scanning system.implList, { system with notify := system.notify - 1 })
  | .working j (.exited res) =>
      some (.returned j res, { system with notify := system.notify + 1 })
  | .working j work =>
      (workStep (functions j) choice call.request work (system.impls j)).map fun (work, impl) =>
        (.working j work, system.setImpl j impl)
  | .returned _ _ => none
  | .refused => none

/-- `register_impl_context` and the flag `ret` of `dcurl_init`. -/
def registerImplContext (hosts : ι → Host Ctx) (ret : Bool × System ι Ctx) (j : ι) :
    Bool × System ι Ctx :=
  match initializeImplContext (functions j) (hosts j) (ret.2.impls j) with
  | (true, impl) => (true, { ret.2.setImpl j impl with implList := j :: ret.2.implList })
  | (false, impl) => (ret.1, ret.2.setImpl j impl)

def dcurlInit (compiled : List ι) (hosts : ι → Host Ctx) (system : System ι Ctx) : System ι Ctx :=
  let (ret, system) := compiled.foldl (registerImplContext functions hosts) (false, system)
  { system with isInitialized := ret, notify := 0 }

/-- `dcurl_destroy` leaves everything but the list as it is. -/
def dcurlDestroy (system : System ι Ctx) : System ι Ctx := { system with implList := [] }

/-- The system steps; `dcurl_init` and `dcurl_destroy` run while no call is in
flight, and `dcurl_init` after what it registered is destroyed. -/
def System.step (compiled : List ι) (system : System ι Ctx) :
    Action ι Ctx Choice → Option (System ι Ctx)
  | .init hosts =>
      if system.idle && system.implList.isEmpty then
        some (dcurlInit functions compiled hosts system)
      else none
  | .destroy => if system.idle then some (dcurlDestroy system) else none
  | .entry request =>
      let phase := if system.isInitialized then .scanning system.implList else .refused
      some { system with calls := system.calls ++ [⟨request, phase⟩] }
  | .advance k choice =>
      system.calls[k]?.bind fun call =>
        (callStep functions choice system call).map fun (phase, next) =>
          { next with calls := system.calls.set k { call with phase := phase } }

def System.start (contexts : ι → Nat → Slot Ctx) : System ι Ctx where
  impls := fun j => ⟨contexts j, 0, 0, 0⟩
  implList := []
  isInitialized := false
  notify := 0
  calls := []

end steps

section invariant

variable {ι Ctx Choice : Type}

def Work.stage : Work → Slots.Stage
  | .admitted => .admitted
  | .noContext => .admitted
  | .filling i => .owns i
  | .holding i => .owns i
  | .computed i => .owns i
  | .answered i _ => .owns i
  | .freed _ => .admitted
  | .exited _ => .outside

def Work.Sound (functions : PowFunctions Ctx Choice) (impl : ImplContext Ctx) (request : Request) :
    Work → Prop
  | .admitted => True
  | .noContext => False
  | .filling _ => True
  | .holding i => (impl.context i).indexOfContext = i ∧
      ∃ ctx, (impl.context i).ctx = functions.fill request ctx
  | .computed i => (impl.context i).indexOfContext = i ∧
      ∃ choice ctx, functions.doThePow choice (functions.fill request ctx) =
        some (true, (impl.context i).ctx)
  | .answered i res => (impl.context i).indexOfContext = i ∧ Answers functions request res
  | .freed res => Answers functions request res
  | .exited res => Answers functions request res

variable {functions : PowFunctions Ctx Choice} {impl impl' : ImplContext Ctx} {request : Request}
  {work work' : Work} {choice : Choice}

theorem Work.Sound.congr (h : work.Sound functions impl request)
    (hcontext : ∀ i, work.stage = .owns i → impl'.context i = impl.context i) :
    work.Sound functions impl' request := by
  cases work with
  | admitted => exact h
  | noContext => exact h
  | filling i => exact h
  | holding i => simpa only [Sound, hcontext i rfl] using h
  | computed i => simpa only [Sound, hcontext i rfl] using h
  | answered i res => simpa only [Sound, hcontext i rfl] using h
  | freed res => exact h
  | exited res => exact h

theorem Work.Sound.ne_noContext (h : work.Sound functions impl request) : work ≠ .noContext := by
  intro heq
  rw [heq] at h
  exact h

structure Advanced (functions : PowFunctions Ctx Choice) (request : Request) (work : Work)
    (impl : ImplContext Ctx) (work' : Work) (impl' : ImplContext Ctx) : Prop where
  numMaxThread_eq : impl'.numMaxThread = impl.numMaxThread
  frame : ∀ i, work.stage ≠ .owns i → impl'.context i = impl.context i
  sound : work'.Sound functions impl' request
  table : ∀ stages k, stages[k]? = some work.stage →
    Slots.Consistent impl.numMaxThread.toNat impl.free impl.numWorkingThread stages →
      Slots.Consistent impl.numMaxThread.toNat impl'.free impl'.numWorkingThread
        (stages.set k work'.stage)

theorem putSlot_context_of_ne (impl : ImplContext Ctx) {i j : Nat} (slot : Slot Ctx)
    (hne : Slots.Stage.owns i ≠ .owns j) : (impl.putSlot i slot).context j = impl.context j := by
  apply Function.update_of_ne
  intro heq
  exact hne (congrArg _ heq.symm)

theorem Advanced.of_stay (hmax : impl'.numMaxThread = impl.numMaxThread)
    (hworking : impl'.numWorkingThread = impl.numWorkingThread) (hfree : impl'.free = impl.free)
    (hstage : work'.stage = work.stage)
    (hframe : ∀ i, work.stage ≠ .owns i → impl'.context i = impl.context i)
    (hsound : work'.Sound functions impl' request) :
    Advanced functions request work impl work' impl' := by
  refine ⟨hmax, hframe, hsound, ?_⟩
  intro stages k hk htable
  rw [hworking, hfree, hstage]
  exact htable.stay hk

theorem Advanced.of_putSlot {i : Nat} {slot : Slot Ctx} (hstage : work.stage = .owns i)
    (hstage' : work'.stage = .owns i)
    (hsound : work'.Sound functions (impl.putSlot i slot) request) :
    Advanced functions request work impl work' (impl.putSlot i slot) := by
  refine Advanced.of_stay rfl rfl rfl (hstage'.trans hstage.symm) ?_ hsound
  intro j hj
  exact putSlot_context_of_ne impl slot (hstage ▸ hj)

theorem advanced_admitted (hfits : impl.numMaxThread ≤ 31)
    (hroom : ∃ i < impl.numMaxThread.toNat, impl.free i = true)
    (hstep : workStep functions choice request .admitted impl = some (work', impl')) :
    Advanced functions request .admitted impl work' impl' := by
  unfold workStep at hstep
  cases hget : getPowContext impl with
  | none =>
      have ⟨i, hi, hfree⟩ := hroom
      have hnone := getPowContext_eq_none (by omega) hget i hi
      rw [hfree] at hnone
      cases hnone
  | some found =>
      simp only [hget] at hstep
      cases hstep
      have ⟨hlt, hfree, hbits, hcontext, hmax, hworking⟩ := getPowContext_eq_some (by omega) hget
      refine ⟨hmax, fun i _ => by rw [hcontext], trivial, ?_⟩
      intro stages k hk htable
      rw [hworking]
      exact (htable.take hk hlt hfree).congr hbits

theorem advanced_holding {i : Nat}
    (hsound : (Work.holding i).Sound functions impl request)
    (hstep : workStep functions choice request (.holding i) impl = some (work', impl')) :
    Advanced functions request (.holding i) impl work' impl' := by
  have ⟨(result, ctx), hpow, heq⟩ := Option.map_eq_some_iff.mp hstep
  have ⟨hindex, filled, hfilled⟩ := hsound
  rw [hfilled] at hpow
  cases heq
  cases result with
  | false =>
      apply Advanced.of_putSlot rfl rfl
      unfold ImplContext.putSlot
      simp only [Bool.false_eq_true, if_false, Work.Sound, Function.update_self]
      exact ⟨hindex, choice, filled, ctx, hpow⟩
  | true =>
      apply Advanced.of_putSlot rfl rfl
      unfold ImplContext.putSlot
      simp only [if_true, Work.Sound, Function.update_self]
      exact ⟨hindex, choice, filled, hpow⟩

theorem advanced_workStep (hfits : impl.numMaxThread ≤ 31)
    (hadmitted : work.stage = .admitted → ∃ i < impl.numMaxThread.toNat, impl.free i = true)
    (howned : ∀ i, work.stage = .owns i → i < impl.numMaxThread.toNat)
    (hsound : work.Sound functions impl request)
    (hstep : workStep functions choice request work impl = some (work', impl')) :
    Advanced functions request work impl work' impl' := by
  cases work with
  | admitted => exact advanced_admitted hfits (hadmitted rfl) hstep
  | noContext => cases hstep
  | filling i =>
      cases hstep
      apply Advanced.of_putSlot rfl rfl
      unfold ImplContext.putSlot
      simp only [Work.Sound, Function.update_self]
      exact ⟨trivial, _, rfl⟩
  | holding i => exact advanced_holding hsound hstep
  | computed i =>
      have ⟨hindex, choice', filled, hpow⟩ := hsound
      cases hstep
      exact Advanced.of_stay rfl rfl rfl rfl (fun _ _ => rfl)
        ⟨hindex, choice', filled, _, hpow, rfl⟩
  | answered i res =>
      have hlt := howned i rfl
      cases hstep
      refine ⟨rfl, fun _ _ => rfl, hsound.2, ?_⟩
      intro stages k hk htable
      exact (htable.release hk).congr fun j _ => free_freePowContext (by omega) hsound.1 j
  | freed res =>
      cases hstep
      refine ⟨rfl, fun _ _ => rfl, hsound, ?_⟩
      intro stages k hk htable
      exact htable.leave hk
  | exited res => cases hstep

end invariant

section system

variable {ι Ctx Choice : Type} [DecidableEq ι]

def Phase.stageAt (j : ι) : Phase ι → Slots.Stage
  | .working impl work => if impl = j then work.stage else .outside
  | _ => .outside

namespace System

variable (system : System ι Ctx) (j : ι)

def stages : List Slots.Stage := system.calls.map fun call => call.phase.stageAt j

def capacity : Nat :=
  if j ∈ system.implList then (system.impls j).numMaxThread.toNat else 0

end System

variable (functions : ι → PowFunctions Ctx Choice) (j : ι)

def Phase.Sound (system : System ι Ctx) (request : Request) : Phase ι → Prop
  | .scanning rest => j ∈ rest → j ∈ system.implList
  | .waiting => True
  | .working impl work => impl = j → work.Sound (functions j) (system.impls j) request
  | .returned impl res => impl = j → Answers (functions j) request res
  | .refused => True

structure Inv (system : System ι Ctx) : Prop where
  table : Slots.Consistent (system.capacity j) (system.impls j).free
    (system.impls j).numWorkingThread (system.stages j)
  fits : j ∈ system.implList →
    1 ≤ (system.impls j).numMaxThread ∧ (system.impls j).numMaxThread ≤ 31
  sound : ∀ (k : Nat) call, system.calls[k]? = some call →
    call.phase.Sound functions j system call.request

variable {functions j} {system next : System ι Ctx} {choice : Choice} {k : Nat} {call : Call ι}
  {phase : Phase ι}

theorem Phase.Sound.congr {request : Request} (h : phase.Sound functions j system request)
    (hlist : next.implList = system.implList)
    (hcontext : ∀ i, phase.stageAt j = .owns i →
      (next.impls j).context i = (system.impls j).context i) :
    phase.Sound functions j next request := by
  cases phase with
  | scanning rest =>
      intro hmem
      rw [hlist]
      exact h hmem
  | waiting => trivial
  | working impl work =>
      intro himpl
      apply (h himpl).congr
      intro i hi
      apply hcontext
      rw [Phase.stageAt, if_pos himpl, hi]
  | returned impl res => exact h
  | refused => trivial

theorem capacity_of_mem (hmem : j ∈ system.implList) :
    system.capacity j = (system.impls j).numMaxThread.toNat := if_pos hmem

theorem stages_of_getElem? (hk : system.calls[k]? = some call) :
    (system.stages j)[k]? = some (call.phase.stageAt j) := by
  unfold System.stages
  rw [List.getElem?_map, hk]
  rfl

namespace Inv

theorem mem_implList (h : Inv functions j system) (hk : system.calls[k]? = some call)
    (hinside : (call.phase.stageAt j).isInside = true) : j ∈ system.implList := by
  by_contra hnone
  have hbounded := h.table.bounded
  unfold System.capacity at hbounded
  rw [if_neg hnone, Nat.le_zero, List.countP_eq_zero] at hbounded
  exact hbounded _ (List.mem_of_getElem? (stages_of_getElem? hk)) hinside

theorem update (h : Inv functions j system) (hk : system.calls[k]? = some call)
    (hlist : next.implList = system.implList)
    (hmax : (next.impls j).numMaxThread = (system.impls j).numMaxThread)
    (hframe : ∀ i, call.phase.stageAt j ≠ .owns i →
      (next.impls j).context i = (system.impls j).context i)
    (htable : Slots.Consistent (system.capacity j) (next.impls j).free
      (next.impls j).numWorkingThread ((system.stages j).set k (phase.stageAt j)))
    (hsound : phase.Sound functions j next call.request) :
    Inv functions j { next with calls := system.calls.set k { call with phase := phase } } := by
  constructor
  · unfold System.capacity System.stages at htable ⊢
    simp only [List.map_set, hlist, hmax]
    exact htable
  · simp only [hlist, hmax]
    exact h.fits
  · intro k' call' hk'
    by_cases hsame : k = k'
    · subst hsame
      have hlt : k < system.calls.length := (List.getElem?_eq_some_iff.mp hk).1
      rw [List.getElem?_set_self hlt] at hk'
      cases hk'
      exact hsound
    · rw [List.getElem?_set_ne hsame] at hk'
      apply (h.sound k' call' hk').congr hlist
      intro i hi
      apply hframe
      intro howns
      exact hsame (h.table.owner_unique (howns ▸ stages_of_getElem? hk)
        (hi ▸ stages_of_getElem? hk'))

theorem update_of_eq (h : Inv functions j system) (hk : system.calls[k]? = some call)
    (hlist : next.implList = system.implList) (himpl : next.impls j = system.impls j)
    (hstage : phase.stageAt j = call.phase.stageAt j)
    (hsound : phase.Sound functions j next call.request) :
    Inv functions j { next with calls := system.calls.set k { call with phase := phase } } := by
  apply h.update hk hlist (by rw [himpl]) (fun i _ => by rw [himpl]) _ hsound
  rw [himpl, hstage]
  exact h.table.stay (stages_of_getElem? hk)

end Inv

theorem callStep_working {work : Work} (impl : ι) (hphase : call.phase = .working impl work)
    (hwork : ∀ res, work ≠ .exited res) :
    callStep functions choice system call =
      (workStep (functions impl) choice call.request work (system.impls impl)).map
        fun (work, next) => (.working impl work, system.setImpl impl next) := by
  unfold callStep
  rw [hphase]
  cases work with
  | exited res => exact absurd rfl (hwork res)
  | admitted => rfl
  | noContext => rfl
  | filling i => rfl
  | holding i => rfl
  | computed i => rfl
  | answered i res => rfl
  | freed res => rfl

inductive CallSteps (functions : ι → PowFunctions Ctx Choice) (choice : Choice)
    (system : System ι Ctx) (request : Request) : Phase ι → Phase ι → System ι Ctx → Prop
  | park : CallSteps functions choice system request (.scanning []) .waiting system
  | refused {i : ι} {rest : List ι} (hrefused : enterImplContext (system.impls i) = none) :
      CallSteps functions choice system request (.scanning (i :: rest)) (.scanning rest) system
  | enter {i : ι} {rest : List ι} {impl : ImplContext Ctx}
      (henter : enterImplContext (system.impls i) = some impl) :
      CallSteps functions choice system request (.scanning (i :: rest)) (.working i .admitted)
        (system.setImpl i impl)
  | wake (hpos : system.notify ≠ 0) :
      CallSteps functions choice system request .waiting (.scanning system.implList)
        { system with notify := system.notify - 1 }
  | work {i : ι} {work work' : Work} {impl : ImplContext Ctx}
      (hwork : workStep (functions i) choice request work (system.impls i) = some (work', impl)) :
      CallSteps functions choice system request (.working i work) (.working i work')
        (system.setImpl i impl)
  | post {i : ι} {res : Option (Vector Int8 2673)} :
      CallSteps functions choice system request (.working i (.exited res)) (.returned i res)
        { system with notify := system.notify + 1 }

theorem callSteps_of_callStep (hstep : callStep functions choice system call = some (phase, next)) :
    CallSteps functions choice system call.request call.phase phase next := by
  cases hphase : call.phase with
  | scanning rest =>
      unfold callStep at hstep
      rw [hphase] at hstep
      cases rest with
      | nil =>
          cases hstep
          exact .park
      | cons i rest =>
          cases henter : enterImplContext (system.impls i) with
          | none =>
              simp only [henter] at hstep
              cases hstep
              exact .refused henter
          | some impl =>
              simp only [henter] at hstep
              cases hstep
              exact .enter henter
  | waiting =>
      unfold callStep at hstep
      simp only [hphase] at hstep
      split at hstep
      · cases hstep
      · rename_i hpos
        cases hstep
        exact .wake hpos
  | working i work =>
      by_cases hexited : ∃ res, work = .exited res
      · have ⟨res, hres⟩ := hexited
        rw [hres] at hphase
        unfold callStep at hstep
        rw [hphase] at hstep
        cases hstep
        rw [hres]
        exact .post
      · rw [callStep_working i hphase (fun res heq => hexited ⟨res, heq⟩)] at hstep
        have ⟨(work', impl), hwork, heq⟩ := Option.map_eq_some_iff.mp hstep
        cases heq
        exact .work hwork
  | returned i res =>
      unfold callStep at hstep
      simp only [hphase] at hstep
      cases hstep
  | refused =>
      unfold callStep at hstep
      simp only [hphase] at hstep
      cases hstep

theorem CallSteps.ne_refused {request : Request} {phase' : Phase ι}
    (h : CallSteps functions choice system request phase phase' next) : phase' ≠ .refused := by
  cases h <;> simp

theorem setImpl_implList (i : ι) (impl : ImplContext Ctx) :
    (system.setImpl i impl).implList = system.implList := rfl

theorem setImpl_impls_self (impl : ImplContext Ctx) :
    (system.setImpl j impl).impls j = impl := Function.update_self ..

theorem setImpl_impls_of_ne {i : ι} (hne : i ≠ j) (impl : ImplContext Ctx) :
    (system.setImpl i impl).impls j = system.impls j := Function.update_of_ne hne.symm ..

namespace Inv

theorem enter (h : Inv functions j system) (hk : system.calls[k]? = some call) {i : ι}
    {rest : List ι} (hphase : call.phase = .scanning (i :: rest)) {impl : ImplContext Ctx}
    (henter : enterImplContext (system.impls i) = some impl) :
    Inv functions j { system.setImpl i impl with
      calls := system.calls.set k { call with phase := .working i .admitted } } := by
  have hout : call.phase.stageAt j = .outside := by rw [hphase]; rfl
  by_cases hij : i = j
  · subst hij
    have hsound := h.sound k call hk
    rw [hphase] at hsound
    have hmem : i ∈ system.implList := hsound List.mem_cons_self
    have hcapacity := capacity_of_mem hmem
    have ⟨hlt, heq⟩ := enterImplContext_eq_some_iff.mp henter
    apply h.update hk (setImpl_implList i impl)
    · rw [setImpl_impls_self, heq]
    · intro slot _
      rw [setImpl_impls_self, heq]
    · rw [setImpl_impls_self, heq, Phase.stageAt, if_pos rfl]
      exact h.table.letIn (hout ▸ stages_of_getElem? hk) (by omega)
    · intro _
      trivial
  · apply h.update_of_eq hk (setImpl_implList i impl) (setImpl_impls_of_ne hij impl)
    · rw [hout, Phase.stageAt, if_neg hij]
    · intro heq
      exact absurd heq hij

theorem work (h : Inv functions j system) (hk : system.calls[k]? = some call) {i : ι}
    {work work' : Work} {impl : ImplContext Ctx} (hphase : call.phase = .working i work)
    (hstep : workStep (functions i) choice call.request work (system.impls i) =
      some (work', impl)) :
    Inv functions j { system.setImpl i impl with
      calls := system.calls.set k { call with phase := .working i work' } } := by
  by_cases hij : i = j
  · subst hij
    have hstage : call.phase.stageAt i = work.stage := by rw [hphase, Phase.stageAt, if_pos rfl]
    have hsound := h.sound k call hk
    rw [hphase] at hsound
    have hentry := stages_of_getElem? (j := i) hk
    rw [hstage] at hentry
    have hregistered : work.stage.isInside = true → i ∈ system.implList := by
      intro hinside
      exact h.mem_implList hk (hstage ▸ hinside)
    have hinside : work.stage.isInside = true := by
      cases work with
      | exited res => cases hstep
      | _ => rfl
    have hmem := hregistered hinside
    have hcapacity := capacity_of_mem hmem
    have htable := h.table
    rw [hcapacity] at htable
    have hadvanced : Advanced (functions i) call.request work (system.impls i) work' impl := by
      apply advanced_workStep (h.fits hmem).2 _ _ (hsound rfl) hstep
      · intro hadmitted
        exact htable.exists_free (List.mem_of_getElem? (hadmitted ▸ hentry))
      · intro slot howns
        exact htable.inRange slot (List.mem_of_getElem? (howns ▸ hentry))
    apply h.update hk (setImpl_implList i impl)
    · rw [setImpl_impls_self]
      exact hadvanced.numMaxThread_eq
    · intro slot hslot
      rw [setImpl_impls_self]
      exact hadvanced.frame slot (hstage ▸ hslot)
    · rw [setImpl_impls_self, hcapacity, Phase.stageAt, if_pos rfl]
      exact hadvanced.table _ k hentry htable
    · intro _
      rw [setImpl_impls_self]
      exact hadvanced.sound
  · apply h.update_of_eq hk (setImpl_implList i impl) (setImpl_impls_of_ne hij impl)
    · rw [hphase, Phase.stageAt, Phase.stageAt, if_neg hij, if_neg hij]
    · intro heq
      exact absurd heq hij

theorem advance (h : Inv functions j system) (hk : system.calls[k]? = some call)
    (hstep : callStep functions choice system call = some (phase, next)) :
    Inv functions j { next with calls := system.calls.set k { call with phase := phase } } := by
  have hsound := h.sound k call hk
  have hsteps := callSteps_of_callStep hstep
  generalize hphase : call.phase = old at hsteps
  rw [hphase] at hsound
  cases hsteps with
  | park => exact h.update_of_eq hk rfl rfl (by rw [hphase]; rfl) trivial
  | refused hrefused =>
      apply h.update_of_eq hk rfl rfl (by rw [hphase]; rfl)
      intro hmem
      exact hsound (List.mem_cons_of_mem _ hmem)
  | enter henter => exact h.enter hk hphase henter
  | wake hpos => exact h.update_of_eq hk rfl rfl (by rw [hphase]; rfl) id
  | work hwork => exact h.work hk hphase hwork
  | post =>
      rename_i i res
      have hstage : (Phase.returned i res).stageAt j = call.phase.stageAt j := by
        rw [hphase, Phase.stageAt]
        split <;> rfl
      exact h.update_of_eq hk rfl rfl hstage hsound

end Inv

section lifecycle

def PowFunctions.starts (functions : PowFunctions Ctx Choice) (host : Host Ctx) : Bool :=
  functions.checks host.numMaxThread host.nproc && host.memory.isSome

theorem fst_initializeImplContext (functions : PowFunctions Ctx Choice) (host : Host Ctx)
    (impl : ImplContext Ctx) :
    (initializeImplContext functions host impl).1 = functions.starts host := by
  unfold initializeImplContext PowFunctions.starts
  cases functions.checks host.numMaxThread host.nproc <;> cases host.memory <;> rfl

theorem impls_registerImplContext (hosts : ι → Host Ctx) (ret : Bool × System ι Ctx) (i : ι) :
    (registerImplContext functions hosts ret i).2.impls = Function.update ret.2.impls i
      (initializeImplContext (functions i) (hosts i) (ret.2.impls i)).2 := by
  unfold registerImplContext
  split <;> rename_i hinit <;> rw [hinit] <;> rfl

theorem mem_implList_registerImplContext {hosts : ι → Host Ctx} {ret : Bool × System ι Ctx} {i : ι}
    (h : j ∈ (registerImplContext functions hosts ret i).2.implList) :
    j = i ∧ (functions i).starts (hosts i) = true ∨ j ∈ ret.2.implList := by
  rw [← fst_initializeImplContext _ _ (ret.2.impls i)]
  unfold registerImplContext at h
  split at h
  · rename_i hinit
    rw [hinit]
    cases List.mem_cons.mp h with
    | inl heq => exact Or.inl ⟨heq, rfl⟩
    | inr hmem => exact Or.inr hmem
  · exact Or.inr h

structure Registered (functions : ι → PowFunctions Ctx Choice) (hosts : ι → Host Ctx) (j : ι)
    (system : System ι Ctx) : Prop where
  working : (system.impls j).numWorkingThread = 0
  starts : j ∈ system.implList → (functions j).starts (hosts j) = true ∧
    (system.impls j).numMaxThread = (hosts j).numMaxThread ∧
      ∀ i < (hosts j).numMaxThread.toNat, (system.impls j).free i = true

variable {hosts : ι → Host Ctx} (hhost : (functions j).starts (hosts j) = true →
  1 ≤ (hosts j).numMaxThread ∧ (hosts j).numMaxThread ≤ 31)

include hhost

theorem Registered.registerImplContext {ret : Bool × System ι Ctx}
    (h : Registered functions hosts j ret.2) (i : ι) :
    Registered functions hosts j (registerImplContext functions hosts ret i).2 := by
  by_cases hij : i = j
  · subst hij
    constructor
    · rw [impls_registerImplContext, Function.update_self,
        numWorkingThread_initializeImplContext]
      exact h.working
    · intro hmem
      have hstarts : (functions i).starts (hosts i) = true := by
        cases mem_implList_registerImplContext hmem with
        | inl hnew => exact hnew.2
        | inr hold => exact (h.starts hold).1
      have hinit := fst_initializeImplContext (functions i) (hosts i) (ret.2.impls i)
      have hfits := (hhost hstarts).2
      have ⟨hfree, hmax, _⟩ := free_initializeImplContext (by omega)
        (Prod.ext (hinit.trans hstarts) rfl)
      rw [impls_registerImplContext, Function.update_self]
      exact ⟨hstarts, hmax, hfree⟩
  · rw [eq_comm] at hij
    constructor
    · rw [impls_registerImplContext, Function.update_of_ne hij]
      exact h.working
    · intro hmem
      rw [impls_registerImplContext, Function.update_of_ne hij]
      cases mem_implList_registerImplContext hmem with
      | inl hnew => exact absurd hnew.1 hij
      | inr hold => exact h.starts hold

theorem Registered.foldl {ret : Bool × System ι Ctx} (h : Registered functions hosts j ret.2)
    (compiled : List ι) :
    Registered functions hosts j
      (compiled.foldl (Dcurl.registerImplContext functions hosts) ret).2 := by
  induction compiled generalizing ret with
  | nil => exact h
  | cons i rest ih => exact ih (h.registerImplContext hhost i)

omit hhost

theorem calls_registerImplContext (ret : Bool × System ι Ctx) (compiled : List ι) :
    (compiled.foldl (registerImplContext functions hosts) ret).2.calls = ret.2.calls := by
  induction compiled generalizing ret with
  | nil => rfl
  | cons i rest ih =>
      rw [List.foldl_cons, ih]
      unfold registerImplContext
      split <;> rfl

theorem numWorkingThread_registerImplContext (ret : Bool × System ι Ctx) (compiled : List ι)
    (j : ι) :
    ((compiled.foldl (registerImplContext functions hosts) ret).2.impls j).numWorkingThread =
      (ret.2.impls j).numWorkingThread := by
  induction compiled generalizing ret with
  | nil => rfl
  | cons i rest ih =>
      rw [List.foldl_cons, ih, impls_registerImplContext]
      by_cases hij : i = j
      · subst hij
        rw [Function.update_self, numWorkingThread_initializeImplContext]
      · rw [eq_comm] at hij
        rw [Function.update_of_ne hij]

theorem stageAt_of_idle (hidle : system.idle = true) :
    ∀ stage ∈ system.stages j, stage = .outside := by
  intro stage hmem
  have ⟨call, hcall, hstage⟩ := List.mem_map.mp hmem
  have hover := List.all_eq_true.mp hidle call hcall
  rw [← hstage]
  cases hphase : call.phase with
  | working impl work =>
      rw [hphase] at hover
      cases hover
  | _ => rfl

omit [DecidableEq ι] in
theorem sound_of_isOver {request : Request} (hover : phase.isOver = true)
    (h : phase.Sound functions j system request) : phase.Sound functions j next request := by
  cases phase with
  | scanning rest => cases hover
  | waiting => cases hover
  | working impl work => cases hover
  | returned impl res => exact h
  | refused => trivial

namespace Inv

theorem start (contexts : ι → Nat → Slot Ctx) : Inv functions j (System.start contexts) := by
  constructor
  · apply Slots.Consistent.setUp
    · intro i hi
      exact absurd hi (Nat.not_lt_zero i)
    · intro stage hmem
      exact absurd hmem List.not_mem_nil
  · intro hmem
    exact absurd hmem List.not_mem_nil
  · intro k call hk
    cases hk

theorem entry (h : Inv functions j system) (request : Request) :
    Inv functions j { system with
      calls := system.calls ++
        [⟨request, if system.isInitialized then .scanning system.implList else .refused⟩] } := by
  constructor
  · have hstages : System.stages { system with
        calls := system.calls ++
          [⟨request, if system.isInitialized then .scanning system.implList else .refused⟩] } j =
        system.stages j ++ [.outside] := by
      unfold System.stages
      rw [List.map_append]
      congr 1
      cases system.isInitialized <;> rfl
    rw [hstages]
    exact h.table.append_outside
  · exact h.fits
  · intro k call hk
    by_cases hold : k < system.calls.length
    · rw [List.getElem?_append_left hold] at hk
      exact h.sound k call hk
    · rw [List.getElem?_append_right (Nat.le_of_not_lt hold)] at hk
      have hcall := List.mem_singleton.mp (List.mem_of_getElem? hk)
      rw [hcall]
      cases hinit : system.isInitialized with
      | true => exact id
      | false => trivial

theorem of_registered (h : Inv functions j system) (hidle : system.idle = true)
    {hosts : ι → Host Ctx}
    (hhost : (functions j).starts (hosts j) = true →
      1 ≤ (hosts j).numMaxThread ∧ (hosts j).numMaxThread ≤ 31)
    (hregistered : Registered functions hosts j next) (hcalls : next.calls = system.calls) :
    Inv functions j next := by
  constructor
  · rw [hregistered.working]
    apply Slots.Consistent.setUp
    · intro i hi
      unfold System.capacity at hi
      by_cases hmem : j ∈ next.implList
      · have ⟨_, hmax, hfree⟩ := hregistered.starts hmem
        rw [if_pos hmem, hmax] at hi
        exact hfree i hi
      · rw [if_neg hmem] at hi
        exact absurd hi (Nat.not_lt_zero i)
    · intro stage hmem
      unfold System.stages at hmem
      rw [hcalls] at hmem
      exact stageAt_of_idle hidle stage hmem
  · intro hmem
    have ⟨hstarts, hmax, _⟩ := hregistered.starts hmem
    rw [hmax]
    exact hhost hstarts
  · intro k call hk
    rw [hcalls] at hk
    have hover := List.all_eq_true.mp hidle call (List.mem_of_getElem? hk)
    exact sound_of_isOver hover (h.sound k call hk)

theorem init (h : Inv functions j system) (hidle : system.idle = true)
    (hempty : system.implList = []) {hosts : ι → Host Ctx}
    (hhost : (functions j).starts (hosts j) = true →
      1 ≤ (hosts j).numMaxThread ∧ (hosts j).numMaxThread ≤ 31) (compiled : List ι) :
    Inv functions j (dcurlInit functions compiled hosts system) := by
  have hstart : Registered functions hosts j system := by
    constructor
    · exact (h.table.of_outside (stageAt_of_idle hidle)).1
    · intro hmem
      rw [hempty] at hmem
      exact absurd hmem List.not_mem_nil
  have hregistered : Registered functions hosts j
      (compiled.foldl (registerImplContext functions hosts) (false, system)).2 :=
    Registered.foldl hhost hstart compiled
  have hcalls : (compiled.foldl (registerImplContext functions hosts) (false, system)).2.calls =
      system.calls := calls_registerImplContext (false, system) compiled
  unfold dcurlInit
  cases hfold : compiled.foldl (registerImplContext functions hosts) (false, system) with
  | mk ret registered =>
      rw [hfold] at hregistered hcalls
      exact h.of_registered hidle hhost ⟨hregistered.working, hregistered.starts⟩ hcalls

theorem destroy (h : Inv functions j system) (hidle : system.idle = true) :
    Inv functions j (dcurlDestroy system) := by
  have hout := stageAt_of_idle (j := j) hidle
  constructor
  · rw [show ((dcurlDestroy system).impls j).numWorkingThread = 0 from
      (h.table.of_outside hout).1]
    apply Slots.Consistent.setUp
    · intro i hi
      exact absurd hi (Nat.not_lt_zero i)
    · exact hout
  · intro hmem
    exact absurd hmem List.not_mem_nil
  · intro k call hk
    have hover := List.all_eq_true.mp hidle call (List.mem_of_getElem? hk)
    exact sound_of_isOver hover (h.sound k call hk)

end Inv

/-- Wherever the implementation starts, it has 1 to 31 contexts. -/
def Action.Fits (functions : ι → PowFunctions Ctx Choice) (j : ι) : Action ι Ctx Choice → Prop
  | .init hosts => (functions j).starts (hosts j) = true →
      1 ≤ (hosts j).numMaxThread ∧ (hosts j).numMaxThread ≤ 31
  | _ => True

theorem Inv.step {compiled : List ι} {action : Action ι Ctx Choice} (h : Inv functions j system)
    (hfits : action.Fits functions j)
    (hstep : System.step functions compiled system action = some next) : Inv functions j next := by
  unfold System.step at hstep
  cases action with
  | init hosts =>
      simp only at hstep
      split at hstep
      · rename_i hready
        rw [Bool.and_eq_true, List.isEmpty_iff] at hready
        cases hstep
        exact h.init hready.1 hready.2 hfits compiled
      · cases hstep
  | destroy =>
      simp only at hstep
      split at hstep
      · rename_i hidle
        cases hstep
        exact h.destroy hidle
      · cases hstep
  | entry request =>
      cases hstep
      exact h.entry request
  | advance k choice =>
      have ⟨call, hk, hmap⟩ := Option.bind_eq_some_iff.mp hstep
      have ⟨(phase, shared), hcall, heq⟩ := Option.map_eq_some_iff.mp hmap
      cases heq
      exact h.advance hk hcall

theorem Inv.run {compiled : List ι} {actions : List (Action ι Ctx Choice)}
    {contexts : ι → Nat → Slot Ctx} {final : System ι Ctx}
    (hfits : ∀ action ∈ actions, action.Fits functions j)
    (hrun : Machine.run (System.step functions compiled) (System.start contexts) actions =
      some final) : Inv functions j final := by
  apply Machine.run_invariant_along (fun _ action => Action.Fits functions j action)
    (Inv functions j) _ (Inv.start contexts) (Machine.along_of_forall _ hfits _) hrun
  intro state action next h hallowed hstep
  exact h.step hallowed hstep

/-- What the slot table of an implementation owes to its calls. -/
structure AllocatorSafe (functions : ι → PowFunctions Ctx Choice) (j : ι)
    (system : System ι Ctx) : Prop where
  neverNull : ∀ call ∈ system.calls, call.phase ≠ .working j .noContext
  distinct : ∀ (k k' i : Nat) (call call' : Call ι), system.calls[k]? = some call →
    system.calls[k']? = some call' → call.phase.stageAt j = .owns i →
      call'.phase.stageAt j = .owns i → k = k'
  own : ∀ call ∈ system.calls, ∀ res, call.phase = .returned j res →
    Answers (functions j) call.request res
  counted : j ∈ system.implList →
    0 ≤ (system.impls j).numWorkingThread ∧
      (system.impls j).numWorkingThread ≤ (system.impls j).numMaxThread
  quiet : j ∈ system.implList → system.idle = true →
    (system.impls j).numWorkingThread = 0 ∧
      ∀ i < (system.impls j).numMaxThread.toNat, (system.impls j).bitmap.getLsbD i = true

theorem Inv.allocatorSafe (h : Inv functions j system) : AllocatorSafe functions j system := by
  constructor
  · intro call hmem hphase
    have ⟨k, hlt, hget⟩ := List.getElem_of_mem hmem
    have hsound := h.sound k call (List.getElem?_eq_some_iff.mpr ⟨hlt, hget⟩)
    rw [hphase] at hsound
    exact (hsound rfl).ne_noContext rfl
  · intro k k' i call call' hk hk' howns howns'
    exact h.table.owner_unique (howns ▸ stages_of_getElem? hk) (howns' ▸ stages_of_getElem? hk')
  · intro call hmem res hphase
    have ⟨k, hlt, hget⟩ := List.getElem_of_mem hmem
    have hsound := h.sound k call (List.getElem?_eq_some_iff.mpr ⟨hlt, hget⟩)
    rw [hphase] at hsound
    exact hsound rfl
  · intro hmem
    have hle := h.table.working_le
    have hfits := h.fits hmem
    rw [capacity_of_mem hmem] at hle
    exact ⟨h.table.working_nonneg, by omega⟩
  · intro hmem hidle
    have hquiet := h.table.of_outside (stageAt_of_idle hidle)
    rw [capacity_of_mem hmem] at hquiet
    exact hquiet

/-- While `do_the_pow` of a CPU back end works for a call, its context holds the
call's own transaction and weight, and the result is what the driver makes of them. -/
structure ComputesOwn {w : Nat} (backend : Backend w) (view : Ctx → CpuContext) (j : ι)
    (system : System ι Ctx) : Prop where
  holding : ∀ call ∈ system.calls, ∀ i, call.phase = .working j (.holding i) →
    (view ((system.impls j).context i).ctx).inputTrytes = call.request.trytes ∧
      (view ((system.impls j).context i).ctx).mwm = call.request.mwm
  returned : ∀ call ∈ system.calls, ∀ res, call.phase = .returned j res →
    backend.Computes call.request res

theorem Inv.computesOwn {w : Nat} {backend : Backend w} {view : Ctx → CpuContext}
    {choose : Choice → List Nat} (h : Inv functions j system)
    (hbackend : (functions j).IsBackend backend view choose) :
    ComputesOwn backend view j system := by
  constructor
  · intro call hmem i hphase
    have ⟨k, hk⟩ := List.mem_iff_getElem?.mp hmem
    have hsound := h.sound k call hk
    rw [hphase] at hsound
    have ⟨_, ctx, hfilled⟩ := hsound rfl
    rw [hfilled, hbackend.fill]
    exact ⟨rfl, rfl⟩
  · intro call hmem res hphase
    exact Backend.computes_of_answers hbackend (h.allocatorSafe.own call hmem res hphase)

/-- However the calls interleave, and however often the library was initialized
and destroyed before, the contexts are handed out safely, and a CPU back end computes
for each call with the call's own transaction and weight. -/
theorem allocator_safe (functions : ι → PowFunctions Ctx Choice) (compiled : List ι)
    (contexts : ι → Nat → Slot Ctx) (j : ι) (actions : List (Action ι Ctx Choice))
    (final : System ι Ctx) (hfits : ∀ action ∈ actions, action.Fits functions j)
    (hrun : Machine.run (System.step functions compiled) (System.start contexts) actions =
      some final) :
    AllocatorSafe functions j final ∧
      ∀ {w : Nat} (backend : Backend w) (view : Ctx → CpuContext) (choose : Choice → List Nat),
        (functions j).IsBackend backend view choose → ComputesOwn backend view j final :=
  ⟨(Inv.run hfits hrun).allocatorSafe, fun _ _ _ hbackend =>
    (Inv.run hfits hrun).computesOwn hbackend⟩

end lifecycle

end system

/-- Every result that a call gets from a CPU implementation solves the call's own
request, whatever the other calls do. -/
theorem entry_solves {ι : Type} [DecidableEq ι] {w : Nat} {backend : Backend w}
    (hlawful : backend.Lawful) (hfaithful : backend.Faithful) {compiled : List ι}
    {contexts : ι → Nat → Slot CpuContext} {j : ι}
    {actions : List (Action ι CpuContext (List Nat))} {final : System ι CpuContext}
    (hfits : ∀ action ∈ actions, action.Fits (fun _ => backend.cpuFunctions) j)
    (hrun : Machine.run (System.step (fun _ => backend.cpuFunctions) compiled)
      (System.start contexts) actions = some final)
    {call : Call ι} (hcall : call ∈ final.calls) (hmwm : call.request.mwm ≤ 243)
    {res : Vector Int8 2673} (hphase : call.phase = .returned j (some res)) :
    call.request.SolvedBy res :=
  Backend.solvedBy_of_answers hlawful hfaithful hmwm
    ((Inv.run hfits hrun).allocatorSafe.own call hcall _ hphase)

section witness

def CpuContext.blank : CpuContext where
  numMaxThreads := 0
  numThreads := 0
  inputTrytes := Vector.replicate 2673 0
  outputTrytes := Vector.replicate 2673 0
  mwm := 0
  nonceArray := fun _ => Vector.replicate 81 0
  stopPow := false
  hashCount := 0

/-- Three calls on a host with two contexts, initialized twice: the second works in context 0 and
the first in context 1, where it fails on bytes that are no trytes; the third waits until then and
takes that context over. -/
def concurrentActions : List (Action Unit CpuContext (List Nat)) :=
  [.init fun _ => ⟨2, 4, some fun _ => ⟨0, .blank⟩⟩, .destroy,
    .init fun _ => ⟨2, 4, some fun _ => ⟨0, .blank⟩⟩, .entry ⟨Vector.replicate 2673 0, 14, 0⟩,
    .entry ⟨Vector.replicate 2673 57, 14, 0⟩, .entry ⟨Vector.replicate 2673 65, 9, 0⟩,
    .advance 0 [], .advance 1 [], .advance 2 [], .advance 2 [], .advance 1 [], .advance 0 [],
    .advance 0 [], .advance 1 [], .advance 0 [], .advance 0 [], .advance 0 [], .advance 0 [],
    .advance 2 [], .advance 2 [], .advance 2 [], .advance 2 []]

theorem allocator_safe_concurrent :
    ∃ final, Machine.run (System.step (fun _ => PowC.backend.cpuFunctions) [()])
        (System.start fun _ _ => ⟨0, .blank⟩) concurrentActions = some final ∧
      final.calls.map Call.phase = [.returned () none, .working () (.holding 0),
        .working () (.holding 1)] ∧
      AllocatorSafe (fun _ => PowC.backend.cpuFunctions) () final ∧
      ComputesOwn PowC.backend id () final := by
  have hsome : (Machine.run (System.step (fun _ => PowC.backend.cpuFunctions) [()])
      (System.start fun _ _ => ⟨0, .blank⟩) concurrentActions).isSome = true := rfl
  have ⟨final, hrun⟩ := Option.isSome_iff_exists.mp hsome
  have hphases : final.calls.map Call.phase = [.returned () none, .working () (.holding 0),
      .working () (.holding 1)] := by
    cases hrun
    rfl
  have hfits : ∀ action ∈ concurrentActions,
      action.Fits (fun _ => PowC.backend.cpuFunctions) () := by
    intro action hmem
    cases action with
    | init hosts =>
        intro _
        simp only [concurrentActions, List.mem_cons, List.not_mem_nil, or_false, Action.init.injEq,
          reduceCtorEq, false_or, or_false, or_self] at hmem
        rw [hmem]
        exact ⟨by decide, by decide⟩
    | _ => trivial
  have hsafe := allocator_safe _ [()] (fun _ _ => ⟨0, .blank⟩) () concurrentActions final hfits hrun
  exact ⟨final, hrun, hphases, hsafe.1,
    hsafe.2 PowC.backend id id PowC.backend.isBackend_cpuFunctions⟩

end witness

end Dcurl
