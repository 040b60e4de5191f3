import Dcurl.Drivers
import Dcurl.EntryReturns

/-! The CPU builds serve every call: a call on valid trytes returns a solution and any
other call `NULL`, under every schedule of the calls and of the worker threads. -/
namespace Dcurl

open Library

section prepared

variable {ι Ctx Choice : Type}

structure PowFunctions.Prepares (functions : PowFunctions Ctx Choice) (ready : Ctx → Prop) :
    Prop where
  setUp : ∀ numMaxThread nproc ctx, functions.checks numMaxThread nproc = true →
    ready (functions.setUp nproc ctx)
  fill : ∀ request ctx, ready ctx → ready (functions.fill request ctx)
  doThePow : ∀ choice ctx result ctx', ready ctx →
    functions.doThePow choice ctx = some (result, ctx') → ready ctx'

def ImplContext.Ready (ready : Ctx → Prop) (impl : ImplContext Ctx) : Prop :=
  ∀ i < impl.numMaxThread.toNat, ready (impl.context i).ctx

def System.Ready (ready : Ctx → Prop) (j : ι) (system : System ι Ctx) : Prop :=
  j ∈ system.implList → (system.impls j).Ready ready

variable {functions : PowFunctions Ctx Choice} {ready : Ctx → Prop} {choice : Choice}
  {request : Request} {impl impl' : ImplContext Ctx} {work work' : Work} {host : Host Ctx}

theorem ImplContext.Ready.putSlot (h : impl.Ready ready) {i : Nat} {slot : Slot Ctx}
    (hslot : i < impl.numMaxThread.toNat → ready slot.ctx) : (impl.putSlot i slot).Ready ready := by
  intro i' hi'
  by_cases heq : i' = i
  · subst heq
    simpa [ImplContext.putSlot] using hslot hi'
  · simpa [ImplContext.putSlot, heq] using h i' hi'

theorem ready_workStep (hprepares : functions.Prepares ready) (h : impl.Ready ready)
    (hstep : workStep functions choice request work impl = some (work', impl')) :
    impl'.Ready ready := by
  cases work with
  | admitted =>
      cases hget : getPowContext impl with
      | none =>
          simp only [workStep, hget] at hstep
          cases hstep
          exact h
      | some found =>
          obtain ⟨⟨i, bitmap⟩, _, hfound⟩ := Option.map_eq_some_iff.mp hget
          simp only [workStep, hget, ← hfound] at hstep
          cases hstep
          exact h
  | noContext => cases hstep
  | filling i =>
      cases hstep
      exact h.putSlot fun hi => hprepares.fill _ _ (h i hi)
  | holding i =>
      obtain ⟨⟨result, ctx⟩, hpow, heq⟩ := Option.map_eq_some_iff.mp hstep
      cases heq
      exact h.putSlot fun hi => hprepares.doThePow _ _ _ _ (h i hi) hpow
  | exited res => cases hstep
  | _ =>
      cases hstep
      exact h

theorem ready_initializeImplContext (hprepares : functions.Prepares ready)
    (hstarts : functions.starts host = true) :
    (initializeImplContext functions host impl).2.Ready ready := by
  unfold PowFunctions.starts at hstarts
  rw [Bool.and_eq_true] at hstarts
  have ⟨memory, hmemory⟩ := Option.isSome_iff_exists.mp hstarts.2
  intro i hi
  simp only [initializeImplContext, hstarts.1, hmemory, if_true] at hi ⊢
  rw [if_pos (by omega)]
  exact hprepares.setUp _ _ _ hstarts.1

end prepared

section system

variable {ι Ctx Choice : Type} [DecidableEq ι] {functions : ι → PowFunctions Ctx Choice}
  {ready : Ctx → Prop} {j : ι} {system next : System ι Ctx}

theorem System.Ready.init (hprepares : (functions j).Prepares ready) (hosts : ι → Host Ctx)
    (compiled : List ι) (hempty : system.implList = []) :
    (dcurlInit functions compiled hosts system).Ready ready j := by
  suffices h : ∀ ret : Bool × System ι Ctx,
      (j ∈ ret.2.implList → (functions j).starts (hosts j) = true ∧
        (ret.2.impls j).Ready ready) →
      j ∈ (compiled.foldl (registerImplContext functions hosts) ret).2.implList →
        (functions j).starts (hosts j) = true ∧
        ((compiled.foldl (registerImplContext functions hosts) ret).2.impls j).Ready ready from
    fun hmem => (h (false, system) (by simp [hempty]) hmem).2
  intro ret hret
  induction compiled generalizing ret with
  | nil => exact hret
  | cons i rest ih =>
      refine ih _ fun hmem => ?_
      have hstarts : (functions j).starts (hosts j) = true := by
        cases mem_implList_registerImplContext hmem with
        | inl hnew => exact hnew.1 ▸ hnew.2
        | inr hold => exact (hret hold).1
      refine ⟨hstarts, ?_⟩
      rw [impls_registerImplContext]
      by_cases hij : j = i
      · subst hij
        simpa using ready_initializeImplContext hprepares hstarts
      · rw [Function.update_of_ne hij]
        cases mem_implList_registerImplContext hmem with
        | inl hnew => exact absurd hnew.1 hij
        | inr hold => exact (hret hold).2

theorem CallSteps.keepsReady {choice : Choice} {request : Request} {phase phase' : Phase ι}
    (hprepares : (functions j).Prepares ready) (h : system.Ready ready j)
    (hsteps : CallSteps functions choice system request phase phase' next) :
    next.Ready ready j := by
  cases hsteps with
  | enter henter =>
      rename_i i rest impl
      have ⟨_, heq⟩ := enterImplContext_eq_some_iff.mp henter
      intro hmem
      by_cases hij : i = j
      · subst hij
        rw [setImpl_impls_self, heq]
        exact h hmem
      · rw [setImpl_impls_of_ne hij]
        exact h hmem
  | work hwork =>
      rename_i i work work' impl
      intro hmem
      by_cases hij : i = j
      · subst hij
        rw [setImpl_impls_self]
        exact ready_workStep hprepares (h hmem) hwork
      · rw [setImpl_impls_of_ne hij]
        exact h hmem
  | _ => exact h

theorem System.Ready.step {compiled : List ι} {action : Action ι Ctx Choice}
    (hprepares : (functions j).Prepares ready) (h : system.Ready ready j)
    (hstep : System.step functions compiled system action = some next) : next.Ready ready j := by
  unfold System.step at hstep
  cases action with
  | init hosts =>
      simp only [Option.ite_none_right_eq_some, Bool.and_eq_true, List.isEmpty_iff] at hstep
      cases hstep.2
      exact .init hprepares hosts compiled hstep.1.2
  | destroy =>
      simp only [Option.ite_none_right_eq_some] at hstep
      cases hstep.2
      simp [System.Ready, dcurlDestroy]
  | entry request =>
      cases hstep
      exact h
  | advance k choice =>
      obtain ⟨call, hk, hmap⟩ := Option.bind_eq_some_iff.mp hstep
      obtain ⟨⟨phase, shared⟩, hcall, heq⟩ := Option.map_eq_some_iff.mp hmap
      cases heq
      have hready : shared.Ready ready j := (callSteps_of_callStep hcall).keepsReady hprepares h
      exact hready

theorem System.Ready.run (functions : ι → PowFunctions Ctx Choice) {compiled : List ι}
    {contexts : ι → Nat → Slot Ctx} {actions : List (Action ι Ctx Choice)}
    (hprepares : (functions j).Prepares ready)
    (hrun : Machine.run (System.step functions compiled) (System.start contexts) actions =
      some system) : system.Ready ready j :=
  Machine.run_invariant (System.Ready ready j) (fun _ _ _ h hstep => h.step hprepares hstep)
    (by simp [System.Ready, System.start]) hrun

end system

section driver

variable {w : Nat} {backend : Backend w} {ctx : PowContext}

def PowContext.Findable (backend : Backend w) (ctx : PowContext) : Prop :=
  ∃ mid, ctx.StartsAt mid ∧ backend.SucceedsAlone mid ctx.mwm 0

theorem exists_pow_returned (hlawful : backend.Lawful) (hfaithful : backend.Faithful)
    (hvalid : ctx.Valid) (hfindable : ctx.Findable backend) :
    ∃ schedule ctx', backend.pow ctx schedule = some (.returned true ctx') := by
  have ⟨mid, hmid, halone⟩ := hfindable
  have ⟨schedule, pool, hrun, hfinished⟩ := Backend.exists_finished hlawful
    (show Backend.Sound backend mid ctx.mwm (backend.queue (embed mid) ctx.nonceArray) from
      Backend.sound_queue _)
  have hpool := Backend.sound_runPool hlawful hrun
  have hrecorded : Backend.Recorded pool :=
    (Backend.recorded_iff hpool hfinished).mpr ⟨⟨0, hvalid.threads_pos⟩, halone⟩
  have ⟨pitem, hcollect⟩ := Backend.collect_of_finished hfinished
  have ⟨ctx', hfinish, _⟩ :=
    Backend.finish_of_recorded hfaithful hvalid hmid hpool hcollect hrecorded
  refine ⟨schedule, ctx', ?_⟩
  rw [Backend.pow_eq hvalid hmid, show backend.runPool ctx.mwm (embed mid) ctx.nonceArray schedule =
    some pool from hrun, Option.bind_some, hcollect, Option.map_some, hfinish]

/-- A driver that returns has rejected exactly what is no transaction. -/
theorem result_of_pow (hlawful : backend.Lawful) (hfaithful : backend.Faithful) (ctx : PowContext)
    (hmwm : ctx.mwm ≤ 243) {schedule : List (Fin ctx.numThreads)} {result : Bool}
    {ctx' : PowContext} (hpow : backend.pow ctx schedule = some (.returned result ctx')) :
    result = ctx.inputTrytes.toList.all isTryte := by
  cases result with
  | true => exact (Backend.valid_of_returned hmwm hpow).trytes.symm
  | false =>
      cases htrytes : ctx.inputTrytes.toList.all isTryte with
      | false => rfl
      | true =>
          by_cases hthreads : 1 ≤ ctx.numThreads
          · have hvalid : ctx.Valid := ⟨htrytes, hmwm, hthreads⟩
            have ⟨mid, hmid⟩ := hvalid.exists_startsAt
            rw [Backend.pow_eq hvalid hmid] at hpow
            have ⟨pool, hrun, hmap⟩ := Option.bind_eq_some_iff.mp hpow
            have ⟨pitem, hcollect, hfinish⟩ := Option.map_eq_some_iff.mp hmap
            by_cases hrecorded : Backend.Recorded pool
            · have ⟨_, hfound, _⟩ := Backend.finish_of_recorded hfaithful hvalid hmid
                (Backend.sound_runPool hlawful hrun) hcollect hrecorded
              rw [hfound] at hfinish
              cases hfinish
            · rw [Backend.recorded_iff_of_collect hcollect] at hrecorded
              rw [Backend.finish_of_none_recorded { ctx with stopPow := false, hashCount := 0 } _ _
                hrecorded] at hfinish
              cases hfinish
          · unfold Backend.pow at hpow
            simp only [initTrytes_of_valid htrytes,
              txToCstate_of_valid htrytes Vector.length_toList] at hpow
            have ⟨pool, _, hmap⟩ := Option.bind_eq_some_iff.mp hpow
            have ⟨pitem, _, hfinish⟩ := Option.map_eq_some_iff.mp hmap
            have hnone : ¬∃ i, (pitem i).n = -1 := fun ⟨i, _⟩ => hthreads (by have := i.isLt; omega)
            rw [Backend.finish_of_none_recorded { ctx with stopPow := false, hashCount := 0 } _ _
              hnone] at hfinish
            cases hfinish

end driver

section cpu

variable {w : Nat} {backend : Backend w}

/-- The driver is bound to answer the request: it rejects the trytes or finds a nonce. -/
def Request.Answerable (backend : Backend w) (request : Request) : Prop :=
  request.mwm ≤ 243 ∧ (request.trytes.toList.all isTryte = true → ∃ mid,
    txToCstate ⟨request.trytes.toList, .trytes⟩ = some (embed mid) ∧
      backend.SucceedsAlone mid request.mwm 0)

def Request.Served (request : Request) : Option (Vector Int8 2673) → Prop
  | none => request.trytes.toList.all isTryte = false
  | some res => request.trytes.toList.all isTryte = true ∧ request.SolvedBy res

theorem scheduleOf_map {threads : Nat} (schedule : List (Fin threads)) :
    Backend.scheduleOf threads (schedule.map Fin.val) = schedule := by
  simp [Backend.scheduleOf, List.filterMap_map]

theorem powOn_of_pow {ctx : CpuContext} {schedule : List (Fin ctx.powContext.numThreads)}
    {result : Bool} {left : PowContext}
    (hpow : backend.pow ctx.powContext schedule = some (.returned result left)) :
    backend.powOn (schedule.map Fin.val) ctx = some (result, ctx.store left) := by
  unfold Backend.powOn
  rw [scheduleOf_map, hpow]

theorem one_le_numThreads_fill {ctx : CpuContext} (hready : 1 ≤ ctx.numMaxThreads)
    (request : Request) : 1 ≤ (ctx.fill request).powContext.numThreads := by
  simp only [CpuContext.fill, CpuContext.powContext]
  split <;> omega

theorem exists_powOn (hlawful : backend.Lawful) (hfaithful : backend.Faithful) (ctx : CpuContext)
    (hready : 1 ≤ ctx.numMaxThreads) {request : Request} (h : request.Answerable backend) :
    ∃ choice outcome, backend.powOn choice (ctx.fill request) = some outcome := by
  have hexists : ∃ schedule result ctx', backend.pow (ctx.fill request).powContext schedule =
      some (.returned result ctx') := by
    cases htrytes : request.trytes.toList.all isTryte with
    | true =>
        have ⟨mid, hmid, halone⟩ := h.2 htrytes
        have hvalid : (ctx.fill request).powContext.Valid :=
          ⟨htrytes, h.1, one_le_numThreads_fill hready request⟩
        have ⟨schedule, ctx', hpow⟩ := exists_pow_returned hlawful hfaithful hvalid
          ⟨mid, hmid, halone⟩
        exact ⟨schedule, true, ctx', hpow⟩
    | false =>
        have hinit : initTrytes (ctx.fill request).powContext.inputTrytes.toList = none := by
          rw [Option.eq_none_iff_forall_ne_some]
          intro object hobject
          have hvalid := (initTrytes_eq_some_iff.mp hobject).1
          exact Bool.false_ne_true (htrytes.symm.trans hvalid)
        exact ⟨[], false, by simp [Backend.pow, hinit]⟩
  have ⟨schedule, result, ctx', hpow⟩ := hexists
  exact ⟨schedule.map Fin.val, (result, (ctx.fill request).store ctx'), powOn_of_pow hpow⟩

theorem served_of_answers (hlawful : backend.Lawful) (hfaithful : backend.Faithful)
    {request : Request} (hmwm : request.mwm ≤ 243) {res : Option (Vector Int8 2673)}
    (h : Answers backend.cpuFunctions request res) : request.Served res := by
  have hresult : ∀ choice ctx result ctx',
      backend.cpuFunctions.doThePow choice (backend.cpuFunctions.fill request ctx) =
        some (result, ctx') → result = request.trytes.toList.all isTryte := by
    intro choice ctx result ctx' hpow
    change backend.powOn choice (ctx.fill request) = some (result, ctx') at hpow
    unfold Backend.powOn at hpow
    split at hpow
    · cases hpow
    · cases hpow
    · rename_i left hleft
      cases hpow
      exact result_of_pow hlawful hfaithful (ctx.fill request).powContext hmwm hleft
  cases res with
  | none =>
      have ⟨choice, ctx, ctx', hpow⟩ := h
      exact (hresult choice ctx false ctx' hpow).symm
  | some res =>
      have ⟨choice, ctx, ctx', hpow, _⟩ := h
      exact ⟨(hresult choice ctx true ctx' hpow).symm,
        Backend.solvedBy_of_answers hlawful hfaithful hmwm h⟩

variable {ι : Type} [DecidableEq ι]

end cpu

section witness

def nines : Request := ⟨almostNines, 14, 0⟩

theorem nines_answerable : nines.Answerable PowC.backend :=
  ⟨show 14 ≤ 243 by decide, fun _ => ⟨PowC.almostZero, txToCstate_almostNines,
    succeedsAlone_almostZero PowC.faithful (PowC.tryBatch_almostZero 14)⟩⟩

def System.Only (request : Request) (system : System Unit CpuContext) : Prop :=
  system.calls ≠ [] ∧ ∀ call ∈ system.calls, call.request = request ∧ call.phase ≠ .refused

theorem System.Only.step {functions : Unit → PowFunctions CpuContext (List Nat)}
    {request : Request} {system next : System Unit CpuContext}
    {action : Action Unit CpuContext (List Nat)} (h : system.Only request)
    (hadvance : action.IsAdvance) (hstep : System.step functions [()] system action = some next) :
    next.Only request := by
  cases action with
  | advance k choice =>
      obtain ⟨call, hk, hmap⟩ := Option.bind_eq_some_iff.mp hstep
      obtain ⟨⟨phase, shared⟩, hcall, heq⟩ := Option.map_eq_some_iff.mp hmap
      cases heq
      refine ⟨by simpa using h.1, fun other hother => ?_⟩
      cases List.mem_or_eq_of_mem_set hother with
      | inl hold => exact h.2 other hold
      | inr heq =>
          rw [heq]
          exact ⟨(h.2 call (List.mem_of_getElem? hk)).1, (callSteps_of_callStep hcall).ne_refused⟩
  | _ => cases hadvance

end witness

end Dcurl
