import Dcurl.DcurlEntry
import Dcurl.Library.Wakeup

/-! The semaphore `notify` of `dcurl_entry`: no call is left in `uv_sem_wait` when
nobody is going to post. The scan of `impl_list` asks one implementation at a time,
and calls that come later may take what a woken call was woken for. -/
namespace Dcurl

open Library

section parties

variable {ι Ctx Choice : Type}

def Phase.party (registered : Nat) : Phase ι → Wakeup.Party
  | .scanning rest => if rest.length = registered then .asking else .refused
  | .waiting => .parked
  | .working _ _ => .inside
  | .returned _ _ => .gone
  | .refused => .gone

/-- The call is scanning, working, or between `exit_impl_context` and `uv_sem_post`. -/
def Phase.isActive : Phase ι → Bool
  | .scanning _ => true
  | .working _ _ => true
  | _ => false

theorem Phase.isActive_of_isAwake {registered : Nat} {phase : Phase ι}
    (h : (phase.party registered).isAwake = true) : phase.isActive = true := by
  cases phase with
  | scanning rest => rfl
  | waiting => cases h
  | working i work => rfl
  | returned i res => cases h
  | refused => cases h

theorem Phase.party_of_isOver {phase : Phase ι} (h : phase.isOver = true) (registered : Nat) :
    phase.party registered = .gone := by
  cases phase with
  | scanning rest => cases h
  | waiting => cases h
  | working i work => cases h
  | returned i res => rfl
  | refused => rfl

theorem Phase.party_scanning_of_lt {registered : Nat} {rest : List ι}
    (h : rest.length < registered) : (Phase.scanning rest).party registered = .refused :=
  if_neg (by omega)

def System.parties (system : System ι Ctx) : List Wakeup.Party :=
  system.calls.map fun call => call.phase.party system.implList.length

/-- A call waits, the semaphore is 0, and nobody scans, works or is about to post. -/
def System.Stranded (system : System ι Ctx) : Prop :=
  (∃ call ∈ system.calls, call.phase = .waiting) ∧ system.notify = 0 ∧
    ∀ call ∈ system.calls, call.phase.isActive = false

/-- There is an implementation, and every one has room for a call. -/
def System.Provides (system : System ι Ctx) : Prop :=
  system.implList ≠ [] ∧ ∀ j ∈ system.implList, 1 ≤ (system.impls j).numMaxThread

/-- Calls that pass the test of `is_initialized` find implementations with room. -/
def Action.Provided (system : System ι Ctx) : Action ι Ctx Choice → Prop
  | .entry _ => system.isInitialized = true → system.Provides
  | _ => True

variable {system : System ι Ctx} {k : Nat} {call : Call ι}

theorem System.parties_of_getElem? (hk : system.calls[k]? = some call) :
    system.parties[k]? = some (call.phase.party system.implList.length) := by
  unfold System.parties
  rw [List.getElem?_map, hk]
  rfl

theorem System.alert_of_idle (hidle : system.idle = true) (tokens : Nat) :
    Wakeup.Alert system.parties tokens := by
  apply Wakeup.Alert.of_gone
  intro party hmem
  have ⟨call, hcall, hparty⟩ := List.mem_map.mp hmem
  rw [← hparty]
  exact Phase.party_of_isOver (List.all_eq_true.mp hidle call hcall) _

theorem System.not_idle (hk : system.calls[k]? = some call) (hover : call.phase.isOver = false) :
    system.idle = false := by
  unfold System.idle
  rw [List.all_eq_false]
  exact ⟨call, List.mem_of_getElem? hk, by rw [hover]; exact Bool.false_ne_true⟩

end parties

section work

variable {Ctx Choice : Type} {functions : PowFunctions Ctx Choice} {choice : Choice}
  {request : Request} {impl impl' : ImplContext Ctx} {work work' : Work}

theorem counter_workStep
    (hstep : workStep functions choice request work impl = some (work', impl')) :
    impl'.numMaxThread = impl.numMaxThread ∧
      impl'.numWorkingThread + work.stage.isInside.toNat =
        impl.numWorkingThread + work'.stage.isInside.toNat := by
  unfold workStep at hstep
  cases work with
  | admitted =>
      cases hget : getPowContext impl with
      | none =>
          simp only [hget] at hstep
          cases hstep
          exact ⟨rfl, rfl⟩
      | some found =>
          have ⟨(i, bitmap), _, hfound⟩ := Option.map_eq_some_iff.mp hget
          simp only [hget, ← hfound] at hstep
          cases hstep
          exact ⟨rfl, rfl⟩
  | noContext => cases hstep
  | filling i =>
      cases hstep
      exact ⟨rfl, rfl⟩
  | holding i =>
      have ⟨(result, ctx), _, heq⟩ := Option.map_eq_some_iff.mp hstep
      cases heq
      cases result <;> exact ⟨rfl, rfl⟩
  | computed i =>
      cases hstep
      exact ⟨rfl, rfl⟩
  | answered i res =>
      cases hstep
      exact ⟨rfl, rfl⟩
  | freed res =>
      cases hstep
      refine ⟨rfl, ?_⟩
      unfold exitImplContext Work.stage Slots.Stage.isInside
      simp
  | exited res => cases hstep

end work

section admission

variable {ι Ctx Choice : Type} [DecidableEq ι]

structure Admission (system : System ι Ctx) : Prop where
  counted : ∀ j, (system.impls j).numWorkingThread =
    ((system.stages j).countP Slots.Stage.isInside : Nat)
  provides : system.idle = false → system.Provides
  scanning : ∀ call ∈ system.calls, ∀ rest, call.phase = .scanning rest →
    rest <:+ system.implList
  alert : Wakeup.Alert system.parties system.notify

namespace Admission

variable {functions : ι → PowFunctions Ctx Choice} {system next : System ι Ctx}
  {choice : Choice} {k : Nat} {call : Call ι} {phase : Phase ι}

theorem not_stranded (h : Admission system) : ¬system.Stranded := by
  intro ⟨⟨call, hcall, hwaiting⟩, hnotify, hnone⟩
  have hparked : Wakeup.Party.parked ∈ system.parties := by
    apply List.mem_map.mpr
    exact ⟨call, hcall, by rw [hwaiting]; rfl⟩
  have ⟨party, hparty, hawake⟩ := h.alert.not_stranded hparked hnotify
  have ⟨other, hother, heq⟩ := List.mem_map.mp hparty
  rw [← heq] at hawake
  have hactive := Phase.isActive_of_isAwake hawake
  rw [hnone other hother] at hactive
  cases hactive

theorem inside_mem (h : Admission system) {j : ι} (hmax : 1 ≤ (system.impls j).numMaxThread)
    (hrefused : enterImplContext (system.impls j) = none) :
    Wakeup.Party.inside ∈ system.parties := by
  have hfull : (system.impls j).numWorkingThread ≥ (system.impls j).numMaxThread := by
    by_contra hroom
    unfold enterImplContext at hrefused
    rw [if_neg hroom] at hrefused
    cases hrefused
  have hcounted := h.counted j
  have hpos : 0 < (system.stages j).countP Slots.Stage.isInside := by omega
  have ⟨stage, hstage, hinside⟩ := List.countP_pos_iff.mp hpos
  have ⟨call, hcall, heq⟩ := List.mem_map.mp hstage
  apply List.mem_map.mpr
  refine ⟨call, hcall, ?_⟩
  rw [← heq] at hinside
  cases hphase : call.phase with
  | working i work => rfl
  | _ =>
      rw [hphase] at hinside
      cases hinside

theorem update (h : Admission system) (hk : system.calls[k]? = some call)
    (hover : call.phase.isOver = false) (hlist : next.implList = system.implList)
    (hmax : ∀ j, (next.impls j).numMaxThread = (system.impls j).numMaxThread)
    (hworking : ∀ j, (next.impls j).numWorkingThread +
        (call.phase.stageAt j).isInside.toNat =
      (system.impls j).numWorkingThread + (phase.stageAt j).isInside.toNat)
    (hscanning : ∀ rest, phase = .scanning rest → rest <:+ system.implList)
    (halert : Wakeup.Alert (system.parties.set k (phase.party system.implList.length))
      next.notify) :
    Admission { next with calls := system.calls.set k { call with phase := phase } } := by
  constructor
  · intro j
    have hset := Slots.countP_set_add (p := Slots.Stage.isInside) (phase.stageAt j)
      (stages_of_getElem? (j := j) hk)
    have hcounted := h.counted j
    have hstep := hworking j
    unfold System.stages at hset hcounted ⊢
    simp only [List.map_set]
    omega
  · intro _
    obtain ⟨hsome, hroom⟩ := h.provides (System.not_idle hk hover)
    unfold System.Provides
    simp only [hlist, hmax]
    exact ⟨hsome, hroom⟩
  · intro other hother rest hrest
    simp only [hlist]
    cases List.mem_or_eq_of_mem_set hother with
    | inl hmem => exact h.scanning other hmem rest hrest
    | inr heq =>
        rw [heq] at hrest
        exact hscanning rest hrest
  · unfold System.parties at halert ⊢
    simp only [List.map_set, hlist]
    exact halert

theorem update_of_eq (h : Admission system) (hk : system.calls[k]? = some call)
    (hover : call.phase.isOver = false) (hlist : next.implList = system.implList)
    (himpls : next.impls = system.impls)
    (hstage : ∀ j, (phase.stageAt j).isInside = (call.phase.stageAt j).isInside)
    (hscanning : ∀ rest, phase = .scanning rest → rest <:+ system.implList)
    (halert : Wakeup.Alert (system.parties.set k (phase.party system.implList.length))
      next.notify) :
    Admission { next with calls := system.calls.set k { call with phase := phase } } := by
  apply h.update hk hover hlist _ _ hscanning halert
  · intro j
    rw [himpls]
  · intro j
    rw [himpls, hstage]

theorem update_setImpl (h : Admission system) (hk : system.calls[k]? = some call)
    (hover : call.phase.isOver = false) {i : ι} {impl : ImplContext Ctx} {work : Work}
    (houtside : ∀ j, i ≠ j → call.phase.stageAt j = .outside)
    (hmax : impl.numMaxThread = (system.impls i).numMaxThread)
    (hworking : impl.numWorkingThread + (call.phase.stageAt i).isInside.toNat =
      (system.impls i).numWorkingThread + work.stage.isInside.toNat) :
    Admission { system.setImpl i impl with
      calls := system.calls.set k { call with phase := .working i work } } := by
  apply h.update hk hover (setImpl_implList i impl)
  · intro j
    by_cases hij : i = j
    · subst hij
      rw [setImpl_impls_self, hmax]
    · rw [setImpl_impls_of_ne hij]
  · intro j
    by_cases hij : i = j
    · subst hij
      rw [setImpl_impls_self, Phase.stageAt, if_pos rfl]
      exact hworking
    · rw [setImpl_impls_of_ne hij, houtside j hij, Phase.stageAt, if_neg hij]
  · intro rest heq
    cases heq
  · exact Wakeup.Alert.of_awake
      (Wakeup.mem_set_self (System.parties_of_getElem? hk) .inside) rfl

theorem scanning_lt (h : Admission system) (hk : system.calls[k]? = some call) {i : ι}
    {rest : List ι} (hphase : call.phase = .scanning (i :: rest)) :
    i ∈ system.implList ∧ rest <:+ system.implList ∧ rest.length < system.implList.length := by
  have hsuffix := h.scanning call (List.mem_of_getElem? hk) _ hphase
  have hlength := hsuffix.length_le
  rw [List.length_cons] at hlength
  exact ⟨hsuffix.subset List.mem_cons_self, (List.suffix_cons i rest).trans hsuffix, hlength⟩

theorem refused (h : Admission system) (hk : system.calls[k]? = some call) {i : ι}
    {rest : List ι} (hphase : call.phase = .scanning (i :: rest))
    (hrefused : enterImplContext (system.impls i) = none) :
    Admission { system with
      calls := system.calls.set k { call with phase := .scanning rest } } := by
  have ⟨hmem, hsuffix, hlt⟩ := h.scanning_lt hk hphase
  have hover : call.phase.isOver = false := by rw [hphase]; rfl
  have ⟨_, hroom⟩ := h.provides (System.not_idle hk hover)
  apply h.update_of_eq hk hover rfl rfl
  · intro j
    rw [hphase]
    rfl
  · intro other heq
    cases heq
    exact hsuffix
  · rw [Phase.party_scanning_of_lt hlt]
    apply Wakeup.Alert.refuse (System.parties_of_getElem? hk)
    · rw [hphase, Phase.party]
      split <;> exact Wakeup.Party.noConfusion
    · exact h.inside_mem (hroom i hmem) hrefused

theorem park (h : Admission system) (hk : system.calls[k]? = some call)
    (hphase : call.phase = .scanning []) :
    Admission { system with calls := system.calls.set k { call with phase := .waiting } } := by
  have hover : call.phase.isOver = false := by rw [hphase]; rfl
  have ⟨hsome, _⟩ := h.provides (System.not_idle hk hover)
  apply h.update_of_eq hk hover rfl rfl
  · intro j
    rw [hphase]
    rfl
  · intro rest heq
    cases heq
  · apply h.alert.park
    rw [System.parties_of_getElem? hk, hphase,
      Phase.party_scanning_of_lt (List.length_pos_iff.mpr hsome)]

theorem wake (h : Admission system) (hk : system.calls[k]? = some call)
    (hphase : call.phase = .waiting) :
    Admission { system with
      notify := system.notify - 1
      calls := system.calls.set k { call with phase := .scanning system.implList } } := by
  have hlist : { system with notify := system.notify - 1 }.implList = system.implList := rfl
  apply h.update_of_eq hk (by rw [hphase]; rfl) hlist rfl
  · intro j
    rw [hphase]
    rfl
  · intro rest heq
    cases heq
    exact List.suffix_refl _
  · rw [Phase.party, if_pos rfl]
    exact Wakeup.Alert.of_awake
      (Wakeup.mem_set_self (System.parties_of_getElem? hk) .asking) rfl

theorem post (h : Admission system) (hk : system.calls[k]? = some call) {i : ι}
    {res : Option (Vector Int8 2673)} (hphase : call.phase = .working i (.exited res)) :
    Admission { system with
      notify := system.notify + 1
      calls := system.calls.set k { call with phase := .returned i res } } := by
  have hlist : { system with notify := system.notify + 1 }.implList = system.implList := rfl
  apply h.update_of_eq hk (by rw [hphase]; rfl) hlist rfl
  · intro j
    rw [hphase]
    exact (congrArg Slots.Stage.isInside (ite_self Slots.Stage.outside)).symm
  · intro rest heq
    cases heq
  · exact Wakeup.Alert.of_tokens (Nat.succ_pos _)

theorem advance (h : Admission system) (hk : system.calls[k]? = some call)
    (hstep : callStep functions choice system call = some (phase, next)) :
    Admission { next with calls := system.calls.set k { call with phase := phase } } := by
  have hsteps := callSteps_of_callStep hstep
  generalize hphase : call.phase = old at hsteps
  cases hsteps with
  | park => exact h.park hk hphase
  | refused hrefused => exact h.refused hk hphase hrefused
  | enter henter =>
      have ⟨_, heq⟩ := enterImplContext_eq_some_iff.mp henter
      apply h.update_setImpl hk (by rw [hphase]; rfl)
      · intro j _
        rw [hphase]
        rfl
      · rw [heq]
      · rw [heq, hphase]
        exact Int.add_zero _
  | wake hpos => exact h.wake hk hphase
  | work hwork =>
      rename_i i work work' impl
      have ⟨hmax, hworking⟩ := counter_workStep hwork
      apply h.update_setImpl hk (by rw [hphase]; rfl) _ hmax
      · rw [hphase, Phase.stageAt, if_pos rfl]
        exact hworking
      · intro j hij
        rw [hphase, Phase.stageAt, if_neg hij]
  | post => exact h.post hk hphase

theorem start (contexts : ι → Nat → Slot Ctx) : Admission (System.start contexts) := by
  constructor
  · intro j
    rfl
  · intro hidle
    cases hidle
  · intro call hcall
    cases hcall
  · exact System.alert_of_idle rfl _

theorem of_idle (h : Admission system) (hidle : system.idle = true)
    (hcalls : next.calls = system.calls)
    (hworking : ∀ j, (next.impls j).numWorkingThread = (system.impls j).numWorkingThread) :
    Admission next := by
  have hnext : next.idle = true := by
    unfold System.idle
    rw [hcalls]
    exact hidle
  constructor
  · intro j
    unfold System.stages
    rw [hworking, hcalls]
    exact h.counted j
  · intro hbusy
    rw [hnext] at hbusy
    cases hbusy
  · intro call hcall rest hrest
    have hover := List.all_eq_true.mp hnext call hcall
    rw [hrest] at hover
    cases hover
  · exact System.alert_of_idle hnext _

theorem entry (h : Admission system) (request : Request)
    (hprovided : system.isInitialized = true → system.Provides) :
    Admission { system with
      calls := system.calls ++
        [⟨request, if system.isInitialized then .scanning system.implList else .refused⟩] } := by
  have hcounted : ∀ j, (system.stages j ++ [Slots.Stage.outside]).countP Slots.Stage.isInside =
      (system.stages j).countP Slots.Stage.isInside := by
    intro j
    rw [List.countP_append]
    rfl
  cases hinit : system.isInitialized with
  | true =>
      have hprovides := hprovided hinit
      constructor
      · intro j
        unfold System.stages
        rw [List.map_append]
        exact (h.counted j).trans (congrArg _ (hcounted j).symm)
      · intro _
        exact hprovides
      · intro call hcall rest hrest
        rw [List.mem_append, List.mem_singleton] at hcall
        cases hcall with
        | inl hold => exact h.scanning call hold rest hrest
        | inr heq =>
            rw [heq] at hrest
            cases hrest
            exact List.suffix_refl _
      · unfold System.parties
        rw [List.map_append]
        have hasking : Wakeup.Party.asking = if system.implList.length = system.implList.length
            then .asking else .refused := (if_pos rfl).symm
        exact Wakeup.Alert.of_awake (List.mem_append_right _ (List.mem_singleton.mpr hasking)) rfl
  | false =>
      constructor
      · intro j
        unfold System.stages
        rw [List.map_append]
        exact (h.counted j).trans (congrArg _ (hcounted j).symm)
      · intro hbusy
        unfold System.idle at hbusy
        rw [List.all_append] at hbusy
        exact h.provides ((Bool.and_true _).symm.trans hbusy)
      · intro call hcall rest hrest
        rw [List.mem_append, List.mem_singleton] at hcall
        cases hcall with
        | inl hold => exact h.scanning call hold rest hrest
        | inr heq =>
            rw [heq] at hrest
            cases hrest
      · unfold System.parties
        rw [List.map_append]
        exact h.alert.append_gone

theorem init (h : Admission system) (hidle : system.idle = true) (compiled : List ι)
    (hosts : ι → Host Ctx) : Admission (dcurlInit functions compiled hosts system) := by
  apply h.of_idle hidle
  · exact calls_registerImplContext (false, system) compiled
  · intro j
    exact numWorkingThread_registerImplContext (false, system) compiled j

theorem step {compiled : List ι} {action : Action ι Ctx Choice} (h : Admission system)
    (hprovided : action.Provided system)
    (hstep : System.step functions compiled system action = some next) : Admission next := by
  unfold System.step at hstep
  cases action with
  | init hosts =>
      simp only at hstep
      split at hstep
      · rename_i hready
        rw [Bool.and_eq_true] at hready
        cases hstep
        exact h.init hready.1 compiled hosts
      · cases hstep
  | destroy =>
      simp only at hstep
      split at hstep
      · rename_i hidle
        cases hstep
        exact h.of_idle hidle rfl fun _ => rfl
      · cases hstep
  | entry request =>
      cases hstep
      exact h.entry request hprovided
  | advance k choice =>
      have ⟨call, hk, hmap⟩ := Option.bind_eq_some_iff.mp hstep
      have ⟨(phase, shared), hcall, heq⟩ := Option.map_eq_some_iff.mp hmap
      cases heq
      exact h.advance hk hcall

end Admission

/-- No wake-up is lost, however many calls there are and however their steps
interleave. -/
theorem notify_never_stranded (functions : ι → PowFunctions Ctx Choice) (compiled : List ι)
    (contexts : ι → Nat → Slot Ctx) (actions : List (Action ι Ctx Choice)) (final : System ι Ctx)
    (hprovided : Machine.Along Action.Provided (System.step functions compiled)
      (System.start contexts) actions)
    (hrun : Machine.run (System.step functions compiled) (System.start contexts) actions =
      some final) : ¬final.Stranded := by
  have hadmission : Admission final := by
    apply Machine.run_invariant_along Action.Provided Admission _ (Admission.start contexts)
      hprovided hrun
    intro state action next h hallowed hstep
    exact h.step hallowed hstep
  exact hadmission.not_stranded

end admission

section witness

def refusedActions : List (Action Unit CpuContext (List Nat)) :=
  [.init fun _ => ⟨1, 1, some fun _ => ⟨0, .blank⟩⟩, .entry ⟨Vector.replicate 2673 0, 14, 0⟩,
    .entry ⟨Vector.replicate 2673 0, 14, 0⟩, .advance 0 [], .advance 1 [], .advance 1 []]

theorem notify_never_stranded_refused :
    ∃ final, Machine.run (System.step (fun _ => PowC.backend.cpuFunctions) [()])
        (System.start fun _ _ => ⟨0, .blank⟩) refusedActions = some final ∧ ¬final.Stranded := by
  have hsome : (Machine.run (System.step (fun _ => PowC.backend.cpuFunctions) [()])
      (System.start fun _ _ => ⟨0, .blank⟩) refusedActions).isSome = true := rfl
  have ⟨final, hrun⟩ := Option.isSome_iff_exists.mp hsome
  refine ⟨final, hrun, notify_never_stranded _ [()] _ refusedActions final ?_ hrun⟩
  have hroom : ((1 : Int) ≤ 1) := le_refl 1
  refine ⟨trivial, fun first hfirst => ?_⟩
  cases hfirst
  refine ⟨fun _ => ⟨List.cons_ne_nil _ _, fun _ _ => hroom⟩, fun second hsecond => ?_⟩
  cases hsecond
  refine ⟨fun _ => ⟨List.cons_ne_nil _ _, fun _ _ => hroom⟩, fun third _ => ?_⟩
  exact ⟨trivial, fun _ _ => ⟨trivial, fun _ _ => ⟨trivial, fun _ _ => trivial⟩⟩⟩

end witness

end Dcurl
