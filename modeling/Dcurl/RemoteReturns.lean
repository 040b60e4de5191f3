import Dcurl.EntryServes
import Dcurl.RemoteSafety

/-! With the remote interface, too, every call comes to its end: a call that the broker
fails pays for its local attempt when it enters the remote branch, and neither semaphore
leaves a call waiting. -/
namespace Dcurl

open Library

section rank

variable {ι Ctx Choice Queue : Type}

def RemoteSide.rank (side : RemoteSide) : Nat :=
  (side.calls.map fun call => call.phase.rank side.remoteImplList.length).sum +
    side.notifyRemote * (side.remoteImplList.length + 2)

def EntryPhase.rank (registered : Nat) : EntryPhase → Nat
  | .refused => 0
  | .remotePow _ => 2 * registered + 12
  | .localPow _ => 0

def EntrySystem.rank (system : EntrySystem ι Ctx) : Nat :=
  system.side.rank + system.localSide.rank +
    (system.entries.map fun entry => entry.phase.rank system.localSide.implList.length).sum

def EntryAction.IsMove : EntryAction ι Ctx Choice Queue → Prop
  | .remoteStep _ _ => True
  | .fallback _ => True
  | .localStep _ _ => True
  | _ => False

theorem RemoteSide.Refines.rank_eq {side : RemoteSide} {abs : RemoteSystem}
    (h : side.Refines abs) : side.rank = abs.rank := by
  unfold RemoteSide.rank System.rank
  rw [h.calls_eq, h.implList_eq, h.notify_eq]

variable [DecidableEq ι]

theorem RemoteSide.Simulated.rank_lt {side side' : RemoteSide} {k : Nat} {attempt : Attempt Queue}
    (h : side.Simulated Queue) (hstep : side.step k attempt = some side') :
    side'.rank < side.rank := by
  have ⟨abs, hrefines, hinv, hadmission⟩ := h
  have ⟨call, hk, hmap⟩ := Option.bind_eq_some_iff.mp hstep
  have ⟨(phase, shared), hcall, heq⟩ := Option.map_eq_some_iff.mp hmap
  have ⟨abs', habs, hrefines'⟩ := exists_callStep hrefines hinv hk hcall
  have hk' : abs.calls[k]? = some call := by rw [hrefines.calls_eq, hk]
  have hlt := rank_advance hk' habs
  cases heq
  rw [← hrefines.calls_eq, (hrefines'.setCalls _).rank_eq, hrefines.rank_eq]
  exact hlt

end rank

section provided

variable {ι Ctx Choice Queue : Type} [DecidableEq ι]

/-- Calls that pass the test of `is_initialized` find local implementations with room. -/
def EntryAction.Provided (system : EntrySystem ι Ctx) : EntryAction ι Ctx Choice Queue → Prop
  | .entry _ => system.localSide.isInitialized = true → system.localSide.Provides
  | _ => True

structure EntrySystem.Admitted (system : EntrySystem ι Ctx) : Prop where
  locals : Admission system.localSide
  provides : system.idle = false → system.localSide.Provides

variable {functions : ι → PowFunctions Ctx Choice} {choice : Choice} {request : Request}

theorem CallSteps.provides {system next : System ι Ctx} {phase phase' : Phase ι}
    (h : CallSteps functions choice system request phase phase' next)
    (hprovides : system.Provides) : next.Provides := by
  cases h with
  | enter henter =>
      rename_i i rest impl
      have ⟨_, heq⟩ := enterImplContext_eq_some_iff.mp henter
      refine ⟨hprovides.1, fun j hj => ?_⟩
      by_cases hij : i = j
      · subst hij
        rw [setImpl_impls_self, heq]
        exact hprovides.2 i hj
      · rw [setImpl_impls_of_ne hij]
        exact hprovides.2 j hj
  | work hwork =>
      rename_i i work work' impl
      refine ⟨hprovides.1, fun j hj => ?_⟩
      by_cases hij : i = j
      · subst hij
        rw [setImpl_impls_self, (counter_workStep hwork).1]
        exact hprovides.2 i hj
      · rw [setImpl_impls_of_ne hij]
        exact hprovides.2 j hj
  | _ => exact hprovides

theorem provides_advance {compiled : List ι} {system next : System ι Ctx} {k : Nat}
    (hstep : System.step functions compiled system (.advance k choice) = some next) :
    system.idle = false ∧ (system.Provides → next.Provides) := by
  have ⟨call, hk, hmap⟩ := Option.bind_eq_some_iff.mp hstep
  have ⟨(phase, shared), hcall, heq⟩ := Option.map_eq_some_iff.mp hmap
  have hsteps := callSteps_of_callStep hcall
  cases heq
  refine ⟨System.not_idle hk ?_, hsteps.provides⟩
  generalize call.phase = old at hsteps
  cases hsteps <;> rfl

namespace EntrySystem.Admitted

variable {system next : EntrySystem ι Ctx} {compiled : List ι}

theorem start (remoteContexts : Nat → PowRemoteContext) (contexts : ι → Nat → Slot Ctx) :
    (EntrySystem.start remoteContexts contexts).Admitted :=
  ⟨.start contexts, Bool.noConfusion⟩

theorem of_idle (hlocals : Admission next.localSide) (hidle : system.idle = true)
    (hside : next.side.calls = system.side.calls)
    (hcalls : next.localSide.calls = system.localSide.calls)
    (hentries : next.entries = system.entries) : next.Admitted := by
  refine ⟨hlocals, fun hbusy => ?_⟩
  have hsame : next.idle = system.idle := by
    unfold EntrySystem.idle EntrySystem.result System.idle
    rw [hside, hcalls, hentries]
  rw [hsame, hidle] at hbusy
  cases hbusy

theorem enter (h : system.Admitted) (request : Request)
    (hprovided : system.localSide.isInitialized = true → system.localSide.Provides) :
    (system.enter request).Admitted := by
  unfold EntrySystem.enter
  split
  · refine ⟨h.locals, fun hbusy => h.provides ?_⟩
    simpa [EntrySystem.idle, EntrySystem.result] using hbusy
  · rename_i hinit
    have hprovides := hprovided (by simpa using hinit)
    split
    · exact ⟨h.locals, fun _ => hprovides⟩
    · exact ⟨h.locals.enqueue request hprovides, fun _ => hprovides⟩

omit [DecidableEq ι] in
theorem not_idle {e k : Nat} {request : Request}
    (hentry : system.entries[e]? = some ⟨request, .remotePow k⟩)
    (hresult : system.result ⟨request, .remotePow k⟩ = none) : system.idle = false := by
  unfold EntrySystem.idle
  rw [Bool.and_eq_false_iff]
  right
  rw [List.all_eq_false]
  exact ⟨_, List.mem_of_getElem? hentry, by simp [hresult]⟩

theorem fallback {e : Nat} (h : system.Admitted) (hstep : system.fallback e = some next) :
    next.Admitted := by
  unfold EntrySystem.fallback at hstep
  split at hstep
  · rename_i request k hentry
    split at hstep
    · rename_i hcall
      cases hstep
      have hprovides := h.provides (not_idle hentry (by simp [EntrySystem.result, hcall]))
      exact ⟨h.locals.enqueue request hprovides, fun _ => hprovides⟩
    · cases hstep
  · cases hstep

omit [DecidableEq ι] in
theorem idle_side {k : Nat} {attempt : Attempt Queue} {side : RemoteSide}
    (hstep : system.side.step k attempt = some side) : system.idle = false := by
  have ⟨call, hk, hmap⟩ := Option.bind_eq_some_iff.mp hstep
  have ⟨(phase, shared), hcall, _⟩ := Option.map_eq_some_iff.mp hmap
  have hover : call.phase.isOver = false := by
    unfold remoteCallStep at hcall
    cases hphase : call.phase <;> simp [hphase] at hcall <;> rfl
  unfold EntrySystem.idle
  rw [List.all_eq_false.mpr ⟨call, List.mem_of_getElem? hk, by simp [hover]⟩]
  rfl

theorem step {action : EntryAction ι Ctx Choice Queue} (h : system.Admitted)
    (hprovided : action.Provided system)
    (hstep : system.step functions compiled action = some next) : next.Admitted := by
  cases action with
  | init hosts memory =>
      simp only [EntrySystem.step, Option.ite_none_right_eq_some, Bool.and_eq_true] at hstep
      obtain ⟨⟨⟨hidle, _⟩, _⟩, heq⟩ := hstep
      have hlocal : system.localSide.idle = true := by
        unfold EntrySystem.idle at hidle
        simp only [Bool.and_eq_true] at hidle
        exact hidle.1.2
      cases heq
      refine of_idle ((h.locals.init hlocal compiled hosts).setInitialized _) hidle ?_ ?_ rfl
      · exact calls_registerRemote memory system.side
      · exact calls_registerImplContext (false, system.localSide) compiled
  | destroy =>
      simp only [EntrySystem.step, Option.ite_none_right_eq_some] at hstep
      obtain ⟨hidle, heq⟩ := hstep
      have hlocal : system.localSide.idle = true := by
        unfold EntrySystem.idle at hidle
        simp only [Bool.and_eq_true] at hidle
        exact hidle.1.2
      cases heq
      exact of_idle (h.locals.of_idle hlocal rfl fun _ => rfl) hidle rfl rfl rfl
  | entry request =>
      cases hstep
      exact h.enter request hprovided
  | remoteStep k attempt =>
      obtain ⟨side, hside, heq⟩ := Option.map_eq_some_iff.mp hstep
      cases heq
      exact ⟨h.locals, fun _ => h.provides (idle_side hside)⟩
  | fallback e => exact h.fallback hstep
  | localStep k choice =>
      obtain ⟨localSide, hlocal, heq⟩ := Option.map_eq_some_iff.mp hstep
      cases heq
      obtain ⟨hidle, hprovides⟩ := provides_advance hlocal
      have hlocals : Admission localSide := by
        apply h.locals.step _ hlocal
        trivial
      refine ⟨hlocals, fun _ => hprovides (h.provides ?_)⟩
      simp [EntrySystem.idle, hidle]

theorem run {actions : List (EntryAction ι Ctx Choice Queue)}
    {remoteContexts : Nat → PowRemoteContext} {contexts : ι → Nat → Slot Ctx}
    (hprovided : Machine.Along EntryAction.Provided (EntrySystem.step functions compiled)
      (EntrySystem.start remoteContexts contexts) actions)
    (hrun : Machine.run (EntrySystem.step functions compiled)
      (EntrySystem.start remoteContexts contexts) actions = some system) : system.Admitted :=
  Machine.run_invariant_along EntryAction.Provided EntrySystem.Admitted
    (fun _ _ _ h hallowed hstep => h.step hallowed hstep) (start remoteContexts contexts) hprovided
    hrun

end EntrySystem.Admitted

end provided

section returns

variable {ι Ctx Choice Queue : Type} [DecidableEq ι] {functions : ι → PowFunctions Ctx Choice}
  {compiled : List ι} {system next : EntrySystem ι Ctx}

omit [DecidableEq ι] in
theorem EntryAction.IsMove.fits {action : EntryAction ι Ctx Choice Queue} (h : action.IsMove) :
    action.Fits functions := by
  cases action with
  | init hosts memory => cases h
  | _ => trivial

/-- However the calls take turns, and however the broker treats them, they come to an end,
and what is then left is `do_the_pow` of a local implementation. -/
structure EntrySystem.Returns (Queue : Type) (functions : ι → PowFunctions Ctx Choice)
    (compiled : List ι) (system : EntrySystem ι Ctx) : Prop where
  bounded : ∀ (moves : List (EntryAction ι Ctx Choice Queue)) final,
    (∀ action ∈ moves, action.IsMove) →
      Machine.run (EntrySystem.step functions compiled) system moves = some final →
        moves.length ≤
          system.side.calls.length * (2 * system.side.remoteImplList.length + 11) +
            system.side.notifyRemote * (system.side.remoteImplList.length + 2) +
          (system.localSide.calls.length * (2 * system.localSide.implList.length + 11) +
            system.localSide.notify * (system.localSide.implList.length + 2)) +
          system.entries.length * (2 * system.localSide.implList.length + 12)
  stuck : (∀ action : EntryAction ι Ctx Choice Queue, action.IsMove →
      EntrySystem.step functions compiled system action = none) →
    system.idle = true ∨ ∃ call ∈ system.localSide.calls, system.localSide.Blocks functions call

end returns

section served

variable {ι Ctx Choice Queue : Type} [DecidableEq ι] {functions : ι → PowFunctions Ctx Choice}
  {compiled : List ι} {system next : EntrySystem ι Ctx}

/-- What an entry has brought its caller: the answer of the broker to its own request in an
attempt that its call made, or else what the local driver is bound to answer. -/
def Entry.Served (made : Nat → Attempt Queue → Prop) (entry : Entry)
    (res : Option (Vector Int8 2673)) : Prop :=
  match entry.phase with
  | .refused => res = none
  | .remotePow k => res ≠ none ∧ ∃ attempt, made k attempt ∧ attempt.answer entry.request = res
  | .localPow _ => entry.request.Served res

end served

section witness

def EntrySystem.FellBack (request : Request) (system : EntrySystem Unit CpuContext) : Prop :=
  system.Inv Unit (fun _ => PowC.backend.cpuFunctions) ∧
    system.entries = [⟨request, .localPow 0⟩]

theorem EntrySystem.FellBack.step {request : Request} {system next : EntrySystem Unit CpuContext}
    {action : EntryAction Unit CpuContext (List Nat) Unit} (h : system.FellBack request)
    (hmove : action.IsMove)
    (hstep : system.step (fun _ => PowC.backend.cpuFunctions) [()] action = some next) :
    next.FellBack request := by
  refine ⟨h.1.step hmove.fits hstep, ?_⟩
  cases action with
  | remoteStep k attempt =>
      obtain ⟨side, _, heq⟩ := Option.map_eq_some_iff.mp hstep
      cases heq
      exact h.2
  | fallback e =>
      cases e <;> simp [EntrySystem.step, EntrySystem.fallback, h.2] at hstep
  | localStep k choice =>
      obtain ⟨side, _, heq⟩ := Option.map_eq_some_iff.mp hstep
      cases heq
      exact h.2
  | _ => cases hmove

end witness

end Dcurl
