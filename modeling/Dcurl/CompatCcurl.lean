import Dcurl.Library.Once
import Dcurl.Lifecycle

/-! The interface of `ccurl`: its first call of all runs `dcurl_init`, under a mutex, and
no other does. `ccurl_pow_finalize` does not clear the `is_initialized` of this file either. -/
namespace Dcurl

open Library

inductive CcurlCall where
  | pow (hardware : Hardware)
  | powFinalize
  | powInterrupt

structure Compat where
  isInitialized : Bool
  registry : Registry

namespace Compat

def start : Compat := ⟨false, .start⟩

/-- `ccurl_pow` up to its call of `dcurl_entry`, which finds the registry that this leaves. -/
def ccurlPow (build : Build) (hardware : Hardware) (compat : Compat) : Option Compat :=
  if compat.isInitialized then some compat
  else (Registry.dcurlInit build hardware compat.registry).map fun registry => ⟨true, registry⟩

def ccurlPowFinalize (build : Build) (compat : Compat) : Option Compat :=
  (Registry.dcurlDestroy build compat.registry).map fun (_, registry) =>
    { compat with registry := registry }

def ccurlPowInterrupt (compat : Compat) : Compat := compat

def step (build : Build) (compat : Compat) : CcurlCall → Option Compat
  | .pow hardware => ccurlPow build hardware compat
  | .powFinalize => ccurlPowFinalize build compat
  | .powInterrupt => some (ccurlPowInterrupt compat)

end Compat

def CcurlCall.lifecycle : Bool → List CcurlCall → List Lifecycle
  | _, [] => []
  | false, .pow hardware :: rest => .init hardware :: .entry :: lifecycle true rest
  | true, .pow _ :: rest => .entry :: lifecycle true rest
  | isInitialized, .powFinalize :: rest => .destroy :: lifecycle isInitialized rest
  | isInitialized, .powInterrupt :: rest => lifecycle isInitialized rest

namespace Registry

variable {build : Build} {hardware : Hardware} {registry next : Registry}

def Idle (registry : Registry) : Prop :=
  (∀ impl, registry.impls.live impl = false) ∧ ∀ remote, registry.remote.live remote = false

theorem start_idle : start.Idle := ⟨fun _ => rfl, fun _ => rfl⟩

theorem Idle.fresh (h : registry.Idle) : registry.Fresh build (.init hardware) :=
  ⟨fun impl _ _ => h.1 impl, fun remote _ _ => h.2 remote⟩

theorem Idle.init (h : registry.Idle) (hordered : registry.Ordered build) (hardware : Hardware) :
    ∃ next, dcurlInit build hardware registry = some next ∧ next.Ordered build := by
  obtain ⟨next, hinit, hwell⟩ := hordered.init h.fresh
  have hstep : Registry.step build registry (.init hardware) = some next := hinit
  exact ⟨next, hinit, hordered.step hwell hstep⟩

theorem Ordered.destroy (h : registry.Ordered build) :
    ∃ log next, dcurlDestroy build registry = some (log, next) ∧ next.Ordered build ∧
      next.Idle := by
  obtain ⟨remotes, impls, next, hdestroy, _, _, hempty, hempty'⟩ := h.destroysOnce
  have hstep : Registry.step build registry .destroy = some next := by
    simp [Registry.step, hdestroy]
  have hwell : next.WellFormed :=
    ⟨.of_empty hempty.1 hempty.2, .of_empty hempty'.1 hempty'.2⟩
  exact ⟨_, next, hdestroy, h.step hwell hstep, hempty.2, hempty'.2⟩

end Registry

namespace Compat

variable {build : Build} {hardware : Hardware} {compat next final : Compat}

section lists

/-- The lists are in order before the call and after it, which comes to its end, `ccurl_pow` to
its call of `dcurl_entry`. -/
structure Keeps (build : Build) (compat : Compat) (call : CcurlCall) : Prop where
  before : compat.registry.WellFormed
  after : ∃ next, step build compat call = some next ∧ next.registry.WellFormed
  destroys : call = .powFinalize → compat.registry.DestroysOnce build

structure Ordered (build : Build) (compat : Compat) : Prop where
  registry : compat.registry.Ordered build
  idle : compat.isInitialized = false → compat.registry.Idle

theorem start_ordered (build : Build) : start.Ordered build :=
  ⟨Registry.start_ordered build, fun _ => Registry.start_idle⟩

theorem Ordered.step (h : compat.Ordered build) (call : CcurlCall) :
    ∃ next, step build compat call = some next ∧ next.Ordered build := by
  cases call with
  | pow hardware =>
      cases hflag : compat.isInitialized with
      | true => exact ⟨compat, by simp [Compat.step, ccurlPow, hflag], h⟩
      | false =>
          obtain ⟨registry, hinit, hordered⟩ :=
            Registry.Idle.init (h.idle hflag) h.registry hardware
          exact ⟨⟨true, registry⟩, by simp [Compat.step, ccurlPow, hflag, hinit], hordered,
            by simp⟩
  | powFinalize =>
      obtain ⟨log, registry, hdestroy, hordered, hidle⟩ := h.registry.destroy
      exact ⟨{ compat with registry := registry },
        by simp [Compat.step, ccurlPowFinalize, hdestroy], hordered, fun _ => hidle⟩
  | powInterrupt => exact ⟨compat, rfl, h⟩

theorem Ordered.keeps (h : compat.Ordered build) (call : CcurlCall) :
    compat.Keeps build call := by
  obtain ⟨next, hstep, hnext⟩ := h.step call
  exact ⟨h.registry.wellFormed, ⟨next, hstep, hnext.registry.wellFormed⟩,
    fun _ => h.registry.destroysOnce⟩

theorem exists_run (h : compat.Ordered build) (calls : List CcurlCall) :
    ∃ final, Machine.run (Compat.step build) compat calls = some final := by
  induction calls generalizing compat with
  | nil => exact ⟨compat, rfl⟩
  | cons call rest ih =>
      obtain ⟨next, hstep, hnext⟩ := h.step call
      obtain ⟨final, hrun⟩ := ih hnext
      exact ⟨final, by simp [hstep, hrun]⟩

/-- The calls of `ccurl` keep the lists in order in every sequence: `is_initialized` keeps
`dcurl_init` from running on what it has registered. -/
theorem ccurl_keeps_lists (build : Build) (calls : List CcurlCall) :
    Machine.Along (Keeps build) (step build) start calls := by
  suffices h : ∀ compat : Compat, compat.Ordered build →
      Machine.Along (Keeps build) (step build) compat calls from h start (start_ordered build)
  intro compat h
  induction calls generalizing compat with
  | nil => trivial
  | cons call rest ih =>
      obtain ⟨next, hstep, hnext⟩ := h.step call
      exact Machine.along_cons (h.keeps call) hstep (ih next hnext)

end lists

section served

def Serves (build : Build) (hardware : Hardware) : Prop :=
  ∃ impl ∈ build.impls, impl.starts hardware = true ∧
    1 ≤ Registry.start.maxAfter build hardware impl

theorem run_eq (build : Build) (calls : List CcurlCall) (compat : Compat) :
    (Machine.run (step build) compat calls).map (fun final => final.registry) =
      Machine.run (Registry.step build) compat.registry
        (CcurlCall.lifecycle compat.isInitialized calls) := by
  induction calls generalizing compat with
  | nil => cases compat.isInitialized <;> rfl
  | cons call rest ih =>
      obtain ⟨isInitialized, registry⟩ := compat
      cases call with
      | pow hardware =>
          cases isInitialized with
          | true =>
              simpa [step, ccurlPow, CcurlCall.lifecycle, Registry.step] using ih ⟨true, registry⟩
          | false =>
              cases hinit : Registry.dcurlInit build hardware registry with
              | none => simp [step, ccurlPow, CcurlCall.lifecycle, Registry.step, hinit]
              | some next =>
                  simpa [step, ccurlPow, CcurlCall.lifecycle, Registry.step, hinit] using
                    ih ⟨true, next⟩
      | powFinalize =>
          cases hdestroy : Registry.dcurlDestroy build registry with
          | none =>
              cases isInitialized <;>
                simp [step, ccurlPowFinalize, CcurlCall.lifecycle, Registry.step, hdestroy]
          | some next =>
              cases isInitialized <;>
                simpa [step, ccurlPowFinalize, CcurlCall.lifecycle, Registry.step, hdestroy] using
                  ih ⟨_, next.2⟩
      | powInterrupt =>
          cases isInitialized <;>
            simpa [step, ccurlPowInterrupt, CcurlCall.lifecycle] using ih ⟨_, registry⟩

theorem lifecycle_append_pow (before after : List CcurlCall) (hardware : Hardware)
    (hfirst : ∀ other, .pow other ∉ before) :
    CcurlCall.lifecycle false (before ++ .pow hardware :: after) =
      CcurlCall.lifecycle false before ++ .init hardware :: .entry ::
        CcurlCall.lifecycle true after := by
  induction before with
  | nil => rfl
  | cons call rest ih =>
      have hrest := ih fun other hmem => hfirst other (List.mem_cons_of_mem _ hmem)
      cases call with
      | pow other => exact absurd List.mem_cons_self (hfirst other)
      | _ => simp [CcurlCall.lifecycle, hrest]

theorem init_notMem_lifecycle (calls : List CcurlCall) (hardware : Hardware) :
    .init hardware ∉ CcurlCall.lifecycle true calls := by
  induction calls with
  | nil => simp [CcurlCall.lifecycle]
  | cons call rest ih => cases call <;> simpa [CcurlCall.lifecycle] using ih

theorem destroy_mem_lifecycle (isInitialized : Bool) (calls : List CcurlCall) :
    .destroy ∈ CcurlCall.lifecycle isInitialized calls ↔ .powFinalize ∈ calls := by
  induction calls generalizing isInitialized with
  | nil => simp [CcurlCall.lifecycle]
  | cons call rest ih => cases isInitialized <;> cases call <;> simp [CcurlCall.lifecycle, ih]

theorem numMaxThread_run {before : List Lifecycle} {registry next : Registry}
    (hinit : ∀ other, .init other ∉ before)
    (hrun : Machine.run (Registry.step build) registry before = some next) :
    next.numMaxThread = registry.numMaxThread := by
  induction before generalizing registry with
  | nil =>
      cases hrun
      rfl
  | cons call rest ih =>
      obtain ⟨middle, hstep, hrest⟩ := Option.bind_eq_some_iff.mp hrun
      rw [ih (fun other hmem => hinit other (List.mem_cons_of_mem _ hmem)) hrest]
      cases call with
      | init hardware => exact absurd List.mem_cons_self (hinit hardware)
      | entry =>
          cases hstep
          rfl
      | destroy =>
          obtain ⟨⟨log, other⟩, hdestroy, heq⟩ := Option.map_eq_some_iff.mp hstep
          obtain ⟨_, _, hmap⟩ := Option.bind_eq_some_iff.mp hdestroy
          obtain ⟨_, _, hother⟩ := Option.map_eq_some_iff.mp hmap
          cases hother
          cases heq
          rfl

theorem initServes_iff {before : List Lifecycle} {registry : Registry}
    (hinit : ∀ other, .init other ∉ before)
    (hrun : Machine.run (Registry.step build) Registry.start before = some registry) :
    registry.InitServes build hardware ↔ Serves build hardware := by
  obtain ⟨_, _, _, hempty⟩ := (Registry.Tracked.start build).run_after hinit hrun
  have hring := hempty (Or.inr ContextList.empty_isRing)
  have hnone : ∀ avoid impl, ¬registry.impls.Comes avoid impl := fun _ _ =>
    Ring.not_comes_of_isRing_nil hring
  have hmax := numMaxThread_run hinit hrun
  simp [Registry.InitServes, Serves, Registry.maxAfter, hnone, hmax, and_assoc]

/-- If the `dcurl_init` of the first `ccurl_pow` returned true, it started an implementation
with a context, and `ccurl_pow_finalize` has not been called since. -/
def FirstPowServes (build : Build) (calls : List CcurlCall) : Prop :=
  ∀ before hardware after, calls = before ++ .pow hardware :: after →
    (∀ other, .pow other ∉ before) → Registry.initReturns build hardware = true →
      .powFinalize ∉ after ∧ Serves build hardware

theorem exists_first_pow {calls : List CcurlCall} (h : ∃ hardware, .pow hardware ∈ calls) :
    ∃ before hardware after, calls = before ++ .pow hardware :: after ∧
      ∀ other, .pow other ∉ before := by
  induction calls with
  | nil => simp at h
  | cons call rest ih =>
      cases call with
      | pow hardware => exact ⟨[], hardware, rest, rfl, by simp⟩
      | _ =>
          obtain ⟨before, hardware, after, heq, hfirst⟩ := ih (by simpa using h)
          exact ⟨_ :: before, hardware, after, by rw [heq, List.cons_append], by simpa using hfirst⟩

theorem init_notMem_of_pow_notMem {calls : List CcurlCall} (h : ∀ other, .pow other ∉ calls)
    (hardware : Hardware) : .init hardware ∉ CcurlCall.lifecycle false calls := by
  induction calls with
  | nil => simp [CcurlCall.lifecycle]
  | cons call rest ih =>
      have hrest := ih fun other hmem => h other (List.mem_cons_of_mem _ hmem)
      cases call with
      | pow other => exact absurd List.mem_cons_self (h other)
      | _ => simpa [CcurlCall.lifecycle] using hrest

theorem served_after_iff {before after : List CcurlCall} (hfirst : ∀ other, .pow other ∉ before)
    (hrun : Machine.run (step build) start (before ++ .pow hardware :: after) = some final) :
    final.registry.Served build ↔ (Registry.initReturns build hardware = true →
      .powFinalize ∉ after ∧ Serves build hardware) := by
  have hlifecycle := run_eq build (before ++ .pow hardware :: after) start
  rw [hrun, Option.map_some, show start.isInitialized = false from rfl,
    lifecycle_append_pow before after hardware hfirst, Machine.run_append] at hlifecycle
  obtain ⟨registry, hbefore, hafter⟩ := Option.bind_eq_some_iff.mp hlifecycle.symm
  have hlast : ∀ other, .init other ∉ .entry :: CcurlCall.lifecycle true after := fun other => by
    simpa using init_notMem_lifecycle after other
  rw [Registry.served_after_iff hbefore hlast hafter,
    initServes_iff (init_notMem_of_pow_notMem hfirst) hbefore]
  simp [destroy_mem_lifecycle]

/-- Every sequence of calls, each `ccurl_pow` up to its `dcurl_entry`, can be made, and
`dcurl_entry` finds then what it may wait for unless the one `dcurl_init` that was ever run is
undone or has started no context. -/
theorem ccurl_served_iff (build : Build) (calls : List CcurlCall) :
    ∃ final, Machine.run (step build) start calls = some final ∧
      (final.registry.Served build ↔ FirstPowServes build calls) := by
  obtain ⟨final, hrun⟩ := exists_run (start_ordered build) calls
  refine ⟨final, hrun, ?_⟩
  constructor
  · intro hserved before hardware after heq hfirst
    rw [heq] at hrun
    exact (served_after_iff hfirst hrun).mp hserved
  · intro hmeets
    by_cases hpow : ∃ hardware, .pow hardware ∈ calls
    · obtain ⟨before, hardware, after, heq, hfirst⟩ := exists_first_pow hpow
      rw [heq] at hrun
      exact (served_after_iff hfirst hrun).mpr (hmeets before hardware after heq hfirst)
    · have hlifecycle := run_eq build calls start
      rw [hrun, Option.map_some, show start.isInitialized = false from rfl] at hlifecycle
      have hinit := init_notMem_of_pow_notMem fun other hmem => hpow ⟨other, hmem⟩
      obtain ⟨_, hflag, _⟩ := (Registry.Tracked.start build).run_after hinit hlifecycle.symm
      intro hfinal
      rw [hflag] at hfinal
      cases hfinal

end served

section threads

variable {n : Nat}

/-- A thread that calls nothing but `ccurl_pow`: `mtx` and `is_initialized` guard what
`dcurl_init` writes, and what is found there is what `dcurl_entry` reads. -/
def ccurlPowThread (build : Build) :
    Fin n → Once.Caller Hardware Registry → Once.Shared n Hardware Registry →
      Option (Once.Caller Hardware Registry × Once.Shared n Hardware Registry) :=
  Once.program (Registry.dcurlInit build)

theorem isSome_dcurlInit_start (build : Build) (hardware : Hardware) :
    (Registry.dcurlInit build hardware .start).isSome = true := by
  obtain ⟨next, hinit, _⟩ :=
    Registry.start_idle.init (Registry.start_ordered build) hardware
  simp [hinit]

theorem ccurlPow_start {registry : Registry}
    (hinit : Registry.dcurlInit build hardware .start = some registry) :
    ccurlPow build hardware start = some ⟨true, registry⟩ := by
  simp [ccurlPow, start, hinit]

/-- However the threads take turns, one at most is in the section of `mtx`, all calls find
what one `ccurl_pow` alone would have left, and none waits for ever to get to its
`dcurl_entry`. -/
theorem ccurlPow_once (build : Build) (scripts : Fin n → List Hardware) (schedule : List (Fin n))
    (final : Pool n (Once.Caller Hardware Registry) (Once.Shared n Hardware Registry))
    (hrun : Machine.run (Pool.step (ccurlPowThread build)) (Once.start scripts Registry.start)
      schedule = some final) :
    (∀ t u, (final.threads t).phase.inSection = true → (final.threads u).phase.inSection = true →
      t = u) ∧
    (∀ t, ∀ registry ∈ (final.threads t).found, registry = final.shared.value ∧
      ∃ u, ∃ hardware ∈ scripts u, final.shared.log = [hardware] ∧
        ccurlPow build hardware start = some ⟨true, registry⟩ ∧
          (registry.Served build ↔ FirstPowServes build [.pow hardware])) ∧
    ∃ rest ended, Machine.run (Pool.step (ccurlPowThread build)) final rest = some ended ∧
      ∀ t, (ended.threads t).calls = [] ∧ (ended.threads t).found.length = (scripts t).length := by
  have hholds := Once.holds_run hrun
  refine ⟨fun t u => Once.exclusive hholds, ?_, ?_⟩
  · intro t registry hfound
    obtain ⟨heq, u, hardware, hmem, hlog, hinit⟩ := Once.found_run hrun hfound
    rw [← heq] at hinit
    have hpow := ccurlPow_start hinit
    refine ⟨heq, u, hardware, hmem, hlog, hpow, ?_⟩
    obtain ⟨last, hlast, hserved⟩ := ccurl_served_iff build [.pow hardware]
    have hsame : last = ⟨true, registry⟩ := by
      simpa [step, hpow, Machine.run] using hlast.symm
    simpa [hsame] using hserved
  · exact Once.exists_finished hholds fun _ hardware _ => isSome_dcurlInit_start build hardware

/-- The second thread comes while the first is in the section. -/
theorem ccurlPow_once_pair :
    ∃ final, Machine.run (Pool.step (ccurlPowThread Registry.genericBuild))
        (Once.start (fun _ : Fin 2 => [Registry.twoThreads]) Registry.start)
        [0, 0, 0, 0, 0, 1, 1, 1, 1, 0] = some final ∧
      ∀ t, ∀ registry ∈ (final.threads t).found, registry = final.shared.value :=
  ⟨_, rfl, fun t registry hfound => ((ccurlPow_once Registry.genericBuild
    (fun _ => [Registry.twoThreads]) [0, 0, 0, 0, 0, 1, 1, 1, 1, 0] _ rfl).2.1 t registry hfound).1⟩

end threads

end Compat

end Dcurl
