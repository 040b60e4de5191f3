import Dcurl.ContextList
import Dcurl.DcurlEntry

/-! `dcurl_init` and `dcurl_destroy` in any order, with whatever the hardware
answers. `initialize` is called on static contexts, and nothing but the callers
keeps one from being registered twice. -/
namespace Dcurl

open Library

inductive Impl where
  | avx
  | sse
  | c
  | cl
  | fpga
  deriving DecidableEq

instance : Fintype Impl where
  elems := {.avx, .sse, .c, .cl, .fpga}
  complete impl := by cases impl <;> decide

structure Build where
  avx : Bool
  sse : Bool
  generic : Bool
  opencl : Bool
  fpga : Bool
  remote : Bool

structure Hardware where
  /-- `get_nthds_per_phys_proc` -/
  nthds : Int
  /-- `get_avail_phys_nprocs` -/
  nproc : Int
  /-- The calls of `malloc` for the CPU contexts succeed. -/
  chunks : Bool
  /-- `init_clcontext` -/
  devices : Nat
  clMemory : Bool
  /-- The devices of the FPGA open and map. -/
  fpgaOpens : Bool
  /-- `CONN_MAX` connections and `incoming_queue`. -/
  brokerConnects : Bool

def Build.impls (build : Build) : List Impl :=
  (if build.avx then [.avx] else if build.sse then [.sse] else if build.generic then [.c] else [])
    ++ (if build.opencl then [.cl] else []) ++ (if build.fpga then [.fpga] else [])

def Build.remotes (build : Build) : List Unit := if build.remote then [()] else []

def Impl.cap : Impl → BitVec 8
  | .c => 1
  | .sse => 1 <<< 1
  | .avx => 1 <<< 2
  | .cl => 1 <<< 3
  | .fpga => 1 <<< 4

def capNone : BitVec 8 := 0

def capRemote : BitVec 8 := 1 <<< 5

def connMax : Int := 20

/-- `pow_c_context_initialize`, and that of `pow_sse` and `pow_avx`: whether it
succeeds, and `num_max_thread`. -/
def powCContextInitialize (hardware : Hardware) : Bool × Int :=
  if hardware.nthds ≤ 0 || hardware.nproc ≤ 0 then (false, hardware.nthds)
  else if hardware.chunks then (true, hardware.nthds)
  else (false, hardware.nthds)

def powClContextInitialize (hardware : Hardware) : Bool × Int :=
  if hardware.clMemory then (true, hardware.devices) else (false, hardware.devices)

def powFpgaContextInitialize (hardware : Hardware) (numMaxThread : Int) : Bool × Int :=
  if hardware.fpgaOpens then (true, numMaxThread) else (false, numMaxThread)

def Impl.contextInitialize (hardware : Hardware) (numMaxThread : Int) : Impl → Bool × Int
  | .avx => powCContextInitialize hardware
  | .sse => powCContextInitialize hardware
  | .c => powCContextInitialize hardware
  | .cl => powClContextInitialize hardware
  | .fpga => powFpgaContextInitialize hardware numMaxThread

def remoteInit (hardware : Hardware) : Bool :=
  if connMax ≤ 0 then false else hardware.brokerConnects

/-- The static data of `dcurl.c` and of the contexts, as far as `dcurl_init` and
`dcurl_destroy` write it. -/
structure Registry where
  impls : ContextList Impl
  numMaxThread : Impl → Int
  remote : ContextList Unit
  isInitialized : Bool
  runtimeCaps : BitVec 8

inductive Lifecycle where
  | init (hardware : Hardware)
  | entry
  | destroy

namespace Registry

def start : Registry where
  impls := .empty
  numMaxThread := fun impl => if impl = .fpga then 1 else 0
  remote := .empty
  isInitialized := false
  runtimeCaps := capNone

/-- One registration of `dcurl_init`, with its flag `ret`; none where a pointer that
was never written is followed. -/
def registerImplContext (hardware : Hardware) (ret : Bool × Registry) (impl : Impl) :
    Option (Bool × Registry) :=
  let (res, numMaxThread) := impl.contextInitialize hardware (ret.2.numMaxThread impl)
  (ret.2.impls.register res impl).map fun impls =>
    (ret.1 || res,
      { ret.2 with
        impls := impls
        numMaxThread := Function.update ret.2.numMaxThread impl numMaxThread
        runtimeCaps := if res then ret.2.runtimeCaps ||| impl.cap else ret.2.runtimeCaps })

def registerRemoteContext (build : Build) (hardware : Hardware) (ret : Bool × Registry) :
    Option (Bool × Registry) :=
  if build.remote then
    (ret.2.remote.register (remoteInit hardware) ()).map fun remote =>
      (ret.1 || remoteInit hardware,
        { ret.2 with
          remote := remote
          runtimeCaps :=
            if remoteInit hardware then ret.2.runtimeCaps ||| capRemote else ret.2.runtimeCaps })
  else some ret

def dcurlInit (build : Build) (hardware : Hardware) (registry : Registry) : Option Registry :=
  (build.impls.foldlM (registerImplContext hardware) (false, registry)).bind fun ret =>
    (registerRemoteContext build hardware ret).map fun (ret, registry) =>
      { registry with isInitialized := ret }

/-- The destroyed contexts, and what is left; none where a context is freed twice. -/
def dcurlDestroy (build : Build) (registry : Registry) :
    Option ((List Unit × List Impl) × Registry) :=
  (if build.remote then registry.remote.destroyAll else some ([], registry.remote)).bind
    fun (remotes, remote) => registry.impls.destroyAll.map fun (impls, list) =>
      ((remotes, impls),
        { registry with impls := list, remote := remote, runtimeCaps := capNone })

/-- One call from outside; `dcurl_entry` writes none of this data. -/
def step (build : Build) (registry : Registry) : Lifecycle → Option Registry
  | .init hardware => dcurlInit build hardware registry
  | .entry => some registry
  | .destroy => (dcurlDestroy build registry).map Prod.snd

end Registry

def Impl.starts (hardware : Hardware) (impl : Impl) : Bool := (impl.contextInitialize hardware 0).1

/-- The registration of CPU contexts is that of the slot table. -/
theorem powCContextInitialize_eq {w : Nat} (backend : Backend w) (hardware : Hardware)
    (memory : Nat → Slot CpuContext) (impl : ImplContext CpuContext) :
    let host := ⟨hardware.nthds, hardware.nproc, if hardware.chunks then some memory else none⟩
    powCContextInitialize hardware =
      ((initializeImplContext backend.cpuFunctions host impl).1,
        (initializeImplContext backend.cpuFunctions host impl).2.numMaxThread) := by
  unfold powCContextInitialize initializeImplContext Backend.cpuFunctions
  cases hardware.chunks <;>
    by_cases h : hardware.nthds ≤ 0 || hardware.nproc ≤ 0 <;> simp [h]

theorem Impl.contextInitialize_fst (hardware : Hardware) (numMaxThread : Int) (impl : Impl) :
    (impl.contextInitialize hardware numMaxThread).1 = impl.starts hardware := by
  cases impl with
  | fpga =>
      unfold starts contextInitialize powFpgaContextInitialize
      cases hardware.fpgaOpens <;> rfl
  | _ => rfl

theorem Build.impls_nodup (build : Build) : build.impls.Nodup := by
  unfold Build.impls
  cases build.avx <;> cases build.sse <;> cases build.generic <;> cases build.opencl <;>
    cases build.fpga <;> decide

theorem Build.remotes_nodup (build : Build) : build.remotes.Nodup := by
  unfold Build.remotes
  split
  · exact List.nodup_singleton ()
  · exact List.nodup_nil

namespace Registry

variable {build : Build} {hardware : Hardware} {registry next : Registry}

section registration

def maxAfter (build : Build) (hardware : Hardware) (registry : Registry) (impl : Impl) : Int :=
  if impl ∈ build.impls then
    (impl.contextInitialize hardware (registry.numMaxThread impl)).2
  else registry.numMaxThread impl

def initReturns (build : Build) (hardware : Hardware) : Bool :=
  build.impls.any (fun impl => impl.starts hardware) || (build.remote && remoteInit hardware)

structure Registered (hardware : Hardware) (impls : List Impl) (ret ret' : Bool × Registry) :
    Prop where
  list : ret.2.impls.registerAll (fun impl => impl.starts hardware) impls = some ret'.2.impls
  flag : ret'.1 = (ret.1 || impls.any fun impl => impl.starts hardware)
  max : ∀ impl, ret'.2.numMaxThread impl =
    if impl ∈ impls then (impl.contextInitialize hardware (ret.2.numMaxThread impl)).2
    else ret.2.numMaxThread impl
  remote : ret'.2.remote = ret.2.remote
  caps : ret'.2.runtimeCaps &&& capRemote = ret.2.runtimeCaps &&& capRemote

theorem cap_and_capRemote (impl : Impl) : impl.cap &&& capRemote = 0 := by
  cases impl <;> rfl

theorem registered_single {ret : Bool × Registry} {impl : Impl} {list : ContextList Impl}
    (hlist : ret.2.impls.register (impl.starts hardware) impl = some list) :
    ∃ ret', registerImplContext hardware ret impl = some ret' ∧ ret'.2.impls = list ∧
      Registered hardware [impl] ret ret' := by
  unfold registerImplContext
  simp only [Impl.contextInitialize_fst, hlist, Option.map_some]
  refine ⟨_, rfl, rfl, ?_, ?_, ?_, rfl, ?_⟩
  · rw [ContextList.registerAll_cons, hlist]
    rfl
  · simp
  · intro other
    simp only [List.mem_singleton, Function.update_apply]
    by_cases heq : other = impl
    · rw [if_pos heq, if_pos heq, heq]
    · rw [if_neg heq, if_neg heq]
  · cases impl.starts hardware with
    | false => rfl
    | true =>
        change (ret.2.runtimeCaps ||| impl.cap) &&& capRemote = _
        rw [BitVec.and_or_distrib_right, cap_and_capRemote]
        exact BitVec.or_zero

theorem Registered.cons {first : Impl} {rest : List Impl} {ret middle ret' : Bool × Registry}
    (hnodup : (first :: rest).Nodup) (hfirst : Registered hardware [first] ret middle)
    (hrest : Registered hardware rest middle ret') :
    Registered hardware (first :: rest) ret ret' := by
  have hnotin := (List.nodup_cons.mp hnodup).1
  constructor
  · have hone := hfirst.list
    rw [ContextList.registerAll_cons] at hone ⊢
    have ⟨list, hregister, heq⟩ := Option.bind_eq_some_iff.mp hone
    cases heq
    rw [hregister, Option.bind_some]
    exact hrest.list
  · rw [hrest.flag, hfirst.flag]
    simp [Bool.or_assoc]
  · intro impl
    have hmax := hfirst.max impl
    rw [hrest.max impl]
    by_cases heq : impl = first
    · subst heq
      rw [if_neg hnotin, hmax, if_pos List.mem_cons_self, if_pos List.mem_cons_self]
    · rw [if_neg (by simpa using heq)] at hmax
      rw [hmax]
      simp only [List.mem_cons, heq, false_or]
  · rw [hrest.remote, hfirst.remote]
  · rw [hrest.caps, hfirst.caps]

theorem registered_foldlM {impls : List Impl} (ret : Bool × Registry) {list : ContextList Impl}
    (hnodup : impls.Nodup)
    (hlist : ret.2.impls.registerAll (fun impl => impl.starts hardware) impls = some list) :
    ∃ ret', impls.foldlM (registerImplContext hardware) ret = some ret' ∧
      ret'.2.impls = list ∧ Registered hardware impls ret ret' := by
  induction impls generalizing ret with
  | nil =>
      cases hlist
      exact ⟨ret, rfl, rfl, rfl, by simp, by simp, rfl, rfl⟩
  | cons first rest ih =>
      rw [ContextList.registerAll_cons] at hlist
      have ⟨one, hone, hrest⟩ := Option.bind_eq_some_iff.mp hlist
      have ⟨middle, hstep, hmiddle, hfirst⟩ := registered_single hone
      rw [← hmiddle] at hrest
      have ⟨ret', hfold, heq, hregistered⟩ := ih middle (List.nodup_cons.mp hnodup).2 hrest
      refine ⟨ret', ?_, heq, hfirst.cons hnodup hregistered⟩
      rw [List.foldlM_cons, hstep]
      exact hfold

structure Initialized (build : Build) (hardware : Hardware) (registry next : Registry) : Prop where
  list : registry.impls.registerAll (fun impl => impl.starts hardware) build.impls =
    some next.impls
  remote : registry.remote.registerAll (fun _ => remoteInit hardware) build.remotes =
    some next.remote
  flag : next.isInitialized = initReturns build hardware
  max : next.numMaxThread = registry.maxAfter build hardware
  caps : next.runtimeCaps &&& capRemote ≠ 0 →
    build.remote = true ∧ remoteInit hardware = true ∨ registry.runtimeCaps &&& capRemote ≠ 0

theorem initialized_dcurlInit {list : ContextList Impl} {remote : ContextList Unit}
    (hlist : registry.impls.registerAll (fun impl => impl.starts hardware) build.impls = some list)
    (hremote : registry.remote.registerAll (fun _ => remoteInit hardware) build.remotes =
      some remote) :
    ∃ next, dcurlInit build hardware registry = some next ∧ next.impls = list ∧
      next.remote = remote ∧ Initialized build hardware registry next := by
  have ⟨ret, hfold, heq, hregistered⟩ := registered_foldlM (false, registry)
    build.impls_nodup hlist
  have hmax : ret.2.numMaxThread = registry.maxAfter build hardware := by
    funext impl
    exact hregistered.max impl
  have hflag := hregistered.flag
  rw [Bool.false_or] at hflag
  unfold dcurlInit registerRemoteContext
  rw [hfold, Option.bind_some]
  cases hbuild : build.remote with
  | false =>
      have hnil : build.remotes = [] := by
        unfold Build.remotes
        rw [hbuild]
        rfl
      rw [hnil] at hremote
      cases hremote
      refine ⟨_, rfl, heq, hregistered.remote, ?_⟩
      constructor
      · exact heq ▸ hlist
      · rw [hnil, hregistered.remote]
        rfl
      · rw [initReturns, hbuild, Bool.false_and, Bool.or_false]
        exact hflag
      · exact hmax
      · intro hcap
        exact Or.inr (hregistered.caps ▸ hcap)
  | true =>
      have hone : build.remotes = [()] := by
        unfold Build.remotes
        rw [hbuild]
        rfl
      have hall := hremote
      rw [hone, ContextList.registerAll_cons] at hall
      have ⟨single, hregister, hsingle⟩ := Option.bind_eq_some_iff.mp hall
      cases hsingle
      rw [if_pos rfl, hregistered.remote, hregister, Option.map_some]
      refine ⟨_, rfl, heq, rfl, ?_⟩
      constructor
      · exact heq ▸ hlist
      · exact hremote
      · rw [initReturns, hbuild, Bool.true_and, ← hflag]
      · exact hmax
      · intro hcap
        cases hinit : remoteInit hardware with
        | true => exact Or.inl ⟨hbuild, rfl⟩
        | false =>
            rw [hinit] at hcap
            exact Or.inr (hregistered.caps ▸ hcap)

end registration

def WellFormed (registry : Registry) : Prop :=
  registry.impls.WellFormed ∧ registry.remote.WellFormed

def Kept (registry : Registry) : Prop :=
  (registry.impls.WellFormed ∨ registry.impls.Lost) ∧
    (registry.remote.WellFormed ∨ registry.remote.Lost)

theorem WellFormed.kept (h : registry.WellFormed) : registry.Kept := ⟨Or.inl h.1, Or.inl h.2⟩

/-- No context that is initialized and not destroyed is initialized again. -/
def Fresh (build : Build) (registry : Registry) : Lifecycle → Prop
  | .init hardware =>
      (∀ impl ∈ build.impls, impl.starts hardware = true → registry.impls.live impl = false) ∧
        ∀ remote ∈ build.remotes, remoteInit hardware = true → registry.remote.live remote = false
  | .entry => True
  | .destroy => True

/-- The loops of `dcurl_destroy` end, destroy each context once that is initialized
and not destroyed, and leave both lists empty. -/
def DestroysOnce (build : Build) (registry : Registry) : Prop :=
  ∃ remotes impls next, dcurlDestroy build registry = some ((remotes, impls), next) ∧
    (impls.Nodup ∧ ∀ impl, impl ∈ impls ↔ registry.impls.live impl = true) ∧
    (remotes.Nodup ∧ ∀ remote, remote ∈ remotes ↔ registry.remote.live remote = true) ∧
    (Ring.IsRing next.impls.links .head [] ∧ ∀ impl, next.impls.live impl = false) ∧
    Ring.IsRing next.remote.links .head [] ∧ ∀ remote, next.remote.live remote = false

structure Keeps (build : Build) (registry : Registry) (call : Lifecycle) : Prop where
  before : registry.WellFormed
  after : ∃ next, step build registry call = some next ∧ next.WellFormed
  destroys : call = .destroy → registry.DestroysOnce build

structure Ordered (build : Build) (registry : Registry) : Prop where
  wellFormed : registry.WellFormed
  unused : build.remote = false → registry.remote = .empty

theorem Kept.init (h : registry.Kept) (build : Build) (hardware : Hardware) :
    ∃ next, dcurlInit build hardware registry = some next ∧ next.Kept ∧
      Initialized build hardware registry next := by
  have ⟨list, hlist, hkept⟩ := ContextList.registerAll_kept
    (fun impl => impl.starts hardware) h.1 build.impls_nodup
  have ⟨remote, hremote, hkept'⟩ := ContextList.registerAll_kept
    (fun _ => remoteInit hardware) h.2 build.remotes_nodup
  have ⟨next, hinit, heq, heq', hinitialized⟩ := initialized_dcurlInit hlist hremote
  exact ⟨next, hinit, ⟨heq ▸ hkept, heq' ▸ hkept'⟩, hinitialized⟩

theorem start_ordered (build : Build) : start.Ordered build :=
  ⟨⟨ContextList.empty_wellFormed, ContextList.empty_wellFormed⟩, fun _ => rfl⟩

theorem Ordered.destroysOnce (h : registry.Ordered build) : registry.DestroysOnce build := by
  have ⟨impls, list, himpls, hnodup, hlive, hempty, hnone⟩ :=
    ContextList.destroyAll_wellFormed h.wellFormed.1
  cases hbuild : build.remote with
  | true =>
      have ⟨remotes, remote, hremotes, hnodup', hlive', hempty', hnone'⟩ :=
        ContextList.destroyAll_wellFormed h.wellFormed.2
      have hdestroy : dcurlDestroy build registry = some ((remotes, impls),
          { registry with impls := list, remote := remote, runtimeCaps := capNone }) := by
        unfold dcurlDestroy
        rw [hbuild, if_pos rfl, hremotes, Option.bind_some, himpls]
        rfl
      exact ⟨remotes, impls, _, hdestroy, ⟨hnodup, hlive⟩, ⟨hnodup', hlive'⟩, ⟨hempty, hnone⟩,
        hempty', hnone'⟩
  | false =>
      have hunused := h.unused hbuild
      have hdestroy : dcurlDestroy build registry = some (([], impls),
          { registry with impls := list, runtimeCaps := capNone }) := by
        unfold dcurlDestroy
        rw [hbuild, if_neg Bool.false_ne_true, Option.bind_some, himpls]
        rfl
      have hlive' : ∀ remote, remote ∈ [] ↔ registry.remote.live remote = true := by
        intro remote
        rw [hunused]
        constructor
        · intro hmem
          cases hmem
        · intro hlive
          cases hlive
      have hempty' : Ring.IsRing registry.remote.links .head [] := by
        rw [hunused]
        exact ContextList.empty_isRing
      have hnone' : ∀ remote, registry.remote.live remote = false := by
        rw [hunused]
        intro remote
        rfl
      exact ⟨[], impls, _, hdestroy, ⟨hnodup, hlive⟩, ⟨List.nodup_nil, hlive'⟩, ⟨hempty, hnone⟩,
        hempty', hnone'⟩

theorem DestroysOnce.step (h : registry.DestroysOnce build) :
    ∃ next, step build registry .destroy = some next ∧ next.WellFormed := by
  have ⟨remotes, impls, next, hdestroy, _, _, hempty, hempty'⟩ := h
  refine ⟨next, ?_, ?_, ?_⟩
  · unfold Registry.step
    rw [hdestroy, Option.map_some]
  · exact ContextList.WellFormed.of_empty hempty.1 hempty.2
  · exact ContextList.WellFormed.of_empty hempty'.1 hempty'.2

theorem Ordered.init (h : registry.Ordered build)
    (hfresh : registry.Fresh build (.init hardware)) :
    ∃ next, dcurlInit build hardware registry = some next ∧ next.WellFormed := by
  have ⟨list, hlist, hwell⟩ :=
    ContextList.registerAll_wellFormed h.wellFormed.1 build.impls_nodup hfresh.1
  have ⟨remote, hremote, hwell'⟩ :=
    ContextList.registerAll_wellFormed h.wellFormed.2 build.remotes_nodup hfresh.2
  have ⟨next, hinit, heq, heq', _⟩ := initialized_dcurlInit hlist hremote
  exact ⟨next, hinit, heq ▸ hwell, heq' ▸ hwell'⟩

theorem Ordered.fresh_of_init (h : registry.Ordered build)
    (hinit : dcurlInit build hardware registry = some next) (hwell : next.WellFormed) :
    registry.Fresh build (.init hardware) := by
  have ⟨other, hother, _, hinitialized⟩ := h.wellFormed.kept.init build hardware
  rw [hinit] at hother
  cases hother
  constructor
  · intro impl hmem hstarts
    rw [← Bool.not_eq_true]
    intro hlive
    have ⟨list, hlist, hlost⟩ := ContextList.registerAll_live
      (fun impl => impl.starts hardware) h.wellFormed.1 build.impls_nodup
      ⟨impl, hmem, hstarts, hlive⟩
    rw [hinitialized.list] at hlist
    cases hlist
    exact ContextList.not_lost hwell.1 hlost
  · intro remote hmem hstarts
    rw [← Bool.not_eq_true]
    intro hlive
    have ⟨list, hlist, hlost⟩ := ContextList.registerAll_live
      (fun _ => remoteInit hardware) h.wellFormed.2 build.remotes_nodup
      ⟨remote, hmem, hstarts, hlive⟩
    rw [hinitialized.remote] at hlist
    cases hlist
    exact ContextList.not_lost hwell.2 hlost

theorem Ordered.keeps_iff (h : registry.Ordered build) (call : Lifecycle) :
    registry.Keeps build call ↔ registry.Fresh build call := by
  cases call with
  | init hardware =>
      constructor
      · intro hkeeps
        have ⟨next, hstep, hwell⟩ := hkeeps.after
        exact h.fresh_of_init hstep hwell
      · intro hfresh
        refine ⟨h.wellFormed, h.init hfresh, ?_⟩
        intro heq
        cases heq
  | entry =>
      refine ⟨fun _ => trivial, fun _ => ⟨h.wellFormed, ⟨registry, rfl, h.wellFormed⟩, ?_⟩⟩
      intro heq
      cases heq
  | destroy =>
      have hdestroys := h.destroysOnce
      exact ⟨fun _ => trivial, fun _ => ⟨h.wellFormed, hdestroys.step, fun _ => hdestroys⟩⟩

theorem remote_dcurlDestroy {log : List Unit × List Impl} (hbuild : build.remote = false)
    (hdestroy : dcurlDestroy build registry = some (log, next)) :
    next.remote = registry.remote := by
  unfold dcurlDestroy at hdestroy
  rw [hbuild, if_neg Bool.false_ne_true, Option.bind_some] at hdestroy
  have ⟨(impls, list), _, heq⟩ := Option.map_eq_some_iff.mp hdestroy
  cases heq
  rfl

theorem Initialized.remote_eq (h : Initialized build hardware registry next)
    (hbuild : build.remote = false) : next.remote = registry.remote := by
  have hremote := h.remote
  unfold Build.remotes at hremote
  rw [hbuild, if_neg Bool.false_ne_true] at hremote
  exact (Option.some.inj hremote).symm

theorem Ordered.step {call : Lifecycle} (h : registry.Ordered build)
    (hwell : next.WellFormed) (hstep : Registry.step build registry call = some next) :
    next.Ordered build := by
  refine ⟨hwell, fun hbuild => ?_⟩
  have hunused := h.unused hbuild
  cases call with
  | init hardware =>
      have ⟨other, hother, _, hinitialized⟩ := h.wellFormed.kept.init build hardware
      change dcurlInit build hardware registry = some next at hstep
      rw [hstep] at hother
      cases hother
      rw [hinitialized.remote_eq hbuild, hunused]
  | entry =>
      cases hstep
      exact hunused
  | destroy =>
      have ⟨(log, other), hdestroy, heq⟩ := Option.map_eq_some_iff.mp hstep
      cases heq
      rw [remote_dcurlDestroy hbuild hdestroy, hunused]

theorem Ordered.along_iff (h : registry.Ordered build) (calls : List Lifecycle) :
    Machine.Along (Keeps build) (Registry.step build) registry calls ↔
      Machine.Along (Fresh build) (Registry.step build) registry calls := by
  apply Machine.along_iff (Ordered build) (fun _ call hordered => hordered.keeps_iff call) _ h
  intro registry call next hordered hfresh hnext
  have ⟨other, hother, hwell⟩ := ((hordered.keeps_iff call).mpr hfresh).after
  rw [hnext] at hother
  cases hother
  exact hordered.step hwell hnext

/-- `dcurl_init` and `dcurl_destroy` keep the lists in order as long as, and only as
long as, no implementation is initialized that is initialized already. -/
theorem keeps_lists_iff (build : Build) (calls : List Lifecycle) :
    Machine.Along (Keeps build) (Registry.step build) start calls ↔
      Machine.Along (Fresh build) (Registry.step build) start calls :=
  (start_ordered build).along_iff calls

section refinement

variable {ι Ctx Choice : Type} [DecidableEq ι] {functions : ι → PowFunctions Ctx Choice}
  {hosts : ι → Host Ctx}

variable (functions hosts) in
theorem implList_registerImplContext (ret : Bool × System ι Ctx) (compiled : List ι) :
    (compiled.foldl (Dcurl.registerImplContext functions hosts) ret).2.implList =
      (compiled.filter fun j => (functions j).starts (hosts j)).reverse ++ ret.2.implList := by
  induction compiled generalizing ret with
  | nil => rfl
  | cons j rest ih =>
      have hinit := fst_initializeImplContext (functions j) (hosts j) (ret.2.impls j)
      rw [List.foldl_cons, ih, List.filter_cons, ← hinit]
      unfold Dcurl.registerImplContext
      split
      · rename_i heq
        rw [heq, if_pos rfl, List.reverse_cons, List.append_assoc]
        rfl
      · rename_i heq
        rw [heq, if_neg Bool.false_ne_true]
        rfl

/-- Where `dcurl_init` starts what is not in the list yet, the pointers stand for the
list of the calls of `dcurl_entry`, which a scan follows. -/
theorem dcurlInit_refines {list : ContextList ι} {system : System ι Ctx} {compiled : List ι}
    (hring : Ring.IsRing list.links .head (system.implList.map .entry)) (hnodup : compiled.Nodup)
    (hnew : ∀ j ∈ compiled, (functions j).starts (hosts j) = true → j ∉ system.implList) :
    ∃ list', list.registerAll (fun j => (functions j).starts (hosts j)) compiled = some list' ∧
      Ring.IsRing list'.links .head
        ((Dcurl.dcurlInit functions compiled hosts system).implList.map .entry) := by
  have hlist := implList_registerImplContext functions hosts (false, system) compiled
  unfold Dcurl.dcurlInit
  rw [hlist]
  exact ContextList.isRing_registerAll hring hnodup hnew

end refinement

def twoThreads : Hardware := ⟨2, 4, true, 0, false, false, false⟩

def genericBuild : Build := ⟨false, false, true, false, false, false⟩

/-- The second of two calls of `dcurl_init` makes a loop of `impl_list`. -/
theorem not_keeps_twice : ¬∀ (build : Build) (calls : List Lifecycle),
    Machine.Along (Keeps build) (Registry.step build) start calls := by
  intro h
  have ⟨_, hrest⟩ := h genericBuild [.init twoThreads, .init twoThreads]
  have ⟨next, hnext⟩ : ∃ next, Registry.step genericBuild start (.init twoThreads) = some next :=
    ⟨_, rfl⟩
  have ⟨hkeeps, _⟩ := hrest next hnext
  have hordered := (start_ordered genericBuild).step hkeeps.before hnext
  have hfresh := (hordered.keeps_iff _).mp hkeeps
  have hlive := hfresh.1 .c (by decide) (by decide)
  cases hnext
  revert hlive
  decide

end Registry

end Dcurl
