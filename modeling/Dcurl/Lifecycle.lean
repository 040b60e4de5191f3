import Dcurl.Registry

/-! What a call of `dcurl_entry` finds after any calls of `dcurl_init` and
`dcurl_destroy`. `dcurl_destroy` does not clear `is_initialized`, and `dcurl_init`
returns true when nothing but an implementation without contexts has started. -/
namespace Dcurl

open Library

def ContextList.Offers {ι : Type} [DecidableEq ι] (list : ContextList ι)
    (numMaxThread : ι → Int) : Prop :=
  ∃ impl, list.Comes (fun _ => false) impl ∧ 1 ≤ numMaxThread impl

namespace Registry

/-- `dcurl_entry` returns `NULL`, or finds in every list that it may wait for an
implementation that can let it in. -/
def Served (build : Build) (registry : Registry) : Prop :=
  registry.isInitialized = true →
    (build.remote = true → registry.runtimeCaps &&& capRemote ≠ 0 →
      registry.remote.Offers fun _ => connMax) ∧
    registry.impls.Offers registry.numMaxThread

/-- An implementation has a context after `dcurl_init`, and it is one that starts or
comes before all of these in the list. -/
def InitServes (build : Build) (hardware : Hardware) (registry : Registry) : Prop :=
  ∃ impl, (impl ∈ build.impls ∧ impl.starts hardware = true ∨
      registry.impls.Comes (fun i => decide (i ∈ build.impls) && i.starts hardware) impl) ∧
    1 ≤ registry.maxAfter build hardware impl

/-- If the last `dcurl_init` returned true, it left an implementation with a context,
and nothing has been destroyed since. -/
def LastInitServes (build : Build) (calls : List Lifecycle) : Prop :=
  ∀ before hardware after registry, calls = before ++ .init hardware :: after →
    (∀ other, .init other ∉ after) → Machine.run (step build) start before = some registry →
      initReturns build hardware = true →
        .destroy ∉ after ∧ registry.InitServes build hardware

structure Tracked (build : Build) (registry : Registry) : Prop where
  kept : registry.Kept
  remote : build.remote = true → registry.runtimeCaps &&& capRemote ≠ 0 →
    registry.remote.Offers fun _ => connMax

variable {build : Build} {hardware : Hardware} {registry next final : Registry}

theorem capNone_and_capRemote : capNone &&& capRemote = 0 := rfl

theorem Tracked.start (build : Build) : start.Tracked build := by
  refine ⟨(start_ordered build).wellFormed.kept, ?_⟩
  intro _ hcap
  exact absurd capNone_and_capRemote hcap

theorem Tracked.init (h : registry.Tracked build)
    (hinit : dcurlInit build hardware registry = some next) :
    next.Tracked build ∧ Initialized build hardware registry next := by
  have ⟨other, hother, hkept, hinitialized⟩ := h.kept.init build hardware
  rw [hinit] at hother
  cases hother
  refine ⟨⟨hkept, ?_⟩, hinitialized⟩
  intro hbuild hcap
  refine ⟨(), ?_, by decide⟩
  rw [ContextList.comes_registerAll build.remotes_nodup hinitialized.remote]
  cases hremote : remoteInit hardware with
  | true =>
      have hmem : () ∈ build.remotes := by
        unfold Build.remotes
        rw [hbuild]
        exact List.mem_singleton_self ()
      exact Or.inl ⟨hmem, rfl⟩
  | false =>
      cases hinitialized.caps hcap with
      | inl hstarted =>
          rw [hremote] at hstarted
          cases hstarted.2
      | inr hold =>
          have ⟨_, hcomes, _⟩ := h.remote hbuild hold
          right
          simpa using hcomes

theorem Tracked.destroy {log : List Unit × List Impl} (h : registry.Tracked build)
    (hdestroy : dcurlDestroy build registry = some (log, next)) :
    next.Tracked build ∧ next.isInitialized = registry.isInitialized ∧
      Ring.IsRing next.impls.links .head [] := by
  unfold dcurlDestroy at hdestroy
  have ⟨(remotes, remote), hremote, hmap⟩ := Option.bind_eq_some_iff.mp hdestroy
  have ⟨(impls, list), hlist, heq⟩ := Option.map_eq_some_iff.mp hmap
  cases heq
  have ⟨hring, hlive⟩ := ContextList.destroyAll_kept h.kept.1 hlist
  have hremoteKept : remote.WellFormed ∨ remote.Lost := by
    split at hremote
    · have ⟨hring, hlive⟩ := ContextList.destroyAll_kept h.kept.2 hremote
      exact Or.inl (ContextList.WellFormed.of_empty hring hlive)
    · cases hremote
      exact h.kept.2
  refine ⟨⟨⟨Or.inl ?_, hremoteKept⟩, ?_⟩, rfl, hring⟩
  · exact ContextList.WellFormed.of_empty hring hlive
  · intro _ hcap
    exact absurd capNone_and_capRemote hcap

/-- Between two calls of `dcurl_init` only `dcurl_destroy` writes. -/
theorem Tracked.run_after {after : List Lifecycle} (h : registry.Tracked build)
    (hinit : ∀ other, .init other ∉ after)
    (hrun : Machine.run (Registry.step build) registry after = some final) :
    final.Tracked build ∧ final.isInitialized = registry.isInitialized ∧
      (.destroy ∉ after → final = registry) ∧
      (.destroy ∈ after ∨ Ring.IsRing registry.impls.links .head [] →
        Ring.IsRing final.impls.links .head []) := by
  induction after generalizing registry with
  | nil =>
      cases hrun
      refine ⟨h, rfl, fun _ => rfl, fun hempty => hempty.resolve_left List.not_mem_nil⟩
  | cons call rest ih =>
      have ⟨next, hstep, hrest⟩ := Option.bind_eq_some_iff.mp hrun
      have hinit' : ∀ other, .init other ∉ rest :=
        fun other => List.not_mem_of_not_mem_cons (hinit other)
      cases call with
      | init hardware => exact absurd List.mem_cons_self (hinit hardware)
      | entry =>
          cases hstep
          have ⟨htracked, hflag, hsame, hempty⟩ := ih h hinit' hrest
          refine ⟨htracked, hflag, fun hmem => hsame (List.not_mem_of_not_mem_cons hmem), ?_⟩
          intro hring
          exact hempty (hring.imp_left fun hmem => (List.mem_cons.mp hmem).resolve_left
            Lifecycle.noConfusion)
      | destroy =>
          have ⟨(log, other), hdestroy, heq⟩ := Option.map_eq_some_iff.mp hstep
          cases heq
          have ⟨htracked, hflag, hring⟩ := h.destroy hdestroy
          have ⟨hfinal, hflag', _, hempty⟩ := ih htracked hinit' hrest
          refine ⟨hfinal, hflag'.trans hflag, ?_, fun _ => hempty (Or.inr hring)⟩
          intro hmem
          exact absurd List.mem_cons_self hmem

theorem Tracked.run {calls : List Lifecycle}
    (hrun : Machine.run (Registry.step build) Registry.start calls = some final) :
    final.Tracked build := by
  apply Machine.run_invariant (Tracked build) _ (Tracked.start build) hrun
  intro registry call next h hstep
  cases call with
  | init hardware => exact (h.init hstep).1
  | entry =>
      cases hstep
      exact h
  | destroy =>
      have ⟨(log, other), hdestroy, heq⟩ := Option.map_eq_some_iff.mp hstep
      cases heq
      exact (h.destroy hdestroy).1

theorem not_offers_of_isRing_nil {list : ContextList Impl} {numMaxThread : Impl → Int}
    (h : Ring.IsRing list.links .head []) : ¬list.Offers numMaxThread := by
  intro ⟨_, hcomes, _⟩
  exact Ring.not_comes_of_isRing_nil h hcomes

theorem Tracked.served_iff (h : registry.Tracked build) :
    registry.Served build ↔
      (registry.isInitialized = true → registry.impls.Offers registry.numMaxThread) :=
  ⟨fun hserved hinit => (hserved hinit).2, fun hoffers hinit => ⟨h.remote, hoffers hinit⟩⟩

theorem Initialized.offers_iff (h : Initialized build hardware registry next) :
    next.impls.Offers next.numMaxThread ↔ registry.InitServes build hardware := by
  unfold ContextList.Offers InitServes
  simp only [ContextList.comes_registerAll build.impls_nodup h.list, h.max]

theorem served_after_iff {before after : List Lifecycle}
    (hbefore : Machine.run (Registry.step build) Registry.start before = some registry)
    (hlast : ∀ other, .init other ∉ after)
    (hrun : Machine.run (Registry.step build) registry (.init hardware :: after) = some final) :
    final.Served build ↔ (initReturns build hardware = true →
      .destroy ∉ after ∧ registry.InitServes build hardware) := by
  have ⟨next, hinit, hafter⟩ := Option.bind_eq_some_iff.mp hrun
  have ⟨hnext, hinitialized⟩ := (Tracked.run hbefore).init hinit
  have ⟨hfinal, hflag, hsame, hempty⟩ := hnext.run_after hlast hafter
  rw [hfinal.served_iff, hflag, hinitialized.flag, ← hinitialized.offers_iff]
  by_cases hdestroy : Lifecycle.destroy ∈ after
  · simp [hdestroy, not_offers_of_isRing_nil (hempty (Or.inl hdestroy))]
  · simp [hdestroy, hsame hdestroy]

theorem exists_last_init {calls : List Lifecycle} (h : ∃ hardware, .init hardware ∈ calls) :
    ∃ before hardware after, calls = before ++ .init hardware :: after ∧
      ∀ other, .init other ∉ after := by
  induction calls with
  | nil =>
      have ⟨_, hmem⟩ := h
      cases hmem
  | cons call rest ih =>
      by_cases hrest : ∃ hardware, .init hardware ∈ rest
      · have ⟨before, hardware, after, heq, hlast⟩ := ih hrest
        exact ⟨call :: before, hardware, after, by rw [heq]; rfl, hlast⟩
      · have ⟨hardware, hmem⟩ := h
        cases hmem with
        | head => exact ⟨[], hardware, rest, rfl, fun other hother => hrest ⟨other, hother⟩⟩
        | tail _ hmem => exact absurd ⟨hardware, hmem⟩ hrest

/-- After any calls, `dcurl_entry` finds what it may wait for exactly when the last
`dcurl_init` that returned true left an implementation with a context that is not
destroyed since. -/
theorem entry_served_iff (build : Build) (calls : List Lifecycle) (final : Registry)
    (hrun : Machine.run (Registry.step build) Registry.start calls = some final) :
    final.Served build ↔ LastInitServes build calls := by
  constructor
  · intro hserved before hardware after registry heq hlast hbefore
    rw [heq, Machine.run_append_of_eq _ hbefore] at hrun
    exact (served_after_iff hbefore hlast hrun).mp hserved
  · intro hmeets
    by_cases hinit : ∃ hardware, .init hardware ∈ calls
    · have ⟨before, hardware, after, heq, hlast⟩ := exists_last_init hinit
      rw [heq, Machine.run_append] at hrun
      have ⟨registry, hbefore, hafter⟩ := Option.bind_eq_some_iff.mp hrun
      exact (served_after_iff hbefore hlast hafter).mpr
        (hmeets before hardware after registry heq hlast hbefore)
    · have ⟨_, hflag, _⟩ := (Tracked.start build).run_after
        (fun other hmem => hinit ⟨other, hmem⟩) hrun
      intro hfinal
      rw [hflag] at hfinal
      cases hfinal

theorem entry_served_iff_started :
    ∃ final, Machine.run (Registry.step genericBuild) Registry.start [.init twoThreads, .entry] =
      some final ∧ (final.Served genericBuild ↔
        LastInitServes genericBuild [.init twoThreads, .entry]) :=
  ⟨_, rfl, entry_served_iff genericBuild [.init twoThreads, .entry] _ rfl⟩

/-- A call of `dcurl_entry` after `dcurl_destroy` waits for an empty list. -/
theorem not_served_destroyed : ¬∀ (build : Build) (calls : List Lifecycle) (final : Registry),
    Machine.run (Registry.step build) Registry.start calls = some final → final.Served build := by
  intro h
  have hserved := h genericBuild [.init twoThreads, .destroy] _ rfl rfl
  exact not_offers_of_isRing_nil ⟨List.nodup_singleton _, rfl, rfl⟩ hserved.2

end Registry

end Dcurl
