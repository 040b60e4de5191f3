import Dcurl.RemoteAnswers

/-! What the remote branch and its fallback owe to their callers, in every run: connections
are never shared, every context comes back, and every result answers the call's own
request. -/
namespace Dcurl

open Library

section linked

variable {ι Ctx : Type}

def CallsGrow (calls calls' : List (Call ι)) : Prop :=
  ∀ (k : Nat) request phase, calls[k]? = some ⟨request, phase⟩ → phase ≠ .refused →
    ∃ phase', calls'[k]? = some ⟨request, phase'⟩ ∧ phase' ≠ .refused

theorem CallsGrow.refl (calls : List (Call ι)) : CallsGrow calls calls :=
  fun _ _ phase hk hne => ⟨phase, hk, hne⟩

theorem CallsGrow.append (calls : List (Call ι)) (call : Call ι) :
    CallsGrow calls (calls ++ [call]) := by
  intro k request phase hk hne
  have hlt := (List.getElem?_eq_some_iff.mp hk).1
  exact ⟨phase, by rw [List.getElem?_append_left hlt, hk], hne⟩

theorem CallsGrow.set {calls : List (Call ι)} {k : Nat} {call : Call ι} {phase : Phase ι}
    (hk : calls[k]? = some call) (hne : phase ≠ .refused) :
    CallsGrow calls (calls.set k { call with phase := phase }) := by
  intro k' request old hk' hold
  by_cases hsame : k = k'
  · subst hsame
    have hlt := (List.getElem?_eq_some_iff.mp hk).1
    rw [hk] at hk'
    cases hk'
    exact ⟨phase, by rw [List.getElem?_set_self hlt], hne⟩
  · exact ⟨old, by rw [List.getElem?_set_ne hsame, hk'], hold⟩

def Entry.Linked (system : EntrySystem ι Ctx) (entry : Entry) : Prop :=
  match entry.phase with
  | .refused => True
  | .remotePow k =>
      ∃ phase, system.side.calls[k]? = some ⟨entry.request, phase⟩ ∧ phase ≠ .refused
  | .localPow k =>
      ∃ phase, system.localSide.calls[k]? = some ⟨entry.request, phase⟩ ∧ phase ≠ .refused

variable {system next : EntrySystem ι Ctx} {entry : Entry}

theorem Entry.Linked.mono (h : entry.Linked system)
    (hside : CallsGrow system.side.calls next.side.calls)
    (hlocal : CallsGrow system.localSide.calls next.localSide.calls) : entry.Linked next := by
  obtain ⟨request, phase⟩ := entry
  cases phase with
  | refused => trivial
  | remotePow k =>
      have ⟨phase, hk, hne⟩ := h
      exact hside k request phase hk hne
  | localPow k =>
      have ⟨phase, hk, hne⟩ := h
      exact hlocal k request phase hk hne

end linked

section side

variable {Queue : Type}

def RemoteSide.Simulated (Queue : Type) (side : RemoteSide) : Prop :=
  ∃ abs : RemoteSystem, side.Refines abs ∧
    Inv (remoteImpls : Unit → PowFunctions PowRemoteContext (Attempt Queue)) () abs ∧
      Admission abs

theorem registerRemote_ne_nil {side : RemoteSide} {memory : Option (Nat → PowRemoteContext)}
    (hup : (registerRemote memory side).1 = true) :
    (registerRemote memory side).2.remoteImplList ≠ [] := by
  unfold registerRemote at hup ⊢
  split at hup
  · simp
  · cases hup

theorem calls_registerRemote (memory : Option (Nat → PowRemoteContext)) (side : RemoteSide) :
    (registerRemote memory side).2.calls = side.calls := by
  unfold registerRemote
  split <;> rfl

theorem remoteImplList_step {side side' : RemoteSide} {k : Nat} {attempt : Attempt Queue}
    (hstep : side.step k attempt = some side') : side'.remoteImplList = side.remoteImplList := by
  have ⟨call, _, hmap⟩ := Option.bind_eq_some_iff.mp hstep
  have ⟨(phase, shared), hcall, heq⟩ := Option.map_eq_some_iff.mp hmap
  cases heq
  unfold remoteCallStep at hcall
  split at hcall
  · cases hcall
    rfl
  · split at hcall <;> cases hcall <;> rfl
  · split at hcall <;> cases hcall
    rfl
  · cases hcall
    rfl
  · have ⟨_, _, heq⟩ := Option.map_eq_some_iff.mp hcall
    cases heq
    rfl
  · cases hcall
  · cases hcall

namespace RemoteSide.Simulated

variable {side side' : RemoteSide} {call : Call Unit} {attempt : Attempt Queue}
  {phase : Phase Unit} {k : Nat}

theorem start (contexts : Nat → PowRemoteContext) :
    (⟨.fresh contexts, [], 0, []⟩ : RemoteSide).Simulated Queue :=
  ⟨System.start fun _ i => ⟨i, contexts i⟩, ⟨rfl, rfl, rfl, rfl, rfl, absurd rfl, absurd rfl⟩,
    Inv.start _, Admission.start _⟩

theorem registerRemote (h : side.Simulated Queue)
    (hidle : (side.calls.all fun call => call.phase.isOver) = true)
    (hempty : side.remoteImplList = []) (memory : Option (Nat → PowRemoteContext)) :
    (registerRemote memory side).2.Simulated Queue := by
  have ⟨abs, hrefines, hinv, hadmission⟩ := h
  have habs : abs.idle = true := by rw [System.idle, hrefines.calls_eq, hidle]
  refine ⟨_, hrefines.init hempty memory, hinv.init habs (hrefines.implList_eq.trans hempty) ?_ _,
    hadmission.init habs _ _⟩
  exact fun _ => by simp [Refines.remoteHost]

theorem destroy (h : side.Simulated Queue)
    (hidle : (side.calls.all fun call => call.phase.isOver) = true) :
    { side with remoteImplList := [] }.Simulated Queue := by
  have ⟨abs, hrefines, hinv, hadmission⟩ := h
  have habs : abs.idle = true := by rw [System.idle, hrefines.calls_eq, hidle]
  exact ⟨dcurlDestroy abs, ⟨rfl, hrefines.notify_eq, hrefines.calls_eq, hrefines.working_eq,
    hrefines.numMaxThread_eq, absurd rfl, absurd rfl⟩, hinv.destroy habs,
    hadmission.of_idle habs rfl fun _ => rfl⟩

theorem provides {abs : RemoteSystem} (hrefines : side.Refines abs)
    (hlist : side.remoteImplList ≠ []) : abs.Provides := by
  refine ⟨hrefines.implList_eq ▸ hlist, fun _ _ => ?_⟩
  rw [(hrefines.impl hlist).numMaxThread_eq, hrefines.numMaxThread_eq]
  decide

theorem enqueue (h : side.Simulated Queue) (hlist : side.remoteImplList ≠ []) (request : Request) :
    (side.enqueue request).Simulated Queue := by
  have ⟨abs, hrefines, hinv, hadmission⟩ := h
  refine ⟨abs.enqueue request, ?_, hinv.enqueue request,
    hadmission.enqueue request (provides hrefines hlist)⟩
  have hcalls := hrefines.setCalls (abs.calls ++ [⟨request, .scanning abs.implList⟩])
  unfold RemoteSide.enqueue System.enqueue
  rwa [hrefines.calls_eq, hrefines.implList_eq] at hcalls ⊢

theorem exists_callStep {abs : RemoteSystem} (hrefines : side.Refines abs)
    (hinv : Inv (remoteImpls : Unit → PowFunctions PowRemoteContext (Attempt Queue)) () abs)
    (hk : side.calls[k]? = some call)
    (hstep : remoteCallStep attempt side call = some (phase, side')) :
    ∃ abs', Dcurl.callStep remoteImpls attempt abs call = some (phase, abs') ∧
      side'.Refines abs' := by
  have hk' : abs.calls[k]? = some call := by rw [hrefines.calls_eq, hk]
  refine hrefines.callStep ?_ hstep
  rw [← hrefines.implList_eq]
  intro hregistered
  have hmem : () ∈ abs.implList := by
    cases hregistered with
    | inl hscanning =>
        have ⟨rest, hphase⟩ := hscanning
        have hsound := hinv.sound k call hk'
        rw [hphase] at hsound
        exact hsound List.mem_cons_self
    | inr hworking =>
        have ⟨work, hphase, hinside⟩ := hworking
        refine hinv.mem_implList hk' ?_
        rw [hphase, Phase.stageAt, if_pos rfl]
        exact hinside
  exact List.ne_nil_of_mem hmem

theorem step (h : side.Simulated Queue) (hstep : side.step k attempt = some side') :
    side'.Simulated Queue := by
  obtain ⟨abs, hrefines, hinv, hadmission⟩ := h
  obtain ⟨call, hk, hmap⟩ := Option.bind_eq_some_iff.mp hstep
  obtain ⟨⟨phase, shared⟩, hcall, heq⟩ := Option.map_eq_some_iff.mp hmap
  obtain ⟨abs', habs, hrefines'⟩ := exists_callStep hrefines hinv hk hcall
  have hk' : abs.calls[k]? = some call := by rw [hrefines.calls_eq, hk]
  cases heq
  rw [← hrefines.calls_eq]
  exact ⟨_, hrefines'.setCalls _, hinv.advance hk' habs, hadmission.advance hk' habs⟩

end RemoteSide.Simulated

end side

section entries

variable {ι Ctx Choice Queue : Type} [DecidableEq ι]

theorem callsGrow_advance {functions : ι → PowFunctions Ctx Choice} {compiled : List ι}
    {choice : Choice} {system next : System ι Ctx} {k : Nat}
    (hstep : System.step functions compiled system (.advance k choice) = some next) :
    CallsGrow system.calls next.calls := by
  have ⟨call, hk, hmap⟩ := Option.bind_eq_some_iff.mp hstep
  have ⟨(phase, shared), hcall, heq⟩ := Option.map_eq_some_iff.mp hmap
  cases heq
  exact CallsGrow.set hk (callSteps_of_callStep hcall).ne_refused

theorem RemoteSide.Simulated.callsGrow {side side' : RemoteSide} {k : Nat}
    {attempt : Attempt Queue} (h : side.Simulated Queue)
    (hstep : side.step k attempt = some side') :
    CallsGrow side.calls side'.calls := by
  have ⟨abs, hrefines, hinv, _⟩ := h
  have ⟨call, hk, hmap⟩ := Option.bind_eq_some_iff.mp hstep
  have ⟨(phase, shared), hcall, heq⟩ := Option.map_eq_some_iff.mp hmap
  have ⟨abs', habs, _⟩ := exists_callStep hrefines hinv hk hcall
  cases heq
  exact CallsGrow.set hk (callSteps_of_callStep habs).ne_refused

structure EntrySystem.Inv (Queue : Type) (functions : ι → PowFunctions Ctx Choice)
    (system : EntrySystem ι Ctx) : Prop where
  side : system.side.Simulated Queue
  capRemote : system.capRemote = true → system.side.remoteImplList ≠ []
  locals : ∀ j, Dcurl.Inv functions j system.localSide
  linked : ∀ entry ∈ system.entries, entry.Linked system

/-- Wherever a local implementation starts, it has 1 to 31 contexts. -/
def EntryAction.Fits (functions : ι → PowFunctions Ctx Choice) :
    EntryAction ι Ctx Choice Queue → Prop
  | .init hosts _ => ∀ j, (functions j).starts (hosts j) = true →
      1 ≤ (hosts j).numMaxThread ∧ (hosts j).numMaxThread ≤ 31
  | _ => True

namespace EntrySystem.Inv

variable {functions : ι → PowFunctions Ctx Choice} {compiled : List ι}
  {system next : EntrySystem ι Ctx}

theorem start (functions : ι → PowFunctions Ctx Choice)
    (remoteContexts : Nat → PowRemoteContext) (contexts : ι → Nat → Slot Ctx) :
    (EntrySystem.start remoteContexts contexts).Inv Queue functions where
  side := .start remoteContexts
  capRemote := Bool.noConfusion
  locals _ := .start contexts
  linked := by simp [EntrySystem.start]

theorem init (h : system.Inv Queue functions) (hidle : system.idle = true)
    (hremote : system.side.remoteImplList = []) (hlocal : system.localSide.implList = [])
    {hosts : ι → Host Ctx} {memory : Option (Nat → PowRemoteContext)}
    (hfits : (EntryAction.init hosts memory : EntryAction ι Ctx Choice Queue).Fits functions) :
    (system.init functions compiled hosts memory).Inv Queue functions := by
  unfold EntrySystem.idle at hidle
  simp only [Bool.and_eq_true] at hidle
  have hcalls : (dcurlInit functions compiled hosts system.localSide).calls =
      system.localSide.calls := calls_registerImplContext (false, system.localSide) compiled
  constructor
  · exact h.side.registerRemote hidle.1.1 hremote memory
  · intro hcap
    have hup : (registerRemote memory system.side).1 = true := by
      cases hold : system.capRemote with
      | true => exact absurd hremote (h.capRemote hold)
      | false => simpa [EntrySystem.init, hold] using hcap
    exact registerRemote_ne_nil hup
  · exact fun j => ((h.locals j).init hidle.1.2 hlocal (hfits j) compiled).setInitialized _
  · intro entry hmem
    refine (h.linked entry hmem).mono ?_ ?_
    · simpa [EntrySystem.init, calls_registerRemote] using CallsGrow.refl system.side.calls
    · simpa [EntrySystem.init, hcalls] using CallsGrow.refl system.localSide.calls

theorem destroy (h : system.Inv Queue functions) (hidle : system.idle = true) :
    system.destroy.Inv Queue functions := by
  unfold EntrySystem.idle at hidle
  simp only [Bool.and_eq_true] at hidle
  refine ⟨h.side.destroy hidle.1.1, Bool.noConfusion, fun j => (h.locals j).destroy hidle.1.2, ?_⟩
  exact fun entry hmem => (h.linked entry hmem).mono (CallsGrow.refl _) (CallsGrow.refl _)

theorem enter (h : system.Inv Queue functions) (request : Request) :
    (system.enter request).Inv Queue functions := by
  unfold EntrySystem.enter
  split
  · refine ⟨h.side, h.capRemote, h.locals, ?_⟩
    intro entry hmem
    cases List.mem_append.mp hmem with
    | inl hold => exact (h.linked entry hold).mono (CallsGrow.refl _) (CallsGrow.refl _)
    | inr hnew =>
        rw [List.mem_singleton.mp hnew]
        trivial
  · split
    · rename_i hcap
      refine ⟨h.side.enqueue (h.capRemote hcap) request, h.capRemote, h.locals, ?_⟩
      intro entry hmem
      cases List.mem_append.mp hmem with
      | inl hold => exact (h.linked entry hold).mono (CallsGrow.append _ _) (CallsGrow.refl _)
      | inr hnew =>
          rw [List.mem_singleton.mp hnew]
          exact ⟨_, List.getElem?_concat_length, by simp⟩
    · refine ⟨h.side, h.capRemote, fun j => (h.locals j).enqueue request, ?_⟩
      intro entry hmem
      cases List.mem_append.mp hmem with
      | inl hold => exact (h.linked entry hold).mono (CallsGrow.refl _) (CallsGrow.append _ _)
      | inr hnew =>
          rw [List.mem_singleton.mp hnew]
          exact ⟨_, List.getElem?_concat_length, by simp⟩

theorem fallback {e : Nat} (h : system.Inv Queue functions)
    (hstep : system.fallback e = some next) :
    next.Inv Queue functions := by
  unfold EntrySystem.fallback at hstep
  split at hstep
  · split at hstep
    · cases hstep
      refine ⟨h.side, h.capRemote, fun j => (h.locals j).enqueue _, ?_⟩
      intro entry hmem
      cases List.mem_or_eq_of_mem_set hmem with
      | inl hold => exact (h.linked entry hold).mono (CallsGrow.refl _) (CallsGrow.append _ _)
      | inr hnew =>
          rw [hnew]
          exact ⟨_, List.getElem?_concat_length, by simp⟩
    · cases hstep
  · cases hstep

theorem step {action : EntryAction ι Ctx Choice Queue} (h : system.Inv Queue functions)
    (hfits : action.Fits functions)
    (hstep : system.step functions compiled action = some next) : next.Inv Queue functions := by
  cases action with
  | init hosts memory =>
      simp only [EntrySystem.step] at hstep
      split at hstep
      · rename_i hready
        simp only [Bool.and_eq_true, List.isEmpty_iff] at hready
        cases hstep
        exact h.init hready.1.1 hready.1.2 hready.2 hfits
      · cases hstep
  | destroy =>
      simp only [EntrySystem.step] at hstep
      split at hstep
      · rename_i hidle
        cases hstep
        exact h.destroy hidle
      · cases hstep
  | entry request =>
      cases hstep
      exact h.enter request
  | remoteStep k attempt =>
      obtain ⟨side, hside, heq⟩ := Option.map_eq_some_iff.mp hstep
      cases heq
      have hgrow := h.side.callsGrow hside
      refine ⟨h.side.step hside, ?_, h.locals,
        fun entry hmem => (h.linked entry hmem).mono hgrow (CallsGrow.refl _)⟩
      intro hcap
      rw [remoteImplList_step hside]
      exact h.capRemote hcap
  | fallback e => exact h.fallback hstep
  | localStep k choice =>
      obtain ⟨localSide, hlocal, heq⟩ := Option.map_eq_some_iff.mp hstep
      cases heq
      have hgrow := callsGrow_advance hlocal
      have hlocals : ∀ j, Dcurl.Inv functions j localSide := by
        intro j
        apply (h.locals j).step _ hlocal
        trivial
      exact ⟨h.side, h.capRemote, hlocals,
        fun entry hmem => (h.linked entry hmem).mono (CallsGrow.refl _) hgrow⟩

theorem run {actions : List (EntryAction ι Ctx Choice Queue)} {final : EntrySystem ι Ctx}
    {remoteContexts : Nat → PowRemoteContext} {contexts : ι → Nat → Slot Ctx}
    (hfits : ∀ action ∈ actions, action.Fits functions)
    (hrun : Machine.run (EntrySystem.step functions compiled)
      (EntrySystem.start remoteContexts contexts) actions = some final) :
    final.Inv Queue functions := by
  apply Machine.run_invariant_along (fun _ action => action.Fits functions)
    (EntrySystem.Inv Queue functions) _ (start functions remoteContexts contexts)
    (Machine.along_of_forall _ hfits _) hrun
  intro state action next h hallowed hstep
  exact h.step hallowed hstep

end EntrySystem.Inv

/-- In the run that these actions make, the call was at the broker in this attempt. -/
def MadeAttempt (functions : ι → PowFunctions Ctx Choice) (compiled : List ι)
    (start : EntrySystem ι Ctx) (actions : List (EntryAction ι Ctx Choice Queue)) (k : Nat)
    (attempt : Attempt Queue) : Prop :=
  ∃ before after middle request i, actions = before ++ .remoteStep k attempt :: after ∧
    Machine.run (EntrySystem.step functions compiled) start before = some middle ∧
      middle.side.calls[k]? = some ⟨request, .working () (.holding i)⟩

/-- What an entry may return: what the broker sent for its own request in an attempt that its
call made, or what a local implementation answers to it. -/
def Entry.Answered (functions : ι → PowFunctions Ctx Choice) (made : Nat → Attempt Queue → Prop)
    (entry : Entry) (res : Option (Vector Int8 2673)) : Prop :=
  match entry.phase with
  | .refused => res = none
  | .remotePow k => res ≠ none ∧ ∃ attempt, made k attempt ∧ attempt.answer entry.request = res
  | .localPow _ => ∃ j, Answers (functions j) entry.request res

structure EntrySystem.Safe (functions : ι → PowFunctions Ctx Choice)
    (made : Nat → Attempt Queue → Prop) (system : EntrySystem ι Ctx) : Prop where
  neverNull : ∀ call ∈ system.side.calls, call.phase ≠ .working () .noContext
  /-- No two calls hold one context, and so one connection. -/
  distinct : system.side.Distinct
  /-- A call publishes its own request on one of the 20 connections, that of its context. -/
  connection : ∀ call ∈ system.side.calls, ∀ i, call.phase = .working () (.holding i) →
    i < 20 ∧ (system.side.remote.context i).indexOfContext = i ∧
      (system.side.remote.context i).inputTrytes = call.request.trytes ∧
        (system.side.remote.context i).mwm = call.request.mwm
  counted : 0 ≤ system.side.remote.numWorkingThread ∧ system.side.remote.numWorkingThread ≤ 20
  quiet : (∀ call ∈ system.side.calls, call.phase.isOver = true) →
    system.side.remote.numWorkingThread = 0 ∧
      (system.side.remoteImplList ≠ [] → ∀ i < 20, system.side.remote.slots i = false)
  locals : ∀ j, AllocatorSafe functions j system.localSide
  own : ∀ entry ∈ system.entries, ∀ res, system.result entry = some res →
    entry.Answered functions made res

section side

variable {side : RemoteSide} {abs : RemoteSystem} (hrefines : side.Refines abs)

include hrefines

theorem RemoteSide.Refines.capacity_le : abs.capacity () ≤ 20 := by
  unfold System.capacity
  split
  · rename_i hmem
    have hlist : side.remoteImplList ≠ [] := hrefines.implList_eq ▸ List.ne_nil_of_mem hmem
    rw [(hrefines.impl hlist).numMaxThread_eq, hrefines.numMaxThread_eq]
    decide
  · exact Nat.zero_le _

variable (hinv : Inv (remoteImpls : Unit → PowFunctions PowRemoteContext (Attempt Queue)) () abs)

include hinv

theorem RemoteSide.Refines.counted :
    0 ≤ side.remote.numWorkingThread ∧ side.remote.numWorkingThread ≤ 20 := by
  have hle := hinv.table.working_le
  have hcapacity := hrefines.capacity_le
  rw [← hrefines.working_eq]
  exact ⟨hinv.table.working_nonneg, by omega⟩

theorem RemoteSide.Refines.quiet (hover : ∀ call ∈ side.calls, call.phase.isOver = true) :
    side.remote.numWorkingThread = 0 ∧
      (side.remoteImplList ≠ [] → ∀ i < 20, side.remote.slots i = false) := by
  have hidle : abs.idle = true := by
    rw [System.idle, hrefines.calls_eq]
    exact List.all_eq_true.mpr hover
  have ⟨hworking, hfree⟩ := hinv.table.of_outside (stageAt_of_idle hidle)
  rw [hrefines.working_eq] at hworking
  refine ⟨hworking, fun hlist i hi => ?_⟩
  have hmem : () ∈ abs.implList := by
    rw [hrefines.implList_eq]
    exact (List.exists_mem_of_ne_nil _ hlist).choose_spec
  have himpl := hrefines.impl hlist
  rw [capacity_of_mem hmem, himpl.numMaxThread_eq, hrefines.numMaxThread_eq] at hfree
  have hslot := himpl.slots i (by rw [hrefines.numMaxThread_eq]; exact hi)
  rw [hfree i hi] at hslot
  simpa using hslot.symm

theorem RemoteSide.Refines.connection {call : Call Unit} (hcall : call ∈ side.calls) {i : Nat}
    (hphase : call.phase = .working () (.holding i)) :
    i < 20 ∧ (side.remote.context i).indexOfContext = i ∧
      (side.remote.context i).inputTrytes = call.request.trytes ∧
        (side.remote.context i).mwm = call.request.mwm := by
  obtain ⟨k, hk⟩ := List.mem_iff_getElem?.mp hcall
  rw [← hrefines.calls_eq] at hk
  have hstage : call.phase.stageAt () = .owns i := by
    rw [hphase, Phase.stageAt, if_pos rfl]
    rfl
  have hlist : side.remoteImplList ≠ [] := by
    rw [← hrefines.implList_eq]
    exact List.ne_nil_of_mem (hinv.mem_implList hk (by rw [hstage]; rfl))
  have hrange := hinv.table.inRange i (List.mem_of_getElem? (hstage ▸ stages_of_getElem? hk))
  have hcapacity := hrefines.capacity_le
  have hsound := hinv.sound k call hk
  rw [hphase] at hsound
  obtain ⟨hindex, ctx, hctx⟩ := hsound rfl
  rw [(hrefines.impl hlist).context i, hctx]
  exact ⟨by omega, hindex, rfl, rfl⟩

end side

namespace EntrySystem.Inv

variable {functions : ι → PowFunctions Ctx Choice} {compiled : List ι}
  {system next : EntrySystem ι Ctx}

theorem distinct (h : system.Inv Queue functions) : system.side.Distinct := by
  have ⟨abs, hrefines, hinv, _⟩ := h.side
  unfold RemoteSide.Distinct
  rw [← hrefines.calls_eq]
  exact hinv.allocatorSafe.distinct

theorem connection (h : system.Inv Queue functions) {call : Call Unit}
    (hcall : call ∈ system.side.calls) {i : Nat} (hphase : call.phase = .working () (.holding i)) :
    i < 20 ∧ (system.side.remote.context i).indexOfContext = i ∧
      (system.side.remote.context i).inputTrytes = call.request.trytes ∧
        (system.side.remote.context i).mwm = call.request.mwm := by
  have ⟨_, hrefines, hinv, _⟩ := h.side
  exact hrefines.connection hinv hcall hphase

theorem filled (h : system.Inv Queue functions) : system.side.Filled := by
  intro k request i hk
  have ⟨_, _, htrytes, hmwm⟩ := h.connection (List.mem_of_getElem? hk) rfl
  exact ⟨htrytes, hmwm⟩

theorem brought_step {source source' : Nat → Request → Vector Int8 2673 → Prop}
    {action : EntryAction ι Ctx Choice Queue} (h : system.Inv Queue functions)
    (hbrought : system.side.Brought source)
    (hsource : ∀ k request res, source k request res → source' k request res)
    (hstep : system.step functions compiled action = some next)
    (hattempt : ∀ k attempt, action = .remoteStep k attempt →
      ∀ request i, system.side.calls[k]? = some ⟨request, .working () (.holding i)⟩ →
        ∀ res, attempt.answer request = some res → source' k request res) :
    next.side.Brought source' := by
  have hmono := hbrought.mono hsource
  cases action with
  | init hosts memory =>
      simp only [EntrySystem.step, Option.ite_none_right_eq_some, Bool.and_eq_true] at hstep
      obtain ⟨⟨⟨hidle, _⟩, _⟩, heq⟩ := hstep
      unfold EntrySystem.idle at hidle
      simp only [Bool.and_eq_true, List.all_eq_true] at hidle
      cases heq
      intro k call hk res hres
      have hcall : system.side.calls[k]? = some call := calls_registerRemote memory system.side ▸ hk
      have hover := hidle.1.1 call (List.mem_of_getElem? hcall)
      refine hmono k call hcall res (hres ▸ (Phase.brought_eq fun i howns => ?_))
      cases hphase : call.phase with
      | working j work =>
          rw [hphase] at hover
          cases hover
      | _ =>
          rw [hphase] at howns
          cases howns
  | destroy =>
      simp only [EntrySystem.step, Option.ite_none_right_eq_some] at hstep
      cases hstep.2
      exact hmono
  | entry request =>
      cases hstep
      unfold EntrySystem.enter
      split
      · exact hmono
      · split
        · exact hmono.enqueue request
        · exact hmono
  | remoteStep k attempt =>
      obtain ⟨side, hside, heq⟩ := Option.map_eq_some_iff.mp hstep
      cases heq
      exact hbrought.step h.distinct h.filled hsource hside (hattempt k attempt rfl)
  | fallback e =>
      simp only [EntrySystem.step, EntrySystem.fallback] at hstep
      split at hstep
      · split at hstep <;> cases hstep
        exact hmono
      · cases hstep
  | localStep k choice =>
      obtain ⟨localSide, _, heq⟩ := Option.map_eq_some_iff.mp hstep
      cases heq
      exact hmono

/-- All that the calls of a run have from the broker was sent in attempts that they made. -/
theorem brought_run {remoteContexts : Nat → PowRemoteContext} {contexts : ι → Nat → Slot Ctx}
    {actions : List (EntryAction ι Ctx Choice Queue)}
    (hfits : ∀ action ∈ actions, action.Fits functions)
    (hrun : Machine.run (EntrySystem.step functions compiled)
      (EntrySystem.start remoteContexts contexts) actions = some system) :
    system.side.Brought fun k request res => ∃ attempt, MadeAttempt functions compiled
      (EntrySystem.start remoteContexts contexts) actions k attempt ∧
        attempt.answer request = some res := by
  refine Machine.run_invariant_history (fun before (middle : EntrySystem ι Ctx) =>
    (∀ action ∈ before, action.Fits functions) → middle.side.Brought fun k request res =>
      ∃ attempt, MadeAttempt functions compiled (EntrySystem.start remoteContexts contexts)
        before k attempt ∧ attempt.answer request = some res) ?_ ?_ hrun hfits
  · intro _ k call hk
    simp [EntrySystem.start] at hk
  · intro before middle action next hbefore hbrought hstep hfits
    have hfits' : ∀ action ∈ before, action.Fits functions := fun action hmem =>
      hfits action (List.mem_append_left _ hmem)
    refine (EntrySystem.Inv.run hfits' hbefore).brought_step (hbrought hfits') ?_ hstep ?_
    · rintro k request res ⟨attempt, ⟨first, rest, state, asked, i, heq, hmade⟩, hanswer⟩
      exact ⟨attempt, ⟨first, rest ++ [action], state, asked, i, by simp [heq], hmade⟩, hanswer⟩
    · intro k attempt haction request i hk res hanswer
      exact ⟨attempt, ⟨before, [], middle, request, i, by rw [haction], hbefore, hk⟩, hanswer⟩

theorem returned_of_result (h : system.Inv Queue functions) {entry : Entry}
    (hmem : entry ∈ system.entries) {res : Option (Vector Int8 2673)}
    (hres : system.result entry = some res) :
    match entry.phase with
    | .refused => res = none
    | .remotePow k => res ≠ none ∧ system.side.calls[k]? = some ⟨entry.request, .returned () res⟩
    | .localPow k =>
        ∃ j, system.localSide.calls[k]? = some ⟨entry.request, .returned j res⟩ := by
  have hlinked := h.linked entry hmem
  obtain ⟨request, phase⟩ := entry
  cases phase with
  | refused =>
      cases hres
      rfl
  | remotePow k =>
      have ⟨phase, hk, _⟩ := hlinked
      simp only [result, hk] at hres
      split at hres
      · rename_i heq
        cases heq
        cases hres
        exact ⟨by simp, hk⟩
      · cases hres
  | localPow k =>
      have ⟨phase, hk, _⟩ := hlinked
      simp only [result, hk] at hres
      split at hres
      · rename_i j _ heq
        cases heq
        cases hres
        exact ⟨j, hk⟩
      · cases hres

theorem answered (h : system.Inv Queue functions) {made : Nat → Attempt Queue → Prop}
    (hbrought : system.side.Brought fun k request res =>
      ∃ attempt, made k attempt ∧ attempt.answer request = some res)
    {entry : Entry} (hmem : entry ∈ system.entries) {res : Option (Vector Int8 2673)}
    (hres : system.result entry = some res) : entry.Answered functions made res := by
  have hreturned := h.returned_of_result hmem hres
  obtain ⟨request, phase⟩ := entry
  cases phase with
  | refused => exact hreturned
  | remotePow k =>
      have ⟨hsome, hk⟩ := hreturned
      obtain ⟨answer, rfl⟩ := Option.ne_none_iff_exists'.mp hsome
      exact ⟨hsome, hbrought k _ hk answer rfl⟩
  | localPow k =>
      have ⟨j, hk⟩ := hreturned
      exact ⟨j, (h.locals j).sound k _ hk rfl⟩

theorem safe (h : system.Inv Queue functions) {made : Nat → Attempt Queue → Prop}
    (hbrought : system.side.Brought fun k request res =>
      ∃ attempt, made k attempt ∧ attempt.answer request = some res) :
    system.Safe functions made := by
  have ⟨abs, hrefines, hinv, _⟩ := h.side
  refine ⟨?_, h.distinct, fun call hcall i => h.connection hcall, hrefines.counted hinv,
    hrefines.quiet hinv, fun j => (h.locals j).allocatorSafe,
    fun _ hmem _ => h.answered hbrought hmem⟩
  rw [← hrefines.calls_eq]
  exact hinv.allocatorSafe.neverNull

end EntrySystem.Inv

/-- However remote and local calls interleave, whatever the broker does, and however often
the library was initialized and destroyed before. -/
theorem remoteEntries_safe (functions : ι → PowFunctions Ctx Choice) (compiled : List ι)
    (remoteContexts : Nat → PowRemoteContext) (contexts : ι → Nat → Slot Ctx)
    (actions : List (EntryAction ι Ctx Choice Queue)) (final : EntrySystem ι Ctx)
    (hfits : ∀ action ∈ actions, action.Fits functions)
    (hrun : Machine.run (EntrySystem.step functions compiled)
      (EntrySystem.start remoteContexts contexts) actions = some final) :
    final.Safe functions (MadeAttempt functions compiled
      (EntrySystem.start remoteContexts contexts) actions) :=
  (EntrySystem.Inv.run hfits hrun).safe (EntrySystem.Inv.brought_run hfits hrun)

end entries

section asks

variable {ι Ctx Choice Queue : Type} {system next : EntrySystem ι Ctx}

structure EntrySystem.Asks (asked : Request → Prop) (system : EntrySystem ι Ctx) : Prop where
  entries : ∀ entry ∈ system.entries, asked entry.request
  side : ∀ call ∈ system.side.calls, asked call.request
  locals : ∀ call ∈ system.localSide.calls, asked call.request

def EntryAction.Asks (asked : Request → Prop) : EntryAction ι Ctx Choice Queue → Prop
  | .entry request => asked request
  | _ => True

theorem asks_append {calls : List (Call ι)} {asked : Request → Prop} {request : Request}
    {phase : Phase ι} (h : ∀ call ∈ calls, asked call.request) (hrequest : asked request) :
    ∀ call ∈ calls ++ [⟨request, phase⟩], asked call.request := by
  simpa [or_imp, forall_and] using ⟨h, hrequest⟩

theorem asks_set {calls : List (Call ι)} {asked : Request → Prop} {k : Nat} {call : Call ι}
    {phase : Phase ι} (h : ∀ call ∈ calls, asked call.request) (hk : calls[k]? = some call) :
    ∀ other ∈ calls.set k { call with phase := phase }, asked other.request := by
  intro other hmem
  cases List.mem_or_eq_of_mem_set hmem with
  | inl hold => exact h other hold
  | inr hnew =>
      rw [hnew]
      exact h call (List.mem_of_getElem? hk)

theorem EntrySystem.Asks.enter {asked : Request → Prop} (h : system.Asks asked)
    {request : Request} (hrequest : asked request) : (system.enter request).Asks asked := by
  have hentries : ∀ phase : EntryPhase, ∀ entry ∈ system.entries ++ [⟨request, phase⟩],
      asked entry.request := by
    intro phase
    simpa [or_imp, forall_and] using ⟨h.entries, hrequest⟩
  unfold EntrySystem.enter
  split
  · exact ⟨hentries _, h.side, h.locals⟩
  · split
    · exact ⟨hentries _, asks_append h.side hrequest, h.locals⟩
    · exact ⟨hentries _, h.side, asks_append h.locals hrequest⟩

theorem EntrySystem.Asks.fallback {asked : Request → Prop} {e : Nat} (h : system.Asks asked)
    (hstep : system.fallback e = some next) : next.Asks asked := by
  unfold EntrySystem.fallback at hstep
  split at hstep
  · rename_i request k hentry
    have hasked : asked request := h.entries _ (List.mem_of_getElem? hentry)
    split at hstep <;> cases hstep
    refine ⟨fun entry hmem => ?_, h.side, asks_append h.locals hasked⟩
    cases List.mem_or_eq_of_mem_set hmem with
    | inl hold => exact h.entries entry hold
    | inr hnew =>
        rw [hnew]
        exact hasked
  · cases hstep

variable [DecidableEq ι] {functions : ι → PowFunctions Ctx Choice} {compiled : List ι}

theorem EntrySystem.Asks.step {asked : Request → Prop} {action : EntryAction ι Ctx Choice Queue}
    (h : system.Asks asked) (haction : action.Asks asked)
    (hstep : system.step functions compiled action = some next) : next.Asks asked := by
  cases action with
  | init hosts memory =>
      simp only [EntrySystem.step, Option.ite_none_right_eq_some] at hstep
      cases hstep.2
      refine ⟨h.entries, ?_, ?_⟩
      · simpa [EntrySystem.init, calls_registerRemote] using h.side
      · have hcalls : (dcurlInit functions compiled hosts system.localSide).calls =
            system.localSide.calls := calls_registerImplContext (false, system.localSide) compiled
        simpa [EntrySystem.init, hcalls] using h.locals
  | destroy =>
      simp only [EntrySystem.step, Option.ite_none_right_eq_some] at hstep
      cases hstep.2
      exact ⟨h.entries, h.side, h.locals⟩
  | entry request =>
      cases hstep
      exact h.enter haction
  | remoteStep k attempt =>
      obtain ⟨side, hside, heq⟩ := Option.map_eq_some_iff.mp hstep
      obtain ⟨call, hk, hmap⟩ := Option.bind_eq_some_iff.mp hside
      obtain ⟨⟨phase, shared⟩, _, hcalls⟩ := Option.map_eq_some_iff.mp hmap
      cases heq
      cases hcalls
      exact ⟨h.entries, asks_set h.side hk, h.locals⟩
  | fallback e => exact h.fallback hstep
  | localStep k choice =>
      obtain ⟨localSide, hlocal, heq⟩ := Option.map_eq_some_iff.mp hstep
      obtain ⟨call, hk, hmap⟩ := Option.bind_eq_some_iff.mp hlocal
      obtain ⟨⟨phase, shared⟩, _, hcalls⟩ := Option.map_eq_some_iff.mp hmap
      cases heq
      cases hcalls
      exact ⟨h.entries, h.side, asks_set h.locals hk⟩

end asks

section witness

def silentStart (request : Request) : List (EntryAction Unit CpuContext (List Nat) Unit) :=
  [.init (fun _ => ⟨1, 1, some fun _ => ⟨0, .blank⟩⟩)
      (some fun _ => ⟨0, Vector.replicate 2673 0, Vector.replicate 2673 0, 0⟩),
    .entry request]

def silentMoves : List (EntryAction Unit CpuContext (List Nat) Unit) :=
  List.replicate 7 (.remoteStep 0 (answering none)) ++ [.fallback 0]

theorem silentStart_fits (request : Request) (action : EntryAction Unit CpuContext (List Nat) Unit)
    (hmem : action ∈ silentStart request) : action.Fits fun _ => PowC.backend.cpuFunctions := by
  simp only [silentStart, List.mem_cons, List.not_mem_nil, or_false] at hmem
  cases action with
  | init hosts memory =>
      simp only [EntryAction.init.injEq, reduceCtorEq, or_false] at hmem
      rw [hmem.1]
      exact fun _ _ => ⟨le_refl 1, by simp⟩
  | _ => trivial

theorem silentMoves_fits (action : EntryAction Unit CpuContext (List Nat) Unit)
    (hmem : action ∈ silentMoves) : action.Fits fun _ => PowC.backend.cpuFunctions := by
  cases action with
  | init hosts memory => simp [silentMoves] at hmem
  | _ => trivial

def answeredActions : List (EntryAction Unit CpuContext (List Nat) Unit) :=
  silentStart zeroRequest ++ (silentMoves ++ .entry zeroRequest ::
    List.replicate 8 (.remoteStep 1 (answering (some (Vector.replicate 2673 57)))))

theorem remoteEntries_safe_answered :
    ∃ final, Machine.run (EntrySystem.step (fun _ => PowC.backend.cpuFunctions) [()])
        (EntrySystem.start (fun _ => ⟨0, Vector.replicate 2673 0, Vector.replicate 2673 0, 0⟩)
          fun _ _ => ⟨0, .blank⟩) answeredActions = some final ∧
      final.result ⟨zeroRequest, .remotePow 1⟩ = some (some (Vector.replicate 2673 57)) ∧
      final.Safe (fun _ => PowC.backend.cpuFunctions)
        (MadeAttempt (fun _ => PowC.backend.cpuFunctions) [()]
          (EntrySystem.start (fun _ => ⟨0, Vector.replicate 2673 0, Vector.replicate 2673 0, 0⟩)
            fun _ _ => ⟨0, .blank⟩) answeredActions) := by
  have hsome : (Machine.run (EntrySystem.step (fun _ => PowC.backend.cpuFunctions) [()])
      (EntrySystem.start (fun _ => ⟨0, Vector.replicate 2673 0, Vector.replicate 2673 0, 0⟩)
        fun _ _ => ⟨0, .blank⟩) answeredActions).isSome = true := rfl
  have ⟨final, hrun⟩ := Option.isSome_iff_exists.mp hsome
  have hresult : final.result ⟨zeroRequest, .remotePow 1⟩ =
      some (some (Vector.replicate 2673 57)) := by
    cases hrun
    rfl
  refine ⟨final, hrun, hresult, remoteEntries_safe _ [()] _ _ _ final (fun action hmem => ?_) hrun⟩
  cases List.mem_append.mp hmem with
  | inl hstart => exact silentStart_fits zeroRequest action hstart
  | inr hmoves =>
      cases List.mem_append.mp hmoves with
      | inl hsilent => exact silentMoves_fits action hsilent
      | inr hanswered =>
          cases action with
          | init hosts memory => simp at hanswered
          | _ => trivial

end witness

end Dcurl
