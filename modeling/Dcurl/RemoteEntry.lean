import Dcurl.RemoteSlots
import Dcurl.Admission

/-! `dcurl_entry` with the remote interface, for any number of calls at once. A call that
finds `CAP_REMOTE` set goes through the remote branch and falls back to `local_pow` when
the broker fails it. -/
namespace Dcurl

open Library

section steps

variable {ι Ctx Choice Queue : Type}

structure RemoteSide where
  remote : RemoteImplContext
  remoteImplList : List Unit
  notifyRemote : Nat
  calls : List (Call Unit)

inductive EntryPhase where
  /-- Returned `NULL` since nothing was initialized. -/
  | refused
  | remotePow (call : Nat)
  | localPow (call : Nat)

structure Entry where
  request : Request
  phase : EntryPhase

/-- `is_initialized` is that of `localSide`. -/
structure EntrySystem (ι Ctx : Type) where
  side : RemoteSide
  capRemote : Bool
  localSide : System ι Ctx
  entries : List Entry

/-- A step of a call in the remote branch; `attempt` is what the broker does for it. -/
def remoteCallStep (attempt : Attempt Queue) (side : RemoteSide) (call : Call Unit) :
    Option (Phase Unit × RemoteSide) :=
  match call.phase with
  | .scanning [] => some (.waiting, side)
  | .scanning (_ :: rest) =>
      match enterRemoteContext side.remote with
      | none => some (.scanning rest, side)
      | some remote => some (.working () .admitted, { side with remote := remote })
  | .waiting =>
      if side.notifyRemote = 0 then none
      else some (.scanning side.remoteImplList, { side with notifyRemote := side.notifyRemote - 1 })
  | .working () (.exited res) =>
      some (.returned () res, { side with notifyRemote := side.notifyRemote + 1 })
  | .working () work =>
      (remoteWorkStep attempt call.request work side.remote).map fun (work, remote) =>
        (.working () work, { side with remote := remote })
  | .returned _ _ => none
  | .refused => none

def RemoteSide.step (side : RemoteSide) (k : Nat) (attempt : Attempt Queue) : Option RemoteSide :=
  side.calls[k]?.bind fun call =>
    (remoteCallStep attempt side call).map fun (phase, next) =>
      { next with calls := side.calls.set k { call with phase := phase } }

def RemoteSide.enqueue (request : Request) (side : RemoteSide) : RemoteSide :=
  { side with calls := side.calls ++ [⟨request, .scanning side.remoteImplList⟩] }

def System.enqueue (request : Request) (system : System ι Ctx) : System ι Ctx :=
  { system with calls := system.calls ++ [⟨request, .scanning system.implList⟩] }

/-- `remote_init`, and whether it succeeds: `memory` is what `malloc` returns, none where a
connection or the queue fails. -/
def initializeRemoteContext (memory : Option (Nat → PowRemoteContext))
    (remote : RemoteImplContext) : Bool × RemoteImplContext :=
  if remote.numMaxThread ≤ 0 then (false, remote)
  else
    let remote := { remote with
      slots := fun i => if (i : Int) < remote.numMaxThread then false else remote.slots i }
    match memory with
    | none => (false, remote)
    | some memory => (true, { remote with context := memory })

def registerRemote (memory : Option (Nat → PowRemoteContext)) (side : RemoteSide) :
    Bool × RemoteSide :=
  match initializeRemoteContext memory side.remote with
  | (true, remote) => (true, { side with
      remote := remote
      remoteImplList := () :: side.remoteImplList
      notifyRemote := 0 })
  | (false, remote) => (false, { side with remote := remote, notifyRemote := 0 })

inductive EntryAction (ι Ctx Choice Queue : Type) where
  | init (hosts : ι → Host Ctx) (memory : Option (Nat → PowRemoteContext))
  | destroy
  | entry (request : Request)
  | remoteStep (call : Nat) (attempt : Attempt Queue)
  /-- `goto local_pow` -/
  | fallback (entry : Nat)
  | localStep (call : Nat) (choice : Choice)

namespace EntrySystem

def result (system : EntrySystem ι Ctx) (entry : Entry) : Option (Option (Vector Int8 2673)) :=
  match entry.phase with
  | .refused => some none
  | .remotePow k =>
      match system.side.calls[k]? with
      | some ⟨_, .returned _ (some res)⟩ => some (some res)
      | _ => none
  | .localPow k =>
      match system.localSide.calls[k]? with
      | some ⟨_, .returned _ res⟩ => some res
      | _ => none

def idle (system : EntrySystem ι Ctx) : Bool :=
  (system.side.calls.all fun call => call.phase.isOver) && system.localSide.idle &&
    system.entries.all fun entry => (system.result entry).isSome

variable [DecidableEq ι] (functions : ι → PowFunctions Ctx Choice) (compiled : List ι)

def init (hosts : ι → Host Ctx) (memory : Option (Nat → PowRemoteContext))
    (system : EntrySystem ι Ctx) : EntrySystem ι Ctx :=
  let localSide := dcurlInit functions compiled hosts system.localSide
  let (up, side) := registerRemote memory system.side
  { system with
    side := side
    capRemote := system.capRemote || up
    localSide := { localSide with isInitialized := localSide.isInitialized || up } }

/-- `dcurl_destroy`, which clears `runtime_caps` and leaves `is_initialized`. -/
def destroy (system : EntrySystem ι Ctx) : EntrySystem ι Ctx :=
  { system with
    side := { system.side with remoteImplList := [] }
    capRemote := false
    localSide := dcurlDestroy system.localSide }

def enter (request : Request) (system : EntrySystem ι Ctx) : EntrySystem ι Ctx :=
  if !system.localSide.isInitialized then
    { system with entries := system.entries ++ [⟨request, .refused⟩] }
  else if system.capRemote then
    { system with
      side := system.side.enqueue request
      entries := system.entries ++ [⟨request, .remotePow system.side.calls.length⟩] }
  else
    { system with
      localSide := system.localSide.enqueue request
      entries := system.entries ++ [⟨request, .localPow system.localSide.calls.length⟩] }

def fallback (e : Nat) (system : EntrySystem ι Ctx) : Option (EntrySystem ι Ctx) :=
  match system.entries[e]? with
  | some ⟨request, .remotePow k⟩ =>
      match system.side.calls[k]? with
      | some ⟨_, .returned _ none⟩ =>
          some { system with
            localSide := system.localSide.enqueue request
            entries := system.entries.set e ⟨request, .localPow system.localSide.calls.length⟩ }
      | _ => none
  | _ => none

/-- The system steps; as before `dcurl_init` and `dcurl_destroy` run while no call is in
flight, and `dcurl_init` after what it registered is destroyed. -/
def step (system : EntrySystem ι Ctx) :
    EntryAction ι Ctx Choice Queue → Option (EntrySystem ι Ctx)
  | .init hosts memory =>
      if system.idle && system.side.remoteImplList.isEmpty && system.localSide.implList.isEmpty then
        some (system.init functions compiled hosts memory)
      else none
  | .destroy => if system.idle then some system.destroy else none
  | .entry request => some (system.enter request)
  | .remoteStep k attempt =>
      (system.side.step k attempt).map fun side => { system with side := side }
  | .fallback e => system.fallback e
  | .localStep k choice =>
      (System.step functions compiled system.localSide (.advance k choice)).map fun localSide =>
        { system with localSide := localSide }

def start (remoteContexts : Nat → PowRemoteContext) (contexts : ι → Nat → Slot Ctx) :
    EntrySystem ι Ctx where
  side := ⟨.fresh remoteContexts, [], 0, []⟩
  capRemote := false
  localSide := System.start contexts
  entries := []

end EntrySystem

end steps

section flag

variable {ι Ctx Choice : Type} [DecidableEq ι] {functions : ι → PowFunctions Ctx Choice}
  {system : System ι Ctx} {j : ι}

theorem Inv.setInitialized (h : Inv functions j system) (flag : Bool) :
    Inv functions j { system with isInitialized := flag } :=
  ⟨h.table, h.fits, h.sound⟩

theorem Admission.setInitialized (h : Admission system) (flag : Bool) :
    Admission { system with isInitialized := flag } :=
  ⟨h.counted, h.provides, h.scanning, h.alert⟩

theorem Inv.enqueue (h : Inv functions j system) (request : Request) :
    Inv functions j (system.enqueue request) :=
  ((h.setInitialized true).entry request).setInitialized system.isInitialized

theorem Admission.enqueue (h : Admission system) (request : Request) (hprovides : system.Provides) :
    Admission (system.enqueue request) :=
  ((h.setInitialized true).entry request fun _ => hprovides).setInitialized system.isInitialized

end flag

section refines

variable {Queue : Type}

abbrev RemoteSystem : Type := System Unit PowRemoteContext

def remoteImpls : Unit → PowFunctions PowRemoteContext (Attempt Queue) := fun _ => remoteFunctions

structure RemoteSide.Refines (side : RemoteSide) (abs : RemoteSystem) : Prop where
  implList_eq : abs.implList = side.remoteImplList
  notify_eq : abs.notify = side.notifyRemote
  calls_eq : abs.calls = side.calls
  working_eq : (abs.impls ()).numWorkingThread = side.remote.numWorkingThread
  numMaxThread_eq : side.remote.numMaxThread = 20
  impl : side.remoteImplList ≠ [] → side.remote.Refines (abs.impls ())
  initialized : side.remoteImplList ≠ [] → abs.isInitialized = true

namespace RemoteSide.Refines

variable {side side' : RemoteSide} {abs : RemoteSystem} {attempt : Attempt Queue}
  {call : Call Unit} {phase : Phase Unit}

theorem setRemote (h : side.Refines abs) (hlist : side.remoteImplList ≠ [])
    {remote : RemoteImplContext} {impl : ImplContext PowRemoteContext} (himpl : remote.Refines impl)
    (hmax : impl.numMaxThread = (abs.impls ()).numMaxThread) :
    { side with remote := remote }.Refines (abs.setImpl () impl) where
  implList_eq := h.implList_eq
  notify_eq := h.notify_eq
  calls_eq := h.calls_eq
  working_eq := by
    rw [setImpl_impls_self]
    exact himpl.numWorkingThread_eq
  numMaxThread_eq := by
    rw [← h.numMaxThread_eq, ← (h.impl hlist).numMaxThread_eq, ← hmax]
    exact himpl.numMaxThread_eq.symm
  impl _ := by
    rw [setImpl_impls_self]
    exact himpl
  initialized := h.initialized

theorem setCalls (h : side.Refines abs) (calls : List (Call Unit)) :
    { side with calls := calls }.Refines { abs with calls := calls } :=
  ⟨h.implList_eq, h.notify_eq, rfl, h.working_eq, h.numMaxThread_eq, h.impl, h.initialized⟩

theorem callStep (h : side.Refines abs)
    (hregistered : (∃ rest, call.phase = .scanning (() :: rest)) ∨
      (∃ work, call.phase = .working () work ∧ work.stage.isInside = true) →
        side.remoteImplList ≠ [])
    (hstep : remoteCallStep attempt side call = some (phase, side')) :
    ∃ abs', Dcurl.callStep remoteImpls attempt abs call = some (phase, abs') ∧
      side'.Refines abs' := by
  unfold remoteCallStep at hstep
  cases hphase : call.phase with
  | scanning rest =>
      cases rest with
      | nil =>
          simp only [hphase] at hstep
          cases hstep
          exact ⟨abs, by simp only [Dcurl.callStep, hphase], h⟩
      | cons i rest =>
          have hlist := hregistered (Or.inl ⟨rest, hphase⟩)
          simp only [hphase] at hstep
          cases henter : enterRemoteContext side.remote with
          | none =>
              simp only [henter] at hstep
              cases hstep
              have hrefused := (h.impl hlist).enter_eq_none henter
              exact ⟨abs, by simp only [Dcurl.callStep, hphase, hrefused], h⟩
          | some remote =>
              have ⟨impl, hentered, himpl⟩ := (h.impl hlist).enter_eq_some henter
              have ⟨_, heq⟩ := enterImplContext_eq_some_iff.mp hentered
              simp only [henter] at hstep
              cases hstep
              exact ⟨_, by simp only [Dcurl.callStep, hphase, hentered],
                h.setRemote hlist himpl (by rw [heq])⟩
  | waiting =>
      simp only [hphase] at hstep
      split at hstep
      · cases hstep
      · rename_i hpos
        cases hstep
        rw [← h.notify_eq] at hpos
        refine ⟨{ abs with notify := abs.notify - 1 },
          by simp only [Dcurl.callStep, hphase, if_neg hpos, h.implList_eq], ?_⟩
        exact ⟨h.implList_eq, congrArg (· - 1) h.notify_eq, h.calls_eq, h.working_eq,
          h.numMaxThread_eq, h.impl, h.initialized⟩
  | working i work =>
      by_cases hexited : ∃ res, work = .exited res
      · obtain ⟨res, rfl⟩ := hexited
        simp only [hphase] at hstep
        cases hstep
        refine ⟨{ abs with notify := abs.notify + 1 }, by simp only [Dcurl.callStep, hphase], ?_⟩
        exact ⟨h.implList_eq, congrArg (· + 1) h.notify_eq, h.calls_eq, h.working_eq,
          h.numMaxThread_eq, h.impl, h.initialized⟩
      · have hnot : ∀ res, work ≠ .exited res := fun res heq => hexited ⟨res, heq⟩
        have hinside : work.stage.isInside = true := by
          cases work with
          | exited res => exact absurd rfl (hnot res)
          | _ => rfl
        have hlist := hregistered (Or.inr ⟨work, hphase, hinside⟩)
        have hwork : (remoteWorkStep attempt call.request work side.remote).map
            (fun (work, remote) => ((.working () work : Phase Unit),
              { side with remote := remote })) = some (phase, side') := by
          cases work with
          | exited res => exact absurd rfl (hnot res)
          | _ => simpa only [hphase] using hstep
        have ⟨(work', remote), hremote, heq⟩ := Option.map_eq_some_iff.mp hwork
        cases heq
        have ⟨impl, himplStep, himpl⟩ :=
          (h.impl hlist).workStep (by rw [h.numMaxThread_eq]; decide) hremote
        refine ⟨abs.setImpl () impl, ?_, h.setRemote hlist himpl (counter_workStep himplStep).1⟩
        rw [callStep_working () hphase hnot]
        exact congrArg _ himplStep
  | returned i res =>
      simp only [hphase] at hstep
      cases hstep
  | refused =>
      simp only [hphase] at hstep
      cases hstep

def remoteHost (memory : Option (Nat → PowRemoteContext)) : Unit → Host PowRemoteContext :=
  fun _ => ⟨20, 1, memory.map fun memory i => ⟨(memory i).indexOfContext, memory i⟩⟩

theorem of_remoteInit (Queue : Type) {remote remote' : RemoteImplContext}
    {impl : ImplContext PowRemoteContext}
    {memory : Option (Nat → PowRemoteContext)} {up : Bool} (hmax : remote.numMaxThread = 20)
    (hworking : impl.numWorkingThread = remote.numWorkingThread)
    (hremote : initializeRemoteContext memory remote = (up, remote')) :
    ∃ impl', initializeImplContext
        (remoteFunctions : PowFunctions PowRemoteContext (Attempt Queue)) (remoteHost memory ())
        impl = (up, impl') ∧ remote'.numMaxThread = 20 ∧
      impl'.numWorkingThread = remote'.numWorkingThread ∧ (up = true → remote'.Refines impl') := by
  unfold initializeRemoteContext at hremote
  rw [if_neg (by omega)] at hremote
  cases memory with
  | none =>
      cases hremote
      exact ⟨_, rfl, hmax, hworking, Bool.noConfusion⟩
  | some memory =>
      cases hremote
      have hinit : initializeImplContext
        (remoteFunctions : PowFunctions PowRemoteContext (Attempt Queue))
        (remoteHost (some memory) ()) impl = (true, _) := rfl
      have ⟨hfree, _, _⟩ := free_initializeImplContext (by simp [remoteHost]) hinit
      refine ⟨_, hinit, hmax, hworking, fun _ => ⟨hmax.symm, hworking, fun i hi => ?_, fun i => ?_⟩⟩
      · have hi' : i < remote.numMaxThread.toNat := hi
        have hlt : (i : Int) < remote.numMaxThread := by omega
        rw [hfree i (by simp only [remoteHost]; omega)]
        simp [hlt]
      · simp [remoteHost, remoteFunctions]

theorem dcurlInit_eq {memory : Option (Nat → PowRemoteContext)} {up : Bool}
    {impl : ImplContext PowRemoteContext}
    (h : initializeImplContext (remoteFunctions : PowFunctions PowRemoteContext (Attempt Queue))
      (remoteHost memory ()) (abs.impls ()) = (up, impl)) :
    dcurlInit (remoteImpls : Unit → PowFunctions PowRemoteContext (Attempt Queue)) [()]
      (remoteHost memory) abs =
        { abs.setImpl () impl with
          implList := if up then () :: abs.implList else abs.implList
          isInitialized := up
          notify := 0 } := by
  unfold dcurlInit
  cases up <;> simp [registerImplContext, remoteImpls, h, System.setImpl]

theorem init (h : side.Refines abs) (hempty : side.remoteImplList = [])
    (memory : Option (Nat → PowRemoteContext)) :
    (registerRemote memory side).2.Refines
      (dcurlInit (remoteImpls : Unit → PowFunctions PowRemoteContext (Attempt Queue)) [()]
        (remoteHost memory) abs) := by
  cases hremote : initializeRemoteContext memory side.remote with
  | mk up remote =>
  have ⟨impl, himpl, hmax, hworking, hrefines⟩ :=
    of_remoteInit Queue h.numMaxThread_eq h.working_eq hremote
  rw [dcurlInit_eq himpl]
  unfold registerRemote
  rw [hremote]
  cases up with
  | true =>
      refine ⟨by simp [h.implList_eq], rfl, h.calls_eq, ?_, hmax, fun _ => ?_, fun _ => rfl⟩
      · simpa [System.setImpl] using hworking
      · simpa [System.setImpl] using hrefines rfl
  | false =>
      refine ⟨by simp [h.implList_eq], rfl, h.calls_eq, ?_, hmax, absurd hempty, absurd hempty⟩
      simpa [System.setImpl] using hworking

end RemoteSide.Refines

end refines

end Dcurl
