import Dcurl.RemotePrompt
import Dcurl.RemoteRequest
import Dcurl.RemoteSafety

/-! The library, the broker and the workers as one system. The calls of `dcurl_entry` run
`remote_do_pow` one request to the broker at a time, each on the connection of the context
that it holds. -/
namespace Dcurl

open Library

section steps

variable {ι Ctx Choice : Type}

inductive RpcEvent where
  | declare
  | publish
  | consume
  | take
  /-- `goto fail` -/
  | giveUp

/-- `rpc` is where each call stands in its own `remote_do_pow`. -/
structure Service (ι Ctx : Type) where
  system : EntrySystem ι Ctx
  network : Network
  rpc : Nat → Rpc

inductive ServiceAction (ι Ctx Choice : Type) where
  | library (action : EntryAction ι Ctx Choice Unit)
  | rpc (call : Nat) (event : RpcEvent)
  | broker (action : NetworkAction)

def NetworkAction.isRemote : NetworkAction → Bool
  | .work _ => true
  | .answer _ _ => true
  | .deliver _ => true
  | .expire _ => true
  | _ => false

def RemoteSide.atBroker (side : RemoteSide) (k : Nat) : Option PowRemoteContext :=
  match side.calls[k]? with
  | some ⟨_, .working _ (.holding i)⟩ => some (side.remote.context i)
  | _ => none

def EntryAction.isAtBroker (side : RemoteSide) : EntryAction ι Ctx Choice Unit → Bool
  | .remoteStep k _ => (side.atBroker k).isSome
  | _ => false

namespace Service

def finish (service : Service ι Ctx) (k : Nat) (network : Network)
    (answer : Option (Vector Int8 2673)) : Option (Service ι Ctx) :=
  (service.system.side.step k (answering answer)).map fun side =>
    { system := { service.system with side := side }
      network := network
      rpc := Function.update service.rpc k .idle }

def request (service : Service ι Ctx) (k : Nat) (action : NetworkAction) (rpc : Rpc) :
    Option (Service ι Ctx) :=
  (service.network.step action).map fun network =>
    { service with network := network, rpc := Function.update service.rpc k rpc }

def rpcStep (service : Service ι Ctx) (k : Nat) (event : RpcEvent) : Option (Service ι Ctx) :=
  (service.system.side.atBroker k).bind fun ctx =>
    let conn := ctx.indexOfContext
    match event, service.rpc k with
    | .declare, .idle =>
        service.request k (.declare conn ctx) (.declared ctx service.network.nextQueue)
    | .publish, .declared ctx replyTo => service.request k (.publish conn) (.published ctx replyTo)
    | .consume, .published ctx replyTo => service.request k (.consume conn) (.waiting ctx replyTo)
    | .take, .waiting _ _ =>
        (service.network.arrived conn).head?.bind fun delivery =>
          (service.network.step (.take conn)).bind fun network =>
            service.finish k network (some delivery.body)
    | .giveUp, .idle => service.finish k service.network none
    | .giveUp, _ =>
        (service.network.step (.giveUp conn)).bind fun network => service.finish k network none
    | _, _ => none

variable [DecidableEq ι] (functions : ι → PowFunctions Ctx Choice) (compiled : List ι)

def step (service : Service ι Ctx) : ServiceAction ι Ctx Choice → Option (Service ι Ctx)
  | .library action =>
      if action.isAtBroker service.system.side then none
      else (service.system.step functions compiled action).map fun system =>
        { service with system := system }
  | .rpc k event => service.rpcStep k event
  | .broker action =>
      if action.isRemote then
        (service.network.step action).map fun network => { service with network := network }
      else none

def start (remoteContexts : Nat → PowRemoteContext) (contexts : ι → Nat → Slot Ctx) :
    Service ι Ctx :=
  ⟨.start remoteContexts contexts, .start, fun _ => .idle⟩

end Service

end steps

section agrees

variable {ι Ctx Choice : Type} {service : Service ι Ctx} {side side' : RemoteSide}

def Rpc.ctx? : Rpc → Option PowRemoteContext
  | .idle => none
  | .declared ctx _ => some ctx
  | .published ctx _ => some ctx
  | .waiting ctx _ => some ctx

def RemoteSide.Exclusive (side : RemoteSide) : Prop :=
  ∀ k k' ctx ctx', side.atBroker k = some ctx → side.atBroker k' = some ctx' →
    ctx.indexOfContext = ctx'.indexOfContext → k = k'

/-- What the broker sees on a connection is what the one call on it does. -/
structure Service.Agrees (service : Service ι Ctx) : Prop where
  own : ∀ k ctx, service.system.side.atBroker k = some ctx →
    service.network.rpc ctx.indexOfContext = service.rpc k ∧
      ∀ ctx', (service.rpc k).ctx? = some ctx' → ctx' = ctx
  quiet : ∀ conn, service.network.rpc conn ≠ .idle →
    ∃ k ctx, service.system.side.atBroker k = some ctx ∧ ctx.indexOfContext = conn
  fresh : ∀ k, service.system.side.atBroker k = none → service.rpc k = .idle

namespace Service.Agrees

theorem arrive (h : service.Agrees) {system : EntrySystem ι Ctx}
    (hkeep : ∀ k ctx, service.system.side.atBroker k = some ctx →
      system.side.atBroker k = some ctx) (hexclusive : system.side.Exclusive) :
    Agrees { service with system := system } := by
  have hfresh : ∀ k, system.side.atBroker k = none → service.rpc k = .idle := by
    intro k hnone
    apply h.fresh
    cases hold : service.system.side.atBroker k with
    | none => rfl
    | some ctx => exact absurd (hkeep k ctx hold) (by rw [hnone]; simp)
  refine ⟨fun k ctx hk => ?_, fun conn hconn => ?_, hfresh⟩
  · cases hold : service.system.side.atBroker k with
    | some old =>
        have heq := (hkeep k old hold).symm.trans hk
        cases heq
        exact h.own k _ hold
    | none =>
        have hidle := h.fresh k hold
        refine ⟨?_, by simp [hidle, Rpc.ctx?]⟩
        change service.network.rpc ctx.indexOfContext = service.rpc k
        rw [hidle]
        by_contra hbusy
        have ⟨k', ctx', hk', hindex⟩ := h.quiet _ hbusy
        have hsame := hexclusive k' k ctx' ctx (hkeep k' ctx' hk') hk hindex
        rw [hsame, hold] at hk'
        cases hk'
  · have ⟨k, ctx, hk, hindex⟩ := h.quiet conn hconn
    exact ⟨k, ctx, hkeep k ctx hk, hindex⟩

theorem request (h : service.Agrees) (hexclusive : service.system.side.Exclusive) {k : Nat}
    {ctx : PowRemoteContext} (hk : service.system.side.atBroker k = some ctx) {network : Network}
    {rpc : Rpc}
    (hnetwork : network.rpc = Function.update service.network.rpc ctx.indexOfContext rpc)
    (hctx : ∀ ctx', rpc.ctx? = some ctx' → ctx' = ctx) :
    Agrees { service with network := network, rpc := Function.update service.rpc k rpc } := by
  refine ⟨fun k' ctx' hk' => ?_, fun conn hconn => ?_, fun k' hnone => ?_⟩
  · by_cases hsame : k' = k
    · subst hsame
      rw [hk] at hk'
      cases hk'
      simp only [hnetwork, Function.update_self]
      exact ⟨trivial, hctx⟩
    · have hne : ctx'.indexOfContext ≠ ctx.indexOfContext :=
        fun heq => hsame (hexclusive k' k ctx' ctx hk' hk heq)
      simpa [hnetwork, hsame, hne] using h.own k' ctx' hk'
  · by_cases hsame : conn = ctx.indexOfContext
    · exact ⟨k, ctx, hk, hsame.symm⟩
    · exact h.quiet conn (by simpa [hnetwork, hsame] using hconn)
  · have hne : k' ≠ k := by
      intro heq
      rw [heq] at hnone
      exact absurd hk (by rw [hnone]; simp)
    simpa [hne] using h.fresh k' hnone

theorem leave (h : service.Agrees) (hexclusive : service.system.side.Exclusive) {k : Nat}
    {ctx : PowRemoteContext} (hk : service.system.side.atBroker k = some ctx) {network : Network}
    (hnetwork : network.rpc = Function.update service.network.rpc ctx.indexOfContext .idle)
    {system : EntrySystem ι Ctx} (hleft : system.side.atBroker k = none)
    (hothers : ∀ k', k' ≠ k → system.side.atBroker k' = service.system.side.atBroker k') :
    Agrees ⟨system, network, Function.update service.rpc k .idle⟩ := by
  refine ⟨fun k' ctx' hk' => ?_, fun conn hconn => ?_, fun k' hnone => ?_⟩
  · have hsame : k' ≠ k := by
      intro heq
      rw [heq] at hk'
      exact absurd hk' (by rw [hleft]; simp)
    rw [hothers k' hsame] at hk'
    have hne : ctx'.indexOfContext ≠ ctx.indexOfContext :=
      fun heq => hsame (hexclusive k' k ctx' ctx hk' hk heq)
    simpa [hnetwork, hsame, hne] using h.own k' ctx' hk'
  · by_cases hsame : conn = ctx.indexOfContext
    · simp [hnetwork, hsame] at hconn
    · have ⟨k', ctx', hk', hindex⟩ := h.quiet conn (by simpa [hnetwork, hsame] using hconn)
      refine ⟨k', ctx', ?_, hindex⟩
      rw [hothers k' _, hk']
      intro heq
      rw [heq, hk] at hk'
      cases hk'
      exact hsame hindex.symm
  · by_cases hsame : k' = k
    · simp [hsame]
    · rw [hothers k' hsame] at hnone
      simpa [hsame] using h.fresh k' hnone

end Service.Agrees

end agrees

section frame

variable {Queue : Type} {side side' : RemoteSide} {attempt : Attempt Queue} {k : Nat}
  {ctx : PowRemoteContext}

theorem atBroker_eq_some_iff : side.atBroker k = some ctx ↔
    ∃ request i, side.calls[k]? = some ⟨request, .working () (.holding i)⟩ ∧
      ctx = side.remote.context i := by
  unfold RemoteSide.atBroker
  constructor
  · intro h
    split at h
    · rename_i request j i hcall
      cases h
      exact ⟨request, i, hcall, rfl⟩
    · cases h
  · rintro ⟨request, i, hcall, rfl⟩
    simp [hcall]

theorem EntrySystem.Inv.exclusive {ι Ctx Choice : Type} [DecidableEq ι]
    {functions : ι → PowFunctions Ctx Choice} {system : EntrySystem ι Ctx}
    (h : system.Inv Queue functions) : system.side.Exclusive := by
  intro k k' ctx ctx' hk hk' hindex
  have ⟨request, i, hcall, hctx⟩ := atBroker_eq_some_iff.mp hk
  have ⟨request', i', hcall', hctx'⟩ := atBroker_eq_some_iff.mp hk'
  have ⟨_, hi, _⟩ := h.connection (List.mem_of_getElem? hcall) rfl
  have ⟨_, hi', _⟩ := h.connection (List.mem_of_getElem? hcall') rfl
  rw [hctx, hctx', hi, hi'] at hindex
  subst hindex
  exact h.distinct k k' i _ _ hcall hcall' rfl rfl

def Work.afterPow (i : Nat) : Option (Vector Int8 2673) → Work
  | none => .answered i none
  | some _ => .computed i

def PowRemoteContext.take (ctx : PowRemoteContext) :
    Option (Vector Int8 2673) → PowRemoteContext
  | none => ctx
  | some answer => { ctx with outputTrytes := answer }

theorem step_holding {request : Request} {i : Nat}
    (hk : side.calls[k]? = some ⟨request, .working () (.holding i)⟩)
    (answer : Option (Vector Int8 2673)) :
    side.step k (answering answer) = some { side with
      remote := side.remote.putContext i ((side.remote.context i).take answer)
      calls := side.calls.set k ⟨request, .working () (.afterPow i answer)⟩ } := by
  unfold RemoteSide.step remoteCallStep
  cases answer <;> simp [hk, remoteWorkStep, remoteDoPow, answering, Work.afterPow,
    PowRemoteContext.take]

theorem atBroker_step (hdistinct : side.Distinct)
    (hstep : side.step k attempt = some side') {k' : Nat} (hne : k' ≠ k) :
    side'.atBroker k' = side.atBroker k' := by
  have ⟨call, hk, hmap⟩ := Option.bind_eq_some_iff.mp hstep
  have ⟨(phase, shared), hcall, heq⟩ := Option.map_eq_some_iff.mp hmap
  cases heq
  unfold RemoteSide.atBroker
  rw [List.getElem?_set_ne hne.symm]
  split
  · rename_i request j i hk'
    refine congrArg some (context_remoteCallStep hcall fun howns => ?_)
    exact hne (hdistinct k k' i call _ hk hk' howns rfl).symm
  · rfl

end frame

section exclusive

variable {ι Ctx Choice : Type} [DecidableEq ι] {functions : ι → PowFunctions Ctx Choice}
  {compiled : List ι} {service next : Service ι Ctx}

structure Service.Inv (functions : ι → PowFunctions Ctx Choice) (service : Service ι Ctx) :
    Prop where
  library : service.system.Inv Unit functions
  agrees : service.Agrees

def ServiceAction.Fits (functions : ι → PowFunctions Ctx Choice) :
    ServiceAction ι Ctx Choice → Prop
  | .library action => action.Fits functions
  | _ => True

omit [DecidableEq ι] in
theorem atBroker_of_isOver {side : RemoteSide}
    (hidle : (side.calls.all fun call => call.phase.isOver) = true) (k : Nat) :
    side.atBroker k = none := by
  rw [Option.eq_none_iff_forall_ne_some]
  intro ctx hk
  have ⟨request, i, hcall, _⟩ := atBroker_eq_some_iff.mp hk
  exact Bool.false_ne_true (List.all_eq_true.mp hidle _ (List.mem_of_getElem? hcall))

omit [DecidableEq ι] in
theorem atBroker_append {side : RemoteSide} {k : Nat} {ctx : PowRemoteContext} (call : Call Unit)
    (hk : side.atBroker k = some ctx) :
    { side with calls := side.calls ++ [call] }.atBroker k = some ctx := by
  have ⟨request, i, hcall, hctx⟩ := atBroker_eq_some_iff.mp hk
  have hlt := (List.getElem?_eq_some_iff.mp hcall).1
  exact atBroker_eq_some_iff.mpr ⟨request, i, by rw [List.getElem?_append_left hlt, hcall], hctx⟩

theorem atBroker_library {system next : EntrySystem ι Ctx} {action : EntryAction ι Ctx Choice Unit}
    (hinv : system.Inv Unit functions) (hnot : action.isAtBroker system.side = false)
    (hstep : system.step functions compiled action = some next) {k : Nat} {ctx : PowRemoteContext}
    (hk : system.side.atBroker k = some ctx) : next.side.atBroker k = some ctx := by
  have hbusy : system.idle = true → False := by
    intro hidle
    unfold EntrySystem.idle at hidle
    simp only [Bool.and_eq_true] at hidle
    rw [atBroker_of_isOver hidle.1.1] at hk
    cases hk
  cases action with
  | init hosts memory =>
      simp only [EntrySystem.step, Option.ite_none_right_eq_some, Bool.and_eq_true] at hstep
      exact (hbusy hstep.1.1.1).elim
  | destroy =>
      simp only [EntrySystem.step, Option.ite_none_right_eq_some] at hstep
      exact (hbusy hstep.1).elim
  | entry request =>
      cases hstep
      unfold EntrySystem.enter
      split
      · exact hk
      · split
        · exact atBroker_append _ hk
        · exact hk
  | remoteStep k' attempt =>
      obtain ⟨side, hside, heq⟩ := Option.map_eq_some_iff.mp hstep
      cases heq
      have hne : k ≠ k' := by
        intro heq
        simp [EntryAction.isAtBroker, ← heq, hk] at hnot
      exact (atBroker_step hinv.distinct hside hne).trans hk
  | fallback e =>
      simp only [EntrySystem.step, EntrySystem.fallback] at hstep
      split at hstep
      · split at hstep <;> cases hstep
        exact hk
      · cases hstep
  | localStep k' choice =>
      obtain ⟨localSide, _, heq⟩ := Option.map_eq_some_iff.mp hstep
      cases heq
      exact hk

namespace Service.Inv

theorem start (functions : ι → PowFunctions Ctx Choice)
    (remoteContexts : Nat → PowRemoteContext) (contexts : ι → Nat → Slot Ctx) :
    (Service.start remoteContexts contexts).Inv functions where
  library := .start functions remoteContexts contexts
  agrees := ⟨by simp [Service.start, EntrySystem.start, RemoteSide.atBroker],
    by simp [Service.start, Network.start], fun _ _ => rfl⟩

theorem library_step {action : EntryAction ι Ctx Choice Unit} (h : service.Inv functions)
    (hfits : action.Fits functions) {system : EntrySystem ι Ctx}
    (hnot : action.isAtBroker service.system.side = false)
    (hstep : service.system.step functions compiled action = some system) :
    Inv functions { service with system := system } :=
  have hlibrary := h.library.step hfits hstep
  ⟨hlibrary, h.agrees.arrive (fun _ _ => atBroker_library h.library hnot hstep)
    hlibrary.exclusive⟩

theorem request {k : Nat} {ctx : PowRemoteContext} (h : service.Inv functions)
    (hk : service.system.side.atBroker k = some ctx) {action : NetworkAction} {rpc : Rpc}
    (hrpc : ∀ network, service.network.step action = some network →
      network.rpc = Function.update service.network.rpc ctx.indexOfContext rpc)
    (hctx : rpc.ctx? = some ctx) (hstep : service.request k action rpc = some next) :
    next.Inv functions := by
  have ⟨network, hnetwork, heq⟩ := Option.map_eq_some_iff.mp hstep
  cases heq
  refine ⟨h.library, h.agrees.request h.library.exclusive hk (hrpc network hnetwork) ?_⟩
  intro ctx' hctx'
  exact (Option.some.inj (hctx.symm.trans hctx')).symm

theorem finish {k : Nat} {ctx : PowRemoteContext} (h : service.Inv functions)
    (hk : service.system.side.atBroker k = some ctx) {network : Network}
    (hnetwork : network.rpc = Function.update service.network.rpc ctx.indexOfContext .idle)
    {answer : Option (Vector Int8 2673)} (hstep : service.finish k network answer = some next) :
    next.Inv functions := by
  obtain ⟨side, hside, heq⟩ := Option.map_eq_some_iff.mp hstep
  have hlibrary : EntrySystem.Inv Unit functions { service.system with side := side } := by
    have hremote : service.system.step functions [] (.remoteStep k (answering answer)) =
        some { service.system with side := side } := by
      simp [EntrySystem.step, hside]
    apply h.library.step _ hremote
    trivial
  cases heq
  refine ⟨hlibrary, h.agrees.leave h.library.exclusive hk hnetwork ?_ ?_⟩
  · obtain ⟨request, i, hcall, _⟩ := atBroker_eq_some_iff.mp hk
    rw [step_holding hcall] at hside
    cases hside
    have hlt := (List.getElem?_eq_some_iff.mp hcall).1
    cases answer <;> simp [RemoteSide.atBroker, Work.afterPow, hlt]
  · exact fun k' hne => atBroker_step h.library.distinct hside hne

theorem rpcStep {k : Nat} {event : RpcEvent} (h : service.Inv functions)
    (hstep : service.rpcStep k event = some next) : next.Inv functions := by
  obtain ⟨ctx, hk, hevent⟩ := Option.bind_eq_some_iff.mp hstep
  obtain ⟨hown, hctx⟩ := h.agrees.own k ctx hk
  split at hevent
  · rename_i hrpc
    rw [hrpc] at hown
    refine h.request hk (fun network hnetwork => ?_) rfl hevent
    simp only [Network.step, hown] at hnetwork
    cases hnetwork
    rfl
  · rename_i ctx' replyTo hrpc
    rw [hrpc] at hown hctx
    cases hctx ctx' rfl
    refine h.request hk (fun network hnetwork => ?_) rfl hevent
    simp only [Network.step, hown] at hnetwork
    cases hnetwork
    rfl
  · rename_i ctx' replyTo hrpc
    rw [hrpc] at hown hctx
    cases hctx ctx' rfl
    refine h.request hk (fun network hnetwork => ?_) rfl hevent
    simp only [Network.step, hown] at hnetwork
    cases hnetwork
    rfl
  · obtain ⟨delivery, hdelivery, hbind⟩ := Option.bind_eq_some_iff.mp hevent
    obtain ⟨network, hnetwork, hfinish⟩ := Option.bind_eq_some_iff.mp hbind
    refine h.finish hk ?_ hfinish
    cases Network.steps_of_step hnetwork with
    | take _ _ => rfl
  · rename_i hrpc
    rw [hrpc] at hown
    refine h.finish hk ?_ hevent
    rw [← hown, Function.update_eq_self]
  · obtain ⟨network, hnetwork, hfinish⟩ := Option.bind_eq_some_iff.mp hevent
    refine h.finish hk ?_ hfinish
    cases Network.steps_of_step hnetwork with
    | giveUp _ => rfl
  · cases hevent

theorem step {action : ServiceAction ι Ctx Choice} (h : service.Inv functions)
    (hfits : action.Fits functions)
    (hstep : service.step functions compiled action = some next) : next.Inv functions := by
  cases action with
  | library action =>
      simp only [Service.step, Option.ite_none_left_eq_some] at hstep
      obtain ⟨hnot, hmap⟩ := hstep
      obtain ⟨system, hsystem, heq⟩ := Option.map_eq_some_iff.mp hmap
      cases heq
      exact h.library_step hfits (Bool.eq_false_iff.mpr hnot) hsystem
  | rpc k event => exact h.rpcStep hstep
  | broker action =>
      simp only [Service.step, Option.ite_none_right_eq_some] at hstep
      obtain ⟨network, hnetwork, heq⟩ := Option.map_eq_some_iff.mp hstep.2
      have hrpc : network.rpc = service.network.rpc := by
        cases Network.steps_of_step hnetwork with
        | work _ => rfl
        | answer _ => rfl
        | deliver _ _ => rfl
        | expire _ => rfl
        | _ => cases hstep.1
      cases heq
      exact ⟨h.library, ⟨fun k ctx hk => by simpa [hrpc] using h.agrees.own k ctx hk,
        fun conn hconn => h.agrees.quiet conn (by simpa [hrpc] using hconn), h.agrees.fresh⟩⟩

theorem run {actions : List (ServiceAction ι Ctx Choice)} {remoteContexts : Nat → PowRemoteContext}
    {contexts : ι → Nat → Slot Ctx} (hfits : ∀ action ∈ actions, action.Fits functions)
    (hrun : Machine.run (Service.step functions compiled) (Service.start remoteContexts contexts)
      actions = some service) : service.Inv functions :=
  Machine.run_invariant_along (fun _ action => action.Fits functions) (Service.Inv functions)
    (fun _ _ _ h hallowed hstep => h.step hallowed hstep) (start functions remoteContexts contexts)
    (Machine.along_of_forall _ hfits _) hrun

end Service.Inv

/-- Each of the 20 connections is used by one call at a time: what the broker sees on it is
what that call does, and where no call is, the connection is idle: no call waits on it.
Consumers and queues of earlier attempts may remain. -/
structure Service.ConnectionSafe (service : Service ι Ctx) : Prop where
  exclusive : service.system.side.Exclusive
  range : ∀ k ctx, service.system.side.atBroker k = some ctx → ctx.indexOfContext < 20
  agrees : service.Agrees

theorem connections_safe (functions : ι → PowFunctions Ctx Choice) (compiled : List ι)
    (remoteContexts : Nat → PowRemoteContext) (contexts : ι → Nat → Slot Ctx)
    (actions : List (ServiceAction ι Ctx Choice)) (final : Service ι Ctx)
    (hfits : ∀ action ∈ actions, action.Fits functions)
    (hrun : Machine.run (Service.step functions compiled) (Service.start remoteContexts contexts)
      actions = some final) : final.ConnectionSafe := by
  have hinv : final.Inv functions := .run hfits hrun
  refine ⟨hinv.library.exclusive, fun k ctx hk => ?_, hinv.agrees⟩
  have ⟨request, i, hcall, hctx⟩ := atBroker_eq_some_iff.mp hk
  have ⟨hlt, hindex, _⟩ := hinv.library.connection (List.mem_of_getElem? hcall) rfl
  rw [hctx, hindex]
  exact hlt

end exclusive

section witness

def brokerStart (request : Request) : List (ServiceAction Unit CpuContext (List Nat)) :=
  (silentStart request).map .library ++
    List.replicate 3 (.library (.remoteStep 0 (answering none)))

theorem brokerStart_fits (request : Request) (action : ServiceAction Unit CpuContext (List Nat))
    (hmem : action ∈ brokerStart request) : action.Fits fun _ => PowC.backend.cpuFunctions := by
  cases List.mem_append.mp hmem with
  | inl hlibrary =>
      obtain ⟨action, hstart, rfl⟩ := List.mem_map.mp hlibrary
      exact silentStart_fits request action hstart
  | inr hmoves =>
      obtain ⟨_, rfl⟩ := List.mem_replicate.mp hmoves
      trivial

theorem connections_safe_declare :
    ∃ final, Machine.run (Service.step (fun _ => PowC.backend.cpuFunctions) [()])
        (Service.start (fun _ => ⟨0, Vector.replicate 2673 0, Vector.replicate 2673 0, 0⟩)
          fun _ _ => ⟨0, .blank⟩) (brokerStart zeroRequest ++ [.rpc 0 .declare]) = some final ∧
      final.ConnectionSafe := by
  have hsome : (Machine.run (Service.step (fun _ => PowC.backend.cpuFunctions) [()])
      (Service.start (fun _ => ⟨0, Vector.replicate 2673 0, Vector.replicate 2673 0, 0⟩)
        fun _ _ => ⟨0, .blank⟩) (brokerStart zeroRequest ++ [.rpc 0 .declare])).isSome = true := rfl
  have ⟨final, hrun⟩ := Option.isSome_iff_exists.mp hsome
  refine ⟨final, hrun, connections_safe _ [()] _ _ _ final (fun action hmem => ?_) hrun⟩
  cases List.mem_append.mp hmem with
  | inl hstart => exact brokerStart_fits zeroRequest action hstart
  | inr hrpc =>
      rw [List.mem_singleton.mp hrpc]
      trivial

end witness

end Dcurl
