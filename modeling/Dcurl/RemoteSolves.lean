import Dcurl.EntryServes
import Dcurl.RemoteService

/-! What the callers of the whole system get. Where the workers compute what they decode and
no call gives up on a published request, every transaction that `dcurl_entry` returns, from
a worker or from a local implementation, solves the caller's own request. -/
namespace Dcurl

open Library

section honest

variable {ι Ctx Choice : Type} [DecidableEq ι] {functions : ι → PowFunctions Ctx Choice}
  {compiled : List ι} {service next : Service ι Ctx} {w : Nat} {worker : Backend w}
  {computed : List (Task × Vector Int8 2673)}

def Request.task (request : Request) : Task := ⟨request.trytes, request.mwm⟩

def ComputedFor (computed : List (Task × Vector Int8 2673)) (_ : Nat) (request : Request)
    (res : Vector Int8 2673) : Prop :=
  (request.task, res) ∈ computed

/-- A transaction of trytes, and a weight that its hash can have. -/
def Request.Valid (request : Request) : Prop :=
  request.trytes.toList.all isTryte = true ∧ request.mwm ≤ 243

def Task.request (task : Task) : Request := ⟨task.trytes, task.mwm, 0⟩

/-- The worker passes what it decodes to its own `dcurl_entry`, and what follows the body in
its memory is not taken for more of the weight. -/
def Task.ComputedBy (worker : Backend w) (task : Task) (result : Vector Int8 2673) : Prop :=
  ∃ buf following trytes mwm, Delimited task.mwm following ∧
    decodeRequest (receiveBuffer (messageBytes buf task.trytes task.mwm) following) =
      some (trytes, mwm) ∧
    Answers worker.cpuFunctions ⟨trytes, mwm.toNat, 0⟩ (some result)

theorem Task.ComputedBy.solvedBy (hlawful : worker.Lawful) (hfaithful : worker.Faithful)
    {task : Task} (hvalid : task.request.Valid) {result : Vector Int8 2673}
    (h : task.ComputedBy worker result) : task.request.SolvedBy result := by
  have ⟨buf, following, trytes, mwm, hdelimited, hdecoded, hanswers⟩ := h
  have hround := (request_roundTrips_iff buf task.trytes task.mwm following hvalid.1 hvalid.2).mpr
    hdelimited
  unfold RoundTrips at hround
  rw [hround] at hdecoded
  cases hdecoded
  exact Backend.solvedBy_of_answers hlawful hfaithful hvalid.2 hanswers

/-- Requests are valid, no call gives up on a published request, and workers compute what
they decode. -/
def ServiceAction.Honest (worker : Backend w) (service : Service ι Ctx) :
    ServiceAction ι Ctx Choice → Prop
  | .library action => action.Asks Request.Valid
  | .rpc k .giveUp => (service.rpc k).awaits? = none
  | .broker (.answer k result) => ∀ message, service.network.computing[k]? = some message →
      message.task.ComputedBy worker result
  | _ => True

structure Network.Solves (network : Network) : Prop where
  oneReply : network.OneReply
  traced : network.Traced
  own : network.AnswersOwn
  declared : ∀ queue task, network.declaredFor queue = some task → task.request.Valid
  solved : ∀ entry ∈ network.computed, entry.1.request.SolvedBy entry.2

def NetworkAction.Honest (worker : Backend w) (network : Network) : NetworkAction → Prop
  | .declare _ ctx => ctx.task.request.Valid
  | .answer k result => ∀ message, network.computing[k]? = some message →
      message.task.ComputedBy worker result
  | _ => True

namespace Network

variable {network next : Network}

theorem Solves.start : start.Solves where
  oneReply := .start
  traced := .start
  own _ hmem := absurd hmem List.not_mem_nil
  declared _ _ h := by cases h
  solved _ hmem := absurd hmem List.not_mem_nil

theorem Solves.step (hlawful : worker.Lawful) (hfaithful : worker.Faithful) (h : network.Solves)
    {action : NetworkAction} (hprompt : network.Prompt action)
    (hhonest : action.Honest worker network) (hstep : network.step action = some next) :
    next.Solves := by
  refine ⟨h.oneReply.step hprompt hstep, h.traced.step hstep,
    h.own.step h.traced (h.oneReply.takesOwn h.traced action) hstep, ?_, ?_⟩
  · cases steps_of_step hstep with
    | @declare conn ctx hrpc =>
        intro queue task hdeclared
        by_cases hnew : queue = network.nextQueue
        · simp only [hnew, Function.update_self, Option.some.injEq] at hdeclared
          exact hdeclared ▸ hhonest
        · simp only [Function.update_of_ne hnew] at hdeclared
          exact h.declared queue task hdeclared
    | _ => exact h.declared
  · cases steps_of_step hstep with
    | @answer k message result hk =>
        have hvalid := h.declared _ _ (h.traced.computing message (List.mem_of_getElem? hk))
        have hsolved := (hhonest message hk).solvedBy hlawful hfaithful hvalid
        exact List.forall_mem_cons.mpr ⟨hsolved, h.solved⟩
    | _ => exact h.solved

theorem Solves.mem_computed (h : next.Solves) {conn replyTo : Nat} {ctx : PowRemoteContext}
    {delivery : Delivery} (hstep : network.step (.take conn) = some next)
    (hhead : (network.arrived conn).head? = some delivery)
    (hrpc : network.rpc conn = .waiting ctx replyTo) :
    (ctx.task, delivery.body) ∈ next.computed := by
  cases steps_of_step hstep with
  | take hwaiting harrived =>
      rw [harrived, List.head?_cons, Option.some.injEq] at hhead
      cases hrpc.symm.trans hwaiting
      rw [← hhead]
      exact h.own _ List.mem_cons_self

end Network

structure Service.Solves (service : Service ι Ctx) : Prop where
  network : service.network.Solves
  brought : service.system.side.Brought (ComputedFor service.network.computed)
  asks : service.system.Asks Request.Valid

namespace Service.Solves

omit [DecidableEq ι] in
theorem start (remoteContexts : Nat → PowRemoteContext) (contexts : ι → Nat → Slot Ctx) :
    (Service.start remoteContexts contexts).Solves where
  network := .start
  brought := by simp [Service.start, EntrySystem.start, RemoteSide.Brought]
  asks := by constructor <;> simp [Service.start, EntrySystem.start, System.start]

variable (hlawful : worker.Lawful) (hfaithful : worker.Faithful)

include hlawful hfaithful

omit [DecidableEq ι] in
theorem of_network (h : service.Solves) {action : NetworkAction} {network : Network}
    (hprompt : service.network.Prompt action) (hhonest : action.Honest worker service.network)
    (hstep : service.network.step action = some network) (rpc : Nat → Rpc) :
    Solves { service with network := network, rpc := rpc } where
  network := h.network.step hlawful hfaithful hprompt hhonest hstep
  brought := h.brought.mono fun _ _ _ hres => Network.computed_of_step hstep hres
  asks := h.asks

omit [DecidableEq ι] in
theorem request {k : Nat} (h : service.Solves) {action : NetworkAction} {rpc : Rpc}
    (hprompt : service.network.Prompt action) (hhonest : action.Honest worker service.network)
    (hstep : service.request k action rpc = some next) : next.Solves := by
  have ⟨network, hnetwork, heq⟩ := Option.map_eq_some_iff.mp hstep
  cases heq
  exact h.of_network hlawful hfaithful hprompt hhonest hnetwork _

omit hlawful hfaithful in
theorem finish {k : Nat} {ctx : PowRemoteContext} (h : service.Solves)
    (hinv : service.Inv functions) (hk : service.system.side.atBroker k = some ctx)
    {network : Network} (hnetwork : network.Solves)
    (hcomputed : ∀ entry ∈ service.network.computed, entry ∈ network.computed)
    {answer : Option (Vector Int8 2673)}
    (hanswer : ∀ res, answer = some res → (ctx.task, res) ∈ network.computed)
    (hstep : service.finish k network answer = some next) : next.Solves := by
  obtain ⟨side, hside, heq⟩ := Option.map_eq_some_iff.mp hstep
  have hremote : service.system.step functions [] (.remoteStep k (answering answer)) =
      some { service.system with side := side } := by
    simp [EntrySystem.step, hside]
  have hasks : EntrySystem.Asks Request.Valid { service.system with side := side } := by
    apply h.asks.step _ hremote
    trivial
  cases heq
  refine ⟨hnetwork, ?_, hasks⟩
  refine h.brought.step hinv.library.distinct hinv.library.filled
    (fun _ _ _ hres => hcomputed _ hres) hside ?_
  intro request i hholding res hres
  obtain ⟨_, i', hcall, hctx⟩ := atBroker_eq_some_iff.mp hk
  cases hholding.symm.trans hcall
  obtain ⟨htrytes, hmwm⟩ := hinv.library.filled k request i hholding
  have htask : ctx.task = request.task := by
    rw [hctx]
    simp [PowRemoteContext.task, Request.task, htrytes, hmwm]
  unfold ComputedFor
  rw [← htask]
  exact hanswer res hres

theorem rpcStep {k : Nat} {event : RpcEvent} (h : service.Solves) (hinv : service.Inv functions)
    (hhonest : (ServiceAction.rpc k event : ServiceAction ι Ctx Choice).Honest worker service)
    (hstep : service.rpcStep k event = some next) : next.Solves := by
  obtain ⟨ctx, hk, hevent⟩ := Option.bind_eq_some_iff.mp hstep
  obtain ⟨hown, hctx⟩ := hinv.agrees.own k ctx hk
  split at hevent
  · refine h.request hlawful hfaithful ?_ ?_ hevent
    · trivial
    · obtain ⟨request, i, hholding, heq⟩ := atBroker_eq_some_iff.mp hk
      have ⟨htrytes, hmwm⟩ := hinv.library.filled k request i hholding
      have hvalid := h.asks.side _ (List.mem_of_getElem? hholding)
      rw [heq]
      simpa [NetworkAction.Honest, PowRemoteContext.task, Task.request, Request.Valid, htrytes,
        hmwm] using hvalid
  · refine h.request hlawful hfaithful ?_ ?_ hevent <;> trivial
  · refine h.request hlawful hfaithful ?_ ?_ hevent <;> trivial
  · rename_i ctx' replyTo hrpc
    obtain ⟨delivery, hdelivery, hbind⟩ := Option.bind_eq_some_iff.mp hevent
    obtain ⟨network, hnetwork, hfinish⟩ := Option.bind_eq_some_iff.mp hbind
    have hnext : network.Solves := by
      refine h.network.step hlawful hfaithful ?_ ?_ hnetwork <;> trivial
    refine h.finish hinv hk hnext (fun _ => Network.computed_of_step hnetwork) ?_ hfinish
    intro res heq
    cases heq
    rw [hrpc] at hown hctx
    cases hctx ctx' rfl
    exact hnext.mem_computed hnetwork hdelivery hown
  · refine h.finish hinv hk h.network (fun _ => id) ?_ hevent
    intro res heq
    cases heq
  · obtain ⟨network, hnetwork, hfinish⟩ := Option.bind_eq_some_iff.mp hevent
    have hnext : network.Solves := by
      refine h.network.step hlawful hfaithful ?_ ?_ hnetwork
      · have hawaits : (service.rpc k).awaits? = none := hhonest
        simpa [Network.Prompt, hown] using hawaits
      · trivial
    refine h.finish hinv hk hnext (fun _ => Network.computed_of_step hnetwork) ?_ hfinish
    intro res heq
    cases heq
  · cases hevent

theorem step {action : ServiceAction ι Ctx Choice} (h : service.Solves)
    (hinv : service.Inv functions) (hhonest : action.Honest worker service)
    (hstep : service.step functions compiled action = some next) : next.Solves := by
  cases action with
  | library action =>
      simp only [Service.step, Option.ite_none_left_eq_some] at hstep
      obtain ⟨hnot, hmap⟩ := hstep
      obtain ⟨system, hsystem, heq⟩ := Option.map_eq_some_iff.mp hmap
      cases heq
      refine ⟨h.network, ?_, h.asks.step hhonest hsystem⟩
      refine hinv.library.brought_step h.brought (fun _ _ _ => id) hsystem ?_
      intro k attempt haction request i hk
      have hbroker := atBroker_eq_some_iff.mpr ⟨request, i, hk, rfl⟩
      simp [haction, EntryAction.isAtBroker, hbroker] at hnot
  | rpc k event => exact h.rpcStep hlawful hfaithful hinv hhonest hstep
  | broker action =>
      simp only [Service.step, Option.ite_none_right_eq_some] at hstep
      obtain ⟨network, hnetwork, heq⟩ := Option.map_eq_some_iff.mp hstep.2
      cases heq
      refine h.of_network hlawful hfaithful ?_ ?_ hnetwork service.rpc
      · cases action with
        | giveUp conn => cases hstep.1
        | _ => trivial
      · cases action with
        | declare conn ctx => cases hstep.1
        | answer k result => exact hhonest
        | _ => trivial

end Service.Solves

/-- However many calls there are, however they, the broker and the workers interleave, and
whichever calls fall back: a transaction that a call returns solves the call's own request. -/
theorem service_solves {client : Backend w} {v : Nat} {worker : Backend v}
    (hclient : client.Lawful ∧ client.Faithful) (hworker : worker.Lawful ∧ worker.Faithful)
    (compiled : List ι) (remoteContexts : Nat → PowRemoteContext)
    (contexts : ι → Nat → Slot CpuContext) (actions : List (ServiceAction ι CpuContext (List Nat)))
    (final : Service ι CpuContext)
    (hfits : ∀ action ∈ actions, action.Fits fun _ => client.cpuFunctions)
    (hhonest : Machine.Along (fun service action => action.Honest worker service)
      (Service.step (fun _ => client.cpuFunctions) compiled)
      (Service.start remoteContexts contexts) actions)
    (hrun : Machine.run (Service.step (fun _ => client.cpuFunctions) compiled)
      (Service.start remoteContexts contexts) actions = some final) :
    ∀ entry ∈ final.system.entries, ∀ res, final.system.result entry = some (some res) →
      entry.request.SolvedBy res := by
  have hrunInv : final.Inv (fun _ => client.cpuFunctions) ∧ final.Solves := by
    apply Machine.run_invariant_along _
      (fun service => service.Inv (fun _ => client.cpuFunctions) ∧ service.Solves) _ _
      (Machine.along_and (Machine.along_of_forall _ hfits _) hhonest) hrun
    · intro service action next h hallowed hstep
      exact ⟨h.1.step hallowed.1 hstep, h.2.step hworker.1 hworker.2 h.1 hallowed.2 hstep⟩
    · exact ⟨.start _ remoteContexts contexts, .start remoteContexts contexts⟩
  obtain ⟨hinv, hsolves⟩ := hrunInv
  intro entry hmem res hres
  have hreturned := hinv.library.returned_of_result hmem hres
  have hvalid := hsolves.asks.entries entry hmem
  obtain ⟨request, phase⟩ := entry
  cases phase with
  | refused => cases hreturned
  | remotePow k =>
      have ⟨_, hk⟩ := hreturned
      exact hsolves.network.solved _ (hsolves.brought k _ hk res rfl)
  | localPow k =>
      have ⟨j, hk⟩ := hreturned
      have hanswers := (hinv.library.locals j).sound k _ hk rfl
      exact Backend.solvedBy_of_answers hclient.1 hclient.2 hvalid.2 hanswers

end honest

section witness

theorem exists_answers {w : Nat} {backend : Backend w} (hlawful : backend.Lawful)
    (hfaithful : backend.Faithful) {request : Request} (h : request.Answerable backend)
    (hvalid : request.trytes.toList.all isTryte = true) :
    ∃ result, Answers backend.cpuFunctions request (some result) := by
  have ⟨first, hready⟩ : ∃ ctx : CpuContext, 1 ≤ ctx.numMaxThreads :=
    ⟨{ CpuContext.blank with numMaxThreads := 1 }, le_refl 1⟩
  have ⟨choice, ⟨found, ctx⟩, hpow⟩ := exists_powOn hlawful hfaithful first hready h
  cases found with
  | true => exact ⟨_, choice, first, ctx, hpow, rfl⟩
  | false =>
      have hanswers : Answers backend.cpuFunctions request none := ⟨choice, first, ctx, hpow⟩
      have hserved := served_of_answers hlawful hfaithful h.1 hanswers
      cases (show true = false from hvalid.symm.trans hserved)

theorem nines_computedBy {result : Vector Int8 2673}
    (h : Answers PowC.backend.cpuFunctions nines (some result)) :
    nines.task.ComputedBy PowC.backend result := by
  have hvalid : nines.trytes.toList.all isTryte = true := almostNines_valid
  have hdelimited : Delimited nines.mwm fun _ => 0 := Or.inl rfl
  exact ⟨Vector.replicate 4 0, fun _ => 0, nines.trytes, nines.mwm, hdelimited,
    (request_roundTrips_iff _ nines.trytes nines.mwm _ hvalid (by decide)).mpr hdelimited, h⟩

def askedActions : List (ServiceAction Unit CpuContext (List Nat)) :=
  brokerStart nines ++ [.rpc 0 .declare, .rpc 0 .publish, .rpc 0 .consume, .broker (.work 0)]

def takenActions : List (ServiceAction Unit CpuContext (List Nat)) :=
  [.broker (.deliver 0), .rpc 0 .take] ++
    List.replicate 4 (.library (.remoteStep 0 (answering none)))

theorem askedActions_honest (action : ServiceAction Unit CpuContext (List Nat))
    (hmem : action ∈ askedActions) (service : Service Unit CpuContext) :
    action.Honest PowC.backend service := by
  have hvalid : nines.Valid := ⟨almostNines_valid, by decide⟩
  simp only [askedActions, brokerStart, silentStart, List.map_cons, List.map_nil, List.mem_append,
    List.mem_cons, List.mem_replicate, List.not_mem_nil, or_false] at hmem
  obtain (((rfl | rfl) | ⟨_, rfl⟩) | rfl | rfl | rfl | rfl) := hmem
  · trivial
  · exact hvalid
  all_goals trivial

theorem takenActions_honest (action : ServiceAction Unit CpuContext (List Nat))
    (hmem : action ∈ takenActions) (service : Service Unit CpuContext) :
    action.Honest PowC.backend service := by
  simp only [takenActions, List.mem_append, List.mem_cons, List.mem_replicate, List.not_mem_nil,
    or_false] at hmem
  obtain ((rfl | rfl) | ⟨_, rfl⟩) := hmem <;> trivial

theorem service_solves_nines :
    ∃ result final, Machine.run (Service.step (fun _ => PowC.backend.cpuFunctions) [()])
        (Service.start (fun _ => ⟨0, Vector.replicate 2673 0, Vector.replicate 2673 0, 0⟩)
          fun _ _ => ⟨0, .blank⟩)
        (askedActions ++ .broker (.answer 0 result) :: takenActions) = some final ∧
      final.system.result ⟨nines, .remotePow 0⟩ = some (some result) ∧ nines.SolvedBy result := by
  have ⟨result, hresult⟩ := exists_answers PowC.lawful PowC.faithful nines_answerable
    almostNines_valid
  have hasked : (Machine.run (Service.step (fun _ => PowC.backend.cpuFunctions) [()])
      (Service.start (fun _ => ⟨0, Vector.replicate 2673 0, Vector.replicate 2673 0, 0⟩)
        fun _ _ => ⟨0, .blank⟩) askedActions).isSome = true := rfl
  have ⟨middle, hmiddle⟩ := Option.isSome_iff_exists.mp hasked
  have hanswered : (middle.step (fun _ => PowC.backend.cpuFunctions) [()]
      (.broker (.answer 0 result))).isSome = true := by
    cases hmiddle
    rfl
  have ⟨answered, hanswer⟩ := Option.isSome_iff_exists.mp hanswered
  have htaken : (Machine.run (Service.step (fun _ => PowC.backend.cpuFunctions) [()]) answered
      takenActions).isSome = true := by
    cases hmiddle
    cases hanswer
    rfl
  have ⟨final, hfinal⟩ := Option.isSome_iff_exists.mp htaken
  have hrun : Machine.run (Service.step (fun _ => PowC.backend.cpuFunctions) [()])
      (Service.start (fun _ => ⟨0, Vector.replicate 2673 0, Vector.replicate 2673 0, 0⟩)
        fun _ _ => ⟨0, .blank⟩)
      (askedActions ++ .broker (.answer 0 result) :: takenActions) = some final := by
    rw [Machine.run_append_of_eq _ hmiddle, Machine.run_cons, hanswer]
    exact hfinal
  have hhonest : Machine.Along (fun service action => action.Honest PowC.backend service)
      (Service.step (fun _ => PowC.backend.cpuFunctions) [()])
      (Service.start (fun _ => ⟨0, Vector.replicate 2673 0, Vector.replicate 2673 0, 0⟩)
        fun _ _ => ⟨0, .blank⟩) (askedActions ++ .broker (.answer 0 result) :: takenActions) := by
    refine Machine.along_append (Machine.along_mono (fun service action h => h service)
      (Machine.along_of_forall _ askedActions_honest _)) hmiddle
      (Machine.along_cons ?_ hanswer (Machine.along_mono (fun service action h => h service)
        (Machine.along_of_forall _ takenActions_honest _)))
    intro message hmessage
    cases hmiddle
    cases hmessage
    exact nines_computedBy hresult
  have hfits : ∀ action ∈ askedActions ++ .broker (.answer 0 result) :: takenActions,
      action.Fits fun _ => PowC.backend.cpuFunctions := by
    intro action hmem
    simp only [askedActions, takenActions, List.mem_append, List.mem_cons, List.mem_replicate,
      List.not_mem_nil, or_false] at hmem
    obtain (hstart | rfl | rfl | rfl | rfl) | rfl | (rfl | rfl) | ⟨_, rfl⟩ := hmem
    · exact brokerStart_fits nines action hstart
    all_goals trivial
  have hback : final.system.result ⟨nines, .remotePow 0⟩ = some (some result) := by
    cases hmiddle
    cases hanswer
    cases hfinal
    rfl
  have hentry : (⟨nines, .remotePow 0⟩ : Entry) ∈ final.system.entries := by
    cases hmiddle
    cases hanswer
    cases hfinal
    exact List.mem_singleton.mpr rfl
  exact ⟨result, final, hrun, hback, service_solves ⟨PowC.lawful, PowC.faithful⟩
    ⟨PowC.lawful, PowC.faithful⟩ [()] _ _ _ final hfits hhonest hrun _ hentry result hback⟩

end witness

end Dcurl
