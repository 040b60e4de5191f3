import Dcurl.RemoteInterface
import Dcurl.Library.Machine

/-! The remote interface as a protocol: the clients of the connections, the broker
and the workers. Calls of `remote_do_pow` follow one another on a connection; no
queue and no consumer that one of them set up is ever cancelled. -/
namespace Dcurl

open Library

structure Task where
  trytes : Vector Int8 2673
  mwm : Nat

structure Message where
  task : Task
  replyTo : Nat

structure Delivery where
  queue : Nat
  body : Vector Int8 2673

def PowRemoteContext.task (ctx : PowRemoteContext) : Task := ⟨ctx.inputTrytes, ctx.mwm⟩

inductive Rpc where
  | idle
  | declared (ctx : PowRemoteContext) (replyTo : Nat)
  | published (ctx : PowRemoteContext) (replyTo : Nat)
  | waiting (ctx : PowRemoteContext) (replyTo : Nat)

/-- The connections, the queues of the broker and the workers. The last three
fields record what happened: the task that each callback queue was declared for,
what the workers computed, and the contexts with which `remote_do_pow` returned
true. -/
structure Network where
  rpc : Nat → Rpc
  arrived : Nat → List Delivery
  nextQueue : Nat
  consumer : Nat → Option Nat
  incoming : List Message
  computing : List Message
  queued : List Delivery
  declaredFor : Nat → Option Task
  computed : List (Task × Vector Int8 2673)
  returned : List PowRemoteContext

inductive NetworkAction where
  /-- `declare_callback_queue` -/
  | declare (conn : Nat) (ctx : PowRemoteContext)
  /-- `publish_message_with_reply_to` -/
  | publish (conn : Nat)
  /-- `amqp_basic_consume` in `wait_response_message` -/
  | consume (conn : Nat)
  /-- `wait_response_message` reads a complete delivery. -/
  | take (conn : Nat)
  /-- A call of the broker fails, or the wait times out. -/
  | giveUp (conn : Nat)
  /-- A worker takes a message of `incoming_queue`. -/
  | work (message : Nat)
  /-- A worker publishes its result. -/
  | answer (message : Nat) (result : Vector Int8 2673)
  /-- The broker delivers a message to the connection that consumes its queue. -/
  | deliver (message : Nat)
  /-- The time to live of a message ends in its queue. -/
  | expire (message : Nat)

namespace Network

def start : Network where
  rpc := fun _ => .idle
  arrived := fun _ => []
  nextQueue := 0
  consumer := fun _ => none
  incoming := []
  computing := []
  queued := []
  declaredFor := fun _ => none
  computed := []
  returned := []

def setRpc (network : Network) (conn : Nat) (rpc : Rpc) : Network :=
  { network with rpc := Function.update network.rpc conn rpc }

def step (network : Network) : NetworkAction → Option Network
  | .declare conn ctx =>
      match network.rpc conn with
      | .idle =>
          some { network.setRpc conn (.declared ctx network.nextQueue) with
            nextQueue := network.nextQueue + 1
            declaredFor := Function.update network.declaredFor network.nextQueue (some ctx.task) }
      | _ => none
  | .publish conn =>
      match network.rpc conn with
      | .declared ctx replyTo =>
          some { network.setRpc conn (.published ctx replyTo) with
            incoming := network.incoming ++ [⟨ctx.task, replyTo⟩] }
      | _ => none
  | .consume conn =>
      match network.rpc conn with
      | .published ctx replyTo =>
          some { network.setRpc conn (.waiting ctx replyTo) with
            consumer := Function.update network.consumer replyTo (some conn) }
      | _ => none
  | .take conn =>
      match network.rpc conn, network.arrived conn with
      | .waiting ctx _, delivery :: rest =>
          -- Neither the queue nor the consumer tag of the delivery is looked at.
          some { network.setRpc conn .idle with
            arrived := Function.update network.arrived conn rest
            returned := { ctx with outputTrytes := delivery.body } :: network.returned }
      | _, _ => none
  | .giveUp conn =>
      match network.rpc conn with
      | .idle => none
      | _ => some (network.setRpc conn .idle)
  | .work k =>
      network.incoming[k]?.map fun message =>
        { network with
          incoming := network.incoming.eraseIdx k
          computing := network.computing ++ [message] }
  | .answer k result =>
      network.computing[k]?.map fun message =>
        { network with
          computing := network.computing.eraseIdx k
          queued := network.queued ++ [⟨message.replyTo, result⟩]
          computed := (message.task, result) :: network.computed }
  | .deliver k =>
      network.queued[k]?.bind fun delivery =>
        (network.consumer delivery.queue).map fun conn =>
          { network with
            queued := network.queued.eraseIdx k
            arrived := Function.update network.arrived conn (network.arrived conn ++ [delivery]) }
  | .expire k =>
      network.queued[k]?.map fun _ => { network with queued := network.queued.eraseIdx k }

/-- Whatever `remote_do_pow` returned true with, a worker computed for its
transaction and weight. -/
def AnswersOwn (network : Network) : Prop :=
  ∀ ctx ∈ network.returned, (ctx.task, ctx.outputTrytes) ∈ network.computed

/-- The delivery that a waiting call reads first is of a queue that was declared
for the transaction and weight that it waits for. -/
def TakesOwn (network : Network) : NetworkAction → Prop
  | .take conn => ∀ ctx replyTo delivery rest, network.rpc conn = .waiting ctx replyTo →
      network.arrived conn = delivery :: rest →
        network.declaredFor delivery.queue = some ctx.task
  | _ => True

def Traceable (network : Network) (delivery : Delivery) : Prop :=
  ∃ task, network.declaredFor delivery.queue = some task ∧ (task, delivery.body) ∈ network.computed

def DeclaredBy (network : Network) : Rpc → Prop
  | .idle => True
  | .declared ctx replyTo => network.declaredFor replyTo = some ctx.task
  | .published ctx replyTo => network.declaredFor replyTo = some ctx.task
  | .waiting ctx replyTo => network.declaredFor replyTo = some ctx.task

/-- What is in flight can be traced to the call that set it going. -/
structure Traced (network : Network) : Prop where
  fresh : ∀ queue task, network.declaredFor queue = some task → queue < network.nextQueue
  rpc : ∀ conn, network.DeclaredBy (network.rpc conn)
  incoming : ∀ message ∈ network.incoming, network.declaredFor message.replyTo = some message.task
  computing : ∀ message ∈ network.computing,
    network.declaredFor message.replyTo = some message.task
  queued : ∀ delivery ∈ network.queued, network.Traceable delivery
  arrived : ∀ conn, ∀ delivery ∈ network.arrived conn, network.Traceable delivery

structure Extends (network next : Network) : Prop where
  declaredFor : ∀ queue task, network.declaredFor queue = some task →
    next.declaredFor queue = some task
  computed : ∀ entry ∈ network.computed, entry ∈ next.computed

variable {network next : Network}

inductive Steps (network : Network) : NetworkAction → Network → Prop
  | declare {conn : Nat} {ctx : PowRemoteContext} (hrpc : network.rpc conn = .idle) :
      Steps network (.declare conn ctx)
        { network.setRpc conn (.declared ctx network.nextQueue) with
          nextQueue := network.nextQueue + 1
          declaredFor := Function.update network.declaredFor network.nextQueue (some ctx.task) }
  | publish {conn replyTo : Nat} {ctx : PowRemoteContext}
      (hrpc : network.rpc conn = .declared ctx replyTo) :
      Steps network (.publish conn)
        { network.setRpc conn (.published ctx replyTo) with
          incoming := network.incoming ++ [⟨ctx.task, replyTo⟩] }
  | consume {conn replyTo : Nat} {ctx : PowRemoteContext}
      (hrpc : network.rpc conn = .published ctx replyTo) :
      Steps network (.consume conn)
        { network.setRpc conn (.waiting ctx replyTo) with
          consumer := Function.update network.consumer replyTo (some conn) }
  | take {conn replyTo : Nat} {ctx : PowRemoteContext} {delivery : Delivery} {rest : List Delivery}
      (hrpc : network.rpc conn = .waiting ctx replyTo)
      (harrived : network.arrived conn = delivery :: rest) :
      Steps network (.take conn)
        { network.setRpc conn .idle with
          arrived := Function.update network.arrived conn rest
          returned := { ctx with outputTrytes := delivery.body } :: network.returned }
  | giveUp {conn : Nat} (hrpc : network.rpc conn ≠ .idle) :
      Steps network (.giveUp conn) (network.setRpc conn .idle)
  | work {k : Nat} {message : Message} (hk : network.incoming[k]? = some message) :
      Steps network (.work k)
        { network with
          incoming := network.incoming.eraseIdx k
          computing := network.computing ++ [message] }
  | answer {k : Nat} {message : Message} {result : Vector Int8 2673}
      (hk : network.computing[k]? = some message) :
      Steps network (.answer k result)
        { network with
          computing := network.computing.eraseIdx k
          queued := network.queued ++ [⟨message.replyTo, result⟩]
          computed := (message.task, result) :: network.computed }
  | deliver {k conn : Nat} {delivery : Delivery} (hk : network.queued[k]? = some delivery)
      (hconsumer : network.consumer delivery.queue = some conn) :
      Steps network (.deliver k)
        { network with
          queued := network.queued.eraseIdx k
          arrived := Function.update network.arrived conn (network.arrived conn ++ [delivery]) }
  | expire {k : Nat} {delivery : Delivery} (hk : network.queued[k]? = some delivery) :
      Steps network (.expire k) { network with queued := network.queued.eraseIdx k }

theorem steps_of_step {action : NetworkAction} (hstep : network.step action = some next) :
    Steps network action next := by
  cases action with
  | declare conn ctx =>
      simp only [step] at hstep
      split at hstep
      · rename_i hrpc
        cases hstep
        exact .declare hrpc
      · cases hstep
  | publish conn =>
      simp only [step] at hstep
      split at hstep
      · rename_i hrpc
        cases hstep
        exact .publish hrpc
      · cases hstep
  | consume conn =>
      simp only [step] at hstep
      split at hstep
      · rename_i hrpc
        cases hstep
        exact .consume hrpc
      · cases hstep
  | take conn =>
      simp only [step] at hstep
      split at hstep
      · rename_i hrpc harrived
        cases hstep
        exact .take hrpc harrived
      · cases hstep
  | giveUp conn =>
      simp only [step] at hstep
      split at hstep
      · cases hstep
      · rename_i hrpc
        cases hstep
        exact .giveUp hrpc
  | work k =>
      have ⟨message, hk, heq⟩ := Option.map_eq_some_iff.mp hstep
      cases heq
      exact .work hk
  | answer k result =>
      have ⟨message, hk, heq⟩ := Option.map_eq_some_iff.mp hstep
      cases heq
      exact .answer hk
  | deliver k =>
      have ⟨delivery, hk, hmap⟩ := Option.bind_eq_some_iff.mp hstep
      have ⟨conn, hconsumer, heq⟩ := Option.map_eq_some_iff.mp hmap
      cases heq
      exact .deliver hk hconsumer
  | expire k =>
      have ⟨delivery, hk, heq⟩ := Option.map_eq_some_iff.mp hstep
      cases heq
      exact .expire hk

theorem Extends.of_eq (hdeclared : next.declaredFor = network.declaredFor)
    (hcomputed : next.computed = network.computed) : Extends network next :=
  ⟨fun _ _ h => hdeclared ▸ h, fun _ h => hcomputed ▸ h⟩

theorem Traceable.extend {delivery : Delivery} (h : network.Traceable delivery)
    (hextends : Extends network next) : next.Traceable delivery :=
  have ⟨task, hdeclared, hcomputed⟩ := h
  ⟨task, hextends.declaredFor _ _ hdeclared, hextends.computed _ hcomputed⟩

theorem DeclaredBy.extend {rpc : Rpc} (h : network.DeclaredBy rpc)
    (hextends : Extends network next) : next.DeclaredBy rpc := by
  cases rpc with
  | idle => trivial
  | declared ctx replyTo => exact hextends.declaredFor _ _ h
  | published ctx replyTo => exact hextends.declaredFor _ _ h
  | waiting ctx replyTo => exact hextends.declaredFor _ _ h

theorem declaredBy_update {rpcs : Nat → Rpc} (hall : ∀ conn, network.DeclaredBy (rpcs conn))
    (conn : Nat) {rpc : Rpc} (hrpc : network.DeclaredBy rpc) (other : Nat) :
    network.DeclaredBy (Function.update rpcs conn rpc other) := by
  by_cases hsame : other = conn
  · rw [hsame, Function.update_self]
    exact hrpc
  · rw [Function.update_of_ne hsame]
    exact hall other

namespace Traced

theorem start : Traced start where
  fresh := fun _ _ h => by cases h
  rpc := fun _ => trivial
  incoming := fun _ h => absurd h List.not_mem_nil
  computing := fun _ h => absurd h List.not_mem_nil
  queued := fun _ h => absurd h List.not_mem_nil
  arrived := fun _ _ h => absurd h List.not_mem_nil

theorem declare (h : Traced network) (conn : Nat) (ctx : PowRemoteContext) :
    Traced { network.setRpc conn (.declared ctx network.nextQueue) with
      nextQueue := network.nextQueue + 1
      declaredFor := Function.update network.declaredFor network.nextQueue (some ctx.task) } := by
  have hextends : Extends network
      { network.setRpc conn (.declared ctx network.nextQueue) with
        nextQueue := network.nextQueue + 1
        declaredFor := Function.update network.declaredFor network.nextQueue (some ctx.task) } := by
    refine ⟨?_, fun _ hmem => hmem⟩
    intro queue task hdeclared
    have hlt := h.fresh queue task hdeclared
    exact (Function.update_of_ne (by omega) ..).trans hdeclared
  constructor
  · intro queue task hdeclared
    by_cases hnew : queue = network.nextQueue
    · change queue < network.nextQueue + 1
      omega
    · have hold : network.declaredFor queue = some task :=
        (Function.update_of_ne hnew ..).symm.trans hdeclared
      exact Nat.lt_succ_of_lt (h.fresh queue task hold)
  · exact declaredBy_update (fun other => (h.rpc other).extend hextends) conn
      (Function.update_self ..)
  · intro message hmem
    exact hextends.declaredFor _ _ (h.incoming message hmem)
  · intro message hmem
    exact hextends.declaredFor _ _ (h.computing message hmem)
  · intro delivery hmem
    exact (h.queued delivery hmem).extend hextends
  · intro other delivery hmem
    exact (h.arrived other delivery hmem).extend hextends

theorem move (h : Traced network) (hdeclared : next.declaredFor = network.declaredFor)
    (hcomputed : next.computed = network.computed) (hqueue : next.nextQueue = network.nextQueue)
    (hrpc : ∀ conn, network.DeclaredBy (next.rpc conn))
    (hincoming : ∀ message ∈ next.incoming,
      network.declaredFor message.replyTo = some message.task)
    (hcomputing : ∀ message ∈ next.computing,
      network.declaredFor message.replyTo = some message.task)
    (hqueued : ∀ delivery ∈ next.queued, network.Traceable delivery)
    (harrived : ∀ conn, ∀ delivery ∈ next.arrived conn, network.Traceable delivery) :
    Traced next := by
  have hextends := Extends.of_eq hdeclared hcomputed
  constructor
  · intro queue task hold
    rw [hqueue]
    exact h.fresh queue task (hdeclared ▸ hold)
  · exact fun conn => (hrpc conn).extend hextends
  · exact fun message hmem => hextends.declaredFor _ _ (hincoming message hmem)
  · exact fun message hmem => hextends.declaredFor _ _ (hcomputing message hmem)
  · exact fun delivery hmem => (hqueued delivery hmem).extend hextends
  · exact fun conn delivery hmem => (harrived conn delivery hmem).extend hextends

theorem answer (h : Traced network) {k : Nat} {message : Message}
    (hk : network.computing[k]? = some message) (result : Vector Int8 2673) :
    Traced { network with
      computing := network.computing.eraseIdx k
      queued := network.queued ++ [⟨message.replyTo, result⟩]
      computed := (message.task, result) :: network.computed } := by
  have hmessage := h.computing message (List.mem_of_getElem? hk)
  have hextends : Extends network
      { network with
        computing := network.computing.eraseIdx k
        queued := network.queued ++ [⟨message.replyTo, result⟩]
        computed := (message.task, result) :: network.computed } :=
    ⟨fun _ _ hdeclared => hdeclared, fun _ hmem => List.mem_cons_of_mem _ hmem⟩
  refine ⟨h.fresh, h.rpc, h.incoming, ?_, ?_, ?_⟩
  · exact fun other hmem => h.computing other (List.mem_of_mem_eraseIdx hmem)
  · intro delivery hmem
    cases List.mem_append.mp hmem with
    | inl hold => exact (h.queued delivery hold).extend hextends
    | inr hnew =>
        rw [List.mem_singleton.mp hnew]
        exact ⟨message.task, hmessage, List.mem_cons_self⟩
  · exact fun other delivery hmem => (h.arrived other delivery hmem).extend hextends

theorem arrived_update (h : Traced network) (conn : Nat) {deliveries : List Delivery}
    (hdeliveries : ∀ delivery ∈ deliveries, network.Traceable delivery) (other : Nat) :
    ∀ delivery ∈ Function.update network.arrived conn deliveries other,
      network.Traceable delivery := by
  by_cases hsame : other = conn
  · rw [hsame, Function.update_self]
    exact hdeliveries
  · rw [Function.update_of_ne hsame]
    exact h.arrived other

theorem step (h : Traced network) {action : NetworkAction}
    (hstep : network.step action = some next) : Traced next := by
  cases steps_of_step hstep with
  | declare _ => exact h.declare _ _
  | @publish conn replyTo ctx hrpc =>
      have hcall := h.rpc conn
      rw [hrpc] at hcall
      refine h.move rfl rfl rfl (declaredBy_update h.rpc conn hcall) ?_ h.computing h.queued
        h.arrived
      intro message hmem
      cases List.mem_append.mp hmem with
      | inl hold => exact h.incoming message hold
      | inr hnew =>
          rw [List.mem_singleton.mp hnew]
          exact hcall
  | @consume conn replyTo ctx hrpc =>
      have hcall := h.rpc conn
      rw [hrpc] at hcall
      exact h.move rfl rfl rfl (declaredBy_update h.rpc conn hcall) h.incoming h.computing
        h.queued h.arrived
  | @take conn replyTo ctx delivery rest hrpc harrived =>
      refine h.move rfl rfl rfl (declaredBy_update h.rpc conn trivial) h.incoming h.computing
        h.queued (h.arrived_update conn ?_)
      intro other hmem
      apply h.arrived conn
      rw [harrived]
      exact List.mem_cons_of_mem _ hmem
  | giveUp _ =>
      exact h.move rfl rfl rfl (declaredBy_update h.rpc _ trivial) h.incoming h.computing
        h.queued h.arrived
  | @work k message hk =>
      refine h.move rfl rfl rfl h.rpc ?_ ?_ h.queued h.arrived
      · exact fun other hmem => h.incoming other (List.mem_of_mem_eraseIdx hmem)
      · intro other hmem
        cases List.mem_append.mp hmem with
        | inl hold => exact h.computing other hold
        | inr hnew =>
            rw [List.mem_singleton.mp hnew]
            exact h.incoming message (List.mem_of_getElem? hk)
  | answer hk => exact h.answer hk _
  | @deliver k conn delivery hk _ =>
      refine h.move rfl rfl rfl h.rpc h.incoming h.computing ?_ (h.arrived_update conn ?_)
      · exact fun other hmem => h.queued other (List.mem_of_mem_eraseIdx hmem)
      · intro other hmem
        cases List.mem_append.mp hmem with
        | inl hold => exact h.arrived conn other hold
        | inr hnew =>
            rw [List.mem_singleton.mp hnew]
            exact h.queued delivery (List.mem_of_getElem? hk)
  | expire _ =>
      refine h.move rfl rfl rfl h.rpc h.incoming h.computing ?_ h.arrived
      exact fun other hmem => h.queued other (List.mem_of_mem_eraseIdx hmem)

end Traced

theorem computed_of_step {action : NetworkAction} (hstep : network.step action = some next)
    {entry : Task × Vector Int8 2673} (hmem : entry ∈ network.computed) :
    entry ∈ next.computed := by
  cases steps_of_step hstep with
  | answer _ => exact List.mem_cons_of_mem _ hmem
  | _ => exact hmem

theorem AnswersOwn.step (h : network.AnswersOwn) (htraced : Traced network)
    {action : NetworkAction} (htakes : network.TakesOwn action)
    (hstep : network.step action = some next) : next.AnswersOwn := by
  have hold : ∀ ctx ∈ network.returned, (ctx.task, ctx.outputTrytes) ∈ next.computed :=
    fun ctx hmem => computed_of_step hstep (h ctx hmem)
  cases steps_of_step hstep with
  | @take conn replyTo ctx delivery rest hrpc harrived =>
      have harrives : delivery ∈ network.arrived conn := by
        rw [harrived]
        exact List.mem_cons_self
      have ⟨task, htask, hresult⟩ := htraced.arrived conn delivery harrives
      rw [htakes ctx replyTo delivery rest hrpc harrived, Option.some.injEq] at htask
      rw [← htask] at hresult
      exact List.forall_mem_cons.mpr ⟨hresult, hold⟩
  | _ => exact hold

/-- In a run in which every waiting call reads a delivery that was made for its
transaction and weight, every result belongs to its own request. -/
theorem answersOwn_of_takesOwn (actions : List NetworkAction) (final : Network)
    (htakes : Machine.Along TakesOwn step start actions)
    (hrun : Machine.run step start actions = some final) : final.AnswersOwn := by
  have hstart : Traced start ∧ start.AnswersOwn :=
    ⟨Traced.start, fun _ hmem => absurd hmem List.not_mem_nil⟩
  have hfinal := Machine.run_invariant_along TakesOwn
    (fun network => Traced network ∧ network.AnswersOwn)
    (fun network action next h hallowed hnext =>
      ⟨h.1.step hnext, h.2.step h.1 hallowed hnext⟩) hstart htakes hrun
  exact hfinal.2

section runs

def zeroContext (mwm : Nat) : PowRemoteContext :=
  ⟨0, Vector.replicate 2673 57, Vector.replicate 2673 0, mwm⟩

def zeroResult : Vector Int8 2673 := Vector.replicate 2673 57

def promptRun : List NetworkAction :=
  [.declare 0 (zeroContext 14), .publish 0, .consume 0, .work 0, .answer 0 zeroResult, .deliver 0,
    .take 0]

theorem answersOwn_promptRun :
    ∃ final, Machine.run step start promptRun = some final ∧ final.AnswersOwn := by
  refine ⟨_, rfl, answersOwn_of_takesOwn promptRun _ ?_ rfl⟩
  iterate 6 refine Machine.along_cons trivial rfl ?_
  refine Machine.along_cons ?_ rfl trivial
  intro ctx replyTo delivery rest hrpc harrived
  cases hrpc
  cases harrived
  rfl

/-- A call for weight 9 times out. The next call on its connection asks for weight
14 and reads the answer to the first. -/
def lateRun : List NetworkAction :=
  [.declare 0 (zeroContext 9), .publish 0, .consume 0, .giveUp 0,
    .declare 0 (zeroContext 14), .publish 0, .consume 0,
    .work 0, .answer 0 zeroResult, .deliver 0, .take 0]

theorem not_answersOwn_lateRun :
    ¬∀ actions final, Machine.run step start actions = some final → final.AnswersOwn := by
  intro h
  have hlate := h lateRun _ rfl _ List.mem_cons_self
  have hentry := List.mem_singleton.mp hlate
  have htask : (14 : Nat) = 9 := congrArg (fun entry => entry.1.mwm) hentry
  omega

end runs

end Network

end Dcurl
