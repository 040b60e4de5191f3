import Dcurl.RemoteProtocol

/-! The remote interface while no call gives up on a request that it has published.
One answer at most is then on its way to a call, and the only delivery that reaches
a connection is the one that its call waits for. -/
namespace Dcurl

open Library

namespace Rpc

def queue? : Rpc → Option Nat
  | .idle => none
  | .declared _ replyTo => some replyTo
  | .published _ replyTo => some replyTo
  | .waiting _ replyTo => some replyTo

def awaits? : Rpc → Option Nat
  | .published _ replyTo => some replyTo
  | .waiting _ replyTo => some replyTo
  | _ => none

def consumes? : Rpc → Option Nat
  | .waiting _ replyTo => some replyTo
  | _ => none

variable {rpc : Rpc} {queue : Nat}

theorem queue?_of_awaits? (h : rpc.awaits? = some queue) : rpc.queue? = some queue := by
  cases rpc with
  | published ctx replyTo => exact h
  | waiting ctx replyTo => exact h
  | _ => cases h

end Rpc

namespace Network

def due (network : Network) (queue : Nat) : Nat :=
  network.incoming.countP (fun message => message.replyTo == queue) +
    network.computing.countP (fun message => message.replyTo == queue) +
      network.queued.countP (fun delivery => delivery.queue == queue)

/-- A call gives up, if it does, before its request is published. -/
def Prompt (network : Network) : NetworkAction → Prop
  | .giveUp conn => (network.rpc conn).awaits? = none
  | _ => True

/-- What links the answers on their way to the calls that wait for them. -/
structure OneReply (network : Network) : Prop where
  fresh : ∀ conn queue, (network.rpc conn).queue? = some queue → queue < network.nextQueue
  unique : ∀ conn other queue, (network.rpc conn).queue? = some queue →
    (network.rpc other).queue? = some queue → conn = other
  consumed : ∀ queue conn, network.consumer queue = some conn → queue < network.nextQueue ∧
    ∀ other, (network.rpc other).queue? = some queue →
      other = conn ∧ (network.rpc conn).consumes? = some queue
  once : ∀ queue, network.due queue ≤ 1
  owner : ∀ queue, 0 < network.due queue →
    ∃ conn, (network.rpc conn).awaits? = some queue ∧ network.arrived conn = []
  arrived : ∀ conn, network.arrived conn = [] ∨ ∃ delivery : Delivery,
    (network.rpc conn).consumes? = some delivery.queue ∧ network.arrived conn = [delivery]

section due

variable {α : Type} {list : List α} {k : Nat} {value : α}

theorem countP_eraseIdx_add (p : α → Bool) (hk : list[k]? = some value) :
    (list.eraseIdx k).countP p + (if p value then 1 else 0) = list.countP p := by
  have ⟨hlt, hget⟩ := List.getElem?_eq_some_iff.mp hk
  rw [← (List.getElem_cons_eraseIdx_perm hlt).countP_eq p, List.countP_cons, hget]

variable {network next : Network}

theorem due_work {message : Message} (hk : network.incoming[k]? = some message) (queue : Nat) :
    due { network with
      incoming := network.incoming.eraseIdx k
      computing := network.computing ++ [message] } queue = network.due queue := by
  have herase := countP_eraseIdx_add (fun message => message.replyTo == queue) hk
  simp only [due, List.countP_append, List.countP_singleton]
  omega

theorem due_answer {message : Message} (hk : network.computing[k]? = some message)
    (result : Vector Int8 2673) (queue : Nat) :
    due { network with
      computing := network.computing.eraseIdx k
      queued := network.queued ++ [⟨message.replyTo, result⟩]
      computed := (message.task, result) :: network.computed } queue = network.due queue := by
  have herase := countP_eraseIdx_add (fun message => message.replyTo == queue) hk
  simp only [due, List.countP_append, List.countP_singleton]
  omega

theorem due_eraseIdx {delivery : Delivery} (hk : network.queued[k]? = some delivery)
    (queue : Nat) :
    due { network with queued := network.queued.eraseIdx k } queue +
      (if delivery.queue == queue then 1 else 0) = network.due queue := by
  have herase := countP_eraseIdx_add (fun delivery => delivery.queue == queue) hk
  simp only [due]
  omega

end due

namespace OneReply

variable {network next : Network} {conn : Nat}

theorem move (h : OneReply network) (hrpc : next.rpc = network.rpc)
    (harrived : next.arrived = network.arrived) (hqueue : next.nextQueue = network.nextQueue)
    (hconsumer : next.consumer = network.consumer)
    (hdue : ∀ queue, next.due queue ≤ network.due queue) : OneReply next := by
  constructor
  · rw [hrpc, hqueue]
    exact h.fresh
  · rw [hrpc]
    exact h.unique
  · rw [hrpc, hqueue, hconsumer]
    exact h.consumed
  · exact fun queue => (hdue queue).trans (h.once queue)
  · rw [hrpc, harrived]
    exact fun queue hpos => h.owner queue (hpos.trans_le (hdue queue))
  · rw [hrpc, harrived]
    exact h.arrived

theorem arrived_eq_nil (h : OneReply network) (hconsumes : (network.rpc conn).consumes? = none) :
    network.arrived conn = [] := by
  cases h.arrived conn with
  | inl hempty => exact hempty
  | inr hdelivery =>
      have ⟨delivery, hsome, _⟩ := hdelivery
      rw [hconsumes] at hsome
      cases hsome

theorem due_eq_zero (h : OneReply network) {queue : Nat}
    (hqueue : (network.rpc conn).queue? = some queue)
    (hawaits : (network.rpc conn).awaits? = none) : network.due queue = 0 := by
  by_contra hne
  have ⟨other, hother, _⟩ := h.owner queue (Nat.pos_of_ne_zero hne)
  rw [h.unique conn other queue hqueue (Rpc.queue?_of_awaits? hother), hother] at hawaits
  cases hawaits

theorem queue?_update {rpc : Rpc}
    (hrpc : ∀ queue, rpc.queue? = some queue → (network.rpc conn).queue? = some queue)
    {other queue : Nat} (h : (Function.update network.rpc conn rpc other).queue? = some queue) :
    (network.rpc other).queue? = some queue := by
  by_cases hsame : other = conn
  · rw [hsame, Function.update_self] at h
    rw [hsame]
    exact hrpc queue h
  · rwa [Function.update_of_ne hsame] at h

theorem owner_update (h : OneReply network) {queue : Nat} (hpos : 0 < network.due queue)
    {rpc : Rpc} (hrpc : ∀ queue, (network.rpc conn).awaits? = some queue →
      network.arrived conn = [] → rpc.awaits? = some queue) :
    ∃ other, (Function.update network.rpc conn rpc other).awaits? = some queue ∧
      network.arrived other = [] := by
  have ⟨other, hawaits, hempty⟩ := h.owner queue hpos
  refine ⟨other, ?_, hempty⟩
  by_cases hsame : other = conn
  · rw [hsame, Function.update_self]
    exact hrpc queue (hsame ▸ hawaits) (hsame ▸ hempty)
  · rw [Function.update_of_ne hsame]
    exact hawaits

theorem arrived_update (h : OneReply network) {rpc : Rpc} (hempty : network.arrived conn = [])
    (other : Nat) : network.arrived other = [] ∨ ∃ delivery : Delivery,
      (Function.update network.rpc conn rpc other).consumes? = some delivery.queue ∧
        network.arrived other = [delivery] := by
  by_cases hsame : other = conn
  · rw [hsame]
    exact Or.inl hempty
  · rw [Function.update_of_ne hsame]
    exact h.arrived other

theorem start : OneReply start where
  fresh := fun _ _ h => by cases h
  unique := fun _ _ _ h => by cases h
  consumed := fun _ _ h => by cases h
  once := fun _ => Nat.zero_le _
  owner := fun _ h => absurd h (Nat.lt_irrefl 0)
  arrived := fun _ => Or.inl rfl

theorem declare (h : OneReply network) (hrpc : network.rpc conn = .idle) (ctx : PowRemoteContext) :
    OneReply { network.setRpc conn (.declared ctx network.nextQueue) with
      nextQueue := network.nextQueue + 1
      declaredFor := Function.update network.declaredFor network.nextQueue (some ctx.task) } := by
  have hold : ∀ other queue, other ≠ conn →
      (Function.update network.rpc conn (.declared ctx network.nextQueue) other).queue? =
        some queue → (network.rpc other).queue? = some queue := by
    intro other queue hne hqueue
    rwa [Function.update_of_ne hne] at hqueue
  have hnew : ∀ queue,
      (Function.update network.rpc conn (.declared ctx network.nextQueue) conn).queue? =
        some queue → queue = network.nextQueue := by
    intro queue hqueue
    rw [Function.update_self] at hqueue
    exact (Option.some.inj hqueue).symm
  constructor
  · intro other queue hqueue
    by_cases hsame : other = conn
    · subst hsame
      exact Nat.lt_succ_of_le (hnew queue hqueue).le
    · exact Nat.lt_succ_of_lt (h.fresh other queue (hold other queue hsame hqueue))
  · intro other other' queue hqueue hqueue'
    by_cases hsame : other = conn
    · by_cases hsame' : other' = conn
      · rw [hsame, hsame']
      · have hlt := h.fresh other' queue (hold other' queue hsame' hqueue')
        rw [hsame] at hqueue
        exact absurd (hnew queue hqueue) hlt.ne
    · have hlt := h.fresh other queue (hold other queue hsame hqueue)
      by_cases hsame' : other' = conn
      · rw [hsame'] at hqueue'
        exact absurd (hnew queue hqueue') hlt.ne
      · exact h.unique other other' queue (hold other queue hsame hqueue)
          (hold other' queue hsame' hqueue')
  · intro queue consumer hconsumer
    have ⟨hlt, honly⟩ := h.consumed queue consumer hconsumer
    refine ⟨Nat.lt_succ_of_lt hlt, ?_⟩
    intro other hqueue
    by_cases hsame : other = conn
    · rw [hsame] at hqueue
      exact absurd (hnew queue hqueue) hlt.ne
    · have ⟨heq, hconsumes⟩ := honly other (hold other queue hsame hqueue)
      refine ⟨heq, ?_⟩
      subst heq
      exact (congrArg Rpc.consumes? (Function.update_of_ne hsame ..)).trans hconsumes
  · exact h.once
  · intro queue hpos
    apply h.owner_update hpos
    intro queue hawaits
    rw [hrpc] at hawaits
    cases hawaits
  · exact h.arrived_update (h.arrived_eq_nil (by rw [hrpc]; rfl))

theorem setRpc (h : OneReply network) {rpc : Rpc}
    (hrpc : next.rpc = Function.update network.rpc conn rpc)
    (hqueue : next.nextQueue = network.nextQueue) (hconsumer : next.consumer = network.consumer)
    (hkeeps : ∀ queue, rpc.queue? = some queue → (network.rpc conn).queue? = some queue)
    (hconsumes : ∀ queue, rpc.queue? = some queue → (network.rpc conn).consumes? ≠ some queue)
    (honce : ∀ queue, next.due queue ≤ 1)
    (howner : ∀ queue, 0 < next.due queue →
      ∃ other, (next.rpc other).awaits? = some queue ∧ next.arrived other = [])
    (harrived : ∀ other, next.arrived other = [] ∨ ∃ delivery : Delivery,
      (next.rpc other).consumes? = some delivery.queue ∧ next.arrived other = [delivery]) :
    OneReply next := by
  refine ⟨?_, ?_, ?_, honce, howner, harrived⟩
  · rw [hrpc, hqueue]
    exact fun other queue h' => h.fresh other queue (queue?_update hkeeps h')
  · rw [hrpc]
    exact fun other other' queue h' h'' =>
      h.unique other other' queue (queue?_update hkeeps h') (queue?_update hkeeps h'')
  · rw [hrpc, hqueue, hconsumer]
    intro queue consumer hsome
    have ⟨hlt, honly⟩ := h.consumed queue consumer hsome
    refine ⟨hlt, ?_⟩
    intro other hother
    have ⟨heq, hold⟩ := honly other (queue?_update hkeeps hother)
    refine ⟨heq, ?_⟩
    by_cases hsame : consumer = conn
    · subst hsame
      rw [heq, Function.update_self] at hother
      exact absurd hold (hconsumes queue hother)
    · rw [Function.update_of_ne hsame]
      exact hold

theorem publish (h : OneReply network) {ctx : PowRemoteContext} {replyTo : Nat}
    (hrpc : network.rpc conn = .declared ctx replyTo) :
    OneReply { network.setRpc conn (.published ctx replyTo) with
      incoming := network.incoming ++ [⟨ctx.task, replyTo⟩] } := by
  have hempty : network.arrived conn = [] := h.arrived_eq_nil (by rw [hrpc]; rfl)
  have hdue : ∀ queue, due { network.setRpc conn (.published ctx replyTo) with
      incoming := network.incoming ++ [⟨ctx.task, replyTo⟩] } queue =
        network.due queue + if replyTo == queue then 1 else 0 := by
    intro queue
    simp only [due, Network.setRpc, List.countP_append, List.countP_singleton]
    omega
  have hnone : network.due replyTo = 0 :=
    h.due_eq_zero (by rw [hrpc]; rfl) (by rw [hrpc]; rfl)
  refine h.setRpc rfl rfl rfl ?_ ?_ ?_ ?_ ?_
  · intro queue hqueue
    rw [hrpc]
    exact hqueue
  · intro queue _
    rw [hrpc]
    exact fun hconsumes => by cases hconsumes
  · intro queue
    rw [hdue]
    by_cases hsame : replyTo = queue
    · subst hsame
      rw [hnone, if_pos (beq_self_eq_true replyTo)]
    · rw [if_neg (by simpa using hsame)]
      exact h.once queue
  · intro queue hpos
    by_cases hsame : replyTo = queue
    · subst hsame
      refine ⟨conn, ?_, hempty⟩
      change (Function.update network.rpc conn (.published ctx replyTo) conn).awaits? = some replyTo
      rw [Function.update_self]
      rfl
    · rw [hdue, if_neg (by simpa using hsame)] at hpos
      apply h.owner_update hpos
      intro queue hawaits
      rw [hrpc] at hawaits
      cases hawaits
  · exact h.arrived_update hempty

theorem consume (h : OneReply network) {ctx : PowRemoteContext} {replyTo : Nat}
    (hrpc : network.rpc conn = .published ctx replyTo) :
    OneReply { network.setRpc conn (.waiting ctx replyTo) with
      consumer := Function.update network.consumer replyTo (some conn) } := by
  have hqueue : (network.rpc conn).queue? = some replyTo := by
    rw [hrpc]
    rfl
  have hkeeps : ∀ queue, (Rpc.waiting ctx replyTo).queue? = some queue →
      (network.rpc conn).queue? = some queue := by
    intro queue h'
    rw [hqueue]
    exact h'
  constructor
  · exact fun other queue h' => h.fresh other queue (queue?_update hkeeps h')
  · exact fun other other' queue h' h'' =>
      h.unique other other' queue (queue?_update hkeeps h') (queue?_update hkeeps h'')
  · intro queue consumer hsome
    by_cases hsame : queue = replyTo
    · subst hsame
      have hconn : Function.update network.consumer queue (some conn) queue = some consumer := hsome
      rw [Function.update_self, Option.some.injEq] at hconn
      subst hconn
      refine ⟨h.fresh conn queue hqueue, ?_⟩
      intro other hother
      refine ⟨h.unique other conn queue (queue?_update hkeeps hother) hqueue, ?_⟩
      change (Function.update network.rpc conn (.waiting ctx queue) conn).consumes? = some queue
      rw [Function.update_self]
      rfl
    · have hsome' : network.consumer queue = some consumer :=
        (Function.update_of_ne hsame ..).symm.trans hsome
      have ⟨hlt, honly⟩ := h.consumed queue consumer hsome'
      refine ⟨hlt, ?_⟩
      intro other hother
      have ⟨heq, hold⟩ := honly other (queue?_update hkeeps hother)
      refine ⟨heq, ?_⟩
      have hne : consumer ≠ conn := by
        intro hconn
        rw [hconn, hrpc] at hold
        cases hold
      exact (congrArg Rpc.consumes? (Function.update_of_ne hne ..)).trans hold
  · exact h.once
  · intro queue hpos
    apply h.owner_update hpos
    intro queue hawaits _
    rw [hrpc] at hawaits
    exact hawaits
  · exact h.arrived_update (h.arrived_eq_nil (by rw [hrpc]; rfl))

theorem giveUp (h : OneReply network) (hawaits : (network.rpc conn).awaits? = none) :
    OneReply (network.setRpc conn .idle) := by
  have hconsumes : (network.rpc conn).consumes? = none := by
    cases hrpc : network.rpc conn with
    | waiting ctx replyTo =>
        rw [hrpc] at hawaits
        cases hawaits
    | _ => rfl
  refine h.setRpc rfl rfl rfl ?_ ?_ ?_ ?_ ?_
  · intro queue hqueue
    cases hqueue
  · intro queue hqueue
    cases hqueue
  · exact h.once
  · intro queue hpos
    apply h.owner_update hpos
    intro queue hsome
    rw [hawaits] at hsome
    cases hsome
  · exact h.arrived_update (h.arrived_eq_nil hconsumes)

/-- The delivery that a call reads is of its own queue, and the only one. -/
theorem own_delivery (h : OneReply network) {ctx : PowRemoteContext} {replyTo : Nat}
    {delivery : Delivery} {rest : List Delivery} (hrpc : network.rpc conn = .waiting ctx replyTo)
    (harrived : network.arrived conn = delivery :: rest) :
    delivery.queue = replyTo ∧ rest = [] := by
  cases h.arrived conn with
  | inl hempty =>
      rw [hempty] at harrived
      cases harrived
  | inr hdelivery =>
      have ⟨own, hconsumes, hown⟩ := hdelivery
      rw [hown] at harrived
      cases harrived
      rw [hrpc] at hconsumes
      exact ⟨(Option.some.inj hconsumes).symm, rfl⟩

theorem take (h : OneReply network) {ctx : PowRemoteContext} {replyTo : Nat}
    {delivery : Delivery} {rest : List Delivery} (hrpc : network.rpc conn = .waiting ctx replyTo)
    (harrived : network.arrived conn = delivery :: rest) :
    OneReply { network.setRpc conn .idle with
      arrived := Function.update network.arrived conn rest
      returned := { ctx with outputTrytes := delivery.body } :: network.returned } := by
  have ⟨_, hrest⟩ := h.own_delivery hrpc harrived
  subst hrest
  refine h.setRpc rfl rfl rfl ?_ ?_ ?_ ?_ ?_
  · intro queue hqueue
    cases hqueue
  · intro queue hqueue
    cases hqueue
  · exact h.once
  · intro queue hpos
    have ⟨other, hawaits, hempty⟩ := h.owner queue hpos
    have hne : other ≠ conn := by
      intro hsame
      rw [hsame, harrived] at hempty
      cases hempty
    exact ⟨other, (congrArg Rpc.awaits? (Function.update_of_ne hne ..)).trans hawaits,
      (Function.update_of_ne hne ..).trans hempty⟩
  · intro other
    by_cases hsame : other = conn
    · left
      rw [hsame]
      exact Function.update_self ..
    · cases h.arrived other with
      | inl hempty => exact Or.inl ((Function.update_of_ne hsame ..).trans hempty)
      | inr hdelivery =>
          have ⟨own, hconsumes, hown⟩ := hdelivery
          exact Or.inr ⟨own, (congrArg Rpc.consumes? (Function.update_of_ne hsame ..)).trans
            hconsumes, (Function.update_of_ne hsame ..).trans hown⟩

theorem deliver (h : OneReply network) {k : Nat} {delivery : Delivery}
    (hk : network.queued[k]? = some delivery)
    (hconsumer : network.consumer delivery.queue = some conn) :
    OneReply { network with
      queued := network.queued.eraseIdx k
      arrived := Function.update network.arrived conn (network.arrived conn ++ [delivery]) } := by
  have hdue := due_eraseIdx hk
  have hone := hdue delivery.queue
  rw [if_pos (beq_self_eq_true delivery.queue)] at hone
  have ⟨owner, hawaits, hempty⟩ := h.owner delivery.queue (by omega)
  have ⟨_, honly⟩ := h.consumed delivery.queue conn hconsumer
  have ⟨hsame, hconsumes⟩ := honly owner (Rpc.queue?_of_awaits? hawaits)
  subst hsame
  rw [hempty, List.nil_append]
  refine ⟨h.fresh, h.unique, h.consumed, ?_, ?_, ?_⟩
  · intro queue
    exact (Nat.le_add_right _ _).trans ((hdue queue).le.trans (h.once queue))
  · intro queue hpos
    have hle : due { network with queued := network.queued.eraseIdx k } queue ≤
        network.due queue := (Nat.le_add_right _ _).trans (hdue queue).le
    have ⟨other, hother, hnothing⟩ := h.owner queue (Nat.lt_of_lt_of_le hpos hle)
    have hne : other ≠ owner := by
      intro heq
      rw [heq, hawaits] at hother
      rw [← Option.some.inj hother] at hpos
      have honce := h.once delivery.queue
      change 0 < due { network with queued := network.queued.eraseIdx k } delivery.queue at hpos
      omega
    exact ⟨other, hother, (Function.update_of_ne hne ..).trans hnothing⟩
  · intro other
    by_cases heq : other = owner
    · subst heq
      exact Or.inr ⟨delivery, hconsumes, Function.update_self ..⟩
    · cases h.arrived other with
      | inl hnothing => exact Or.inl ((Function.update_of_ne heq ..).trans hnothing)
      | inr hdelivery =>
          have ⟨own, hown, hlist⟩ := hdelivery
          exact Or.inr ⟨own, hown, (Function.update_of_ne heq ..).trans hlist⟩

theorem step (h : OneReply network) {action : NetworkAction} (hprompt : network.Prompt action)
    (hstep : network.step action = some next) : OneReply next := by
  cases steps_of_step hstep with
  | declare hrpc => exact h.declare hrpc _
  | publish hrpc => exact h.publish hrpc
  | consume hrpc => exact h.consume hrpc
  | take hrpc harrived => exact h.take hrpc harrived
  | giveUp _ => exact h.giveUp hprompt
  | work hk => exact h.move rfl rfl rfl rfl fun queue => (due_work hk queue).le
  | answer hk => exact h.move rfl rfl rfl rfl fun queue => (due_answer hk _ queue).le
  | deliver hk hconsumer => exact h.deliver hk hconsumer
  | expire hk =>
      exact h.move rfl rfl rfl rfl fun queue =>
        (Nat.le_add_right _ _).trans (due_eraseIdx hk queue).le

theorem takesOwn (h : OneReply network) (htraced : Traced network) (action : NetworkAction) :
    network.TakesOwn action := by
  cases action with
  | take conn =>
      intro ctx replyTo delivery rest hrpc harrived
      have hdeclared := htraced.rpc conn
      rw [hrpc] at hdeclared
      rw [(h.own_delivery hrpc harrived).1]
      exact hdeclared
  | _ => trivial

end OneReply

/-- As long as no call gives up on a request that it has published, every result
belongs to its own request, whatever the delays and the order of the workers. -/
theorem answersOwn_of_prompt {actions : List NetworkAction} {final : Network}
    (hprompt : Machine.Along Prompt step start actions)
    (hrun : Machine.run step start actions = some final) : final.AnswersOwn := by
  have hstart : OneReply start ∧ Traced start ∧ start.AnswersOwn :=
    ⟨OneReply.start, Traced.start, fun _ hmem => absurd hmem List.not_mem_nil⟩
  have hfinal := Machine.run_invariant_along Prompt
    (fun network => OneReply network ∧ Traced network ∧ network.AnswersOwn)
    (fun network action next h hallowed hnext => ⟨h.1.step hallowed hnext, h.2.1.step hnext,
      h.2.2.step h.2.1 (h.1.takesOwn h.2.1 action) hnext⟩) hstart hprompt hrun
  exact hfinal.2.2

end Network

end Dcurl
