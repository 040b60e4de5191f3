import Dcurl.RemoteRequest
import Dcurl.Library.Machine

/-! The service loop of `remote_worker` and the broker it serves. A delivery is
acknowledged before its result is published, and every exit leaves the loop where it
stands. -/
namespace Dcurl

open Library

namespace RemoteWorker

structure Message (Queue : Type) where
  body : List Int8
  replyTo : Queue

inductive Phase (Queue : Type) where
  | consuming
  | computing (message : Message Queue) (trytes : Vector Int8 2673) (mwm : Int)
  /-- `dcurl_entry` returned; none for `NULL`. -/
  | acknowledging (message : Message Queue) (ret : Option (Vector Int8 2673))
  | publishing (message : Message Queue) (ret : Option (Vector Int8 2673))
  /-- After `goto fail`. -/
  | failed
  | stopped
  /-- After `amqp_cstring_bytes(NULL)`. -/
  | crashed

structure State (Queue : Type) where
  phase : Phase Queue
  /-- `incoming_queue`, without the delivery that is not acknowledged. -/
  ready : List (Message Queue)
  unacked : Option (Message Queue)
  acked : List (Message Queue)
  /-- The requests whose results went to their `reply_to`, with the results. -/
  published : List (Message Queue × Vector Int8 2673)

/-- What the loop and its surroundings do; the flag says whether a call succeeds. -/
inductive Action (Queue Choice : Type) where
  | arrive (message : Message Queue)
  | consume (ok : Bool) (following : Nat → Int8)
  | compute (choice : Choice)
  | acknowledge (ok : Bool)
  | publish (ok : Bool)
  | stop
  /-- The connection has ended, and the next worker starts. -/
  | restart

def Phase.running {Queue : Type} : Phase Queue → Bool
  | .failed => false
  | .stopped => false
  | .crashed => false
  | _ => true

def Phase.hasCrashed {Queue : Type} : Phase Queue → Bool
  | .crashed => true
  | _ => false

def Action.acknowledges {Queue Choice : Type} : Action Queue Choice → Bool
  | .acknowledge ok => ok
  | _ => false

variable {Queue Choice : Type}

def start : State Queue := ⟨.consuming, [], none, [], []⟩

/-- One step. `dcurl_entry` is an argument, and none where it does not return. The result goes
out as its 2673 bytes; the `strlen` of `publish_message`, which may read on behind them, is
left out. -/
def step (dcurlEntry : Choice → Vector Int8 2673 → Int → Option (Option (Vector Int8 2673)))
    (state : State Queue) : Action Queue Choice → Option (State Queue)
  | .arrive message => some { state with ready := state.ready ++ [message] }
  | .consume ok following =>
      match state.phase with
      | .consuming =>
          if ok then
            match state.ready with
            | [] => none
            | message :: rest =>
                (decodeRequest (receiveBuffer message.body following)).map fun (trytes, mwm) =>
                  { state with
                    phase := .computing message trytes mwm
                    ready := rest
                    unacked := some message }
          else some { state with phase := .failed }
      | _ => none
  | .compute choice =>
      match state.phase with
      | .computing message trytes mwm =>
          (dcurlEntry choice trytes mwm).map fun ret =>
            { state with phase := .acknowledging message ret }
      | _ => none
  | .acknowledge ok =>
      match state.phase with
      | .acknowledging message ret =>
          if ok then
            some { state with
              phase := .publishing message ret
              unacked := none
              acked := state.acked ++ [message] }
          else some { state with phase := .failed }
      | _ => none
  | .publish ok =>
      match state.phase with
      | .publishing message ret =>
          match ret with
          | none => some { state with phase := .crashed }
          | some result =>
              if ok then
                some { state with
                  phase := .consuming
                  published := state.published ++ [(message, result)] }
              else some { state with phase := .failed }
      | _ => none
  | .stop => if state.phase.running then some { state with phase := .stopped } else none
  | .restart =>
      if state.phase.running then none
      else
        some { state with
          phase := .consuming
          ready := state.unacked.toList ++ state.ready
          unacked := none }

/-- Every acknowledged request has a result at its `reply_to`, and the loop has not
crashed. -/
def State.Safe (state : State Queue) : Prop :=
  List.Subperm state.acked (state.published.map Prod.fst) ∧ state.phase.hasCrashed = false

def Phase.owes : Phase Queue → Nat
  | .publishing _ _ => 1
  | _ => 0

variable {dcurlEntry : Choice → Vector Int8 2673 → Int → Option (Option (Vector Int8 2673))}
  {state next final : State Queue} {action : Action Queue Choice}
  {actions : List (Action Queue Choice)}

inductive Steps (state : State Queue) : Action Queue Choice → State Queue → Prop
  | arrive (message : Message Queue) :
      Steps state (.arrive message) { state with ready := state.ready ++ [message] }
  | consume {message : Message Queue} {rest : List (Message Queue)} {following : Nat → Int8}
      {trytes : Vector Int8 2673} {mwm : Int} (hphase : state.phase = .consuming)
      (hready : state.ready = message :: rest) :
      Steps state (.consume true following) { state with
        phase := .computing message trytes mwm
        ready := rest
        unacked := some message }
  | compute {choice : Choice} {message : Message Queue} {trytes : Vector Int8 2673} {mwm : Int}
      {ret : Option (Vector Int8 2673)} (hphase : state.phase = .computing message trytes mwm) :
      Steps state (.compute choice) { state with phase := .acknowledging message ret }
  | acknowledge {message : Message Queue} {ret : Option (Vector Int8 2673)}
      (hphase : state.phase = .acknowledging message ret) :
      Steps state (.acknowledge true) { state with
        phase := .publishing message ret
        unacked := none
        acked := state.acked ++ [message] }
  | publish {message : Message Queue} {result : Vector Int8 2673}
      (hphase : state.phase = .publishing message (some result)) :
      Steps state (.publish true) { state with
        phase := .consuming
        published := state.published ++ [(message, result)] }
  | crash {ok : Bool} {message : Message Queue} (hphase : state.phase = .publishing message none) :
      Steps state (.publish ok) { state with phase := .crashed }
  /-- A call fails, or the process stops. -/
  | leave {action : Action Queue Choice} {phase : Phase Queue}
      (haction : action.acknowledges = false) (hended : phase.running = false)
      (hcrash : phase.hasCrashed = false) :
      Steps state action { state with phase := phase }
  | restart (hended : state.phase.running = false) :
      Steps state .restart { state with
        phase := .consuming
        ready := state.unacked.toList ++ state.ready
        unacked := none }

theorem steps_of_step (hstep : step dcurlEntry state action = some next) :
    Steps state action next := by
  unfold step at hstep
  cases action with
  | arrive message =>
      cases hstep
      exact .arrive message
  | consume ok following =>
      simp only at hstep
      split at hstep
      · rename_i hphase
        cases ok with
        | false =>
            cases hstep
            exact .leave rfl rfl rfl
        | true =>
            rw [if_pos rfl] at hstep
            split at hstep
            · cases hstep
            · rename_i message rest hready
              have ⟨(trytes, mwm), _, heq⟩ := Option.map_eq_some_iff.mp hstep
              cases heq
              exact .consume hphase hready
      · cases hstep
  | compute choice =>
      simp only at hstep
      split at hstep
      · rename_i hphase
        have ⟨ret, _, heq⟩ := Option.map_eq_some_iff.mp hstep
        cases heq
        exact .compute hphase
      · cases hstep
  | acknowledge ok =>
      simp only at hstep
      split at hstep
      · rename_i hphase
        cases ok with
        | false =>
            cases hstep
            exact .leave rfl rfl rfl
        | true =>
            cases hstep
            exact .acknowledge hphase
      · cases hstep
  | publish ok =>
      simp only at hstep
      split at hstep
      · rename_i ret hphase
        cases ret with
        | none =>
            cases hstep
            exact .crash hphase
        | some result =>
            cases ok with
            | false =>
                cases hstep
                exact .leave rfl rfl rfl
            | true =>
                cases hstep
                exact .publish hphase
      · cases hstep
  | stop =>
      simp only at hstep
      split at hstep
      · cases hstep
        exact .leave rfl rfl rfl
      · cases hstep
  | restart =>
      simp only at hstep
      split at hstep
      · cases hstep
      · rename_i hended
        cases hstep
        exact .restart (Bool.not_eq_true _ ▸ hended)

theorem Phase.owes_of_ended {phase : Phase Queue} (hended : phase.running = false) :
    phase.owes = 0 := by
  cases phase with
  | publishing message ret => cases hended
  | _ => rfl

/-- There are never more results than acknowledged requests. -/
theorem owes_le (hrun : Machine.run (step dcurlEntry) start actions = some final) :
    final.published.length + final.phase.owes ≤ final.acked.length := by
  apply Machine.run_invariant (fun state : State Queue =>
    state.published.length + state.phase.owes ≤ state.acked.length) _ (Nat.zero_le _) hrun
  intro state action next h hstep
  cases steps_of_step hstep with
  | arrive message => exact h
  | consume hphase hready => exact Nat.le_of_add_right_le h
  | compute hphase => exact Nat.le_of_add_right_le h
  | acknowledge hphase =>
      rw [List.length_append]
      exact Nat.add_le_add (Nat.le_of_add_right_le h) (le_refl 1)
  | publish hphase =>
      rw [hphase] at h
      rw [List.length_append]
      exact h
  | crash hphase => exact Nat.le_of_add_right_le h
  | leave haction hended hcrash =>
      change state.published.length + _ ≤ state.acked.length
      rw [Phase.owes_of_ended hended]
      exact Nat.le_of_add_right_le h
  | restart hended => exact Nat.le_of_add_right_le h

theorem not_safe_of_acknowledge
    (hrun : Machine.run (step dcurlEntry) start actions = some state)
    (hstep : step dcurlEntry state (.acknowledge true) = some next) : ¬next.Safe := by
  intro hsafe
  have hle := owes_le hrun
  have hlength := hsafe.1.length_le
  cases steps_of_step hstep with
  | leave haction => cases haction
  | acknowledge hphase =>
      rw [List.length_append, List.length_map, List.length_singleton] at hlength
      change state.acked.length + 1 ≤ state.published.length at hlength
      omega

theorem safe_of_not_acknowledged (hnone : .acknowledge true ∉ actions)
    (hrun : Machine.run (step dcurlEntry) start actions = some final) : final.Safe := by
  have hquiet : final.acked = [] ∧ final.phase.owes = 0 ∧
      final.phase.hasCrashed = false := by
    apply Machine.run_invariant_along (fun _ action => action.acknowledges = false)
      (fun state : State Queue =>
        state.acked = [] ∧ state.phase.owes = 0 ∧ state.phase.hasCrashed = false)
      _ ⟨rfl, rfl, rfl⟩ _ hrun
    · intro state action next h hallowed hstep
      have ⟨hacked, howes, hcrashed⟩ := h
      cases steps_of_step hstep with
      | arrive message => exact h
      | consume hphase hready => exact ⟨hacked, rfl, rfl⟩
      | compute hphase => exact ⟨hacked, rfl, rfl⟩
      | acknowledge hphase => cases hallowed
      | publish hphase =>
          rw [hphase] at howes
          cases howes
      | crash hphase =>
          rw [hphase] at howes
          cases howes
      | leave haction hended hcrash =>
          exact ⟨hacked, Phase.owes_of_ended hended, hcrash⟩
      | restart hended => exact ⟨hacked, rfl, rfl⟩
    · apply Machine.along_of_forall
      intro action hmem
      cases action with
      | acknowledge ok =>
          cases ok with
          | false => rfl
          | true => exact absurd hmem hnone
      | _ => rfl
  unfold State.Safe
  rw [hquiet.1]
  exact ⟨List.nil_subperm, hquiet.2.2⟩

/-- Every state of a run keeps all requests exactly when no request is acknowledged
in it: the acknowledgement comes before the result. -/
theorem requests_kept_iff
    (dcurlEntry : Choice → Vector Int8 2673 → Int → Option (Option (Vector Int8 2673)))
    (actions : List (Action Queue Choice)) (final : State Queue)
    (hrun : Machine.run (step dcurlEntry) start actions = some final) :
    (∀ before after state, actions = before ++ after →
      Machine.run (step dcurlEntry) start before = some state → state.Safe) ↔
      .acknowledge true ∉ actions := by
  constructor
  · intro hsafe hmem
    obtain ⟨before, after, rfl⟩ := List.append_of_mem hmem
    rw [Machine.run_append] at hrun
    have ⟨state, hbefore, hrest⟩ := Option.bind_eq_some_iff.mp hrun
    have ⟨next, hstep, _⟩ := Option.bind_eq_some_iff.mp hrest
    apply not_safe_of_acknowledge hbefore hstep
    apply hsafe (before ++ [.acknowledge true]) after next (by simp)
    rw [Machine.run_append_of_eq _ hbefore, Machine.run_cons, hstep]
    rfl
  · intro hnone before after state heq hbefore
    apply safe_of_not_acknowledged _ hbefore
    intro hmem
    exact hnone (heq ▸ List.mem_append_left _ hmem)

section witness

def zeroMessage : Message Unit := ⟨(Vector.replicate 2673 (0 : Int8)).toList ++ decimal 14, ()⟩

/-- The worker takes the request, gets no result for it, acknowledges it and replies. -/
def nullActions : List (Action Unit Unit) :=
  [.arrive zeroMessage, .consume true fun _ => 0, .compute (), .acknowledge true, .publish true]

theorem nullActions_run : Machine.run (step fun _ _ _ => some none) start nullActions =
    some ⟨.crashed, [], none, [zeroMessage], []⟩ := by
  have hdecode : decodeRequest (receiveBuffer zeroMessage.body fun _ => 0) =
      some (Vector.replicate 2673 0, 14) := by
    unfold zeroMessage
    rw [decodeRequest_eq (by decide)]
    rfl
  unfold nullActions start
  simp only [Machine.run, step, List.nil_append, Option.bind_some, if_true, hdecode,
    Option.map_some]

theorem requests_kept_iff_null :
    (∀ before after state, nullActions = before ++ after →
      Machine.run (step fun _ _ _ => some none) start before = some state → state.Safe) ↔
      .acknowledge true ∉ nullActions :=
  requests_kept_iff _ nullActions _ nullActions_run

/-- The request is acknowledged, nothing is published, and the worker has crashed. -/
theorem not_safe_null : ¬∀
    (dcurlEntry : Unit → Vector Int8 2673 → Int → Option (Option (Vector Int8 2673)))
    (actions : List (Action Unit Unit)) (final : State Unit),
    Machine.run (step dcurlEntry) start actions = some final → final.Safe := by
  intro h
  have hsafe := h _ nullActions _ nullActions_run
  cases hsafe.2

end witness

end RemoteWorker

end Dcurl
