import Mathlib.Data.List.TakeWhile
import Dcurl.Registry

/-! `remote_init` and `remote_destroy` with the connections that `connect_broker` opens
and `disconnect_broker` closes, through any calls of `dcurl_init` and `dcurl_destroy` that
take turns. -/
namespace Dcurl

open Library

inductive Connect where
  | noSocket
  | closed
  | loginFails
  | channelFails
  | accepts
  deriving DecidableEq

structure Broker where
  connects : Nat → Connect
  declares : Bool

def Broker.accepts (broker : Broker) (slot : Nat) : Bool := decide (broker.connects slot = .accepts)

/-- `conn` of `remote_context`, and the connections that are open. -/
structure Connections where
  conn : Nat → Option Nat
  opened : Finset Nat
  nextHandle : Nat

namespace Connections

def start : Connections := ⟨fun _ => none, ∅, 0⟩

def newConnection (slot : Nat) (connections : Connections) : Connections :=
  { connections with
    conn := Function.update connections.conn slot (some connections.nextHandle)
    nextHandle := connections.nextHandle + 1 }

def socketOpen (handle : Nat) (connections : Connections) : Connections :=
  { connections with opened := insert handle connections.opened }

/-- `amqp_destroy_connection`, which `amqp_connection_close` always comes before where the
connection is open. -/
def destroyConnection (handle : Nat) (connections : Connections) : Connections :=
  { connections with opened := connections.opened.erase handle }

def connectBroker (slot : Nat) (connect : Connect) (connections : Connections) :
    Bool × Connections :=
  let handle := connections.nextHandle
  let connections := connections.newConnection slot
  match connect with
  | .noSocket => (false, connections.destroyConnection handle)
  | .closed => (false, connections.destroyConnection handle)
  | .loginFails => (false, (connections.socketOpen handle).destroyConnection handle)
  | .channelFails => (false, (connections.socketOpen handle).destroyConnection handle)
  | .accepts => (true, connections.socketOpen handle)

/-- None for a connection that is not open: its memory is gone. -/
def disconnectBroker (connections : Connections) (slot : Nat) : Option Connections :=
  (connections.conn slot).bind fun handle =>
    if handle ∈ connections.opened then some (connections.destroyConnection handle) else none

def slots : List Nat := List.range connMax.toNat

def connectAll (broker : Broker) : List Nat → Connections → Bool × Connections
  | [], connections => (true, connections)
  | slot :: rest, connections =>
      match connections.connectBroker slot (broker.connects slot) with
      | (true, connections) => connectAll broker rest connections
      | (false, connections) => (false, connections)

/-- `fail_to_init` frees the contexts and no connection. -/
def remoteInit (broker : Broker) (connections : Connections) : Bool × Connections :=
  if connMax ≤ 0 then (false, connections)
  else match connectAll broker slots connections with
    | (false, connections) => (false, connections)
    | (true, connections) => (broker.declares, connections)

def remoteDestroy (connections : Connections) : Option Connections :=
  slots.foldlM disconnectBroker connections

/-- Each of these slots has an open connection of its own, and no other is open. -/
def Filled (connections : Connections) (slots : List Nat) : Prop :=
  ∃ handles : List Nat, slots.map connections.conn = handles.map some ∧ handles.Nodup ∧
    connections.opened = handles.toFinset ∧ ∀ handle ∈ handles, handle < connections.nextHandle

section slots

variable {connections : Connections} {slot : Nat} {filled rest : List Nat}

theorem start_filled : start.Filled [] := ⟨[], rfl, List.nodup_nil, rfl, by simp⟩

theorem Filled.card (h : connections.Filled filled) : connections.opened.card = filled.length := by
  have ⟨handles, hconn, hnodup, hopened, _⟩ := h
  have hlength := congrArg List.length hconn
  rw [List.length_map, List.length_map] at hlength
  rw [hopened, List.toFinset_card_of_nodup hnodup, hlength]

theorem Filled.nil_of_card (h : connections.Filled filled)
    (hcard : connections.opened.card = 0) : connections.Filled [] := by
  rw [h.card, List.length_eq_zero_iff] at hcard
  rw [← hcard]
  exact h

theorem Filled.newConnection (h : connections.Filled filled) (hslot : slot ∉ filled) :
    (connections.newConnection slot).Filled filled ∧
      connections.nextHandle ∉ connections.opened := by
  have ⟨handles, hconn, hnodup, hopened, hlt⟩ := h
  refine ⟨⟨handles, ?_, hnodup, hopened, ?_⟩, ?_⟩
  · rw [← hconn]
    apply List.map_congr_left
    intro other hother
    apply Function.update_of_ne
    intro heq
    exact hslot (heq ▸ hother)
  · exact fun handle hmem => Nat.lt_succ_of_lt (hlt handle hmem)
  · rw [hopened, List.mem_toFinset]
    intro hmem
    exact Nat.lt_irrefl _ (hlt _ hmem)

theorem destroyConnection_newConnection (hfresh : connections.nextHandle ∉ connections.opened)
    (slot : Nat) :
    (connections.newConnection slot).destroyConnection connections.nextHandle =
      connections.newConnection slot := by
  unfold destroyConnection
  rw [show (connections.newConnection slot).opened = connections.opened from rfl,
    Finset.erase_eq_of_notMem hfresh]
  rfl

theorem destroyConnection_socketOpen (hfresh : connections.nextHandle ∉ connections.opened)
    (slot : Nat) :
    ((connections.newConnection slot).socketOpen
      connections.nextHandle).destroyConnection connections.nextHandle =
        connections.newConnection slot := by
  unfold destroyConnection socketOpen
  rw [show (connections.newConnection slot).opened = connections.opened from rfl,
    Finset.erase_insert hfresh]
  rfl

theorem Filled.socketOpen (h : connections.Filled filled) (hslot : slot ∉ filled) :
    ((connections.newConnection slot).socketOpen connections.nextHandle).Filled
      (filled ++ [slot]) := by
  have ⟨⟨handles, hconn, hnodup, hopened, hlt⟩, hfresh⟩ := h.newConnection hslot
  have hopened' : connections.opened = handles.toFinset := hopened
  rw [hopened', List.mem_toFinset] at hfresh
  refine ⟨handles ++ [connections.nextHandle], ?_, ?_, ?_, ?_⟩
  · rw [List.map_append, List.map_append]
    apply congrArg₂ _ hconn
    rw [List.map_singleton, List.map_singleton]
    apply congrArg (fun handle => [handle])
    exact Function.update_self slot (some connections.nextHandle) connections.conn
  · rw [← List.concat_eq_append]
    exact hnodup.concat hfresh
  · show insert connections.nextHandle connections.opened = _
    rw [List.toFinset_append, hopened', Finset.insert_eq, Finset.union_comm]
    rfl
  · intro handle hmem
    cases List.mem_append.mp hmem with
    | inl hold => exact hlt handle hold
    | inr hone =>
        rw [List.mem_singleton.mp hone]
        exact Nat.lt_succ_self _

theorem Filled.connectBroker (h : connections.Filled filled) (hslot : slot ∉ filled)
    (connect : Connect) :
    (connections.connectBroker slot connect).1 = decide (connect = .accepts) ∧
      (connections.connectBroker slot connect).2.Filled
        (if connect = .accepts then filled ++ [slot] else filled) := by
  have ⟨hnew, hfresh⟩ := h.newConnection hslot
  cases connect with
  | noSocket | closed =>
      refine ⟨rfl, ?_⟩
      show ((connections.newConnection slot).destroyConnection connections.nextHandle).Filled filled
      rw [destroyConnection_newConnection hfresh]
      exact hnew
  | loginFails | channelFails =>
      refine ⟨rfl, ?_⟩
      show (((connections.newConnection slot).socketOpen
        connections.nextHandle).destroyConnection connections.nextHandle).Filled filled
      rw [destroyConnection_socketOpen hfresh]
      exact hnew
  | accepts => exact ⟨rfl, h.socketOpen hslot⟩

/-- The loop fills the slots up to the first attempt that fails. -/
theorem Filled.connectAll (h : connections.Filled filled) (broker : Broker)
    (hnodup : (filled ++ rest).Nodup) :
    (Connections.connectAll broker rest connections).1 = rest.all broker.accepts ∧
      (Connections.connectAll broker rest connections).2.Filled
        (filled ++ rest.takeWhile broker.accepts) := by
  induction rest generalizing connections filled with
  | nil =>
      rw [List.takeWhile_nil, List.append_nil]
      exact ⟨rfl, h⟩
  | cons slot rest ih =>
      have hslot : slot ∉ filled := by
        intro hmem
        exact (List.nodup_append.mp hnodup).2.2 slot hmem slot List.mem_cons_self rfl
      have ⟨hret, hfilled⟩ := h.connectBroker hslot (broker.connects slot)
      unfold Connections.connectAll
      rw [List.all_cons, List.takeWhile_cons]
      generalize connections.connectBroker slot (broker.connects slot) = result at hret hfilled
      obtain ⟨ret, connections'⟩ := result
      dsimp only at hret hfilled
      by_cases haccepts : broker.connects slot = .accepts
      · rw [decide_eq_true haccepts] at hret
        rw [if_pos haccepts] at hfilled
        rw [List.append_cons] at hnodup
        rw [show broker.accepts slot = true from decide_eq_true haccepts]
        have ⟨hall, hrest⟩ := ih hfilled hnodup
        rw [hret, if_pos rfl, Bool.true_and, List.append_cons]
        exact ⟨hall, hrest⟩
      · rw [decide_eq_false haccepts] at hret
        rw [if_neg haccepts] at hfilled
        rw [show broker.accepts slot = false from decide_eq_false haccepts]
        rw [hret, if_neg Bool.false_ne_true, Bool.false_and, List.append_nil]
        exact ⟨rfl, hfilled⟩

theorem Filled.disconnectBroker (h : connections.Filled (slot :: rest)) :
    ∃ next, connections.disconnectBroker slot = some next ∧ next.Filled rest := by
  obtain ⟨handles, hconn, hnodup, hopened, hlt⟩ := h
  cases handles with
  | nil => cases hconn
  | cons handle handles =>
      rw [List.map_cons, List.map_cons] at hconn
      injection hconn with hhead htail
      have ⟨hfresh, hrest⟩ := List.nodup_cons.mp hnodup
      rw [List.toFinset_cons] at hopened
      unfold Connections.disconnectBroker
      rw [hhead, Option.bind_some, hopened, if_pos (Finset.mem_insert_self _ _)]
      refine ⟨_, rfl, handles, htail, hrest, ?_, ?_⟩
      · show connections.opened.erase handle = _
        rw [hopened, Finset.erase_insert]
        rwa [List.mem_toFinset]
      · exact fun other hother => hlt other (List.mem_cons_of_mem _ hother)

theorem Filled.disconnectAll (h : connections.Filled rest) :
    ∃ next, rest.foldlM Connections.disconnectBroker connections = some next ∧
      next.Filled [] := by
  induction rest generalizing connections with
  | nil => exact ⟨connections, rfl, h⟩
  | cons slot rest ih =>
      have ⟨middle, hmiddle, hfilled⟩ := h.disconnectBroker
      have ⟨next, hnext, hempty⟩ := ih hfilled
      refine ⟨next, ?_, hempty⟩
      rw [List.foldlM_cons, hmiddle]
      exact hnext

theorem Filled.remoteInit (h : connections.Filled []) (broker : Broker) :
    (connections.remoteInit broker).1 = (slots.all broker.accepts && broker.declares) ∧
      (connections.remoteInit broker).2.Filled (slots.takeWhile broker.accepts) := by
  have ⟨hret, hfilled⟩ := h.connectAll broker (show ([] ++ slots).Nodup from List.nodup_range)
  unfold Connections.remoteInit
  rw [if_neg (by decide), ← hret]
  generalize Connections.connectAll broker slots connections = result at hfilled ⊢
  obtain ⟨ret, connections'⟩ := result
  cases ret <;> exact ⟨rfl, hfilled⟩

end slots

end Connections

/-- The broker takes all of the connections and the queue, or not even the first
connection. -/
def Broker.AllOrNone (broker : Broker) : Prop :=
  (Connections.slots.all broker.accepts && broker.declares) = true ∨ broker.accepts 0 = false

structure Process where
  registry : Registry
  connections : Connections

structure Start where
  hardware : Hardware
  broker : Broker

namespace Process

def start : Process := ⟨.start, .start⟩

def dcurlInit (build : Build) (process : Process) (start : Start) : Option Process :=
  let (res, connections) :=
    if build.remote then process.connections.remoteInit start.broker
    else (false, process.connections)
  (Registry.dcurlInit build { start.hardware with brokerConnects := res } process.registry).map
    fun registry => ⟨registry, connections⟩

def dcurlDestroy (build : Build) (process : Process) : Option Process :=
  (Registry.dcurlDestroy build process.registry).bind fun ((remotes, _), registry) =>
    (remotes.foldlM (fun connections _ => Connections.remoteDestroy connections)
      process.connections).map fun connections => ⟨registry, connections⟩

/-- `dcurl_init`, and `dcurl_destroy` before the next. -/
def step (build : Build) (process : Process) (start : Start) : Option Process :=
  (process.dcurlInit build start).bind fun up => up.dcurlDestroy build

/-- Every connection is open where the remote implementation was registered, and none
otherwise or after `dcurl_destroy`. -/
def AllOrNothing (build : Build) (process : Process) (start : Start) : Prop :=
  ∃ up down, process.dcurlInit build start = some up ∧ up.dcurlDestroy build = some down ∧
    (up.connections.opened.card : Int) = (if up.registry.remote.live () then connMax else 0) ∧
      down.connections.opened.card = 0

structure Idle (build : Build) (process : Process) : Prop where
  ordered : process.registry.Ordered build
  impls : ∀ impl, process.registry.impls.live impl = false
  remote : ∀ remote, process.registry.remote.live remote = false
  closed : process.connections.Filled []

structure Up (build : Build) (broker : Broker) (up : Process) : Prop where
  ordered : up.registry.Ordered build
  registered : up.registry.remote.live () =
    (build.remote && (Connections.slots.all broker.accepts && broker.declares))
  filled : up.connections.Filled
    (if build.remote then Connections.slots.takeWhile broker.accepts else [])

section round

variable {build : Build} {process up down : Process} {start : Start} {broker : Broker}

theorem start_idle (build : Build) : Process.start.Idle build :=
  ⟨Registry.start_ordered build, fun _ => rfl, fun _ => rfl, Connections.start_filled⟩

theorem Idle.registryInit (h : process.Idle build) (hardware : Hardware) :
    ∃ next, Registry.dcurlInit build hardware process.registry = some next ∧
      next.Ordered build ∧ next.remote.live () = (build.remote && remoteInit hardware) := by
  have hfresh : process.registry.Fresh build (.init hardware) :=
    ⟨fun impl _ _ => h.impls impl, fun remote _ _ => h.remote remote⟩
  have ⟨next, hinit, hwell⟩ := h.ordered.init hfresh
  have ⟨other, hother, _, hinitialized⟩ := h.ordered.wellFormed.kept.init build hardware
  rw [hinit] at hother
  cases hother
  have hstep : Registry.step build process.registry (.init hardware) = some next := hinit
  refine ⟨next, hinit, h.ordered.step hwell hstep, ?_⟩
  have hlist := hinitialized.remote
  unfold Build.remotes at hlist
  cases hbuild : build.remote with
  | false => rw [hinitialized.remote_eq hbuild, h.remote, Bool.false_and]
  | true =>
      rw [hbuild, if_pos rfl, ContextList.registerAll_cons] at hlist
      have ⟨list, hregister, heq⟩ := Option.bind_eq_some_iff.mp hlist
      rw [← Option.some.inj heq, Bool.true_and]
      cases hremote : remoteInit hardware with
      | false =>
          rw [hremote, ContextList.register_false] at hregister
          rw [← Option.some.inj hregister, h.remote]
      | true =>
          have ⟨list', hlist', _, hlive⟩ :=
            ContextList.register_wellFormed h.ordered.wellFormed.2 (h.remote ())
          rw [hremote, hlist'] at hregister
          rw [← Option.some.inj hregister, hlive, Function.update_self]

theorem Idle.dcurlInit (h : process.Idle build) (start : Start) :
    ∃ up, process.dcurlInit build start = some up ∧ Up build start.broker up := by
  unfold Process.dcurlInit
  cases hbuild : build.remote with
  | false =>
      have ⟨next, hinit, hordered, hlive⟩ :=
        h.registryInit { start.hardware with brokerConnects := false }
      rw [hbuild, Bool.false_and] at hlive
      rw [if_neg Bool.false_ne_true]
      dsimp only
      rw [hinit, Option.map_some]
      refine ⟨_, rfl, hordered, ?_, ?_⟩
      · rw [hbuild, Bool.false_and]
        exact hlive
      · rw [hbuild, if_neg Bool.false_ne_true]
        exact h.closed
  | true =>
      have ⟨hret, hfilled⟩ := h.closed.remoteInit start.broker
      have ⟨next, hinit, hordered, hlive⟩ := h.registryInit
        { start.hardware with
          brokerConnects := (process.connections.remoteInit start.broker).1 }
      rw [if_pos rfl]
      dsimp only
      rw [hinit, Option.map_some]
      refine ⟨_, rfl, hordered, ?_, ?_⟩
      · rw [← hret]
        exact hlive
      · rw [hbuild, if_pos rfl]
        exact hfilled

theorem Up.filled_slots (h : Up build broker up) (hlive : up.registry.remote.live () = true) :
    up.connections.Filled Connections.slots := by
  have hregistered := h.registered.symm.trans hlive
  rw [Bool.and_eq_true, Bool.and_eq_true, List.all_eq_true] at hregistered
  have ⟨hbuild, hall, _⟩ := hregistered
  have hfilled := h.filled
  rw [if_pos hbuild, List.takeWhile_eq_self_iff.mpr hall] at hfilled
  exact hfilled

theorem Up.dcurlDestroy (h : Up build broker up) :
    ∃ down, up.dcurlDestroy build = some down ∧
      (up.registry.remote.live () = true → down.Idle build) ∧
      (up.registry.remote.live () = false → down.connections = up.connections ∧
        (up.connections.opened.card = 0 → down.Idle build)) := by
  have ⟨remotes, impls, next, hdestroy, _, ⟨hnodup, hremotes⟩, ⟨hring, himpls⟩, hring', hremote⟩ :=
    h.ordered.destroysOnce
  have hstep : Registry.step build up.registry .destroy = some next := by
    unfold Registry.step
    rw [hdestroy, Option.map_some]
  have hordered : next.Ordered build := h.ordered.step
    ⟨ContextList.WellFormed.of_empty hring himpls, ContextList.WellFormed.of_empty hring' hremote⟩
    hstep
  unfold Process.dcurlDestroy
  rw [hdestroy, Option.bind_some]
  dsimp only
  cases hlive : up.registry.remote.live () with
  | false =>
      have hnone : remotes = [] := by
        rw [List.eq_nil_iff_forall_not_mem]
        intro remote hmem
        rw [(hremotes remote).mp hmem] at hlive
        cases hlive
      rw [hnone]
      refine ⟨_, rfl, nofun, fun _ => ⟨rfl, fun hcard => ?_⟩⟩
      exact ⟨hordered, himpls, hremote, h.filled.nil_of_card hcard⟩
  | true =>
      have hmem : ∀ remote, remote ∈ remotes ↔ remote ∈ [()] := by
        intro remote
        rw [hremotes, hlive, List.mem_singleton]
        exact iff_of_true rfl rfl
      have hone := List.perm_singleton.mp
        ((List.perm_ext_iff_of_nodup hnodup (List.nodup_singleton ())).mpr hmem)
      have ⟨connections, hconnections, hclosed⟩ := (h.filled_slots hlive).disconnectAll
      have hremoteDestroy : up.connections.remoteDestroy = some connections := hconnections
      rw [hone, List.foldlM_cons, hremoteDestroy]
      exact ⟨_, rfl, fun _ => ⟨hordered, himpls, hremote, hclosed⟩, nofun⟩

theorem takeWhile_slots (broker : Broker) :
    Connections.slots.takeWhile broker.accepts = [] ↔ broker.accepts 0 = false := by
  rw [show Connections.slots = 0 :: List.range' 1 19 by decide, List.takeWhile_cons]
  cases broker.accepts 0 with
  | false => exact iff_of_true rfl rfl
  | true => exact iff_of_false nofun nofun

theorem Up.card_eq_zero_iff (h : Up build broker up)
    (hlive : up.registry.remote.live () = false) :
    up.connections.opened.card = 0 ↔ (build.remote = true → broker.AllOrNone) := by
  have hregistered := h.registered.symm.trans hlive
  have hcard := h.filled.card
  rw [hcard]
  cases hbuild : build.remote with
  | false => exact iff_of_true rfl nofun
  | true =>
      rw [hbuild, Bool.true_and] at hregistered
      unfold Broker.AllOrNone
      rw [if_pos rfl, hregistered, List.length_eq_zero_iff, takeWhile_slots]
      constructor
      · exact fun hnone _ => Or.inr hnone
      · intro hgood
        exact (hgood rfl).resolve_left Bool.false_ne_true

theorem Idle.allOrNothing_iff (h : process.Idle build) (start : Start) :
    AllOrNothing build process start ↔ (build.remote = true → start.broker.AllOrNone) := by
  have ⟨up, hinit, hup⟩ := h.dcurlInit start
  have ⟨down, hdestroy, hregistered, hunregistered⟩ := hup.dcurlDestroy
  cases hlive : up.registry.remote.live () with
  | true =>
      have hall := hup.registered.symm.trans hlive
      refine iff_of_true ⟨up, down, hinit, hdestroy, ?_, ?_⟩ fun _ => Or.inl ?_
      · rw [(hup.filled_slots hlive).card, hlive]
        decide
      · exact (hregistered hlive).closed.card
      · exact (Bool.and_eq_true_iff.mp hall).2
  | false =>
      rw [← hup.card_eq_zero_iff hlive]
      have ⟨hsame, _⟩ := hunregistered hlive
      constructor
      · rintro ⟨up', down', hinit', _, hcard, _⟩
        rw [hinit] at hinit'
        cases hinit'
        rw [hlive, if_neg Bool.false_ne_true] at hcard
        exact Int.ofNat_eq_zero.mp hcard
      · intro hcard
        refine ⟨up, down, hinit, hdestroy, ?_, ?_⟩
        · rw [hcard, hlive]
          rfl
        · rw [hsame, hcard]

theorem Idle.step (h : process.Idle build) (start : Start)
    (hgood : build.remote = true → start.broker.AllOrNone) :
    ∃ next, process.step build start = some next ∧ next.Idle build := by
  have ⟨up, hinit, hup⟩ := h.dcurlInit start
  have ⟨down, hdestroy, hregistered, hunregistered⟩ := hup.dcurlDestroy
  refine ⟨down, ?_, ?_⟩
  · unfold Process.step
    rw [hinit, Option.bind_some, hdestroy]
  · cases hlive : up.registry.remote.live () with
    | true => exact hregistered hlive
    | false =>
        exact (hunregistered hlive).2 ((hup.card_eq_zero_iff hlive).mpr hgood)

end round

/-- The connections are all or nothing along a run exactly when no broker fails after
its first connection. -/
theorem along_allOrNothing_iff (build : Build) (starts : List Start) :
    Machine.Along (AllOrNothing build) (step build) Process.start starts ↔
      ∀ start ∈ starts, build.remote = true → start.broker.AllOrNone :=
  Machine.along_iff_forall (AllOrNothing build)
    (fun start => build.remote = true → start.broker.AllOrNone) (Idle build)
    (fun _ start h => h.allOrNothing_iff start) (fun _ start h => h.step start)
    (start_idle build) starts

def oneConnection : Broker := ⟨fun slot => if slot = 0 then .accepts else .closed, true⟩

def remoteBuild : Build := ⟨false, false, false, false, false, true⟩

theorem not_along_oneConnection : ¬Machine.Along (AllOrNothing remoteBuild) (step remoteBuild)
    Process.start [⟨⟨2, 4, true, 0, false, false, false⟩, oneConnection⟩] := by
  intro h
  have hgood := ((start_idle remoteBuild).allOrNothing_iff _).mp h.1 rfl
  revert hgood
  unfold Broker.AllOrNone
  decide

end Process

end Dcurl
