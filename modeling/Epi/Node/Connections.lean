import Epi.Library.Run
import Epi.Node.AutoNode
import Epi.Node.Name

namespace Epi.Node

open Verification Epi.Type Epi.Queue

namespace AutoNode

/-- The pass of `AutoNode::run` that accepted a connection. -/
def acceptConnection (peer cookie : Bytes) : Method AutoNode Unit := do
  let node ← Effect.get
  Effect.set { node with connections := node.connections ++ [⟨peer, cookie, none, none⟩] }
  addConnection node.connections.length
  startConnection node.connections.length

/-- `AutoNode::destroyConnections`. -/
def destroyConnections : Method AutoNode Unit := fun node =>
  (.returns (), { node with deleted := node.deleted ++ node.mConnections.values })

/-- The connections at the end of the destructor. -/
def destroy : Method AutoNode Unit := do
  flushConnections
  destroyConnections

end AutoNode

/-- What happens to the connections of a node. A connection may be removed by any address. -/
inductive ConnectionEvent where
  | accept (peer cookie : Bytes)
  | attempt (connect : Bytes → Call (Bytes × Bytes)) (name : Bytes)
  | remove (connection : Address)
  | flush

/-- The node after the event. An attempt that throws is one, too. -/
def ConnectionEvent.apply (node : AutoNode) : ConnectionEvent → AutoNode
  | .accept peer cookie => (AutoNode.acceptConnection peer cookie node).2
  | .attempt connect name => (AutoNode.attempConnection connect name node).2
  | .remove connection => (AutoNode.removeConnection connection node).2
  | .flush => (AutoNode.flushConnections node).2

/-- The name under which the event adds a new connection. -/
def ConnectionEvent.adds (node : AutoNode) : ConnectionEvent → Option Bytes
  | .accept peer _ => some peer
  | .attempt connect name =>
      match node.getConnection name with
      | some _ => none
      | none => (connect name).toOption.map (·.1)
  | _ => none

def ConnectionStep : Transition AutoNode ConnectionEvent :=
  fun before event after => after = event.apply before

/-- A node without connections. -/
def Unconnected (node : AutoNode) : Prop :=
  ∃ nodeName creation, node = .create (.init nodeName creation)

namespace AutoNode

variable {node : AutoNode}

/-- The node after a new connection was added and started. -/
def connected (node : AutoNode) (peer cookie : Bytes) : AutoNode :=
  { node with
    connections := node.connections ++ [⟨peer, cookie, some .node, some node.acceptors.length⟩]
    acceptors := node.acceptors ++ [node.connections.length]
    mConnections := node.mConnections.store nameLess_ordered peer
      (.connection node.connections.length)
    deleted := node.deleted ++ node.mFlushConnections
    mFlushConnections := [] }

theorem acceptConnection_run (peer cookie : Bytes) :
    acceptConnection peer cookie node = (.returns (), node.connected peer cookie) := by
  simp [acceptConnection, addConnection, startConnection, onConnection, flushConnections,
    Effect.bind_run, connected]

/-- A known connection is handed out, and any other one is opened and added. -/
theorem attempConnection_run (connect : Bytes → Call (Bytes × Bytes)) (name : Bytes) :
    attempConnection connect name node = match node.getConnection name with
      | some connection => (.returns connection, node)
      | none => match connect name with
        | .returns (peer, cookie) =>
            (.returns (.connection node.connections.length), node.connected peer cookie)
        | .throws error => (Call.throwsOnly [.epiConnectionException] (.throws error), node)
        | .aborts => (.aborts, node)
        | .diverges => (.diverges, node) := by
  rw [attempConnection, Method.throwsOnly, Effect.mapOutcome_run, Effect.bind_run, Effect.get_run]
  cases known : node.getConnection name with
  | some connection => simp [known]
  | none =>
      simp only [known]
      cases connect name with
      | returns answer =>
          obtain ⟨peer, cookie⟩ := answer
          simp [addConnection, startConnection, onConnection, flushConnections, Effect.bind_run,
            connected]
      | _ => simp [Effect.bind_run]

end AutoNode

/-- An event adds a connection, removes one, flushes, or leaves the node as it is. -/
theorem ConnectionEvent.apply_cases (node : AutoNode) (event : ConnectionEvent) :
    (∃ peer cookie, event.adds node = some peer ∧ event.apply node = node.connected peer cookie) ∨
    (event.adds node = none ∧ event.apply node = node) ∨
    (∃ connection, event = .remove connection) ∨ event = .flush := by
  cases event with
  | accept peer cookie =>
      left
      refine ⟨peer, cookie, rfl, ?_⟩
      rw [apply, AutoNode.acceptConnection_run]
  | attempt connect name =>
      rw [apply, adds, AutoNode.attempConnection_run]
      cases node.getConnection name with
      | some connection => exact .inr (.inl ⟨rfl, rfl⟩)
      | none =>
          simp only
          cases connect name with
          | returns answer => exact .inl ⟨answer.1, answer.2, rfl, rfl⟩
          | _ => exact .inr (.inl ⟨rfl, rfl⟩)
  | remove connection => exact .inr (.inr (.inl ⟨connection, rfl⟩))
  | flush => exact .inr (.inr (.inr rfl))

/-- How often a connection is held by the map, waits for its deletion, and was deleted. -/
def AutoNode.owners (node : AutoNode) (connection : Address) : Nat :=
  node.mConnections.values.count connection + node.mFlushConnections.count connection +
    node.deleted.count connection

/-- Every added connection is held by the map, waits for its deletion or was deleted, and only one of
them once. Nothing else is held or deleted. -/
structure Owned (node : AutoNode) : Prop where
  once : ∀ connection < node.connections.length, node.owners (.connection connection) = 1
  others : ∀ address, (∀ connection < node.connections.length, address ≠ .connection connection) →
    node.owners address = 0

/-- A connection that is not deleted is held once, by the map or by the list of the waiting ones,
and the destructor leaves every connection deleted once. -/
structure NoneLost (node : AutoNode) : Prop where
  held : ∀ connection < node.connections.length, .connection connection ∉ node.deleted →
    node.mConnections.values.count (.connection connection) +
      node.mFlushConnections.count (.connection connection) = 1
  destroyed : ∀ connection < node.connections.length,
    (AutoNode.destroy node).2.deleted.count (.connection connection) = 1

/-- A new connection is added under a name that has none. -/
def Vacant (node : AutoNode) (event : ConnectionEvent) : Prop :=
  ∀ peer, event.adds node = some peer → node.getConnection peer = none

/-- A step that adds no connection in the place of another one. -/
def VacantStep : Transition AutoNode ConnectionEvent :=
  fun before event after => Vacant before event ∧ ConnectionStep before event after

section Owners

variable {node : AutoNode} {events : List ConnectionEvent} {event : ConnectionEvent}

theorem count_destroy (node : AutoNode) (connection : Address) :
    (AutoNode.destroy node).2.deleted.count connection = node.owners connection := by
  show (node.deleted ++ node.mFlushConnections ++ node.mConnections.values).count connection = _
  rw [List.count_append, List.count_append, AutoNode.owners]
  omega

/-- The destructor deletes a connection as often as it is owned. -/
theorem noneLost_iff : NoneLost node ↔
    ∀ connection < node.connections.length, node.owners (.connection connection) = 1 := by
  constructor
  · intro kept connection inside
    rw [← count_destroy]
    exact kept.destroyed connection inside
  · intro once
    constructor
    · intro connection inside living
      have whole := once connection inside
      rw [AutoNode.owners, List.count_eq_zero.mpr living] at whole
      omega
    · intro connection inside
      rw [count_destroy]
      exact once connection inside

/-- A new connection takes the place of the one under its name. -/
theorem owners_connected (peer cookie : Bytes) (address : Address) :
    (node.connected peer cookie).owners address +
        (if node.getConnection peer = some address then 1 else 0) =
      node.owners address + if .connection node.connections.length = address then 1 else 0 := by
  have stored := node.mConnections.count_store nameLess_ordered peer
    (.connection node.connections.length) address
  unfold AutoNode.getConnection
  simp only [AutoNode.owners, AutoNode.connected, List.count_append, List.count_nil]
  omega

/-- A connection that is taken out of the map waits for its deletion. -/
theorem owners_removeConnection (single : ∀ address, node.owners address ≤ 1)
    (connection address : Address) :
    (AutoNode.removeConnection connection node).2.owners address = node.owners address := by
  have erased := node.mConnections.count_eraseByValue nameLess_ordered connection address
  have counted : 0 < (node.mConnections.eraseByValue connection).2 ↔
      connection ∈ node.mConnections.values :=
    node.mConnections.eraseByValue_count_pos nameLess_ordered
  have atMost := single address
  simp only [AutoNode.owners, AutoNode.removeConnection] at atMost ⊢
  rw [erased]
  by_cases same : address = connection
  · subst same
    by_cases held : address ∈ node.mConnections.values
    · have here := List.count_pos_iff.mpr held
      rw [if_pos rfl, if_pos (counted.mpr held), List.count_append, List.count_singleton_self]
      omega
    · rw [if_pos rfl, if_neg (held ∘ counted.mp), List.count_eq_zero.mpr held]
  · rw [if_neg same]
    have absent : [connection].count address = 0 := List.count_eq_zero.mpr (by simpa using same)
    split
    · rw [List.count_append, absent, Nat.add_zero]
    · rfl

theorem owners_flushConnections (address : Address) :
    (AutoNode.flushConnections node).2.owners address = node.owners address := by
  simp only [AutoNode.owners, AutoNode.flushConnections, List.count_append, List.count_nil]
  omega

theorem Owned.single (owned : Owned node) (address : Address) : node.owners address ≤ 1 := by
  by_cases added : ∃ connection < node.connections.length, address = .connection connection
  · obtain ⟨connection, inside, rfl⟩ := added
    exact (owned.once connection inside).le
  · push Not at added
    exact (owned.others address added).le.trans (Nat.zero_le 1)

/-- The map holds only connections that were added. -/
theorem Owned.known (owned : Owned node) {name : Bytes} {address : Address}
    (found : node.getConnection name = some address) :
    ∃ connection < node.connections.length, address = .connection connection := by
  by_contra missing
  push Not at missing
  have held : address ∈ node.mConnections.values :=
    (node.mConnections.mem_values nameLess_ordered).mpr ⟨name, found⟩
  have counted := List.count_pos_iff.mpr held
  have none := owned.others address missing
  rw [AutoNode.owners] at none
  omega

/-- A step keeps the owners exactly when it adds no connection in the place of another one. -/
theorem owned_apply (owned : Owned node) :
    (Vacant node event → Owned (event.apply node)) ∧
      (NoneLost (event.apply node) → Vacant node event) := by
  rcases ConnectionEvent.apply_cases node event with ⟨peer, cookie, adds, applied⟩ |
      ⟨nothing, applied⟩ | ⟨connection, rfl⟩ | rfl
  · rw [applied]
    have count := @owners_connected node peer cookie
    have longer : (node.connected peer cookie).connections.length = node.connections.length + 1 := by
      simp [AutoNode.connected]
    constructor
    · intro vacant
      have free := vacant peer adds
      simp only [free, reduceCtorEq, if_false, Nat.add_zero] at count
      constructor
      · intro connection inside
        rw [longer] at inside
        rw [count]
        rcases Nat.lt_succ_iff_lt_or_eq.mp inside with old | rfl
        · rw [owned.once connection old, if_neg (by simp; omega)]
        · rw [owned.others _ (fun other less => by simp; omega), if_pos rfl]
      · intro address other
        rw [longer] at other
        rw [count, owned.others address fun connection less => other connection (by omega),
          if_neg (Ne.symm (other _ (Nat.lt_succ_self _)))]
    · intro kept name named
      obtain rfl := Option.some.inj (adds.symm.trans named)
      by_contra taken
      obtain ⟨old, found⟩ := Option.ne_none_iff_exists'.mp taken
      obtain ⟨connection, inside, rfl⟩ := owned.known found
      have after := noneLost_iff.mp kept connection (by rw [longer]; exact Nat.lt_succ_of_lt inside)
      have apart : Address.connection node.connections.length ≠ .connection connection := by
        simp only [ne_eq, Address.connection.injEq]
        omega
      have counted := count (.connection connection)
      rw [if_pos found, if_neg apart, owned.once connection inside, after] at counted
      omega
  · rw [applied]
    exact ⟨fun _ => owned, fun _ peer adds => by rw [nothing] at adds; cases adds⟩
  · have same := owners_removeConnection owned.single connection
    refine ⟨fun _ => ⟨?_, ?_⟩, fun _ peer adds => by cases adds⟩
    · intro other inside
      exact (same _).trans (owned.once other inside)
    · intro address other
      exact (same _).trans (owned.others address other)
  · refine ⟨fun _ => ⟨?_, ?_⟩, fun _ peer adds => by cases adds⟩
    · intro other inside
      exact (owners_flushConnections _).trans (owned.once other inside)
    · intro address other
      exact (owners_flushConnections _).trans (owned.others address other)

theorem owned_unconnected (start : Unconnected node) : Owned node := by
  obtain ⟨nodeName, creation, rfl⟩ := start
  constructor
  · intro connection inside
    exact absurd inside (Nat.not_lt_zero _)
  · intro address _
    rfl

/-- In a run that adds no connection in the place of another one, no connection is lost. The first
step that does so loses one. -/
theorem no_connection_lost (run : Run Unconnected VacantStep events node) :
    NoneLost node ∧ ∀ event after, ConnectionStep node event after →
      (NoneLost after ↔ Vacant node event) := by
  have owned : Owned node := by
    apply run.invariant
    · intro start initial
      exact owned_unconnected initial
    · rintro _ before event after owned ⟨vacant, rfl⟩
      exact (owned_apply owned).1 vacant
  refine ⟨noneLost_iff.mpr owned.once, ?_⟩
  rintro event after rfl
  exact ⟨(owned_apply owned).2, fun vacant => noneLost_iff.mpr ((owned_apply owned).1 vacant).once⟩

end Owners

/-- A node without connections. -/
def lonelyNode : AutoNode := .create (.init (text "a@b") 0)

/-- The peer `c@d` connects. -/
def acceptPeer : ConnectionEvent := .accept (text "c@d") (text "secret")

theorem no_connection_lost_accepted :
    NoneLost (acceptPeer.apply lonelyNode) ∧ ∀ event after,
      ConnectionStep (acceptPeer.apply lonelyNode) event after →
        (NoneLost after ↔ Vacant (acceptPeer.apply lonelyNode) event) := by
  have start : Run Unconnected VacantStep [] lonelyNode := .start ⟨text "a@b", 0, rfl⟩
  have run : Run Unconnected VacantStep [acceptPeer] (acceptPeer.apply lonelyNode) := by
    apply Run.step start
    refine ⟨?_, rfl⟩
    intro peer _
    rfl
  exact no_connection_lost run

/-- When the same peer connects again, nothing holds its first connection, and it is never
deleted. -/
theorem second_accept_loses : ∃ node, Run Unconnected ConnectionStep [acceptPeer, acceptPeer] node ∧
    node.owners (.connection 0) = 0 ∧
    .connection 0 ∉ (AutoNode.destroy node).2.deleted ∧ ¬ NoneLost node := by
  have start : Run Unconnected ConnectionStep [] lonelyNode := .start ⟨text "a@b", 0, rfl⟩
  have lost : (acceptPeer.apply (acceptPeer.apply lonelyNode)).owners (.connection 0) = 0 := rfl
  refine ⟨_, (start.step rfl).step rfl, lost, ?_, ?_⟩
  · rw [← List.count_eq_zero, count_destroy]
    exact lost
  · intro kept
    have once := noneLost_iff.mp kept 0 (by decide)
    rw [lost] at once
    cases once

end Epi.Node
