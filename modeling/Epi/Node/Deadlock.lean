import Epi.Node.Locks

namespace Epi.Node

open Verification Epi.Type Epi.Buffer Epi.Queue

/-- The maps that connections are in. -/
def AutoNode.links (node : AutoNode) : OrderedMap Bytes Address nameLess × List Address :=
  (node.mConnections, node.mFlushConnections)

/-- Only connections are connected, and none waits for its deletion: what an acceptor hands over as
the origin of an error is no connection. -/
structure Unflushed (state : ThreadedNode) : Prop where
  unflushed : state.node.mFlushConnections = []
  connected : ∀ value ∈ state.node.mConnections.values,
    ∃ connection, value = .connection connection

/-- The mutexes of the node itself. -/
def NodeMutex.OfNode : NodeMutex → Prop
  | .regmailboxes | .connections | .mailboxes => True
  | .socket _ | .queue _ => False

def NodeMutex.rank : NodeMutex → Nat
  | .regmailboxes => 0
  | .connections => 1
  | .mailboxes => 2
  | .socket _ | .queue _ => 3

/-- One mutex at a time, and no waiting for the end of a thread. -/
def unnested : Permission NodeThread NodeMutex where
  acquires := fun held _ => ∀ other, ¬ held other
  joins := fun _ _ => False

/-- Mutexes in the order of their ranks, and all those of the node while a thread ends. -/
def nested : Permission NodeThread NodeMutex where
  acquires := fun held mutex => ∀ other, held other → other.rank < mutex.rank
  joins := fun held thread =>
    (∀ mutex, held mutex ↔ mutex.OfNode) ∧ thread.isCaller = false

/-- Only the destructor nests mutexes. -/
def nodePermission : NodeThread → Permission NodeThread NodeMutex
  | .destroyer => nested
  | _ => unnested

section Unflushed

variable {state after : ThreadedNode}

theorem Unflushed.of_links (holds : Unflushed state) (same : after.node.links = state.node.links) :
    Unflushed after where
  unflushed := (congrArg Prod.snd same).trans holds.unflushed
  connected := by
    have maps : after.node.mConnections = state.node.mConnections := congrArg Prod.fst same
    rw [maps]
    exact holds.connected

theorem Unflushed.call {Value : Type} {call : Method AutoNode Value} (holds : Unflushed state)
    (preserves : Effect.Preserves AutoNode.links call) :
    Unflushed { state with node := (call state.node).2 } :=
  holds.of_links (preserves state.node)

/-- A new connection is stored as one. -/
theorem Unflushed.addConnection (holds : Unflushed state) (connection : Nat) :
    Unflushed { state with node := (AutoNode.addConnection connection state.node).2 } := by
  unfold AutoNode.addConnection
  rw [Effect.bind_run, Effect.get_run]
  cases here : state.node.connections[connection]? with
  | none => simpa only [here, Effect.lift_run] using holds
  | some object =>
      simp only [here, Effect.bind_run, Effect.set_run, AutoNode.onConnection,
        AutoNode.flushConnections]
      refine ⟨rfl, fun value member => ?_⟩
      rw [OrderedMap.mem_values nameLess_ordered] at member
      obtain ⟨name, found⟩ := member
      rw [OrderedMap.find_store nameLess_ordered] at found
      split at found
      · exact ⟨connection, (Option.some.inj found).symm⟩
      · exact holds.connected value ((OrderedMap.mem_values nameLess_ordered _).mpr ⟨name, found⟩)

/-- What is no connection is not found. -/
theorem Unflushed.removeConnection (holds : Unflushed state) {origin : Address}
    (foreign : ∀ connection, origin ≠ .connection connection) :
    Unflushed { state with node := (AutoNode.removeConnection origin state.node).2 } := by
  have absent : ¬ 0 < (state.node.mConnections.eraseByValue origin).2 := by
    rw [OrderedMap.eraseByValue_count_pos nameLess_ordered]
    intro member
    obtain ⟨connection, same⟩ := holds.connected origin member
    exact foreign connection same
  constructor
  · simp only [AutoNode.removeConnection]
    rw [if_neg absent]
    exact holds.unflushed
  · intro value member
    rw [OrderedMap.mem_values nameLess_ordered] at member
    obtain ⟨name, found⟩ := member
    have kept := ((OrderedMap.find_eraseByValue nameLess_ordered _ _).mp found).1
    exact holds.connected value ((OrderedMap.mem_values nameLess_ordered _).mpr ⟨name, kept⟩)

end Unflushed

section Links

end Links

namespace NodeCode

section Restores

variable {permission : Permission NodeThread NodeMutex} {held : NodeMutex → Prop}
  {mutex : NodeMutex} {change : ThreadedNode → ThreadedNode} {code : ThreadedNode → NodeCode}

end Restores

section Free

variable {mutex : NodeMutex} {code : ThreadedNode → NodeCode}

end Free

section Destroying

end Destroying

end NodeCode

/-- A new node has no connections, and nobody holds its mutexes. -/
theorem NodeStarts.disciplined {state : NodeThreads} (starts : NodeStarts state) :
    Disciplined Unflushed nodePermission state := by
  obtain ⟨node, ⟨nodeName, creation, rfl⟩, rfl⟩ := starts
  exact ⟨⟨rfl, nofun⟩, fun thread => .done fun mutex => nofun⟩

/-- The destructor waits for the end of a thread that waits for a mutex of the node. -/
def DestructorBlocked (state : NodeThreads) : Prop :=
  ∃ thread mutex destroying waiting, state.rest .destroyer = .join thread :: destroying ∧
    state.alive thread = true ∧ state.rest thread = .acquire mutex :: waiting ∧ mutex.OfNode

section Deadlock

variable {state : NodeThreads} {events : List NodeThread}

/-- Only the destructor waits for the end of a thread, and it holds the mutexes of the node. -/
theorem joins_destroyer (disciplined : Disciplined Unflushed nodePermission state)
    {thread joined : NodeThread} {code : NodeCode}
    (next : state.rest thread = .join joined :: code) :
    thread = .destroyer ∧ (∀ mutex, state.holder mutex = some .destroyer ↔ mutex.OfNode) ∧
      joined.isCaller = false := by
  have may := disciplined.joins next
  cases thread with
  | destroyer => exact ⟨rfl, may⟩
  | _ => exact may.elim

/-- The destructor and the thread that it waits for block each other. -/
theorem DestructorBlocked.knotted (disciplined : Disciplined Unflushed nodePermission state)
    (blocked : DestructorBlocked state) :
    state.rest .destroyer ≠ [] ∧ ∃ members : NodeThread → Prop, members .destroyer ∧
      Knotted members state ∧
        ∀ thread other, members thread → Blocks state thread other → members other := by
  obtain ⟨joined, mutex, destroying, waiting, joining, lives, next, node⟩ := blocked
  have holds := ((joins_destroyer disciplined joining).2.1 mutex).mpr node
  refine ⟨joining ▸ nofun, fun thread => thread = .destroyer ∨ thread = joined, .inl rfl, ?_, ?_⟩
  · rintro thread (rfl | rfl)
    · exact ⟨joined, .inr rfl, .inr ⟨destroying, joining, lives⟩⟩
    · exact ⟨.destroyer, .inl rfl, .inl ⟨mutex, waiting, next, holds⟩⟩
  · rintro thread other (rfl | rfl) (⟨lock, code, here, held⟩ | ⟨code, here, -⟩)
    · exact nomatch joining.symm.trans here
    · have same := joining.symm.trans here
      injection same with head _
      injection head with equal
      exact .inr equal.symm
    · have same := next.symm.trans here
      injection same with head _
      injection head with equal
      rw [← equal, holds] at held
      exact .inl (Option.some.inj held).symm
    · exact nomatch next.symm.trans here

end Deadlock

end Epi.Node
