import Epi.Node.Connections

namespace Epi.Node

open Verification Epi.Type Epi.Queue

/-- `EITransport::do_connect`. The peer is named by the constructor of `PeerNode`. -/
def EITransport.doConnect (eiConnect : Bytes → Call Unit) (eiConnectCookie node : Bytes) :
    Call (Bytes × Bytes) :=
  Call.throwsOnly [.epiConnectionException] do
    eiConnect node
    let peer ← AbstractNode.initNodeName node
    return (peer.mNodeName, eiConnectCookie)

/-- The peers of the transport are named by the constructor of `PeerNode`. -/
def ConnectionEvent.FromTransport : ConnectionEvent → Prop
  | .accept peer _ => ∃ nodename base, AbstractNode.initNodeName nodename = .returns base ∧
      peer = base.mNodeName
  | .attempt connect _ => ∃ eiConnect eiConnectCookie,
      connect = EITransport.doConnect eiConnect eiConnectCookie
  | _ => True

def TransportStep : Transition AutoNode ConnectionEvent :=
  fun before event after => event.FromTransport ∧ ConnectionStep before event after

/-- The node after the events. -/
def ConnectionEvent.applyAll (node : AutoNode) (events : List ConnectionEvent) : AutoNode :=
  events.foldl ConnectionEvent.apply node

/-- No event adds a connection under the name. -/
def Spared (name : Bytes) : AutoNode → List ConnectionEvent → Prop
  | _, [] => True
  | node, event :: later => event.adds node ≠ some name ∧ Spared name (event.apply node) later

/-- The names of the map have a host, and its connections were added. -/
structure HostNamed (node : AutoNode) : Prop where
  hosted : ∀ name address, node.getConnection name = some address → atSign ∈ name
  known : ∀ name address, node.getConnection name = some address →
    ∃ connection < node.connections.length, address = .connection connection

section Reuse

variable {node after : AutoNode} {name peer cookie : Bytes} {event : ConnectionEvent}
  {events : List ConnectionEvent} {connection : Address} {eiConnect : Bytes → Call Unit} {given : Bytes}

theorem getConnection_connected (node : AutoNode) (peer cookie name : Bytes) :
    (node.connected peer cookie).getConnection name =
      if name = peer then some (.connection node.connections.length)
      else node.getConnection name :=
  node.mConnections.find_store nameLess_ordered peer name _

theorem getConnection_removeConnection {removed address : Address} :
    (AutoNode.removeConnection removed node).2.getConnection name = some address ↔
      node.getConnection name = some address ∧ address ≠ removed :=
  node.mConnections.find_eraseByValue nameLess_ordered removed

theorem hosted_of_init {base : AbstractNode}
    (started : AbstractNode.initNodeName given = .returns base) : atSign ∈ base.mNodeName := by
  rw [(named_of_init started).parts]
  simp

/-- A connection of the transport is named by the completed name. -/
theorem doConnect_returns
    (opened : EITransport.doConnect eiConnect cookie name = .returns (peer, given)) :
    peer = completeName smLocalhost name := by
  obtain ⟨_, -, rest⟩ := Outcome.bind_eq_returns.mp (Call.throwsOnly_eq_returns.mp opened)
  obtain ⟨base, started, same⟩ := Outcome.bind_eq_returns.mp rest
  cases same
  exact (named_of_init started).completed

/-- Whatever the transport adds has a host in its name. -/
theorem hosted_of_adds (transport : event.FromTransport) (adds : event.adds node = some peer) :
    atSign ∈ peer := by
  cases event with
  | accept other cookie =>
      obtain ⟨nodename, base, started, rfl⟩ := transport
      cases adds
      exact hosted_of_init started
  | attempt connect other =>
      obtain ⟨eiConnect, eiConnectCookie, rfl⟩ := transport
      rw [ConnectionEvent.adds] at adds
      split at adds
      · cases adds
      · obtain ⟨⟨named, given⟩, answered, rfl⟩ := Option.map_eq_some_iff.mp adds
        rw [doConnect_returns (Outcome.toOption_eq_some.mp answered)]
        exact mem_completeName _ _
  | _ => cases adds

theorem hostNamed_apply (named : HostNamed node) (transport : event.FromTransport) :
    HostNamed (event.apply node) := by
  rcases ConnectionEvent.apply_cases node event with ⟨peer, cookie, adds, applied⟩ |
      ⟨-, applied⟩ | ⟨removed, rfl⟩ | rfl
  · rw [applied]
    have longer : (node.connected peer cookie).connections.length = node.connections.length + 1 := by
      simp [AutoNode.connected]
    constructor
    · intro name address found
      rw [getConnection_connected] at found
      split at found
      · rename_i same
        rw [same]
        exact hosted_of_adds transport adds
      · exact named.hosted name address found
    · intro name address found
      rw [getConnection_connected] at found
      rw [longer]
      split at found
      · cases found
        exact ⟨_, Nat.lt_succ_self _, rfl⟩
      · obtain ⟨connection, inside, same⟩ := named.known name address found
        exact ⟨connection, Nat.lt_succ_of_lt inside, same⟩
  · rw [applied]
    exact named
  · constructor
    · intro name address found
      exact named.hosted name address (getConnection_removeConnection.mp found).1
    · intro name address found
      exact named.known name address (getConnection_removeConnection.mp found).1
  · exact ⟨named.hosted, named.known⟩

theorem hostNamed_run (run : Run Unconnected TransportStep events node) : HostNamed node := by
  apply run.invariant
  · rintro _ ⟨nodeName, creation, rfl⟩
    constructor
    · intro name address found
      cases found
    · intro name address found
      cases found
  · rintro _ before event after named ⟨transport, rfl⟩
    exact hostNamed_apply named transport

/-- The attempt reuses a connection exactly when the map has it under the name as given. -/
theorem reuses_iff : (∀ connect, AutoNode.attempConnection connect name node =
    (.returns connection, node)) ↔ node.getConnection name = some connection := by
  constructor
  · intro reuses
    have ran := reuses fun _ => .aborts
    rw [AutoNode.attempConnection_run] at ran
    cases found : node.getConnection name with
    | some held =>
        rw [found] at ran
        cases ran
        rfl
    | none =>
        rw [found] at ran
        cases ran
  · intro found connect
    rw [AutoNode.attempConnection_run, found]

/-- An event other than its removal keeps a connection under its name, unless it adds another one
there. -/
theorem getConnection_apply (known : ∃ old < node.connections.length, connection = .connection old)
    (stays : event ≠ .remove connection) :
    (event.apply node).getConnection name = some connection ↔
      node.getConnection name = some connection ∧ event.adds node ≠ some name := by
  rcases ConnectionEvent.apply_cases node event with ⟨peer, cookie, adds, applied⟩ |
      ⟨nothing, applied⟩ | ⟨removed, rfl⟩ | rfl
  · rw [applied, getConnection_connected, adds]
    split
    · rename_i same
      obtain ⟨old, inside, rfl⟩ := known
      simp only [Option.some.injEq, Address.connection.injEq, same, ne_eq, not_true_eq_false,
        and_false, iff_false]
      omega
    · rename_i other
      rw [and_iff_left]
      intro same
      exact other (Option.some.inj same).symm
  · rw [applied, nothing]
    simp
  · have apart : connection ≠ removed := by
      rintro rfl
      exact stays rfl
    rw [ConnectionEvent.apply, getConnection_removeConnection]
    simp [ConnectionEvent.adds, apart]
  · simp [ConnectionEvent.apply, ConnectionEvent.adds, AutoNode.flushConnections,
      AutoNode.getConnection]

theorem length_apply (node : AutoNode) (event : ConnectionEvent) :
    node.connections.length ≤ (event.apply node).connections.length := by
  rcases ConnectionEvent.apply_cases node event with ⟨peer, cookie, -, applied⟩ |
      ⟨-, applied⟩ | ⟨removed, rfl⟩ | rfl
  · rw [applied]
    simp [AutoNode.connected]
  · rw [applied]
  · exact le_rfl
  · exact le_rfl

theorem getConnection_applyAll
    (known : ∃ old < node.connections.length, connection = .connection old)
    (stays : .remove connection ∉ events) :
    (ConnectionEvent.applyAll node events).getConnection name = some connection ↔
      node.getConnection name = some connection ∧ Spared name node events := by
  induction events generalizing node with
  | nil => simp [ConnectionEvent.applyAll, Spared]
  | cons event later ih =>
      simp only [List.mem_cons, not_or] at stays
      obtain ⟨old, inside, rfl⟩ := known
      have further := ih ⟨old, inside.trans_le (length_apply node event), rfl⟩ stays.2
      rw [ConnectionEvent.applyAll, List.foldl_cons, ← ConnectionEvent.applyAll, further,
        getConnection_apply ⟨old, inside, rfl⟩ (Ne.symm stays.1), Spared, and_assoc]

/-- The connection of an attempt is under the name as given exactly when that has a host. -/
theorem opened_iff (named : HostNamed node)
    (opened : AutoNode.attempConnection (EITransport.doConnect eiConnect cookie) name node =
      (.returns connection, after)) :
    (∃ old < after.connections.length, connection = .connection old) ∧
      (after.getConnection name = some connection ↔ atSign ∈ name) := by
  rw [AutoNode.attempConnection_run] at opened
  cases found : node.getConnection name with
  | some held =>
      rw [found] at opened
      cases opened
      exact ⟨named.known name connection found, fun _ => named.hosted name connection found,
        fun _ => found⟩
  | none =>
      rw [found] at opened
      simp only at opened
      cases answered : EITransport.doConnect eiConnect cookie name with
      | returns answer =>
          obtain ⟨peer, given⟩ := answer
          rw [answered] at opened
          cases opened
          refine ⟨⟨node.connections.length, by simp [AutoNode.connected], rfl⟩, ?_⟩
          rw [getConnection_connected, doConnect_returns answered, found]
          unfold completeName
          by_cases hosted : atSign ∈ name
          · simp [hosted]
          · simp [hosted]
      | throws error =>
          rw [answered] at opened
          have thrown := congrArg Prod.fst opened
          simp only at thrown
          cases (Call.throwsOnly_eq_returns.mp thrown)
      | aborts =>
          rw [answered] at opened
          cases opened
      | diverges =>
          rw [answered] at opened
          cases opened

/-- Until its removal a connection is reused under the name of its attempt exactly when that name
has a host and no event adds another connection under it. -/
theorem reused_iff (run : Run Unconnected TransportStep events node)
    (opened : AutoNode.attempConnection (EITransport.doConnect eiConnect cookie) name node =
      (.returns connection, after))
    {later : List ConnectionEvent} (stays : .remove connection ∉ later) :
    (∀ connect, AutoNode.attempConnection connect name (ConnectionEvent.applyAll after later) =
      (.returns connection, ConnectionEvent.applyAll after later)) ↔
        atSign ∈ name ∧ Spared name after later := by
  obtain ⟨known, found⟩ := opened_iff (hostNamed_run run) opened
  rw [reuses_iff, getConnection_applyAll known stays, found]

end Reuse

/-- A network on which every connection succeeds. -/
def openNetwork : Bytes → Call (Bytes × Bytes) :=
  EITransport.doConnect (fun _ => .returns ()) (text "secret")

theorem reused_iff_hosted :
    (∀ connect, AutoNode.attempConnection connect (text "c@d")
      (ConnectionEvent.applyAll (lonelyNode.connected (text "c@d") (text "secret")) [.flush]) =
        (.returns (.connection 0), ConnectionEvent.applyAll
          (lonelyNode.connected (text "c@d") (text "secret")) [.flush])) ↔
      atSign ∈ text "c@d" ∧
        Spared (text "c@d") (lonelyNode.connected (text "c@d") (text "secret")) [.flush] := by
  have start : Run Unconnected TransportStep [] lonelyNode := .start ⟨text "a@b", 0, rfl⟩
  have opened : AutoNode.attempConnection openNetwork (text "c@d") lonelyNode =
      (.returns (.connection 0), lonelyNode.connected (text "c@d") (text "secret")) := by
    rw [AutoNode.attempConnection_run]
    rfl
  exact reused_iff start opened (by simp)

/-- Under a name without a host the next attempt opens a second connection. -/
theorem short_name_reopens : ∃ node after,
    Run Unconnected TransportStep [] node ∧
    AutoNode.attempConnection openNetwork (text "c") node = (.returns (.connection 0), after) ∧
    (AutoNode.attempConnection openNetwork (text "c") after).1 = .returns (.connection 1) ∧
    ¬ ∀ connect, AutoNode.attempConnection connect (text "c") after =
      (.returns (.connection 0), after) := by
  have opened : AutoNode.attempConnection openNetwork (text "c") lonelyNode =
      (.returns (.connection 0), lonelyNode.connected (text "c@localhost") (text "secret")) := by
    rw [AutoNode.attempConnection_run]
    rfl
  have again : (AutoNode.attempConnection openNetwork (text "c")
      (lonelyNode.connected (text "c@localhost") (text "secret"))).1 =
        .returns (.connection 1) := by
    rw [AutoNode.attempConnection_run]
    rfl
  refine ⟨lonelyNode, _, .start ⟨text "a@b", 0, rfl⟩, opened, again, ?_⟩
  intro reuses
  rw [reuses openNetwork] at again
  cases again

end Epi.Node
