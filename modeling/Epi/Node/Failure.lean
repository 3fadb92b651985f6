import Epi.Node.AutoNode

namespace Epi.Node

open Verification Epi.Type Epi.Buffer Epi.Queue

/-- The connection left the node and waits for its deletion, its peer gets a new connection, and the
other connections stay. -/
structure FailureHandled (before after : AutoNode) (failed : Address) : Prop where
  gone : ∀ name, after.getConnection name ≠ some failed
  flushed : failed ∈ after.mFlushConnections
  reopened : ∀ (connect : Bytes → Call (Bytes × Bytes)) name peer cookie,
    before.getConnection name = some failed → connect name = .returns (peer, cookie) →
      (AutoNode.attempConnection connect name after).1 =
        .returns (.connection after.connections.length)
  others : ∀ name other, other ≠ failed →
    (after.getConnection name = some other ↔ before.getConnection name = some other)

namespace AutoNode

variable {node : AutoNode}

theorem startConnection_returns {connection : Nat}
    (inside : connection < node.connections.length) :
    ∃ after, startConnection connection node = (.returns (), after) := by
  simp only [startConnection, Effect.bind_run, Effect.get_run, List.getElem?_eq_getElem inside]
  cases node.connections[connection].mAcceptor with
  | some acceptor => exact ⟨node, rfl⟩
  | none =>
      simp only [Option.isSome_none, Bool.false_eq_true, if_false, Effect.bind_run, Effect.set_run,
        onConnection, List.getElem?_eq_getElem inside]
      exact ⟨_, rfl⟩

theorem addConnection_returns {connection : Nat} (inside : connection < node.connections.length) :
    ∃ after, addConnection connection node = (.returns (), after) ∧
      after.connections.length = node.connections.length := by
  simp only [addConnection, Effect.bind_run, Effect.get_run, List.getElem?_eq_getElem inside,
    Effect.set_run, onConnection, flushConnections]
  exact ⟨_, rfl, List.length_set⟩

/-- Without a connection under the name, the node opens a new one. -/
theorem attempConnection_opens {connect : Bytes → Call (Bytes × Bytes)} {name peer cookie : Bytes}
    (unknown : node.getConnection name = none) (answers : connect name = .returns (peer, cookie)) :
    (attempConnection connect name node).1 = .returns (.connection node.connections.length) := by
  have inside : node.connections.length <
      (node.connections ++ [(⟨peer, cookie, none, none⟩ : EIConnection)]).length := by simp
  obtain ⟨added, addRan, same⟩ := @addConnection_returns
    { node with connections := node.connections ++ [⟨peer, cookie, none, none⟩] }
    node.connections.length inside
  obtain ⟨started, startRan⟩ :=
    @startConnection_returns added node.connections.length (by rw [same]; exact inside)
  simp only [attempConnection, Method.throwsOnly, Effect.mapOutcome_run, Effect.bind_run,
    Effect.get_run, unknown, answers, Effect.lift_run, Effect.set_run, addRan, startRan,
    Effect.pure_run, Call.throwsOnly_returns]

/-- A connection that is removed by its own address is handled as the node intends. -/
theorem removeConnection_handles {name : Bytes} {connection : Address}
    (held : node.getConnection name = some connection) :
    FailureHandled node (removeConnection connection node).2 connection := by
  have erased : ∀ name other,
      (removeConnection connection node).2.getConnection name = some other ↔
        node.getConnection name = some other ∧ other ≠ connection := fun name other =>
    OrderedMap.find_eraseByValue nameLess_ordered node.mConnections connection
  have counted := OrderedMap.eraseByValue_count nameLess_ordered node.mConnections held
  refine ⟨?_, ?_, ?_, ?_⟩
  · intro other still
    exact ((erased other connection).mp still).2 rfl
  · simp [removeConnection, counted]
  · intro connect other peer cookie before answers
    apply attempConnection_opens ?_ answers
    cases after : (removeConnection connection node).2.getConnection other with
    | none => rfl
    | some kept =>
        obtain ⟨old, apart⟩ := (erased other kept).mp after
        exact absurd (Option.some.inj (old.symm.trans before)) apart
  · intro other kept apart
    rw [erased]
    exact and_iff_left apart

theorem onMailBox_mConnections (mailbox : Nat) (update : MailBox → Call MailBox) :
    (onMailBox mailbox update node).2.mConnections = node.mConnections := by
  unfold onMailBox
  split
  · rfl
  · split <;> rfl

/-- The address of an acceptor removes no connection. -/
theorem removeConnection_acceptor {name : Bytes} {connection acceptor : Nat}
    (held : node.getConnection name = some (.connection connection)) :
    (removeConnection (.acceptor acceptor) node).2.getConnection name =
      some (.connection connection) := by
  apply (OrderedMap.find_eraseByValue nameLess_ordered node.mConnections _).mpr
  exact ⟨held, Address.noConfusion⟩

/-- The error of an acceptor finds the failed connection where it was, whoever receives it. -/
theorem acceptorDelivers_keeps {name : Bytes} {connection acceptor : Nat} {error : EpiException}
    (owned : node.acceptors[acceptor]? = some connection)
    (held : node.getConnection name = some (.connection connection)) :
    (acceptorDelivers acceptor (.errorMessage error) node).2.getConnection name =
      some (.connection connection) := by
  rw [acceptorDelivers, Effect.bind_run, Effect.get_run]
  simp only [owned]
  rw [Effect.bind_run, newMessage]
  simp only
  rw [deliverFrom, Effect.bind_run, Effect.get_run]
  cases target : node.connections[connection]? with
  | none =>
      simp only [target]
      exact held
  | some object =>
      simp only [target]
      rcases object.mReceiver with - | (- | mailbox | _ | _ | _)
      · exact held
      · simp only [deliver, Effect.bind_run, Effect.get_run, List.getElem?_concat_length]
        exact removeConnection_acceptor held
      · simp only [getConnection, onMailBox_mConnections]
        exact held
      all_goals exact held

/-- No state of the node meets the intention: the acceptor is not a connection. -/
theorem failed_connection_stays {name : Bytes} {connection acceptor : Nat} (error : EpiException)
    (owned : node.acceptors[acceptor]? = some connection)
    (held : node.getConnection name = some (.connection connection)) :
    ¬ FailureHandled node (acceptorDelivers acceptor (.errorMessage error) node).2
      (.connection connection) := by
  intro handled
  exact handled.gone name (acceptorDelivers_keeps owned held)

end AutoNode

/-- A node with a connection to `b@c`, opened by an attempt. -/
def connectedNode : AutoNode :=
  (AutoNode.attempConnection (fun name => .returns (name, text "secret")) (text "b@c")
    (.create (.init (text "a@b") 0))).2

theorem failed_connection_stays_connected :
    ¬ FailureHandled connectedNode
      (AutoNode.acceptorDelivers 0 (.errorMessage (.connection (text "closed"))) connectedNode).2
      (.connection 0) :=
  AutoNode.failed_connection_stays (.connection (text "closed")) (show connectedNode.acceptors[0]? = some 0 from rfl)
    (show connectedNode.getConnection (text "b@c") = some (.connection 0) from rfl)

/-- After the failure the node still hands out the dead connection, and nothing waits for its
deletion. -/
theorem failed_connection_reused :
    ∃ (node failed : AutoNode) (connect : Bytes → Call (Bytes × Bytes)),
      node.acceptors[0]? = some 0 ∧
      node.getConnection (text "b@c") = some (.connection 0) ∧
      AutoNode.acceptorDelivers 0 (.errorMessage (.connection (text "closed"))) node =
        (.returns (), failed) ∧
      failed.mFlushConnections = [] ∧
      (AutoNode.attempConnection connect (text "b@c") failed).1 = .returns (.connection 0) ∧
      ¬ FailureHandled node failed (.connection 0) := by
  refine ⟨connectedNode, _, fun _ => .aborts, rfl, rfl, rfl, rfl, rfl, ?_⟩
  intro handled
  exact handled.gone (text "b@c") rfl

end Epi.Node
