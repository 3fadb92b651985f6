import Epi.Node.Connections
import Epi.Node.Delivery
import Epi.Node.Sending

namespace Epi.Node

open Verification Epi.Type Epi.Buffer Epi.Queue

/-- Where the thread of `AutoNode::run` stands. The exit flag is looked at above and below the
accepting call. -/
inductive RunPhase where
  | idle
  | above
  | accepting
  | below
  | exited
  deriving DecidableEq, Repr

/-- A node with its exit flag and its thread. -/
structure RunningNode where
  node : AutoNode
  mThreadExit : Bool
  phase : RunPhase

namespace RunningNode

/-- `AutoNode::close`. -/
def close (running : RunningNode) : RunningNode := { running with mThreadExit := true }

/-- The start of the thread in `startAcceptor`. -/
def startAcceptor (running : RunningNode) : RunningNode := { running with phase := .above }

/-- A look at the exit flag. -/
def check (running : RunningNode) : RunningNode :=
  { running with phase :=
      if running.mThreadExit then .exited
      else if running.phase = .above then .accepting
      else .above }

/-- The end of the accepting call. A timeout and an error give no connection. -/
def accept (answer : Option (Bytes × Bytes)) (running : RunningNode) : RunningNode :=
  { running with
    node := match answer with
      | some (peer, cookie) => (AutoNode.acceptConnection peer cookie running.node).2
      | none => running.node
    phase := .below }

end RunningNode

/-- What happens to a running node. -/
inductive RunningEvent where
  | startAcceptor
  | check
  | accept (answer : Option (Bytes × Bytes))
  | send (connect : Bytes → Call (Bytes × Bytes)) (name : Bytes)
  | arrive (acceptor : Nat) (msgResult : EpiMessage)
  | receive (mailbox address : Nat)

/-- The steps of the thread, the sends to other nodes, the messages that arrive, and the receives of
queued messages. A call may come back in any way. -/
inductive RunningStep (ei : Ei) (fuel : Nat) : Transition RunningNode RunningEvent
  | startAcceptor {before : RunningNode} (idle : before.phase = .idle) :
      RunningStep ei fuel before .startAcceptor before.startAcceptor
  | check {before : RunningNode} (looks : before.phase = .above ∨ before.phase = .below) :
      RunningStep ei fuel before .check before.check
  | accept {before : RunningNode} (accepts : before.phase = .accepting)
      (answer : Option (Bytes × Bytes)) :
      RunningStep ei fuel before (.accept answer) (before.accept answer)
  | sendPid {before : RunningNode} (transport : Transport) (toPid : ErlPid) (buffer : PlainBuffer)
      (foreign : isSameHost toPid.mNode.text before.node.localNode.mNodeName
        before.node.localNode.getHostName = false) :
      RunningStep ei fuel before (.send transport.connect toPid.mNode.text)
        { before with node := (AutoNode.sendBuf transport ei fuel toPid buffer before.node).2 }
  | sendName {before : RunningNode} (transport : Transport) (sender : ErlPid) (node toName : Bytes)
      (buffer : PlainBuffer)
      (foreign : isSameHost node before.node.localNode.mNodeName
        before.node.localNode.getHostName = false) :
      RunningStep ei fuel before (.send transport.connect node)
        { before with node :=
            (AutoNode.sendBufTo transport ei fuel sender node toName buffer before.node).2 }
  | arrive {before : RunningNode} (acceptor : Nat) (msgResult : EpiMessage) :
      RunningStep ei fuel before (.arrive acceptor msgResult)
        { before with node := (AutoNode.acceptorDelivers acceptor msgResult before.node).2 }
  | receive {before : RunningNode} {mailbox address : Nat} {rest : List Nat}
      (first : before.node.queueOf mailbox = address :: rest) :
      RunningStep ei fuel before (.receive mailbox address)
        { before with node :=
            (AutoNode.onReceiving mailbox (MailBox.receiveNext ei fuel) before.node).2 }

/-- No connection is made, and the queues get no message. -/
structure Silent (before after : AutoNode) : Prop where
  unconnected : after.connections.length = before.connections.length
  undelivered : ∀ mailbox, after.queueOf mailbox <:+ before.queueOf mailbox

namespace AutoNode

/-- The mailbox that gets a message from a connection with this receiver. -/
def recipient (node : AutoNode) (message : EpiMessage) : Option Address → Option Nat
  | some .node =>
      match message with
      | .sendMessage _ mRecipient => node.getMailBox (some mRecipient)
      | .regSendMessage _ _ mRecipient => node.getRegMailBox mRecipient
      | _ => none
  | some (.mailBox mailbox) => if message.isControl then none else some mailbox
  | _ => none

/-- The mailbox that gets a message from an acceptor. -/
def reached (node : AutoNode) (acceptor : Nat) (message : EpiMessage) : Option Nat := do
  let connection ← node.acceptors[acceptor]?
  let object ← node.connections[connection]?
  node.recipient message object.mReceiver

end AutoNode

/-- The send finds a connection or gets none, nobody connects, and no mailbox gets the message that
arrives. -/
def Quiet (before : RunningNode) : RunningEvent → Prop
  | .accept answer => answer = none
  | .send connect name => before.node.getConnection name ≠ none ∨ (connect name).succeeds = false
  | .arrive acceptor msgResult =>
      ∀ mailbox, before.node.reached acceptor msgResult = some mailbox →
        before.node.mailBoxes.length ≤ mailbox
  | _ => True

def QuietStep (ei : Ei) (fuel : Nat) : Transition RunningNode RunningEvent :=
  fun before event after => Quiet before event ∧ RunningStep ei fuel before event after

/-- The messages that a mailbox received, in order. -/
def receivedBy (mailbox : Nat) (events : List RunningEvent) : List Nat :=
  events.filterMap fun
    | .receive other address => if other = mailbox then some address else none
    | _ => none

/-- The target gets the message if it is there, and everything else stays. -/
structure Enqueues (before after : AutoNode) (target : Option Nat) (msg : Nat) : Prop where
  connections : after.connections = before.connections
  queues : ∀ mailbox, after.queueOf mailbox = before.queueOf mailbox ++
    if target = some mailbox ∧ mailbox < before.mailBoxes.length then [msg] else []

section Closing

variable {node : AutoNode} {msg mailbox : Nat} {message : EpiMessage} {ei : Ei} {fuel : Nat}

theorem Enqueues.nothing {after : AutoNode} (connections : after.connections = node.connections)
    (mailBoxes : after.mailBoxes = node.mailBoxes) : Enqueues node after none msg where
  connections := connections
  queues mailbox := by
    rw [if_neg (by simp), List.append_nil, AutoNode.queueOf, mailBoxes, AutoNode.queueOf]

theorem onMailBox_enqueues (held : node.messages[msg]? = some message)
    (payload : message.isControl = false) (mailbox : Nat) :
    Enqueues node (AutoNode.onMailBox mailbox (MailBox.deliver node.messages msg) node).2
      (some mailbox) msg := by
  cases here : node.mailBoxes[mailbox]? with
  | none =>
      have outside := List.getElem?_eq_none_iff.mp here
      have stopped : AutoNode.onMailBox mailbox (MailBox.deliver node.messages msg) node =
          (.aborts, node) := by
        rw [AutoNode.onMailBox, here]
      rw [stopped]
      refine ⟨rfl, fun other => ?_⟩
      rw [if_neg, List.append_nil]
      rintro ⟨same, inside⟩
      cases same
      omega
  | some object =>
      obtain ⟨inside, -⟩ := List.getElem?_eq_some_iff.mp here
      rw [AutoNode.onMailBox_deliver here held, payload]
      refine ⟨rfl, fun other => ?_⟩
      rw [if_neg (by simp), AutoNode.queueOf_queued here]
      by_cases same : other = mailbox
      · subst same
        simp [inside]
      · simp [same, Ne.symm same]

/-- A mailbox leaves a control message where it is. -/
theorem onMailBox_control (held : node.messages[msg]? = some message)
    (control : message.isControl = true) (mailbox : Nat) :
    (AutoNode.onMailBox mailbox (MailBox.deliver node.messages msg) node).2 = node := by
  cases here : node.mailBoxes[mailbox]? with
  | none => rw [AutoNode.onMailBox, here]
  | some object => rw [AutoNode.onMailBox_deliver here held, control, if_pos rfl]

theorem deliverTo_enqueues (held : node.messages[msg]? = some message)
    (payload : message.isControl = false) (recipient : Option Nat) :
    Enqueues node (AutoNode.deliverTo recipient msg node).2 recipient msg := by
  cases recipient with
  | none => exact .nothing rfl rfl
  | some mailbox =>
      have ran : AutoNode.deliverTo (some mailbox) msg node =
          AutoNode.onMailBox mailbox (MailBox.deliver node.messages msg) node := rfl
      rw [ran]
      exact onMailBox_enqueues held payload mailbox

/-- What an acceptor delivers gets into the queue of the mailbox that it reaches. -/
theorem arrive_enqueues (node : AutoNode) (acceptor : Nat) (message : EpiMessage) :
    Enqueues node (AutoNode.acceptorDelivers acceptor message node).2
      (node.reached acceptor message) node.messages.length := by
  have held : (node.messages ++ [message])[node.messages.length]? = some message := by simp
  rw [AutoNode.acceptorDelivers, Effect.bind_run, Effect.get_run, AutoNode.reached]
  cases owner : node.acceptors[acceptor]? with
  | none =>
      simp only [owner]
      exact .nothing rfl rfl
  | some connection =>
      simp only [owner, Option.bind_eq_bind, Option.bind_some]
      rw [Effect.bind_run, AutoNode.newMessage]
      simp only
      rw [AutoNode.deliverFrom, Effect.bind_run, Effect.get_run]
      -- The message is new, and the node is otherwise as it was.
      have told : ∀ {after target}, Enqueues { node with messages := node.messages ++ [message] }
          after target node.messages.length → Enqueues node after target node.messages.length :=
        fun enqueues => ⟨enqueues.connections, enqueues.queues⟩
      cases target : node.connections[connection]? with
      | none =>
          simp only [target]
          exact .nothing rfl rfl
      | some object =>
          simp only [target, Option.bind_some, AutoNode.recipient]
          cases object.mReceiver with
          | none => exact .nothing rfl rfl
          | some receiver =>
              cases receiver with
              | node =>
                  simp only
                  rw [deliver_run held]
                  cases message with
                  | sendMessage payload mRecipient => exact told (deliverTo_enqueues held rfl _)
                  | regSendMessage payload mSender mRecipient =>
                      exact told (deliverTo_enqueues held rfl _)
                  | _ => exact .nothing rfl rfl
              | mailBox mailbox =>
                  simp only
                  cases payload : message.isControl with
                  | true =>
                      have kept := @onMailBox_control
                        { node with messages := node.messages ++ [message] } node.messages.length
                        message held payload mailbox
                      simp only at kept
                      rw [if_pos rfl, kept]
                      exact .nothing rfl rfl
                  | false => exact told (onMailBox_enqueues held payload mailbox)
              | _ => exact .nothing rfl rfl

theorem takeTerm_queue (ei : Ei) (fuel address : Nat) :
    Effect.Preserves Receiving.mQueue (MailBox.takeTerm ei fuel address) := by
  apply Effect.preserves_get_bind
  intro state
  cases state.messages[address]? with
  | none => rfl
  | some message =>
      simp only
      split
      · rfl
      · split
        · unfold Receiving.onMessage onMessageAt
          split
          · rfl
          · rfl
        · rfl

/-- A receive takes the first message, and nothing else moves. -/
theorem receiveNext_takes {address : Nat} {rest : List Nat}
    (first : node.queueOf mailbox = address :: rest) (ei : Ei) (fuel : Nat) :
    (AutoNode.onReceiving mailbox (MailBox.receiveNext ei fuel) node).2.connections =
        node.connections ∧
      ∀ other, (AutoNode.onReceiving mailbox (MailBox.receiveNext ei fuel) node).2.queueOf other =
        if other = mailbox then rest else node.queueOf other := by
  cases here : node.mailBoxes[mailbox]? with
  | none =>
      rw [AutoNode.queueOf, here] at first
      cases first
  | some object =>
      obtain ⟨inside, -⟩ := List.getElem?_eq_some_iff.mp here
      rw [AutoNode.queueOf_eq here] at first
      have taken : object.mQueue.tryGet = (some address, ⟨rest⟩) :=
        GenericQueue.tryGet_some.mpr first
      have left : (MailBox.receiveNext ei fuel ⟨object.mQueue, node.messages, none⟩).2.mQueue =
          ⟨rest⟩ := by
        rw [MailBox.receiveNext, Method.throwsOnly, Effect.mapOutcome_run, Effect.bind_run,
          Effect.get_run]
        simp only [taken]
        exact takeTerm_queue ei fuel address _
      constructor
      · simp only [AutoNode.onReceiving, here]
      · intro other
        simp only [AutoNode.onReceiving, here]
        rw [AutoNode.queueOf_set inside _ other rfl, left]

/-- A send to another node leaves what the attempt of a connection leaves. -/
theorem sendBuf_foreign {transport : Transport} {toPid : ErlPid} {buffer : PlainBuffer}
    (foreign : isSameHost toPid.mNode.text node.localNode.mNodeName
      node.localNode.getHostName = false) :
    (AutoNode.sendBuf transport ei fuel toPid buffer node).2 =
      (AutoNode.attempConnection transport.connect toPid.mNode.text node).2 := by
  rw [AutoNode.sendBuf, Method.throwsOnly, Effect.mapOutcome_run, Effect.bind_run, Effect.get_run]
  simp only [foreign, Bool.false_eq_true, if_false]
  exact sendRemote_after transport buffer _

theorem sendBufTo_foreign {transport : Transport} {sender : ErlPid} {name toName : Bytes}
    {buffer : PlainBuffer}
    (foreign : isSameHost name node.localNode.mNodeName node.localNode.getHostName = false) :
    (AutoNode.sendBufTo transport ei fuel sender name toName buffer node).2 =
      (AutoNode.attempConnection transport.connect name node).2 := by
  rw [AutoNode.sendBufTo, Method.throwsOnly, Effect.mapOutcome_run, Effect.bind_run, Effect.get_run]
  simp only [foreign, Bool.false_eq_true, if_false]
  exact sendRemote_after transport buffer _

/-- An attempt that finds a connection or gets none leaves the node as it is. -/
theorem attempConnection_quiet {connect : Bytes → Call (Bytes × Bytes)} {name : Bytes}
    (quiet : node.getConnection name ≠ none ∨ (connect name).succeeds = false) :
    (AutoNode.attempConnection connect name node).2 = node := by
  rw [AutoNode.attempConnection_run]
  cases found : node.getConnection name with
  | some connection => rfl
  | none =>
      have failed := quiet.resolve_left (not_not_intro found)
      cases answered : connect name with
      | returns answer =>
          rw [answered] at failed
          cases failed
      | _ => rfl

/-- A new connection is not silent. -/
theorem not_silent_connected (peer cookie : Bytes) : ¬ Silent node (node.connected peer cookie) := by
  intro silent
  have same := silent.unconnected
  simp [AutoNode.connected] at same

theorem silent_attempt {connect : Bytes → Call (Bytes × Bytes)} {name : Bytes}
    (silent : Silent node (AutoNode.attempConnection connect name node).2) :
    node.getConnection name ≠ none ∨ (connect name).succeeds = false := by
  rw [AutoNode.attempConnection_run] at silent
  cases found : node.getConnection name with
  | some connection => exact .inl (by simp)
  | none =>
      rw [found] at silent
      cases answered : connect name with
      | returns answer =>
          obtain ⟨peer, cookie⟩ := answer
          rw [answered] at silent
          exact absurd silent (not_silent_connected peer cookie)
      | _ => exact .inr rfl

/-- A quiet step makes no connection, and the queues lose only what is received. -/
theorem quiet_step {before after : RunningNode} {event : RunningEvent} (quiet : Quiet before event)
    (taken : RunningStep ei fuel before event after) :
    after.node.connections.length = before.node.connections.length ∧
      ∀ mailbox, before.node.queueOf mailbox =
        receivedBy mailbox [event] ++ after.node.queueOf mailbox := by
  cases taken with
  | startAcceptor idle => exact ⟨rfl, fun _ => rfl⟩
  | check looks => exact ⟨rfl, fun _ => rfl⟩
  | accept accepts answer =>
      obtain rfl : answer = none := quiet
      exact ⟨rfl, fun _ => rfl⟩
  | sendPid transport toPid buffer foreign =>
      have same : (AutoNode.sendBuf transport ei fuel toPid buffer before.node).2 = before.node :=
        (sendBuf_foreign foreign).trans (attempConnection_quiet quiet)
      refine ⟨congrArg (·.connections.length) same, fun mailbox => ?_⟩
      exact (congrArg (·.queueOf mailbox) same).symm
  | sendName transport sender node toName buffer foreign =>
      have same : (AutoNode.sendBufTo transport ei fuel sender node toName buffer before.node).2 =
          before.node :=
        (sendBufTo_foreign foreign).trans (attempConnection_quiet quiet)
      refine ⟨congrArg (·.connections.length) same, fun mailbox => ?_⟩
      exact (congrArg (·.queueOf mailbox) same).symm
  | arrive acceptor msgResult =>
      have enqueues := arrive_enqueues before.node acceptor msgResult
      refine ⟨congrArg List.length enqueues.connections, fun mailbox => ?_⟩
      have same := enqueues.queues mailbox
      rw [if_neg, List.append_nil] at same
      · exact same.symm
      · rintro ⟨found, inside⟩
        exact absurd (quiet mailbox found) (Nat.not_le_of_lt inside)
  | @receive _ mailbox address rest first =>
      obtain ⟨connections, queues⟩ := receiveNext_takes first ei fuel
      refine ⟨congrArg List.length connections, fun other => ?_⟩
      simp only [queues]
      by_cases same : other = mailbox
      · rw [if_pos same, same, first]
        simp [receivedBy]
      · rw [if_neg same]
        simp [receivedBy, Ne.symm same]

/-- A step is silent exactly when it is quiet. -/
theorem silent_iff {before after : RunningNode} {event : RunningEvent}
    (taken : RunningStep ei fuel before event after) :
    Silent before.node after.node ↔ Quiet before event := by
  constructor
  · intro silent
    cases taken with
    | accept accepts answer =>
        cases answer with
        | none => rfl
        | some pair =>
            obtain ⟨peer, cookie⟩ := pair
            simp only [RunningNode.accept, AutoNode.acceptConnection_run] at silent
            exact absurd silent (not_silent_connected peer cookie)
    | sendPid transport toPid buffer foreign =>
        simp only [sendBuf_foreign foreign] at silent
        exact silent_attempt silent
    | sendName transport sender node toName buffer foreign =>
        simp only [sendBufTo_foreign foreign] at silent
        exact silent_attempt silent
    | arrive acceptor msgResult =>
        have enqueues := arrive_enqueues before.node acceptor msgResult
        intro mailbox found
        by_contra inside
        have shorter := (silent.undelivered mailbox).length_le
        have longer := congrArg List.length (enqueues.queues mailbox)
        rw [if_pos ⟨found, Nat.lt_of_not_le inside⟩, List.length_append,
          List.length_singleton] at longer
        simp only at shorter
        omega
    | _ => trivial
  · intro quiet
    obtain ⟨connections, queues⟩ := quiet_step quiet taken
    exact ⟨connections, fun mailbox => ⟨_, (queues mailbox).symm⟩⟩

/-- After `close` a run of quiet steps makes no connection, and each queue is what was received and
what can still be received. The first step that is not quiet makes a connection or delivers. -/
theorem close_final (before : RunningNode) {later : List RunningEvent} {last : RunningNode}
    (run : Run (· = before.close) (QuietStep ei fuel) later last) :
    last.node.connections.length = before.node.connections.length ∧
      (∀ mailbox, before.node.queueOf mailbox =
        receivedBy mailbox later ++ last.node.queueOf mailbox) ∧
      (∀ mailbox address rest, last.node.queueOf mailbox = address :: rest →
        ∃ after, RunningStep ei fuel last (.receive mailbox address) after ∧
          after.node.queueOf mailbox = rest) ∧
      ∀ event after, RunningStep ei fuel last event after →
        (Silent last.node after.node ↔ Quiet last event) := by
  have kept : last.node.connections.length = before.node.connections.length ∧
      ∀ mailbox, before.node.queueOf mailbox =
        receivedBy mailbox later ++ last.node.queueOf mailbox := by
    apply run.invariant
    · rintro _ rfl
      exact ⟨rfl, fun _ => rfl⟩
    · rintro events middle event after ⟨connections, queues⟩ ⟨quiet, taken⟩
      obtain ⟨same, taken⟩ := quiet_step quiet taken
      refine ⟨same.trans connections, fun mailbox => ?_⟩
      rw [queues mailbox, taken mailbox, receivedBy, receivedBy, receivedBy, List.filterMap_append,
        List.append_assoc]
  refine ⟨kept.1, kept.2, ?_, fun event after taken => silent_iff taken⟩
  intro mailbox address rest first
  refine ⟨_, .receive first, ?_⟩
  have queues := (receiveNext_takes first ei fuel).2 mailbox
  rwa [if_pos rfl] at queues

end Closing

/-- A network on which every name is connected. -/
def openTransport : Transport :=
  ⟨fun name => .returns (name, text "secret"), fun _ _ _ => .returns (),
    fun _ _ _ _ => .returns ()⟩

/-- A node whose thread waits for connections. It has a connection to `c@d`, and a message is queued
for its mailbox. -/
def busyNode : RunningNode where
  node := (AutoNode.deliver .node 0
    ((nodeWith shellMessage).connected (text "c@d") (text "secret"))).2
  mThreadExit := false
  phase := .accepting

/-- The queued message is received, and something is sent over the connection. -/
def busyEvents : List RunningEvent :=
  [.receive 0 0, .send openTransport.connect (text "c@d")]

theorem busy_run : ∃ last, Run (· = busyNode.close) (QuietStep externalFormat 1) busyEvents last ∧
    last.node.queueOf 0 = [] := by
  let received : RunningNode := { busyNode.close with node :=
    (AutoNode.onReceiving 0 (MailBox.receiveNext externalFormat 1) busyNode.node).2 }
  have start : Run (· = busyNode.close) (QuietStep externalFormat 1) [] busyNode.close := .start rfl
  have first : QuietStep externalFormat 1 busyNode.close (.receive 0 0) received :=
    ⟨trivial, @RunningStep.receive _ _ busyNode.close 0 0 [] rfl⟩
  have held : received.node.getConnection (text "c@d") ≠ none := by
    rw [show received.node.getConnection (text "c@d") = some (.connection 0) from rfl]
    exact Option.some_ne_none _
  have foreign : isSameHost senderPid.mNode.text received.node.localNode.mNodeName
      received.node.localNode.getHostName = false := by decide
  have second : QuietStep externalFormat 1 received (.send openTransport.connect (text "c@d")) _ :=
    ⟨.inl held, .sendPid openTransport senderPid ⟨0, []⟩ foreign⟩
  have quiet : (AutoNode.attempConnection openTransport.connect senderPid.mNode.text
      received.node).2 = received.node := attempConnection_quiet (.inl held)
  refine ⟨_, (start.step first).step second, ?_⟩
  simp only [sendBuf_foreign foreign, quiet]
  rfl

/-- The message is received, and the connection stays the only one. -/
theorem close_final_busy : ∃ last, last.node.queueOf 0 = [] ∧
    last.node.connections.length = busyNode.node.connections.length ∧
    (∀ mailbox, busyNode.node.queueOf mailbox =
      receivedBy mailbox busyEvents ++ last.node.queueOf mailbox) ∧
    (∀ mailbox address rest, last.node.queueOf mailbox = address :: rest →
      ∃ after, RunningStep externalFormat 1 last (.receive mailbox address) after ∧
        after.node.queueOf mailbox = rest) ∧
    ∀ event after, RunningStep externalFormat 1 last event after →
      (Silent last.node after.node ↔ Quiet last event) := by
  obtain ⟨last, run, empty⟩ := busy_run
  exact ⟨last, empty, close_final busyNode run⟩

/-- A node whose thread waits for connections. -/
def waitingNode : RunningNode := ⟨.create (.init (text "a@b") 0), false, .accepting⟩

/-- After `close` the pending call still accepts a connection, and a send opens another one. -/
theorem closed_node_connects : ∃ accepted sent name,
    RunningStep externalFormat 1 waitingNode.close (.accept (some (text "c@d", text "secret")))
      accepted ∧
    accepted.node.getConnection (text "c@d") = some (.connection 0) ∧
    RunningStep externalFormat 1 accepted (.send openTransport.connect name) sent ∧
    sent.node.getConnection name = some (.connection 1) ∧
    ¬ Silent waitingNode.close.node accepted.node ∧ ¬ Silent accepted.node sent.node := by
  have opened : (AutoNode.attempConnection openTransport.connect (text "e@f")
      (waitingNode.node.connected (text "c@d") (text "secret"))).2 =
        (waitingNode.node.connected (text "c@d") (text "secret")).connected (text "e@f")
          (text "secret") := by
    rw [AutoNode.attempConnection_run]
    rfl
  let name : NodeName := ⟨text "e@f", by decide, by decide⟩
  let accepted : RunningNode :=
    ⟨waitingNode.node.connected (text "c@d") (text "secret"), true, .below⟩
  have accepts : RunningStep externalFormat 1 waitingNode.close
      (.accept (some (text "c@d", text "secret"))) accepted := by
    have step : RunningStep externalFormat 1 waitingNode.close
        (.accept (some (text "c@d", text "secret")))
        (waitingNode.close.accept (some (text "c@d", text "secret"))) := .accept rfl _
    rwa [RunningNode.accept, AutoNode.acceptConnection_run] at step
  have sends : RunningStep externalFormat 1 accepted (.send openTransport.connect name.text)
      { accepted with node := accepted.node.connected (text "e@f") (text "secret") } := by
    have step : RunningStep externalFormat 1 accepted (.send openTransport.connect name.text)
        { accepted with node := (AutoNode.sendBuf openTransport externalFormat 1
          ⟨name, 1, 0, 0⟩ ⟨0, []⟩ accepted.node).2 } :=
      .sendPid openTransport ⟨name, 1, 0, 0⟩ ⟨0, []⟩ (by decide)
    rwa [sendBuf_foreign (by decide), opened] at step
  exact ⟨accepted, _, name.text, accepts, rfl, sends, rfl, not_silent_connected _ _,
    not_silent_connected _ _⟩

end Epi.Node
