import Epi.Library.Locking
import Epi.Node.Delivery
import Epi.Node.MailBoxes

namespace Epi.Node

open Verification Epi.Type Epi.Buffer Epi.Queue

/-- The mutexes of a node, of its connections and of the queues of its mailboxes. -/
inductive NodeMutex where
  | regmailboxes
  | connections
  | mailboxes
  | socket (connection : Nat)
  | queue (mailbox : Nat)
  deriving DecidableEq, Repr

/-- The threads of `AutoNode::run` and of `EIMessageAcceptor::run`, the thread that destroys the
node, and the other threads that call it. -/
inductive NodeThread where
  | run (index : Nat)
  | acceptor (index : Nat)
  | destroyer
  | caller (index : Nat)
  deriving DecidableEq, Repr

/-- The threads that are not started by the node. -/
def NodeThread.isCaller : NodeThread → Bool
  | .destroyer | .caller _ => true
  | .run _ | .acceptor _ => false

/-- Where a thread stands in its loop between two passes. -/
inductive LoopPlace where
  | entering
  | looping
  | left
  deriving DecidableEq, Repr

/-- What the network answers: nothing in time, a new peer, a message, or the loss of the socket. -/
inductive Answer where
  | nothing
  | peer (peer cookie : Bytes)
  | message (msgResult : EpiMessage)
  | lost
  deriving Inhabited

/-- A node with the variables of its threads in the build with Boost. The flag `stopped` is the
`mThreadExit` of an acceptor. -/
structure ThreadedNode where
  node : AutoNode
  mThreadExit : Bool
  mThread : Option Nat
  mThreadRunning : Bool
  runs : Nat
  stopped : Nat → Bool
  place : NodeThread → LoopPlace
  destroyed : Bool

abbrev NodeCode := Program NodeThread NodeMutex ThreadedNode Answer

namespace NodeCode

/-- A change of the variables. -/
def update (change : ThreadedNode → ThreadedNode) :
    Instruction NodeThread NodeMutex ThreadedNode Answer :=
  .call fun state _ => (change state, [])

/-- A call of the node. -/
def onNode {Value : Type} (call : Method AutoNode Value) :
    Instruction NodeThread NodeMutex ThreadedNode Answer :=
  update fun state => { state with node := (call state.node).2 }

/-- The code that follows depends on the variables. -/
def look (next : ThreadedNode → NodeCode) : NodeCode := [.call fun state _ => (state, next state)]

/-- The value of a call of the node is passed on. -/
def invoke {Value : Type} (call : Method AutoNode Value) (next : Value → NodeCode) : NodeCode :=
  [.call fun state _ =>
    match call state.node with
    | (.returns value, after) => ({ state with node := after }, next value)
    | (_, after) => ({ state with node := after }, [])]

/-- A change under a mutex. -/
def locked (mutex : NodeMutex) (change : ThreadedNode → ThreadedNode) : NodeCode :=
  [.acquire mutex, update change, .release mutex]

/-- A call of the node under a mutex. -/
def lockedCall {Value : Type} (mutex : NodeMutex) (call : Method AutoNode Value) : NodeCode :=
  locked mutex fun state => { state with node := (call state.node).2 }

/-- A value that is read under a mutex is passed on. -/
def lockedLook (mutex : NodeMutex) (next : ThreadedNode → NodeCode) : NodeCode :=
  .acquire mutex :: look fun state => .release mutex :: next state

/-- The thread leaves its loop. -/
def leave (thread : NodeThread) : Instruction NodeThread NodeMutex ThreadedNode Answer :=
  update fun state => { state with place := Function.update state.place thread .left }

def addMailBox (mailbox : Nat) : NodeCode := lockedCall .mailboxes (AutoNode.addMailBox mailbox)

def createMailBox : NodeCode :=
  invoke AutoNode.newMailBox fun mailbox =>
    onNode (AutoNode.onMailBox mailbox fun object => .returns (object.setSender (some .node))) ::
      addMailBox mailbox

/-- `AutoNode::removeMailBox`. The two mutexes are not held at once. -/
def removeMailBox (mailbox : Nat) : NodeCode :=
  (locked .mailboxes fun state => { state with node := { state.node with
    mMailBoxes := (state.node.mMailBoxes.eraseByValue erlPidPtrCompare mailbox).1 } }) ++
  lockedCall .regmailboxes (AutoNode.unRegisterMailBox mailbox)

def deattachMailBox (mailbox : Nat) : NodeCode :=
  onNode (AutoNode.onMailBox mailbox fun object => .returns (object.setSender none)) ::
    removeMailBox mailbox

def registerMailBox (name : Bytes) (mailbox : Nat) : NodeCode :=
  lockedCall .regmailboxes (AutoNode.registerMailBox name mailbox)

def unRegisterName (name : Bytes) : NodeCode :=
  lockedCall .regmailboxes (AutoNode.unRegisterName name)

def unRegisterMailBox (mailbox : Nat) : NodeCode :=
  lockedCall .regmailboxes (AutoNode.unRegisterMailBox mailbox)

/-- `AutoNode::getMailBox` of a pid. -/
def getMailBox (pid : Option ErlPid) (next : Option Nat → NodeCode) : NodeCode :=
  lockedLook .mailboxes fun state => next (state.node.getMailBox pid)

/-- `AutoNode::getMailBox` of a name. -/
def getRegMailBox (name : Bytes) (next : Option Nat → NodeCode) : NodeCode :=
  lockedLook .regmailboxes fun state => next (state.node.getRegMailBox name)

def getConnection (name : Bytes) (next : Option Address → NodeCode) : NodeCode :=
  lockedLook .connections fun state => next (state.node.getConnection name)

/-- `EIMessageAcceptor::stop`. -/
def stopAcceptor (acceptor : Nat) : NodeCode :=
  [update fun state => { state with stopped := Function.update state.stopped acceptor true },
    .join (.acceptor acceptor)]

/-- `EIConnection::stop`. -/
def stopConnection (connection : Nat) : NodeCode :=
  look fun state =>
    match state.node.connections[connection]? with
    | none => []
    | some object =>
        match object.mAcceptor with
        | none => []
        | some acceptor =>
            stopAcceptor acceptor ++
              [onNode (AutoNode.onConnection connection fun object =>
                { object with mAcceptor := none })]

/-- `EIConnection::close`, which the destructor calls. -/
def closeConnection (connection : Nat) : NodeCode :=
  stopConnection connection ++ locked (.socket connection) id

/-- The `delete` of what the node takes for a connection. -/
def deleteConnection : Address → NodeCode
  | .connection connection => closeConnection connection
  | _ => []

def flushConnections : NodeCode :=
  [.call fun state _ =>
    ({ state with node := (AutoNode.flushConnections state.node).2 },
      state.node.mFlushConnections.flatMap deleteConnection)]

/-- `AutoNode::addConnection`. The list that is flushed does not change under the mutex. -/
def addConnection (connection : Nat) : NodeCode :=
  [.acquire .connections,
    .call fun state _ =>
      ({ state with node := (AutoNode.addConnection connection state.node).2 },
        state.node.mFlushConnections.flatMap deleteConnection),
    .release .connections]

def removeConnection (connection : Address) : NodeCode :=
  lockedCall .connections (AutoNode.removeConnection connection)

/-- `EIConnection::start`. The constructor of the acceptor starts the thread, and `mAcceptor` is set
behind it. -/
def startConnection (connection : Nat) : NodeCode :=
  [.call fun state _ =>
    match state.node.connections[connection]? with
    | none => (state, [])
    | some object =>
        if object.mAcceptor.isSome then
          (state, [])
        else
          ({ state with node := { state.node with
            acceptors := state.node.acceptors ++ [connection] } },
            [.start (.acceptor state.node.acceptors.length),
              onNode (AutoNode.onConnection connection fun object =>
                { object with mAcceptor := some state.node.acceptors.length })])]

/-- A call of the transport, and what follows for a connection that it opens. -/
def openConnection : NodeCode :=
  [.call fun state answer =>
    match answer with
    | .peer peer cookie =>
        ({ state with node := { state.node with
          connections := state.node.connections ++ [⟨peer, cookie, none, none⟩] } },
          addConnection state.node.connections.length ++
            startConnection state.node.connections.length)
    | _ => (state, [])]

def attempConnection (name : Bytes) : NodeCode :=
  getConnection name fun
    | some _ => []
    | none => openConnection

/-- `MailBox::deliver`. Control messages do not get to the queue. -/
def deliverToMailBox (mailbox msg : Nat) : NodeCode :=
  look fun state =>
    match state.node.messages[msg]? with
    | none => []
    | some message =>
        if message.isControl then
          []
        else
          locked (.queue mailbox) fun state => { state with
            node := (AutoNode.onMailBox mailbox (MailBox.deliver state.node.messages msg)
              state.node).2 }

def deliverTo (recipientMailBox : Option Nat) (msg : Nat) : NodeCode :=
  match recipientMailBox with
  | some mailbox => deliverToMailBox mailbox msg
  | none => [onNode (AutoNode.delete (.message msg))]

/-- `AutoNode::deliver`. -/
def deliver (origin : Address) (msg : Nat) : NodeCode :=
  look fun state =>
    match state.node.messages[msg]? with
    | none => []
    | some (.errorMessage _) => removeConnection origin
    | some (.sendMessage _ mRecipient) =>
        getMailBox (some mRecipient) fun found => deliverTo found msg
    | some (.regSendMessage _ _ mRecipient) =>
        getRegMailBox mRecipient fun found => deliverTo found msg
    | some _ => []

/-- `Connection::deliver`. -/
def deliverFrom (connection : Nat) (origin : Address) (msg : Nat) : NodeCode :=
  look fun state =>
    match state.node.connections[connection]? with
    | none => []
    | some object =>
        match object.mReceiver with
        | some .node => deliver origin msg
        | some (.mailBox mailbox) => deliverToMailBox mailbox msg
        | _ => []

def sendLocal (message : EpiMessage) : NodeCode :=
  invoke (AutoNode.newMessage message) fun msg => deliver .node msg

/-- `AutoNode::sendBuf` to a pid. What is sent over a connection takes no mutex. -/
def sendBuf (toPid : ErlPid) (msg : ErlangMessage) : NodeCode :=
  look fun state =>
    if isSameHost toPid.mNode.text state.node.localNode.mNodeName
        state.node.localNode.getHostName then
      sendLocal (.sendMessage msg toPid)
    else
      attempConnection toPid.mNode.text

/-- `AutoNode::sendBuf` to a name of the own node. -/
def sendBufOwn (sender : ErlPid) (toName : Bytes) (msg : ErlangMessage) : NodeCode :=
  sendLocal (.regSendMessage msg sender toName)

/-- `AutoNode::sendBuf` to a name of a node. -/
def sendBufTo (sender : ErlPid) (node toName : Bytes) (msg : ErlangMessage) : NodeCode :=
  look fun state =>
    if isSameHost node state.node.localNode.mNodeName state.node.localNode.getHostName then
      sendLocal (.regSendMessage msg sender toName)
    else
      attempConnection node

/-- What a `get` of the queue does under its mutex, up to its end or to its next wait, which gives
the mutex back. -/
def receive {Value : Type} (mailbox : Nat) (get : Method Receiving Value) : NodeCode :=
  lockedCall (.queue mailbox) (AutoNode.onReceiving mailbox get)

def close : NodeCode := [update fun state => { state with mThreadExit := true }]

/-- The start of the thread in `startAcceptor`, and the variable that is set behind it. -/
def startAcceptor : NodeCode :=
  [.call fun state _ =>
    ({ state with runs := state.runs + 1 },
      [.start (.run state.runs),
        update fun later => { later with mThread := some state.runs }])]

/-- The part of a pass of `EIMessageAcceptor::run` behind a receive. A lost socket ends the loop
without a message. -/
def received (acceptor connection : Nat) (answer : Answer) : NodeCode :=
  look fun state =>
    if state.stopped acceptor then
      [leave (.acceptor acceptor)]
    else
      match answer with
      | .message msgResult =>
          invoke (AutoNode.newMessage msgResult) fun msg =>
            deliverFrom connection (.acceptor acceptor) msg
      | .lost => [leave (.acceptor acceptor)]
      | _ => []

def destroyConnections : NodeCode :=
  [.call fun state _ =>
    ({ state with node := (AutoNode.destroyConnections state.node).2 },
      state.node.mConnections.values.flatMap deleteConnection)]

def destroyMailBoxes : NodeCode :=
  look fun state => (Entries.values state.node.mMailBoxes).flatMap fun mailbox =>
    [onNode (AutoNode.destroyMailBox mailbox)]

/-- The end of the destructor waits for the thread of the node. The `join` of an absent thread has no
defined result. -/
def joinRun : NodeCode :=
  look fun state =>
    if state.mThreadRunning then (state.mThread.map fun index => .join (.run index)).toList else []

/-- `AutoNode::~AutoNode`. -/
def destroy : NodeCode :=
  [update fun state => { state with destroyed := true },
    .acquire .regmailboxes, .acquire .connections, .acquire .mailboxes] ++
  (flushConnections ++ (destroyConnections ++ (destroyMailBoxes ++ (close ++ (joinRun ++
    [.release .mailboxes, .release .connections, .release .regmailboxes])))))

end NodeCode

abbrev NodeThreads := Threads NodeThread NodeMutex ThreadedNode Answer

/-- A node whose own threads are not started. -/
def newThreads (node : AutoNode) : NodeThreads where
  rest := fun _ => []
  holder := fun _ => none
  alive := NodeThread.isCaller
  data :=
    { node := node
      mThreadExit := false
      mThread := none
      mThreadRunning := false
      runs := 0
      stopped := fun _ => false
      place := fun _ => .entering
      destroyed := false }

/-- The node is new. -/
def NodeStarts (state : NodeThreads) : Prop :=
  ∃ node, Unconnected node ∧ state = newThreads node

end Epi.Node
