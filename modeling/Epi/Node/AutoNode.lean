import Epi.Node.LocalNode
import Epi.Node.MailBox
import Epi.Node.PidOrder

namespace Epi.Node

open Verification Epi.Type Epi.Buffer Epi.Queue

/-- An `EIConnection`. The name of the peer is its `getNodeName()`, and null pointers are absent. -/
structure EIConnection where
  mPeer : Bytes
  mCookie : Bytes
  mReceiver : Option Address
  mAcceptor : Option Nat
  deriving DecidableEq, Repr

/-- An `AutoNode`, and the objects that its pointers lead to by their indices. An acceptor is the
index of its `mConnection`. -/
structure AutoNode where
  localNode : LocalNode
  mMailBoxes : Entries (Option ErlPid) Nat
  mRegMailBoxes : OrderedMap Bytes Nat nameLess
  mConnections : OrderedMap Bytes Address nameLess
  mFlushConnections : List Address
  mailBoxes : List MailBox
  connections : List EIConnection
  acceptors : List Nat
  messages : List EpiMessage
  deleted : List Address

namespace AutoNode

/-- The constructor. -/
def create (localNode : LocalNode) : AutoNode where
  localNode := localNode
  mMailBoxes := []
  mRegMailBoxes := .empty
  mConnections := .empty
  mFlushConnections := []
  mailBoxes := []
  connections := []
  acceptors := []
  messages := []
  deleted := []

/-- A call of the base class. -/
def onLocalNode {Value : Type} (call : Method LocalNode Value) : Method AutoNode Value :=
  fun node =>
    let (outcome, after) := call node.localNode
    (outcome, { node with localNode := after })

/-- An update of a mailbox. -/
def onMailBox (mailbox : Nat) (update : MailBox → Call MailBox) : Method AutoNode Unit :=
  fun node =>
    match node.mailBoxes[mailbox]? with
    | none => (.aborts, node)
    | some before =>
        match update before with
        | .returns after => (.returns (), { node with mailBoxes := node.mailBoxes.set mailbox after })
        | .throws error => (.throws error, node)
        | .aborts => (.aborts, node)
        | .diverges => (.diverges, node)

/-- An update of a connection. -/
def onConnection (connection : Nat) (update : EIConnection → EIConnection) : Method AutoNode Unit :=
  fun node =>
    match node.connections[connection]? with
    | none => (.aborts, node)
    | some before =>
        (.returns (), { node with connections := node.connections.set connection (update before) })

/-- `new` of a message. -/
def newMessage (message : EpiMessage) : Method AutoNode Nat := fun node =>
  (.returns node.messages.length, { node with messages := node.messages ++ [message] })

/-- `delete` of an object. -/
def delete (object : Address) : Method AutoNode Unit := fun node =>
  (.returns (), { node with deleted := node.deleted ++ [object] })

/-- `LocalNode::newMailBox`. -/
def newMailBox : Method AutoNode Nat := do
  let self ← onLocalNode LocalNode.createPid
  let node ← Effect.get
  Effect.set { node with mailBoxes := node.mailBoxes ++ [MailBox.create self] }
  return node.mailBoxes.length

/-- `AutoNode::addMailBox`. -/
def addMailBox (mailbox : Nat) : Method AutoNode Unit := do
  let node ← Effect.get
  match node.mailBoxes[mailbox]? with
  | none => Effect.lift .aborts
  | some object =>
      Effect.set { node with
        mMailBoxes := node.mMailBoxes.store erlPidPtrCompare (some object.mSelf) mailbox }

/-- `AutoNode::getMailBox` of a pid. Among opposed keys the list has answers, `std::map` has
none. -/
def getMailBox (node : AutoNode) (pid : Option ErlPid) : Option Nat :=
  node.mMailBoxes.lookup erlPidPtrCompare pid

/-- `AutoNode::getMailBox` of a name. -/
def getRegMailBox (node : AutoNode) (name : Bytes) : Option Nat := node.mRegMailBoxes.find name

/-- `AutoNode::removeMailBox`. -/
def removeMailBox (mailbox : Nat) : Method AutoNode Unit := fun node =>
  (.returns (), { node with
    mMailBoxes := (node.mMailBoxes.eraseByValue erlPidPtrCompare mailbox).1
    mRegMailBoxes := (node.mRegMailBoxes.eraseByValue mailbox).1 })

/-- `AutoNode::createMailBox`. -/
def createMailBox : Method AutoNode Nat := do
  let mailbox ← newMailBox
  onMailBox mailbox fun object => .returns (object.setSender (some .node))
  addMailBox mailbox
  return mailbox

/-- `AutoNode::deattachMailBox`. -/
def deattachMailBox (mailbox : Nat) : Method AutoNode Unit := do
  onMailBox mailbox fun object => .returns (object.setSender none)
  removeMailBox mailbox

/-- `AutoNode::registerMailBox`. -/
def registerMailBox (name : Bytes) (mailbox : Nat) : Method AutoNode Unit := fun node =>
  (.returns (), { node with
    mRegMailBoxes := node.mRegMailBoxes.store nameLess_ordered name mailbox })

/-- `AutoNode::unRegisterMailBox` of a name. -/
def unRegisterName (name : Bytes) : Method AutoNode Unit := fun node =>
  (.returns (), { node with mRegMailBoxes := node.mRegMailBoxes.erase name })

/-- `AutoNode::unRegisterMailBox` of a mailbox. -/
def unRegisterMailBox (mailbox : Nat) : Method AutoNode Unit := fun node =>
  (.returns (), { node with mRegMailBoxes := (node.mRegMailBoxes.eraseByValue mailbox).1 })

/-- `AutoNode::getConnection`. -/
def getConnection (node : AutoNode) (name : Bytes) : Option Address := node.mConnections.find name

/-- `AutoNode::flushConnections`. -/
def flushConnections : Method AutoNode Unit := fun node =>
  (.returns (), { node with
    deleted := node.deleted ++ node.mFlushConnections
    mFlushConnections := [] })

/-- `AutoNode::addConnection`. -/
def addConnection (connection : Nat) : Method AutoNode Unit := do
  let node ← Effect.get
  match node.connections[connection]? with
  | none => Effect.lift .aborts
  | some object =>
      Effect.set { node with
        mConnections := node.mConnections.store nameLess_ordered object.mPeer
          (.connection connection) }
      onConnection connection fun object => { object with mReceiver := some .node }
      flushConnections

/-- `AutoNode::removeConnection`. -/
def removeConnection (connection : Address) : Method AutoNode Unit := fun node =>
  let (mConnections, count) := node.mConnections.eraseByValue connection
  (.returns (), { node with
    mConnections := mConnections
    mFlushConnections :=
      if count > 0 then node.mFlushConnections ++ [connection] else node.mFlushConnections })

/-- `EIConnection::start`. The thread of the acceptor starts in its constructor, and it does not read
`mAcceptor`. -/
def startConnection (connection : Nat) : Method AutoNode Unit := do
  let node ← Effect.get
  match node.connections[connection]? with
  | none => Effect.lift .aborts
  | some object =>
      if object.mAcceptor.isSome then
        return ()
      else do
        Effect.set { node with acceptors := node.acceptors ++ [connection] }
        onConnection connection fun object =>
          { object with mAcceptor := some node.acceptors.length }

/-- `AutoNode::attempConnection`. The transport answers with the peer and the cookie of a new
connection. -/
def attempConnection (connect : Bytes → Call (Bytes × Bytes)) (name : Bytes) :
    Method AutoNode Address :=
  Method.throwsOnly [.epiConnectionException] do
    let node ← Effect.get
    match node.getConnection name with
    | some connection => return connection
    | none => do
        let (peer, cookie) ← Effect.lift (connect name)
        Effect.set { node with connections := node.connections ++ [⟨peer, cookie, none, none⟩] }
        addConnection node.connections.length
        startConnection node.connections.length
        return .connection node.connections.length

/-- The delivery to a mailbox that the node looked up. Without a mailbox the message is deleted. -/
def deliverTo (recipientMailBox : Option Nat) (msg : Nat) : Method AutoNode Unit := do
  match recipientMailBox with
  | some mailbox => do
      let node ← Effect.get
      onMailBox mailbox (MailBox.deliver node.messages msg)
  | none => delete (.message msg)

/-- `AutoNode::deliver`. The origin is taken for a connection. -/
def deliver (origin : Address) (msg : Nat) : Method AutoNode Unit := do
  let node ← Effect.get
  match node.messages[msg]? with
  | none => Effect.lift .aborts
  | some (.errorMessage _) => removeConnection origin
  | some (.sendMessage _ mRecipient) => deliverTo (node.getMailBox (some mRecipient)) msg
  | some (.regSendMessage _ _ mRecipient) => deliverTo (node.getRegMailBox mRecipient) msg
  | some _ => return ()

/-- `Connection::deliver`. The call goes to whatever object is the receiver. -/
def deliverFrom (connection : Nat) (origin : Address) (msg : Nat) : Method AutoNode Unit := do
  let node ← Effect.get
  match node.connections[connection]? with
  | none => Effect.lift .aborts
  | some object =>
      match object.mReceiver with
      | some .node => deliver origin msg
      | some (.mailBox mailbox) => onMailBox mailbox (MailBox.deliver node.messages msg)
      | _ => Effect.lift .aborts

/-- The delivery at the end of a pass of `EIMessageAcceptor::run`. The origin is the acceptor. -/
def acceptorDelivers (acceptor : Nat) (msgResult : EpiMessage) : Method AutoNode Unit := do
  let node ← Effect.get
  match node.acceptors[acceptor]? with
  | none => Effect.lift .aborts
  | some mConnection => do
      let msg ← newMessage msgResult
      deliverFrom mConnection (.acceptor acceptor) msg

/-- A receive of a mailbox of the node. What was received is not looked at again. -/
def onReceiving {Value : Type} (mailbox : Nat) (call : Method Receiving Value) :
    Method AutoNode Value := fun node =>
  match node.mailBoxes[mailbox]? with
  | none => (.aborts, node)
  | some object =>
      let (outcome, after) := call ⟨object.mQueue, node.messages, none⟩
      (outcome, { node with
        mailBoxes := node.mailBoxes.set mailbox { object with mQueue := after.mQueue }
        messages := after.messages })

end AutoNode

end Epi.Node
