import Epi.Buffer.Sequence
import Epi.Node.AutoNode
import Epi.Node.Name

namespace Epi.Node

open Verification Epi.Type Epi.Buffer Epi.Queue

/-- `getHostName`. The host name stands behind the first separator of the node name. -/
def LocalNode.getHostName (node : LocalNode) : Bytes := (AbstractNode.splitName node.mNodeName).2

/-- `getAliveName`. -/
def LocalNode.getAliveName (node : LocalNode) : Bytes := (AbstractNode.splitName node.mNodeName).1

/-- The transport opens connections, and a connection sends encoded terms to a pid or to a name. -/
structure Transport where
  connect : Bytes → Call (Bytes × Bytes)
  sendEncoded : EIConnection → ErlPid → EIOutputBuffer → Call Unit
  sendRegEncoded : EIConnection → ErlPid → Bytes → EIOutputBuffer → Call Unit

/-- The loop that encodes the terms a `PlainBuffer` still has. -/
def encodeTerms (ei : Ei) (fuel : Nat) : Nat → PlainBuffer → Method EIOutputBuffer Unit
  | 0, _ => Effect.lift .diverges
  | passes + 1, plainbuffer => do
      let (outcome, read) := PlainBuffer.readTerm plainbuffer
      let t ← Effect.lift outcome
      match t with
      | none => return ()
      | some t => do
          EIOutputBuffer.writeTerm ei none fuel (some t)
          encodeTerms ei fuel passes read

namespace AutoNode

/-- The message is made and delivered in the own node. -/
def sendLocal (message : Call EpiMessage) : Method AutoNode Unit := do
  let made ← Effect.lift message
  let msg ← newMessage made
  deliver .node msg

/-- The terms are encoded for a connection to the node, and sent over it. The last pass of the loop
finds no term. -/
def sendRemote (transport : Transport) (ei : Ei) (fuel : Nat) (node : Bytes) (buffer : PlainBuffer)
    (send : EIConnection → EIOutputBuffer → Call Unit) : Method AutoNode Unit := do
  let connection ← attempConnection transport.connect node
  let (encoded, outbuffer) := encodeTerms ei fuel (buffer.mTermList.length + 1) buffer
    (EIOutputBuffer.create ei true)
  Effect.lift encoded
  let after ← Effect.get
  match connection with
  | .connection index =>
      match after.connections[index]? with
      | some object => Effect.lift (send object outbuffer)
      | none => Effect.lift .aborts
  | _ => Effect.lift .aborts

/-- `AutoNode::sendBuf` to a pid. The buffer is one of `AutoNode::newOutputBuffer`, and the sender is
not looked at. -/
def sendBuf (transport : Transport) (ei : Ei) (fuel : Nat) (toPid : ErlPid) (buffer : PlainBuffer) :
    Method AutoNode Unit :=
  Method.throwsOnly [.epiConnectionException] do
    let self ← Effect.get
    if isSameHost toPid.mNode.text self.localNode.mNodeName self.localNode.getHostName then
      sendLocal do
        let msg ← ErlangMessage.create ei fuel (.plainBuffer buffer.getInputBuffer)
        return .sendMessage msg toPid
    else
      sendRemote transport ei fuel toPid.mNode.text buffer fun connection outbuffer =>
        transport.sendEncoded connection toPid outbuffer

/-- `AutoNode::sendBuf` to a name of the own node. -/
def sendBufOwn (ei : Ei) (fuel : Nat) (sender : ErlPid) (toName : Bytes) (buffer : PlainBuffer) :
    Method AutoNode Unit :=
  Method.throwsOnly [.epiConnectionException] <|
    sendLocal do
      let msg ← ErlangMessage.create ei fuel (.plainBuffer buffer.getInputBuffer)
      return .regSendMessage msg sender toName

/-- `AutoNode::sendBuf` to a name of a node. -/
def sendBufTo (transport : Transport) (ei : Ei) (fuel : Nat) (sender : ErlPid) (node toName : Bytes)
    (buffer : PlainBuffer) : Method AutoNode Unit :=
  Method.throwsOnly [.epiConnectionException] do
    let self ← Effect.get
    if isSameHost node self.localNode.mNodeName self.localNode.getHostName then
      sendLocal do
        let msg ← ErlangMessage.create ei fuel (.plainBuffer buffer.getInputBuffer)
        return .regSendMessage msg sender toName
    else
      sendRemote transport ei fuel node buffer fun connection outbuffer =>
        transport.sendRegEncoded connection sender toName outbuffer

end AutoNode

/-- A new buffer of the node with one term. -/
def writeOut (term : Option ErlTerm) : Call PlainBuffer :=
  let (outcome, buffer) := PlainBuffer.writeTerm none term PlainBuffer.create
  outcome >>= fun _ => .returns buffer

namespace MailBox

/-- A mailbox of the node that sends. Without a sender it has no buffer to write to. -/
def sendVia (mailbox : Nat) (term : Option ErlTerm)
    (sendBuf : MailBox → PlainBuffer → Method AutoNode Unit) : Method AutoNode Unit :=
  Method.throwsOnly [.epiInvalidTerm, .epiEncodeException, .epiConnectionException] do
    let node ← Effect.get
    match node.mailBoxes[mailbox]? with
    | none => Effect.lift .aborts
    | some object =>
        if object.mSender = some .node then do
          let buffer ← Effect.lift (writeOut term)
          Method.throwsOnly [.epiConnectionException] (sendBuf object buffer)
        else
          Effect.lift .aborts

/-- `MailBox::send` to a pid. -/
def send (transport : Transport) (ei : Ei) (fuel : Nat) (mailbox : Nat) (toPid : ErlPid)
    (term : Option ErlTerm) : Method AutoNode Unit :=
  sendVia mailbox term fun _ buffer => AutoNode.sendBuf transport ei fuel toPid buffer

/-- `MailBox::send` to a name of the own node. -/
def sendOwn (ei : Ei) (fuel : Nat) (mailbox : Nat) (toName : Bytes) (term : Option ErlTerm) :
    Method AutoNode Unit :=
  sendVia mailbox term fun object buffer => AutoNode.sendBufOwn ei fuel object.mSelf toName buffer

/-- `MailBox::send` to a name of a node. -/
def sendTo (transport : Transport) (ei : Ei) (fuel : Nat) (mailbox : Nat) (nodename toName : Bytes)
    (term : Option ErlTerm) : Method AutoNode Unit :=
  sendVia mailbox term fun object buffer =>
    AutoNode.sendBufTo transport ei fuel object.mSelf nodename toName buffer

end MailBox

/-- The call hands a new message to the delivery of the own node, whatever the transport does, and
no connection is opened. -/
structure StaysLocal (send : Transport → Method AutoNode Unit) (message : EpiMessage)
    (node : AutoNode) : Prop where
  delivered : ∀ transport, send transport node =
    AutoNode.deliver .node node.messages.length { node with messages := node.messages ++ [message] }
  unconnected : ∀ transport, (send transport node).2.connections = node.connections

/-- The call asks for a connection to the name, and it fails when there is none. -/
structure Attempts (send : Transport → Method AutoNode Unit) (name : Bytes) (node : AutoNode) :
    Prop where
  left : ∀ transport, (send transport node).2 =
    (AutoNode.attempConnection transport.connect name node).2
  failed : ∀ transport error,
    (AutoNode.attempConnection transport.connect name node).1 = .throws error →
      (send transport node).1 = .throws error

/-- The message of a local send. It is decoded before anyone asks for it. -/
def localMessage (buffer : PlainBuffer) : ErlangMessage :=
  ⟨.plainBuffer buffer.getInputBuffer, buffer.mTermList.head?⟩

/-- The name is taken for the own node exactly when it denotes it. A send to the own node stays
local, and any other one asks for a connection. -/
structure Routes (ei : Ei) (fuel : Nat) (node : AutoNode) (name : Bytes) : Prop where
  same : isSameHost name node.localNode.mNodeName node.localNode.getHostName = true ↔
    completeName node.localNode.getHostName name = node.localNode.mNodeName
  localPid : completeName node.localNode.getHostName name = node.localNode.mNodeName →
    ∀ (toPid : ErlPid) buffer, toPid.mNode.text = name →
      StaysLocal (fun transport => AutoNode.sendBuf transport ei fuel toPid buffer)
        (.sendMessage (localMessage buffer) toPid) node
  localName : completeName node.localNode.getHostName name = node.localNode.mNodeName →
    ∀ sender toName buffer,
      StaysLocal (fun transport => AutoNode.sendBufTo transport ei fuel sender name toName buffer)
        (.regSendMessage (localMessage buffer) sender toName) node
  remotePid : completeName node.localNode.getHostName name ≠ node.localNode.mNodeName →
    ∀ (toPid : ErlPid) buffer, toPid.mNode.text = name →
      Attempts (fun transport => AutoNode.sendBuf transport ei fuel toPid buffer) name node
  remoteName : completeName node.localNode.getHostName name ≠ node.localNode.mNodeName →
    ∀ sender toName buffer,
      Attempts (fun transport => AutoNode.sendBufTo transport ei fuel sender name toName buffer)
        name node

section Routing

variable {ei : Ei} {fuel : Nat} {node : AutoNode} {name given : Bytes} {base : AbstractNode}

theorem ErlangMessage.create_plainBuffer (ei : Ei) (fuel : Nat) (buffer : PlainBuffer) :
    ErlangMessage.create ei fuel (.plainBuffer buffer.getInputBuffer) =
      .returns (localMessage buffer) := by
  obtain ⟨mDecodeIndex, mTermList⟩ := buffer
  cases mTermList with
  | nil => rfl
  | cons term rest => rfl

/-- The delivery to a mailbox or to none does not throw, and it keeps the connections. -/
theorem deliverTo_local (recipientMailBox : Option Nat) (msg : Nat) (node : AutoNode) :
    (AutoNode.deliverTo recipientMailBox msg node).1.Quiet ∧
      (AutoNode.deliverTo recipientMailBox msg node).2.connections = node.connections := by
  cases recipientMailBox with
  | none => exact ⟨trivial, rfl⟩
  | some mailbox =>
      simp only [AutoNode.deliverTo, Effect.bind_run, Effect.get_run, AutoNode.onMailBox]
      cases node.mailBoxes[mailbox]? with
      | none => exact ⟨trivial, rfl⟩
      | some object =>
          simp only [MailBox.deliver]
          cases node.messages[msg]? with
          | none => exact ⟨trivial, rfl⟩
          | some message =>
              simp only
              cases message.messageType <;> exact ⟨trivial, rfl⟩

/-- A message for a pid or a name stays in the node. -/
theorem staysLocal_of_made {send : Transport → Method AutoNode Unit} {message : EpiMessage}
    (made : message.instanceOf .erlangMsg = true)
    (sends : ∀ transport, send transport node =
      Method.throwsOnly [.epiConnectionException] (AutoNode.sendLocal (.returns message)) node) :
    StaysLocal send message node := by
  have delivers : (AutoNode.sendLocal (.returns message)) node = AutoNode.deliver .node
      node.messages.length { node with messages := node.messages ++ [message] } := rfl
  have calm : (AutoNode.deliver .node node.messages.length
        { node with messages := node.messages ++ [message] }).1.Quiet ∧
      (AutoNode.deliver .node node.messages.length
        { node with messages := node.messages ++ [message] }).2.connections = node.connections := by
    rw [AutoNode.deliver, Effect.bind_run, Effect.get_run]
    simp only [List.getElem?_concat_length]
    cases message with
    | sendMessage msg mRecipient => exact deliverTo_local _ _ _
    | regSendMessage msg mSender mRecipient => exact deliverTo_local _ _ _
    | _ => cases made
  have ran : ∀ transport, send transport node = AutoNode.deliver .node node.messages.length
      { node with messages := node.messages ++ [message] } := by
    intro transport
    rw [sends, Method.throwsOnly, Effect.mapOutcome_of_quiet _ (by rw [delivers]; exact calm.1),
      delivers]
    exact fun outcome quiet => quiet.declares _
  constructor
  · exact ran
  · intro transport
    rw [ran]
    exact calm.2

theorem staysLocal_sendBuf {toPid : ErlPid} (own : isSameHost toPid.mNode.text
      node.localNode.mNodeName node.localNode.getHostName = true) (buffer : PlainBuffer) :
    StaysLocal (fun transport => AutoNode.sendBuf transport ei fuel toPid buffer)
      (.sendMessage (localMessage buffer) toPid) node := by
  apply staysLocal_of_made rfl
  intro transport
  rw [AutoNode.sendBuf, Method.throwsOnly, Effect.mapOutcome_run, Effect.bind_run, Effect.get_run]
  simp only [own, if_true, ErlangMessage.create_plainBuffer]
  rfl

theorem staysLocal_sendBufTo (own : isSameHost name node.localNode.mNodeName
      node.localNode.getHostName = true) (sender : ErlPid) (toName : Bytes) (buffer : PlainBuffer) :
    StaysLocal (fun transport => AutoNode.sendBufTo transport ei fuel sender name toName buffer)
      (.regSendMessage (localMessage buffer) sender toName) node := by
  apply staysLocal_of_made rfl
  intro transport
  rw [AutoNode.sendBufTo, Method.throwsOnly, Effect.mapOutcome_run, Effect.bind_run, Effect.get_run]
  simp only [own, if_true, ErlangMessage.create_plainBuffer]
  rfl

/-- What follows the attempt does not touch the node. -/
theorem sendRemote_after (transport : Transport) (buffer : PlainBuffer)
    (send : EIConnection → EIOutputBuffer → Call Unit) :
    (AutoNode.sendRemote transport ei fuel name buffer send node).2 =
      (AutoNode.attempConnection transport.connect name node).2 := by
  rw [AutoNode.sendRemote, Effect.bind_run]
  rcases AutoNode.attempConnection transport.connect name node with ⟨outcome, after⟩
  cases outcome with
  | returns connection =>
      simp only
      rcases encodeTerms ei fuel (buffer.mTermList.length + 1) buffer
        (EIOutputBuffer.create ei true) with ⟨encoded, outbuffer⟩
      cases encoded with
      | returns finished =>
          simp only [Effect.lift_run, Effect.bind_run, Effect.get_run]
          cases connection with
          | connection index =>
              simp only
              cases after.connections[index]? <;> rfl
          | _ => rfl
      | _ => rfl
  | _ => rfl

theorem sendRemote_throws {transport : Transport} {error : EpiException}
    (failed : (AutoNode.attempConnection transport.connect name node).1 = .throws error)
    (buffer : PlainBuffer) (send : EIConnection → EIOutputBuffer → Call Unit) :
    (AutoNode.sendRemote transport ei fuel name buffer send node).1 = .throws error := by
  rw [AutoNode.sendRemote, Effect.bind_run]
  rcases ran : AutoNode.attempConnection transport.connect name node with ⟨outcome, after⟩
  rw [ran] at failed
  cases failed
  rfl

/-- An attempt throws only what its specification lists. -/
theorem attempConnection_listed {connect : Bytes → Call (Bytes × Bytes)} {error : EpiException}
    (failed : (AutoNode.attempConnection connect name node).1 = .throws error) :
    error.thrownClass.isA .epiConnectionException = true := by
  rw [AutoNode.attempConnection, Method.throwsOnly, Effect.mapOutcome_run] at failed
  simpa using (Call.throwsOnly_eq_throws.mp failed).2

theorem attempts_of_sent {send : Transport → Method AutoNode Unit} {buffer : PlainBuffer}
    {sendOver : Transport → EIConnection → EIOutputBuffer → Call Unit}
    (sends : ∀ transport, send transport node = Method.throwsOnly [.epiConnectionException]
      (AutoNode.sendRemote transport ei fuel name buffer (sendOver transport)) node) :
    Attempts send name node := by
  constructor
  · intro transport
    rw [sends, Method.throwsOnly, Effect.mapOutcome_run]
    exact sendRemote_after transport buffer _
  · intro transport error failed
    rw [sends, Method.throwsOnly, Effect.mapOutcome_run, sendRemote_throws failed]
    simp [Call.throwsOnly, Outcome.declares_throws, attempConnection_listed failed]

theorem getHostName_named (named : Named given base)
    (same : node.localNode.mNodeName = base.mNodeName) :
    node.localNode.getHostName = base.mHostName ∧ node.localNode.getAliveName = base.mAliveName := by
  rw [LocalNode.getHostName, LocalNode.getAliveName, same, named.parts,
    splitName_append named.bare]
  exact ⟨rfl, rfl⟩

/-- The names are routed right except for the own alive name without its host. -/
theorem routes_iff (ei : Ei) (fuel : Nat)
    (started : AbstractNode.initNodeName given = .returns base)
    (same : node.localNode.mNodeName = base.mNodeName) (name : Bytes) :
    Routes ei fuel node name ↔ name ≠ base.mAliveName := by
  have named := named_of_init started
  have host := (getHostName_named named same).1
  have taken : ∀ other, isSameHost other node.localNode.mNodeName node.localNode.getHostName = true ↔
      other = base.mNodeName := by
    intro other
    rw [same, host, named.parts]
    exact isSameHost_iff
  have denotes : ∀ other, completeName node.localNode.getHostName other = node.localNode.mNodeName ↔
      other = base.mAliveName ∨ other = base.mNodeName := by
    intro other
    rw [same, host, named.parts]
    exact completeName_iff named.bare
  have apart : base.mAliveName ≠ base.mNodeName := by
    intro equal
    have bare := named.bare
    rw [equal, named.parts] at bare
    exact bare (by simp)
  constructor
  · rintro routes rfl
    have called := (taken _).mp (routes.same.mpr ((denotes _).mpr (.inl rfl)))
    exact apart called
  · intro other
    have agree : isSameHost name node.localNode.mNodeName node.localNode.getHostName = true ↔
        completeName node.localNode.getHostName name = node.localNode.mNodeName := by
      rw [taken, denotes]
      exact (or_iff_right other).symm
    refine ⟨agree, ?_, ?_, ?_, ?_⟩
    · rintro own toPid buffer rfl
      exact staysLocal_sendBuf (agree.mpr own) buffer
    · intro own sender toName buffer
      exact staysLocal_sendBufTo (agree.mpr own) sender toName buffer
    · rintro foreign toPid buffer rfl
      apply attempts_of_sent
      intro transport
      rw [AutoNode.sendBuf, Method.throwsOnly, Effect.mapOutcome_run, Effect.bind_run,
        Effect.get_run]
      simp only [if_neg (foreign ∘ agree.mp)]
      rfl
    · intro foreign sender toName buffer
      apply attempts_of_sent
      intro transport
      rw [AutoNode.sendBufTo, Method.throwsOnly, Effect.mapOutcome_run, Effect.bind_run,
        Effect.get_run]
      simp only [if_neg (foreign ∘ agree.mp)]
      rfl

end Routing

/-- The node `a` on the host `b`. -/
def ownNode : AutoNode := .create (.init (text "a@b") 0)

def ownBase : AbstractNode := ⟨text "a@b", text "a", text "b"⟩

theorem routes_iff_own : Routes externalFormat 1 ownNode (text "c@d") ↔ text "c@d" ≠ text "a" :=
  have started : AbstractNode.initNodeName (text "a@b") = .returns ownBase := by decide
  routes_iff externalFormat 1 started rfl (text "c@d")

/-- The short name denotes the node, and a send to it looks for a connection. -/
theorem ownNode_short :
    AbstractNode.initNodeName (text "a@b") = .returns ownBase ∧
    completeName ownNode.localNode.getHostName (text "a") = ownNode.localNode.mNodeName ∧
    isSameHost (text "a") ownNode.localNode.mNodeName ownNode.localNode.getHostName = false ∧
    ¬ Routes externalFormat 1 ownNode (text "a") := by
  have missed : isSameHost (text "a") ownNode.localNode.mNodeName
      ownNode.localNode.getHostName = false := by decide
  have denoted : completeName ownNode.localNode.getHostName (text "a") =
      ownNode.localNode.mNodeName := by decide
  refine ⟨by decide, denoted, missed, ?_⟩
  intro routes
  rw [routes.same.mpr denoted] at missed
  cases missed

end Epi.Node
