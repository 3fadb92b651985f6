import Epi.Node.Cookie
import Epi.Node.Messaging
import Epi.Node.Reuse

namespace Epi.Node

open Verification Epi.Type Epi.Buffer Epi.Queue

/-- `ErlPid2EI` of a pid that is there. -/
def sentPid (pid : ErlPid) : ErlangPid where
  node := cString pid.mNode.text
  num := pid.mId.toNat
  serial := pid.mSerial.toNat
  creation := pid.mCreation.toNat

/-- What `ei_send_encoded` and `ei_send_reg_encoded` get. -/
inductive Frame where
  | send (toPid : ErlangPid) (payload : Bytes)
  | regSend (fromPid : ErlangPid) (toName payload : Bytes)
  deriving DecidableEq, Repr

/-- The results of the sends over the sockets of the connections, and the error numbers behind
them. -/
structure Sockets where
  eiSend : EIConnection → Frame → Int
  erlErrno : EIConnection → Frame → Nat

namespace EIConnection

/-- The send of a frame and the check of its result. -/
def sendFrame (platform : Platform) (sockets : Sockets) (connection : EIConnection)
    (frame : Frame) : Call Unit :=
  if sockets.eiSend connection frame < 0 then
    .throws (platform.eiException "Error sending data" (sockets.erlErrno connection frame))
  else
    .returns ()

/-- `EIConnection::sendBuf` to a pid. -/
def sendBuf (platform : Platform) (sockets : Sockets) (connection : EIConnection)
    (toPid : ErlPid) (buffer : EIOutputBuffer) : Call Unit :=
  Call.throwsOnly [.epiConnectionException]
    (connection.sendFrame platform sockets (.send (sentPid toPid) buffer.buff))

/-- `EIConnection::sendBuf` to a name. -/
def sendRegBuf (platform : Platform) (sockets : Sockets) (connection : EIConnection)
    (sender : ErlPid) (toName : Bytes) (buffer : EIOutputBuffer) : Call Unit :=
  Call.throwsOnly [.epiConnectionException]
    (connection.sendFrame platform sockets (.regSend (sentPid sender) (cString toName) buffer.buff))

end EIConnection

/-- The connections of `EITransport` over these sockets. -/
def Sockets.transport (sockets : Sockets) (platform : Platform)
    (connect : Bytes → Call (Bytes × Bytes)) : Transport where
  connect := connect
  sendEncoded connection toPid outbuffer := connection.sendBuf platform sockets toPid outbuffer
  sendRegEncoded connection sender toName outbuffer :=
    connection.sendRegBuf platform sockets sender toName outbuffer

/-- The answers of `ei_connect`: no error, or its number. -/
structure Dialling where
  eHostUnreach : Nat
  eConnRefused : Nat
  eiConnect : Bytes → Option Nat

/-- The call of `ei_connect` in `EITransport::do_connect`, with an exception for each of its errors. -/
def Dialling.dial (platform : Platform) (dialling : Dialling) (node : Bytes) : Call Unit :=
  match dialling.eiConnect (cString node) with
  | some erlErrno =>
      if erlErrno = dialling.eHostUnreach then
        .throws (.network "Can not connect: host is unreachable")
      else if erlErrno = platform.eIO then
        .throws (.network "Can not connect: network error")
      else if erlErrno = dialling.eConnRefused then
        .throws (.network "Can not connect: no body in other side")
      else
        .throws (.network "Can not connect")
  | none => .returns ()

/-- A pid of any node, or a name with its node. -/
inductive Destination where
  | pid (toPid : ErlPid)
  | name (nodename toName : Bytes)
  deriving DecidableEq, Repr

namespace Destination

def nodename : Destination → Bytes
  | .pid toPid => toPid.mNode.text
  | .name nodename _ => nodename

/-- The `sendBuf` of the node. -/
def sendBuf (transport : Transport) (ei : Ei) (fuel : Nat) (sender : ErlPid)
    (buffer : PlainBuffer) : Destination → Method AutoNode Unit
  | .pid toPid => AutoNode.sendBuf transport ei fuel toPid buffer
  | .name nodename toName => AutoNode.sendBufTo transport ei fuel sender nodename toName buffer

/-- The `send` of a mailbox. -/
def send (transport : Transport) (ei : Ei) (fuel mailbox : Nat) (term : Option ErlTerm) :
    Destination → Method AutoNode Unit
  | .pid toPid => MailBox.send transport ei fuel mailbox toPid term
  | .name nodename toName => MailBox.sendTo transport ei fuel mailbox nodename toName term

/-- The frame of these bytes. -/
def frame (sender : ErlPid) (payload : Bytes) : Destination → Frame
  | .pid toPid => .send (sentPid toPid) payload
  | .name _ toName => .regSend (sentPid sender) (cString toName) payload

/-- The message in the node that the destination belongs to. -/
def message (sender : ErlPid) (payload : ErlangMessage) : Destination → EpiMessage
  | .pid toPid => .sendMessage payload toPid
  | .name _ toName => .regSendMessage payload sender toName

/-- The mailbox that stands under the destination. -/
def recipient (node : AutoNode) : Destination → Option Nat
  | .pid toPid => node.getMailBox (some toPid)
  | .name _ toName => node.getRegMailBox toName

/-- The node is another one. -/
def Foreign (node : AutoNode) (destination : Destination) : Prop :=
  isSameHost destination.nodename node.localNode.mNodeName node.localNode.getHostName = false

end Destination

/-- The send finds or opens the connection at the index, and gives one frame to its socket. -/
structure HandsOver (platform : Platform) (connect : Bytes → Call (Bytes × Bytes))
    (send : Transport → Method AutoNode Unit) (name : Bytes) (before after : AutoNode)
    (index : Nat) (object : EIConnection) (frame : Frame) : Prop where
  attempted : AutoNode.attempConnection connect name before =
    (.returns (.connection index), after)
  here : after.connections[index]? = some object
  handed : ∀ sockets : Sockets, send (sockets.transport platform connect) before =
    (object.sendFrame platform sockets frame, after)

section Sending

variable {ei : Ei} {fuel mailbox : Nat} {node after : AutoNode} {origin : MailBox} {term : ErlTerm}
  {destination : Destination} {platform : Platform} {sockets : Sockets} {object : EIConnection}
  {frame : Frame}

@[simp] theorem erlPid2EI_some (pid : ErlPid) : erlPid2EI (some pid) = some (sentPid pid) := rfl

/-- The sending fails with the exception of a connection only. -/
theorem throwsOnly_sendFrame (platform : Platform) (sockets : Sockets) (object : EIConnection)
    (frame : Frame) {listed : List ExceptionClass} (allowed : .epiConnectionException ∈ listed) :
    Call.throwsOnly listed (object.sendFrame platform sockets frame) =
      object.sendFrame platform sockets frame := by
  unfold EIConnection.sendFrame
  split
  · apply Call.throwsOnly_eq_throws.mpr
    refine ⟨rfl, List.any_eq_true.mpr ⟨_, allowed, rfl⟩⟩
  · rfl

/-- Two frames that every socket answers alike are one. -/
theorem sendFrame_injective {other : Frame}
    (same : ∀ sockets : Sockets, object.sendFrame platform sockets frame =
      object.sendFrame platform sockets other) : frame = other := by
  by_contra apart
  have answers := same ⟨fun _ asked => if asked = frame then -1 else 0, fun _ _ => 0⟩
  simp [EIConnection.sendFrame, Ne.symm apart] at answers

theorem HandsOver.frame_eq {connect : Bytes → Call (Bytes × Bytes)}
    {send : Transport → Method AutoNode Unit} {name : Bytes} {index : Nat} {other : Frame}
    (hands : HandsOver platform connect send name node after index object frame)
    (again : HandsOver platform connect send name node after index object other) :
    frame = other := by
  apply sendFrame_injective
  intro sockets
  exact congrArg Prod.fst ((hands.handed sockets).symm.trans (again.handed sockets))

/-- The loop is the calls of `writeTerm` in order. -/
theorem encodeTerms_eq (ei : Ei) (fuel : Nat) (earlier terms : List ErlTerm) :
    encodeTerms ei fuel (terms.length + 1) ⟨earlier.length, earlier ++ terms⟩ =
      EIOutputBuffer.writeTerms ei fuel terms := by
  induction terms generalizing earlier with
  | nil => simp [encodeTerms, EIOutputBuffer.writeTerms, PlainBuffer.readTerm]
  | cons term rest ih =>
      have later := ih (earlier ++ [term])
      rw [List.length_append, List.length_singleton, List.append_assoc,
        List.singleton_append] at later
      simp [encodeTerms, EIOutputBuffer.writeTerms, PlainBuffer.readTerm, later]

/-- A mailbox of the node writes a term out and passes it to the node. -/
theorem send_ground {transport : Transport} (sends : node.mailBoxes[mailbox]? = some origin)
    (own : origin.mSender = some .node) (valid : term.Valid) (ground : term.Ground) :
    destination.send transport ei fuel mailbox (some term) node =
      Method.throwsOnly [.epiInvalidTerm, .epiEncodeException, .epiConnectionException]
        (Method.throwsOnly [.epiConnectionException]
          (destination.sendBuf transport ei fuel origin.mSelf ⟨0, [term]⟩)) node := by
  have passes : ∀ sendBuf : MailBox → PlainBuffer → Method AutoNode Unit,
      MailBox.sendVia mailbox (some term) sendBuf node =
        Method.throwsOnly [.epiInvalidTerm, .epiEncodeException, .epiConnectionException]
          (Method.throwsOnly [.epiConnectionException] (sendBuf origin ⟨0, [term]⟩)) node := by
    intro sendBuf
    rw [MailBox.sendVia, Method.throwsOnly, Effect.mapOutcome_run, Effect.bind_run, Effect.get_run]
    simp only [sends, if_pos own, writeOut_ground valid ground, Effect.lift_returns_bind]
    rfl
  cases destination with
  | pid toPid => exact passes _
  | name nodename toName => exact passes _

/-- A foreign destination is sent to over a connection. -/
theorem sendBuf_run (foreign : destination.Foreign node) (connect : Bytes → Call (Bytes × Bytes))
    (sender : ErlPid) (buffer : PlainBuffer) :
    destination.sendBuf (sockets.transport platform connect) ei fuel sender buffer node =
      Method.throwsOnly [.epiConnectionException]
        (AutoNode.sendRemote (sockets.transport platform connect) ei fuel destination.nodename
          buffer fun connection outbuffer => connection.sendFrame platform sockets
            (destination.frame sender outbuffer.buff)) node := by
  cases destination with
  | pid toPid =>
      rw [Destination.sendBuf, AutoNode.sendBuf, Method.throwsOnly, Effect.mapOutcome_run,
        Effect.bind_run, Effect.get_run]
      simp only [Destination.Foreign, Destination.nodename] at foreign
      simp only [foreign, Bool.false_eq_true, if_false, Sockets.transport, EIConnection.sendBuf,
        throwsOnly_sendFrame _ _ _ _ List.mem_cons_self]
      rfl
  | name nodename toName =>
      rw [Destination.sendBuf, AutoNode.sendBufTo, Method.throwsOnly, Effect.mapOutcome_run,
        Effect.bind_run, Effect.get_run]
      simp only [Destination.Foreign, Destination.nodename] at foreign
      simp only [foreign, Bool.false_eq_true, if_false, Sockets.transport, EIConnection.sendRegBuf,
        throwsOnly_sendFrame _ _ _ _ List.mem_cons_self]
      rfl

/-- A send to a foreign destination hands over the encoded term, with the version in front. -/
theorem handsOver_send (lawful : ei.Lawful) (sends : node.mailBoxes[mailbox]? = some origin)
    (own : origin.mSender = some .node) (exact : Exact ei term) (enough : term.depth ≤ fuel)
    (foreign : destination.Foreign node) {connect : Bytes → Call (Bytes × Bytes)} {index : Nat}
    (attempted : AutoNode.attempConnection connect destination.nodename node =
      (.returns (.connection index), after))
    (here : after.connections[index]? = some object) :
    HandsOver platform connect
      (fun transport => destination.send transport ei (fuel + 1) mailbox (some term))
      destination.nodename node after index object
      (destination.frame origin.mSelf (ei.version ++ bytesOf ei term)) := by
  refine ⟨attempted, here, fun sockets => ?_⟩
  have encoded : encodeTerms ei (fuel + 1) 2 ⟨0, [term]⟩ (EIOutputBuffer.create ei true) =
      (.returns (), (EIOutputBuffer.create ei true).add (bytesOf ei term)) := by
    have loop : encodeTerms ei (fuel + 1) 2 ⟨0, [term]⟩ =
        EIOutputBuffer.writeTerms ei (fuel + 1) [term] := encodeTerms_eq ei (fuel + 1) [] [term]
    rw [loop, writeTerms_exact lawful (by simpa using exact) (by simpa using enough)]
    simp
  have remote : AutoNode.sendRemote (sockets.transport platform connect) ei (fuel + 1)
      destination.nodename ⟨0, [term]⟩ (fun connection outbuffer => connection.sendFrame platform
        sockets (destination.frame origin.mSelf outbuffer.buff)) node =
      (object.sendFrame platform sockets
        (destination.frame origin.mSelf (ei.version ++ bytesOf ei term)), after) := by
    have opened : AutoNode.attempConnection (sockets.transport platform connect).connect
        destination.nodename node = (.returns (.connection index), after) := attempted
    rw [AutoNode.sendRemote, Effect.bind_of_returns opened]
    simp only [List.length_singleton, encoded, Effect.bind_run, Effect.get_run, here,
      Effect.lift_run]
    rfl
  rw [send_ground sends own exact.valid exact.ground]
  simp only [Method.throwsOnly, Effect.mapOutcome_run]
  rw [sendBuf_run foreign]
  simp only [Method.throwsOnly, Effect.mapOutcome_run]
  rw [remote]
  rw [throwsOnly_sendFrame, throwsOnly_sendFrame, throwsOnly_sendFrame]
  · simp
  · simp
  · simp

/-- A send to a destination of the own node delivers the message there, whatever the sockets do. -/
theorem send_near {transport : Transport} (sends : node.mailBoxes[mailbox]? = some origin)
    (own : origin.mSender = some .node) (valid : term.Valid) (ground : term.Ground)
    (near : ¬ destination.Foreign node) :
    (destination.send transport ei fuel mailbox (some term) node).2 =
      (AutoNode.deliver .node node.messages.length { node with messages := node.messages ++
        [destination.message origin.mSelf (localMessage ⟨0, [term]⟩)] }).2 := by
  rw [send_ground sends own valid ground]
  simp only [Method.throwsOnly, Effect.mapOutcome_run]
  rw [Destination.Foreign, Bool.not_eq_false] at near
  cases destination with
  | pid toPid =>
      exact congrArg Prod.snd ((staysLocal_sendBuf near ⟨0, [term]⟩).delivered transport)
  | name nodename toName =>
      exact congrArg Prod.snd
        ((staysLocal_sendBufTo near origin.mSelf toName ⟨0, [term]⟩).delivered transport)

end Sending

/-- What the library makes of a pid and of a name on their way to the other side. -/
structure Carrier where
  pid : ErlangPid → ErlangPid
  name : Bytes → Bytes

/-- What fits into the external format comes through as it is. -/
structure Carrier.Lawful (carrier : Carrier) : Prop where
  pid : ∀ pid : ErlangPid, NodeText pid.node → pid.num < 2 ^ 15 → pid.serial < 2 ^ 13 →
    pid.creation < 4 → carrier.pid pid = pid
  name : ∀ name : Bytes, 0 ∉ name → name.length ≤ maxAtomLength → carrier.name name = name

/-- `ei_xreceive_msg_tmo` comes back with the frame. The reads start behind the version, and behind
the payload stand the unused bytes of the buffer. -/
inductive Arrives (carrier : Carrier) (ei : Ei) : Frame → ErlangMsg → EIInputBuffer → Prop
  | send {toPid : ErlangPid} {payload unwritten : Bytes} {msg : ErlangMsg}
      (type : msg.msgtype = .erlSend) (recipient : msg.toPid = carrier.pid toPid) :
      Arrives carrier ei (.send toPid payload) msg ⟨payload ++ unwritten, ei.version.length⟩
  | regSend {fromPid : ErlangPid} {toName payload unwritten : Bytes} {msg : ErlangMsg}
      (type : msg.msgtype = .erlRegSend) (sender : msg.fromPid = carrier.pid fromPid)
      (recipient : msg.toname = carrier.name toName) :
      Arrives carrier ei (.regSend fromPid toName payload) msg
        ⟨payload ++ unwritten, ei.version.length⟩

/-- The pid fits into the external format. -/
def CarriablePid (pid : ErlPid) : Prop := 0 ∉ pid.mNode.text ∧ pid.mId.toNat < 2 ^ 15

instance (pid : ErlPid) : Decidable (CarriablePid pid) := inferInstanceAs (Decidable (_ ∧ _))

/-- The destination fits into the external format. -/
def Destination.Carriable : Destination → Prop
  | .pid toPid => CarriablePid toPid
  | .name _ toName => 0 ∉ toName ∧ toName.length ≤ maxAtomLength

instance : DecidablePred Destination.Carriable
  | .pid toPid => inferInstanceAs (Decidable (CarriablePid toPid))
  | .name _ _ => inferInstanceAs (Decidable (_ ∧ _))

/-- The mailbox that a frame is for. -/
def Frame.recipient (carrier : Carrier) (node : AutoNode) : Frame → Option Nat
  | .send toPid _ =>
      match ei2ErlPid (carrier.pid toPid) with
      | .returns recipient => node.getMailBox (some recipient)
      | _ => none
  | .regSend _ toName _ => node.getRegMailBox (carrier.name toName)

section Arriving

variable {carrier : Carrier} {ei : Ei} {fuel : Nat} {platform : Platform} {pid sender : ErlPid}
  {term : ErlTerm} {destination : Destination} {mCookie : Bytes} {msg : ErlangMsg}
  {buffer : EIInputBuffer}

theorem ei2ErlPid_carried (lawful : carrier.Lawful) (carriable : CarriablePid pid) :
    ei2ErlPid (carrier.pid (sentPid pid)) = .returns pid := by
  have node : cString pid.mNode.text = pid.mNode.text := cString_eq_self carriable.1
  have fits : carrier.pid (sentPid pid) = sentPid pid := by
    apply lawful.pid
    · exact ⟨zero_not_mem_cString _, by rw [sentPid, node]; exact pid.mNode.bounded⟩
    · exact carriable.2
    · exact pid.mSerial.isLt
    · exact pid.mCreation.isLt
  rw [fits, ei2ErlPid, ErlPid.init, sentPid, node, NodeName.check_text]
  simp

theorem frame_recipient (lawful : carrier.Lawful) (carriable : destination.Carriable)
    (sender : ErlPid) (payload : Bytes) (node : AutoNode) :
    (destination.frame sender payload).recipient carrier node = destination.recipient node := by
  cases destination with
  | pid toPid =>
      simp only [Destination.frame, Frame.recipient, ei2ErlPid_carried lawful carriable]
      rfl
  | name nodename toName =>
      obtain ⟨clean, short⟩ := carriable
      simp only [Destination.frame, Frame.recipient, cString_eq_self clean, lawful.name _ clean short]
      rfl

/-- The message of an encoded term has it as its payload. -/
theorem create_encoded (lawful : ei.Lawful) (exact : Exact ei term) (enough : term.depth ≤ fuel)
    (unwritten : Bytes) :
    ∃ payload, ErlangMessage.create ei (fuel + 1) (.eiInputBuffer
        ⟨ei.version ++ bytesOf ei term ++ unwritten, ei.version.length⟩) = .returns payload ∧
      payload.mPayLoad = some term := by
  have read := (exact.yields lawful enough).returns ei.version unwritten
  rw [← List.append_assoc] at read
  obtain ⟨payload, ran, decoded⟩ : ∃ payload, ErlangMessage.getMsg ei (fuel + 1)
      ⟨.eiInputBuffer ⟨ei.version ++ bytesOf ei term ++ unwritten, ei.version.length⟩, none⟩ =
        (.returns (some term), payload) ∧ payload.mPayLoad = some term := by
    simp only [ErlangMessage.getMsg, Method.throwsOnly, Effect.mapOutcome_run, Effect.bind_run,
      Effect.get_run, ErlangMessage.decodeMsg, InputBuffer.readTerm, read]
    exact ⟨_, rfl, rfl⟩
  refine ⟨payload, ?_, decoded⟩
  rw [ErlangMessage.create, ran]
  rfl

/-- The frame of a term becomes the message with this term. -/
theorem toMessage_frame (carries : carrier.Lawful) (lawful : ei.Lawful) (exact : Exact ei term)
    (enough : term.depth ≤ fuel) (carriable : destination.Carriable)
    (origin : CarriablePid sender) (arrives : Arrives carrier ei
      (destination.frame sender (ei.version ++ bytesOf ei term)) msg buffer) :
    ∃ payload, toMessage ei (fuel + 1) msg (.eiInputBuffer buffer) =
        .returns (destination.message sender payload) ∧ payload.mPayLoad = some term := by
  cases destination with
  | pid toPid =>
      cases arrives with
      | @send _ _ unwritten _ type recipient =>
          obtain ⟨payload, created, decoded⟩ := create_encoded lawful exact enough unwritten
          refine ⟨payload, ?_, decoded⟩
          simp only [toMessage, type, recipient, ei2ErlPid_carried carries carriable, created]
          rfl
  | name nodename toName =>
      cases arrives with
      | @regSend _ _ _ unwritten _ type origins recipient =>
          obtain ⟨payload, created, decoded⟩ := create_encoded lawful exact enough unwritten
          refine ⟨payload, ?_, decoded⟩
          obtain ⟨clean, short⟩ := carriable
          simp only [toMessage, type, origins, recipient, ei2ErlPid_carried carries origin, created,
            cString_eq_self clean, carries.name _ clean short]
          rfl

/-- The pass of a message does not end the thread. -/
theorem pass_message_running (acceptor : EIMessageAcceptor) :
    (EIMessageAcceptor.pass platform ei fuel mCookie (.erlMsg msg buffer) acceptor).2.mThreadExit =
      acceptor.mThreadExit := by
  have assigns : ∀ message, Effect.Preserves EIMessageAcceptor.mThreadExit
      (EIMessageAcceptor.assign message) := fun _ _ => rfl
  have checks : Effect.Preserves EIMessageAcceptor.mThreadExit
      (EIMessageAcceptor.checkCookie mCookie msg) := by
    unfold EIMessageAcceptor.checkCookie
    split
    · exact Effect.preserves_pure ()
    · exact assigns _
  have heard : platform.ignores (.erlMsg msg buffer) = false := rfl
  rw [EIMessageAcceptor.pass, heard, if_neg Bool.false_ne_true]
  refine checks.bind (fun _ => ?_) acceptor
  refine Effect.Preserves.bind ?_ fun _ => ?_
  · exact (Effect.preserves_lift _).bind assigns
  · apply Effect.preserves_get_bind
    intro state
    cases state.msgResult <;> rfl

end Arriving

end Epi.Node
