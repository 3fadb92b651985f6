import Epi.Library.Relay
import Epi.Node.Growth

namespace Epi.Node

open Verification Epi.Type Epi.Buffer Epi.Queue

/-- The sockets between nodes. A line is a node with one of its connections. The frames on its wire
were sent over the connection and not received by the other side, and the far end is the acceptor
that reads them, once the other side has accepted the connection. A message that came over a line is
remembered with it. -/
structure Lines (Host : Type) where
  wire : Host × Nat → List Frame
  far : Host × Nat → Option (Host × Nat)
  cameOver : Host × Nat → Option (Host × Nat)

/-- The nodes with their sockets and the threads of their acceptors. -/
structure Network (Host : Type) extends Lines Host where
  node : Host → AutoNode
  thread : Host × Nat → EIMessageAcceptor

/-- What is seen of a step. A send shows the line that got the frame, and a receive shows the line
that the message came over. -/
inductive NetworkEvent (Host : Type) where
  | send (line : Host × Nat) (destination : Destination) (term : ErlTerm) (outcome : Call Unit)
  | arrive (line : Host × Nat) (delivered : List EpiMessage)
  | receive (host : Host) (mailbox : Nat) (line : Option (Host × Nat))
      (outcome : Call (Option ErlTerm))
  | works

section Changes

variable {Host : Type} [DecidableEq Host]

def Lines.setWire (lines : Lines Host) (line : Host × Nat) (frames : List Frame) : Lines Host :=
  { lines with wire := Function.update lines.wire line frames }

/-- The acceptor reads the wire of the line. -/
def Lines.link (lines : Lines Host) (line : Host × Nat) (host : Host) (acceptor : Nat) :
    Lines Host :=
  { lines with far := Function.update lines.far line (some (host, acceptor)) }

/-- The message of the node came over the line. -/
def Lines.mark (lines : Lines Host) (host : Host) (address : Nat) (line : Host × Nat) :
    Lines Host :=
  { lines with cameOver := Function.update lines.cameOver (host, address) (some line) }

namespace Network

def setNode (net : Network Host) (host : Host) (after : AutoNode) : Network Host :=
  { net with node := Function.update net.node host after }

def setThread (net : Network Host) (host : Host) (acceptor : Nat) (after : EIMessageAcceptor) :
    Network Host :=
  { net with thread := Function.update net.thread (host, acceptor) after }

def setLines (net : Network Host) (lines : Lines Host) : Network Host :=
  { net with toLines := lines }

end Network

end Changes

/-- The steps of the nodes: the sends of attached mailboxes to other nodes and to the own one, the
acceptance of a connection that another node opened, the passes of the acceptors, and the receives
of mailboxes. A connection is opened by the first send, and a send may fail. -/
inductive NetworkStep {Host : Type} [DecidableEq Host] (platform : Platform) (carrier : Carrier)
    (ei : Ei) (fuel : Nat) : Transition (Network Host) (NetworkEvent Host)
  | send {net : Network Host} {host : Host} {mailbox index : Nat} {origin : MailBox}
      {destination : Destination} {term : ErlTerm} {dialling : Dialling} {cookie : Bytes}
      {after : AutoNode} {object : EIConnection} {frame : Frame}
      (sends : (net.node host).mailBoxes[mailbox]? = some origin)
      (own : origin.mSender = some .node) (foreign : destination.Foreign (net.node host))
      (exact : Exact ei term) (enough : term.depth ≤ fuel) (carriable : destination.Carriable)
      (hands : HandsOver platform (EITransport.doConnect (dialling.dial platform) cookie)
        (fun transport => destination.send transport ei (fuel + 1) mailbox (some term))
        destination.nodename (net.node host) after index object frame)
      (sockets : Sockets) :
      NetworkStep platform carrier ei fuel net
        (.send (host, index) destination term (object.sendFrame platform sockets frame))
        ((net.setNode host after).setLines
          (if (object.sendFrame platform sockets frame).succeeds then
            net.setWire (host, index) (net.wire (host, index) ++ [frame])
          else net.toLines))
  | fails {net : Network Host} {host : Host} {mailbox : Nat} {origin : MailBox}
      {destination : Destination} {term : ErlTerm} {dialling : Dialling} {cookie : Bytes}
      (sends : (net.node host).mailBoxes[mailbox]? = some origin)
      (own : origin.mSender = some .node) (foreign : destination.Foreign (net.node host))
      (exact : Exact ei term) (sockets : Sockets)
      (refused : (AutoNode.attempConnection (EITransport.doConnect (dialling.dial platform) cookie)
        destination.nodename (net.node host)).1.succeeds = false) :
      NetworkStep platform carrier ei fuel net .works
        (net.setNode host (destination.send (sockets.transport platform
          (EITransport.doConnect (dialling.dial platform) cookie)) ei (fuel + 1) mailbox (some term)
            (net.node host)).2)
  | sendNear {net : Network Host} {host : Host} {mailbox : Nat} {origin : MailBox}
      {destination : Destination} {term : ErlTerm} (transport : Transport)
      (sends : (net.node host).mailBoxes[mailbox]? = some origin)
      (own : origin.mSender = some .node) (near : ¬ destination.Foreign (net.node host))
      (exact : Exact ei term) :
      NetworkStep platform carrier ei fuel net .works
        (net.setNode host (destination.send transport ei (fuel + 1) mailbox (some term)
          (net.node host)).2)
  | accept {net : Network Host} {opener host : Host} {index acceptor : Nat} {object : EIConnection}
      {peer : AbstractNode} (opened : (net.node opener).connections[index]? = some object)
      (waits : net.far (opener, index) = none) (started : object.mAcceptor = some acceptor)
      (addressed : object.mPeer = (net.node host).localNode.mNodeName)
      (named : AbstractNode.initNodeName (net.node opener).localNode.mNodeName = .returns peer)
      (cookie : Bytes) :
      NetworkStep platform carrier ei fuel net .works
        ((net.setNode host
          (AutoNode.acceptConnection peer.mNodeName cookie (net.node host)).2).setLines
            ((net.link (opener, index) host (net.node host).acceptors.length).link
              (host, (net.node host).connections.length) opener acceptor))
  | arrive {net : Network Host} {line : Host × Nat} {host : Host} {acceptor connection : Nat}
      {object : EIConnection} {frame : Frame} {rest : List Frame} {msg : ErlangMsg}
      {buffer : EIInputBuffer} {delivered : List EpiMessage} {ended : EIMessageAcceptor}
      (accepted : net.far line = some (host, acceptor)) (first : net.wire line = frame :: rest)
      (reads : (net.node host).Reads acceptor connection object)
      (arrives : Arrives carrier ei frame msg buffer)
      (taken : AcceptorStep platform ei (fuel + 1) object.mCookie (net.thread (host, acceptor))
        ⟨.erlMsg msg buffer, delivered⟩ ended) :
      NetworkStep platform carrier ei fuel net (.arrive line delivered)
        (((net.setNode host (AutoNode.acceptorDeliversAll acceptor delivered
          (net.node host)).2).setLines ((net.mark host (net.node host).messages.length line).setWire
            line rest)).setThread host acceptor ended)
  | idles {net : Network Host} {host : Host} {acceptor connection : Nat} {object : EIConnection}
      {result : ReceiveResult} {delivered : List EpiMessage} {ended : EIMessageAcceptor}
      (reads : (net.node host).Reads acceptor connection object)
      (nothing : ∀ msg buffer, result ≠ .erlMsg msg buffer)
      (taken : AcceptorStep platform ei (fuel + 1) object.mCookie (net.thread (host, acceptor))
        ⟨result, delivered⟩ ended) :
      NetworkStep platform carrier ei fuel net .works
        ((net.setNode host (AutoNode.acceptorDeliversAll acceptor delivered
          (net.node host)).2).setThread host acceptor ended)
  | receive {net : Network Host} {host : Host} {mailbox address : Nat} {rest : List Nat}
      (first : (net.node host).queueOf mailbox = address :: rest) :
      NetworkStep platform carrier ei fuel net
        (.receive host mailbox (net.cameOver (host, address))
          (AutoNode.onReceiving mailbox (MailBox.receiveNext ei (fuel + 1)) (net.node host)).1)
        (net.setNode host
          (AutoNode.onReceiving mailbox (MailBox.receiveNext ei (fuel + 1)) (net.node host)).2)

section Events

variable {Host : Type} [DecidableEq Host]

/-- The terms for a mailbox of the node whose sends over a line returned, in order. -/
def sentOver (line : Host × Nat) (node : AutoNode) (mailbox : Nat)
    (events : List (NetworkEvent Host)) : List ErlTerm :=
  events.filterMap fun
    | .send other destination term outcome =>
        if other = line ∧ outcome.succeeds = true ∧ destination.recipient node = some mailbox then
          some term
        else none
    | _ => none

/-- What a mailbox received of the messages that came over a line, in order. -/
def receivedOver (line : Host × Nat) (host : Host) (mailbox : Nat)
    (events : List (NetworkEvent Host)) : List (Call (Option ErlTerm)) :=
  events.filterMap fun
    | .receive other box cameOver outcome =>
        if other = host ∧ box = mailbox ∧ cameOver = some line then some outcome else none
    | _ => none

/-- The messages in the queue of a mailbox that came over a line. -/
def Network.waiting (net : Network Host) (line : Host × Nat) (host : Host) (mailbox : Nat) :
    List Nat :=
  ((net.node host).queueOf mailbox).filter fun address => net.cameOver (host, address) == some line

/-- The frames on a wire for a mailbox of the node. -/
def Network.flying (carrier : Carrier) (net : Network Host) (line : Host × Nat) (host : Host)
    (mailbox : Nat) : List Frame :=
  (net.wire line).filter fun frame => frame.recipient carrier (net.node host) == some mailbox

end Events

/-- No node has a connection, and their names have a host. The registries lead to mailboxes, whose
pids can be sent, and the queues hold messages that are there. -/
structure Unlinked {Host : Type} (net : Network Host) : Prop where
  connections : ∀ host, (net.node host).connections = []
  unknown : ∀ host name, (net.node host).getConnection name = none
  named : ∀ host, atSign ∈ (net.node host).localNode.mNodeName
  pointing : ∀ host, (net.node host).Pointing
  wires : ∀ line, net.wire line = []
  fars : ∀ line, net.far line = none
  unmarked : ∀ place, net.cameOver place = none
  pids : ∀ host, ∀ object ∈ (net.node host).mailBoxes, CarriablePid object.mSelf
  queued : ∀ host mailbox, ∀ address ∈ (net.node host).queueOf mailbox,
    address < (net.node host).messages.length

/-- The nodes `a@b` and `c@d` with a mailbox each. -/
def pairNode (host : Bool) : AutoNode :=
  (AutoNode.createMailBox (.create (.init (if host then text "a@b" else text "c@d") 0))).2

def pairNetwork : Network Bool where
  node := pairNode
  thread := fun _ => ⟨false, none⟩
  wire := fun _ => []
  far := fun _ => none
  cameOver := fun _ => none

theorem unlinked_pairNetwork : Unlinked pairNetwork where
  connections host := by cases host <;> rfl
  unknown host name := by cases host <;> rfl
  named host := by cases host <;> decide
  pointing host := by
    constructor
    · intro pid mailbox found
      obtain ⟨held, member, -, -⟩ := Entries.mem_of_lookup found
      have single : ∃ pid, (pairNode host).mMailBoxes = [(pid, 0)] := by
        cases host <;> exact ⟨_, rfl⟩
      obtain ⟨own, same⟩ := single
      have inside : (held, mailbox) ∈ (pairNode host).mMailBoxes := member
      rw [same, List.mem_singleton] at inside
      cases inside
      cases host <;> decide
    · intro name mailbox found
      cases host <;> cases found
  wires line := rfl
  fars line := rfl
  unmarked place := rfl
  pids host := by cases host <;> decide
  queued host mailbox := by
    have empty : (pairNode host).queueOf mailbox = [] := by
      cases host
      · cases mailbox <;> rfl
      · cases mailbox <;> rfl
    intro address member
    have inside : address ∈ (pairNode host).queueOf mailbox := member
    rw [empty] at inside
    cases inside

/-- The library carries everything as it is. -/
def plainCarrier : Carrier := ⟨id, id⟩

theorem lawful_plainCarrier : plainCarrier.Lawful :=
  ⟨fun _ _ _ _ _ => rfl, fun _ _ _ => rfl⟩

/-- A network on which every node answers and every send succeeds. -/
def openDialling : Dialling := ⟨113, 111, fun _ => none⟩

def openSockets : Sockets := ⟨fun _ _ => 0, fun _ _ => 0⟩

/-- The message to the mailbox of `c@d`. -/
def peerMsg : ErlangMsg := ⟨.erlSend, sentPid senderPid, sentPid senderPid, [], text "secret"⟩

end Epi.Node
