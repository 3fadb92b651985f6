import Epi.Node.Network

namespace Epi.Node

open Verification Epi.Type Epi.Buffer Epi.Queue

/-- The frame of a term that can be read back exactly. -/
def Frame.Carries (ei : Ei) (fuel : Nat) (frame : Frame) (term : ErlTerm) : Prop :=
  ∃ (destination : Destination) (sender : ErlPid), destination.Carriable ∧ CarriablePid sender ∧
    Exact ei term ∧ term.depth ≤ fuel ∧
    frame = destination.frame sender (ei.version ++ bytesOf ei term)

/-- What a run showed: the names that were sent to over each line, and the terms that were sent over a
line to a mailbox of a node and received there. -/
structure History (Host : Type) where
  called : List ((Host × Nat) × Bytes)
  sent : Host × Nat → Host → Nat → List ErlTerm
  received : Host × Nat → Host → Nat → List (Call (Option ErlTerm))

/-- What a run keeps of the connections of a node. The registries are those of the start. Each line of
the node that was used or accepted leads to the node of its name, and the acceptors that are far ends
deliver to the node. -/
structure Anchored {Host : Type} (start : Network Host) (called : List ((Host × Nat) × Bytes))
    (far : Host × Nat → Option (Host × Nat)) (host : Host) (node : AutoNode) : Prop where
  registries : node.registries = (start.node host).registries
  pointing : node.Pointing
  wired : node.Wired
  called : ∀ index name, ((host, index), name) ∈ called →
    ∃ object, node.connections[index]? = some object ∧
      object.mPeer = completeName smLocalhost name
  addressed : ∀ index other acceptor, far (host, index) = some (other, acceptor) →
    ∃ object, node.connections[index]? = some object ∧
      object.mPeer = (start.node other).localNode.mNodeName
  fars : ∀ line acceptor, far line = some (host, acceptor) →
    ∃ connection object, node.Reads acceptor connection object

/-- What a run keeps of one node. No line without a connection is in use, and queued and marked
messages are there. What was sent to a mailbox over a line that leads nowhere else was received
there, waits there or is on the wire. -/
structure HostLinked {Host : Type} [DecidableEq Host] (carrier : Carrier) (ei : Ei) (fuel : Nat)
    (start : Network Host) (history : History Host) (lines : Lines Host) (host : Host)
    (node : AutoNode) : Prop where
  anchored : Anchored start history.called lines.far host node
  unused : ∀ index, node.connections.length ≤ index →
    lines.wire (host, index) = [] ∧ lines.far (host, index) = none
  queued : ∀ mailbox, ∀ address ∈ node.queueOf mailbox, address < node.messages.length
  marked : ∀ address, node.messages.length ≤ address → lines.cameOver (host, address) = none
  relays : ∀ line mailbox,
    (∀ other acceptor, lines.far line = some (other, acceptor) → other = host) →
    Relay (Frame.Carries ei fuel) node.HasPayload (fun term => Outcome.returns (some term))
      (history.sent line host mailbox) (history.received line host mailbox)
      ((node.queueOf mailbox).filter fun address => lines.cameOver (host, address) == some line)
      ((lines.wire line).filter fun frame => frame.recipient carrier node == some mailbox)

/-- What a run keeps. Each frame carries a term. -/
structure Linked {Host : Type} [DecidableEq Host] (carrier : Carrier) (ei : Ei) (fuel : Nat)
    (start : Network Host) (history : History Host) (net : Network Host) : Prop where
  carried : ∀ line, ∀ frame ∈ net.wire line, ∃ term, Frame.Carries ei fuel frame term
  hosts : ∀ host, HostLinked carrier ei fuel start history net.toLines host (net.node host)

namespace History

variable {Host : Type} [DecidableEq Host]

/-- A name is sent to over a line. -/
def call (history : History Host) (line : Host × Nat) (name : Bytes) : History Host :=
  { history with called := history.called ++ [(line, name)] }

/-- A frame is sent over a line. -/
def send (carrier : Carrier) (start : Network Host) (line : Host × Nat) (frame : Frame)
    (term : ErlTerm) (history : History Host) : History Host :=
  { history with sent := fun other host mailbox => history.sent other host mailbox ++
      if line = other ∧ frame.recipient carrier (start.node host) = some mailbox then [term]
      else [] }

/-- A mailbox of the node receives a message. -/
def receive (host : Host) (mailbox : Nat) (cameOver : Option (Host × Nat))
    (outcome : Call (Option ErlTerm)) (history : History Host) : History Host :=
  { history with received := fun line other box => history.received line other box ++
      if host = other ∧ mailbox = box ∧ cameOver = some line then [outcome] else [] }

end History

section HostLinked

variable {Host : Type} [DecidableEq Host] {carrier : Carrier} {ei : Ei} {fuel : Nat}
  {start : Network Host} {history : History Host} {lines : Lines Host} {host : Host}
  {before after : AutoNode} {line : Host × Nat} {frame : Frame} {rest : List Frame}
  {term : ErlTerm} {message : EpiMessage} {called : List ((Host × Nat) × Bytes)}
  {far : Host × Nat → Option (Host × Nat)}

omit [DecidableEq Host] in
theorem Anchored.grow (anchored : Anchored start called far host before)
    (grows : Grows before after) (wired : after.Wired) : Anchored start called far host after where
  registries := grows.registries.trans anchored.registries
  pointing := pointing_of_registries anchored.pointing grows.registries
  wired := wired
  called index name member := by
    obtain ⟨object, here, peer⟩ := anchored.called index name member
    exact ⟨object, getElem?_grown grows.connections here, peer⟩
  addressed index other acceptor there := by
    obtain ⟨object, here, peer⟩ := anchored.addressed index other acceptor there
    exact ⟨object, getElem?_grown grows.connections here, peer⟩
  fars line acceptor there := by
    obtain ⟨connection, object, reads⟩ := anchored.fars line acceptor there
    exact ⟨connection, object, grows.reads reads⟩

/-- A line gets its far end. -/
theorem Anchored.link (anchored : Anchored start called far host before) {target : Host}
    {acceptor : Nat} (addressed : line.1 = host → ∃ object,
      before.connections[line.2]? = some object ∧
        object.mPeer = (start.node target).localNode.mNodeName)
    (read : target = host → ∃ connection object, before.Reads acceptor connection object) :
    Anchored start called (Function.update far line (some (target, acceptor))) host before := by
  refine ⟨anchored.registries, anchored.pointing, anchored.wired, anchored.called, ?_, ?_⟩
  · intro index other reader there
    by_cases same : (host, index) = line
    · subst same
      rw [Function.update_self, Option.some.injEq, Prod.mk.injEq] at there
      obtain ⟨rfl, rfl⟩ := there
      exact addressed rfl
    · rw [Function.update_of_ne same] at there
      exact anchored.addressed index other reader there
  · intro origin reader there
    by_cases same : origin = line
    · subst same
      rw [Function.update_self, Option.some.injEq, Prod.mk.injEq] at there
      obtain ⟨rfl, rfl⟩ := there
      exact read rfl
    · rw [Function.update_of_ne same] at there
      exact anchored.fars origin reader there

/-- New messages from no line are not waited for. -/
theorem filter_append_unmarked {queue fresh : List Nat}
    (unmarked : ∀ address ∈ fresh, lines.cameOver (host, address) = none) :
    (queue ++ fresh).filter (fun address => lines.cameOver (host, address) == some line) =
      queue.filter fun address => lines.cameOver (host, address) == some line := by
  have none : fresh.filter (fun address => lines.cameOver (host, address) == some line) = [] := by
    rw [List.filter_eq_nil_iff]
    intro address member
    simp [unmarked address member]
  rw [List.filter_append, none, List.append_nil]

/-- A node grows, and its queues get messages that came over no line. -/
theorem HostLinked.grow (linked : HostLinked carrier ei fuel start history lines host before)
    (grows : Grows before after) (wired : after.Wired)
    (queues : ∀ mailbox, ∃ fresh, after.queueOf mailbox = before.queueOf mailbox ++ fresh ∧
      ∀ address ∈ fresh, before.messages.length ≤ address ∧ address < after.messages.length) :
    HostLinked carrier ei fuel start history lines host after where
  anchored := linked.anchored.grow grows wired
  unused index outside := linked.unused index (grows.connections.length_le.trans outside)
  queued mailbox address member := by
    obtain ⟨fresh, queue, new⟩ := queues mailbox
    rw [queue, List.mem_append] at member
    rcases member with old | added
    · exact (linked.queued mailbox address old).trans_le grows.messages
    · exact (new address added).2
  marked address outside := linked.marked address (grows.messages.trans outside)
  relays line mailbox leads := by
    obtain ⟨fresh, queue, new⟩ := queues mailbox
    have relay := (linked.relays line mailbox leads).mono grows.payloads
    rw [queue, filter_append_unmarked fun address member =>
      linked.marked address (new address member).1]
    simp only [frame_recipient_of_registries grows.registries]
    exact relay

/-- A line that is in use belongs to a connection. -/
theorem HostLinked.apart (linked : HostLinked carrier ei fuel start history lines host before)
    {index : Nat} (outside : before.connections.length ≤ index)
    (first : lines.wire line = frame :: rest) : (host, index) ≠ line := by
  rintro rfl
  have empty := (linked.unused index outside).1
  rw [first] at empty
  cases empty

/-- A name is sent to over a line that leads to its node. -/
theorem HostLinked.call (linked : HostLinked carrier ei fuel start history lines host before)
    {name : Bytes} (leads : line.1 = host → ∃ object, before.connections[line.2]? = some object ∧
      object.mPeer = completeName smLocalhost name) :
    HostLinked carrier ei fuel start (history.call line name) lines host before := by
  obtain ⟨registries, pointing, wired, called, addressed, fars⟩ := linked.anchored
  refine ⟨⟨registries, pointing, wired, ?_, addressed, fars⟩, linked.unused, linked.queued,
    linked.marked, linked.relays⟩
  intro index other member
  rcases List.mem_append.mp member with old | new
  · exact called index other old
  · cases List.mem_singleton.mp new
    exact leads rfl

/-- A frame is put on a wire. -/
theorem HostLinked.put (linked : HostLinked carrier ei fuel start history lines host before)
    (carries : Frame.Carries ei fuel frame term)
    (inside : line.1 = host → line.2 < before.connections.length) :
    HostLinked carrier ei fuel start (history.send carrier start line frame term)
      (lines.setWire line (lines.wire line ++ [frame])) host before := by
  refine ⟨linked.anchored, ?_, linked.queued, linked.marked, ?_⟩
  · intro index outside
    have apart : (host, index) ≠ line := by
      rintro rfl
      exact absurd (inside rfl) (Nat.not_lt.mpr outside)
    simp only [Lines.setWire, Function.update_of_ne apart]
    exact linked.unused index outside
  · intro other mailbox leads
    have relay := linked.relays other mailbox leads
    simp only [History.send, Lines.setWire]
    rw [← frame_recipient_of_registries linked.anchored.registries carrier frame]
    by_cases same : other = line
    · subst same
      rw [Function.update_self, List.filter_append]
      by_cases here : frame.recipient carrier before = some mailbox
      · rw [if_pos ⟨rfl, here⟩, List.filter_cons_of_pos (by simpa using here), List.filter_nil]
        exact relay.send carries
      · rw [if_neg (fun both => here both.2), List.filter_cons_of_neg (by simpa using here),
          List.filter_nil, List.append_nil, List.append_nil]
        exact relay
    · rw [if_neg (fun both => same both.1.symm), List.append_nil, Function.update_of_ne same]
      exact relay

/-- A line gets its far end. -/
theorem HostLinked.link (linked : HostLinked carrier ei fuel start history lines host before)
    (free : lines.far line = none) (inside : line.1 = host → line.2 < before.connections.length)
    {target : Host} {acceptor : Nat} (addressed : line.1 = host → ∃ object,
      before.connections[line.2]? = some object ∧
        object.mPeer = (start.node target).localNode.mNodeName)
    (read : target = host → ∃ connection object, before.Reads acceptor connection object) :
    HostLinked carrier ei fuel start history (lines.link line target acceptor) host before := by
  refine ⟨linked.anchored.link addressed read, ?_, linked.queued, linked.marked, ?_⟩
  · intro index outside
    have apart : (host, index) ≠ line := by
      rintro rfl
      exact absurd (inside rfl) (Nat.not_lt.mpr outside)
    simp only [Lines.link, Function.update_of_ne apart]
    exact linked.unused index outside
  · intro origin mailbox leads
    refine linked.relays origin mailbox ?_
    intro other reader there
    by_cases same : origin = line
    · subst same
      rw [free] at there
      cases there
    · apply leads other reader
      simp only [Lines.link, Function.update_of_ne same]
      exact there

/-- The message of a frame gets behind the others into the queue of its mailbox. -/
theorem HostLinked.arrive (linked : HostLinked carrier ei fuel start history lines host before)
    (first : lines.wire line = frame :: rest)
    (payload : ∀ term, Frame.Carries ei fuel frame term → message.payload = some term)
    (recipient : before.recipient message (some .node) = frame.recipient carrier before)
    (origin : Address) :
    HostLinked carrier ei fuel start history
      ((lines.mark host before.messages.length line).setWire line rest) host
      (before.delivered origin message) := by
  have grows := grows_delivered before origin message
  obtain ⟨connections, -, messages⟩ := delivered_keeps before origin message
  have enqueues := delivered_enqueues before origin message
  rw [recipient] at enqueues
  have longer : (before.delivered origin message).messages.length = before.messages.length + 1 := by
    rw [messages, List.length_append, List.length_singleton]
  have old : ∀ mailbox, ∀ address ∈ before.queueOf mailbox, address ≠ before.messages.length := by
    intro mailbox address member same
    exact absurd (linked.queued mailbox address member) (by omega)
  refine ⟨linked.anchored.grow grows (wired_delivered linked.anchored.wired origin message), ?_, ?_,
    ?_, ?_⟩
  · intro index outside
    rw [connections] at outside
    have kept := linked.unused index outside
    exact ⟨(Function.update_of_ne (linked.apart outside first) _ _).trans kept.1, kept.2⟩
  · intro mailbox address member
    rw [enqueues.queues, List.mem_append] at member
    rw [longer]
    rcases member with queued | added
    · exact (linked.queued mailbox address queued).trans (Nat.lt_succ_self _)
    · split at added
      · obtain rfl := List.mem_singleton.mp added
        exact Nat.lt_succ_self _
      · cases added
  · intro address outside
    rw [longer] at outside
    have apart : (host, address) ≠ (host, before.messages.length) := by
      rintro ⟨⟩
      omega
    exact (Function.update_of_ne apart _ _).trans (linked.marked address (by omega))
  · intro other mailbox leads
    have relay := (linked.relays other mailbox leads).mono grows.payloads
    have kept : (before.queueOf mailbox).filter (fun address =>
        Function.update lines.cameOver (host, before.messages.length) (some line) (host, address) ==
          some other) =
        (before.queueOf mailbox).filter fun address =>
          lines.cameOver (host, address) == some other := by
      apply List.filter_congr
      intro address member
      rw [Function.update_of_ne]
      simpa using old mailbox address member
    simp only [frame_recipient_of_registries grows.registries]
    rw [enqueues.queues, List.filter_append]
    simp only [Lines.mark, Lines.setWire]
    rw [kept]
    by_cases same : other = line
    · subst same
      rw [first] at relay
      rw [Function.update_self]
      by_cases here : frame.recipient carrier before = some mailbox
      · rw [if_pos ⟨here, frame_recipient_inside linked.anchored.pointing here⟩,
          List.filter_cons_of_pos (by simp), List.filter_nil]
        rw [List.filter_cons_of_pos (by simpa using here)] at relay
        apply relay.arrive
        intro term carries
        exact ⟨message, by rw [messages, List.getElem?_concat_length], payload term carries⟩
      · rw [if_neg (fun both => here both.1), List.filter_nil, List.append_nil]
        rwa [List.filter_cons_of_neg (by simpa using here)] at relay
    · rw [Function.update_of_ne same]
      have none : (if frame.recipient carrier before = some mailbox ∧
          mailbox < before.mailBoxes.length then [before.messages.length] else []).filter
            (fun address => Function.update lines.cameOver (host, before.messages.length)
              (some line) (host, address) == some other) = [] := by
        split
        · simp [Ne.symm same]
        · rfl
      rw [none, List.append_nil]
      exact relay

/-- A frame that arrives is not seen by another node. -/
theorem HostLinked.arriveElsewhere
    (linked : HostLinked carrier ei fuel start history lines host before) {other : Host}
    (apart : host ≠ other) {acceptor address : Nat}
    (accepted : lines.far line = some (other, acceptor)) (first : lines.wire line = frame :: rest) :
    HostLinked carrier ei fuel start history ((lines.mark other address line).setWire line rest) host
      before := by
  have unmarked : ∀ held, Function.update lines.cameOver (other, address) (some line) (host, held) =
      lines.cameOver (host, held) := by
    intro held
    rw [Function.update_of_ne]
    simp [apart]
  refine ⟨linked.anchored, ?_, linked.queued, ?_, ?_⟩
  · intro index outside
    have kept := linked.unused index outside
    exact ⟨(Function.update_of_ne (linked.apart outside first) _ _).trans kept.1, kept.2⟩
  · intro held outside
    exact (unmarked held).trans (linked.marked held outside)
  · intro origin mailbox leads
    have different : origin ≠ line := by
      rintro rfl
      exact apart (leads other acceptor accepted).symm
    simp only [Lines.mark, Lines.setWire, unmarked, Function.update_of_ne different]
    exact linked.relays origin mailbox leads

/-- The first message of a queue is received. -/
theorem HostLinked.receive (linked : HostLinked carrier ei fuel start history lines host before)
    {mailbox address : Nat} {queue : List Nat} (first : before.queueOf mailbox = address :: queue) :
    HostLinked carrier ei fuel start
      (history.receive host mailbox (lines.cameOver (host, address))
        (AutoNode.onReceiving mailbox (MailBox.receiveNext ei (fuel + 1)) before).1) lines host
      (AutoNode.onReceiving mailbox (MailBox.receiveNext ei (fuel + 1)) before).2 := by
  obtain ⟨grows, wired⟩ := grows_receive first ei (fuel + 1)
  obtain ⟨connections, queues⟩ := receiveNext_takes first ei (fuel + 1)
  have messages := receive_messages first ei (fuel + 1)
  refine ⟨linked.anchored.grow grows (wired linked.anchored.wired), ?_, ?_, ?_, ?_⟩
  · intro index outside
    rw [connections] at outside
    exact linked.unused index outside
  · intro other held member
    rw [messages]
    rw [queues] at member
    split at member
    · exact linked.queued mailbox held (by rw [first]; exact List.mem_cons_of_mem _ member)
    · exact linked.queued other held member
  · intro held outside
    rw [messages] at outside
    exact linked.marked held outside
  · intro line other leads
    have relay := linked.relays line other leads
    simp only [frame_recipient_of_registries grows.registries]
    dsimp only [History.receive]
    rw [queues]
    by_cases same : other = mailbox
    · subst same
      rw [if_pos rfl]
      rw [first] at relay
      by_cases came : lines.cameOver (host, address) = some line
      · rw [if_pos ⟨rfl, rfl, came⟩]
        rw [List.filter_cons_of_pos (by simpa using came)] at relay
        refine (relay.receive ?_).mono grows.payloads
        intro term has
        exact receive_payload first has ei (fuel + 1)
      · rw [if_neg (fun all => came all.2.2), List.append_nil]
        rw [List.filter_cons_of_neg (by simpa using came)] at relay
        exact relay.mono grows.payloads
    · rw [if_neg same, if_neg (fun all => same all.2.1.symm), List.append_nil]
      exact relay.mono grows.payloads

/-- What another node receives is not seen. -/
theorem HostLinked.receiveElsewhere
    (linked : HostLinked carrier ei fuel start history lines host before) {other : Host}
    (apart : host ≠ other) (mailbox : Nat) (cameOver : Option (Host × Nat))
    (outcome : Call (Option ErlTerm)) :
    HostLinked carrier ei fuel start (history.receive other mailbox cameOver outcome) lines host
      before := by
  refine ⟨linked.anchored, linked.unused, linked.queued, linked.marked, ?_⟩
  intro line box leads
  simp only [History.receive]
  rw [if_neg (fun all => apart all.1.symm), List.append_nil]
  exact linked.relays line box leads

end HostLinked

section Network

variable {Host : Type} [DecidableEq Host] {platform : Platform} {carrier : Carrier} {ei : Ei}
  {fuel : Nat} {start net next : Network Host} {history : History Host} {host : Host} {after : AutoNode}
  {line : Host × Nat} {frame : Frame} {rest : List Frame} {term : ErlTerm}
  {event : NetworkEvent Host} {events : List (NetworkEvent Host)}

/-- A property of all nodes is kept when the changed one has it. -/
theorem forall_setNode {Holds : Host → AutoNode → Prop}
    (others : ∀ other, other ≠ host → Holds other (net.node other)) (changed : Holds host after)
    (other : Host) : Holds other ((net.setNode host after).node other) := by
  simp only [Network.setNode]
  by_cases same : other = host
  · subst same
    rwa [Function.update_self]
  · rw [Function.update_of_ne same]
    exact others other same

theorem Linked.grow (linked : Linked carrier ei fuel start history net)
    (grows : Grows (net.node host) after) (wired : after.Wired)
    (queues : ∀ mailbox, ∃ fresh, after.queueOf mailbox =
      (net.node host).queueOf mailbox ++ fresh ∧ ∀ address ∈ fresh,
        (net.node host).messages.length ≤ address ∧ address < after.messages.length) :
    Linked carrier ei fuel start history (net.setNode host after) :=
  ⟨linked.carried, forall_setNode (fun other _ => linked.hosts other)
    ((linked.hosts host).grow grows wired queues)⟩

/-- A message that came over no line is delivered. -/
theorem Linked.deliver (linked : Linked carrier ei fuel start history net) (origin : Address)
    (message : EpiMessage) :
    Linked carrier ei fuel start history
      (net.setNode host ((net.node host).delivered origin message)) := by
  obtain ⟨-, -, messages⟩ := delivered_keeps (net.node host) origin message
  refine linked.grow (grows_delivered _ origin message)
    (wired_delivered (linked.hosts host).anchored.wired origin message) ?_
  intro mailbox
  refine ⟨_, (delivered_enqueues _ origin message).queues mailbox, ?_⟩
  intro address member
  split at member
  · obtain rfl := List.mem_singleton.mp member
    rw [messages, List.length_append, List.length_singleton]
    exact ⟨le_rfl, Nat.lt_succ_self _⟩
  · cases member

/-- An attempt of a connection changes nothing else. -/
theorem Linked.attempt (linked : Linked carrier ei fuel start history net) (host : Host)
    (platform : Platform) (dialling : Dialling) (cookie name : Bytes) :
    Linked carrier ei fuel start history (net.setNode host (AutoNode.attempConnection
      (EITransport.doConnect (dialling.dial platform) cookie) name (net.node host)).2) := by
  obtain ⟨grows, wired, queues⟩ := @grows_attempt (net.node host) platform dialling cookie name
  refine linked.grow grows (wired (linked.hosts host).anchored.wired) ?_
  intro mailbox
  refine ⟨[], by rw [queues, List.append_nil], ?_⟩
  intro address member
  cases member

/-- A name is sent to over a line that leads to its node. -/
theorem Linked.call (linked : Linked carrier ei fuel start history net) (line : Host × Nat)
    {name : Bytes} {object : EIConnection} (here : (net.node line.1).connections[line.2]? = some object)
    (peer : object.mPeer = completeName smLocalhost name) :
    Linked carrier ei fuel start (history.call line name) net := by
  refine ⟨linked.carried, fun other => (linked.hosts other).call ?_⟩
  rintro rfl
  exact ⟨object, here, peer⟩

/-- A frame is put on the wire of a connection. -/
theorem Linked.put (linked : Linked carrier ei fuel start history net)
    (carries : Frame.Carries ei fuel frame term)
    (inside : line.2 < (net.node line.1).connections.length) :
    Linked carrier ei fuel start (history.send carrier start line frame term)
      (net.setLines (net.setWire line (net.wire line ++ [frame]))) where
  carried other := by
    by_cases same : other = line
    · subst same
      simp only [Network.setLines, Lines.setWire, Function.update_self, List.forall_mem_append,
        List.forall_mem_singleton]
      exact ⟨linked.carried other, term, carries⟩
    · simp only [Network.setLines, Lines.setWire, Function.update_of_ne same]
      exact linked.carried other
  hosts host := by
    apply (linked.hosts host).put carries
    rintro rfl
    exact inside

/-- A line gets its far end. -/
theorem Linked.link (linked : Linked carrier ei fuel start history net) (host : Host)
    (acceptor : Nat) (free : net.far line = none) {opened : EIConnection}
    (here : (net.node line.1).connections[line.2]? = some opened)
    (addressed : opened.mPeer = (start.node host).localNode.mNodeName) {connection : Nat}
    {object : EIConnection} (reads : (net.node host).Reads acceptor connection object) :
    Linked carrier ei fuel start history (net.setLines (net.link line host acceptor)) where
  carried := linked.carried
  hosts other := by
    refine (linked.hosts other).link free ?_ ?_ ?_
    · rintro rfl
      exact (List.getElem?_eq_some_iff.mp here).1
    · rintro rfl
      exact ⟨opened, here, addressed⟩
    · rintro rfl
      exact ⟨connection, object, reads⟩

/-- An accepted connection links both of its lines. -/
theorem Linked.accept (linked : Linked carrier ei fuel start history net) {opener : Host}
    {index acceptor : Nat} {object : EIConnection}
    (opened : (net.node opener).connections[index]? = some object)
    (waits : net.far (opener, index) = none) (started : object.mAcceptor = some acceptor)
    (addressed : object.mPeer = (start.node host).localNode.mNodeName)
    (full : atSign ∈ (start.node opener).localNode.mNodeName) (cookie : Bytes) :
    Linked carrier ei fuel start history
      ((net.setNode host ((net.node host).connected (start.node opener).localNode.mNodeName
        cookie)).setLines ((net.link (opener, index) host (net.node host).acceptors.length).link
          (host, (net.node host).connections.length) opener acceptor)) := by
  generalize named : (start.node opener).localNode.mNodeName = peer at full
  have grows := @grows_connected (net.node host) peer cookie
  have inside : index < (net.node opener).connections.length :=
    (List.getElem?_eq_some_iff.mp opened).1
  have added : Linked carrier ei fuel start history
      (net.setNode host ((net.node host).connected peer cookie)) := by
    refine linked.grow grows (wired_connected (linked.hosts host).anchored.wired full cookie) ?_
    intro mailbox
    refine ⟨[], (List.append_nil _).symm, ?_⟩
    intro address member
    cases member
  have reads : (net.node opener).Reads acceptor index object := by
    obtain ⟨reader, reads⟩ := (linked.hosts opener).anchored.wired.read index object opened
    obtain rfl := Option.some.inj (started.symm.trans reads.2.2.2)
    exact reads
  -- What the opening node has is still there when it is the accepting one.
  have still : ((net.setNode host ((net.node host).connected peer cookie)).node opener).Reads acceptor
      index object := by
    simp only [Network.setNode]
    by_cases same : opener = host
    · subst same
      rw [Function.update_self]
      exact grows.reads reads
    · rw [Function.update_of_ne same]
      exact reads
  have fresh : (host, (net.node host).connections.length) ≠ (opener, index) := by
    rintro ⟨⟩
    exact absurd inside (Nat.lt_irrefl _)
  have new : ((net.setNode host ((net.node host).connected peer cookie)).node host).Reads
      (net.node host).acceptors.length (net.node host).connections.length
        ⟨peer, cookie, some .node, some (net.node host).acceptors.length⟩ := by
    simp only [Network.setNode, Function.update_self]
    exact reads_connected peer cookie
  have first := added.link host (net.node host).acceptors.length waits still.2.1 addressed new
  refine first.link opener acceptor ?_ new.2.1 named.symm still
  exact (Function.update_of_ne fresh _ _).trans ((linked.hosts host).unused _ le_rfl).2

/-- The first frame of a wire becomes a message of the node at the far end. -/
theorem Linked.arrive (linked : Linked carrier ei fuel start history net) {acceptor : Nat}
    {message : EpiMessage} (accepted : net.far line = some (host, acceptor))
    (first : net.wire line = frame :: rest)
    (payload : ∀ term, Frame.Carries ei fuel frame term → message.payload = some term)
    (recipient : (net.node host).recipient message (some .node) =
      frame.recipient carrier (net.node host)) (origin : Address) :
    Linked carrier ei fuel start history
      ((net.setNode host ((net.node host).delivered origin message)).setLines
        ((net.mark host (net.node host).messages.length line).setWire line rest)) where
  carried other := by
    by_cases same : other = line
    · subst same
      simp only [Network.setLines, Lines.setWire, Function.update_self]
      intro flying member
      exact linked.carried other flying (by rw [first]; exact List.mem_cons_of_mem _ member)
    · simp only [Network.setLines, Lines.setWire, Function.update_of_ne same]
      exact linked.carried other
  hosts := forall_setNode
    (fun other apart => (linked.hosts other).arriveElsewhere apart accepted first)
    ((linked.hosts host).arrive first payload recipient origin)

theorem Linked.receive (linked : Linked carrier ei fuel start history net) {mailbox address : Nat}
    {queue : List Nat} (first : (net.node host).queueOf mailbox = address :: queue) :
    Linked carrier ei fuel start
      (history.receive host mailbox (net.cameOver (host, address))
        (AutoNode.onReceiving mailbox (MailBox.receiveNext ei (fuel + 1)) (net.node host)).1)
      (net.setNode host
        (AutoNode.onReceiving mailbox (MailBox.receiveNext ei (fuel + 1)) (net.node host)).2) :=
  ⟨linked.carried, forall_setNode
    (fun other apart => (linked.hosts other).receiveElsewhere apart mailbox _ _)
    ((linked.hosts host).receive first)⟩

/-- The thread of an acceptor is not seen by the lines. -/
theorem Linked.setThread (linked : Linked carrier ei fuel start history net) (host : Host)
    (acceptor : Nat) (ended : EIMessageAcceptor) :
    Linked carrier ei fuel start history (net.setThread host acceptor ended) :=
  ⟨linked.carried, linked.hosts⟩

/-- The pass of a frame delivers one message, with the term of the frame, to its mailbox, and the
thread goes on. -/
theorem arrive_message (fits : carrier.Lawful) (lawful : ei.Lawful)
    (carries : Frame.Carries ei fuel frame term) {msg : ErlangMsg} {buffer : EIInputBuffer}
    (arrives : Arrives carrier ei frame msg buffer) {mCookie : Bytes} {delivered : List EpiMessage}
    {before ended : EIMessageAcceptor}
    (taken : AcceptorStep platform ei (fuel + 1) mCookie before ⟨.erlMsg msg buffer, delivered⟩
      ended) :
    ended.mThreadExit = false ∧ ∃ message, delivered = [message] ∧
      (∀ other, Frame.Carries ei fuel frame other → message.payload = some other) ∧
      ∀ node : AutoNode, node.recipient message (some .node) = frame.recipient carrier node := by
  have made : ∀ other, Frame.Carries ei fuel frame other → ∃ (destination : Destination)
      (sender : ErlPid) (payload : ErlangMessage), destination.Carriable ∧
      frame = destination.frame sender (ei.version ++ bytesOf ei other) ∧
      toMessage ei (fuel + 1) msg (.eiInputBuffer buffer) =
        .returns (destination.message sender payload) ∧ payload.mPayLoad = some other := by
    rintro other ⟨destination, sender, carriable, origin, exact, enough, rfl⟩
    obtain ⟨payload, converted, decoded⟩ :=
      toMessage_frame fits lawful exact enough carriable origin arrives
    exact ⟨destination, sender, payload, carriable, rfl, converted, decoded⟩
  obtain ⟨destination, sender, payload, carriable, built, converted, decoded⟩ := made term carries
  have outcome := @pass_message platform ei (fuel + 1) mCookie msg buffer before
  rw [converted] at outcome
  have running := @pass_message_running ei (fuel + 1) platform mCookie msg buffer before
  cases taken with
  | crashes alive crashed last => exact (crashed _ _ (Prod.ext outcome rfl)).elim
  | passes alive ran =>
      rw [ran] at outcome running
      refine ⟨running.trans alive, _, Outcome.returns.inj outcome, ?_, ?_⟩
      · intro other again
        obtain ⟨target, origin, content, -, -, equal, read⟩ := made other again
        rw [converted] at equal
        rw [Outcome.returns.inj equal]
        cases target <;> exact read
      · intro node
        rw [built, frame_recipient fits carriable]
        cases destination <;> rfl

/-- The names that were sent to, with the lines that the sends took. -/
def calledBy (events : List (NetworkEvent Host)) : List ((Host × Nat) × Bytes) :=
  events.filterMap fun
    | .send line destination _ _ => some (line, destination.nodename)
    | _ => none

/-- What the events of a run show. -/
def historyOf (start : Network Host) (events : List (NetworkEvent Host)) : History Host where
  called := calledBy events
  sent line host mailbox := sentOver line (start.node host) mailbox events
  received line host mailbox := receivedOver line host mailbox events

/-- A successful send adds its term, and a failed one its name only. -/
theorem historyOf_send (fits : carrier.Lawful) {destination : Destination}
    (carriable : destination.Carriable) (sender : ErlPid) (payload : Bytes) (outcome : Call Unit) :
    historyOf start (events ++ [.send line destination term outcome]) =
      if outcome.succeeds then
        ((historyOf start events).call line destination.nodename).send carrier start line
          (destination.frame sender payload) term
      else (historyOf start events).call line destination.nodename := by
  cases done : outcome.succeeds with
  | false => simp [historyOf, History.call, calledBy, sentOver, receivedOver, done]
  | true =>
      simp only [historyOf, History.call, History.send, calledBy, sentOver, receivedOver,
        List.filterMap_append, List.filterMap_cons, List.filterMap_nil, done, true_and, if_true,
        frame_recipient fits carriable, List.append_nil, History.mk.injEq, and_true]
      ext other host mailbox : 3
      by_cases chosen : line = other ∧ destination.recipient (start.node host) = some mailbox
      · rw [if_pos chosen, if_pos chosen]
      · rw [if_neg chosen, if_neg chosen]

theorem historyOf_receive {mailbox : Nat} {cameOver : Option (Host × Nat)}
    {outcome : Call (Option ErlTerm)} :
    historyOf start (events ++ [.receive host mailbox cameOver outcome]) =
      (historyOf start events).receive host mailbox cameOver outcome := by
  simp only [historyOf, History.receive, calledBy, sentOver, receivedOver, List.filterMap_append,
    List.filterMap_cons, List.filterMap_nil, List.append_nil, History.mk.injEq, true_and]
  ext line other box : 3
  by_cases chosen : host = other ∧ mailbox = box ∧ cameOver = some line
  · rw [if_pos chosen, if_pos chosen]
  · rw [if_neg chosen, if_neg chosen]

theorem historyOf_arrive {delivered : List EpiMessage} :
    historyOf start (events ++ [.arrive line delivered]) = historyOf start events := by
  simp [historyOf, calledBy, sentOver, receivedOver]

theorem historyOf_works :
    historyOf start (events ++ [.works]) = historyOf start events := by
  simp [historyOf, calledBy, sentOver, receivedOver]

/-- A step keeps what is linked, and adds to the history what its event shows. -/
theorem linked_step (fits : carrier.Lawful) (lawful : ei.Lawful) (unlinked : Unlinked start)
    (linked : Linked carrier ei fuel start (historyOf start events) net)
    (taken : NetworkStep platform carrier ei fuel net event next) :
    Linked carrier ei fuel start (historyOf start (events ++ [event])) next := by
  have same : ∀ host, (net.node host).mailBoxes.map MailBox.mSelf =
      (start.node host).mailBoxes.map MailBox.mSelf ∧
        (net.node host).localNode.mNodeName = (start.node host).localNode.mNodeName := by
    intro host
    have kept := (linked.hosts host).anchored.registries
    simp only [AutoNode.registries, Prod.mk.injEq] at kept
    exact kept.2.2
  cases taken with
  | @send _ host mailbox index origin destination term dialling cookie after object frame sends
      attached foreign exact enough carriable hands sockets =>
      have built : frame = destination.frame origin.mSelf (ei.version ++ bytesOf ei term) :=
        hands.frame_eq (handsOver_send lawful sends attached exact enough foreign hands.attempted
          hands.here)
      have sender : CarriablePid origin.mSelf := by
        have mapped : origin.mSelf ∈ (net.node host).mailBoxes.map MailBox.mSelf :=
          List.mem_map_of_mem (List.mem_of_getElem? sends)
        rw [(same host).1] at mapped
        obtain ⟨old, there, equal⟩ := List.mem_map.mp mapped
        rw [← equal]
        exact unlinked.pids host old there
      have carries : Frame.Carries ei fuel frame term :=
        ⟨destination, origin.mSelf, carriable, sender, exact, enough, built⟩
      have attempted := linked.attempt host platform dialling cookie destination.nodename
      rw [hands.attempted] at attempted
      have here : ((net.setNode host after).node host).connections[index]? = some object := by
        simp only [Network.setNode, Function.update_self]
        exact hands.here
      have called := attempted.call (host, index) here
        (attempt_peer (linked.hosts host).anchored.wired hands.attempted hands.here)
      rw [historyOf_send fits carriable origin.mSelf (ei.version ++ bytesOf ei term), ← built]
      cases done : (object.sendFrame platform sockets frame).succeeds with
      | false => exact called
      | true => exact called.put carries (List.getElem?_eq_some_iff.mp here).1
  | @fails _ host mailbox origin destination term dialling cookie sends attached foreign exact sockets
      refused =>
      rw [historyOf_works, send_foreign sends attached exact.valid exact.ground foreign]
      exact linked.attempt host platform dialling cookie destination.nodename
  | @sendNear _ host mailbox origin destination term transport sends attached near exact =>
      rw [historyOf_works, send_near sends attached exact.valid exact.ground near]
      exact linked.deliver .node _
  | @accept _ opener host index acceptor object peer opened waits started addressed named cookie =>
      have full := unlinked.named opener
      rw [(same opener).2] at named
      have known : peer.mNodeName = (start.node opener).localNode.mNodeName := by
        rw [(named_of_init named).completed, completeName, if_pos full]
      rw [historyOf_works, AutoNode.acceptConnection_run, known]
      rw [(same host).2] at addressed
      exact linked.accept opened waits started addressed full cookie
  | @arrive _ line host acceptor connection object frame rest msg buffer delivered ended accepted
      first reads arrives passes =>
      obtain ⟨term, carries⟩ := linked.carried line frame (by rw [first]; exact List.mem_cons_self)
      obtain ⟨-, message, rfl, payload, recipient⟩ :=
        arrive_message fits lawful carries arrives passes
      rw [historyOf_arrive, acceptorDelivers_single reads]
      exact (linked.arrive accepted first payload (recipient _) _).setThread host acceptor ended
  | @idles _ host acceptor connection object result delivered ended reads nothing passes =>
      rw [historyOf_works]
      rcases pass_without_message nothing passes with rfl | ⟨error, rfl⟩
      · have unchanged : net.setNode host (net.node host) = net := by
          simp only [Network.setNode, Function.update_eq_self]
        have kept := linked.setThread host acceptor ended
        rwa [← unchanged] at kept
      · rw [acceptorDelivers_single reads]
        exact (linked.deliver _ _).setThread host acceptor ended
  | @receive _ host mailbox address rest first =>
      rw [historyOf_receive]
      exact linked.receive first

/-- Nothing is sent or received without connections. -/
theorem linked_unlinked (unlinked : Unlinked start) :
    Linked carrier ei fuel start (historyOf start []) start := by
  refine ⟨fun line frame member => ?_, fun host => ⟨⟨rfl, unlinked.pointing host, ⟨?_, ?_, ?_⟩, ?_, ?_,
    ?_⟩, ?_, unlinked.queued host, fun address _ => unlinked.unmarked _, ?_⟩⟩
  · rw [unlinked.wires] at member
    cases member
  · intro index object here
    rw [unlinked.connections] at here
    cases here
  · rw [unlinked.connections]
    exact List.forall_mem_nil _
  · intro name index found
    rw [unlinked.unknown] at found
    cases found
  · intro index name member
    cases member
  · intro index other acceptor there
    rw [unlinked.fars] at there
    cases there
  · intro line acceptor there
    rw [unlinked.fars] at there
    cases there
  · intro index _
    exact ⟨unlinked.wires _, unlinked.fars _⟩
  · intro line mailbox _
    have none : ((start.node host).queueOf mailbox).filter
        (fun address => start.cameOver (host, address) == some line) = [] := by
      simp [unlinked.unmarked]
    rw [unlinked.wires, none]
    exact .start _ _ _

theorem linked_run {last : Network Host} (fits : carrier.Lawful) (lawful : ei.Lawful)
    (unlinked : Unlinked start)
    (run : Run (· = start) (NetworkStep platform carrier ei fuel) events last) :
    Linked carrier ei fuel start (historyOf start events) last := by
  apply run.invariant
  · rintro _ rfl
    exact linked_unlinked unlinked
  · intro events before event after linked taken
    exact linked_step fits lawful unlinked linked taken

/-- Whatever the nodes of a network do, a send goes to the node that it is for, and over each accepted
line a mailbox receives the terms that were sent to it, in order, each once. The ones that it has not
received wait in its queue or are on the wire. -/
theorem network_faithful {last : Network Host} (fits : carrier.Lawful) (lawful : ei.Lawful)
    (unlinked : Unlinked start)
    (run : Run (· = start) (NetworkStep platform carrier ei fuel) events last) {acceptor : Nat}
    (leads : last.far line = some (host, acceptor)) :
    (∀ destination term outcome, NetworkEvent.send line destination term outcome ∈ events →
      (start.node host).localNode.mNodeName = completeName smLocalhost destination.nodename) ∧
    ∀ mailbox,
      receivedOver line host mailbox events =
        ((sentOver line (start.node host) mailbox events).take
          (receivedOver line host mailbox events).length).map (fun term => .returns (some term)) ∧
      (sentOver line (start.node host) mailbox events).length =
        (receivedOver line host mailbox events).length +
          (last.waiting line host mailbox).length + (last.flying carrier line host mailbox).length := by
  have linked := linked_run fits lawful unlinked run
  constructor
  · intro destination term outcome member
    have called : (line, destination.nodename) ∈ calledBy events :=
      List.mem_filterMap.mpr ⟨_, member, rfl⟩
    obtain ⟨object, here, peer⟩ := (linked.hosts line.1).anchored.called _ _ called
    obtain ⟨other, there, name⟩ := (linked.hosts line.1).anchored.addressed _ _ _ leads
    obtain rfl := Option.some.inj (here.symm.trans there)
    exact name.symm.trans peer
  · intro mailbox
    have relay := (linked.hosts host).relays line mailbox (by
      intro other reader there
      rw [leads] at there
      cases there
      rfl)
    exact ⟨relay.order, relay.length_eq⟩

end Network

/-- The network after a mailbox of `a@b` sent a number to the one of `c@d`, and `c@d` accepted the
connection. -/
def acceptedNetwork : Network Bool :=
  let lines := pairNetwork.setWire (true, 0) [.send (sentPid senderPid) [131, 97, 7]]
  ((pairNetwork.setNode true ((pairNode true).connected (text "c@d") (text "secret"))).setNode false
    ((pairNode false).connected (text "a@b") (text "secret"))).setLines
      ((lines.link (true, 0) false 0).link (false, 0) true 0)

theorem accepted_run : Run (fun net => net = pairNetwork)
    (NetworkStep samplePlatform plainCarrier externalFormat 0)
    [.send (true, 0) (.pid senderPid) sevenTerm (.returns ()), .works] acceptedNetwork := by
  have opened : AutoNode.attempConnection
      (EITransport.doConnect (openDialling.dial samplePlatform) (text "secret")) (text "c@d")
      (pairNode true) = (.returns (.connection 0),
        (pairNode true).connected (text "c@d") (text "secret")) := by
    rw [AutoNode.attempConnection_run]
    rfl
  have foreign : Destination.Foreign (pairNode true) (.pid senderPid) := by
    unfold Destination.Foreign
    decide
  have carriable : (Destination.pid senderPid).Carriable := by decide
  have hands := @handsOver_send externalFormat 0 0 (pairNode true) _ _ sevenTerm (.pid senderPid)
    samplePlatform _ ExternalFormat.lawful_externalFormat rfl rfl exact_sevenTerm (by decide)
    foreign _ 0 opened rfl
  have started : Run (fun net => net = pairNetwork)
      (NetworkStep samplePlatform plainCarrier externalFormat 0) [] pairNetwork := .start rfl
  have sent := started.step (@NetworkStep.send Bool _ samplePlatform plainCarrier externalFormat 0
    pairNetwork true 0 0 _ (.pid senderPid) sevenTerm openDialling (text "secret") _ _ _ rfl rfl
    foreign exact_sevenTerm (by decide) carriable hands openSockets)
  exact sent.step (@NetworkStep.accept Bool _ samplePlatform plainCarrier externalFormat 0 _ true
    false 0 0 _ ⟨text "a@b", text "a", text "b"⟩ rfl rfl rfl rfl (by decide) (text "secret"))

theorem network_faithful_seven : ∃ events last,
    receivedOver (true, 0) false 0 events = [.returns (some sevenTerm)] ∧
    (∀ destination term outcome, NetworkEvent.send (true, 0) destination term outcome ∈ events →
      (pairNetwork.node false).localNode.mNodeName =
        completeName smLocalhost destination.nodename) ∧
    ∀ mailbox,
      receivedOver (true, 0) false mailbox events =
        ((sentOver (true, 0) (pairNetwork.node false) mailbox events).take
          (receivedOver (true, 0) false mailbox events).length).map
            (fun term => .returns (some term)) ∧
      (sentOver (true, 0) (pairNetwork.node false) mailbox events).length =
        (receivedOver (true, 0) false mailbox events).length +
          (Network.waiting last (true, 0) false mailbox).length +
          (Network.flying plainCarrier last (true, 0) false mailbox).length := by
  have arrived := accepted_run.step (@NetworkStep.arrive Bool _ samplePlatform plainCarrier
    externalFormat 0 _ (true, 0) false 0 0 _ _ [] peerMsg _ _ _ rfl rfl ⟨rfl, rfl, rfl, rfl⟩
    (@Arrives.send plainCarrier externalFormat _ _ [] _ rfl rfl) (.passes rfl rfl))
  have received := arrived.step (@NetworkStep.receive Bool _ samplePlatform plainCarrier
    externalFormat 0 _ false 0 0 [] rfl)
  refine ⟨_, _, ?_, network_faithful lawful_plainCarrier ExternalFormat.lawful_externalFormat
    unlinked_pairNetwork received (show _ = some (false, 0) from rfl)⟩
  rfl

end Epi.Node
