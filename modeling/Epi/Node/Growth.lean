import Epi.Node.Wire

namespace Epi.Node

open Verification Epi.Type Epi.Buffer Epi.Queue

namespace AutoNode

/-- The deliveries of a pass of an acceptor, in order. -/
def acceptorDeliversAll (acceptor : Nat) : List EpiMessage → Method AutoNode Unit
  | [] => pure ()
  | message :: rest => do
      acceptorDelivers acceptor message
      acceptorDeliversAll acceptor rest

/-- The acceptor belongs to the connection, whose messages go to the node. -/
def Reads (node : AutoNode) (acceptor connection : Nat) (object : EIConnection) : Prop :=
  node.acceptors[acceptor]? = some connection ∧ node.connections[connection]? = some object ∧
    object.mReceiver = some .node ∧ object.mAcceptor = some acceptor

/-- The message at an address has this term as its payload. -/
def HasPayload (node : AutoNode) (address : Nat) (term : ErlTerm) : Prop :=
  ∃ message, node.messages[address]? = some message ∧ message.payload = some term

end AutoNode

/-- The registries stay, and connections, acceptors and messages are only added. -/
structure Grows (before after : AutoNode) : Prop where
  registries : after.registries = before.registries
  connections : before.connections <+: after.connections
  acceptors : before.acceptors <+: after.acceptors
  payloads : ∀ address term, before.HasPayload address term → after.HasPayload address term
  messages : before.messages.length ≤ after.messages.length

/-- Every connection was started and is read by its acceptor, has a full name, and is found under no
other name. -/
structure AutoNode.Wired (node : AutoNode) : Prop where
  read : ∀ index object, node.connections[index]? = some object →
    ∃ acceptor, node.Reads acceptor index object
  full : ∀ object ∈ node.connections, atSign ∈ object.mPeer
  known : ∀ name index, node.getConnection name = some (.connection index) →
    ∃ object, node.connections[index]? = some object ∧ object.mPeer = name

section Growth

variable {node before after : AutoNode} {message : EpiMessage} {acceptor connection mailbox : Nat}
  {object : EIConnection} {ei : Ei} {fuel : Nat}

theorem Grows.refl (node : AutoNode) : Grows node node :=
  ⟨rfl, List.prefix_rfl, List.prefix_rfl, fun _ _ has => has, le_rfl⟩

theorem getElem?_grown {Element : Type} {front whole : List Element} {index : Nat}
    {element : Element} (grown : front <+: whole) (here : front[index]? = some element) :
    whole[index]? = some element := by
  obtain ⟨rest, rfl⟩ := grown
  rw [List.getElem?_append_left (List.getElem?_eq_some_iff.mp here).1, here]

theorem Grows.reads (grows : Grows before after)
    (reads : before.Reads acceptor connection object) :
    after.Reads acceptor connection object :=
  ⟨getElem?_grown grows.acceptors reads.1, getElem?_grown grows.connections reads.2.1,
    reads.2.2⟩

/-- Only the registries matter to a recipient. -/
theorem frame_recipient_of_registries (same : after.registries = before.registries)
    (carrier : Carrier) (frame : Frame) :
    frame.recipient carrier after = frame.recipient carrier before := by
  simp only [AutoNode.registries, Prod.mk.injEq] at same
  cases frame with
  | send toPid payload => simp only [Frame.recipient, AutoNode.getMailBox, same.1]
  | regSend fromPid toName payload =>
      simp only [Frame.recipient, AutoNode.getRegMailBox, same.2.1]

theorem pointing_of_registries (pointing : before.Pointing)
    (same : after.registries = before.registries) : after.Pointing := by
  simp only [AutoNode.registries, Prod.mk.injEq] at same
  have many : after.mailBoxes.length = before.mailBoxes.length := by
    simpa using congrArg List.length same.2.2.1
  simpa only [AutoNode.Pointing, AutoNode.getMailBox, AutoNode.getRegMailBox, same.1, same.2.1,
    many] using pointing

theorem frame_recipient_inside (pointing : node.Pointing) {carrier : Carrier} {frame : Frame}
    (found : frame.recipient carrier node = some mailbox) : mailbox < node.mailBoxes.length := by
  cases frame with
  | send toPid payload =>
      simp only [Frame.recipient] at found
      split at found
      · exact pointing.1 _ _ found
      · cases found
  | regSend fromPid toName payload => exact pointing.2 _ _ found

theorem hasPayload_append {term : ErlTerm} {address : Nat} (has : node.HasPayload address term)
    (grown : node.messages <+: after.messages) : after.HasPayload address term := by
  obtain ⟨message, here, payload⟩ := has
  exact ⟨message, getElem?_grown grown here, payload⟩

theorem grows_connected (peer cookie : Bytes) : Grows node (node.connected peer cookie) where
  registries := rfl
  connections := List.prefix_append _ _
  acceptors := List.prefix_append _ _
  payloads _ _ has := has
  messages := le_rfl

theorem reads_connected (peer cookie : Bytes) :
    (node.connected peer cookie).Reads node.acceptors.length node.connections.length
      ⟨peer, cookie, some .node, some node.acceptors.length⟩ := by
  refine ⟨?_, ?_, rfl, rfl⟩
  · simp [AutoNode.connected]
  · simp [AutoNode.connected]

theorem wired_connected (wired : node.Wired) {peer : Bytes} (full : atSign ∈ peer)
    (cookie : Bytes) : (node.connected peer cookie).Wired := by
  have reads := @reads_connected node peer cookie
  constructor
  · intro index object here
    rcases Nat.lt_trichotomy index node.connections.length with old | same | outside
    · have kept : node.connections[index]? = some object := by
        rwa [AutoNode.connected, List.getElem?_append_left old] at here
      obtain ⟨acceptor, reads⟩ := wired.read index object kept
      exact ⟨acceptor, (grows_connected peer cookie).reads reads⟩
    · subst same
      obtain rfl := Option.some.inj (reads.2.1.symm.trans here)
      exact ⟨_, reads⟩
    · have none : (node.connected peer cookie).connections[index]? = none := by
        apply List.getElem?_eq_none
        simp only [AutoNode.connected, List.length_append, List.length_singleton]
        omega
      rw [none] at here
      cases here
  · intro object member
    rcases List.mem_append.mp member with old | new
    · exact wired.full object old
    · obtain rfl := List.mem_singleton.mp new
      exact full
  · intro name index found
    rw [AutoNode.getConnection, AutoNode.connected, OrderedMap.find_store] at found
    split at found
    · rename_i same
      cases found
      exact ⟨_, reads.2.1, same.symm⟩
    · obtain ⟨object, here, same⟩ := wired.known name index found
      exact ⟨object, getElem?_grown (grows_connected peer cookie).connections here, same⟩

/-- A change that leaves the connections and the acceptors, and finds no other connections. -/
theorem wired_of_same (wired : before.Wired) (connections : after.connections = before.connections)
    (acceptors : after.acceptors = before.acceptors)
    (found : ∀ name index, after.getConnection name = some (.connection index) →
      before.getConnection name = some (.connection index)) : after.Wired := by
  constructor
  · intro index object here
    rw [connections] at here
    obtain ⟨acceptor, reads⟩ := wired.read index object here
    refine ⟨acceptor, ?_⟩
    rwa [AutoNode.Reads, connections, acceptors]
  · rw [connections]
    exact wired.full
  · intro name index here
    rw [connections]
    exact wired.known name index (found name index here)

/-- A delivery moves neither connections nor messages. -/
theorem deliver_preserves (origin : Address) (msg : Nat) :
    Effect.Preserves (fun node : AutoNode => (node.connections, node.acceptors, node.messages))
      (AutoNode.deliver origin msg) := by
  have hands : ∀ recipient : Option Nat, Effect.Preserves
      (fun node : AutoNode => (node.connections, node.acceptors, node.messages))
        (AutoNode.deliverTo recipient msg) := by
    intro recipient
    cases recipient with
    | none => exact fun _ => rfl
    | some mailbox =>
        apply Effect.preserves_get_bind
        intro node
        rw [AutoNode.onMailBox]
        cases node.mailBoxes[mailbox]? with
        | none => rfl
        | some object =>
            simp only
            cases MailBox.deliver node.messages msg object <;> rfl
  apply Effect.preserves_get_bind
  intro node
  cases node.messages[msg]? with
  | none => rfl
  | some message =>
      cases message with
      | sendMessage payload mRecipient => exact hands _ node
      | regSendMessage payload mSender mRecipient => exact hands _ node
      | _ => rfl

/-- A new message is delivered in the node. -/
abbrev AutoNode.delivered (node : AutoNode) (origin : Address) (message : EpiMessage) : AutoNode :=
  (AutoNode.deliver origin node.messages.length
    { node with messages := node.messages ++ [message] }).2

theorem delivered_keeps (node : AutoNode) (origin : Address) (message : EpiMessage) :
    (node.delivered origin message).connections = node.connections ∧
      (node.delivered origin message).acceptors = node.acceptors ∧
      (node.delivered origin message).messages = node.messages ++ [message] := by
  have kept := deliver_preserves origin node.messages.length
    { node with messages := node.messages ++ [message] }
  simpa only [Prod.mk.injEq] using kept

theorem grows_delivered (node : AutoNode) (origin : Address) (message : EpiMessage) :
    Grows node (node.delivered origin message) := by
  obtain ⟨connections, acceptors, messages⟩ := delivered_keeps node origin message
  constructor
  · exact AutoNode.deliver_registries origin _ { node with messages := node.messages ++ [message] }
  · rw [connections]
  · rw [acceptors]
  · intro address term has
    exact hasPayload_append has (by rw [messages]; exact List.prefix_append _ _)
  · rw [messages]
    simp

/-- A delivery opens no connection. -/
theorem delivered_found (node : AutoNode) (origin : Address) (message : EpiMessage) {name : Bytes}
    {address : Address} (found : (node.delivered origin message).getConnection name = some address) :
    node.getConnection name = some address := by
  have held : (node.messages ++ [message])[node.messages.length]? = some message := by simp
  have hands : ∀ (recipient : Option Nat) (before : AutoNode),
      (AutoNode.deliverTo recipient node.messages.length before).2.getConnection name =
        before.getConnection name := by
    intro recipient before
    cases recipient with
    | none => rfl
    | some mailbox =>
        rw [AutoNode.deliverTo, Effect.bind_run, Effect.get_run]
        simp only [AutoNode.onMailBox]
        cases before.mailBoxes[mailbox]? with
        | none => rfl
        | some object =>
            simp only
            cases MailBox.deliver before.messages node.messages.length object <;> rfl
  rw [AutoNode.delivered, deliver_run held] at found
  cases message with
  | errorMessage mException =>
      exact ((OrderedMap.find_eraseByValue nameLess_ordered _ _).mp found).1
  | sendMessage payload mRecipient =>
      exact (hands _ { node with messages := node.messages ++
        [.sendMessage payload mRecipient] }).symm.trans found
  | regSendMessage payload mSender mRecipient =>
      exact (hands _ { node with messages := node.messages ++
        [.regSendMessage payload mSender mRecipient] }).symm.trans found
  | _ => exact found

theorem wired_delivered (wired : node.Wired) (origin : Address) (message : EpiMessage) :
    (node.delivered origin message).Wired := by
  obtain ⟨connections, acceptors, -⟩ := delivered_keeps node origin message
  exact wired_of_same wired connections acceptors fun _ _ => delivered_found node origin message

/-- The message gets into the queue of its recipient. -/
theorem delivered_enqueues (node : AutoNode) (origin : Address) (message : EpiMessage) :
    Enqueues node (node.delivered origin message) (node.recipient message (some .node))
      node.messages.length := by
  have held : (node.messages ++ [message])[node.messages.length]? = some message := by simp
  have told : ∀ {after target}, Enqueues { node with messages := node.messages ++ [message] }
      after target node.messages.length → Enqueues node after target node.messages.length :=
    fun enqueues => ⟨enqueues.connections, enqueues.queues⟩
  rw [AutoNode.delivered, deliver_run held]
  cases message with
  | sendMessage payload mRecipient => exact told (deliverTo_enqueues held rfl _)
  | regSendMessage payload mSender mRecipient => exact told (deliverTo_enqueues held rfl _)
  | _ => exact .nothing rfl rfl

/-- An acceptor of a connection to the node delivers there. -/
theorem acceptorDelivers_node (reads : node.Reads acceptor connection object)
    (message : EpiMessage) :
    (AutoNode.acceptorDelivers acceptor message node).2 =
      node.delivered (.acceptor acceptor) message := by
  obtain ⟨owned, here, receiver, -⟩ := reads
  rw [AutoNode.acceptorDelivers, Effect.bind_run, Effect.get_run]
  simp only [owned]
  rw [Effect.bind_run, AutoNode.newMessage]
  simp only
  rw [AutoNode.deliverFrom, Effect.bind_run, Effect.get_run]
  simp only [here, receiver]

theorem acceptorDelivers_single (reads : node.Reads acceptor connection object)
    (message : EpiMessage) :
    (AutoNode.acceptorDeliversAll acceptor [message] node).2 =
      node.delivered (.acceptor acceptor) message := by
  rw [← acceptorDelivers_node reads, AutoNode.acceptorDeliversAll, Effect.bind_run]
  rcases AutoNode.acceptorDelivers acceptor message node with ⟨outcome, after⟩
  cases outcome <;> rfl

theorem takeTerm_messages_length (ei : Ei) (fuel address : Nat) :
    Effect.Preserves (fun state : Receiving => state.messages.length)
      (MailBox.takeTerm ei fuel address) := by
  apply Effect.preserves_get_bind
  intro state
  cases state.messages[address]? with
  | none => rfl
  | some message =>
      simp only
      split
      · rfl
      · split
        · unfold Receiving.onMessage onMessageAt
          split
          · rfl
          · exact List.length_set
        · rfl

theorem receive_messages {address : Nat} {rest : List Nat}
    (first : node.queueOf mailbox = address :: rest) (ei : Ei) (fuel : Nat) :
    (AutoNode.onReceiving mailbox (MailBox.receiveNext ei fuel) node).2.messages.length =
      node.messages.length := by
  obtain ⟨state, same, -, left⟩ := onReceiving_next first ei fuel
  have kept := takeTerm_messages_length ei fuel address state
  simp only at kept
  rw [left, kept, same]

/-- A receive of the first message leaves everything but its queue and its message. -/
theorem grows_receive {address : Nat} {rest : List Nat}
    (first : node.queueOf mailbox = address :: rest) (ei : Ei) (fuel : Nat) :
    Grows node (AutoNode.onReceiving mailbox (MailBox.receiveNext ei fuel) node).2 ∧
      (node.Wired → (AutoNode.onReceiving mailbox (MailBox.receiveNext ei fuel) node).2.Wired) := by
  obtain ⟨state, same, -, left⟩ := onReceiving_next first ei fuel
  have kept : (AutoNode.onReceiving mailbox (MailBox.receiveNext ei fuel) node).2.acceptors =
      node.acceptors ∧ (AutoNode.onReceiving mailbox (MailBox.receiveNext ei fuel)
        node).2.mConnections = node.mConnections := by
    unfold AutoNode.onReceiving
    split <;> exact ⟨rfl, rfl⟩
  have connections := (receiveNext_takes first ei fuel).1
  refine ⟨⟨onReceiving_registries mailbox _ node, ?_, ?_, ?_,
    (receive_messages first ei fuel).ge⟩, fun wired => ?_⟩
  · rw [connections]
  · rw [kept.1]
  · rintro held term ⟨message, here, payload⟩
    refine ⟨message, ?_, payload⟩
    rw [left]
    exact takeTerm_payloads ei (by rw [same]; exact here) payload address
  · apply wired_of_same wired connections kept.1
    intro name index found
    rwa [AutoNode.getConnection, kept.2] at found

/-- The receive of the first message gives its payload. -/
theorem receive_payload {address : Nat} {rest : List Nat} {term : ErlTerm}
    (first : node.queueOf mailbox = address :: rest) (has : node.HasPayload address term) (ei : Ei)
    (fuel : Nat) :
    (AutoNode.onReceiving mailbox (MailBox.receiveNext ei fuel) node).1 =
      .returns (some term) := by
  obtain ⟨state, same, outcome, -⟩ := onReceiving_next first ei fuel
  obtain ⟨message, here, payload⟩ := has
  rw [← same] at here
  have taken := @takeTerm_received ei fuel _ _ _ here (.inr ⟨term, payload⟩)
  rw [outcome, taken]
  cases message with
  | sendMessage msg mRecipient =>
      simp only [EpiMessage.received, payload]
      rfl
  | regSendMessage msg mSender mRecipient =>
      simp only [EpiMessage.received, payload]
      rfl
  | _ => cases payload

/-- An attempt finds a connection or adds one, and the queues stay. -/
theorem grows_attempt (platform : Platform) (dialling : Dialling) (cookie name : Bytes) :
    Grows node (AutoNode.attempConnection (EITransport.doConnect (dialling.dial platform) cookie) name
        node).2 ∧
      (node.Wired → (AutoNode.attempConnection (EITransport.doConnect (dialling.dial platform) cookie) name
        node).2.Wired) ∧
      ∀ mailbox, (AutoNode.attempConnection (EITransport.doConnect (dialling.dial platform) cookie) name
        node).2.queueOf mailbox = node.queueOf mailbox := by
  rw [AutoNode.attempConnection_run]
  cases node.getConnection name with
  | some connection => exact ⟨.refl node, id, fun _ => rfl⟩
  | none =>
      simp only
      cases dialled : EITransport.doConnect (dialling.dial platform) cookie name with
      | returns answer =>
          refine ⟨grows_connected _ _, fun wired => wired_connected wired ?_ _, fun _ => rfl⟩
          rw [doConnect_returns dialled]
          exact mem_completeName _ _
      | _ => exact ⟨.refl node, id, fun _ => rfl⟩

/-- The connection that a send finds or opens leads to the node that it is for. -/
theorem attempt_peer (wired : node.Wired) {platform : Platform} {dialling : Dialling}
    {cookie name : Bytes} {index : Nat}
    (attempted : AutoNode.attempConnection (EITransport.doConnect (dialling.dial platform) cookie) name
      node = (.returns (.connection index), after))
    (here : after.connections[index]? = some object) :
    object.mPeer = completeName smLocalhost name := by
  rw [AutoNode.attempConnection_run] at attempted
  cases found : node.getConnection name with
  | some connection =>
      rw [found] at attempted
      cases attempted
      obtain ⟨known, there, same⟩ := wired.known name index found
      obtain rfl := Option.some.inj (there.symm.trans here)
      have full := wired.full known (List.mem_of_getElem? there)
      rw [same] at full ⊢
      rw [completeName, if_pos full]
  | none =>
      rw [found] at attempted
      cases dialled : EITransport.doConnect (dialling.dial platform) cookie name with
      | returns answer =>
          rw [dialled] at attempted
          cases attempted
          obtain rfl := Option.some.inj ((@reads_connected node answer.1 answer.2).2.1.symm.trans here)
          exact doConnect_returns dialled
      | throws error =>
          rw [dialled] at attempted
          have answer := congrArg Prod.fst attempted
          simp only at answer
          cases Call.throwsOnly_eq_returns.mp answer
      | _ =>
          rw [dialled] at attempted
          cases attempted

/-- A send to a foreign destination leaves what the attempt of a connection leaves. -/
theorem send_foreign {platform : Platform} {sockets : Sockets} {origin : MailBox}
    {destination : Destination} {term : ErlTerm} {connect : Bytes → Call (Bytes × Bytes)}
    (sends : node.mailBoxes[mailbox]? = some origin) (own : origin.mSender = some .node)
    (valid : term.Valid) (ground : term.Ground) (foreign : destination.Foreign node) :
    (destination.send (sockets.transport platform connect) ei fuel mailbox (some term) node).2 =
      (AutoNode.attempConnection connect destination.nodename node).2 := by
  rw [send_ground sends own valid ground]
  simp only [Method.throwsOnly, Effect.mapOutcome_run]
  rw [sendBuf_run foreign]
  simp only [Method.throwsOnly, Effect.mapOutcome_run]
  exact sendRemote_after (sockets.transport platform connect) ⟨0, [term]⟩ _

/-- A pass without a message delivers nothing or an error. -/
theorem pass_without_message {platform : Platform} {mCookie : Bytes} {result : ReceiveResult}
    {before ended : EIMessageAcceptor} {delivered : List EpiMessage}
    (nothing : ∀ msg buffer, result ≠ .erlMsg msg buffer)
    (taken : AcceptorStep platform ei fuel mCookie before ⟨result, delivered⟩ ended) :
    delivered = [] ∨ ∃ error, delivered = [.errorMessage error] := by
  cases taken with
  | crashes running crashed last => exact .inl rfl
  | passes running ran =>
      unfold EIMessageAcceptor.pass at ran
      split at ran
      · cases ran
        exact .inl rfl
      · cases result with
        | erlTick =>
            cases ran
            exact .inl rfl
        | erlMsg msg buffer => exact absurd rfl (nothing msg buffer)
        | erlError erlErrno =>
            simp only [EIMessageAcceptor.assign, EIMessageAcceptor.deliver, Effect.bind_run] at ran
            split at ran
            · split at ran
              · cases ran
                exact .inl rfl
              · cases ran
                exact .inr ⟨_, rfl⟩
            · cases ran
              exact .inr ⟨_, rfl⟩

end Growth

end Epi.Node
