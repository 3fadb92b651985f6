import Epi.Library.Fifo
import Epi.Node.Closing
import Epi.Node.MailBoxes
import Epi.Node.Receive

namespace Epi.Node

open Verification Epi.Type Epi.Buffer Epi.Queue

/-- The sends between the mailboxes of a node, and their receives, with the outcomes. -/
inductive LocalEvent where
  | send (sender mailbox : Nat) (term : ErlTerm) (outcome : Call Unit)
  | receive (mailbox : Nat) (outcome : Call (Option ErlTerm))

/-- A valid term without variables is sent by a mailbox of the node to the pid of one that the map
finds, and a receive takes a message that is there. -/
inductive LocalStep : Transition AutoNode LocalEvent
  | send {node after : AutoNode} {transport : Transport} {ei : Ei} {fuel sender mailbox : Nat}
      {origin object : MailBox} {term : ErlTerm} {outcome : Call Unit}
      (sends : node.mailBoxes[sender]? = some origin) (own : origin.mSender = some .node)
      (here : node.mailBoxes[mailbox]? = some object)
      (found : node.getMailBox (some object.mSelf) = some mailbox)
      (valid : term.Valid) (ground : term.Ground)
      (ran : MailBox.send transport ei fuel sender object.mSelf (some term) node =
        (outcome, after)) :
      LocalStep node (.send sender mailbox term outcome) after
  | receive {node after : AutoNode} {ei : Ei} {fuel mailbox address : Nat} {rest : List Nat}
      {outcome : Call (Option ErlTerm)} (first : node.queueOf mailbox = address :: rest)
      (ran : AutoNode.onReceiving mailbox (MailBox.receiveNext ei fuel) node = (outcome, after)) :
      LocalStep node (.receive mailbox outcome) after

/-- The terms sent to a mailbox, in order. -/
def sentTo (mailbox : Nat) (events : List LocalEvent) : List ErlTerm :=
  events.filterMap fun
    | .send _ other term _ => if other = mailbox then some term else none
    | _ => none

/-- What the receives of a mailbox came back with, in order. -/
def receivesOf (mailbox : Nat) (events : List LocalEvent) : List (Call (Option ErlTerm)) :=
  events.filterMap fun
    | .receive other outcome => if other = mailbox then some outcome else none
    | _ => none

/-- The name of the node has two parts, and the pids of its mailboxes carry it. -/
structure OwnPids (node : AutoNode) : Prop where
  named : ∃ given base, AbstractNode.initNodeName given = .returns base ∧
    node.localNode.mNodeName = base.mNodeName
  own : ∀ object ∈ node.mailBoxes, object.mSelf.mNode.text = node.localNode.mNodeName

/-- The message at an address has this term as its payload. -/
def AutoNode.Holds (node : AutoNode) (address : Nat) (term : ErlTerm) : Prop :=
  ∃ mBuffer mRecipient,
    node.messages[address]? = some (.sendMessage ⟨mBuffer, some term⟩ mRecipient)

section Messaging

variable {node after : AutoNode} {mailbox : Nat} {object origin : MailBox} {term : ErlTerm}
  {event : LocalEvent} {events : List LocalEvent}

/-- Only the name of the node and the pids of its mailboxes matter. -/
theorem ownPids_of_selves (own : OwnPids node)
    (selves : after.mailBoxes.map MailBox.mSelf = node.mailBoxes.map MailBox.mSelf)
    (nodeName : after.localNode.mNodeName = node.localNode.mNodeName) : OwnPids after := by
  refine ⟨by rw [nodeName]; exact own.named, ?_⟩
  intro object member
  have mapped : object.mSelf ∈ after.mailBoxes.map MailBox.mSelf := List.mem_map_of_mem member
  rw [selves] at mapped
  obtain ⟨old, there, equal⟩ := List.mem_map.mp mapped
  rw [nodeName, ← equal]
  exact own.own old there

theorem ownPids_of_registries (own : OwnPids node)
    (same : after.registries = node.registries) : OwnPids after := by
  simp only [AutoNode.registries, Prod.mk.injEq] at same
  exact ownPids_of_selves own same.2.2.1 same.2.2.2

theorem isSameHost_own (own : OwnPids node) (here : node.mailBoxes[mailbox]? = some object) :
    isSameHost object.mSelf.mNode.text node.localNode.mNodeName node.localNode.getHostName =
      true := by
  obtain ⟨given, base, started, same⟩ := own.named
  have named := named_of_init started
  rw [own.own object (List.mem_of_getElem? here), (getHostName_named named same).1, same, named.parts]
  exact isSameHost_iff.mpr rfl

/-- A valid term without variables is written as it is. -/
theorem writeOut_ground (valid : term.Valid) (ground : term.Ground) :
    writeOut (some term) = .returns ⟨0, [term]⟩ := by
  obtain ⟨same, substituted⟩ := ErlTerm.subst_ground valid ground none
  rw [writeOut, PlainBuffer.writeTerm_of_returns substituted]
  rfl

/-- A local send returns, and its term stands behind the others in the queue of the mailbox. -/
theorem send_local (own : OwnPids node) {transport : Transport} {ei : Ei} {fuel sender : Nat}
    (sends : node.mailBoxes[sender]? = some origin) (origins : origin.mSender = some .node)
    (here : node.mailBoxes[mailbox]? = some object)
    (found : node.getMailBox (some object.mSelf) = some mailbox)
    (valid : term.Valid) (ground : term.Ground) :
    MailBox.send transport ei fuel sender object.mSelf (some term) node =
      (.returns (), AutoNode.queued { node with messages := node.messages ++
        [.sendMessage (localMessage ⟨0, [term]⟩) object.mSelf] } mailbox node.messages.length
        object) := by
  have stays := @staysLocal_sendBuf ei fuel node object.mSelf (isSameHost_own own here) ⟨0, [term]⟩
  have held : (node.messages ++ [EpiMessage.sendMessage (localMessage ⟨0, [term]⟩)
      object.mSelf])[node.messages.length]? = some (.sendMessage (localMessage ⟨0, [term]⟩)
        object.mSelf) := by
    simp
  have delivers : AutoNode.sendBuf transport ei fuel object.mSelf ⟨0, [term]⟩ node =
      (.returns (), AutoNode.queued { node with messages := node.messages ++
        [.sendMessage (localMessage ⟨0, [term]⟩) object.mSelf] } mailbox node.messages.length
        object) := by
    refine (stays.delivered transport).trans ?_
    rw [deliver_run held]
    have looked : AutoNode.getMailBox { node with messages := node.messages ++
        [.sendMessage (localMessage ⟨0, [term]⟩) object.mSelf] } (some object.mSelf) =
          some mailbox := found
    simp only [looked]
    exact AutoNode.deliverTo_some here held rfl
  rw [MailBox.send, MailBox.sendVia, Method.throwsOnly, Effect.mapOutcome_run, Effect.bind_run,
    Effect.get_run]
  simp only [sends, if_pos origins, writeOut_ground valid ground, Effect.lift_returns_bind]
  rw [Method.throwsOnly, Effect.mapOutcome_run, delivers]
  rfl

/-- The receive of the first message of a queue. -/
theorem onReceiving_next {address : Nat} {rest : List Nat}
    (first : node.queueOf mailbox = address :: rest) (ei : Ei) (fuel : Nat) :
    ∃ state : Receiving, state.messages = node.messages ∧
      (AutoNode.onReceiving mailbox (MailBox.receiveNext ei fuel) node).1 =
        Call.throwsOnly [.epiDecodeException, .epiConnectionException]
          (MailBox.takeTerm ei fuel address state).1 ∧
      (AutoNode.onReceiving mailbox (MailBox.receiveNext ei fuel) node).2.messages =
        (MailBox.takeTerm ei fuel address state).2.messages := by
  cases here : node.mailBoxes[mailbox]? with
  | none =>
      rw [AutoNode.queueOf, here] at first
      cases first
  | some object =>
      rw [AutoNode.queueOf_eq here] at first
      have taken : object.mQueue.tryGet = (some address, ⟨rest⟩) :=
        GenericQueue.tryGet_some.mpr first
      refine ⟨⟨⟨rest⟩, node.messages, none⟩, rfl, ?_⟩
      simp only [AutoNode.onReceiving, here, MailBox.receiveNext, Method.throwsOnly,
        Effect.mapOutcome_run, Effect.bind_run, Effect.get_run, taken, Effect.set_run, true_and]

theorem receive_holds {address held : Nat} {rest : List Nat}
    (first : node.queueOf mailbox = address :: rest) (holds : node.Holds held term) (ei : Ei)
    (fuel : Nat) :
    (AutoNode.onReceiving mailbox (MailBox.receiveNext ei fuel) node).2.Holds held term := by
  obtain ⟨state, same, -, left⟩ := onReceiving_next first ei fuel
  obtain ⟨mBuffer, mRecipient, here⟩ := holds
  rw [← same] at here
  exact ⟨mBuffer, mRecipient, by rw [left]; exact takeTerm_payloads ei here rfl address⟩

theorem receive_returns {address : Nat} {rest : List Nat}
    (first : node.queueOf mailbox = address :: rest) (holds : node.Holds address term) (ei : Ei)
    (fuel : Nat) :
    (AutoNode.onReceiving mailbox (MailBox.receiveNext ei fuel) node).1 =
      .returns (some term) := by
  obtain ⟨state, same, outcome, -⟩ := onReceiving_next first ei fuel
  obtain ⟨mBuffer, mRecipient, here⟩ := holds
  rw [← same] at here
  have taken := @takeTerm_received ei fuel _ _ _ here (.inr ⟨term, rfl⟩)
  rw [outcome, taken]
  rfl

theorem onReceiving_registries {Value : Type} (mailbox : Nat) (call : Method Receiving Value) :
    Effect.Preserves AutoNode.registries (AutoNode.onReceiving mailbox call) := by
  intro node
  unfold AutoNode.onReceiving
  cases here : node.mailBoxes[mailbox]? with
  | none => rfl
  | some object => simp only [AutoNode.registries, AutoNode.selves_set here]

/-- A message that is there holds its term when further ones are made. -/
theorem holds_append {address : Nat} (holds : node.Holds address term) {message : EpiMessage}
    (same : after.messages = node.messages ++ [message]) : after.Holds address term := by
  obtain ⟨mBuffer, mRecipient, here⟩ := holds
  refine ⟨mBuffer, mRecipient, ?_⟩
  rw [same, List.getElem?_append_left (List.getElem?_eq_some_iff.mp here).1]
  exact here

/-- The queue of a mailbox gives the terms that were sent to it, behind what it held before. -/
abbrev InOrder (start node : AutoNode) (events : List LocalEvent) (mailbox : Nat) : Prop :=
  Fifo node.Holds (fun term => Outcome.returns (some term)) (start.queueOf mailbox)
    (sentTo mailbox events) (receivesOf mailbox events) (node.queueOf mailbox)

/-- A step returns from its send, and it keeps the order of every queue. -/
theorem local_step {start : AutoNode} (own : OwnPids node)
    (ordered : ∀ mailbox, InOrder start node events mailbox)
    (taken : LocalStep node event after) :
    OwnPids after ∧ (∀ mailbox, InOrder start after (events ++ [event]) mailbox) ∧
      ∀ sender mailbox term outcome, event = .send sender mailbox term outcome →
        outcome = .returns () := by
  cases taken with
  | @send _ _ transport ei fuel sender mailbox origin object term outcome sends origins here found
      valid ground ran =>
      rw [send_local own sends origins here found valid ground, Prod.mk.injEq] at ran
      obtain ⟨rfl, queued⟩ := ran
      have messages : after.messages = node.messages ++
          [.sendMessage (localMessage ⟨0, [term]⟩) object.mSelf] := by
        rw [← queued]
        rfl
      have keeps : ∀ address value, node.Holds address value → after.Holds address value :=
        fun _ _ holds => holds_append holds messages
      refine ⟨?_, ?_, ?_⟩
      · apply ownPids_of_registries own
        rw [← queued]
        simp only [AutoNode.registries, AutoNode.queued, AutoNode.selves_set here]
      · intro other
        have kept := (ordered other).mono keeps
        have queues : after.queueOf other =
            node.queueOf other ++ if other = mailbox then [node.messages.length] else [] := by
          have stands := @AutoNode.queueOf_queued { node with messages := node.messages ++
            [.sendMessage (localMessage ⟨0, [term]⟩) object.mSelf] } node.messages.length mailbox
            object here other
          rw [queued] at stands
          exact stands
        rw [InOrder, queues, sentTo, receivesOf, List.filterMap_append, List.filterMap_append]
        by_cases same : other = mailbox
        · subst same
          simp only [if_true, List.filterMap_cons, List.filterMap_nil, List.append_nil]
          apply kept.push
          exact ⟨_, _, by rw [messages, List.getElem?_concat_length]; rfl⟩
        · simp only [if_neg same, if_neg (Ne.symm same), List.filterMap_cons, List.filterMap_nil,
            List.append_nil]
          exact kept
      · rintro _ _ _ _ ⟨⟩
        rfl
  | @receive _ _ ei fuel mailbox address rest outcome first ran =>
      have left : (AutoNode.onReceiving mailbox (MailBox.receiveNext ei fuel) node).2 = after := by
        rw [ran]
      have answer : (AutoNode.onReceiving mailbox (MailBox.receiveNext ei fuel) node).1 =
          outcome := by
        rw [ran]
      have keeps : ∀ held value, node.Holds held value → after.Holds held value := by
        intro held value holds
        rw [← left]
        exact receive_holds first holds ei fuel
      refine ⟨?_, ?_, ?_⟩
      · rw [← left]
        exact ownPids_of_registries own (onReceiving_registries mailbox _ node)
      · intro other
        have queues : after.queueOf other = if other = mailbox then rest else node.queueOf other := by
          rw [← left]
          exact (receiveNext_takes first ei fuel).2 other
        rw [InOrder, queues, sentTo, receivesOf, List.filterMap_append, List.filterMap_append]
        by_cases same : other = mailbox
        · subst same
          have before := ordered other
          rw [InOrder, first] at before
          simp only [if_true, List.filterMap_cons, List.filterMap_nil, List.append_nil]
          refine (before.pop ?_).mono keeps
          intro value holds
          rw [← answer]
          exact receive_returns first holds ei fuel
        · simp only [if_neg same, if_neg (Ne.symm same), List.filterMap_cons, List.filterMap_nil,
            List.append_nil]
          exact (ordered other).mono keeps
      · rintro _ _ _ _ ⟨⟩

/-- The pid of a new mailbox has the name of the node. -/
theorem ownPids_createMailBox (own : OwnPids node)
    (ran : AutoNode.createMailBox node = (.returns mailbox, after)) : OwnPids after := by
  obtain ⟨name, nodeName, -, rfl⟩ := AutoNode.createMailBox_returns ran
  obtain ⟨given, base, started, same⟩ := own.named
  refine ⟨⟨given, base, started, by simp [same]⟩, ?_⟩
  intro object member
  simp only [LocalNode.countPid_mNodeName]
  rcases List.mem_append.mp member with old | new
  · exact own.own object old
  · obtain rfl := List.mem_singleton.mp new
    exact nodeName.symm

/-- A ping creates a mailbox or fails before it does. -/
theorem ownPids_ping (own : OwnPids node) {transport : Transport} {ei : Ei} {fuel : Nat}
    {reply : Call (Option ErlTerm)} {left : GenericQueue Nat} {remoteNode : Bytes} :
    OwnPids (AutoNode.ping transport ei fuel reply left remoteNode node).2 := by
  by_cases ownName : remoteNode = node.localNode.getAliveName ∨
      remoteNode = node.localNode.mNodeName
  · rw [AutoNode.ping, Effect.bind_run, Effect.get_run]
    simp only [if_pos ownName]
    exact own
  · obtain ⟨given, base, started, same⟩ := own.named
    have named := named_of_init started
    have some : 0 < base.mNodeName.length := by
      rw [named.parts]
      simp
    let name : NodeName := ⟨base.mNodeName, some, named.bounded⟩
    have known : node.localNode.mNodeName = name.text := same
    obtain ⟨created, creates⟩ := AutoNode.createMailBox_named known
    exact ownPids_of_registries (ownPids_createMailBox own creates)
      (AutoNode.ping_foreign ownName creates)

/-- Whatever the application does with its mailboxes, their pids have the name of the node. -/
theorem ownPids_run {events : List MailBoxEvent} (run : Run NamedNode MailBoxStep events node) :
    OwnPids node := by
  apply run.invariant
  · rintro _ ⟨given, base, creation, started, rfl⟩
    exact ⟨⟨given, base, started, rfl⟩, List.forall_mem_nil _⟩
  · intro _ node event after own taken
    cases taken with
    | createMailBox unopposed ran => exact ownPids_createMailBox own ran
    | registerMailBox attached ran =>
        cases ran
        exact ownPids_of_selves own rfl rfl
    | unRegisterName ran =>
        cases ran
        exact ownPids_of_selves own rfl rfl
    | unRegisterMailBox ran =>
        cases ran
        exact ownPids_of_selves own rfl rfl
    | deattachMailBox living ran =>
        obtain ⟨object, here, rfl⟩ := AutoNode.deattachMailBox_returns ran
        exact ownPids_of_selves own (AutoNode.selves_set here rfl) rfl
    | @ping _ _ transport ei fuel reply left remoteNode answer unopposed ran =>
        have kept := @ownPids_ping node own transport ei fuel reply left remoteNode
        rwa [ran] at kept
    | destroyMailBox living ran =>
        exact ownPids_of_registries own (destroyMailBox_returns ran).2

/-- The sends to the pid of a mailbox return, and behind what its queue held before, its receives
give the terms that were sent to it, in order, each once. No other receive gives them. -/
theorem local_messaging_faithful {start last : AutoNode} (own : OwnPids start)
    (run : Run (· = start) LocalStep events last) :
    (∀ sender mailbox term outcome, .send sender mailbox term outcome ∈ events →
      outcome = .returns ()) ∧
    ∀ mailbox,
      (start.queueOf mailbox).length + (sentTo mailbox events).length =
        (receivesOf mailbox events).length + (last.queueOf mailbox).length ∧
      (receivesOf mailbox events).drop (start.queueOf mailbox).length =
        ((sentTo mailbox events).take
          ((receivesOf mailbox events).length - (start.queueOf mailbox).length)).map
            fun term => .returns (some term) := by
  have kept : OwnPids last ∧ (∀ mailbox, InOrder start last events mailbox) ∧
      ∀ sender mailbox term outcome, .send sender mailbox term outcome ∈ events →
        outcome = .returns () := by
    apply run.invariant
    · rintro _ rfl
      refine ⟨own, fun mailbox => .start _ _ _, ?_⟩
      intro sender mailbox term outcome member
      cases member
    · rintro events before event after ⟨own, ordered, returned⟩ taken
      obtain ⟨ownAfter, orderedAfter, returns⟩ := local_step own ordered taken
      refine ⟨ownAfter, orderedAfter, ?_⟩
      intro sender mailbox term outcome member
      rcases List.mem_append.mp member with old | new
      · exact returned sender mailbox term outcome old
      · exact returns sender mailbox term outcome (List.mem_singleton.mp new).symm
  obtain ⟨-, ordered, returned⟩ := kept
  exact ⟨returned, fun mailbox => ⟨(ordered mailbox).length_eq, (ordered mailbox).order⟩⟩

end Messaging

/-- A number from the first mailbox of a node to its second one, and its receive. -/
def sevenEvents : List LocalEvent :=
  [.send 0 1 sevenTerm (.returns ()), .receive 1 (.returns (some sevenTerm))]

theorem local_messaging_faithful_seven : ∃ last,
    (∀ sender mailbox term outcome, .send sender mailbox term outcome ∈ sevenEvents →
      outcome = .returns ()) ∧
    ∀ mailbox,
      (secondCreated.queueOf mailbox).length + (sentTo mailbox sevenEvents).length =
        (receivesOf mailbox sevenEvents).length + (AutoNode.queueOf last mailbox).length ∧
      (receivesOf mailbox sevenEvents).drop (secondCreated.queueOf mailbox).length =
        ((sentTo mailbox sevenEvents).take
          ((receivesOf mailbox sevenEvents).length - (secondCreated.queueOf mailbox).length)).map
            fun term => .returns (some term) := by
  have started : OwnPids startedNode :=
    ⟨⟨text "a@b", ⟨text "a@b", text "a", text "b"⟩, by decide, rfl⟩, List.forall_mem_nil _⟩
  have one : AutoNode.createMailBox startedNode = (.returns 0, firstCreated) := rfl
  have two : AutoNode.createMailBox firstCreated = (.returns 1, secondCreated) := rfl
  have own : OwnPids secondCreated := ownPids_createMailBox (ownPids_createMailBox started one) two
  obtain ⟨origin, sends, origins⟩ : ∃ origin, secondCreated.mailBoxes[0]? = some origin ∧
      origin.mSender = some .node := ⟨_, rfl, rfl⟩
  obtain ⟨object, here, found⟩ : ∃ object, secondCreated.mailBoxes[1]? = some object ∧
      secondCreated.getMailBox (some object.mSelf) = some 1 := ⟨_, rfl, rfl⟩
  have valid : sevenTerm.Valid := by decide
  have ground : sevenTerm.Ground := by decide
  have ran := @send_local secondCreated 1 object origin sevenTerm own deadNetwork externalFormat 1 0
    sends origins here found valid ground
  have first := LocalStep.send sends origins here found valid ground ran
  have queue : AutoNode.queueOf (AutoNode.queued { secondCreated with messages :=
      secondCreated.messages ++ [.sendMessage (localMessage ⟨0, [sevenTerm]⟩) object.mSelf] } 1
        secondCreated.messages.length object) 1 = [0] := by
    have stands := @AutoNode.queueOf_queued { secondCreated with messages :=
      secondCreated.messages ++ [.sendMessage (localMessage ⟨0, [sevenTerm]⟩) object.mSelf] } 0 1
        object here 1
    exact stands
  have holds : AutoNode.Holds (AutoNode.queued { secondCreated with messages :=
      secondCreated.messages ++ [.sendMessage (localMessage ⟨0, [sevenTerm]⟩) object.mSelf] } 1
        secondCreated.messages.length object) 0 sevenTerm := ⟨_, _, rfl⟩
  have second := LocalStep.receive queue (Prod.ext (receive_returns queue holds externalFormat 1) rfl)
  have opened : Run (fun node => node = secondCreated) LocalStep [] secondCreated := .start rfl
  have whole : Run (fun node => node = secondCreated) LocalStep sevenEvents _ :=
    (opened.step first).step second
  exact ⟨_, local_messaging_faithful own whole⟩

end Epi.Node
