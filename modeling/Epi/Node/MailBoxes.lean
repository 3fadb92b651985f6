import Epi.Node.Connections
import Epi.Node.Registry
import Epi.Node.Sending

namespace Epi.Node

open Verification Epi.Type Epi.Buffer Epi.Queue

/-- The tuple of a ping from a mailbox. -/
def pingTuple (self : ErlPid) (pingRef : ErlRef) (nodeName : AtomText) : ErlTerm :=
  .erlTuple true (some 3) [
    .simple (.erlAtom (some ⟨text "$gen_call", by decide, by decide⟩)),
    .erlTuple true (some 2) [.simple (.erlPid (some self)), .simple (.erlRef (some pingRef))],
    .erlTuple true (some 2) [
      .simple (.erlAtom (some ⟨text "is_auth", by decide, by decide⟩)),
      .simple (.erlAtom (some nodeName))]]

namespace AutoNode

/-- `AutoNode::ping`. The receive with a timeout comes back in any way, and it leaves any queue. -/
def ping (transport : Transport) (ei : Ei) (fuel : Nat) (reply : Call (Option ErlTerm))
    (left : GenericQueue Nat) (remoteNode : Bytes) : Method AutoNode Bool := do
  let node ← Effect.get
  if remoteNode = node.localNode.getAliveName ∨ remoteNode = node.localNode.mNodeName then
    return true
  else
    Effect.mapOutcome (Call.catchingAny fun _ => .returns false) do
      let mailbox ← createMailBox
      let pingRef ← onLocalNode LocalNode.createRef
      let nodeName ← Effect.lift (AtomText.init node.localNode.mNodeName)
      let after ← Effect.get
      match after.mailBoxes[mailbox]? with
      | none => Effect.lift .aborts
      | some object => do
          MailBox.sendTo transport ei fuel mailbox remoteNode (text "net_kernel")
            (some (pingTuple object.mSelf pingRef nodeName))
          onMailBox mailbox fun object => .returns { object with mQueue := left }
          let received ← Effect.lift reply
          return received.isSome

/-- The destruction of a mailbox. The pending messages are deleted, and the node, which observes no
mailbox, is not told. -/
def destroyMailBox (mailbox : Nat) : Method AutoNode Unit := do
  let node ← Effect.get
  match node.mailBoxes[mailbox]? with
  | none => Effect.lift .aborts
  | some object => do
      Effect.set { node with deleted := node.deleted ++ object.mQueue.mList.map .message }
      onMailBox mailbox fun object => .returns { object with mQueue := ⟨[]⟩ }
      delete (.mailBox mailbox)

/-- What the registries show of a node: the maps, the own pids of the mailboxes, and the name. -/
def registries (node : AutoNode) :
    Entries (Option ErlPid) Nat × OrderedMap Bytes Nat nameLess × List ErlPid × Bytes :=
  (node.mMailBoxes, node.mRegMailBoxes, node.mailBoxes.map MailBox.mSelf, node.localNode.mNodeName)

section Registries

/-- A mailbox with the same pid in the place of another one. -/
theorem selves_set {mailBoxes : List MailBox} {mailbox : Nat} {before after : MailBox}
    (here : mailBoxes[mailbox]? = some before) (same : after.mSelf = before.mSelf) :
    (mailBoxes.set mailbox after).map MailBox.mSelf = mailBoxes.map MailBox.mSelf := by
  obtain ⟨inside, rfl⟩ := List.getElem?_eq_some_iff.mp here
  have mapped : mailbox < (mailBoxes.map MailBox.mSelf).length := by
    rwa [List.length_map]
  rw [List.map_set, same]
  simpa using List.set_getElem_self mapped

/-- An update that keeps the pid of its mailbox is not seen by the registries. -/
theorem onMailBox_registries (mailbox : Nat) {update : MailBox → Call MailBox}
    (keeps : ∀ before after, update before = .returns after → after.mSelf = before.mSelf) :
    Effect.Preserves registries (onMailBox mailbox update) := by
  intro node
  unfold onMailBox
  cases here : node.mailBoxes[mailbox]? with
  | none => rfl
  | some before =>
      simp only
      cases updated : update before with
      | returns after => simp only [registries, selves_set here (keeps before after updated)]
      | _ => rfl

theorem deliver_mSelf (messages : List EpiMessage) (msg : Nat) (before after : MailBox)
    (delivered : MailBox.deliver messages msg before = .returns after) :
    after.mSelf = before.mSelf := by
  unfold MailBox.deliver at delivered
  split at delivered
  · cases delivered
  · split at delivered
    all_goals
      cases delivered
      rfl

theorem deliverTo_registries (recipientMailBox : Option Nat) (msg : Nat) :
    Effect.Preserves registries (deliverTo recipientMailBox msg) := by
  cases recipientMailBox with
  | none => exact fun _ => rfl
  | some mailbox =>
      apply Effect.preserves_get_bind
      intro node
      exact onMailBox_registries mailbox (deliver_mSelf node.messages msg) node

theorem deliver_registries (origin : Address) (msg : Nat) :
    Effect.Preserves registries (deliver origin msg) := by
  apply Effect.preserves_get_bind
  intro node
  cases node.messages[msg]? with
  | none => rfl
  | some message =>
      cases message with
      | sendMessage message mRecipient => exact deliverTo_registries _ msg node
      | regSendMessage message mSender mRecipient => exact deliverTo_registries _ msg node
      | _ => rfl

theorem sendLocal_registries (message : Call EpiMessage) :
    Effect.Preserves registries (sendLocal message) :=
  (Effect.preserves_lift message).bind fun _ =>
    Effect.Preserves.bind (fun _ => rfl) fun _ => deliver_registries _ _

theorem attempConnection_registries (connect : Bytes → Call (Bytes × Bytes)) (name : Bytes) :
    Effect.Preserves registries (attempConnection connect name) := by
  intro node
  rw [attempConnection_run]
  cases node.getConnection name with
  | some connection => rfl
  | none =>
      simp only
      cases connect name <;> rfl

theorem sendBufTo_registries (transport : Transport) (ei : Ei) (fuel : Nat) (sender : ErlPid)
    (node toName : Bytes) (buffer : PlainBuffer) :
    Effect.Preserves registries (sendBufTo transport ei fuel sender node toName buffer) := by
  apply Effect.Preserves.mapOutcome
  apply Effect.preserves_get_bind
  intro self
  split
  · exact sendLocal_registries _ self
  · rw [sendRemote_after]
    exact attempConnection_registries _ _ self

theorem sendVia_registries (mailbox : Nat) (term : Option ErlTerm)
    {sendBuf : MailBox → PlainBuffer → Method AutoNode Unit}
    (sends : ∀ object buffer, Effect.Preserves registries (sendBuf object buffer)) :
    Effect.Preserves registries (MailBox.sendVia mailbox term sendBuf) := by
  apply Effect.Preserves.mapOutcome
  apply Effect.preserves_get_bind
  intro node
  cases node.mailBoxes[mailbox]? with
  | none => rfl
  | some object =>
      simp only
      split
      · exact ((Effect.preserves_lift _).bind fun buffer => (sends object buffer).mapOutcome) node
      · rfl

theorem createRef_registries :
    Effect.Preserves registries (onLocalNode LocalNode.createRef) := by
  intro node
  have kept : (LocalNode.createRef node.localNode).2.mNodeName = node.localNode.mNodeName := by
    simp only [LocalNode.createRef, Effect.bind_run, Effect.get_run, Effect.lift_run]
    cases ErlRef.init node.localNode.mNodeName node.localNode.mRefId
      node.localNode.mCreation.toNat true with
    | returns ref =>
        simp only [Effect.set_run, Effect.pure_run, LocalNode.countRef]
        split
        · rfl
        · rfl
    | _ => rfl
  show (_, _, _, (LocalNode.createRef node.localNode).2.mNodeName) = _
  rw [kept]
  rfl

/-- A node with a good name creates its mailboxes. -/
theorem createMailBox_named {node : AutoNode} {name : NodeName}
    (named : node.localNode.mNodeName = name.text) :
    ∃ created, createMailBox node = (.returns node.mailBoxes.length, created) := by
  have pid : onLocalNode LocalNode.createPid node = (.returns (node.localNode.nextPid name),
      { node with localNode := node.localNode.countPid }) := by
    have ran := LocalNode.createPid_eq_returns.mpr ⟨name, named, rfl, rfl⟩
    rw [onLocalNode, ran]
  simp [createMailBox, newMailBox, Effect.bind_run, pid, onMailBox, addMailBox]

/-- A ping of another node leaves its mailbox in the registry, however it ends. -/
theorem ping_foreign {transport : Transport} {ei : Ei} {fuel : Nat} {reply : Call (Option ErlTerm)}
    {left : GenericQueue Nat} {remoteNode : Bytes} {node created : AutoNode} {mailbox : Nat}
    (foreign : ¬ (remoteNode = node.localNode.getAliveName ∨
      remoteNode = node.localNode.mNodeName))
    (creates : createMailBox node = (.returns mailbox, created)) :
    registries (ping transport ei fuel reply left remoteNode node).2 = registries created := by
  rw [ping, Effect.bind_run, Effect.get_run]
  simp only [if_neg foreign]
  rw [Effect.mapOutcome_run, Effect.bind_of_returns creates]
  have rest : Effect.Preserves registries (do
      let pingRef ← onLocalNode LocalNode.createRef
      let nodeName ← Effect.lift (AtomText.init node.localNode.mNodeName)
      let after ← Effect.get
      match after.mailBoxes[mailbox]? with
      | none => Effect.lift .aborts
      | some object => do
          MailBox.sendTo transport ei fuel mailbox remoteNode (text "net_kernel")
            (some (pingTuple object.mSelf pingRef nodeName))
          onMailBox mailbox fun object => .returns { object with mQueue := left }
          let received ← Effect.lift reply
          return received.isSome) := by
    apply createRef_registries.bind
    intro pingRef
    apply (Effect.preserves_lift _).bind
    intro nodeName
    apply Effect.preserves_get_bind
    intro after
    cases after.mailBoxes[mailbox]? with
    | none => rfl
    | some object =>
        apply Effect.Preserves.bind
        · exact sendVia_registries _ _ fun _ _ => sendBufTo_registries _ _ _ _ _ _ _
        · intro _
          apply Effect.Preserves.bind
          · apply onMailBox_registries
            intro before after updated
            cases updated
            rfl
          · exact fun _ => (Effect.preserves_lift _).bind fun _ => Effect.preserves_pure _
  exact rest created

end Registries

end AutoNode

/-- What the application does with its mailboxes. -/
inductive MailBoxEvent where
  | createMailBox (mailbox : Nat)
  | registerMailBox (name : Bytes) (mailbox : Nat)
  | unRegisterName (name : Bytes)
  | unRegisterMailBox (mailbox : Nat)
  | deattachMailBox (mailbox : Nat)
  | ping (remoteNode : Bytes)
  | destroyMailBox (mailbox : Nat)

/-- The mailbox stands in the registry of the pids. -/
def AutoNode.Attaches (node : AutoNode) (mailbox : Nat) : Prop :=
  ∃ entry ∈ node.mMailBoxes, entry.2 = mailbox

/-- The calls that return. The pid that `createPid` gives next is neither equal nor opposed to the
key of an attached mailbox, only attached mailboxes are registered, and no call gets a deleted
mailbox to work on. -/
inductive MailBoxStep : Transition AutoNode MailBoxEvent
  | createMailBox {node after : AutoNode} {mailbox : Nat} (unopposed : node.Unopposed)
      (ran : AutoNode.createMailBox node = (.returns mailbox, after)) :
      MailBoxStep node (.createMailBox mailbox) after
  | registerMailBox {node after : AutoNode} {name : Bytes} {mailbox : Nat}
      (attached : node.Attaches mailbox)
      (ran : AutoNode.registerMailBox name mailbox node = (.returns (), after)) :
      MailBoxStep node (.registerMailBox name mailbox) after
  | unRegisterName {node after : AutoNode} {name : Bytes}
      (ran : AutoNode.unRegisterName name node = (.returns (), after)) :
      MailBoxStep node (.unRegisterName name) after
  | unRegisterMailBox {node after : AutoNode} {mailbox : Nat}
      (ran : AutoNode.unRegisterMailBox mailbox node = (.returns (), after)) :
      MailBoxStep node (.unRegisterMailBox mailbox) after
  | deattachMailBox {node after : AutoNode} {mailbox : Nat}
      (living : .mailBox mailbox ∉ node.deleted)
      (ran : AutoNode.deattachMailBox mailbox node = (.returns (), after)) :
      MailBoxStep node (.deattachMailBox mailbox) after
  | ping {node after : AutoNode} {transport : Transport} {ei : Ei} {fuel : Nat}
      {reply : Call (Option ErlTerm)} {left : GenericQueue Nat} {remoteNode : Bytes} {answer : Bool}
      (unopposed : node.Unopposed)
      (ran : AutoNode.ping transport ei fuel reply left remoteNode node =
        (.returns answer, after)) :
      MailBoxStep node (.ping remoteNode) after
  | destroyMailBox {node after : AutoNode} {mailbox : Nat}
      (living : .mailBox mailbox ∉ node.deleted)
      (ran : AutoNode.destroyMailBox mailbox node = (.returns (), after)) :
      MailBoxStep node (.destroyMailBox mailbox) after

/-- A new node with a name of `initNodeName`. -/
def NamedNode (node : AutoNode) : Prop :=
  ∃ given base creation, AbstractNode.initNodeName given = .returns base ∧
    node = .create (.init base.mNodeName creation)

/-- The application created the mailbox, and it neither deattached nor destroyed it. -/
def Lives (events : List MailBoxEvent) (mailbox : Nat) : Prop :=
  .createMailBox mailbox ∈ events ∧ .deattachMailBox mailbox ∉ events ∧
    .destroyMailBox mailbox ∉ events

/-- The registry of the pids has exactly the mailboxes that live, each under its own pid, and the
names lead to mailboxes that live. -/
structure NeverDangles (events : List MailBoxEvent) (node : AutoNode) : Prop where
  exact : ∀ mailbox, node.Attaches mailbox ↔ Lives events mailbox
  own : ∀ entry ∈ node.mMailBoxes, ∃ object, node.mailBoxes[entry.2]? = some object ∧
    entry.1 = some object.mSelf
  named : ∀ name mailbox, node.getRegMailBox name = some mailbox → Lives events mailbox

/-- No mailbox is destroyed before it is deattached, and only the own node is pinged. -/
def Careful (node : AutoNode) : MailBoxEvent → Prop
  | .ping remoteNode => remoteNode = node.localNode.getAliveName ∨
      remoteNode = node.localNode.mNodeName
  | .destroyMailBox mailbox => ¬ node.Attaches mailbox
  | _ => True

def CarefulStep : Transition AutoNode MailBoxEvent :=
  fun before event after => Careful before event ∧ MailBoxStep before event after

/-- What an event does to the registry of the pids. -/
def MailBoxEvent.toRegistry : MailBoxEvent → List RegistryEvent
  | .createMailBox mailbox => [.createMailBox mailbox]
  | .deattachMailBox mailbox => [.deattachMailBox mailbox]
  | _ => []

/-- Behind the registry, the names lead to attached mailboxes, and the destroyed mailboxes are
deattached ones. -/
structure Kept (events : List MailBoxEvent) (node : AutoNode) : Prop where
  registered : Registered (events.flatMap MailBoxEvent.toRegistry) node
  named : ∀ name mailbox, node.getRegMailBox name = some mailbox → node.Attaches mailbox
  destroyed : ∀ mailbox, .destroyMailBox mailbox ∈ events →
    mailbox < node.mailBoxes.length ∧ ¬ node.Attaches mailbox
  nodeName : ∃ name : NodeName, node.localNode.mNodeName = name.text

section Dangling

variable {events : List MailBoxEvent} {event : MailBoxEvent} {node after : AutoNode}
  {mailbox : Nat}

theorem created_toRegistry :
    .createMailBox mailbox ∈ events.flatMap MailBoxEvent.toRegistry ↔
      .createMailBox mailbox ∈ events := by
  rw [List.mem_flatMap]
  constructor
  · rintro ⟨event, member, shown⟩
    cases event with
    | createMailBox other =>
        obtain rfl : mailbox = other := by simpa [MailBoxEvent.toRegistry] using shown
        exact member
    | _ => simp [MailBoxEvent.toRegistry] at shown
  · exact fun member => ⟨_, member, by simp [MailBoxEvent.toRegistry]⟩

theorem deattached_toRegistry :
    .deattachMailBox mailbox ∈ events.flatMap MailBoxEvent.toRegistry ↔
      .deattachMailBox mailbox ∈ events := by
  rw [List.mem_flatMap]
  constructor
  · rintro ⟨event, member, shown⟩
    cases event with
    | deattachMailBox other =>
        obtain rfl : mailbox = other := by simpa [MailBoxEvent.toRegistry] using shown
        exact member
    | _ => simp [MailBoxEvent.toRegistry] at shown
  · exact fun member => ⟨_, member, by simp [MailBoxEvent.toRegistry]⟩

/-- The attached mailboxes are the living ones. -/
theorem Kept.attaches_iff (kept : Kept events node) :
    node.Attaches mailbox ↔ Lives events mailbox := by
  rw [AutoNode.Attaches, kept.registered.attached, Attached, created_toRegistry,
    deattached_toRegistry, Lives]
  constructor
  · rintro ⟨created, attached⟩
    refine ⟨created, attached, ?_⟩
    intro destroyed
    apply (kept.destroyed mailbox destroyed).2
    exact (kept.registered.attached mailbox).mpr
      ⟨created_toRegistry.mpr created, attached ∘ deattached_toRegistry.mp⟩
  · rintro ⟨created, attached, -⟩
    exact ⟨created, attached⟩

theorem Kept.neverDangles (kept : Kept events node) : NeverDangles events node where
  exact _ := kept.attaches_iff
  own := kept.registered.own
  named name mailbox found := kept.attaches_iff.mp (kept.named name mailbox found)

/-- The registry sees a mailbox only by its pid. -/
theorem Registered.of_registries {events : List RegistryEvent} (registered : Registered events node)
    (same : after.registries = node.registries) : Registered events after := by
  simp only [AutoNode.registries, Prod.mk.injEq] at same
  obtain ⟨pids, -, selves, -⟩ := same
  have held : ∀ key, after.Held key ↔ node.Held key := by
    intro key
    rw [AutoNode.Held, AutoNode.Held, pids]
  have length : after.mailBoxes.length = node.mailBoxes.length := by
    simpa using congrArg List.length selves
  refine ⟨?_, ?_, ?_, ?_, ?_⟩
  · intro left right leftHeld rightHeld
    exact registered.unopposed left right ((held _).mp leftHeld) ((held _).mp rightHeld)
  · rw [pids]
    exact ⟨fun entry member => (held _).mpr ⟨entry, member, rfl⟩, registered.sorted.2⟩
  · intro entry member
    rw [pids] at member
    obtain ⟨object, here, own⟩ := registered.own entry member
    have there : (after.mailBoxes.map MailBox.mSelf)[entry.2]? = some object.mSelf := by
      rw [selves, List.getElem?_map, here, Option.map_some]
    obtain ⟨other, found, equal⟩ := Option.map_eq_some_iff.mp (List.getElem?_map ▸ there)
    exact ⟨other, found, by rw [own, equal]⟩
  · rw [pids]
    exact registered.attached
  · rw [length]
    exact registered.known

/-- An event that the registries do not see keeps what is kept. -/
theorem Kept.of_registries (kept : Kept events node) (same : after.registries = node.registries)
    (quiet : event.toRegistry = [])
    (harmless : ∀ mailbox, event = .destroyMailBox mailbox →
      mailbox < node.mailBoxes.length ∧ ¬ node.Attaches mailbox) :
    Kept (events ++ [event]) after := by
  have registered := kept.registered.of_registries same
  have attaches : ∀ mailbox, after.Attaches mailbox ↔ node.Attaches mailbox := by
    intro mailbox
    rw [AutoNode.Attaches, AutoNode.Attaches, registered.attached, kept.registered.attached]
  simp only [AutoNode.registries, Prod.mk.injEq] at same
  obtain ⟨-, names, selves, nodeName⟩ := same
  have length : after.mailBoxes.length = node.mailBoxes.length := by
    simpa using congrArg List.length selves
  refine ⟨?_, ?_, ?_, ?_⟩
  · simpa [quiet] using registered
  · intro name mailbox found
    rw [AutoNode.getRegMailBox, names] at found
    exact (attaches mailbox).mpr (kept.named name mailbox found)
  · intro mailbox happened
    rw [length, attaches]
    rcases List.mem_append.mp happened with old | new
    · exact kept.destroyed mailbox old
    · exact harmless mailbox (List.mem_singleton.mp new).symm
  · rw [nodeName]
    exact kept.nodeName

/-- Fewer names lead to attached mailboxes, too. -/
theorem Kept.of_names (kept : Kept events node) {names : OrderedMap Bytes Nat nameLess}
    (attached : ∀ name mailbox, names.find name = some mailbox → node.Attaches mailbox)
    (quiet : event.toRegistry = []) (harmless : ∀ mailbox, event ≠ .destroyMailBox mailbox) :
    Kept (events ++ [event]) { node with mRegMailBoxes := names } := by
  refine ⟨?_, attached, ?_, kept.nodeName⟩
  · obtain ⟨unopposed, sorted, own, attachedOnly, known⟩ := kept.registered
    have unchanged : (events ++ [event]).flatMap MailBoxEvent.toRegistry =
        events.flatMap MailBoxEvent.toRegistry := by
      simp [quiet]
    rw [unchanged]
    exact ⟨unopposed, sorted, own, attachedOnly, known⟩
  · intro mailbox happened
    rcases List.mem_append.mp happened with old | new
    · exact kept.destroyed mailbox old
    · exact absurd (List.mem_singleton.mp new).symm (harmless mailbox)

theorem Kept.createMailBox (kept : Kept events node) (unopposed : node.Unopposed)
    (ran : AutoNode.createMailBox node = (.returns mailbox, after)) :
    Kept (events ++ [.createMailBox mailbox]) after := by
  have registered := kept.registered.createMailBox unopposed ran
  have unchanged : (events ++ [MailBoxEvent.createMailBox mailbox]).flatMap
      MailBoxEvent.toRegistry =
        events.flatMap MailBoxEvent.toRegistry ++ [.createMailBox mailbox] := by
    simp [MailBoxEvent.toRegistry]
  have attaches : ∀ other, after.Attaches other ↔
      node.Attaches other ∨ other = mailbox ∧
        .deattachMailBox mailbox ∉ events.flatMap MailBoxEvent.toRegistry := by
    intro other
    rw [AutoNode.Attaches, AutoNode.Attaches, registered.attached, kept.registered.attached]
    simp only [Attached, List.mem_append, List.mem_singleton, RegistryEvent.createMailBox.injEq,
      reduceCtorEq, or_false]
    constructor
    · rintro ⟨created | rfl, attached⟩
      · exact .inl ⟨created, attached⟩
      · exact .inr ⟨rfl, attached⟩
    · rintro (⟨created, attached⟩ | ⟨rfl, attached⟩)
      · exact ⟨.inl created, attached⟩
      · exact ⟨.inr rfl, attached⟩
  obtain ⟨name, nodeName, rfl, rfl⟩ := AutoNode.createMailBox_returns ran
  refine ⟨?_, ?_, ?_, ?_⟩
  · rw [unchanged]
    exact registered
  · intro name mailbox found
    exact (attaches mailbox).mpr (.inl (kept.named name mailbox found))
  · intro other happened
    have old : .destroyMailBox other ∈ events := by simpa using happened
    obtain ⟨inside, apart⟩ := kept.destroyed other old
    refine ⟨by simp only [List.length_append, List.length_singleton]; omega, ?_⟩
    rw [attaches]
    rintro (attached | ⟨rfl, -⟩)
    · exact apart attached
    · exact lt_irrefl _ inside
  · exact ⟨name, by rw [← nodeName]; exact LocalNode.countPid_mNodeName _⟩

theorem Kept.deattachMailBox (kept : Kept events node)
    (ran : AutoNode.deattachMailBox mailbox node = (.returns (), after)) :
    Kept (events ++ [.deattachMailBox mailbox]) after := by
  have registered := kept.registered.deattachMailBox ran
  have unchanged : (events ++ [MailBoxEvent.deattachMailBox mailbox]).flatMap
      MailBoxEvent.toRegistry =
        events.flatMap MailBoxEvent.toRegistry ++ [.deattachMailBox mailbox] := by
    simp [MailBoxEvent.toRegistry]
  have attaches : ∀ other, after.Attaches other ↔ node.Attaches other ∧ other ≠ mailbox := by
    intro other
    rw [AutoNode.Attaches, AutoNode.Attaches, registered.attached, kept.registered.attached]
    simp only [Attached, List.mem_append, List.mem_singleton, reduceCtorEq, or_false,
      RegistryEvent.deattachMailBox.injEq, not_or]
    tauto
  obtain ⟨object, -, rfl⟩ := AutoNode.deattachMailBox_returns ran
  refine ⟨?_, ?_, ?_, kept.nodeName⟩
  · rw [unchanged]
    exact registered
  · intro name other found
    obtain ⟨old, apart⟩ := (OrderedMap.find_eraseByValue nameLess_ordered _ mailbox).mp found
    exact (attaches other).mpr ⟨kept.named name other old, apart⟩
  · intro other happened
    have old : .destroyMailBox other ∈ events := by simpa using happened
    obtain ⟨inside, apart⟩ := kept.destroyed other old
    refine ⟨by rwa [List.length_set], ?_⟩
    rw [attaches]
    exact fun attached => apart attached.1

/-- The destruction is not seen by the registries. -/
theorem destroyMailBox_returns
    (ran : AutoNode.destroyMailBox mailbox node = (.returns (), after)) :
    mailbox < node.mailBoxes.length ∧ after.registries = node.registries := by
  have preserved : Effect.Preserves AutoNode.registries (AutoNode.destroyMailBox mailbox) := by
    apply Effect.preserves_get_bind
    intro state
    cases state.mailBoxes[mailbox]? with
    | none => rfl
    | some object =>
        have emptied : Effect.Preserves AutoNode.registries (do
            AutoNode.onMailBox mailbox fun object => .returns { object with mQueue := ⟨[]⟩ }
            AutoNode.delete (.mailBox mailbox)) := by
          apply Effect.Preserves.bind
          · apply AutoNode.onMailBox_registries
            intro before after updated
            cases updated
            rfl
          · exact fun _ _ => rfl
        exact emptied _
  constructor
  · by_contra outside
    have missing : node.mailBoxes[mailbox]? = none :=
      List.getElem?_eq_none_iff.mpr (Nat.le_of_not_lt outside)
    rw [AutoNode.destroyMailBox, Effect.bind_run, Effect.get_run] at ran
    simp only [missing] at ran
    cases ran
  · have same := preserved node
    rwa [ran] at same

/-- A careful step keeps the registries. -/
theorem Kept.step (kept : Kept events node) (careful : Careful node event)
    (taken : MailBoxStep node event after) : Kept (events ++ [event]) after := by
  cases taken with
  | createMailBox unopposed ran => exact kept.createMailBox unopposed ran
  | @registerMailBox _ _ name mailbox attached ran =>
      cases ran
      apply kept.of_names _ rfl fun _ => by simp
      intro other found here
      rw [OrderedMap.find_store] at here
      split at here
      · cases here
        exact attached
      · exact kept.named other found here
  | unRegisterName ran =>
      cases ran
      apply kept.of_names _ rfl fun _ => by simp
      intro other found here
      apply kept.named other found
      have member := OrderedMap.mem_of_find nameLess_ordered _ here
      exact OrderedMap.find_of_mem nameLess_ordered _
        ((Entries.erase_sublist _).subset member)
  | unRegisterMailBox ran =>
      cases ran
      apply kept.of_names _ rfl fun _ => by simp
      intro other found here
      exact kept.named other found
        ((OrderedMap.find_eraseByValue nameLess_ordered _ _).mp here).1
  | deattachMailBox living ran => exact kept.deattachMailBox ran
  | @ping _ _ transport ei fuel reply left remoteNode answer unopposed ran =>
      have own : remoteNode = node.localNode.getAliveName ∨
          remoteNode = node.localNode.mNodeName := careful
      apply kept.of_registries _ rfl fun _ => by simp
      rw [AutoNode.ping, Effect.bind_run, Effect.get_run] at ran
      simp only [if_pos own] at ran
      cases ran
      rfl
  | destroyMailBox living ran =>
      obtain ⟨inside, same⟩ := destroyMailBox_returns ran
      apply kept.of_registries same rfl
      rintro mailbox ⟨⟩
      exact ⟨inside, careful⟩

/-- The next mailbox was not there before. -/
theorem Kept.new_lives (kept : Kept events node) :
    Lives (events ++ [.createMailBox node.mailBoxes.length]) node.mailBoxes.length := by
  refine ⟨by simp, ?_, ?_⟩
  · intro happened
    have old : .deattachMailBox node.mailBoxes.length ∈ events := by simpa using happened
    exact lt_irrefl _ (kept.registered.known _ (.inr (deattached_toRegistry.mpr old)))
  · intro happened
    have old : .destroyMailBox node.mailBoxes.length ∈ events := by simpa using happened
    exact lt_irrefl _ (kept.destroyed _ old).1

/-- A step that is not careful leaves a mailbox in the registry that the application does not
have. -/
theorem Kept.careful (kept : Kept events node) (taken : MailBoxStep node event after)
    (dangles : NeverDangles (events ++ [event]) after) : Careful node event := by
  cases taken with
  | @ping _ _ transport ei fuel reply left remoteNode answer unopposed ran =>
      by_contra foreign
      obtain ⟨name, nodeName⟩ := kept.nodeName
      obtain ⟨created, creates⟩ := AutoNode.createMailBox_named nodeName
      have same : after.registries = created.registries := by
        have seen := @AutoNode.ping_foreign transport ei fuel reply left remoteNode node created
          node.mailBoxes.length foreign creates
        rwa [ran] at seen
      have attached : created.Attaches node.mailBoxes.length :=
        (kept.createMailBox unopposed creates).attaches_iff.mpr kept.new_lives
      have still : after.Attaches node.mailBoxes.length := by
        simp only [AutoNode.registries, Prod.mk.injEq] at same
        rw [AutoNode.Attaches, same.1]
        exact attached
      have created : .createMailBox node.mailBoxes.length ∈ events := by
        simpa using ((dangles.exact _).mp still).1
      exact lt_irrefl _ (kept.registered.known _ (.inl (created_toRegistry.mpr created)))
  | @destroyMailBox _ _ mailbox living ran =>
      intro attached
      obtain ⟨-, same⟩ := destroyMailBox_returns ran
      have still : after.Attaches mailbox := by
        simp only [AutoNode.registries, Prod.mk.injEq] at same
        rw [AutoNode.Attaches, same.1]
        exact attached
      exact ((dangles.exact mailbox).mp still).2.2 (by simp)
  | _ => trivial

theorem kept_new (start : NamedNode node) : Kept [] node := by
  obtain ⟨given, base, creation, started, rfl⟩ := start
  have named := named_of_init started
  refine ⟨.init, ?_, ?_, ⟨⟨base.mNodeName, ?_, named.bounded⟩, rfl⟩⟩
  · intro name mailbox found
    cases found
  · intro mailbox happened
    cases happened
  · rw [named.parts]
    simp

/-- In a run of careful steps the registries never dangle, and the first step that is not careful
lets them. -/
theorem registries_never_dangle (run : Run NamedNode CarefulStep events node) :
    NeverDangles events node ∧ ∀ event after, MailBoxStep node event after →
      (NeverDangles (events ++ [event]) after ↔ Careful node event) := by
  have kept : Kept events node := by
    apply run.invariant
    · exact fun start initial => kept_new initial
    · rintro events before event after kept ⟨careful, taken⟩
      exact kept.step careful taken
  refine ⟨kept.neverDangles, ?_⟩
  intro event after taken
  constructor
  · exact kept.careful taken
  · exact fun careful => (kept.step careful taken).neverDangles

end Dangling

theorem registries_never_dangle_created :
    NeverDangles [.createMailBox 0] firstCreated ∧ ∀ event after,
      MailBoxStep firstCreated event after →
        (NeverDangles ([.createMailBox 0] ++ [event]) after ↔ Careful firstCreated event) := by
  have unopposed : startedNode.Unopposed := by
    rintro name - held ⟨entry, member, -⟩
    cases member
  have named : NamedNode startedNode :=
    ⟨text "a@b", ⟨text "a@b", text "a", text "b"⟩, 0, by decide, rfl⟩
  have run : Run NamedNode CarefulStep [.createMailBox 0] firstCreated :=
    .step (.start named) ⟨trivial, .createMailBox unopposed rfl⟩
  exact registries_never_dangle run

/-- A network without other nodes. -/
def deadNetwork : Transport :=
  ⟨fun _ => .throws (.connection (text "Can not connect")), fun _ _ _ => .aborts,
    fun _ _ _ _ => .aborts⟩

/-- The node after a ping that did not get through. -/
def pingedNode : AutoNode :=
  (AutoNode.ping deadNetwork externalFormat 8 (.returns none) ⟨[]⟩ (text "c@d") firstCreated).2

/-- A ping leaves a mailbox in the registry that the application does not know. A mailbox that is
destroyed while it is attached stays there, and a message to its pid finds it. -/
theorem ping_and_destruction_dangle :
    (MailBoxStep firstCreated (.ping (text "c@d")) pingedNode ∧ pingedNode.Attaches 1 ∧
      ¬ NeverDangles [.createMailBox 0, .ping (text "c@d")] pingedNode) ∧
    ∃ node, MailBoxStep firstCreated (.destroyMailBox 0) node ∧ node.Attaches 0 ∧
      .mailBox 0 ∈ node.deleted ∧ ¬ NeverDangles [.createMailBox 0, .destroyMailBox 0] node := by
  have young : pidsTaken [.createMailBox 0] + 1 < 2 ^ 15 := by decide
  have unopposed : firstCreated.Unopposed :=
    (calm_of_young (.step (.start ⟨text "a@b", 0, rfl⟩) (.createMailBox rfl)) (by decide)).2.unopposed
      young
  have pinged : AutoNode.ping deadNetwork externalFormat 8 (.returns none) ⟨[]⟩ (text "c@d")
      firstCreated = (.returns false, pingedNode) := Prod.ext rfl rfl
  have extra : pingedNode.Attaches 1 := ⟨_, List.mem_cons_of_mem _ List.mem_cons_self, rfl⟩
  have step : MailBoxStep firstCreated (.destroyMailBox 0)
      (AutoNode.destroyMailBox 0 firstCreated).2 :=
    .destroyMailBox (by decide) rfl
  have still : (AutoNode.destroyMailBox 0 firstCreated).2.Attaches 0 :=
    ⟨_, List.mem_singleton.mpr rfl, rfl⟩
  refine ⟨⟨.ping unopposed pinged, extra, ?_⟩, _, step, still, List.mem_singleton.mpr rfl, ?_⟩
  · intro dangles
    have created := ((dangles.exact 1).mp extra).1
    simp at created
  · intro dangles
    exact ((dangles.exact 0).mp still).2.2 (by simp)

end Epi.Node
