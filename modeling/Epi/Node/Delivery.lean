import Epi.Node.AutoNode

namespace Epi.Node

open Verification Epi.Type Epi.Queue

/-- Control messages are those of links and exits. -/
def EpiMessage.isControl (message : EpiMessage) : Bool := message.instanceOf .controlMsg

namespace AutoNode

variable {node : AutoNode} {msg mailbox : Nat}

/-- The message in the queue of a mailbox. -/
def Queues (node : AutoNode) (mailbox msg : Nat) : Prop :=
  ∃ object, node.mailBoxes[mailbox]? = some object ∧ msg ∈ object.mQueue.mList

/-- The queue of a mailbox. -/
def queueOf (node : AutoNode) (mailbox : Nat) : List Nat :=
  (node.mailBoxes[mailbox]?.map fun object => object.mQueue.mList).getD []

/-- How often a message is queued or deleted. -/
def messageOwners (node : AutoNode) (msg : Nat) : Nat :=
  (node.mailBoxes.map fun object => object.mQueue.mList.count msg).sum +
    node.deleted.count (.message msg)

/-- The maps lead to mailboxes that were created. -/
def Pointing (node : AutoNode) : Prop :=
  (∀ pid mailbox, node.getMailBox pid = some mailbox → mailbox < node.mailBoxes.length) ∧
    ∀ name mailbox, node.getRegMailBox name = some mailbox → mailbox < node.mailBoxes.length

/-- The node after a mailbox queued a message. -/
def queued (node : AutoNode) (mailbox msg : Nat) (object : MailBox) : AutoNode :=
  { node with mailBoxes :=
      node.mailBoxes.set mailbox { object with mQueue := object.mQueue.push msg } }

/-- The node after a message was deleted. -/
def discarded (node : AutoNode) (msg : Nat) : AutoNode :=
  { node with deleted := node.deleted ++ [.message msg] }

/-- A mailbox queues every message except for the control messages. -/
theorem onMailBox_deliver {object : MailBox} {message : EpiMessage}
    (here : node.mailBoxes[mailbox]? = some object) (held : node.messages[msg]? = some message) :
    onMailBox mailbox (MailBox.deliver node.messages msg) node =
      (.returns (), if message.isControl then node else node.queued mailbox msg object) := by
  obtain ⟨inside, same⟩ := List.getElem?_eq_some_iff.mp here
  have unchanged : { node with mailBoxes := node.mailBoxes.set mailbox object } = node := by
    rw [← same, List.set_getElem_self]
  simp only [onMailBox, here, MailBox.deliver, held]
  cases message with
  | linkMessage mSender mRecipient => exact congrArg _ unchanged
  | unLinkMessage mSender mRecipient => exact congrArg _ unchanged
  | exitMessage mSender mRecipient mReason => exact congrArg _ unchanged
  | _ => rfl

theorem deliverTo_none (msg : Nat) : deliverTo none msg node = (.returns (), node.discarded msg) :=
  rfl

theorem deliverTo_some {object : MailBox} {message : EpiMessage}
    (here : node.mailBoxes[mailbox]? = some object) (held : node.messages[msg]? = some message)
    (payload : message.isControl = false) :
    deliverTo (some mailbox) msg node = (.returns (), node.queued mailbox msg object) := by
  rw [deliverTo, Effect.bind_run, Effect.get_run]
  simp only
  rw [onMailBox_deliver here held, payload]
  rfl

end AutoNode

/-- An exchanged element changes a sum by the difference. -/
theorem sum_map_set {Element : Type} (weight : Element → Nat) {elements : List Element}
    {index : Nat} {old : Element} (here : elements[index]? = some old) (new : Element) :
    ((elements.set index new).map weight).sum + weight old =
      (elements.map weight).sum + weight new := by
  induction elements generalizing index with
  | nil => cases here
  | cons head rest ih =>
      cases index with
      | zero =>
          obtain rfl : head = old := Option.some.inj here
          simp only [List.set_cons_zero, List.map_cons, List.sum_cons]
          omega
      | succ index =>
          have rested := ih here
          simp only [List.set_cons_succ, List.map_cons, List.sum_cons]
          omega

namespace AutoNode

section Owners

variable {node : AutoNode} {msg mailbox : Nat} {object : MailBox}

theorem queueOf_eq (here : node.mailBoxes[mailbox]? = some object) :
    node.queueOf mailbox = object.mQueue.mList := by
  rw [queueOf, here]
  rfl

/-- An update of one queue. -/
theorem queueOf_set (inside : mailbox < node.mailBoxes.length) (changed : MailBox) (other : Nat)
    {after : AutoNode} (same : after.mailBoxes = node.mailBoxes.set mailbox changed) :
    after.queueOf other =
      if other = mailbox then changed.mQueue.mList else node.queueOf other := by
  rw [queueOf, same]
  split
  · rename_i equal
    rw [equal, List.getElem?_set_self inside]
    rfl
  · rename_i apart
    rw [List.getElem?_set_ne (Ne.symm apart), queueOf]

/-- The message stands behind the others in the queue, and the other queues stay. -/
theorem queueOf_queued (here : node.mailBoxes[mailbox]? = some object) (other : Nat) :
    (node.queued mailbox msg object).queueOf other =
      node.queueOf other ++ if other = mailbox then [msg] else [] := by
  obtain ⟨inside, -⟩ := List.getElem?_eq_some_iff.mp here
  rw [queueOf_set inside _ other rfl]
  split
  · rename_i equal
    rw [equal, queueOf_eq here, GenericQueue.push]
  · rw [List.append_nil]

theorem messageOwners_queued (here : node.mailBoxes[mailbox]? = some object) :
    (node.queued mailbox msg object).messageOwners msg = node.messageOwners msg + 1 := by
  have changed := sum_map_set (fun object => object.mQueue.mList.count msg) here
    { object with mQueue := object.mQueue.push msg }
  simp only [GenericQueue.push, List.count_append, List.count_singleton_self] at changed
  simp only [messageOwners, queued, GenericQueue.push]
  omega

theorem messageOwners_discarded :
    (node.discarded msg).messageOwners msg = node.messageOwners msg + 1 := by
  simp only [messageOwners, discarded, List.count_append, List.count_singleton_self]
  omega

theorem not_queues (unowned : node.messageOwners msg = 0) (other : Nat) :
    ¬ node.Queues other msg := by
  rintro ⟨object, here, member⟩
  have nothing := (Nat.add_eq_zero_iff.mp unowned).1
  have absent := List.sum_eq_zero_iff.mp nothing (object.mQueue.mList.count msg)
    (List.mem_map.mpr ⟨object, List.mem_of_getElem? here, rfl⟩)
  exact List.count_eq_zero.mp absent member

/-- Only the mailbox that queued a new message has it. -/
theorem queues_queued (here : node.mailBoxes[mailbox]? = some object)
    (unowned : node.messageOwners msg = 0) (other : Nat) :
    (node.queued mailbox msg object).Queues other msg ↔ other = mailbox := by
  obtain ⟨inside, -⟩ := List.getElem?_eq_some_iff.mp here
  constructor
  · rintro ⟨found, there, member⟩
    by_contra apart
    rw [queued, List.getElem?_set_ne (Ne.symm apart)] at there
    exact not_queues unowned other ⟨found, there, member⟩
  · rintro rfl
    refine ⟨_, List.getElem?_set_self inside, ?_⟩
    simp [GenericQueue.push]

/-- A message that a lookup takes to a mailbox, or to none, is owned once, by the mailbox that was
found. -/
theorem deliverTo_owned {message : EpiMessage} (held : node.messages[msg]? = some message)
    (payload : message.isControl = false) (unowned : node.messageOwners msg = 0)
    {recipient : Option Nat}
    (pointing : ∀ mailbox, recipient = some mailbox → mailbox < node.mailBoxes.length) :
    ∃ after, deliverTo recipient msg node = (.returns (), after) ∧ after.messageOwners msg = 1 ∧
      ∀ mailbox, after.Queues mailbox msg ↔ recipient = some mailbox := by
  cases recipient with
  | none =>
      refine ⟨_, deliverTo_none msg, by rw [messageOwners_discarded, unowned], ?_⟩
      intro mailbox
      simp only [reduceCtorEq, iff_false]
      exact not_queues unowned mailbox
  | some mailbox =>
      have here := List.getElem?_eq_getElem (pointing mailbox rfl)
      refine ⟨_, deliverTo_some here held payload, by rw [messageOwners_queued here, unowned], ?_⟩
      intro other
      rw [queues_queued here unowned, Option.some.injEq, eq_comm]

end Owners

/-- The mailbox stands under the pid or the name that the message is sent to. -/
def Addresses (node : AutoNode) (mailbox : Nat) : EpiMessage → Prop
  | .sendMessage _ mRecipient => (some mRecipient, mailbox) ∈ node.mMailBoxes
  | .regSendMessage _ _ mRecipient => (mRecipient, mailbox) ∈ node.mRegMailBoxes.entries
  | _ => False

end AutoNode

/-- The delivery returns, the message is queued or deleted once, and a message to a pid or a name is
queued where that stands. -/
structure DeliveredOnce (node : AutoNode) (msg : Nat) (message : EpiMessage)
    (result : Call Unit × AutoNode) : Prop where
  returned : result.1 = .returns ()
  once : result.2.messageOwners msg = 1
  addressed : message.instanceOf .erlangMsg = true →
    ∀ mailbox, result.2.Queues mailbox msg ↔ node.Addresses mailbox message

/-- The message is sent to a name, or to a pid that the lookup finds where it stands. -/
def Routable (node : AutoNode) : EpiMessage → Prop
  | .sendMessage _ mRecipient => ∀ mailbox, node.getMailBox (some mRecipient) = some mailbox ↔
      (some mRecipient, mailbox) ∈ node.mMailBoxes
  | .regSendMessage _ _ _ => True
  | _ => False

section Delivered

variable {node : AutoNode} {msg : Nat} {message : EpiMessage}

theorem deliver_run (held : node.messages[msg]? = some message) (origin : Address) :
    AutoNode.deliver origin msg node = (match message with
      | .errorMessage _ => AutoNode.removeConnection origin
      | .sendMessage _ mRecipient => AutoNode.deliverTo (node.getMailBox (some mRecipient)) msg
      | .regSendMessage _ _ mRecipient => AutoNode.deliverTo (node.getRegMailBox mRecipient) msg
      | _ => pure ()) node := by
  rw [AutoNode.deliver, Effect.bind_run, Effect.get_run]
  simp only [held]
  cases message <;> rfl

/-- The node owns the delivered message once exactly when it is a routable one, and a mailbox does
exactly when it is not a control message. -/
theorem delivered_once_iff (held : node.messages[msg]? = some message)
    (unowned : node.messageOwners msg = 0) (pointing : node.Pointing) (origin : Address) :
    (DeliveredOnce node msg message (AutoNode.deliver origin msg node) ↔ Routable node message) ∧
      ∀ mailbox < node.mailBoxes.length,
        ((AutoNode.onMailBox mailbox (MailBox.deliver node.messages msg) node).2.messageOwners msg
          = 1 ↔ message.isControl = false) := by
  constructor
  · rw [deliver_run held]
    cases message with
    | sendMessage payload mRecipient =>
        obtain ⟨after, ran, once, queues⟩ := AutoNode.deliverTo_owned held rfl unowned
          (pointing.1 (some mRecipient))
        simp only [ran]
        constructor
        · intro delivered mailbox
          rw [← queues]
          exact delivered.addressed rfl mailbox
        · intro routable
          refine ⟨rfl, once, fun _ mailbox => ?_⟩
          rw [queues]
          exact routable mailbox
    | regSendMessage payload mSender mRecipient =>
        obtain ⟨after, ran, once, queues⟩ := AutoNode.deliverTo_owned held rfl unowned
          (pointing.2 mRecipient)
        simp only [ran]
        refine iff_of_true ⟨rfl, once, fun _ mailbox => ?_⟩ trivial
        rw [queues]
        exact OrderedMap.find_eq_some nameLess_ordered _
    | errorMessage mException =>
        refine iff_of_false (fun delivered => ?_) id
        have leaked : node.messageOwners msg = 1 := delivered.once
        omega
    | _ =>
        refine iff_of_false (fun delivered => ?_) id
        have leaked : node.messageOwners msg = 1 := delivered.once
        omega
  · intro mailbox inside
    have here := List.getElem?_eq_getElem inside
    rw [AutoNode.onMailBox_deliver here held]
    cases message.isControl with
    | true => simp [unowned]
    | false => simp [AutoNode.messageOwners_queued here, unowned]

end Delivered

/-- A pid of the node `c@d`. -/
def senderPid : ErlPid := ⟨⟨text "c@d", by decide, by decide⟩, 1, 0, 0⟩

/-- The node `a@b` with one mailbox, which has the name `shell`. -/
def shellNode : AutoNode :=
  (AutoNode.registerMailBox (text "shell") 0
    (AutoNode.createMailBox (.create (.init (text "a@b") 0))).2).2

/-- The node when it gets one message. -/
def nodeWith (message : EpiMessage) : AutoNode := { shellNode with messages := [message] }

/-- A message without a payload to the name `shell`. -/
def shellMessage : EpiMessage := .regSendMessage ⟨.plainBuffer ⟨0, []⟩, none⟩ senderPid (text "shell")

def closedMessage : EpiMessage := .errorMessage (.connection (text "closed"))

theorem pointing_nodeWith (message : EpiMessage) : (nodeWith message).Pointing := by
  constructor
  · intro pid mailbox found
    obtain ⟨held, member, -⟩ := Entries.mem_of_lookup found
    obtain rfl := (Prod.mk.inj (List.mem_singleton.mp member)).2
    exact Nat.one_pos
  · intro name mailbox found
    obtain ⟨held, member, -⟩ := Entries.mem_of_lookup found
    obtain rfl := (Prod.mk.inj (List.mem_singleton.mp member)).2
    exact Nat.one_pos

/-- The message to `shell` gets into the queue of the mailbox. -/
theorem delivered_once_iff_shell :
    (AutoNode.deliver .node 0 (nodeWith shellMessage)).2.queueOf 0 = [0] ∧
    (DeliveredOnce (nodeWith shellMessage) 0 shellMessage
      (AutoNode.deliver .node 0 (nodeWith shellMessage)) ↔
        Routable (nodeWith shellMessage) shellMessage) ∧
    ∀ mailbox < (nodeWith shellMessage).mailBoxes.length,
      ((AutoNode.onMailBox mailbox (MailBox.deliver (nodeWith shellMessage).messages 0)
        (nodeWith shellMessage)).2.messageOwners 0 = 1 ↔ shellMessage.isControl = false) :=
  ⟨rfl, delivered_once_iff rfl rfl (pointing_nodeWith shellMessage) .node⟩

/-- The error message of a connection is neither queued nor deleted. -/
theorem error_message_leaks :
    (nodeWith closedMessage).messages[0]? = some closedMessage ∧
    (nodeWith closedMessage).messageOwners 0 = 0 ∧
    (AutoNode.deliver (.acceptor 0) 0 (nodeWith closedMessage)).1 = .returns () ∧
    (AutoNode.deliver (.acceptor 0) 0 (nodeWith closedMessage)).2.messageOwners 0 = 0 ∧
    ¬ DeliveredOnce (nodeWith closedMessage) 0 closedMessage
      (AutoNode.deliver (.acceptor 0) 0 (nodeWith closedMessage)) := by
  refine ⟨rfl, rfl, rfl, rfl, ?_⟩
  intro delivered
  cases delivered.once

end Epi.Node
