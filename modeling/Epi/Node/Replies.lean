import Epi.Node.Closing
import Epi.Node.RPC

namespace Epi.Node

open Verification Epi.Type Epi.Buffer Epi.Queue

/-- An error, or a decoded term that is no reply of a server. -/
def EpiMessage.Foreign (message : EpiMessage) : Prop :=
  message.messageType = .errorMsg ∨
    ∃ payload, message.payload = some payload ∧ payload.Matchable ∧
      ∀ response, payload ≠ rexTuple response

/-- A message holds the answer to a numbered call, or it has nothing to do with the calls. -/
inductive Tagged (result : Nat → ErlTerm) (messages : List EpiMessage) (address : Nat) :
    Option Nat → Prop
  | foreign {message : EpiMessage} (held : messages[address]? = some message)
      (foreign : message.Foreign) : Tagged result messages address none
  | reply {message : EpiMessage} {number : Nat} (held : messages[address]? = some message)
      (replies : message.payload = some (rexTuple (result number))) :
      Tagged result messages address (some number)

/-- The answers to these calls wait in the queue, in this order. -/
def AutoNode.Awaits (node : AutoNode) (result : Nat → ErlTerm) (mailbox : Nat)
    (waiting : List Nat) : Prop :=
  ∃ object tags, node.mailBoxes[mailbox]? = some object ∧ object.mQueue.mList.Nodup ∧
    List.Forall₂ (Tagged result node.messages) object.mQueue.mList tags ∧
    tags.reduceOption = waiting

/-- The node after `new` of a message. -/
def AutoNode.gained (node : AutoNode) (message : EpiMessage) : AutoNode :=
  { node with messages := node.messages ++ [message] }

/-- A message in the queue is not a new one. -/
def AutoNode.Queueing (node : AutoNode) (mailbox : Nat) : Prop :=
  ∀ address ∈ node.queueOf mailbox, address < node.messages.length

/-- The mailbox and the messages in its queue stay. -/
structure Spares (mailbox : Nat) (before after : AutoNode) : Prop where
  mailBox : after.mailBoxes[mailbox]? = before.mailBoxes[mailbox]?
  messages : ∀ address ∈ before.queueOf mailbox,
    after.messages[address]? = before.messages[address]?

/-- The call came back with a term or with the error of the server. -/
def RPCCall.answered : RPCCall (Option ErlTerm) → Bool
  | .returns (some _) => true
  | .throws (.epiBadRPC _) => true
  | _ => false

/-- A call took the first answer that waits, or none, or it ended the program. -/
inductive Takes (result : Nat → ErlTerm) (mailbox : Nat) (waiting : List Nat) :
    RPCCall (Option ErlTerm) × AutoNode → Prop
  | answer {owner : Nat} {rest : List Nat} {after : AutoNode} (first : waiting = owner :: rest)
      (awaits : after.Awaits result mailbox rest) :
      Takes result mailbox waiting (rpcAnswer (result owner), after)
  | nothing {outcome : RPCCall (Option ErlTerm)} {after : AutoNode}
      (unanswered : outcome.answered = false) (awaits : after.Awaits result mailbox waiting) :
      Takes result mailbox waiting (outcome, after)
  | aborts {after : AutoNode} : Takes result mailbox waiting (.aborts, after)

section Replies

variable {result : Nat → ErlTerm} {fuel mailbox address : Nat} {waiting : List Nat}
  {tag : Option Nat} {node after : AutoNode} {state : Receiving}

theorem rexTuple_matchable {response : ErlTerm} (matchable : response.Matchable) :
    (rexTuple response).Matchable := by
  obtain ⟨ground, valid⟩ := matchable
  constructor
  · rw [ErlTerm.Ground, rexTuple, pairTerm, ErlTerm.every_erlTuple]
    exact ⟨rfl, List.forall_mem_cons.mpr ⟨rfl, List.forall_mem_singleton.mpr ground⟩⟩
  · rw [rexTuple, pairTerm, ErlTerm.valid_erlTuple]
    exact ⟨rfl, rfl, List.forall_mem_cons.mpr ⟨rfl, List.forall_mem_singleton.mpr valid⟩⟩

/-- The guard of a call passes over the terms that are no replies. An error it takes. -/
theorem check_tagged (ei : Ei) (deep : 4 ≤ fuel) (results : ∀ number, (result number).Matchable)
    (unbound : state.binding = none) (tagged : Tagged result state.messages address tag) :
    PatternMatchingGuard.check ei fuel rexPattern address state = (.returns false, state) ∧
        tag = none ∨
      PatternMatchingGuard.check ei fuel rexPattern address state = (.returns true, state) ∧
        ∃ message, state.messages[address]? = some message ∧
          (tag = none ∧ message.messageType = .errorMsg ∨
            ∃ number, tag = some number ∧ message.payload = some (rexTuple (result number))) := by
  cases tagged with
  | @foreign message held foreign =>
      rcases foreign with error | ⟨payload, decoded, matchable, other⟩
      · exact .inr ⟨check_of_error ei held error, message, held, .inl ⟨rfl, error⟩⟩
      · rcases rexPattern_matches matchable deep with ⟨⟨response, equal⟩, -⟩ | ⟨-, refused⟩
        · exact absurd equal (other response)
        · have checked := check_of_payload ei held decoded (unbound ▸ refused)
          exact .inl ⟨checked, rfl⟩
  | @reply message number held replies =>
      rcases rexPattern_matches (rexTuple_matchable (results number)) deep with
        ⟨-, accepted⟩ | ⟨other, -⟩
      · have checked := check_of_payload ei held replies (unbound ▸ accepted)
        exact .inr ⟨checked, message, held, .inr ⟨number, rfl, replies⟩⟩
      · exact absurd rfl (other (result number))

/-- A scan takes the first answer or error, and the others stay in order. -/
theorem scan_tagged (ei : Ei) (deep : 4 ≤ fuel) (results : ∀ number, (result number).Matchable)
    (unbound : state.binding = none) {addresses : List Nat} {tags : List (Option Nat)}
    (tagged : List.Forall₂ (Tagged result state.messages) addresses tags) :
    (∀ other ∈ addresses,
        PatternMatchingGuard.check ei fuel rexPattern other state = (.returns false, state)) ∨
      ∃ old chosen new tag rest message, addresses = old ++ chosen :: new ∧
        (∀ other ∈ old,
          PatternMatchingGuard.check ei fuel rexPattern other state = (.returns false, state)) ∧
        PatternMatchingGuard.check ei fuel rexPattern chosen state = (.returns true, state) ∧
        state.messages[chosen]? = some message ∧
        (tag = none ∧ message.messageType = .errorMsg ∨
          ∃ number, tag = some number ∧ message.payload = some (rexTuple (result number))) ∧
        List.Forall₂ (Tagged result state.messages) (old ++ new) rest ∧
        tags.reduceOption = tag.toList ++ rest.reduceOption := by
  induction tagged with
  | nil => exact .inl (List.forall_mem_nil _)
  | @cons head tag addresses tags first others ih =>
      rcases check_tagged ei deep results unbound first with
        ⟨refused, rfl⟩ | ⟨accepted, message, held, kind⟩
      · rcases ih with rejected | ⟨old, chosen, new, tag, rest, message, rfl, rejected, accepted,
          held, kind, kept, order⟩
        · exact .inl (List.forall_mem_cons.mpr ⟨refused, rejected⟩)
        · refine .inr ⟨head :: old, chosen, new, tag, none :: rest, message, rfl, ?_, accepted,
            held, kind, .cons first kept, ?_⟩
          · exact List.forall_mem_cons.mpr ⟨refused, rejected⟩
          · rw [List.reduceOption_cons_of_none, List.reduceOption_cons_of_none, order]
      · refine .inr ⟨[], head, addresses, tag, tags, message, rfl, List.forall_mem_nil _, accepted,
          held, kind, others, ?_⟩
        cases tag with
        | none => exact List.reduceOption_cons_of_none _
        | some number => exact List.reduceOption_cons_of_some _ _

/-- A pass of a call waits, throws an error, or takes the first answer. -/
theorem receive_tagged (ei : Ei) (deep : 4 ≤ fuel) (results : ∀ number, (result number).Matchable)
    (unbound : state.binding = none) {tags : List (Option Nat)}
    (distinct : state.mQueue.mList.Nodup)
    (tagged : List.Forall₂ (Tagged result state.messages) state.mQueue.mList tags) :
    MailBox.receive ei fuel rexPattern state = (.diverges, state) ∨
      ∃ tag rest remaining outcome, MailBox.receive ei fuel rexPattern state =
          (outcome, { state with mQueue := remaining }) ∧
        remaining.mList.Nodup ∧
        List.Forall₂ (Tagged result state.messages) remaining.mList rest ∧
        tags.reduceOption = tag.toList ++ rest.reduceOption ∧
        (tag = none ∧ (∃ mMsg, outcome = .throws (.connection mMsg)) ∨
          ∃ number, tag = some number ∧ outcome = .returns (some (rexTuple (result number)))) := by
  rcases scan_tagged ei deep results unbound tagged with
    rejected | ⟨old, chosen, new, tag, rest, message, same, rejected, accepted, held, kind, kept,
      order⟩
  · exact .inl (receive_waits ei rejected)
  · have remaining := GenericQueue.remove_once same distinct
    have readable : message.messageType = .errorMsg ∨
        ∃ payload, message.payload = some payload :=
      kind.imp And.right fun ⟨number, _, replies⟩ => ⟨_, replies⟩
    have taken := @takeTerm_received ei fuel { state with mQueue := state.mQueue.remove chosen }
      chosen message held readable
    refine .inr ⟨tag, rest, state.mQueue.remove chosen, _,
      receive_takes ei same rejected accepted taken, ?_, ?_, order, ?_⟩
    · exact distinct.filter _
    · rw [remaining]
      exact kept
    · rcases kind with ⟨none, error⟩ | ⟨number, some, replies⟩
      · refine .inl ⟨none, ?_⟩
        cases message with
        | errorMessage mException => exact ⟨mException.mMsg, rfl⟩
        | _ => cases error
      · refine .inr ⟨number, some, ?_⟩
        cases message with
        | sendMessage msg mRecipient => exact congrArg _ replies
        | regSendMessage msg mSender mRecipient => exact congrArg _ replies
        | _ => cases replies

theorem onReceiving_tagged (ei : Ei) (deep : 4 ≤ fuel)
    (results : ∀ number, (result number).Matchable)
    (awaits : node.Awaits result mailbox waiting) :
    ∃ after rest, after.Awaits result mailbox rest ∧
      (rest = waiting ∧
          AutoNode.onReceiving mailbox (MailBox.receive ei fuel rexPattern) node =
            (.diverges, after) ∨
        rest = waiting ∧ (∃ mMsg,
          AutoNode.onReceiving mailbox (MailBox.receive ei fuel rexPattern) node =
            (.throws (.connection mMsg), after)) ∨
        ∃ owner, waiting = owner :: rest ∧
          AutoNode.onReceiving mailbox (MailBox.receive ei fuel rexPattern) node =
            (.returns (some (rexTuple (result owner))), after)) := by
  obtain ⟨object, tags, here, distinct, tagged, order⟩ := awaits
  obtain ⟨inside, -⟩ := List.getElem?_eq_some_iff.mp here
  let state : Receiving := ⟨object.mQueue, node.messages, none⟩
  -- The node with another queue in the mailbox.
  have standing : ∀ remaining rest, remaining.mList.Nodup →
      List.Forall₂ (Tagged result node.messages) remaining.mList rest →
      AutoNode.Awaits { node with
        mailBoxes := node.mailBoxes.set mailbox { object with mQueue := remaining } } result mailbox
          rest.reduceOption :=
    fun remaining rest distinct kept =>
      ⟨_, rest, List.getElem?_set_self inside, distinct, kept, rfl⟩
  rcases @receive_tagged result fuel state ei deep results rfl tags distinct tagged with
    waits | ⟨tag, rest, remaining, outcome, ran, fresh, kept, split, kind⟩
  · refine ⟨_, _, standing object.mQueue tags distinct tagged, .inl ⟨order, ?_⟩⟩
    rw [AutoNode.onReceiving]
    simp only [here]
    rw [waits]
  · refine ⟨_, _, standing remaining rest fresh kept, .inr ?_⟩
    rw [AutoNode.onReceiving]
    simp only [here]
    rw [ran, ← order, split]
    rcases kind with ⟨rfl, mMsg, rfl⟩ | ⟨number, rfl, rfl⟩
    · exact .inl ⟨rfl, mMsg, rfl⟩
    · exact .inr ⟨number, rfl, rfl⟩

theorem rpcAnswer_cases (response : ErlTerm) :
    rpcAnswer response = .returns (some response) ∨
      ∃ reason, rpcAnswer response = .throws (.epiBadRPC reason) := by
  rw [rpcAnswer]
  cases badrpcReason response with
  | none => exact .inl rfl
  | some reason => exact .inr ⟨reason, rfl⟩

/-- A specification lets an answer through, or it ends the program. -/
theorem takes_throwsOnly {call : RPCMethod AutoNode (Option ErlTerm)}
    (takes : Takes result mailbox waiting (call node)) (listed : List ExceptionClass)
    (badRPC : Bool) :
    Takes result mailbox waiting (RPCMethod.throwsOnly listed badRPC call node) := by
  rw [RPCMethod.throwsOnly, Effect.mapOutcome_run]
  rcases ran : call node with ⟨outcome, after⟩
  rw [ran] at takes
  have passes : RPCCall.throwsOnly listed badRPC outcome = outcome ∨
      RPCCall.throwsOnly listed badRPC outcome = .aborts := by
    cases outcome with
    | throws error =>
        rw [RPCCall.throwsOnly, Outcome.declares_throws]
        exact ite_eq_or_eq _ _ _
    | _ => exact .inl rfl
  rcases passes with same | stopped
  · rw [same]
    exact takes
  · rw [stopped]
    exact .aborts

/-- The first message that a call takes decides about its outcome. -/
theorem takes_received (ei : Ei) (deep : 4 ≤ fuel) (results : ∀ number, (result number).Matchable)
    (awaits : node.Awaits result mailbox waiting)
    {next : Option ErlTerm → RPCMethod AutoNode (Option ErlTerm)}
    (responds : ∀ rex, next (some rex) = Effect.lift (MailBox.rpcResponse fuel rex)) :
    Takes result mailbox waiting ((RPCMethod.ofMethod
      (AutoNode.onReceiving mailbox (MailBox.receive ei fuel rexPattern)) >>= next) node) := by
  rw [Effect.bind_run, RPCMethod.ofMethod]
  obtain ⟨after, rest, later, ⟨rfl, ran⟩ | ⟨rfl, mMsg, ran⟩ | ⟨owner, first, ran⟩⟩ :=
    onReceiving_tagged ei deep results awaits
  · rw [ran]
    exact .nothing rfl later
  · rw [ran]
    exact .nothing rfl later
  · rw [ran]
    simp only [RPCCall.ofCall, responds, Effect.lift_run,
      rpcResponse_rexTuple (results owner) deep]
    exact .answer first later

/-- A call takes the first answer that waits, or it ends without one, or it has to wait. -/
theorem rpc_takes (ei : Ei) (deep : 4 ≤ fuel) (results : ∀ number, (result number).Matchable)
    (awaits : node.Awaits result mailbox waiting) (timed expired : Bool) :
    Takes result mailbox waiting (MailBox.rpc ei fuel timed expired mailbox node) := by
  cases timed with
  | false =>
      apply takes_throwsOnly
      apply takes_throwsOnly
      exact takes_received ei deep results awaits fun _ => rfl
  | true =>
      apply takes_throwsOnly
      apply takes_throwsOnly
      cases expired with
      | false => exact takes_received ei deep results awaits fun _ => rfl
      | true =>
          obtain ⟨object, tags, here, distinct, tagged, order⟩ := awaits
          obtain ⟨inside, -⟩ := List.getElem?_eq_some_iff.mp here
          rw [Effect.bind_run, RPCMethod.ofMethod, AutoNode.onReceiving]
          simp only [here]
          exact .nothing rfl ⟨_, tags, List.getElem?_set_self inside, distinct, tagged, order⟩

theorem Tagged.of_held {messages later : List EpiMessage}
    (tagged : Tagged result messages address tag)
    (same : later[address]? = messages[address]?) : Tagged result later address tag := by
  cases tagged with
  | foreign held foreign => exact .foreign (same.trans held) foreign
  | reply held replies => exact .reply (same.trans held) replies

theorem Tagged.lt {messages : List EpiMessage} (tagged : Tagged result messages address tag) :
    address < messages.length := by
  cases tagged with
  | foreign held foreign => exact (List.getElem?_eq_some_iff.mp held).1
  | reply held replies => exact (List.getElem?_eq_some_iff.mp held).1

theorem queueing_of_awaits (awaits : node.Awaits result mailbox waiting) :
    node.Queueing mailbox := by
  obtain ⟨object, tags, here, distinct, tagged, order⟩ := awaits
  intro address member
  rw [AutoNode.queueOf_eq here] at member
  have bounds := tagged.imp fun address tag tagged => And.intro tagged.lt trivial
  exact ((List.forall₂_and_left _ _).mp bounds).1 address member

/-- What leaves the mailbox alone leaves its answers there. -/
theorem Awaits.spares (awaits : node.Awaits result mailbox waiting)
    (spares : Spares mailbox node after) : after.Awaits result mailbox waiting := by
  obtain ⟨object, tags, here, distinct, tagged, order⟩ := awaits
  refine ⟨object, tags, spares.mailBox.trans here, distinct, ?_, order⟩
  have queue : node.queueOf mailbox = object.mQueue.mList := AutoNode.queueOf_eq here
  have held := (List.forall₂_and_left _ _).mpr ⟨queue ▸ spares.messages, tagged⟩
  exact held.imp fun address tag known => known.2.of_held known.1

/-- A new message stands behind the others. -/
theorem Awaits.queued {object : MailBox} {message : EpiMessage}
    (awaits : node.Awaits result mailbox waiting) (here : node.mailBoxes[mailbox]? = some object)
    (tagged : Tagged result (node.messages ++ [message]) node.messages.length tag) :
    ((node.gained message).queued mailbox node.messages.length object).Awaits result mailbox
      (waiting ++ tag.toList) := by
  have queueing := queueing_of_awaits awaits
  obtain ⟨other, tags, there, distinct, known, order⟩ := awaits
  obtain rfl : other = object := Option.some.inj (there.symm.trans here)
  obtain ⟨inside, -⟩ := List.getElem?_eq_some_iff.mp here
  refine ⟨_, tags ++ [tag], List.getElem?_set_self inside, ?_, ?_, ?_⟩
  · rw [GenericQueue.push, List.nodup_append]
    refine ⟨distinct, List.nodup_singleton _, ?_⟩
    intro address member newest same
    have old := queueing address (AutoNode.queueOf_eq here ▸ member)
    have new := List.mem_singleton.mp same
    omega
  · apply List.rel_append _ (.cons tagged .nil)
    apply known.imp
    intro address tag old
    exact old.of_held (List.getElem?_append_left old.lt)
  · rw [List.reduceOption_append, order]
    cases tag <;> rfl

theorem spares_refl : Spares mailbox node node := ⟨rfl, fun _ _ => rfl⟩

/-- A new message for another mailbox, or for none. -/
theorem deliverTo_spares {message : EpiMessage} {recipient : Option Nat}
    (queueing : node.Queueing mailbox) (other : recipient ≠ some mailbox) :
    Spares mailbox node
      (AutoNode.deliverTo recipient node.messages.length (node.gained message)).2 := by
  have kept : ∀ address ∈ node.queueOf mailbox,
      (node.messages ++ [message])[address]? = node.messages[address]? :=
    fun address member => List.getElem?_append_left (queueing address member)
  cases recipient with
  | none => exact ⟨rfl, kept⟩
  | some target =>
      have apart : target ≠ mailbox := fun same => other (congrArg some same)
      simp only [AutoNode.deliverTo, Effect.bind_run, Effect.get_run, AutoNode.onMailBox]
      cases (node.gained message).mailBoxes[target]? with
      | none => exact ⟨rfl, kept⟩
      | some object =>
          simp only
          cases MailBox.deliver (node.gained message).messages node.messages.length object with
          | returns changed => exact ⟨List.getElem?_set_ne apart, kept⟩
          | _ => exact ⟨rfl, kept⟩

theorem attempConnection_spares (connect : Bytes → Call (Bytes × Bytes)) (name : Bytes) :
    Spares mailbox node (AutoNode.attempConnection connect name node).2 := by
  rw [AutoNode.attempConnection_run]
  cases node.getConnection name with
  | some connection => exact spares_refl
  | none =>
      simp only
      cases connect name with
      | returns answer => exact ⟨rfl, fun _ _ => rfl⟩
      | _ => exact spares_refl

theorem sendBufTo_spares {transport : Transport} {ei : Ei} {sender : ErlPid} {name toName : Bytes}
    {buffer : PlainBuffer} (queueing : node.Queueing mailbox)
    (other : node.getRegMailBox toName ≠ some mailbox) :
    Spares mailbox node
      (AutoNode.sendBufTo transport ei fuel sender name toName buffer node).2 := by
  cases own : isSameHost name node.localNode.mNodeName node.localNode.getHostName with
  | true =>
      rw [(staysLocal_sendBufTo own sender toName buffer).delivered transport,
        deliver_run List.getElem?_concat_length]
      exact deliverTo_spares queueing other
  | false =>
      rw [sendBufTo_foreign own]
      exact attempConnection_spares _ name

theorem spares_lift_bind {First Value : Type} {call : Call First}
    {next : First → Method AutoNode Value}
    (spares : ∀ value, Spares mailbox node (next value node).2) :
    Spares mailbox node ((Effect.lift call >>= next) node).2 := by
  rw [Effect.bind_run, Effect.lift_run]
  cases call with
  | returns value => exact spares value
  | _ => exact spares_refl

/-- A request does not touch the mailbox that sends it. -/
theorem sendRPC_spares {transport : Transport} {ei : Ei} {nodename mod function : Bytes}
    {args : Option ErlTerm} (queueing : node.Queueing mailbox)
    (other : node.getRegMailBox (text "rex") ≠ some mailbox) :
    Spares mailbox node
      (MailBox.sendRPC transport ei fuel mailbox nodename mod function args node).2 := by
  rw [MailBox.sendRPC, Method.throwsOnly, Effect.mapOutcome_run]
  apply spares_lift_bind
  intro modAtom
  apply spares_lift_bind
  intro funAtom
  rw [Effect.bind_run, Effect.get_run]
  cases here : node.mailBoxes[mailbox]? with
  | none =>
      simp only [here]
      exact spares_refl
  | some object =>
      simp only [here]
      apply spares_lift_bind
      intro inner
      apply spares_lift_bind
      intro execTuple
      rw [MailBox.sendTo, MailBox.sendVia, Method.throwsOnly, Effect.mapOutcome_run,
        Effect.bind_run, Effect.get_run]
      simp only [here]
      split
      · apply spares_lift_bind
        intro buffer
        exact sendBufTo_spares queueing other
      · exact spares_refl

/-- A new answer for the mailbox stands behind the others. -/
theorem deliver_awaits {object : MailBox} {msg : ErlangMessage} {origin : Address} {number : Nat}
    (awaits : node.Awaits result mailbox waiting) (here : node.mailBoxes[mailbox]? = some object)
    (found : node.getMailBox (some object.mSelf) = some mailbox)
    (decoded : msg.mPayLoad = some (rexTuple (result number)))
    (ran : AutoNode.deliver origin node.messages.length
      (node.gained (.sendMessage msg object.mSelf)) = (.returns (), after)) :
    after.Awaits result mailbox (waiting ++ [number]) := by
  have held : (node.gained (.sendMessage msg object.mSelf)).messages[node.messages.length]? =
      some (.sendMessage msg object.mSelf) := List.getElem?_concat_length
  have there : (node.gained (.sendMessage msg object.mSelf)).mailBoxes[mailbox]? = some object :=
    here
  have looked : (node.gained (.sendMessage msg object.mSelf)).getMailBox (some object.mSelf) =
      some mailbox := found
  rw [deliver_run held] at ran
  simp only [looked] at ran
  rw [AutoNode.deliverTo_some there held rfl] at ran
  cases ran
  exact Awaits.queued awaits here (.reply held decoded)

/-- Another message for the mailbox does not change the answers in it. -/
theorem onMailBox_awaits {message : EpiMessage} (awaits : node.Awaits result mailbox waiting)
    (foreign : message.Foreign)
    (ran : AutoNode.onMailBox mailbox (MailBox.deliver (node.gained message).messages
      node.messages.length) (node.gained message) = (.returns (), after)) :
    after.Awaits result mailbox waiting := by
  have held : (node.gained message).messages[node.messages.length]? = some message :=
    List.getElem?_concat_length
  obtain ⟨object, tags, here, -⟩ := id awaits
  have there : (node.gained message).mailBoxes[mailbox]? = some object := here
  have payload : message.isControl = false := by
    rcases foreign with error | ⟨payload, decoded, -⟩
    · cases message with
      | errorMessage mException => rfl
      | _ => cases error
    · cases message with
      | sendMessage msg mRecipient => rfl
      | regSendMessage msg mSender mRecipient => rfl
      | _ => cases decoded
  rw [AutoNode.onMailBox_deliver there held, payload] at ran
  have kept := Awaits.queued awaits here (.foreign held foreign)
  rw [Option.toList_none, List.append_nil] at kept
  cases ran
  exact kept

end Replies

end Epi.Node
