import Epi.Node.Calls

namespace Epi.Node

open Verification Epi.Type Epi.Buffer Epi.Queue

namespace MailBox

/-- `MailBox::receive` of a pattern with a timeout, up to its first wait. The clock is read when the
call starts and again when no message was accepted. -/
def receiveWithin (ei : Ei) (fuel : Nat) (timeout currentTime now : Int) (pattern : ErlTerm) :
    Method Receiving (Option ErlTerm) :=
  Method.throwsOnly [.epiConnectionException] do
    let state ← Effect.get
    let (found, mQueue) ← state.mQueue.tryGetGuarded (PatternMatchingGuard.check ei fuel pattern)
    match found with
    | none => if currentTime + timeout < now then return none else Effect.lift .diverges
    | some address => do
        let state ← Effect.get
        Effect.set { state with mQueue := mQueue }
        takeTerm ei fuel address

/-- `MailBox::receiveRPC` with a timeout, up to its first wait. -/
def receiveRPCWithin (ei : Ei) (fuel : Nat) (timeout currentTime now : Int) (mailbox : Nat) :
    RPCMethod AutoNode (Option ErlTerm) :=
  RPCMethod.throwsOnly [.epiConnectionException] true do
    let rex ← RPCMethod.ofMethod
      (AutoNode.onReceiving mailbox (receiveWithin ei fuel timeout currentTime now rexPattern))
    match rex with
    | none => return none
    | some rex => Effect.lift (rpcResponse fuel rex)

/-- `MailBox::RPC`. -/
def RPC (transport : Transport) (ei : Ei) (fuel : Nat) (mailbox : Nat)
    (nodename mod function : Bytes) (args : Option ErlTerm) :
    RPCMethod AutoNode (Option ErlTerm) :=
  RPCMethod.throwsOnly [.epiBadArgument, .epiInvalidTerm, .epiEncodeException,
    .epiConnectionException] true do
    RPCMethod.ofMethod (sendRPC transport ei fuel mailbox nodename mod function args)
    receiveRPC ei fuel mailbox

/-- `MailBox::RPC` with a timeout. Its specification does not list `EpiBadRPC`. -/
def RPCWithin (transport : Transport) (ei : Ei) (fuel : Nat) (timeout currentTime now : Int)
    (mailbox : Nat) (nodename mod function : Bytes) (args : Option ErlTerm) :
    RPCMethod AutoNode (Option ErlTerm) :=
  RPCMethod.throwsOnly [.epiBadArgument, .epiInvalidTerm, .epiEncodeException,
    .epiConnectionException] false do
    RPCMethod.ofMethod (sendRPC transport ei fuel mailbox nodename mod function args)
    receiveRPCWithin ei fuel timeout currentTime now mailbox

end MailBox

/-- What a receive of the mailbox works on. -/
def AutoNode.receiving (node : AutoNode) (object : MailBox) : Receiving :=
  ⟨object.mQueue, node.messages, none⟩

/-- The guard of a call would accept a message in the queue. -/
def AutoNode.HoldsEligible (ei : Ei) (fuel mailbox : Nat) (node : AutoNode) : Prop :=
  ∃ object address, node.mailBoxes[mailbox]? = some object ∧ address ∈ object.mQueue.mList ∧
    (PatternMatchingGuard.check ei fuel rexPattern address (node.receiving object)).1 =
      .returns true

/-- The message in the queue that the guard of a call accepts first, as the guard leaves it. -/
def AutoNode.Selects (ei : Ei) (fuel mailbox : Nat) (node : AutoNode) (message : EpiMessage) :
    Prop :=
  ∃ object address after, node.mailBoxes[mailbox]? = some object ∧
    GenericQueue.scan (PatternMatchingGuard.check ei fuel rexPattern) object.mQueue.mList
      (node.receiving object) = (.returns (some address), after) ∧
    after.messages[address]? = some message

/-- The payload is matched as `{rex, {badrpc, Reason}}`, and this is the reason. -/
def EpiMessage.BadRPC (fuel : Nat) (message : EpiMessage) (reason : ErlTerm) : Prop :=
  ∃ payload binding, message.payload = some payload ∧
    payload.matchPattern fuel badrpcPattern (some .empty) = (.returns true, binding) ∧
    (binding.bind fun binding => binding.search (text "Reason")) = some reason

/-- The answer of a guard about a message, and the message after the look at its payload. -/
def EpiMessage.asked (ei : Ei) (fuel : Nat) (pattern : ErlTerm) (message : EpiMessage) :
    Call Bool × EpiMessage :=
  match message with
  | .errorMessage _ => (.returns true, message)
  | .sendMessage _ _ | .regSendMessage _ _ _ =>
      let (outcome, read) := onErlangMessage (ErlangMessage.getMsg ei fuel) message
      (Call.catchingAny (fun _ => .returns false) (outcome >>= fun
        | none => .aborts
        | some term => (pattern.matchPattern fuel term none).1), read)
  | _ => (.returns false, message)

/-- A later state of the same messages, with new ones behind them. -/
def Receiving.grown (mQueue : GenericQueue Nat) (extra : List EpiMessage) (state : Receiving) :
    Receiving := ⟨mQueue, state.messages ++ extra, state.binding⟩

/-- The queue of the mailbox and the messages have gained others behind them. -/
def Grown (mailbox : Nat) (object : MailBox) (before after : AutoNode) : Prop :=
  ∃ new extra, after.mailBoxes[mailbox]? =
      some { object with mQueue := ⟨object.mQueue.mList ++ new⟩ } ∧
    after.messages = before.messages ++ extra

/-- Both calls come back alike. A reply is answered, an error in the queue is thrown, and nothing else
is thrown but the failure of the request and the reason of a bad call. -/
structure CallsAgree (transport : Transport) (ei : Ei) (fuel : Nat) (timeout currentTime now : Int)
    (mailbox : Nat) (nodename mod function : Bytes) (args : Option ErlTerm) (node : AutoNode) :
    Prop where
  same : MailBox.RPCWithin transport ei fuel timeout currentTime now mailbox nodename mod function
    args node = MailBox.RPC transport ei fuel mailbox nodename mod function args node
  answered : ∀ message response, node.Selects ei fuel mailbox message →
    (MailBox.sendRPC transport ei fuel mailbox nodename mod function args node).1 = .returns () →
    message.payload = some (rexTuple response) → response.Matchable →
      (MailBox.RPC transport ei fuel mailbox nodename mod function args node).1 = rpcAnswer response
  failed : ∀ mException, node.Selects ei fuel mailbox (.errorMessage mException) →
    (MailBox.sendRPC transport ei fuel mailbox nodename mod function args node).1 = .returns () →
      (MailBox.RPC transport ei fuel mailbox nodename mod function args node).1 =
        .throws (.epiException (.connection mException.mMsg))
  thrown : ∀ error,
    (MailBox.RPC transport ei fuel mailbox nodename mod function args node).1 = .throws error →
      (∃ failure, error = .epiException failure ∧
        (MailBox.sendRPC transport ei fuel mailbox nodename mod function args node).1 =
          .throws failure) ∨
      (∃ mException, error = .epiException (.connection mException.mMsg) ∧
        node.Selects ei fuel mailbox (.errorMessage mException)) ∨
      ∃ message reason, error = .epiBadRPC reason ∧ node.Selects ei fuel mailbox message ∧
        message.BadRPC fuel reason

section Guard

variable {ei : Ei} {fuel address : Nat} {pattern : ErlTerm} {state after : Receiving}
  {message : EpiMessage}

/-- A match without a binding leaves none. -/
theorem matchPattern_unbound (pattern term : ErlTerm) (fuel : Nat) :
    (pattern.matchPattern fuel term none).2 = none := by
  rw [ErlTerm.matchPattern, Method.throwsOnly, Effect.mapOutcome_run, ErlTerm.onCopy]
  rcases pattern.internalMatch fuel term (Option.getD none .empty) with ⟨outcome, binding⟩
  cases outcome with
  | returns success => cases success <;> rfl
  | _ => rfl

/-- A guard answers about the message at the address and leaves the others alone. -/
theorem check_eq (unbound : state.binding = none) (address : Nat) :
    PatternMatchingGuard.check ei fuel pattern address state =
      match state.messages[address]? with
      | none => (.returns false, state)
      | some message => ((message.asked ei fuel pattern).1,
          { state with messages := state.messages.set address (message.asked ei fuel pattern).2 }) := by
  rw [PatternMatchingGuard.check, MailBoxGuard.check, Effect.bind_run, Effect.get_run]
  simp only
  cases held : state.messages[address]? with
  | none => rfl
  | some message =>
      obtain ⟨inside, here⟩ := List.getElem?_eq_some_iff.mp held
      have unchanged : { state with messages := state.messages.set address message } = state := by
        rw [← here, List.set_getElem_self]
      have data : ∀ read, EpiMessage.onErlangMessage (ErlangMessage.getMsg ei fuel) message = read →
          PatternMatchingGuard.guardMatch ei fuel pattern address state =
            (read.1 >>= fun
              | none => .aborts
              | some term => (pattern.matchPattern fuel term none).1,
            { state with messages := state.messages.set address read.2 }) := by
        rintro ⟨outcome, read⟩ ran
        rw [PatternMatchingGuard.guardMatch, Effect.bind_run]
        simp only [Receiving.onMessage, onMessageAt, held, ran]
        cases outcome with
        | returns found =>
            cases found with
            | none => rfl
            | some term =>
                have none := matchPattern_unbound pattern term fuel
                simp only [Receiving.onBinding, unbound, none, Outcome.returns_bind]
        | _ => rfl
      cases message with
      | errorMessage mException => exact congrArg _ unchanged.symm
      | sendMessage msg mRecipient =>
          simp only [EpiMessage.messageType, Effect.mapOutcome_run, data _ rfl]
          rfl
      | regSendMessage msg mSender mRecipient =>
          simp only [EpiMessage.messageType, Effect.mapOutcome_run, data _ rfl]
          rfl
      | linkMessage mSender mRecipient => exact congrArg _ unchanged.symm
      | unLinkMessage mSender mRecipient => exact congrArg _ unchanged.symm
      | exitMessage mSender mRecipient mReason => exact congrArg _ unchanged.symm

/-- The payload that is handed out is the one of the message. -/
theorem getMsg_payload {msg read : ErlangMessage} {term : ErlTerm}
    (ran : ErlangMessage.getMsg ei fuel msg = (.returns (some term), read)) :
    read.mPayLoad = some term := by
  rw [ErlangMessage.getMsg, Method.throwsOnly, Effect.mapOutcome_run, Effect.bind_run,
    Effect.get_run] at ran
  simp only [Prod.mk.injEq, Call.throwsOnly_eq_returns] at ran
  obtain ⟨outcome, left⟩ := ran
  cases decoded : msg.mPayLoad with
  | some payload =>
      rw [decoded] at outcome left
      cases outcome
      exact left ▸ decoded
  | none =>
      rw [decoded] at outcome left
      simp only [ErlangMessage.decodeMsg] at outcome left
      rcases reading : msg.mBuffer.readTerm ei fuel with ⟨result, buffer⟩
      rw [reading] at outcome left
      cases result with
      | returns payload =>
          cases outcome
          exact left ▸ rfl
      | throws error =>
          simp only at outcome
          split at outcome <;> cases outcome
      | _ => cases outcome

/-- An accepted message is an error, or its payload is matched. -/
theorem asked_accepts (accepted : (message.asked ei fuel pattern).1 = .returns true) :
    (∃ mException, message = .errorMessage mException ∧
        (message.asked ei fuel pattern).2 = message) ∨
      ∃ payload, (message.asked ei fuel pattern).2.payload = some payload ∧
        pattern.matchPattern fuel payload none = (.returns true, none) := by
  have data : ∀ {msg read : ErlangMessage} {outcome : Call (Option ErlTerm)},
      ErlangMessage.getMsg ei fuel msg = (outcome, read) →
      Call.catchingAny (fun _ => .returns false) (outcome >>= fun
        | none => .aborts
        | some term => (pattern.matchPattern fuel term none).1) = .returns true →
      ∃ payload, read.mPayLoad = some payload ∧
        pattern.matchPattern fuel payload none = (.returns true, none) := by
    intro msg read outcome ran taken
    cases outcome with
    | returns found =>
        cases found with
        | none => cases taken
        | some term =>
            refine ⟨term, getMsg_payload ran, ?_⟩
            have unbound := matchPattern_unbound pattern term fuel
            rcases matched : pattern.matchPattern fuel term none with ⟨answer, binding⟩
            rw [matched] at unbound
            simp only [Outcome.returns_bind, matched] at taken
            cases answer with
            | returns success =>
                cases success with
                | true => rw [← unbound]
                | false => cases taken
            | throws error => cases taken
            | _ => cases taken
    | throws error => cases taken
    | _ => cases taken
  cases message with
  | errorMessage mException => exact .inl ⟨mException, rfl, rfl⟩
  | sendMessage msg mRecipient => exact .inr (data rfl accepted)
  | regSendMessage msg mSender mRecipient => exact .inr (data rfl accepted)
  | _ => cases accepted

/-- A guard keeps its exceptions to itself. -/
theorem asked_quiet (ei : Ei) (fuel : Nat) (pattern : ErlTerm) (message : EpiMessage) :
    (message.asked ei fuel pattern).1.Quiet := by
  have caught : ∀ call : Call Bool, (Call.catchingAny (fun _ => .returns false) call).Quiet := by
    intro call
    cases call <;> trivial
  cases message with
  | sendMessage msg mRecipient => exact caught _
  | regSendMessage msg mSender mRecipient => exact caught _
  | _ => trivial

/-- A message that a scan takes is an error, or its payload is matched. The queue stays for the one
who scans it. -/
theorem scan_takes (unbound : state.binding = none) {elems : List Nat}
    (ran : GenericQueue.scan (PatternMatchingGuard.check ei fuel pattern) elems state =
      (.returns (some address), after)) :
    after.mQueue = state.mQueue ∧ ∃ message, after.messages[address]? = some message ∧
      (message.messageType = .errorMsg ∨ ∃ payload, message.payload = some payload ∧
        pattern.matchPattern fuel payload none = (.returns true, none)) := by
  induction elems generalizing state with
  | nil => cases ran
  | cons head tail ih =>
      rw [GenericQueue.scan, Effect.bind_run, check_eq unbound] at ran
      cases held : state.messages[head]? with
      | none =>
          rw [held] at ran
          exact ih unbound ran
      | some message =>
          obtain ⟨inside, -⟩ := List.getElem?_eq_some_iff.mp held
          rw [held] at ran
          simp only at ran
          cases answer : (message.asked ei fuel pattern).1 with
          | returns accepted =>
              rw [answer] at ran
              cases accepted with
              | true =>
                  cases ran
                  refine ⟨rfl, _, List.getElem?_set_self inside, ?_⟩
                  rcases asked_accepts answer with ⟨mException, rfl, same⟩ | matched
                  · exact .inl (same ▸ rfl)
                  · exact .inr matched
              | false => exact @ih ⟨state.mQueue, state.messages.set head _, state.binding⟩ unbound ran
          | _ =>
              rw [answer] at ran
              cases ran

/-- A scan keeps the exceptions of the guard. -/
theorem scan_quiet (unbound : state.binding = none) (elems : List Nat) :
    (GenericQueue.scan (PatternMatchingGuard.check ei fuel pattern) elems state).1.Quiet := by
  induction elems generalizing state with
  | nil => trivial
  | cons head tail ih =>
      rw [GenericQueue.scan, Effect.bind_run, check_eq unbound]
      cases held : state.messages[head]? with
      | none => exact ih unbound
      | some message =>
          have quiet := asked_quiet ei fuel pattern message
          simp only
          cases answer : (message.asked ei fuel pattern).1 with
          | returns accepted =>
              cases accepted with
              | true => trivial
              | false => exact @ih ⟨state.mQueue, state.messages.set head _, state.binding⟩ unbound
          | throws error =>
              rw [answer] at quiet
              exact quiet.elim
          | _ => trivial

/-- A scan does not come to the end of a queue with an acceptable message. -/
theorem scan_stops (unbound : state.binding = none) {elems : List Nat} (member : address ∈ elems)
    (accepted : (PatternMatchingGuard.check ei fuel pattern address state).1 = .returns true) :
    ∀ after, GenericQueue.scan (PatternMatchingGuard.check ei fuel pattern) elems state ≠
      (.returns none, after) := by
  induction elems generalizing state with
  | nil => cases member
  | cons head tail ih =>
      intro after ran
      rw [GenericQueue.scan, Effect.bind_run] at ran
      by_cases same : address = head
      · subst same
        rcases checked : PatternMatchingGuard.check ei fuel pattern address state with
          ⟨outcome, left⟩
        rw [checked] at accepted ran
        cases accepted
        cases ran
      · have inside : address ∈ tail := (List.mem_cons.mp member).resolve_left same
        rw [check_eq unbound] at ran
        cases held : state.messages[head]? with
        | none =>
            rw [held] at ran
            exact ih unbound inside accepted after ran
        | some message =>
            rw [held] at ran
            simp only at ran
            cases answer : (message.asked ei fuel pattern).1 with
            | returns passed =>
                rw [answer] at ran
                cases passed with
                | true => cases ran
                | false =>
                    refine @ih ⟨state.mQueue, state.messages.set head _, state.binding⟩ unbound inside
                      ?_ after ran
                    rw [check_eq unbound] at accepted
                    rw [@check_eq ei fuel pattern
                      ⟨state.mQueue, state.messages.set head _, state.binding⟩ unbound]
                    simp only [List.getElem?_set_ne (Ne.symm same)]
                    cases there : state.messages[address]? with
                    | none =>
                        rw [there] at accepted
                        cases accepted
                    | some other =>
                        rw [there] at accepted
                        exact accepted
            | _ =>
                rw [answer] at ran
                cases ran

/-- New messages behind the others do not change the answer. -/
theorem check_grown (unbound : state.binding = none) (bounded : address < state.messages.length)
    (mQueue : GenericQueue Nat) (extra : List EpiMessage) :
    PatternMatchingGuard.check ei fuel pattern address (state.grown mQueue extra) =
      ((PatternMatchingGuard.check ei fuel pattern address state).1,
        (PatternMatchingGuard.check ei fuel pattern address state).2.grown mQueue extra) := by
  have held := List.getElem?_eq_getElem bounded
  rw [check_eq unbound, @check_eq ei fuel pattern (state.grown mQueue extra) unbound]
  simp only [Receiving.grown, List.getElem?_append_left bounded, held,
    List.set_append_left _ _ bounded]

/-- The scan of a queue to which others were added stops where it stopped before. -/
theorem scan_grown (unbound : state.binding = none) {elems : List Nat}
    (bounded : ∀ address ∈ elems, address < state.messages.length) (new : List Nat)
    (stops : ∀ after, GenericQueue.scan (PatternMatchingGuard.check ei fuel pattern) elems state ≠
      (.returns none, after)) (mQueue : GenericQueue Nat) (extra : List EpiMessage) :
    GenericQueue.scan (PatternMatchingGuard.check ei fuel pattern) (elems ++ new)
        (state.grown mQueue extra) =
      ((GenericQueue.scan (PatternMatchingGuard.check ei fuel pattern) elems state).1,
        (GenericQueue.scan (PatternMatchingGuard.check ei fuel pattern) elems state).2.grown
          mQueue extra) := by
  induction elems generalizing state with
  | nil => exact absurd rfl (stops state)
  | cons head tail ih =>
      rw [List.forall_mem_cons] at bounded
      have here := List.getElem?_eq_getElem bounded.1
      rw [GenericQueue.scan, Effect.bind_run, check_eq unbound, here] at stops
      rw [List.cons_append, GenericQueue.scan, GenericQueue.scan, Effect.bind_run, Effect.bind_run,
        check_grown unbound bounded.1, check_eq unbound, here]
      simp only at stops ⊢
      cases answer : (state.messages[head].asked ei fuel pattern).1 with
      | returns accepted =>
          cases accepted with
          | true => rfl
          | false =>
              rw [answer] at stops
              refine @ih ⟨state.mQueue, state.messages.set head _, state.binding⟩ unbound ?_ stops
              intro address member
              rw [List.length_set]
              exact bounded.2 address member
      | _ => rfl

/-- A receive hands out the message that the scan takes. -/
theorem receive_of_scan (unbound : state.binding = none) {message : EpiMessage}
    (ran : GenericQueue.scan (PatternMatchingGuard.check ei fuel pattern) state.mQueue.mList state =
      (.returns (some address), after)) (held : after.messages[address]? = some message) :
    MailBox.receive ei fuel pattern state =
      (Call.throwsOnly [.epiConnectionException] message.received,
        { after with mQueue := state.mQueue.remove address }) := by
  obtain ⟨-, other, there, kind⟩ := scan_takes unbound ran
  obtain rfl : other = message := Option.some.inj (there.symm.trans held)
  have readable : other.messageType = .errorMsg ∨ ∃ payload, other.payload = some payload :=
    kind.imp_right fun ⟨payload, decoded, _⟩ => ⟨payload, decoded⟩
  have taken := @takeTerm_received ei fuel { after with mQueue := state.mQueue.remove address }
    address other held readable
  have picked : state.mQueue.tryGetGuarded (PatternMatchingGuard.check ei fuel pattern) state =
      (.returns (some address, state.mQueue.remove address), after) := by
    rw [GenericQueue.tryGetGuarded, Effect.bind_of_returns ran]
    rfl
  rw [MailBox.receive, Method.throwsOnly, Effect.mapOutcome_run, Effect.bind_run, Effect.get_run]
  simp only
  rw [Effect.bind_of_returns picked]
  simp only [Effect.bind_run, Effect.get_run, Effect.set_run, taken]

/-- Where an acceptable message is queued, a receive with a timeout does what one without does. -/
theorem receiveWithin_of_stops (timeout currentTime now : Int)
    (stops : ∀ after, GenericQueue.scan (PatternMatchingGuard.check ei fuel pattern)
      state.mQueue.mList state ≠ (.returns none, after)) :
    MailBox.receiveWithin ei fuel timeout currentTime now pattern state =
      MailBox.receive ei fuel pattern state := by
  rw [MailBox.receiveWithin, MailBox.receive, Method.throwsOnly, Method.throwsOnly,
    Effect.mapOutcome_run, Effect.mapOutcome_run, Effect.bind_run, Effect.bind_run, Effect.get_run]
  simp only
  rw [Effect.bind_run, Effect.bind_run, GenericQueue.tryGetGuarded, Effect.bind_run]
  rcases ran : GenericQueue.scan (PatternMatchingGuard.check ei fuel pattern) state.mQueue.mList
    state with ⟨outcome, after⟩
  cases outcome with
  | returns found =>
      cases found with
      | none => exact absurd ran (stops after)
      | some address => rfl
  | _ => rfl

end Guard

section Growth

variable {mailbox fuel : Nat} {object : MailBox} {node after : AutoNode}

theorem grown_refl (here : node.mailBoxes[mailbox]? = some object) :
    Grown mailbox object node node :=
  ⟨[], [], by rw [here, List.append_nil], (List.append_nil _).symm⟩

/-- A new message for a mailbox of the node, or for none. -/
theorem deliverTo_grown (here : node.mailBoxes[mailbox]? = some object) (message : EpiMessage)
    (recipient : Option Nat) :
    Grown mailbox object node
      (AutoNode.deliverTo recipient node.messages.length (node.gained message)).2 := by
  have kept : Grown mailbox object node (node.gained message) :=
    ⟨[], [message], by rw [List.append_nil]; exact here, rfl⟩
  obtain ⟨inside, -⟩ := List.getElem?_eq_some_iff.mp here
  cases recipient with
  | none => exact kept
  | some target =>
      have held : (node.gained message).messages[node.messages.length]? = some message :=
        List.getElem?_concat_length
      simp only [AutoNode.deliverTo, Effect.bind_run, Effect.get_run]
      cases there : (node.gained message).mailBoxes[target]? with
      | none =>
          simp only [AutoNode.onMailBox, there]
          exact kept
      | some other =>
          rw [AutoNode.onMailBox_deliver there held]
          cases message.isControl with
          | true => exact kept
          | false =>
              by_cases same : target = mailbox
              · subst same
                obtain rfl : other = object := Option.some.inj (there.symm.trans here)
                exact ⟨[node.messages.length], [message], List.getElem?_set_self inside, rfl⟩
              · refine ⟨[], [message], ?_, rfl⟩
                rw [List.append_nil]
                exact (List.getElem?_set_ne same).trans here

theorem sendBufTo_grown {transport : Transport} {ei : Ei} {sender : ErlPid} {name toName : Bytes}
    {buffer : PlainBuffer} (here : node.mailBoxes[mailbox]? = some object) :
    Grown mailbox object node
      (AutoNode.sendBufTo transport ei fuel sender name toName buffer node).2 := by
  cases own : isSameHost name node.localNode.mNodeName node.localNode.getHostName with
  | true =>
      rw [(staysLocal_sendBufTo own sender toName buffer).delivered transport,
        deliver_run List.getElem?_concat_length]
      exact deliverTo_grown here _ _
  | false =>
      rw [sendBufTo_foreign own, AutoNode.attempConnection_run]
      cases node.getConnection name with
      | some connection => exact grown_refl here
      | none =>
          simp only
          cases transport.connect name with
          | returns answer =>
              exact ⟨[], [], by rw [List.append_nil]; exact here, (List.append_nil _).symm⟩
          | _ => exact grown_refl here

theorem grown_lift_bind (here : node.mailBoxes[mailbox]? = some object) {First Value : Type}
    {call : Call First} {next : First → Method AutoNode Value}
    (grown : ∀ value, Grown mailbox object node (next value node).2) :
    Grown mailbox object node ((Effect.lift call >>= next) node).2 := by
  rw [Effect.bind_run, Effect.lift_run]
  cases call with
  | returns value => exact grown value
  | _ => exact grown_refl here

/-- A request puts at most itself behind the queue of the mailbox that sends it. -/
theorem sendRPC_grown {transport : Transport} {ei : Ei} {nodename mod function : Bytes}
    {args : Option ErlTerm} (here : node.mailBoxes[mailbox]? = some object) :
    Grown mailbox object node
      (MailBox.sendRPC transport ei fuel mailbox nodename mod function args node).2 := by
  rw [MailBox.sendRPC, Method.throwsOnly, Effect.mapOutcome_run]
  apply grown_lift_bind here
  intro modAtom
  apply grown_lift_bind here
  intro funAtom
  rw [Effect.bind_run, Effect.get_run]
  simp only [here]
  apply grown_lift_bind here
  intro inner
  apply grown_lift_bind here
  intro execTuple
  rw [MailBox.sendTo, MailBox.sendVia, Method.throwsOnly, Effect.mapOutcome_run,
    Effect.bind_run, Effect.get_run]
  simp only [here]
  split
  · apply grown_lift_bind here
    intro buffer
    exact sendBufTo_grown here
  · exact grown_refl here

end Growth

/-- What a call makes of the message that it takes. -/
def rpcOutcome (fuel : Nat) (message : EpiMessage) : RPCCall (Option ErlTerm) :=
  RPCCall.ofCall (Call.throwsOnly [.epiConnectionException] message.received) >>= fun
    | none => .aborts
    | some rex => MailBox.rpcResponse fuel rex

section Outcomes

variable {fuel : Nat} {rex : ErlTerm} {message : EpiMessage}

/-- A response throws the reason of a bad call, or an exception that no call lists. -/
theorem rpcResponse_throws {error : RPCException}
    (thrown : MailBox.rpcResponse fuel rex = .throws error) :
    (∃ reason binding, error = .epiBadRPC reason ∧
        rex.matchPattern fuel badrpcPattern (some .empty) = (.returns true, binding) ∧
        (binding.bind fun binding => binding.search (text "Reason")) = some reason) ∨
      ∃ failure, error = .epiException failure ∧
        failure.thrownClass.isA .epiConnectionException = false := by
  unfold MailBox.rpcResponse at thrown
  rcases matched : rex.matchPattern fuel badrpcPattern (some .empty) with ⟨outcome, binding⟩
  rw [matched] at thrown
  cases outcome with
  | returns success =>
      cases success with
      | true =>
          simp only at thrown
          cases found : binding.bind fun binding => binding.search (text "Reason") with
          | none =>
              rw [found] at thrown
              cases thrown
          | some reason =>
              rw [found] at thrown
              cases thrown
              exact .inl ⟨reason, binding, rfl, rfl, found⟩
      | false =>
          cases rex with
          | erlTuple mInitialized mArity elems =>
              simp only [ErlTuple.elementAt] at thrown
              cases mArity with
              | none =>
                  cases thrown
                  exact .inr ⟨_, rfl, rfl⟩
              | some arity =>
                  simp only at thrown
                  split at thrown
                  · cases thrown
                    exact .inr ⟨_, rfl, rfl⟩
                  · split at thrown
                    · cases thrown
                      exact .inr ⟨_, rfl, rfl⟩
                    · cases here : elems[1]? with
                      | none =>
                          rw [here] at thrown
                          cases thrown
                      | some elem =>
                          rw [here] at thrown
                          cases thrown
          | _ => cases thrown
  | throws failure =>
      have listed : (rex.matchPattern fuel badrpcPattern (some .empty)).1 = .throws failure := by
        rw [matched]
      rw [ErlTerm.matchPattern, Method.throwsOnly, Effect.mapOutcome_run] at listed
      have unbound := (Call.throwsOnly_eq_throws.mp listed).2
      cases thrown
      refine .inr ⟨failure, rfl, ?_⟩
      cases failureClass : failure.thrownClass with
      | epiVariableUnbound => rfl
      | _ =>
          rw [failureClass] at unbound
          cases unbound
  | _ => cases thrown

/-- What a call throws for a message. -/
theorem rpcOutcome_throws {error : RPCException}
    (thrown : RPCCall.throwsOnly [.epiConnectionException] true (rpcOutcome fuel message) =
      .throws error) :
    (∃ mException, message = .errorMessage mException ∧
        error = .epiException (.connection mException.mMsg)) ∨
      ∃ reason, error = .epiBadRPC reason ∧ message.BadRPC fuel reason := by
  have data : ∀ payload : Option ErlTerm, message.payload = payload →
      RPCCall.throwsOnly [.epiConnectionException] true
        ((Outcome.returns payload : RPCCall (Option ErlTerm)) >>= fun
          | none => .aborts
          | some rex => MailBox.rpcResponse fuel rex) = .throws error →
      ∃ reason, error = .epiBadRPC reason ∧ message.BadRPC fuel reason := by
    intro payload decoded taken
    cases payload with
    | none => cases taken
    | some rex =>
        simp only [Outcome.returns_bind] at taken
        cases response : MailBox.rpcResponse fuel rex with
        | throws raised =>
            rw [response, RPCCall.throwsOnly, Outcome.declares_throws] at taken
            rcases rpcResponse_throws response with
              ⟨reason, binding, rfl, matched, found⟩ | ⟨failure, rfl, unlisted⟩
            · cases taken
              exact ⟨reason, rfl, rex, binding, decoded, matched, found⟩
            · simp [unlisted] at taken
        | _ =>
            rw [response] at taken
            cases taken
  cases message with
  | errorMessage mException =>
      cases thrown
      exact .inl ⟨mException, rfl, rfl⟩
  | sendMessage msg mRecipient => exact .inr (data _ rfl thrown)
  | regSendMessage msg mSender mRecipient => exact .inr (data _ rfl thrown)
  | linkMessage mSender mRecipient => exact .inr (data _ rfl thrown)
  | unLinkMessage mSender mRecipient => exact .inr (data _ rfl thrown)
  | exitMessage mSender mRecipient mReason => exact .inr (data _ rfl thrown)

theorem rpcOutcome_payload (decoded : message.payload = some rex) :
    rpcOutcome fuel message = MailBox.rpcResponse fuel rex := by
  cases message with
  | sendMessage msg mRecipient =>
      have received : (EpiMessage.sendMessage msg mRecipient).received = .returns (some rex) :=
        congrArg _ decoded
      rw [rpcOutcome, received]
      rfl
  | regSendMessage msg mSender mRecipient =>
      have received : (EpiMessage.regSendMessage msg mSender mRecipient).received =
          .returns (some rex) := congrArg _ decoded
      rw [rpcOutcome, received]
      rfl
  | _ => cases decoded

/-- A bad call throws its reason. -/
theorem rpcOutcome_badRPC {reason : ErlTerm} (bad : message.BadRPC fuel reason) :
    rpcOutcome fuel message = .throws (.epiBadRPC reason) := by
  obtain ⟨payload, binding, decoded, matched, found⟩ := bad
  rw [rpcOutcome_payload decoded]
  unfold MailBox.rpcResponse
  rw [matched]
  simp only [found]

end Outcomes

section TimedCalls

variable {transport : Transport} {ei : Ei} {fuel mailbox : Nat} {timeout currentTime now : Int}
  {nodename mod function : Bytes} {args : Option ErlTerm} {node sent : AutoNode} {object : MailBox}
  {message : EpiMessage}

/-- A queue that has gained others is scanned as before. -/
theorem scan_sent (queueing : node.Queueing mailbox)
    (here : node.mailBoxes[mailbox]? = some object)
    (stops : ∀ after, GenericQueue.scan (PatternMatchingGuard.check ei fuel rexPattern)
      object.mQueue.mList (node.receiving object) ≠ (.returns none, after))
    (grown : Grown mailbox object node sent) :
    ∃ later extra, sent.mailBoxes[mailbox]? = some later ∧
      GenericQueue.scan (PatternMatchingGuard.check ei fuel rexPattern) later.mQueue.mList
          (sent.receiving later) =
        ((GenericQueue.scan (PatternMatchingGuard.check ei fuel rexPattern) object.mQueue.mList
            (node.receiving object)).1,
          (GenericQueue.scan (PatternMatchingGuard.check ei fuel rexPattern) object.mQueue.mList
            (node.receiving object)).2.grown later.mQueue extra) := by
  obtain ⟨new, extra, there, messages⟩ := grown
  refine ⟨_, extra, there, ?_⟩
  have bounded : ∀ address ∈ object.mQueue.mList,
      address < (node.receiving object).messages.length := by
    intro address member
    exact queueing address (AutoNode.queueOf_eq here ▸ member)
  have same : sent.receiving { object with mQueue := ⟨object.mQueue.mList ++ new⟩ } =
      (node.receiving object).grown ⟨object.mQueue.mList ++ new⟩ extra := by
    rw [AutoNode.receiving, messages]
    rfl
  rw [same]
  exact scan_grown rfl bounded new stops _ extra

/-- A pass over a queue with an acceptable message takes one, or it does not come back. -/
theorem onReceiving_cases {later : MailBox} (there : sent.mailBoxes[mailbox]? = some later)
    (stops : ∀ after, GenericQueue.scan (PatternMatchingGuard.check ei fuel rexPattern)
      later.mQueue.mList (sent.receiving later) ≠ (.returns none, after)) :
    (∃ address after message, GenericQueue.scan (PatternMatchingGuard.check ei fuel rexPattern)
        later.mQueue.mList (sent.receiving later) = (.returns (some address), after) ∧
      after.messages[address]? = some message ∧ message.received ≠ .returns none ∧
      (AutoNode.onReceiving mailbox (MailBox.receive ei fuel rexPattern) sent).1 =
        Call.throwsOnly [.epiConnectionException] message.received) ∨
      (∀ address after, GenericQueue.scan (PatternMatchingGuard.check ei fuel rexPattern)
        later.mQueue.mList (sent.receiving later) ≠ (.returns (some address), after)) ∧
      ((AutoNode.onReceiving mailbox (MailBox.receive ei fuel rexPattern) sent).1 = .aborts ∨
        (AutoNode.onReceiving mailbox (MailBox.receive ei fuel rexPattern) sent).1 = .diverges) := by
  have quiet := @scan_quiet ei fuel rexPattern (sent.receiving later) rfl later.mQueue.mList
  rcases ran : GenericQueue.scan (PatternMatchingGuard.check ei fuel rexPattern) later.mQueue.mList
    (sent.receiving later) with ⟨outcome, after⟩
  rw [ran] at quiet
  -- A scan that does not come back ends the pass.
  have ended : ∀ lost : Call (Option Nat), (∀ found, lost ≠ .returns found) → outcome = lost →
      (AutoNode.onReceiving mailbox (MailBox.receive ei fuel rexPattern) sent).1 =
        Call.throwsOnly [.epiConnectionException] (lost >>= fun _ => .aborts) := by
    rintro lost missing rfl
    have received : (MailBox.receive ei fuel rexPattern (sent.receiving later)).1 =
        Call.throwsOnly [.epiConnectionException] (outcome >>= fun _ => .aborts) := by
      rw [MailBox.receive, Method.throwsOnly, Effect.mapOutcome_run, Effect.bind_run,
        Effect.get_run]
      simp only
      rw [Effect.bind_run, GenericQueue.tryGetGuarded, Effect.bind_run]
      have same : (sent.receiving later).mQueue.mList = later.mQueue.mList := rfl
      rw [same, ran]
      cases outcome with
      | returns found => exact absurd rfl (missing found)
      | _ => rfl
    rw [AutoNode.receiving] at received
    simp only [AutoNode.onReceiving, there, received]
  cases outcome with
  | returns found =>
      cases found with
      | none => exact absurd ran (stops after)
      | some address =>
          obtain ⟨-, message, held, kind⟩ := scan_takes rfl ran
          refine .inl ⟨address, after, message, rfl, held, ?_, ?_⟩
          · intro absent
            rcases kind with error | ⟨payload, decoded, -⟩
            · cases message with
              | errorMessage mException => cases absent
              | _ => cases error
            · cases message with
              | sendMessage msg mRecipient =>
                  rw [EpiMessage.received, decoded] at absent
                  · cases absent
                  · exact fun _ => EpiMessage.noConfusion
              | regSendMessage msg mSender mRecipient =>
                  rw [EpiMessage.received, decoded] at absent
                  · cases absent
                  · exact fun _ => EpiMessage.noConfusion
              | _ => cases decoded
          · have unbound : (sent.receiving later).binding = none := rfl
            have received := receive_of_scan unbound ran held
            rw [AutoNode.receiving] at received
            simp only [AutoNode.onReceiving, there, received]
  | throws error => exact quiet.elim
  | aborts =>
      exact .inr ⟨by simp, .inl (ended .aborts (by simp) rfl)⟩
  | diverges =>
      exact .inr ⟨by simp, .inr (ended .diverges (by simp) rfl)⟩

/-- The two calls after their requests. -/
theorem receiveRPC_cases {later : MailBox} (there : sent.mailBoxes[mailbox]? = some later)
    (stops : ∀ after, GenericQueue.scan (PatternMatchingGuard.check ei fuel rexPattern)
      later.mQueue.mList (sent.receiving later) ≠ (.returns none, after)) :
    MailBox.receiveRPCWithin ei fuel timeout currentTime now mailbox sent =
        MailBox.receiveRPC ei fuel mailbox sent ∧
      ((∃ address after message, GenericQueue.scan (PatternMatchingGuard.check ei fuel rexPattern)
          later.mQueue.mList (sent.receiving later) = (.returns (some address), after) ∧
        after.messages[address]? = some message ∧
        (MailBox.receiveRPC ei fuel mailbox sent).1 =
          RPCCall.throwsOnly [.epiConnectionException] true (rpcOutcome fuel message)) ∨
      (∀ address after, GenericQueue.scan (PatternMatchingGuard.check ei fuel rexPattern)
        later.mQueue.mList (sent.receiving later) ≠ (.returns (some address), after)) ∧
      ((MailBox.receiveRPC ei fuel mailbox sent).1 = .aborts ∨
        (MailBox.receiveRPC ei fuel mailbox sent).1 = .diverges)) := by
  have alike : AutoNode.onReceiving mailbox
        (MailBox.receiveWithin ei fuel timeout currentTime now rexPattern) sent =
      AutoNode.onReceiving mailbox (MailBox.receive ei fuel rexPattern) sent := by
    have same := @receiveWithin_of_stops ei fuel rexPattern (sent.receiving later) timeout currentTime
      now stops
    rw [AutoNode.receiving] at same
    simp only [AutoNode.onReceiving, there, same]
  have cases := onReceiving_cases there stops
  rw [MailBox.receiveRPCWithin, MailBox.receiveRPC, RPCMethod.throwsOnly, RPCMethod.throwsOnly,
    Effect.mapOutcome_run, Effect.mapOutcome_run, Effect.bind_run, Effect.bind_run,
    RPCMethod.ofMethod, RPCMethod.ofMethod, alike]
  rcases received : AutoNode.onReceiving mailbox (MailBox.receive ei fuel rexPattern) sent with
    ⟨outcome, after⟩
  rw [received] at cases
  rcases cases with ⟨address, left, message, ran, held, present, rfl⟩ | ⟨missing, rfl | rfl⟩
  · have outcome : RPCCall.throwsOnly [.epiConnectionException] true
          (RPCCall.ofCall (Call.throwsOnly [.epiConnectionException] message.received) >>= fun
            | none => .aborts
            | some rex => MailBox.rpcResponse fuel rex) =
        RPCCall.throwsOnly [.epiConnectionException] true (rpcOutcome fuel message) := rfl
    cases result : Call.throwsOnly [.epiConnectionException] message.received with
    | returns rex =>
        cases rex with
        | none => exact absurd (Call.throwsOnly_eq_returns.mp result) present
        | some rex =>
            rw [result] at outcome
            exact ⟨rfl, .inl ⟨address, left, message, ran, held, outcome⟩⟩
    | _ =>
        rw [result] at outcome
        exact ⟨rfl, .inl ⟨address, left, message, ran, held, outcome⟩⟩
  · exact ⟨rfl, .inr ⟨missing, .inl rfl⟩⟩
  · exact ⟨rfl, .inr ⟨missing, .inr rfl⟩⟩

/-- What is known of the common outcome of the two calls before their specifications. -/
inductive CallOutcome (transport : Transport) (ei : Ei) (fuel mailbox : Nat)
    (nodename mod function : Bytes) (args : Option ErlTerm) (node : AutoNode) :
    RPCCall (Option ErlTerm) → Prop
  | unsent {outcome : RPCCall (Option ErlTerm)}
      (failed : (MailBox.sendRPC transport ei fuel mailbox nodename mod function args node).1 ≠
        .returns ())
      (thrown : ∀ error, outcome = .throws error → ∃ failure, error = .epiException failure ∧
        (MailBox.sendRPC transport ei fuel mailbox nodename mod function args node).1 =
          .throws failure) :
      CallOutcome transport ei fuel mailbox nodename mod function args node outcome
  | takes {message : EpiMessage} (selects : node.Selects ei fuel mailbox message)
      (sent : (MailBox.sendRPC transport ei fuel mailbox nodename mod function args node).1 =
        .returns ()) :
      CallOutcome transport ei fuel mailbox nodename mod function args node
        (RPCCall.throwsOnly [.epiConnectionException] true (rpcOutcome fuel message))
  | stuck {outcome : RPCCall (Option ErlTerm)}
      (nothing : ∀ message, ¬ node.Selects ei fuel mailbox message)
      (lost : outcome = .aborts ∨ outcome = .diverges) :
      CallOutcome transport ei fuel mailbox nodename mod function args node outcome

/-- Both calls send the same request and take the same message. -/
theorem rpc_cases (transport : Transport) (timeout currentTime now : Int)
    (nodename mod function : Bytes) (args : Option ErlTerm) (queueing : node.Queueing mailbox)
    (eligible : node.HoldsEligible ei fuel mailbox) :
    ∃ outcome after, CallOutcome transport ei fuel mailbox nodename mod function args node outcome ∧
      MailBox.RPC transport ei fuel mailbox nodename mod function args node =
        (RPCCall.throwsOnly [.epiBadArgument, .epiInvalidTerm, .epiEncodeException,
          .epiConnectionException] true outcome, after) ∧
      MailBox.RPCWithin transport ei fuel timeout currentTime now mailbox nodename mod function args
          node =
        (RPCCall.throwsOnly [.epiBadArgument, .epiInvalidTerm, .epiEncodeException,
          .epiConnectionException] false outcome, after) := by
  obtain ⟨object, chosen, here, member, accepted⟩ := eligible
  have unbound : (node.receiving object).binding = none := rfl
  have stops := scan_stops unbound member accepted
  have grown := @sendRPC_grown mailbox fuel object node transport ei nodename mod function args here
  rw [MailBox.RPC, MailBox.RPCWithin, RPCMethod.throwsOnly, RPCMethod.throwsOnly,
    Effect.mapOutcome_run, Effect.mapOutcome_run, Effect.bind_run, Effect.bind_run,
    RPCMethod.ofMethod]
  rcases request : MailBox.sendRPC transport ei fuel mailbox nodename mod function args node with
    ⟨outcome, sent⟩
  rw [request] at grown
  cases outcome with
  | returns value =>
      obtain ⟨later, extra, there, scanned⟩ := scan_sent queueing here stops grown
      have stopped : ∀ after, GenericQueue.scan (PatternMatchingGuard.check ei fuel rexPattern)
          later.mQueue.mList (sent.receiving later) ≠ (.returns none, after) := by
        intro after ran
        rw [scanned] at ran
        have before : (GenericQueue.scan (PatternMatchingGuard.check ei fuel rexPattern)
            object.mQueue.mList (node.receiving object)).1 = .returns none := congrArg Prod.fst ran
        exact stops _ (Prod.ext before rfl)
      obtain ⟨alike, outcomes⟩ :=
        @receiveRPC_cases ei fuel mailbox timeout currentTime now sent later there stopped
      refine ⟨(MailBox.receiveRPC ei fuel mailbox sent).1, (MailBox.receiveRPC ei fuel mailbox sent).2,
        ?_, rfl, congrArg (fun called : RPCCall (Option ErlTerm) × AutoNode =>
          (RPCCall.throwsOnly _ false called.1, called.2)) alike⟩
      rcases outcomes with ⟨address, after, message, ran, held, received⟩ | ⟨missing, lost⟩
      · rw [received]
        rw [scanned] at ran
        rcases before : GenericQueue.scan (PatternMatchingGuard.check ei fuel rexPattern)
          object.mQueue.mList (node.receiving object) with ⟨found, left⟩
        rw [before] at ran
        cases ran
        obtain ⟨-, first, taken, -⟩ := scan_takes unbound before
        obtain ⟨inside, -⟩ := List.getElem?_eq_some_iff.mp taken
        rw [Receiving.grown, List.getElem?_append_left inside] at held
        exact .takes ⟨object, address, left, here, before, held⟩ (by rw [request])
      · refine .stuck ?_ lost
        rintro message ⟨other, address, after, there', ran, held⟩
        obtain rfl : other = object := Option.some.inj (there'.symm.trans here)
        rw [ran] at scanned
        exact missing _ _ scanned
  | throws failure =>
      refine ⟨.throws (.epiException failure), sent, .unsent (by simp [request]) ?_, rfl, rfl⟩
      rintro error same
      cases same
      exact ⟨failure, rfl, by rw [request]⟩
  | aborts => exact ⟨.aborts, sent, .unsent (by simp [request]) (by simp), rfl, rfl⟩
  | diverges => exact ⟨.diverges, sent, .unsent (by simp [request]) (by simp), rfl, rfl⟩

theorem throwsOnly_rpcAnswer (response : ErlTerm) (listed : List ExceptionClass) :
    RPCCall.throwsOnly listed true (rpcAnswer response) = rpcAnswer response := by
  rcases rpcAnswer_cases response with answered | ⟨reason, answered⟩
  · rw [answered]
    rfl
  · rw [answered]
    rfl

/-- A specification adds no exception. -/
theorem throws_of_throwsOnly {listed : List ExceptionClass} {badRPC : Bool}
    {outcome : RPCCall (Option ErlTerm)} {error : RPCException}
    (thrown : RPCCall.throwsOnly listed badRPC outcome = .throws error) :
    outcome = .throws error := by
  cases outcome with
  | throws raised =>
      rw [RPCCall.throwsOnly, Outcome.declares_throws] at thrown
      rcases ite_eq_iff.mp thrown with ⟨-, same⟩ | ⟨-, same⟩
      · exact same
      · cases same
  | _ => cases thrown

/-- The message that a call takes is determined. -/
theorem selects_unique {other : EpiMessage} (selects : node.Selects ei fuel mailbox message)
    (again : node.Selects ei fuel mailbox other) : other = message := by
  obtain ⟨object, address, after, here, ran, held⟩ := selects
  obtain ⟨object', address', after', here', ran', held'⟩ := again
  obtain rfl : object' = object := Option.some.inj (here'.symm.trans here)
  rw [ran] at ran'
  cases ran'
  exact Option.some.inj (held'.symm.trans held)

/-- A call that was sent ends as the message that it takes says. -/
theorem CallOutcome.taken {outcome : RPCCall (Option ErlTerm)}
    (ends : CallOutcome transport ei fuel mailbox nodename mod function args node outcome)
    (selects : node.Selects ei fuel mailbox message)
    (sent : (MailBox.sendRPC transport ei fuel mailbox nodename mod function args node).1 =
      .returns ()) :
    outcome = RPCCall.throwsOnly [.epiConnectionException] true (rpcOutcome fuel message) := by
  cases ends with
  | unsent failed thrown => exact absurd sent failed
  | stuck nothing lost => exact absurd selects (nothing message)
  | takes taken request => rw [selects_unique selects taken]

/-- What a call throws comes from the request, from a report of an error or from one of a bad
call. -/
theorem CallOutcome.thrown {outcome : RPCCall (Option ErlTerm)} {error : RPCException}
    (ends : CallOutcome transport ei fuel mailbox nodename mod function args node outcome)
    (raised : outcome = .throws error) :
    (∃ failure, error = .epiException failure ∧
      (MailBox.sendRPC transport ei fuel mailbox nodename mod function args node).1 =
        .throws failure) ∨
    (∃ mException, error = .epiException (.connection mException.mMsg) ∧
      node.Selects ei fuel mailbox (.errorMessage mException)) ∨
    ∃ message reason, error = .epiBadRPC reason ∧ node.Selects ei fuel mailbox message ∧
      message.BadRPC fuel reason ∧
        (MailBox.sendRPC transport ei fuel mailbox nodename mod function args node).1 =
          .returns () := by
  cases ends with
  | unsent failed known => exact .inl (known error raised)
  | stuck nothing lost => rcases lost with rfl | rfl <;> cases raised
  | takes taken sent =>
      rcases rpcOutcome_throws raised with ⟨mException, rfl, same⟩ | ⟨reason, same, bad⟩
      · exact .inr (.inl ⟨mException, same, taken⟩)
      · exact .inr (.inr ⟨_, reason, same, taken, bad, sent⟩)

/-- The two calls agree except where the message that they take is the report of a bad call: there
the one without a timeout throws the reason, and the other one ends the program. -/
theorem calls_agree_iff (transport : Transport) (ei : Ei) (deep : 4 ≤ fuel)
    (timeout currentTime now : Int) (nodename mod function : Bytes) (args : Option ErlTerm)
    (queueing : node.Queueing mailbox) (eligible : node.HoldsEligible ei fuel mailbox) :
    CallsAgree transport ei fuel timeout currentTime now mailbox nodename mod function args node ↔
      ∀ message reason, node.Selects ei fuel mailbox message → message.BadRPC fuel reason →
        (MailBox.sendRPC transport ei fuel mailbox nodename mod function args node).1 ≠
          .returns () := by
  obtain ⟨outcome, after, ends, called, timed⟩ := rpc_cases transport timeout currentTime now
    nodename mod function args queueing eligible
  constructor
  · intro agree message reason selects bad sent
    have same := congrArg Prod.fst agree.same
    rw [called, timed, ends.taken selects sent, rpcOutcome_badRPC bad] at same
    cases same
  · intro good
    refine ⟨?_, ?_, ?_, ?_⟩
    · rw [called, timed]
      refine Prod.ext ?_ rfl
      cases raised : outcome with
      | throws error =>
          rcases ends.thrown raised with
            ⟨failure, rfl, -⟩ | ⟨mException, rfl, -⟩ | ⟨message, reason, -, taken, bad, sent⟩
          · rfl
          · rfl
          · exact absurd sent (good message reason taken bad)
      | _ => rfl
    · intro message response selects sent decoded matchable
      rw [called, ends.taken selects sent]
      simp only [rpcOutcome_payload decoded, rpcResponse_rexTuple matchable deep,
        throwsOnly_rpcAnswer]
    · intro mException selects sent
      rw [called, ends.taken selects sent]
      rfl
    · intro error thrown
      rw [called] at thrown
      rcases ends.thrown (throws_of_throwsOnly thrown) with
        request | report | ⟨message, reason, same, taken, bad, -⟩
      · exact .inl request
      · exact .inr (.inl report)
      · exact .inr (.inr ⟨message, reason, same, taken, bad⟩)

end TimedCalls

/-- The report of a bad call. -/
def badReply : ErlangMessage :=
  ⟨.plainBuffer .create, some (rexTuple (pairTerm (atomTerm badrpcName) (atomTerm rexName)))⟩

/-- A node whose mailbox holds the message. -/
def repliedNode (reply : ErlangMessage) : AutoNode :=
  (callingNode.gained (.sendMessage reply callerPid)).queued 0 0 ⟨callerPid, some .node, ⟨[]⟩⟩

theorem repliedNode_queueing (reply : ErlangMessage) : (repliedNode reply).Queueing 0 := by
  intro address member
  have queue : (repliedNode reply).queueOf 0 = [0] := rfl
  rw [queue, List.mem_singleton] at member
  subst member
  exact Nat.zero_lt_succ 0

theorem badReply_eligible : (repliedNode badReply).HoldsEligible externalFormat 5 0 :=
  ⟨_, 0, rfl, List.mem_cons_self, rfl⟩

/-- The calls agree about the answer of a server. -/
theorem calls_agree_late :
    CallsAgree callNetwork externalFormat 5 10 0 0 0 (text "c@d") (text "m") (text "f")
        (some (.simple .erlEmptyList)) lateNode ↔
      ∀ message reason, lateNode.Selects externalFormat 5 0 message → message.BadRPC 5 reason →
        (MailBox.sendRPC callNetwork externalFormat 5 0 (text "c@d") (text "m") (text "f")
          (some (.simple .erlEmptyList)) lateNode).1 ≠ .returns () :=
  calls_agree_iff callNetwork externalFormat (by decide) 10 0 0 _ _ _ _
    (repliedNode_queueing lateMessage) ⟨_, 0, rfl, List.mem_cons_self, rfl⟩

/-- The report of a bad call ends the process where the call has a timeout. -/
theorem badReply_disagrees :
    (repliedNode badReply).Queueing 0 ∧ (repliedNode badReply).HoldsEligible externalFormat 5 0 ∧
    (MailBox.RPC callNetwork externalFormat 5 0 (text "c@d") (text "m") (text "f")
      (some (.simple .erlEmptyList)) (repliedNode badReply)).1 =
        .throws (.epiBadRPC (atomTerm rexName)) ∧
    (MailBox.RPCWithin callNetwork externalFormat 5 10 0 0 0 (text "c@d") (text "m") (text "f")
      (some (.simple .erlEmptyList)) (repliedNode badReply)).1 = .aborts ∧
    ¬ CallsAgree callNetwork externalFormat 5 10 0 0 0 (text "c@d") (text "m") (text "f")
      (some (.simple .erlEmptyList)) (repliedNode badReply) := by
  have untimed : (MailBox.RPC callNetwork externalFormat 5 0 (text "c@d") (text "m") (text "f")
      (some (.simple .erlEmptyList)) (repliedNode badReply)).1 =
        .throws (.epiBadRPC (atomTerm rexName)) := rfl
  have timed : (MailBox.RPCWithin callNetwork externalFormat 5 10 0 0 0 (text "c@d") (text "m")
      (text "f") (some (.simple .erlEmptyList)) (repliedNode badReply)).1 = .aborts := rfl
  refine ⟨repliedNode_queueing badReply, badReply_eligible, untimed, timed, ?_⟩
  intro agree
  have same := congrArg Prod.fst agree.same
  rw [untimed, timed] at same
  cases same

end Epi.Node
