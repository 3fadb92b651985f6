import Epi.Buffer.ExternalFormat
import Epi.Node.MailBox
import Epi.Type.MatchAnswers

namespace Epi.Node

open Verification Epi.Type Epi.Buffer Epi.Queue

namespace EpiMessage

/-- The decoded payload of an Erlang message. -/
def payload : EpiMessage → Option ErlTerm
  | .sendMessage msg _ | .regSendMessage msg _ _ => msg.mPayLoad
  | _ => none

/-- An error, or a decoded payload without variables that a match can compare. -/
def Receivable (fuel : Nat) (message : EpiMessage) : Prop :=
  message.messageType = .errorMsg ∨
    ∃ payload, message.payload = some payload ∧ Proper payload ∧ payload.matchDepth ≤ fuel

/-- An error, which leaves the binding as it is, or a payload that the pattern matches under the
binding, and the binding after that one match. -/
def Eligible (fuel : Nat) (pattern : ErlTerm) (binding : Option VariableBinding)
    (message : EpiMessage) (extended : Option VariableBinding) : Prop :=
  message.messageType = .errorMsg ∧ extended = binding ∨
    ∃ payload, message.payload = some payload ∧
      pattern.matchPattern fuel payload binding = (.returns true, extended)

/-- What the caller gets for a message. -/
def received : EpiMessage → Call (Option ErlTerm)
  | .errorMessage mException => .throws (.connection mException.mMsg)
  | message => .returns message.payload

variable {message : EpiMessage} {term : ErlTerm}

theorem messageType_of_payload (decoded : message.payload = some term) :
    message.messageType = .sendMsg ∨ message.messageType = .regSendMsg := by
  cases message with
  | sendMessage msg mRecipient => exact .inl rfl
  | regSendMessage msg mSender mRecipient => exact .inr rfl
  | _ => cases decoded

/-- A decoded payload is read without a change of its message. -/
theorem getMsg_of_payload (ei : Ei) (fuel : Nat) (decoded : message.payload = some term) :
    onErlangMessage (ErlangMessage.getMsg ei fuel) message = (.returns (some term), message) := by
  cases message with
  | sendMessage msg mRecipient =>
      simp only [onErlangMessage, ErlangMessage.getMsg_decoded ei fuel decoded]
  | regSendMessage msg mSender mRecipient =>
      simp only [onErlangMessage, ErlangMessage.getMsg_decoded ei fuel decoded]
  | _ => cases decoded

end EpiMessage

/-- The read of a decoded payload changes nothing. -/
theorem onMessageAt_of_payload {State : Type} (ei : Ei) {fuel : Nat} {address : Nat}
    {message : EpiMessage} {term : ErlTerm} {messages : State → List EpiMessage}
    {store : State → List EpiMessage → State}
    (kept : ∀ state, store state (messages state) = state) {state : State}
    (held : (messages state)[address]? = some message) (decoded : message.payload = some term) :
    onMessageAt messages store address
        (EpiMessage.onErlangMessage (ErlangMessage.getMsg ei fuel)) state =
      (.returns (some term), state) := by
  have same : (messages state).set address message = messages state := by
    obtain ⟨inside, here⟩ := List.getElem?_eq_some_iff.mp held
    rw [← here]
    exact List.set_getElem_self inside
  simp only [onMessageAt, held, EpiMessage.getMsg_of_payload ei fuel decoded, same, kept]

section Receive

variable (ei : Ei) {fuel : Nat} {pattern term : ErlTerm} {state : Receiving} {address : Nat}
  {message : EpiMessage}

theorem onMessage_of_payload (held : state.messages[address]? = some message)
    (decoded : message.payload = some term) :
    Receiving.onMessage address (EpiMessage.onErlangMessage (ErlangMessage.getMsg ei fuel)) state =
      (.returns (some term), state) :=
  onMessageAt_of_payload ei (fun _ => rfl) held decoded

/-- The guard runs one match on the binding of the caller. -/
theorem check_of_payload (held : state.messages[address]? = some message)
    (decoded : message.payload = some term) {success : Bool} {after : Option VariableBinding}
    (matched : pattern.matchPattern fuel term state.binding = (.returns success, after)) :
    PatternMatchingGuard.check ei fuel pattern address state =
      (.returns success, { state with binding := after }) := by
  have asked : PatternMatchingGuard.guardMatch ei fuel pattern address state =
      (.returns success, { state with binding := after }) := by
    rw [PatternMatchingGuard.guardMatch,
      Effect.bind_of_returns (onMessage_of_payload ei held decoded)]
    simp only [Receiving.onBinding, matched]
  rw [PatternMatchingGuard.check, MailBoxGuard.check, Effect.bind_run, Effect.get_run]
  simp only [held]
  rcases EpiMessage.messageType_of_payload decoded with type | type
  · simp only [type, Effect.mapOutcome_run, asked]
    rfl
  · simp only [type, Effect.mapOutcome_run, asked]
    rfl

theorem check_of_error (held : state.messages[address]? = some message)
    (error : message.messageType = .errorMsg) :
    PatternMatchingGuard.check ei fuel pattern address state = (.returns true, state) := by
  rw [PatternMatchingGuard.check, MailBoxGuard.check, Effect.bind_run, Effect.get_run]
  simp only [held, error]
  rfl

/-- The guard accepts exactly the eligible messages, and a refusal leaves no trace. -/
theorem check_receivable (patternValid : pattern.Valid)
    (values : (state.binding.getD .empty).Values Proper)
    (held : state.messages[address]? = some message) (receivable : message.Receivable fuel) :
    PatternMatchingGuard.check ei fuel pattern address state = (.returns false, state) ∧
        (∀ extended, ¬ message.Eligible fuel pattern state.binding extended) ∨
      ∃ extended, message.Eligible fuel pattern state.binding extended ∧
        PatternMatchingGuard.check ei fuel pattern address state =
          (.returns true, { state with binding := extended }) := by
  rcases receivable with error | ⟨payload, decoded, proper, enough⟩
  · exact .inr ⟨state.binding, .inl ⟨error, rfl⟩, check_of_error ei held error⟩
  · obtain ⟨success, after, matched, refused⟩ :=
      matchPattern_answers patternValid proper values enough
    have checked := check_of_payload ei held decoded matched
    cases success with
    | true => exact .inr ⟨after, .inr ⟨payload, decoded, matched⟩, checked⟩
    | false =>
        refine .inl ⟨by rw [checked, refused rfl], ?_⟩
        rintro extended (⟨error, -⟩ | ⟨other, same, accepted⟩)
        · rcases EpiMessage.messageType_of_payload decoded with type | type
          · cases (type.symm.trans error)
          · cases (type.symm.trans error)
        · rw [decoded, Option.some.injEq] at same
          rw [← same, matched] at accepted
          cases accepted

/-- A message that left the queue is thrown, or its payload is returned. -/
theorem takeTerm_received (held : state.messages[address]? = some message)
    (readable : message.messageType = .errorMsg ∨ ∃ payload, message.payload = some payload) :
    MailBox.takeTerm ei fuel address state = (message.received, state) := by
  rw [MailBox.takeTerm, Effect.bind_run, Effect.get_run]
  simp only [held]
  rcases readable with error | ⟨payload, decoded⟩
  · cases message with
    | errorMessage mException => rfl
    | _ => cases error
  · have taken := @onMessage_of_payload ei fuel _ _ _ _ held decoded
    cases message with
    | sendMessage msg mRecipient =>
        simp only [EpiMessage.received, decoded]
        exact taken
    | regSendMessage msg mSender mRecipient =>
        simp only [EpiMessage.received, decoded]
        exact taken
    | _ => cases decoded

/-- A message that leaves the queue keeps the payloads of all messages. -/
theorem takeTerm_payloads {held : Nat} (here : state.messages[held]? = some message)
    (payload : message.payload = some term) (address : Nat) :
    (MailBox.takeTerm ei fuel address state).2.messages[held]? = some message := by
  rw [MailBox.takeTerm, Effect.bind_run, Effect.get_run]
  cases there : state.messages[address]? with
  | none =>
      simp only [there]
      exact here
  | some other =>
      simp only [there]
      split
      · exact here
      · split
        · simp only [Receiving.onMessage, onMessageAt, there]
          by_cases same : held = address
          · subst same
            obtain rfl := Option.some.inj (there.symm.trans here)
            obtain ⟨inside, -⟩ := List.getElem?_eq_some_iff.mp here
            rw [EpiMessage.getMsg_of_payload ei fuel payload, List.getElem?_set_self inside]
          · rw [List.getElem?_set_ne (Ne.symm same)]
            exact here
        · exact here

/-- A pass without an accepted message. -/
theorem receive_waits (rejected : ∀ other ∈ state.mQueue.mList,
    PatternMatchingGuard.check ei fuel pattern other state = (.returns false, state)) :
    MailBox.receive ei fuel pattern state = (.diverges, state) := by
  have scanned := GenericQueue.scan_append rejected []
  rw [List.append_nil] at scanned
  rw [MailBox.receive, Method.throwsOnly, Effect.mapOutcome_run, Effect.bind_run, Effect.get_run]
  simp only
  rw [GenericQueue.tryGetGuarded, Effect.bind_run, Effect.bind_run, scanned]
  rfl

/-- A pass takes out the accepted message that stands behind rejected ones. -/
theorem receive_takes {old new : List Nat} {chosen : Nat} {after last : Receiving}
    {outcome : Call (Option ErlTerm)} (same : state.mQueue.mList = old ++ chosen :: new)
    (rejected : ∀ other ∈ old,
      PatternMatchingGuard.check ei fuel pattern other state = (.returns false, state))
    (accepted : PatternMatchingGuard.check ei fuel pattern chosen state = (.returns true, after))
    (taken : MailBox.takeTerm ei fuel chosen
      { after with mQueue := state.mQueue.remove chosen } = (outcome, last)) :
    MailBox.receive ei fuel pattern state =
      (Call.throwsOnly [.epiConnectionException] outcome, last) := by
  have picked := GenericQueue.tryGetGuarded_first same rejected accepted
  unfold MailBox.receive Method.throwsOnly
  rw [Effect.mapOutcome_run, Effect.bind_run, Effect.get_run]
  simp only
  rw [Effect.bind_of_returns picked]
  simp only [Effect.bind_run, Effect.get_run, Effect.set_run]
  rw [taken]

/-- A receive takes the oldest eligible message. An error is thrown and leaves the binding as it is,
a payload is returned with the binding after its own match, and the other messages stay queued in
order. -/
theorem receive_oldest (patternValid : pattern.Valid)
    (values : (state.binding.getD .empty).Values Proper)
    (receivable : ∀ address ∈ state.mQueue.mList, ∃ message,
      state.messages[address]? = some message ∧ message.Receivable fuel)
    (waiting : ∃ address ∈ state.mQueue.mList, ∃ message extended,
      state.messages[address]? = some message ∧
        message.Eligible fuel pattern state.binding extended) :
    ∃ old chosen new message extended remaining,
      state.mQueue.mList = old ++ chosen :: new ∧
      (∀ other ∈ old, ∀ earlier accepted, state.messages[other]? = some earlier →
        ¬ earlier.Eligible fuel pattern state.binding accepted) ∧
      state.messages[chosen]? = some message ∧
      message.Eligible fuel pattern state.binding extended ∧
      MailBox.receive ei fuel pattern state = (message.received,
        { mQueue := remaining, messages := state.messages, binding := extended }) ∧
      remaining.mList = (old ++ new).filter (· ≠ chosen) ∧
      (state.mQueue.mList.Nodup → remaining.mList = old ++ new) := by
  have answers : ∀ address ∈ state.mQueue.mList,
      PatternMatchingGuard.check ei fuel pattern address state = (.returns false, state) ∨
        ∃ after, PatternMatchingGuard.check ei fuel pattern address state =
          (.returns true, after) := by
    intro address member
    obtain ⟨message, held, here⟩ := receivable address member
    rcases check_receivable ei patternValid values held here with
      ⟨refused, -⟩ | ⟨extended, -, accepted⟩
    · exact .inl refused
    · exact .inr ⟨_, accepted⟩
  have accepted : ∃ address ∈ state.mQueue.mList, ∃ after,
      PatternMatchingGuard.check ei fuel pattern address state = (.returns true, after) := by
    obtain ⟨address, member, message, extended, held, eligible⟩ := waiting
    obtain ⟨other, same, here⟩ := receivable address member
    obtain rfl : message = other := Option.some.inj (held.symm.trans same)
    rcases check_receivable ei patternValid values held here with
      ⟨-, refused⟩ | ⟨extended, -, accepted⟩
    · exact absurd eligible (refused extended)
    · exact ⟨address, member, _, accepted⟩
  obtain ⟨old, chosen, new, after, same, rejected, taken⟩ :=
    GenericQueue.first_accepted answers accepted
  have inside : chosen ∈ state.mQueue.mList := by simp [same]
  obtain ⟨message, held, here⟩ := receivable chosen inside
  obtain ⟨extended, eligible, checked⟩ : ∃ extended,
      message.Eligible fuel pattern state.binding extended ∧
        PatternMatchingGuard.check ei fuel pattern chosen state =
          (.returns true, { state with binding := extended }) := by
    rcases check_receivable ei patternValid values held here with
      ⟨refused, -⟩ | accepted
    · rw [taken] at refused
      cases refused
    · exact accepted
  refine ⟨old, chosen, new, message, extended, state.mQueue.remove chosen, same, ?_, held, eligible,
    ?_, ?_, GenericQueue.remove_once same⟩
  · intro other member earlier wanted heldEarlier
    obtain ⟨known, sameEarlier, hereEarlier⟩ := receivable other (by simp [same, member])
    obtain rfl : earlier = known := Option.some.inj (heldEarlier.symm.trans sameEarlier)
    rcases check_receivable ei patternValid values heldEarlier hereEarlier with
      ⟨-, refused⟩ | ⟨_, -, acceptedEarlier⟩
    · exact refused wanted
    · rw [rejected other member] at acceptedEarlier
      cases acceptedEarlier
  · have thrown : Call.throwsOnly [.epiConnectionException] message.received = message.received := by
      cases message with
      | errorMessage mException => rfl
      | _ => rfl
    have readable : message.messageType = .errorMsg ∨ ∃ payload, message.payload = some payload :=
      here.imp_right fun ⟨payload, decoded, _⟩ => ⟨payload, decoded⟩
    rw [receive_takes ei same rejected checked (takeTerm_received ei held readable), thrown]
  · simp [GenericQueue.remove, same]

end Receive

/-- The pattern `{X, 2}`. -/
def scannedPattern : ErlTerm :=
  .erlTuple true (some 2) [.erlVariable (text "X"), .simple (.erlLong (some 2))]

/-- The pair of two numbers. -/
def numberPair (first second : BitVec 64) : ErlTerm :=
  .erlTuple true (some 2) [.simple (.erlLong (some first)), .simple (.erlLong (some second))]

/-- A message with a decoded pair. -/
def pairMessage (first second : BitVec 64) : EpiMessage :=
  .regSendMessage ⟨.plainBuffer .create, some (numberPair first second)⟩
    ⟨⟨text "a@b", by decide, by decide⟩, 1, 0, 0⟩ (text "inbox")

/-- A queue of `{7, 3}`, `{8, 2}` and an error. -/
def scannedState : Receiving where
  mQueue := ⟨[0, 1, 2]⟩
  messages := [pairMessage 7 3, pairMessage 8 2, .errorMessage (.connection (text "closed"))]
  binding := some .empty

theorem receive_oldest_second :
    ∃ old chosen new message extended remaining,
      scannedState.mQueue.mList = old ++ chosen :: new ∧
      (∀ other ∈ old, ∀ earlier accepted, scannedState.messages[other]? = some earlier →
        ¬ earlier.Eligible 5 scannedPattern scannedState.binding accepted) ∧
      scannedState.messages[chosen]? = some message ∧
      message.Eligible 5 scannedPattern scannedState.binding extended ∧
      MailBox.receive externalFormat 5 scannedPattern scannedState = (message.received,
        { mQueue := remaining, messages := scannedState.messages, binding := extended }) ∧
      remaining.mList = (old ++ new).filter (· ≠ chosen) ∧
      (scannedState.mQueue.mList.Nodup → remaining.mList = old ++ new) := by
  have pairs : ∀ first second, (pairMessage first second).Receivable 5 :=
    fun first second => .inr ⟨numberPair first second, rfl, ⟨⟨rfl, rfl⟩, rfl⟩, Nat.le_add_right 4 1⟩
  refine receive_oldest externalFormat (by decide) (VariableBinding.values_empty _) ?_ ?_
  · intro address member
    have known : address = 0 ∨ address = 1 ∨ address = 2 := by
      simpa [scannedState] using member
    rcases known with rfl | rfl | rfl
    · exact ⟨_, rfl, pairs 7 3⟩
    · exact ⟨_, rfl, pairs 8 2⟩
    · exact ⟨_, rfl, .inl rfl⟩
  · exact ⟨1, by decide, pairMessage 8 2, _, rfl, .inr ⟨numberPair 8 2, rfl, rfl⟩⟩

end Epi.Node
