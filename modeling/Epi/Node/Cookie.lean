import Epi.Buffer.ExternalFormat
import Epi.Node.Acceptor

namespace Epi.Node

open Verification Epi.Type Epi.Buffer

/-- No message can be made of it: its kind is unknown, or it is an exit whose reason does not decode
or is not an atom. -/
def Unconvertible (ei : Ei) (fuel : Nat) (msg : ErlangMsg) (buffer : InputBuffer) : Prop :=
  match msg.msgtype with
  | .other _ => True
  | .erlExit | .erlExit2 =>
      (∃ error, (buffer.readTerm ei fuel).1 = .throws error) ∨
        ∃ term, (buffer.readTerm ei fuel).1 = .returns (some term) ∧
          term.instanceOf .erlAtom = false
  | _ => False

section Throws

variable {Value : Type} {error : EpiException}

theorem bind_eq_throws {First : Type} {first : Call First} {next : First → Call Value} :
    (first >>= next) = .throws error ↔
      first = .throws error ∨ ∃ value, first = .returns value ∧ next value = .throws error := by
  cases first <;> simp

/-- A pid of a bad node is a bad argument. -/
theorem ei2ErlPid_throws {pid : ErlangPid} (thrown : ei2ErlPid pid = .throws error) :
    error.thrownClass = .epiBadArgument := by
  rcases bind_eq_throws.mp thrown with failed | ⟨name, -, built⟩
  · unfold NodeName.check at failed
    split at failed
    · cases failed
      rfl
    · split at failed
      · cases failed
        rfl
      · cases failed
  · cases built

theorem ei2ErlPid_not_unknown {pid : ErlangPid} (thrown : ei2ErlPid pid = .throws error) :
    error.thrownClass.isA .epiUnknownMessageException = false := by
  rw [ei2ErlPid_throws thrown]
  rfl

/-- A read fails with a decoding error. -/
theorem readTerm_throws {ei : Ei} {fuel : Nat} {buffer : InputBuffer}
    (thrown : (buffer.readTerm ei fuel).1 = .throws error) :
    error.thrownClass.isA .epiDecodeException = true := by
  cases buffer with
  | eiInputBuffer buffer =>
      cases fuel with
      | zero => cases thrown
      | succ fuel =>
          have listed := (Call.throwsOnly_eq_throws.mp thrown).2
          simpa using listed
  | plainBuffer buffer =>
      simp only [InputBuffer.readTerm, PlainBuffer.readTerm] at thrown
      split at thrown
      · cases thrown
      · split at thrown
        · cases thrown
        · cases thrown

/-- The constructor of a message keeps a failed decoding to itself. -/
theorem create_quiet (ei : Ei) (fuel : Nat) (buffer : InputBuffer) :
    (ErlangMessage.create ei fuel buffer).Quiet := by
  unfold ErlangMessage.create
  rcases ran : ErlangMessage.getMsg ei fuel ⟨buffer, none⟩ with ⟨outcome, msg⟩
  cases outcome with
  | throws error =>
      have thrown : (ErlangMessage.getMsg ei fuel ⟨buffer, none⟩).1 = .throws error := by rw [ran]
      have listed := (Call.throwsOnly_eq_throws.mp thrown).2
      have decoding : error.thrownClass.isA .epiDecodeException = true := by simpa using listed
      simp [Call.catching, Outcome.handle, decoding]
  | _ => trivial

theorem exitReason_of_throws {ei : Ei} {fuel : Nat} {buffer : InputBuffer}
    (read : (buffer.readTerm ei fuel).1 = .throws error) :
    exitReason ei fuel buffer = .throws (.unknownMessage "Error decoding reason atom") := by
  rw [exitReason, read, Call.catching_throws _ (readTerm_throws read)]
  rfl

theorem exitReason_of_other {ei : Ei} {fuel : Nat} {buffer : InputBuffer} {term : ErlTerm}
    (read : (buffer.readTerm ei fuel).1 = .returns (some term))
    (other : term.instanceOf .erlAtom = false) :
    exitReason ei fuel buffer = .throws (.unknownMessage "Error decoding reason atom") := by
  rw [exitReason, read, Call.catching_returns, Outcome.returns_bind]
  cases term with
  | simple value =>
      cases value with
      | erlAtom mAtom => cases other
      | _ => rfl
  | _ => rfl

/-- A reason is refused exactly when it does not decode or is not an atom. -/
theorem exitReason_throws {ei : Ei} {fuel : Nat} {buffer : InputBuffer} :
    (∃ error, exitReason ei fuel buffer = .throws error) ↔
      (∃ error, (buffer.readTerm ei fuel).1 = .throws error) ∨
        ∃ term, (buffer.readTerm ei fuel).1 = .returns (some term) ∧
          term.instanceOf .erlAtom = false := by
  constructor
  · rintro ⟨error, thrown⟩
    cases read : (buffer.readTerm ei fuel).1 with
    | throws first => exact .inl ⟨first, rfl⟩
    | returns found =>
        rw [exitReason, read, Call.catching_returns, Outcome.returns_bind] at thrown
        cases found with
        | none => cases thrown
        | some term =>
            refine .inr ⟨term, rfl, ?_⟩
            cases atom : term.instanceOf .erlAtom with
            | false => rfl
            | true =>
                cases term with
                | simple value =>
                    cases value with
                    | erlAtom mAtom => cases thrown
                    | _ => cases atom
                | _ => cases atom
    | aborts =>
        rw [exitReason, read] at thrown
        cases thrown
    | diverges =>
        rw [exitReason, read] at thrown
        cases thrown
  · rintro (⟨error, read⟩ | ⟨term, read, other⟩)
    · exact ⟨_, exitReason_of_throws read⟩
    · exact ⟨_, exitReason_of_other read other⟩

/-- The pids of a message are converted, or the conversion does not throw what it declares. -/
theorem pids_not_unknown {fromPid toPid : ErlangPid} {make : ErlPid → ErlPid → EpiMessage}
    (thrown : (do
      let sender ← ei2ErlPid fromPid
      let recipient ← ei2ErlPid toPid
      return make sender recipient : Call EpiMessage) = .throws error) :
    error.thrownClass.isA .epiUnknownMessageException = false := by
  rcases bind_eq_throws.mp thrown with first | ⟨sender, -, rest⟩
  · exact ei2ErlPid_not_unknown first
  · rcases bind_eq_throws.mp rest with second | ⟨recipient, -, made⟩
    · exact ei2ErlPid_not_unknown second
    · cases made

/-- A message with a payload does not throw what the conversion declares. -/
theorem create_not_unknown {ei : Ei} {fuel : Nat} {buffer : InputBuffer} {pid : ErlangPid}
    {make : ErlPid → ErlangMessage → EpiMessage}
    (thrown : (do
      let owner ← ei2ErlPid pid
      let message ← ErlangMessage.create ei fuel buffer
      return make owner message : Call EpiMessage) = .throws error) :
    error.thrownClass.isA .epiUnknownMessageException = false := by
  rcases bind_eq_throws.mp thrown with first | ⟨owner, -, rest⟩
  · exact ei2ErlPid_not_unknown first
  · rcases bind_eq_throws.mp rest with second | ⟨message, -, made⟩
    · have quiet := create_quiet ei fuel buffer
      rw [second] at quiet
      exact quiet.elim
    · cases made

theorem unknown_listed {error : EpiException} :
    [ExceptionClass.epiUnknownMessageException].any error.thrownClass.isA = true ↔
      error.thrownClass.isA .epiUnknownMessageException = true := by
  simp

/-- What is not declared does not come out. -/
theorem not_thrown {call : Call EpiMessage}
    (undeclared : ∀ error, call = .throws error →
      error.thrownClass.isA .epiUnknownMessageException = false) :
    ¬ ∃ error, Call.throwsOnly [.epiUnknownMessageException] call = .throws error := by
  rintro ⟨error, thrown⟩
  obtain ⟨inner, listed⟩ := Call.throwsOnly_eq_throws.mp thrown
  rw [unknown_listed, undeclared error inner] at listed
  exact Bool.false_ne_true listed

/-- An exit message fails with its reason. -/
theorem exit_throws {ei : Ei} {fuel : Nat} {msg : ErlangMsg} {buffer : InputBuffer} :
    (∃ error, Call.throwsOnly [.epiUnknownMessageException] (do
        let reason ← exitReason ei fuel buffer
        let sender ← ei2ErlPid msg.fromPid
        let recipient ← ei2ErlPid msg.toPid
        return EpiMessage.exitMessage sender recipient reason : Call EpiMessage) = .throws error) ↔
      ∃ error, exitReason ei fuel buffer = .throws error := by
  constructor
  · rintro ⟨error, thrown⟩
    obtain ⟨inner, listed⟩ := Call.throwsOnly_eq_throws.mp thrown
    rcases bind_eq_throws.mp inner with first | ⟨reason, -, rest⟩
    · exact ⟨error, first⟩
    · rw [unknown_listed, pids_not_unknown rest] at listed
      exact absurd listed Bool.false_ne_true
  · intro refused
    rcases exitReason_throws.mp refused with ⟨error, read⟩ | ⟨term, read, other⟩
    · exact ⟨_, by rw [exitReason_of_throws read]; rfl⟩
    · exact ⟨_, by rw [exitReason_of_other read other]; rfl⟩

/-- The conversion throws exactly where no message can be made. -/
theorem toMessage_throws {ei : Ei} {fuel : Nat} {msg : ErlangMsg} {buffer : InputBuffer} :
    (∃ error, toMessage ei fuel msg buffer = .throws error) ↔
      Unconvertible ei fuel msg buffer := by
  unfold toMessage Unconvertible
  cases kind : msg.msgtype with
  | other code => exact ⟨fun _ => trivial, fun _ => ⟨_, rfl⟩⟩
  | erlExit => exact exit_throws.trans exitReason_throws
  | erlExit2 => exact exit_throws.trans exitReason_throws
  | erlSend => exact iff_of_false (not_thrown fun _ thrown => create_not_unknown thrown) id
  | erlRegSend => exact iff_of_false (not_thrown fun _ thrown => create_not_unknown thrown) id
  | erlLink => exact iff_of_false (not_thrown fun _ thrown => pids_not_unknown thrown) id
  | erlUnlink => exact iff_of_false (not_thrown fun _ thrown => pids_not_unknown thrown) id

end Throws

section Cookie

variable {platform : Platform} {ei : Ei} {fuel : Nat} {mCookie : Bytes} {msg : ErlangMsg}
  {buffer : EIInputBuffer}

/-- A conversion makes no error message. -/
theorem toMessage_not_error {source : InputBuffer} {error : EpiException} :
    toMessage ei fuel msg source ≠ .returns (.errorMessage error) := by
  intro made
  have inner := Call.throwsOnly_eq_returns.mp made
  have pids : ∀ {make : ErlPid → ErlPid → EpiMessage}
      (_ : ∀ sender recipient, make sender recipient ≠ .errorMessage error),
      (do
        let sender ← ei2ErlPid msg.fromPid
        let recipient ← ei2ErlPid msg.toPid
        return make sender recipient : Call EpiMessage) ≠ .returns (.errorMessage error) := by
    intro make other same
    obtain ⟨sender, -, rest⟩ := Outcome.bind_eq_returns.mp same
    obtain ⟨recipient, -, last⟩ := Outcome.bind_eq_returns.mp rest
    exact other sender recipient (Outcome.returns.inj last)
  cases kind : msg.msgtype with
  | other code =>
      rw [kind] at inner
      cases inner
  | erlSend =>
      simp only [kind] at inner
      obtain ⟨recipient, -, rest⟩ := Outcome.bind_eq_returns.mp inner
      obtain ⟨message, -, last⟩ := Outcome.bind_eq_returns.mp rest
      cases last
  | erlRegSend =>
      simp only [kind] at inner
      obtain ⟨sender, -, rest⟩ := Outcome.bind_eq_returns.mp inner
      obtain ⟨message, -, last⟩ := Outcome.bind_eq_returns.mp rest
      cases last
  | erlExit =>
      simp only [kind] at inner
      obtain ⟨reason, -, rest⟩ := Outcome.bind_eq_returns.mp inner
      exact pids (fun _ _ => EpiMessage.noConfusion) rest
  | erlExit2 =>
      simp only [kind] at inner
      obtain ⟨reason, -, rest⟩ := Outcome.bind_eq_returns.mp inner
      exact pids (fun _ _ => EpiMessage.noConfusion) rest
  | erlLink =>
      simp only [kind] at inner
      exact pids (fun _ _ => EpiMessage.noConfusion) inner
  | erlUnlink =>
      simp only [kind] at inner
      exact pids (fun _ _ => EpiMessage.noConfusion) inner

/-- What the pass of a message delivers does not depend on the cookie. -/
theorem pass_message (acceptor : EIMessageAcceptor) :
    (EIMessageAcceptor.pass platform ei fuel mCookie (.erlMsg msg buffer) acceptor).1 =
      match toMessage ei fuel msg (.eiInputBuffer buffer) with
      | .returns message => .returns [message]
      | .throws error => .returns [.errorMessage (.connection error.mMsg)]
      | .aborts => .aborts
      | .diverges => .diverges := by
  obtain ⟨checked, ran⟩ : ∃ checked,
      EIMessageAcceptor.checkCookie mCookie msg acceptor = (.returns (), checked) := by
    unfold EIMessageAcceptor.checkCookie
    split
    · exact ⟨_, rfl⟩
    · exact ⟨_, rfl⟩
  have heard : platform.ignores (.erlMsg msg buffer) = false := rfl
  rw [EIMessageAcceptor.pass, heard, if_neg Bool.false_ne_true, Effect.bind_of_returns ran]
  cases outcome : toMessage ei fuel msg (.eiInputBuffer buffer) with
  | throws error =>
      have unknown := unknown_listed.mp (Call.throwsOnly_eq_throws.mp outcome).2
      have caught : error.thrownClass.isA .epiConnectionException = true := by
        cases thrown : error.thrownClass with
        | epiUnknownMessageException => rfl
        | _ =>
            rw [thrown] at unknown
            cases unknown
      have run : EIMessageAcceptor.convert ei fuel msg buffer checked = (.returns (),
          { checked with msgResult := some (.errorMessage (.connection error.mMsg)) }) := by
        rw [EIMessageAcceptor.convert, outcome, Call.catching_throws _ caught]
        rfl
      rw [Effect.bind_of_returns run]
      rfl
  | _ =>
      rw [EIMessageAcceptor.convert, outcome]
      rfl

/-- The pass of a message delivers one error exactly where no message can be made of it. -/
theorem pass_refuses (acceptor : EIMessageAcceptor) :
    (∃ error, (EIMessageAcceptor.pass platform ei fuel mCookie (.erlMsg msg buffer) acceptor).1 =
        .returns [.errorMessage error]) ↔
      Unconvertible ei fuel msg (.eiInputBuffer buffer) := by
  rw [pass_message, ← toMessage_throws]
  cases outcome : toMessage ei fuel msg (.eiInputBuffer buffer) with
  | returns message =>
      constructor
      · rintro ⟨error, same⟩
        obtain rfl : message = .errorMessage error := by simpa using same
        exact absurd outcome toMessage_not_error
      · rintro ⟨error, thrown⟩
        cases thrown
  | throws error => exact ⟨fun _ => ⟨error, rfl⟩, fun _ => ⟨_, rfl⟩⟩
  | aborts => simp
  | diverges => simp

/-- A message with another cookie was answered with one error. -/
def Enforced (mCookie : Bytes) (event : AcceptorEvent) : Prop :=
  ∀ msg buffer, event.result = .erlMsg msg buffer → msg.cookie ≠ mCookie →
    ∃ error, event.delivered = [.errorMessage error]

/-- No message can be made of a message with another cookie. -/
def Harmless (ei : Ei) (fuel : Nat) (mCookie : Bytes) (event : AcceptorEvent) : Prop :=
  ∀ msg buffer, event.result = .erlMsg msg buffer → msg.cookie ≠ mCookie →
    Unconvertible ei fuel msg (.eiInputBuffer buffer)

theorem enforced_step {before after : EIMessageAcceptor} {event : AcceptorEvent}
    (taken : AcceptorStep platform ei fuel mCookie before event after) :
    Enforced mCookie event ↔ Harmless ei fuel mCookie event := by
  have answered : ∀ msg buffer, event.result = .erlMsg msg buffer →
      ((∃ error, event.delivered = [.errorMessage error]) ↔
        Unconvertible ei fuel msg (.eiInputBuffer buffer)) := by
    intro msg buffer received
    rw [← @pass_refuses platform ei fuel mCookie msg buffer before]
    cases taken with
    | @passes _ _ result delivered running ran =>
        obtain rfl : result = .erlMsg msg buffer := received
        rw [ran]
        simp
    | @crashes _ _ result running crashed ended =>
        obtain rfl : result = .erlMsg msg buffer := received
        constructor
        · rintro ⟨error, same⟩
          cases same
        · rintro ⟨error, ran⟩
          exact (crashed _ _ (Prod.ext ran rfl)).elim
  constructor
  · intro enforced msg buffer received differs
    exact (answered msg buffer received).mp (enforced msg buffer received differs)
  · intro harmless msg buffer received differs
    exact (answered msg buffer received).mpr (harmless msg buffer received differs)

/-- In every run of the acceptor the cookie is enforced exactly where no message with another cookie
can be converted. -/
theorem cookie_enforced_iff {events : List AcceptorEvent} {acceptor : EIMessageAcceptor}
    (run : Run EIMessageAcceptor.Started (AcceptorStep platform ei fuel mCookie) events acceptor) :
    (∀ event ∈ events, Enforced mCookie event) ↔
      ∀ event ∈ events, Harmless ei fuel mCookie event := by
  have each := run.forall_events fun _ _ _ taken => enforced_step taken
  exact forall₂_congr each

end Cookie

/-- Some error numbers. -/
def samplePlatform : Platform where
  useBoost := true
  eTimedOut := 110
  eAgain := 11
  eIO := 5
  strerror _ := text "error"

/-- A message with the cookie `guess`. -/
def guessedMsg (msgtype : MessageType) : ErlangMsg where
  msgtype := msgtype
  fromPid := ⟨text "b@c", 1, 0, 0⟩
  toPid := ⟨text "a@b", 1, 0, 0⟩
  toname := []
  cookie := text "guess"

/-- A buffer that holds the number 7. -/
def numberBuffer : EIInputBuffer := ⟨[131, 97, 7], 1⟩

theorem startedRun (mCookie : Bytes) :
    Run EIMessageAcceptor.Started (AcceptorStep samplePlatform externalFormat 5 mCookie) []
      ⟨false, none⟩ :=
  .start rfl

/-- A refused message and its answer. -/
def refusedEvent : AcceptorEvent where
  result := .erlMsg (guessedMsg (.other 99)) numberBuffer
  delivered := [.errorMessage (.connection (text "Unknown message type received"))]

theorem cookie_enforced_iff_unknown : Enforced (text "secret") refusedEvent := by
  have run : Run EIMessageAcceptor.Started
      (AcceptorStep samplePlatform externalFormat 5 (text "secret")) [refusedEvent] _ :=
    .step (startedRun (text "secret")) (.passes rfl rfl)
  apply (cookie_enforced_iff run).mpr ?_ refusedEvent List.mem_cons_self
  intro event member msg buffer received _
  obtain rfl := List.mem_singleton.mp member
  cases received
  trivial

/-- A message with another cookie reaches the receiver like any other one. -/
theorem guessed_message_delivered :
    ∃ (acceptor : EIMessageAcceptor) (message : ErlangMessage) (mRecipient : ErlPid),
      Run EIMessageAcceptor.Started
        (AcceptorStep samplePlatform externalFormat 5 (text "secret"))
        [⟨.erlMsg (guessedMsg .erlSend) numberBuffer, [.sendMessage message mRecipient]⟩]
        acceptor ∧
      ¬ Enforced (text "secret")
        ⟨.erlMsg (guessedMsg .erlSend) numberBuffer, [.sendMessage message mRecipient]⟩ := by
  refine ⟨_, _, _, .step (startedRun (text "secret")) (.passes rfl rfl), ?_⟩
  intro enforced
  obtain ⟨error, same⟩ := enforced _ _ rfl (by decide)
  cases same

end Epi.Node
