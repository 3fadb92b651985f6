import Epi.Node.Cookie
import Epi.Buffer.Progress

namespace Epi.Node

open Verification Epi.Type Epi.Buffer

/-- The buffer of a conversion. It is `held` as long as `_buffer` is its owner. -/
structure OwnedBuffer where
  buffer : InputBuffer
  held : Bool
  deletions : Nat

namespace OwnedBuffer

/-- `_buffer` takes the buffer of the caller. -/
def own (buffer : InputBuffer) : OwnedBuffer := ⟨buffer, true, 0⟩

/-- `_buffer.release()`. -/
def release : Method OwnedBuffer InputBuffer := fun owned =>
  (.returns owned.buffer, { owned with held := false })

def readTerm (ei : Ei) (fuel : Nat) : Method OwnedBuffer (Option ErlTerm) := fun owned =>
  let (outcome, after) := owned.buffer.readTerm ei fuel
  (outcome, { owned with buffer := after })

/-- The destructor of `_buffer`. -/
def leave (owned : OwnedBuffer) : OwnedBuffer :=
  if owned.held then { owned with held := false, deletions := owned.deletions + 1 } else owned

/-- The scope of `_buffer` ends, however the call comes back. -/
def inScope (call : Method OwnedBuffer EpiMessage) : Method OwnedBuffer EpiMessage := fun owned =>
  let (outcome, after) := call owned
  (outcome, after.leave)

end OwnedBuffer

/-- The reason of an exit message, read from the buffer of the conversion. -/
def readReason (ei : Ei) (fuel : Nat) : Method OwnedBuffer (Option AtomText) := do
  let t ← Effect.mapOutcome (Call.catching .epiDecodeException
    fun _ => .throws (.unknownMessage "Error decoding reason atom")) (OwnedBuffer.readTerm ei fuel)
  match t with
  | none => Effect.lift .aborts
  | some (.simple (.erlAtom mReason)) => return mReason
  | some _ => Effect.fail (.unknownMessage "Error decoding reason atom")

/-- The switch of `ToMessage`. -/
def convertMessage (ei : Ei) (fuel : Nat) (msg : ErlangMsg) : Method OwnedBuffer EpiMessage :=
  match msg.msgtype with
  | .erlSend => do
      let recipient ← Effect.lift (ei2ErlPid msg.toPid)
      let buffer ← OwnedBuffer.release
      let message ← Effect.lift (ErlangMessage.create ei fuel buffer)
      return .sendMessage message recipient
  | .erlRegSend => do
      let sender ← Effect.lift (ei2ErlPid msg.fromPid)
      let buffer ← OwnedBuffer.release
      let message ← Effect.lift (ErlangMessage.create ei fuel buffer)
      return .regSendMessage message sender msg.toname
  | .erlExit | .erlExit2 => do
      let reason ← readReason ei fuel
      let sender ← Effect.lift (ei2ErlPid msg.fromPid)
      let recipient ← Effect.lift (ei2ErlPid msg.toPid)
      return .exitMessage sender recipient reason
  | .erlLink => do
      let sender ← Effect.lift (ei2ErlPid msg.fromPid)
      let recipient ← Effect.lift (ei2ErlPid msg.toPid)
      return .linkMessage sender recipient
  | .erlUnlink => do
      let sender ← Effect.lift (ei2ErlPid msg.fromPid)
      let recipient ← Effect.lift (ei2ErlPid msg.toPid)
      return .unLinkMessage sender recipient
  | .other _ => Effect.fail (.unknownMessage "Unknown message type received")

/-- `ToMessage` with the owner of its buffer. -/
def toMessageOwned (ei : Ei) (fuel : Nat) (msg : ErlangMsg) : Method OwnedBuffer EpiMessage :=
  Method.throwsOnly [.epiUnknownMessageException] (OwnedBuffer.inScope (convertMessage ei fuel msg))

/-- The message has the payload of the buffer. -/
def MessageType.sends : MessageType → Bool
  | .erlSend | .erlRegSend => true
  | _ => false

/-- The message is of the kind that the type gives, with the converted pids, and with the buffer or
the reason in it. -/
def Carries (ei : Ei) (fuel : Nat) (msg : ErlangMsg) (buffer : InputBuffer) : EpiMessage → Prop
  | .sendMessage message mRecipient => msg.msgtype = .erlSend ∧
      ei2ErlPid msg.toPid = .returns mRecipient ∧
      ErlangMessage.create ei fuel buffer = .returns message
  | .regSendMessage message mSender mRecipient => msg.msgtype = .erlRegSend ∧
      ei2ErlPid msg.fromPid = .returns mSender ∧ mRecipient = msg.toname ∧
      ErlangMessage.create ei fuel buffer = .returns message
  | .linkMessage mSender mRecipient => msg.msgtype = .erlLink ∧
      ei2ErlPid msg.fromPid = .returns mSender ∧ ei2ErlPid msg.toPid = .returns mRecipient
  | .unLinkMessage mSender mRecipient => msg.msgtype = .erlUnlink ∧
      ei2ErlPid msg.fromPid = .returns mSender ∧ ei2ErlPid msg.toPid = .returns mRecipient
  | .exitMessage mSender mRecipient mReason => (msg.msgtype = .erlExit ∨ msg.msgtype = .erlExit2) ∧
      ei2ErlPid msg.fromPid = .returns mSender ∧ ei2ErlPid msg.toPid = .returns mRecipient ∧
      (buffer.readTerm ei fuel).1 = .returns (some (.simple (.erlAtom mReason)))
  | .errorMessage _ => False

/-- The conversion gives a message or throws `EpiUnknownMessageException`, and its buffer is moved
into the message of a send, or destroyed once. -/
structure Converts (ei : Ei) (fuel : Nat) (msg : ErlangMsg) (buffer : InputBuffer)
    (called : Call EpiMessage × OwnedBuffer) : Prop where
  outcome : (∃ message, called.1 = .returns message ∧ Carries ei fuel msg buffer message) ∨
    ∃ error, called.1 = .throws error ∧ error.thrownClass = .epiUnknownMessageException
  released : called.2.held = false
  deletions : called.2.deletions = if msg.msgtype.sends then 0 else 1

/-- A node name that the constructor of a pid takes. -/
def ValidNode (node : Bytes) : Prop := 0 < node.length ∧ node.length ≤ maxNodeLength

instance (node : Bytes) : Decidable (ValidNode node) := inferInstanceAs (Decidable (_ ∧ _))

/-- No term is left in the buffer. -/
def InputBuffer.AtEnd : InputBuffer → Prop
  | .eiInputBuffer buffer => buffer.mDecodeIndex = buffer.buff.length
  | .plainBuffer buffer => buffer.mDecodeIndex = buffer.mTermList.length

/-- The index is in the buffer, and the fuel is enough for the rest. -/
def InputBuffer.Readable (fuel : Nat) : InputBuffer → Prop
  | .eiInputBuffer buffer => buffer.mDecodeIndex ≤ buffer.buff.length ∧
      buffer.buff.length < buffer.mDecodeIndex + fuel
  | .plainBuffer buffer => buffer.mDecodeIndex ≤ buffer.mTermList.length

/-- The pids that the message needs have valid nodes, and an exit message has a payload. The pids of
an exit message are needed when its payload is an atom. -/
def Convertible (ei : Ei) (fuel : Nat) (msg : ErlangMsg) (buffer : InputBuffer) : Prop :=
  match msg.msgtype with
  | .erlSend => ValidNode msg.toPid.node
  | .erlRegSend => ValidNode msg.fromPid.node
  | .erlLink | .erlUnlink => ValidNode msg.fromPid.node ∧ ValidNode msg.toPid.node
  | .erlExit | .erlExit2 => ¬ buffer.AtEnd ∧
      ∀ mReason, (buffer.readTerm ei fuel).1 = .returns (some (.simple (.erlAtom mReason))) →
        ValidNode msg.fromPid.node ∧ ValidNode msg.toPid.node
  | .other _ => True

section Conversion

variable {ei : Ei} {fuel : Nat} {msg : ErlangMsg} {buffer : InputBuffer}

/-- A pid is converted exactly when its node is valid. -/
theorem ei2ErlPid_cases (pid : ErlangPid) :
    (ValidNode pid.node ∧ ∃ converted, ei2ErlPid pid = .returns converted) ∨
    (¬ ValidNode pid.node ∧ ∃ error, ei2ErlPid pid = .throws error ∧
      error.thrownClass = .epiBadArgument) := by
  by_cases valid : ValidNode pid.node
  · refine .inl ⟨valid, ?_⟩
    have checked := NodeName.check_text ⟨pid.node, valid.1, valid.2⟩
    rw [ei2ErlPid, ErlPid.init, checked]
    exact ⟨_, rfl⟩
  · refine .inr ⟨valid, ?_⟩
    have failed : ∃ error, ei2ErlPid pid = .throws error := by
      rw [ei2ErlPid, ErlPid.init, NodeName.check]
      split
      · exact ⟨_, rfl⟩
      · split
        · exact ⟨_, rfl⟩
        · rename_i long empty
          exact absurd ⟨Nat.pos_of_ne_zero empty, Nat.le_of_not_gt long⟩ valid
    obtain ⟨error, thrown⟩ := failed
    exact ⟨error, thrown, ei2ErlPid_throws thrown⟩

/-- A read comes back, and it gives nothing exactly at the end. -/
theorem readTerm_cases (forward : ei.Forward) (readable : buffer.Readable fuel) :
    (∃ error, (buffer.readTerm ei fuel).1 = .throws error ∧ ¬ buffer.AtEnd) ∨
    ((buffer.readTerm ei fuel).1 = .returns none ∧ buffer.AtEnd) ∨
    ∃ term, (buffer.readTerm ei fuel).1 = .returns (some term) ∧ ¬ buffer.AtEnd := by
  cases buffer with
  | eiInputBuffer buffer =>
      obtain ⟨inside, few⟩ := readable
      have settled := (readTerm_progress forward inside few).1
      cases fuel with
      | zero => exact absurd few (by omega)
      | succ fuel =>
          by_cases ended : buffer.mDecodeIndex = buffer.buff.length
          · refine .inr (.inl ⟨?_, ended⟩)
            simp only [InputBuffer.readTerm, EIInputBuffer.readTerm, Method.throwsOnly,
              Effect.mapOutcome_run, EIInputBuffer.readNext, if_pos ended, Call.throwsOnly_returns]
          · cases read : (EIInputBuffer.readTerm ei (fuel + 1) buffer).1 with
            | throws error => exact .inl ⟨error, read, ended⟩
            | returns found =>
                cases found with
                | some term => exact .inr (.inr ⟨term, read, ended⟩)
                | none =>
                    have body := Call.throwsOnly_eq_returns.mp read
                    simp only [EIInputBuffer.readNext, if_neg ended] at body
                    cases typed : ei.getType buffer.buff buffer.mDecodeIndex with
                    | none =>
                        rw [typed] at body
                        cases body
                    | some item =>
                        simp only [typed] at body
                        obtain ⟨term, -, made⟩ := Outcome.bind_eq_returns.mp body
                        cases made
            | aborts =>
                rw [read] at settled
                exact settled.elim
            | diverges =>
                rw [read] at settled
                exact settled.elim
  | plainBuffer buffer =>
      by_cases ended : buffer.mDecodeIndex = buffer.mTermList.length
      · refine .inr (.inl ⟨?_, ended⟩)
        simp only [InputBuffer.readTerm, PlainBuffer.readTerm, if_pos ended]
      · have inside : buffer.mDecodeIndex < buffer.mTermList.length :=
          Nat.lt_of_le_of_ne readable ended
        refine .inr (.inr ⟨buffer.mTermList[buffer.mDecodeIndex], ?_, ended⟩)
        simp only [InputBuffer.readTerm, PlainBuffer.readTerm, if_neg ended,
          List.getElem?_eq_getElem inside]

/-- The construction of a message comes back. -/
theorem message_created (forward : ei.Forward) (readable : buffer.Readable fuel) :
    ∃ message, ErlangMessage.create ei fuel buffer = .returns message := by
  rcases read : buffer.readTerm ei fuel with ⟨outcome, after⟩
  have decoded : ErlangMessage.getMsg ei fuel ⟨buffer, none⟩ =
      (Call.throwsOnly [.epiDecodeException] (ErlangMessage.decodeMsg ei fuel ⟨buffer, none⟩).1,
        (ErlangMessage.decodeMsg ei fuel ⟨buffer, none⟩).2) := rfl
  have cases := readTerm_cases forward readable
  rw [read] at cases
  rw [ErlangMessage.create, decoded, ErlangMessage.decodeMsg, read]
  rcases cases with ⟨error, rfl, -⟩ | ⟨rfl, -⟩ | ⟨term, rfl, -⟩
  · have thrown : (buffer.readTerm ei fuel).1 = .throws error := by rw [read]
    have decoding := readTerm_throws thrown
    simp only [decoding, if_true]
    exact ⟨_, rfl⟩
  · exact ⟨_, rfl⟩
  · exact ⟨_, rfl⟩

/-- What the conversion of two pids gives. -/
theorem pids_cases (make : ErlPid → ErlPid → EpiMessage) (owned : OwnedBuffer) :
    (¬ (ValidNode msg.fromPid.node ∧ ValidNode msg.toPid.node) ∧ ∃ error,
      (do
        let sender ← Effect.lift (ei2ErlPid msg.fromPid)
        let recipient ← Effect.lift (ei2ErlPid msg.toPid)
        return make sender recipient : Method OwnedBuffer EpiMessage) owned =
          (.throws error, owned) ∧ error.thrownClass = .epiBadArgument) ∨
    (ValidNode msg.fromPid.node ∧ ValidNode msg.toPid.node) ∧ ∃ sender recipient,
      ei2ErlPid msg.fromPid = .returns sender ∧ ei2ErlPid msg.toPid = .returns recipient ∧
      (do
        let sender ← Effect.lift (ei2ErlPid msg.fromPid)
        let recipient ← Effect.lift (ei2ErlPid msg.toPid)
        return make sender recipient : Method OwnedBuffer EpiMessage) owned =
          (.returns (make sender recipient), owned) := by
  rcases ei2ErlPid_cases msg.fromPid with ⟨from_, sender, made⟩ | ⟨bad, error, thrown, badClass⟩
  · rcases ei2ErlPid_cases msg.toPid with ⟨to_, recipient, made'⟩ | ⟨bad, error, thrown, badClass⟩
    · exact .inr ⟨⟨from_, to_⟩, sender, recipient, made, made', by simp [made, made', Effect.bind_run]⟩
    · exact .inl ⟨fun valid => bad valid.2, error, by simp [made, thrown, Effect.bind_run], badClass⟩
  · exact .inl ⟨fun valid => bad valid.1, error, by simp [thrown, Effect.bind_run], badClass⟩

@[simp] theorem leave_held (owned : OwnedBuffer) : owned.leave.held = false := by
  unfold OwnedBuffer.leave
  split
  · rfl
  · simpa using ‹¬ owned.held = true›

/-- The specification and the destructor come after the switch. -/
theorem toMessageOwned_run (owned : OwnedBuffer) :
    toMessageOwned ei fuel msg owned =
      (Call.throwsOnly [.epiUnknownMessageException] (convertMessage ei fuel msg owned).1,
        (convertMessage ei fuel msg owned).2.leave) := rfl

theorem converts_of_returns {message : EpiMessage} {after : OwnedBuffer}
    (ran : convertMessage ei fuel msg (.own buffer) = (.returns message, after))
    (carries : Carries ei fuel msg buffer message)
    (deletions : after.leave.deletions = if msg.msgtype.sends then 0 else 1) :
    Converts ei fuel msg buffer (toMessageOwned ei fuel msg (.own buffer)) := by
  rw [toMessageOwned_run, ran]
  exact ⟨.inl ⟨message, rfl, carries⟩, leave_held after, deletions⟩

theorem converts_of_unknown {literal : String} {after : OwnedBuffer}
    (ran : convertMessage ei fuel msg (.own buffer) = (.throws (.unknownMessage literal), after))
    (deletions : after.leave.deletions = if msg.msgtype.sends then 0 else 1) :
    Converts ei fuel msg buffer (toMessageOwned ei fuel msg (.own buffer)) := by
  rw [toMessageOwned_run, ran]
  exact ⟨.inr ⟨_, rfl, rfl⟩, leave_held after, deletions⟩

/-- A bad argument reaches the specification, and nothing comes out. -/
theorem not_converts_of_bad {error : EpiException} {after : OwnedBuffer}
    (ran : convertMessage ei fuel msg (.own buffer) = (.throws error, after))
    (bad : error.thrownClass = .epiBadArgument) :
    ¬ Converts ei fuel msg buffer (toMessageOwned ei fuel msg (.own buffer)) := by
  have ended : (toMessageOwned ei fuel msg (.own buffer)).1 = .aborts := by
    rw [toMessageOwned_run, ran]
    simp [Call.throwsOnly, Outcome.declares_throws, bad, ExceptionClass.isA, ExceptionClass.base]
  rintro ⟨⟨message, returned, -⟩ | ⟨error, thrown, -⟩, -, -⟩
  · rw [ended] at returned
    cases returned
  · rw [ended] at thrown
    cases thrown

theorem not_converts_of_aborts {after : OwnedBuffer}
    (ran : convertMessage ei fuel msg (.own buffer) = (.aborts, after)) :
    ¬ Converts ei fuel msg buffer (toMessageOwned ei fuel msg (.own buffer)) := by
  rw [toMessageOwned_run, ran]
  rintro ⟨⟨message, returned, -⟩ | ⟨error, thrown, -⟩, -, -⟩
  · cases returned
  · cases thrown

/-- A message of two pids is converted exactly when both nodes are valid. -/
theorem pids_convert_iff {make : ErlPid → ErlPid → EpiMessage} {owned : OwnedBuffer}
    (keeps : owned.held = true ∧ owned.deletions = 0) (kind : msg.msgtype.sends = false)
    (switch : convertMessage ei fuel msg (.own buffer) = (do
      let sender ← Effect.lift (ei2ErlPid msg.fromPid)
      let recipient ← Effect.lift (ei2ErlPid msg.toPid)
      return make sender recipient : Method OwnedBuffer EpiMessage) owned)
    (carries : ∀ sender recipient, ei2ErlPid msg.fromPid = .returns sender →
      ei2ErlPid msg.toPid = .returns recipient →
        Carries ei fuel msg buffer (make sender recipient)) :
    Converts ei fuel msg buffer (toMessageOwned ei fuel msg (.own buffer)) ↔
      ValidNode msg.fromPid.node ∧ ValidNode msg.toPid.node := by
  have deleted : owned.leave.deletions = if msg.msgtype.sends then 0 else 1 := by
    rw [OwnedBuffer.leave, keeps.1, if_pos rfl, kind, keeps.2]
    rfl
  rcases @pids_cases msg make owned with ⟨bad, error, ran, badClass⟩ | ⟨valid, sender, recipient, first,
    second, ran⟩
  · exact iff_of_false (not_converts_of_bad (switch.trans ran) badClass) bad
  · exact iff_of_true (converts_of_returns (switch.trans ran) (carries _ _ first second) deleted) valid

/-- A message with a payload is converted exactly when the node of its pid is valid. -/
theorem payload_convert_iff (forward : ei.Forward) (readable : buffer.Readable fuel)
    {pid : ErlangPid} {make : ErlPid → ErlangMessage → EpiMessage}
    (kind : msg.msgtype.sends = true)
    (switch : convertMessage ei fuel msg = (do
      let owner ← Effect.lift (ei2ErlPid pid)
      let buffer ← OwnedBuffer.release
      let message ← Effect.lift (ErlangMessage.create ei fuel buffer)
      return make owner message))
    (carries : ∀ owner message, ei2ErlPid pid = .returns owner →
      ErlangMessage.create ei fuel buffer = .returns message →
        Carries ei fuel msg buffer (make owner message)) :
    Converts ei fuel msg buffer (toMessageOwned ei fuel msg (.own buffer)) ↔ ValidNode pid.node := by
  rcases ei2ErlPid_cases pid with ⟨valid, owner, made⟩ | ⟨bad, error, thrown, badClass⟩
  · obtain ⟨message, created⟩ := message_created forward readable
    have ran : convertMessage ei fuel msg (.own buffer) =
        (.returns (make owner message), ⟨buffer, false, 0⟩) := by
      simp [switch, made, Effect.bind_run, OwnedBuffer.release, OwnedBuffer.own, created]
    refine iff_of_true (converts_of_returns ran (carries owner message made created) ?_) valid
    rw [kind]
    rfl
  · have ran : convertMessage ei fuel msg (.own buffer) = (.throws error, .own buffer) := by
      simp [switch, thrown, Effect.bind_run]
    exact iff_of_false (not_converts_of_bad ran badClass) bad

/-- The reason is the one of the conversion without an owner, and the buffer stays with `_buffer`. -/
theorem readReason_eq :
    readReason ei fuel (.own buffer) =
      (exitReason ei fuel buffer, ⟨(buffer.readTerm ei fuel).2, true, 0⟩) := by
  rcases ran : buffer.readTerm ei fuel with ⟨outcome, after⟩
  have read : Effect.mapOutcome (Call.catching .epiDecodeException
      fun _ => .throws (.unknownMessage "Error decoding reason atom"))
      (OwnedBuffer.readTerm ei fuel) (.own buffer) =
      (Call.catching .epiDecodeException
        (fun _ => .throws (.unknownMessage "Error decoding reason atom")) outcome,
          ⟨after, true, 0⟩) := by
    rw [Effect.mapOutcome_run, OwnedBuffer.readTerm, OwnedBuffer.own, ran]
  rw [readReason, exitReason, Effect.bind_run, read, ran]
  cases Call.catching .epiDecodeException
      (fun _ => .throws (.unknownMessage "Error decoding reason atom")) outcome with
  | returns found =>
      cases found with
      | none => rfl
      | some term =>
          cases term with
          | simple value => cases value <;> rfl
          | _ => rfl
  | _ => rfl

/-- The exit message is what two pids make once the reason is read. -/
theorem exit_switch (exit : msg.msgtype = .erlExit ∨ msg.msgtype = .erlExit2) :
    convertMessage ei fuel msg (.own buffer) = (do
      let reason ← readReason ei fuel
      let sender ← Effect.lift (ei2ErlPid msg.fromPid)
      let recipient ← Effect.lift (ei2ErlPid msg.toPid)
      return .exitMessage sender recipient reason : Method OwnedBuffer EpiMessage) (.own buffer) := by
  unfold convertMessage
  rcases exit with same | same
  · rw [same]
  · rw [same]

/-- An exit message is converted exactly when there is a payload, and both nodes are valid if it is an
atom. -/
theorem exit_convert_iff (forward : ei.Forward) (readable : buffer.Readable fuel)
    (exit : msg.msgtype = .erlExit ∨ msg.msgtype = .erlExit2) :
    Converts ei fuel msg buffer (toMessageOwned ei fuel msg (.own buffer)) ↔
      ¬ buffer.AtEnd ∧
        ∀ mReason, (buffer.readTerm ei fuel).1 = .returns (some (.simple (.erlAtom mReason))) →
          ValidNode msg.fromPid.node ∧ ValidNode msg.toPid.node := by
  have switch := @exit_switch ei fuel msg buffer exit
  have kind : msg.msgtype.sends = false := by
    rcases exit with same | same
    · rw [same]
      rfl
    · rw [same]
      rfl
  rw [Effect.bind_run, readReason_eq] at switch
  have refused : exitReason ei fuel buffer = .throws (.unknownMessage "Error decoding reason atom") →
      Converts ei fuel msg buffer (toMessageOwned ei fuel msg (.own buffer)) := by
    intro thrown
    rw [thrown] at switch
    refine converts_of_unknown switch ?_
    rw [kind]
    rfl
  rcases readTerm_cases forward readable with ⟨error, read, some⟩ | ⟨read, ended⟩ | ⟨term, read, some⟩
  · refine iff_of_true (refused (exitReason_of_throws read)) ⟨some, ?_⟩
    intro mReason atom
    rw [read] at atom
    cases atom
  · have absent : exitReason ei fuel buffer = .aborts := by
      rw [exitReason, read]
      rfl
    rw [absent] at switch
    exact iff_of_false (not_converts_of_aborts switch) (fun some => some.1 ended)
  · cases kindOf : term.instanceOf .erlAtom with
    | false =>
        refine iff_of_true (refused (exitReason_of_other read kindOf)) ⟨some, ?_⟩
        intro mReason atom
        rw [read] at atom
        cases atom
        cases kindOf
    | true =>
        obtain ⟨mReason, rfl⟩ : ∃ mReason, term = .simple (.erlAtom mReason) := by
          cases term with
          | simple value =>
              cases value with
              | erlAtom mReason => exact ⟨mReason, rfl⟩
              | _ => cases kindOf
          | _ => cases kindOf
        have found : exitReason ei fuel buffer = .returns mReason := by
          rw [exitReason, read]
          rfl
        rw [found] at switch
        rw [pids_convert_iff ⟨rfl, rfl⟩ kind switch fun _ _ first second => ⟨exit, first, second, read⟩]
        constructor
        · exact fun valid => ⟨some, fun _ _ => valid⟩
        · exact fun valid => valid.2 mReason read

/-- The owner of the buffer does not change what comes out. -/
theorem toMessageOwned_outcome :
    (toMessageOwned ei fuel msg (.own buffer)).1 = toMessage ei fuel msg buffer := by
  have pids : ∀ (make : ErlPid → ErlPid → EpiMessage) (owned : OwnedBuffer),
      ((do
        let sender ← Effect.lift (ei2ErlPid msg.fromPid)
        let recipient ← Effect.lift (ei2ErlPid msg.toPid)
        return make sender recipient : Method OwnedBuffer EpiMessage) owned).1 = (do
      let sender ← ei2ErlPid msg.fromPid
      let recipient ← ei2ErlPid msg.toPid
      return make sender recipient) := by
    intro make owned
    rw [Effect.bind_run, Effect.lift_run]
    cases ei2ErlPid msg.fromPid with
    | returns sender =>
        simp only [Outcome.returns_bind, Effect.bind_run, Effect.lift_run]
        cases ei2ErlPid msg.toPid <;> rfl
    | _ => rfl
  have payload : ∀ (pid : ErlangPid) (make : ErlPid → ErlangMessage → EpiMessage),
      ((do
        let owner ← Effect.lift (ei2ErlPid pid)
        let buffer ← OwnedBuffer.release
        let message ← Effect.lift (ErlangMessage.create ei fuel buffer)
        return make owner message : Method OwnedBuffer EpiMessage) (.own buffer)).1 = (do
      let owner ← ei2ErlPid pid
      let message ← ErlangMessage.create ei fuel buffer
      return make owner message) := by
    intro pid make
    rw [Effect.bind_run, Effect.lift_run]
    cases ei2ErlPid pid with
    | returns owner =>
        simp only [Outcome.returns_bind, Effect.bind_run, OwnedBuffer.release, OwnedBuffer.own,
          Effect.lift_run]
        cases ErlangMessage.create ei fuel buffer <;> rfl
    | _ => rfl
  have exit : ((do
      let reason ← readReason ei fuel
      let sender ← Effect.lift (ei2ErlPid msg.fromPid)
      let recipient ← Effect.lift (ei2ErlPid msg.toPid)
      return .exitMessage sender recipient reason : Method OwnedBuffer EpiMessage)
        (.own buffer)).1 = (do
        let reason ← exitReason ei fuel buffer
        let sender ← ei2ErlPid msg.fromPid
        let recipient ← ei2ErlPid msg.toPid
        return .exitMessage sender recipient reason) := by
    rw [Effect.bind_run, readReason_eq]
    cases exitReason ei fuel buffer with
    | returns reason => exact pids (fun sender recipient => .exitMessage sender recipient reason) _
    | _ => rfl
  rw [toMessageOwned_run, toMessage]
  refine congrArg (Call.throwsOnly [.epiUnknownMessageException]) ?_
  rw [convertMessage]
  cases msg.msgtype with
  | erlSend => exact payload msg.toPid fun recipient message => .sendMessage message recipient
  | erlRegSend =>
      exact payload msg.fromPid fun sender message => .regSendMessage message sender msg.toname
  | erlExit => exact exit
  | erlExit2 => exact exit
  | erlLink => exact pids .linkMessage _
  | erlUnlink => exact pids .unLinkMessage _
  | other code => rfl

/-- The conversion is total exactly where the pids that it needs have valid nodes and an exit message
has a payload. -/
theorem converts_iff (forward : ei.Forward) (readable : buffer.Readable fuel) (msg : ErlangMsg) :
    Converts ei fuel msg buffer (toMessageOwned ei fuel msg (.own buffer)) ↔
      Convertible ei fuel msg buffer := by
  unfold Convertible
  cases kind : msg.msgtype with
  | erlSend =>
      refine payload_convert_iff forward readable (by rw [kind]; rfl)
        (by unfold convertMessage; rw [kind]) ?_
      exact fun _ _ made created => ⟨kind, made, created⟩
  | erlRegSend =>
      refine payload_convert_iff forward readable (by rw [kind]; rfl)
        (by unfold convertMessage; rw [kind]) ?_
      exact fun _ _ made created => ⟨kind, made, rfl, created⟩
  | erlLink =>
      refine pids_convert_iff ⟨rfl, rfl⟩ (by rw [kind]; rfl) (by unfold convertMessage; rw [kind]) ?_
      exact fun _ _ first second => ⟨kind, first, second⟩
  | erlUnlink =>
      refine pids_convert_iff ⟨rfl, rfl⟩ (by rw [kind]; rfl) (by unfold convertMessage; rw [kind]) ?_
      exact fun _ _ first second => ⟨kind, first, second⟩
  | erlExit => exact exit_convert_iff forward readable (.inl kind)
  | erlExit2 => exact exit_convert_iff forward readable (.inr kind)
  | other code =>
      have ran : convertMessage ei fuel msg (.own buffer) =
          (.throws (.unknownMessage "Unknown message type received"), .own buffer) := by
        unfold convertMessage
        rw [kind]
        rfl
      refine iff_of_true (converts_of_unknown ran ?_) trivial
      rw [kind]
      rfl

end Conversion

/-- A send is converted. -/
theorem converts_iff_send :
    Converts externalFormat 5 (guessedMsg .erlSend) (.eiInputBuffer numberBuffer)
        (toMessageOwned externalFormat 5 (guessedMsg .erlSend)
          (.own (.eiInputBuffer numberBuffer))) ↔
      Convertible externalFormat 5 (guessedMsg .erlSend) (.eiInputBuffer numberBuffer) :=
  converts_iff ExternalFormat.forward_externalFormat
    (show InputBuffer.Readable 5 (.eiInputBuffer numberBuffer) from ⟨by decide, by decide⟩) _

/-- A link whose sender has no node. -/
def namelessMsg : ErlangMsg := { guessedMsg .erlLink with fromPid := ⟨[], 1, 0, 0⟩ }

/-- A buffer with the version alone. -/
def emptyBuffer : InputBuffer := .eiInputBuffer ⟨[131], 1⟩

/-- An exit message without a payload and a link without a node end the process. -/
theorem conversion_aborts :
    (toMessageOwned externalFormat 5 (guessedMsg .erlExit) (.own emptyBuffer)).1 = .aborts ∧
    ¬ Converts externalFormat 5 (guessedMsg .erlExit) emptyBuffer
      (toMessageOwned externalFormat 5 (guessedMsg .erlExit) (.own emptyBuffer)) ∧
    (toMessageOwned externalFormat 5 namelessMsg (.own emptyBuffer)).1 = .aborts ∧
    ¬ Converts externalFormat 5 namelessMsg emptyBuffer
      (toMessageOwned externalFormat 5 namelessMsg (.own emptyBuffer)) := by
  have ended : ∀ msg, (toMessageOwned externalFormat 5 msg (.own emptyBuffer)).1 = .aborts →
      ¬ Converts externalFormat 5 msg emptyBuffer
        (toMessageOwned externalFormat 5 msg (.own emptyBuffer)) := by
    rintro msg aborts ⟨⟨message, returned, -⟩ | ⟨error, thrown, -⟩, -, -⟩
    · rw [aborts] at returned
      cases returned
    · rw [aborts] at thrown
      cases thrown
  exact ⟨rfl, ended _ rfl, rfl, ended _ rfl⟩

end Epi.Node
