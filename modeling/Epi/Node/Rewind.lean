import Epi.Buffer.EIBuffer
import Epi.Buffer.Progress
import Epi.Node.MailBox

namespace Epi.Node

open Verification Epi.Type Epi.Buffer Epi.Queue

/-- `MailBox::receiveBuf`. The message gives its buffer away, and without a message the call
waits. -/
def MailBox.receiveBuf : Method Receiving InputBuffer :=
  Method.throwsOnly [.epiConnectionException] do
    let state ← Effect.get
    match state.mQueue.tryGet with
    | (none, _) => Effect.lift .diverges
    | (some address, mQueue) => do
        Effect.set { state with mQueue := mQueue }
        match state.messages[address]? with
        | some (.sendMessage msg _) | some (.regSendMessage msg _ _) => return msg.mBuffer
        | some (.errorMessage mException) => Effect.fail (.connection mException.mMsg)
        | some _ => Effect.fail (.connection (text "Unknown messageType"))
        | none => Effect.lift .aborts

/-- The message carries this `ErlangMessage`. -/
def EpiMessage.Carries (message : EpiMessage) (msg : ErlangMessage) : Prop :=
  (∃ mRecipient, message = .sendMessage msg mRecipient) ∨
    ∃ mSender mRecipient, message = .regSendMessage msg mSender mRecipient

theorem receiveBuf_first {message : EpiMessage} {msg : ErlangMessage} (carries : message.Carries msg)
    {state : Receiving} {address : Nat} {rest : List Nat}
    (first : state.mQueue.mList = address :: rest)
    (held : state.messages[address]? = some message) :
    MailBox.receiveBuf state = (.returns msg.mBuffer, { state with mQueue := ⟨rest⟩ }) := by
  have taken : state.mQueue.tryGet = (some address, ⟨rest⟩) := GenericQueue.tryGet_some.mpr first
  rw [MailBox.receiveBuf, Method.throwsOnly, Effect.mapOutcome_run, Effect.bind_run, Effect.get_run]
  simp only [taken, Effect.bind_run, Effect.set_run, held]
  rcases carries with ⟨mRecipient, rfl⟩ | ⟨mSender, mRecipient, rfl⟩
  · rfl
  · rfl

/-- The message is what the decoding of its buffer leaves. -/
theorem ErlangMessage.create_returns {ei : Ei} {fuel : Nat} {buffer : InputBuffer}
    {msg : ErlangMessage} (built : create ei fuel buffer = .returns msg) :
    (getMsg ei fuel ⟨buffer, none⟩).2 = msg := by
  rcases ran : getMsg ei fuel ⟨buffer, none⟩ with ⟨outcome, after⟩
  unfold create at built
  rw [ran] at built
  cases outcome with
  | returns payload => exact Outcome.returns.inj built
  | throws error =>
      simp only [Outcome.throws_bind, Call.catching, Outcome.handle] at built
      split at built
      · exact Outcome.returns.inj built
      · cases built
  | aborts => cases built
  | diverges => cases built

/-- A read that does not decode resets its buffer. -/
theorem ErlangMessage.getMsg_undecodable {ei : Ei} {fuel : Nat} {buffer read : InputBuffer}
    {error : EpiException} (ran : buffer.readTerm ei fuel = (.throws error, read))
    (undecodable : Undecodable error) :
    getMsg ei fuel ⟨buffer, none⟩ = (.throws (.decode error.mMsg), ⟨read.resetIndex, none⟩) := by
  have caught : error.thrownClass.isA .epiDecodeException = true := undecodable
  rw [getMsg, Method.throwsOnly, Effect.mapOutcome_run, Effect.bind_run, Effect.get_run]
  simp only [decodeMsg, ran, caught, if_true]
  rfl

namespace InputBuffer

/-- The buffer after so many reads, whatever they came back with. -/
def afterReads (ei : Ei) (fuel : Nat) (buffer : InputBuffer) : Nat → InputBuffer
  | 0 => buffer
  | count + 1 => ((afterReads ei fuel buffer count).readTerm ei fuel).2

/-- What the next read gives. -/
def nextTerm (ei : Ei) (fuel : Nat) (buffer : InputBuffer) : Call (Option ErlTerm) :=
  (buffer.readTerm ei fuel).1

/-- The buffer stands where its constructor puts it. -/
def Fresh : InputBuffer → Prop
  | .eiInputBuffer buffer => buffer.mDecodeIndex ≤ buffer.buff.length
  | .plainBuffer buffer => buffer.mDecodeIndex = 0

/-- Fewer bytes are left than calls may nest. -/
def Shallow (fuel : Nat) : InputBuffer → Prop
  | .eiInputBuffer buffer => buffer.buff.length < buffer.mDecodeIndex + fuel
  | .plainBuffer _ => True

/-- The reset takes the buffer back to its start: for a read after any number of reads, for the
reads of a buffer that was handed over to a message and received, and for a message that did not
decode. -/
structure Rewinds (ei : Ei) (fuel : Nat) (buffer : InputBuffer) : Prop where
  again : ∀ count, ((buffer.afterReads ei fuel count).resetIndex).nextTerm ei fuel =
    buffer.nextTerm ei fuel
  whole : ∀ msg message state address rest, ErlangMessage.create ei fuel buffer = .returns msg →
    message.Carries msg → state.mQueue.mList = address :: rest →
    state.messages[address]? = some message →
      ∃ received, (MailBox.receiveBuf state).1 = .returns received ∧
        ∀ count, (received.afterReads ei fuel count).nextTerm ei fuel =
          (buffer.afterReads ei fuel count).nextTerm ei fuel
  retried : ∀ error msg, ErlangMessage.getMsg ei fuel ⟨buffer, none⟩ = (.throws error, msg) →
    msg.mBuffer = buffer

/-- A `PlainBuffer`, or one whose bytes hold nothing to decode at its start. -/
def Rewindable (ei : Ei) : InputBuffer → Prop
  | .eiInputBuffer buffer => ¬ buffer.Starts ei
  | .plainBuffer _ => True

variable {ei : Ei} {fuel : Nat} {buffer : InputBuffer}

/-- The reset of the object with both indices is the one that the reads see. -/
theorem resetIndex_view (object : EIInputObject) :
    (InputBuffer.eiInputBuffer object.view).resetIndex =
      .eiInputBuffer (object.resetIndex ei).view := by
  rw [object.view_resetIndex]
  rfl

/-- A buffer that a read and a reset give back rewinds. -/
theorem rewinds_of_restored
    (restored : ∀ count, (buffer.afterReads ei fuel count).resetIndex = buffer)
    (comes : Settled (fun _ => True) Undecodable (buffer.nextTerm ei fuel)) :
    buffer.Rewinds ei fuel := by
  have once : ((buffer.readTerm ei fuel).2).resetIndex = buffer := restored 1
  have decoded : ∀ msg : ErlangMessage, (ErlangMessage.getMsg ei fuel ⟨buffer, none⟩).2 = msg →
      msg.mBuffer = buffer := by
    rintro msg rfl
    rw [nextTerm] at comes
    rcases ran : buffer.readTerm ei fuel with ⟨outcome, read⟩
    rw [ran] at once comes
    cases outcome with
    | returns payload =>
        rw [ErlangMessage.getMsg, Method.throwsOnly, Effect.mapOutcome_run, Effect.bind_run,
          Effect.get_run]
        simp only [ErlangMessage.decodeMsg, ran]
        exact once
    | throws error =>
        rw [ErlangMessage.getMsg_undecodable ran comes]
        exact once
    | aborts => exact comes.elim
    | diverges => exact comes.elim
  refine ⟨?_, ?_, ?_⟩
  · intro count
    rw [restored count]
  · intro msg message state address rest built carries first held
    rw [receiveBuf_first carries first held]
    refine ⟨msg.mBuffer, rfl, ?_⟩
    rw [decoded msg (ErlangMessage.create_returns built)]
    exact fun _ => rfl
  · intro error msg failed
    exact decoded msg (by rw [failed])

theorem rewinds_plainBuffer (terms : List ErlTerm) :
    (InputBuffer.plainBuffer ⟨0, terms⟩).Rewinds ei fuel := by
  apply rewinds_of_restored
  · intro count
    have kept : ∃ index, (InputBuffer.plainBuffer ⟨0, terms⟩).afterReads ei fuel count =
        .plainBuffer ⟨index, terms⟩ := by
      induction count with
      | zero => exact ⟨0, rfl⟩
      | succ count ih =>
          obtain ⟨index, same⟩ := ih
          rw [afterReads, same]
          simp only [readTerm, PlainBuffer.readTerm]
          split
          · exact ⟨index, rfl⟩
          · split
            · exact ⟨index + 1, rfl⟩
            · exact ⟨index, rfl⟩
    obtain ⟨index, same⟩ := kept
    rw [same]
    rfl
  · cases terms with
    | nil => trivial
    | cons term rest => trivial

section EIInputBuffer

variable {bytes : EIInputBuffer}

theorem readTerm_eiInputBuffer : (InputBuffer.eiInputBuffer bytes).readTerm ei fuel =
    ((EIInputBuffer.readTerm ei fuel bytes).1,
      .eiInputBuffer (EIInputBuffer.readTerm ei fuel bytes).2) := rfl

theorem afterReads_eiInputBuffer (ei : Ei) (fuel : Nat) (bytes : EIInputBuffer) (count : Nat) :
    ∃ after, (InputBuffer.eiInputBuffer bytes).afterReads ei fuel count = .eiInputBuffer after := by
  induction count with
  | zero => exact ⟨bytes, rfl⟩
  | succ count ih =>
      obtain ⟨after, same⟩ := ih
      exact ⟨(EIInputBuffer.readTerm ei fuel after).2, by rw [afterReads, same, readTerm_eiInputBuffer]⟩

/-- Where nothing starts, the reads stay. -/
theorem rewinds_unstarted (forward : ei.Forward) (inside : bytes.mDecodeIndex ≤ bytes.buff.length)
    (few : bytes.buff.length < bytes.mDecodeIndex + fuel) (missing : ¬ bytes.Starts ei) :
    (InputBuffer.eiInputBuffer bytes).Rewinds ei fuel := by
  obtain ⟨settled, -, -, stays⟩ := readTerm_progress forward inside few
  apply rewinds_of_restored
  · intro count
    have kept : (InputBuffer.eiInputBuffer bytes).afterReads ei fuel count = .eiInputBuffer bytes := by
      induction count with
      | zero => rfl
      | succ count ih => rw [afterReads, ih, readTerm_eiInputBuffer, (stays missing).2]
    rw [kept]
    rfl
  · rw [nextTerm, readTerm_eiInputBuffer]
    cases ran : (EIInputBuffer.readTerm ei fuel bytes).1 with
    | returns read => trivial
    | throws error =>
        rw [ran] at settled
        exact settled
    | _ =>
        rw [ran] at settled
        exact settled

/-- As long as every read gives a term, each one moves the index. -/
theorem afterReads_moves (forward : ei.Forward) (inside : bytes.mDecodeIndex ≤ bytes.buff.length)
    (few : bytes.buff.length < bytes.mDecodeIndex + fuel) (count : Nat)
    (terms : ∀ earlier < count, ∃ term, ((InputBuffer.eiInputBuffer bytes).afterReads ei fuel
      earlier).nextTerm ei fuel = .returns (some term)) :
    ∃ after, (InputBuffer.eiInputBuffer bytes).afterReads ei fuel count = .eiInputBuffer after ∧
      Reaches bytes after ∧ bytes.mDecodeIndex + count ≤ after.mDecodeIndex := by
  induction count with
  | zero => exact ⟨bytes, rfl, .refl inside, le_rfl⟩
  | succ count ih =>
      obtain ⟨middle, same, reached, far⟩ := ih fun earlier less => terms earlier (by omega)
      obtain ⟨term, gave⟩ := terms count (Nat.lt_succ_self count)
      rw [same, nextTerm, readTerm_eiInputBuffer] at gave
      have bound : middle.mDecodeIndex ≤ middle.buff.length := by
        rw [reached.buff]
        exact reached.inside
      have fewer : middle.buff.length < middle.mDecodeIndex + fuel := by
        rw [reached.buff]
        omega
      obtain ⟨-, further, moves, stays⟩ := readTerm_progress forward bound fewer
      have starts : middle.Starts ei := by
        by_contra missing
        exact (stays missing).1 term gave
      refine ⟨(EIInputBuffer.readTerm ei fuel middle).2, ?_, reached.trans further, ?_⟩
      · rw [afterReads, same, readTerm_eiInputBuffer]
      · have moved := (moves starts).2
        omega

/-- The bytes run out of terms. -/
theorem terms_end (forward : ei.Forward) (inside : bytes.mDecodeIndex ≤ bytes.buff.length)
    (few : bytes.buff.length < bytes.mDecodeIndex + fuel) :
    ∃ count, ∀ term, ((InputBuffer.eiInputBuffer bytes).afterReads ei fuel count).nextTerm ei fuel ≠
      .returns (some term) := by
  by_contra endless
  push Not at endless
  obtain ⟨after, -, reached, far⟩ := afterReads_moves forward inside few (bytes.buff.length + 1)
    fun earlier _ => endless earlier
  have bound := reached.inside
  omega

/-- Where an item starts, the reset does not find back. -/
theorem not_rewinds_started (forward : ei.Forward)
    (inside : bytes.mDecodeIndex ≤ bytes.buff.length)
    (few : bytes.buff.length < bytes.mDecodeIndex + fuel) (starts : bytes.Starts ei) :
    ¬ (InputBuffer.eiInputBuffer bytes).Rewinds ei fuel := by
  intro rewinds
  obtain ⟨settled, -, moves, -⟩ := readTerm_progress forward inside few
  obtain ⟨found, moved⟩ := moves starts
  cases ran : (EIInputBuffer.readTerm ei fuel bytes).1 with
  | returns read =>
      cases read with
      | none => exact found ran
      | some term =>
          obtain ⟨count, missing⟩ := terms_end forward inside few
          have reset : ((InputBuffer.eiInputBuffer bytes).afterReads ei fuel count).resetIndex =
              (InputBuffer.eiInputBuffer bytes).afterReads ei fuel count := by
            obtain ⟨after, same⟩ := afterReads_eiInputBuffer ei fuel bytes count
            rw [same]
            rfl
          have same := rewinds.again count
          rw [reset] at same
          exact missing term (same.trans ran)
  | throws error =>
      rw [ran] at settled
      have failed := ErlangMessage.getMsg_undecodable (Prod.ext ran rfl :
        (InputBuffer.eiInputBuffer bytes).readTerm ei fuel = (.throws error, _)) settled
      have stood : EIInputBuffer.readTerm ei fuel bytes = (.throws error, bytes) :=
        Prod.ext ran (InputBuffer.eiInputBuffer.inj (rewinds.retried _ _ failed))
      rw [stood] at moved
      exact lt_irrefl _ moved
  | aborts =>
      rw [ran] at settled
      exact settled
  | diverges =>
      rw [ran] at settled
      exact settled

end EIInputBuffer

/-- The reset rewinds a buffer exactly when it is a `PlainBuffer` or has nothing to decode. -/
theorem rewinds_iff (forward : ei.Forward) (fresh : buffer.Fresh) (shallow : buffer.Shallow fuel) :
    buffer.Rewinds ei fuel ↔ buffer.Rewindable ei := by
  cases buffer with
  | eiInputBuffer bytes =>
      constructor
      · intro rewinds starts
        exact not_rewinds_started forward fresh shallow starts rewinds
      · exact rewinds_unstarted forward fresh shallow
  | plainBuffer plain =>
      obtain ⟨mDecodeIndex, terms⟩ := plain
      obtain rfl : mDecodeIndex = 0 := fresh
      exact ⟨fun _ => trivial, fun _ => rewinds_plainBuffer terms⟩

end InputBuffer

/-- The bytes of the number 7 behind the version. -/
def sevenBuffer : InputBuffer := .eiInputBuffer ⟨[131, 97, 7], 1⟩

theorem rewinds_iff_seven :
    sevenBuffer.Rewinds externalFormat 3 ↔ sevenBuffer.Rewindable externalFormat :=
  InputBuffer.rewinds_iff ExternalFormat.forward_externalFormat (show 1 ≤ 3 by decide)
    (show 3 < 1 + 3 by decide)

/-- After the reset the second read does not find the number again. -/
theorem sevenBuffer_stays : externalFormat.Forward ∧ sevenBuffer.Fresh ∧
    sevenBuffer.nextTerm externalFormat 3 = .returns (some (.simple (.erlLong (some 7)))) ∧
    ((sevenBuffer.afterReads externalFormat 3 1).resetIndex).nextTerm externalFormat 3 =
      .returns none ∧
    ¬ sevenBuffer.Rewinds externalFormat 3 := by
  refine ⟨ExternalFormat.forward_externalFormat, (show 1 ≤ 3 by decide), rfl, rfl, ?_⟩
  intro rewinds
  cases (rewinds.again 1)

end Epi.Node
