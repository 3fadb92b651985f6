import Epi.Queue.GenericQueue
import Epi.Type.PatternMatch
import Epi.Node.Message

namespace Epi.Node

open Verification Epi.Type Epi.Buffer Epi.Queue

/-- The objects that a pointer leads to. -/
inductive Address where
  | node
  | mailBox (index : Nat)
  | connection (index : Nat)
  | acceptor (index : Nat)
  | message (index : Nat)
  deriving DecidableEq, Repr

/-- A mailbox. Its queue holds the indices of messages, and the null sender is an absent one. -/
structure MailBox where
  mSelf : ErlPid
  mSender : Option Address
  mQueue : GenericQueue Nat

/-- A call on the message at an address of a state that has messages. -/
def onMessageAt {State Value : Type} (messages : State → List EpiMessage)
    (store : State → List EpiMessage → State) (address : Nat) (call : Method EpiMessage Value) :
    Method State Value := fun state =>
  match (messages state)[address]? with
  | none => (.aborts, state)
  | some message =>
      let (outcome, after) := call message
      (outcome, store state ((messages state).set address after))

/-- What a receive works on: the queued addresses, the messages behind them, and the binding of
the caller. -/
structure Receiving where
  mQueue : GenericQueue Nat
  messages : List EpiMessage
  binding : Option VariableBinding

namespace Receiving

/-- A call on the message at an address. -/
def onMessage {Value : Type} (address : Nat) (call : Method EpiMessage Value) :
    Method Receiving Value :=
  onMessageAt Receiving.messages (fun state messages => { state with messages := messages })
    address call

/-- A call on the binding of the caller. -/
def onBinding {Value : Type} (call : Method (Option VariableBinding) Value) :
    Method Receiving Value := fun state =>
  let (outcome, after) := call state.binding
  (outcome, { state with binding := after })

end Receiving

/-- A call after the cast to `ErlangMessage`. The cast of another message has no defined result. -/
def EpiMessage.onErlangMessage {Value : Type} (call : Method ErlangMessage Value) :
    Method EpiMessage Value
  | .sendMessage msg mRecipient =>
      let (outcome, after) := call msg
      (outcome, .sendMessage after mRecipient)
  | .regSendMessage msg mSender mRecipient =>
      let (outcome, after) := call msg
      (outcome, .regSendMessage after mSender mRecipient)
  | other => (.aborts, other)

/-- The exception that `throw *getException()` copies after the cast to `ErrorMessage`. -/
def EpiMessage.throwException {Value : Type} : EpiMessage → Call Value
  | .errorMessage mException => .throws (.connection mException.mMsg)
  | _ => .aborts

/-- `MailBoxGuard::check`. The null pointer has no message, and an exception of the guard is a
refusal. -/
def MailBoxGuard.check {State : Type} (messageAt : State → Nat → Option EpiMessage)
    (guardMatch : Nat → Method State Bool) (address : Nat) : Method State Bool := do
  let state ← Effect.get
  match messageAt state address with
  | none => return false
  | some message =>
      match message.messageType with
      | .errorMsg => return true
      | .sendMsg | .regSendMsg =>
          Effect.mapOutcome (Call.catchingAny fun _ => .returns false) (guardMatch address)
      | _ => return false

/-- `PatternMatchingGuard::match`. The match of an absent payload has no defined result. -/
def PatternMatchingGuard.guardMatch (ei : Ei) (fuel : Nat) (mPattern : ErlTerm) (address : Nat) :
    Method Receiving Bool := do
  let term ← Receiving.onMessage address (EpiMessage.onErlangMessage (ErlangMessage.getMsg ei fuel))
  match term with
  | none => Effect.lift .aborts
  | some term => Receiving.onBinding (mPattern.matchPattern fuel term)

/-- The guard of a pattern. -/
def PatternMatchingGuard.check (ei : Ei) (fuel : Nat) (mPattern : ErlTerm) :
    Nat → Method Receiving Bool :=
  MailBoxGuard.check (fun state address => state.messages[address]?)
    (PatternMatchingGuard.guardMatch ei fuel mPattern)

namespace MailBox

/-- The constructor. -/
def create (self : ErlPid) : MailBox := ⟨self, none, ⟨[]⟩⟩

def setSender (sender : Option Address) (mailbox : MailBox) : MailBox :=
  { mailbox with mSender := sender }

/-- `MailBox::deliver`. A control message is dropped. -/
def deliver (messages : List EpiMessage) (msg : Nat) (mailbox : MailBox) : Call MailBox :=
  match messages[msg]? with
  | none => .aborts
  | some message =>
      match message.messageType with
      | .erlangMsg | .errorMsg | .sendMsg | .regSendMsg =>
          .returns { mailbox with mQueue := mailbox.mQueue.push msg }
      | .controlMsg | .unlinkMsg | .linkMsg | .exitMsg => .returns mailbox

/-- The message that left the queue: an exception, or its payload. -/
def takeTerm (ei : Ei) (fuel : Nat) (address : Nat) : Method Receiving (Option ErlTerm) := do
  let state ← Effect.get
  match state.messages[address]? with
  | none => Effect.lift .aborts
  | some message =>
      if message.instanceOf .errorMsg then
        Effect.lift message.throwException
      else if message.instanceOf .erlangMsg then
        Receiving.onMessage address (EpiMessage.onErlangMessage (ErlangMessage.getMsg ei fuel))
      else
        Effect.fail (.connection (text "Unknown messageType"))

/-- `MailBox::receive` of a pattern, with the binding of the caller. Without an accepted message it
waits for the next one. -/
def receive (ei : Ei) (fuel : Nat) (pattern : ErlTerm) : Method Receiving (Option ErlTerm) :=
  Method.throwsOnly [.epiConnectionException] do
    let state ← Effect.get
    let (found, mQueue) ← state.mQueue.tryGetGuarded (PatternMatchingGuard.check ei fuel pattern)
    match found with
    | none => Effect.lift .diverges
    | some address => do
        let state ← Effect.get
        Effect.set { state with mQueue := mQueue }
        takeTerm ei fuel address

/-- `MailBox::receive` without a pattern. It takes the first message, and without one it waits. -/
def receiveNext (ei : Ei) (fuel : Nat) : Method Receiving (Option ErlTerm) :=
  Method.throwsOnly [.epiDecodeException, .epiConnectionException] do
    let state ← Effect.get
    match state.mQueue.tryGet with
    | (none, _) => Effect.lift .diverges
    | (some address, mQueue) => do
        Effect.set { state with mQueue := mQueue }
        takeTerm ei fuel address

end MailBox

end Epi.Node
