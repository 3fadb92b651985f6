import Epi.Node.Receive

namespace Epi.Node

open Verification Epi.Type Epi.Buffer Epi.Queue

/-- One call of `MatchingCommand::execute`: the command, the place of the message, the arguments, and
what the command threw. -/
structure Execution where
  command : Nat
  message : Nat
  term : ErlTerm
  binding : Option VariableBinding
  error : Option EpiException

/-- The commands of the user: what each throws on a message, if it throws. -/
abbrev Commands := Nat → Nat → Option EpiException

/-- What a receive with a guard works on: the queued addresses, the messages behind them, and the
commands that were executed. -/
structure Dispatching where
  mQueue : GenericQueue Nat
  messages : List EpiMessage
  executed : List Execution

namespace Dispatching

/-- A call on the message at an address. -/
def onMessage {Value : Type} (address : Nat) (call : Method EpiMessage Value) :
    Method Dispatching Value :=
  onMessageAt Dispatching.messages (fun state messages => { state with messages := messages })
    address call

/-- `MatchingCommand::execute`. A call that throws was made as well. -/
def execute (commands : Commands) (command address : Nat) (term : ErlTerm)
    (binding : Option VariableBinding) : Method Dispatching Unit := fun state =>
  let error := commands command address
  let after := { state with
    executed := state.executed ++ [⟨command, address, term, binding, error⟩] }
  match error with
  | none => (.returns (), after)
  | some error => (.throws error, after)

end Dispatching

/-- The guards of the library. The other ones, of the user or of a pattern alone, are their answers
to the messages. -/
inductive MailBoxGuard where
  | matchingCommand (mPattern : ErlTerm) (mCommand : Nat)
  | composed (mGuardList : List MailBoxGuard)
  | other (answers : Nat → Call Bool)

/-- `MatchingCommandGuard::match`. The match of an absent payload has no defined result. -/
def MatchingCommandGuard.guardMatch (ei : Ei) (fuel : Nat) (commands : Commands)
    (mPattern : ErlTerm) (mCommand address : Nat) : Method Dispatching Bool := do
  let term ← Dispatching.onMessage address
    (EpiMessage.onErlangMessage (ErlangMessage.getMsg ei fuel))
  match term with
  | none => Effect.lift .aborts
  | some term =>
      match mPattern.matchPattern fuel term (some .empty) with
      | (.returns true, binding) => do
          Dispatching.execute commands mCommand address term binding
          return true
      | (outcome, _) => Effect.lift outcome

namespace MailBoxGuard

mutual

/-- The virtual method `match`. -/
def guardMatch (ei : Ei) (fuel : Nat) (commands : Commands) (address : Nat) :
    MailBoxGuard → Method Dispatching Bool
  | .matchingCommand mPattern mCommand =>
      MatchingCommandGuard.guardMatch ei fuel commands mPattern mCommand address
  | .composed mGuardList => guardMatchEach ei fuel commands address mGuardList
  | .other answers => Effect.lift (answers address)

/-- The loop of `ComposedGuard::match`: the guards in order, up to the first that accepts. -/
def guardMatchEach (ei : Ei) (fuel : Nat) (commands : Commands) (address : Nat) :
    List MailBoxGuard → Method Dispatching Bool
  | [] => pure false
  | guard :: rest => do
      if ← guardMatch ei fuel commands address guard then
        return true
      else
        guardMatchEach ei fuel commands address rest

end

/-- The method `check` of a guard. -/
def checkMessage (ei : Ei) (fuel : Nat) (commands : Commands) (guard : MailBoxGuard) :
    Nat → Method Dispatching Bool :=
  check (fun state address => state.messages[address]?) fun address =>
    guard.guardMatch ei fuel commands address

end MailBoxGuard

/-- The queue and the messages that a thread finds when its wait is over. -/
structure Arrival where
  mQueue : GenericQueue Nat
  messages : List EpiMessage

namespace MailBox

/-- One pass of `get(QueueGuard*)` over the queue. -/
def pass (check : Nat → Method Dispatching Bool) : Method Dispatching (Option Nat) := do
  let state ← Effect.get
  let (found, mQueue) ← state.mQueue.tryGetGuarded check
  let state ← Effect.get
  Effect.set { state with mQueue := mQueue }
  return found

/-- The end of a wait. The other threads may have changed the queue in any way. -/
def wake (arrival : Arrival) : Method Dispatching Unit := fun state =>
  (.returns (), { state with mQueue := arrival.mQueue, messages := arrival.messages })

/-- `get(QueueGuard*)`, with what its waits end with. Without a further one it waits. -/
def getGuarded (check : Nat → Method Dispatching Bool) : List Arrival → Method Dispatching Nat
  | [] => do
      match ← pass check with
      | some address => return address
      | none => Effect.lift .diverges
  | arrival :: rest => do
      match ← pass check with
      | some address => return address
      | none => do
          wake arrival
          getGuarded check rest

/-- The message that left the queue: an exception, or the message itself. -/
def takeMessage (address : Nat) : Method Dispatching Nat := do
  let state ← Effect.get
  match state.messages[address]? with
  | none => Effect.lift .aborts
  | some message =>
      if message.instanceOf .errorMsg then
        Effect.lift message.throwException
      else if message.instanceOf .erlangMsg then
        return address
      else
        Effect.fail (.connection (text "Unknown messageType"))

/-- `MailBox::receive` of a guard. -/
def receiveGuarded (ei : Ei) (fuel : Nat) (commands : Commands) (guard : MailBoxGuard)
    (waits : List Arrival) : Method Dispatching Nat :=
  Method.throwsOnly [.epiConnectionException] do
    let address ← getGuarded (guard.checkMessage ei fuel commands) waits
    takeMessage address

end MailBox

section Pass

variable {check : Nat → Method Dispatching Bool} {state after : Dispatching}

/-- A pass that accepts nothing changes nothing. -/
theorem pass_rejected
    (rejected : ∀ address ∈ state.mQueue.mList, check address state = (.returns false, state)) :
    MailBox.pass check state = (.returns none, state) := by
  have scanned : GenericQueue.scan check state.mQueue.mList state = (.returns none, state) := by
    have all := GenericQueue.scan_append rejected []
    rwa [List.append_nil] at all
  have tried : state.mQueue.tryGetGuarded check state =
      (.returns (none, state.mQueue), state) := by
    rw [GenericQueue.tryGetGuarded, Effect.bind_of_returns scanned]
    rfl
  rw [MailBox.pass, Effect.bind_run, Effect.get_run]
  dsimp only
  rw [Effect.bind_of_returns tried]
  rfl

/-- A pass takes the accepted message that stands behind rejected ones. -/
theorem pass_accepted {old new : List Nat} {chosen : Nat}
    (same : state.mQueue.mList = old ++ chosen :: new)
    (rejected : ∀ other ∈ old, check other state = (.returns false, state))
    (accepted : check chosen state = (.returns true, after)) :
    MailBox.pass check state =
      (.returns (some chosen), { after with mQueue := state.mQueue.remove chosen }) := by
  have tried := GenericQueue.tryGetGuarded_first same rejected accepted
  rw [MailBox.pass, Effect.bind_run, Effect.get_run]
  dsimp only
  rw [Effect.bind_of_returns tried]
  rfl

end Pass

section Payload

variable (ei : Ei) {fuel : Nat} {commands : Commands} {state : Dispatching} {address : Nat}
  {message : EpiMessage} {payload : ErlTerm}

theorem Dispatching.onMessage_of_payload (held : state.messages[address]? = some message)
    (decoded : message.payload = some payload) :
    Dispatching.onMessage address (EpiMessage.onErlangMessage (ErlangMessage.getMsg ei fuel)) state =
      (.returns (some payload), state) :=
  onMessageAt_of_payload ei (fun _ => rfl) held decoded

end Payload

end Epi.Node
