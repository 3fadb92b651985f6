import Epi.Library.Selective
import Epi.Node.Growth
import Epi.Node.TimedCalls

namespace Epi.Node

open Verification Epi.Type Epi.Buffer Epi.Queue

/-- A pass of `MailBox::receive` with a timeout. The clock is read when the call starts and again
when no message was there. -/
def MailBox.receiveNextWithin (ei : Ei) (fuel : Nat) (timeout currentTime now : Int) :
    Method Receiving (Option ErlTerm) :=
  Method.throwsOnly [.epiDecodeException, .epiConnectionException] do
    let state ← Effect.get
    match state.mQueue.tryGet with
    | (none, _) => if currentTime + timeout < now then return none else Effect.lift .diverges
    | (some address, mQueue) => do
        Effect.set { state with mQueue := mQueue }
        MailBox.takeTerm ei fuel address

/-- The overloads of `MailBox::receive` that hand out a term, with the time at which a call with a
timeout started. -/
inductive ReceiveCall where
  | receive
  | receiveWithin (timeout currentTime : Int)
  | receivePattern (pattern : ErlTerm)
  | receivePatternWithin (timeout currentTime : Int) (pattern : ErlTerm)

namespace ReceiveCall

def pattern : ReceiveCall → Option ErlTerm
  | .receive | .receiveWithin _ _ => none
  | .receivePattern pattern | .receivePatternWithin _ _ pattern => some pattern

/-- The time at which a call with a timeout is to end. -/
def stopTime : ReceiveCall → Option Int
  | .receive | .receivePattern _ => none
  | .receiveWithin timeout currentTime | .receivePatternWithin timeout currentTime _ =>
      some (currentTime + timeout)

def Expired (call : ReceiveCall) (now : Int) : Prop := ∃ stopTime ∈ call.stopTime, stopTime < now

/-- One pass of the call over the queue. It diverges where the call begins to wait. -/
def pass (ei : Ei) (fuel : Nat) (now : Int) : ReceiveCall → Method Receiving (Option ErlTerm)
  | .receive => MailBox.receiveNext ei fuel
  | .receiveWithin timeout currentTime => MailBox.receiveNextWithin ei fuel timeout currentTime now
  | .receivePattern pattern => MailBox.receive ei fuel pattern
  | .receivePatternWithin timeout currentTime pattern =>
      MailBox.receiveWithin ei fuel timeout currentTime now pattern

/-- How a pass ends that accepts no message: the call waits, or its time is over. -/
def unanswered (now : Int) : ReceiveCall → Call (Option ErlTerm)
  | .receive | .receivePattern _ => .diverges
  | .receiveWithin timeout currentTime | .receivePatternWithin timeout currentTime _ =>
      if currentTime + timeout < now then .returns none else .diverges

theorem unanswered_cases (call : ReceiveCall) (now : Int) :
    call.Expired now ∧ call.unanswered now = .returns none ∨
      ¬ call.Expired now ∧ call.unanswered now = .diverges := by
  cases call with
  | receive | receivePattern pattern => exact .inr ⟨by simp [Expired, stopTime], rfl⟩
  | receiveWithin timeout currentTime | receivePatternWithin timeout currentTime pattern =>
      by_cases late : currentTime + timeout < now
      · exact .inl ⟨⟨_, rfl, late⟩, if_pos late⟩
      · exact .inr ⟨by simpa [Expired, stopTime] using late, if_neg late⟩

end ReceiveCall

/-- What the caller gets: how the call ends, and the binding after it. -/
abbrev Reception := Call (Option ErlTerm) × Option VariableBinding

/-- A pass of a receive of a mailbox of the node, with the binding of the caller. -/
def AutoNode.receives (ei : Ei) (fuel mailbox : Nat) (call : ReceiveCall) (now : Int)
    (binding : Option VariableBinding) (node : AutoNode) : Reception × AutoNode :=
  match node.mailBoxes[mailbox]? with
  | none => ((.aborts, binding), node)
  | some object =>
      let (outcome, after) := call.pass ei fuel now ⟨object.mQueue, node.messages, binding⟩
      ((outcome, after.binding), { node with
        mailBoxes := node.mailBoxes.set mailbox { object with mQueue := after.mQueue }
        messages := after.messages })

/-- A term that equals itself, not too deep for a match. -/
structure Mail (fuel : Nat) where
  term : ErlTerm
  selfEqual : SelfEqual term
  shallow : term.matchDepth ≤ fuel

/-- What a message tells a mailbox: that a connection failed, or a term. -/
inductive Letter (fuel : Nat) where
  | report (mException : EpiException)
  | mail (mail : Mail fuel)

def EpiMessage.Tells {fuel : Nat} (message : EpiMessage) : Letter fuel → Prop
  | .report mException => message = .errorMessage mException
  | .mail mail => message.payload = some mail.term

/-- A receive with any valid pattern or without one, and with a binding to valid terms without
variables. -/
@[ext] structure Question where
  call : ReceiveCall
  binding : Option VariableBinding
  valid : ∀ pattern ∈ call.pattern, pattern.Valid
  values : (binding.getD .empty).Values Proper

namespace Question

variable {fuel : Nat}

/-- Every call accepts a report. A term is accepted without a pattern, or when a substitution that
extends the binding suits the pattern and the term. -/
def Accepts (question : Question) : Letter fuel → Prop
  | .report _ => True
  | .mail mail => ∀ pattern ∈ question.call.pattern, ∃ substitution : Substitution,
      substitution.Extends (question.binding.getD .empty) ∧ Suits substitution pattern mail.term

/-- A report is thrown. A term is returned, and the binding gains the values of the variables. -/
def Gives (question : Question) : Letter fuel → Reception → Prop
  | .report mException, reception =>
      reception = (.throws (.connection mException.mMsg), question.binding)
  | .mail mail, reception => reception.1 = .returns (some mail.term) ∧
      match question.call.pattern with
      | none => reception.2 = question.binding
      | some pattern => pattern.Binds mail.term question.binding reception.2

/-- What the caller waits with. -/
def asked (question : Question) : ReceiveCall × Option VariableBinding :=
  (question.call, question.binding)

end Question

/-- The specification of a mailbox. A call with a timeout returns null when its time is over, and
also when it waited and was notified. -/
def mailSelection (fuel : Nat) : Selection (Letter fuel) Question Int Reception where
  accepts := Question.Accepts
  gives := Question.Gives
  expired question now := question.call.Expired now
  hasty question := question.call.stopTime.isSome = true
  misses question reception := reception = (.returns none, question.binding)

/-- A node, and the receives of a mailbox that wait, with the bindings of their callers. -/
structure Serving (Caller : Type) where
  node : AutoNode
  waiting : Caller → Option (ReceiveCall × Option VariableBinding)

/-- The caller waits with this question, or does not wait. -/
def Serving.Calls {Caller : Type} (state : Serving Caller) (caller : Caller)
    (question : Question) : Prop :=
  ∀ held ∈ state.waiting caller, held = question.asked

inductive MailEvent (Caller : Type) (fuel : Nat) where
  | arrives (letter : Letter fuel)
  | answers (caller : Caller) (question : Question) (now : Int) (reception : Reception)
  | waits (caller : Caller) (question : Question) (now : Int)
  | quits (caller : Caller) (question : Question) (reception : Reception)
  | works

/-- What the specification sees of an event. -/
def MailEvent.shown {Caller : Type} {fuel : Nat} : MailEvent Caller fuel →
    Option (SelectionEvent Caller (Letter fuel) Question Int Reception)
  | .arrives letter => some (.arrives letter)
  | .answers caller question now reception => some (.answers caller question now reception)
  | .waits caller question now => some (.waits caller question now)
  | .quits caller question reception => some (.quits caller question reception)
  | .works => none

/-- Messages reach a mailbox of the node from an acceptor and from the node, and callers ask it for
them. A pass ends the call or begins a wait. With Boost a call with a timeout returns null when its
wait ends with a notification, and every other wait is followed by another pass. Meanwhile the rest
of the node works on. -/
inductive MailStep {Caller : Type} [DecidableEq Caller] (ei : Ei) (fuel mailbox : Nat) :
    Transition (Serving Caller) (MailEvent Caller fuel)
  | accepts {state : Serving Caller} {after : AutoNode} {acceptor : Nat} {message : EpiMessage}
      {letter : Letter fuel} (tells : message.Tells letter)
      (reached : state.node.reached acceptor message = some mailbox)
      (ran : AutoNode.acceptorDelivers acceptor message state.node = (.returns (), after)) :
      MailStep ei fuel mailbox state (.arrives letter) { state with node := after }
  | delivers {state : Serving Caller} {after : AutoNode} {origin : Address} {message : EpiMessage}
      {letter : Letter fuel} (tells : message.Tells letter)
      (target : state.node.recipient message (some .node) = some mailbox)
      (ran : AutoNode.deliver origin state.node.messages.length (state.node.gained message) =
        (.returns (), after)) :
      MailStep ei fuel mailbox state (.arrives letter) { state with node := after }
  | answers {state : Serving Caller} {after : AutoNode} {caller : Caller} {question : Question}
      {now : Int} {reception : Reception} (calls : state.Calls caller question)
      (ran : state.node.receives ei fuel mailbox question.call now question.binding =
        (reception, after)) (ended : reception.1 ≠ .diverges) :
      MailStep ei fuel mailbox state (.answers caller question now reception)
        ⟨after, Function.update state.waiting caller none⟩
  | waits {state : Serving Caller} {after : AutoNode} {caller : Caller} {question : Question}
      {now : Int} {left : Option VariableBinding} (calls : state.Calls caller question)
      (ran : state.node.receives ei fuel mailbox question.call now question.binding =
        ((.diverges, left), after)) :
      MailStep ei fuel mailbox state (.waits caller question now)
        ⟨after, Function.update state.waiting caller (some (question.call, left))⟩
  | quits {state : Serving Caller} {caller : Caller} {question : Question}
      (asleep : state.waiting caller = some question.asked)
      (timed : question.call.stopTime.isSome = true) :
      MailStep ei fuel mailbox state (.quits caller question (.returns none, question.binding))
        { state with waiting := Function.update state.waiting caller none }
  | works {state : Serving Caller} {after : AutoNode}
      (spares : Spares mailbox state.node after) :
      MailStep ei fuel mailbox state .works { state with node := after }

/-- The message at the address tells this. -/
def TellsAt {fuel : Nat} (messages : List EpiMessage) (address : Nat) (letter : Letter fuel) :
    Prop :=
  ∃ message, messages[address]? = some message ∧ message.Tells letter

/-- The mailbox queues messages that say these letters. -/
structure Letters {fuel : Nat} (mailbox : Nat) (node : AutoNode) (letters : List (Letter fuel)) :
    Prop where
  exists_mailBox : (node.mailBoxes[mailbox]?).isSome = true
  distinct : (node.queueOf mailbox).Nodup
  told : List.Forall₂ (TellsAt node.messages) (node.queueOf mailbox) letters

/-- The mailbox holds the letters of the specification, and the same questions wait. -/
structure Serves {Caller : Type} {fuel : Nat} (mailbox : Nat) (state : Serving Caller)
    (specified : Selecting Caller (Letter fuel) Question) : Prop where
  letters : Letters mailbox state.node specified.queue
  waiting : ∀ caller, state.waiting caller = (specified.waiting caller).map Question.asked

section Selective

variable (ei : Ei) {fuel mailbox address : Nat} {letter : Letter fuel}
  {letters : List (Letter fuel)} {question : Question} {pattern : ErlTerm} {state : Receiving}
  {node after : AutoNode} {message : EpiMessage}

theorem TellsAt.lt {messages : List EpiMessage} (told : TellsAt messages address letter) :
    address < messages.length := by
  obtain ⟨message, held, -⟩ := told
  exact (List.getElem?_eq_some_iff.mp held).1

/-- What the caller gets for a message is what its letter gives. -/
theorem received_of_tells (tells : message.Tells letter) :
    message.received = match letter with
      | .report mException => .throws (.connection mException.mMsg)
      | .mail mail => .returns (some mail.term) := by
  cases letter with
  | report mException =>
      obtain rfl : message = .errorMessage mException := tells
      rfl
  | mail mail =>
      have decoded : message.payload = some mail.term := tells
      cases message with
      | sendMessage msg mRecipient => exact congrArg _ decoded
      | regSendMessage msg mSender mRecipient => exact congrArg _ decoded
      | _ => cases decoded

theorem takeTerm_tells (held : state.messages[address]? = some message)
    (tells : message.Tells letter) :
    MailBox.takeTerm ei fuel address state = (message.received, state) := by
  apply takeTerm_received ei held
  cases letter with
  | report mException =>
      obtain rfl : message = .errorMessage mException := tells
      exact .inl rfl
  | mail mail => exact .inr ⟨mail.term, tells⟩

/-- The guard of a pattern accepts what the specification accepts. -/
theorem check_tells (asked : question.call.pattern = some pattern)
    (bound : state.binding = question.binding) (held : state.messages[address]? = some message)
    (tells : message.Tells letter) :
    PatternMatchingGuard.check ei fuel pattern address state = (.returns false, state) ∧
        ¬ question.Accepts letter ∨
      ∃ after, question.Accepts letter ∧ question.Gives letter (message.received, after) ∧
        PatternMatchingGuard.check ei fuel pattern address state =
          (.returns true, { state with binding := after }) := by
  have received := received_of_tells tells
  cases letter with
  | report mException =>
      obtain rfl : message = .errorMessage mException := tells
      exact .inr ⟨state.binding, trivial, by rw [bound]; rfl, check_of_error ei held rfl⟩
  | mail mail =>
      obtain ⟨success, after, ran, decides, binds, kept⟩ := matchPattern_decides
        (question.valid pattern asked) mail.selfEqual question.values mail.shallow
      have checked := check_of_payload ei held tells (bound ▸ ran)
      cases success with
      | false =>
          have unchanged : after = question.binding := kept rfl
          refine .inl ⟨by rw [checked, unchanged, ← bound], ?_⟩
          intro accepted
          exact absurd (decides.mpr (accepted pattern asked)) Bool.false_ne_true
      | true =>
          refine .inr ⟨after, ?_, ⟨congrArg Prod.fst (congrArg (·, after) received), ?_⟩, checked⟩
          · intro other same
            obtain rfl : other = pattern := Option.some.inj (same.symm.trans asked)
            exact decides.mp rfl
          · simp only [asked]
            exact binds rfl

/-- A scan passes over what the specification refuses, and takes what it accepts first. -/
theorem scan_tells (asked : question.call.pattern = some pattern)
    (bound : state.binding = question.binding) {addresses : List Nat}
    (told : List.Forall₂ (TellsAt state.messages) addresses letters) :
    (∀ other ∈ addresses,
        PatternMatchingGuard.check ei fuel pattern other state = (.returns false, state)) ∧
      (∀ letter ∈ letters, ¬ question.Accepts letter) ∨
      ∃ old chosen new before letter behind message after,
        addresses = old ++ chosen :: new ∧ letters = before ++ letter :: behind ∧
        (∀ other ∈ old,
          PatternMatchingGuard.check ei fuel pattern other state = (.returns false, state)) ∧
        PatternMatchingGuard.check ei fuel pattern chosen state =
          (.returns true, { state with binding := after }) ∧
        state.messages[chosen]? = some message ∧ message.Tells letter ∧
        (∀ other ∈ before, ¬ question.Accepts other) ∧ question.Accepts letter ∧
        question.Gives letter (message.received, after) ∧
        List.Forall₂ (TellsAt state.messages) (old ++ new) (before ++ behind) := by
  induction told with
  | nil => exact .inl ⟨List.forall_mem_nil _, List.forall_mem_nil _⟩
  | @cons head letter addresses letters first others ih =>
      obtain ⟨message, held, tells⟩ := first
      rcases check_tells ei asked bound held tells with
        ⟨refused, unwanted⟩ | ⟨after, accepted, given, checked⟩
      · rcases ih with ⟨rejected, nothing⟩ | ⟨old, chosen, new, before, letter, behind, message,
          after, rfl, rfl, rejected, checked, there, told, nothing, accepted, given, kept⟩
        · exact .inl ⟨List.forall_mem_cons.mpr ⟨refused, rejected⟩,
            List.forall_mem_cons.mpr ⟨unwanted, nothing⟩⟩
        · exact .inr ⟨head :: old, chosen, new, _ :: before, letter, behind, message, after, rfl,
            rfl, List.forall_mem_cons.mpr ⟨refused, rejected⟩, checked, there, told,
            List.forall_mem_cons.mpr ⟨unwanted, nothing⟩, accepted, given,
            .cons ⟨_, held, tells⟩ kept⟩
      · exact .inr ⟨[], head, addresses, [], letter, letters, message, after, rfl, rfl,
          List.forall_mem_nil _, checked, held, tells, List.forall_mem_nil _, accepted, given,
          others⟩

/-- A pass with a timeout that accepts no message. -/
theorem receiveWithin_misses {timeout currentTime now : Int}
    (rejected : ∀ other ∈ state.mQueue.mList,
      PatternMatchingGuard.check ei fuel pattern other state = (.returns false, state)) :
    MailBox.receiveWithin ei fuel timeout currentTime now pattern state =
      (if currentTime + timeout < now then .returns none else .diverges, state) := by
  have scanned := GenericQueue.scan_append rejected []
  rw [List.append_nil] at scanned
  rw [MailBox.receiveWithin, Method.throwsOnly, Effect.mapOutcome_run, Effect.bind_run,
    Effect.get_run]
  simp only
  rw [GenericQueue.tryGetGuarded, Effect.bind_run, Effect.bind_run, scanned]
  simp only [GenericQueue.scan, Effect.pure_run]
  split
  · rfl
  · rfl

/-- A call with a pattern and without an accepted message. -/
theorem pass_misses {call : ReceiveCall} {now : Int} (asked : call.pattern = some pattern)
    (rejected : ∀ other ∈ state.mQueue.mList,
      PatternMatchingGuard.check ei fuel pattern other state = (.returns false, state)) :
    call.pass ei fuel now state = (call.unanswered now, state) := by
  cases call with
  | receivePattern other =>
      obtain rfl : other = pattern := Option.some.inj asked
      exact receive_waits ei rejected
  | receivePatternWithin timeout currentTime other =>
      obtain rfl : other = pattern := Option.some.inj asked
      exact receiveWithin_misses ei rejected
  | _ => cases asked

/-- A call with a pattern makes one pass of `receive` where a message is accepted. -/
theorem pass_stops {call : ReceiveCall} {now : Int} (asked : call.pattern = some pattern)
    (stops : ∀ after, GenericQueue.scan (PatternMatchingGuard.check ei fuel pattern)
      state.mQueue.mList state ≠ (.returns none, after)) :
    call.pass ei fuel now state = MailBox.receive ei fuel pattern state := by
  cases call with
  | receivePattern other =>
      obtain rfl : other = pattern := Option.some.inj asked
      rfl
  | receivePatternWithin timeout currentTime other =>
      obtain rfl : other = pattern := Option.some.inj asked
      exact receiveWithin_of_stops timeout currentTime now stops
  | _ => cases asked

/-- The specifications of the calls list what they throw for a report. -/
theorem throwsOnly_received (tells : message.Tells letter) {listed : List ExceptionClass}
    (known : .epiConnectionException ∈ listed) :
    Call.throwsOnly listed message.received = message.received := by
  rw [received_of_tells tells]
  cases letter with
  | report mException =>
      rw [Call.throwsOnly_eq_throws]
      exact ⟨rfl, List.any_eq_true.mpr ⟨_, known, rfl⟩⟩
  | mail mail => rfl

/-- The pass takes the first accepted letter, and leaves the others. -/
structure TakesFirst (question : Question) (letters before behind : List (Letter fuel))
    (letter : Letter fuel) (state : Receiving) (ended : Call (Option ErlTerm) × Receiving) :
    Prop where
  split : letters = before ++ letter :: behind
  refused : ∀ other ∈ before, ¬ question.Accepts other
  accepted : question.Accepts letter
  given : question.Gives letter (ended.1, ended.2.binding)
  messages : ended.2.messages = state.messages
  distinct : ended.2.mQueue.mList.Nodup
  told : List.Forall₂ (TellsAt state.messages) ended.2.mQueue.mList (before ++ behind)

/-- Without a pattern every letter is accepted. -/
theorem accepts_unasked (asked : question.call.pattern = none) (letter : Letter fuel) :
    question.Accepts letter := by
  cases letter with
  | report mException => trivial
  | mail mail =>
      intro pattern wanted
      rw [asked] at wanted
      cases wanted

theorem gives_unasked (asked : question.call.pattern = none) (tells : message.Tells letter) :
    question.Gives letter (message.received, question.binding) := by
  rw [received_of_tells tells]
  cases letter with
  | report mException => rfl
  | mail mail =>
      refine ⟨rfl, ?_⟩
      simp only [asked]

/-- A call without a pattern finds no message in an empty queue. -/
theorem pass_empty {call : ReceiveCall} {now : Int} (asked : call.pattern = none)
    (messages : List EpiMessage) (binding : Option VariableBinding) :
    call.pass ei fuel now ⟨⟨[]⟩, messages, binding⟩ =
      (call.unanswered now, ⟨⟨[]⟩, messages, binding⟩) := by
  cases call with
  | receive => rfl
  | receiveWithin timeout currentTime =>
      rw [ReceiveCall.pass, MailBox.receiveNextWithin, Method.throwsOnly, Effect.mapOutcome_run,
        Effect.bind_run, Effect.get_run, ReceiveCall.unanswered]
      simp only [GenericQueue.tryGet]
      split
      · rfl
      · rfl
  | _ => cases asked

/-- A call without a pattern takes the first message. -/
theorem pass_first {call : ReceiveCall} {now : Int} (asked : call.pattern = none) {rest : List Nat}
    {messages : List EpiMessage} (binding : Option VariableBinding)
    (held : messages[address]? = some message) (tells : message.Tells letter) :
    call.pass ei fuel now ⟨⟨address :: rest⟩, messages, binding⟩ =
      (message.received, ⟨⟨rest⟩, messages, binding⟩) := by
  have taken : MailBox.takeTerm ei fuel address ⟨⟨rest⟩, messages, binding⟩ =
      (message.received, ⟨⟨rest⟩, messages, binding⟩) := takeTerm_tells ei held tells
  have listed := @throwsOnly_received fuel letter message tells
    [.epiDecodeException, .epiConnectionException] (by simp)
  cases call with
  | receive =>
      rw [ReceiveCall.pass, MailBox.receiveNext, Method.throwsOnly, Effect.mapOutcome_run,
        Effect.bind_run, Effect.get_run]
      simp only [GenericQueue.tryGet, Effect.bind_run, Effect.set_run, taken, listed]
  | receiveWithin timeout currentTime =>
      rw [ReceiveCall.pass, MailBox.receiveNextWithin, Method.throwsOnly, Effect.mapOutcome_run,
        Effect.bind_run, Effect.get_run]
      simp only [GenericQueue.tryGet, Effect.bind_run, Effect.set_run, taken, listed]
  | _ => cases asked

/-- A pass takes the first accepted letter. Where there is none it changes nothing. -/
theorem pass_refines (now : Int) (bound : state.binding = question.binding)
    (distinct : state.mQueue.mList.Nodup)
    (told : List.Forall₂ (TellsAt state.messages) state.mQueue.mList letters) :
    (∀ letter ∈ letters, ¬ question.Accepts letter) ∧
        question.call.pass ei fuel now state = (question.call.unanswered now, state) ∨
      ∃ before letter behind, TakesFirst question letters before behind letter state
        (question.call.pass ei fuel now state) := by
  cases asked : question.call.pattern with
  | some pattern =>
      rcases scan_tells ei asked bound told with ⟨rejected, refused⟩ | ⟨old, chosen, new, before,
        letter, behind, message, after, same, rfl, rejected, checked, held, tells, refused,
        accepted, given, kept⟩
      · exact .inl ⟨refused, pass_misses ei asked rejected⟩
      · have stops : ∀ left, GenericQueue.scan (PatternMatchingGuard.check ei fuel pattern)
            state.mQueue.mList state ≠ (.returns none, left) := by
          intro left ran
          rw [same, GenericQueue.scan_append rejected, GenericQueue.scan,
            Effect.bind_of_returns checked] at ran
          cases ran
        have taken := receive_takes ei same rejected checked (takeTerm_tells ei held tells)
        rw [throwsOnly_received tells (List.mem_singleton_self _)] at taken
        have left : state.mQueue.remove chosen = ⟨old ++ new⟩ :=
          congrArg GenericQueue.mk (GenericQueue.remove_once same distinct)
        rw [pass_stops ei asked stops, taken, left]
        exact .inr ⟨before, letter, behind, rfl, refused, accepted, given, rfl,
          (same ▸ distinct).sublist (by simp), kept⟩
  | none =>
      obtain ⟨⟨queued⟩, messages, binding⟩ := state
      obtain rfl : binding = question.binding := bound
      cases told with
      | nil => exact .inl ⟨List.forall_mem_nil _, pass_empty ei asked messages question.binding⟩
      | @cons head letter rest letters first others =>
          obtain ⟨message, held, tells⟩ := first
          rw [pass_first ei asked question.binding held tells]
          exact .inr ⟨[], letter, letters, rfl, List.forall_mem_nil _, accepts_unasked asked letter,
            gives_unasked asked tells, rfl, distinct.sublist (by simp), others⟩

/-- The messages that are queued go on telling the same. -/
theorem Letters.of_same (holds : Letters mailbox node letters)
    (mailBoxes : after.mailBoxes[mailbox]? = node.mailBoxes[mailbox]?)
    (messages : ∀ address ∈ node.queueOf mailbox,
      after.messages[address]? = node.messages[address]?) : Letters mailbox after letters := by
  have queue : after.queueOf mailbox = node.queueOf mailbox := by
    rw [AutoNode.queueOf, mailBoxes, AutoNode.queueOf]
  refine ⟨by rw [mailBoxes]; exact holds.exists_mailBox, queue ▸ holds.distinct, ?_⟩
  rw [queue]
  have both := (List.forall₂_and_left _ _).mpr ⟨fun address member => member, holds.told⟩
  refine both.imp ?_
  rintro address letter ⟨member, message, held, tells⟩
  exact ⟨message, (messages address member).trans held, tells⟩

/-- A new message stands behind the others. -/
theorem Letters.enqueue (holds : Letters mailbox node letters) (tells : message.Tells letter)
    (enqueues : Enqueues node after (some mailbox) node.messages.length)
    (mailBoxes : after.mailBoxes.length = node.mailBoxes.length)
    (messages : after.messages = node.messages ++ [message]) :
    Letters mailbox after (letters ++ [letter]) := by
  have inside : mailbox < node.mailBoxes.length := by
    have exists_mailBox := holds.exists_mailBox
    rwa [Option.isSome_iff_ne_none, ne_eq, List.getElem?_eq_none_iff, not_le] at exists_mailBox
  have queue : after.queueOf mailbox = node.queueOf mailbox ++ [node.messages.length] := by
    rw [enqueues.queues mailbox, if_pos ⟨rfl, inside⟩]
  have older : ∀ address ∈ node.queueOf mailbox, address < node.messages.length := by
    intro address member
    obtain ⟨letter, -, told⟩ := Selection.exists_related holds.told member
    exact told.lt
  constructor
  · rw [List.getElem?_eq_getElem (mailBoxes ▸ inside)]
    rfl
  · rw [queue]
    refine List.Nodup.append holds.distinct (List.nodup_singleton _)
      (List.disjoint_singleton.mpr ?_)
    intro member
    exact lt_irrefl _ (older _ member)
  · rw [queue, messages]
    refine List.rel_append (holds.told.imp ?_) (.cons ⟨message, by simp, tells⟩ .nil)
    rintro address letter ⟨earlier, held, told⟩
    obtain ⟨inside, -⟩ := List.getElem?_eq_some_iff.mp held
    exact ⟨earlier, (List.getElem?_append_left inside).trans held, told⟩

/-- The mailboxes that are there, and the messages. -/
abbrev AutoNode.stock (node : AutoNode) : Nat × List EpiMessage :=
  (node.mailBoxes.length, node.messages)

theorem onMailBox_stock (mailbox : Nat) (update : MailBox → Call MailBox) :
    Effect.Preserves AutoNode.stock (AutoNode.onMailBox mailbox update) := by
  intro node
  rw [AutoNode.onMailBox]
  cases node.mailBoxes[mailbox]? with
  | none => rfl
  | some object =>
      simp only
      cases update object with
      | returns changed => simp only [AutoNode.stock, List.length_set]
      | _ => rfl

/-- A delivery fills no new mailbox. -/
theorem deliver_stock (origin : Address) (msg : Nat) :
    Effect.Preserves AutoNode.stock (AutoNode.deliver origin msg) := by
  have hands : ∀ recipient : Option Nat,
      Effect.Preserves AutoNode.stock (AutoNode.deliverTo recipient msg) := by
    intro recipient
    cases recipient with
    | none => exact fun _ => rfl
    | some mailbox => exact Effect.preserves_get_bind fun node => onMailBox_stock mailbox _ node
  apply Effect.preserves_get_bind
  intro node
  cases node.messages[msg]? with
  | none => rfl
  | some message =>
      cases message with
      | sendMessage payload mRecipient => exact hands _ node
      | regSendMessage payload mSender mRecipient => exact hands _ node
      | _ => rfl

theorem deliverFrom_stock (connection : Nat) (origin : Address) (msg : Nat) :
    Effect.Preserves AutoNode.stock (AutoNode.deliverFrom connection origin msg) := by
  apply Effect.preserves_get_bind
  intro node
  cases node.connections[connection]? with
  | none => rfl
  | some object =>
      cases receiver : object.mReceiver with
      | none => simp only [receiver, Effect.lift_run]
      | some target =>
          cases target with
          | node =>
              simp only [receiver]
              exact deliver_stock origin msg node
          | mailBox mailbox =>
              simp only [receiver]
              exact onMailBox_stock mailbox _ node
          | _ => simp only [receiver, Effect.lift_run]

/-- What an acceptor delivers is one new message. -/
theorem acceptorDelivers_stock {acceptor : Nat}
    (ran : AutoNode.acceptorDelivers acceptor message node = (.returns (), after)) :
    after.stock = (node.gained message).stock := by
  rw [AutoNode.acceptorDelivers, Effect.bind_run, Effect.get_run] at ran
  simp only at ran
  cases owner : node.acceptors[acceptor]? with
  | none =>
      rw [owner] at ran
      cases ran
  | some connection =>
      rw [owner] at ran
      have delivered : AutoNode.deliverFrom connection (.acceptor acceptor) node.messages.length
          (node.gained message) = (.returns (), after) := ran
      have kept := deliverFrom_stock connection (.acceptor acceptor) node.messages.length
        (node.gained message)
      rwa [delivered] at kept

/-- A pass over a mailbox takes the first letter that the question accepts, and the others stay.
Where there is none the mailbox stays as it is. -/
theorem receives_refines (holds : Letters mailbox node letters) (question : Question) {now : Int}
    {reception : Reception}
    (ran : node.receives ei fuel mailbox question.call now question.binding = (reception, after)) :
    (∀ letter ∈ letters, ¬ question.Accepts letter) ∧
        reception = (question.call.unanswered now, question.binding) ∧
        Letters mailbox after letters ∨
      ∃ before letter behind, letters = before ++ letter :: behind ∧
        (∀ other ∈ before, ¬ question.Accepts other) ∧ question.Accepts letter ∧
        question.Gives letter reception ∧ Letters mailbox after (before ++ behind) := by
  obtain ⟨object, here⟩ := Option.isSome_iff_exists.mp holds.exists_mailBox
  obtain ⟨inside, -⟩ := List.getElem?_eq_some_iff.mp here
  have distinct := holds.distinct
  have told := holds.told
  rw [AutoNode.queueOf_eq here] at distinct told
  -- The queue and the messages that the pass leaves are those of the node behind it.
  have left : ∀ {queue : GenericQueue Nat} {messages : List EpiMessage}
      {others : List (Letter fuel)}, queue.mList.Nodup →
      List.Forall₂ (TellsAt messages) queue.mList others →
      Letters mailbox { node with
        mailBoxes := node.mailBoxes.set mailbox { object with mQueue := queue }
        messages := messages } others := by
    intro queue messages others single kept
    constructor
    · rw [List.getElem?_set_self inside]
      rfl
    · rw [AutoNode.queueOf_set inside _ mailbox rfl, if_pos rfl]
      exact single
    · rw [AutoNode.queueOf_set inside _ mailbox rfl, if_pos rfl]
      exact kept
  rw [AutoNode.receives, here] at ran
  simp only [Prod.mk.injEq] at ran
  obtain ⟨rfl, rfl⟩ := ran
  rcases @pass_refines ei fuel letters question ⟨object.mQueue, node.messages, question.binding⟩
    now rfl distinct told with ⟨refused, missed⟩ | ⟨before, letter, behind, takes⟩
  · rw [missed]
    exact .inl ⟨refused, rfl, left distinct told⟩
  · refine .inr ⟨before, letter, behind, takes.split, takes.refused, takes.accepted, takes.given,
      left takes.distinct ?_⟩
    rw [takes.messages]
    exact takes.told

variable {Caller : Type} {caller : Caller} {serving served : Serving Caller}
  {specified : Selecting Caller (Letter fuel) Question}

/-- A caller asks what it waits for in the specification. -/
theorem Serves.calls (serves : Serves mailbox serving specified)
    (calls : serving.Calls caller question) : specified.Calls caller question := by
  intro other held
  have waits : serving.waiting caller = some other.asked := by
    rw [serves.waiting, show specified.waiting caller = some other from held, Option.map_some]
  have same := Prod.mk.inj (calls other.asked waits)
  exact Question.ext same.1 same.2

variable [DecidableEq Caller]

/-- The caller stops waiting, or waits with the question. -/
theorem Serves.update (serves : Serves mailbox serving specified)
    (kept : Letters mailbox after letters) (caller : Caller) (asleep : Option Question) :
    Serves mailbox ⟨after, Function.update serving.waiting caller (asleep.map Question.asked)⟩
      ⟨letters, Function.update specified.waiting caller asleep⟩ := by
  refine ⟨kept, fun other => ?_⟩
  by_cases same : other = caller
  · simp [same]
  · simp [same, serves.waiting]

/-- The specification follows a step of the node. -/
theorem serves_step {event : MailEvent Caller fuel} (serves : Serves mailbox serving specified)
    (taken : MailStep ei fuel mailbox serving event served) :
    Transition.Follows (mailSelection fuel).Step (Serves mailbox served) specified event.shown := by
  have holds := serves.letters
  cases taken with
  | @accepts _ _ acceptor message letter tells reached ran =>
      have enqueues := arrive_enqueues serving.node acceptor message
      rw [reached, ran] at enqueues
      have stock := acceptorDelivers_stock ran
      simp only [AutoNode.stock, Prod.mk.injEq] at stock
      exact ⟨_, .arrives letter specified, holds.enqueue tells enqueues stock.1 stock.2,
        serves.waiting⟩
  | @delivers _ after origin message letter tells target ran =>
      have enqueues := delivered_enqueues serving.node origin message
      have delivered : serving.node.delivered origin message = after := congrArg Prod.snd ran
      rw [target, delivered] at enqueues
      have stock := deliver_stock origin serving.node.messages.length (serving.node.gained message)
      rw [ran] at stock
      simp only [AutoNode.stock, Prod.mk.injEq] at stock
      exact ⟨_, .arrives letter specified, holds.enqueue tells enqueues stock.1 stock.2,
        serves.waiting⟩
  | @answers _ _ caller question now reception calls ran ended =>
      rcases receives_refines ei holds question ran with ⟨refused, missed, kept⟩ |
        ⟨before, letter, behind, split, refused, accepted, given, kept⟩
      · rcases question.call.unanswered_cases now with ⟨expired, null⟩ | ⟨-, waits⟩
        · have missed' := missed.trans (congrArg (·, question.binding) null)
          exact ⟨_, .expires (serves.calls calls) refused expired missed',
            serves.update kept caller none⟩
        · rw [missed, waits] at ended
          exact absurd rfl ended
      · exact ⟨_, .takes now (serves.calls calls) split refused accepted given,
          serves.update kept caller none⟩
  | @waits _ _ caller question now left calls ran =>
      rcases receives_refines ei holds question ran with ⟨refused, missed, kept⟩ |
        ⟨before, letter, behind, split, refused, accepted, given, kept⟩
      · obtain ⟨outcome, rfl⟩ := Prod.mk.inj missed
        rcases question.call.unanswered_cases now with ⟨-, null⟩ | ⟨early, -⟩
        · rw [null] at outcome
          cases outcome
        · exact ⟨_, .waits (serves.calls calls) refused early,
            serves.update kept caller (some question)⟩
      · cases letter with
        | report mException => cases given
        | mail mail => cases given.1
  | @quits _ caller question asleep timed =>
      rw [serves.waiting] at asleep
      obtain ⟨other, waits, same⟩ := Option.map_eq_some_iff.mp asleep
      obtain rfl : other = question :=
        Question.ext (congrArg Prod.fst same) (congrArg Prod.snd same)
      exact ⟨_, .quits waits timed rfl, serves.update holds caller none⟩
  | works spares => exact ⟨holds.of_same spares.mailBox spares.messages, serves.waiting⟩

/-- A mailbox of a node refines the specification. Every run of deliveries and receives is one of
the specification, with the same letters, passes and answers. -/
theorem mailbox_refines {events : List (MailEvent Caller fuel)}
    (serves : Serves mailbox serving specified)
    (run : Run (· = serving) (MailStep ei fuel mailbox) events served) :
    ∃ later, Run (· = specified) (mailSelection fuel).Step (events.filterMap MailEvent.shown)
      later ∧ Serves mailbox served later := by
  apply run.simulates
  · rintro state rfl
    exact ⟨specified, rfl, serves⟩
  · intro state event next abstract there taken
    exact serves_step ei there taken

/-- The receives of a mailbox that was empty follow a schedule: each pass takes the oldest letter
that its question accepts of those that nobody took before, and only a call with a timeout that
waits gives up. -/
theorem receives_scheduled {events : List (MailEvent Caller fuel)} {object : MailBox}
    (here : node.mailBoxes[mailbox]? = some object) (empty : object.mQueue.mList = [])
    (run : Run (· = ⟨node, fun _ => none⟩) (MailStep ei fuel mailbox) events served) :
    ∃ taker later,
      (mailSelection fuel).Schedule (events.filterMap MailEvent.shown) later.queue taker ∧
      (mailSelection fuel).Attendance (events.filterMap MailEvent.shown) later.waiting ∧
      Serves mailbox served later := by
  have queue : node.queueOf mailbox = [] := (AutoNode.queueOf_eq here).trans empty
  have serves : Serves mailbox (⟨node, fun _ => none⟩ : Serving Caller)
      (⟨[], fun _ => none⟩ : Selecting Caller (Letter fuel) Question) :=
    ⟨⟨by rw [here]; rfl, by rw [queue]; exact .nil, by rw [queue]; exact .nil⟩, fun _ => rfl⟩
  obtain ⟨later, followed, kept⟩ : ∃ later, Run (· = ⟨[], fun _ => none⟩) (mailSelection fuel).Step
      (events.filterMap MailEvent.shown) later ∧ Serves mailbox served later := by
    apply run.simulates
    · rintro state rfl
      exact ⟨_, rfl, serves⟩
    · intro state event next abstract there taken
      exact serves_step ei there taken
  obtain ⟨taker, scheduled, attended⟩ := Selection.exists_schedule followed
  exact ⟨taker, later, scheduled, attended, kept⟩

end Selective

/-- A node with one mailbox, which has a name. -/
def inboxNode : AutoNode := (AutoNode.registerMailBox (text "inbox") 0 firstCreated).2

/-- A pair of numbers as a letter. -/
def pairLetter (first second : BitVec 64) : Letter 5 :=
  .mail ⟨numberPair first second, ⟨⟨⟨rfl, rfl⟩, rfl⟩, rfl⟩, Nat.le_add_right 4 1⟩

/-- A question for a pair with the number 2 behind. -/
def pairQuestion (call : ReceiveCall) (asked : call.pattern = some scannedPattern) : Question where
  call := call
  binding := some .empty
  valid pattern wanted := by
    obtain rfl : scannedPattern = pattern := Option.some.inj (asked.symm.trans wanted)
    decide
  values := VariableBinding.values_empty _

/-- A receive that waits for as long as it takes. -/
def patientQuestion : Question := pairQuestion (.receivePattern scannedPattern) rfl

/-- A receive that waits for a second at most. -/
def hastyQuestion : Question := pairQuestion (.receivePatternWithin 1000 0 scannedPattern) rfl

/-- The node after two pairs arrived. -/
def pairedNode : AutoNode :=
  (inboxNode.delivered .node (pairMessage 7 3)).delivered .node (pairMessage 8 2)

/-- What the patient receive hands out, and the node after it. -/
def pairReception : Reception × AutoNode :=
  pairedNode.receives externalFormat 5 0 patientQuestion.call 0 patientQuestion.binding

/-- Two receives wait, the second pair ends the one with null, and the other one takes it. -/
def pairEvents : List (MailEvent Bool 5) :=
  [.waits true patientQuestion 0, .waits false hastyQuestion 0, .arrives (pairLetter 7 3),
    .arrives (pairLetter 8 2), .quits false hastyQuestion (.returns none, some .empty),
    .answers true patientQuestion 0 pairReception.1]

/-- The mailbox at the start, without a letter and without a caller. -/
def emptyServing : Serving Bool := ⟨inboxNode, fun _ => none⟩

/-- The two receives that wait. -/
def pairWaiting : Bool → Option (ReceiveCall × Option VariableBinding) :=
  Function.update (Function.update emptyServing.waiting true (some patientQuestion.asked)) false
    (some hastyQuestion.asked)

/-- Both receives find the mailbox empty. -/
theorem pair_waits : Run (· = emptyServing) (MailStep externalFormat 5 0)
    [.waits true patientQuestion 0, .waits false hastyQuestion 0] ⟨inboxNode, pairWaiting⟩ := by
  have quiet : ∀ question, emptyServing.Calls true question := by
    rintro question held ⟨⟩
  have apart : ∀ question, Serving.Calls ⟨inboxNode,
      Function.update emptyServing.waiting true (some patientQuestion.asked)⟩ false question := by
    rintro question held ⟨⟩
  have start : Run (· = emptyServing) (MailStep externalFormat 5 0) [] emptyServing := .start rfl
  have patient : MailStep externalFormat 5 0 emptyServing (.waits true patientQuestion 0) _ :=
    @MailStep.waits Bool _ _ _ _ emptyServing inboxNode _ _ _ (some .empty) (quiet _) rfl
  exact (start.step patient).step
    (@MailStep.waits Bool _ _ _ _ _ inboxNode _ hastyQuestion 0 (some .empty) (apart _) rfl)

theorem pair_run : ∃ served,
    Run (· = emptyServing) (MailStep externalFormat 5 0) pairEvents served := by
  have first : MailStep externalFormat 5 0 ⟨inboxNode, pairWaiting⟩ (.arrives (pairLetter 7 3))
      ⟨inboxNode.delivered .node (pairMessage 7 3), pairWaiting⟩ :=
    @MailStep.delivers Bool _ _ _ _ _ _ .node (pairMessage 7 3) _ rfl rfl rfl
  have second : MailStep externalFormat 5 0
      ⟨inboxNode.delivered .node (pairMessage 7 3), pairWaiting⟩ (.arrives (pairLetter 8 2))
      ⟨pairedNode, pairWaiting⟩ :=
    @MailStep.delivers Bool _ _ _ _ _ _ .node (pairMessage 8 2) _ rfl rfl rfl
  have quit : MailStep externalFormat 5 0 ⟨pairedNode, pairWaiting⟩
      (.quits false hastyQuestion (.returns none, some .empty)) _ :=
    @MailStep.quits Bool _ _ _ _ ⟨pairedNode, pairWaiting⟩ _ hastyQuestion rfl rfl
  have ended : pairReception.1.1 = .returns (some (numberPair 8 2)) := rfl
  have same : Serving.Calls ⟨pairedNode, Function.update pairWaiting false none⟩ true
      patientQuestion := by
    rintro held ⟨⟩
    rfl
  exact ⟨_, (((pair_waits.step first).step second).step quit).step
    (@MailStep.answers Bool _ _ _ _ _ pairReception.2 _ _ 0 pairReception.1 same rfl
      (by simp [ended]))⟩

theorem mailbox_refines_pair : ∃ served,
    ∃ later : Selecting Bool (Letter 5) Question,
      Run (· = ⟨[], fun _ => none⟩) (mailSelection 5).Step (pairEvents.filterMap MailEvent.shown)
        later ∧ Serves 0 served later := by
  obtain ⟨served, run⟩ := pair_run
  have empty : Letters 0 inboxNode ([] : List (Letter 5)) := by
    constructor
    · rfl
    · exact List.nodup_nil
    · exact .nil
  exact ⟨served, mailbox_refines externalFormat ⟨empty, fun _ => rfl⟩ run⟩

theorem receives_scheduled_pair : ∃ served taker, ∃ later : Selecting Bool (Letter 5) Question,
    (mailSelection 5).Schedule (pairEvents.filterMap MailEvent.shown) later.queue taker ∧
      (mailSelection 5).Attendance (pairEvents.filterMap MailEvent.shown) later.waiting ∧
      Serves 0 served later := by
  obtain ⟨served, run⟩ := pair_run
  exact ⟨served, receives_scheduled externalFormat rfl rfl run⟩

end Epi.Node
