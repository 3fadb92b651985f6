import Epi.Node.Guards

namespace Epi.Node

open Verification Epi.Type Epi.Buffer Epi.Queue

/-- The first member in order whose pattern matches the payload, and the binding of that match. -/
def FirstMatch (fuel : Nat) (members : List (ErlTerm × Nat)) (payload : ErlTerm) (command : Nat)
    (binding : Option VariableBinding) : Prop :=
  ∃ before pattern after, members = before ++ (pattern, command) :: after ∧
    (∀ other ∈ before, (other.1.matchPattern fuel payload (some .empty)).1 = .returns false) ∧
    pattern.matchPattern fuel payload (some .empty) = (.returns true, binding)

/-- An error, or a payload that the pattern of some member matches. -/
def Wanted (fuel : Nat) (members : List (ErlTerm × Nat)) (message : EpiMessage) : Prop :=
  message.messageType = .errorMsg ∨ ∃ payload, message.payload = some payload ∧
    ∃ member ∈ members, (member.1.matchPattern fuel payload (some .empty)).1 = .returns true

/-- The calls of `execute` for a message that was taken: none for an error, and one otherwise. -/
def Dispatched (fuel : Nat) (members : List (ErlTerm × Nat)) (address : Nat) (message : EpiMessage)
    (executions : List Execution) : Prop :=
  message.messageType = .errorMsg ∧ executions = [] ∨
    ∃ payload command binding, message.payload = some payload ∧
      FirstMatch fuel members payload command binding ∧
      executions = [⟨command, address, payload, binding, none⟩]

namespace Arrival

/-- Every queued message is an error or has a payload that a match can compare. -/
def Receivable (fuel : Nat) (look : Arrival) : Prop :=
  ∀ address ∈ look.mQueue.mList, ∃ message, look.messages[address]? = some message ∧
    message.Receivable fuel

/-- A queued message is wanted. -/
def Wanted (fuel : Nat) (members : List (ErlTerm × Nat)) (look : Arrival) : Prop :=
  ∃ address ∈ look.mQueue.mList, ∃ message, look.messages[address]? = some message ∧
    Node.Wanted fuel members message

end Arrival

/-- The queue and the messages before the first pass. -/
def Dispatching.now (state : Dispatching) : Arrival := ⟨state.mQueue, state.messages⟩

/-- What the caller gets for a message that was taken. -/
def delivered (address : Nat) : EpiMessage → Call Nat
  | .errorMessage mException => .throws (.connection mException.mMsg)
  | _ => .returns address

/-- The combination of the guards with these patterns and commands. -/
def composedGuard (members : List (ErlTerm × Nat)) : MailBoxGuard :=
  .composed (members.map fun member => .matchingCommand member.1 member.2)

/-- The commands do not throw. -/
def quietCommands : Commands := fun _ _ => none

section Dispatch

variable (ei : Ei) {fuel : Nat} {members : List (ErlTerm × Nat)} {state : Dispatching}
  {address : Nat} {message : EpiMessage} {payload : ErlTerm}

/-- A member executes its command when its pattern matches, and leaves no trace when it does not. -/
theorem matchingCommand_answers {pattern : ErlTerm} (valid : pattern.Valid) (command : Nat)
    (held : state.messages[address]? = some message) (decoded : message.payload = some payload)
    (proper : Proper payload) (enough : payload.matchDepth ≤ fuel) :
    (pattern.matchPattern fuel payload (some .empty)).1 = .returns false ∧
        MatchingCommandGuard.guardMatch ei fuel quietCommands pattern command address state =
          (.returns false, state) ∨
      ∃ binding, pattern.matchPattern fuel payload (some .empty) = (.returns true, binding) ∧
        MatchingCommandGuard.guardMatch ei fuel quietCommands pattern command address state =
          (.returns true, { state with
            executed := state.executed ++ [⟨command, address, payload, binding, none⟩] }) := by
  have values : ((some VariableBinding.empty).getD .empty).Values Proper :=
    VariableBinding.values_empty _
  obtain ⟨success, binding, matched, -⟩ := matchPattern_answers valid proper values enough
  rw [MatchingCommandGuard.guardMatch,
    Effect.bind_of_returns (Dispatching.onMessage_of_payload ei held decoded)]
  cases success with
  | false =>
      refine .inl ⟨by rw [matched], ?_⟩
      simp only [matched, Effect.lift_run]
  | true =>
      refine .inr ⟨binding, matched, ?_⟩
      simp only [matched]
      rfl

/-- The members are asked in order, and only the first whose pattern matches executes its command. -/
theorem guardMatchEach_answers (valid : ∀ member ∈ members, member.1.Valid)
    (held : state.messages[address]? = some message) (decoded : message.payload = some payload)
    (proper : Proper payload) (enough : payload.matchDepth ≤ fuel) :
    (∀ member ∈ members, (member.1.matchPattern fuel payload (some .empty)).1 = .returns false) ∧
        MailBoxGuard.guardMatchEach ei fuel quietCommands address
          (members.map fun member => .matchingCommand member.1 member.2) state =
          (.returns false, state) ∨
      ∃ command binding, FirstMatch fuel members payload command binding ∧
        MailBoxGuard.guardMatchEach ei fuel quietCommands address
          (members.map fun member => .matchingCommand member.1 member.2) state =
          (.returns true, { state with
            executed := state.executed ++ [⟨command, address, payload, binding, none⟩] }) := by
  induction members with
  | nil => exact .inl ⟨List.forall_mem_nil _, rfl⟩
  | cons member rest ih =>
      rw [List.forall_mem_cons] at valid
      rw [List.map_cons, MailBoxGuard.guardMatchEach, MailBoxGuard.guardMatch]
      rcases matchingCommand_answers ei valid.1 member.2 held decoded proper enough with
        ⟨refused, ran⟩ | ⟨binding, matched, ran⟩
      · rw [Effect.bind_of_returns ran]
        rcases ih valid.2 with ⟨all, later⟩ | ⟨command, binding, first, later⟩
        · exact .inl ⟨List.forall_mem_cons.mpr ⟨refused, all⟩, later⟩
        · obtain ⟨before, pattern, after, same, refusedBefore, matched⟩ := first
          refine .inr ⟨command, binding, ⟨member :: before, pattern, after, ?_, ?_, matched⟩, later⟩
          · rw [same]
            rfl
          · exact List.forall_mem_cons.mpr ⟨refused, refusedBefore⟩
      · rw [Effect.bind_of_returns ran]
        exact .inr ⟨member.2, binding, ⟨[], member.1, rest, rfl, List.forall_mem_nil _, matched⟩, rfl⟩

/-- A check takes the wanted messages, with one execution for each that is not an error. -/
theorem checkMessage_answers (valid : ∀ member ∈ members, member.1.Valid)
    (held : state.messages[address]? = some message) (receivable : message.Receivable fuel) :
    ¬ Wanted fuel members message ∧
        (composedGuard members).checkMessage ei fuel quietCommands address state =
          (.returns false, state) ∨
      Wanted fuel members message ∧ ∃ executions, Dispatched fuel members address message executions ∧
        (composedGuard members).checkMessage ei fuel quietCommands address state =
          (.returns true, { state with executed := state.executed ++ executions }) := by
  rw [MailBoxGuard.checkMessage, MailBoxGuard.check, Effect.bind_run, Effect.get_run]
  dsimp only
  simp only [held]
  rcases receivable with error | ⟨payload, decoded, proper, enough⟩
  · refine .inr ⟨.inl error, [], .inl ⟨error, rfl⟩, ?_⟩
    simp only [error, List.append_nil]
    rfl
  · have type := EpiMessage.messageType_of_payload decoded
    have noError : message.messageType ≠ .errorMsg := by
      intro error
      rcases type with sent | sent <;> cases sent.symm.trans error
    have asked := guardMatchEach_answers ei valid held decoded proper enough
    rcases asked with ⟨refused, ran⟩ | ⟨command, binding, first, ran⟩
    · refine .inl ⟨?_, ?_⟩
      · rintro (error | ⟨other, same, member, inside, matched⟩)
        · exact noError error
        · obtain rfl := Option.some.inj (decoded.symm.trans same)
          rw [refused member inside] at matched
          cases matched
      · rcases type with sent | sent <;>
          simp only [sent, Effect.mapOutcome_run, composedGuard, MailBoxGuard.guardMatch, ran] <;> rfl
    · obtain ⟨before, pattern, after, same, refusedBefore, matched⟩ := first
      refine .inr ⟨.inr ⟨payload, decoded, (pattern, command), ?_, ?_⟩, _,
        .inr ⟨payload, command, binding, decoded,
          ⟨before, pattern, after, same, refusedBefore, matched⟩, rfl⟩, ?_⟩
      · rw [same]
        simp
      · rw [matched]
      · rcases type with sent | sent <;>
          simp only [sent, Effect.mapOutcome_run, composedGuard, MailBoxGuard.guardMatch, ran] <;> rfl

/-- The check of a message in the queue refuses it, or it takes it because it is wanted. -/
theorem queued_answers (valid : ∀ member ∈ members, member.1.Valid)
    (receivable : state.now.Receivable fuel) {address : Nat}
    (queued : address ∈ state.mQueue.mList) {message : EpiMessage}
    (held : state.messages[address]? = some message) :
    ¬ Wanted fuel members message ∧
        (composedGuard members).checkMessage ei fuel quietCommands address state =
          (.returns false, state) ∨
      Wanted fuel members message ∧ ∃ executions, Dispatched fuel members address message executions ∧
        (composedGuard members).checkMessage ei fuel quietCommands address state =
          (.returns true, { state with executed := state.executed ++ executions }) := by
  obtain ⟨other, same, here⟩ := receivable address queued
  obtain rfl : message = other := Option.some.inj (held.symm.trans same)
  exact checkMessage_answers ei valid held here

/-- A pass takes the oldest wanted message, or it changes nothing if there is none. -/
theorem pass_answers (valid : ∀ member ∈ members, member.1.Valid)
    (receivable : state.now.Receivable fuel) :
    ¬ state.now.Wanted fuel members ∧
        MailBox.pass ((composedGuard members).checkMessage ei fuel quietCommands) state =
          (.returns none, state) ∨
      ∃ old chosen new message executions, state.mQueue.mList = old ++ chosen :: new ∧
        (∀ other ∈ old, ∀ earlier, state.messages[other]? = some earlier →
          ¬ Wanted fuel members earlier) ∧
        state.messages[chosen]? = some message ∧ Wanted fuel members message ∧
        Dispatched fuel members chosen message executions ∧
        MailBox.pass ((composedGuard members).checkMessage ei fuel quietCommands) state =
          (.returns (some chosen), {
            mQueue := state.mQueue.remove chosen
            messages := state.messages
            executed := state.executed ++ executions }) := by
  by_cases waiting : state.now.Wanted fuel members
  · right
    have answers : ∀ address ∈ state.mQueue.mList,
        (composedGuard members).checkMessage ei fuel quietCommands address state =
            (.returns false, state) ∨
          ∃ after, (composedGuard members).checkMessage ei fuel quietCommands address state =
            (.returns true, after) := by
      intro address member
      obtain ⟨message, held, -⟩ := receivable address member
      rcases queued_answers ei valid receivable member held with ⟨-, refused⟩ | ⟨-, _, -, accepted⟩
      · exact .inl refused
      · exact .inr ⟨_, accepted⟩
    have present : ∃ address ∈ state.mQueue.mList, ∃ after,
        (composedGuard members).checkMessage ei fuel quietCommands address state =
          (.returns true, after) := by
      obtain ⟨address, member, message, held, wanted⟩ := waiting
      rcases queued_answers ei valid receivable member held with ⟨refused, -⟩ | ⟨-, _, -, accepted⟩
      · exact absurd wanted refused
      · exact ⟨address, member, _, accepted⟩
    obtain ⟨old, chosen, new, after, same, rejected, taken⟩ :=
      GenericQueue.first_accepted answers present
    have queued : chosen ∈ state.mQueue.mList := by simp [same]
    obtain ⟨message, held, -⟩ := receivable chosen queued
    rcases queued_answers ei valid receivable queued held with
      ⟨-, refused⟩ | ⟨wanted, executions, dispatched, accepted⟩
    · rw [taken] at refused
      cases refused
    · refine ⟨old, chosen, new, message, executions, same, ?_, held, wanted, dispatched,
        pass_accepted same rejected accepted⟩
      intro other member earlier heldEarlier
      have before : other ∈ state.mQueue.mList := by simp [same, member]
      rcases queued_answers ei valid receivable before heldEarlier with ⟨refused, -⟩ | ⟨-, _, -, other⟩
      · exact refused
      · rw [rejected _ member] at other
        cases other
  · refine .inl ⟨waiting, pass_rejected fun address member => ?_⟩
    obtain ⟨message, held, -⟩ := receivable address member
    rcases queued_answers ei valid receivable member held with ⟨-, refused⟩ | ⟨wanted, -⟩
    · exact refused
    · exact absurd ⟨address, member, message, held, wanted⟩ waiting

/-- A message that was taken is thrown, or it is handed to the caller. -/
theorem takeMessage_delivers (held : state.messages[address]? = some message)
    (wanted : Wanted fuel members message) :
    MailBox.takeMessage address state = (delivered address message, state) := by
  rw [MailBox.takeMessage, Effect.bind_run, Effect.get_run]
  dsimp only
  simp only [held]
  rcases wanted with error | ⟨payload, decoded, -⟩
  · cases message with
    | errorMessage mException => rfl
    | _ => cases error
  · cases message with
    | sendMessage msg mRecipient => rfl
    | regSendMessage msg mSender mRecipient => rfl
    | _ => cases decoded

/-- The first pass that finds a wanted message takes the oldest one, and these commands are executed
for it. -/
def TakesOldest (fuel : Nat) (members : List (ErlTerm × Nat)) (looks : List Arrival) (look : Arrival)
    (chosen : Nat) (message : EpiMessage) (executions : List Execution) : Prop :=
  ∃ passed later old new, looks = passed ++ look :: later ∧
    (∀ other ∈ passed, ¬ other.Wanted fuel members) ∧
    look.mQueue.mList = old ++ chosen :: new ∧
    (∀ other ∈ old, ∀ earlier, look.messages[other]? = some earlier →
      ¬ Wanted fuel members earlier) ∧
    look.messages[chosen]? = some message ∧ Wanted fuel members message ∧
    Dispatched fuel members chosen message executions

theorem getGuarded_takes (valid : ∀ member ∈ members, member.1.Valid) (waits : List Arrival)
    (receivable : ∀ look ∈ state.now :: waits, look.Receivable fuel)
    (waiting : ∃ look ∈ state.now :: waits, look.Wanted fuel members) :
    ∃ look chosen message executions,
      TakesOldest fuel members (state.now :: waits) look chosen message executions ∧
      MailBox.getGuarded ((composedGuard members).checkMessage ei fuel quietCommands) waits state =
        (.returns chosen, {
          mQueue := look.mQueue.remove chosen
          messages := look.messages
          executed := state.executed ++ executions }) := by
  induction waits generalizing state with
  | nil =>
      rcases pass_answers ei valid (receivable _ List.mem_cons_self) with
        ⟨refused, -⟩ | ⟨old, chosen, new, message, executions, same, before, held, wanted,
          dispatched, taken⟩
      · obtain ⟨look, member, found⟩ := waiting
        rw [List.mem_singleton] at member
        exact absurd (member ▸ found) refused
      · refine ⟨state.now, chosen, message, executions, ⟨[], [], old, new, rfl,
          List.forall_mem_nil _, same, before, held, wanted, dispatched⟩, ?_⟩
        rw [MailBox.getGuarded, Effect.bind_of_returns taken]
        rfl
  | cons arrival rest ih =>
      rcases pass_answers ei valid (receivable _ List.mem_cons_self) with
        ⟨refused, passed⟩ | ⟨old, chosen, new, message, executions, same, before, held, wanted,
          dispatched, taken⟩
      · have later : ∃ look ∈ arrival :: rest, look.Wanted fuel members := by
          obtain ⟨look, member, found⟩ := waiting
          rcases List.mem_cons.mp member with rfl | inside
          · exact absurd found refused
          · exact ⟨look, inside, found⟩
        -- The thread wakes with what the others left, and nothing was executed up to here.
        obtain ⟨look, chosen, message, executions, takes, got⟩ :=
          @ih { state with mQueue := arrival.mQueue, messages := arrival.messages }
            (fun look member => receivable look (List.mem_cons_of_mem _ member)) later
        obtain ⟨before, after, old, new, split, first, found⟩ := takes
        refine ⟨look, chosen, message, executions, ⟨state.now :: before, after, old, new, ?_, ?_,
          found⟩, ?_⟩
        · rw [List.cons_append, ← split]
          rfl
        · exact List.forall_mem_cons.mpr ⟨refused, first⟩
        · rw [MailBox.getGuarded, Effect.bind_of_returns passed]
          exact got
      · refine ⟨state.now, chosen, message, executions, ⟨[], arrival :: rest, old, new, rfl,
          List.forall_mem_nil _, same, before, held, wanted, dispatched⟩, ?_⟩
        rw [MailBox.getGuarded, Effect.bind_of_returns taken]
        rfl

/-- However many passes and waits it takes, a receive takes the oldest wanted message of the first
pass that finds one. Only the first member whose pattern matches executes its command, once, and no
command is executed for an error. -/
theorem receive_dispatches (valid : ∀ member ∈ members, member.1.Valid) (waits : List Arrival)
    (receivable : ∀ look ∈ state.now :: waits, look.Receivable fuel)
    (waiting : ∃ look ∈ state.now :: waits, look.Wanted fuel members) :
    ∃ look chosen message executions,
      TakesOldest fuel members (state.now :: waits) look chosen message executions ∧
      MailBox.receiveGuarded ei fuel quietCommands (composedGuard members) waits state =
        (delivered chosen message, {
          mQueue := look.mQueue.remove chosen
          messages := look.messages
          executed := state.executed ++ executions }) := by
  obtain ⟨look, chosen, message, executions, takes, got⟩ :=
    getGuarded_takes ei valid waits receivable waiting
  refine ⟨look, chosen, message, executions, takes, ?_⟩
  obtain ⟨-, -, -, -, -, -, -, -, held, wanted, -⟩ := takes
  have thrown : Call.throwsOnly [.epiConnectionException] (delivered chosen message) =
      delivered chosen message := by
    cases message with
    | errorMessage mException => rfl
    | _ => rfl
  rw [MailBox.receiveGuarded, Method.throwsOnly, Effect.mapOutcome_run, Effect.bind_of_returns got,
    takeMessage_delivers held wanted]
  rw [thrown]

end Dispatch

/-- The guards of `{X, 2}` and of `{X, 2}` again, with two commands. -/
def pairMembers : List (ErlTerm × Nat) := [(scannedPattern, 0), (scannedPattern, 1)]

/-- A queue of `{7, 3}`. -/
def firstPair : Dispatching := ⟨⟨[0]⟩, [pairMessage 7 3], []⟩

/-- The queue of `{7, 3}` and `{8, 2}`, after the second one arrived. -/
def secondPair : Arrival := ⟨⟨[0, 1]⟩, [pairMessage 7 3, pairMessage 8 2]⟩

theorem receive_dispatches_second :
    ∃ look chosen message executions,
      TakesOldest 5 pairMembers [firstPair.now, secondPair] look chosen message executions ∧
      MailBox.receiveGuarded externalFormat 5 quietCommands (composedGuard pairMembers) [secondPair]
          firstPair =
        (delivered chosen message, {
          mQueue := look.mQueue.remove chosen
          messages := look.messages
          executed := firstPair.executed ++ executions }) := by
  have pairs : ∀ first second, (pairMessage first second).Receivable 5 :=
    fun first second => .inr ⟨numberPair first second, rfl, ⟨⟨rfl, rfl⟩, rfl⟩, Nat.le_add_right 4 1⟩
  refine receive_dispatches externalFormat ?_ [secondPair] ?_ ?_
  · intro member inside
    have known : member = (scannedPattern, 0) ∨ member = (scannedPattern, 1) := by
      simpa [pairMembers] using inside
    rcases known with rfl | rfl <;> decide
  · intro look member address queued
    have known : look = firstPair.now ∨ look = secondPair := by simpa using member
    rcases known with rfl | rfl
    · obtain rfl : address = 0 := by simpa [firstPair, Dispatching.now] using queued
      exact ⟨_, rfl, pairs 7 3⟩
    · have place : address = 0 ∨ address = 1 := by simpa [secondPair] using queued
      rcases place with rfl | rfl
      · exact ⟨_, rfl, pairs 7 3⟩
      · exact ⟨_, rfl, pairs 8 2⟩
  · exact ⟨secondPair, by simp, 1, by decide, pairMessage 8 2, rfl, .inr ⟨numberPair 8 2, rfl,
      (scannedPattern, 0), by simp [pairMembers], rfl⟩⟩

end Epi.Node
