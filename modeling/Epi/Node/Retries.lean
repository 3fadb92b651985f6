import Epi.Node.FailingGuards
import Epi.Library.Run

namespace Epi.Node

open Verification Epi.Type Epi.Buffer Epi.Queue

namespace MailBoxGuard

mutual

/-- The members that a guard asks, in order. A composed guard asks the members of its members. -/
def leaves : MailBoxGuard → List MailBoxGuard
  | .matchingCommand mPattern mCommand => [.matchingCommand mPattern mCommand]
  | .composed mGuardList => leavesEach mGuardList
  | .other answers => [.other answers]

def leavesEach : List MailBoxGuard → List MailBoxGuard
  | [] => []
  | guard :: rest => leaves guard ++ leavesEach rest

end

/-- A member that is no combination refuses this payload. -/
def Refuses (fuel address : Nat) (payload : ErlTerm) : MailBoxGuard → Prop
  | .matchingCommand mPattern _ =>
      (mPattern.matchPattern fuel payload (some .empty)).1 = .returns false
  | .composed _ => False
  | .other answers => answers address = .returns false

/-- The first member that does not refuse the payload is a pattern that matches it, and this is the
command of the pattern. -/
def Chooses (fuel address : Nat) (payload : ErlTerm) (command : Nat) (members : List MailBoxGuard) :
    Prop :=
  ∃ before pattern after, members = before ++ .matchingCommand pattern command :: after ∧
    (∀ member ∈ before, member.Refuses fuel address payload) ∧
    (pattern.matchPattern fuel payload (some .empty)).1 = .returns true

/-- A guard that is asked about this message executes the command. -/
def Executes (ei : Ei) (fuel address : Nat) (message : EpiMessage) (guard : MailBoxGuard)
    (command : Nat) : Prop :=
  ∃ payload,
    (EpiMessage.onErlangMessage (ErlangMessage.getMsg ei fuel) message).1 =
      .returns (some payload) ∧
    Chooses fuel address payload command guard.leaves

section Leaves

variable {ei : Ei} {fuel : Nat} {commands : Commands} {address : Nat}

theorem guardMatchEach_append (first second : List MailBoxGuard) :
    guardMatchEach ei fuel commands address (first ++ second) = (do
      if ← guardMatchEach ei fuel commands address first then
        return true
      else
        guardMatchEach ei fuel commands address second) := by
  funext state
  induction first generalizing state with
  | nil => rfl
  | cons guard rest ih =>
      rw [List.cons_append, guardMatchEach, guardMatchEach, Effect.bind_run, Effect.bind_run,
        Effect.bind_run]
      rcases guardMatch ei fuel commands address guard state with ⟨outcome, after⟩
      cases outcome with
      | returns accepted =>
          cases accepted with
          | true => rfl
          | false =>
              have later := ih after
              rw [Effect.bind_run] at later
              exact later
      | _ => rfl

mutual

/-- A guard answers as its members do. -/
theorem guardMatch_leaves (guard : MailBoxGuard) :
    guardMatch ei fuel commands address guard =
      guardMatchEach ei fuel commands address guard.leaves := by
  have alone : ∀ member : MailBoxGuard, guardMatch ei fuel commands address member =
      guardMatchEach ei fuel commands address [member] := by
    intro member
    funext state
    rw [guardMatchEach, Effect.bind_run]
    rcases guardMatch ei fuel commands address member state with ⟨outcome, after⟩
    cases outcome with
    | returns accepted => cases accepted <;> rfl
    | _ => rfl
  cases guard with
  | matchingCommand mPattern mCommand => exact alone _
  | composed mGuardList =>
      rw [guardMatch, leaves]
      exact guardMatchEach_leaves mGuardList
  | other answers => exact alone _

theorem guardMatchEach_leaves (guards : List MailBoxGuard) :
    guardMatchEach ei fuel commands address guards =
      guardMatchEach ei fuel commands address (leavesEach guards) := by
  cases guards with
  | nil => rfl
  | cons guard rest =>
      rw [leavesEach, guardMatchEach_append, guardMatchEach, ← guardMatch_leaves guard,
        ← guardMatchEach_leaves rest]

end

theorem chooses_cons {payload : ErlTerm} {command : Nat} {member : MailBoxGuard}
    {rest : List MailBoxGuard} :
    Chooses fuel address payload command (member :: rest) ↔
      (∃ pattern, member = .matchingCommand pattern command ∧
        (pattern.matchPattern fuel payload (some .empty)).1 = .returns true) ∨
      member.Refuses fuel address payload ∧ Chooses fuel address payload command rest := by
  constructor
  · rintro ⟨before, pattern, after, same, refused, matched⟩
    cases before with
    | nil => exact .inl ⟨pattern, (List.cons.inj same).1, matched⟩
    | cons first others =>
        obtain ⟨rfl, rfl⟩ := List.cons.inj same
        rw [List.forall_mem_cons] at refused
        exact .inr ⟨refused.1, others, pattern, after, rfl, refused.2, matched⟩
  · rintro (⟨pattern, rfl, matched⟩ | ⟨refused, before, pattern, after, rfl, others, matched⟩)
    · exact ⟨[], pattern, rest, rfl, List.forall_mem_nil _, matched⟩
    · exact ⟨member :: before, pattern, after, rfl, List.forall_mem_cons.mpr ⟨refused, others⟩,
        matched⟩

mutual

theorem leaves_apart (guard : MailBoxGuard) (members : List MailBoxGuard) :
    .composed members ∉ guard.leaves := by
  cases guard with
  | matchingCommand mPattern mCommand => simp [leaves]
  | composed mGuardList =>
      rw [leaves]
      exact leavesEach_apart mGuardList members
  | other answers => simp [leaves]

theorem leavesEach_apart (guards members : List MailBoxGuard) :
    .composed members ∉ leavesEach guards := by
  cases guards with
  | nil => simp [leavesEach]
  | cons guard rest =>
      rw [leavesEach, List.mem_append, not_or]
      exact ⟨leaves_apart guard members, leavesEach_apart rest members⟩

end

end Leaves

end MailBoxGuard

section Reads

variable {ei : Ei} {fuel : Nat}

theorem ErlangMessage.decodeMsg_stores {msg after : ErlangMessage} {payload : Option ErlTerm}
    (read : ErlangMessage.decodeMsg ei fuel msg = (.returns payload, after)) :
    after.mPayLoad = payload := by
  rcases ran : msg.mBuffer.readTerm ei fuel with ⟨outcome, buffer⟩
  simp only [ErlangMessage.decodeMsg, ran] at read
  cases outcome with
  | returns decoded =>
      cases read
      rfl
  | throws error =>
      dsimp only at read
      split at read <;> cases read
  | _ => cases read

theorem ErlangMessage.getMsg_again {msg after : ErlangMessage} {payload : ErlTerm}
    (read : ErlangMessage.getMsg ei fuel msg = (.returns (some payload), after)) :
    ErlangMessage.getMsg ei fuel after = (.returns (some payload), after) := by
  refine ErlangMessage.getMsg_decoded ei fuel ?_
  rw [ErlangMessage.getMsg, Method.throwsOnly, Effect.mapOutcome_run, Prod.mk.injEq,
    Call.throwsOnly_eq_returns, Effect.bind_run, Effect.get_run] at read
  dsimp only at read
  cases known : msg.mPayLoad with
  | some earlier =>
      rw [known] at read
      obtain ⟨same, rfl⟩ := read
      cases same
      exact known
  | none =>
      rw [known] at read
      exact ErlangMessage.decodeMsg_stores (Prod.ext read.1 read.2)

/-- A payload that was read is read again. -/
theorem EpiMessage.getMsg_again {message after : EpiMessage} {payload : ErlTerm}
    (read : message.onErlangMessage (ErlangMessage.getMsg ei fuel) =
      (.returns (some payload), after)) :
    after.onErlangMessage (ErlangMessage.getMsg ei fuel) = (.returns (some payload), after) := by
  cases message with
  | sendMessage msg mRecipient =>
      rcases ran : ErlangMessage.getMsg ei fuel msg with ⟨outcome, decoded⟩
      simp only [EpiMessage.onErlangMessage, ran] at read
      obtain ⟨rfl, rfl⟩ := Prod.mk.inj read
      simp only [EpiMessage.onErlangMessage, ErlangMessage.getMsg_again ran]
  | regSendMessage msg mSender mRecipient =>
      rcases ran : ErlangMessage.getMsg ei fuel msg with ⟨outcome, decoded⟩
      simp only [EpiMessage.onErlangMessage, ran] at read
      obtain ⟨rfl, rfl⟩ := Prod.mk.inj read
      simp only [EpiMessage.onErlangMessage, ErlangMessage.getMsg_again ran]
  | _ => cases read

end Reads

/-- The state after a question about a message: the message as it was read, and the executions. -/
def Dispatching.asked (address : Nat) (message : EpiMessage) (new : List Execution)
    (state : Dispatching) : Dispatching :=
  { state with
    messages := state.messages.set address message
    executed := state.executed ++ new }

/-- A question about a message reads it at most once, executes the command that is chosen, if there
is one, and depends on nothing else. -/
def Acts (address : Nat) (message : EpiMessage) (ask : Method Dispatching Bool)
    (chosen : Nat → Prop) : Prop :=
  ∃ outcome after new,
    (∀ state : Dispatching, state.messages[address]? = some message →
      ask state = (outcome, state.asked address after new)) ∧
    (∀ command, (∃ execution ∈ new, execution.command = command) ↔ chosen command) ∧
    (∀ execution ∈ new, execution.message = address) ∧ new.length ≤ 1

section Asked

variable {ei : Ei} {fuel : Nat} {commands : Commands} {address : Nat}

theorem Dispatching.asked_nothing {state : Dispatching} {message : EpiMessage}
    (held : state.messages[address]? = some message) : state.asked address message [] = state := by
  obtain ⟨inside, here⟩ := List.getElem?_eq_some_iff.mp held
  rw [Dispatching.asked, List.append_nil, ← here, List.set_getElem_self inside]

theorem Dispatching.asked_twice (state : Dispatching) (first second : EpiMessage)
    (new : List Execution) :
    (state.asked address first []).asked address second new = state.asked address second new := by
  rw [Dispatching.asked, Dispatching.asked, Dispatching.asked, List.set_set, List.append_nil]

theorem Dispatching.asked_holds {state : Dispatching} {message : EpiMessage}
    (held : state.messages[address]? = some message) (after : EpiMessage) (new : List Execution) :
    (state.asked address after new).messages[address]? = some after := by
  obtain ⟨inside, -⟩ := List.getElem?_eq_some_iff.mp held
  exact List.getElem?_set_self inside

section Command

variable {state after : Dispatching} {pattern payload : ErlTerm}
  {binding : Option VariableBinding}

theorem matchingCommand_executes
    (read : Dispatching.onMessage address
      (EpiMessage.onErlangMessage (ErlangMessage.getMsg ei fuel)) state =
        (.returns (some payload), after))
    (command : Nat) (matched : pattern.matchPattern fuel payload (some .empty) =
      (.returns true, binding)) :
    MatchingCommandGuard.guardMatch ei fuel commands pattern command address state =
      ((commands command address).elim (.returns true) .throws,
        { after with executed := after.executed ++
          [⟨command, address, payload, binding, commands command address⟩] }) := by
  rw [MatchingCommandGuard.guardMatch, Effect.bind_of_returns read]
  simp only [matched]
  rw [Effect.bind_run, Dispatching.execute]
  cases commands command address with
  | none => rfl
  | some error => rfl

theorem matchingCommand_passes
    (read : Dispatching.onMessage address
      (EpiMessage.onErlangMessage (ErlangMessage.getMsg ei fuel)) state =
        (.returns (some payload), after))
    (command : Nat) {answer : Call Bool}
    (matched : pattern.matchPattern fuel payload (some .empty) = (answer, binding))
    (unmatched : answer ≠ .returns true) :
    MatchingCommandGuard.guardMatch ei fuel commands pattern command address state =
      (answer, after) := by
  rw [MatchingCommandGuard.guardMatch, Effect.bind_of_returns read]
  simp only [matched]
  rw [Effect.lift_run]

theorem matchingCommand_unread {known : Call (Option ErlTerm)}
    (read : Dispatching.onMessage address
      (EpiMessage.onErlangMessage (ErlangMessage.getMsg ei fuel)) state = (known, after))
    (absent : ∀ payload, known ≠ .returns (some payload)) (command : Nat) :
    MatchingCommandGuard.guardMatch ei fuel commands pattern command address state =
      (known >>= fun _ => .aborts, after) := by
  rw [MatchingCommandGuard.guardMatch, Effect.bind_run, read]
  cases known with
  | returns found =>
      cases found with
      | none => rfl
      | some payload => exact absurd rfl (absent payload)
  | _ => rfl

end Command

section Members

variable {message : EpiMessage} {member : MailBoxGuard} {rest : List MailBoxGuard}
  {chosen : Nat → Prop}

/-- A member that does not refuse ends the questions. -/
theorem Acts.ends {outcome : Call Bool} {after : EpiMessage} {new : List Execution}
    (ran : ∀ state : Dispatching, state.messages[address]? = some message →
      member.guardMatch ei fuel commands address state = (outcome, state.asked address after new))
    (unrefused : outcome ≠ .returns false)
    (executed : ∀ command, (∃ execution ∈ new, execution.command = command) ↔ chosen command)
    (placed : ∀ execution ∈ new, execution.message = address) (once : new.length ≤ 1) :
    Acts address message
      (MailBoxGuard.guardMatchEach ei fuel commands address (member :: rest)) chosen := by
  refine ⟨outcome, after, new, fun state held => ?_, executed, placed, once⟩
  rw [MailBoxGuard.guardMatchEach, Effect.bind_run, ran state held]
  cases outcome with
  | returns taken =>
      cases taken with
      | true => rfl
      | false => exact absurd rfl unrefused
  | _ => rfl

/-- Behind a member that refuses the questions go on, with the message as that member left it. -/
theorem Acts.continues {after : EpiMessage}
    (ran : ∀ state : Dispatching, state.messages[address]? = some message →
      member.guardMatch ei fuel commands address state =
        (.returns false, state.asked address after []))
    (acts : Acts address after (MailBoxGuard.guardMatchEach ei fuel commands address rest) chosen) :
    Acts address message
      (MailBoxGuard.guardMatchEach ei fuel commands address (member :: rest)) chosen := by
  obtain ⟨outcome, last, new, later, executed, placed, once⟩ := acts
  refine ⟨outcome, last, new, fun state held => ?_, executed, placed, once⟩
  rw [MailBoxGuard.guardMatchEach, Effect.bind_of_returns (ran state held)]
  have continued := later _ (Dispatching.asked_holds held after [])
  rwa [Dispatching.asked_twice] at continued

/-- The commands that are chosen among these members for the payload of a message. -/
def MailBoxGuard.ChoosesFor (ei : Ei) (fuel : Nat) (address : Nat) (members : List MailBoxGuard)
    (message : EpiMessage) (command : Nat) : Prop :=
  ∃ payload,
    (EpiMessage.onErlangMessage (ErlangMessage.getMsg ei fuel) message).1 =
      .returns (some payload) ∧
    MailBoxGuard.Chooses fuel address payload command members

/-- A member of another class answers without a command. -/
theorem other_acts (answers : Nat → Call Bool)
    (acts : ∀ message, Acts address message
      (MailBoxGuard.guardMatchEach ei fuel commands address rest)
        (MailBoxGuard.ChoosesFor ei fuel address rest message)) :
    Acts address message
      (MailBoxGuard.guardMatchEach ei fuel commands address (.other answers :: rest))
        (MailBoxGuard.ChoosesFor ei fuel address (.other answers :: rest) message) := by
  have ran : ∀ state : Dispatching, state.messages[address]? = some message →
      MailBoxGuard.guardMatch ei fuel commands address (.other answers) state =
        (answers address, state.asked address message []) := by
    intro state held
    rw [MailBoxGuard.guardMatch, Effect.lift_run, Dispatching.asked_nothing held]
  unfold MailBoxGuard.ChoosesFor at acts ⊢
  simp only [MailBoxGuard.chooses_cons, MailBoxGuard.Refuses, reduceCtorEq, false_and,
    exists_false, false_or]
  by_cases refused : answers address = .returns false
  · simp only [refused, true_and]
    exact Acts.continues (fun state held => refused ▸ ran state held) (acts message)
  · exact Acts.ends ran refused (by simp [refused]) (by simp) (Nat.zero_le 1)

/-- A pattern with a command executes it where the payload matches. -/
theorem matchingCommand_acts (pattern : ErlTerm) (first : Nat)
    (acts : ∀ message, Acts address message
      (MailBoxGuard.guardMatchEach ei fuel commands address rest)
        (MailBoxGuard.ChoosesFor ei fuel address rest message)) :
    Acts address message
      (MailBoxGuard.guardMatchEach ei fuel commands address (.matchingCommand pattern first :: rest))
        (MailBoxGuard.ChoosesFor ei fuel address (.matchingCommand pattern first :: rest)
          message) := by
  unfold MailBoxGuard.ChoosesFor at acts ⊢
  simp only [MailBoxGuard.chooses_cons]
  rcases read : EpiMessage.onErlangMessage (ErlangMessage.getMsg ei fuel) message with
    ⟨known, decoded⟩
  have reads : ∀ state : Dispatching, state.messages[address]? = some message →
      Dispatching.onMessage address
          (EpiMessage.onErlangMessage (ErlangMessage.getMsg ei fuel)) state =
        (known, state.asked address decoded []) := by
    intro state held
    simp only [Dispatching.onMessage, onMessageAt, held, read, Dispatching.asked, List.append_nil]
  by_cases present : ∃ payload, known = .returns (some payload)
  · obtain ⟨payload, rfl⟩ := present
    simp only [Outcome.returns.injEq, Option.some.injEq, exists_eq_left',
      MailBoxGuard.Refuses]
    rcases matched : pattern.matchPattern fuel payload (some .empty) with ⟨answer, binding⟩
    by_cases accepted : answer = .returns true
    · subst accepted
      have ran : ∀ state : Dispatching, state.messages[address]? = some message →
          MailBoxGuard.guardMatch ei fuel commands address (.matchingCommand pattern first)
              state = ((commands first address).elim (.returns true) .throws,
                state.asked address decoded
                  [⟨first, address, payload, binding, commands first address⟩]) := by
        intro state held
        rw [MailBoxGuard.guardMatch,
          matchingCommand_executes (reads state held) first matched]
        simp only [Dispatching.asked, List.append_nil]
      have unrefused : (commands first address).elim (.returns true) .throws ≠
          (.returns false : Call Bool) := by
        cases commands first address <;> simp
      exact Acts.ends ran unrefused (by simp [matched, eq_comm]) (by simp) (Nat.le_refl 1)
    · have ran : ∀ state : Dispatching, state.messages[address]? = some message →
          MailBoxGuard.guardMatch ei fuel commands address (.matchingCommand pattern first)
              state = (answer, state.asked address decoded []) :=
        fun state held => matchingCommand_passes (reads state held) first matched accepted
      by_cases refused : answer = .returns false
      · subst refused
        -- What was read is what the later members read.
        have again := acts decoded
        rw [EpiMessage.getMsg_again read] at again
        simpa [matched] using Acts.continues ran again
      · exact Acts.ends ran refused (by simp [matched, accepted, refused]) (by simp)
          (Nat.zero_le 1)
  · have absent : ∀ payload, known ≠ .returns (some payload) := not_exists.mp present
    refine Acts.ends
      (fun state held => matchingCommand_unread (reads state held) absent first) ?_
      (by simp [absent]) (by simp) (Nat.zero_le 1)
    cases known <;> simp

end Members

/-- The questions to the members execute the command that is chosen for the payload. -/
theorem guardMatchEach_acts (members : List MailBoxGuard)
    (apart : ∀ inner, .composed inner ∉ members) (message : EpiMessage) :
    Acts address message (MailBoxGuard.guardMatchEach ei fuel commands address members)
      (MailBoxGuard.ChoosesFor ei fuel address members message) := by
  induction members generalizing message with
  | nil =>
      refine ⟨.returns false, message, [], fun state held => ?_, fun command => ?_, by simp,
        Nat.zero_le 1⟩
      · rw [Dispatching.asked_nothing held]
        rfl
      · simp [MailBoxGuard.ChoosesFor, MailBoxGuard.Chooses]
  | cons member rest ih =>
      have later := ih fun inner inside => apart inner (List.mem_cons_of_mem _ inside)
      cases member with
      | composed inner => exact absurd List.mem_cons_self (apart inner)
      | other answers => exact other_acts answers later
      | matchingCommand pattern first => exact matchingCommand_acts pattern first later

/-- A check executes the command that the guard chooses for a message of the Erlang classes. -/
theorem checkMessage_acts (guard : MailBoxGuard) (message : EpiMessage) :
    Acts address message (guard.checkMessage ei fuel commands address) fun command =>
      Erlang message ∧ guard.Executes ei fuel address message command := by
  have skipped : ∀ answer : Bool, (∀ state : Dispatching,
      state.messages[address]? = some message →
        guard.checkMessage ei fuel commands address state = (.returns answer, state)) →
      ¬ Erlang message → Acts address message (guard.checkMessage ei fuel commands address)
        fun command => Erlang message ∧ guard.Executes ei fuel address message command := by
    intro answer ran other
    refine ⟨.returns answer, message, [], fun state held => ?_, by simp [other], by simp, by simp⟩
    rw [ran state held, Dispatching.asked_nothing held]
  by_cases erlang : Erlang message
  · obtain ⟨outcome, after, new, ran, executed, placed, once⟩ :=
      @guardMatchEach_acts ei fuel commands address guard.leaves guard.leaves_apart message
    refine ⟨Call.catchingAny (fun _ => .returns false) outcome, after, new, fun state held => ?_,
      fun command => ?_, placed, once⟩
    · rw [checkMessage_eq held]
      rcases erlang with sent | sent <;>
        simp only [sent, Effect.mapOutcome_run, MailBoxGuard.guardMatch_leaves, ran state held]
    · exact (executed command).trans (and_iff_right erlang).symm
  · by_cases error : message.messageType = .errorMsg
    · refine skipped true (fun state held => ?_) erlang
      rw [checkMessage_eq held, error]
    · refine skipped false (fun state held => ?_) erlang
      rw [checkMessage_eq held]
      cases kind : message.messageType with
      | errorMsg => exact absurd kind error
      | sendMsg => exact absurd (.inl kind) erlang
      | regSendMsg => exact absurd (.inr kind) erlang
      | _ => rfl

end Asked

section Scan

variable {check : Nat → Method Dispatching Bool} {chosen : Nat → EpiMessage → Nat → Prop}

/-- The scan gets to the address: no address before it is taken. -/
def GetsTo (check : Nat → Method Dispatching Bool) (elems : List Nat) (state : Dispatching)
    (address : Nat) : Prop :=
  ∃ old new, elems = old ++ address :: new ∧ ∀ other ∈ old, (check other state).1 ≠ .returns true

theorem getsTo_cons {head : Nat} {tail : List Nat} {state : Dispatching} {address : Nat} :
    GetsTo check (head :: tail) state address ↔
      address = head ∨ (check head state).1 ≠ .returns true ∧ GetsTo check tail state address := by
  constructor
  · rintro ⟨old, new, same, passed⟩
    cases old with
    | nil => exact .inl (List.cons.inj same).1.symm
    | cons first others =>
        obtain ⟨rfl, rfl⟩ := List.cons.inj same
        rw [List.forall_mem_cons] at passed
        exact .inr ⟨passed.1, others, new, rfl, passed.2⟩
  · rintro (rfl | ⟨refused, old, new, rfl, passed⟩)
    · exact ⟨[], tail, rfl, List.forall_mem_nil _⟩
    · exact ⟨head :: old, new, rfl, List.forall_mem_cons.mpr ⟨refused, passed⟩⟩

/-- A question about one message leaves the answers for the others. -/
theorem Acts.elsewhere {address other : Nat} {message : EpiMessage} {new : List Execution}
    {state : Dispatching}
    (acts : ∀ message, Acts other message (check other) (chosen other message))
    (apart : other ≠ address) (known : other < state.messages.length) :
    (check other (state.asked address message new)).1 = (check other state).1 := by
  have held := List.getElem?_eq_getElem known
  obtain ⟨outcome, after, executions, ran, -⟩ := acts state.messages[other]
  have kept : (state.asked address message new).messages[other]? = some state.messages[other] := by
    rw [Dispatching.asked, List.getElem?_set_ne (Ne.symm apart), held]
  rw [ran _ held, ran _ kept]

/-- The executions of one question are of its message, at most once. -/
theorem executions_sublist {head : Nat} {new : List Execution}
    (placed : ∀ execution ∈ new, execution.message = head) (once : new.length ≤ 1) :
    (new.map Execution.message).Sublist [head] := by
  have same : new.map Execution.message = List.replicate new.length head := by
    rw [List.eq_replicate_iff]
    simpa using placed
  rw [same]
  exact (List.replicate_sublist_replicate head).mpr once

/-- A question about the head does not change which messages of the tail a scan gets to. -/
theorem getsTo_asked
    (acts : ∀ address message, Acts address message (check address) (chosen address message))
    {head : Nat} {tail : List Nat} (fresh : head ∉ tail) {state : Dispatching}
    (known : ∀ address ∈ tail, address < state.messages.length) (read : EpiMessage)
    (new : List Execution) (address : Nat) :
    GetsTo check tail (state.asked head read new) address ↔ GetsTo check tail state address := by
  refine exists_congr fun old => exists_congr fun later =>
    and_congr_right fun split => forall₂_congr fun other member => ?_
  have inTail : other ∈ tail := by simp [split, member]
  have apart : other ≠ head := fun same => fresh (same ▸ inTail)
  rw [Acts.elsewhere (acts other) apart (known other inTail)]

/-- A scan that returns executes, for each message that it gets to, the command that is chosen for
it, and at most one. -/
theorem scan_executes
    (acts : ∀ address message, Acts address message (check address) (chosen address message))
    {elems : List Nat} (distinct : elems.Nodup) {state after : Dispatching} {found : Option Nat}
    (known : ∀ address ∈ elems, address < state.messages.length)
    (ran : GenericQueue.scan check elems state = (.returns found, after)) :
    after.mQueue = state.mQueue ∧ after.messages.length = state.messages.length ∧
      ∃ new, after.executed = state.executed ++ new ∧
        (new.map Execution.message).Sublist elems ∧
        ∀ address command,
          (∃ execution ∈ new, execution.message = address ∧ execution.command = command) ↔
            GetsTo check elems state address ∧ ∃ message,
              state.messages[address]? = some message ∧ chosen address message command := by
  induction elems generalizing state with
  | nil =>
      cases ran
      exact ⟨rfl, rfl, [], (List.append_nil _).symm, .slnil, by simp [GetsTo]⟩
  | cons head tail ih =>
      rw [List.forall_mem_cons] at known
      rw [List.nodup_cons] at distinct
      have held := List.getElem?_eq_getElem known.1
      obtain ⟨outcome, read, first, asked, executed, placed, once⟩ := acts head state.messages[head]
      have here := asked state held
      rw [GenericQueue.scan, Effect.bind_run, here] at ran
      have atHead : ∀ command, (∃ execution ∈ first, execution.message = head ∧
          execution.command = command) ↔ chosen head state.messages[head] command := by
        intro command
        rw [← executed command]
        exact exists_congr fun execution => and_congr_right fun inside =>
          and_iff_right (placed execution inside)
      have onHead := executions_sublist placed once
      cases outcome with
      | returns accepted =>
          cases accepted with
          | true =>
              cases ran
              refine ⟨rfl, List.length_set, first, rfl,
                onHead.trans (List.sublist_append_left [head] tail), fun address command => ?_⟩
              have only : GetsTo check (head :: tail) state address ↔ address = head := by
                simp [getsTo_cons, here]
              rw [only]
              by_cases same : address = head
              · subst same
                simp [atHead command, held]
              · simp only [same, false_and, iff_false]
                rintro ⟨execution, inside, there, -⟩
                exact same (there.symm.trans (placed execution inside))
          | false =>
              have inside : ∀ address ∈ tail,
                  address < (state.asked head read first).messages.length := by
                intro address member
                rw [Dispatching.asked, List.length_set]
                exact known.2 address member
              obtain ⟨sameQueue, sameLength, second, log, ordered, found⟩ :=
                ih distinct.2 inside ran
              refine ⟨sameQueue, sameLength.trans List.length_set, first ++ second, ?_, ?_,
                fun address command => ?_⟩
              · rw [log, Dispatching.asked, List.append_assoc]
              · rw [List.map_append]
                exact onHead.append ordered
              · have later := getsTo_asked acts distinct.1 known.2 read first address
                simp only [List.mem_append, or_and_right, exists_or, found, later, getsTo_cons,
                  here]
                by_cases same : address = head
                · subst same
                  have absent : ¬ GetsTo check tail state address := by
                    rintro ⟨old, new, split, -⟩
                    exact distinct.1 (by simp [split])
                  simp [atHead command, held, absent]
                · have kept : (state.asked head read first).messages[address]? =
                      state.messages[address]? := List.getElem?_set_ne (Ne.symm same)
                  have absent : ¬ ∃ execution ∈ first, execution.message = address ∧
                      execution.command = command := by
                    rintro ⟨execution, member, there, -⟩
                    exact same (there.symm.trans (placed execution member))
                  simp [same, kept, absent]
      | _ => cases ran

/-- A pass scans the queue, and it takes at most what it found. -/
theorem pass_scans {state after : Dispatching} {found : Option Nat}
    (ran : MailBox.pass check state = (.returns found, after)) :
    ∃ middle mQueue, GenericQueue.scan check state.mQueue.mList state = (.returns found, middle) ∧
      after = { middle with mQueue := mQueue } ∧ mQueue.mList.Sublist state.mQueue.mList := by
  rw [MailBox.pass, Effect.bind_of_returns (Effect.get_run state), Effect.bind_eq_returns] at ran
  obtain ⟨⟨taken, mQueue⟩, middle, tried, rest⟩ := ran
  cases rest
  rw [GenericQueue.tryGetGuarded, Effect.bind_eq_returns] at tried
  obtain ⟨first, between, scanned, last⟩ := tried
  cases first with
  | none =>
      cases last
      exact ⟨_, _, scanned, rfl, List.Sublist.refl _⟩
  | some element =>
      cases last
      exact ⟨_, _, scanned, rfl, List.filter_sublist⟩

end Scan

/-- What happens to a mailbox. A pass shows where it started. -/
inductive ReceiveEvent where
  | delivered
  | decoded
  | taken
  | scanned (before : Dispatching) (guard : MailBoxGuard)

/-- A step of a mailbox: a delivery, the reading or the taking of a message by another receive, and
one pass of a receive with a guard. -/
inductive ReceiveStep (ei : Ei) (fuel : Nat) (commands : Commands) :
    Transition Dispatching ReceiveEvent
  | deliver (state : Dispatching) (message : EpiMessage) :
      ReceiveStep ei fuel commands state .delivered { state with
        mQueue := state.mQueue.push state.messages.length
        messages := state.messages ++ [message] }
  | decode (state : Dispatching) (address : Nat) (message : EpiMessage)
      (held : state.messages[address]? = some message) :
      ReceiveStep ei fuel commands state .decoded { state with
        messages := state.messages.set address
          (message.onErlangMessage (ErlangMessage.getMsg ei fuel)).2 }
  | take (state : Dispatching) (address : Nat) :
      ReceiveStep ei fuel commands state .taken { state with
        mQueue := state.mQueue.remove address }
  | scan {state after : Dispatching} {guard : MailBoxGuard} {found : Option Nat}
      (ran : MailBox.pass (guard.checkMessage ei fuel commands) state = (.returns found, after)) :
      ReceiveStep ei fuel commands state (.scanned state guard) after

/-- A new mailbox, with nothing executed. -/
def Dispatching.create : Dispatching := ⟨⟨[]⟩, [], []⟩

/-- No command that threw on a message is executed on it again. -/
def NoRetry (log : List Execution) : Prop :=
  log.Pairwise fun earlier later => earlier.error ≠ none →
    ¬ (later.message = earlier.message ∧ later.command = earlier.command)

/-- A pass does not get to a message on which a command threw, or its guard does not choose that
command for it. -/
def SparesFailed (ei : Ei) (fuel : Nat) (commands : Commands) : ReceiveEvent → Prop
  | .scanned before guard =>
      ∀ failed ∈ before.executed, failed.error ≠ none →
        ¬ (GetsTo (guard.checkMessage ei fuel commands) before.mQueue.mList before failed.message ∧
          ∃ message, before.messages[failed.message]? = some message ∧ Erlang message ∧
            guard.Executes ei fuel failed.message message failed.command)
  | _ => True

section Runs

variable {ei : Ei} {fuel : Nat} {commands : Commands}

/-- Every queued address is that of a message, and it is queued once. -/
def Dispatching.Placed (state : Dispatching) : Prop :=
  state.mQueue.mList.Nodup ∧ ∀ address ∈ state.mQueue.mList, address < state.messages.length

theorem scanned_noRetry {guard : MailBoxGuard} {state after : Dispatching} {found : Option Nat}
    (placed : state.Placed)
    (ran : MailBox.pass (guard.checkMessage ei fuel commands) state = (.returns found, after)) :
    after.Placed ∧ (NoRetry after.executed ↔
      NoRetry state.executed ∧ SparesFailed ei fuel commands (.scanned state guard)) := by
  obtain ⟨middle, mQueue, scanned, rfl, less⟩ := pass_scans ran
  obtain ⟨-, sameLength, new, log, ordered, chosen⟩ := scan_executes
    (fun address message => checkMessage_acts guard message) placed.1 placed.2 scanned
  refine ⟨⟨placed.1.sublist less, fun address member => ?_⟩, ?_⟩
  · rw [sameLength]
    exact placed.2 address (less.subset member)
  · have fresh : NoRetry new := by
      refine (List.pairwise_map.mp (placed.1.sublist ordered)).imp fun apart _ again => ?_
      exact apart again.1.symm
    rw [NoRetry, log, List.pairwise_append]
    refine and_congr_right fun _ => ?_
    refine (and_iff_right fresh).trans ?_
    refine forall₂_congr fun failed _ => ?_
    constructor
    · intro spared thrown reached
      obtain ⟨again, member, same⟩ := (chosen failed.message failed.command).mpr reached
      exact spared again member thrown same
    · intro spared again member thrown same
      exact spared thrown ((chosen failed.message failed.command).mp ⟨again, member, same⟩)

theorem run_noRetry {events : List ReceiveEvent} {state : Dispatching}
    (run : Run (· = Dispatching.create) (ReceiveStep ei fuel commands) events state) :
    state.Placed ∧
      (NoRetry state.executed ↔ ∀ event ∈ events, SparesFailed ei fuel commands event) := by
  induction run with
  | start initial =>
      subst initial
      exact ⟨⟨List.nodup_nil, by simp [Dispatching.create]⟩, by simp [NoRetry, Dispatching.create]⟩
  | step before taken ih =>
      obtain ⟨placed, same⟩ := ih
      rw [List.forall_mem_append, List.forall_mem_singleton]
      cases taken with
      | deliver message =>
          refine ⟨⟨?_, ?_⟩, by simpa [SparesFailed] using same⟩
          · refine placed.1.append (List.nodup_singleton _) fun address member last => ?_
            rw [List.mem_singleton] at last
            exact (placed.2 address member).ne last
          · intro address member
            rw [List.length_append, List.length_singleton]
            rcases List.mem_append.mp member with earlier | last
            · exact Nat.lt_succ_of_lt (placed.2 address earlier)
            · rw [List.mem_singleton.mp last]
              exact Nat.lt_succ_self _
      | decode address message held =>
          refine ⟨⟨placed.1, fun other member => ?_⟩, by simpa [SparesFailed] using same⟩
          rw [List.length_set]
          exact placed.2 other member
      | take address =>
          refine ⟨⟨placed.1.filter _, fun other member => ?_⟩, by simpa [SparesFailed] using same⟩
          exact placed.2 other (List.mem_of_mem_filter member)
      | scan ran =>
          obtain ⟨placedAfter, step⟩ := scanned_noRetry placed ran
          exact ⟨placedAfter, step.trans (and_congr_left' same)⟩

/-- A combination takes what a member takes exactly when no member is needed for an error and no
member that accepts stands behind one that throws. No run executes a command again on a message on
which it threw exactly when every pass spares these. -/
theorem failing_guards_isolated_iff (ei : Ei) (fuel : Nat) (commands : Commands) :
    (∀ outcomes address state message, state.messages[address]? = some message →
      (Isolated ei fuel commands outcomes address state ↔ Undisturbed outcomes message)) ∧
    ∀ events state, Run (· = Dispatching.create) (ReceiveStep ei fuel commands) events state →
      (NoRetry state.executed ↔ ∀ event ∈ events, SparesFailed ei fuel commands event) :=
  ⟨fun outcomes _ _ _ held => isolated_iff outcomes held, fun _ _ run => (run_noRetry run).2⟩

end Runs

/-- Commands that throw on every message. -/
def failingCommands : Commands := fun _ _ => some (.connection (text "failed"))

/-- The pattern `{X, 3}` with a command. -/
def failingGuard : MailBoxGuard :=
  .matchingCommand
    (.erlTuple true (some 2) [.erlVariable (text "X"), .simple (.erlLong (some 3))]) 0

/-- A mailbox with `{7, 3}`, which is scanned twice. `{8, 2}` arrives between the passes. -/
def failingState : Dispatching := ⟨⟨[0]⟩, [pairMessage 7 3], []⟩

/-- The end of a pass. -/
def failingPass (state : Dispatching) : Dispatching :=
  (MailBox.pass (failingGuard.checkMessage externalFormat 5 failingCommands) state).2

/-- The mailbox after the second arrival. -/
def arrivedState : Dispatching := { failingPass failingState with
  mQueue := (failingPass failingState).mQueue.push (failingPass failingState).messages.length
  messages := (failingPass failingState).messages ++ [pairMessage 8 2] }

theorem failingState_scanned :
    Run (· = Dispatching.create) (ReceiveStep externalFormat 5 failingCommands)
      [.delivered, .scanned failingState failingGuard] (failingPass failingState) := by
  have created : Run (· = Dispatching.create) (ReceiveStep externalFormat 5 failingCommands)
      [] Dispatching.create := .start rfl
  have first : Run (· = Dispatching.create) (ReceiveStep externalFormat 5 failingCommands)
      [.delivered] failingState := created.step (.deliver _ (pairMessage 7 3))
  have ran : MailBox.pass (failingGuard.checkMessage externalFormat 5 failingCommands)
      failingState = (.returns none, failingPass failingState) := rfl
  exact first.step (.scan ran)

theorem failing_guards_isolated_iff_once :
    (Isolated externalFormat 5 failingCommands [.reject, .accept] 0 failingState ↔
      Undisturbed [.reject, .accept] (pairMessage 7 3)) ∧
    (NoRetry (failingPass failingState).executed ↔
      ∀ event ∈ [.delivered, .scanned failingState failingGuard],
        SparesFailed externalFormat 5 failingCommands event) :=
  ⟨(failing_guards_isolated_iff externalFormat 5 failingCommands).1 _ _ _ _ rfl,
    (failing_guards_isolated_iff externalFormat 5 failingCommands).2 _ _ failingState_scanned⟩

theorem failing_guards_not_isolated :
    ¬ (∀ outcomes address state message, state.messages[address]? = some message →
        Isolated externalFormat 5 failingCommands outcomes address state) ∧
      ¬ ∀ events state, Run (· = Dispatching.create)
        (ReceiveStep externalFormat 5 failingCommands) events state → NoRetry state.executed := by
  constructor
  · intro isolated
    have held : failingState.messages[0]? = some (pairMessage 7 3) := rfl
    obtain ⟨-, apart⟩ := (isolated_iff [.fail (.connection []), .accept] held).mp
      (isolated _ _ _ _ held)
    rcases apart (.inr rfl) [] _ [.accept] rfl with none | behind
    · cases none
    · exact behind List.mem_cons_self
  · intro spared
    have arrived : Run (· = Dispatching.create) (ReceiveStep externalFormat 5 failingCommands)
        _ arrivedState := failingState_scanned.step (ReceiveStep.deliver _ (pairMessage 8 2))
    have ran : MailBox.pass (failingGuard.checkMessage externalFormat 5 failingCommands)
        arrivedState = (.returns none, failingPass arrivedState) := rfl
    have twice := spared _ _ (arrived.step (.scan ran))
    have log : ∃ binding, (failingPass arrivedState).executed =
        [⟨0, 0, numberPair 7 3, binding, some (.connection (text "failed"))⟩,
          ⟨0, 0, numberPair 7 3, binding, some (.connection (text "failed"))⟩] := ⟨_, rfl⟩
    obtain ⟨binding, log⟩ := log
    rw [log, NoRetry, List.pairwise_pair] at twice
    exact twice (Option.some_ne_none _) ⟨rfl, rfl⟩

end Epi.Node
