import Epi.Node.Guards

namespace Epi.Node

open Verification Epi.Type Epi.Buffer Epi.Queue

/-- What a member of a composed guard does with a message. -/
inductive GuardOutcome where
  | accept
  | reject
  | fail (error : EpiException)

namespace GuardOutcome

def answer : GuardOutcome → Call Bool
  | .accept => .returns true
  | .reject => .returns false
  | .fail error => .throws error

/-- A guard with this outcome for every message. -/
def alone (outcome : GuardOutcome) : MailBoxGuard := .other fun _ => outcome.answer

/-- A composed guard of members with these outcomes. -/
def composed (outcomes : List GuardOutcome) : MailBoxGuard := .composed (outcomes.map alone)

/-- The outcome of the first member that does not reject. -/
def firstAnswer : List GuardOutcome → Call Bool
  | [] => .returns false
  | .accept :: _ => .returns true
  | .reject :: rest => firstAnswer rest
  | .fail error :: _ => .throws error

end GuardOutcome

section Members

variable (ei : Ei) (fuel : Nat) (commands : Commands)

/-- The guard takes the message. -/
def Accepts (guard : MailBoxGuard) (address : Nat) (state : Dispatching) : Prop :=
  ∃ after, guard.checkMessage ei fuel commands address state = (.returns true, after)

/-- The composed guard takes a message exactly when a member alone takes it. -/
def Isolated (outcomes : List GuardOutcome) (address : Nat) (state : Dispatching) : Prop :=
  Accepts ei fuel commands (GuardOutcome.composed outcomes) address state ↔
    ∃ outcome ∈ outcomes, Accepts ei fuel commands outcome.alone address state

/-- A message of the two classes that a guard is asked about. -/
def Erlang (message : EpiMessage) : Prop :=
  message.messageType = .sendMsg ∨ message.messageType = .regSendMsg

/-- No member is needed for an error message to be taken, and a member that throws keeps the members
behind it from being asked. -/
def Undisturbed (outcomes : List GuardOutcome) (message : EpiMessage) : Prop :=
  (message.messageType = .errorMsg → outcomes ≠ []) ∧
  (Erlang message → ∀ before error after, outcomes = before ++ .fail error :: after →
    .accept ∈ before ∨ .accept ∉ after)

variable {ei fuel commands} {guard : MailBoxGuard} {address : Nat} {message : EpiMessage}
  {state : Dispatching}

/-- A check asks the guard about the messages of the two Erlang classes only. -/
theorem checkMessage_eq (held : state.messages[address]? = some message) :
    guard.checkMessage ei fuel commands address state =
      match message.messageType with
      | .errorMsg => (.returns true, state)
      | .sendMsg | .regSendMsg =>
          Effect.mapOutcome (Call.catchingAny fun _ => .returns false)
            (guard.guardMatch ei fuel commands address) state
      | _ => (.returns false, state) := by
  rw [MailBoxGuard.checkMessage, MailBoxGuard.check, Effect.bind_run, Effect.get_run]
  dsimp only
  simp only [held]
  cases message.messageType <;> rfl

/-- A guard takes the errors, and of the Erlang messages those that its match accepts. -/
theorem accepts_iff (held : state.messages[address]? = some message) {outcome : Call Bool}
    {after : Dispatching} (asked : guard.guardMatch ei fuel commands address state = (outcome, after)) :
    Accepts ei fuel commands guard address state ↔
      message.messageType = .errorMsg ∨ Erlang message ∧ outcome = .returns true := by
  have caught : Call.catchingAny (fun _ => .returns false) outcome = .returns true ↔
      outcome = .returns true := by
    cases outcome with
    | throws error => simp [Call.catchingAny, Outcome.handle]
    | _ => rfl
  rw [Accepts, checkMessage_eq held, Erlang]
  cases message.messageType <;> simp [asked, caught]

theorem guardMatchEach_outcomes (outcomes : List GuardOutcome) :
    MailBoxGuard.guardMatchEach ei fuel commands address (outcomes.map GuardOutcome.alone) state =
      (GuardOutcome.firstAnswer outcomes, state) := by
  induction outcomes with
  | nil => rfl
  | cons outcome rest ih =>
      rw [List.map_cons, MailBoxGuard.guardMatchEach, GuardOutcome.alone, MailBoxGuard.guardMatch,
        Effect.bind_run, Effect.lift_run]
      cases outcome with
      | accept => rfl
      | reject => exact ih
      | fail error => rfl

/-- The first member that does not reject accepts exactly when some member accepts, if and only if no
member that accepts stands behind the first one that throws. -/
theorem GuardOutcome.firstAnswer_iff (outcomes : List GuardOutcome) :
    (firstAnswer outcomes = .returns true ↔ .accept ∈ outcomes) ↔
      ∀ before error after, outcomes = before ++ .fail error :: after →
        .accept ∈ before ∨ .accept ∉ after := by
  induction outcomes with
  | nil => simp [firstAnswer]
  | cons outcome rest ih =>
      cases outcome with
      | accept =>
          have here : GuardOutcome.accept ∈ .accept :: rest := List.mem_cons_self
          simp only [firstAnswer, here, true_iff]
          intro before error after same
          cases before with
          | nil => cases (List.cons.inj same).1
          | cons first others =>
              rw [← (List.cons.inj same).1]
              exact .inl List.mem_cons_self
      | reject =>
          have there : GuardOutcome.accept ∈ .reject :: rest ↔ .accept ∈ rest := by simp
          rw [firstAnswer, there, ih]
          constructor
          · intro undisturbed before error after same
            cases before with
            | nil => cases (List.cons.inj same).1
            | cons first others =>
                exact (undisturbed others error after (List.cons.inj same).2).imp_left
                  (List.mem_cons_of_mem _)
          · intro undisturbed before error after same
            have found := undisturbed (.reject :: before) error after (by rw [same]; rfl)
            simpa using found
      | fail error =>
          have there : GuardOutcome.accept ∈ .fail error :: rest ↔ .accept ∈ rest := by simp
          simp only [firstAnswer, there, reduceCtorEq, false_iff]
          constructor
          · intro absent before other after same
            cases before with
            | nil => exact .inr ((List.cons.inj same).2 ▸ absent)
            | cons first others =>
                refine .inr fun member => absent ?_
                rw [(List.cons.inj same).2]
                simp [member]
          · intro undisturbed
            exact (undisturbed [] error rest rfl).resolve_left List.not_mem_nil

theorem isolated_iff (outcomes : List GuardOutcome) (held : state.messages[address]? = some message) :
    Isolated ei fuel commands outcomes address state ↔ Undisturbed outcomes message := by
  have alone : ∀ outcome : GuardOutcome, Accepts ei fuel commands outcome.alone address state ↔
      message.messageType = .errorMsg ∨ Erlang message ∧ outcome = .accept := by
    intro outcome
    have asked : outcome.alone.guardMatch ei fuel commands address state = (outcome.answer, state) :=
      rfl
    rw [accepts_iff held asked]
    cases outcome <;> simp [GuardOutcome.answer]
  have asked : (GuardOutcome.composed outcomes).guardMatch ei fuel commands address state =
      (GuardOutcome.firstAnswer outcomes, state) := guardMatchEach_outcomes outcomes
  have first := GuardOutcome.firstAnswer_iff outcomes
  rw [Isolated, Undisturbed, accepts_iff held asked]
  simp only [alone]
  by_cases error : message.messageType = .errorMsg
  · have noErlang : ¬ Erlang message := by
      rintro (sent | sent) <;> cases error.symm.trans sent
    simp only [error, true_or, true_iff, and_true, noErlang, false_imp_iff, true_imp_iff]
    exact ⟨fun ⟨outcome, member⟩ => List.ne_nil_of_mem member, List.exists_mem_of_ne_nil outcomes⟩
  · by_cases erlang : Erlang message
    · simp only [error, erlang, false_or, true_and, exists_eq_right, false_imp_iff, true_imp_iff]
      exact first
    · simp [error, erlang]

end Members

end Epi.Node
