import Mathlib

namespace Verification

/-- A call returns a value, throws an error, ends the process, or does not come back. -/
inductive Outcome (Error Value : Type) where
  | returns (value : Value)
  | throws (error : Error)
  | aborts
  | diverges
  deriving DecidableEq, Repr

namespace Outcome

variable {Error First Second Third : Type}

/-- The second call runs only after the first one returns. -/
def andThen (first : Outcome Error First) (next : First → Outcome Error Second) :
    Outcome Error Second :=
  match first with
  | .returns value => next value
  | .throws error => .throws error
  | .aborts => .aborts
  | .diverges => .diverges

instance : Monad (Outcome Error) where
  pure := .returns
  bind := andThen

@[simp] theorem pure_eq (value : First) :
    (pure value : Outcome Error First) = .returns value := rfl

@[simp] theorem returns_bind (value : First) (next : First → Outcome Error Second) :
    ((.returns value : Outcome Error First) >>= next) = next value := rfl

@[simp] theorem throws_bind (error : Error) (next : First → Outcome Error Second) :
    ((.throws error : Outcome Error First) >>= next) = .throws error := rfl

@[simp] theorem aborts_bind (next : First → Outcome Error Second) :
    ((.aborts : Outcome Error First) >>= next) = .aborts := rfl

@[simp] theorem diverges_bind (next : First → Outcome Error Second) :
    ((.diverges : Outcome Error First) >>= next) = .diverges := rfl

/-- A sequence returns exactly when both of its calls return. -/
theorem bind_eq_returns {first : Outcome Error First} {next : First → Outcome Error Second}
    {value : Second} :
    (first >>= next) = .returns value ↔
      ∃ middle, first = .returns middle ∧ next middle = .returns value := by
  cases first <;> simp

/-- The predicate asks only that the call comes back with a value. -/
def succeeds : Outcome Error First → Bool
  | .returns _ => true
  | _ => false

@[simp] theorem succeeds_returns (value : First) :
    (.returns value : Outcome Error First).succeeds = true := rfl

@[simp] theorem succeeds_throws (error : Error) :
    (.throws error : Outcome Error First).succeeds = false := rfl

@[simp] theorem succeeds_aborts : (.aborts : Outcome Error First).succeeds = false := rfl

@[simp] theorem succeeds_diverges : (.diverges : Outcome Error First).succeeds = false := rfl

theorem succeeds_iff {outcome : Outcome Error First} :
    outcome.succeeds = true ↔ ∃ value, outcome = .returns value := by
  cases outcome <;> simp

/-- A dynamic exception specification ends the process when another error reaches it. -/
def declares (listed : Error → Bool) : Outcome Error First → Outcome Error First
  | .throws error => if listed error then .throws error else .aborts
  | other => other

@[simp] theorem declares_returns (listed : Error → Bool) (value : First) :
    (Outcome.returns value).declares listed = .returns value := rfl

@[simp] theorem declares_aborts (listed : Error → Bool) :
    (Outcome.aborts : Outcome Error First).declares listed = .aborts := rfl

@[simp] theorem declares_diverges (listed : Error → Bool) :
    (Outcome.diverges : Outcome Error First).declares listed = .diverges := rfl

theorem declares_throws (listed : Error → Bool) (error : Error) :
    (Outcome.throws error : Outcome Error First).declares listed =
      if listed error then .throws error else .aborts := rfl

@[simp] theorem declares_succeeds (listed : Error → Bool) (outcome : Outcome Error First) :
    (outcome.declares listed).succeeds = outcome.succeeds := by
  cases outcome with
  | throws error => simp only [declares]; split <;> rfl
  | _ => rfl

theorem declares_eq_returns {listed : Error → Bool} {outcome : Outcome Error First}
    {value : First} : outcome.declares listed = .returns value ↔ outcome = .returns value := by
  cases outcome with
  | throws error => simp only [declares]; split <;> simp
  | _ => simp

/-- A handler replaces the errors it accepts. -/
def handle (outcome : Outcome Error First)
    (handler : Error → Option (Outcome Error First)) : Outcome Error First :=
  match outcome with
  | .throws error => (handler error).getD (.throws error)
  | other => other

@[simp] theorem handle_returns (value : First)
    (handler : Error → Option (Outcome Error First)) :
    (Outcome.returns value).handle handler = .returns value := rfl

@[simp] theorem handle_aborts (handler : Error → Option (Outcome Error First)) :
    (Outcome.aborts : Outcome Error First).handle handler = .aborts := rfl

@[simp] theorem handle_diverges (handler : Error → Option (Outcome Error First)) :
    (Outcome.diverges : Outcome Error First).handle handler = .diverges := rfl

/-- The value of a call that returns. -/
def toOption : Outcome Error First → Option First
  | .returns value => some value
  | _ => none

@[simp] theorem toOption_returns (value : First) :
    (.returns value : Outcome Error First).toOption = some value := rfl

@[simp] theorem toOption_throws (error : Error) :
    (.throws error : Outcome Error First).toOption = none := rfl

theorem toOption_eq_some {outcome : Outcome Error First} {value : First} :
    outcome.toOption = some value ↔ outcome = .returns value := by
  cases outcome <;> simp [toOption]

theorem toOption_bind (first : Outcome Error First) (next : First → Outcome Error Second) :
    (first >>= next).toOption = first.toOption.bind fun value => (next value).toOption := by
  cases first <;> rfl

@[simp] theorem toOption_declares (listed : Error → Bool) (outcome : Outcome Error First) :
    (outcome.declares listed).toOption = outcome.toOption := by
  cases outcome with
  | throws error => simp only [declares]; split <;> rfl
  | _ => rfl

/-- A handler that throws again does not change the value. -/
theorem toOption_handle {outcome : Outcome Error First}
    {handler : Error → Option (Outcome Error First)}
    (throwing : ∀ error caught, handler error = some caught → caught.toOption = none) :
    (outcome.handle handler).toOption = outcome.toOption := by
  cases outcome with
  | throws error =>
      simp only [handle]
      cases picked : handler error with
      | none => rfl
      | some caught => exact throwing error caught picked
  | _ => rfl

/-- The call does not throw. -/
def Quiet : Outcome Error First → Prop
  | .throws _ => False
  | _ => True

@[simp] theorem quiet_returns (value : First) :
    (.returns value : Outcome Error First).Quiet := trivial

@[simp] theorem quiet_aborts : (.aborts : Outcome Error First).Quiet := trivial

/-- No specification stops a call that does not throw. -/
theorem Quiet.declares {outcome : Outcome Error First} (quiet : outcome.Quiet)
    (listed : Error → Bool) : outcome.declares listed = outcome := by
  cases outcome with
  | throws error => exact quiet.elim
  | _ => rfl

/-- No handler sees a call that does not throw. -/
theorem Quiet.handle {outcome : Outcome Error First} (quiet : outcome.Quiet)
    (handler : Error → Option (Outcome Error First)) : outcome.handle handler = outcome := by
  cases outcome with
  | throws error => exact quiet.elim
  | _ => rfl

end Outcome

end Verification
