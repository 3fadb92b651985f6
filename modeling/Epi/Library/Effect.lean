import Epi.Library.Outcome

namespace Verification

/-- A call that reads and changes a state. The state survives an error. -/
def Effect (State Error Value : Type) := State → Outcome Error Value × State

namespace Effect

variable {State Error First Second : Type}

/-- The second call starts in the state that the first one leaves. -/
def andThen (first : Effect State Error First) (next : First → Effect State Error Second) :
    Effect State Error Second := fun state =>
  match first state with
  | (.returns value, after) => next value after
  | (.throws error, after) => (.throws error, after)
  | (.aborts, after) => (.aborts, after)
  | (.diverges, after) => (.diverges, after)

instance : Monad (Effect State Error) where
  pure value := fun state => (.returns value, state)
  bind := andThen

/-- A call that does not touch the state. -/
def lift (call : Outcome Error First) : Effect State Error First := fun state => (call, state)

def fail (error : Error) : Effect State Error First := fun state => (.throws error, state)

def get : Effect State Error State := fun state => (.returns state, state)

def set (state : State) : Effect State Error Unit := fun _ => (.returns (), state)

@[simp] theorem pure_run (value : First) (state : State) :
    (pure value : Effect State Error First) state = (.returns value, state) := rfl

@[simp] theorem lift_run (call : Outcome Error First) (state : State) :
    (lift call : Effect State Error First) state = (call, state) := rfl

@[simp] theorem fail_run (error : Error) (state : State) :
    (fail error : Effect State Error First) state = (.throws error, state) := rfl

@[simp] theorem get_run (state : State) :
    (get : Effect State Error State) state = (.returns state, state) := rfl

@[simp] theorem set_run (after state : State) :
    (set after : Effect State Error Unit) state = (.returns (), after) := rfl

theorem bind_run (first : Effect State Error First) (next : First → Effect State Error Second)
    (state : State) : (first >>= next) state =
      match first state with
      | (.returns value, after) => next value after
      | (.throws error, after) => (.throws error, after)
      | (.aborts, after) => (.aborts, after)
      | (.diverges, after) => (.diverges, after) := rfl

/-- A returning first call passes its value and its state on. -/
theorem bind_of_returns {first : Effect State Error First}
    {next : First → Effect State Error Second} {state after : State} {value : First}
    (done : first state = (.returns value, after)) :
    (first >>= next) state = next value after := by
  rw [bind_run, done]

/-- An error of the first call is the error of the sequence. -/
theorem bind_of_throws {first : Effect State Error First}
    {next : First → Effect State Error Second} {state : State} {error : Error}
    (thrown : (first state).1 = .throws error) : ((first >>= next) state).1 = .throws error := by
  rw [bind_run]
  rcases ran : first state with ⟨outcome, after⟩
  rw [ran] at thrown
  subst thrown
  rfl

theorem bind_of_aborts {first : Effect State Error First}
    {next : First → Effect State Error Second} {state : State}
    (aborted : (first state).1 = .aborts) : ((first >>= next) state).1 = .aborts := by
  rw [bind_run]
  rcases ran : first state with ⟨outcome, after⟩
  rw [ran] at aborted
  subst aborted
  rfl

/-- A value that is handed over does not take a step. -/
@[simp] theorem lift_returns_bind (value : First) (next : First → Effect State Error Second) :
    (lift (.returns value) >>= next) = next value := rfl

/-- A sequence returns exactly when both calls return, each from the state before it. -/
theorem bind_eq_returns {first : Effect State Error First}
    {next : First → Effect State Error Second} {state last : State} {value : Second} :
    (first >>= next) state = (.returns value, last) ↔
      ∃ middle after, first state = (.returns middle, after) ∧
        next middle after = (.returns value, last) := by
  rw [bind_run]
  rcases first state with ⟨outcome, after⟩
  cases outcome <;> simp

/-- What holds of the state after both calls holds of it after the sequence, however it ends. -/
theorem after_bind {Good : State → Prop} {first : Effect State Error First}
    {next : First → Effect State Error Second} {state : State} (firstGood : Good (first state).2)
    (nextGood : ∀ value after, Good after → Good (next value after).2) :
    Good ((first >>= next) state).2 := by
  rw [bind_run]
  rcases ran : first state with ⟨outcome, after⟩
  rw [ran] at firstGood
  cases outcome with
  | returns value => exact nextGood value after firstGood
  | _ => exact firstGood

/-- The specification and the handlers act on the outcome and keep the state. -/
def mapOutcome (transform : Outcome Error First → Outcome Error First)
    (call : Effect State Error First) : Effect State Error First := fun state =>
  (transform (call state).1, (call state).2)

@[simp] theorem mapOutcome_run (transform : Outcome Error First → Outcome Error First)
    (call : Effect State Error First) (state : State) :
    mapOutcome transform call state = (transform (call state).1, (call state).2) := rfl

theorem mapOutcome_of_quiet {transform : Outcome Error First → Outcome Error First}
    (keeps : ∀ outcome, outcome.Quiet → transform outcome = outcome)
    {call : Effect State Error First} {state : State} (quiet : (call state).1.Quiet) :
    mapOutcome transform call state = call state := by
  rw [mapOutcome_run, keeps _ quiet]

/-- From a good state the call does not throw, and it leaves a good state. -/
def Keeps (Good : State → Prop) (call : Effect State Error First) : Prop :=
  ∀ state, Good state → (call state).1.Quiet ∧ Good (call state).2

theorem keeps_pure {Good : State → Prop} (value : First) :
    Keeps Good (pure value : Effect State Error First) :=
  fun _ good => ⟨trivial, good⟩

theorem keeps_lift {Good : State → Prop} {call : Outcome Error First} (quiet : call.Quiet) :
    Keeps Good (lift call) :=
  fun _ good => ⟨quiet, good⟩

/-- A sequence keeps what both of its calls keep. -/
theorem keeps_bind {Good : State → Prop} {first : Effect State Error First}
    {next : First → Effect State Error Second} (keepsFirst : Keeps Good first)
    (keepsNext : ∀ value, Keeps Good (next value)) : Keeps Good (first >>= next) := by
  intro state good
  have kept := keepsFirst state good
  rw [bind_run]
  rcases ran : first state with ⟨outcome, after⟩
  rw [ran] at kept
  cases outcome with
  | returns value => exact keepsNext value after kept.2
  | throws error => exact kept.1.elim
  | aborts => exact kept
  | diverges => exact kept

/-- From a good state the call returns, and it leaves a good state. -/
def Answers (Good : State → Prop) (call : Effect State Error First) : Prop :=
  ∀ state, Good state → ∃ value after, call state = (.returns value, after) ∧ Good after

theorem answers_pure {Good : State → Prop} (value : First) :
    Answers Good (pure value : Effect State Error First) :=
  fun state good => ⟨value, state, rfl, good⟩

/-- A sequence returns when both of its calls do. -/
theorem answers_bind {Good : State → Prop} {first : Effect State Error First}
    {next : First → Effect State Error Second} (firstAnswers : Answers Good first)
    (nextAnswers : ∀ value, Answers Good (next value)) : Answers Good (first >>= next) := by
  intro state good
  obtain ⟨value, middle, ran, between⟩ := firstAnswers state good
  rw [bind_of_returns ran]
  exact nextAnswers value middle between

/-- From related states both calls return one value, and they leave related states. -/
def Related (Same : State → State → Prop) (left right : Effect State Error First) : Prop :=
  ∀ state other, Same state other → ∃ value after otherAfter,
    left state = (.returns value, after) ∧ right other = (.returns value, otherAfter) ∧
      Same after otherAfter

theorem related_pure {Same : State → State → Prop} (value : First) :
    Related Same (pure value : Effect State Error First) (pure value) :=
  fun state other same => ⟨value, state, other, rfl, rfl, same⟩

/-- Two sequences are related when their calls are. -/
theorem related_bind {Same : State → State → Prop} {left right : Effect State Error First}
    {next otherNext : First → Effect State Error Second} (firstRelated : Related Same left right)
    (nextRelated : ∀ value, Related Same (next value) (otherNext value)) :
    Related Same (left >>= next) (right >>= otherNext) := by
  intro state other same
  obtain ⟨value, after, otherAfter, ran, otherRan, between⟩ := firstRelated state other same
  rw [bind_of_returns ran, bind_of_returns otherRan]
  exact nextRelated value after otherAfter between

/-- The call goes up from its state, however it comes back. -/
def Ascends (Below : State → State → Prop) (call : Effect State Error First) : Prop :=
  ∀ state, Below state (call state).2

section Ascends

variable {Below : State → State → Prop}

/-- A sequence goes up where both of its calls do. -/
theorem Ascends.bind (trans : ∀ low middle high, Below low middle → Below middle high →
    Below low high) {first : Effect State Error First}
    {next : First → Effect State Error Second} (ascends : Ascends Below first)
    (nextAscends : ∀ value, Ascends Below (next value)) : Ascends Below (first >>= next) := by
  intro state
  have up := ascends state
  rw [bind_run]
  rcases ran : first state with ⟨outcome, after⟩
  rw [ran] at up
  cases outcome with
  | returns value => exact trans _ _ _ up (nextAscends value after)
  | _ => exact up

theorem Ascends.mapOutcome {transform : Outcome Error First → Outcome Error First}
    {call : Effect State Error First} (ascends : Ascends Below call) :
    Ascends Below (mapOutcome transform call) := ascends

end Ascends

/-- From any state the call throws only errors of a kind. -/
def Errs (Kind : Error → Prop) (call : Effect State Error First) : Prop :=
  ∀ state error, (call state).1 = .throws error → Kind error

section Errs

variable {Kind : Error → Prop}

theorem errs_pure (value : First) : Errs Kind (pure value : Effect State Error First) :=
  fun _ _ thrown => by cases thrown

theorem errs_lift {call : Outcome Error First} (errs : ∀ error, call = .throws error → Kind error) :
    Errs Kind (lift call : Effect State Error First) := fun _ => errs

/-- A sequence throws what its calls throw. -/
theorem Errs.bind {first : Effect State Error First} {next : First → Effect State Error Second}
    (errs : Errs Kind first) (nextErrs : ∀ value, Errs Kind (next value)) :
    Errs Kind (first >>= next) := by
  intro state error thrown
  rw [bind_run] at thrown
  rcases ran : first state with ⟨outcome, after⟩
  rw [ran] at thrown
  cases outcome with
  | returns value => exact nextErrs value after error thrown
  | throws other =>
      cases thrown
      exact errs state error (congrArg Prod.fst ran)
  | _ => cases thrown

end Errs

/-- The call leaves what a view shows of the state, however it comes back. -/
def Preserves {View : Type} (view : State → View) (call : Effect State Error First) : Prop :=
  ∀ state, view (call state).2 = view state

section Preserves

variable {View : Type} {view : State → View}

theorem preserves_pure (value : First) :
    Preserves view (pure value : Effect State Error First) := fun _ => rfl

theorem preserves_lift (call : Outcome Error First) : Preserves view (lift call) := fun _ => rfl

/-- A sequence leaves what both of its calls leave. -/
theorem Preserves.bind {first : Effect State Error First}
    {next : First → Effect State Error Second} (preserves : Preserves view first)
    (nextPreserves : ∀ value, Preserves view (next value)) : Preserves view (first >>= next) := by
  intro state
  have kept := preserves state
  rw [bind_run]
  rcases ran : first state with ⟨outcome, after⟩
  rw [ran] at kept
  cases outcome with
  | returns value => exact (nextPreserves value after).trans kept
  | _ => exact kept

/-- A sequence that looks at its state first. -/
theorem preserves_get_bind {next : State → Effect State Error Second}
    (nextPreserves : ∀ state, view (next state state).2 = view state) :
    Preserves view (get >>= next) := nextPreserves

theorem Preserves.mapOutcome {transform : Outcome Error First → Outcome Error First}
    {call : Effect State Error First} (preserves : Preserves view call) :
    Preserves view (mapOutcome transform call) := preserves

end Preserves

end Effect

end Verification
