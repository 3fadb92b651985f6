import Mathlib

namespace Verification

/-- A step takes a state to a state and shows an event. -/
abbrev Transition (State Event : Type) := State → Event → State → Prop

variable {State Event : Type}

/-- The step that shows the event reaches such a state, and without an event the state stays. -/
def Transition.Follows (step : Transition State Event) (Holds : State → Prop) (state : State) :
    Option Event → Prop
  | none => Holds state
  | some event => ∃ after, step state event after ∧ Holds after

/-- The states that runs reach, with the events on the way. -/
inductive Run (start : State → Prop) (step : Transition State Event) : List Event → State → Prop
  | start {state : State} (initial : start state) : Run start step [] state
  | step {events : List Event} {state after : State} {event : Event}
      (run : Run start step events state) (taken : step state event after) :
      Run start step (events ++ [event]) after

namespace Run

variable {start : State → Prop} {step : Transition State Event} {events : List Event}
  {state : State}

/-- What holds at the start and survives every step holds after every run. -/
theorem invariant {Holds : List Event → State → Prop}
    (initially : ∀ state, start state → Holds [] state)
    (preserved : ∀ events state event after, Holds events state → step state event after →
      Holds (events ++ [event]) after) (run : Run start step events state) :
    Holds events state := by
  induction run with
  | start initial => exact initially _ initial
  | step before taken ih => exact preserved _ _ _ _ ih taken

/-- A run whose events are all allowed has only allowed events on the way. -/
theorem invariant_of_events {Allowed : Event → Prop} {Holds : State → Prop}
    (initially : ∀ state, start state → Holds state)
    (preserved : ∀ state event after, Holds state → Allowed event → step state event after →
      Holds after) (run : Run start step events state)
    (allowed : ∀ event ∈ events, Allowed event) : Holds state := by
  induction run with
  | start initial => exact initially _ initial
  | step before taken ih =>
      rw [List.forall_mem_append] at allowed
      exact preserved _ _ _ (ih allowed.1) (allowed.2 _ (by simp)) taken

/-- What every step shows of its event holds of every event on the way. -/
theorem forall_events {Holds : Event → Prop}
    (shows : ∀ state event after, step state event after → Holds event)
    (run : Run start step events state) : ∀ event ∈ events, Holds event := by
  induction run with
  | start initial => simp
  | step before taken ih =>
      rw [List.forall_mem_append]
      exact ⟨ih, by simpa using shows _ _ _ taken⟩

/-- A run whose events are all allowed keeps what every allowed step keeps, and shows what every
such step shows. -/
theorem invariant_shows {Allowed Shows : Event → Prop} {Holds : State → Prop}
    (initially : ∀ state, start state → Holds state)
    (preserved : ∀ state event after, Holds state → Allowed event → step state event after →
      Holds after ∧ Shows event) (run : Run start step events state)
    (allowed : ∀ event ∈ events, Allowed event) :
    Holds state ∧ ∀ event ∈ events, Shows event := by
  induction run with
  | start initial => exact ⟨initially _ initial, nofun⟩
  | step before taken ih =>
      rw [List.forall_mem_append] at allowed ⊢
      obtain ⟨holds, shown⟩ := ih allowed.1
      have kept := preserved _ _ _ holds (allowed.2 _ (by simp)) taken
      exact ⟨kept.1, shown, by simpa using kept.2⟩

/-- A simulation. The second system follows every step of the first one, with what is shown of its
event, to a related state. -/
theorem simulates {Abstract Label : Type} {abstractStart : Abstract → Prop}
    {abstractStep : Transition Abstract Label} {related : State → Abstract → Prop}
    {shown : Event → Option Label}
    (initially : ∀ state, start state → ∃ abstract, abstractStart abstract ∧ related state abstract)
    (follows : ∀ state event after abstract, related state abstract → step state event after →
      abstractStep.Follows (related after) abstract (shown event))
    (run : Run start step events state) :
    ∃ abstract, Run abstractStart abstractStep (events.filterMap shown) abstract ∧
      related state abstract := by
  induction run with
  | start initial =>
      obtain ⟨abstract, initialToo, here⟩ := initially _ initial
      exact ⟨abstract, .start initialToo, here⟩
  | @step events before after event earlier taken ih =>
      obtain ⟨abstract, followed, here⟩ := ih
      have ended := follows _ _ _ _ here taken
      rw [List.filterMap_append, List.filterMap_cons, List.filterMap_nil]
      cases label : shown event with
      | none =>
          rw [label] at ended
          rw [List.append_nil]
          exact ⟨abstract, followed, ended⟩
      | some told =>
          rw [label] at ended
          obtain ⟨later, moved, there⟩ := ended
          exact ⟨later, followed.step moved, there⟩

/-- The last event of a run is the one of its last step. -/
theorem last_step {event : Event} (run : Run start step (events ++ [event]) state) :
    ∃ before, Run start step events before ∧ step before event state := by
  generalize same : events ++ [event] = all at run
  cases run with
  | start initial => exact absurd same (by simp)
  | step earlier taken =>
      obtain ⟨rfl, rfl⟩ := List.append_inj' same rfl |>.imp id (by simpa using ·)
      exact ⟨_, earlier, taken⟩

end Run

end Verification
