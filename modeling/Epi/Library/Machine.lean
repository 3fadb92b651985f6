import Mathlib

namespace Verification

/-- A machine takes one step from a state. A state without a step ends the run. -/
abbrev Machine (State : Type) := State → Option State

namespace Machine

variable {State : Type} {machine : Machine State} {start middle last : State}

/-- The states that the run from a state comes to. -/
def Comes (machine : Machine State) : State → State → Prop :=
  Relation.ReflTransGen fun state after => machine state = some after

namespace Comes

theorem refl : Comes machine start start := Relation.ReflTransGen.refl

theorem one (taken : machine start = some last) : Comes machine start last :=
  Relation.ReflTransGen.single taken

theorem trans (first : Comes machine start middle) (second : Comes machine middle last) :
    Comes machine start last :=
  Relation.ReflTransGen.trans first second

/-- A run passes every state that it comes to before it ends. -/
theorem before_end (comes : Comes machine start middle) (ends : Comes machine start last)
    (ended : machine last = none) : Comes machine middle last := by
  have unique : Relator.RightUnique fun state after => machine state = some after := by
    intro state after other taken same
    exact Option.some.inj (taken.symm.trans same)
  rcases Relation.ReflTransGen.total_of_right_unique unique comes ends with later | earlier
  · exact later
  · rcases Relation.ReflTransGen.cases_head earlier with same | ⟨after, taken, -⟩
    · exact same ▸ refl
    · rw [ended] at taken
      cases taken

/-- A run ends in one state. -/
theorem end_unique (comes : Comes machine start middle) (ends : Comes machine start last)
    (stopped : machine middle = none) (ended : machine last = none) : middle = last := by
  rcases Relation.ReflTransGen.cases_head (comes.before_end ends ended) with same | ⟨_, taken, -⟩
  · exact same
  · rw [stopped] at taken
    cases taken

/-- Another state than the start is the result of a step. -/
theorem last_step (comes : Comes machine start last) (other : start ≠ last) :
    ∃ before, Comes machine start before ∧ machine before = some last := by
  rcases Relation.ReflTransGen.cases_tail comes with same | ⟨before, earlier, taken⟩
  · exact absurd same.symm other
  · exact ⟨before, earlier, taken⟩

/-- What every step keeps holds wherever the run comes. -/
theorem invariant {Holds : State → Prop}
    (preserved : ∀ state after, Holds state → machine state = some after → Holds after)
    (initially : Holds start) (comes : Comes machine start last) : Holds last := by
  induction comes with
  | refl => exact initially
  | tail _ taken ih => exact preserved _ _ ih taken

end Comes

end Machine

end Verification
