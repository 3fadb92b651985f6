import Mathlib
import Epi.Library.Effect

namespace Verification

variable {State Error Value : Type}

/-- From every good state the step adds one to the value, which starts again at the period. -/
structure Counts (Good : State → Prop) (next : State → State) (value : State → Nat)
    (period : Nat) : Prop where
  keeps : ∀ state, Good state → Good (next state)
  counts : ∀ state, Good state → value (next state) = (value state + 1) % period
  below : ∀ state, Good state → value state < period

namespace Counts

variable {Good : State → Prop} {next : State → State} {value : State → Nat} {period shown : Nat}
  {state : State}

theorem good_iterate (counter : Counts Good next value period) (good : Good state) (passed : Nat) :
    Good (next^[passed] state) := by
  induction passed with
  | zero => exact good
  | succ passed ih =>
      rw [Function.iterate_succ_apply']
      exact counter.keeps _ ih

/-- Many steps are one addition. -/
theorem value_iterate (counter : Counts Good next value period) (good : Good state) (passed : Nat) :
    value (next^[passed] state) = (value state + passed) % period := by
  induction passed with
  | zero => exact (Nat.mod_eq_of_lt (counter.below state good)).symm
  | succ passed ih =>
      rw [Function.iterate_succ_apply', counter.counts _ (counter.good_iterate good passed), ih,
        Nat.mod_add_mod, Nat.add_assoc]

/-- What is shown of two values is the same exactly when their distance is a multiple of its range,
where this range divides the period. -/
theorem shown_eq_iff (counter : Counts Good next value period) (good : Good state)
    (divides : shown ∣ period) {first second : Nat} (ordered : first ≤ second) :
    value (next^[first] state) % shown = value (next^[second] state) % shown ↔
      shown ∣ second - first := by
  rw [counter.value_iterate good, counter.value_iterate good, Nat.mod_mod_of_dvd _ divides,
    Nat.mod_mod_of_dvd _ divides]
  have shifted : value state + second - (value state + first) = second - first := by omega
  rw [← shifted]
  exact Nat.modEq_iff_dvd' (by omega)

/-- Within a range nothing is shown twice. -/
theorem shown_ne (counter : Counts Good next value period) (good : Good state)
    (divides : shown ∣ period) {first second : Nat} (earlier : first < second)
    (near : second < first + shown) :
    value (next^[first] state) % shown ≠ value (next^[second] state) % shown := by
  rw [Ne, counter.shown_eq_iff good divides earlier.le]
  intro multiple
  have far := Nat.le_of_dvd (by omega) multiple
  omega

end Counts

/-- A call that is made several times. -/
def Effect.times (call : Effect State Error Value) : Nat → Effect State Error (List Value)
  | 0 => pure []
  | count + 1 => do
      let value ← call
      let values ← times call count
      return value :: values

/-- A call that always returns and moves the state gives one value for each of the states. -/
theorem Effect.times_run {Good : State → Prop} {call : Effect State Error Value}
    {made : State → Value} {next : State → State}
    (returns : ∀ state, Good state → call state = (.returns (made state), next state))
    (keeps : ∀ state, Good state → Good (next state)) (count : Nat) {state : State}
    (good : Good state) :
    times call count state =
      (.returns ((List.range count).map fun passed => made (next^[passed] state)),
        next^[count] state) := by
  induction count generalizing state with
  | zero => rfl
  | succ count ih =>
      rw [times, bind_of_returns (returns state good), bind_of_returns (ih (keeps state good)),
        List.range_succ_eq_map, List.map_cons, List.map_map]
      rfl

/-- The values of a range of numbers are pairwise related as their numbers are. -/
theorem pairwise_map_range {Related : Value → Value → Prop} {made : Nat → Value} {count : Nat} :
    ((List.range count).map made).Pairwise Related ↔
      ∀ first second, first < second → second < count → Related (made first) (made second) := by
  simp only [List.pairwise_iff_getElem, List.length_map, List.length_range, List.getElem_map,
    List.getElem_range]
  constructor
  · intro related first second earlier inside
    exact related first second (earlier.trans inside) inside earlier
  · intro related first second _ inside earlier
    exact related first second earlier inside

end Verification
