import Epi.Type.SubstComplete
import Epi.Type.SubstExceptions

namespace Epi.Type

open Verification

namespace ErlTerm

variable {binding : Option VariableBinding}

/-- What `subst` makes of the term is complete: a tuple has all its elements, and a list is closed or
is closed again because a cell comes back as its own pointer. -/
def Closes : ErlTerm → Prop
  | .erlTuple mInitialized _ _ => mInitialized = true
  | .erlConsList mInitialized elems => mInitialized = true ∨ elems.any keeps = true
  | _ => True

def groundValueNode (binding : Option VariableBinding) : ErlTerm → Bool
  | .erlVariable mName =>
      (valueOf binding mName).any fun value =>
        value.isValid && value.every fun part => !part.isVariable
  | _ => true

/-- Every variable has an initialized value without variables. -/
def GroundValues (binding : Option VariableBinding) (term : ErlTerm) : Prop :=
  term.every (groundValueNode binding) = true

/-- The substitution comes to an entry that stops it. -/
def Stopped (binding : Option VariableBinding) (term : ErlTerm) : Prop :=
  ∃ visit ∈ term.visits .alone, visit.stops binding = true

/-- What `subst` makes of the term is complete and has no variables. -/
def Fills (binding : Option VariableBinding) (term : ErlTerm) : Prop :=
  term.Closes ∧ term.Rebuilt ∧ term.GroundValues binding

/-- The entries of a loop that came to its end have fine variables. -/
theorem fine_each {elems : List ErlTerm} (valid : ∀ elem ∈ elems, elem.Valid)
    (each : ∀ elem ∈ elems, ∃ result, elem.subst binding = .returns result ∧
      result.term.isValid = true) : ∀ elem ∈ elems, elem.Fine binding := by
  intro elem member
  obtain ⟨result, ran, flag⟩ := each elem member
  exact fine_of_returns ran flag ((subst_returns_iff (valid elem member)).mp ⟨result, ran⟩)

/-- What a tuple that the public operations left behind becomes. -/
theorem subst_tuple_returns {mInitialized : Bool} {mArity : Option Nat} {elems : List ErlTerm}
    (built : (erlTuple mInitialized mArity elems).Built) {result : Substituted}
    (ran : (erlTuple mInitialized mArity elems).subst binding = .returns result) :
    (∀ elem ∈ elems, elem.Fine binding) ∧
      result.term = (erlTuple mInitialized mArity elems).substituted binding := by
  cases mArity with
  | none =>
      rw [subst] at ran
      cases ran
  | some arity =>
      obtain ⟨parts, room, full⟩ := built
      simp only [subst, Call.throwsOnly_eq_returns, ErlTuple.arity, Outcome.returns_bind] at ran
      rcases loop : substTuple binding elems false (ErlTuple.ofArity arity) with ⟨outcome, after⟩
      simp only [loop] at ran
      obtain ⟨change, rfl, finished⟩ := Outcome.bind_eq_returns.mp ran
      have fine := fine_each parts (substTuple_returns loop)
      refine ⟨fine, ?_⟩
      have each : SubstEach binding (substituted binding) keeps elems :=
        fun elem member => subst_of_fine (parts elem member) (fine elem member)
      have started : ([] : List ErlTerm).length + elems.length ≤ arity := by simpa using room
      rw [ErlTuple.ofArity_eq, substTuple_each each [] started] at loop
      cases loop
      have flag : (elems.length == arity) = mInitialized := by
        rw [Bool.eq_iff_iff, beq_iff_eq]
        exact full.symm
      rw [substituted_erlTuple]
      cases kept : elems.all keeps with
      | true =>
          rw [kept] at finished
          cases finished
          rfl
      | false =>
          rw [kept] at finished
          cases finished
          simp [ErlTuple.toTerm, ErlTuple.holding, flag]

/-- What a list that the public operations left behind becomes. An open one is closed where a cell
comes back as its own pointer. -/
theorem subst_consList_returns {mInitialized : Bool} {elems : List ErlTerm}
    (built : (erlConsList mInitialized elems).Built) {result : Substituted}
    (ran : (erlConsList mInitialized elems).subst binding = .returns result) :
    (∀ elem ∈ elems, elem.Fine binding) ∧
      result.term = if elems.any keeps then .erlConsList true (elems.map (substituted binding))
        else .erlConsList mInitialized elems := by
  simp only [subst, Call.throwsOnly_eq_returns] at ran
  rcases loop : substConsList binding elems false ErlConsList.uninitialized with ⟨outcome, after⟩
  simp only [loop] at ran
  obtain ⟨change, rfl, finished⟩ := Outcome.bind_eq_returns.mp ran
  rcases List.eq_nil_or_concat elems with rfl | ⟨cells, last, same⟩
  · cases loop
    cases finished
    exact ⟨List.forall_mem_nil _, rfl⟩
  · rw [List.concat_eq_append] at same
    subst same
    obtain ⟨returned, ended, ranLast, plain⟩ := substConsList_returns loop
    have fine := fine_each built.1 returned
    refine ⟨fine, ?_⟩
    have each : SubstEach binding (substituted binding) keeps (cells ++ [last]) :=
      fun elem member => subst_of_fine (built.1 elem member) (fine elem member)
    have lastResult := (each last (by simp)).1
    rw [ranLast] at lastResult
    cases lastResult
    have start : ErlConsList.uninitialized = ⟨false, []⟩ := rfl
    rw [start, substConsList_each each [] plain] at loop
    cases loop
    cases kept : (cells ++ [last]).any keeps with
    | true =>
        rw [kept] at finished
        cases finished
        rfl
    | false =>
        rw [kept] at finished
        cases finished
        rfl

/-- The values of fine variables are without variables exactly where the filled term is. -/
theorem groundValues_iff {term : ErlTerm} (fine : term.Fine binding) :
    term.GroundValues binding ↔ (term.filled binding).Ground := by
  have fines := fine.parts
  induction term with
  | simple value => simp [GroundValues, groundValueNode, filled, Ground, isVariable]
  | erlTuple mInitialized mArity elems ih =>
      have each := fun elem inside => ih elem inside (fines elem inside) (fines elem inside).parts
      rw [GroundValues, every_erlTuple, filled, filledEach_eq, Ground, every_erlTuple,
        List.forall_mem_map]
      exact and_congr (iff_of_true rfl rfl) (forall₂_congr each)
  | erlConsList mInitialized elems ih =>
      have each := fun elem inside => ih elem inside (fines elem inside) (fines elem inside).parts
      rw [GroundValues, every_erlConsList, filled, filledEach_eq, Ground, every_erlConsList,
        List.forall_mem_map]
      exact and_congr (iff_of_true rfl rfl) (forall₂_congr each)
  | erlVariable mName =>
      have here : (valueOf binding mName).any isValid = true := every_self fine
      obtain ⟨value, known, flag⟩ := (Option.any_eq_true _ _).mp here
      rw [filled_erlVariable known, GroundValues, every_erlVariable, groundValueNode, known]
      simp [flag, Ground]

/-- The result for a term with fine entries is without variables exactly where every list is rebuilt
and the values are without variables. -/
theorem substituted_ground_iff {term : ErlTerm} (fixed : term.isVariable = false)
    (fines : ∀ part ∈ term.parts, part.Fine binding) :
    (term.substituted binding).Ground ↔ term.Rebuilt ∧ term.GroundValues binding := by
  have filling : (term.filled binding).Ground ↔ term.GroundValues binding := by
    cases term with
    | simple value => simp [GroundValues, groundValueNode, filled, Ground, isVariable]
    | erlTuple mInitialized mArity elems =>
        have each := fun elem inside => (groundValues_iff (fines elem inside)).symm
        rw [GroundValues, every_erlTuple, filled, filledEach_eq, Ground, every_erlTuple,
          List.forall_mem_map]
        exact and_congr (iff_of_true rfl rfl) (forall₂_congr each)
    | erlConsList mInitialized elems =>
        have each := fun elem inside => (groundValues_iff (fines elem inside)).symm
        rw [GroundValues, every_erlConsList, filled, filledEach_eq, Ground, every_erlConsList,
          List.forall_mem_map]
        exact and_congr (iff_of_true rfl rfl) (forall₂_congr each)
    | erlVariable mName => cases fixed
  constructor
  · intro ground
    have rebuilt := rebuilt_of_substituted ground
    rw [substituted_eq_filled rebuilt] at ground
    exact ⟨rebuilt, filling.mp ground⟩
  · rintro ⟨rebuilt, values⟩
    rw [substituted_eq_filled rebuilt]
    exact filling.mpr values

/-- What `subst` returns is valid and without variables exactly for these inputs. -/
theorem subst_fills_iff (values : ∀ held ∈ binding, held.Values Built) {term : ErlTerm}
    (built : term.Built) {result : Substituted} (ran : term.subst binding = .returns result) :
    result.term.Valid ∧ result.term.Ground ↔ term.Fills binding := by
  have resultBuilt := subst_built values built ran
  have valid : result.term.Valid ↔ result.term.isValid = true :=
    ⟨Valid.isValid, resultBuilt.valid⟩
  rw [valid, Fills]
  cases term with
  | simple value =>
      rw [subst] at ran
      split at ran
      · rename_i flag
        cases ran
        exact iff_of_true ⟨flag, by rw [Ground, every_simple]; rfl⟩
          ⟨trivial, by rw [Rebuilt, every_simple]; rfl, by rw [GroundValues, every_simple]; rfl⟩
      · cases ran
  | erlTuple mInitialized mArity elems =>
      obtain ⟨fines, same⟩ := subst_tuple_returns built ran
      have ground : ((erlTuple mInitialized mArity elems).substituted binding).Ground ↔ _ :=
        substituted_ground_iff rfl fines
      rw [← ground, same]
      refine and_congr_left' ?_
      rw [Closes, substituted_erlTuple]
      split <;> rfl
  | erlConsList mInitialized elems =>
      obtain ⟨fines, same⟩ := subst_consList_returns built ran
      have ground : ((erlConsList mInitialized elems).substituted binding).Ground ↔ _ :=
        substituted_ground_iff rfl fines
      rw [← ground, same, substituted_erlConsList, Closes]
      split
      · rename_i kept
        simp [isValid, kept, Ground, isVariable]
      · rename_i changed
        simp [isValid, changed]
  | erlVariable mName =>
      have known := subst_variable_returns ran
      have own : (erlVariable mName).GroundValues binding ↔
          result.term.isValid = true ∧ result.term.Ground := by
        rw [GroundValues, every_erlVariable, groundValueNode, known]
        simp [Ground]
      rw [own]
      constructor
      · exact fun holds => ⟨trivial, by rw [Rebuilt, every_erlVariable]; rfl, holds⟩
      · exact fun fills => fills.2.2

/-- A term that is not stopped and has a value of its own is substituted. -/
theorem subst_returns_or {term : ErlTerm} (built : term.Built) :
    (∃ result, term.subst binding = .returns result) ∨ term.Unset ∨ term.Stopped binding := by
  rcases subst_built_ends built with ends | ⟨unset, -⟩
  · unfold EndsAlone at ends
    cases found : (term.visits .alone).find? (Visit.stops binding) with
    | none =>
        rw [found] at ends
        exact .inl ends
    | some visit =>
        exact .inr (.inr ⟨visit, List.mem_of_find?_eq_some found, List.find?_some found⟩)
  · exact .inr (.inl unset)

/-- Where the substitution comes to an end, no entry stops it. -/
theorem not_stopped_of_returns {term : ErlTerm} (built : term.Built) {result : Substituted}
    (ran : term.subst binding = .returns result) : ¬ term.Stopped binding := by
  rintro ⟨visit, member, stops⟩
  rcases subst_built_ends built with ends | ⟨-, -, error, thrown, -⟩
  · unfold EndsAlone at ends
    cases found : (term.visits .alone).find? (Visit.stops binding) with
    | none => exact List.find?_eq_none.mp found visit member stops
    | some first =>
        rw [found, ran] at ends
        dsimp only at ends
        split at ends
        · obtain ⟨mName, thrown⟩ := ends
          cases thrown
        · cases ends
  · rw [ran] at thrown
    cases thrown

end ErlTerm

end Epi.Type
