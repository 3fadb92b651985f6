import Epi.Type.SubstVisits

namespace Epi.Type

open Verification ErlTerm

/-- A tuple that the public operations can leave behind. -/
def ErlTuple.Built (tuple : ErlTuple) : Prop := tuple.toTerm.Built

def ErlConsList.Built (list : ErlConsList) : Prop := list.toTerm.Built

theorem ErlTuple.ofArity_built (arity : Nat) : (ofArity arity).Built := by
  rw [ofArity_eq]
  refine ⟨List.forall_mem_nil _, Nat.zero_le arity, ?_⟩
  simp only [holding, beq_iff_eq]

theorem ErlConsList.uninitialized_built : uninitialized.Built :=
  ⟨List.forall_mem_nil _, fun flag => absurd flag Bool.false_ne_true⟩

/-- `initElement` leaves a term that the public operations can leave behind. -/
theorem ErlTuple.initElement_built {elem : ErlTerm} (elemBuilt : elem.Built) {tuple : ErlTuple}
    (built : tuple.Built) : (initElement (some elem) tuple).2.Built := by
  obtain ⟨mInitialized, mArity, elems⟩ := tuple
  cases mInitialized with
  | true => exact built
  | false =>
      cases mArity with
      | none => exact built
      | some arity =>
          cases flag : elem.isValid with
          | false =>
              simp only [initElement, flag, Bool.false_eq_true, if_false]
              exact built
          | true =>
              obtain ⟨parts, low, full⟩ := built
              simp only [initElement, flag, Bool.false_eq_true, if_false, if_true]
              have room : elems.length ≠ arity := fun same => absurd (full.mpr same) (by simp)
              refine ⟨?_, ?_, ?_⟩
              · rw [List.forall_mem_append, List.forall_mem_singleton]
                exact ⟨parts, elemBuilt.valid flag⟩
              · have small : elems.length ≤ arity := low
                simp only [List.length_append, List.length_singleton]
                omega
              · rw [List.length_append, List.length_singleton, beq_iff_eq]

theorem ErlConsList.addElement_built {elem : ErlTerm} (elemBuilt : elem.Built)
    {list : ErlConsList} (built : list.Built) :
    (addElement (some elem) list).2.Built := by
  obtain ⟨mInitialized, elems⟩ := list
  cases flag : elem.isValid with
  | false =>
      simp only [addElement, flag, Bool.not_false, if_true]
      exact built
  | true =>
      cases mInitialized with
      | true =>
          simp only [addElement, flag, Bool.not_true, Bool.false_eq_true, if_false, if_true]
          exact built
      | false =>
          rw [addElement_open elems flag]
          refine ⟨?_, fun flag => absurd flag Bool.false_ne_true⟩
          rw [List.forall_mem_append, List.forall_mem_singleton]
          exact ⟨built.1, elemBuilt.valid flag⟩

theorem ErlConsList.close_built {elem : ErlTerm} (elemBuilt : elem.Built)
    {list : ErlConsList} (built : list.Built) :
    (close (some elem) list).2.Built := by
  obtain ⟨mInitialized, elems⟩ := list
  cases flag : elem.isValid with
  | false =>
      rw [close_invalid _ flag]
      exact built
  | true =>
      have elemValid := elemBuilt.valid flag
      cases plain : elem.isConsList with
      | false =>
          cases mInitialized with
          | true =>
              rw [close_plain_closed elems flag plain]
              exact built
          | false =>
              rw [close_plain elems flag plain]
              refine ⟨?_, fun _ => by rw [closedBy_append, plain]; rfl⟩
              rw [List.forall_mem_append, List.forall_mem_singleton]
              exact ⟨built.1, elemValid⟩
      | true =>
          obtain ⟨cells, last, rfl, -, parts⟩ := closed_cells elemBuilt flag plain
          have valid : ∀ cell ∈ cells, cell.isValid = true :=
            fun cell member => parts cell (List.mem_append_left _ member)
          cases mInitialized with
          | true =>
              obtain ⟨error, refused⟩ :
                  ∃ error, close (some (.erlConsList true (cells ++ [last]))) ⟨true, elems⟩ =
                    (.throws error, ⟨true, elems⟩) := close_closed valid elems
              rw [refused]
              exact built
          | false =>
              rw [close_open valid]
              refine ⟨?_, fun flag => absurd flag Bool.false_ne_true⟩
              rw [List.forall_mem_append]
              exact ⟨built.1, fun cell member =>
                elemValid.parts cell (List.mem_append_left _ member)⟩

namespace ErlTerm

variable {binding : Option VariableBinding}

/-- The results for these entries are terms that the public operations can leave behind. -/
def BuildsEach (binding : Option VariableBinding) (elems : List ErlTerm) : Prop :=
  ∀ elem ∈ elems, ∀ result, elem.subst binding = .returns result → result.term.Built

theorem substTuple_built {elems : List ErlTerm} (builds : BuildsEach binding elems)
    (change : Bool) {tuple : ErlTuple} (built : tuple.Built) :
    (substTuple binding elems change tuple).2.Built := by
  induction elems generalizing change tuple with
  | nil => exact built
  | cons elem rest ih =>
      have later := ih fun other member => builds other (List.mem_cons_of_mem _ member)
      rw [substTuple, Effect.bind_run, Effect.lift_run]
      cases ran : elem.subst binding with
      | returns result =>
          have resultBuilt := builds elem List.mem_cons_self result ran
          exact Effect.after_bind (ErlTuple.initElement_built resultBuilt built)
            fun _ after afterBuilt => later _ afterBuilt
      | _ => exact built

theorem substConsList_built {elems : List ErlTerm} (builds : BuildsEach binding elems)
    (change : Bool) {list : ErlConsList} (built : list.Built) :
    (substConsList binding elems change list).2.Built := by
  induction elems generalizing change list with
  | nil => exact built
  | cons elem rest ih =>
      have later := ih fun other member => builds other (List.mem_cons_of_mem _ member)
      rw [substConsList, Effect.bind_run, Effect.lift_run]
      cases ran : elem.subst binding with
      | returns result =>
          have resultBuilt := builds elem List.mem_cons_self result ran
          simp only
          split
          · exact Effect.after_bind (ErlConsList.close_built resultBuilt built)
              fun _ after afterBuilt => later _ afterBuilt
          · exact Effect.after_bind (ErlConsList.addElement_built resultBuilt built)
              fun _ after afterBuilt => later _ afterBuilt
      | _ => exact built

/-- A substitution returns what the public operations can leave behind. -/
theorem subst_built (values : ∀ held ∈ binding, held.Values Built) {term : ErlTerm}
    (built : term.Built) {result : Substituted} (ran : term.subst binding = .returns result) :
    result.term.Built := by
  induction term generalizing result with
  | simple value =>
      rw [subst] at ran
      split at ran
      · cases ran
        trivial
      · cases ran
  | erlTuple mInitialized mArity elems ih =>
      have builds : BuildsEach binding elems :=
        fun elem member result ran => ih elem member (Valid.built (built.1 elem member)) ran
      cases mArity with
      | none =>
          rw [subst] at ran
          cases ran
      | some arity =>
          have looped := substTuple_built builds false (ErlTuple.ofArity_built arity)
          simp only [subst, Call.throwsOnly_eq_returns, ErlTuple.arity,
            Outcome.returns_bind] at ran
          rcases loop : substTuple binding elems false (ErlTuple.ofArity arity) with
            ⟨outcome, after⟩
          rw [loop] at looped
          simp only [loop] at ran
          obtain ⟨change, -, finished⟩ := Outcome.bind_eq_returns.mp ran
          cases change <;> cases finished
          · exact built
          · exact looped
  | erlConsList mInitialized elems ih =>
      have builds : BuildsEach binding elems :=
        fun elem member result ran => ih elem member (Valid.built (built.1 elem member)) ran
      have looped := substConsList_built builds false ErlConsList.uninitialized_built
      simp only [subst, Call.throwsOnly_eq_returns] at ran
      rcases loop : substConsList binding elems false ErlConsList.uninitialized with
        ⟨outcome, after⟩
      rw [loop] at looped
      simp only [loop] at ran
      obtain ⟨change, -, finished⟩ := Outcome.bind_eq_returns.mp ran
      cases change <;> cases finished
      · exact built
      · exact looped
  | erlVariable mName =>
      obtain ⟨held, bound, search⟩ := Option.bind_eq_some_iff.mp
        (valueOf_eq_some.mp (subst_variable_returns ran)).2
      exact values held bound mName result.term search

/-- A term without a value of its own: a leaf, or a tuple whose arity is not defined. -/
def Unset : ErlTerm → Prop
  | .simple value => value.isValid = false
  | .erlTuple _ mArity _ => mArity = none
  | _ => False

theorem subst_unset {term : ErlTerm} (unset : term.Unset) :
    ∃ error, term.subst binding = .throws error ∧ error.thrownClass = .epiInvalidTerm := by
  cases term with
  | simple value =>
      have flag : value.isValid = false := unset
      refine ⟨.invalidTerm "Element is not initialized", ?_, rfl⟩
      rw [subst, flag]
      rfl
  | erlTuple mInitialized mArity elems =>
      have none : mArity = none := unset
      subst none
      refine ⟨.invalidTerm "Arity not defined", ?_, rfl⟩
      rw [subst]
      rfl
  | _ => cases unset

/-- The first entry that stops it decides how the substitution of a built term ends. A term without
a value of its own throws for itself. -/
theorem subst_built_ends {term : ErlTerm} (built : term.Built) :
    EndsAlone binding (term.visits .alone) (term.subst binding) ∨
      (term.Unset ∧ term.Unhindered binding ∧
        ∃ error, term.subst binding = .throws error ∧ error.thrownClass = .epiInvalidTerm) := by
  have each : ∀ elems : List ErlTerm, (∀ elem ∈ elems, elem.Valid) → EachEnds binding elems :=
    fun elems parts elem member => ⟨parts elem member, (subst_ends (parts elem member)).endsAt⟩
  cases term with
  | simple value =>
      cases flag : value.isValid with
      | true => exact .inl ⟨_, by rw [subst, if_pos flag]⟩
      | false => exact .inr ⟨flag, unhindered_of_none rfl, subst_unset flag⟩
  | erlTuple mInitialized mArity elems =>
      cases mArity with
      | none =>
          obtain ⟨-, -, rfl⟩ := built
          exact .inr ⟨rfl, unhindered_of_none rfl, subst_unset rfl⟩
      | some arity => exact .inl (subst_erlTuple_ends (each elems built.1) built.2.1)
  | erlConsList mInitialized elems => exact .inl (subst_erlConsList_ends (each elems built.1))
  | erlVariable mName => exact .inl (subst_erlVariable_ends mName)

/-- A substitution returns, or it throws an error of its specification. -/
def SubstRespects (binding : Option VariableBinding) (term : ErlTerm) : Prop :=
  (∃ result, term.subst binding = .returns result) ∨
    ∃ error, term.subst binding = .throws error ∧
      (error.thrownClass = .epiInvalidTerm ∨ error.thrownClass = .epiVariableUnbound)

theorem substRespects_iff {term : ErlTerm} (built : term.Built) :
    term.SubstRespects binding ↔ term.Unhindered binding := by
  rcases subst_built_ends built with ends | ⟨-, unhindered, error, thrown, invalid⟩
  · unfold EndsAlone at ends
    cases found : (term.visits .alone).find? (Visit.stops binding) with
    | none =>
        rw [found] at ends
        exact iff_of_true (.inl ends) (unhindered_of_none found)
    | some visit =>
        unfold Unhindered
        rw [found]
        cases missing : visit.unbound binding with
        | true =>
            simp only [found, missing] at ends
            obtain ⟨mName, thrown⟩ := ends
            refine iff_of_true (.inr ⟨_, thrown, .inr rfl⟩) ?_
            rintro other same
            cases same
            exact missing
        | false =>
            simp only [found, missing] at ends
            refine iff_of_false ?_ ?_
            · rintro (⟨result, ran⟩ | ⟨error, ran, -⟩) <;> exact absurd (ends.symm.trans ran) nofun
            · intro unhindered
              exact Bool.false_ne_true (missing.symm.trans (unhindered visit rfl))
  · exact iff_of_true (.inr ⟨error, thrown, .inl invalid⟩) unhindered

end ErlTerm

end Epi.Type
