import Epi.Type.Close
import Epi.Type.SubstCorrect

namespace Epi.Type

open Verification

/-- Where an entry stands: by itself, before the end of a vector or in a tuple, or as the last
entry of a list. -/
inductive Place where
  | alone
  | element
  | final
  deriving DecidableEq, Repr

/-- An entry that a substitution comes to, with its place. -/
structure Visit where
  place : Place
  entry : ErlTerm

namespace ErlTerm

mutual

/-- The entries in the order in which their substitutions end. -/
def visits (place : Place) : ErlTerm → List Visit
  | .simple value => [⟨place, .simple value⟩]
  | .erlTuple mInitialized mArity elems =>
      visitsEach .element elems ++ [⟨place, .erlTuple mInitialized mArity elems⟩]
  | .erlConsList mInitialized elems =>
      visitsEach .final elems ++ [⟨place, .erlConsList mInitialized elems⟩]
  | .erlVariable mName => [⟨place, .erlVariable mName⟩]

def visitsEach (last : Place) : List ErlTerm → List Visit
  | [] => []
  | elem :: rest => visits (if rest.isEmpty then last else .element) elem ++ visitsEach last rest

end

/-- The term that stands for an entry: a variable gives its value. -/
def standsFor (binding : Option VariableBinding) : ErlTerm → ErlTerm
  | .erlVariable mName => (valueOf binding mName).getD (.erlVariable mName)
  | term => term

end ErlTerm

/-- A vector takes initialized terms, and a list does not end in a list. -/
def Place.accepts : Place → ErlTerm → Bool
  | .alone, _ => true
  | .element, term => term.isValid
  | .final, term => term.isValid && !term.isConsList

namespace Visit

/-- A variable without a value, or the anonymous variable. -/
def unbound (binding : Option VariableBinding) (visit : Visit) : Bool :=
  match visit.entry with
  | .erlVariable mName => (ErlTerm.valueOf binding mName).isNone
  | _ => false

/-- The vector does not take what stands for the entry. -/
def refused (binding : Option VariableBinding) (visit : Visit) : Bool :=
  !visit.place.accepts (visit.entry.standsFor binding)

/-- The substitution does not come past this entry. -/
def stops (binding : Option VariableBinding) (visit : Visit) : Bool :=
  visit.unbound binding || visit.refused binding

end Visit

namespace ErlTerm

variable {binding : Option VariableBinding}

/-- The first entry that stops the substitution, if one does, is a variable without a value. -/
def Unhindered (binding : Option VariableBinding) (term : ErlTerm) : Prop :=
  ∀ visit, (term.visits .alone).find? (Visit.stops binding) = some visit →
    visit.unbound binding = true

theorem unhindered_of_none {term : ErlTerm}
    (found : (term.visits .alone).find? (Visit.stops binding) = none) :
    term.Unhindered binding := by
  intro visit stopped
  rw [found] at stopped
  cases stopped

/-- The error of a vector that refused an entry, or the end of the process at an inner one. -/
def Refusal {Value : Type} (outcome : Call Value) : Prop :=
  outcome = .aborts ∨ ∃ message, outcome = .throws (.badArgument message)

/-- Where the first call refuses, the sequence does. -/
theorem Refusal.bind {Vector First Second : Type} {first : Method Vector First}
    {next : First → Method Vector Second} {vector : Vector}
    (refusal : Refusal (first vector).1) : Refusal ((first >>= next) vector).1 := by
  rcases refusal with aborted | ⟨message, thrown⟩
  · exact .inl (Effect.bind_of_aborts aborted)
  · exact .inr ⟨message, Effect.bind_of_throws thrown⟩

/-- How a call ends that comes to these entries. -/
def EndsAt {Value : Type} (binding : Option VariableBinding) (visits : List Visit)
    (outcome : Call Value) : Prop :=
  match visits.find? (Visit.stops binding) with
  | none => ∃ value, outcome = .returns value
  | some visit =>
      match visit.unbound binding with
      | true => ∃ mName, outcome = .throws (.variableUnbound mName)
      | false => Refusal outcome

theorem standsFor_fixed {term : ErlTerm} (fixed : term.isVariable = false) :
    term.standsFor binding = term := by
  cases term with
  | erlVariable mName => exact absurd fixed (by simp [isVariable])
  | _ => rfl

theorem substituted_isConsList {term : ErlTerm} (fixed : term.isVariable = false) :
    (term.substituted binding).isConsList = term.isConsList := by
  cases term with
  | simple value =>
      rw [substituted]
  | erlTuple mInitialized mArity elems =>
      rw [substituted_erlTuple]
      split <;> rfl
  | erlConsList mInitialized elems =>
      rw [substituted_erlConsList]
      split <;> rfl
  | erlVariable mName => exact absurd fixed (by simp [isVariable])

theorem fine_of_substitutable {term : ErlTerm} (fixed : term.isVariable = false)
    (substitutable : term.Substitutable binding) : term.Fine binding := by
  cases term with
  | erlVariable mName => exact absurd fixed (by simp [isVariable])
  | _ => exact substitutable

/-- What is returned for a valid entry is taken where the entry's value is. -/
theorem accepts_subst {elem : ErlTerm} (valid : elem.Valid) {result : Substituted}
    (ran : elem.subst binding = .returns result) (place : Place) :
    place.accepts result.term = place.accepts (elem.standsFor binding) := by
  cases fixed : elem.isVariable with
  | true =>
      cases elem with
      | erlVariable mName =>
          rw [standsFor, subst_variable_returns ran]
          rfl
      | _ => cases fixed
  | false =>
      have fine := fine_of_substitutable fixed ((subst_returns_iff valid).mp ⟨result, ran⟩)
      obtain ⟨filled, flag⟩ := subst_of_fine valid fine
      rw [ran] at filled
      cases filled
      rw [standsFor_fixed fixed]
      have list : (elem.substituted binding).isConsList = elem.isConsList :=
        substituted_isConsList fixed
      cases place with
      | alone => rfl
      | element => simp only [Place.accepts, flag, valid.isValid]
      | final => simp only [Place.accepts, flag, valid.isValid, list]

/-- The entries below a term. -/
def innerVisits : ErlTerm → List Visit
  | .erlTuple _ _ elems => visitsEach .element elems
  | .erlConsList _ elems => visitsEach .final elems
  | _ => []

theorem visits_eq (place : Place) (term : ErlTerm) :
    term.visits place = term.innerVisits ++ [⟨place, term⟩] := by
  cases term <;> simp only [visits, innerVisits, List.nil_append]

/-- An entry of a vector: its own substitution ends by itself, or the vector refuses it. -/
theorem endsAt_entry {elem : ErlTerm} (valid : elem.Valid)
    (ends : EndsAt binding (elem.visits .alone) (elem.subst binding)) (place : Place) :
    match (elem.visits place).find? (Visit.stops binding) with
    | none => ∃ result, elem.subst binding = .returns result ∧ place.accepts result.term = true
    | some visit =>
        match visit.unbound binding with
        | true => ∃ mName, elem.subst binding = .throws (.variableUnbound mName)
        | false => Refusal (elem.subst binding) ∨
            ∃ result, elem.subst binding = .returns result ∧
              place.accepts result.term = false := by
  unfold EndsAt at ends
  rw [visits_eq, List.find?_append] at ends ⊢
  cases below : elem.innerVisits.find? (Visit.stops binding) with
  | some visit =>
      rw [below, Option.some_or] at ends
      rw [Option.some_or]
      cases missing : visit.unbound binding with
      | true => simpa only [missing] using ends
      | false =>
          simp only [missing] at ends ⊢
          exact .inl ends
  | none =>
      rw [below, Option.none_or] at ends
      rw [Option.none_or]
      cases missing : Visit.unbound binding ⟨place, elem⟩ with
      | true =>
          have here : Visit.unbound binding ⟨.alone, elem⟩ = true := missing
          have stopsAlone : Visit.stops binding ⟨.alone, elem⟩ = true := by
            rw [Visit.stops, here, Bool.true_or]
          have stopsHere : Visit.stops binding ⟨place, elem⟩ = true := by
            rw [Visit.stops, missing, Bool.true_or]
          rw [List.find?_singleton, if_pos stopsAlone] at ends
          rw [List.find?_singleton, if_pos stopsHere]
          simpa only [missing, here] using ends
      | false =>
          have here : Visit.unbound binding ⟨.alone, elem⟩ = false := missing
          have passesAlone : Visit.stops binding ⟨.alone, elem⟩ = false := by
            rw [Visit.stops, here, Bool.false_or]
            rfl
          rw [List.find?_singleton, if_neg (by rw [passesAlone]; exact Bool.false_ne_true)] at ends
          obtain ⟨result, ran⟩ := ends
          have taken := accepts_subst valid ran place
          have stopsHere : Visit.stops binding ⟨place, elem⟩ = !place.accepts result.term := by
            rw [Visit.stops, missing, Bool.false_or, taken]
            rfl
          rw [List.find?_singleton, stopsHere]
          cases accepted : place.accepts result.term with
          | true => exact ⟨result, ran, accepted⟩
          | false =>
              simp only [Bool.not_false, if_true, missing]
              exact .inr ⟨result, ran, accepted⟩

/-- One round of a loop over a vector: an entry is substituted and stored. -/
theorem endsAt_round {Vector : Type} {store : ErlTerm → Method Vector Unit}
    {next : Substituted → Method Vector Bool} {elem : ErlTerm} {place : Place}
    {later : List Visit} {vector : Vector} (valid : elem.Valid)
    (ends : EndsAt binding (elem.visits .alone) (elem.subst binding))
    (refuses : ∀ term, place.accepts term = false → Refusal (store term vector).1)
    (goesOn : ∀ result : Substituted, place.accepts result.term = true →
      ∃ after, store result.term vector = (.returns (), after) ∧
        EndsAt binding later (next result after).1) :
    EndsAt binding (elem.visits place ++ later)
      ((do
        let newElem ← Effect.lift (elem.subst binding)
        store newElem.term
        next newElem : Method Vector Bool) vector).1 := by
  have entry := endsAt_entry valid ends place
  unfold EndsAt
  rw [List.find?_append]
  cases found : (elem.visits place).find? (Visit.stops binding) with
  | none =>
      rw [found] at entry
      obtain ⟨result, ran, accepted⟩ := entry
      obtain ⟨after, stored, rest⟩ := goesOn result accepted
      rw [Option.none_or, ran, Effect.lift_returns_bind, Effect.bind_of_returns stored]
      exact rest
  | some visit =>
      rw [found] at entry
      rw [Option.some_or]
      cases missing : visit.unbound binding with
      | true =>
          simp only [missing] at entry ⊢
          obtain ⟨mName, ran⟩ := entry
          rw [ran]
          exact ⟨mName, rfl⟩
      | false =>
          simp only [missing] at entry ⊢
          rcases entry with refusal | ⟨result, ran, refused⟩
          · have here : Refusal (Effect.lift (elem.subst binding) vector).1 := refusal
            exact here.bind
          · rw [ran, Effect.lift_returns_bind]
            exact (refuses result.term refused).bind

theorem initElement_refuses {arity : Nat} {done : List ErlTerm} (room : done.length < arity)
    {term : ErlTerm} (refused : Place.element.accepts term = false) :
    Refusal (ErlTuple.initElement (some term) (ErlTuple.holding arity done)).1 := by
  have flag : term.isValid = false := refused
  have missing : (done.length == arity) = false := by
    rw [beq_eq_false_iff_ne]
    omega
  refine .inr ⟨"Element is invalid", ?_⟩
  simp only [ErlTuple.initElement, ErlTuple.holding, missing, flag, Bool.false_eq_true, if_false]

theorem addElement_refuses (list : ErlConsList) {term : ErlTerm}
    (refused : Place.element.accepts term = false) :
    Refusal (ErlConsList.addElement (some term) list).1 := by
  have flag : term.isValid = false := refused
  refine .inr ⟨"Element is invalid", ?_⟩
  simp only [ErlConsList.addElement, flag, Bool.not_false, if_true]

/-- Taking the elements of a list over leaves an open list, or it is refused. -/
theorem addElementsOf_ends (mInitialized : Bool) (elems : List ErlTerm) (remaining index : Nat)
    (flag : mInitialized = true)
    (inside : index + remaining ≤ ErlConsList.arity ⟨mInitialized, elems⟩) (done : List ErlTerm) :
    (∃ more, ErlConsList.addElementsOf ⟨mInitialized, elems⟩ remaining index ⟨false, done⟩ =
      (.returns (), ⟨false, more⟩)) ∨
    Refusal (ErlConsList.addElementsOf ⟨mInitialized, elems⟩ remaining index ⟨false, done⟩).1 := by
  subst flag
  induction remaining generalizing index done with
  | zero => exact .inl ⟨done, rfl⟩
  | succ remaining ih =>
      have low : ¬ index ≥ ErlConsList.arity ⟨true, elems⟩ := by omega
      rw [ErlConsList.addElementsOf]
      cases found : elems[index]? with
      | none =>
          have read : ErlConsList.elementAt ⟨true, elems⟩ index = .aborts := by
            simp only [ErlConsList.elementAt, Bool.not_true, Bool.false_eq_true, if_false, low,
              found]
          rw [read]
          exact .inr (.inl rfl)
      | some elem =>
          have read : ErlConsList.elementAt ⟨true, elems⟩ index = .returns elem := by
            simp only [ErlConsList.elementAt, Bool.not_true, Bool.false_eq_true, if_false, low,
              found]
          rw [read, Effect.lift_returns_bind]
          cases valid : elem.isValid with
          | true =>
              rw [Effect.bind_of_returns (ErlConsList.addElement_open done valid)]
              exact ih (index + 1) (done ++ [elem]) (by omega)
          | false =>
              rw [Effect.bind_run]
              refine .inr (.inr ⟨"Element is invalid", ?_⟩)
              simp only [ErlConsList.addElement, valid, Bool.not_false, if_true]

theorem close_refuses (done : List ErlTerm) {term : ErlTerm}
    (refused : Place.final.accepts term = false) :
    Refusal (ErlConsList.close (some term) ⟨false, done⟩).1 := by
  cases flag : term.isValid with
  | false =>
      rw [ErlConsList.close_invalid _ flag]
      exact .inr ⟨_, rfl⟩
  | true =>
      cases term with
      | erlConsList mInitialized elems =>
          have here : mInitialized = true := flag
          have refusedTail := ErlConsList.tail_arity ⟨mInitialized, elems⟩ here
          have taken := addElementsOf_ends mInitialized elems
            (ErlConsList.arity ⟨mInitialized, elems⟩) 0 here (by omega) done
          simp only [ErlConsList.close, ErlConsList.closeWithin, flag, Bool.not_true,
            Bool.false_eq_true, if_false, refusedTail, Method.throwsOnly, Effect.mapOutcome_run]
          rcases taken with ⟨more, added⟩ | refusal
          · rw [Effect.bind_of_returns added]
            exact .inr ⟨_, rfl⟩
          · rcases refusal.bind with aborted | ⟨message, thrown⟩
            · exact .inl (by rw [aborted]; rfl)
            · exact .inr ⟨message, by rw [thrown]; rfl⟩
      | _ => exact absurd refused (by simp [Place.accepts, flag, isConsList])

/-- The entries of a vector whose substitutions end as their own entries say. -/
def EachEnds (binding : Option VariableBinding) (elems : List ErlTerm) : Prop :=
  ∀ elem ∈ elems, elem.Valid ∧ EndsAt binding (elem.visits .alone) (elem.subst binding)

theorem substTuple_ends {elems : List ErlTerm} (each : EachEnds binding elems) {arity : Nat}
    (done : List ErlTerm) (room : done.length + elems.length ≤ arity) (change : Bool) :
    EndsAt binding (visitsEach .element elems)
      (substTuple binding elems change (ErlTuple.holding arity done)).1 := by
  induction elems generalizing done change with
  | nil => exact ⟨change, rfl⟩
  | cons elem rest ih =>
      obtain ⟨valid, ends⟩ := each elem List.mem_cons_self
      simp only [List.length_cons] at room
      have roomHere : done.length < arity := by omega
      rw [visitsEach, ite_self, substTuple]
      apply endsAt_round valid ends (fun term refused => initElement_refuses roomHere refused)
      intro result accepted
      have stored := ErlTuple.initElement_holding arity done roomHere accepted
      refine ⟨_, stored, ?_⟩
      apply ih (fun other member => each other (List.mem_cons_of_mem _ member))
      simp only [List.length_append, List.length_singleton]
      omega

theorem substConsList_ends {elems : List ErlTerm} (each : EachEnds binding elems)
    (done : List ErlTerm) (change : Bool) :
    EndsAt binding (visitsEach .final elems)
      (substConsList binding elems change ⟨false, done⟩).1 := by
  induction elems generalizing done change with
  | nil => exact ⟨change, rfl⟩
  | cons elem rest ih =>
      obtain ⟨valid, ends⟩ := each elem List.mem_cons_self
      have later := ih (fun other member => each other (List.mem_cons_of_mem _ member))
      rw [visitsEach, substConsList]
      cases empty : rest.isEmpty with
      | true =>
          simp only [if_true]
          apply endsAt_round valid ends (fun term refused => close_refuses done refused)
          intro result accepted
          have taken : result.term.isValid = true ∧ result.term.isConsList = false := by
            simpa [Place.accepts] using accepted
          rw [List.isEmpty_iff.mp empty]
          exact ⟨_, ErlConsList.close_plain done taken.1 taken.2, change || result.same, rfl⟩
      | false =>
          simp only [Bool.false_eq_true, if_false]
          apply endsAt_round valid ends (fun term refused => addElement_refuses _ refused)
          intro result accepted
          exact ⟨_, ErlConsList.addElement_open done accepted, later _ _⟩

/-- How the substitution of a term ends that comes to these entries. -/
def EndsAlone (binding : Option VariableBinding) (visits : List Visit)
    (outcome : Call Substituted) : Prop :=
  match visits.find? (Visit.stops binding) with
  | none => ∃ value, outcome = .returns value
  | some visit =>
      match visit.unbound binding with
      | true => ∃ mName, outcome = .throws (.variableUnbound mName)
      | false => outcome = .aborts

theorem EndsAlone.endsAt {visits : List Visit} {outcome : Call Substituted}
    (ends : EndsAlone binding visits outcome) : EndsAt binding visits outcome := by
  unfold EndsAlone at ends
  unfold EndsAt
  cases found : visits.find? (Visit.stops binding) with
  | none => simpa only [found] using ends
  | some visit =>
      cases missing : visit.unbound binding with
      | true => simpa only [found, missing] using ends
      | false =>
          simp only [found, missing] at ends ⊢
          exact .inl ends

/-- The specification of a compound term ends the process at a refused entry. -/
theorem EndsAt.specified {visits : List Visit} {outcome : Call Bool}
    (ends : EndsAt binding visits outcome) (finish : Bool → Substituted) :
    EndsAlone binding visits (Call.throwsOnly [.epiInvalidTerm, .epiVariableUnbound] (do
      let change ← outcome
      return finish change)) := by
  unfold EndsAt at ends
  unfold EndsAlone
  cases found : visits.find? (Visit.stops binding) with
  | none =>
      rw [found] at ends
      obtain ⟨change, rfl⟩ := ends
      exact ⟨finish change, rfl⟩
  | some visit =>
      cases missing : visit.unbound binding with
      | true =>
          simp only [found, missing] at ends ⊢
          obtain ⟨mName, rfl⟩ := ends
          exact ⟨mName, rfl⟩
      | false =>
          simp only [found, missing] at ends ⊢
          rcases ends with rfl | ⟨message, rfl⟩
          · rfl
          · rfl

/-- A compound term by itself is not refused. -/
theorem endsAlone_compound {term : ErlTerm} (fixed : term.isVariable = false)
    {outcome : Call Substituted} (ends : EndsAlone binding term.innerVisits outcome) :
    EndsAlone binding (term.visits .alone) outcome := by
  have passes : Visit.stops binding ⟨.alone, term⟩ = false := by
    cases term with
    | erlVariable mName => exact absurd fixed (by simp [isVariable])
    | _ => rfl
  have last : [(⟨.alone, term⟩ : Visit)].find? (Visit.stops binding) = none := by
    rw [List.find?_singleton, passes]
    rfl
  unfold EndsAlone at ends ⊢
  rw [visits_eq, List.find?_append, last, Option.or_none]
  exact ends

theorem subst_erlTuple_ends {mInitialized : Bool} {arity : Nat} {elems : List ErlTerm}
    (each : EachEnds binding elems) (room : elems.length ≤ arity) :
    EndsAlone binding ((erlTuple mInitialized (some arity) elems).visits .alone)
      ((erlTuple mInitialized (some arity) elems).subst binding) := by
  have started : ([] : List ErlTerm).length + elems.length ≤ arity := by simpa using room
  have ends := substTuple_ends each [] started false
  apply endsAlone_compound rfl
  rw [subst]
  simp only [ErlTuple.arity, Outcome.returns_bind]
  rw [ErlTuple.ofArity_eq]
  rcases ran : substTuple binding elems false (ErlTuple.holding arity []) with ⟨outcome, after⟩
  rw [ran] at ends
  exact ends.specified _

theorem subst_erlConsList_ends {mInitialized : Bool} {elems : List ErlTerm}
    (each : EachEnds binding elems) :
    EndsAlone binding ((erlConsList mInitialized elems).visits .alone)
      ((erlConsList mInitialized elems).subst binding) := by
  have ends := substConsList_ends each [] false
  apply endsAlone_compound rfl
  rw [subst]
  rcases ran : substConsList binding elems false ErlConsList.uninitialized with ⟨outcome, after⟩
  have start : ErlConsList.uninitialized = ⟨false, []⟩ := rfl
  rw [← start, ran] at ends
  exact ends.specified _

theorem subst_erlVariable_ends (mName : Bytes) :
    EndsAlone binding ((erlVariable mName).visits .alone) ((erlVariable mName).subst binding) := by
  have stops : Visit.stops binding ⟨.alone, .erlVariable mName⟩ =
      (valueOf binding mName).isNone := Bool.or_false _
  unfold EndsAlone
  rw [visits, List.find?_singleton, stops]
  cases known : valueOf binding mName with
  | some value => exact ⟨_, subst_erlVariable known⟩
  | none =>
      simp only [Option.isNone_none, if_true, Visit.unbound, known]
      unfold valueOf at known
      rw [subst]
      by_cases wild : mName = anonymous
      · rw [if_pos wild]
        exact ⟨anonymous, rfl⟩
      · rw [if_neg wild] at known ⊢
        rw [known]
        exact ⟨mName, rfl⟩

/-- The first entry that stops it decides how the substitution of a valid term ends. -/
theorem subst_ends {term : ErlTerm} (valid : term.Valid) :
    EndsAlone binding (term.visits .alone) (term.subst binding) := by
  induction term with
  | simple value =>
      have flag : value.isValid = true := valid.isValid
      rw [subst, if_pos flag]
      exact ⟨_, rfl⟩
  | erlTuple mInitialized mArity elems ih =>
      obtain ⟨-, size, parts⟩ := valid_erlTuple.mp valid
      subst size
      apply subst_erlTuple_ends _ le_rfl
      exact fun elem member => ⟨parts elem member, (ih elem member (parts elem member)).endsAt⟩
  | erlConsList mInitialized elems ih =>
      obtain ⟨-, -, parts⟩ := valid_erlConsList.mp valid
      apply subst_erlConsList_ends
      exact fun elem member => ⟨parts elem member, (ih elem member (parts elem member)).endsAt⟩
  | erlVariable mName => exact subst_erlVariable_ends mName

end ErlTerm

end Epi.Type
