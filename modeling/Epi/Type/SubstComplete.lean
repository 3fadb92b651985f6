import Epi.Type.MatchCorrect
import Epi.Type.SubstVisits

namespace Epi.Type

open Verification ErlTerm

namespace ErlTerm

variable {binding : Option VariableBinding}

def completeNode (binding : Option VariableBinding) : ErlTerm → Bool
  | .erlVariable mName => (valueOf binding mName).isSome
  | _ => true

/-- No variable is anonymous, and every variable has a value. -/
def Complete (binding : Option VariableBinding) (term : ErlTerm) : Prop :=
  term.every (completeNode binding) = true

instance (binding : Option VariableBinding) (term : ErlTerm) : Decidable (term.Complete binding) :=
  inferInstanceAs (Decidable (_ = true))

/-- A complete term gives the term with the values in place of the variables, and any other one
the error of an unbound variable. A result that is the term itself is the term as it was. -/
def SubstCorrect (binding : VariableBinding) (term : ErlTerm) : Prop :=
  (term.Complete (some binding) → ∃ result, term.subst (some binding) = .returns result ∧
    result.term.Ground ∧ IsInstance binding.search term result.term ∧
    (result.same = true → result.term = term)) ∧
  (¬ term.Complete (some binding) → ∃ mName,
    term.subst (some binding) = .throws (.variableUnbound mName))

end ErlTerm

namespace Visit

/-- A variable that ends a list and has a list as its value. -/
def listTail (binding : Option VariableBinding) (visit : Visit) : Bool :=
  match visit.place, visit.entry with
  | .final, .erlVariable mName => (ErlTerm.valueOf binding mName).any ErlTerm.isConsList
  | _, _ => false

end Visit

namespace ErlTerm

variable {binding : Option VariableBinding}

/-- No list tail that has a list as its value comes before the first variable without a value. -/
def TailsFit (binding : Option VariableBinding) (term : ErlTerm) : Prop :=
  ∀ visit, (term.visits .alone).find? (fun visit => visit.unbound binding ||
    visit.listTail binding) = some visit → visit.unbound binding = true

theorem visitsEach_element (elems : List ErlTerm) :
    visitsEach .element elems = elems.flatMap (visits .element) := by
  induction elems with
  | nil => rfl
  | cons elem rest ih => rw [visitsEach, ite_self, ih, List.flatMap_cons]

/-- The last entry of a vector has a place of its own. -/
theorem visitsEach_concat (place : Place) (cells : List ErlTerm) (last : ErlTerm) :
    visitsEach place (cells ++ [last]) = cells.flatMap (visits .element) ++ last.visits place := by
  induction cells with
  | nil => simp [visitsEach]
  | cons elem rest ih =>
      have more : (rest ++ [last]).isEmpty = false := by simp
      rw [List.cons_append, visitsEach, more, if_neg Bool.false_ne_true, ih, List.flatMap_cons,
        List.append_assoc]

theorem mem_visits_erlTuple {mInitialized : Bool} {mArity : Option Nat} {elems : List ErlTerm}
    {place : Place} {visit : Visit} :
    visit ∈ (erlTuple mInitialized mArity elems).visits place ↔
      (∃ elem ∈ elems, visit ∈ elem.visits .element) ∨
        visit = ⟨place, .erlTuple mInitialized mArity elems⟩ := by
  rw [visits, List.mem_append, List.mem_singleton, visitsEach_element, List.mem_flatMap]

theorem mem_visits_erlConsList {mInitialized : Bool} {cells : List ErlTerm} {last : ErlTerm}
    {place : Place} {visit : Visit} :
    visit ∈ (erlConsList mInitialized (cells ++ [last])).visits place ↔
      ((∃ cell ∈ cells, visit ∈ cell.visits .element) ∨ visit ∈ last.visits .final) ∨
        visit = ⟨place, .erlConsList mInitialized (cells ++ [last])⟩ := by
  rw [visits, List.mem_append, List.mem_singleton, visitsEach_concat, List.mem_append,
    List.mem_flatMap]

/-- The entries of a valid term are valid, and the last entry of a list is no list. -/
theorem visits_valid {term : ErlTerm} (valid : term.Valid) {place : Place}
    (plain : place = .final → term.isConsList = false) {visit : Visit}
    (member : visit ∈ term.visits place) :
    visit.entry.Valid ∧ (visit.place = .final → visit.entry.isConsList = false) := by
  induction term generalizing place with
  | simple value =>
      rw [List.mem_singleton.mp member]
      exact ⟨valid, plain⟩
  | erlTuple mInitialized mArity elems ih =>
      have parts := valid.parts
      rcases mem_visits_erlTuple.mp member with ⟨elem, inside, there⟩ | rfl
      · exact ih elem inside (parts elem inside) (by simp) there
      · exact ⟨valid, plain⟩
  | erlConsList mInitialized elems ih =>
      obtain ⟨-, closed, parts⟩ := valid_erlConsList.mp valid
      obtain ⟨cells, last, rfl, lastPlain⟩ := closedBy_split closed
      rcases mem_visits_erlConsList.mp member with (⟨cell, inside, there⟩ | there) | rfl
      · have within : cell ∈ cells ++ [last] := List.mem_append_left _ inside
        exact ih cell within (parts cell within) (by simp) there
      · have within : last ∈ cells ++ [last] := by simp
        exact ih last within (parts last within) (fun _ => lastPlain) there
      · exact ⟨valid, plain⟩
  | erlVariable mName =>
      rw [List.mem_singleton.mp member]
      exact ⟨valid, plain⟩

theorem everyElement_iff_visits {check : ErlTerm → Bool} {elems : List ErlTerm} (last : Place)
    (each : ∀ elem ∈ elems, ∀ place, elem.every check = true ↔
      ∀ visit ∈ elem.visits place, check visit.entry = true) :
    (∀ elem ∈ elems, elem.every check = true) ↔
      ∀ visit ∈ visitsEach last elems, check visit.entry = true := by
  induction elems with
  | nil => simp [visitsEach]
  | cons elem rest ih =>
      rw [visitsEach, List.forall_mem_append, List.forall_mem_cons,
        ← each elem List.mem_cons_self,
        ih fun other member => each other (List.mem_cons_of_mem _ member)]

/-- The entries that are visited are the term and all terms below it. -/
theorem every_iff_visits {check : ErlTerm → Bool} {term : ErlTerm} (place : Place) :
    term.every check = true ↔ ∀ visit ∈ term.visits place, check visit.entry = true := by
  induction term generalizing place with
  | simple value => simp [visits]
  | erlTuple mInitialized mArity elems ih =>
      rw [every_erlTuple, everyElement_iff_visits .element ih, visits, List.forall_mem_append,
        List.forall_mem_singleton, and_comm]
  | erlConsList mInitialized elems ih =>
      rw [every_erlConsList, everyElement_iff_visits .final ih, visits, List.forall_mem_append,
        List.forall_mem_singleton, and_comm]
  | erlVariable mName => simp [visits]

theorem complete_iff {term : ErlTerm} (place : Place) :
    term.Complete binding ↔ ∀ visit ∈ term.visits place, visit.unbound binding = false := by
  rw [Complete, every_iff_visits place]
  apply forall₂_congr
  intro visit _
  obtain ⟨place, entry⟩ := visit
  cases entry with
  | erlVariable mName =>
      simp only [completeNode, Visit.unbound]
      cases valueOf binding mName <;> simp
  | _ => simp [completeNode, Visit.unbound]

/-- With valid values only a list tail is refused. -/
theorem refused_eq_listTail (values : ∀ held ∈ binding, held.Values Valid) {visit : Visit}
    (valid : visit.entry.Valid) (plain : visit.place = .final → visit.entry.isConsList = false) :
    visit.refused binding = visit.listTail binding := by
  obtain ⟨place, entry⟩ := visit
  cases fixed : entry.isVariable with
  | false =>
      have own : entry.isValid = true := Valid.isValid valid
      have none : Visit.listTail binding ⟨place, entry⟩ = false := by
        cases entry with
        | erlVariable mName => exact absurd fixed (by simp [isVariable])
        | _ => cases place <;> rfl
      rw [none, Visit.refused, standsFor_fixed fixed]
      cases place with
      | alone => rfl
      | element => simp only [Place.accepts, own, Bool.not_true]
      | final => simp only [Place.accepts, own, plain rfl, Bool.not_false, Bool.and_self,
          Bool.not_true]
  | true =>
      cases entry with
      | erlVariable mName =>
          cases known : valueOf binding mName with
          | none => cases place <;> simp [Visit.refused, Visit.listTail, standsFor, known,
              Place.accepts, isValid, isConsList]
          | some value =>
              obtain ⟨held, bound, search⟩ :=
                Option.bind_eq_some_iff.mp (valueOf_eq_some.mp known).2
              have flag : value.isValid = true := (values held bound mName value search).isValid
              cases place <;> simp [Visit.refused, Visit.listTail, standsFor, known,
                Place.accepts, flag]
      | _ => cases fixed

theorem tailsFit_iff (values : ∀ held ∈ binding, held.Values Valid) {term : ErlTerm}
    (valid : term.Valid) : term.TailsFit binding ↔ term.Unhindered binding := by
  have same : (term.visits .alone).find? (fun visit => visit.unbound binding ||
      visit.listTail binding) = (term.visits .alone).find? (Visit.stops binding) := by
    apply List.find?_congr
    intro visit member
    obtain ⟨entryValid, plain⟩ := visits_valid valid (by simp) member
    rw [Visit.stops, refused_eq_listTail values entryValid plain]
  unfold TailsFit Unhindered
  rw [same]

section Filled

variable {binding : VariableBinding}

/-- The values in place of the variables leave no variable. -/
theorem ground_filled (values : binding.Values Ground) {term : ErlTerm}
    (complete : term.Complete (some binding)) : (term.filled (some binding)).Ground := by
  have parts := hereditary_every _ _ complete
  induction term with
  | simple value =>
      rw [filled, Ground, every_simple]
      rfl
  | erlTuple mInitialized mArity elems ih =>
      rw [filled, filledEach_eq]
      refine (every_erlTuple ..).mpr ⟨rfl, ?_⟩
      intro part member
      obtain ⟨elem, inside, rfl⟩ := List.mem_map.mp member
      exact ih elem inside (parts elem inside) (hereditary_every _ _ (parts elem inside))
  | erlConsList mInitialized elems ih =>
      rw [filled, filledEach_eq]
      refine (every_erlConsList ..).mpr ⟨rfl, ?_⟩
      intro part member
      obtain ⟨elem, inside, rfl⟩ := List.mem_map.mp member
      exact ih elem inside (parts elem inside) (hereditary_every _ _ (parts elem inside))
  | erlVariable mName =>
      obtain ⟨value, known⟩ := Option.isSome_iff_exists.mp (every_self complete)
      rw [filled_erlVariable known]
      exact values mName value (valueOf_eq_some.mp known).2

theorem areInstances_map {values : Substitution} {result : ErlTerm → ErlTerm}
    {elems : List ErlTerm} (each : ∀ elem ∈ elems, IsInstance values elem (result elem)) :
    AreInstances values elems (elems.map result) := by
  induction elems with
  | nil => rfl
  | cons elem rest ih =>
      refine ⟨result elem, rest.map result, each elem List.mem_cons_self, ?_, rfl⟩
      exact ih fun other member => each other (List.mem_cons_of_mem _ member)

theorem spliced_plain {cells : List ErlTerm} {last : ErlTerm} (plain : last.isConsList = false) :
    spliced (cells ++ [last]) = cells ++ [last] := by
  unfold spliced
  rw [List.getLast?_concat]
  cases last with
  | erlConsList mInitialized elems => exact absurd plain (by simp [isConsList])
  | _ => rfl

/-- A term with fine variables and the values in their place. -/
theorem isInstance_filled {term : ErlTerm} (valid : term.Valid)
    (fine : term.Fine (some binding)) :
    IsInstance binding.search term (term.filled (some binding)) := by
  have fines := fine.parts
  induction term with
  | simple value => rw [filled, IsInstance]
  | erlTuple mInitialized mArity elems ih =>
      have parts := valid.parts
      rw [filled, filledEach_eq, IsInstance]
      refine ⟨_, areInstances_map fun elem inside => ?_, rfl⟩
      exact ih elem inside (parts elem inside) (fines elem inside) (fines elem inside).parts
  | erlConsList mInitialized elems ih =>
      obtain ⟨-, closed, parts⟩ := valid_erlConsList.mp valid
      obtain ⟨cells, last, rfl, plain⟩ := closedBy_split closed
      have tail := filled_plain (fines last (by simp [ErlTerm.parts])) plain (fine_tail fine)
      rw [filled, filledEach_eq, IsInstance]
      refine ⟨(cells ++ [last]).map (filled (some binding)),
        areInstances_map fun elem inside => ?_, ?_⟩
      · exact ih elem inside (parts elem inside) (fines elem inside) (fines elem inside).parts
      · rw [List.map_append, List.map_singleton, spliced_plain tail]
  | erlVariable mName =>
      have here : (valueOf (some binding) mName).any isValid = true := every_self fine
      obtain ⟨value, known, -⟩ := (Option.any_eq_true _ _).mp here
      rw [filled_erlVariable known, IsInstance]
      exact .inr (valueOf_eq_some.mp known).2

/-- The result of a term without obstacles is correct where every list is rebuilt. -/
theorem returned_correct_iff (values : binding.Values Ground) {term : ErlTerm}
    (valid : term.Valid) (complete : term.Complete (some binding)) {result : Substituted}
    (ran : term.subst (some binding) = .returns result) :
    (result.term.Ground ∧ IsInstance binding.search term result.term ∧
      (result.same = true → result.term = term)) ↔ term.Rebuilt := by
  have substitutable := (subst_returns_iff valid).mp ⟨result, ran⟩
  cases fixed : term.isVariable with
  | true =>
      cases term with
      | erlVariable mName =>
          have known := subst_variable_returns ran
          have search : binding.search mName = some result.term := (valueOf_eq_some.mp known).2
          rw [subst_erlVariable known] at ran
          have moved : false = result.same := congrArg Substituted.same (Outcome.returns.inj ran)
          rw [IsInstance, Rebuilt, every_erlVariable, ← moved]
          exact iff_of_true ⟨values mName _ search, .inr search,
            fun moved => absurd moved Bool.false_ne_true⟩ rfl
      | _ => cases fixed
  | false =>
      have fine := fine_of_substitutable fixed substitutable
      rw [(subst_of_fine valid fine).1] at ran
      cases ran
      constructor
      · rintro ⟨ground, -, -⟩
        exact rebuilt_of_substituted ground
      · intro rebuilt
        have filling : term.substituted (some binding) = term.filled (some binding) :=
          substituted_eq_filled rebuilt
        refine ⟨?_, ?_, ?_⟩
        · rw [filling]
          exact ground_filled values complete
        · rw [filling]
          exact isInstance_filled valid fine
        · intro kept
          rw [filling]
          exact filled_ground (ground_of_keeps rebuilt kept) (some binding)

/-- Substitution is correct exactly where no list tail with a list comes before a variable without
a value, and where every list of a complete term is rebuilt. -/
theorem subst_correct_iff {term : ErlTerm} (valid : term.Valid)
    (values : binding.Values fun value => value.Valid ∧ value.Ground) :
    term.SubstCorrect binding ↔
      term.TailsFit (some binding) ∧ (term.Complete (some binding) → term.Rebuilt) := by
  have grounds : binding.Values Ground := fun name value known => (values name value known).2
  have valids : ∀ held ∈ some binding, held.Values Valid := by
    intro held same name value known
    cases same
    exact (values name value known).1
  have ends : EndsAlone (some binding) (term.visits .alone) (term.subst (some binding)) :=
    subst_ends valid
  rw [tailsFit_iff valids valid]
  unfold EndsAlone at ends
  cases found : (term.visits .alone).find? (Visit.stops (some binding)) with
  | none =>
      rw [found] at ends
      obtain ⟨result, ran⟩ := ends
      have complete : term.Complete (some binding) := by
        rw [complete_iff .alone]
        intro visit member
        have passes := List.find?_eq_none.mp found visit member
        rw [Visit.stops, Bool.not_eq_true, Bool.or_eq_false_iff] at passes
        exact passes.1
      have correct := returned_correct_iff grounds valid complete ran
      constructor
      · rintro ⟨returned, -⟩
        obtain ⟨other, again, right⟩ := returned complete
        have same : result = other := Outcome.returns.inj (ran.symm.trans again)
        subst same
        exact ⟨unhindered_of_none found, fun _ => correct.mp right⟩
      · rintro ⟨-, rebuilt⟩
        exact ⟨fun _ => ⟨result, ran, correct.mpr (rebuilt complete)⟩,
          fun missing => absurd complete missing⟩
  | some visit =>
      have member := List.mem_of_find?_eq_some found
      unfold Unhindered
      rw [found]
      cases missing : visit.unbound (some binding) with
      | true =>
          simp only [found, missing] at ends
          have incomplete : ¬ term.Complete (some binding) := by
            intro complete
            have bound := (complete_iff .alone).mp complete visit member
            exact Bool.false_ne_true (bound.symm.trans missing)
          refine iff_of_true ⟨fun complete => absurd complete incomplete, fun _ => ends⟩ ⟨?_, ?_⟩
          · rintro other same
            cases same
            exact missing
          · exact fun complete => absurd complete incomplete
      | false =>
          simp only [found, missing] at ends
          refine iff_of_false ?_ ?_
          · rintro ⟨returned, thrown⟩
            by_cases complete : term.Complete (some binding)
            · obtain ⟨result, ran, -⟩ := returned complete
              rw [ends] at ran
              cases ran
            · obtain ⟨mName, ran⟩ := thrown complete
              rw [ends] at ran
              cases ran
          · rintro ⟨unhindered, -⟩
            exact Bool.false_ne_true (missing.symm.trans (unhindered visit rfl))

end Filled

/-- The binding of `X` to 7 and of `Y` to `[8]`. -/
def listBinding : VariableBinding :=
  (VariableBinding.empty.bind (text "X") (.simple (.erlLong (some 7)))).bind (text "Y")
    (.erlConsList true [.simple (.erlLong (some 8)), .simple .erlEmptyList])

theorem listBinding_values : listBinding.Values fun value => value.Valid ∧ value.Ground :=
  ((VariableBinding.values_empty _).bind ⟨by decide, by decide⟩ _).bind
    ⟨by decide, by decide⟩ _

/-- The term `{X, [1 | Y]}`. -/
def listTailTerm : ErlTerm :=
  .erlTuple true (some 2) [.erlVariable (text "X"),
    .erlConsList true [.simple (.erlLong (some 1)), .erlVariable (text "Y")]]

theorem subst_correct_iff_tail :
    listTailTerm.SubstCorrect listBinding ↔
      listTailTerm.TailsFit (some listBinding) ∧
        (listTailTerm.Complete (some listBinding) → listTailTerm.Rebuilt) :=
  subst_correct_iff (by decide) listBinding_values

/-- The list `[X | X]`. -/
def variableList : ErlTerm := .erlConsList true [.erlVariable (text "X"), .erlVariable (text "X")]

/-- The list comes back as it is, with its variables. -/
theorem subst_keeps_variables :
    variableList.Valid ∧ variableList.Celled ∧
    (listBinding.Values fun value => value.Valid ∧ value.Ground) ∧
    variableList.Complete (some listBinding) ∧
    variableList.subst (some listBinding) = .returns ⟨variableList, true⟩ ∧
    ¬ variableList.SubstCorrect listBinding := by
  have valid : variableList.Valid := by decide
  have fine : variableList.Fine (some listBinding) := by decide
  have complete : variableList.Complete (some listBinding) := by decide
  have ran : variableList.subst (some listBinding) = .returns ⟨variableList, true⟩ :=
    (subst_of_fine valid fine).1
  refine ⟨valid, by decide, listBinding_values, complete, ran, ?_⟩
  rintro ⟨returned, -⟩
  obtain ⟨result, again, ground, -⟩ := returned complete
  rw [ran] at again
  cases again
  exact absurd ground (by decide)

end ErlTerm

end Epi.Type
