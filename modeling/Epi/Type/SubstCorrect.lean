import Epi.Type.MatchRefinement

namespace Epi.Type

open Verification

namespace ErlTerm

mutual

/-- The pattern with the values of its variables, without a new arrangement of its lists. -/
def filled (binding : Option VariableBinding) : ErlTerm → ErlTerm
  | .simple value => .simple value
  | .erlTuple mInitialized mArity elems => .erlTuple mInitialized mArity (filledEach binding elems)
  | .erlConsList mInitialized elems => .erlConsList mInitialized (filledEach binding elems)
  | .erlVariable mName => (binding.bind (·.search mName)).getD (.erlVariable mName)

def filledEach (binding : Option VariableBinding) : List ErlTerm → List ErlTerm
  | [] => []
  | elem :: rest => filled binding elem :: filledEach binding rest

end

theorem filledEach_eq (binding : Option VariableBinding) (elems : List ErlTerm) :
    filledEach binding elems = elems.map (filled binding) := by
  induction elems with
  | nil => rfl
  | cons elem rest ih => rw [filledEach, ih, List.map_cons]

theorem filled_ground {term : ErlTerm} (ground : term.Ground) (binding : Option VariableBinding) :
    filled binding term = term := by
  have each : ∀ elems : List ErlTerm, (∀ elem ∈ elems, filled binding elem = elem) →
      filledEach binding elems = elems := by
    intro elems same
    rw [filledEach_eq]
    exact (List.map_congr_left same).trans (List.map_id' elems)
  induction term with
  | simple value => rw [filled]
  | erlTuple mInitialized mArity elems ih =>
      rw [filled, each elems fun elem member => ih elem member (ground.parts elem member)]
  | erlConsList mInitialized elems ih =>
      rw [filled, each elems fun elem member => ih elem member (ground.parts elem member)]
  | erlVariable mName => exact absurd ground (by simp [Ground, isVariable])

def namedNode : ErlTerm → Bool
  | .erlVariable mName => mName != anonymous
  | _ => true

/-- No variable is anonymous. -/
def Named (term : ErlTerm) : Prop := term.every namedNode = true

instance (term : ErlTerm) : Decidable (Named term) := inferInstanceAs (Decidable (_ = true))

theorem named_of_ground {term : ErlTerm} (ground : term.Ground) : Named term := by
  apply every_imp _ ground
  intro part holds
  cases part with
  | erlVariable mName => exact absurd holds (by simp [isVariable])
  | _ => rfl

mutual

/-- The term comes back as its own pointer: a tuple if no element changes, a list if every cell
changes. -/
def keeps : ErlTerm → Bool
  | .simple _ => true
  | .erlTuple _ _ elems => keepsEach elems
  | .erlConsList _ elems => !keepsSome elems
  | .erlVariable _ => false

def keepsEach : List ErlTerm → Bool
  | [] => true
  | elem :: rest => keeps elem && keepsEach rest

def keepsSome : List ErlTerm → Bool
  | [] => false
  | elem :: rest => keeps elem || keepsSome rest

end

theorem keepsEach_eq (elems : List ErlTerm) : keepsEach elems = elems.all keeps := by
  induction elems with
  | nil => rfl
  | cons elem rest ih => rw [keepsEach, ih, List.all_cons]

theorem keepsSome_eq (elems : List ErlTerm) : keepsSome elems = elems.any keeps := by
  induction elems with
  | nil => rfl
  | cons elem rest ih => rw [keepsSome, ih, List.any_cons]

mutual

/-- The term that `subst` returns, if it returns. -/
def substituted (binding : Option VariableBinding) : ErlTerm → ErlTerm
  | .simple value => .simple value
  | .erlTuple mInitialized mArity elems =>
      if elems.all keeps then .erlTuple mInitialized mArity elems
      else .erlTuple mInitialized mArity (substitutedEach binding elems)
  | .erlConsList mInitialized elems =>
      if elems.any keeps then .erlConsList mInitialized (substitutedEach binding elems)
      else .erlConsList mInitialized elems
  | .erlVariable mName => (binding.bind (·.search mName)).getD (.erlVariable mName)

def substitutedEach (binding : Option VariableBinding) : List ErlTerm → List ErlTerm
  | [] => []
  | elem :: rest => substituted binding elem :: substitutedEach binding rest

end

theorem substitutedEach_eq (binding : Option VariableBinding) (elems : List ErlTerm) :
    substitutedEach binding elems = elems.map (substituted binding) := by
  induction elems with
  | nil => rfl
  | cons elem rest ih => rw [substitutedEach, ih, List.map_cons]

/-- The value of a variable. -/
def valueOf (binding : Option VariableBinding) (mName : Bytes) : Option ErlTerm :=
  if mName = anonymous then none else binding.bind (·.search mName)

def fineNode (binding : Option VariableBinding) : ErlTerm → Bool
  | .erlVariable mName => (valueOf binding mName).any isValid
  | .erlConsList _ elems =>
      match elems.getLast? with
      | some (.erlVariable mName) => !(valueOf binding mName).any isConsList
      | _ => true
  | _ => true

/-- Every variable has an initialized value, and no list ends in a variable with a list. -/
def Fine (binding : Option VariableBinding) (term : ErlTerm) : Prop :=
  term.every (fineNode binding) = true

instance (binding : Option VariableBinding) (term : ErlTerm) : Decidable (term.Fine binding) :=
  inferInstanceAs (Decidable (_ = true))

/-- The inputs of a substitution that returns. A variable by itself is not asked for its state. -/
def Substitutable (binding : Option VariableBinding) : ErlTerm → Prop
  | .erlVariable mName => (valueOf binding mName).isSome = true
  | term => term.Fine binding

instance (binding : Option VariableBinding) (term : ErlTerm) :
    Decidable (term.Substitutable binding) :=
  match term with
  | .erlVariable _ => inferInstanceAs (Decidable (_ = true))
  | .simple _ | .erlTuple _ _ _ | .erlConsList _ _ => inferInstanceAs (Decidable (Fine _ _))

section Values

variable {binding : Option VariableBinding}

theorem substituted_erlTuple (mInitialized : Bool) (mArity : Option Nat) (elems : List ErlTerm) :
    (erlTuple mInitialized mArity elems).substituted binding =
      if elems.all keeps then .erlTuple mInitialized mArity elems
      else .erlTuple mInitialized mArity (elems.map (substituted binding)) := by
  rw [substituted, substitutedEach_eq]

theorem substituted_erlConsList (mInitialized : Bool) (elems : List ErlTerm) :
    (erlConsList mInitialized elems).substituted binding =
      if elems.any keeps then .erlConsList mInitialized (elems.map (substituted binding))
      else .erlConsList mInitialized elems := by
  rw [substituted, substitutedEach_eq]

/-- A value that a variable has. -/
theorem valueOf_eq_some {mName : Bytes} {value : ErlTerm} :
    valueOf binding mName = some value ↔
      mName ≠ anonymous ∧ binding.bind (·.search mName) = some value := by
  unfold valueOf
  by_cases wild : mName = anonymous
  · simp [wild]
  · simp [wild]

theorem subst_erlVariable {mName : Bytes} {value : ErlTerm}
    (known : valueOf binding mName = some value) :
    (erlVariable mName).subst binding = .returns ⟨value, false⟩ := by
  obtain ⟨named, found⟩ := valueOf_eq_some.mp known
  rw [subst, if_neg named, found]

theorem substituted_erlVariable {mName : Bytes} {value : ErlTerm}
    (known : valueOf binding mName = some value) :
    (erlVariable mName).substituted binding = value := by
  rw [substituted, (valueOf_eq_some.mp known).2]
  rfl

theorem Fine.parts {term : ErlTerm} (fine : term.Fine binding) :
    ∀ part ∈ term.parts, part.Fine binding :=
  hereditary_every (fineNode binding) term fine

/-- The tail of a list stays a tail. -/
theorem substituted_plain {last : ErlTerm} (fine : last.Fine binding)
    (plain : last.isConsList = false)
    (tail : ∀ mName, last = .erlVariable mName →
      (valueOf binding mName).any isConsList = false) :
    (last.substituted binding).isConsList = false := by
  cases last with
  | simple value =>
      rw [substituted]
      rfl
  | erlTuple mInitialized mArity elems =>
      rw [substituted_erlTuple]
      split <;> rfl
  | erlConsList mInitialized elems => exact absurd plain (by simp [isConsList])
  | erlVariable mName =>
      have here : (valueOf binding mName).any isValid = true := every_self fine
      obtain ⟨value, known, -⟩ := (Option.any_eq_true _ _).mp here
      have list := tail mName rfl
      rw [known] at list
      rw [substituted_erlVariable known]
      simpa using list

/-- The tail variables of a list are not bound to lists. -/
theorem fine_tail {mInitialized : Bool} {cells : List ErlTerm} {last : ErlTerm}
    (fine : (erlConsList mInitialized (cells ++ [last])).Fine binding) :
    ∀ mName, last = .erlVariable mName → (valueOf binding mName).any isConsList = false := by
  intro mName same
  have here : fineNode binding (.erlConsList mInitialized (cells ++ [last])) = true :=
    every_self fine
  simpa [fineNode, same] using here

/-- A substitution of a valid term with fine variables returns a valid term. -/
theorem subst_of_fine {term : ErlTerm} (valid : term.Valid) (fine : term.Fine binding) :
    term.subst binding = .returns ⟨term.substituted binding, term.keeps⟩ ∧
      (term.substituted binding).isValid = true := by
  induction term with
  | simple value =>
      have flag : value.isValid = true := valid.isValid
      rw [subst, if_pos flag, substituted, keeps]
      exact ⟨rfl, flag⟩
  | erlTuple mInitialized mArity elems ih =>
      obtain ⟨flag, size, parts⟩ := valid_erlTuple.mp valid
      have fines := fine.parts
      subst flag size
      have each : SubstEach binding (substituted binding) keeps elems :=
        fun elem member => ih elem member (parts elem member) (fines elem member)
      rw [substituted_erlTuple, keeps, keepsEach_eq, subst_erlTuple each]
      cases elems.all keeps <;> exact ⟨rfl, rfl⟩
  | erlConsList mInitialized elems ih =>
      obtain ⟨flag, closed, parts⟩ := valid_erlConsList.mp valid
      have fines := fine.parts
      obtain ⟨cells, last, rfl, plain⟩ := closedBy_split closed
      subst flag
      have each : SubstEach binding (substituted binding) keeps (cells ++ [last]) :=
        fun elem member => ih elem member (parts elem member) (fines elem member)
      have tail := substituted_plain (fines last (by simp [ErlTerm.parts])) plain (fine_tail fine)
      rw [substituted_erlConsList, keeps, keepsSome_eq, subst_erlConsList each tail]
      cases (cells ++ [last]).any keeps <;> exact ⟨rfl, rfl⟩
  | erlVariable mName =>
      have here : (valueOf binding mName).any isValid = true := every_self fine
      obtain ⟨value, known, flag⟩ := (Option.any_eq_true _ _).mp here
      rw [subst_erlVariable known, substituted_erlVariable known, keeps]
      exact ⟨rfl, flag⟩

/-- Each element of the loop was substituted by a valid term. -/
theorem substTuple_returns {elems : List ErlTerm} {change last : Bool} {tuple after : ErlTuple}
    (ran : substTuple binding elems change tuple = (.returns last, after)) :
    ∀ elem ∈ elems, ∃ result, elem.subst binding = .returns result ∧
      result.term.isValid = true := by
  induction elems generalizing change tuple with
  | nil =>
      intro elem member
      cases member
  | cons elem rest ih =>
      rw [substTuple] at ran
      obtain ⟨result, middle, substituted, next⟩ := Effect.bind_eq_returns.mp ran
      obtain ⟨done, extended, stored, loop⟩ := Effect.bind_eq_returns.mp next
      simp only [Effect.lift_run, Prod.mk.injEq] at substituted
      obtain ⟨substituted, rfl⟩ := substituted
      have flag : result.term.isValid = true := by
        by_contra invalid
        rw [Bool.not_eq_true] at invalid
        simp only [ErlTuple.initElement, invalid] at stored
        split at stored
        · exact absurd stored (by simp)
        · split at stored <;> exact absurd stored (by simp)
      intro other member
      rcases List.mem_cons.mp member with rfl | later
      · exact ⟨result, substituted, flag⟩
      · exact ih loop other later

/-- A list does not close another list. -/
theorem close_consList (mInitialized : Bool) (elems : List ErlTerm) (list after : ErlConsList) :
    ErlConsList.close (some (.erlConsList mInitialized elems)) list ≠ (.returns (), after) := by
  intro ran
  have never : ∀ value,
      ErlConsList.tail ⟨mInitialized, elems⟩ (ErlConsList.arity ⟨mInitialized, elems⟩) ≠
        .returns value := by
    intro value
    cases mInitialized <;> simp [ErlConsList.tail]
  have copying : ∀ before last,
      (do
        ErlConsList.addElementsOf ⟨mInitialized, elems⟩ (ErlConsList.arity ⟨mInitialized, elems⟩) 0
        let rest ← Effect.lift
          (ErlConsList.tail ⟨mInitialized, elems⟩ (ErlConsList.arity ⟨mInitialized, elems⟩))
        ErlConsList.closeWithin 1 (some rest)) before ≠ (.returns (), last) := by
    intro before last ran
    obtain ⟨done, middle, -, ran⟩ := Effect.bind_eq_returns.mp ran
    obtain ⟨rest, later, handed, -⟩ := Effect.bind_eq_returns.mp ran
    exact never rest (congrArg Prod.fst handed)
  rw [ErlConsList.close, ErlConsList.closeWithin, Method.throwsOnly, Effect.mapOutcome_run,
    Prod.mk.injEq, Call.throwsOnly_eq_returns] at ran
  split at ran
  · exact absurd ran.1 (by simp)
  · exact copying _ _ (Prod.ext ran.1 rfl)

/-- Each cell of the loop was substituted by a valid term, and the tail by no list. -/
theorem substConsList_returns {cells : List ErlTerm} {last : ErlTerm} {change result : Bool}
    {list after : ErlConsList}
    (ran : substConsList binding (cells ++ [last]) change list = (.returns result, after)) :
    (∀ elem ∈ cells ++ [last], ∃ result, elem.subst binding = .returns result ∧
      result.term.isValid = true) ∧
    ∃ result, last.subst binding = .returns result ∧ result.term.isConsList = false := by
  induction cells generalizing change list with
  | nil =>
      rw [List.nil_append, substConsList] at ran
      obtain ⟨result, middle, substituted, next⟩ := Effect.bind_eq_returns.mp ran
      simp only [List.isEmpty_nil, if_true] at next
      obtain ⟨done, extended, closed, loop⟩ := Effect.bind_eq_returns.mp next
      simp only [Effect.lift_run, Prod.mk.injEq] at substituted
      obtain ⟨substituted, rfl⟩ := substituted
      have plain : result.term.isConsList = false := by
        by_contra list
        rw [Bool.not_eq_false] at list
        cases same : result.term with
        | erlConsList mInitialized elems =>
            rw [same] at closed
            exact close_consList _ _ _ _ closed
        | _ =>
            rw [same] at list
            exact absurd list (by simp [isConsList])
      have flag : result.term.isValid = true := by
        by_contra invalid
        rw [Bool.not_eq_true] at invalid
        simp [ErlConsList.close, ErlConsList.closeWithin, invalid, Method.throwsOnly,
          Call.throwsOnly_eq_returns] at closed
      refine ⟨?_, result, substituted, plain⟩
      intro elem member
      rw [List.nil_append, List.mem_singleton] at member
      subst member
      exact ⟨result, substituted, flag⟩
  | cons elem rest ih =>
      rw [List.cons_append, substConsList] at ran
      obtain ⟨result, middle, substituted, next⟩ := Effect.bind_eq_returns.mp ran
      have more : (rest ++ [last]).isEmpty = false := by simp
      simp only [more, Bool.false_eq_true, if_false] at next
      obtain ⟨done, extended, added, loop⟩ := Effect.bind_eq_returns.mp next
      simp only [Effect.lift_run, Prod.mk.injEq] at substituted
      obtain ⟨substituted, rfl⟩ := substituted
      have flag : result.term.isValid = true := by
        by_contra invalid
        rw [Bool.not_eq_true] at invalid
        simp [ErlConsList.addElement, invalid] at added
      obtain ⟨each, tail⟩ := ih loop
      refine ⟨?_, tail⟩
      intro other member
      rcases List.mem_cons.mp member with rfl | later
      · exact ⟨result, substituted, flag⟩
      · exact each other later

/-- A variable that is substituted has a value. -/
theorem subst_variable_returns {mName : Bytes} {result : Substituted}
    (ran : (erlVariable mName).subst binding = .returns result) :
    valueOf binding mName = some result.term := by
  rw [subst] at ran
  split at ran
  · cases ran
  · rename_i named
    split at ran
    · rename_i value found
      have same : (⟨value, false⟩ : Substituted) = result := Outcome.returns.inj ran
      rw [← same]
      exact valueOf_eq_some.mpr ⟨named, found⟩
    · cases ran

theorem fine_of_returns {elem : ErlTerm} {result : Substituted}
    (ran : elem.subst binding = .returns result) (flag : result.term.isValid = true)
    (fine : elem.Substitutable binding) : elem.Fine binding := by
  cases elem with
  | erlVariable mName =>
      rw [Fine, every_erlVariable, fineNode, subst_variable_returns ran]
      exact flag
  | _ => exact fine

/-- A substitution returns exactly for these inputs. -/
theorem subst_returns_iff {term : ErlTerm} (valid : term.Valid) :
    (∃ result, term.subst binding = .returns result) ↔ term.Substitutable binding := by
  constructor
  · intro returned
    induction term with
    | simple value =>
        simp only [Substitutable, Fine, every_simple]
        rfl
    | erlTuple mInitialized mArity elems ih =>
        obtain ⟨flag, size, parts⟩ := valid_erlTuple.mp valid
        subst flag size
        obtain ⟨result, ran⟩ := returned
        simp only [subst, Call.throwsOnly_eq_returns, ErlTuple.arity,
          Outcome.returns_bind] at ran
        rcases loop : substTuple binding elems false (ErlTuple.ofArity elems.length) with
          ⟨outcome, after⟩
        simp only [loop] at ran
        obtain ⟨change, rfl, -⟩ := Outcome.bind_eq_returns.mp ran
        have each := substTuple_returns loop
        refine (every_erlTuple ..).mpr ⟨rfl, fun elem member => ?_⟩
        obtain ⟨term, done, flag⟩ := each elem member
        exact fine_of_returns done flag (ih elem member (parts elem member) ⟨term, done⟩)
    | erlConsList mInitialized elems ih =>
        obtain ⟨flag, closed, parts⟩ := valid_erlConsList.mp valid
        obtain ⟨cells, last, rfl, plain⟩ := closedBy_split closed
        obtain ⟨result, ran⟩ := returned
        simp only [subst, Call.throwsOnly_eq_returns] at ran
        rcases loop : substConsList binding (cells ++ [last]) false ErlConsList.uninitialized with
          ⟨outcome, after⟩
        simp only [loop] at ran
        obtain ⟨change, rfl, -⟩ := Outcome.bind_eq_returns.mp ran
        obtain ⟨each, tail, ended, listless⟩ := substConsList_returns loop
        refine (every_erlConsList ..).mpr ⟨?_, fun elem member => ?_⟩
        · cases last with
          | erlVariable mName =>
              simp [fineNode, subst_variable_returns ended, listless]
          | _ => simp [fineNode]
        · obtain ⟨term, done, flag⟩ := each elem member
          exact fine_of_returns done flag (ih elem member (parts elem member) ⟨term, done⟩)
    | erlVariable mName =>
        obtain ⟨result, ran⟩ := returned
        rw [Substitutable, subst_variable_returns ran]
        rfl
  · intro substitutable
    cases term with
    | erlVariable mName =>
        obtain ⟨value, known⟩ := Option.isSome_iff_exists.mp substitutable
        exact ⟨_, subst_erlVariable known⟩
    | _ => exact ⟨_, (subst_of_fine valid substitutable).1⟩

end Values

def rebuiltNode : ErlTerm → Bool
  | .erlConsList mInitialized elems =>
      keepsSome elems || (erlConsList mInitialized elems).every fun part => !part.isVariable
  | _ => true

/-- Every list with a variable has a cell that comes back as its own pointer. -/
def Rebuilt (term : ErlTerm) : Prop := term.every rebuiltNode = true

instance (term : ErlTerm) : Decidable term.Rebuilt := inferInstanceAs (Decidable (_ = true))

theorem rebuilt_erlConsList {mInitialized : Bool} {elems : List ErlTerm} :
    (erlConsList mInitialized elems).Rebuilt ↔
      (elems.any keeps = true ∨ (erlConsList mInitialized elems).Ground) ∧
        ∀ elem ∈ elems, elem.Rebuilt := by
  rw [Rebuilt, every_erlConsList, rebuiltNode, Bool.or_eq_true, keepsSome_eq]
  rfl

theorem rebuilt_of_ground {term : ErlTerm} (ground : term.Ground) : term.Rebuilt := by
  induction term with
  | simple value =>
      rw [Rebuilt, every_simple]
      rfl
  | erlTuple mInitialized mArity elems ih =>
      refine (every_erlTuple ..).mpr ⟨rfl, ?_⟩
      exact fun elem member => ih elem member (ground.parts elem member)
  | erlConsList mInitialized elems ih =>
      refine rebuilt_erlConsList.mpr ⟨.inr ground, ?_⟩
      exact fun elem member => ih elem member (ground.parts elem member)
  | erlVariable mName => exact absurd ground (by simp [Ground, isVariable])

/-- A term that comes back as its own pointer has no variables. -/
theorem ground_of_keeps {term : ErlTerm} (rebuilt : term.Rebuilt) (kept : term.keeps = true) :
    term.Ground := by
  induction term with
  | simple value =>
      rw [Ground, every_simple]
      rfl
  | erlTuple mInitialized mArity elems ih =>
      have parts := hereditary_every rebuiltNode _ rebuilt
      rw [keeps, keepsEach_eq, List.all_eq_true] at kept
      refine (every_erlTuple ..).mpr ⟨rfl, ?_⟩
      exact fun elem member => ih elem member (parts elem member) (kept elem member)
  | erlConsList mInitialized elems ih =>
      rw [keeps, keepsSome_eq, Bool.not_eq_true'] at kept
      rcases (rebuilt_erlConsList.mp rebuilt).1 with some | ground
      · exact absurd (some.symm.trans kept) (by simp)
      · exact ground
  | erlVariable mName => exact absurd kept (by simp [keeps])

section Filled

variable {binding : Option VariableBinding}

/-- The substitution fills in the variables where every list is rebuilt. -/
theorem substituted_eq_filled {term : ErlTerm} (rebuilt : term.Rebuilt) :
    term.substituted binding = term.filled binding := by
  have parts := hereditary_every rebuiltNode _ rebuilt
  induction term with
  | simple value => rw [substituted, filled]
  | erlTuple mInitialized mArity elems ih =>
      have each : elems.map (substituted binding) = elems.map (filled binding) := by
        apply List.map_congr_left
        intro elem member
        exact ih elem member (parts elem member) (hereditary_every rebuiltNode _ (parts elem member))
      rw [substituted_erlTuple]
      split
      · rename_i kept
        have own : (erlTuple mInitialized mArity elems).keeps = true := by
          rw [keeps, keepsEach_eq, kept]
        exact (filled_ground (ground_of_keeps rebuilt own) binding).symm
      · rw [each, filled, filledEach_eq]
  | erlConsList mInitialized elems ih =>
      have each : elems.map (substituted binding) = elems.map (filled binding) := by
        apply List.map_congr_left
        intro elem member
        exact ih elem member (parts elem member) (hereditary_every rebuiltNode _ (parts elem member))
      rw [substituted_erlConsList]
      split
      · rw [each, filled, filledEach_eq]
      · rename_i changed
        have ground := (rebuilt_erlConsList.mp rebuilt).1.resolve_left changed
        exact (filled_ground ground binding).symm
  | erlVariable mName => rw [substituted, filled]

/-- Where a list keeps a variable, the substitution leaves it there. -/
theorem rebuilt_of_substituted {term : ErlTerm} (ground : (term.substituted binding).Ground) :
    term.Rebuilt := by
  induction term with
  | simple value =>
      rw [Rebuilt, every_simple]
      rfl
  | erlTuple mInitialized mArity elems ih =>
      rw [substituted_erlTuple] at ground
      split at ground
      · exact rebuilt_of_ground ground
      · refine (every_erlTuple ..).mpr ⟨rfl, ?_⟩
        exact fun elem member => ih elem member (ground.parts _ (List.mem_map_of_mem member))
  | erlConsList mInitialized elems ih =>
      rw [substituted_erlConsList] at ground
      split at ground
      · rename_i kept
        refine rebuilt_erlConsList.mpr ⟨.inl kept, ?_⟩
        exact fun elem member => ih elem member (ground.parts _ (List.mem_map_of_mem member))
      · exact rebuilt_of_ground ground
  | erlVariable mName =>
      rw [Rebuilt, every_erlVariable]
      rfl

theorem filled_erlVariable {mName : Bytes} {value : ErlTerm}
    (known : valueOf binding mName = some value) :
    (erlVariable mName).filled binding = value := by
  rw [filled, (valueOf_eq_some.mp known).2]
  rfl

/-- The tail of a list stays a tail. -/
theorem filled_plain {last : ErlTerm} (fine : last.Fine binding)
    (plain : last.isConsList = false)
    (tail : ∀ mName, last = .erlVariable mName →
      (valueOf binding mName).any isConsList = false) :
    (last.filled binding).isConsList = false := by
  cases last with
  | erlConsList mInitialized elems => exact absurd plain (by simp [isConsList])
  | erlVariable mName =>
      have here : (valueOf binding mName).any isValid = true := every_self fine
      obtain ⟨value, known, -⟩ := (Option.any_eq_true _ _).mp here
      have list := tail mName rfl
      rw [known] at list
      rw [filled_erlVariable known]
      simpa using list
  | _ => rfl

/-- A valid term stays valid when fine variables are filled in. -/
theorem filled_valid (values : ∀ held ∈ binding, held.Values Storable) {term : ErlTerm}
    (valid : term.Valid) (fine : term.Fine binding) : (term.filled binding).Valid := by
  have fines := fine.parts
  induction term with
  | simple value => exact valid
  | erlTuple mInitialized mArity elems ih =>
      obtain ⟨flag, size, parts⟩ := valid_erlTuple.mp valid
      rw [filled, filledEach_eq, valid_erlTuple, List.length_map]
      refine ⟨flag, size, ?_⟩
      intro part member
      obtain ⟨elem, inside, rfl⟩ := List.mem_map.mp member
      exact ih elem inside (parts elem inside) (fines elem inside) (fines elem inside).parts
  | erlConsList mInitialized elems ih =>
      obtain ⟨flag, closed, parts⟩ := valid_erlConsList.mp valid
      obtain ⟨cells, last, rfl, plain⟩ := closedBy_split closed
      have tail := filled_plain (fines last (by simp [ErlTerm.parts])) plain (fine_tail fine)
      rw [filled, filledEach_eq, valid_erlConsList, List.map_append, List.map_singleton,
        closedBy_append, tail]
      refine ⟨flag, rfl, ?_⟩
      intro part member
      rw [← List.map_singleton, ← List.map_append] at member
      obtain ⟨elem, inside, rfl⟩ := List.mem_map.mp member
      exact ih elem inside (parts elem inside) (fines elem inside) (fines elem inside).parts
  | erlVariable mName =>
      have here : (valueOf binding mName).any isValid = true := every_self fine
      obtain ⟨value, known, flag⟩ := (Option.any_eq_true _ _).mp here
      obtain ⟨held, bound, search⟩ := Option.bind_eq_some_iff.mp (valueOf_eq_some.mp known).2
      rw [filled_erlVariable known]
      exact (values held bound mName value search).2.valid flag

/-- A check of the simple terms and of the numbers of entries holds after the variables are filled
in. -/
theorem every_filled {check : ErlTerm → Bool}
    (tuples : ∀ mInitialized mArity elems others, others.length = elems.length →
      check (.erlTuple mInitialized mArity elems) = true →
        check (.erlTuple mInitialized mArity others) = true)
    (lists : ∀ mInitialized elems others, others.length = elems.length →
      check (.erlConsList mInitialized elems) = true →
        check (.erlConsList mInitialized others) = true)
    (values : ∀ held ∈ binding, held.Values fun value => value.every check = true)
    {term : ErlTerm} (holds : term.every check = true) :
    (term.filled binding).every check = true := by
  induction term with
  | simple value => exact holds
  | erlTuple mInitialized mArity elems ih =>
      obtain ⟨here, parts⟩ := (every_erlTuple ..).mp holds
      rw [filled, filledEach_eq, every_erlTuple]
      refine ⟨tuples _ _ _ _ (List.length_map _) here, ?_⟩
      intro part member
      obtain ⟨elem, inside, rfl⟩ := List.mem_map.mp member
      exact ih elem inside (parts elem inside)
  | erlConsList mInitialized elems ih =>
      obtain ⟨here, parts⟩ := (every_erlConsList ..).mp holds
      rw [filled, filledEach_eq, every_erlConsList]
      refine ⟨lists _ _ _ (List.length_map _) here, ?_⟩
      intro part member
      obtain ⟨elem, inside, rfl⟩ := List.mem_map.mp member
      exact ih elem inside (parts elem inside)
  | erlVariable mName =>
      rw [filled]
      cases found : binding.bind (·.search mName) with
      | none => exact holds
      | some value =>
          obtain ⟨held, bound, search⟩ := Option.bind_eq_some_iff.mp found
          exact values held bound mName value search

end Filled

end ErlTerm

end Epi.Type
