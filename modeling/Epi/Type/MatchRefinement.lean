import Epi.Type.PatternMatch

namespace Epi.Type

open Verification

namespace ErlTerm

theorem Valid.parts {term : ErlTerm} (valid : term.Valid) : ∀ part ∈ term.parts, part.Valid :=
  hereditary_every validNode term valid

theorem Ground.parts {term : ErlTerm} (ground : term.Ground) :
    ∀ part ∈ term.parts, part.Ground :=
  hereditary_every (fun part => !part.isVariable) term ground

theorem depth_part {term part : ErlTerm} (member : part ∈ term.parts) :
    part.depth < term.depth := by
  cases term with
  | erlTuple mInitialized mArity elems =>
      rw [depth]
      exact Nat.lt_succ_of_le (depth_le_depthEach member)
  | erlConsList mInitialized elems =>
      rw [depth]
      exact Nat.lt_succ_of_le (depth_le_depthEach member)
  | _ => cases member

/-- A term that a matching may store or compare with. -/
def Storable (term : ErlTerm) : Prop := term.Ground ∧ term.Built

/-- A term that a pattern is matched with. -/
def Matchable (term : ErlTerm) : Prop := term.Ground ∧ term.Valid

theorem Matchable.storable {term : ErlTerm} (matchable : term.Matchable) : term.Storable :=
  ⟨matchable.1, matchable.2.built⟩

theorem matchable_hereditary : Hereditary Matchable :=
  Hereditary.and (hereditary_every _) (hereditary_every _)

theorem Matchable.not_variable {term : ErlTerm} (matchable : term.Matchable) :
    term.isVariable = false := by
  have here := every_self matchable.1
  simpa using here

end ErlTerm

open ErlTerm

/-- The loop agrees with the specification when each of its calls does. -/
theorem matchElements_eq {call : Matcher} {atValue : ErlTerm → ErlTerm → Call Bool}
    {Good : VariableBinding → Prop} {elems others : List ErlTerm}
    (same : elems.length = others.length)
    (calls : ∀ elem ∈ elems, ∀ other ∈ others, ∀ binding, Good binding →
      call elem other binding = matchWith atValue elem other binding)
    (keeps : ∀ elem ∈ elems, ∀ other ∈ others,
      Effect.Keeps Good (matchWith atValue elem other))
    {binding : VariableBinding} (good : Good binding) :
    matchElements call elems others binding = matchEach atValue elems others binding := by
  induction elems generalizing others binding with
  | nil => rw [matchElements, matchEach]
  | cons elem rest ih =>
      cases others with
      | nil => exact absurd same (by simp)
      | cons other more =>
          have shorter : rest.length = more.length := by simpa using same
          have first := calls elem List.mem_cons_self other List.mem_cons_self binding good
          have kept := (keeps elem List.mem_cons_self other List.mem_cons_self binding good).2
          rw [matchElements, matchEach_cons, Effect.bind_run, Effect.bind_run, first]
          rcases ran : matchWith atValue elem other binding with ⟨outcome, after⟩
          rw [ran] at kept
          cases outcome with
          | returns success =>
              cases success with
              | false => rfl
              | true =>
                  apply ih shorter
                  · intro elem inside other member
                    exact calls elem (List.mem_cons_of_mem _ inside) other
                      (List.mem_cons_of_mem _ member)
                  · intro elem inside other member
                    exact keeps elem (List.mem_cons_of_mem _ inside) other
                      (List.mem_cons_of_mem _ member)
                  · exact kept
          | _ => rfl

/-- Two vectors of one length can change their places. -/
theorem matchElements_swap (call : Matcher) {elems others : List ErlTerm}
    (same : elems.length = others.length) :
    matchElements call others elems = matchElements (fun elem other => call other elem) elems others := by
  induction elems generalizing others with
  | nil =>
      have empty : others = [] := List.length_eq_zero_iff.mp same.symm
      subst empty
      rfl
  | cons elem rest ih =>
      cases others with
      | nil => exact absurd same (by simp)
      | cons other more =>
          have shorter : rest.length = more.length := by simpa using same
          rw [matchElements, matchElements, ih shorter]

/-- Two complete tuples are matched element by element. -/
theorem ErlTuple.internalMatch_complete (call : Matcher) (elems others : List ErlTerm) :
    ErlTuple.internalMatch call ⟨true, some elems.length, elems⟩
      (.erlTuple true (some others.length) others) =
      if elems.length = others.length then
        Effect.mapOutcome (Call.catching .epiInvalidTerm fun _ => .returns false)
          (matchElements call elems others)
      else pure false := by
  unfold ErlTuple.internalMatch
  simp only [instanceOf_erlVariable, isVariable, Bool.false_eq_true, if_false, Bool.not_true,
    Bool.or_self, ErlTuple.arity]
  funext binding
  by_cases same : elems.length = others.length
  · simp only [Effect.bind_run, Effect.lift_run, same, ne_eq, not_true_eq_false, if_false, if_true]
  · simp only [Effect.bind_run, Effect.lift_run, same, ne_eq, not_false_eq_true, if_true, if_false]

/-- Two closed lists are matched cell by cell, and then by their tails. -/
theorem ErlConsList.internalMatch_closed (call : Matcher) {cells others : List ErlTerm}
    (last other : ErlTerm) :
    ErlConsList.internalMatch call ⟨true, cells ++ [last]⟩
      (.erlConsList true (others ++ [other])) =
      if cells.length = others.length then
        if cells = [] then Effect.fail (.badArgument "Index grater than arity")
        else do
          let success ← matchElements call cells others
          if success then call last other else pure false
      else pure false := by
  unfold ErlConsList.internalMatch
  simp only [instanceOf_erlVariable, isVariable, Bool.false_eq_true, if_false, Bool.not_true,
    isValid, Bool.or_self, ErlConsList.arity_concat]
  by_cases same : cells.length = others.length
  · have firstCells : (cells ++ [last]).take cells.length = cells := by simp
    have otherCells : (others ++ [other]).take cells.length = others := by simp [same]
    simp only [same, ne_eq, not_true_eq_false, if_false, if_true]
    rw [same] at firstCells otherCells
    rw [firstCells, otherCells]
    by_cases empty : cells = []
    · subst empty
      have none : others = [] := List.length_eq_zero_iff.mp same.symm
      subst none
      funext binding
      simp only [matchElements, Effect.bind_run, Effect.pure_run, if_true, List.length_nil,
        List.nil_append, ErlConsList.tail_alone, Effect.lift_run, Effect.fail_run]
    · have some : others ≠ [] := by
        intro none
        rw [none] at same
        exact empty (List.length_eq_zero_iff.mp same)
      simp only [empty, if_false, ErlConsList.tail_concat other some, List.getLast?_concat]
      rfl
  · simp only [same, ne_eq, not_false_eq_true, if_true, if_false]

theorem Method.throwsOnly_of_quiet {Object Value : Type} {listed : List ExceptionClass}
    {call : Method Object Value} {object : Object} (quiet : (call object).1.Quiet) :
    Method.throwsOnly listed call object = call object :=
  Effect.mapOutcome_of_quiet (fun _ silent => silent.declares _) quiet

theorem Method.throwsOnly_of_run {Object Value : Type} {listed : List ExceptionClass}
    {call : Method Object Value} {object : Object} {result : Call Value × Object}
    (ran : call object = result) (quiet : result.1.Quiet) :
    Method.throwsOnly listed call object = result := by
  rw [← ran] at quiet ⊢
  exact throwsOnly_of_quiet quiet

theorem SimpleTerm.equals_invalid {value : SimpleTerm} (invalid : value.isValid = false)
    (other : SimpleTerm) : value.equals other = false := by
  cases value <;> simp only [SimpleTerm.isValid, Option.isSome_eq_false_iff, Option.isNone_iff_eq_none] at invalid
  all_goals first
    | exact absurd invalid Bool.true_eq_false.mp
    | (subst invalid; cases other <;> rfl)

theorem ErlTuple.internalMatch_swap (call : Matcher) (elems others : List ErlTerm) :
    ErlTuple.internalMatch call ⟨true, some others.length, others⟩
      (.erlTuple true (some elems.length) elems) =
    ErlTuple.internalMatch (fun elem other => call other elem) ⟨true, some elems.length, elems⟩
      (.erlTuple true (some others.length) others) := by
  rw [internalMatch_complete, internalMatch_complete]
  by_cases same : elems.length = others.length
  · rw [if_pos same, if_pos same.symm, matchElements_swap call same]
  · rw [if_neg same, if_neg fun other => same other.symm]

theorem ErlConsList.internalMatch_swap (call : Matcher) {cells others : List ErlTerm}
    (last other : ErlTerm) :
    ErlConsList.internalMatch call ⟨true, others ++ [other]⟩
      (.erlConsList true (cells ++ [last])) =
    ErlConsList.internalMatch (fun elem other => call other elem) ⟨true, cells ++ [last]⟩
      (.erlConsList true (others ++ [other])) := by
  rw [internalMatch_closed, internalMatch_closed]
  by_cases same : cells.length = others.length
  · have empty : others = [] ↔ cells = [] := by
      rw [← List.length_eq_zero_iff, ← List.length_eq_zero_iff, same]
    rw [if_pos same, if_pos same.symm, matchElements_swap call same]
    simp only [empty]
  · rw [if_neg same, if_neg fun other => same other.symm]

section Simple

variable {value : SimpleTerm} {term : ErlTerm}

/-- A simple pattern is compared with the term. -/
theorem simple_internalMatch (valid : value.isValid = true) (matchable : term.Matchable)
    (fuel : Nat) :
    (ErlTerm.simple value).internalMatch (fuel + 1) term =
      pure ((ErlTerm.simple value).equals term) := by
  have plain := matchable.not_variable
  rw [internalMatch]
  simp only [SimpleTerm.internalMatch, valid, instanceOf_erlVariable, plain, Bool.not_true,
    Bool.false_eq_true, if_false]
  rfl

/-- A term compares itself with a simple pattern. -/
theorem internalMatch_simple (valid : value.isValid = true) (matchable : term.Matchable)
    (fuel : Nat) :
    term.internalMatch (fuel + 1) (.simple value) =
      pure ((ErlTerm.simple value).equals term) := by
  have flag := matchable.2.isValid
  cases term with
  | simple other =>
      have otherFlag : other.isValid = true := flag
      rw [internalMatch, equals_symm]
      simp only [SimpleTerm.internalMatch, otherFlag, instanceOf_erlVariable, isVariable,
        Bool.not_true, Bool.false_eq_true, if_false]
      rfl
  | erlVariable mName => exact absurd matchable.not_variable (by simp [isVariable])
  | erlTuple otherInitialized otherArity others =>
      rw [internalMatch]
      simp only [equals, ErlTuple.internalMatch, instanceOf_erlVariable, isVariable,
        Bool.false_eq_true, if_false]
      rfl
  | erlConsList otherInitialized others =>
      have otherFlag : otherInitialized = true := flag
      have patternFlag : (ErlTerm.simple value).isValid = true := valid
      rw [internalMatch]
      simp only [equals, ErlConsList.internalMatch, instanceOf_erlVariable, isVariable, otherFlag,
        patternFlag, Bool.not_true, Bool.or_self, Bool.false_eq_true, if_false]
      rfl

end Simple

/-- The calls on stored values give the answers of this function. -/
def Resolves (atValue : ErlTerm → ErlTerm → Call Bool) (slack : Nat) : Prop :=
  ∀ value term, value.Storable → term.Matchable → ∀ fuel, term.depth + slack ≤ fuel →
    ∀ binding : VariableBinding, binding.Values Storable →
      value.internalMatch fuel term binding = (atValue value term, binding)

section Refinement

variable {atValue : ErlTerm → ErlTerm → Call Bool}

theorem matchWith_keeps_storable (quiet : ∀ value term, (atValue value term).Quiet)
    (pattern : ErlTerm) {term : ErlTerm} (matchable : term.Matchable) :
    Effect.Keeps (fun binding => binding.Values Storable) (matchWith atValue pattern term) :=
  matchWith_keeps quiet matchable_hereditary
    (fun _ name _ values fresh => values.bind fresh.storable name) pattern matchable

/-- The calls on the entries of two vectors agree with the specification. -/
def CallsAgree (atValue : ErlTerm → ErlTerm → Call Bool) (call : Matcher)
    (elems others : List ErlTerm) : Prop :=
  ∀ elem ∈ elems, ∀ other ∈ others, ∀ binding : VariableBinding, binding.Values Storable →
    call elem other binding = matchWith atValue elem other binding

variable {call : Matcher} {binding : VariableBinding}

theorem matchElements_agree (quiet : ∀ value term, (atValue value term).Quiet)
    {elems others : List ErlTerm} (same : elems.length = others.length)
    (agree : CallsAgree atValue call elems others) (parts : ∀ other ∈ others, other.Matchable)
    (values : binding.Values Storable) :
    matchElements call elems others binding = matchEach atValue elems others binding ∧
      (matchElements call elems others binding).1.Quiet ∧
      (matchElements call elems others binding).2.Values Storable := by
  have keeps : ∀ elem ∈ elems, ∀ other ∈ others,
      Effect.Keeps (fun binding => binding.Values Storable) (matchWith atValue elem other) :=
    fun elem _ other member => matchWith_keeps_storable quiet elem (parts other member)
  have run := matchElements_eq same agree keeps values
  refine ⟨run, ?_⟩
  rw [run]
  exact matchEach_keeps keeps binding values

theorem ErlTuple.internalMatch_agrees (quiet : ∀ value term, (atValue value term).Quiet)
    {elems others : List ErlTerm} (agree : CallsAgree atValue call elems others)
    (parts : ∀ other ∈ others, other.Matchable) (values : binding.Values Storable) :
    Method.throwsOnly [.epiVariableUnbound] (ErlTuple.internalMatch call
      ⟨true, some elems.length, elems⟩ (.erlTuple true (some others.length) others)) binding =
    matchWith atValue (.erlTuple true (some elems.length) elems)
      (.erlTuple true (some others.length) others) binding := by
  rw [matchWith_erlTuple, internalMatch_complete]
  by_cases same : elems.length = others.length
  · obtain ⟨run, silent, -⟩ := matchElements_agree quiet same agree parts values
    have caught : ∀ outcome : Call Bool, outcome.Quiet →
        Call.catching .epiInvalidTerm (fun _ => .returns false) outcome = outcome :=
      fun outcome held => held.handle _
    have inner := Effect.mapOutcome_of_quiet caught silent
    rw [if_pos same, if_pos same, ← run]
    exact Method.throwsOnly_of_run inner silent
  · rw [if_neg same, if_neg same]
    rfl

theorem ErlConsList.internalMatch_agrees (quiet : ∀ value term, (atValue value term).Quiet)
    {cells others : List ErlTerm} {last other : ErlTerm}
    (agree : CallsAgree atValue call (cells ++ [last]) (others ++ [other]))
    (parts : ∀ part ∈ others ++ [other], part.Matchable) (values : binding.Values Storable) :
    Method.throwsOnly [.epiVariableUnbound] (ErlConsList.internalMatch call
      ⟨true, cells ++ [last]⟩ (.erlConsList true (others ++ [other]))) binding =
    matchWith atValue (.erlConsList true (cells ++ [last]))
      (.erlConsList true (others ++ [other])) binding := by
  rw [matchWith_erlConsList, internalMatch_closed]
  by_cases same : cells.length = others.length
  · have sameLength : (cells ++ [last]).length = (others ++ [other]).length := by simp [same]
    rw [if_pos same, if_pos sameLength]
    by_cases empty : cells = []
    · subst empty
      rw [if_pos rfl, if_pos (by simp)]
      rfl
    · have long : (cells ++ [last]).length ≠ 1 := by simpa using empty
      rw [if_neg empty, if_neg long, matchEach_concat atValue same]
      have agreeCells : CallsAgree atValue call cells others := fun elem inside head member =>
        agree elem (List.mem_append_left _ inside) head (List.mem_append_left _ member)
      have cellParts : ∀ part ∈ others, part.Matchable :=
        fun part member => parts part (List.mem_append_left _ member)
      obtain ⟨run, silent, kept⟩ := matchElements_agree quiet same agreeCells cellParts values
      have lastAgrees := agree last (by simp) other (by simp)
      have lastKeeps := matchWith_keeps_storable quiet last (parts other (by simp))
      have whole : (do
          let success ← matchElements call cells others
          if success then call last other else pure false) binding = (do
          let success ← matchEach atValue cells others
          if success then matchWith atValue last other else pure false) binding := by
        rw [Effect.bind_run, Effect.bind_run, ← run]
        rcases ran : matchElements call cells others binding with ⟨outcome, after⟩
        rw [ran] at kept
        cases outcome with
        | returns success =>
            cases success with
            | false => rfl
            | true => exact lastAgrees after kept
        | _ => rfl
      apply Method.throwsOnly_of_run whole
      have cellsKeep : Effect.Keeps (fun binding => binding.Values Storable)
          (matchEach atValue cells others) := by
        apply matchEach_keeps
        intro elem inside head member
        exact matchWith_keeps_storable quiet elem (cellParts head member)
      refine (Effect.keeps_bind cellsKeep ?_ binding values).1
      intro success
      cases success with
      | false => exact Effect.keeps_pure false
      | true => exact lastKeeps
  · have apart : (cells ++ [last]).length ≠ (others ++ [other]).length := by simpa using same
    rw [if_neg same, if_neg apart]
    rfl

/-- A variable asks its value, or it takes the term. -/
theorem erlVariable_internalMatch (quiet : ∀ value term, (atValue value term).Quiet) {slack : Nat}
    (resolves : Resolves atValue slack) {mName : Bytes} {term : ErlTerm}
    (matchable : term.Matchable) (values : binding.Values Storable) {fuel : Nat}
    (enough : term.depth + slack ≤ fuel) :
    (erlVariable mName).internalMatch (fuel + 1) term binding =
      matchWith atValue (erlVariable mName) term binding := by
  rw [internalMatch, matchWith_erlVariable]
  by_cases wild : mName = anonymous
  · simp only [ErlVariable.internalMatch, wild, if_true]
    rfl
  · rw [if_neg wild]
    cases found : binding.search mName with
    | some value =>
        have answer := resolves value term (values mName value found) matchable fuel enough
          binding values
        have inner : ErlVariable.internalMatch (internalMatch fuel) mName term binding =
            (atValue value term, binding) := by
          simp only [ErlVariable.internalMatch, wild, if_false, Effect.bind_run,
            Effect.get_run, found, answer]
        exact Method.throwsOnly_of_run inner (quiet value term)
    | none =>
        obtain ⟨same, substituted⟩ := subst_ground matchable.2 matchable.1 (some binding)
        have inner : ErlVariable.internalMatch (internalMatch fuel) mName term binding =
            (.returns true, binding.bind mName term) := by
          simp only [ErlVariable.internalMatch, wild, if_false, Effect.bind_run,
            Effect.get_run, found, substituted, Effect.lift_run, Effect.set_run,
            Effect.pure_run]
        exact Method.throwsOnly_of_run inner trivial

/-- The method of the pattern agrees with the specification. -/
theorem internalMatch_eq (quiet : ∀ value term, (atValue value term).Quiet) {slack : Nat}
    {pattern : ErlTerm} (valid : pattern.Valid)
    (known : pattern.Ground ∨ Resolves atValue slack) {term : ErlTerm}
    (matchable : term.Matchable) (values : binding.Values Storable)
    {fuel : Nat} (enough : term.depth + slack + 1 ≤ fuel) :
    pattern.internalMatch fuel term binding = matchWith atValue pattern term binding := by
  induction pattern generalizing term binding fuel with
  | simple value =>
      obtain ⟨fuel, rfl⟩ : ∃ rest, fuel = rest + 1 := ⟨fuel - 1, by omega⟩
      rw [simple_internalMatch valid.isValid matchable, matchWith_simple]
  | erlTuple mInitialized mArity elems ih =>
      obtain ⟨fuel, rfl⟩ : ∃ rest, fuel = rest + 1 := ⟨fuel - 1, by omega⟩
      obtain ⟨flag, size, parts⟩ := valid_erlTuple.mp valid
      subst flag size
      cases term with
      | erlTuple otherInitialized otherArity others =>
          obtain ⟨otherFlag, otherSize, -⟩ := valid_erlTuple.mp matchable.2
          subst otherFlag otherSize
          have otherParts : ∀ other ∈ others, other.Matchable := matchable_hereditary _ matchable
          rw [internalMatch]
          apply ErlTuple.internalMatch_agrees quiet _ otherParts values
          intro elem inside other member later good
          have lower : other.depth < (erlTuple true (some others.length) others).depth :=
            depth_part member
          apply ih elem inside (parts elem inside) _ (otherParts other member) good
          · omega
          · exact known.imp (fun ground => ground.parts elem inside) id
      | erlVariable mName => exact absurd matchable.not_variable (by simp [isVariable])
      | _ =>
          rw [internalMatch]
          simp only [matchWith, ErlTuple.internalMatch, instanceOf_erlVariable, isVariable,
            Bool.false_eq_true, if_false]
          rfl
  | erlConsList mInitialized elems ih =>
      obtain ⟨fuel, rfl⟩ : ∃ rest, fuel = rest + 1 := ⟨fuel - 1, by omega⟩
      obtain ⟨flag, closed, parts⟩ := valid_erlConsList.mp valid
      subst flag
      cases term with
      | erlConsList otherInitialized others =>
          obtain ⟨otherFlag, otherClosed, -⟩ := valid_erlConsList.mp matchable.2
          subst otherFlag
          have otherParts : ∀ other ∈ others, other.Matchable := matchable_hereditary _ matchable
          have agree : CallsAgree atValue (ErlTerm.internalMatch fuel) elems others := by
            intro elem inside other member later good
            have lower : other.depth < (erlConsList true others).depth := depth_part member
            apply ih elem inside (parts elem inside) _ (otherParts other member) good
            · omega
            · exact known.imp (fun ground => ground.parts elem inside) id
          obtain ⟨cells, last, rfl, -⟩ := closedBy_split closed
          obtain ⟨heads, other, rfl, -⟩ := closedBy_split otherClosed
          rw [internalMatch]
          exact ErlConsList.internalMatch_agrees quiet agree otherParts values
      | erlVariable mName => exact absurd matchable.not_variable (by simp [isVariable])
      | simple value =>
          rw [internalMatch]
          simp only [matchWith, ErlConsList.internalMatch, instanceOf_erlVariable, isVariable,
            Bool.false_eq_true, if_false]
          cases isValid (.simple value) <;> rfl
      | erlTuple otherInitialized otherArity others =>
          rw [internalMatch]
          simp only [matchWith, ErlConsList.internalMatch, instanceOf_erlVariable, isVariable,
            Bool.false_eq_true, if_false]
          cases isValid (.erlTuple otherInitialized otherArity others) <;> rfl
  | erlVariable mName =>
      obtain ⟨fuel, rfl⟩ : ∃ rest, fuel = rest + 1 := ⟨fuel - 1, by omega⟩
      have resolves : Resolves atValue slack :=
        known.resolve_left (by simp [Ground, isVariable])
      exact erlVariable_internalMatch quiet resolves matchable values (by omega)

/-- A term asks a variable for the matching. -/
theorem internalMatch_variable {term : ErlTerm} (matchable : term.Matchable) (mName : Bytes)
    (fuel : Nat) :
    term.internalMatch (fuel + 1) (.erlVariable mName) =
      Method.throwsOnly [.epiVariableUnbound]
        ((erlVariable mName).internalMatch fuel term) := by
  have flag := matchable.2.isValid
  cases term with
  | simple value =>
      have valid : value.isValid = true := flag
      rw [internalMatch]
      simp only [SimpleTerm.internalMatch, valid, instanceOf_erlVariable, isVariable,
        Bool.not_true, Bool.false_eq_true, if_false, if_true]
  | erlTuple mInitialized mArity elems =>
      rw [internalMatch]
      simp only [ErlTuple.internalMatch, instanceOf_erlVariable, isVariable, if_true,
        ErlTuple.toTerm]
  | erlConsList mInitialized elems =>
      rw [internalMatch]
      simp only [ErlConsList.internalMatch, instanceOf_erlVariable, isVariable, if_true,
        ErlConsList.toTerm]
  | erlVariable other => exact absurd matchable.not_variable (by simp [isVariable])

/-- The method of the term agrees with the specification as well. -/
theorem internalMatch_commuted (quiet : ∀ value term, (atValue value term).Quiet) {slack : Nat}
    {pattern : ErlTerm} (valid : pattern.Valid) (resolves : Resolves atValue slack)
    {term : ErlTerm} (matchable : term.Matchable) (values : binding.Values Storable)
    {fuel : Nat} (enough : term.depth + slack + 2 ≤ fuel) :
    term.internalMatch fuel pattern binding = matchWith atValue pattern term binding := by
  induction pattern generalizing term binding fuel with
  | simple value =>
      obtain ⟨fuel, rfl⟩ : ∃ rest, fuel = rest + 1 := ⟨fuel - 1, by omega⟩
      rw [internalMatch_simple valid.isValid matchable, matchWith_simple]
  | erlTuple mInitialized mArity elems ih =>
      obtain ⟨fuel, rfl⟩ : ∃ rest, fuel = rest + 1 := ⟨fuel - 1, by omega⟩
      obtain ⟨flag, size, parts⟩ := valid_erlTuple.mp valid
      subst flag size
      cases term with
      | erlTuple otherInitialized otherArity others =>
          obtain ⟨otherFlag, otherSize, -⟩ := valid_erlTuple.mp matchable.2
          subst otherFlag otherSize
          have otherParts : ∀ other ∈ others, other.Matchable := matchable_hereditary _ matchable
          rw [internalMatch, ErlTuple.internalMatch_swap]
          apply ErlTuple.internalMatch_agrees quiet _ otherParts values
          intro elem inside other member later good
          have lower : other.depth < (erlTuple true (some others.length) others).depth :=
            depth_part member
          apply ih elem inside (parts elem inside) (otherParts other member) good
          omega
      | erlVariable mName => exact absurd matchable.not_variable (by simp [isVariable])
      | simple other =>
          have otherFlag : other.isValid = true := matchable.2.isValid
          rw [internalMatch]
          simp only [matchWith, SimpleTerm.internalMatch, otherFlag, instanceOf_erlVariable,
            isVariable, equals, Bool.not_true, Bool.false_eq_true, if_false]
          rfl
      | erlConsList otherInitialized others =>
          have otherFlag : otherInitialized = true := matchable.2.isValid
          rw [internalMatch]
          simp only [matchWith, ErlConsList.internalMatch, otherFlag, instanceOf_erlVariable,
            isVariable, isValid, Bool.not_true, Bool.or_self, Bool.false_eq_true, if_false]
          rfl
  | erlConsList mInitialized elems ih =>
      obtain ⟨fuel, rfl⟩ : ∃ rest, fuel = rest + 1 := ⟨fuel - 1, by omega⟩
      obtain ⟨flag, closed, parts⟩ := valid_erlConsList.mp valid
      subst flag
      cases term with
      | erlConsList otherInitialized others =>
          obtain ⟨otherFlag, otherClosed, -⟩ := valid_erlConsList.mp matchable.2
          subst otherFlag
          have otherParts : ∀ other ∈ others, other.Matchable := matchable_hereditary _ matchable
          have agree : CallsAgree atValue (fun elem other => other.internalMatch fuel elem)
              elems others := by
            intro elem inside other member later good
            have lower : other.depth < (erlConsList true others).depth := depth_part member
            apply ih elem inside (parts elem inside) (otherParts other member) good
            omega
          obtain ⟨cells, last, rfl, -⟩ := closedBy_split closed
          obtain ⟨heads, other, rfl, -⟩ := closedBy_split otherClosed
          rw [internalMatch, ErlConsList.internalMatch_swap]
          exact ErlConsList.internalMatch_agrees quiet agree otherParts values
      | erlVariable mName => exact absurd matchable.not_variable (by simp [isVariable])
      | simple other =>
          have otherFlag : other.isValid = true := matchable.2.isValid
          rw [internalMatch]
          simp only [matchWith, SimpleTerm.internalMatch, otherFlag, instanceOf_erlVariable,
            isVariable, equals, Bool.not_true, Bool.false_eq_true, if_false]
          rfl
      | erlTuple otherInitialized otherArity others =>
          rw [internalMatch]
          simp only [matchWith, ErlTuple.internalMatch, instanceOf_erlVariable, isVariable,
            Bool.false_eq_true, if_false]
          rfl
  | erlVariable mName =>
      obtain ⟨fuel, rfl⟩ : ∃ rest, fuel = rest + 1 := ⟨fuel - 1, by omega⟩
      have within : term.depth + slack + 1 ≤ fuel := by omega
      have direct := internalMatch_eq quiet valid (.inr resolves) matchable values within
      have silent := (matchWith_keeps_storable quiet (erlVariable mName) matchable binding values).1
      rw [internalMatch_variable matchable]
      exact Method.throwsOnly_of_run direct silent

/-- A pattern without variables leaves the binding alone. -/
theorem matchWith_ground {pattern : ErlTerm} (ground : pattern.Ground) (term : ErlTerm) :
    ∃ answer, matchWith atValue pattern term = Effect.lift answer := by
  have lifted : ∀ elems : List ErlTerm,
      (∀ elem ∈ elems, ∀ other, ∃ answer, matchWith atValue elem other = Effect.lift answer) →
      ∀ others, ∃ answer, matchEach atValue elems others = Effect.lift answer := by
    intro elems
    induction elems with
    | nil =>
        intro _ others
        exact ⟨.returns true, by rw [matchEach_nil]; rfl⟩
    | cons elem rest ih =>
        intro each others
        cases others with
        | nil => exact ⟨.returns false, by rw [matchEach]; rfl⟩
        | cons other more =>
            obtain ⟨first, firstSame⟩ := each elem List.mem_cons_self other
            obtain ⟨later, laterSame⟩ :=
              ih (fun elem member => each elem (List.mem_cons_of_mem _ member)) more
            refine ⟨do let success ← first; if success then later else pure false, ?_⟩
            rw [matchEach_cons, firstSame, laterSame]
            funext binding
            rw [Effect.bind_run]
            cases first with
            | returns success => cases success <;> rfl
            | _ => rfl
  induction pattern generalizing term with
  | simple value =>
      rw [matchWith_simple]
      exact ⟨.returns _, rfl⟩
  | erlTuple mInitialized mArity elems ih =>
      have parts := ground.parts
      cases term with
      | erlTuple otherInitialized otherArity others =>
          rw [matchWith]
          split
          · exact lifted elems (fun elem member => ih elem member (parts elem member)) others
          · exact ⟨.returns false, rfl⟩
      | _ => exact ⟨.returns false, by simp only [matchWith]; rfl⟩
  | erlConsList mInitialized elems ih =>
      have parts := ground.parts
      cases term with
      | erlConsList otherInitialized others =>
          rw [matchWith]
          split
          · split
            · exact ⟨.aborts, rfl⟩
            · exact lifted elems (fun elem member => ih elem member (parts elem member)) others
          · exact ⟨.returns false, rfl⟩
      | _ => exact ⟨.returns false, by simp only [matchWith]; rfl⟩
  | erlVariable mName => exact absurd ground (by simp [Ground, isVariable])

end Refinement

/-- An uninitialized term matches nothing. -/
theorem internalMatch_invalid {value : ErlTerm} (invalid : value.isValid = false) {term : ErlTerm}
    (matchable : term.Matchable) (fuel : Nat) (binding : VariableBinding) :
    value.internalMatch (fuel + 1) term binding = (.returns false, binding) := by
  have plain := matchable.not_variable
  cases value with
  | simple value =>
      have flag : value.isValid = false := invalid
      rw [internalMatch]
      simp only [SimpleTerm.internalMatch, flag, Bool.not_false, if_true]
      rfl
  | erlTuple mInitialized mArity elems =>
      have flag : mInitialized = false := invalid
      rw [internalMatch]
      simp only [ErlTuple.internalMatch, flag, instanceOf_erlVariable, plain, Bool.not_false,
        Bool.true_or, Bool.false_eq_true, if_false, if_true]
      cases term <;> rfl
  | erlConsList mInitialized elems =>
      have flag : mInitialized = false := invalid
      rw [internalMatch]
      simp only [ErlConsList.internalMatch, flag, instanceOf_erlVariable, plain, Bool.not_false,
        Bool.true_or, Bool.false_eq_true, if_false, if_true]
      rfl
  | erlVariable mName => exact absurd invalid (by simp [isValid])

theorem termMatch_invalid {value : ErlTerm} (invalid : value.isValid = false) (term : ErlTerm) :
    termMatch value term = .returns false := by
  unfold termMatch
  cases value with
  | simple value =>
      have flag : value.isValid = false := invalid
      rw [matchWith_simple]
      cases term with
      | simple other =>
          rw [equals_simple, SimpleTerm.equals_invalid flag]
          rfl
      | _ =>
          simp only [equals]
          rfl
  | erlTuple mInitialized mArity elems =>
      have flag : mInitialized = false := invalid
      subst flag
      cases term <;> simp only [matchWith, Bool.false_and, Bool.false_eq_true, if_false] <;> rfl
  | erlConsList mInitialized elems =>
      have flag : mInitialized = false := invalid
      subst flag
      cases term <;> simp only [matchWith, Bool.false_and, Bool.false_eq_true, if_false] <;> rfl
  | erlVariable mName => exact absurd invalid (by simp [isValid])

/-- Stored values are compared as the specification says. -/
theorem termMatch_resolves : Resolves termMatch 1 := by
  intro value term storable matchable fuel enough binding values
  cases flag : value.isValid with
  | false =>
      obtain ⟨fuel, rfl⟩ : ∃ rest, fuel = rest + 1 := ⟨fuel - 1, by omega⟩
      rw [internalMatch_invalid flag matchable, termMatch_invalid flag]
  | true =>
      have valid := storable.2.valid flag
      have known : value.Ground ∨ Resolves (fun _ _ => .returns false) 0 := .inl storable.1
      have direct := internalMatch_eq (fun _ _ => Outcome.quiet_returns false) valid known
        matchable values enough
      obtain ⟨answer, lifted⟩ := matchWith_ground storable.1 term
      rw [direct, termMatch, lifted, Effect.lift_run, Effect.lift_run]

section Match

variable {pattern term : ErlTerm} {binding : VariableBinding} {fuel : Nat}

/-- The deepest call of a matching nests no more calls than this. -/
def ErlTerm.matchDepth (term : ErlTerm) : Nat := term.depth + 3

theorem patternMatch_quiet (pattern : ErlTerm) (matchable : term.Matchable)
    (values : binding.Values Storable) : (patternMatch pattern term binding).1.Quiet :=
  (matchWith_keeps_storable termMatch_quiet pattern matchable binding values).1

/-- The pattern asked about a term without variables. -/
theorem internalMatch_pattern (valid : pattern.Valid) (matchable : term.Matchable)
    (values : binding.Values Storable) (enough : term.matchDepth ≤ fuel) :
    pattern.internalMatch fuel term binding = patternMatch pattern term binding := by
  have within : term.depth + 1 + 1 ≤ fuel := by
    simp only [matchDepth] at enough
    omega
  exact internalMatch_eq termMatch_quiet valid (.inr termMatch_resolves) matchable values within

/-- A term without variables asked about the pattern. -/
theorem internalMatch_term (valid : pattern.Valid) (matchable : term.Matchable)
    (values : binding.Values Storable) (enough : term.matchDepth ≤ fuel) :
    term.internalMatch fuel pattern binding = patternMatch pattern term binding :=
  internalMatch_commuted termMatch_quiet valid termMatch_resolves matchable values enough

/-- The specification of `match`. -/
def patternMatches (pattern term : ErlTerm) : Method (Option VariableBinding) Bool :=
  onCopy (patternMatch pattern term)

theorem onCopy_congr {first second : Method VariableBinding Bool}
    {binding : Option VariableBinding}
    (agree : first (binding.getD .empty) = second (binding.getD .empty)) :
    onCopy first binding = onCopy second binding := by
  unfold onCopy
  rw [agree]

theorem onCopy_quiet {call : Method VariableBinding Bool} {binding : Option VariableBinding}
    (quiet : (call (binding.getD .empty)).1.Quiet) : (onCopy call binding).1.Quiet := by
  unfold onCopy
  rcases ran : call (binding.getD .empty) with ⟨outcome, after⟩
  rw [ran] at quiet
  cases outcome with
  | returns success => cases success <;> trivial
  | throws error => exact quiet.elim
  | _ => trivial

theorem matchPattern_of_internalMatch {this other : ErlTerm} {binding : Option VariableBinding}
    (agree : this.internalMatch fuel other (binding.getD .empty) =
      patternMatch pattern term (binding.getD .empty))
    (quiet : (patternMatch pattern term (binding.getD .empty)).1.Quiet) :
    this.matchPattern fuel other binding = patternMatches pattern term binding := by
  rw [matchPattern]
  exact Method.throwsOnly_of_run (onCopy_congr agree) (onCopy_quiet quiet)

/-- The pattern matched with a term without variables. -/
theorem matchPattern_pattern (valid : pattern.Valid) (matchable : term.Matchable)
    {binding : Option VariableBinding} (values : (binding.getD .empty).Values Storable)
    (enough : term.matchDepth ≤ fuel) :
    pattern.matchPattern fuel term binding = patternMatches pattern term binding :=
  matchPattern_of_internalMatch (internalMatch_pattern valid matchable values enough)
    (patternMatch_quiet pattern matchable values)

/-- A term without variables matched with the pattern. -/
theorem matchPattern_term (valid : pattern.Valid) (matchable : term.Matchable)
    {binding : Option VariableBinding} (values : (binding.getD .empty).Values Storable)
    (enough : term.matchDepth ≤ fuel) :
    term.matchPattern fuel pattern binding = patternMatches pattern term binding :=
  matchPattern_of_internalMatch (internalMatch_term valid matchable values enough)
    (patternMatch_quiet pattern matchable values)

end Match

end Epi.Type
