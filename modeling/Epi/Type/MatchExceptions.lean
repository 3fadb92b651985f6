import Epi.Library.Worklist
import Epi.Type.MatchRefinement
import Epi.Type.SubstExceptions

namespace Epi.Type

open Verification ErlTerm

/-- Two terms that `internalMatch` is called with. -/
structure Comparison where
  this : ErlTerm
  pattern : ErlTerm

namespace Comparison

/-- The entries of two vectors, pair by pair. -/
def pairs (elems others : List ErlTerm) : List Comparison := List.zipWith Comparison.mk elems others

/-- A variable that is compared: its value takes its place, or it is bound to the substitution. -/
def lookVariable (binding : VariableBinding) (mName : Bytes) (pattern : ErlTerm) :
    Verdict VariableBinding Comparison EpiException :=
  if mName = anonymous then
    .asks binding []
  else
    match binding.search mName with
    | some value => .asks binding [⟨value, pattern⟩]
    | none =>
        match pattern.subst (some binding) with
        | .returns value => .asks (binding.bind mName value.term) []
        | .throws error =>
            if error.thrownClass = .epiVariableUnbound then .throws error else .aborts
        | _ => .aborts

/-- What a comparison comes to. The process ends at two lists that were closed without elements,
and at an unbound variable with a term that has no substitution. -/
def look (binding : VariableBinding) (comparison : Comparison) :
    Verdict VariableBinding Comparison EpiException :=
  let pattern := comparison.pattern
  match comparison.this with
  | .erlVariable mName => lookVariable binding mName pattern
  | .simple value =>
      if !value.isValid then .refuses
      else if pattern.isVariable then .asks binding [⟨pattern, .simple value⟩]
      else if (ErlTerm.simple value).equals pattern then .asks binding [] else .refuses
  | .erlTuple mInitialized mArity elems =>
      if pattern.isVariable then .asks binding [⟨pattern, .erlTuple mInitialized mArity elems⟩]
      else
        match pattern with
        | .erlTuple otherInitialized otherArity others =>
            if mInitialized && otherInitialized && mArity == otherArity then
              .asks binding (pairs elems others)
            else
              .refuses
        | _ => .refuses
  | .erlConsList mInitialized elems =>
      if pattern.isVariable then .asks binding [⟨pattern, .erlConsList mInitialized elems⟩]
      else
        match pattern with
        | .erlConsList otherInitialized others =>
            if mInitialized && otherInitialized && elems.length == others.length then
              if elems.length = 1 then .aborts else .asks binding (pairs elems others)
            else
              .refuses
        | _ => .refuses

/-- Both terms are ones that the public operations can leave behind. -/
def Built (comparison : Comparison) : Prop := comparison.this.Built ∧ comparison.pattern.Built

theorem lookVariable_throws {binding : VariableBinding} {mName : Bytes} {pattern : ErlTerm}
    {error : EpiException} (verdict : lookVariable binding mName pattern = .throws error) :
    error.thrownClass = .epiVariableUnbound := by
  unfold lookVariable at verdict
  split at verdict
  · cases verdict
  · split at verdict
    · cases verdict
    · split at verdict
      · cases verdict
      · split at verdict
        · cases verdict
          assumption
        · cases verdict
      · cases verdict

/-- The only error of a look is the one of an unbound variable. -/
theorem look_throws {binding : VariableBinding} {comparison : Comparison} {error : EpiException}
    (verdict : look binding comparison = .throws error) :
    error.thrownClass = .epiVariableUnbound := by
  obtain ⟨this, pattern⟩ := comparison
  cases this with
  | erlVariable mName => exact lookVariable_throws verdict
  | simple value =>
      simp only [look] at verdict
      split at verdict
      · cases verdict
      · split at verdict
        · cases verdict
        · split at verdict <;> cases verdict
  | erlTuple mInitialized mArity elems =>
      simp only [look] at verdict
      split at verdict
      · cases verdict
      · split at verdict
        · split at verdict <;> cases verdict
        · cases verdict
  | erlConsList mInitialized elems =>
      simp only [look] at verdict
      split at verdict
      · cases verdict
      · split at verdict
        · split at verdict
          · split at verdict <;> cases verdict
          · cases verdict
        · cases verdict

theorem pairs_built {elems others : List ErlTerm} (parts : ∀ elem ∈ elems, elem.Valid)
    (otherParts : ∀ other ∈ others, other.Valid) : ∀ asked ∈ pairs elems others, asked.Built := by
  intro asked member
  obtain ⟨index, inside, rfl⟩ := List.mem_iff_getElem.mp member
  simp only [pairs, List.getElem_zipWith]
  exact ⟨Valid.built (parts _ (List.getElem_mem _)),
    Valid.built (otherParts _ (List.getElem_mem _))⟩

theorem lookVariable_keeps {binding after : VariableBinding} {mName : Bytes} {pattern : ErlTerm}
    {items : List Comparison} (values : binding.Values ErlTerm.Built) (built : pattern.Built)
    (verdict : lookVariable binding mName pattern = .asks after items) :
    after.Values ErlTerm.Built ∧ ∀ asked ∈ items, asked.Built := by
  unfold lookVariable at verdict
  split at verdict
  · cases verdict
    exact ⟨values, nofun⟩
  · split at verdict
    · rename_i value known
      cases verdict
      refine ⟨values, ?_⟩
      intro asked member
      rw [List.mem_singleton.mp member]
      exact ⟨values mName value known, built⟩
    · split at verdict
      · rename_i value ran
        cases verdict
        have held : ∀ held ∈ some binding, held.Values ErlTerm.Built := by
          intro held same
          cases same
          exact values
        exact ⟨values.bind (subst_built held built ran) mName, nofun⟩
      · split at verdict <;> cases verdict
      · cases verdict

/-- Every look asks for built terms, under a binding to built terms. -/
theorem look_keeps {binding after : VariableBinding} {comparison : Comparison}
    {items : List Comparison} (values : binding.Values ErlTerm.Built) (built : comparison.Built)
    (verdict : look binding comparison = .asks after items) :
    after.Values ErlTerm.Built ∧ ∀ asked ∈ items, asked.Built := by
  obtain ⟨this, pattern⟩ := comparison
  obtain ⟨thisBuilt, patternBuilt⟩ := built
  have swapped : ∀ asked ∈ [(⟨pattern, this⟩ : Comparison)], asked.Built := by
    intro asked member
    rw [List.mem_singleton.mp member]
    exact ⟨patternBuilt, thisBuilt⟩
  cases this with
  | erlVariable mName => exact lookVariable_keeps values patternBuilt verdict
  | simple value =>
      simp only [look] at verdict
      split at verdict
      · cases verdict
      · split at verdict
        · cases verdict
          exact ⟨values, swapped⟩
        · split at verdict
          · cases verdict
            exact ⟨values, nofun⟩
          · cases verdict
  | erlTuple mInitialized mArity elems =>
      simp only [look] at verdict
      split at verdict
      · cases verdict
        exact ⟨values, swapped⟩
      · split at verdict
        · split at verdict
          · cases verdict
            exact ⟨values, pairs_built thisBuilt.1 patternBuilt.1⟩
          · cases verdict
        · cases verdict
  | erlConsList mInitialized elems =>
      simp only [look] at verdict
      split at verdict
      · cases verdict
        exact ⟨values, swapped⟩
      · split at verdict
        · split at verdict
          · split at verdict
            · cases verdict
            · cases verdict
              exact ⟨values, pairs_built thisBuilt.1 patternBuilt.1⟩
          · cases verdict
        · cases verdict

/-- An evaluation keeps the values built, and its only error is the one of an unbound variable. -/
theorem ask_sound (fuel : Nat) {binding : VariableBinding} (values : binding.Values ErlTerm.Built)
    {comparison : Comparison} (built : comparison.Built) :
    (Worklist.ask look fuel comparison binding).2.Values ErlTerm.Built ∧
      ∀ error, (Worklist.ask look fuel comparison binding).1 = .throws error →
        error.thrownClass = .epiVariableUnbound :=
  Worklist.ask_sound (fun _ _ _ verdict => look_throws verdict)
    (fun _ _ _ _ good fit verdict => look_keeps good fit verdict) fuel comparison binding built
    values

theorem askEach_sound (fuel : Nat) {binding : VariableBinding}
    (values : binding.Values ErlTerm.Built) {comparisons : List Comparison}
    (built : ∀ comparison ∈ comparisons, comparison.Built) :
    (Worklist.askEach (Worklist.ask look fuel) comparisons binding).2.Values ErlTerm.Built ∧
      ∀ error, (Worklist.askEach (Worklist.ask look fuel) comparisons binding).1 =
        .throws error → error.thrownClass = .epiVariableUnbound :=
  @Worklist.askEach_sound VariableBinding Comparison EpiException
    (fun error => error.thrownClass = .epiVariableUnbound)
    (fun binding => binding.Values ErlTerm.Built) Comparison.Built _
    (fun _ _ fit good => ask_sound fuel good fit) comparisons binding built values

end Comparison

/-- The only error of the call is the one of an unbound variable. -/
def OnlyUnbound {Value : Type} (outcome : Call Value) : Prop :=
  ∀ error, outcome = .throws error → error.thrownClass = .epiVariableUnbound

theorem OnlyUnbound.throwsOnly {Value : Type} {outcome : Call Value} (only : OnlyUnbound outcome) :
    Call.throwsOnly [.epiVariableUnbound] outcome = outcome := by
  cases outcome with
  | throws error =>
      have unbound := only error rfl
      simp [Call.throwsOnly, Outcome.declares, unbound, ExceptionClass.isA]
  | _ => rfl

theorem isA_variableUnbound_of_ne {thrown : ExceptionClass} (other : thrown ≠ .epiVariableUnbound) :
    [ExceptionClass.epiVariableUnbound].any thrown.isA = false := by
  cases thrown with
  | epiVariableUnbound => exact absurd rfl other
  | _ => rfl

theorem OnlyUnbound.catching {Value : Type} {outcome : Call Value} (only : OnlyUnbound outcome)
    (handler : EpiException → Call Value) :
    Call.catching .epiInvalidTerm handler outcome = outcome := by
  cases outcome with
  | throws error =>
      have unbound := only error rfl
      simp [Call.catching, Outcome.handle, unbound, ExceptionClass.isA, ExceptionClass.base]
  | _ => rfl

namespace ErlTerm

/-- Calls that are evaluations of the comparisons. -/
def Evaluates (call : Matcher) (fuel : Nat) : Prop :=
  ∀ this pattern binding, this.Built → pattern.Built → binding.Values Built →
    call this pattern binding = Worklist.ask Comparison.look fuel ⟨this, pattern⟩ binding

theorem matchElements_pairs {call : Matcher} {fuel : Nat} (evaluates : Evaluates call fuel)
    {elems others : List ErlTerm} (same : elems.length = others.length)
    (parts : ∀ elem ∈ elems, elem.Valid) (otherParts : ∀ other ∈ others, other.Valid)
    {binding : VariableBinding} (values : binding.Values Built) :
    matchElements call elems others binding =
      Worklist.askEach (Worklist.ask Comparison.look fuel) (Comparison.pairs elems others)
        binding := by
  induction elems generalizing others binding with
  | nil => rfl
  | cons elem rest ih =>
      cases others with
      | nil => exact absurd same (by simp)
      | cons other more =>
          have elemBuilt := Valid.built (parts elem List.mem_cons_self)
          have otherBuilt := Valid.built (otherParts other List.mem_cons_self)
          have built : Comparison.Built ⟨elem, other⟩ := ⟨elemBuilt, otherBuilt⟩
          have sound := Comparison.ask_sound fuel values built
          have shorter : rest.length = more.length := by simpa using same
          have step := evaluates elem other binding elemBuilt otherBuilt values
          simp only [matchElements, Comparison.pairs, List.zipWith_cons_cons]
          rw [Worklist.askEach_cons, Effect.bind_run, Effect.bind_run, step]
          rcases ran : Worklist.ask Comparison.look fuel ⟨elem, other⟩ binding with
            ⟨outcome, after⟩
          rw [ran] at sound
          cases outcome with
          | returns success =>
              cases success with
              | false => rfl
              | true =>
                  exact ih shorter (fun elem member => parts elem (List.mem_cons_of_mem _ member))
                    (fun other member => otherParts other (List.mem_cons_of_mem _ member)) sound.1
          | _ => rfl

/-- An initialized tuple has all of its elements. -/
theorem Built.complete {mArity : Option Nat} {elems : List ErlTerm}
    (built : (erlTuple true mArity elems).Built) :
    mArity = some elems.length ∧ ∀ elem ∈ elems, elem.Valid := by
  obtain ⟨-, size, parts⟩ := valid_erlTuple.mp (built.valid rfl)
  exact ⟨size, parts⟩

theorem Built.cells {elems : List ErlTerm} (built : (erlConsList true elems).Built) :
    ∃ cells last, elems = cells ++ [last] ∧ ∀ cell ∈ cells ++ [last], cell.Valid := by
  obtain ⟨cells, last, rfl, -⟩ := closedBy_split (built.2 rfl)
  exact ⟨cells, last, rfl, built.1⟩

/-- The last entry is matched after the others. -/
theorem matchElements_concat (call : Matcher) {cells others : List ErlTerm}
    (same : cells.length = others.length) (last other : ErlTerm) :
    matchElements call (cells ++ [last]) (others ++ [other]) = (do
      let success ← matchElements call cells others
      if success then call last other else pure false) := by
  induction cells generalizing others with
  | nil =>
      have empty : others = [] := List.length_eq_zero_iff.mp same.symm
      subst empty
      simp only [List.nil_append, matchElements]
      rw [answer_eq]
      rfl
  | cons elem rest ih =>
      cases others with
      | nil => exact absurd same (by simp)
      | cons head more =>
          have shorter : rest.length = more.length := by simpa using same
          simp only [List.cons_append, matchElements, ih shorter]
          funext binding
          rw [Effect.bind_run, Effect.bind_run, Effect.bind_run]
          rcases call elem head binding with ⟨outcome, after⟩
          cases outcome with
          | returns success => cases success <;> rfl
          | _ => rfl

/-- A substitution comes back. -/
theorem subst_back {term : ErlTerm} (built : term.Built) {binding : Option VariableBinding} :
    term.subst binding ≠ .diverges := by
  intro lost
  rcases subst_built_ends built with ends | ⟨-, -, error, thrown, -⟩
  · unfold EndsAlone at ends
    rw [lost] at ends
    split at ends
    · obtain ⟨value, same⟩ := ends
      cases same
    · split at ends
      · obtain ⟨mName, same⟩ := ends
        cases same
      · cases ends
  · rw [lost] at thrown
    cases thrown

section Cases

variable {call : Matcher} {fuel : Nat} {pattern : ErlTerm} {binding : VariableBinding}

/-- A method that does what an evaluation does is not stopped by its specification. -/
theorem specified_of_ask (values : binding.Values Built) {comparison : Comparison}
    (built : comparison.Built) {method : Method VariableBinding Bool}
    (same : method binding = Worklist.ask Comparison.look fuel comparison binding) :
    Method.throwsOnly [.epiVariableUnbound] method binding =
      Worklist.ask Comparison.look fuel comparison binding := by
  have only : OnlyUnbound (Worklist.ask Comparison.look fuel comparison binding).1 :=
    (Comparison.ask_sound fuel values built).2
  rw [Method.throwsOnly, Effect.mapOutcome_run, same, only.throwsOnly]

/-- A call that is passed on is one comparison. -/
theorem ask_swap (evaluates : Evaluates call fuel) {this : ErlTerm} (built : this.Built)
    (patternBuilt : pattern.Built) (values : binding.Values Built) :
    call pattern this binding =
      Worklist.askEach (Worklist.ask Comparison.look fuel) [⟨pattern, this⟩] binding := by
  rw [Worklist.askEach_singleton]
  exact evaluates pattern this binding patternBuilt built values

theorem simple_evaluates (evaluates : Evaluates call fuel) (value : SimpleTerm)
    (patternBuilt : pattern.Built) (values : binding.Values Built) :
    SimpleTerm.internalMatch call value pattern binding =
      Worklist.ask Comparison.look (fuel + 1) ⟨.simple value, pattern⟩ binding := by
  have built : (simple value).Built := trivial
  have swapped := ask_swap evaluates built patternBuilt values
  rw [Worklist.ask_run]
  simp only [SimpleTerm.internalMatch, Comparison.look, instanceOf_erlVariable]
  cases value.isValid with
  | false => rfl
  | true =>
      cases pattern.isVariable with
      | true => exact swapped
      | false => cases (ErlTerm.simple value).equals pattern <;> rfl

/-- Two complete tuples are compared element by element. -/
theorem complete_evaluates (evaluates : Evaluates call fuel) {elems others : List ErlTerm}
    (parts : ∀ elem ∈ elems, elem.Valid) (otherParts : ∀ other ∈ others, other.Valid)
    (values : binding.Values Built) :
    ErlTuple.internalMatch call ⟨true, some elems.length, elems⟩
        (.erlTuple true (some others.length) others) binding =
      Worklist.ask Comparison.look (fuel + 1)
        ⟨.erlTuple true (some elems.length) elems, .erlTuple true (some others.length) others⟩
        binding := by
  rw [ErlTuple.internalMatch_complete]
  by_cases same : elems.length = others.length
  · have verdict : Comparison.look binding
        ⟨.erlTuple true (some elems.length) elems, .erlTuple true (some others.length) others⟩ =
          .asks binding (Comparison.pairs elems others) := by
      simp [Comparison.look, isVariable, same]
    have run := matchElements_pairs evaluates same parts otherParts values
    have only : OnlyUnbound (Worklist.askEach (Worklist.ask Comparison.look fuel)
        (Comparison.pairs elems others) binding).1 :=
      (Comparison.askEach_sound fuel values (Comparison.pairs_built parts otherParts)).2
    rw [if_pos same, Worklist.ask_of_asks verdict, Effect.mapOutcome_run, run, only.catching]
  · have verdict : Comparison.look binding
        ⟨.erlTuple true (some elems.length) elems, .erlTuple true (some others.length) others⟩ =
          .refuses := by
      simp [Comparison.look, isVariable, same]
    rw [if_neg same, Worklist.ask_run, verdict]
    rfl

theorem erlTuple_evaluates (evaluates : Evaluates call fuel) {mInitialized : Bool}
    {mArity : Option Nat} {elems : List ErlTerm}
    (built : (erlTuple mInitialized mArity elems).Built) (patternBuilt : pattern.Built)
    (values : binding.Values Built) :
    ErlTuple.internalMatch call ⟨mInitialized, mArity, elems⟩ pattern binding =
      Worklist.ask Comparison.look (fuel + 1) ⟨.erlTuple mInitialized mArity elems, pattern⟩
        binding := by
  cases plain : pattern.isVariable with
  | true =>
      have swapped := ask_swap evaluates built patternBuilt values
      rw [Worklist.ask_run]
      simp only [ErlTuple.internalMatch, Comparison.look, instanceOf_erlVariable, plain, if_true]
      exact swapped
  | false =>
      cases pattern with
      | erlTuple otherInitialized otherArity others =>
          cases mInitialized with
          | false => rfl
          | true =>
              cases otherInitialized with
              | false => rfl
              | true =>
                  obtain ⟨size, parts⟩ := built.complete
                  obtain ⟨otherSize, otherParts⟩ := patternBuilt.complete
                  subst size otherSize
                  exact complete_evaluates evaluates parts otherParts values
      | erlVariable mName => cases plain
      | simple value =>
          simp only [ErlTuple.internalMatch, instanceOf_erlVariable, plain, Bool.false_eq_true,
            if_false]
          rfl
      | erlConsList otherInitialized others => rfl

/-- Two closed lists are compared cell by cell, and then by their tails. -/
theorem closed_evaluates (evaluates : Evaluates call fuel) {cells others : List ErlTerm}
    {last other : ErlTerm} (parts : ∀ cell ∈ cells ++ [last], cell.Valid)
    (otherParts : ∀ cell ∈ others ++ [other], cell.Valid)
    (some : cells.length = others.length → cells ≠ []) (values : binding.Values Built) :
    ErlConsList.internalMatch call ⟨true, cells ++ [last]⟩
        (.erlConsList true (others ++ [other])) binding =
      Worklist.ask Comparison.look (fuel + 1)
        ⟨.erlConsList true (cells ++ [last]), .erlConsList true (others ++ [other])⟩ binding := by
  rw [ErlConsList.internalMatch_closed]
  by_cases same : cells.length = others.length
  · have sizes := same
    have lengths : (cells ++ [last]).length = (others ++ [other]).length := by simp [same]
    have more : others ≠ [] := by
      intro none
      rw [none] at same
      exact some sizes (List.length_eq_zero_iff.mp same)
    have verdict : Comparison.look binding
        ⟨.erlConsList true (cells ++ [last]), .erlConsList true (others ++ [other])⟩ =
          .asks binding (Comparison.pairs (cells ++ [last]) (others ++ [other])) := by
      simp [Comparison.look, isVariable, same, more]
    have run := matchElements_pairs evaluates lengths parts otherParts values
    rw [if_pos same, if_neg (some sizes), Worklist.ask_of_asks verdict, ← run,
      matchElements_concat call same]
  · have verdict : Comparison.look binding
        ⟨.erlConsList true (cells ++ [last]), .erlConsList true (others ++ [other])⟩ =
          .refuses := by
      simp [Comparison.look, isVariable, same]
    rw [if_neg same, Worklist.ask_run, verdict]
    rfl

/-- Two lists that were closed without elements end the process. -/
theorem alone_evaluates (call : Matcher) (fuel : Nat) (last other : ErlTerm)
    (binding : VariableBinding) :
    Method.throwsOnly [.epiVariableUnbound]
        (ErlConsList.internalMatch call ⟨true, [last]⟩ (.erlConsList true [other])) binding =
      Worklist.ask Comparison.look (fuel + 1)
        ⟨.erlConsList true [last], .erlConsList true [other]⟩ binding := by
  have refused : ErlConsList.internalMatch call ⟨true, [last]⟩ (.erlConsList true [other]) =
      Effect.fail (.badArgument "Index grater than arity") :=
    @ErlConsList.internalMatch_closed call [] [] last other
  rw [refused]
  rfl

theorem erlConsList_evaluates (evaluates : Evaluates call fuel) {mInitialized : Bool}
    {elems : List ErlTerm} (built : (erlConsList mInitialized elems).Built)
    (patternBuilt : pattern.Built) (values : binding.Values Built) :
    Method.throwsOnly [.epiVariableUnbound]
        (ErlConsList.internalMatch call ⟨mInitialized, elems⟩ pattern) binding =
      Worklist.ask Comparison.look (fuel + 1) ⟨.erlConsList mInitialized elems, pattern⟩
        binding := by
  have both : Comparison.Built ⟨.erlConsList mInitialized elems, pattern⟩ := ⟨built, patternBuilt⟩
  cases plain : pattern.isVariable with
  | true =>
      have swapped := ask_swap evaluates built patternBuilt values
      apply specified_of_ask values both
      rw [Worklist.ask_run]
      simp only [ErlConsList.internalMatch, Comparison.look, instanceOf_erlVariable, plain,
        if_true]
      exact swapped
  | false =>
      cases pattern with
      | erlVariable mName => cases plain
      | simple value =>
          apply specified_of_ask values both
          rw [Worklist.ask_run]
          simp only [ErlConsList.internalMatch, Comparison.look, instanceOf_erlVariable, plain,
            Bool.false_eq_true, if_false]
          split <;> rfl
      | erlTuple otherInitialized mArity others =>
          apply specified_of_ask values both
          rw [Worklist.ask_run]
          simp only [ErlConsList.internalMatch, Comparison.look, instanceOf_erlVariable, plain,
            Bool.false_eq_true, if_false]
          split <;> rfl
      | erlConsList otherInitialized others =>
          cases mInitialized with
          | false => exact specified_of_ask values both rfl
          | true =>
              cases otherInitialized with
              | false => exact specified_of_ask values both rfl
              | true =>
                  obtain ⟨cells, last, size, parts⟩ := built.cells
                  obtain ⟨otherCells, other, otherSize, otherParts⟩ := patternBuilt.cells
                  subst size otherSize
                  by_cases alone : cells = [] ∧ otherCells = []
                  · obtain ⟨none, otherNone⟩ := alone
                    subst none otherNone
                    exact alone_evaluates call fuel last other binding
                  · apply specified_of_ask values both
                    apply closed_evaluates evaluates parts otherParts _ values
                    rintro same rfl
                    exact alone ⟨rfl, List.length_eq_zero_iff.mp same.symm⟩

theorem erlVariable_evaluates (evaluates : Evaluates call fuel) (mName : Bytes)
    (patternBuilt : pattern.Built) (values : binding.Values Built) :
    Method.throwsOnly [.epiVariableUnbound] (ErlVariable.internalMatch call mName pattern) binding =
      Worklist.ask Comparison.look (fuel + 1) ⟨.erlVariable mName, pattern⟩ binding := by
  have both : Comparison.Built ⟨.erlVariable mName, pattern⟩ := ⟨trivial, patternBuilt⟩
  by_cases wild : mName = anonymous
  · apply specified_of_ask values both
    have verdict : Comparison.look binding ⟨.erlVariable mName, pattern⟩ = .asks binding [] :=
      if_pos wild
    rw [Worklist.ask_of_asks verdict, ErlVariable.internalMatch, if_pos wild]
    rfl
  · cases known : binding.search mName with
    | some value =>
        apply specified_of_ask values both
        have verdict : Comparison.look binding ⟨.erlVariable mName, pattern⟩ =
            .asks binding [⟨value, pattern⟩] := by
          simp only [Comparison.look, Comparison.lookVariable, if_neg wild, known]
        rw [Worklist.ask_of_asks verdict, ErlVariable.internalMatch, if_neg wild,
          Effect.bind_of_returns (Effect.get_run binding)]
        simp only [known]
        rw [Worklist.askEach_singleton]
        exact evaluates value pattern binding (values mName value known) patternBuilt values
    | none =>
        have unfolded : ErlVariable.internalMatch call mName pattern binding =
            (do
              let value ← Effect.lift (pattern.subst (some binding))
              Effect.set (binding.bind mName value.term)
              pure true : Method VariableBinding Bool) binding := by
          rw [ErlVariable.internalMatch, if_neg wild,
            Effect.bind_of_returns (Effect.get_run binding)]
          simp only [known]
        rw [Method.throwsOnly, Effect.mapOutcome_run, unfolded, Effect.bind_run, Effect.lift_run,
          Worklist.ask_run]
        simp only [Comparison.look, Comparison.lookVariable, if_neg wild, known]
        cases ran : pattern.subst (some binding) with
        | returns value => rfl
        | throws error =>
            by_cases unbound : error.thrownClass = .epiVariableUnbound
            · have only : OnlyUnbound (.throws error : Call Bool) := by
                rintro other same
                cases same
                exact unbound
              simp only [unbound, if_true]
              exact Prod.ext only.throwsOnly rfl
            · have stopped : Call.throwsOnly [.epiVariableUnbound] (.throws error : Call Bool) =
                  .aborts := by
                rw [Call.throwsOnly, Outcome.declares_throws, isA_variableUnbound_of_ne unbound]
                rfl
              simp only [unbound, if_false]
              exact Prod.ext stopped rfl
        | aborts => rfl
        | diverges => exact absurd ran (subst_back patternBuilt)

end Cases

/-- `internalMatch` evaluates its comparison. -/
theorem internalMatch_evaluates (fuel : Nat) : Evaluates (internalMatch fuel) fuel := by
  induction fuel with
  | zero =>
      intro this pattern binding _ _ _
      rfl
  | succ fuel ih =>
      intro this pattern binding built patternBuilt values
      cases this with
      | simple value =>
          rw [internalMatch]
          apply specified_of_ask values ⟨built, patternBuilt⟩
          exact simple_evaluates ih value patternBuilt values
      | erlTuple mInitialized mArity elems =>
          rw [internalMatch]
          apply specified_of_ask values ⟨built, patternBuilt⟩
          exact erlTuple_evaluates ih built patternBuilt values
      | erlConsList mInitialized elems =>
          rw [internalMatch]
          exact erlConsList_evaluates ih built patternBuilt values
      | erlVariable mName =>
          rw [internalMatch]
          exact erlVariable_evaluates ih mName patternBuilt values

/-- A matching returns, or it throws the error of an unbound variable. -/
def MatchRespects (this pattern : ErlTerm) (binding : Option VariableBinding) : Prop :=
  ∃ fuel, (∃ success, (this.matchPattern fuel pattern binding).1 = .returns success) ∨
    ∃ error, (this.matchPattern fuel pattern binding).1 = .throws error ∧
      error.thrownClass = .epiVariableUnbound

/-- The comparisons of a matching are finitely many, and none of them ends the process. -/
def ComparisonsEnd (this pattern : ErlTerm) (binding : Option VariableBinding) : Prop :=
  Worklist.Ends Comparison.look (binding.getD .empty) [⟨this, pattern⟩]

theorem matchRespects_iff {this pattern : ErlTerm} (built : this.Built)
    (patternBuilt : pattern.Built) {binding : Option VariableBinding}
    (values : (binding.getD .empty).Values Built) :
    MatchRespects this pattern binding ↔ ComparisonsEnd this pattern binding := by
  unfold MatchRespects ComparisonsEnd
  rw [← Worklist.settled_iff_ends]
  apply exists_congr
  intro fuel
  have evaluated := internalMatch_evaluates fuel this pattern (binding.getD .empty) built
    patternBuilt values
  have only : OnlyUnbound
      (Worklist.ask Comparison.look fuel ⟨this, pattern⟩ (binding.getD .empty)).1 :=
    (Comparison.ask_sound fuel values ⟨built, patternBuilt⟩).2
  have outcome : (this.matchPattern fuel pattern binding).1 =
      (Worklist.ask Comparison.look fuel ⟨this, pattern⟩ (binding.getD .empty)).1 := by
    rw [matchPattern, Method.throwsOnly, Effect.mapOutcome_run, onCopy, evaluated]
    rcases ran : Worklist.ask Comparison.look fuel ⟨this, pattern⟩ (binding.getD .empty) with
      ⟨outcome, after⟩
    rw [ran] at only
    cases outcome with
    | returns success => cases success <;> rfl
    | throws error => exact only.throwsOnly
    | _ => rfl
  rw [outcome]
  constructor
  · rintro (returned | ⟨error, thrown, -⟩)
    · exact .inl returned
    · exact .inr ⟨error, thrown⟩
  · rintro (returned | ⟨error, thrown⟩)
    · exact .inl returned
    · exact .inr ⟨error, thrown, only error thrown⟩

/-- Matching and substitution keep to their specifications exactly when no comparison ends the
process and no entry hinders the substitution. -/
theorem exceptions_respected_iff {this pattern : ErlTerm} (built : this.Built)
    (patternBuilt : pattern.Built) {binding : Option VariableBinding}
    (values : (binding.getD .empty).Values Built) :
    (MatchRespects this pattern binding ↔ ComparisonsEnd this pattern binding) ∧
    (this.SubstRespects binding ↔ this.Unhindered binding) :=
  ⟨matchRespects_iff built patternBuilt values, substRespects_iff built⟩

/-- A list that was closed without elements. -/
def loneList : ErlTerm := .erlConsList true [.simple (.erlLong (some 5))]

theorem loneList_built : loneList.Built := Valid.built (by decide)

theorem exceptions_respected_iff_lone :
    (MatchRespects loneList loneList none ↔ ComparisonsEnd loneList loneList none) ∧
    (loneList.SubstRespects none ↔ loneList.Unhindered none) :=
  exceptions_respected_iff loneList_built loneList_built (VariableBinding.values_empty _)

/-- A tuple whose variable is bound to an uninitialized atom. -/
def heldTuple : ErlTerm := .erlTuple true (some 1) [.erlVariable (text "X")]

/-- Two lists without elements end a matching, and so does a variable with an uninitialized term.
An uninitialized value ends a substitution. -/
theorem exceptions_escape :
    ¬ MatchRespects loneList loneList none ∧
    ¬ MatchRespects (.erlVariable (text "X")) (.simple (.erlAtom none)) none ∧
    ¬ heldTuple.SubstRespects
      (some (VariableBinding.bind .empty (text "X") (.simple (.erlAtom none)))) := by
  have empty : ((none : Option VariableBinding).getD .empty).Values Built :=
    VariableBinding.values_empty _
  have ended : ∀ {this pattern : ErlTerm}, this.Built → pattern.Built →
      Comparison.look .empty ⟨this, pattern⟩ = .aborts → ¬ MatchRespects this pattern none := by
    intro this pattern built patternBuilt verdict respects
    rw [matchRespects_iff built patternBuilt empty] at respects
    cases respects with
    | refuses _ other => exact absurd (verdict.symm.trans other) nofun
    | throws _ other => exact absurd (verdict.symm.trans other) nofun
    | asks other _ => exact absurd (verdict.symm.trans other) nofun
  refine ⟨ended loneList_built loneList_built rfl, ended trivial trivial rfl, ?_⟩
  rw [substRespects_iff (Valid.built (by decide))]
  intro unhindered
  have unbound := unhindered ⟨.element, .erlVariable (text "X")⟩ rfl
  exact absurd unbound (by decide)

end ErlTerm

end Epi.Type
