import Epi.Type.MatchCorrect
import Epi.Type.SubstComplete

namespace Epi.Type

open Verification ErlTerm

/-- What is shown by every binding that follows a success of the call. -/
def Establishes (call : Method VariableBinding Bool) (Shows : VariableBinding → Prop) : Prop :=
  ∀ before : VariableBinding, before.Values Proper →
    ∃ success after, call before = (.returns success, after) ∧ after.Values Proper ∧
      after.Extends before ∧ (success = true → ∀ later : VariableBinding, later.Values Proper →
        later.Extends after → Shows later)

/-- The pattern with the values of its variables equals the term. -/
def Rebuilds (pattern term : ErlTerm) (binding : VariableBinding) : Prop :=
  pattern.Fine (some binding) ∧ (pattern.filled (some binding)).equals term = true

section Establishes

theorem establishes_pure {success : Bool} {Shows : VariableBinding → Prop}
    (shows : success = true → ∀ later, Shows later) : Establishes (pure success) Shows :=
  fun before proper =>
    ⟨success, before, rfl, proper, .refl before, fun done later _ _ => shows done later⟩

theorem establishes_false (Shows : VariableBinding → Prop) : Establishes (pure false) Shows :=
  establishes_pure fun failed => absurd failed Bool.false_ne_true

/-- Both calls in order establish what each of them does. -/
theorem Establishes.andThen {first second : Method VariableBinding Bool}
    {ShowsFirst ShowsSecond : VariableBinding → Prop} (establishes : Establishes first ShowsFirst)
    (next : Establishes second ShowsSecond) :
    Establishes (do let success ← first; if success then second else pure false)
      (fun later => ShowsFirst later ∧ ShowsSecond later) := by
  intro before proper
  obtain ⟨success, middle, ran, middleProper, lower, shown⟩ := establishes before proper
  cases success with
  | false =>
      refine ⟨false, middle, ?_, middleProper, lower, fun failed => absurd failed (by simp)⟩
      rw [Effect.bind_of_returns ran]
      rfl
  | true =>
      obtain ⟨success, after, done, afterProper, upper, also⟩ := next middle middleProper
      refine ⟨success, after, ?_, afterProper, upper.trans lower, ?_⟩
      · rw [Effect.bind_of_returns ran]
        exact done
      · intro succeeded later laterProper extension
        exact ⟨shown rfl later laterProper (extension.trans upper),
          also succeeded later laterProper extension⟩

theorem Establishes.imp {call : Method VariableBinding Bool} {Shows Weaker : VariableBinding → Prop}
    (establishes : Establishes call Shows) (weaker : ∀ later, Shows later → Weaker later) :
    Establishes call Weaker := by
  intro before proper
  obtain ⟨success, after, ran, afterProper, extension, shown⟩ := establishes before proper
  exact ⟨success, after, ran, afterProper, extension,
    fun done later laterProper further => weaker later (shown done later laterProper further)⟩

end Establishes

section Rebuilds

variable {binding : VariableBinding}

theorem equals_isConsList {left right : ErlTerm} (same : left.equals right = true) :
    left.isConsList = right.isConsList := by
  cases left <;> cases right <;> simp [equals, isConsList] at same ⊢

theorem ground_of_equalElements {elems others : List ErlTerm}
    (each : ∀ elem ∈ elems, ∀ other : ErlTerm, elem.equals other = true → other.Ground →
      elem.Ground) (same : equalElements elems others = true)
    (grounds : ∀ other ∈ others, other.Ground) : ∀ elem ∈ elems, elem.Ground := by
  induction elems generalizing others with
  | nil => exact nofun
  | cons elem rest ih =>
      cases others with
      | nil => simp at same
      | cons other more =>
          rw [equalElements_cons, Bool.and_eq_true] at same
          rw [List.forall_mem_cons] at grounds each
          rw [List.forall_mem_cons]
          exact ⟨each.1 other same.1 grounds.1, ih each.2 same.2 grounds.2⟩

/-- Only terms without variables equal one. -/
theorem ground_of_equals {left right : ErlTerm} (same : left.equals right = true)
    (ground : right.Ground) : left.Ground := by
  induction left generalizing right with
  | simple value =>
      rw [Ground, every_simple]
      rfl
  | erlTuple mInitialized mArity elems ih =>
      cases right with
      | erlTuple otherInitialized otherArity others =>
          rw [equals_erlTuple, Bool.and_eq_true] at same
          refine (every_erlTuple ..).mpr ⟨rfl, ?_⟩
          exact ground_of_equalElements (fun elem inside _ => ih elem inside) same.2 ground.parts
      | _ => simp [equals] at same
  | erlConsList mInitialized elems ih =>
      cases right with
      | erlConsList otherInitialized others =>
          rw [equals_erlConsList, Bool.and_eq_true] at same
          refine (every_erlConsList ..).mpr ⟨rfl, ?_⟩
          exact ground_of_equalElements (fun elem inside _ => ih elem inside) same.2 ground.parts
      | _ => simp [equals] at same
  | erlVariable mName => simp at same

/-- The entries of the vectors are rebuilt in order. -/
theorem equalElements_filled {elems others : List ErlTerm}
    (each : List.Forall₂ (fun elem other => Rebuilds elem other binding) elems others) :
    equalElements (filledEach (some binding) elems) others = true := by
  induction each with
  | nil => rfl
  | cons first later ih => rw [filledEach, equalElements_cons, first.2, ih, Bool.and_self]

theorem fine_of_rebuilds {elems others : List ErlTerm}
    (each : List.Forall₂ (fun elem other => Rebuilds elem other binding) elems others) :
    ∀ elem ∈ elems, elem.Fine (some binding) := by
  induction each with
  | nil => exact nofun
  | cons first later ih =>
      rw [List.forall_mem_cons]
      exact ⟨first.1, ih⟩

/-- The tail of a rebuilt list takes the place of a tail. -/
theorem rebuilds_tail {cells heads : List ErlTerm} {last tail : ErlTerm}
    (each : List.Forall₂ (fun elem other => Rebuilds elem other binding) (cells ++ [last])
      (heads ++ [tail])) : Rebuilds last tail binding := by
  have reversed := List.forall₂_reverse_iff.mpr each
  rw [List.reverse_append, List.reverse_append] at reversed
  exact (List.forall₂_cons.mp reversed).1

theorem rebuilds_erlConsList {cells heads : List ErlTerm} {last tail : ErlTerm}
    (plain : tail.isConsList = false)
    (each : List.Forall₂ (fun elem other => Rebuilds elem other binding) (cells ++ [last])
      (heads ++ [tail])) :
    Rebuilds (.erlConsList true (cells ++ [last])) (.erlConsList true (heads ++ [tail])) binding := by
  have lastRebuilt := rebuilds_tail each
  refine ⟨(every_erlConsList ..).mpr ⟨?_, fine_of_rebuilds each⟩, ?_⟩
  · cases last with
    | erlVariable mName =>
        have here : (valueOf (some binding) mName).any isValid = true := every_self lastRebuilt.1
        obtain ⟨value, known, -⟩ := (Option.any_eq_true _ _).mp here
        have same := equals_isConsList lastRebuilt.2
        rw [filled_erlVariable known, plain] at same
        simp [fineNode, known, same]
    | _ => simp [fineNode]
  · rw [filled, equals_erlConsList, equalElements_filled each]
    rfl

theorem rebuilds_erlTuple {left right : Option Nat} {elems others : List ErlTerm}
    (each : List.Forall₂ (fun elem other => Rebuilds elem other binding) elems others) :
    Rebuilds (.erlTuple true left elems) (.erlTuple true right others) binding := by
  refine ⟨(every_erlTuple ..).mpr ⟨rfl, fine_of_rebuilds each⟩, ?_⟩
  rw [filled, equals_erlTuple, equalElements_filled each]
  rfl

end Rebuilds

section Match

variable {pattern term : ErlTerm}

theorem rebuilds_erlVariable {mName : Bytes} {value : ErlTerm} {binding : VariableBinding}
    (named : mName ≠ anonymous) (known : binding.search mName = some value)
    (values : binding.Values Proper) (same : value.equals term = true) :
    Rebuilds (.erlVariable mName) term binding := by
  have given : valueOf (some binding) mName = some value := valueOf_eq_some.mpr ⟨named, known⟩
  refine ⟨?_, ?_⟩
  · rw [Fine, every_erlVariable, fineNode, given]
    exact (values mName value known).1.2.isValid
  · rw [filled_erlVariable given]
    exact same

/-- A variable stands for what it was bound to. -/
theorem patternMatch_erlVariable_establishes {mName : Bytes} (named : mName ≠ anonymous)
    (same : SelfEqual term) :
    Establishes (patternMatch (.erlVariable mName) term) (Rebuilds (.erlVariable mName) term) := by
  intro before proper
  unfold patternMatch
  rw [matchWith_erlVariable, if_neg named]
  cases known : before.search mName with
  | some value =>
      have bound := proper mName value known
      refine ⟨value.equals term, before, ?_, proper, .refl before, ?_⟩
      · exact congrArg (·, before) (termMatch_equals bound term)
      · intro equal later laterProper extension
        exact rebuilds_erlVariable named (extension mName value known) laterProper equal
  | none =>
      have entry : (before.bind mName term).search mName = some term := by
        rw [VariableBinding.search_bind, known]
        simp
      refine ⟨true, before.bind mName term, rfl, proper.bind same.1 mName,
        VariableBinding.extends_bind before mName term, ?_⟩
      intro _ later laterProper extension
      exact rebuilds_erlVariable named (extension mName term entry) laterProper same.equals_self

theorem matchEach_establishes {elems others : List ErlTerm} (same : elems.length = others.length)
    (each : ∀ elem ∈ elems, ∀ other ∈ others,
      Establishes (patternMatch elem other) (Rebuilds elem other)) :
    Establishes (matchEach termMatch elems others)
      (fun later => List.Forall₂ (fun elem other => Rebuilds elem other later) elems others) := by
  induction elems generalizing others with
  | nil =>
      have empty : others = [] := List.length_eq_zero_iff.mp same.symm
      subst empty
      rw [matchEach_nil]
      exact establishes_pure fun _ _ => .nil
  | cons elem rest ih =>
      cases others with
      | nil => exact absurd same (by simp)
      | cons other more =>
          have shorter : rest.length = more.length := by simpa using same
          have first := each elem List.mem_cons_self other List.mem_cons_self
          have later := ih shorter fun elem inside other member =>
            each elem (List.mem_cons_of_mem _ inside) other (List.mem_cons_of_mem _ member)
          rw [matchEach_cons]
          exact (first.andThen later).imp fun _ both => .cons both.1 both.2

/-- A pattern whose lists have cells, and whose variables have names. -/
def NamedPattern (pattern : ErlTerm) : Prop := pattern.Valid ∧ pattern.Celled ∧ pattern.Named

theorem namedPattern_hereditary : Hereditary NamedPattern :=
  Hereditary.and (hereditary_every _) (Hereditary.and (hereditary_every _) (hereditary_every _))

/-- After a match the pattern with its values equals the term, also where a list ends in a
variable. -/
theorem patternMatch_establishes (wellFormed : NamedPattern pattern) (same : SelfEqual term) :
    Establishes (patternMatch pattern term) (Rebuilds pattern term) := by
  induction pattern generalizing term with
  | simple value =>
      unfold patternMatch
      rw [matchWith_simple]
      refine establishes_pure fun equal later => ⟨?_, ?_⟩
      · rw [Fine, every_simple]
        rfl
      · rw [filled]
        exact equal
  | erlTuple mInitialized mArity elems ih =>
      obtain ⟨flag, -, -⟩ := valid_erlTuple.mp wellFormed.1
      have parts : ∀ elem ∈ elems, NamedPattern elem := namedPattern_hereditary _ wellFormed
      subst flag
      unfold patternMatch
      cases term with
      | erlTuple otherInitialized otherArity others =>
          obtain ⟨otherFlag, -, -⟩ := valid_erlTuple.mp same.1.1.2
          have otherParts : ∀ other ∈ others, SelfEqual other := selfEqual_hereditary _ same
          subst otherFlag
          rw [matchWith_erlTuple]
          by_cases size : elems.length = others.length
          · rw [if_pos size]
            have each := matchEach_establishes size fun elem inside other member =>
              ih elem inside (parts elem inside) (otherParts other member)
            exact each.imp fun _ => rebuilds_erlTuple
          · rw [if_neg size]
            exact establishes_false _
      | _ =>
          simp only [matchWith]
          exact establishes_false _
  | erlConsList mInitialized elems ih =>
      obtain ⟨flag, closed, -⟩ := valid_erlConsList.mp wellFormed.1
      have parts : ∀ elem ∈ elems, NamedPattern elem := namedPattern_hereditary _ wellFormed
      have long := cells_of_list wellFormed.2.1
      subst flag
      unfold patternMatch
      cases term with
      | erlConsList otherInitialized others =>
          obtain ⟨otherFlag, otherClosed, -⟩ := valid_erlConsList.mp same.1.1.2
          have otherParts : ∀ other ∈ others, SelfEqual other := selfEqual_hereditary _ same
          obtain ⟨cells, last, rfl, -⟩ := closedBy_split closed
          obtain ⟨heads, tail, rfl, plain⟩ := closedBy_split otherClosed
          subst otherFlag
          rw [matchWith_erlConsList]
          by_cases size : (cells ++ [last]).length = (heads ++ [tail]).length
          · rw [if_pos size, if_neg long]
            have each := matchEach_establishes size fun elem inside other member =>
              ih elem inside (parts elem inside) (otherParts other member)
            exact each.imp fun _ => rebuilds_erlConsList plain
          · rw [if_neg size]
            exact establishes_false _
      | _ =>
          simp only [matchWith]
          exact establishes_false _
  | erlVariable mName =>
      have named : mName ≠ anonymous := by
        have here : namedNode (.erlVariable mName) = true := every_self wellFormed.2.2
        simpa [namedNode] using here
      exact patternMatch_erlVariable_establishes named same

/-- Every variable of a term that a substitution returns for has a name. -/
theorem named_of_fine {binding : Option VariableBinding} (fine : pattern.Fine binding) :
    pattern.Named := by
  refine every_imp (fun part holds => ?_) fine
  cases part with
  | erlVariable mName =>
      obtain ⟨value, known, -⟩ := (Option.any_eq_true _ _).mp holds
      have named := (valueOf_eq_some.mp known).1
      simpa [namedNode] using named
  | _ => rfl

/-- After a match, the substitution gives back a term that equals the matched one exactly when the
pattern has no anonymous variable and the substitution rebuilds its lists. -/
theorem subst_after_match_iff {binding after : VariableBinding} {fuel : Nat}
    (patternValid : pattern.Valid) (patternCelled : pattern.Celled) (termValid : term.Valid)
    (termGround : term.Ground) (termCelled : term.Celled) (numeric : term.Numeric)
    (values : binding.Values fun value => value.Valid ∧ value.Ground ∧ value.Celled)
    (enough : term.matchDepth ≤ fuel)
    (matched : pattern.matchPattern fuel term (some binding) = (.returns true, some after)) :
    (∃ result, pattern.subst (some after) = .returns result ∧ result.term.equals term = true) ↔
      pattern.Named ∧ pattern.Rebuilt := by
  constructor
  · rintro ⟨result, ran, equal⟩
    have substitutable := (subst_returns_iff patternValid).mp ⟨result, ran⟩
    cases fixed : pattern.isVariable with
    | true =>
        cases pattern with
        | erlVariable mName =>
            have named := (valueOf_eq_some.mp (subst_variable_returns ran)).1
            refine ⟨?_, by rw [Rebuilt, every_erlVariable]; rfl⟩
            rw [Named, every_erlVariable]
            simpa [namedNode] using named
        | _ => cases fixed
    | false =>
        have fine := fine_of_substitutable fixed substitutable
        rw [(subst_of_fine patternValid fine).1] at ran
        cases ran
        exact ⟨named_of_fine fine, rebuilt_of_substituted (ground_of_equals equal termGround)⟩
  · rintro ⟨named, rebuilt⟩
    have same : SelfEqual term := ⟨⟨⟨termGround, termValid⟩, termCelled⟩, numeric⟩
    have proper : binding.Values Proper := fun name value known => by
      obtain ⟨valid, ground, celled⟩ := values name value known
      exact ⟨⟨ground, valid⟩, celled⟩
    have storable : ((some binding).getD .empty).Values Storable :=
      fun name value known => (proper name value known).storable
    obtain ⟨success, dirtyBinding, ran, dirtyProper, extension, shown⟩ :=
      patternMatch_establishes ⟨patternValid, patternCelled, named⟩ same binding proper
    rw [matchPattern_pattern patternValid same.1.1 storable enough, patternMatches, onCopy,
      Option.getD_some, ran] at matched
    cases success with
    | false => simp at matched
    | true =>
        obtain rfl : binding.merge dirtyBinding = after := by simpa using matched
        have merged := VariableBinding.search_merge_extends extension
        have rebuilds := shown rfl (binding.merge dirtyBinding)
          (fun name value known => dirtyProper name value ((merged name).symm.trans known))
          (fun name value known => (merged name).trans known)
        refine ⟨_, (subst_of_fine patternValid rebuilds.1).1, ?_⟩
        rw [substituted_eq_filled rebuilt]
        exact rebuilds.2

/-- The term `{7, [1]}`. -/
def unitTailTerm : ErlTerm :=
  .erlTuple true (some 2) [.simple (.erlLong (some 7)),
    .erlConsList true [.simple (.erlLong (some 1)), .simple .erlEmptyList]]

/-- The binding of `X` to 7 and of `Y` to the empty list. -/
def unitTailBinding : VariableBinding :=
  (VariableBinding.empty.bind (text "X") (.simple (.erlLong (some 7)))).bind (text "Y")
    (.simple .erlEmptyList)

theorem subst_after_match_iff_tail :
    (∃ result, listTailTerm.subst (some unitTailBinding) = .returns result ∧
      result.term.equals unitTailTerm = true) ↔ listTailTerm.Named ∧ listTailTerm.Rebuilt :=
  subst_after_match_iff (by decide) (by decide) (by decide) (by decide) (by decide) (by decide)
    (VariableBinding.values_empty _) le_rfl (by rfl)

/-- A pattern that can be filled in from the binding and equals itself then. -/
def Fillable (binding : VariableBinding) (pattern : ErlTerm) : Prop :=
  pattern.Valid ∧ pattern.Celled ∧ pattern.Numeric ∧ pattern.Fine (some binding)

theorem fillable_hereditary (binding : VariableBinding) : Hereditary (Fillable binding) :=
  Hereditary.and (hereditary_every _) (Hereditary.and (hereditary_every _)
    (Hereditary.and (hereditary_every _) (hereditary_every _)))

theorem matchEach_filled {binding : VariableBinding} {elems : List ErlTerm}
    (each : ∀ elem ∈ elems, matchWith termMatch elem (elem.filled (some binding)) binding =
      (.returns true, binding)) :
    matchEach termMatch elems (elems.map (filled (some binding))) binding =
      (.returns true, binding) := by
  induction elems with
  | nil =>
      rw [matchEach_nil]
      rfl
  | cons elem rest ih =>
      rw [List.forall_mem_cons] at each
      rw [List.map_cons, matchEach_cons, Effect.bind_of_returns each.1]
      exact ih each.2

/-- Under the values that were filled in, the pattern matches without a new entry. -/
theorem matchWith_filled {binding : VariableBinding} (values : binding.Values SelfEqual)
    (fillable : Fillable binding pattern) :
    matchWith termMatch pattern (pattern.filled (some binding)) binding =
      (.returns true, binding) := by
  induction pattern with
  | simple value =>
      have ground : (ErlTerm.simple value).Ground := by
        rw [Ground, every_simple]
        rfl
      rw [filled, matchWith_simple, (equals_self fillable.1 ground).mpr fillable.2.2.1]
      rfl
  | erlTuple mInitialized mArity elems ih =>
      obtain ⟨flag, -, -⟩ := valid_erlTuple.mp fillable.1
      have parts : ∀ elem ∈ elems, Fillable binding elem := fillable_hereditary binding _ fillable
      subst flag
      rw [filled, filledEach_eq, matchWith_erlTuple, if_pos (List.length_map _).symm]
      exact matchEach_filled fun elem member => ih elem member (parts elem member)
  | erlConsList mInitialized elems ih =>
      obtain ⟨flag, -, -⟩ := valid_erlConsList.mp fillable.1
      have parts : ∀ elem ∈ elems, Fillable binding elem := fillable_hereditary binding _ fillable
      subst flag
      rw [filled, filledEach_eq, matchWith_erlConsList, if_pos (List.length_map _).symm,
        if_neg (cells_of_list fillable.2.1)]
      exact matchEach_filled fun elem member => ih elem member (parts elem member)
  | erlVariable mName =>
      have here : (valueOf (some binding) mName).any isValid = true := every_self fillable.2.2.2
      obtain ⟨value, known, -⟩ := (Option.any_eq_true _ _).mp here
      obtain ⟨named, found⟩ := valueOf_eq_some.mp known
      have search : binding.search mName = some value := found
      have selfEqual := values mName value search
      rw [filled_erlVariable known, matchWith_erlVariable, if_neg named, search]
      simp only
      rw [termMatch_equals selfEqual.1, selfEqual.equals_self]

/-- A pattern matches what it was substituted by, and learns nothing new. -/
theorem match_after_subst {binding : VariableBinding} {result : Substituted} {fuel : Nat}
    (patternValid : pattern.Valid) (patternCelled : pattern.Celled) (numeric : pattern.Numeric)
    (values : binding.Values fun value =>
      value.Valid ∧ value.Ground ∧ value.Celled ∧ value.Numeric)
    (ran : pattern.subst (some binding) = .returns result) (ground : result.term.Ground)
    (enough : result.term.matchDepth ≤ fuel) :
    ∃ after, pattern.matchPattern fuel result.term (some binding) = (.returns true, some after) ∧
      after.search = binding.search := by
  have selfEqual : binding.Values SelfEqual := fun name value known => by
    obtain ⟨valid, free, celled, number⟩ := values name value known
    exact ⟨⟨⟨free, valid⟩, celled⟩, number⟩
  have fine : pattern.Fine (some binding) := by
    have substitutable := (subst_returns_iff patternValid).mp ⟨result, ran⟩
    cases fixed : pattern.isVariable with
    | true =>
        cases pattern with
        | erlVariable mName =>
            have known := subst_variable_returns ran
            have search : binding.search mName = some result.term := (valueOf_eq_some.mp known).2
            rw [Fine, every_erlVariable, fineNode, known]
            exact (values mName _ search).1.isValid
        | _ => cases fixed
    | false => exact fine_of_substitutable fixed substitutable
  rw [(subst_of_fine patternValid fine).1] at ran
  cases ran
  have rebuilt : pattern.Rebuilt := rebuilt_of_substituted ground
  have storables : ∀ held ∈ some binding, held.Values Storable := by
    intro held same name value known
    cases same
    exact (selfEqual name value known).1.storable
  have stored : ((some binding).getD .empty).Values Storable := storables binding rfl
  have valid := filled_valid storables patternValid fine
  rw [substituted_eq_filled rebuilt] at ground enough ⊢
  have matched : patternMatch pattern (pattern.filled (some binding)) binding =
      (.returns true, binding) :=
    matchWith_filled selfEqual ⟨patternValid, patternCelled, numeric, fine⟩
  refine ⟨binding.merge binding, ?_, ?_⟩
  · rw [matchPattern_pattern patternValid ⟨ground, valid⟩ stored enough,
      patternMatches, onCopy, Option.getD_some, matched]
    rfl
  · exact funext (VariableBinding.search_merge_extends (.refl binding))

theorem match_after_subst_tail :
    ∃ after, listTailTerm.matchPattern 5 unitTailTerm (some unitTailBinding) =
      (.returns true, some after) ∧ after.search = unitTailBinding.search := by
  have values : unitTailBinding.Values fun value =>
      value.Valid ∧ value.Ground ∧ value.Celled ∧ value.Numeric :=
    ((VariableBinding.values_empty _).bind ⟨by decide, by decide, by decide, by decide⟩ _).bind
      ⟨by decide, by decide, by decide, by decide⟩ _
  have ran : listTailTerm.subst (some unitTailBinding) = .returns ⟨unitTailTerm, false⟩ :=
    (subst_of_fine (by decide) (by decide)).1
  exact match_after_subst (by decide) (by decide) (by decide) values ran (by decide) (by decide)

end Match

end Epi.Type
