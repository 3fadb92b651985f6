import Epi.Type.MatchCorrect

namespace Epi.Type

open Verification ErlTerm

theorem matchEach_answers {atValue : ErlTerm → ErlTerm → Call Bool}
    {Good : VariableBinding → Prop} {elems others : List ErlTerm}
    (answers : ∀ elem ∈ elems, ∀ other ∈ others,
      Effect.Answers Good (matchWith atValue elem other)) :
    Effect.Answers Good (matchEach atValue elems others) := by
  induction elems generalizing others with
  | nil =>
      rw [matchEach_nil]
      exact Effect.answers_pure true
  | cons elem rest ih =>
      cases others with
      | nil =>
          rw [matchEach]
          exact Effect.answers_pure false
      | cons other more =>
          rw [matchEach_cons]
          apply Effect.answers_bind (answers elem List.mem_cons_self other List.mem_cons_self)
          intro success
          cases success with
          | false => exact Effect.answers_pure false
          | true =>
              apply ih
              intro elem inside other member
              exact answers elem (List.mem_cons_of_mem _ inside) other
                (List.mem_cons_of_mem _ member)

/-- A pattern gets an answer, also when a list ends in a variable: no list of a tail only is as long
as a list of the term. -/
theorem patternMatch_answers (pattern : ErlTerm) {term : ErlTerm} (proper : Proper term) :
    Effect.Answers (fun binding => binding.Values Proper) (patternMatch pattern term) := by
  unfold patternMatch
  induction pattern generalizing term with
  | simple value =>
      rw [matchWith_simple]
      exact Effect.answers_pure _
  | erlTuple mInitialized mArity elems ih =>
      cases term with
      | erlTuple otherInitialized otherArity others =>
          have terms : ∀ other ∈ others, Proper other := proper_hereditary _ proper
          rw [matchWith]
          split
          · apply matchEach_answers
            intro elem inside other member
            exact ih elem inside (terms other member)
          · exact Effect.answers_pure false
      | _ =>
          simp only [matchWith]
          exact Effect.answers_pure false
  | erlConsList mInitialized elems ih =>
      cases term with
      | erlConsList otherInitialized others =>
          have terms : ∀ other ∈ others, Proper other := proper_hereditary _ proper
          have long := cells_of_list proper.2
          rw [matchWith]
          split
          · rename_i same
            simp only [Bool.and_eq_true, beq_iff_eq] at same
            rw [if_neg (same.2 ▸ long)]
            apply matchEach_answers
            intro elem inside other member
            exact ih elem inside (terms other member)
          · exact Effect.answers_pure false
      | _ =>
          simp only [matchWith]
          exact Effect.answers_pure false
  | erlVariable mName =>
      intro binding values
      rw [matchWith_erlVariable]
      by_cases wild : mName = anonymous
      · rw [if_pos wild]
        exact ⟨true, binding, rfl, values⟩
      · rw [if_neg wild]
        cases known : binding.search mName with
        | some value =>
            refine ⟨value.equals term, binding, ?_, values⟩
            simp only [termMatch_equals (values mName value known)]
        | none => exact ⟨true, binding.bind mName term, rfl, values.bind proper mName⟩

/-- A matching ends with an answer, and a refusal leaves the binding as it is. -/
theorem matchPattern_answers {pattern term : ErlTerm} {binding : Option VariableBinding}
    {fuel : Nat} (patternValid : pattern.Valid) (proper : Proper term)
    (values : (binding.getD .empty).Values Proper) (enough : term.matchDepth ≤ fuel) :
    ∃ success after, pattern.matchPattern fuel term binding = (.returns success, after) ∧
      (success = false → after = binding) := by
  have storable : (binding.getD .empty).Values Storable :=
    fun name value known => (values name value known).storable
  obtain ⟨success, dirtyBinding, ran, -⟩ :=
    patternMatch_answers pattern proper (binding.getD .empty) values
  rw [matchPattern_pattern patternValid proper.1 storable enough]
  unfold patternMatches onCopy
  simp only [ran]
  cases success with
  | true => exact ⟨true, _, rfl, fun refused => absurd refused.symm Bool.false_ne_true⟩
  | false => exact ⟨false, binding, rfl, fun _ => rfl⟩

/-- What a successful match leaves of the binding of its caller: the old entries, and exactly the
variables of the pattern besides them, with values that suit the pattern and the term. -/
def ErlTerm.Binds (pattern term : ErlTerm) : Option VariableBinding → Option VariableBinding → Prop
  | none, after => after = none
  | some before, after => ∃ entries : VariableBinding, after = some entries ∧
      entries.Extends before ∧
      (∀ name, (entries.search name).isSome = true ↔
        (before.search name).isSome = true ∨ name ∈ pattern.variableNames) ∧
      Suits entries.search pattern term

/-- A match finds out whether a substitution that extends the binding suits the pattern and the
term. -/
theorem matchPattern_decides {pattern term : ErlTerm} {binding : Option VariableBinding}
    {fuel : Nat} (valid : pattern.Valid) (same : SelfEqual term)
    (values : (binding.getD .empty).Values Proper) (enough : term.matchDepth ≤ fuel) :
    ∃ success after, pattern.matchPattern fuel term binding = (.returns success, after) ∧
      (success = true ↔ ∃ substitution : Substitution,
        substitution.Extends (binding.getD .empty) ∧ Suits substitution pattern term) ∧
      (success = true → pattern.Binds term binding after) ∧
      (success = false → after = binding) := by
  have storable : (binding.getD .empty).Values Storable :=
    fun name value known => (values name value known).storable
  obtain ⟨success, dirtyBinding, ran, matched⟩ :=
    patternMatch_decides valid same (binding.getD .empty) values
  rw [matchPattern_pattern valid same.1.1 storable enough]
  unfold patternMatches onCopy
  simp only [ran]
  cases success with
  | false =>
      refine ⟨false, binding, rfl, ?_, fun done => absurd done Bool.false_ne_true, fun _ => rfl⟩
      constructor
      · intro done
        exact absurd done Bool.false_ne_true
      · rintro ⟨substitution, extension, suit⟩
        exact (matched.complete substitution extension.covers suit).1
  | true =>
      have suit : Suits dirtyBinding.search pattern term :=
        matched.sound rfl dirtyBinding.search fun _ _ known => known
      refine ⟨true, _, rfl, ?_, ?_, fun failed => absurd failed.symm Bool.false_ne_true⟩
      · exact iff_of_true rfl ⟨dirtyBinding.search, matched.extension, suit⟩
      · intro _
        cases binding with
        | none => rfl
        | some before =>
            have merged : (before.merge dirtyBinding).search = dirtyBinding.search :=
              funext (VariableBinding.search_merge_extends matched.extension)
            refine ⟨before.merge dirtyBinding, rfl, ?_, ?_, ?_⟩
            · intro name value known
              rw [merged]
              exact matched.extension name value known
            · intro name
              rw [merged]
              exact matched.entries rfl name
            · rw [merged]
              exact suit

/-- The pattern and the term may change places: both calls end, with one answer and one binding. -/
theorem matchPattern_commutes {pattern term : ErlTerm} {binding : Option VariableBinding}
    (patternValid : pattern.Valid) (proper : Proper term)
    (values : (binding.getD .empty).Values Proper) :
    ∃ success after, ∀ fuel, term.matchDepth ≤ fuel →
      term.matchPattern fuel pattern binding = (.returns success, after) ∧
      pattern.matchPattern fuel term binding = (.returns success, after) := by
  obtain ⟨success, after, answered, -⟩ :=
    matchPattern_answers patternValid proper values le_rfl
  have storable : (binding.getD .empty).Values Storable :=
    fun name value known => (values name value known).storable
  -- Both calls are what the specification says, for any depth that suffices.
  have specified : patternMatches pattern term binding = (.returns success, after) := by
    rw [← answered]
    exact (matchPattern_pattern patternValid proper.1 storable le_rfl).symm
  refine ⟨success, after, ?_⟩
  intro fuel enough
  constructor
  · rw [matchPattern_term patternValid proper.1 storable enough]
    exact specified
  · rw [matchPattern_pattern patternValid proper.1 storable enough]
    exact specified

/-- The pattern `{X, [Y | T]}`. -/
def splitPattern : ErlTerm :=
  .erlTuple true (some 2) [.erlVariable (text "X"),
    .erlConsList true [.erlVariable (text "Y"), .erlVariable (text "T")]]

/-- The term `{8, [1 | 2]}`. -/
def splitTerm : ErlTerm :=
  .erlTuple true (some 2) [.simple (.erlLong (some 8)),
    .erlConsList true [.simple (.erlLong (some 1)), .simple (.erlLong (some 2))]]

theorem matchPattern_commutes_split :
    ∃ success after, ∀ fuel, splitTerm.matchDepth ≤ fuel →
      splitTerm.matchPattern fuel splitPattern
        (some (.bind .empty (text "X") (.simple (.erlLong (some 8))))) =
          (.returns success, after) ∧
      splitPattern.matchPattern fuel splitTerm
        (some (.bind .empty (text "X") (.simple (.erlLong (some 8))))) =
          (.returns success, after) := by
  refine matchPattern_commutes (by decide) ⟨⟨by decide, by decide⟩, by decide⟩ ?_
  exact (VariableBinding.values_empty _).bind ⟨⟨by decide, by decide⟩, by decide⟩ _

end Epi.Type
