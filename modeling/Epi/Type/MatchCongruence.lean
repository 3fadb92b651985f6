import Epi.Type.MatchCorrect

namespace Epi.Type

open Verification ErlTerm

/-- Two bindings of the same names to equal values. -/
def VariableBinding.Equals (left right : VariableBinding) : Prop :=
  ∀ name, Option.Rel (fun value other => value.equals other = true) (left.search name)
    (right.search name)

/-- Equal bindings to terms that equal themselves. -/
def EqualValues (left right : VariableBinding) : Prop :=
  left.Values SelfEqual ∧ right.Values SelfEqual ∧ left.Equals right

/-- A term equals one of two equal terms when it equals the other. -/
theorem ErlTerm.equals_congr_right {left right : ErlTerm} (same : left.equals right = true)
    (term : ErlTerm) : term.equals left = term.equals right := by
  have back : right.equals left = true := by
    rw [ErlTerm.equals_symm]
    exact same
  rw [Bool.eq_iff_iff]
  exact ⟨fun equal => equals_trans equal same, fun equal => equals_trans equal back⟩

theorem ErlTerm.equals_congr {left right other another : ErlTerm}
    (first : left.equals right = true) (second : other.equals another = true) :
    left.equals other = right.equals another := by
  calc left.equals other
      _ = left.equals another := equals_congr_right second left
      _ = another.equals left := ErlTerm.equals_symm left another
      _ = another.equals right := equals_congr_right first another
      _ = right.equals another := ErlTerm.equals_symm another right

theorem EqualValues.bind {left right : VariableBinding} (same : EqualValues left right)
    (mName : Bytes) {term other : ErlTerm} (self : SelfEqual term) (otherSelf : SelfEqual other)
    (equal : term.equals other = true) :
    EqualValues (left.bind mName term) (right.bind mName other) := by
  refine ⟨same.1.bind self mName, same.2.1.bind otherSelf mName, fun name => ?_⟩
  have known := same.2.2 name
  rw [VariableBinding.search_bind, VariableBinding.search_bind]
  cases found : left.search name with
  | none =>
      cases otherFound : right.search name with
      | none =>
          by_cases named : name = mName
          · rw [if_pos named, if_pos named]
            exact .some equal
          · rw [if_neg named, if_neg named]
            exact .none
      | some value =>
          rw [found, otherFound] at known
          cases known
  | some value =>
      cases otherFound : right.search name with
      | none =>
          rw [found, otherFound] at known
          cases known
      | some otherValue =>
          rw [found, otherFound] at known
          exact known

/-- A binding to terms that equal themselves equals itself. -/
theorem EqualValues.refl {binding : VariableBinding} (values : binding.Values SelfEqual) :
    EqualValues binding binding := by
  refine ⟨values, values, fun name => ?_⟩
  cases found : binding.search name with
  | none => exact .none
  | some value => exact .some (values name value found).equals_self

/-- What is added to one binding from two equal ones leaves two equal ones. -/
theorem EqualValues.merge {left right binding : VariableBinding} (same : EqualValues left right)
    (values : binding.Values SelfEqual) : (binding.merge left).Equals (binding.merge right) := by
  intro name
  rw [VariableBinding.search_merge, VariableBinding.search_merge]
  cases found : binding.search name with
  | none => exact same.2.2 name
  | some value => exact .some (values name value found).equals_self

/-- Two vectors of equal entries are matched alike when the entries are. -/
theorem matchEach_related {elems lefts rights : List ErlTerm}
    (related : ∀ elem ∈ elems, ∀ left right, SelfEqual left → SelfEqual right →
      left.equals right = true →
      Effect.Related EqualValues (patternMatch elem left) (patternMatch elem right))
    (leftSelf : ∀ left ∈ lefts, SelfEqual left) (rightSelf : ∀ right ∈ rights, SelfEqual right)
    (equal : equalElements lefts rights = true) :
    Effect.Related EqualValues (matchEach termMatch elems lefts)
      (matchEach termMatch elems rights) := by
  induction elems generalizing lefts rights with
  | nil =>
      rw [matchEach_nil, matchEach_nil]
      exact Effect.related_pure true
  | cons elem rest ih =>
      cases lefts with
      | nil =>
          cases rights with
          | nil =>
              rw [matchEach]
              exact Effect.related_pure false
          | cons right more => exact absurd equal (by simp)
      | cons left lefts =>
          cases rights with
          | nil => exact absurd equal (by simp)
          | cons right rights =>
              rw [equalElements_cons, Bool.and_eq_true] at equal
              rw [List.forall_mem_cons] at related leftSelf rightSelf
              rw [matchEach_cons, matchEach_cons]
              apply Effect.related_bind
                (related.1 left right leftSelf.1 rightSelf.1 equal.1)
              intro success
              cases success with
              | false => exact Effect.related_pure false
              | true => exact ih related.2 leftSelf.2 rightSelf.2 equal.2

/-- A variable against two equal terms: both are bound, or both are compared with equal values. -/
theorem patternMatch_erlVariable_related (mName : Bytes) {left right : ErlTerm}
    (leftSelf : SelfEqual left) (rightSelf : SelfEqual right)
    (equal : left.equals right = true) :
    Effect.Related EqualValues (patternMatch (.erlVariable mName) left)
      (patternMatch (.erlVariable mName) right) := by
  intro binding other same
  have known := same.2.2 mName
  unfold patternMatch
  rw [matchWith_erlVariable, matchWith_erlVariable]
  by_cases wild : mName = anonymous
  · rw [if_pos wild, if_pos wild]
    exact ⟨true, binding, other, rfl, rfl, same⟩
  · rw [if_neg wild, if_neg wild]
    cases found : binding.search mName with
    | none =>
        cases otherFound : other.search mName with
        | none => exact ⟨true, _, _, rfl, rfl, same.bind mName leftSelf rightSelf equal⟩
        | some otherValue =>
            rw [found, otherFound] at known
            cases known
    | some value =>
        cases otherFound : other.search mName with
        | none =>
            rw [found, otherFound] at known
            cases known
        | some otherValue =>
            rw [found, otherFound] at known
            cases known with
            | some equalValues =>
                have proper := (same.1 mName value found).1
                have otherProper := (same.2.1 mName otherValue otherFound).1
                have answers := equals_congr equalValues equal
                refine ⟨value.equals left, binding, other, ?_, ?_, same⟩
                · simp only [termMatch_equals proper]
                · simp only [termMatch_equals otherProper, answers]

/-- One pattern against two equal terms, under equal bindings. -/
theorem patternMatch_related (pattern : ErlTerm) {left right : ErlTerm} (leftSelf : SelfEqual left)
    (rightSelf : SelfEqual right) (equal : left.equals right = true) :
    Effect.Related EqualValues (patternMatch pattern left) (patternMatch pattern right) := by
  induction pattern generalizing left right with
  | simple value =>
      unfold patternMatch
      rw [matchWith_simple, matchWith_simple, equals_congr_right equal]
      exact Effect.related_pure _
  | erlTuple mInitialized mArity elems ih =>
      have leftParts := selfEqual_hereditary _ leftSelf
      have rightParts := selfEqual_hereditary _ rightSelf
      unfold patternMatch at ih ⊢
      cases left with
      | erlTuple leftFlag leftArity lefts =>
          cases right with
          | erlTuple rightFlag rightArity rights =>
              rw [equals_erlTuple, Bool.and_eq_true, Bool.and_eq_true] at equal
              have size := equalElements_length equal.2
              rw [matchWith, matchWith, equal.1.1, equal.1.2, size]
              split
              · exact matchEach_related (fun elem member _ _ => ih elem member) leftParts rightParts
                  equal.2
              · exact Effect.related_pure false
          | _ => exact absurd equal (by simp [equals])
      | _ =>
          cases right with
          | erlTuple rightFlag rightArity rights => exact absurd equal (by simp [equals])
          | _ =>
              simp only [matchWith]
              exact Effect.related_pure false
  | erlConsList mInitialized elems ih =>
      have leftParts := selfEqual_hereditary _ leftSelf
      have rightParts := selfEqual_hereditary _ rightSelf
      unfold patternMatch at ih ⊢
      cases left with
      | erlConsList leftFlag lefts =>
          cases right with
          | erlConsList rightFlag rights =>
              have long := cells_of_list rightSelf.1.2
              rw [equals_erlConsList, Bool.and_eq_true, Bool.and_eq_true] at equal
              have size := equalElements_length equal.2
              rw [matchWith, matchWith, equal.1.1, equal.1.2, size]
              split
              · rename_i same
                -- No term without variables is a list of a tail only.
                have more : elems.length ≠ 1 := by
                  simp only [Bool.and_eq_true, beq_iff_eq] at same
                  rw [same.2]
                  exact long
                rw [if_neg more, if_neg more]
                exact matchEach_related (fun elem member _ _ => ih elem member) leftParts rightParts
                  equal.2
              · exact Effect.related_pure false
          | _ => exact absurd equal (by simp [equals])
      | _ =>
          cases right with
          | erlConsList rightFlag rights => exact absurd equal (by simp [equals])
          | _ =>
              simp only [matchWith]
              exact Effect.related_pure false
  | erlVariable mName => exact patternMatch_erlVariable_related mName leftSelf rightSelf equal

/-- Equality of the terms that match is an equivalence, and a pattern does not tell equal terms
apart: it succeeds with both or with neither, and it leaves equal bindings. -/
theorem matchPattern_congruent :
    (∀ term : ErlTerm, SelfEqual term → term.equals term = true) ∧
    (∀ left right : ErlTerm, SelfEqual left → SelfEqual right → left.equals right = true →
      right.equals left = true) ∧
    (∀ first second third : ErlTerm, SelfEqual first → SelfEqual second → SelfEqual third →
      first.equals second = true → second.equals third = true → first.equals third = true) ∧
    ∀ (pattern left right : ErlTerm) (binding : VariableBinding) (fuel : Nat), pattern.Valid →
      SelfEqual left → SelfEqual right → left.equals right = true → binding.Values SelfEqual →
      left.matchDepth ≤ fuel → right.matchDepth ≤ fuel →
      ∃ success after otherAfter,
        pattern.matchPattern fuel left (some binding) = (.returns success, some after) ∧
        pattern.matchPattern fuel right (some binding) = (.returns success, some otherAfter) ∧
        after.Equals otherAfter := by
  refine ⟨fun term self => self.equals_self, ?_, ?_, ?_⟩
  · intro left right _ _ equal
    rw [ErlTerm.equals_symm]
    exact equal
  · intro first second third _ _ _ left right
    exact equals_trans left right
  · intro pattern left right binding fuel valid leftSelf rightSelf equal values enough otherEnough
    have storable : ((some binding).getD .empty).Values Storable :=
      fun name value known => (values name value known).1.storable
    obtain ⟨success, dirtyBinding, otherDirty, ran, otherRan, same⟩ :=
      patternMatch_related pattern leftSelf rightSelf equal binding binding (.refl values)
    rw [matchPattern_pattern valid leftSelf.1.1 storable enough,
      matchPattern_pattern valid rightSelf.1.1 storable otherEnough]
    unfold patternMatches onCopy
    simp only [Option.getD_some, ran, otherRan]
    cases success with
    | true => exact ⟨true, _, _, rfl, rfl, same.merge values⟩
    | false => exact ⟨false, binding, binding, rfl, rfl, (EqualValues.refl values).2.2⟩

/-- A pid of one process, of a node that was started so many times. -/
def pidOf (mCreation : BitVec 2) : ErlTerm :=
  .simple (.erlPid (some ⟨⟨text "node", by decide, by decide⟩, 1, 2, mCreation⟩))

theorem matchPattern_congruent_creations : ∃ success after otherAfter,
    (erlVariable (text "X")).matchPattern 3 (pidOf 0) (some .empty) =
      (.returns success, some after) ∧
    (erlVariable (text "X")).matchPattern 3 (pidOf 1) (some .empty) =
      (.returns success, some otherAfter) ∧
    after.Equals otherAfter :=
  matchPattern_congruent.2.2.2 (.erlVariable (text "X")) (pidOf 0) (pidOf 1) .empty 3 (by decide)
    ⟨⟨⟨by decide, by decide⟩, by decide⟩, by decide⟩
    ⟨⟨⟨by decide, by decide⟩, by decide⟩, by decide⟩ (by decide)
    (VariableBinding.values_empty _) (by decide) (by decide)

end Epi.Type
