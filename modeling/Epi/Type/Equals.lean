import Epi.Type.Term

namespace Epi.Type

open Verification

/-- The nodes and the numbers are compared, the creation is not. -/
def ErlPid.equals (left right : ErlPid) : Bool :=
  left.mNode == right.mNode && left.mId == right.mId && left.mSerial == right.mSerial

def ErlPort.equals (left right : ErlPort) : Bool :=
  left.mNode == right.mNode && left.mId == right.mId

/-- The other ids belong to the new style only. -/
def ErlRef.equals (left right : ErlRef) : Bool :=
  right.mNewStyle == left.mNewStyle && left.mNode == right.mNode && left.mId0 == right.mId0 &&
    (!left.mNewStyle || (left.mId1 == right.mId1 && left.mId2 == right.mId2))

/-- The `==` of the value types of the library. -/
def sameValue {Value : Type} [DecidableEq Value] (left right : Value) : Bool :=
  decide (left = right)

/-- Two initialized values are compared, an uninitialized term equals nothing. -/
def equalsWhenValid {Value : Type} (same : Value → Value → Bool) :
    Option Value → Option Value → Bool
  | some left, some right => same left right
  | _, _ => false

/-- The `equals` methods of the classes without elements. -/
def SimpleTerm.equals : SimpleTerm → SimpleTerm → Bool
  | .erlAtom left, .erlAtom right => equalsWhenValid sameValue left right
  | .erlLong left, .erlLong right => equalsWhenValid sameValue left right
  | .erlDouble left, .erlDouble right => equalsWhenValid Binary64.equals left right
  | .erlString left, .erlString right => equalsWhenValid sameValue left right
  | .erlRef left, .erlRef right => equalsWhenValid ErlRef.equals left right
  | .erlPort left, .erlPort right => equalsWhenValid ErlPort.equals left right
  | .erlPid left, .erlPid right => equalsWhenValid ErlPid.equals left right
  | .erlBinary left, .erlBinary right => equalsWhenValid sameValue left right
  | .erlEmptyList, .erlEmptyList => true
  | _, _ => false

namespace ErlTerm

mutual

/-- The `equals` methods. A variable equals nothing. -/
def equals : ErlTerm → ErlTerm → Bool
  | .simple left, term =>
      match term with
      | .simple right => left.equals right
      | _ => false
  | .erlTuple leftValid _ left, term =>
      match term with
      | .erlTuple rightValid _ right => leftValid && rightValid && equalElements left right
      | _ => false
  | .erlConsList leftValid left, term =>
      match term with
      | .erlConsList rightValid right => leftValid && rightValid && equalElements left right
      | _ => false
  | .erlVariable _, _ => false

/-- The vectors have one size and equal entries. -/
def equalElements : List ErlTerm → List ErlTerm → Bool
  | [], right => right.isEmpty
  | left :: leftRest, right =>
      match right with
      | [] => false
      | head :: rightRest => equals left head && equalElements leftRest rightRest

end

@[simp] theorem equals_simple (left right : SimpleTerm) :
    (simple left).equals (.simple right) = left.equals right := by rw [equals]

@[simp] theorem equals_erlVariable (mName : Bytes) (term : ErlTerm) :
    (erlVariable mName).equals term = false := by rw [equals]

theorem equals_erlTuple (leftValid rightValid : Bool) (leftArity rightArity : Option Nat)
    (left right : List ErlTerm) :
    (erlTuple leftValid leftArity left).equals (.erlTuple rightValid rightArity right) =
      (leftValid && rightValid && equalElements left right) := by rw [equals]

theorem equals_erlConsList (leftValid rightValid : Bool) (left right : List ErlTerm) :
    (erlConsList leftValid left).equals (.erlConsList rightValid right) =
      (leftValid && rightValid && equalElements left right) := by rw [equals]

@[simp] theorem equalElements_nil : equalElements [] [] = true := rfl

@[simp] theorem equalElements_cons (left right : ErlTerm) (leftRest rightRest : List ErlTerm) :
    equalElements (left :: leftRest) (right :: rightRest) =
      (left.equals right && equalElements leftRest rightRest) := by rw [equalElements]

@[simp] theorem equalElements_nil_cons (right : ErlTerm) (rightRest : List ErlTerm) :
    equalElements [] (right :: rightRest) = false := rfl

@[simp] theorem equalElements_cons_nil (left : ErlTerm) (leftRest : List ErlTerm) :
    equalElements (left :: leftRest) [] = false := by rw [equalElements]

theorem equalElements_length {left right : List ErlTerm}
    (same : equalElements left right = true) : left.length = right.length := by
  induction left generalizing right with
  | nil =>
      cases right with
      | nil => rfl
      | cons head rest => simp at same
  | cons elem rest ih =>
      cases right with
      | nil => simp at same
      | cons head others =>
          simp only [equalElements_cons, Bool.and_eq_true] at same
          simp only [List.length_cons, ih same.2]

end ErlTerm

theorem equalsWhenValid_symm {Value : Type} (same : Value → Value → Bool)
    (symm : ∀ left right, same left right = same right left) (left right : Option Value) :
    equalsWhenValid same left right = equalsWhenValid same right left := by
  cases left <;> cases right <;> simp only [equalsWhenValid, symm]

theorem equalsWhenValid_trans {Value : Type} (same : Value → Value → Bool)
    (trans : ∀ {first second third}, same first second = true → same second third = true →
      same first third = true) {first second third : Option Value}
    (left : equalsWhenValid same first second = true)
    (right : equalsWhenValid same second third = true) :
    equalsWhenValid same first third = true := by
  cases first with
  | none => exact absurd left (by simp [equalsWhenValid])
  | some first =>
      cases second with
      | none => exact absurd left (by simp [equalsWhenValid])
      | some second =>
          cases third with
          | none => exact absurd right (by simp [equalsWhenValid])
          | some third => exact trans left right

theorem ErlPid.equals_symm (left right : ErlPid) : left.equals right = right.equals left := by
  simp only [ErlPid.equals, Bool.beq_comm (a := left.mNode), Bool.beq_comm (a := left.mId),
    Bool.beq_comm (a := left.mSerial)]

theorem ErlPort.equals_symm (left right : ErlPort) : left.equals right = right.equals left := by
  simp only [ErlPort.equals, Bool.beq_comm (a := left.mNode), Bool.beq_comm (a := left.mId)]

theorem ErlRef.equals_symm (left right : ErlRef) : left.equals right = right.equals left := by
  simp only [ErlRef.equals, Bool.beq_comm (a := left.mNode), Bool.beq_comm (a := left.mId0),
    Bool.beq_comm (a := left.mId1), Bool.beq_comm (a := left.mId2)]
  by_cases styles : left.mNewStyle = right.mNewStyle
  · rw [styles]
  · have other : right.mNewStyle ≠ left.mNewStyle := fun same => styles same.symm
    simp [beq_eq_false_iff_ne.mpr styles, beq_eq_false_iff_ne.mpr other]

theorem ErlPid.equals_trans {first second third : ErlPid} (left : first.equals second = true)
    (right : second.equals third = true) : first.equals third = true := by
  simp only [ErlPid.equals, Bool.and_eq_true, beq_iff_eq] at left right ⊢
  exact ⟨⟨left.1.1.trans right.1.1, left.1.2.trans right.1.2⟩, left.2.trans right.2⟩

theorem ErlPort.equals_trans {first second third : ErlPort} (left : first.equals second = true)
    (right : second.equals third = true) : first.equals third = true := by
  simp only [ErlPort.equals, Bool.and_eq_true, beq_iff_eq] at left right ⊢
  exact ⟨left.1.trans right.1, left.2.trans right.2⟩

theorem ErlRef.equals_trans {first second third : ErlRef} (left : first.equals second = true)
    (right : second.equals third = true) : first.equals third = true := by
  simp only [ErlRef.equals, Bool.and_eq_true, Bool.or_eq_true, Bool.not_eq_true',
    beq_iff_eq] at left right ⊢
  obtain ⟨⟨⟨leftStyle, leftNode⟩, leftId⟩, leftRest⟩ := left
  obtain ⟨⟨⟨rightStyle, rightNode⟩, rightId⟩, rightRest⟩ := right
  refine ⟨⟨⟨rightStyle.trans leftStyle, leftNode.trans rightNode⟩, leftId.trans rightId⟩, ?_⟩
  rcases leftRest with old | leftIds
  · exact .inl old
  · rcases rightRest with old | rightIds
    · exact .inl (leftStyle ▸ old)
    · exact .inr ⟨leftIds.1.trans rightIds.1, leftIds.2.trans rightIds.2⟩

theorem sameValue_symm {Value : Type} [DecidableEq Value] (left right : Value) :
    sameValue left right = sameValue right left := by
  simp only [sameValue, eq_comm]

theorem sameValue_trans {Value : Type} [DecidableEq Value] {first second third : Value}
    (left : sameValue first second = true) (right : sameValue second third = true) :
    sameValue first third = true := by
  simp only [sameValue, decide_eq_true_eq] at left right ⊢
  exact left.trans right

theorem SimpleTerm.equals_symm (left right : SimpleTerm) :
    left.equals right = right.equals left := by
  -- Two different classes are never equal, so only the nine diagonal cases say something.
  cases left <;> cases right <;> try rfl
  · exact equalsWhenValid_symm sameValue sameValue_symm _ _
  · exact equalsWhenValid_symm sameValue sameValue_symm _ _
  · exact equalsWhenValid_symm Binary64.equals Binary64.equals_symm _ _
  · exact equalsWhenValid_symm sameValue sameValue_symm _ _
  · exact equalsWhenValid_symm ErlRef.equals ErlRef.equals_symm _ _
  · exact equalsWhenValid_symm ErlPort.equals ErlPort.equals_symm _ _
  · exact equalsWhenValid_symm ErlPid.equals ErlPid.equals_symm _ _
  · exact equalsWhenValid_symm sameValue sameValue_symm _ _

theorem SimpleTerm.equals_trans {first second third : SimpleTerm}
    (left : first.equals second = true) (right : second.equals third = true) :
    first.equals third = true := by
  cases first <;> cases second <;> try exact absurd left Bool.false_ne_true
  all_goals cases third <;> try exact absurd right Bool.false_ne_true
  · exact equalsWhenValid_trans sameValue sameValue_trans left right
  · exact equalsWhenValid_trans sameValue sameValue_trans left right
  · exact equalsWhenValid_trans Binary64.equals Binary64.equals_trans left right
  · exact equalsWhenValid_trans sameValue sameValue_trans left right
  · exact equalsWhenValid_trans ErlRef.equals ErlRef.equals_trans left right
  · exact equalsWhenValid_trans ErlPort.equals ErlPort.equals_trans left right
  · exact equalsWhenValid_trans ErlPid.equals ErlPid.equals_trans left right
  · exact equalsWhenValid_trans sameValue sameValue_trans left right
  · rfl

theorem equalsWhenValid_self {Value : Type} (same : Value → Value → Bool)
    (self : ∀ value, same value value = true) {value : Option Value}
    (valid : value.isSome = true) : equalsWhenValid same value value = true := by
  obtain ⟨value, rfl⟩ := Option.isSome_iff_exists.mp valid
  exact self value

theorem sameValue_self {Value : Type} [DecidableEq Value] (value : Value) :
    sameValue value value = true := by
  simp [sameValue]

/-- A valid simple term equals itself exactly when it is not a NaN. -/
theorem SimpleTerm.equals_self {value : SimpleTerm} (valid : value.isValid = true) :
    value.equals value = ErlTerm.numberNode (.simple value) := by
  cases value with
  | erlAtom mAtom => exact equalsWhenValid_self sameValue sameValue_self valid
  | erlLong mValue => exact equalsWhenValid_self sameValue sameValue_self valid
  | erlDouble mValue =>
      obtain ⟨mValue, rfl⟩ := Option.isSome_iff_exists.mp valid
      exact Binary64.equals_self mValue
  | erlString mString => exact equalsWhenValid_self sameValue sameValue_self valid
  | erlRef ref => exact equalsWhenValid_self ErlRef.equals (by simp [ErlRef.equals]) valid
  | erlPort port => exact equalsWhenValid_self ErlPort.equals (by simp [ErlPort.equals]) valid
  | erlPid pid => exact equalsWhenValid_self ErlPid.equals (by simp [ErlPid.equals]) valid
  | erlBinary mData => exact equalsWhenValid_self sameValue sameValue_self valid
  | erlEmptyList => rfl

namespace ErlTerm

theorem equalElements_symm {left : List ErlTerm}
    (symm : ∀ elem ∈ left, ∀ other, elem.equals other = other.equals elem)
    (right : List ErlTerm) : equalElements left right = equalElements right left := by
  induction left generalizing right with
  | nil => cases right <;> simp
  | cons elem rest ih =>
      cases right with
      | nil => simp
      | cons head others =>
          have headSame := symm elem (by simp) head
          have restSame := ih (fun elem member => symm elem (by simp [member])) others
          rw [equalElements_cons, equalElements_cons, headSame, restSame]

theorem equals_symm (left right : ErlTerm) : left.equals right = right.equals left := by
  induction left generalizing right with
  | simple value =>
      cases right with
      | simple other => simp only [equals_simple, SimpleTerm.equals_symm value other]
      | _ => simp only [equals]
  | erlTuple leftValid leftArity elems ih =>
      cases right with
      | erlTuple rightValid rightArity others =>
          rw [equals_erlTuple, equals_erlTuple, equalElements_symm ih others,
            Bool.and_comm leftValid]
      | _ => simp only [equals]
  | erlConsList leftValid elems ih =>
      cases right with
      | erlConsList rightValid others =>
          rw [equals_erlConsList, equals_erlConsList, equalElements_symm ih others,
            Bool.and_comm leftValid]
      | _ => simp only [equals]
  | erlVariable mName => cases right <;> simp only [equals]

theorem equalElements_trans {first : List ErlTerm}
    (trans : ∀ elem ∈ first, ∀ {second third}, elem.equals second = true →
      second.equals third = true → elem.equals third = true)
    {second third : List ErlTerm} (left : equalElements first second = true)
    (right : equalElements second third = true) : equalElements first third = true := by
  induction first generalizing second third with
  | nil =>
      cases second with
      | nil => exact right
      | cons head rest => exact absurd left (by simp)
  | cons elem rest ih =>
      cases second with
      | nil => exact absurd left (by simp)
      | cons head others =>
          cases third with
          | nil => exact absurd right (by simp)
          | cons last more =>
              rw [equalElements_cons, Bool.and_eq_true] at left right ⊢
              refine ⟨trans elem (by simp) left.1 right.1, ?_⟩
              exact ih (fun elem member => trans elem (by simp [member])) left.2 right.2

theorem equals_trans {first second third : ErlTerm} (left : first.equals second = true)
    (right : second.equals third = true) : first.equals third = true := by
  induction first generalizing second third with
  | simple value =>
      cases second with
      | simple other =>
          cases third with
          | simple last =>
              rw [equals_simple] at left right ⊢
              exact SimpleTerm.equals_trans left right
          | _ => exact absurd right (by simp [equals])
      | _ => exact absurd left (by simp [equals])
  | erlTuple firstValid firstArity elems ih =>
      cases second with
      | erlTuple secondValid secondArity others =>
          cases third with
          | erlTuple thirdValid thirdArity last =>
              rw [equals_erlTuple, Bool.and_eq_true, Bool.and_eq_true] at left right ⊢
              refine ⟨⟨left.1.1, right.1.2⟩, equalElements_trans ?_ left.2 right.2⟩
              exact fun elem member => ih elem member
          | _ => exact absurd right (by simp [equals])
      | _ => exact absurd left (by simp [equals])
  | erlConsList firstValid elems ih =>
      cases second with
      | erlConsList secondValid others =>
          cases third with
          | erlConsList thirdValid last =>
              rw [equals_erlConsList, Bool.and_eq_true, Bool.and_eq_true] at left right ⊢
              refine ⟨⟨left.1.1, right.1.2⟩, equalElements_trans ?_ left.2 right.2⟩
              exact fun elem member => ih elem member
          | _ => exact absurd right (by simp [equals])
      | _ => exact absurd left (by simp [equals])
  | erlVariable mName => exact absurd left (by simp)

theorem equalElements_self {elems : List ErlTerm} :
    equalElements elems elems = true ↔ ∀ elem ∈ elems, elem.equals elem = true := by
  induction elems with
  | nil => simp
  | cons elem rest ih => simp [ih]

/-- A valid term without variables equals itself exactly when all its doubles are numbers. -/
theorem equals_self {term : ErlTerm} (valid : term.Valid) (ground : term.Ground) :
    term.equals term = true ↔ term.Numeric := by
  induction term with
  | simple value =>
      rw [equals_simple, Numeric, every_simple, SimpleTerm.equals_self]
      rwa [Valid, every_simple] at valid
  | erlTuple mInitialized mArity elems ih =>
      obtain ⟨flag, -, parts⟩ := valid_erlTuple.mp valid
      have grounds := ((every_erlTuple ..).mp ground).2
      rw [equals_erlTuple, flag, Numeric, every_erlTuple]
      simp only [Bool.and_self, Bool.true_and, numberNode, true_and, equalElements_self]
      exact forall₂_congr fun elem member => ih elem member (parts elem member) (grounds elem member)
  | erlConsList mInitialized elems ih =>
      obtain ⟨flag, -, parts⟩ := valid_erlConsList.mp valid
      have grounds := ((every_erlConsList ..).mp ground).2
      rw [equals_erlConsList, flag, Numeric, every_erlConsList]
      simp only [Bool.and_self, Bool.true_and, numberNode, true_and, equalElements_self]
      exact forall₂_congr fun elem member => ih elem member (parts elem member) (grounds elem member)
  | erlVariable mName => exact absurd ground (by simp [Ground, isVariable])

end ErlTerm

end Epi.Type
