import Epi.Error
import Epi.Library.Binary64

namespace Epi.Type

open Verification

def maxHostnameLength : Nat := 64

def maxAliveLength : Nat := 63

def maxAtomLength : Nat := 255

def maxNodeLength : Nat := maxAliveLength + maxHostnameLength + 1

/-- The text of an initialized atom passed the checks of `ErlAtom::init`. -/
structure AtomText where
  text : Bytes
  nonempty : 0 < text.length
  bounded : text.length ≤ maxAtomLength
  deriving DecidableEq, Repr

/-- The node of an initialized pid, port or reference passed the checks of its `init`. -/
structure NodeName where
  text : Bytes
  nonempty : 0 < text.length
  bounded : text.length ≤ maxNodeLength
  deriving DecidableEq, Repr

/-- The masks leave 18, 13 and 2 bits. -/
structure ErlPid where
  mNode : NodeName
  mId : BitVec 18
  mSerial : BitVec 13
  mCreation : BitVec 2
  deriving DecidableEq, Repr

structure ErlPort where
  mNode : NodeName
  mId : BitVec 18
  mCreation : BitVec 2
  deriving DecidableEq, Repr

/-- Only the first id is masked. An old style reference leaves the other two unset, and nothing
reads them. -/
structure ErlRef where
  mNode : NodeName
  mId0 : BitVec 18
  mId1 : BitVec 32
  mId2 : BitVec 32
  mCreation : BitVec 2
  mNewStyle : Bool
  unset : mNewStyle = false → mId1 = 0 ∧ mId2 = 0
  deriving DecidableEq, Repr

/-- `ErlAtom::init` on a new atom. -/
def AtomText.init (atom : Bytes) : Call AtomText :=
  if long : atom.length > maxAtomLength then
    .throws (.badArgument "Atom must not exceed 255 characters")
  else if empty : atom.length = 0 then
    .throws (.badArgument "Atom must be non-empty")
  else
    .returns ⟨atom, Nat.pos_of_ne_zero empty, Nat.le_of_not_gt long⟩

/-- The node check that `ErlPid::init`, `ErlPort::init` and `ErlRef::init` share. -/
def NodeName.check (node : Bytes) : Call NodeName :=
  if long : node.length > maxNodeLength then
    .throws (.badArgument "Node name must not exceed 128 characters")
  else if empty : node.length = 0 then
    .throws (.badArgument "nodename must be non-empty")
  else
    .returns ⟨node, Nat.pos_of_ne_zero empty, Nat.le_of_not_gt long⟩

theorem AtomText.init_text (atom : AtomText) : AtomText.init atom.text = .returns atom := by
  have nonempty := atom.nonempty
  have bounded := atom.bounded
  rw [init, dif_neg (by omega), dif_neg (by omega)]

theorem AtomText.text_of_init {atom : Bytes} {mAtom : AtomText}
    (checked : AtomText.init atom = .returns mAtom) : mAtom.text = atom := by
  unfold AtomText.init at checked
  split at checked
  · cases checked
  · split at checked
    · cases checked
    · cases checked
      rfl

theorem NodeName.check_text (node : NodeName) : NodeName.check node.text = .returns node := by
  have nonempty := node.nonempty
  have bounded := node.bounded
  rw [check, dif_neg (by omega), dif_neg (by omega)]

theorem NodeName.text_of_check {node : Bytes} {name : NodeName}
    (checked : NodeName.check node = .returns name) : name.text = node := by
  unfold NodeName.check at checked
  split at checked
  · cases checked
  · split at checked
    · cases checked
    · cases checked
      rfl

/-- `ErlPid::init` on a new pid. -/
def ErlPid.init (node : Bytes) (id serial creation : Nat) : Call ErlPid := do
  let mNode ← NodeName.check node
  return ⟨mNode, .ofNat 18 id, .ofNat 13 serial, .ofNat 2 creation⟩

/-- `ErlPort::init` on a new port. -/
def ErlPort.init (node : Bytes) (id creation : Nat) : Call ErlPort := do
  let mNode ← NodeName.check node
  return ⟨mNode, .ofNat 18 id, .ofNat 2 creation⟩

/-- `ErlRef::init` on a new reference. -/
def ErlRef.init (node : Bytes) (ids : BitVec 32 × BitVec 32 × BitVec 32) (creation : Nat)
    (newStyle : Bool) : Call ErlRef := do
  let mNode ← NodeName.check node
  return {
    mNode := mNode
    mId0 := ids.1.setWidth 18
    mId1 := if newStyle then ids.2.1 else 0
    mId2 := if newStyle then ids.2.2 else 0
    mCreation := .ofNat 2 creation
    mNewStyle := newStyle
    unset := by
      intro old
      simp [old] }

/-- The classes without elements inherit `match` and `subst` from the base class.
An absent value is an uninitialized term. -/
inductive SimpleTerm where
  | erlAtom (mAtom : Option AtomText)
  | erlLong (mValue : Option (BitVec 64))
  | erlDouble (mValue : Option Binary64)
  | erlString (mString : Option Bytes)
  | erlRef (ref : Option ErlRef)
  | erlPort (port : Option ErlPort)
  | erlPid (pid : Option ErlPid)
  | erlBinary (mData : Option Bytes)
  | erlEmptyList
  deriving DecidableEq, Repr

/-- A term. The vector of an `ErlConsList` ends with the tail. -/
inductive ErlTerm where
  | simple (value : SimpleTerm)
  | erlTuple (mInitialized : Bool) (mArity : Option Nat) (mElementVector : List ErlTerm)
  | erlConsList (mInitialized : Bool) (mElementVector : List ErlTerm)
  | erlVariable (mName : Bytes)
  deriving Repr

inductive TermType where
  | erlAtom
  | erlLong
  | erlInt
  | erlDouble
  | erlString
  | erlRef
  | erlPort
  | erlPid
  | erlBinary
  | erlTuple
  | erlList
  | erlEmptyList
  | erlConsList
  | erlVariable
  deriving DecidableEq, Repr

def SimpleTerm.isValid : SimpleTerm → Bool
  | .erlAtom mAtom => mAtom.isSome
  | .erlLong mValue => mValue.isSome
  | .erlDouble mValue => mValue.isSome
  | .erlString mString => mString.isSome
  | .erlRef ref => ref.isSome
  | .erlPort port => port.isSome
  | .erlPid pid => pid.isSome
  | .erlBinary mData => mData.isSome
  | .erlEmptyList => true

def SimpleTerm.termType : SimpleTerm → TermType
  | .erlAtom _ => .erlAtom
  | .erlLong _ => .erlLong
  | .erlDouble _ => .erlDouble
  | .erlString _ => .erlString
  | .erlRef _ => .erlRef
  | .erlPort _ => .erlPort
  | .erlPid _ => .erlPid
  | .erlBinary _ => .erlBinary
  | .erlEmptyList => .erlEmptyList

/-- The name of the variable that matches everything. -/
def anonymous : Bytes := [95]

namespace ErlTerm

@[elab_as_elim, induction_eliminator]
theorem structural {Holds : ErlTerm → Prop} (simple : ∀ value, Holds (.simple value))
    (erlTuple : ∀ mInitialized mArity mElementVector, (∀ elem ∈ mElementVector, Holds elem) →
      Holds (.erlTuple mInitialized mArity mElementVector))
    (erlConsList : ∀ mInitialized mElementVector, (∀ elem ∈ mElementVector, Holds elem) →
      Holds (.erlConsList mInitialized mElementVector))
    (erlVariable : ∀ mName, Holds (.erlVariable mName)) (term : ErlTerm) : Holds term :=
  ErlTerm.rec (motive_1 := Holds) (motive_2 := fun terms => ∀ elem ∈ terms, Holds elem)
    simple erlTuple erlConsList erlVariable (List.forall_mem_nil _)
    (fun _ _ head rest elem member => by
      rcases List.mem_cons.mp member with same | later
      · exact same ▸ head
      · exact rest elem later) term

def isValid : ErlTerm → Bool
  | .simple value => value.isValid
  | .erlTuple mInitialized _ _ => mInitialized
  | .erlConsList mInitialized _ => mInitialized
  | .erlVariable _ => true

def termType : ErlTerm → TermType
  | .simple value => value.termType
  | .erlTuple _ _ _ => .erlTuple
  | .erlConsList _ _ => .erlConsList
  | .erlVariable _ => .erlVariable

/-- Both list classes answer to their own type and to `ERL_LIST`. -/
def instanceOf (term : ErlTerm) (type : TermType) : Bool :=
  term.termType == type ||
    (type == .erlList && (term.termType == .erlEmptyList || term.termType == .erlConsList))

def isConsList : ErlTerm → Bool
  | .erlConsList _ _ => true
  | _ => false

def isVariable : ErlTerm → Bool
  | .erlVariable _ => true
  | _ => false

theorem instanceOf_erlVariable (term : ErlTerm) :
    term.instanceOf .erlVariable = term.isVariable := by
  cases term with
  | simple value => cases value <;> rfl
  | _ => rfl

mutual

/-- The check holds at a term and at every term below it. -/
def every (check : ErlTerm → Bool) : ErlTerm → Bool
  | .simple value => check (.simple value)
  | .erlTuple mInitialized mArity mElementVector =>
      check (.erlTuple mInitialized mArity mElementVector) && everyElement check mElementVector
  | .erlConsList mInitialized mElementVector =>
      check (.erlConsList mInitialized mElementVector) && everyElement check mElementVector
  | .erlVariable mName => check (.erlVariable mName)

def everyElement (check : ErlTerm → Bool) : List ErlTerm → Bool
  | [] => true
  | elem :: rest => every check elem && everyElement check rest

end

theorem everyElement_iff (check : ErlTerm → Bool) (elems : List ErlTerm) :
    everyElement check elems = true ↔ ∀ elem ∈ elems, elem.every check = true := by
  induction elems with
  | nil => simp [everyElement]
  | cons elem rest ih => simp [everyElement, ih]

@[simp] theorem every_simple (check : ErlTerm → Bool) (value : SimpleTerm) :
    (simple value).every check = check (.simple value) := by rw [every]

@[simp] theorem every_erlVariable (check : ErlTerm → Bool) (mName : Bytes) :
    (erlVariable mName).every check = check (.erlVariable mName) := by rw [every]

@[simp] theorem every_erlTuple (check : ErlTerm → Bool) (mInitialized : Bool)
    (mArity : Option Nat) (elems : List ErlTerm) :
    (erlTuple mInitialized mArity elems).every check = true ↔
      check (.erlTuple mInitialized mArity elems) = true ∧
        ∀ elem ∈ elems, elem.every check = true := by
  rw [every, Bool.and_eq_true, everyElement_iff]

@[simp] theorem every_erlConsList (check : ErlTerm → Bool) (mInitialized : Bool)
    (elems : List ErlTerm) :
    (erlConsList mInitialized elems).every check = true ↔
      check (.erlConsList mInitialized elems) = true ∧
        ∀ elem ∈ elems, elem.every check = true := by
  rw [every, Bool.and_eq_true, everyElement_iff]

/-- A check of every term holds at the top term. -/
theorem every_self {check : ErlTerm → Bool} {term : ErlTerm} (holds : term.every check = true) :
    check term = true := by
  cases term with
  | simple value => rwa [every_simple] at holds
  | erlTuple mInitialized mArity elems => exact ((every_erlTuple ..).mp holds).1
  | erlConsList mInitialized elems => exact ((every_erlConsList ..).mp holds).1
  | erlVariable mName => rwa [every_erlVariable] at holds

/-- A weaker check holds wherever a stronger one does. -/
theorem every_imp {check other : ErlTerm → Bool}
    (weaker : ∀ term, check term = true → other term = true) {term : ErlTerm}
    (holds : term.every check = true) : term.every other = true := by
  induction term with
  | simple value =>
      rw [every_simple] at holds ⊢
      exact weaker _ holds
  | erlTuple mInitialized mArity elems ih =>
      rw [every_erlTuple] at holds ⊢
      exact ⟨weaker _ holds.1, fun elem member => ih elem member (holds.2 elem member)⟩
  | erlConsList mInitialized elems ih =>
      rw [every_erlConsList] at holds ⊢
      exact ⟨weaker _ holds.1, fun elem member => ih elem member (holds.2 elem member)⟩
  | erlVariable mName =>
      rw [every_erlVariable] at holds ⊢
      exact weaker _ holds

/-- A vector closed by `close` has a last entry, and that entry is not a list cell. -/
def closedBy (elems : List ErlTerm) : Bool :=
  match elems.getLast? with
  | some last => !last.isConsList
  | none => false

/-- The invariants that the public operations leave at a valid term. -/
def validNode : ErlTerm → Bool
  | .simple value => value.isValid
  | .erlTuple mInitialized mArity elems => mInitialized && mArity == some elems.length
  | .erlConsList mInitialized elems => mInitialized && closedBy elems
  | .erlVariable _ => true

/-- A valid term: its parts are valid terms again. -/
def Valid (term : ErlTerm) : Prop := term.every validNode = true

instance (term : ErlTerm) : Decidable term.Valid := inferInstanceAs (Decidable (_ = true))

/-- A term without variables. -/
def Ground (term : ErlTerm) : Prop := term.every (fun part => !part.isVariable) = true

instance (term : ErlTerm) : Decidable term.Ground := inferInstanceAs (Decidable (_ = true))

def cellNode : ErlTerm → Bool
  | .erlConsList _ elems => 2 ≤ elems.length
  | _ => true

/-- Every list has at least one element before its tail. -/
def Celled (term : ErlTerm) : Prop := term.every cellNode = true

instance (term : ErlTerm) : Decidable term.Celled := inferInstanceAs (Decidable (_ = true))

def numberNode : ErlTerm → Bool
  | .simple (.erlDouble (some mValue)) => !mValue.isNaN
  | _ => true

/-- Every double is a number. -/
def Numeric (term : ErlTerm) : Prop := term.every numberNode = true

instance (term : ErlTerm) : Decidable term.Numeric := inferInstanceAs (Decidable (_ = true))

def plainTailNode : ErlTerm → Bool
  | .erlConsList _ elems => !(elems.getLast?.any isVariable)
  | _ => true

/-- No list ends in a variable. -/
def PlainTails (term : ErlTerm) : Prop := term.every plainTailNode = true

instance (term : ErlTerm) : Decidable term.PlainTails := inferInstanceAs (Decidable (_ = true))

/-- A term that the public operations can leave behind, complete or not. -/
def Built : ErlTerm → Prop
  | .simple _ => True
  | .erlTuple mInitialized mArity elems =>
      (∀ elem ∈ elems, elem.Valid) ∧
        match mArity with
        | none => mInitialized = false ∧ elems = []
        | some arity => elems.length ≤ arity ∧ (mInitialized = true ↔ elems.length = arity)
  | .erlConsList mInitialized elems =>
      (∀ elem ∈ elems, elem.Valid) ∧ (mInitialized = true → closedBy elems = true)
  | .erlVariable _ => True

theorem Valid.isValid {term : ErlTerm} (valid : term.Valid) : term.isValid = true := by
  have here := every_self valid
  cases term with
  | simple value => exact here
  | erlTuple mInitialized mArity elems =>
      simp only [validNode, Bool.and_eq_true] at here
      exact here.1
  | erlConsList mInitialized elems =>
      simp only [validNode, Bool.and_eq_true] at here
      exact here.1
  | erlVariable mName => rfl

theorem valid_erlTuple {mInitialized : Bool} {mArity : Option Nat} {elems : List ErlTerm} :
    (erlTuple mInitialized mArity elems).Valid ↔
      mInitialized = true ∧ mArity = some elems.length ∧ ∀ elem ∈ elems, elem.Valid := by
  simp only [Valid, every_erlTuple, validNode, Bool.and_eq_true, beq_iff_eq, and_assoc]

theorem valid_erlConsList {mInitialized : Bool} {elems : List ErlTerm} :
    (erlConsList mInitialized elems).Valid ↔
      mInitialized = true ∧ closedBy elems = true ∧ ∀ elem ∈ elems, elem.Valid := by
  simp only [Valid, every_erlConsList, validNode, Bool.and_eq_true, and_assoc]

/-- A built term whose flag says so is valid below as well. -/
theorem Built.valid {term : ErlTerm} (built : term.Built) (flag : term.isValid = true) :
    term.Valid := by
  cases term with
  | simple value =>
      rw [Valid, every_simple]
      exact flag
  | erlTuple mInitialized mArity elems =>
      obtain ⟨parts, shape⟩ := built
      have here : mInitialized = true := flag
      subst here
      cases mArity with
      | none => exact absurd shape.1 (by decide)
      | some arity => exact valid_erlTuple.mpr ⟨rfl, by rw [shape.2.mp rfl], parts⟩
  | erlConsList mInitialized elems =>
      have here : mInitialized = true := flag
      subst here
      exact valid_erlConsList.mpr ⟨rfl, built.2 rfl, built.1⟩
  | erlVariable mName =>
      rw [Valid, every_erlVariable]
      rfl

/-- A valid term is one that the public operations can leave behind. -/
theorem Valid.built {term : ErlTerm} (valid : term.Valid) : term.Built := by
  cases term with
  | simple value => trivial
  | erlTuple mInitialized mArity elems =>
      obtain ⟨flag, size, parts⟩ := valid_erlTuple.mp valid
      subst flag size
      exact ⟨parts, le_refl _, by simp⟩
  | erlConsList mInitialized elems =>
      obtain ⟨-, closed, parts⟩ := valid_erlConsList.mp valid
      exact ⟨parts, fun _ => closed⟩
  | erlVariable mName => trivial

/-- A vector closed by `close` is its elements and then its tail. -/
theorem closedBy_split {elems : List ErlTerm} (closed : closedBy elems = true) :
    ∃ cells tail, elems = cells ++ [tail] ∧ tail.isConsList = false := by
  rcases List.eq_nil_or_concat elems with empty | ⟨cells, tail, same⟩
  · subst empty
    exact absurd closed (by decide)
  · subst same
    refine ⟨cells, tail, by simp, ?_⟩
    simpa [closedBy] using closed

theorem closedBy_append {cells : List ErlTerm} {tail : ErlTerm} :
    closedBy (cells ++ [tail]) = !tail.isConsList := by
  simp [closedBy]

end ErlTerm

end Epi.Type
