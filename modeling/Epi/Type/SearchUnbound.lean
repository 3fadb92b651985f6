import Epi.Type.MatchCorrect
import Epi.Type.SubstCorrect

namespace Epi.Type

namespace ErlTerm

mutual

/-- A call of `searchUnbound` through an `ErlTerm` pointer, which gives the name of the variable.
The method of `ErlTuple` is `const`, so it does not override the one of the base class. -/
def searchUnbound (binding : Option VariableBinding) : ErlTerm → Option Bytes
  | .simple _ => none
  | .erlTuple _ _ _ => none
  | .erlConsList _ mElementVector => searchUnboundIn binding mElementVector
  | .erlVariable mName =>
      if mName = anonymous then none
      else
        match binding.bind (·.search mName) with
        | some _ => none
        | none => some mName

/-- The loop of `ErlConsList::searchUnbound` and of `ErlTuple::searchUnbound`. -/
def searchUnboundIn (binding : Option VariableBinding) : List ErlTerm → Option Bytes
  | [] => none
  | elem :: rest =>
      match searchUnbound binding elem with
      | some unbound => some unbound
      | none => searchUnboundIn binding rest

end

mutual

/-- The names of the variables that stand outside every tuple. -/
def namesOutsideTuples : ErlTerm → List Bytes
  | .simple _ => []
  | .erlTuple _ _ _ => []
  | .erlConsList _ elems => namesOutsideTuplesOf elems
  | .erlVariable mName => if mName = anonymous then [] else [mName]

def namesOutsideTuplesOf : List ErlTerm → List Bytes
  | [] => []
  | elem :: rest => elem.namesOutsideTuples ++ namesOutsideTuplesOf rest

end

end ErlTerm

/-- `ErlTuple::searchUnbound`, for a caller that has an `ErlTuple` pointer. -/
def ErlTuple.searchUnbound (binding : Option VariableBinding) (tuple : ErlTuple) : Option Bytes :=
  ErlTerm.searchUnboundIn binding tuple.mElementVector

namespace ErlTerm

section Names

variable {name : Bytes}

theorem mem_variableNamesOf {elems : List ErlTerm} :
    name ∈ variableNamesOf elems ↔ ∃ elem ∈ elems, name ∈ elem.variableNames := by
  induction elems with
  | nil => simp [variableNamesOf]
  | cons elem rest ih => simp [variableNamesOf, ih]

theorem mem_namesOutsideTuplesOf {elems : List ErlTerm} :
    name ∈ namesOutsideTuplesOf elems ↔ ∃ elem ∈ elems, name ∈ elem.namesOutsideTuples := by
  induction elems with
  | nil => simp [namesOutsideTuplesOf]
  | cons elem rest ih => simp [namesOutsideTuplesOf, ih]

theorem variableNames_of_outside {term : ErlTerm} (member : name ∈ term.namesOutsideTuples) :
    name ∈ term.variableNames := by
  induction term with
  | simple value => exact member
  | erlTuple mInitialized mArity elems ih =>
      rw [namesOutsideTuples] at member
      exact absurd member List.not_mem_nil
  | erlConsList mInitialized elems ih =>
      rw [namesOutsideTuples, mem_namesOutsideTuplesOf] at member
      obtain ⟨elem, inside, found⟩ := member
      rw [variableNames, mem_variableNamesOf]
      exact ⟨elem, inside, ih elem inside found⟩
  | erlVariable mName =>
      rw [namesOutsideTuples] at member
      rwa [variableNames]

end Names

section Search

variable {binding : Option VariableBinding}

/-- No value for the name. -/
def notBound (binding : Option VariableBinding) (name : Bytes) : Bool :=
  (binding.bind (·.search name)).isNone

theorem searchUnboundIn_eq {elems : List ErlTerm}
    (each : ∀ elem ∈ elems,
      elem.searchUnbound binding = elem.namesOutsideTuples.find? (notBound binding)) :
    searchUnboundIn binding elems = (namesOutsideTuplesOf elems).find? (notBound binding) := by
  induction elems with
  | nil => rfl
  | cons elem rest ih =>
      rw [List.forall_mem_cons] at each
      rw [searchUnboundIn, namesOutsideTuplesOf, List.find?_append, each.1, ih each.2]
      cases elem.namesOutsideTuples.find? (notBound binding) <;> rfl

/-- The search goes through the variables outside of tuples, in their order. -/
theorem searchUnbound_eq (term : ErlTerm) :
    term.searchUnbound binding = term.namesOutsideTuples.find? (notBound binding) := by
  induction term with
  | simple value => rfl
  | erlTuple mInitialized mArity elems ih => rfl
  | erlConsList mInitialized elems ih =>
      rw [searchUnbound, namesOutsideTuples]
      exact searchUnboundIn_eq ih
  | erlVariable mName =>
      rw [searchUnbound, namesOutsideTuples]
      split
      · rfl
      · cases found : binding.bind (·.search mName) <;> simp [notBound, found]

end Search

/-- The search says if every variable of the term is bound, and names one that is not. -/
def FindsUnbound (binding : VariableBinding) (term : ErlTerm) : Prop :=
  (term.searchUnbound (some binding) = none ↔
    ∀ name ∈ term.variableNames, ∃ value, binding.search name = some value) ∧
  ∀ name, term.searchUnbound (some binding) = some name →
    name ∈ term.variableNames ∧ binding.search name = none

/-- The search misses what stands in a tuple. It is right exactly when there is nothing to find, or
something to find outside of all tuples. -/
theorem findsUnbound_iff (binding : VariableBinding) (term : ErlTerm) :
    FindsUnbound binding term ↔
      (∀ name ∈ term.variableNames, ∃ value, binding.search name = some value) ∨
        ∃ name ∈ term.namesOutsideTuples, binding.search name = none := by
  have unbound : ∀ name, notBound (some binding) name = true ↔ binding.search name = none :=
    fun name => Option.isNone_iff_eq_none
  rw [FindsUnbound, searchUnbound_eq]
  cases found : term.namesOutsideTuples.find? (notBound (some binding)) with
  | none =>
      rw [List.find?_eq_none] at found
      have nothing : ¬ ∃ name ∈ term.namesOutsideTuples, binding.search name = none := by
        rintro ⟨name, member, missing⟩
        exact found name member ((unbound name).mpr missing)
      simp only [true_iff, nothing, or_false, reduceCtorEq, false_imp_iff, implies_true, and_true]
  | some name =>
      have member := List.mem_of_find?_eq_some found
      have missing := (unbound name).mp (List.find?_some found)
      have inside := variableNames_of_outside member
      simp only [reduceCtorEq, false_iff, Option.some.injEq]
      refine ⟨fun _ => .inr ⟨name, member, missing⟩, fun _ => ⟨fun bound => ?_, ?_⟩⟩
      · obtain ⟨value, known⟩ := bound name inside
        exact Option.some_ne_none value (known.symm.trans missing)
      · rintro _ rfl
        exact ⟨inside, missing⟩

/-- A variable in a tuple is not found. -/
theorem findsUnbound_not : ¬ ∀ (term : ErlTerm) (binding : VariableBinding), term.Valid →
    Named term → term.Celled → binding.Values Ground → FindsUnbound binding term := by
  intro finds
  have right := finds (.erlTuple true (some 1) [.erlVariable (text "X")]) .empty (by decide)
    (by decide) (by decide) (VariableBinding.values_empty _)
  obtain ⟨value, known⟩ := right.1.mp rfl (text "X") (by decide)
  cases known

end ErlTerm

/-- An `ErlTuple` pointer leads to the variables of the elements that are no tuples. -/
theorem ErlTuple.searchUnbound_eq (binding : Option VariableBinding) (tuple : ErlTuple) :
    tuple.searchUnbound binding =
      (ErlTerm.namesOutsideTuplesOf tuple.mElementVector).find? (ErlTerm.notBound binding) :=
  ErlTerm.searchUnboundIn_eq fun elem _ => elem.searchUnbound_eq

end Epi.Type
