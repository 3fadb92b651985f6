import Epi.Type.Binding
import Epi.Type.Compound

namespace Epi.Type

open Verification

/-- The term that `subst` returns, and whether it is the pointer of the term itself. -/
structure Substituted where
  term : ErlTerm
  same : Bool
  deriving Repr

namespace ErlTerm

mutual

/-- The `subst` methods. A binding never holds the variable that it is asked for. -/
def subst (binding : Option VariableBinding) : ErlTerm → Call Substituted
  | .simple value =>
      if value.isValid then .returns ⟨.simple value, true⟩
      else .throws (.invalidTerm "Element is not initialized")
  | .erlTuple mInitialized mArity mElementVector =>
      Call.throwsOnly [.epiInvalidTerm, .epiVariableUnbound] do
        let tuple : ErlTuple := ⟨mInitialized, mArity, mElementVector⟩
        let arity ← tuple.arity
        match substTuple binding mElementVector false (ErlTuple.ofArity arity) with
        | (outcome, newTuple) => do
            let change ← outcome
            return if change then ⟨newTuple.toTerm, false⟩ else ⟨tuple.toTerm, true⟩
  | .erlConsList mInitialized mElementVector =>
      Call.throwsOnly [.epiInvalidTerm, .epiVariableUnbound] <|
        match substConsList binding mElementVector false ErlConsList.uninitialized with
        | (outcome, newList) => do
            let change ← outcome
            return if change then ⟨newList.toTerm, false⟩
              else ⟨.erlConsList mInitialized mElementVector, true⟩
  | .erlVariable mName =>
      if mName = anonymous then
        .throws (.variableUnbound anonymous)
      else
        match binding.bind (·.search mName) with
        | some term => .returns ⟨term, false⟩
        | none => .throws (.variableUnbound mName)

/-- The loop of `ErlTuple::subst` over the new tuple. -/
def substTuple (binding : Option VariableBinding) : List ErlTerm → Bool → Method ErlTuple Bool
  | [], change => pure change
  | elem :: rest, change => do
      let newElem ← Effect.lift (subst binding elem)
      ErlTuple.initElement (some newElem.term)
      substTuple binding rest (change || !newElem.same)

/-- The loop of `ErlConsList::subst` over the new list. The flag rises at an unchanged cell. -/
def substConsList (binding : Option VariableBinding) :
    List ErlTerm → Bool → Method ErlConsList Bool
  | [], change => pure change
  | elem :: rest, change => do
      let newElem ← Effect.lift (subst binding elem)
      if rest.isEmpty then ErlConsList.close (some newElem.term)
      else ErlConsList.addElement (some newElem.term)
      substConsList binding rest (change || newElem.same)

end

end ErlTerm

namespace ErlTuple

/-- A tuple under construction with these elements. -/
def holding (arity : Nat) (elems : List ErlTerm) : ErlTuple :=
  ⟨elems.length == arity, some arity, elems⟩

theorem ofArity_eq (arity : Nat) : ofArity arity = holding arity [] := by
  simp only [ofArity, init, uninitialized, holding, Option.isSome_none, Bool.or_self,
    Bool.false_eq_true, if_false, List.length_nil]
  rw [Bool.beq_comm]

/-- A valid element is appended while there is room. -/
theorem initElement_holding (arity : Nat) (elems : List ErlTerm) {elem : ErlTerm}
    (room : elems.length < arity) (valid : elem.isValid = true) :
    initElement (some elem) (holding arity elems) =
      (.returns (), holding arity (elems ++ [elem])) := by
  have missing : (elems.length == arity) = false := by
    rw [beq_eq_false_iff_ne]
    omega
  simp [initElement, holding, missing, valid]

end ErlTuple

namespace ErlConsList

/-- A valid element is appended to an open list. -/
theorem addElement_open (elems : List ErlTerm) {elem : ErlTerm} (valid : elem.isValid = true) :
    addElement (some elem) ⟨false, elems⟩ = (.returns (), ⟨false, elems ++ [elem]⟩) := by
  simp [addElement, valid]

/-- A tail that is not a list cell ends the vector. -/
theorem close_plain (elems : List ErlTerm) {elem : ErlTerm} (valid : elem.isValid = true)
    (plain : elem.isConsList = false) :
    close (some elem) ⟨false, elems⟩ = (.returns (), ⟨true, elems ++ [elem]⟩) := by
  have added := addElement_open elems valid
  cases elem with
  | erlConsList mInitialized cells => exact absurd plain (by simp [ErlTerm.isConsList])
  | _ =>
      simp only [close, closeWithin, valid, Method.throwsOnly, Effect.mapOutcome_run,
        Bool.not_true, Bool.false_eq_true, if_false]
      rw [Effect.bind_of_returns added]
      rfl

end ErlConsList

namespace ErlTerm

variable {binding : Option VariableBinding} {result : ErlTerm → ErlTerm}
  {keeps : ErlTerm → Bool}

/-- Each of these elements is substituted by a valid term. -/
def SubstEach (binding : Option VariableBinding) (result : ErlTerm → ErlTerm)
    (keeps : ErlTerm → Bool) (elems : List ErlTerm) : Prop :=
  ∀ elem ∈ elems, elem.subst binding = .returns ⟨result elem, keeps elem⟩ ∧
    (result elem).isValid = true

theorem substTuple_each {elems : List ErlTerm} (each : SubstEach binding result keeps elems)
    {arity : Nat} (done : List ErlTerm) (room : done.length + elems.length ≤ arity)
    (change : Bool) :
    substTuple binding elems change (ErlTuple.holding arity done) =
      (.returns (change || !elems.all keeps),
        ErlTuple.holding arity (done ++ elems.map result)) := by
  induction elems generalizing done change with
  | nil => simp [substTuple]
  | cons elem rest ih =>
      obtain ⟨substituted, valid⟩ := each elem List.mem_cons_self
      have later : SubstEach binding result keeps rest :=
        fun other member => each other (List.mem_cons_of_mem _ member)
      simp only [List.length_cons] at room
      have stored := ErlTuple.initElement_holding arity done (by omega) valid
      have roomLater : (done ++ [result elem]).length + rest.length ≤ arity := by
        simp only [List.length_append, List.length_singleton]
        omega
      have run := ih later (done ++ [result elem]) roomLater (change || !keeps elem)
      rw [substTuple, Effect.bind_run, substituted, Effect.lift_run]
      simp only
      rw [Effect.bind_of_returns stored, run]
      simp only [List.append_assoc, List.singleton_append, List.map_cons, List.all_cons]
      rw [Bool.not_and, Bool.or_assoc]

theorem substConsList_each {cells : List ErlTerm} {last : ErlTerm}
    (each : SubstEach binding result keeps (cells ++ [last])) (done : List ErlTerm)
    (plain : (result last).isConsList = false) (change : Bool) :
    substConsList binding (cells ++ [last]) change ⟨false, done⟩ =
      (.returns (change || (cells ++ [last]).any keeps),
        ⟨true, done ++ (cells ++ [last]).map result⟩) := by
  induction cells generalizing done change with
  | nil =>
      obtain ⟨substituted, valid⟩ := each last (by simp)
      have closed := ErlConsList.close_plain done valid plain
      rw [List.nil_append, substConsList, Effect.bind_run, substituted, Effect.lift_run]
      simp only [List.isEmpty_nil, if_true]
      rw [Effect.bind_of_returns closed]
      simp [substConsList]
  | cons elem rest ih =>
      obtain ⟨substituted, valid⟩ := each elem (by simp)
      have later : SubstEach binding result keeps (rest ++ [last]) :=
        fun other member => each other (List.mem_cons_of_mem _ member)
      have added := ErlConsList.addElement_open done valid
      have run := ih later (done ++ [result elem]) (change || keeps elem)
      have more : (rest ++ [last]).isEmpty = false := by simp
      rw [List.cons_append, substConsList, Effect.bind_run, substituted, Effect.lift_run]
      simp only [more, Bool.false_eq_true, if_false]
      rw [Effect.bind_of_returns added, run]
      simp only [List.append_assoc, List.singleton_append, List.map_cons, List.any_cons]
      rw [Bool.or_assoc]

/-- The substitution of a tuple, from the substitutions of its elements. -/
theorem subst_erlTuple {elems : List ErlTerm} (each : SubstEach binding result keeps elems) :
    (erlTuple true (some elems.length) elems).subst binding = .returns
      (if elems.all keeps then ⟨.erlTuple true (some elems.length) elems, true⟩
      else ⟨.erlTuple true (some elems.length) (elems.map result), false⟩) := by
  have room : ([] : List ErlTerm).length + elems.length ≤ elems.length := by simp
  have run := substTuple_each each [] room false
  rw [← ErlTuple.ofArity_eq] at run
  simp only [subst, ErlTuple.arity, Outcome.returns_bind, run]
  cases elems.all keeps <;> simp [ErlTuple.toTerm, ErlTuple.holding]

/-- The substitution of a list whose new tail is not a list cell. -/
theorem subst_erlConsList {cells : List ErlTerm} {last : ErlTerm}
    (each : SubstEach binding result keeps (cells ++ [last]))
    (plain : (result last).isConsList = false) :
    (erlConsList true (cells ++ [last])).subst binding = .returns
      (if (cells ++ [last]).any keeps then
        ⟨.erlConsList true ((cells ++ [last]).map result), false⟩
      else ⟨.erlConsList true (cells ++ [last]), true⟩) := by
  have run := substConsList_each each [] plain false
  have start : ErlConsList.uninitialized = ⟨false, []⟩ := rfl
  simp only [subst, start, run]
  cases (cells ++ [last]).any keeps <;> simp [ErlConsList.toTerm]

/-- A valid term without variables is its own substitution. -/
theorem subst_ground {term : ErlTerm} (valid : term.Valid) (ground : term.Ground)
    (binding : Option VariableBinding) :
    ∃ same, term.subst binding = .returns ⟨term, same⟩ := by
  induction term with
  | simple value =>
      rw [Valid, every_simple] at valid
      have flag : value.isValid = true := valid
      exact ⟨true, by rw [subst, if_pos flag]⟩
  | erlTuple mInitialized mArity elems ih =>
      obtain ⟨flag, size, parts⟩ := valid_erlTuple.mp valid
      have grounds := ((every_erlTuple ..).mp ground).2
      subst flag size
      have known := fun elem member => ih elem member (parts elem member) (grounds elem member)
      choose! keeps each using known
      have substEach : SubstEach binding id keeps elems :=
        fun elem member => ⟨each elem member, (parts elem member).isValid⟩
      refine ⟨elems.all keeps, (subst_erlTuple substEach).trans ?_⟩
      cases elems.all keeps <;> simp
  | erlConsList mInitialized elems ih =>
      obtain ⟨flag, closed, parts⟩ := valid_erlConsList.mp valid
      have grounds := ((every_erlConsList ..).mp ground).2
      obtain ⟨cells, last, same, plain⟩ := closedBy_split closed
      subst flag
      have known := fun elem member => ih elem member (parts elem member) (grounds elem member)
      choose! keeps each using known
      rw [same] at each parts ⊢
      have substEach : SubstEach binding id keeps (cells ++ [last]) :=
        fun elem member => ⟨each elem member, (parts elem member).isValid⟩
      refine ⟨!(cells ++ [last]).any keeps, (subst_erlConsList substEach plain).trans ?_⟩
      cases (cells ++ [last]).any keeps <;> simp
  | erlVariable mName => exact absurd ground (by simp [Ground, isVariable])

end ErlTerm

end Epi.Type
