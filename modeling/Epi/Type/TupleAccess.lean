import Epi.Type.Compound
import Epi.Library.Run

namespace Epi.Type

open Verification

namespace ErlTuple

/-- The loop of `init(ErlTerm*[], unsigned int)`. Behind the array nothing is defined. -/
def initFrom (elems : List (Option ErlTerm)) : Nat → Nat → Method ErlTuple Unit
  | 0, _ => pure ()
  | remaining + 1, index => do
      match elems[index]? with
      | some elem => do
          initElement elem
          initFrom elems remaining (index + 1)
      | none => Effect.lift .aborts

/-- `ErlTuple::init(ErlTerm*[], unsigned int)`. -/
def initElements (elems : List (Option ErlTerm)) (arity : Nat) : Method ErlTuple Unit :=
  Method.throwsOnly [.epiBadArgument, .epiAlreadyInitialized] do
    init arity
    Effect.mapOutcome (Call.catching .epiInvalidTerm fun _ => .returns ())
      (initFrom elems arity 0)

end ErlTuple

/-- The calls that build a tuple. The null pointer is an absent element. -/
inductive TupleCall where
  | init (arity : Nat)
  | initElements (elems : List (Option ErlTerm)) (arity : Nat)
  | initElement (elem : Option ErlTerm)

namespace TupleCall

def run : TupleCall → Method ErlTuple Unit
  | init arity => ErlTuple.init arity
  | initElements elems arity => ErlTuple.initElements elems arity
  | initElement elem => ErlTuple.initElement elem

/-- The arity that a call declares, if it comes so far. -/
def declares (tuple : ErlTuple) : TupleCall → Option Nat
  | init arity | initElements _ arity =>
      if (ErlTuple.init arity tuple).1.succeeds then some arity else none
  | initElement _ => none

/-- The element that one call of `initElement` adds. -/
def addsOne (tuple : ErlTuple) (elem : Option ErlTerm) : List ErlTerm :=
  if (ErlTuple.initElement elem tuple).1.succeeds then elem.toList else []

/-- The elements that the calls of `initElement` in the loop add. The first failure ends it. -/
def addsFrom (elems : List (Option ErlTerm)) : Nat → Nat → ErlTuple → List ErlTerm
  | 0, _, _ => []
  | remaining + 1, index, tuple =>
      match elems[index]? with
      | some elem =>
          if (ErlTuple.initElement elem tuple).1.succeeds then
            elem.toList ++
              addsFrom elems remaining (index + 1) (ErlTuple.initElement elem tuple).2
          else
            []
      | none => []

def adds (tuple : ErlTuple) : TupleCall → List ErlTerm
  | init _ => []
  | initElements elems arity =>
      if (ErlTuple.init arity tuple).1.succeeds then
        addsFrom elems arity 0 (ErlTuple.init arity tuple).2
      else
        []
  | initElement elem => addsOne tuple elem

end TupleCall

/-- A tuple with the history of its building. -/
structure Building where
  tuple : ErlTuple
  declared : Option Nat
  added : List ErlTerm

namespace Building

def start : Building := ⟨.uninitialized, none, []⟩

/-- A call, failing or not. A call that ends the process leaves no tuple. -/
def Step : Transition Building TupleCall := fun building call after =>
  (call.run building.tuple).1 ≠ .aborts ∧
    after = {
      tuple := (call.run building.tuple).2
      declared := building.declared.or (call.declares building.tuple)
      added := building.added ++ call.adds building.tuple }

/-- What `elementAt` is to do for an index: the error for an undeclared tuple, for an index outside
of it, for an element that is not there yet, or else the element itself. -/
def Exact (building : Building) (index : Nat) (access : Call ErlTerm) : Prop :=
  match building.declared with
  | none => ∃ msg, access = .throws ⟨.epiInvalidTerm, msg⟩
  | some arity =>
      if index ≥ arity then
        ∃ msg, access = .throws ⟨.epiBadArgument, msg⟩
      else
        match building.added[index]? with
        | none => ∃ msg, access = .throws ⟨.epiInvalidTerm, msg⟩
        | some elem => access = .returns elem

end Building

namespace ErlTuple

/-- The tuple holds the arity and the elements of its history, and its flag says if they agree. -/
structure Records (declared : Option Nat) (added : List ErlTerm) (tuple : ErlTuple) : Prop where
  arity : tuple.mArity = declared
  elements : tuple.mElementVector = added
  undeclared : declared = none → added = []
  room : ∀ arity, declared = some arity → added.length ≤ arity
  flag : tuple.mInitialized = true ↔ declared = some added.length

section Records

variable {declared : Option Nat} {added : List ErlTerm} {tuple : ErlTuple}

theorem Records.not_initialized (records : Records none added tuple) :
    tuple.mInitialized = false := by
  have flag := records.flag
  simpa using flag

/-- The arity is declared once. -/
theorem Records.init (records : Records declared added tuple) (arity : Nat) :
    Records (declared.or ((TupleCall.init arity).declares tuple)) added (init arity tuple).2 := by
  have known := records.arity
  cases declared with
  | some before =>
      have refused : (tuple.mInitialized || tuple.mArity.isSome) = true := by simp [known]
      simp only [ErlTuple.init, refused, if_true]
      exact records
  | none =>
      have accepted : (tuple.mInitialized || tuple.mArity.isSome) = false := by
        simp [known, records.not_initialized]
      have empty := records.undeclared rfl
      subst empty
      simp only [ErlTuple.init, TupleCall.declares, accepted, Bool.false_eq_true, if_false,
        Outcome.succeeds_returns, if_true, Option.none_or]
      exact ⟨rfl, records.elements, nofun, fun _ _ => Nat.zero_le _, by simp⟩

/-- An element is added behind the others, if there is room for it. -/
theorem Records.initElement (records : Records declared added tuple) (elem : Option ErlTerm) :
    Records declared (added ++ TupleCall.addsOne tuple elem) (initElement elem tuple).2 := by
  have known := records.arity
  by_cases full : tuple.mInitialized = true
  · simpa [ErlTuple.initElement, TupleCall.addsOne, full] using records
  · rw [Bool.not_eq_true] at full
    cases declared with
    | none => simpa [ErlTuple.initElement, TupleCall.addsOne, full, known] using records
    | some arity =>
        cases elem with
        | none => simpa [ErlTuple.initElement, TupleCall.addsOne, full, known] using records
        | some elem =>
            by_cases valid : elem.isValid = true
            · have elements := records.elements
              have below : added.length < arity := by
                have room := records.room arity rfl
                have flag := records.flag
                simp only [full, Bool.false_eq_true, Option.some.injEq, false_iff] at flag
                omega
              simp only [ErlTuple.initElement, TupleCall.addsOne, full, known, valid, elements,
                Bool.false_eq_true, if_false, if_true, Outcome.succeeds_returns]
              exact {
                arity := rfl
                elements := rfl
                undeclared := nofun
                room := by
                  rintro _ ⟨⟩
                  simpa using below
                flag := by
                  rw [beq_iff_eq, Option.some.injEq, List.length_append]
                  exact eq_comm }
            · simpa [ErlTuple.initElement, TupleCall.addsOne, full, known, valid] using records

/-- The loop adds one element after another, up to the first that is refused. -/
theorem Records.initFrom (elems : List (Option ErlTerm)) (remaining index : Nat)
    (records : Records declared added tuple) :
    Records declared (added ++ TupleCall.addsFrom elems remaining index tuple)
      (initFrom elems remaining index tuple).2 := by
  induction remaining generalizing index added tuple with
  | zero => simpa [ErlTuple.initFrom, TupleCall.addsFrom] using records
  | succ remaining ih =>
      simp only [ErlTuple.initFrom, TupleCall.addsFrom]
      cases elems[index]? with
      | none => simpa using records
      | some elem =>
          have one := records.initElement elem
          rcases ran : ErlTuple.initElement elem tuple with ⟨outcome, after⟩
          simp only [TupleCall.addsOne, ran] at one
          dsimp only
          rw [Effect.bind_run, ran]
          cases outcome with
          | returns value =>
              rw [Outcome.succeeds_returns, if_pos rfl] at one ⊢
              rw [← List.append_assoc]
              exact ih (index + 1) one
          | _ => exact one

theorem Records.initElements (elems : List (Option ErlTerm)) (arity : Nat)
    (records : Records declared added tuple) :
    Records (declared.or ((TupleCall.initElements elems arity).declares tuple))
      (added ++ (TupleCall.initElements elems arity).adds tuple)
      (initElements elems arity tuple).2 := by
  have first := records.init arity
  rcases ran : ErlTuple.init arity tuple with ⟨outcome, after⟩
  simp only [TupleCall.declares, TupleCall.adds, ran] at first ⊢
  simp only [ErlTuple.initElements, Method.throwsOnly, Effect.mapOutcome_run]
  rw [Effect.bind_run, ran]
  cases outcome with
  | returns value => exact first.initFrom elems arity 0
  | _ => simpa using first

end Records

end ErlTuple

namespace Building

variable {building : Building} {calls : List TupleCall}

/-- A tuple holds what its history says after every sequence of calls. -/
theorem recorded (run : Run (· = start) Step calls building) :
    building.tuple.Records building.declared building.added := by
  induction run with
  | start initial =>
      subst initial
      exact ⟨rfl, rfl, fun _ => rfl, nofun, by simp [start, ErlTuple.uninitialized]⟩
  | @step calls before after call _ taken records =>
      obtain ⟨-, rfl⟩ := taken
      cases call with
      | init arity => simpa [TupleCall.run, TupleCall.adds] using records.init arity
      | initElements elems arity => exact records.initElements elems arity
      | initElement elem =>
          simpa [TupleCall.run, TupleCall.declares, TupleCall.adds] using records.initElement elem

/-- Access is exact for every index but two: the one right behind the declared arity and the one
right behind the elements that are there. -/
theorem elementAt_exact_iff (run : Run (· = start) Step calls building) (index : Nat) :
    building.Exact index (building.tuple.elementAt index) ↔
      ∀ arity, building.declared = some arity →
        index ≠ arity ∧ index ≠ building.added.length := by
  have records := recorded run
  rw [ErlTuple.elementAt, records.arity, records.elements, Exact]
  cases declared : building.declared with
  | none =>
      refine ⟨fun _ arity same => ?_, fun _ => ⟨_, rfl⟩⟩
      cases same
  | some arity =>
      have room := records.room arity declared
      simp only [Option.some.injEq, forall_eq']
      rcases lt_trichotomy index arity with inside | behind | outside
      · rw [if_neg (by omega), if_neg (by omega)]
        rcases lt_trichotomy index building.added.length with there | next | missing
        · rw [if_neg (by omega), List.getElem?_eq_getElem there]
          simp only [true_iff]
          exact ⟨by omega, by omega⟩
        · rw [if_neg (by omega), List.getElem?_eq_none (by omega)]
          simp [next]
        · rw [if_pos missing, List.getElem?_eq_none (by omega)]
          exact ⟨fun _ => ⟨by omega, by omega⟩, fun _ => ⟨_, rfl⟩⟩
      · rw [if_pos (by omega), if_neg (by omega)]
        simp only [behind, ne_eq, not_true_eq_false, false_and, iff_false]
        rintro ⟨msg, thrown⟩
        split at thrown
        · cases thrown
        · split at thrown <;> cases thrown
      · rw [if_pos (by omega), if_pos outside]
        exact ⟨fun _ => ⟨by omega, by omega⟩, fun _ => ⟨_, rfl⟩⟩

/-- The tuple of the empty list. -/
def singleton : Building :=
  ⟨⟨true, some 1, [.simple .erlEmptyList]⟩, some 1, [.simple .erlEmptyList]⟩

theorem run_singleton : Run (· = start) Step
    ([] ++ [.init 1] ++ [.initElement (some (.simple .erlEmptyList))]) singleton := by
  have first : Run (· = start) Step ([] ++ [.init 1]) ⟨⟨false, some 1, []⟩, some 1, []⟩ :=
    .step (.start rfl) ⟨nofun, rfl⟩
  exact .step first ⟨nofun, rfl⟩

/-- A tuple of arity 3 with its first element. -/
def oneOfThree : Building :=
  ⟨⟨false, some 3, [.simple .erlEmptyList]⟩, some 3, [.simple .erlEmptyList]⟩

theorem run_oneOfThree : Run (· = start) Step
    ([] ++ [.init 3] ++ [.initElement (some (.simple .erlEmptyList))]) oneOfThree := by
  have first : Run (· = start) Step ([] ++ [.init 3]) ⟨⟨false, some 3, []⟩, some 3, []⟩ :=
    .step (.start rfl) ⟨nofun, rfl⟩
  exact .step first ⟨nofun, rfl⟩

/-- Of the tuple, the position right behind the element and the one right behind the arity are the
exceptions. -/
theorem elementAt_exact_partly : oneOfThree.Exact 0 (oneOfThree.tuple.elementAt 0) ∧
    oneOfThree.Exact 2 (oneOfThree.tuple.elementAt 2) ∧
    ¬ oneOfThree.Exact 1 (oneOfThree.tuple.elementAt 1) ∧
    ¬ oneOfThree.Exact 3 (oneOfThree.tuple.elementAt 3) := by
  refine ⟨?_, ?_, ?_, ?_⟩
  · exact (elementAt_exact_iff run_oneOfThree 0).mpr (by simp [oneOfThree])
  · exact (elementAt_exact_iff run_oneOfThree 2).mpr (by simp [oneOfThree])
  · rw [elementAt_exact_iff run_oneOfThree 1]
    simp [oneOfThree]
  · rw [elementAt_exact_iff run_oneOfThree 3]
    simp [oneOfThree]

/-- The position behind the only element is read. -/
theorem elementAt_not_exact : ¬ ∀ building calls, Run (· = start) Step calls building →
    ∀ index, building.Exact index (building.tuple.elementAt index) := by
  intro exact
  obtain ⟨msg, thrown⟩ := exact singleton _ run_singleton 1
  cases thrown

end Building

end Epi.Type
