import Epi.Library.Effect
import Epi.Type.Equals

namespace Epi

/-- A member function that changes its object. -/
abbrev Method (Object Value : Type) := Verification.Effect Object EpiException Value

/-- The exception specification of a member function. -/
def Method.throwsOnly {Object Value : Type} (listed : List ExceptionClass)
    (call : Method Object Value) : Method Object Value :=
  Verification.Effect.mapOutcome (Call.throwsOnly listed) call

end Epi

namespace Epi.Type

open Verification

/-- The result of unsigned arithmetic below zero. -/
def unsignedPred (value : Nat) : Nat := if value = 0 then 2 ^ 32 - 1 else value - 1

/-- The fields of an `ErlTuple`. An absent arity is an undefined one. -/
structure ErlTuple where
  mInitialized : Bool
  mArity : Option Nat
  mElementVector : List ErlTerm

/-- The fields of an `ErlConsList`. -/
structure ErlConsList where
  mInitialized : Bool
  mElementVector : List ErlTerm

namespace ErlTuple

def toTerm (tuple : ErlTuple) : ErlTerm :=
  .erlTuple tuple.mInitialized tuple.mArity tuple.mElementVector

/-- The constructor without arguments. -/
def uninitialized : ErlTuple := ⟨false, none, []⟩

/-- `ErlTuple::init(unsigned int)`. -/
def init (arity : Nat) : Method ErlTuple Unit := fun tuple =>
  if tuple.mInitialized || tuple.mArity.isSome then
    (.throws (.alreadyInitialized "Tuple already initialized"), tuple)
  else
    (.returns (), { tuple with mArity := some arity, mInitialized := arity == 0 })

/-- The constructor with an arity. -/
def ofArity (arity : Nat) : ErlTuple := (init arity uninitialized).2

def arity (tuple : ErlTuple) : Call Nat :=
  match tuple.mArity with
  | some arity => .returns arity
  | none => .throws (.invalidTerm "Arity not defined")

/-- `ErlTuple::initElement`. The null pointer is an absent element. -/
def initElement (elem : Option ErlTerm) : Method ErlTuple Unit := fun tuple =>
  if tuple.mInitialized then
    (.throws (.alreadyInitialized "All elements are initialized"), tuple)
  else
    match tuple.mArity with
    | none => (.throws (.invalidTerm "Tuple arity is not initialized"), tuple)
    | some arity =>
        match elem with
        | none => (.throws (.badArgument "Element is invalid"), tuple)
        | some elem =>
            if elem.isValid then
              (.returns (), { tuple with
                mElementVector := tuple.mElementVector ++ [elem]
                mInitialized := tuple.mElementVector.length + 1 == arity })
            else
              (.throws (.badArgument "Element is invalid"), tuple)

/-- `ErlTuple::elementAt`. Both bounds let one position too many through,
and a read behind the vector has no defined result. -/
def elementAt (tuple : ErlTuple) (index : Nat) : Call ErlTerm :=
  match tuple.mArity with
  | none => .throws (.invalidTerm "Tuple not initialized")
  | some arity =>
      if index > arity then
        .throws (.badArgument "Index out of range [0..arity]")
      else if index > tuple.mElementVector.length then
        .throws (.invalidTerm "Element is not initialized")
      else
        match tuple.mElementVector[index]? with
        | some elem => .returns elem
        | none => .aborts

end ErlTuple

namespace ErlConsList

def toTerm (list : ErlConsList) : ErlTerm := .erlConsList list.mInitialized list.mElementVector

/-- The constructor without arguments. -/
def uninitialized : ErlConsList := ⟨false, []⟩

/-- The size of the vector minus one, computed without a sign. -/
def arity (list : ErlConsList) : Nat := unsignedPred list.mElementVector.length

/-- `ErlConsList::addElement`. -/
def addElement (elem : Option ErlTerm) : Method ErlConsList Unit := fun list =>
  match elem with
  | none => (.throws (.badArgument "Element is invalid"), list)
  | some elem =>
      if !elem.isValid then
        (.throws (.badArgument "Element is invalid"), list)
      else if list.mInitialized then
        (.throws (.alreadyInitialized "list is closed"), list)
      else
        (.returns (), { list with mElementVector := list.mElementVector ++ [elem] })

/-- `ErlConsList::elementAt`. -/
def elementAt (list : ErlConsList) (index : Nat) : Call ErlTerm :=
  if !list.mInitialized then
    .throws (.invalidTerm "List is invalid")
  else if index ≥ list.arity then
    .throws (.badArgument "Index out of range")
  else
    match list.mElementVector[index]? with
    | some elem => .returns elem
    | none => .aborts

/-- `ErlConsList::tail`. -/
def tail (list : ErlConsList) (index : Nat) : Call ErlTerm :=
  if !list.mInitialized then
    .throws (.invalidTerm "List is invalid")
  else if index ≥ list.arity then
    .throws (.badArgument "Index grater than arity")
  else if index < unsignedPred list.arity then
    .returns (.erlConsList list.mInitialized (list.mElementVector.drop (index + 1)))
  else
    match list.mElementVector.getLast? with
    | some last => .returns last
    | none => .aborts

/-- The loop of `close` over the elements of another list. -/
def addElementsOf (cons : ErlConsList) : Nat → Nat → Method ErlConsList Unit
  | 0, _ => pure ()
  | remaining + 1, index => do
      let elem ← Effect.lift (cons.elementAt index)
      addElement (some elem)
      addElementsOf cons remaining (index + 1)

/-- `ErlConsList::close`, with a bound on the calls that it nests. -/
def closeWithin : Nat → Option ErlTerm → Method ErlConsList Unit
  | 0, _ => Effect.lift .diverges
  | fuel + 1, elem =>
      Method.throwsOnly [.epiBadArgument, .epiAlreadyInitialized] <|
        match elem with
        | none => Effect.fail (.badArgument "Element is invalid")
        | some elem =>
            if !elem.isValid then
              Effect.fail (.badArgument "Element is invalid")
            else
              match elem with
              | .erlConsList mInitialized mElementVector => do
                  let cons : ErlConsList := ⟨mInitialized, mElementVector⟩
                  addElementsOf cons cons.arity 0
                  let rest ← Effect.lift (cons.tail cons.arity)
                  closeWithin fuel (some rest)
              | other => do
                  addElement (some other)
                  let list ← Effect.get
                  Effect.set { list with mInitialized := true }

/-- `ErlConsList::close`. The tail asked for inside is never handed out, so two calls suffice. -/
def close (elem : Option ErlTerm) : Method ErlConsList Unit := closeWithin 2 elem

end ErlConsList

theorem unsignedPred_succ (value : Nat) : unsignedPred (value + 1) = value := by
  simp [unsignedPred]

theorem ErlConsList.arity_concat (mInitialized : Bool) (cells : List ErlTerm) (last : ErlTerm) :
    ErlConsList.arity ⟨mInitialized, cells ++ [last]⟩ = cells.length := by
  simp [ErlConsList.arity, unsignedPred_succ]

/-- The last tail is handed out if there is an element before it. -/
theorem ErlConsList.tail_concat {cells : List ErlTerm} (last : ErlTerm) (some : cells ≠ []) :
    ErlConsList.tail ⟨true, cells ++ [last]⟩ (unsignedPred cells.length) = .returns last := by
  obtain ⟨count, size⟩ : ∃ count, cells.length = count + 1 :=
    Nat.exists_eq_succ_of_ne_zero (by simpa using some)
  simp only [ErlConsList.tail, ErlConsList.arity_concat, size, unsignedPred_succ]
  simp

/-- There is no tail behind an empty list of elements. -/
theorem ErlConsList.tail_alone (last : ErlTerm) :
    ErlConsList.tail ⟨true, [last]⟩ (unsignedPred 0) =
      .throws (.badArgument "Index grater than arity") := by
  have arity := ErlConsList.arity_concat true [] last
  simp only [List.nil_append, List.length_nil] at arity
  simp [ErlConsList.tail, arity]

theorem ErlTuple.elementAt_complete {elems : List ErlTerm} {index : Nat} {elem : ErlTerm}
    (found : elems[index]? = some elem) :
    ErlTuple.elementAt ⟨true, some elems.length, elems⟩ index = .returns elem := by
  have inside := (List.getElem?_eq_some_iff.mp found).1
  have low : ¬ index > elems.length := by omega
  simp only [ErlTuple.elementAt, low, if_false, found]

theorem ErlConsList.elementAt_cell {cells : List ErlTerm} (last : ErlTerm) {index : Nat}
    {elem : ErlTerm} (found : cells[index]? = some elem) :
    ErlConsList.elementAt ⟨true, cells ++ [last]⟩ index = .returns elem := by
  have inside := (List.getElem?_eq_some_iff.mp found).1
  have low : ¬ index ≥ cells.length := by omega
  have there : (cells ++ [last])[index]? = some elem := by
    rw [List.getElem?_append_left inside]
    exact found
  simp [ErlConsList.elementAt, ErlConsList.arity_concat, low, there]

end Epi.Type
