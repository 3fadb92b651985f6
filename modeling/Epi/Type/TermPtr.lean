import Epi.Library.Run
import Epi.Type.Compound

namespace Epi.Type

open Verification

abbrev TermId := Nat

abbrev PtrId := Nat

/-- A smart pointer. It stands alone or in the vector of a term, which destroys it. -/
structure ErlTermPtr where
  owner : Option TermId
  mErlTerm : Option TermId
  deriving DecidableEq, Repr

/-- The reference counters of the terms, and the smart pointers. A deleted term and a destroyed
pointer leave a gap. -/
structure Memory where
  mRefCount : List (Option Int)
  pointers : List (Option ErlTermPtr)
  deriving DecidableEq, Repr

namespace Memory

def empty : Memory := ⟨[], []⟩

/-- The pointers in the vector of a term. -/
def elementsOf (memory : Memory) (term : TermId) : List PtrId :=
  (List.range memory.pointers.length).filter fun ptr =>
    (memory.pointers[ptr]?.join).any fun pointer => pointer.owner == some term

/-- `ErlTerm::addRef`. A deleted term has no counter any more. -/
def addRef (term : TermId) : Method Memory Unit := fun memory =>
  match memory.mRefCount[term]?.join with
  | some count => (.returns (), { memory with
      mRefCount := memory.mRefCount.set term (some (count + 1)) })
  | none => (.aborts, memory)

/-- `ErlTerm::drop`. -/
def dropRef (term : TermId) : Method Memory Unit := fun memory =>
  match memory.mRefCount[term]?.join with
  | some count =>
      if count = 0 then (.returns (), memory)
      else (.returns (), { memory with mRefCount := memory.mRefCount.set term (some (count - 1)) })
  | none => (.aborts, memory)

/-- `ErlTerm::release` up to `delete`. The elements of a deleted term are left to be destroyed. -/
def releaseOne (term : TermId) : Method Memory (List PtrId) := fun memory =>
  match memory.mRefCount[term]?.join with
  | some count =>
      if count - 1 ≤ 0 then
        (.returns (memory.elementsOf term), { memory with
          mRefCount := memory.mRefCount.set term none })
      else
        (.returns [], { memory with mRefCount := memory.mRefCount.set term (some (count - 1)) })
  | none => (.aborts, memory)

/-- The destructor of a pointer, up to the pointers that it leaves to be destroyed. The pointer goes
first, since no other one can read it any more. -/
def destroyOne (this : PtrId) : Method Memory (List PtrId) := fun memory =>
  match memory.pointers[this]?.join with
  | some pointer =>
      match pointer.mErlTerm with
      | some term => releaseOne term { memory with pointers := memory.pointers.set this none }
      | none => (.returns [], { memory with pointers := memory.pointers.set this none })
  | none => (.aborts, memory)

/-- The destructors of the elements of deleted terms, one after the other. -/
def destructors : Nat → List PtrId → Method Memory Unit
  | _, [] => pure ()
  | 0, _ :: _ => Effect.lift .diverges
  | fuel + 1, this :: rest => do
      let elements ← destroyOne this
      destructors fuel (elements ++ rest)

/-- Every pointer is destroyed once. -/
def destroyAll (elements : List PtrId) : Method Memory Unit := fun memory =>
  destructors memory.pointers.length elements memory

/-- `ErlTerm::release`. -/
def release (term : TermId) : Method Memory Unit := do
  let elements ← releaseOne term
  destroyAll elements

/-- The term of a pointer that was not destroyed. -/
def target (this : PtrId) : Method Memory (Option TermId) := fun memory =>
  match memory.pointers[this]?.join with
  | some pointer => (.returns pointer.mErlTerm, memory)
  | none => (.aborts, memory)

/-- A pointer takes another term, without a change of a counter. -/
def point (this : PtrId) (term : Option TermId) : Method Memory Unit := fun memory =>
  match memory.pointers[this]?.join with
  | some pointer => (.returns (), { memory with
      pointers := memory.pointers.set this (some { pointer with mErlTerm := term }) })
  | none => (.aborts, memory)

/-- A call on the term of a pointer that may be null. -/
def forTerm (call : TermId → Method Memory Unit) : Option TermId → Method Memory Unit
  | some term => call term
  | none => pure ()

/-- A new pointer, alone or in the vector of a term. -/
def push (owner term : Option TermId) : Method Memory Unit := fun memory =>
  (.returns (), { memory with pointers := memory.pointers ++ [some ⟨owner, term⟩] })

/-- `ErlTermPtr::reset`. The pointer lets go of its term before the term is released, since nothing
reads the pointer in between. -/
def reset (this : PtrId) (newTerm : Option TermId) : Method Memory Unit := do
  let mErlTerm ← target this
  if mErlTerm ≠ newTerm then
    point this none
    forTerm release mErlTerm
    point this newTerm
    forTerm addRef newTerm

end Memory

/-- The operations on terms and on smart pointers. -/
inductive PtrCall where
  | newTerm
  | create (owner term : Option TermId)
  | copy (owner : Option TermId) (rhs : PtrId)
  | assign (this rhs : PtrId)
  | assignTerm (this : PtrId) (rhs : Option TermId)
  | reset (this : PtrId) (term : Option TermId)
  | drop (this : PtrId)
  | destroy (this : PtrId)
  deriving DecidableEq, Repr

namespace PtrCall

open Memory

/-- What an operation does to the memory. A new term is counted by nobody. -/
def run : PtrCall → Method Memory Unit
  | .newTerm => fun memory =>
      (.returns (), { memory with mRefCount := memory.mRefCount ++ [some 0] })
  | .create owner term => do
      forTerm addRef term
      push owner term
  | .copy owner rhs => do
      let term ← target rhs
      forTerm addRef term
      push owner term
  | .assign this rhs => do
      let term ← target rhs
      forTerm addRef term
      Memory.reset this term
  | .assignTerm this rhs => Memory.reset this rhs
  | .reset this term => Memory.reset this term
  | .drop this => do
      let term ← target this
      forTerm dropRef term
      point this none
  | .destroy this => do
      let elements ← destroyOne this
      destroyAll elements

/-- The term that an assignment from a pointer hands over. -/
def assigned (memory : Memory) : PtrCall → Option TermId
  | .assign _ rhs => (memory.pointers[rhs]?.join).bind ErlTermPtr.mErlTerm
  | _ => none

end PtrCall

namespace Memory

/-- A step runs an operation. It shows the term of an assignment from a pointer. -/
def Step : Transition Memory (Option TermId) := fun memory event after =>
  ∃ call : PtrCall, call.run memory = (.returns (), after) ∧ event = call.assigned memory

/-- A term that was made and not deleted. -/
def live (memory : Memory) (term : TermId) : Bool := (memory.mRefCount[term]?.join).isSome

/-- The pointers that hold a term. -/
def holders (memory : Memory) (term : TermId) : Nat :=
  memory.pointers.countP fun pointer => pointer.any fun pointer => pointer.mErlTerm == some term

end Memory

end Epi.Type
