import Epi.Type.Compound

namespace Epi.Type

open Verification

/-- The place of a term in memory. -/
abbrev Address := Nat

/-- A term in memory. It points to its elements. -/
inductive Object where
  | simple (value : SimpleTerm)
  | erlTuple (mInitialized : Bool) (mArity : Option Nat) (mElementVector : List Address)
  | erlConsList (mInitialized : Bool) (mElementVector : List Address)
  | erlVariable (mName : Bytes)
  deriving DecidableEq, Repr

namespace Object

def isValid : Object → Bool
  | .simple value => value.isValid
  | .erlTuple mInitialized _ _ => mInitialized
  | .erlConsList mInitialized _ => mInitialized
  | .erlVariable _ => true

def isConsList : Object → Bool
  | .erlConsList _ _ => true
  | _ => false

/-- The terms that a term points to. -/
def elements : Object → List Address
  | .simple _ => []
  | .erlTuple _ _ mElementVector => mElementVector
  | .erlConsList _ mElementVector => mElementVector
  | .erlVariable _ => []

end Object

/-- The arguments of the methods `init` of the classes without elements. -/
inductive SimpleArguments where
  | erlAtom (atom : Bytes)
  | erlLong (value : BitVec 64)
  | erlDouble (value : Binary64)
  | erlString (string : Bytes)
  | erlBinary (data : Bytes)
  | erlPid (node : Bytes) (id serial creation : Nat)
  | erlPort (node : Bytes) (id creation : Nat)
  | erlRef (node : Bytes) (ids : BitVec 32 × BitVec 32 × BitVec 32) (creation : Nat)
      (newStyle : Bool)

namespace SimpleArguments

/-- The value that the arguments give a new term, after the checks of its class. -/
def value : SimpleArguments → Call SimpleTerm
  | .erlAtom atom => do
      let mAtom ← AtomText.init atom
      return .erlAtom (some mAtom)
  | .erlLong value => .returns (.erlLong (some value))
  | .erlDouble value => .returns (.erlDouble (some value))
  | .erlString string => .returns (.erlString (some string))
  | .erlBinary data => .returns (.erlBinary (some data))
  | .erlPid node id serial creation => do
      let pid ← ErlPid.init node id serial creation
      return .erlPid (some pid)
  | .erlPort node id creation => do
      let port ← ErlPort.init node id creation
      return .erlPort (some port)
  | .erlRef node ids creation newStyle => do
      let ref ← ErlRef.init node ids creation newStyle
      return .erlRef (some ref)

/-- The term that the constructor without arguments leaves. -/
def uninitialized : SimpleArguments → SimpleTerm
  | .erlAtom _ => .erlAtom none
  | .erlLong _ => .erlLong none
  | .erlDouble _ => .erlDouble none
  | .erlString _ => .erlString none
  | .erlBinary _ => .erlBinary none
  | .erlPid _ _ _ _ => .erlPid none
  | .erlPort _ _ _ => .erlPort none
  | .erlRef _ _ _ _ => .erlRef none

/-- The message for a second call of `init`. -/
def refusal : SimpleArguments → String
  | .erlAtom _ => "Atom already initialized"
  | .erlLong _ => "Long is initilialized"
  | .erlDouble _ => "Double is initilialized"
  | .erlString _ => "String is initilialized"
  | .erlBinary _ => "Binary is initilialized"
  | .erlPid _ _ _ _ => "Pid is initilialized"
  | .erlPort _ _ _ => "Port is initilialized"
  | .erlRef _ _ _ _ => "Ref is initilialized"

end SimpleArguments

/-- All terms that were constructed, each at its own place. A term that is deleted stays behind, and
nothing leads to it. -/
abbrev Pool := List Object

namespace Pool

/-- A pointer leads to a valid term. -/
def valid (pool : Pool) (address : Address) : Bool := pool[address]?.any Object.isValid

/-- `new` without arguments that can be refused. -/
def alloc (object : Object) : Method Pool Address := fun pool =>
  (.returns pool.length, pool ++ [object])

/-- A constructor that calls a method of the new object. If the method throws there is no object. -/
def construct (object : Object) (init : Address → Method Pool Unit) : Method Pool Address := fun pool =>
  match init pool.length (pool ++ [object]) with
  | (.returns _, after) => (.returns pool.length, after)
  | (.throws error, _) => (.throws error, pool)
  | (.aborts, _) => (.aborts, pool)
  | (.diverges, _) => (.diverges, pool)

/-- The methods `init` of the classes without elements. -/
def initSimple (this : Address) (arguments : SimpleArguments) : Method Pool Unit := fun pool =>
  match pool[this]? with
  | some (.simple value) =>
      if value.termType ≠ arguments.uninitialized.termType then
        (.aborts, pool)
      else if value.isValid then
        (.throws (.alreadyInitialized arguments.refusal), pool)
      else
        match arguments.value with
        | .returns value => (.returns (), pool.set this (.simple value))
        | .throws error => (.throws error, pool)
        | .aborts => (.aborts, pool)
        | .diverges => (.diverges, pool)
  | _ => (.aborts, pool)

/-- `ErlTuple::init(unsigned int)`. -/
def initArity (this : Address) (arity : Nat) : Method Pool Unit := fun pool =>
  match pool[this]? with
  | some (.erlTuple mInitialized mArity mElementVector) =>
      if mInitialized || mArity.isSome then
        (.throws (.alreadyInitialized "Tuple already initialized"), pool)
      else
        (.returns (), pool.set this (.erlTuple (arity == 0) (some arity) mElementVector))
  | _ => (.aborts, pool)

/-- `ErlTuple::initElement`. The null pointer is an absent element. -/
def initElement (this : Address) (elem : Option Address) : Method Pool Unit := fun pool =>
  match pool[this]? with
  | some (.erlTuple mInitialized mArity mElementVector) =>
      if mInitialized then
        (.throws (.alreadyInitialized "All elements are initialized"), pool)
      else
        match mArity with
        | none => (.throws (.invalidTerm "Tuple arity is not initialized"), pool)
        | some arity =>
            match elem with
            | none => (.throws (.badArgument "Element is invalid"), pool)
            | some elem =>
                if pool.valid elem then
                  (.returns (), pool.set this (.erlTuple (mElementVector.length + 1 == arity)
                    (some arity) (mElementVector ++ [elem])))
                else
                  (.throws (.badArgument "Element is invalid"), pool)
  | _ => (.aborts, pool)

/-- The loop of `init` over an array. -/
def initEach (this : Address) : List (Option Address) → Method Pool Unit
  | [] => pure ()
  | elem :: rest => do
      initElement this elem
      initEach this rest

/-- `ErlTuple::init(ErlTerm*[], unsigned int)`. -/
def initElements (this : Address) (elems : List (Option Address)) : Method Pool Unit :=
  Method.throwsOnly [.epiBadArgument, .epiAlreadyInitialized] <| do
    initArity this elems.length
    Effect.mapOutcome (Call.catching .epiInvalidTerm fun _ => .returns ()) (initEach this elems)

/-- `ErlConsList::addElement`. -/
def addElement (this : Address) (elem : Option Address) : Method Pool Unit := fun pool =>
  match pool[this]? with
  | some (.erlConsList mInitialized mElementVector) =>
      match elem with
      | none => (.throws (.badArgument "Element is invalid"), pool)
      | some elem =>
          if !pool.valid elem then
            (.throws (.badArgument "Element is invalid"), pool)
          else if mInitialized then
            (.throws (.alreadyInitialized "list is closed"), pool)
          else
            (.returns (), pool.set this (.erlConsList mInitialized (mElementVector ++ [elem])))
  | _ => (.aborts, pool)

/-- `ErlConsList::arity`. -/
def arity (mElementVector : List Address) : Nat := unsignedPred mElementVector.length

/-- `ErlConsList::elementAt`. -/
def elementAt (this : Address) (index : Nat) : Method Pool Address := fun pool =>
  match pool[this]? with
  | some (.erlConsList mInitialized mElementVector) =>
      if !mInitialized then
        (.throws (.invalidTerm "List is invalid"), pool)
      else if index ≥ arity mElementVector then
        (.throws (.badArgument "Index out of range"), pool)
      else
        match mElementVector[index]? with
        | some elem => (.returns elem, pool)
        | none => (.aborts, pool)
  | _ => (.aborts, pool)

/-- `ErlConsList::tail`. All tails but the last one are new lists. -/
def tail (this : Address) (index : Nat) : Method Pool Address := fun pool =>
  match pool[this]? with
  | some (.erlConsList mInitialized mElementVector) =>
      if !mInitialized then
        (.throws (.invalidTerm "List is invalid"), pool)
      else if index ≥ arity mElementVector then
        (.throws (.badArgument "Index grater than arity"), pool)
      else if index < unsignedPred (arity mElementVector) then
        alloc (.erlConsList mInitialized (mElementVector.drop (index + 1))) pool
      else
        match mElementVector.getLast? with
        | some last => (.returns last, pool)
        | none => (.aborts, pool)
  | _ => (.aborts, pool)

/-- The loop of `close` over the elements of another list. -/
def addElementsOf (this cons : Address) : Nat → Nat → Method Pool Unit
  | 0, _ => pure ()
  | remaining + 1, index => do
      let elem ← elementAt cons index
      addElement this (some elem)
      addElementsOf this cons remaining (index + 1)

/-- The last statement of `close`. -/
def markClosed (this : Address) : Method Pool Unit := fun pool =>
  match pool[this]? with
  | some (.erlConsList _ mElementVector) =>
      (.returns (), pool.set this (.erlConsList true mElementVector))
  | _ => (.aborts, pool)

/-- `ErlConsList::close` of a term, with the call that it nests for the tail of a list. -/
def closeBy (nested : Option Address → Method Pool Unit) (this elem : Address) :
    Method Pool Unit := fun pool =>
  match pool[elem]? with
  | some (.erlConsList true mElementVector) =>
      (do
        addElementsOf this elem (arity mElementVector) 0
        let rest ← tail elem (arity mElementVector)
        nested (some rest) : Method Pool Unit) pool
  | some object =>
      if object.isValid then
        (do
          addElement this (some elem)
          markClosed this : Method Pool Unit) pool
      else
        (.throws (.badArgument "Element is invalid"), pool)
  | none => (.throws (.badArgument "Element is invalid"), pool)

/-- `ErlConsList::close`, with a bound on the calls that it nests. -/
def closeWithin : Nat → Address → Option Address → Method Pool Unit
  | 0, _, _ => Effect.lift .diverges
  | fuel + 1, this, elem =>
      Method.throwsOnly [.epiBadArgument, .epiAlreadyInitialized] <|
        match elem with
        | none => Effect.fail (.badArgument "Element is invalid")
        | some elem => closeBy (closeWithin fuel this) this elem

/-- `ErlConsList::close`. -/
def close (this : Address) (elem : Option Address) : Method Pool Unit := closeWithin 2 this elem

/-- `ErlConsList::close` with an empty list. -/
def closeProper (this : Address) : Method Pool Unit :=
  Method.throwsOnly [.epiAlreadyInitialized] <| do
    let empty ← alloc (.simple .erlEmptyList)
    close this (some empty)

/-- The loop of `init` over an array. -/
def addEach (this : Address) : List (Option Address) → Method Pool Unit
  | [] => pure ()
  | elem :: rest => do
      addElement this elem
      addEach this rest

/-- `ErlConsList::init`. -/
def initList (this : Address) (elems : List (Option Address)) : Method Pool Unit := do
  addEach this elems
  closeProper this

end Pool

/-- The public constructors and methods that make or change terms. -/
inductive PoolCall where
  | newSimple (value : SimpleTerm)
  | newChecked (arguments : SimpleArguments)
  | newVariable (mName : Bytes)
  | newTuple
  | newTupleOfArity (arity : Nat)
  | newTupleOf (elems : List (Option Address))
  | newTupleOfArray (mArityDefined : Option Nat) (elems : List (Option Address))
  | newConsList
  | newConsListOf (elems : List (Option Address))
  | initSimple (this : Address) (arguments : SimpleArguments)
  | initArity (this : Address) (arity : Nat)
  | initElements (this : Address) (elems : List (Option Address))
  | initElement (this : Address) (elem : Option Address)
  | initList (this : Address) (elems : List (Option Address))
  | addElement (this : Address) (elem : Option Address)
  | close (this : Address) (elem : Option Address)
  | closeProper (this : Address)
  | tail (this : Address) (index : Nat)

namespace PoolCall

open Pool

/-- What a call does to the pool. The constructor of a tuple from an array does not set the arity,
so it starts with any. -/
def run : PoolCall → Method Pool Unit
  | .newSimple value => do let _ ← alloc (.simple value)
  | .newChecked arguments => do
      let value ← Effect.lift arguments.value
      let _ ← alloc (.simple value)
  | .newVariable mName => do let _ ← alloc (.erlVariable mName)
  | .newTuple => do let _ ← alloc (.erlTuple false none [])
  | .newTupleOfArity arity => do
      let _ ← construct (.erlTuple false none []) fun this => Pool.initArity this arity
  | .newTupleOf elems => do
      let _ ← construct (.erlTuple false none []) fun this => Pool.initElements this elems
  | .newTupleOfArray mArityDefined elems => do
      let _ ← construct (.erlTuple false mArityDefined []) fun this => Pool.initElements this elems
  | .newConsList => do let _ ← alloc (.erlConsList false [])
  | .newConsListOf elems => do
      let _ ← construct (.erlConsList false []) fun this => Pool.initList this elems
  | .initSimple this arguments => Pool.initSimple this arguments
  | .initArity this arity => Pool.initArity this arity
  | .initElements this elems => Pool.initElements this elems
  | .initElement this elem => Pool.initElement this elem
  | .initList this elems => Pool.initList this elems
  | .addElement this elem => Pool.addElement this elem
  | .close this elem => Pool.close this elem
  | .closeProper this => Pool.closeProper this
  | .tail this index => do let _ ← Pool.tail this index

end PoolCall

/-- The pool after a sequence of calls. A call that throws leaves what it changed before. -/
def Pool.after (pool : Pool) (calls : List PoolCall) : Pool :=
  calls.foldl (fun pool call => (call.run pool).2) pool

end Epi.Type
