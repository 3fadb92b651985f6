import Epi.Buffer.Ei
import Epi.Type.Subst

namespace Epi.Buffer

open Verification Epi.Type

/-- `ErlPid2EI`. The node is copied as a C string. -/
def erlPid2EI (pid : Option ErlPid) : Option ErlangPid :=
  pid.map fun pid => {
    node := cString pid.mNode.text
    num := pid.mId.toNat
    serial := pid.mSerial.toNat
    creation := pid.mCreation.toNat }

/-- `ErlRef2EI`. An old style reference has one id. -/
def erlRef2EI (ref : Option ErlRef) : Option ErlangRef :=
  ref.map fun ref => {
    node := cString ref.mNode.text
    n := if ref.mNewStyle then [ref.mId0.setWidth 32, ref.mId1, ref.mId2]
      else [ref.mId0.setWidth 32]
    creation := ref.mCreation.toNat }

/-- `ErlPort2EI`. -/
def erlPort2EI (port : Option ErlPort) : Option ErlangPort :=
  port.map fun port => {
    node := cString port.mNode.text
    id := port.mId.toNat
    creation := port.mCreation.toNat }

/-- The bytes that an `EIOutputBuffer` holds. -/
structure EIOutputBuffer where
  buff : Bytes
  mWithVersion : Bool
  deriving DecidableEq, Repr

namespace EIOutputBuffer

/-- The constructor. -/
def create (ei : Ei) (withVersion : Bool) : EIOutputBuffer :=
  ⟨if withVersion then ei.version else [], withVersion⟩

/-- An encoding call whose result is checked. -/
def append (failure : String) (item : Option Bytes) : Method EIOutputBuffer Unit := fun buffer =>
  match item with
  | some bytes => (.returns (), { buffer with buff := buffer.buff ++ bytes })
  | none => (.throws (.eiEncode failure), buffer)

/-- An encoding call whose result is dropped. -/
def appendUnchecked (item : Option Bytes) : Method EIOutputBuffer Unit := fun buffer =>
  (.returns (), { buffer with buff := buffer.buff ++ item.getD [] })

/-- A getter of a value that has to be initialized. -/
def initialized {Value : Type} (failure : String) (value : Option Value) :
    Method EIOutputBuffer Value :=
  match value with
  | some value => pure value
  | none => Effect.fail (.invalidTerm failure)

/-- The cases of `writeTerm` without elements. -/
def writeSimple (ei : Ei) : SimpleTerm → Method EIOutputBuffer Unit
  | .erlAtom mAtom => do
      let atom ← initialized "Atom is not initialized" mAtom
      append "EI atom encoding failed" (ei.encodeAtom (cString atom.text))
  | .erlLong mValue => do
      let value ← initialized "Double is not initialized" mValue
      append "EI long encoding failed" (ei.encodeLonglong value)
  | .erlDouble mValue => do
      let value ← initialized "Double is not initialized" mValue
      append "EI double encoding failed" (ei.encodeDouble value)
  | .erlString mString => do
      let value ← initialized "String is not initialized" mString
      append "EI string encoding failed" (ei.encodeString (cString value))
  | .erlRef ref => do
      let ref ← initialized "Reference not initialized" (erlRef2EI ref)
      append "EI ref encoding failed" (ei.encodeRef ref)
  | .erlPort port => do
      let port ← initialized "Reference not initialized" (erlPort2EI port)
      append "EI port encoding failed" (ei.encodePort port)
  | .erlPid pid => do
      let pid ← initialized "Reference not initialized" (erlPid2EI pid)
      append "EI pid encoding failed" (ei.encodePid pid)
  | .erlBinary mData => do
      let data ← initialized "Binary is not initialized" mData
      append "EI binary encoding failed" (ei.encodeBinary data)
  | .erlEmptyList => append "EI empty list encoding failed" ei.encodeEmptyList

/-- The loop over the elements. -/
def writeElements (writeTerm : ErlTerm → Method EIOutputBuffer Unit)
    (elementAt : Nat → Call ErlTerm) : Nat → Nat → Method EIOutputBuffer Unit
  | 0, _ => pure ()
  | remaining + 1, index => do
      let elem ← Effect.lift (elementAt index)
      writeTerm elem
      writeElements writeTerm elementAt remaining (index + 1)

/-- The body of `writeTerm`, with the call for a nested term. The null pointer is an absent term. -/
def writeNext (ei : Ei) (binding : Option VariableBinding)
    (writeTerm : ErlTerm → Method EIOutputBuffer Unit) :
    Option ErlTerm → Method EIOutputBuffer Unit
  | none => Effect.fail (.invalidTerm "trying to encode a null pointer")
  | some (.simple value) => writeSimple ei value
  | some (.erlTuple mInitialized mArity mElementVector) => do
      let tuple : ErlTuple := ⟨mInitialized, mArity, mElementVector⟩
      let arity ← Effect.lift tuple.arity
      append "EI tuple encoding failed" (ei.encodeTupleHeader arity)
      writeElements writeTerm tuple.elementAt arity 0
  | some (.erlConsList mInitialized mElementVector) => do
      let list : ErlConsList := ⟨mInitialized, mElementVector⟩
      appendUnchecked (ei.encodeListHeader list.arity)
      writeElements writeTerm list.elementAt list.arity 0
      let tail ← Effect.lift (list.tail (unsignedPred list.arity))
      writeTerm tail
  | some (.erlVariable mName) =>
      if mName = anonymous then
        Effect.fail (.invalidTerm "You can't encode an anonymous variable")
      else
        match binding.bind (·.search mName) with
        | some term => writeTerm term
        | none => Effect.fail (.variableUnbound mName)

/-- `EIOutputBuffer::writeTerm`. The depth is bounded because the value of a variable may hold
the variable. -/
def writeTerm (ei : Ei) (binding : Option VariableBinding) :
    Nat → Option ErlTerm → Method EIOutputBuffer Unit
  | 0, _ => Effect.lift .diverges
  | fuel + 1, t =>
      Method.throwsOnly [.epiInvalidTerm, .epiEncodeException, .epiVariableUnbound]
        (writeNext ei binding (fun elem => writeTerm ei binding fuel (some elem)) t)

end EIOutputBuffer

end Epi.Buffer
