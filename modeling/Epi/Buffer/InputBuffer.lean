import Epi.Buffer.OutputBuffer

namespace Epi.Buffer

open Verification Epi.Type

/-- The allocated bytes of an `EIInputBuffer` and the index of the next term. -/
structure EIInputBuffer where
  buff : Bytes
  mDecodeIndex : Nat
  deriving DecidableEq, Repr

namespace EIInputBuffer

/-- A decoding call moves the index only if it succeeds. -/
def decode {Value : Type} (failure : Bytes) (decoder : Decoder Value) :
    Method EIInputBuffer Value := fun buffer =>
  match decoder buffer.buff buffer.mDecodeIndex with
  | some (value, index) => (.returns value, { buffer with mDecodeIndex := index })
  | none => (.throws (.eiDecode failure), buffer)

/-- A method of an object under construction. -/
def onNew {Object : Type} (call : Method Object Unit) (object : Object) : Call Object :=
  match call object with
  | (outcome, after) => do
      outcome
      return after

/-- The loop over the elements of a new tuple. -/
def readTuple (readTerm : Method EIInputBuffer (Option ErlTerm)) :
    Nat → ErlTuple → Method EIInputBuffer ErlTuple
  | 0, tuple => pure tuple
  | remaining + 1, tuple => do
      let elem ← readTerm
      let extended ← Effect.lift (onNew (ErlTuple.initElement elem) tuple)
      readTuple readTerm remaining extended

/-- The loop over the elements and the tail of a new list. -/
def readList (readTerm : Method EIInputBuffer (Option ErlTerm)) :
    Nat → ErlConsList → Method EIInputBuffer ErlConsList
  | 0, list => do
      let tail ← readTerm
      Effect.lift (onNew (ErlConsList.close tail) list)
  | remaining + 1, list => do
      let elem ← readTerm
      let extended ← Effect.lift (onNew (ErlConsList.addElement elem) list)
      readList readTerm remaining extended

/-- The message of an exception while a term is built. -/
def rethrow {Value : Type} (raise : Bytes → EpiException) (call : Method EIInputBuffer Value) :
    Method EIInputBuffer Value :=
  Effect.mapOutcome (Call.catchingAny fun error => .throws (raise error.mMsg)) call

/-- `ErlRef` reads the ids that its style has, also those that were not set. -/
def refIds (unset : BitVec 32) (n : List (BitVec 32)) : BitVec 32 × BitVec 32 × BitVec 32 :=
  (n.getD 0 unset, n.getD 1 unset, n.getD 2 unset)

/-- The conversion of an `int` to `unsigned int`. -/
def unsignedOf (value : Int) : Nat := if value < 0 then (value + 2 ^ 32).toNat else value.toNat

/-- The loop over a new list. It does not run for a negative arity. -/
def readCells (readTerm : Method EIInputBuffer (Option ErlTerm)) (arity : Int) :
    Method EIInputBuffer ErlConsList :=
  if arity < 0 then pure ErlConsList.uninitialized
  else readList readTerm arity.toNat ErlConsList.uninitialized

theorem unsignedOf_natCast (value : Nat) : unsignedOf value = value := by
  rw [unsignedOf, if_neg (by omega), Int.toNat_natCast]

theorem readCells_natCast (readTerm : Method EIInputBuffer (Option ErlTerm)) (arity : Nat) :
    readCells readTerm arity = readList readTerm arity ErlConsList.uninitialized := by
  rw [readCells, if_neg (by omega), Int.toNat_natCast]

/-- The cases of `readTerm`, with the call for a nested term. -/
def readType (ei : Ei) (readTerm : Method EIInputBuffer (Option ErlTerm)) (size : Nat) :
    ExternalType → Method EIInputBuffer ErlTerm
  | .atomExt => do
      let atom ← decode (text "EI atom decoding failed") ei.decodeAtom
      let value ← Effect.lift <| Call.catching .epiBadArgument
        (fun error => .throws (.eiDecode error.mMsg)) (AtomText.init (cString atom))
      return .simple (.erlAtom (some value))
  | .pidExt => do
      let pid ← decode (text "Error decoding pid") ei.decodePid
      let value ← Effect.lift <| Call.catchingAny (fun error => .throws (.eiDecode error.mMsg))
        (ErlPid.init pid.node pid.num pid.serial pid.creation)
      return .simple (.erlPid (some value))
  | .smallTupleExt | .largeTupleExt => do
      let arity ← decode (text "EI tuple decoding failed") ei.decodeTupleHeader
      let tuple ← rethrow .decode
        (readTuple readTerm arity.toNat (ErlTuple.ofArity (unsignedOf arity)))
      return tuple.toTerm
  | .stringExt => do
      let value ← decode (text "EI string decoding failed") ei.decodeString
      return .simple (.erlString (some (cString value)))
  | .listExt => do
      let arity ← decode (text "EI list decoding failed") ei.decodeListHeader
      if arity = 0 then
        return .simple .erlEmptyList
      else
        let list ← rethrow .decode (readCells readTerm arity)
        return list.toTerm
  | .nilExt => do
      let arity ← decode (text "EI empty list decoding failed") ei.decodeListHeader
      if arity = 0 then
        return .simple .erlEmptyList
      else
        Effect.fail (.eiDecode (text "EI empty list decoding failed"))
  | .smallBigExt | .largeBigExt | .smallIntegerExt | .integerExt => do
      let value ← decode (text "EI long decoding failed") ei.decodeLonglong
      return .simple (.erlLong (some value))
  | .newFloatExt | .floatExt => do
      let value ← decode (text "EI double decoding failed") ei.decodeDouble
      return .simple (.erlDouble (some value))
  | .binaryExt => do
      let data ← decode (text "EI binary decoding failed") ei.decodeBinary
      return .simple (.erlBinary (some (data.take size)))
  | .newReferenceExt => do
      let ref ← decode (text "Error decoding") ei.decodeRef
      let value ← Effect.lift <| Call.catchingAny (fun error => .throws (.eiDecode error.mMsg))
        (ErlRef.init ref.node (refIds ei.unset ref.n) ref.creation (ref.n.length != 1))
      return .simple (.erlRef (some value))
  | .portExt => do
      let port ← decode (text "Error decoding") ei.decodePort
      let value ← Effect.lift <| Call.catchingAny (fun error => .throws (.decode error.mMsg))
        (ErlPort.init port.node port.id port.creation)
      return .simple (.erlPort (some value))
  | .other code => Effect.fail (.eiDecode (text "Unknown message content type " ++
      text (toString code)))

/-- The body of `readTerm`. The end of the allocated bytes is the end of the terms. -/
def readNext (ei : Ei) (readTerm : Method EIInputBuffer (Option ErlTerm)) :
    Method EIInputBuffer (Option ErlTerm) := fun buffer =>
  if buffer.mDecodeIndex = buffer.buff.length then
    (.returns none, buffer)
  else
    match ei.getType buffer.buff buffer.mDecodeIndex with
    | none => (.throws (.eiDecode (text "ei_get_type failed")), buffer)
    | some (type, size) =>
        match readType ei readTerm size type buffer with
        | (outcome, after) => (outcome >>= fun returnTerm => .returns (some returnTerm), after)

/-- `EIInputBuffer::readTerm`. -/
def readTerm (ei : Ei) : Nat → Method EIInputBuffer (Option ErlTerm)
  | 0 => Effect.lift .diverges
  | fuel + 1 => Method.throwsOnly [.epiDecodeException] (readNext ei (readTerm ei fuel))

end EIInputBuffer

/-- `EIOutputBuffer::getInputBuffer`. The new buffer takes over all the allocated bytes, also those
behind the written ones, and skips the version. -/
def EIOutputBuffer.getInputBuffer (ei : Ei) (unwritten : Bytes) (buffer : EIOutputBuffer) :
    EIInputBuffer :=
  let buff := buffer.buff ++ unwritten
  let skipped := if buffer.mWithVersion then (ei.decodeVersion buff 0).map (·.2) else none
  ⟨buff, skipped.getD 0⟩

end Epi.Buffer
