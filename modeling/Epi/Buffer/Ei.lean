import Epi.Type.Term

namespace Epi.Buffer

open Verification

/-- `erlang_pid`. -/
structure ErlangPid where
  node : Bytes
  num : Nat
  serial : Nat
  creation : Nat
  deriving DecidableEq, Repr

/-- `erlang_port`. -/
structure ErlangPort where
  node : Bytes
  id : Nat
  creation : Nat
  deriving DecidableEq, Repr

/-- `erlang_ref`. Only the first `len` ids are set. -/
structure ErlangRef where
  node : Bytes
  n : List (BitVec 32)
  creation : Nat
  deriving DecidableEq, Repr

/-- The type tags of the external format. -/
inductive ExternalType where
  | smallIntegerExt
  | integerExt
  | floatExt
  | newFloatExt
  | atomExt
  | newReferenceExt
  | portExt
  | pidExt
  | smallTupleExt
  | largeTupleExt
  | nilExt
  | stringExt
  | listExt
  | binaryExt
  | smallBigExt
  | largeBigExt
  | other (code : Nat)
  deriving DecidableEq, Repr

/-- A decoder reads at an index of a buffer and returns the index behind the item. -/
abbrev Decoder (Value : Type) := Bytes → Nat → Option (Value × Nat)

/-- The functions of the EI library. An absent result is a negative one, and `getType` gives a
type and a size. An arity is an `int`, so that an item carries the counts of `carries` only. The
ids of a reference that no call sets hold `unset`. -/
structure Ei where
  version : Bytes
  carries : Nat → Bool
  encodeAtom : Bytes → Option Bytes
  encodeLonglong : BitVec 64 → Option Bytes
  encodeDouble : Binary64 → Option Bytes
  encodeString : Bytes → Option Bytes
  encodeRef : ErlangRef → Option Bytes
  encodePort : ErlangPort → Option Bytes
  encodePid : ErlangPid → Option Bytes
  encodeBinary : Bytes → Option Bytes
  encodeTupleHeader : Nat → Option Bytes
  encodeListHeader : Nat → Option Bytes
  encodeEmptyList : Option Bytes
  getType : Bytes → Nat → Option (ExternalType × Nat)
  decodeVersion : Decoder Unit
  decodeAtom : Decoder Bytes
  decodeLonglong : Decoder (BitVec 64)
  decodeDouble : Decoder Binary64
  decodeString : Decoder Bytes
  decodeRef : Decoder ErlangRef
  decodePort : Decoder ErlangPort
  decodePid : Decoder ErlangPid
  decodeBinary : Decoder Bytes
  decodeTupleHeader : Decoder Int
  decodeListHeader : Decoder Int
  unset : BitVec 32

/-- The bytes are one item that the decoder reads back, whatever stands around them. -/
structure Item {Value : Type} (ei : Ei) (bytes : Bytes) (kind : ExternalType → Nat → Prop)
    (decoder : Decoder Value) (value : Value) : Prop where
  nonempty : bytes ≠ []
  typed : ∀ front back, ∃ type size,
    ei.getType (front ++ (bytes ++ back)) front.length = some (type, size) ∧ kind type size
  decoded : ∀ front back,
    decoder (front ++ (bytes ++ back)) front.length = some (value, front.length + bytes.length)

/-- The encoder writes such an item. -/
def Encodes {Value : Type} (ei : Ei) (encoded : Option Bytes) (kind : ExternalType → Nat → Prop)
    (decoder : Decoder Value) (value : Value) : Prop :=
  ∃ bytes, encoded = some bytes ∧ Item ei bytes kind decoder value

/-- A node name that fits into the structures. -/
def NodeText (node : Bytes) : Prop := 0 ∉ node ∧ node.length ≤ Type.maxNodeLength

instance (node : Bytes) : Decidable (NodeText node) := inferInstanceAs (Decidable (_ ∧ _))

/-- Every item is read back exactly, if it carries its count. A pid keeps 15 bits of its number, and
a string of at most 65535 bytes is written as one. A header is written for every arity. -/
structure Ei.Lawful (ei : Ei) : Prop where
  version : ∀ back, ei.decodeVersion (ei.version ++ back) 0 = some ((), ei.version.length)
  atom : ∀ atom : Bytes, 0 ∉ atom → 0 < atom.length → atom.length ≤ Type.maxAtomLength →
    Encodes ei (ei.encodeAtom atom) (fun type _ => type = .atomExt) ei.decodeAtom atom
  longlong : ∀ value, Encodes ei (ei.encodeLonglong value)
    (fun type _ => type ∈ [.smallIntegerExt, .integerExt, .smallBigExt, .largeBigExt])
    ei.decodeLonglong value
  double : ∀ value, Encodes ei (ei.encodeDouble value)
    (fun type _ => type = .floatExt ∨ type = .newFloatExt) ei.decodeDouble value
  string : ∀ value : Bytes, 0 ∉ value → 0 < value.length → value.length ≤ 65535 →
    Encodes ei (ei.encodeString value) (fun type _ => type = .stringExt) ei.decodeString value
  ref : ∀ ref : ErlangRef, NodeText ref.node → ref.n.length = 1 ∨ ref.n.length = 3 →
    ref.creation < 4 →
    Encodes ei (ei.encodeRef ref) (fun type _ => type = .newReferenceExt) ei.decodeRef ref
  port : ∀ port : ErlangPort, NodeText port.node → port.id < 2 ^ 18 → port.creation < 4 →
    Encodes ei (ei.encodePort port) (fun type _ => type = .portExt) ei.decodePort port
  pid : ∀ pid : ErlangPid, NodeText pid.node → pid.num < 2 ^ 15 → pid.serial < 2 ^ 13 →
    pid.creation < 4 →
    Encodes ei (ei.encodePid pid) (fun type _ => type = .pidExt) ei.decodePid pid
  binary : ∀ data : Bytes, ei.carries data.length = true → Encodes ei (ei.encodeBinary data)
    (fun type size => type = .binaryExt ∧ size = data.length) ei.decodeBinary data
  tupleHeader : ∀ arity : Nat, ei.carries arity = true → Encodes ei (ei.encodeTupleHeader arity)
    (fun type _ => type = .smallTupleExt ∨ type = .largeTupleExt) ei.decodeTupleHeader arity
  listHeader : ∀ arity : Nat, 0 < arity → ei.carries arity = true →
    Encodes ei (ei.encodeListHeader arity) (fun type _ => type = .listExt) ei.decodeListHeader arity
  tupleWritten : ∀ arity : Nat, ∃ bytes ≠ [], ei.encodeTupleHeader arity = some bytes
  listWritten : ∀ arity : Nat, 0 < arity → ∃ bytes ≠ [], ei.encodeListHeader arity = some bytes
  emptyList : Encodes ei ei.encodeEmptyList (fun type _ => type = .nilExt) ei.decodeListHeader 0

end Epi.Buffer
