import Epi.Buffer.Rejected
import Epi.Buffer.Sequence

namespace Epi.Buffer

open Verification Epi.Type ErlTerm

/-- A term with the binding that it is written with. The null pointer is an absent term. -/
structure Write where
  binding : Option VariableBinding
  t : Option ErlTerm

/-- The buffer after more writes, however they come back. -/
def afterWrites {Buffer : Type} (writeTerm : Write → Method Buffer Unit) (later : List Write)
    (buffer : Buffer) : Buffer :=
  later.foldl (fun buffer write => (writeTerm write buffer).2) buffer

/-- The read that comes after so many others. -/
def readAt {Buffer : Type} (readTerm : Method Buffer (Option ErlTerm)) :
    Nat → Method Buffer (Option ErlTerm)
  | 0 => readTerm
  | before + 1 => do
      let _ ← readTerm
      readAt readTerm before

/-- The reads after all later writes give the same. -/
def SameTerms {Buffer Input : Type} (writeTerm : Write → Method Buffer Unit)
    (getInputBuffer : Buffer → Input) (readTerm : Method Input (Option ErlTerm))
    (first second : Buffer) : Prop :=
  ∀ later count, (readAt readTerm count (getInputBuffer (afterWrites writeTerm later first))).1 =
    (readAt readTerm count (getInputBuffer (afterWrites writeTerm later second))).1

/-- A `PlainBuffer` with the terms of another one. -/
def PlainBuffer.SameTerms : PlainBuffer → PlainBuffer → Prop :=
  Buffer.SameTerms (fun write => writeTerm write.binding write.t) getInputBuffer readTerm

/-- An `EIOutputBuffer` with the terms of another one, whatever stands behind the written bytes. -/
def EIOutputBuffer.SameTerms (ei : Ei) (first second : EIOutputBuffer) : Prop :=
  ∀ writeFuel readFuel unwritten,
    Buffer.SameTerms (fun write => writeTerm ei write.binding writeFuel write.t)
      (getInputBuffer ei unwritten) (EIInputBuffer.readTerm ei readFuel) first second

/-- The bytes that are written before the first element of a tuple or a list, also of one that
is the value of a variable. -/
def header (ei : Ei) (binding : Option VariableBinding) : Nat → Option ErlTerm → Bytes
  | fuel + 1, some term =>
      match term with
      | .simple _ => []
      | .erlTuple _ mArity _ => (mArity.bind ei.encodeTupleHeader).getD []
      | .erlConsList _ elems => (ei.encodeListHeader (unsignedPred elems.length)).getD []
      | .erlVariable mName =>
          match valueOf binding mName with
          | some value => header ei binding fuel (some value)
          | none => []
  | _, _ => []

/-- The content of whole terms: reads come to its end. -/
def EIOutputBuffer.Readable (ei : Ei) (content : EIOutputBuffer) : Prop :=
  ∃ withVersion bytes fuel count reads, content = (create ei withVersion).add bytes ∧
    Yields (EIInputBuffer.readTerms ei (fuel + 1) count) bytes (some reads)

section Extension

variable {ei : Ei} {binding : Option VariableBinding}

/-- The buffer with more bytes behind it. -/
def EIOutputBuffer.Extends (before after : EIOutputBuffer) : Prop := ∃ bytes, after = before.add bytes

theorem EIOutputBuffer.Extends.refl (buffer : EIOutputBuffer) : buffer.Extends buffer :=
  ⟨[], (EIOutputBuffer.add_nil buffer).symm⟩

theorem EIOutputBuffer.Extends.trans {before middle after : EIOutputBuffer}
    (first : before.Extends middle) (second : middle.Extends after) : before.Extends after := by
  obtain ⟨bytes, rfl⟩ := first
  obtain ⟨more, rfl⟩ := second
  exact ⟨bytes ++ more, EIOutputBuffer.add_add before bytes more⟩

/-- The bytes of the buffer stay where they are. -/
def EIOutputBuffer.Grows {Value : Type} (call : Method EIOutputBuffer Value) : Prop :=
  Effect.Ascends EIOutputBuffer.Extends call

theorem EIOutputBuffer.Grows.bind {First Second : Type} {first : Method EIOutputBuffer First}
    {next : First → Method EIOutputBuffer Second} (grows : Grows first)
    (nextGrows : ∀ value, Grows (next value)) : Grows (first >>= next) := by
  have trans : ∀ low middle high, Extends low middle → Extends middle high → Extends low high :=
    fun _ _ _ => Extends.trans
  exact Effect.Ascends.bind trans grows nextGrows

end Extension

section Observation

variable {ei : Ei}

end Observation

end Epi.Buffer
