import Epi.Buffer.InputBuffer

namespace Epi.Buffer

open Verification

/-- An `ei_x_buff`. It has as many allocated bytes as `buffsz`, and the used ones stand before the
index. -/
structure EiXBuff where
  buff : Bytes
  index : Nat
  deriving DecidableEq, Repr

namespace EiXBuff

def buffsz (buffer : EiXBuff) : Nat := buffer.buff.length

/-- The used bytes of a buffer that is filled from its start. -/
def Holds (buffer : EiXBuff) (bytes : Bytes) : Prop :=
  buffer.index ≤ buffer.buffsz ∧ buffer.buff.take buffer.index = bytes

instance (buffer : EiXBuff) (bytes : Bytes) : Decidable (buffer.Holds bytes) :=
  inferInstanceAs (Decidable (_ ∧ _))

/-- The allocated bytes are the used ones and some others, which are missing only if the capacity is
used up. -/
theorem Holds.split {buffer : EiXBuff} {bytes : Bytes} (holds : buffer.Holds bytes) :
    ∃ unwritten, buffer.buff = bytes ++ unwritten ∧
      (unwritten = [] ↔ buffer.index = buffer.buffsz) := by
  obtain ⟨inside, rfl⟩ := holds
  refine ⟨buffer.buff.drop buffer.index, (List.take_append_drop _ _).symm, ?_⟩
  rw [List.drop_eq_nil_iff]
  constructor
  · intro all
    exact le_antisymm inside all
  · intro all
    exact all.ge

end EiXBuff

/-- An `EIBuffer`. -/
structure EIBuffer where
  mBuffer : EiXBuff
  mWithVersion : Bool
  deriving DecidableEq, Repr

namespace EIBuffer

/-- `EIBuffer::do_resetIndex`. The result of the version call is not looked at. -/
def doResetIndex (ei : Ei) (buffer : EIBuffer) : EIBuffer :=
  let version := if buffer.mWithVersion then ei.decodeVersion buffer.mBuffer.buff 0 else none
  { buffer with mBuffer := { buffer.mBuffer with index := (version.map (·.2)).getD 0 } }

/-- The constructor from the `ei_x_buff` of another buffer. -/
def ofBuffer (ei : Ei) (mBuffer : EiXBuff) (mWithVersion : Bool) : EIBuffer :=
  doResetIndex ei ⟨mBuffer, mWithVersion⟩

end EIBuffer

/-- An `EIInputBuffer` with both of its indices. -/
structure EIInputObject extends EIBuffer where
  mDecodeIndex : Nat
  deriving DecidableEq, Repr

namespace EIInputObject

variable {ei : Ei}

/-- The constructor from the `ei_x_buff` of an output buffer. -/
def ofBuffer (ei : Ei) (mBuffer : EiXBuff) (mWithVersion : Bool) : EIInputObject :=
  let base := EIBuffer.ofBuffer ei mBuffer mWithVersion
  ⟨base, base.mBuffer.index⟩

/-- `EIInputBuffer::resetIndex`. -/
def resetIndex (ei : Ei) (object : EIInputObject) : EIInputObject :=
  ⟨object.toEIBuffer.doResetIndex ei, object.mDecodeIndex⟩

/-- What a read looks at. -/
def view (object : EIInputObject) : EIInputBuffer := ⟨object.mBuffer.buff, object.mDecodeIndex⟩

/-- The reset moves the index that no read looks at. -/
theorem view_resetIndex (object : EIInputObject) : (object.resetIndex ei).view = object.view := rfl

/-- A buffer made from used bytes and others is the input buffer of both. -/
theorem view_ofBuffer {mBuffer : EiXBuff} {out : EIOutputBuffer} {unwritten : Bytes}
    (same : mBuffer.buff = out.buff ++ unwritten) :
    (ofBuffer ei mBuffer out.mWithVersion).view = out.getInputBuffer ei unwritten := by
  cases flag : out.mWithVersion with
  | false => simp [view, ofBuffer, EIBuffer.ofBuffer, EIBuffer.doResetIndex,
      EIOutputBuffer.getInputBuffer, flag, same]
  | true => simp [view, ofBuffer, EIBuffer.ofBuffer, EIBuffer.doResetIndex,
      EIOutputBuffer.getInputBuffer, flag, same]

end EIInputObject

end Epi.Buffer
