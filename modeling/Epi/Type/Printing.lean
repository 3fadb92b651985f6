import Epi.Type.Binding

namespace Epi.Type

open Verification

/-- What an output stream prints for a double. -/
abbrev Ostream := Binary64 → Bytes

/-- What an output stream prints for a number without a sign. -/
def printNat (value : Nat) : Bytes := text (Nat.repr value)

def printInt (value : Int) : Bytes :=
  if value < 0 then text "-" ++ printNat value.natAbs else printNat value.natAbs

/-- The texts with commas between them. -/
def separated : List Bytes → Bytes
  | [] => []
  | [elem] => elem
  | elem :: next :: rest => elem ++ text "," ++ separated (next :: rest)

/-- The `toString` functions of the classes without elements. -/
def SimpleTerm.toString (stream : Ostream) : SimpleTerm → Bytes
  | .erlAtom none => text "*** INVALID ATOM ***"
  | .erlAtom (some mAtom) => mAtom.text
  | .erlLong none => text "** INVALID LONG **"
  | .erlLong (some mValue) => printInt mValue.toInt
  | .erlDouble none => text "** INVALID DOUBLE **"
  | .erlDouble (some mValue) => stream mValue
  | .erlString none => text "** INVALID STRING **"
  | .erlString (some mString) => mString
  | .erlRef none => text "** INVALID REF **"
  | .erlRef (some ref) =>
      let ids := if ref.mNewStyle then [ref.mId0.toNat, ref.mId1.toNat, ref.mId2.toNat]
        else [ref.mId0.toNat]
      text "#Ref<" ++ ref.mNode.text ++ (ids.map fun id => text "." ++ printNat id).flatten ++
        text "." ++ printNat ref.mCreation.toNat ++ text ">"
  | .erlPort none => text "** INVALID PORT **"
  | .erlPort (some port) =>
      text "#Port<" ++ port.mNode.text ++ text "." ++ printNat port.mId.toNat ++ text "." ++
        printNat port.mCreation.toNat ++ text ">"
  | .erlPid none => text "** INVALID PID **"
  | .erlPid (some pid) =>
      text "#Pid<" ++ pid.mNode.text ++ text "." ++ printNat pid.mId.toNat ++ text "." ++
        printNat pid.mSerial.toNat ++ text ">"
  | .erlBinary none => text "** INVALID BINARY **"
  | .erlBinary (some mData) =>
      -- A `char` has a sign.
      text "#Bin<" ++ separated (mData.map fun byte => printInt byte.toBitVec.toInt) ++ text ">"
  | .erlEmptyList => text "[]"

namespace ErlTerm

mutual

/-- The `toString` functions, with the text of a bound variable. -/
def printed (stream : Ostream) (bound : Bytes → Option Bytes) : ErlTerm → Bytes
  | .simple value => value.toString stream
  | .erlTuple false _ _ => text "** INVALID TUPLE **"
  | .erlTuple true _ mElementVector =>
      text "\x7b" ++ separated (printedEach stream bound mElementVector) ++ text "\x7d"
  | .erlConsList false _ => text "** INVALID LIST **"
  | .erlConsList true mElementVector =>
      let texts := printedEach stream bound mElementVector
      -- A closed list has a tail. It is printed if it is not an empty list.
      text "[" ++ separated texts.dropLast ++
        (match mElementVector.getLast?, texts.getLast? with
          | some last, some tail =>
              if last.instanceOf .erlEmptyList then [] else text "|" ++ tail
          | _, _ => []) ++ text "]"
  | .erlVariable mName => if mName = anonymous then mName else (bound mName).getD mName

def printedEach (stream : Ostream) (bound : Bytes → Option Bytes) : List ErlTerm → List Bytes
  | [] => []
  | elem :: rest => printed stream bound elem :: printedEach stream bound rest

end

/-- `ErlTerm::toString`. The value of a bound variable is printed without the binding. -/
def toString (stream : Ostream) (binding : Option VariableBinding) (term : ErlTerm) : Bytes :=
  term.printed stream fun name =>
    (binding.bind (·.search name)).map fun value => value.printed stream fun _ => none

theorem printedEach_eq (stream : Ostream) (bound : Bytes → Option Bytes) (elems : List ErlTerm) :
    printedEach stream bound elems = elems.map (printed stream bound) := by
  induction elems with
  | nil => rfl
  | cons elem rest ih => rw [printedEach, List.map_cons, ih]

@[simp] theorem printed_tuple (stream : Ostream) (bound : Bytes → Option Bytes)
    (mArity : Option Nat) (elems : List ErlTerm) :
    printed stream bound (.erlTuple true mArity elems) =
      text "\x7b" ++ separated (elems.map (printed stream bound)) ++ text "\x7d" := by
  rw [printed, printedEach_eq]

/-- A proper list is printed without its tail. -/
@[simp] theorem printed_properList (stream : Ostream) (bound : Bytes → Option Bytes)
    (elems : List ErlTerm) :
    printed stream bound (.erlConsList true (elems ++ [.simple .erlEmptyList])) =
      text "[" ++ separated (elems.map (printed stream bound)) ++ text "]" := by
  rw [printed, printedEach_eq]
  simp [instanceOf, termType, SimpleTerm.termType]

@[simp] theorem printed_variable (stream : Ostream) (name : Bytes) :
    printed stream (fun _ => none) (.erlVariable name) = name := by
  rw [printed, Option.getD_none, ite_self]

end ErlTerm

end Epi.Type
