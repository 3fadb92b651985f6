import Mathlib
import Epi.Library.Outcome

namespace Epi

/-- A `std::string` is its bytes. -/
abbrev Bytes := List UInt8

/-- The bytes of an ASCII literal of the source. -/
def text (literal : String) : Bytes := literal.toList.map fun letter => UInt8.ofNat letter.toNat

/-- The prefix that a C function reads from a string. -/
def cString (value : Bytes) : Bytes := value.takeWhile (· != 0)

theorem cString_eq_self {value : Bytes} (terminated : 0 ∉ value) : cString value = value := by
  apply List.takeWhile_eq_self_iff.mpr
  intro byte member
  simp only [bne_iff_ne, ne_eq]
  intro zero
  exact terminated (zero ▸ member)

/-- The exception classes. -/
inductive ExceptionClass where
  | epiTimeout
  | epiInvalidTerm
  | epiAlreadyInitialized
  | epiBadArgument
  | epiVariableUnbound
  | epiEncodeException
  | epiEIEncodeException
  | epiDecodeException
  | epiEIDecodeException
  | epiEmptyList
  | epiParseError
  | epiConnectionException
  | epiEIException
  | epiUnknownMessageException
  | epiAuthException
  | epiNetworkException
  deriving DecidableEq, Repr

namespace ExceptionClass

/-- The direct base below `EpiException`. -/
def base : ExceptionClass → ExceptionClass
  | epiEIEncodeException => epiEncodeException
  | epiEIDecodeException => epiDecodeException
  | epiEIException | epiUnknownMessageException | epiAuthException | epiNetworkException =>
      epiConnectionException
  | other => other

/-- A handler for a class accepts the class and the classes derived from it. -/
def isA (thrown caught : ExceptionClass) : Bool := thrown == caught || thrown.base == caught

end ExceptionClass

/-- An exception carries its class and its message. -/
structure EpiException where
  thrownClass : ExceptionClass
  mMsg : Bytes
  deriving DecidableEq, Repr

namespace EpiException

def invalidTerm (msg : String) : EpiException := ⟨.epiInvalidTerm, text msg⟩

def alreadyInitialized (msg : String) : EpiException := ⟨.epiAlreadyInitialized, text msg⟩

def badArgument (msg : String) : EpiException := ⟨.epiBadArgument, text msg⟩

def variableUnbound (variableName : Bytes) : EpiException :=
  ⟨.epiVariableUnbound, text "Variable '" ++ variableName ++ text "' is unbound"⟩

def eiEncode (msg : String) : EpiException := ⟨.epiEIEncodeException, text msg⟩

def eiDecode (msg : Bytes) : EpiException := ⟨.epiEIDecodeException, msg⟩

def decode (msg : Bytes) : EpiException := ⟨.epiDecodeException, msg⟩

def connection (msg : Bytes) : EpiException := ⟨.epiConnectionException, msg⟩

def unknownMessage (msg : String) : EpiException := ⟨.epiUnknownMessageException, text msg⟩

def auth (msg : Bytes) : EpiException := ⟨.epiAuthException, msg⟩

def network (msg : String) : EpiException := ⟨.epiNetworkException, text msg⟩

end EpiException

/-- A call of the library. -/
abbrev Call := Verification.Outcome EpiException

namespace Call

open Verification

/-- The specification lists the classes that may leave the function. -/
def throwsOnly {Value : Type} (listed : List ExceptionClass) (call : Call Value) : Call Value :=
  call.declares fun error => listed.any error.thrownClass.isA

/-- A `catch` of one class. -/
def catching {Value : Type} (caught : ExceptionClass) (handler : EpiException → Call Value)
    (call : Call Value) : Call Value :=
  call.handle fun error => if error.thrownClass.isA caught then some (handler error) else none

/-- A `catch` of the base class. -/
def catchingAny {Value : Type} (handler : EpiException → Call Value) (call : Call Value) :
    Call Value :=
  call.handle fun error => some (handler error)

@[simp] theorem throwsOnly_returns {Value : Type} (listed : List ExceptionClass) (value : Value) :
    throwsOnly listed (.returns value) = .returns value := rfl

@[simp] theorem throwsOnly_aborts {Value : Type} (listed : List ExceptionClass) :
    throwsOnly listed (.aborts : Call Value) = .aborts := rfl

@[simp] theorem throwsOnly_diverges {Value : Type} (listed : List ExceptionClass) :
    throwsOnly listed (.diverges : Call Value) = .diverges := rfl

@[simp] theorem throwsOnly_succeeds {Value : Type} (listed : List ExceptionClass)
    (call : Call Value) : (throwsOnly listed call).succeeds = call.succeeds :=
  Outcome.declares_succeeds _ call

theorem throwsOnly_eq_returns {Value : Type} {listed : List ExceptionClass} {call : Call Value}
    {value : Value} : throwsOnly listed call = .returns value ↔ call = .returns value :=
  Outcome.declares_eq_returns

/-- Only the listed classes leave a function. -/
theorem throwsOnly_eq_throws {Value : Type} {listed : List ExceptionClass} {call : Call Value}
    {error : EpiException} : throwsOnly listed call = .throws error ↔
      call = .throws error ∧ listed.any error.thrownClass.isA = true := by
  cases call with
  | throws other =>
      rw [throwsOnly, Outcome.declares_throws]
      split
      · rename_i allowed
        simp only [Outcome.throws.injEq]
        constructor
        · rintro rfl
          exact ⟨rfl, allowed⟩
        · exact And.left
      · rename_i refused
        simp only [Outcome.throws.injEq, reduceCtorEq, false_iff, not_and, Bool.not_eq_true]
        rintro rfl
        rwa [Bool.not_eq_true] at refused
  | _ => simp [throwsOnly]

@[simp] theorem catching_returns {Value : Type} (caught : ExceptionClass)
    (handler : EpiException → Call Value) (value : Value) :
    catching caught handler (.returns value) = .returns value := rfl

@[simp] theorem catching_aborts {Value : Type} (caught : ExceptionClass)
    (handler : EpiException → Call Value) : catching caught handler .aborts = .aborts := rfl

@[simp] theorem catching_diverges {Value : Type} (caught : ExceptionClass)
    (handler : EpiException → Call Value) : catching caught handler .diverges = .diverges := rfl

theorem catching_throws {Value : Type} {caught : ExceptionClass} {error : EpiException}
    (handler : EpiException → Call Value) (accepted : error.thrownClass.isA caught = true) :
    catching caught handler (.throws error) = handler error := by
  simp only [catching, Verification.Outcome.handle, accepted, if_true, Option.getD_some]

end Call

end Epi
