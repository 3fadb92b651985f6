import Epi.Type.Subst

namespace Epi.Buffer

open Verification Epi.Type

/-- A `PlainBuffer` keeps the terms themselves. -/
structure PlainBuffer where
  mDecodeIndex : Nat
  mTermList : List ErlTerm

namespace PlainBuffer

/-- The constructor. -/
def create : PlainBuffer := ⟨0, []⟩

/-- `PlainBuffer::readTerm`. A read behind the vector has no defined result. -/
def readTerm : Method PlainBuffer (Option ErlTerm) := fun buffer =>
  if buffer.mDecodeIndex = buffer.mTermList.length then
    (.returns none, buffer)
  else
    match buffer.mTermList[buffer.mDecodeIndex]? with
    | some term => (.returns (some term), { buffer with mDecodeIndex := buffer.mDecodeIndex + 1 })
    | none => (.aborts, buffer)

/-- `PlainBuffer::writeTerm`. The null pointer is an absent term. -/
def writeTerm (binding : Option VariableBinding) (t : Option ErlTerm) : Method PlainBuffer Unit :=
  Method.throwsOnly [.epiInvalidTerm, .epiEncodeException, .epiVariableUnbound] <|
    match t with
    | none => Effect.fail (.invalidTerm "Null pointer")
    | some t => do
        let encoded ← Effect.lift (t.subst binding)
        let buffer ← Effect.get
        Effect.set { buffer with mTermList := buffer.mTermList ++ [encoded.term] }

/-- `PlainBuffer::getInputBuffer` copies the terms and starts at the first one. -/
def getInputBuffer (buffer : PlainBuffer) : PlainBuffer := ⟨0, buffer.mTermList⟩

theorem writeTerm_of_returns {binding : Option VariableBinding} {term : ErlTerm}
    {encoded : Substituted} (ran : term.subst binding = .returns encoded) (buffer : PlainBuffer) :
    writeTerm binding (some term) buffer =
      (.returns (), { buffer with mTermList := buffer.mTermList ++ [encoded.term] }) := by
  simp only [writeTerm, Method.throwsOnly, Effect.mapOutcome_run, ran, Effect.lift_returns_bind]
  rfl

/-- A term is written exactly when its substitution returns. -/
theorem writeTerm_succeeds {binding : Option VariableBinding} {term : ErlTerm}
    {buffer : PlainBuffer} : (writeTerm binding (some term) buffer).1.succeeds = true ↔
      ∃ encoded, term.subst binding = .returns encoded := by
  constructor
  · intro wrote
    rw [writeTerm, Method.throwsOnly, Effect.mapOutcome_run, Call.throwsOnly_succeeds,
      Effect.bind_run, Effect.lift_run] at wrote
    cases ran : term.subst binding with
    | returns encoded => exact ⟨encoded, rfl⟩
    | _ =>
        rw [ran] at wrote
        cases wrote
  · rintro ⟨encoded, ran⟩
    rw [writeTerm_of_returns ran]
    rfl

end PlainBuffer

end Epi.Buffer
