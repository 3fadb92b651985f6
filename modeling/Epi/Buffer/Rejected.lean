import Epi.Buffer.ExternalFormat
import Epi.Buffer.OutputBuffer
import Epi.Buffer.PlainBuffer
import Epi.Library.Run
import Epi.Type.SubstIncomplete

namespace Epi.Buffer

open Verification Epi.Type ErlTerm

/-- The error of the interface for an invalid term. -/
def Rejects {Value : Type} (outcome : Call Value) : Prop :=
  ∃ error, outcome = .throws error ∧ error.thrownClass = .epiInvalidTerm

/-- The steps of a `PlainBuffer`: a write that returns, and one that throws. -/
inductive PlainBuffer.Writes :
    Transition PlainBuffer (Option VariableBinding × Option ErlTerm)
  | wrote {buffer after : PlainBuffer} {binding : Option VariableBinding} {t : Option ErlTerm}
      (ran : PlainBuffer.writeTerm binding t buffer = (.returns (), after)) :
      Writes buffer (binding, t) after
  | threw {buffer after : PlainBuffer} {binding : Option VariableBinding} {t : Option ErlTerm}
      {error : EpiException}
      (ran : PlainBuffer.writeTerm binding t buffer = (.throws error, after)) :
      Writes buffer (binding, t) after

/-- The term and the values are terms that the public operations can leave behind. -/
def BuiltWrite (write : Option VariableBinding × Option ErlTerm) : Prop :=
  (∀ term ∈ write.2, term.Built) ∧ ∀ held ∈ write.1, held.Values Built

/-- The term is absent or has no value of its own, an entry stops its substitution, or the result is
complete and without variables. -/
def StoresComplete (write : Option VariableBinding × Option ErlTerm) : Prop :=
  ∀ term ∈ write.2, term.Unset ∨ term.Stopped write.1 ∨ term.Fills write.1

section Rejection

variable {binding : Option VariableBinding}

/-- A write to a `PlainBuffer` ends as the substitution does. -/
theorem plainBuffer_throws_iff {term : ErlTerm} {buffer after : PlainBuffer}
    {error : EpiException} :
    PlainBuffer.writeTerm binding (some term) buffer = (.throws error, after) ↔
      (term.subst binding = .throws error ∧
        [.epiInvalidTerm, .epiEncodeException, .epiVariableUnbound].any error.thrownClass.isA) ∧
      buffer = after := by
  simp only [PlainBuffer.writeTerm, Method.throwsOnly, Effect.mapOutcome_run, Prod.mk.injEq,
    Call.throwsOnly_eq_throws]
  cases ran : term.subst binding with
  | returns encoded =>
      simp only [Effect.lift_returns_bind, reduceCtorEq, false_and, iff_false]
      rintro ⟨⟨stored, -⟩, -⟩
      cases stored
  | throws other => simp only [Effect.bind_run, Effect.lift_run, Outcome.throws.injEq]
  | _ => simp only [Effect.bind_run, Effect.lift_run, reduceCtorEq, false_and]

/-- A `PlainBuffer` rejects the terms without a value of their own. -/
theorem plainBuffer_rejects_iff {term : ErlTerm} (built : term.Built) (buffer : PlainBuffer) :
    Rejects (PlainBuffer.writeTerm binding (some term) buffer).1 ↔ term.Unset := by
  have ended : Rejects (PlainBuffer.writeTerm binding (some term) buffer).1 ↔
      ∃ error, term.subst binding = .throws error ∧ error.thrownClass = .epiInvalidTerm := by
    refine exists_congr fun error => ?_
    rw [and_congr_left_iff]
    intro invalid
    have listed : [.epiInvalidTerm, .epiEncodeException, .epiVariableUnbound].any
        error.thrownClass.isA = true := by
      rw [invalid]
      rfl
    constructor
    · intro thrown
      exact ((plainBuffer_throws_iff.mp (Prod.ext thrown rfl)).1).1
    · intro thrown
      exact congrArg Prod.fst (plainBuffer_throws_iff.mpr ⟨⟨thrown, listed⟩, rfl⟩)
  rw [ended]
  refine ⟨?_, subst_unset⟩
  rintro ⟨error, thrown, invalid⟩
  rcases subst_built_ends built with ends | ⟨unset, -⟩
  · unfold EndsAlone at ends
    rw [thrown] at ends
    split at ends
    · obtain ⟨value, returned⟩ := ends
      cases returned
    · split at ends
      · obtain ⟨mName, same⟩ := ends
        cases same
        cases invalid
      · cases ends
  · exact unset

/-- An `EIOutputBuffer` rejects them as well. -/
theorem eiOutputBuffer_rejects (ei : Ei) {term : ErlTerm} (unset : term.Unset) (fuel : Nat)
    (buffer : EIOutputBuffer) :
    Rejects (EIOutputBuffer.writeTerm ei binding (fuel + 1) (some term) buffer).1 := by
  cases term with
  | simple value =>
      cases value with
      | erlEmptyList => cases unset
      | erlAtom held | erlLong held | erlDouble held | erlString held | erlRef held | erlPort held
      | erlPid held | erlBinary held =>
          cases held with
          | none => exact ⟨_, rfl, rfl⟩
          | some value => cases unset
  | erlTuple mInitialized mArity elems =>
      cases mArity with
      | none => exact ⟨_, rfl, rfl⟩
      | some arity => cases unset
  | _ => cases unset

end Rejection

section Runs

/-- The terms of the buffer are valid and have no variables. -/
def PlainBuffer.Complete (buffer : PlainBuffer) : Prop :=
  ∀ term ∈ buffer.mTermList, term.Valid ∧ term.Ground

/-- One write keeps the terms complete exactly when what it stores is. -/
theorem writes_complete {buffer after : PlainBuffer}
    {write : Option VariableBinding × Option ErlTerm} (built : BuiltWrite write)
    (taken : PlainBuffer.Writes buffer write after) :
    after.Complete ↔ buffer.Complete ∧ StoresComplete write := by
  cases taken with
  | @wrote _ _ binding t ran =>
      cases t with
      | none => cases ran
      | some term =>
          have termBuilt := built.1 term rfl
          obtain ⟨encoded, substituted⟩ := PlainBuffer.writeTerm_succeeds.mp
            (congrArg (fun result => result.1.succeeds) ran)
          rw [PlainBuffer.writeTerm_of_returns substituted] at ran
          cases ran
          have unset : ¬ term.Unset := by
            intro unset
            obtain ⟨error, thrown, -⟩ := @subst_unset binding term unset
            rw [substituted] at thrown
            cases thrown
          have stored : StoresComplete (binding, some term) ↔ term.Fills binding := by
            simp [StoresComplete, unset, not_stopped_of_returns termBuilt substituted]
          rw [stored, ← subst_fills_iff built.2 termBuilt substituted, PlainBuffer.Complete,
            List.forall_mem_append, List.forall_mem_singleton]
          rfl
  | @threw _ _ binding t error ran =>
      cases t with
      | none =>
          cases ran
          simp [StoresComplete]
      | some term =>
          obtain ⟨⟨thrown, -⟩, rfl⟩ := plainBuffer_throws_iff.mp ran
          have stored : StoresComplete (binding, some term) := by
            rintro other same
            cases same
            rcases subst_returns_or (built.1 term rfl) with ⟨result, returned⟩ | ended
            · rw [thrown] at returned
              cases returned
            · exact ended.imp_right .inl
          exact (and_iff_left stored).symm

theorem run_complete {writes : List (Option VariableBinding × Option ErlTerm)}
    {buffer : PlainBuffer} (built : ∀ write ∈ writes, BuiltWrite write)
    (run : Run (· = PlainBuffer.create) PlainBuffer.Writes writes buffer) :
    buffer.Complete ↔ ∀ write ∈ writes, StoresComplete write := by
  induction run with
  | start initial =>
      subst initial
      simp [PlainBuffer.Complete, PlainBuffer.create]
  | step before taken ih =>
      rw [List.forall_mem_append] at built ⊢
      rw [writes_complete (by simpa using built.2) taken, ih built.1, List.forall_mem_singleton]

/-- Both buffers reject an invalid term exactly when it has no value of its own. What a `PlainBuffer`
holds after a sequence of writes is valid and without variables exactly when every write stores
nothing else. -/
theorem invalid_rejected_iff (ei : Ei) :
    (∀ binding term plain buffer fuel, term.Built → term.isValid = false →
      ((Rejects (PlainBuffer.writeTerm binding (some term) plain).1 ∧
        Rejects (EIOutputBuffer.writeTerm ei binding (fuel + 1) (some term) buffer).1) ↔
          term.Unset)) ∧
    ∀ writes buffer, (∀ write ∈ writes, BuiltWrite write) →
      Run (· = PlainBuffer.create) PlainBuffer.Writes writes buffer →
      ((∀ term ∈ buffer.mTermList, term.Valid ∧ term.Ground) ↔
        ∀ write ∈ writes, StoresComplete write) := by
  constructor
  · intro binding term plain buffer fuel built _
    rw [plainBuffer_rejects_iff built]
    exact ⟨And.left, fun unset => ⟨unset, eiOutputBuffer_rejects ei unset fuel buffer⟩⟩
  · exact fun writes buffer built run => run_complete built run

end Runs

/-- The tuple `{1, _}` whose second element was not set. -/
def halfTuple : ErlTerm := .erlTuple false (some 2) [.simple (.erlLong (some 1))]

theorem halfTuple_built : halfTuple.Built :=
  ⟨by decide, by decide, by decide⟩

theorem halfTuple_written :
    Run (· = PlainBuffer.create) PlainBuffer.Writes [(none, some halfTuple)] ⟨0, [halfTuple]⟩ := by
  have created : Run (· = PlainBuffer.create) PlainBuffer.Writes [] PlainBuffer.create := .start rfl
  have ran : PlainBuffer.writeTerm none (some halfTuple) PlainBuffer.create =
      (.returns (), ⟨0, [halfTuple]⟩) := rfl
  exact created.step (.wrote ran)

theorem halfTuple_builtWrite : ∀ write ∈ [((none : Option VariableBinding), some halfTuple)],
    BuiltWrite write := by
  rw [List.forall_mem_singleton]
  exact ⟨by simpa using halfTuple_built, by simp⟩

theorem invalid_rejected_iff_half :
    ((Rejects (PlainBuffer.writeTerm none (some halfTuple) PlainBuffer.create).1 ∧
        Rejects (EIOutputBuffer.writeTerm externalFormat none 2 (some halfTuple)
          (EIOutputBuffer.create externalFormat true)).1) ↔ halfTuple.Unset) ∧
    ((∀ term ∈ [halfTuple], term.Valid ∧ term.Ground) ↔
      ∀ write ∈ [((none : Option VariableBinding), some halfTuple)], StoresComplete write) :=
  ⟨(invalid_rejected_iff externalFormat).1 none halfTuple _ _ 1 halfTuple_built rfl,
    (invalid_rejected_iff externalFormat).2 _ _ halfTuple_builtWrite halfTuple_written⟩

/-- A `PlainBuffer` stores the tuple, and an `EIOutputBuffer` reads behind its vector. -/
theorem invalid_stored :
    PlainBuffer.writeTerm none (some halfTuple) PlainBuffer.create =
      (.returns (), ⟨0, [halfTuple]⟩) ∧
    (EIOutputBuffer.writeTerm externalFormat none 2 (some halfTuple)
      (EIOutputBuffer.create externalFormat true)).1 = .aborts ∧
    ¬ (∀ binding term plain buffer fuel, term.Built → term.isValid = false →
      Rejects (PlainBuffer.writeTerm binding (some term) plain).1 ∧
        Rejects (EIOutputBuffer.writeTerm externalFormat binding (fuel + 1) (some term) buffer).1) ∧
    ¬ ∀ writes buffer, (∀ write ∈ writes, BuiltWrite write) →
      Run (· = PlainBuffer.create) PlainBuffer.Writes writes buffer →
      ∀ term ∈ buffer.mTermList, term.Valid ∧ term.Ground := by
  refine ⟨rfl, rfl, ?_, ?_⟩
  · intro rejected
    obtain ⟨error, thrown, -⟩ := (rejected none halfTuple PlainBuffer.create
      (EIOutputBuffer.create externalFormat true) 1 halfTuple_built rfl).1
    cases thrown
  · intro complete
    have valid := (complete _ _ halfTuple_builtWrite halfTuple_written halfTuple
      List.mem_cons_self).1
    exact absurd valid (by decide)

end Epi.Buffer
