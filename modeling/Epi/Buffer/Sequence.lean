import Epi.Buffer.EIBuffer
import Epi.Buffer.RoundTrip

namespace Epi.Buffer

open Verification Epi.Type ErlTerm

/-- The term comes back exactly through one encoding and one decoding. -/
structure Exact (ei : Ei) (term : ErlTerm) : Prop where
  valid : term.Valid
  ground : term.Ground
  celled : term.Celled
  inRange : InRange ei term
  cleanNodes : CleanNodes term
  numeric : term.Numeric

/-- The calls of `writeTerm` in order. -/
def EIOutputBuffer.writeTerms (ei : Ei) (fuel : Nat) : List ErlTerm → Method EIOutputBuffer Unit
  | [] => pure ()
  | term :: rest => do
      writeTerm ei none fuel (some term)
      writeTerms ei fuel rest

/-- So many calls of `readTerm` in order. -/
def EIInputBuffer.readTerms (ei : Ei) (fuel : Nat) :
    Nat → Method EIInputBuffer (List (Option ErlTerm))
  | 0 => pure []
  | remaining + 1 => do
      let term ← readTerm ei fuel
      let rest ← readTerms ei fuel remaining
      return term :: rest

/-- The reads give terms that are equal to these, and the next one gives the null pointer. -/
def YieldsTerms (ei : Ei) (fuel : Nat) (buffer : EIInputBuffer) (terms : List ErlTerm) : Prop :=
  ∃ reads after, EIInputBuffer.readTerms ei fuel terms.length buffer =
      (.returns (reads.map some), after) ∧
    List.Forall₂ (fun read term => read.equals term = true) reads terms ∧
    (EIInputBuffer.readTerm ei fuel after).1 = .returns none

section Sequence

variable {ei : Ei} {fuel : Nat} {term : ErlTerm} {terms : List ErlTerm}

theorem Exact.writeTerm (exact : Exact ei term) (lawful : ei.Lawful) (enough : term.depth ≤ fuel)
    (buffer : EIOutputBuffer) :
    EIOutputBuffer.writeTerm ei none (fuel + 1) (some term) buffer =
      (.returns (), buffer.add (bytesOf ei term)) :=
  writeTerm_ground lawful exact.valid exact.ground exact.celled exact.inRange
    (Nat.succ_le_succ enough) buffer

theorem Exact.yields (exact : Exact ei term) (lawful : ei.Lawful) (enough : term.depth ≤ fuel) :
    Yields (EIInputBuffer.readTerm ei (fuel + 1)) (bytesOf ei term) (some (some term)) :=
  yields_ground lawful exact.valid exact.ground exact.celled exact.inRange exact.cleanNodes
    (Nat.succ_le_succ enough)

/-- The terms stand behind each other in the buffer. -/
theorem writeTerms_exact (lawful : ei.Lawful) (exact : ∀ term ∈ terms, Exact ei term)
    (enough : ∀ term ∈ terms, term.depth ≤ fuel) (buffer : EIOutputBuffer) :
    EIOutputBuffer.writeTerms ei (fuel + 1) terms buffer =
      (.returns (), buffer.add (terms.flatMap (bytesOf ei))) := by
  induction terms generalizing buffer with
  | nil => simp [EIOutputBuffer.writeTerms]
  | cons term rest ih =>
      rw [List.forall_mem_cons] at exact enough
      rw [EIOutputBuffer.writeTerms,
        Effect.bind_of_returns (exact.1.writeTerm lawful enough.1 buffer),
        ih exact.2 enough.2, EIOutputBuffer.add_add, List.flatMap_cons]

/-- The reads return the terms and stop behind their bytes. -/
theorem yields_readTerms (lawful : ei.Lawful) (exact : ∀ term ∈ terms, Exact ei term)
    (enough : ∀ term ∈ terms, term.depth ≤ fuel) :
    Yields (EIInputBuffer.readTerms ei (fuel + 1) terms.length) (terms.flatMap (bytesOf ei))
      (some (terms.map some)) := by
  induction terms with
  | nil => exact yields_pure []
  | cons term rest ih =>
      rw [List.forall_mem_cons] at exact enough
      rw [List.length_cons, List.flatMap_cons, EIInputBuffer.readTerms]
      apply (exact.1.yields lawful enough.1).bind
      · intro missing
        cases missing
      · intro read same
        obtain rfl := Option.some.inj same
        exact (ih exact.2 enough.2).map _

/-- Whatever stands behind the index, a read that starts before the end of the buffer does not
come back with the null pointer. -/
theorem readTerm_inside {buffer : EIInputBuffer} (inside : buffer.mDecodeIndex ≠ buffer.buff.length) :
    (EIInputBuffer.readTerm ei fuel buffer).1 ≠ .returns none := by
  cases fuel with
  | zero => simp [EIInputBuffer.readTerm]
  | succ fuel =>
      rw [EIInputBuffer.readTerm, Method.throwsOnly, Effect.mapOutcome_run, ne_eq,
        Call.throwsOnly_eq_returns, EIInputBuffer.readNext, if_neg inside]
      cases ei.getType buffer.buff buffer.mDecodeIndex with
      | none => simp
      | some item =>
          obtain ⟨type, size⟩ := item
          simp only
          rcases EIInputBuffer.readType ei (EIInputBuffer.readTerm ei fuel) size type buffer with
            ⟨outcome, after⟩
          cases outcome <;> simp

theorem readTerm_end {buffer : EIInputBuffer} (ended : buffer.mDecodeIndex = buffer.buff.length) :
    (EIInputBuffer.readTerm ei (fuel + 1) buffer).1 = .returns none := by
  rw [EIInputBuffer.readTerm, Method.throwsOnly, Effect.mapOutcome_run, EIInputBuffer.readNext,
    if_pos ended]
  rfl

/-- The reads start behind the version that the buffer was created with. -/
theorem getInputBuffer_create (lawful : ei.Lawful) (withVersion : Bool) (bytes unwritten : Bytes) :
    ((EIOutputBuffer.create ei withVersion).add bytes).getInputBuffer ei unwritten =
      ⟨(EIOutputBuffer.create ei withVersion).buff ++ (bytes ++ unwritten),
        (EIOutputBuffer.create ei withVersion).buff.length⟩ := by
  cases withVersion with
  | false => simp [EIOutputBuffer.create, EIOutputBuffer.add, EIOutputBuffer.getInputBuffer]
  | true =>
      simp [EIOutputBuffer.create, EIOutputBuffer.add, EIOutputBuffer.getInputBuffer,
        lawful.version, List.append_assoc]

/-- A sequence of terms is read back, and then the null pointer, exactly when the allocated bytes
are used up. -/
theorem yieldsTerms_iff (lawful : ei.Lawful) (exact : ∀ term ∈ terms, Exact ei term)
    (enough : ∀ term ∈ terms, term.depth ≤ fuel) (withVersion : Bool) :
    ∃ written, EIOutputBuffer.writeTerms ei (fuel + 1) terms (.create ei withVersion) =
        (.returns (), written) ∧
      ∀ mBuffer : EiXBuff, mBuffer.Holds written.buff →
        (YieldsTerms ei (fuel + 1) (EIInputObject.ofBuffer ei mBuffer written.mWithVersion).view
          terms ↔ mBuffer.index = mBuffer.buffsz) := by
  refine ⟨_, writeTerms_exact lawful exact enough _, ?_⟩
  intro mBuffer holds
  obtain ⟨unwritten, split, full⟩ := holds.split
  rw [EIInputObject.view_ofBuffer split, getInputBuffer_create lawful, ← full]
  have ran := (yields_readTerms lawful exact enough).returns
    (EIOutputBuffer.create ei withVersion).buff unwritten
  constructor
  · rintro ⟨reads, after, again, -, ended⟩
    rw [ran, Prod.mk.injEq] at again
    obtain ⟨-, rfl⟩ := again
    by_contra more
    refine readTerm_inside ?_ ended
    have longer := List.length_pos_iff.mpr more
    simp only [List.length_append]
    omega
  · rintro rfl
    refine ⟨terms, _, ran, ?_, readTerm_end (by simp)⟩
    apply List.forall₂_same.mpr
    intro term member
    exact (equals_self (exact term member).valid (exact term member).ground).mpr
      (exact term member).numeric

end Sequence

/-- The term `7`. -/
def sevenTerm : ErlTerm := .simple (.erlLong (some 7))

theorem exact_sevenTerm : Exact externalFormat sevenTerm :=
  ⟨by decide, by decide, by decide, by decide, by decide, by decide⟩

theorem yieldsTerms_iff_seven :
    ∃ written, EIOutputBuffer.writeTerms externalFormat 1 [sevenTerm, sevenTerm]
        (.create externalFormat true) = (.returns (), written) ∧
      ∀ mBuffer : EiXBuff, mBuffer.Holds written.buff →
        (YieldsTerms externalFormat 1
          (EIInputObject.ofBuffer externalFormat mBuffer written.mWithVersion).view
          [sevenTerm, sevenTerm] ↔ mBuffer.index = mBuffer.buffsz) :=
  yieldsTerms_iff ExternalFormat.lawful_externalFormat
    (by simp [exact_sevenTerm]) (by simp [sevenTerm, depth]) true

/-- A fresh buffer has room for 100 bytes, and one number uses three of them. -/
def roomyBuffer : EiXBuff := ⟨[131, 97, 7] ++ List.replicate 97 0, 3⟩

/-- After the only term the read goes on in the unused bytes. -/
theorem roomyBuffer_overread : externalFormat.Lawful ∧ Exact externalFormat sevenTerm ∧
    EIOutputBuffer.writeTerms externalFormat 1 [sevenTerm] (.create externalFormat true) =
      (.returns (), ⟨[131, 97, 7], true⟩) ∧
    roomyBuffer.Holds [131, 97, 7] ∧ roomyBuffer.buffsz = 100 ∧
    ¬ YieldsTerms externalFormat 1
      (EIInputObject.ofBuffer externalFormat roomyBuffer true).view [sevenTerm] := by
  refine ⟨ExternalFormat.lawful_externalFormat, exact_sevenTerm, rfl, by decide, by decide, ?_⟩
  rintro ⟨reads, after, ran, -, ended⟩
  have first : EIInputBuffer.readTerms externalFormat 1 1
      (EIInputObject.ofBuffer externalFormat roomyBuffer true).view =
        (.returns [some sevenTerm], ⟨roomyBuffer.buff, 3⟩) := rfl
  rw [List.length_singleton, first, Prod.mk.injEq] at ran
  obtain ⟨-, rfl⟩ := ran
  exact readTerm_inside (by decide) ended

end Epi.Buffer
