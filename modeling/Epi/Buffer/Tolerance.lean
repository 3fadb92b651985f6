import Epi.Buffer.Progress
import Epi.Buffer.Received

namespace Epi.Buffer

open Verification Epi.Type

/-- An arity that a header reports is an `int` of 32 bits. -/
structure Ei.SignedHeaders (ei : Ei) : Prop where
  tupleHeader : ∀ buff index arity next,
    ei.decodeTupleHeader buff index = some (arity, next) → -2 ^ 31 ≤ arity ∧ arity < 2 ^ 31
  listHeader : ∀ buff index arity next,
    ei.decodeListHeader buff index = some (arity, next) → -2 ^ 31 ≤ arity ∧ arity < 2 ^ 31

/-- What may come of a read: a complete term, nothing at the end, or an exception of the kind that
`readTerm` declares. -/
def EIInputBuffer.Tolerates (buffer : EIInputBuffer) : Call (Option ErlTerm) → Prop
  | .returns none => buffer.mDecodeIndex = buffer.buff.length
  | .returns (some term) => term.Valid ∧ term.Ground ∧ term.Celled ∧ Flat term
  | .throws error => Undecodable error
  | .aborts => False
  | .diverges => False

instance (buffer : EIInputBuffer) (outcome : Call (Option ErlTerm)) :
    Decidable (buffer.Tolerates outcome) :=
  match outcome with
  | .returns none => inferInstanceAs (Decidable (buffer.mDecodeIndex = buffer.buff.length))
  | .returns (some _) => inferInstanceAs (Decidable (_ ∧ _ ∧ _ ∧ _))
  | .throws _ => inferInstanceAs (Decidable (_ = true))
  | .aborts => .isFalse id
  | .diverges => .isFalse id

/-- The next term is a tuple or a list whose header reports an arity below zero. -/
def EIInputBuffer.CountsDown (ei : Ei) (buffer : EIInputBuffer) : Prop :=
  buffer.mDecodeIndex ≠ buffer.buff.length ∧
    ∃ item ∈ ei.getType buffer.buff buffer.mDecodeIndex,
      ∃ arity ∈ ei.headerArity buffer.buff buffer.mDecodeIndex item.1, arity < 0

section Reading

variable {ei : Ei} {fuel : Nat} {buffer : EIInputBuffer}

theorem settles_readTerm (forward : ei.Forward) (fuel : Nat) :
    Settles fuel SoundRead Undecodable (EIInputBuffer.readTerm ei fuel) := by
  intro buffer inside few
  obtain ⟨settled, reaches, -, -⟩ := readTerm_progress forward inside few
  exact ⟨settled, reaches⟩

/-- With an arity below zero neither loop runs, and the new object comes back as it was built. -/
theorem readType_negative (signed : ei.SignedHeaders)
    (nested : Method EIInputBuffer (Option ErlTerm)) (size : Nat) {type : ExternalType}
    {arity : Int}
    (header : ei.headerArity buffer.buff buffer.mDecodeIndex type = some arity)
    (negative : arity < 0) :
    ∃ term, (EIInputBuffer.readType ei nested size type buffer).1 = .returns term ∧
      term.isValid = false := by
  cases type with
  | smallTupleExt | largeTupleExt =>
      obtain ⟨⟨count, next⟩, read, rfl⟩ := Option.map_eq_some_iff.mp header
      have low := (signed.tupleHeader _ _ _ _ read).1
      refine ⟨(ErlTuple.ofArity (EIInputBuffer.unsignedOf count)).toTerm, ?_, ?_⟩
      · rw [EIInputBuffer.readType, Effect.bind_run, EIInputBuffer.decode, read]
        simp only [Int.toNat_of_nonpos negative.le]
        rfl
      · change (EIInputBuffer.unsignedOf count == 0) = false
        rw [beq_eq_false_iff_ne, EIInputBuffer.unsignedOf, if_pos negative]
        omega
  | listExt =>
      obtain ⟨⟨count, next⟩, read, rfl⟩ := Option.map_eq_some_iff.mp header
      refine ⟨ErlConsList.uninitialized.toTerm, ?_, rfl⟩
      rw [EIInputBuffer.readType, Effect.bind_run, EIInputBuffer.decode, read]
      simp only [if_neg negative.ne, EIInputBuffer.readCells, if_pos negative]
      rfl
  | _ => cases header

/-- The term behind a type is all that a read gives. -/
theorem readTerm_typed {type : ExternalType} {size : Nat}
    (some : buffer.mDecodeIndex ≠ buffer.buff.length)
    (typed : ei.getType buffer.buff buffer.mDecodeIndex = .some (type, size)) :
    (EIInputBuffer.readTerm ei (fuel + 1) buffer).1 =
      Call.throwsOnly [.epiDecodeException]
        ((EIInputBuffer.readType ei (EIInputBuffer.readTerm ei fuel) size type buffer).1 >>=
          fun returnTerm => .returns (.some returnTerm)) := by
  rw [EIInputBuffer.readTerm, Method.throwsOnly, Effect.mapOutcome_run, EIInputBuffer.readNext,
    if_neg some, typed]

theorem tolerates_of_settled {outcome : Call ErlTerm} (settled : Settled Whole Undecodable outcome) :
    buffer.Tolerates (Call.throwsOnly [.epiDecodeException]
      (outcome >>= fun returnTerm => .returns (some returnTerm))) := by
  cases outcome with
  | returns term =>
      have whole : Whole term := settled
      exact ⟨whole.valid, whole.ground, whole.celled, .of_valid whole.valid⟩
  | throws error =>
      have listed : error.thrownClass.isA .epiDecodeException = true := settled
      have declared : Call.throwsOnly [.epiDecodeException]
          (.throws error : Call (Option ErlTerm)) = .throws error := by
        simp [Call.throwsOnly, Outcome.declares_throws, listed]
      change buffer.Tolerates (Call.throwsOnly [.epiDecodeException] (.throws error))
      rw [declared]
      exact settled
  | aborts => exact settled.elim
  | diverges => exact settled.elim

/-- A read is tolerant of every buffer, unless the next term is one whose header counts below
zero. -/
theorem readTerm_tolerates_iff (forward : ei.Forward) (signed : ei.SignedHeaders)
    (inside : buffer.mDecodeIndex ≤ buffer.buff.length)
    (few : buffer.buff.length < buffer.mDecodeIndex + fuel) :
    buffer.Tolerates (EIInputBuffer.readTerm ei fuel buffer).1 ↔ ¬ buffer.CountsDown ei := by
  cases fuel with
  | zero => exact absurd few (by omega)
  | succ fuel =>
      by_cases ended : buffer.mDecodeIndex = buffer.buff.length
      · rw [EIInputBuffer.readTerm, Method.throwsOnly, Effect.mapOutcome_run, EIInputBuffer.readNext,
          if_pos ended]
        exact ⟨fun _ counts => counts.1 ended, fun _ => ended⟩
      · cases typed : ei.getType buffer.buff buffer.mDecodeIndex with
        | none =>
            rw [EIInputBuffer.readTerm, Method.throwsOnly, Effect.mapOutcome_run,
              EIInputBuffer.readNext, if_neg ended, typed]
            refine ⟨fun _ counts => ?_, fun _ => rfl⟩
            obtain ⟨-, item, found, -⟩ := counts
            rw [typed] at found
            cases found
        | some item =>
            obtain ⟨type, size⟩ := item
            have counts : buffer.CountsDown ei ↔
                ∃ arity ∈ ei.headerArity buffer.buff buffer.mDecodeIndex type, arity < 0 := by
              simp [EIInputBuffer.CountsDown, ended, typed]
            rw [counts, readTerm_typed ended typed]
            constructor
            · rintro tolerates ⟨arity, header, negative⟩
              obtain ⟨term, read, invalid⟩ := readType_negative signed
                (EIInputBuffer.readTerm ei fuel) size header negative
              rw [read] at tolerates
              have valid : term.Valid := tolerates.1
              rw [valid.isValid] at invalid
              cases invalid
            · intro upward
              have counted : ∀ count ∈ ei.headerArity buffer.buff buffer.mDecodeIndex type,
                  0 ≤ count := fun count header => not_lt.mp fun low => upward ⟨count, header, low⟩
              have settled :=
                (readType_progress forward (settles_readTerm forward fuel) size type inside few).settled
              apply tolerates_of_settled
              cases read : (EIInputBuffer.readType ei (EIInputBuffer.readTerm ei fuel) size type
                  buffer).1 with
              | returns term =>
                  rw [read] at settled
                  exact settled.sound (settled.complete counted)
              | _ => rwa [read] at settled

end Reading

namespace ExternalFormat

open ByteParser

/-- The arity that a header reports went through an `int`. -/
theorem signed_tagged {count : UInt8 → ByteParser Nat} {buff : Bytes} {index : Nat}
    {arity : Int} {next : Nat}
    (read : decoder (tagged fun tag => do
      let arity ← count tag
      return intOf arity) buff index = some (arity, next)) : -2 ^ 31 ≤ arity ∧ arity < 2 ^ 31 := by
  obtain ⟨⟨value, rest⟩, parsed, same⟩ := Option.map_eq_some_iff.mp read
  obtain ⟨rfl, -⟩ := Prod.mk.inj same
  obtain ⟨⟨tag, left⟩, -, body⟩ := Option.bind_eq_some_iff.mp parsed
  obtain ⟨⟨counted, behind⟩, -, ended⟩ := Option.bind_eq_some_iff.mp body
  obtain ⟨rfl, -⟩ := Prod.mk.inj (Option.some.inj ended)
  exact ⟨BitVec.le_toInt _, BitVec.toInt_lt⟩

theorem signedHeaders_externalFormat : externalFormat.SignedHeaders where
  tupleHeader _ _ _ _ read := @signed_tagged tupleArity _ _ _ _ read
  listHeader _ _ _ _ read := @signed_tagged listArity _ _ _ _ read

end ExternalFormat

open ExternalFormat

/-- A tuple header with the lowest arity, and nothing behind it. -/
def negativeTuple : EIInputBuffer := ⟨[105, 128, 0, 0, 0], 0⟩

/-- The read gives a tuple that misses all of its elements. -/
theorem readTerm_negativeTuple :
    externalFormat.Forward ∧ externalFormat.SignedHeaders ∧
      (EIInputBuffer.readTerm externalFormat 6 negativeTuple).1 =
        .returns (some (.erlTuple false (some 2147483648) [])) ∧
      ¬ negativeTuple.Tolerates (EIInputBuffer.readTerm externalFormat 6 negativeTuple).1 :=
  ⟨forward_externalFormat, signedHeaders_externalFormat, by rfl, by decide⟩

/-- An empty tuple inside of a tuple is read. -/
theorem readTerm_tolerates_nested :
    (⟨[104, 1, 104, 0], 0⟩ : EIInputBuffer).Tolerates
      (EIInputBuffer.readTerm externalFormat 5 ⟨[104, 1, 104, 0], 0⟩).1 :=
  (readTerm_tolerates_iff forward_externalFormat signedHeaders_externalFormat (by decide)
    (by decide)).mpr (by
      rintro ⟨-, item, typed, arity, header, negative⟩
      obtain rfl := Option.some.inj typed
      obtain rfl := Option.some.inj header
      exact absurd negative (by decide))

end Epi.Buffer
