import Epi.Buffer.PlainBuffer
import Epi.Buffer.Received

namespace Epi.Buffer

open Verification Epi.Type ErlTerm

/-- What `EIOutputBuffer::writeTerm` asks of a term: its variables are named and have complete
values. -/
def Writable (binding : Option VariableBinding) (term : ErlTerm) : Prop :=
  Named term ∧ Written (filled binding term)

instance (binding : Option VariableBinding) (term : ErlTerm) : Decidable (Writable binding term) :=
  inferInstanceAs (Decidable (_ ∧ _))

/-- A `PlainBuffer` and an `EIOutputBuffer` take the term or refuse it together, and the first
terms read from their input buffers are equal and have no variables. -/
def BuffersAgree (ei : Ei) (binding : Option VariableBinding) (withVersion : Bool)
    (unwritten : Bytes) (fuel : Nat) (term : ErlTerm) : Prop :=
  let plain := PlainBuffer.writeTerm binding (some term) .create
  let encoded := EIOutputBuffer.writeTerm ei binding fuel (some term) (.create ei withVersion)
  (plain.1.succeeds = true ↔ encoded.1.succeeds = true) ∧
    (plain.1.succeeds = true → encoded.1.succeeds = true → ∃ first second,
      (PlainBuffer.readTerm plain.2.getInputBuffer).1 = .returns (some first) ∧
      (EIInputBuffer.readTerm ei fuel (encoded.2.getInputBuffer ei unwritten)).1 =
        .returns (some second) ∧
      first.equals second = true ∧ first.Ground ∧ second.Ground)

section Agreement

variable {ei : Ei} {binding : Option VariableBinding} {term : ErlTerm} {fuel : Nat}

theorem inRange_filled (values : ∀ held ∈ binding, held.Values (InRange ei))
    (inRange : InRange ei term) : InRange ei (filled binding term) := by
  apply every_filled _ _ values inRange
  · intro mInitialized mArity elems others same carried
    simpa only [rangeNode, same] using carried
  · intro mInitialized elems others same carried
    simpa only [rangeNode, same] using carried

/-- An `EIOutputBuffer` takes exactly the writable terms. -/
theorem writeTerm_succeeds (lawful : ei.Lawful) (valid : term.Valid) (inRange : InRange ei term)
    (values : ∀ held ∈ binding, held.Values fun value => value.Storable ∧ InRange ei value)
    (enough : (filled binding term).depth + 2 ≤ fuel) (buffer : EIOutputBuffer) :
    (EIOutputBuffer.writeTerm ei binding fuel (some term) buffer).1.succeeds = true ↔
      Writable binding term := by
  constructor
  · intro wrote
    obtain ⟨done, ran⟩ := Outcome.succeeds_iff.mp wrote
    exact written_of_returns (fun held bound name value known => (values held bound name value known).1)
      valid.built (Prod.ext ran rfl)
  · rintro ⟨named, written⟩
    have ranges : InRange ei (filled binding term) := inRange_filled
      (fun held bound name value known => (values held bound name value known).2) inRange
    rw [writeTerm_filled lawful written ranges named (.inr enough) buffer]
    rfl

/-- A term that both buffers take has fine variables. -/
theorem fine_of_writable (substitutable : term.Substitutable binding)
    (writable : Writable binding term) : term.Fine binding := by
  cases term with
  | erlVariable mName =>
      obtain ⟨value, known⟩ := Option.isSome_iff_exists.mp substitutable
      have valid := writable.2.isValid
      rw [filled_erlVariable known] at valid
      rw [Fine, every_erlVariable, fineNode, known]
      exact valid
  | _ => exact substitutable

/-- The first read from the buffer behind the version. -/
theorem readTerm_getInputBuffer (lawful : ei.Lawful) {bytes : Bytes} {result : Option (Option ErlTerm)}
    (yields : Yields (EIInputBuffer.readTerm ei fuel) bytes result) (withVersion : Bool)
    (unwritten : Bytes) :
    (EIInputBuffer.readTerm ei fuel (EIOutputBuffer.getInputBuffer ei unwritten
      ((EIOutputBuffer.create ei withVersion).add bytes))).1.toOption = result := by
  cases withVersion with
  | false => exact (yields [] unwritten).1
  | true =>
      have skipped := lawful.version (bytes ++ unwritten)
      have ran := (yields ei.version unwritten).1
      simp only [EIOutputBuffer.getInputBuffer, EIOutputBuffer.add, EIOutputBuffer.create, if_true,
        List.append_assoc, skipped, Option.map_some, Option.getD_some]
      exact ran

/-- A substituted term and a received term are equal and without variables exactly when nothing
was lost on either way. -/
theorem equal_reads_iff (values : ∀ held ∈ binding, held.Values Storable) (valid : term.Valid)
    (fine : term.Fine binding) (writable : Writable binding term) :
    (∃ second, received (filled binding term) = some second ∧
      (substituted binding term).equals second = true ∧ (substituted binding term).Ground ∧
        second.Ground) ↔
      term.Rebuilt ∧ (filled binding term).Numeric ∧ CleanNodes (filled binding term) := by
  have whole := equals_self (filled_valid values valid fine) writable.2.ground
  constructor
  · rintro ⟨second, read, same, ground, -⟩
    have rebuilt := rebuilt_of_substituted ground
    rw [substituted_eq_filled rebuilt, equals_symm] at same
    have clean := clean_of_received read same
    rw [received_clean clean] at read
    rw [← Option.some.inj read] at same
    exact ⟨rebuilt, whole.mp same, clean⟩
  · rintro ⟨rebuilt, numeric, clean⟩
    rw [substituted_eq_filled rebuilt, received_clean clean]
    exact ⟨_, rfl, whole.mpr numeric, writable.2.ground, writable.2.ground⟩

/-- The two buffers agree on a term exactly when both have to refuse it, or none does and its lists
are rebuilt, its doubles are numbers and its node names hold no NUL. -/
theorem buffersAgree_iff (lawful : ei.Lawful) (valid : term.Valid) (inRange : InRange ei term)
    (values : ∀ held ∈ binding, held.Values fun value => value.Storable ∧ InRange ei value)
    (enough : (filled binding term).depth + 2 ≤ fuel) (withVersion : Bool) (unwritten : Bytes) :
    BuffersAgree ei binding withVersion unwritten fuel term ↔
      (¬ term.Substitutable binding ∧ ¬ Writable binding term) ∨
      (term.Substitutable binding ∧ Writable binding term ∧ term.Rebuilt ∧
        (filled binding term).Numeric ∧ CleanNodes (filled binding term)) := by
  have plainTakes : (PlainBuffer.writeTerm binding (some term) .create).1.succeeds = true ↔
      term.Substitutable binding :=
    PlainBuffer.writeTerm_succeeds.trans (subst_returns_iff valid)
  have eiTakes := writeTerm_succeeds lawful valid inRange values enough
    (.create ei withVersion)
  unfold BuffersAgree
  simp only [plainTakes, eiTakes]
  by_cases substitutable : term.Substitutable binding
  · by_cases writable : Writable binding term
    · have storable : ∀ held ∈ binding, held.Values Storable :=
        fun held bound name value known => (values held bound name value known).1
      have ranges : InRange ei (filled binding term) := inRange_filled
        (fun held bound name value known => (values held bound name value known).2) inRange
      have fine := fine_of_writable substitutable writable
      have plainWrote := PlainBuffer.writeTerm_of_returns (subst_of_fine valid fine).1 .create
      have eiWrote := writeTerm_filled lawful writable.2 ranges writable.1 (.inr enough)
        (.create ei withVersion)
      have yields : Yields (EIInputBuffer.readTerm ei fuel) (bytesOf ei (filled binding term))
          ((received (filled binding term)).map some) :=
        yields_bytesOf lawful writable.2 ranges (.of_valid (filled_valid storable valid fine))
          (by omega)
      have eiRead := readTerm_getInputBuffer lawful yields withVersion unwritten
      rw [← equal_reads_iff storable valid fine writable, plainWrote, eiWrote]
      simp only [substitutable, writable, true_and, not_true_eq_false, false_and, false_or,
        true_implies]
      constructor
      · rintro ⟨first, second, plainRead, read, same, ground, other⟩
        have first' : substituted binding term = first := by
          simpa [PlainBuffer.readTerm, PlainBuffer.getInputBuffer, PlainBuffer.create]
            using plainRead
        rw [read, Outcome.toOption_returns] at eiRead
        obtain ⟨term', found, here⟩ := Option.map_eq_some_iff.mp eiRead.symm
        rw [← first'] at same ground
        rw [← Option.some.inj here] at same other
        exact ⟨term', found, same, ground, other⟩
      · rintro ⟨second, found, same, ground, other⟩
        rw [found, Option.map_some] at eiRead
        exact ⟨_, second, rfl, Outcome.toOption_eq_some.mp eiRead, same, ground, other⟩
    · simp [substitutable, writable]
  · by_cases writable : Writable binding term
    · simp [substitutable, writable]
    · simp [substitutable, writable]

end Agreement

/-- The binding `X = 1, Y = 2`. -/
def twoNumbers : VariableBinding :=
  (VariableBinding.empty.bind (text "X") (.simple (.erlLong (some 1)))).bind (text "Y")
    (.simple (.erlLong (some 2)))

theorem twoNumbers_values : ∀ held ∈ some twoNumbers,
    held.Values fun value => value.Storable ∧ InRange externalFormat value := by
  rintro held ⟨⟩
  have number : ∀ mValue, (ErlTerm.simple (.erlLong mValue)).Storable ∧
      InRange externalFormat (.simple (.erlLong mValue)) := by
    intro mValue
    refine ⟨⟨?_, trivial⟩, ?_⟩
    · rw [Ground, every_simple]
      rfl
    · rw [InRange, every_simple]
      rfl
  exact ((VariableBinding.values_empty _).bind (number _) _).bind (number _) _

/-- The term `{X, [Y]}`. -/
theorem buffersAgree_tuple : BuffersAgree externalFormat (some twoNumbers) true [] 4
    (.erlTuple true (some 2) [.erlVariable (text "X"),
      .erlConsList true [.erlVariable (text "Y"), .simple .erlEmptyList]]) := by
  refine (buffersAgree_iff ExternalFormat.lawful_externalFormat ?_ ?_ twoNumbers_values ?_
    true []).mpr (.inr ?_)
  · decide
  · decide
  · decide
  · decide

/-- The list `[X|Y]` is kept with its variables by a `PlainBuffer`. -/
theorem buffersAgree_variables : externalFormat.Lawful ∧
    (erlConsList true [.erlVariable (text "X"), .erlVariable (text "Y")]).Valid ∧
    (erlConsList true [.erlVariable (text "X"), .erlVariable (text "Y")]).Celled ∧
    InRange externalFormat (.erlConsList true [.erlVariable (text "X"), .erlVariable (text "Y")]) ∧
    ¬ BuffersAgree externalFormat (some twoNumbers) true [] 4
      (.erlConsList true [.erlVariable (text "X"), .erlVariable (text "Y")]) := by
  refine ⟨ExternalFormat.lawful_externalFormat, by decide, by decide, by decide, ?_⟩
  intro agree
  obtain ⟨first, second, plainRead, -, -, ground, -⟩ := agree.2 (by decide) (by decide)
  have kept : erlConsList true [.erlVariable (text "X"), .erlVariable (text "Y")] = first := by
    injection plainRead with same
    injection same
  rw [← kept] at ground
  exact absurd ground (by decide)

end Epi.Buffer
