import Epi.Buffer.Received

namespace Epi.Buffer

open Verification Epi.Type ErlTerm

section RoundTrip

variable {ei : Ei} {term : ErlTerm} {fuel : Nat}

/-- A term without variables is written as it is. -/
theorem writeTerm_ground (lawful : ei.Lawful) (valid : term.Valid) (ground : term.Ground)
    (celled : term.Celled) (inRange : InRange ei term) (enough : term.depth + 1 ≤ fuel)
    (buffer : EIOutputBuffer) :
    EIOutputBuffer.writeTerm ei none fuel (some term) buffer =
      (.returns (), buffer.add (bytesOf ei term)) := by
  have same := filled_ground ground none
  have wrote := @writeTerm_filled ei lawful none fuel term
  rw [same] at wrote
  apply wrote (Written.of_valid valid ground celled) inRange (named_of_ground ground)
  exact .inl ⟨ground, enough⟩

/-- Its bytes are read as the term. -/
theorem yields_ground (lawful : ei.Lawful) (valid : term.Valid) (ground : term.Ground)
    (celled : term.Celled) (inRange : InRange ei term) (cleanNodes : CleanNodes term)
    (enough : term.depth + 1 ≤ fuel) :
    Yields (EIInputBuffer.readTerm ei fuel) (bytesOf ei term) (some (some term)) := by
  have written := Written.of_valid valid ground celled
  have yields := yields_bytesOf lawful written inRange (.of_valid valid) enough
  rwa [received_clean cleanNodes] at yields

end RoundTrip

/-- What is written for a term without variables is read as a term that is equal to it, and the
read stops where the next bytes start. -/
theorem readTerm_writeTerm {ei : Ei} (lawful : ei.Lawful) {term : ErlTerm} (valid : term.Valid)
    (ground : term.Ground) (celled : term.Celled) (inRange : InRange ei term)
    (cleanNodes : CleanNodes term) (numeric : term.Numeric) {fuel : Nat}
    (enough : term.depth + 1 ≤ fuel) (buffer : EIOutputBuffer) :
    ∃ bytes, EIOutputBuffer.writeTerm ei none fuel (some term) buffer =
        (.returns (), ⟨buffer.buff ++ bytes, buffer.mWithVersion⟩) ∧
      ∀ rest, ∃ read, EIInputBuffer.readTerm ei fuel
          ⟨buffer.buff ++ (bytes ++ rest), buffer.buff.length⟩ = (.returns (some read),
            ⟨buffer.buff ++ (bytes ++ rest), buffer.buff.length + bytes.length⟩) ∧
        read.equals term = true := by
  have wrote := writeTerm_ground lawful valid ground celled inRange enough buffer
  have yields := yields_ground lawful valid ground celled inRange cleanNodes enough
  refine ⟨bytesOf ei term, wrote, ?_⟩
  intro rest
  exact ⟨term, yields.returns buffer.buff rest, (ErlTerm.equals_self valid ground).mpr numeric⟩

/-- The term `{ok, "hi", [1, <<1,2>>], Pid}`. -/
def mixedTerm : ErlTerm :=
  .erlTuple true (some 4) [
    .simple (.erlAtom (some ⟨text "ok", by decide, by decide⟩)),
    .simple (.erlString (some (text "hi"))),
    .erlConsList true [.simple (.erlLong (some 1)), .simple (.erlBinary (some [1, 2])),
      .simple .erlEmptyList],
    .simple (.erlPid (some ⟨⟨text "a@host", by decide, by decide⟩, 7, 1, 2⟩))]

theorem readTerm_writeTerm_mixed :
    ∃ bytes, EIOutputBuffer.writeTerm externalFormat none 3 (some mixedTerm)
        (.create externalFormat true) = (.returns (), ⟨[131] ++ bytes, true⟩) ∧
      ∀ rest, ∃ read, EIInputBuffer.readTerm externalFormat 3 ⟨[131] ++ (bytes ++ rest), 1⟩ =
          (.returns (some read), ⟨[131] ++ (bytes ++ rest), 1 + bytes.length⟩) ∧
        read.equals mixedTerm = true :=
  readTerm_writeTerm ExternalFormat.lawful_externalFormat (by decide) (by decide) (by decide)
    (by decide) (by decide) (by decide) (by decide) (.create externalFormat true)

/-- A NaN is read back and equals nothing, and a node name is cut at its first NUL. -/
theorem readTerm_writeTerm_differs : externalFormat.Lawful ∧
    (∃ term bytes read after, term.Valid ∧ term.Ground ∧ term.Celled ∧
      InRange externalFormat term ∧
      EIOutputBuffer.writeTerm externalFormat none 1 (some term) ⟨[], false⟩ =
        (.returns (), ⟨bytes, false⟩) ∧
      EIInputBuffer.readTerm externalFormat 1 ⟨bytes, 0⟩ = (.returns (some read), after) ∧
      read.equals term = false ∧ CleanNodes term) ∧
    (∃ term bytes read after, term.Valid ∧ term.Ground ∧ term.Celled ∧
      InRange externalFormat term ∧
      EIOutputBuffer.writeTerm externalFormat none 1 (some term) ⟨[], false⟩ =
        (.returns (), ⟨bytes, false⟩) ∧
      EIInputBuffer.readTerm externalFormat 1 ⟨bytes, 0⟩ = (.returns (some read), after) ∧
      read.equals term = false ∧ term.Numeric) := by
  refine ⟨ExternalFormat.lawful_externalFormat, ?_, ?_⟩
  · exact ⟨.simple (.erlDouble (some ⟨0x7FF8000000000000⟩)), _, _, _, by decide, by decide,
      by decide, by decide, rfl, rfl, by decide, by decide⟩
  · exact ⟨.simple (.erlPid (some ⟨⟨[97, 0, 98], by decide, by decide⟩, 7, 1, 2⟩)), _, _, _,
      by decide, by decide, by decide, by decide, rfl, rfl, by decide, by decide⟩

end Epi.Buffer
