import Epi.Buffer.Received

namespace Epi.Buffer

open Verification Epi.Type ErlTerm

/-- The bytes begin with the header of a list, whatever stands around them. -/
def Ei.Listed (ei : Ei) (bytes : Bytes) : Prop :=
  bytes ≠ [] ∧ ∀ front back, ∃ size,
    ei.getType (front ++ (bytes ++ back)) front.length = some (.listExt, size)

/-- The call for strings writes no letters as the empty list, up to 65535 letters as a string and
more letters as a list. -/
structure Ei.Strings (ei : Ei) : Prop where
  empty : Encodes ei (ei.encodeString []) (fun type _ => type = .nilExt) ei.decodeListHeader 0
  short : ∀ value : Bytes, 0 ∉ value → 0 < value.length → value.length ≤ 65535 →
    Encodes ei (ei.encodeString value) (fun type _ => type = .stringExt) ei.decodeString value
  long : ∀ value : Bytes, 0 ∉ value → 65535 < value.length →
    ∃ bytes, ei.encodeString value = some bytes ∧ ei.Listed bytes

def stringTerm (value : Bytes) : ErlTerm := .simple (.erlString (some value))

section Reading

variable {ei : Ei} {fuel : Nat} {value bytes : Bytes}

/-- A string item is read up to its first zero. -/
theorem yields_stringItem
    (item : Item ei bytes (fun type _ => type = .stringExt) ei.decodeString value) (fuel : Nat) :
    Yields (EIInputBuffer.readTerm ei (fuel + 1)) bytes
      (some (some (stringTerm (cString value)))) := by
  change Yields _ bytes ((some (stringTerm (cString value))).map some)
  apply yields_item item
  · intro type size held nested
    subst held
    rfl
  · intro type size held
    exact yields_pure _

theorem yields_emptyItem
    (item : Item ei bytes (fun type _ => type = .nilExt) ei.decodeListHeader 0) (fuel : Nat) :
    Yields (EIInputBuffer.readTerm ei (fuel + 1)) bytes (some (some (.simple .erlEmptyList))) := by
  change Yields _ bytes ((some (simple .erlEmptyList)).map some)
  apply yields_item item
  · intro type size held nested
    subst held
    rfl
  · intro type size held
    exact yields_pure _

/-- No string is read from a list. -/
theorem not_yields_listed (listed : ei.Listed bytes) :
    ¬ Yields (EIInputBuffer.readTerm ei (fuel + 1)) bytes (some (some (stringTerm value))) := by
  intro yields
  obtain ⟨nonempty, typed⟩ := listed
  obtain ⟨size, typed⟩ := typed [] []
  have inside : 0 ≠ ([] ++ (bytes ++ [])).length := by
    have positive := List.length_pos_iff.mpr nonempty
    simp only [List.nil_append, List.append_nil]
    omega
  have ran := Outcome.toOption_eq_some.mp (yields [] []).1
  rw [EIInputBuffer.readTerm, Method.throwsOnly, Effect.mapOutcome_run, Call.throwsOnly_eq_returns,
    EIInputBuffer.readNext, List.length_nil, if_neg inside] at ran
  rw [List.length_nil] at typed
  rw [typed] at ran
  simp only at ran
  obtain ⟨term, read, same⟩ := Outcome.bind_eq_returns.mp ran
  obtain rfl := Option.some.inj (Outcome.returns.inj same)
  rw [readType_list] at read
  obtain ⟨arity, after, -, rest⟩ := Effect.bind_eq_returns.mp (Prod.ext read rfl)
  split at rest
  · cases rest
  · obtain ⟨list, last, -, ended⟩ := Effect.bind_eq_returns.mp rest
    cases ended

/-- A string is written up to its first zero. -/
theorem writeTerm_string (encoded : ei.encodeString (cString value) = some bytes)
    (buffer : EIOutputBuffer) :
    EIOutputBuffer.writeTerm ei none (fuel + 1) (some (stringTerm value)) buffer =
      (.returns (), buffer.add bytes) := by
  have item : itemOf ei (.erlString (some value)) = some bytes := encoded
  exact writeTerm_of_returns (writeSimple_item item buffer)

theorem cString_eq_iff : cString value = value ↔ 0 ∉ value := by
  constructor
  · intro same
    rw [← same]
    exact zero_not_mem_cString value
  · exact cString_eq_self

end Reading

/-- The string is written, and what is written is read as the string. -/
def Survives (ei : Ei) (fuel : Nat) (value : Bytes) : Prop :=
  ∀ buffer : EIOutputBuffer, ∃ bytes,
    EIOutputBuffer.writeTerm ei none fuel (some (stringTerm value)) buffer =
      (.returns (), buffer.add bytes) ∧
    Yields (EIInputBuffer.readTerm ei fuel) bytes (some (some (stringTerm value)))

/-- What is read for a string that was written is what the reads of its bytes give. -/
theorem survives_of_encoded {ei : Ei} {fuel : Nat} {value bytes : Bytes}
    (encoded : ei.encodeString (cString value) = some bytes) : Survives ei (fuel + 1) value ↔
      Yields (EIInputBuffer.readTerm ei (fuel + 1)) bytes (some (some (stringTerm value))) := by
  constructor
  · intro survives
    obtain ⟨again, wrote, read⟩ := survives ⟨[], false⟩
    rw [writeTerm_string encoded] at wrote
    have same : bytes = again := by
      simpa [EIOutputBuffer.add] using congrArg Prod.snd wrote
    rwa [same]
  · intro yields buffer
    exact ⟨bytes, writeTerm_string encoded buffer, yields⟩

theorem survives_iff {ei : Ei} (strings : ei.Strings) (fuel : Nat) (value : Bytes) :
    Survives ei (fuel + 1) value ↔ 0 ∉ value ∧ 1 ≤ value.length ∧ value.length ≤ 65535 := by
  have clean := zero_not_mem_cString value
  by_cases empty : (cString value).length = 0
  · have nothing := List.eq_nil_of_length_eq_zero empty
    obtain ⟨bytes, encoded, item⟩ := strings.empty
    rw [← nothing] at encoded
    rw [survives_of_encoded encoded]
    constructor
    · intro read
      have same := (yields_emptyItem item fuel).unique read
      cases same
    · rintro ⟨zeroless, positive, -⟩
      rw [cString_eq_self zeroless] at empty
      omega
  · by_cases short : (cString value).length ≤ 65535
    · obtain ⟨bytes, encoded, item⟩ := strings.short _ clean (by omega) short
      have yields := yields_stringItem item fuel
      rw [cString_eq_self clean] at yields
      rw [survives_of_encoded encoded]
      constructor
      · intro read
        have same : cString value = value := by
          simpa [stringTerm] using Option.some.inj (Option.some.inj (yields.unique read))
        rw [same] at empty short
        exact ⟨cString_eq_iff.mp same, by omega, short⟩
      · rintro ⟨zeroless, -⟩
        rwa [cString_eq_self zeroless] at yields
    · obtain ⟨bytes, encoded, listed⟩ := strings.long _ clean (by omega)
      rw [survives_of_encoded encoded]
      constructor
      · intro read
        exact absurd read (not_yields_listed listed)
      · rintro ⟨zeroless, -, bounded⟩
        rw [cString_eq_self zeroless] at short
        exact absurd bounded short

/-- A string survives the way to a peer and back when it has no zero and between one and 65535
letters. A string item of a peer is read as its payload when that has no zero. -/
theorem strings_survive_iff {ei : Ei} (strings : ei.Strings) {fuel : Nat} (enough : 0 < fuel) :
    (∀ value : Bytes, Survives ei fuel value ↔
      0 ∉ value ∧ 1 ≤ value.length ∧ value.length ≤ 65535) ∧
    (∀ payload bytes : Bytes,
      Item ei bytes (fun type _ => type = .stringExt) ei.decodeString payload →
        (Yields (EIInputBuffer.readTerm ei fuel) bytes (some (some (stringTerm payload))) ↔
          0 ∉ payload)) := by
  obtain ⟨fuel, rfl⟩ : ∃ rest, fuel = rest + 1 := ⟨fuel - 1, by omega⟩
  refine ⟨survives_iff strings fuel, ?_⟩
  intro payload bytes item
  have yields := yields_stringItem item fuel
  rw [← cString_eq_iff]
  constructor
  · intro read
    have same := Option.some.inj (Option.some.inj (yields.unique read))
    simpa [stringTerm] using same
  · intro same
    rwa [same] at yields

namespace ExternalFormat

open ByteParser

/-- A string item can hold any letters. -/
theorem item_string (payload : Bytes) (short : payload.length ≤ 65535) :
    Item externalFormat (107 :: atomBody payload) (fun type _ => type = .stringExt)
      externalFormat.decodeString payload :=
  item_of_body .stringExt (by rfl) ⟨payload, rfl, parses_number (by omega)⟩ rfl
    (parses_onlyTag 107 (parses_letters short))

theorem strings_externalFormat : externalFormat.Strings where
  empty := lawful_externalFormat.emptyList
  short := lawful_externalFormat.string
  long value clean long := by
    have encoded : encodeString value = 108 :: (size value.length ++
        ((value.flatMap fun letter => [97, letter]) ++ [106])) := by
      rw [encodeString, if_neg (by omega), if_neg (by omega), List.append_assoc]
    refine ⟨_, congrArg some encoded, List.cons_ne_nil _ _, fun front back => ?_⟩
    have four : (size value.length).length = 4 := bigEndian_length 4 _
    have parsed : typeAndSize (108 :: (size value.length ++
        ((value.flatMap fun letter => [97, letter]) ++ [106])) ++ back) =
        (parseSize (size value.length ++
          ((value.flatMap fun letter => [97, letter]) ++ [106]) ++ back)).bind fun read =>
            some ((.listExt, read.1), read.2) := rfl
    have counted := (parses_take (size value.length)).map fromBigEndian
    rw [four] at counted
    refine ⟨fromBigEndian (size value.length), ?_⟩
    simp only [externalFormat, List.drop_left, parsed, parseSize, number, List.append_assoc,
      counted _, Option.bind_some, Option.map_some]

end ExternalFormat

open ExternalFormat

/-- The string "hi" survives, and the string item `[1, 0, 2]` of a peer does not. -/
theorem strings_survive_short :
    Survives externalFormat 1 (text "hi") ∧
      ¬ Yields (EIInputBuffer.readTerm externalFormat 1) (107 :: atomBody [1, 0, 2])
        (some (some (stringTerm [1, 0, 2]))) :=
  ⟨((strings_survive_iff strings_externalFormat (by decide)).1 _).mpr (by decide),
    mt ((strings_survive_iff strings_externalFormat (by decide)).2 [1, 0, 2] _
      (item_string [1, 0, 2] (by decide))).mp (by decide)⟩

/-- A peer's list `[1, 0, 2]` is read as a string of one letter, and a string with a zero or
without letters is read as another term. -/
theorem strings_cut : externalFormat.Strings ∧
    Item externalFormat [107, 0, 3, 1, 0, 2] (fun type _ => type = .stringExt)
      externalFormat.decodeString [1, 0, 2] ∧
    (EIInputBuffer.readTerm externalFormat 1 ⟨[107, 0, 3, 1, 0, 2], 0⟩).1 =
      .returns (some (stringTerm [1])) ∧
    ¬ Survives externalFormat 1 [1, 0, 2] ∧ ¬ Survives externalFormat 1 [] := by
  refine ⟨strings_externalFormat, item_string [1, 0, 2] (by decide), by rfl, ?_, ?_⟩
  · rw [survives_iff strings_externalFormat]
    decide
  · rw [survives_iff strings_externalFormat]
    decide

end Epi.Buffer
