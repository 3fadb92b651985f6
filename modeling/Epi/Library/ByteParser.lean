import Mathlib

namespace Verification

/-- A parser takes a value from the front of some bytes and leaves the rest. -/
def ByteParser (Value : Type) := List UInt8 → Option (Value × List UInt8)

namespace ByteParser

variable {First Second : Type}

instance : Monad ByteParser where
  pure value := fun bytes => some (value, bytes)
  bind first next := fun bytes => (first bytes).bind fun (value, rest) => next value rest

def fail : ByteParser First := fun _ => none

/-- The next bytes, if there are enough. -/
def take (count : Nat) : ByteParser (List UInt8) := fun bytes =>
  if count ≤ bytes.length then some (bytes.take count, bytes.drop count) else none

def byte : ByteParser UInt8
  | [] => none
  | head :: rest => some (head, rest)

/-- The parser reads exactly these bytes as the value, whatever follows. -/
def Parses (parser : ByteParser First) (bytes : List UInt8) (value : First) : Prop :=
  ∀ rest, parser (bytes ++ rest) = some (value, rest)

theorem parses_pure (value : First) : Parses (pure value) [] value := fun _ => rfl

/-- Parsers in order read the bytes in order. -/
theorem Parses.bind {first : ByteParser First} {next : First → ByteParser Second}
    {front back : List UInt8} {value : First} {result : Second}
    (parsesFirst : Parses first front value) (parsesNext : Parses (next value) back result) :
    Parses (first >>= next) (front ++ back) result := by
  intro rest
  have ran : (first >>= next) (front ++ back ++ rest) =
      (first (front ++ back ++ rest)).bind fun (value, rest) => next value rest := rfl
  rw [ran, List.append_assoc, parsesFirst]
  exact parsesNext rest

theorem Parses.map {first : ByteParser First} {bytes : List UInt8} {value : First}
    (parses : Parses first bytes value) (transform : First → Second) :
    Parses (do let read ← first; return transform read) bytes (transform value) := by
  have both : Parses (first >>= fun read => pure (transform read)) (bytes ++ [])
      (transform value) := parses.bind (parses_pure (transform value))
  rwa [List.append_nil] at both

theorem parses_byte (value : UInt8) : Parses byte [value] value := fun _ => rfl

theorem parses_take (bytes : List UInt8) : Parses (take bytes.length) bytes bytes := by
  intro rest
  simp [take]

/-- The bytes of a number, the most significant byte first. -/
def bigEndian : Nat → Nat → List UInt8
  | 0, _ => []
  | count + 1, value => bigEndian count (value / 256) ++ [UInt8.ofNat (value % 256)]

def fromBigEndian (bytes : List UInt8) : Nat :=
  bytes.foldl (fun total byte => total * 256 + byte.toNat) 0

theorem bigEndian_length (count value : Nat) : (bigEndian count value).length = count := by
  induction count generalizing value with
  | zero => rfl
  | succ count ih => rw [bigEndian, List.length_append, ih, List.length_singleton]

theorem toNat_lowByte (value : Nat) : (UInt8.ofNat (value % 256)).toNat = value % 256 := by
  rw [UInt8.toNat_ofNat']
  omega

theorem fromBigEndian_bigEndian {count value : Nat} (small : value < 256 ^ count) :
    fromBigEndian (bigEndian count value) = value := by
  induction count generalizing value with
  | zero =>
      have zero : value = 0 := by simpa using small
      rw [zero]
      rfl
  | succ count ih =>
      have smaller : value / 256 < 256 ^ count := by
        rw [Nat.div_lt_iff_lt_mul (by omega)]
        rwa [pow_succ] at small
      have front := ih smaller
      unfold fromBigEndian at front ⊢
      rw [bigEndian, List.foldl_append, front, List.foldl_cons, List.foldl_nil, toNat_lowByte]
      omega

/-- A number of this many bytes. -/
def number (count : Nat) : ByteParser Nat := do
  let bytes ← take count
  return fromBigEndian bytes

theorem parses_number {count value : Nat} (small : value < 256 ^ count) :
    Parses (number count) (bigEndian count value) value := by
  have taken := parses_take (bigEndian count value)
  rw [bigEndian_length] at taken
  have read := taken.map fromBigEndian
  rwa [fromBigEndian_bigEndian small] at read

/-- The bytes of a magnitude, the least significant byte first and without leading zeros. -/
def littleEndian : Nat → Nat → List UInt8
  | 0, _ => []
  | count + 1, value =>
      if value = 0 then [] else UInt8.ofNat (value % 256) :: littleEndian count (value / 256)

def fromLittleEndian : List UInt8 → Nat
  | [] => 0
  | low :: rest => low.toNat + 256 * fromLittleEndian rest

theorem littleEndian_length (count value : Nat) : (littleEndian count value).length ≤ count := by
  induction count generalizing value with
  | zero => simp [littleEndian]
  | succ count ih =>
      rw [littleEndian]
      split
      · simp
      · rw [List.length_cons]
        exact Nat.succ_le_succ (ih _)

theorem fromLittleEndian_littleEndian {count value : Nat} (small : value < 256 ^ count) :
    fromLittleEndian (littleEndian count value) = value := by
  induction count generalizing value with
  | zero =>
      have zero : value = 0 := by simpa using small
      rw [zero]
      rfl
  | succ count ih =>
      have smaller : value / 256 < 256 ^ count := by
        rw [Nat.div_lt_iff_lt_mul (by omega)]
        rwa [pow_succ] at small
      rw [littleEndian]
      split
      · rename_i zero
        rw [zero]
        rfl
      · rw [fromLittleEndian, ih smaller, toNat_lowByte]
        omega

/-- What is left is not longer than what was there. -/
def Shrinks (parser : ByteParser First) : Prop :=
  ∀ bytes value rest, parser bytes = some (value, rest) → rest.length ≤ bytes.length

theorem shrinks_pure (value : First) : Shrinks (pure value) := by
  intro bytes read rest ran
  obtain ⟨-, rfl⟩ := Prod.mk.inj (Option.some.inj ran)
  exact le_rfl

theorem shrinks_fail : Shrinks (fail : ByteParser First) := by
  intro bytes read rest ran
  cases ran

/-- Parsers in order take from the front in order. -/
theorem Shrinks.bind {first : ByteParser First} {next : First → ByteParser Second}
    (shrinks : Shrinks first) (later : ∀ value, Shrinks (next value)) :
    Shrinks (first >>= next) := by
  intro bytes value rest ran
  obtain ⟨⟨middle, left⟩, started, ended⟩ := Option.bind_eq_some_iff.mp ran
  exact (later middle left value rest ended).trans (shrinks bytes middle left started)

theorem shrinks_take (count : Nat) : Shrinks (take count) := by
  intro bytes value rest ran
  unfold take at ran
  split at ran
  · obtain ⟨-, rfl⟩ := Prod.mk.inj (Option.some.inj ran)
    simp
  · cases ran

theorem shrinks_number (count : Nat) : Shrinks (number count) :=
  (shrinks_take count).bind fun _ => shrinks_pure _

/-- A byte in front makes what is left shorter. -/
theorem byte_shorter {next : UInt8 → ByteParser First} (later : ∀ value, Shrinks (next value))
    {bytes rest : List UInt8} {value : First} (ran : (byte >>= next) bytes = some (value, rest)) :
    rest.length < bytes.length := by
  obtain ⟨⟨head, left⟩, started, ended⟩ := Option.bind_eq_some_iff.mp ran
  cases bytes with
  | nil => cases started
  | cons first tail =>
      obtain ⟨rfl, rfl⟩ := Prod.mk.inj (Option.some.inj started)
      exact Nat.lt_succ_of_le (later _ _ _ _ ended)

end ByteParser

end Verification
