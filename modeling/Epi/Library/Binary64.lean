import Mathlib

namespace Verification

/-- The bits of a binary64 number. -/
structure Binary64 where
  bits : BitVec 64
  deriving DecidableEq, Repr

namespace Binary64

/-- A full exponent with a nonzero fraction is not a number. -/
def isNaN (value : Binary64) : Bool :=
  value.bits.extractLsb' 52 11 == BitVec.allOnes 11 && value.bits.extractLsb' 0 52 != 0

/-- Both signs of zero. -/
def isZero (value : Binary64) : Bool := value.bits.extractLsb' 0 63 == 0

/-- The equality of the arithmetic: a NaN equals nothing and the two zeros are equal. -/
def equals (left right : Binary64) : Bool :=
  !left.isNaN && !right.isNaN && (left == right || (left.isZero && right.isZero))

theorem equals_symm (left right : Binary64) : left.equals right = right.equals left := by
  simp only [equals, Bool.beq_comm (a := left), Bool.and_comm left.isZero,
    Bool.and_comm (!left.isNaN)]

/-- The equality is reflexive exactly at the numbers. -/
theorem equals_self (value : Binary64) : value.equals value = !value.isNaN := by
  simp [equals]

theorem equals_trans {first second third : Binary64}
    (left : first.equals second = true) (right : second.equals third = true) :
    first.equals third = true := by
  simp only [equals, Bool.and_eq_true, Bool.or_eq_true, beq_iff_eq] at left right ⊢
  obtain ⟨⟨firstNumber, -⟩, same | zeros⟩ := left
  · subst same
    exact right
  · obtain ⟨⟨-, thirdNumber⟩, same | others⟩ := right
    · subst same
      exact ⟨⟨firstNumber, thirdNumber⟩, .inr zeros⟩
    · exact ⟨⟨firstNumber, thirdNumber⟩, .inr ⟨zeros.1, others.2⟩⟩

/-- The numbers without a sign in their order, in units of the first one above zero. -/
def magnitude (rank : Nat) : Nat :=
  if rank < 2 ^ 52 then rank else (2 ^ 52 + rank % 2 ^ 52) * 2 ^ (rank / 2 ^ 52 - 1)

/-- The last number that is not above so many units. -/
def rankBelow (units : Nat) : Nat :=
  let shift := units.log2 - 52
  shift * 2 ^ 52 + units / 2 ^ shift

/-- The place of the infinity behind all numbers. -/
def infiniteRank : Nat := 2047 * 2 ^ 52

/-- The number nearest to a fraction, and the even one of two that are equally near. -/
def nearest (negative : Bool) (numerator denominator : Nat) : Binary64 :=
  let units := numerator * 2 ^ 1074
  let below := rankBelow (units / denominator)
  let middle := (magnitude below + magnitude (below + 1)) * denominator
  let rank :=
    if 2 * units < middle ∨ (2 * units = middle ∧ below % 2 = 0) then below else below + 1
  ⟨.ofNat 64 ((if negative then 2 ^ 63 else 0) + min rank infiniteRank)⟩

end Binary64

end Verification
