import Epi.Parse.Recognition
import Epi.Type.Printing

namespace Epi.Parse

open Verification Epi.Type Machine

/-- The terms whose texts need no quotes: atoms and variables of letters and digits, values of
`int`, and tuples and proper lists that the array of `eformat` can hold. -/
def plainNode : ErlTerm → Bool
  | .simple (.erlAtom (some mAtom)) => mAtom.text.head?.any islower && mAtom.text.all isAtomByte
  | .simple (.erlLong (some mValue)) => -2 ^ 31 ≤ mValue.toInt && mValue.toInt < 2 ^ 31
  | .simple .erlEmptyList => true
  | .simple _ => false
  | .erlTuple mInitialized mArity elems =>
      mInitialized && mArity == some elems.length && elems.length ≤ maxEntries
  | .erlConsList mInitialized elems =>
      mInitialized && (elems.getLast?.any fun last => last.instanceOf .erlEmptyList) &&
        2 ≤ elems.length && elems.length ≤ maxEntries + 1
  | .erlVariable mName =>
      (mName.head?.any fun c => isupper c || c == underscore) && mName.all isWordByte &&
        mName.length ≤ 255

/-- A term of the plain syntax, to any depth. -/
def PlainSyntax (term : ErlTerm) : Prop := term.every plainNode = true

instance (term : ErlTerm) : Decidable (PlainSyntax term) := inferInstanceAs (Decidable (_ = true))

section Nodes

theorem plainNode_tuple {mInitialized : Bool} {mArity : Option Nat} {elems : List ErlTerm} :
    plainNode (.erlTuple mInitialized mArity elems) = true ↔
      mInitialized = true ∧ mArity = some elems.length ∧ elems.length ≤ maxEntries := by
  have unfolded : plainNode (.erlTuple mInitialized mArity elems) =
      (mInitialized && mArity == some elems.length && elems.length ≤ maxEntries) := rfl
  rw [unfolded, Bool.and_eq_true, Bool.and_eq_true, beq_iff_eq, decide_eq_true_eq, and_assoc]

theorem plainNode_list {mInitialized : Bool} {elems : List ErlTerm} :
    plainNode (.erlConsList mInitialized elems) = true ↔
      mInitialized = true ∧ (∃ last ∈ elems.getLast?, last.instanceOf .erlEmptyList = true) ∧
        2 ≤ elems.length ∧ elems.length ≤ maxEntries + 1 := by
  have unfolded : plainNode (.erlConsList mInitialized elems) =
      (mInitialized && (elems.getLast?.any fun last => last.instanceOf .erlEmptyList) &&
        2 ≤ elems.length && elems.length ≤ maxEntries + 1) := rfl
  rw [unfolded, Bool.and_eq_true, Bool.and_eq_true, Bool.and_eq_true, Option.any_eq_true,
    decide_eq_true_eq, decide_eq_true_eq, and_assoc, and_assoc]
  rfl

theorem plainNode_variable {mName : Bytes} :
    plainNode (.erlVariable mName) = true ↔
      (∃ c ∈ mName.head?, isupper c = true ∨ c = underscore) ∧
        (∀ c ∈ mName, isWordByte c = true) ∧ mName.length ≤ 255 := by
  have unfolded : plainNode (.erlVariable mName) =
      ((mName.head?.any fun c => isupper c || c == underscore) && mName.all isWordByte &&
        mName.length ≤ 255) := rfl
  rw [unfolded, Bool.and_eq_true, Bool.and_eq_true, Option.any_eq_true, decide_eq_true_eq,
    List.all_eq_true, and_assoc]
  simp only [Bool.or_eq_true, beq_iff_eq, Option.mem_def]

end Nodes

section Numbers

variable {library : CLibrary}

theorem ascii_digit {letter : Char} (digit : letter.isDigit = true) :
    isdigit (ascii letter) = true ∧ (ascii letter).toNat = letter.toNat := by
  have range : 48 ≤ letter.toNat ∧ letter.toNat ≤ 57 := by
    simpa [Char.isDigit, Char.le_def, UInt32.le_iff_toNat_le] using digit
  have value : (ascii letter).toNat = letter.toNat := by
    rw [ascii, UInt8.toNat_ofNat']
    omega
  refine ⟨?_, value⟩
  simp only [isdigit, Bool.and_eq_true, decide_eq_true_eq, UInt8.le_iff_toNat_le, value]
  exact range

theorem printNat_eq (value : Nat) : printNat value = (Nat.toDigits 10 value).map ascii := by
  rw [printNat, text, Nat.toList_repr]
  rfl

theorem printNat_digits (value : Nat) : ∀ c ∈ printNat value, isdigit c = true := by
  intro c member
  rw [printNat_eq, List.mem_map] at member
  obtain ⟨letter, inside, rfl⟩ := member
  exact (ascii_digit (Nat.isDigit_of_mem_toDigits (by decide) (le_refl _) inside)).1

/-- The digits of a number are read as the number. -/
theorem decimal_printNat (value : Nat) : decimal (printNat value) = value := by
  have same : ∀ (letters : List Char) (start : Nat), (∀ c ∈ letters, c.isDigit = true) →
      (letters.map ascii).foldl (fun value digit => 10 * value + (digit.toNat - 48)) start =
        Nat.ofDigitChars 10 letters start := by
    intro letters
    induction letters with
    | nil => exact fun _ _ => rfl
    | cons letter letters ih =>
        intro start digits
        rw [List.forall_mem_cons] at digits
        rw [List.map_cons, List.foldl_cons, ih _ digits.2, (ascii_digit digits.1).2,
          Nat.ofDigitChars_cons]
        rfl
  rw [decimal, printNat_eq, same _ _ fun c member =>
    Nat.isDigit_of_mem_toDigits (by decide) (le_refl _) member]
  exact Nat.ofDigitChars_ten_toDigits

theorem printNat_head (value : Nat) : ∃ c ∈ (printNat value).head?, isdigit c = true := by
  cases found : printNat value with
  | nil =>
      rw [printNat_eq, List.map_eq_nil_iff] at found
      exact absurd found Nat.toDigits_ne_nil
  | cons c more =>
      exact ⟨c, rfl, printNat_digits value c (found ▸ List.mem_cons_self)⟩

theorem not_mem_digits {d : UInt8} (other : isdigit d = false) (value : Nat) :
    d ∉ printNat value := by
  intro member
  rw [printNat_digits value d member] at other
  cases other

theorem printInt_shape (value : Int) :
    printInt value = printNat value.natAbs ∧ 0 ≤ value ∨
      printInt value = minus :: printNat value.natAbs ∧ value < 0 := by
  unfold printInt
  by_cases negative : value < 0
  · rw [if_pos negative]
    exact .inr ⟨rfl, negative⟩
  · rw [if_neg negative]
    exact .inl ⟨rfl, Int.not_lt.mp negative⟩

/-- An integer is printed as a numeral. -/
theorem printInt_numeral (value : Int) : Numeral (printInt value) := by
  refine ⟨printNat value.natAbs, (printInt_shape value).imp And.left And.left,
    printNat_head value.natAbs, fun c member => .inl (printNat_digits _ c member), ?_⟩
  have none : (printNat value.natAbs).count dot = 0 :=
    List.count_eq_zero.mpr (not_mem_digits (by decide) _)
  omega

theorem printInt_whole (value : Int) : dot ∉ printInt value := by
  have digits : dot ∉ printNat value.natAbs := not_mem_digits (by decide) _
  rcases printInt_shape value with ⟨same, -⟩ | ⟨same, -⟩
  · rwa [same]
  · rw [same, List.mem_cons, not_or]
    exact ⟨by decide, digits⟩

/-- An integer that was printed is read as itself. -/
theorem numeral_printInt (value : Int) : numeral (printInt value) = value := by
  have all : (printNat value.natAbs).takeWhile isdigit = printNat value.natAbs :=
    List.takeWhile_eq_self_iff.mpr (printNat_digits value.natAbs)
  obtain ⟨c, head, digit⟩ := printNat_head value.natAbs
  obtain ⟨more, split⟩ := List.head?_eq_some_iff.mp head
  rcases printInt_shape value with ⟨same, low⟩ | ⟨same, high⟩
  · have other : c ≠ minus := by
      rintro rfl
      exact absurd digit (by decide)
    rw [same, split, numeral, if_neg other, ← split, all, decimal_printNat]
    omega
  · rw [same, numeral, if_pos rfl, all, decimal_printNat]
    omega

/-- A value of `int` has ten digits at most. -/
theorem printInt_length {value : Int} (low : -2 ^ 31 ≤ value) (high : value < 2 ^ 31) :
    (printInt value).length + 1 ≤ bufsiz := by
  have digits : (printNat value.natAbs).length ≤ 10 := by
    rw [printNat_eq, List.length_map, Nat.length_toDigits_le_iff (by decide) (by decide)]
    omega
  have room : 12 ≤ bufsiz := by decide
  rcases printInt_shape value with ⟨same, -⟩ | ⟨same, -⟩
  · rw [same]
    omega
  · rw [same, List.length_cons]
    omega

end Numbers

section Terms

variable {library : CLibrary} {stream : Ostream} {term : ErlTerm}

/-- Elements that are printed with commas between them are the pieces of a bracket. -/
theorem joined_separated (print : ErlTerm → Bytes) (elems : List ErlTerm) :
    Piece.joined (elems.map fun elem => ⟨[], print elem, [], elem⟩) =
      separated (elems.map print) := by
  induction elems with
  | nil => rfl
  | cons elem rest ih =>
      cases rest with
      | nil => exact List.append_nil _
      | cons next rest =>
          rw [List.map_cons, List.map_cons] at ih ⊢
          rw [Piece.joined, ih, List.map_cons, List.map_cons, separated, Piece.text,
            List.append_nil, List.nil_append, List.append_assoc]
          rfl

theorem spells_elements {bracket : Bracket} {elems : List ErlTerm} {print : ErlTerm → Bytes}
    (some : elems ≠ []) (room : elems.length ≤ maxEntries)
    (spelled : ∀ elem ∈ elems, Spells (.ofFormat library) (print elem) elem) :
    Spells (.ofFormat library) (bracket.opening :: (separated (elems.map print) ++
      [bracket.closing])) (bracket.term elems) := by
  have whole := @Spells.elements (.ofFormat library) bracket
    (elems.map fun elem => ⟨[], print elem, [], elem⟩)
    (fun none => some (List.map_eq_nil_iff.mp none))
    (List.forall_mem_map.mpr fun elem _ => ⟨List.forall_mem_nil _, List.forall_mem_nil _⟩)
    (by rwa [List.length_map]) (List.forall_mem_map.mpr spelled)
  have terms : (elems.map fun elem => (⟨[], print elem, [], elem⟩ : Piece)).map Piece.term =
      elems := by
    rw [List.map_map]
    exact List.map_id elems
  rwa [joined_separated, terms] at whole

theorem isEmptyList {last : ErlTerm} (empty : last.instanceOf .erlEmptyList = true) :
    last = .simple .erlEmptyList := by
  cases last with
  | simple value => cases value <;> first | rfl | cases empty
  | _ => cases empty

theorem any_head {accepts : UInt8 → Bool} {name : Bytes}
    (head : name.head?.any accepts = true) : ∃ c ∈ name.head?, accepts c = true := by
  rwa [Option.any_eq_true] at head

/-- What is printed of a term of the plain syntax denotes the term. -/
theorem PlainSyntax.spells (plain : PlainSyntax term) :
    Spells (.ofFormat library) (term.printed stream fun _ => none) term := by
  have buffer : 256 ≤ bufsiz := by decide
  induction term with
  | simple value =>
      rw [PlainSyntax, ErlTerm.every_simple] at plain
      cases value with
      | erlAtom mAtom =>
          cases mAtom with
          | none => cases plain
          | some mAtom =>
              obtain ⟨first, word⟩ := Bool.and_eq_true_iff.mp plain
              have bounded : mAtom.text.length ≤ 255 := mAtom.bounded
              have fits : mAtom.text.length + 1 ≤ bufsiz := by omega
              exact .atom (any_head first) (List.all_eq_true.mp word) fits
      | erlLong mValue =>
          cases mValue with
          | none => cases plain
          | some mValue =>
              obtain ⟨low, high⟩ := Bool.and_eq_true_iff.mp plain
              have range := And.intro (decide_eq_true_eq.mp low) (decide_eq_true_eq.mp high)
              exact .long (printInt_numeral _) (printInt_whole _) (numeral_printInt _).symm
                (printInt_length range.1 range.2) range
      | erlEmptyList => exact @Spells.emptyList (.ofFormat library) [] (List.forall_mem_nil _) rfl
      | _ => cases plain
  | erlTuple mInitialized mArity elems ih =>
      rw [PlainSyntax, ErlTerm.every_erlTuple] at plain
      obtain ⟨here, inside⟩ := plain
      rw [plainNode_tuple] at here
      obtain ⟨rfl, rfl, room⟩ := here
      rw [ErlTerm.printed_tuple]
      by_cases none : elems = []
      · subst none
        exact @Spells.emptyTuple (.ofFormat library) [] (List.forall_mem_nil _)
      · exact @spells_elements library .tuple elems _ none room
          fun elem member => ih elem member (inside elem member)
  | erlConsList mInitialized elems ih =>
      rw [PlainSyntax, ErlTerm.every_erlConsList] at plain
      obtain ⟨here, inside⟩ := plain
      rw [plainNode_list] at here
      obtain ⟨rfl, ⟨tail, found, empty⟩, low, high⟩ := here
      obtain ⟨cells, rfl⟩ := List.getLast?_eq_some_iff.mp found
      rw [isEmptyList empty] at ih inside low high ⊢
      rw [List.length_append, List.length_singleton] at low high
      rw [ErlTerm.printed_properList]
      have some : cells ≠ [] := by
        rintro rfl
        exact absurd low (by decide)
      exact @spells_elements library .list cells _ some (by omega) fun elem member =>
        ih elem (List.mem_append_left _ member) (inside elem (List.mem_append_left _ member))
  | erlVariable mName =>
      rw [PlainSyntax, ErlTerm.every_erlVariable] at plain
      rw [plainNode_variable] at plain
      obtain ⟨first, word, short⟩ := plain
      have fits : mName.length + 1 ≤ bufsiz := by omega
      rw [ErlTerm.printed_variable]
      exact .var first word fits

/-- What is printed of a term of the plain syntax is read as the same term, up to the byte that
ends the text. -/
theorem format_toString (library : CLibrary) (stream : Ostream) {fuel : Nat}
    (arguments : List FormatArgument) (plain : PlainSyntax term)
    (enough : (terminated (term.toString stream none)).length < fuel) :
    format library fuel (term.toString stream none) arguments = .returns term ∧
      ∃ after, eformat library fuel ⟨terminated (term.toString stream none), arguments⟩ =
        (.returns (some term), after) ∧ after.fmt = [0] := by
  have spelled : Spells (.ofFormat library) (term.toString stream none) term := plain.spells
  have undirected := undirected_of_end spelled.comes rfl (by simp)
  obtain ⟨after, ran, stopped⟩ :=
    (eformat_some_iff arguments enough undirected).mpr spelled.comes
  refine ⟨?_, after, ran, stopped⟩
  rw [format, ran]
  rfl

end Terms

/-- `{done,-12,[Rest,[]],{}}`. -/
def plainTerm : ErlTerm :=
  .erlTuple true (some 4) [
    .simple (.erlAtom (some ⟨text "done", by decide, by decide⟩)), newLong (.ofInt 64 (-12)),
    .erlConsList true [.erlVariable (text "Rest"), .simple .erlEmptyList, .simple .erlEmptyList],
    .erlTuple true (some 0) []]

theorem format_toString_plainTerm :
    format wholeNumbers 30 (plainTerm.toString (fun _ => []) none) [] = .returns plainTerm ∧
      ∃ after, eformat wholeNumbers 30
          ⟨terminated (plainTerm.toString (fun _ => []) none), []⟩ =
        (.returns (some plainTerm), after) ∧ after.fmt = [0] :=
  format_toString wholeNumbers (fun _ => []) [] (by decide) (by decide)

end Epi.Parse
