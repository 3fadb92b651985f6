import Epi.Parse.Descent

namespace Epi.Parse

open Verification Epi.Type Machine

/-- A quote that stands directly behind a backslash does not end a token. -/
def Escaped (closing : UInt8) (bytes : Bytes) : Prop :=
  (∀ front behind, bytes = front ++ closing :: behind → front.getLast? = some backslash) ∧
    bytes.getLast? ≠ some backslash

/-- What a reader takes of the grammar. -/
structure Limits where
  token : Bytes → Prop
  quoted : UInt8 → Bytes → Prop
  long : Int → Prop
  double : Bytes → Binary64 → Prop
  letter : UInt8 → Prop
  count : Nat → Prop
  gap : Bytes → Prop

/-- The whole grammar. -/
def Limits.unbounded : Limits where
  token _ := True
  quoted := Escaped
  long _ := True
  double digits value := value = dottedValue digits
  letter _ := True
  count _ := True
  gap _ := True

/-- What `format` takes: its buffer, the first quote behind one, the values of `int`, `atof` and
`char`, the entries of its array, and an empty list without blanks. -/
def Limits.ofFormat (library : CLibrary) : Limits where
  token bytes := bytes.length + 1 ≤ bufsiz
  quoted closing bytes := closing ∉ bytes
  long value := -2 ^ 31 ≤ value ∧ value < 2 ^ 31
  double digits value := value = library.atof digits
  letter c := c.toNat < 128
  count elems := elems ≤ maxEntries
  gap blanks := blanks = []

/-- What `format` takes as the grammar has it. A token in quotes has no escaped one and does not end
in a backslash. -/
def Limits.shared : Limits where
  token bytes := bytes.length + 1 ≤ bufsiz
  quoted closing bytes := closing ∉ bytes ∧ bytes.getLast? ≠ some backslash
  long value := -2 ^ 31 ≤ value ∧ value < 2 ^ 31
  double digits value := value = dottedValue digits
  letter c := c.toNat < 128
  count elems := elems ≤ maxEntries
  gap blanks := blanks = []

def Blank (gap : Bytes) : Prop := ∀ c ∈ gap, isNullChar c = true

/-- A numeral is an optional minus and digits with one dot at most. -/
structure Numeral (numeral : Bytes) : Prop where
  signed : ∃ digits, (numeral = digits ∨ numeral = minus :: digits) ∧
    (∃ c ∈ digits.head?, isdigit c = true) ∧ (∀ c ∈ digits, isdigit c = true ∨ c = dot) ∧
    digits.count dot ≤ 1

/-- A term of the text with the blanks around it. -/
structure Piece where
  before : Bytes
  core : Bytes
  after : Bytes
  term : ErlTerm

namespace Piece

def text (piece : Piece) : Bytes := piece.before ++ piece.core ++ piece.after

/-- The pieces with one comma between two of them. -/
def joined : List Piece → Bytes
  | [] => []
  | [piece] => piece.text
  | piece :: next :: rest => piece.text ++ comma :: joined (next :: rest)

def Padded (piece : Piece) : Prop := Blank piece.before ∧ Blank piece.after

end Piece

/-- `atof` gives the documented value of a numeral, the `double` nearest to it. -/
def CLibrary.RoundsNumerals (library : CLibrary) : Prop :=
  ∀ digits, Numeral digits → dot ∈ digits → library.atof digits = dottedValue digits

/-- The texts of the grammar, and the terms that they denote. -/
inductive Spells (limits : Limits) : Bytes → ErlTerm → Prop
  | atom {name : AtomText} (first : ∃ c ∈ name.text.head?, islower c = true)
      (bytes : ∀ c ∈ name.text, isAtomByte c = true) (fits : limits.token name.text) :
      Spells limits name.text (.simple (.erlAtom (some name)))
  | quotedAtom {name : AtomText} (inside : limits.quoted quote name.text) (clean : 0 ∉ name.text)
      (fits : limits.token name.text) :
      Spells limits (quote :: (name.text ++ [quote])) (.simple (.erlAtom (some name)))
  | var {name : Bytes} (first : ∃ c ∈ name.head?, isupper c = true ∨ c = underscore)
      (bytes : ∀ c ∈ name, isWordByte c = true) (fits : limits.token name) :
      Spells limits name (.erlVariable name)
  | long {digits : Bytes} {value : BitVec 64} (numeral : Numeral digits) (whole : dot ∉ digits)
      (same : value.toInt = Parse.numeral digits) (fits : limits.token digits)
      (range : limits.long value.toInt) : Spells limits digits (newLong value)
  | double {digits : Bytes} {value : Binary64} (numeral : Numeral digits) (dotted : dot ∈ digits)
      (same : limits.double digits value) (fits : limits.token digits) :
      Spells limits digits (newDouble value)
  | string {bytes : Bytes} (inside : limits.quoted doubleQuote bytes) (clean : 0 ∉ bytes)
      (fits : limits.token bytes) :
      Spells limits (doubleQuote :: (bytes ++ [doubleQuote])) (.simple (.erlString (some bytes)))
  | letter {c : UInt8} (clean : c ≠ 0) (fits : limits.letter c) :
      Spells limits [dollar, c] (newLong (.ofNat 64 c.toNat))
  | emptyTuple {gap : Bytes} (blank : Blank gap) :
      Spells limits (leftBrace :: (gap ++ [rightBrace])) (.erlTuple true (some 0) [])
  | emptyList {gap : Bytes} (blank : Blank gap) (fits : limits.gap gap) :
      Spells limits (leftBracket :: (gap ++ [rightBracket])) (.simple .erlEmptyList)
  | elements {bracket : Bracket} {pieces : List Piece} (some : pieces ≠ [])
      (padded : ∀ piece ∈ pieces, piece.Padded) (fits : limits.count pieces.length)
      (spelled : ∀ piece ∈ pieces, Spells limits piece.core piece.term) :
      Spells limits (bracket.opening :: (Piece.joined pieces ++ [bracket.closing]))
        (bracket.term (pieces.map Piece.term))

/-- A whole text denotes a term: blanks may stand around it. -/
def Denotes (limits : Limits) (whole : Bytes) (term : ErlTerm) : Prop :=
  ∃ piece : Piece, whole = piece.text ∧ piece.Padded ∧ piece.term = term ∧
    Spells limits piece.core piece.term

/-- A reader takes all that another one takes. -/
structure Limits.Within (limits wider : Limits) : Prop where
  token : ∀ bytes, limits.token bytes → wider.token bytes
  quoted : ∀ closing bytes, limits.quoted closing bytes → wider.quoted closing bytes
  long : ∀ value, limits.long value → wider.long value
  double : ∀ digits value, Numeral digits → dot ∈ digits → limits.double digits value →
    wider.double digits value
  letter : ∀ c, limits.letter c → wider.letter c
  count : ∀ elems, limits.count elems → wider.count elems
  gap : ∀ blanks, limits.gap blanks → wider.gap blanks

theorem Limits.shared_within_unbounded : Limits.shared.Within .unbounded where
  token _ _ := trivial
  quoted closing bytes inside := by
    refine ⟨fun front behind same => absurd ?_ inside.1, inside.2⟩
    rw [same]
    exact List.mem_append_right front List.mem_cons_self
  long _ _ := trivial
  double _ _ _ _ same := same
  letter _ _ := trivial
  count _ _ := trivial
  gap _ _ := trivial

theorem rounds_wholeNumbers : wholeNumbers.RoundsNumerals := fun _ _ _ => rfl

theorem Limits.shared_within_ofFormat {library : CLibrary} (rounds : library.RoundsNumerals) :
    Limits.shared.Within (.ofFormat library) where
  token _ fits := fits
  quoted _ _ inside := inside.1
  long _ fits := fits
  double digits _ numeral dotted same := same.trans (rounds digits numeral dotted).symm
  letter _ fits := fits
  count _ fits := fits
  gap _ fits := fits

section Grammar

variable {limits wider : Limits} {core : Bytes} {term : ErlTerm}

theorem Spells.widen (within : limits.Within wider) (spelled : Spells limits core term) :
    Spells wider core term := by
  induction spelled with
  | atom first bytes fits => exact .atom first bytes (within.token _ fits)
  | quotedAtom inside clean fits =>
      exact .quotedAtom (within.quoted _ _ inside) clean (within.token _ fits)
  | var first bytes fits => exact .var first bytes (within.token _ fits)
  | long numeral whole same fits range =>
      exact .long numeral whole same (within.token _ fits) (within.long _ range)
  | double numeral dotted same fits =>
      exact .double numeral dotted (within.double _ _ numeral dotted same) (within.token _ fits)
  | string inside clean fits =>
      exact .string (within.quoted _ _ inside) clean (within.token _ fits)
  | letter clean fits => exact .letter clean (within.letter _ fits)
  | emptyTuple blank => exact .emptyTuple blank
  | emptyList blank fits => exact .emptyList blank (within.gap _ fits)
  | elements some padded fits _ ih => exact .elements some padded (within.count _ fits) ih

theorem Denotes.widen (within : limits.Within wider) {whole : Bytes}
    (denotes : Denotes limits whole term) : Denotes wider whole term := by
  obtain ⟨piece, same, padded, here, spelled⟩ := denotes
  exact ⟨piece, same, padded, here, spelled.widen within⟩

/-- The bytes that may stand behind a term. -/
def delimiters : Bytes := [space, tab, newline, comma, rightBrace, rightBracket, 0]

/-- No delimiter is of a kind of bytes that has none of them. -/
theorem not_delimiter {accepts : UInt8 → Bool}
    (apart : delimiters.any accepts = false) {c : UInt8} (here : accepts c = true) :
    c ∉ delimiters :=
  fun member => List.any_eq_false.mp apart c member here

theorem not_delimiter_solid {c : UInt8} (starter : c ∉ delimiters) : isNullChar c = false := by
  have other : c ≠ space ∧ c ≠ tab ∧ c ≠ newline := by
    refine ⟨?_, ?_, ?_⟩ <;> rintro rfl <;> exact starter (by decide)
  simp [isNullChar, other]

theorem delimiter_of_blank {c : UInt8} (blank : isNullChar c = true) : c ∈ delimiters := by
  by_contra starter
  rw [not_delimiter_solid starter] at blank
  cases blank

theorem Numeral.head (numeral : Numeral core) :
    ∃ c more, core = c :: more ∧ (isdigit c = true ∨ c = minus) := by
  obtain ⟨digits, shape, ⟨c, head, digit⟩, -⟩ := numeral.signed
  rcases shape with rfl | rfl
  · obtain ⟨more, rfl⟩ := List.head?_eq_some_iff.mp head
    exact ⟨c, more, rfl, .inl digit⟩
  · exact ⟨minus, digits, rfl, .inr rfl⟩

/-- A term does not start with a delimiter. -/
theorem Spells.head (spelled : Spells limits core term) :
    ∃ c more, core = c :: more ∧ c ∉ delimiters := by
  have ofHead : ∀ {accepts : UInt8 → Bool} {name : Bytes},
      delimiters.any accepts = false → (∃ c ∈ name.head?, accepts c = true) →
      ∃ c more, name = c :: more ∧ c ∉ delimiters := by
    rintro accepts name apart ⟨c, head, here⟩
    obtain ⟨more, rfl⟩ := List.head?_eq_some_iff.mp head
    exact ⟨c, more, rfl, not_delimiter apart here⟩
  have ofNumeral : ∀ {digits : Bytes}, Numeral digits →
      ∃ c more, digits = c :: more ∧ c ∉ delimiters := by
    intro digits numeral
    obtain ⟨c, more, rfl, digit | rfl⟩ := numeral.head
    · exact ⟨c, more, rfl, @not_delimiter isdigit (by decide) c digit⟩
    · exact ⟨minus, more, rfl, by decide⟩
  cases spelled with
  | atom first => exact ofHead (by decide) first
  | quotedAtom => exact ⟨quote, _, rfl, by decide⟩
  | var first =>
      have start : ∃ c ∈ core.head?, (isupper c || c == underscore) = true := by
        obtain ⟨c, head, here⟩ := first
        exact ⟨c, head, by simpa using here⟩
      exact @ofHead (fun c => isupper c || c == underscore) core (by decide) start
  | long numeral => exact ofNumeral numeral
  | double numeral => exact ofNumeral numeral
  | string => exact ⟨doubleQuote, _, rfl, by decide⟩
  | letter => exact ⟨dollar, _, rfl, by decide⟩
  | emptyTuple => exact ⟨leftBrace, _, rfl, by decide⟩
  | emptyList => exact ⟨leftBracket, _, rfl, by decide⟩
  | elements => exact ⟨_, _, rfl, by cases ‹Bracket› <;> decide⟩

/-- An atom is written in quotes or without. -/
theorem Spells.atom_core {name : AtomText}
    (spelled : Spells limits core (.simple (.erlAtom (some name)))) :
    core = name.text ∨ core = quote :: (name.text ++ [quote]) := by
  generalize same : ErlTerm.simple (.erlAtom (some name)) = term at spelled
  cases spelled with
  | atom =>
      cases same
      exact .inl rfl
  | quotedAtom =>
      cases same
      exact .inr rfl
  | @elements bracket => cases bracket <;> cases same
  | _ => cases same

theorem clean_of_accepts {accepts : UInt8 → Bool} {bytes : Bytes} (apart : accepts 0 = false)
    (word : ∀ c ∈ bytes, accepts c = true) : 0 ∉ bytes := by
  intro member
  rw [word 0 member] at apart
  cases apart

theorem Blank.clean {gap : Bytes} (blank : Blank gap) : 0 ∉ gap :=
  clean_of_accepts (by decide) blank

theorem Numeral.clean (numeral : Numeral core) : 0 ∉ core := by
  obtain ⟨digits, shape, -, all, -⟩ := numeral.signed
  have inside : 0 ∉ digits := by
    intro member
    exact absurd (all 0 member) (by decide)
  rcases shape with rfl | rfl
  · exact inside
  · rw [List.mem_cons, not_or]
    exact ⟨by decide, inside⟩

theorem clean_quoted {closing : UInt8} {bytes : Bytes} (other : 0 ≠ closing) (clean : 0 ∉ bytes) :
    0 ∉ closing :: (bytes ++ [closing]) := by
  simp [other, clean]

theorem clean_joined {pieces : List Piece} (padded : ∀ piece ∈ pieces, piece.Padded)
    (clean : ∀ piece ∈ pieces, 0 ∉ piece.core) : 0 ∉ Piece.joined pieces := by
  have text : ∀ piece ∈ pieces, 0 ∉ piece.text := by
    intro piece member
    have inside := clean piece member
    have before := (padded piece member).1.clean
    have after := (padded piece member).2.clean
    simp [Piece.text, before, inside, after]
  clear padded clean
  induction pieces with
  | nil => simp [Piece.joined]
  | cons piece pieces ih =>
      rw [List.forall_mem_cons] at text
      cases pieces with
      | nil => exact text.1
      | cons next pieces =>
          have other : (0 : UInt8) ≠ comma := by decide
          simp [Piece.joined, text.1, ih text.2, other]

/-- The byte that ends a string stands in no term. -/
theorem Spells.clean (spelled : Spells limits core term) : 0 ∉ core := by
  induction spelled with
  | atom _ word => exact clean_of_accepts (by decide) word
  | quotedAtom _ clean => exact clean_quoted (by decide) clean
  | var _ word => exact clean_of_accepts (by decide) word
  | long numeral => exact numeral.clean
  | double numeral => exact numeral.clean
  | string _ clean => exact clean_quoted (by decide) clean
  | letter clean =>
      have other : (0 : UInt8) ≠ dollar := by decide
      simp [other, clean.symm]
  | emptyTuple blank =>
      have brackets : (0 : UInt8) ≠ leftBrace ∧ (0 : UInt8) ≠ rightBrace := by decide
      simp [brackets, blank.clean]
  | emptyList blank =>
      have brackets : (0 : UInt8) ≠ leftBracket ∧ (0 : UInt8) ≠ rightBracket := by decide
      simp [brackets, blank.clean]
  | @elements bracket pieces _ padded _ _ ih =>
      have brackets : (0 : UInt8) ≠ bracket.opening ∧ (0 : UInt8) ≠ bracket.closing := by
        cases bracket <;> decide
      simp [brackets, clean_joined padded ih]

end Grammar

end Epi.Parse
