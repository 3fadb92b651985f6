import Epi.Parse.Grammar
import Epi.Parse.Passing

namespace Epi.Parse

open Verification Epi.Type Machine

/-- Wherever a term may stand, the reading passes the text and stores the term. -/
def Reads (library : CLibrary) (core : Bytes) (term : ErlTerm) : Prop :=
  ∀ opened before d behind, Blank before → d ∈ delimiters →
    Comes (Reading.step library) (.reads opened (before ++ core ++ d :: behind))
      (Reading.store opened term (d :: behind))

/-- Wherever a term may stand, what is read at last does not have it there. -/
def Astray (library : CLibrary) (core : Bytes) (term : ErlTerm) : Prop :=
  ∀ opened before d behind whole rest, Blank before → d ∈ delimiters →
    Comes (Reading.step library) (.reads opened (before ++ core ++ d :: behind))
      (.read whole rest) → ¬ Holds opened term whole

section Steps

variable {library : CLibrary} {opened outer : List Opened} {inner : Opened} {c d : UInt8}
  {before gap rest : Bytes}

theorem dropWhile_blank (blank : Blank gap) (solid : isNullChar c = false) :
    (gap ++ c :: rest).dropWhile isNullChar = c :: rest := by
  rw [List.dropWhile_append_of_pos blank, List.dropWhile_cons, if_neg (by simp [solid])]

/-- The reading comes to a byte behind blanks. -/
theorem comes_goesOn (library : CLibrary) (opened : List Opened) (rest : Bytes) (blank : Blank gap)
    (solid : isNullChar c = false) :
    Comes (Reading.step library) (.reads opened (gap ++ c :: rest))
      (Reading.goesOn library opened c rest) :=
  step_reads (dropWhile_blank blank solid)

theorem goesOn_starter (starter : c ∉ delimiters) :
    Reading.goesOn library opened c rest = Reading.starts library opened c rest := by
  cases opened with
  | nil => rfl
  | cons inner outer =>
      have open' : c ≠ inner.bracket.closing := by
        rintro rfl
        exact starter (by cases inner.bracket <;> decide)
      have solid : c ≠ comma := by
        rintro rfl
        exact starter (by decide)
      rw [Reading.goesOn, if_neg open', if_neg solid]

/-- The reading comes to a byte that starts a term. -/
theorem comes_starts (library : CLibrary) (opened : List Opened) (rest : Bytes) (blank : Blank gap)
    (starter : c ∉ delimiters) :
    Comes (Reading.step library) (.reads opened (gap ++ c :: rest))
      (Reading.starts library opened c rest) := by
  have comes := comes_goesOn library opened rest blank (not_delimiter_solid starter)
  rwa [goesOn_starter starter] at comes

/-- The reading passes the byte that closes a bracket. -/
theorem comes_closing (blank : Blank gap) :
    Comes (Reading.step library)
      (.reads (inner :: outer) (gap ++ inner.bracket.closing :: rest))
      (Reading.store outer (inner.bracket.term inner.elems) rest) := by
  have solid : isNullChar inner.bracket.closing = false := by cases inner.bracket <;> rfl
  have comes := comes_goesOn library (inner :: outer) rest blank solid
  rwa [Reading.goesOn, if_pos rfl] at comes

theorem comes_comma (blank : Blank gap) :
    Comes (Reading.step library) (.reads (inner :: outer) (gap ++ comma :: rest))
      (.reads (inner :: outer) rest) := by
  have solid : isNullChar comma = false := rfl
  have comes := comes_goesOn library (inner :: outer) rest blank solid
  have other : comma ≠ inner.bracket.closing := by cases inner.bracket <;> decide
  rwa [Reading.goesOn, if_neg other, if_pos rfl] at comes

end Steps

section Tokens

variable {library : CLibrary} {kind : TokenKind} {term : ErlTerm} {bytes more : Bytes}
  {c d : UInt8}

theorem ofPrefix_append (bytes behind : Bytes) (d : UInt8) :
    Token.ofPrefix (bytes ++ d :: behind) (d :: behind) = some ⟨bytes, d :: behind⟩ := by
  have size : (bytes ++ d :: behind).length - (d :: behind).length = bytes.length := by
    rw [List.length_append]
    omega
  rw [Token.ofPrefix, size, List.take_left]

theorem ofQuoted_append {closing : UInt8} (inside : closing ∉ bytes) (behind : Bytes) :
    Token.ofQuoted closing (bytes ++ closing :: behind) = some ⟨bytes, behind⟩ := by
  have passed : ∀ e ∈ bytes, (e != closing) = true := by
    intro e member
    rw [bne_iff_ne]
    rintro rfl
    exact inside member
  have closes : ¬ (closing != closing) = true := by simp
  rw [Token.ofQuoted, List.dropWhile_append_of_pos passed, List.takeWhile_append_of_pos passed,
    List.dropWhile_cons, List.takeWhile_cons, if_neg closes, if_neg closes, List.append_nil]

/-- A word ends before a delimiter. -/
theorem dropWhile_word {accepts : UInt8 → Bool} (apart : delimiters.any accepts = false)
    (word : ∀ e ∈ bytes, accepts e = true) (delimiter : d ∈ delimiters) (behind : Bytes) :
    (bytes ++ d :: behind).dropWhile accepts = d :: behind := by
  have ended : ¬ accepts d = true := fun here => not_delimiter apart here delimiter
  rw [List.dropWhile_append_of_pos word, List.dropWhile_cons, if_neg ended]

theorem dropDigits_digits {dotp : Bool}
    (digits : ∀ e ∈ bytes, isdigit e = true ∨ e = dot)
    (dots : bytes.count dot ≤ if dotp then 0 else 1) (delimiter : d ∈ delimiters)
    (behind : Bytes) : dropDigits dotp (bytes ++ d :: behind) = d :: behind := by
  induction bytes generalizing dotp with
  | nil =>
      have ended : ¬ (isdigit d || d == minus) = true := fun here =>
        @not_delimiter (fun e => isdigit e || e == minus) (by decide) d here delimiter
      have undotted : ¬ (!dotp && d == dot) = true := by
        rw [Bool.and_eq_true, beq_iff_eq]
        rintro ⟨-, rfl⟩
        exact absurd delimiter (by decide)
      rw [List.nil_append, dropDigits, if_neg ended, if_neg undotted]
  | cons e bytes ih =>
      rw [List.forall_mem_cons] at digits
      rw [List.cons_append, dropDigits]
      rcases digits.1 with digit | rfl
      · have other : e ≠ dot := by
          rintro rfl
          exact absurd digit (by decide)
        rw [List.count_cons_of_ne other] at dots
        rw [if_pos (by simp [digit])]
        exact ih digits.2 dots
      · rw [List.count_cons_self] at dots
        cases dotp with
        | true => exact absurd dots (by simp)
        | false =>
            have low : bytes.count dot ≤ 0 := by simpa using dots
            rw [if_neg (by decide), if_pos (by decide)]
            exact ih digits.2 low

/-- A numeral ends before a delimiter. -/
theorem dropDigits_numeral (numeral : Numeral bytes) (delimiter : d ∈ delimiters)
    (behind : Bytes) : dropDigits false (bytes ++ d :: behind) = d :: behind := by
  obtain ⟨digits, shape, -, all, dots⟩ := numeral.signed
  have single : digits.count dot ≤ if false = true then 0 else 1 := by simpa using dots
  have passed := dropDigits_digits all single delimiter behind
  rcases shape with rfl | rfl
  · exact passed
  · rwa [List.cons_append, dropDigits, if_pos (by decide)]

/-- A token is split from the text behind it by a delimiter. -/
def Splits (kind : TokenKind) (c : UInt8) (more bytes : Bytes) : Prop :=
  tokenKind c = some kind ∧ ∀ d behind, d ∈ delimiters →
    kind.token c (more ++ d :: behind) = some ⟨bytes, d :: behind⟩

theorem Splits.starter (splits : Splits kind c more bytes) : c ∉ delimiters := by
  have known : (tokenKind c).isSome = true := by rw [splits.1, Option.isSome_some]
  exact @not_delimiter (fun c => (tokenKind c).isSome) (by decide) c known

/-- The reading comes to what it does with a token. -/
theorem Splits.comes (splits : Splits kind c more bytes) {opened : List Opened} {before : Bytes}
    {behind : Bytes} {after : Reading} (blank : Blank before)
    (started : StartStep library opened c (more ++ d :: behind) after) :
    Comes (Reading.step library) (.reads opened (before ++ c :: more ++ d :: behind)) after := by
  have comes := comes_starts library opened (more ++ d :: behind) blank splits.starter
  rw [started.starts_eq] at comes
  rwa [List.append_assoc, List.cons_append]

/-- A token that fits into its buffer is read as the term that it makes. -/
theorem Splits.reads (splits : Splits kind c more bytes) (fits : bytes.length + 1 ≤ bufsiz)
    (made : kind.term library bytes = .returns term) : Reads library (c :: more) term := by
  intro opened before d behind blank delimiter
  exact splits.comes blank (.token splits.1 (splits.2 d behind delimiter) fits made)

theorem Splits.astray (splits : Splits kind c more bytes) (long : ¬ bytes.length + 1 ≤ bufsiz)
    (term : ErlTerm) : Astray library (c :: more) term := by
  intro opened before d behind whole rest blank delimiter comes
  have outside : Comes (Reading.step library)
      (.reads opened (before ++ c :: more ++ d :: behind)) .outside :=
    splits.comes blank (.long splits.1 (splits.2 d behind delimiter) (Nat.not_le.mp long))
  cases outside.end_unique comes rfl rfl

end Tokens

section Scalars

variable {library : CLibrary} {bytes more : Bytes} {c : UInt8} {name : AtomText}

theorem tokenKind_name (first : isupper c = true ∨ c = underscore) :
    tokenKind c = some .var := by
  have lower : ¬ islower c = true := by
    rcases first with upper | rfl
    · simp only [isupper, islower, Bool.and_eq_true, decide_eq_true_eq,
        UInt8.le_iff_toNat_le] at upper ⊢
      have low : c.toNat ≤ 90 := upper.2
      rintro ⟨high, -⟩
      have letter : 97 ≤ c.toNat := high
      omega
    · decide
  rw [tokenKind, if_neg lower, if_pos (by simpa using first)]

theorem tokenKind_digit (first : isdigit c = true ∨ c = minus) : tokenKind c = some .number := by
  have other : ¬ islower c = true ∧ ¬ isupper c = true ∧ c ≠ underscore := by
    rcases first with digit | rfl
    · simp only [isdigit, islower, isupper, Bool.and_eq_true, decide_eq_true_eq,
        UInt8.le_iff_toNat_le] at digit ⊢
      have low : c.toNat ≤ 57 := digit.2
      refine ⟨?_, ?_, ?_⟩
      · rintro ⟨high, -⟩
        have letter : 97 ≤ c.toNat := high
        omega
      · rintro ⟨high, -⟩
        have letter : 65 ≤ c.toNat := high
        omega
      · rintro rfl
        exact absurd low (by decide)
    · decide
  rw [tokenKind, if_neg other.1, if_neg (by simp [other.2]), if_pos (by simpa using first)]

/-- A token that is a prefix of the text is split off where its bytes end. -/
theorem splits_prefix {kind : TokenKind} (left : Bytes → Bytes) (known : tokenKind c = some kind)
    (token : ∀ rest, kind.token c rest = Token.ofPrefix (c :: rest) (left (c :: rest)))
    (ended : ∀ d behind, d ∈ delimiters → left (c :: more ++ d :: behind) = d :: behind) :
    Splits kind c more (c :: more) := by
  refine ⟨known, fun d behind delimiter => ?_⟩
  rw [token, ← List.cons_append, ended d behind delimiter, ofPrefix_append]

theorem splits_atom (first : islower c = true)
    (word : ∀ e ∈ c :: more, isAtomByte e = true) : Splits .atom c more (c :: more) :=
  splits_prefix (List.dropWhile isAtomByte) (by rw [tokenKind, if_pos first]) (fun _ => rfl)
    fun _ behind delimiter => dropWhile_word (by decide) word delimiter behind

theorem splits_var (first : isupper c = true ∨ c = underscore)
    (word : ∀ e ∈ c :: more, isWordByte e = true) : Splits .var c more (c :: more) :=
  splits_prefix (List.dropWhile isWordByte) (tokenKind_name first) (fun _ => rfl)
    fun _ behind delimiter => dropWhile_word (by decide) word delimiter behind

theorem splits_number (numeral : Numeral (c :: more)) : Splits .number c more (c :: more) := by
  obtain ⟨first, rest, same, digit⟩ := numeral.head
  obtain ⟨rfl, rfl⟩ := List.cons.inj same
  exact splits_prefix (dropDigits false) (tokenKind_digit digit) (fun _ => rfl)
    fun _ behind delimiter => dropDigits_numeral numeral delimiter behind

theorem splits_string (inside : doubleQuote ∉ bytes) :
    Splits .string doubleQuote (bytes ++ [doubleQuote]) bytes := by
  refine ⟨rfl, fun d behind delimiter => ?_⟩
  rw [List.append_assoc, List.singleton_append]
  exact ofQuoted_append inside (d :: behind)

theorem splits_quotedAtom (inside : quote ∉ bytes) :
    Splits .quotedAtom quote (bytes ++ [quote]) bytes := by
  refine ⟨rfl, fun d behind delimiter => ?_⟩
  rw [List.append_assoc, List.singleton_append]
  exact ofQuoted_append inside (d :: behind)

/-- A text without the byte that ends a string is the atom. -/
theorem newAtom_text (clean : 0 ∉ name.text) :
    newAtom name.text = .returns (.simple (.erlAtom (some name))) := by
  rw [newAtom, cString_eq_self clean, AtomText.init_text]
  rfl

/-- The value of an `int` is the value of the 64 bits that it is extended to. -/
theorem toInt_signExtend_range (value : BitVec 32) :
    -2 ^ 31 ≤ (value.signExtend 64).toInt ∧ (value.signExtend 64).toInt < 2 ^ 31 := by
  rw [BitVec.toInt_signExtend_of_le (by decide)]
  have low := BitVec.le_toInt value
  have high := BitVec.toInt_lt (x := value)
  omega

/-- A numeral in the range of `int` keeps its value. -/
theorem toInt_atoi {digits : Bytes} (low : -2 ^ 31 ≤ numeral digits)
    (high : numeral digits < 2 ^ 31) :
    ((atoi library digits).signExtend 64).toInt = numeral digits := by
  rw [atoi, if_pos ⟨low, high⟩, BitVec.toInt_signExtend_of_le (by decide)]
  exact BitVec.toInt_ofInt_eq_self (by decide) low high

end Scalars

section Pieces

variable {library : CLibrary} {core before after : Bytes} {d : UInt8} {term : ErlTerm}
  {bracket : Bracket} {pieces : List Piece}

theorem padded_delimiter (blank : Blank after) (delimiter : d ∈ delimiters) (behind : Bytes) :
    ∃ e more, after ++ d :: behind = e :: more ∧ e ∈ delimiters := by
  cases after with
  | nil => exact ⟨d, behind, rfl, delimiter⟩
  | cons e more =>
      exact ⟨e, more ++ d :: behind, rfl, delimiter_of_blank (blank e List.mem_cons_self)⟩

/-- Blanks may stand behind a text wherever a delimiter may. -/
theorem comes_padded {opened : List Opened} {target : Bytes → Reading}
    (comes : ∀ d behind, d ∈ delimiters →
      Comes (Reading.step library) (.reads opened (before ++ core ++ d :: behind))
        (target (d :: behind)))
    (blank : Blank after) (delimiter : d ∈ delimiters) (behind : Bytes) :
    Comes (Reading.step library) (.reads opened (before ++ core ++ after ++ d :: behind))
      (target (after ++ d :: behind)) := by
  obtain ⟨e, more, same, ended⟩ := padded_delimiter blank delimiter behind
  rw [List.append_assoc, same]
  exact comes e more ended

theorem Reads.padded (reads : Reads library core term) (opened : List Opened)
    (blankBefore : Blank before) (blankAfter : Blank after) (delimiter : d ∈ delimiters)
    (behind : Bytes) :
    Comes (Reading.step library) (.reads opened (before ++ core ++ after ++ d :: behind))
      (Reading.store opened term (after ++ d :: behind)) :=
  comes_padded (fun e more => reads opened before e more blankBefore) blankAfter delimiter behind

/-- A text that is read as another term. -/
theorem Reads.astray {other : ErlTerm} (reads : Reads library core other) (differs : other ≠ term) :
    Astray library core term := by
  intro opened before d behind whole rest blank delimiter comes holds
  have later := (reads opened before d behind blank delimiter).before_end comes rfl
  exact differs ((holds_of_comes (comes_pass later)).unique holds)

theorem Astray.padded (astray : Astray library core term) {opened : List Opened} {whole : ErlTerm}
    {behind rest : Bytes} (blankBefore : Blank before) (blankAfter : Blank after)
    (delimiter : d ∈ delimiters)
    (comes : Comes (Reading.step library)
      (.reads opened (before ++ core ++ after ++ d :: behind)) (.read whole rest)) :
    ¬ Holds opened term whole := by
  obtain ⟨e, more, same, ended⟩ := padded_delimiter blankAfter delimiter behind
  rw [List.append_assoc, same] at comes
  exact astray opened before e more whole rest blankBefore ended comes

/-- The text behind the first of some pieces in a bracket. -/
def Piece.followed (bracket : Bracket) (rest : Bytes) : List Piece → Bytes
  | [] => bracket.closing :: rest
  | next :: pieces => comma :: (Piece.joined (next :: pieces) ++ bracket.closing :: rest)

theorem joined_cons (piece : Piece) (pieces : List Piece) (bracket : Bracket) (rest : Bytes) :
    Piece.joined (piece :: pieces) ++ bracket.closing :: rest =
      piece.before ++ piece.core ++ piece.after ++ Piece.followed bracket rest pieces := by
  cases pieces with
  | nil => rfl
  | cons next pieces =>
      rw [Piece.joined, List.append_assoc, List.cons_append]
      rfl

theorem followed_delimiter (bracket : Bracket) (rest : Bytes) (pieces : List Piece) :
    ∃ d behind, Piece.followed bracket rest pieces = d :: behind ∧ d ∈ delimiters := by
  cases pieces with
  | nil => exact ⟨_, _, rfl, by cases bracket <;> decide⟩
  | cons next pieces => exact ⟨_, _, rfl, by decide⟩

variable {outer : List Opened} {v : List ErlTerm} {rest : Bytes} {piece : Piece}

/-- The reading passes the first of some pieces. -/
theorem comes_piece (padded : piece.Padded) (reads : Reads library piece.core term)
    (room : v.length < maxEntries) :
    Comes (Reading.step library)
      (.reads (⟨bracket, v⟩ :: outer) (Piece.joined (piece :: pieces) ++ bracket.closing :: rest))
      (.reads (⟨bracket, v ++ [term]⟩ :: outer)
        (piece.after ++ Piece.followed bracket rest pieces)) := by
  obtain ⟨d, behind, same, delimiter⟩ := followed_delimiter bracket rest pieces
  have read := reads.padded (⟨bracket, v⟩ :: outer) padded.1 padded.2 delimiter behind
  have stored : Reading.store (⟨bracket, v⟩ :: outer) term (piece.after ++ d :: behind) =
      .reads (⟨bracket, v ++ [term]⟩ :: outer) (piece.after ++ d :: behind) := if_pos room
  rw [stored] at read
  rwa [joined_cons, same]

/-- The elements are stored one by one, and then the bracket is closed. -/
theorem comes_pieces (padded : ∀ piece ∈ pieces, piece.Padded)
    (reads : ∀ piece ∈ pieces, Reads library piece.core piece.term) (some : pieces ≠ [])
    (room : v.length + pieces.length ≤ maxEntries) :
    Comes (Reading.step library)
      (.reads (⟨bracket, v⟩ :: outer) (Piece.joined pieces ++ bracket.closing :: rest))
      (Reading.store outer (bracket.term (v ++ pieces.map Piece.term)) rest) := by
  induction pieces generalizing v with
  | nil => exact absurd rfl some
  | cons piece pieces ih =>
      rw [List.forall_mem_cons] at padded reads
      rw [List.length_cons] at room
      refine (comes_piece padded.1 reads.1 (by omega)).trans ?_
      cases pieces with
      | nil => exact @comes_closing library outer ⟨bracket, v ++ [piece.term]⟩ _ _ padded.1.2
      | cons next pieces =>
          have later := @ih (v ++ [piece.term]) padded.2 reads.2 (List.cons_ne_nil next pieces)
            (by rw [List.length_append, List.length_singleton]; omega)
          rw [List.append_assoc, List.singleton_append] at later
          exact (comes_comma padded.1.2).trans later

/-- An element that goes astray, or one too many, is missing from what is read at last. -/
theorem pieces_astray {whole : ErlTerm} {last : Bytes}
    (padded : ∀ piece ∈ pieces, piece.Padded)
    (each : ∀ piece ∈ pieces, Reads library piece.core piece.term ∨
      Astray library piece.core piece.term)
    (bad : (∃ piece ∈ pieces, Astray library piece.core piece.term) ∨
      maxEntries < v.length + pieces.length) (low : v.length ≤ maxEntries)
    (comes : Comes (Reading.step library)
      (.reads (⟨bracket, v⟩ :: outer) (Piece.joined pieces ++ bracket.closing :: rest))
      (.read whole last)) :
    ¬ Holds outer (bracket.term (v ++ pieces.map Piece.term)) whole := by
  induction pieces generalizing v with
  | nil =>
      rcases bad with ⟨piece, member, -⟩ | many
      · cases member
      · rw [List.length_nil] at many
        omega
  | cons piece pieces ih =>
      rw [List.forall_mem_cons] at padded each
      rw [List.length_cons] at bad
      obtain ⟨d, behind, same, delimiter⟩ := followed_delimiter bracket rest pieces
      by_cases astray : Astray library piece.core piece.term
      · rw [joined_cons, same] at comes
        intro holds
        exact astray.padded padded.1.1 padded.1.2 delimiter comes ⟨_, holds⟩
      · have here := each.1.resolve_right astray
        by_cases room : v.length < maxEntries
        · have later : (∃ piece ∈ pieces, Astray library piece.core piece.term) ∨
              maxEntries < (v ++ [piece.term]).length + pieces.length := by
            rw [List.length_append, List.length_singleton]
            refine bad.imp ?_ (by omega)
            rintro ⟨other, member, lost⟩
            rcases List.mem_cons.mp member with rfl | inside
            · exact absurd lost astray
            · exact ⟨other, inside, lost⟩
          have stored := (comes_piece padded.1 here room).before_end comes rfl
          cases pieces with
          | nil =>
              rcases later with ⟨other, member, -⟩ | many
              · cases member
              · rw [List.length_append, List.length_singleton, List.length_nil] at many
                omega
          | cons next pieces =>
              have passed := (comes_comma padded.1.2).before_end stored rfl
              have missing := @ih (v ++ [piece.term]) padded.2 each.2 later
                (by rw [List.length_append, List.length_singleton]; omega) passed
              rwa [List.append_assoc, List.singleton_append] at missing
        · have read := here.padded (⟨bracket, v⟩ :: outer) padded.1.1 padded.1.2 delimiter behind
          have full : Reading.store (⟨bracket, v⟩ :: outer) piece.term
              (piece.after ++ d :: behind) = .outside := if_neg room
          rw [full] at read
          rw [joined_cons, same] at comes
          cases read.end_unique comes rfl rfl

/-- The reading passes the byte that opens a bracket, unless it is an empty list. -/
theorem comes_opening {opened : List Opened} {gap behind : Bytes} {first : UInt8}
    (blank : Blank gap) (other : first ≠ rightBracket) (bracket : Bracket) :
    Comes (Reading.step library) (.reads opened (gap ++ bracket.opening :: first :: behind))
      (.reads (⟨bracket, []⟩ :: opened) (first :: behind)) := by
  have starter : bracket.opening ∉ delimiters := by cases bracket <;> decide
  have comes := comes_starts library opened (first :: behind) blank starter
  have same : Reading.starts library opened bracket.opening (first :: behind) =
      .reads (⟨bracket, []⟩ :: opened) (first :: behind) := by
    cases bracket with
    | tuple => rfl
    | list => exact if_neg other
  rwa [same] at comes

/-- The elements of a list do not start with the byte that closes it. -/
theorem joined_head (padded : ∀ piece ∈ pieces, piece.Padded)
    (heads : ∀ piece ∈ pieces, ∃ c more, piece.core = c :: more ∧ c ∉ delimiters)
    (some : pieces ≠ []) (rest : Bytes) :
    ∃ first behind, Piece.joined pieces ++ rest = first :: behind ∧ first ≠ rightBracket := by
  cases pieces with
  | nil => exact absurd rfl some
  | cons piece pieces =>
      obtain ⟨c, more, core, starter⟩ := heads piece List.mem_cons_self
      have blank := (padded piece List.mem_cons_self).1
      have text : ∃ first behind, piece.text = first :: behind ∧ first ≠ rightBracket := by
        cases before : piece.before with
        | nil =>
            refine ⟨c, more ++ piece.after, by rw [Piece.text, before, core]; rfl, ?_⟩
            rintro rfl
            exact starter (by decide)
        | cons e gap =>
            refine ⟨e, gap ++ piece.core ++ piece.after, by rw [Piece.text, before]; rfl, ?_⟩
            rintro rfl
            have here := blank rightBracket (before ▸ List.mem_cons_self)
            exact absurd here (by decide)
      obtain ⟨first, behind, same, other⟩ := text
      cases pieces with
      | nil => exact ⟨first, behind ++ rest, by rw [Piece.joined, same]; rfl, other⟩
      | cons next pieces =>
          exact ⟨first, _, by rw [Piece.joined, same]; rfl, other⟩

/-- The reading comes to what it does with the elements of a bracket. -/
theorem comes_bracket (padded : ∀ piece ∈ pieces, piece.Padded)
    (heads : ∀ piece ∈ pieces, ∃ c more, piece.core = c :: more ∧ c ∉ delimiters)
    (some : pieces ≠ []) {opened : List Opened} {gap behind : Bytes} {last : Reading}
    (blank : Blank gap)
    (inside : Comes (Reading.step library)
      (.reads (⟨bracket, []⟩ :: opened) (Piece.joined pieces ++ bracket.closing :: behind)) last) :
    Comes (Reading.step library)
      (.reads opened
        (gap ++ bracket.opening :: (Piece.joined pieces ++ [bracket.closing]) ++ behind)) last := by
  obtain ⟨first, rest, same, other⟩ := joined_head padded heads some (bracket.closing :: behind)
  have comes := @comes_opening library opened gap rest first blank other bracket
  rw [← same] at comes
  rw [List.append_assoc, List.cons_append, List.append_assoc, List.singleton_append]
  exact comes.trans inside

/-- A bracket that does not hold too many elements is read as a term of them. -/
theorem reads_elements (padded : ∀ piece ∈ pieces, piece.Padded)
    (heads : ∀ piece ∈ pieces, ∃ c more, piece.core = c :: more ∧ c ∉ delimiters)
    (reads : ∀ piece ∈ pieces, Reads library piece.core piece.term) (some : pieces ≠ [])
    (room : pieces.length ≤ maxEntries) :
    Reads library (bracket.opening :: (Piece.joined pieces ++ [bracket.closing]))
      (bracket.term (pieces.map Piece.term)) := by
  intro opened gap d behind blank delimiter
  have inside := @comes_pieces library bracket pieces opened [] (d :: behind) padded reads some
    (by rwa [List.length_nil, Nat.zero_add])
  rw [List.nil_append] at inside
  exact comes_bracket padded heads some blank inside

theorem elements_astray (padded : ∀ piece ∈ pieces, piece.Padded)
    (heads : ∀ piece ∈ pieces, ∃ c more, piece.core = c :: more ∧ c ∉ delimiters)
    (each : ∀ piece ∈ pieces, Reads library piece.core piece.term ∨
      Astray library piece.core piece.term) (some : pieces ≠ [])
    (bad : (∃ piece ∈ pieces, Astray library piece.core piece.term) ∨
      maxEntries < pieces.length) :
    Astray library (bracket.opening :: (Piece.joined pieces ++ [bracket.closing]))
      (bracket.term (pieces.map Piece.term)) := by
  intro opened gap d behind whole rest blank delimiter comes
  have inside := (comes_bracket padded heads some blank Comes.refl).before_end comes rfl
  have missing := @pieces_astray library bracket pieces opened [] (d :: behind) whole rest padded
    each (by rwa [List.length_nil, Nat.zero_add]) (Nat.zero_le _) inside
  rwa [List.nil_append] at missing

/-- Blanks between brackets make a term without elements. -/
theorem reads_gap {gap : Bytes} (blank : Blank gap) (apart : bracket = .list → gap ≠ []) :
    Reads library (bracket.opening :: (gap ++ [bracket.closing])) (bracket.term []) := by
  intro opened before d behind blankBefore delimiter
  have inside := @comes_closing library opened ⟨bracket, []⟩ gap (d :: behind) blank
  rw [List.append_assoc, List.cons_append, List.append_assoc, List.singleton_append]
  cases gap with
  | nil =>
      have tuple : bracket = .tuple := by
        cases bracket with
        | tuple => rfl
        | list => exact absurd rfl (apart rfl)
      subst tuple
      exact (comes_opening blankBefore (by decide) .tuple).trans inside
  | cons e gap =>
      have other : e ≠ rightBracket := by
        rintro rfl
        exact absurd (blank rightBracket List.mem_cons_self) (by decide)
      exact (comes_opening blankBefore other bracket).trans inside

theorem reads_emptyList :
    Reads library [leftBracket, rightBracket] (.simple .erlEmptyList) := by
  intro opened before d behind blank delimiter
  have starter : leftBracket ∉ delimiters := by decide
  have comes := comes_starts library opened (rightBracket :: d :: behind) blank starter
  rw [List.append_assoc]
  exact comes

theorem reads_letter (c : UInt8) :
    Reads library [dollar, c] (newLong (c.toBitVec.signExtend 64)) := by
  intro opened before d behind blank delimiter
  have starter : dollar ∉ delimiters := by decide
  have comes := comes_starts library opened (c :: d :: behind) blank starter
  rw [List.append_assoc]
  exact comes

end Pieces

section Spelled

variable {library : CLibrary} {limits : Limits} {core bytes : Bytes} {name : AtomText}
  {term : ErlTerm}

/-- The text of a token is split off by its reader. -/
def Tokened (kind : TokenKind) (core bytes : Bytes) : Prop :=
  ∃ c more, core = c :: more ∧ Splits kind c more bytes

theorem Tokened.reads {kind : TokenKind} (tokened : Tokened kind core bytes)
    (fits : bytes.length + 1 ≤ bufsiz) (made : kind.term library bytes = .returns term) :
    Reads library core term := by
  obtain ⟨c, more, rfl, splits⟩ := tokened
  exact splits.reads fits made

theorem Tokened.astray {kind : TokenKind} (tokened : Tokened kind core bytes)
    (long : ¬ bytes.length + 1 ≤ bufsiz) (term : ErlTerm) : Astray library core term := by
  obtain ⟨c, more, rfl, splits⟩ := tokened
  exact splits.astray long term

/-- A token in quotes with an escaped one is cut off there, and its term is another one. -/
theorem quoted_astray {kind : TokenKind} {closing : UInt8} (known : tokenKind closing = some kind)
    (token : ∀ rest, kind.token closing rest = Token.ofQuoted closing rest)
    (escaped : closing ∈ bytes)
    (differs : ∀ front read, front.length < bytes.length →
      kind.term library front = .returns read → read ≠ term) :
    Astray library (closing :: (bytes ++ [closing])) term := by
  intro opened before d behind whole rest blank delimiter comes holds
  obtain ⟨front, back, rfl, first⟩ := List.eq_append_cons_of_mem escaped
  have shorter : front.length < (front ++ closing :: back).length := by
    rw [List.length_append, List.length_cons]
    omega
  have starter : closing ∉ delimiters := by
    have kinds : (tokenKind closing).isSome = true := by rw [known, Option.isSome_some]
    exact @not_delimiter (fun c => (tokenKind c).isSome) (by decide) closing kinds
  have cut : kind.token closing
      (front ++ closing :: back ++ [closing] ++ d :: behind) =
        some ⟨front, back ++ [closing] ++ d :: behind⟩ := by
    rw [token, List.append_assoc, List.append_assoc, List.cons_append, ofQuoted_append first,
      List.append_assoc]
  have start := comes_starts library opened
    (front ++ closing :: back ++ [closing] ++ d :: behind) blank starter
  have reached : ∀ {after : Reading},
      StartStep library opened closing (front ++ closing :: back ++ [closing] ++ d :: behind)
        after → Comes (Reading.step library) after (.read whole rest) := by
    intro after started
    rw [started.starts_eq] at start
    rw [List.append_assoc, List.cons_append] at comes
    exact start.before_end comes rfl
  by_cases fits : front.length + 1 ≤ bufsiz
  · cases made : kind.term library front with
    | returns read =>
        have later := reached (.token known cut fits made)
        exact differs front read shorter made ((holds_of_comes (comes_pass later)).unique holds)
    | throws error => cases (reached (.refused known cut fits made)).end_unique Comes.refl rfl rfl
    | aborts => exact TokenKind.term_runs made
    | diverges => exact TokenKind.term_ends made
  · cases (reached (.long known cut (Nat.not_le.mp fits))).end_unique Comes.refl rfl rfl

theorem tokened_atom (first : ∃ c ∈ bytes.head?, islower c = true)
    (word : ∀ c ∈ bytes, isAtomByte c = true) : Tokened .atom bytes bytes := by
  obtain ⟨c, head, lower⟩ := first
  obtain ⟨more, rfl⟩ := List.head?_eq_some_iff.mp head
  exact ⟨c, more, rfl, splits_atom lower word⟩

theorem tokened_var (first : ∃ c ∈ bytes.head?, isupper c = true ∨ c = underscore)
    (word : ∀ c ∈ bytes, isWordByte c = true) : Tokened .var bytes bytes := by
  obtain ⟨c, head, upper⟩ := first
  obtain ⟨more, rfl⟩ := List.head?_eq_some_iff.mp head
  exact ⟨c, more, rfl, splits_var upper word⟩

theorem tokened_number (numeral : Numeral bytes) : Tokened .number bytes bytes := by
  obtain ⟨c, more, rfl, -⟩ := numeral.head
  exact ⟨c, more, rfl, splits_number numeral⟩

theorem tokened_string (inside : doubleQuote ∉ bytes) :
    Tokened .string (doubleQuote :: (bytes ++ [doubleQuote])) bytes :=
  ⟨_, _, rfl, splits_string inside⟩

theorem tokened_quotedAtom (inside : quote ∉ bytes) :
    Tokened .quotedAtom (quote :: (bytes ++ [quote])) bytes :=
  ⟨_, _, rfl, splits_quotedAtom inside⟩

theorem var_term (word : ∀ c ∈ bytes, isWordByte c = true) :
    TokenKind.term library .var bytes = .returns (.erlVariable bytes) := by
  rw [TokenKind.term, cString_eq_self (clean_of_accepts (by decide) word)]

theorem long_term (whole : dot ∉ bytes) :
    TokenKind.term library .number bytes =
      .returns (newLong ((atoi library bytes).signExtend 64)) := by
  rw [TokenKind.term, if_neg whole]

theorem double_term (dotted : dot ∈ bytes) :
    TokenKind.term library .number bytes = .returns (newDouble (library.atof bytes)) := by
  rw [TokenKind.term, if_pos dotted]

theorem string_term (clean : 0 ∉ bytes) :
    TokenKind.term library .string bytes = .returns (.simple (.erlString (some bytes))) := by
  rw [TokenKind.term, newString, cString_eq_self clean]

/-- A `char` below 128 is extended to its code. -/
theorem letter_value {c : UInt8} (low : c.toNat < 128) :
    c.toBitVec.signExtend 64 = .ofNat 64 c.toNat := by
  apply BitVec.eq_of_toInt_eq
  have small : c.toBitVec.toNat < 128 := low
  rw [BitVec.toInt_signExtend_of_le (by decide), BitVec.toInt_eq_toNat_of_lt (by omega),
    BitVec.toInt_eq_toNat_of_lt (by rw [BitVec.toNat_ofNat]; omega), BitVec.toNat_ofNat]
  show ((c.toNat : Nat) : Int) = _
  omega

theorem letter_low {c : UInt8}
    (same : c.toBitVec.signExtend 64 = .ofNat 64 c.toNat) : c.toNat < 128 := by
  have value := congrArg BitVec.toInt same
  have size : c.toNat < 2 ^ 8 := c.toNat_lt
  have high := BitVec.toInt_lt (x := c.toBitVec)
  rw [BitVec.toInt_signExtend_of_le (by decide),
    BitVec.toInt_eq_toNat_of_lt (x := BitVec.ofNat 64 c.toNat)
      (by rw [BitVec.toNat_ofNat]; omega), BitVec.toNat_ofNat] at value
  omega

/-- A string that is cut off is another one. -/
theorem newString_differs {front : Bytes} {read : ErlTerm} (shorter : front.length < bytes.length)
    (made : TokenKind.term library .string front = .returns read) :
    read ≠ .simple (.erlString (some bytes)) := by
  cases made
  intro same
  injection same with same
  injection same with same
  have cut : (cString front).length ≤ front.length := (List.takeWhile_sublist (· != 0)).length_le
  rw [Option.some.inj same] at cut
  omega

theorem newAtom_differs {front : Bytes} {read : ErlTerm}
    (shorter : front.length < name.text.length)
    (made : TokenKind.term library .quotedAtom front = .returns read) :
    read ≠ .simple (.erlAtom (some name)) := by
  obtain ⟨mAtom, checked, rfl⟩ := newAtom_returns made
  intro same
  injection same with same
  injection same with same
  have kept : mAtom.text = cString front := AtomText.text_of_init checked
  have cut : (cString front).length ≤ front.length := (List.takeWhile_sublist (· != 0)).length_le
  rw [← kept, Option.some.inj same] at cut
  omega

/-- A text within the limits is read as the term that it denotes. -/
theorem Spells.reads (spelled : Spells (.ofFormat library) core term) : Reads library core term := by
  induction spelled with
  | atom first word fits =>
      exact (tokened_atom first word).reads fits
        (newAtom_text (clean_of_accepts (by decide) word))
  | quotedAtom inside clean fits => exact (tokened_quotedAtom inside).reads fits (newAtom_text clean)
  | var first word fits => exact (tokened_var first word).reads fits (var_term word)
  | @long digits value numeral whole same fits range =>
      have kept : (atoi library digits).signExtend 64 = value := by
        apply BitVec.eq_of_toInt_eq
        rw [same] at range ⊢
        exact toInt_atoi range.1 range.2
      exact (tokened_number numeral).reads fits (by rw [long_term whole, kept])
  | double numeral dotted same fits =>
      exact same ▸ (tokened_number numeral).reads fits (double_term dotted)
  | string inside clean fits => exact (tokened_string inside).reads fits (string_term clean)
  | letter _ fits => exact letter_value fits ▸ reads_letter _
  | emptyTuple blank => exact @reads_gap library .tuple _ blank (fun same => by cases same)
  | emptyList _ fits =>
      cases fits
      exact reads_emptyList
  | elements some padded fits spelled ih =>
      exact reads_elements padded (fun piece member => (spelled piece member).head) ih some fits

/-- A text of the grammar is within what `format` shares with it, or it goes astray. -/
theorem Spells.shared_or_astray (rounds : library.RoundsNumerals)
    (spelled : Spells .unbounded core term) : Spells .shared core term ∨ Astray library core term := by
  have ofRead : ∀ {core : Bytes} {read term : ErlTerm}, Reads library core read →
      (read = term → Spells .shared core term) →
      Spells .shared core term ∨ Astray library core term := by
    intro core read term reads spells
    by_cases same : read = term
    · exact .inl (spells same)
    · exact .inr (reads.astray same)
  have ofToken : ∀ {kind : TokenKind} {core bytes : Bytes} {read term : ErlTerm},
      Tokened kind core bytes → kind.term library bytes = .returns read →
      (bytes.length + 1 ≤ bufsiz → read = term → Spells .shared core term) →
      Spells .shared core term ∨ Astray library core term := by
    intro kind core bytes read term tokened made spells
    by_cases fits : bytes.length + 1 ≤ bufsiz
    · exact ofRead (tokened.reads fits made) (spells fits)
    · exact .inr (tokened.astray fits term)
  induction spelled with
  | atom first word =>
      exact ofToken (tokened_atom first word) (newAtom_text (clean_of_accepts (by decide) word))
        fun fits _ => .atom first word fits
  | @quotedAtom name inside clean =>
      by_cases escaped : quote ∈ name.text
      · exact .inr (quoted_astray rfl (fun _ => rfl) escaped fun _ _ => newAtom_differs)
      · exact ofToken (tokened_quotedAtom escaped) (newAtom_text clean)
          fun fits _ => .quotedAtom ⟨escaped, inside.2⟩ clean fits
  | var first word =>
      exact ofToken (tokened_var first word) (var_term word) fun fits _ => .var first word fits
  | @long digits value numeral whole same =>
      refine ofToken (tokened_number numeral) (long_term whole) fun fits kept => ?_
      have value' : (atoi library digits).signExtend 64 = value := by
        injection kept with kept
        injection kept with kept
        exact Option.some.inj kept
      exact .long numeral whole same fits (value' ▸ toInt_signExtend_range _)
  | double numeral dotted same =>
      exact ofToken (tokened_number numeral) (double_term dotted)
        fun fits _ => .double numeral dotted same fits
  | @string bytes inside clean =>
      by_cases escaped : doubleQuote ∈ bytes
      · exact .inr (quoted_astray rfl (fun _ => rfl) escaped fun _ _ => newString_differs)
      · exact ofToken (tokened_string escaped) (string_term clean)
          fun fits _ => .string ⟨escaped, inside.2⟩ clean fits
  | letter clean =>
      refine ofRead (reads_letter _) fun kept => .letter clean (letter_low ?_)
      injection kept with kept
      injection kept with kept
      exact Option.some.inj kept
  | emptyTuple blank => exact .inl (.emptyTuple blank)
  | @emptyList gap blank =>
      by_cases none : gap = []
      · exact .inl (.emptyList blank none)
      · exact ofRead (@reads_gap library .list _ blank (fun _ => none)) fun same => by cases same
  | @elements bracket pieces some padded fits spelled ih =>
      have heads := fun piece member => (spelled piece member).head
      by_cases bad : (∃ piece ∈ pieces, Astray library piece.core piece.term) ∨
          maxEntries < pieces.length
      · refine .inr (elements_astray padded heads (fun piece member => ?_) some bad)
        exact (ih piece member).imp_left fun shared =>
          (shared.widen (Limits.shared_within_ofFormat rounds)).reads
      · obtain ⟨none, room⟩ := not_or.mp bad
        have each : ∀ piece ∈ pieces, Spells .shared piece.core piece.term :=
          fun piece member => (ih piece member).resolve_right fun astray =>
            none ⟨piece, member, astray⟩
        exact .inl (.elements some padded (Nat.not_lt.mp room) each)

theorem terminated_clean {core : Bytes} (clean : 0 ∉ core) : terminated core = core ++ [0] := by
  rw [terminated, cString_eq_self clean]

/-- The reading of a text within the limits stops before the byte that ends the text. -/
theorem Spells.comes (spelled : Spells (.ofFormat library) core term) :
    Comes (Reading.step library) (.reads [] (terminated core)) (.read term [0]) := by
  rw [terminated_clean spelled.clean]
  exact spelled.reads [] [] 0 [] (List.forall_mem_nil _) (by decide)

end Spelled

end Epi.Parse
