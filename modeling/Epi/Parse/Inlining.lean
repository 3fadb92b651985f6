import Epi.Parse.Filling

namespace Epi.Parse

open Verification Epi.Type

mutual

/-- The text with texts in the places of the directives, and the texts that are left. -/
def Template.textWith : Template → List Bytes → Bytes × List Bytes
  | .directive _ _, inner :: rest => (inner, rest)
  | .elements bracket slots, inners =>
      let (text, rest) := slots.textWith inners
      (bracket.opening :: (text ++ [bracket.closing]), rest)
  | .directive gap letter, [] => ((Template.directive gap letter).text, [])
  | .lexeme lexeme, inners => ((Template.lexeme lexeme).text, inners)
  | .letter c clean, inners => ((Template.letter c clean).text, inners)
  | .hollow bracket gap, inners => ((Template.hollow bracket gap).text, inners)

def Slots.textWith : Slots → List Bytes → Bytes × List Bytes
  | .last before element after, inners =>
      let (text, rest) := element.textWith inners
      (before.bytes ++ text ++ after.bytes, rest)
  | .cons before element after slots, inners =>
      let (text, middle) := element.textWith inners
      let (others, rest) := slots.textWith middle
      (before.bytes ++ text ++ after.bytes ++ comma :: others, rest)

end

mutual

/-- The template with templates in the places of its directives, and the templates that are left. -/
def Template.inline : Template → List Template → Template × List Template
  | .directive _ _, inner :: rest => (inner, rest)
  | .elements bracket slots, inners =>
      let (slots, rest) := slots.inline inners
      (.elements bracket slots, rest)
  | .directive gap letter, [] => (.directive gap letter, [])
  | .lexeme lexeme, inners => (.lexeme lexeme, inners)
  | .letter c clean, inners => (.letter c clean, inners)
  | .hollow bracket gap, inners => (.hollow bracket gap, inners)

def Slots.inline : Slots → List Template → Slots × List Template
  | .last before element after, inners =>
      let (element, rest) := element.inline inners
      (.last before element after, rest)
  | .cons before element after slots, inners =>
      let (element, middle) := element.inline inners
      let (slots, rest) := slots.inline middle
      (.cons before element after slots, rest)

end

mutual

theorem textWith_inline : ∀ (template : Template) (inners : List Template),
    template.textWith (inners.map Template.text) =
      ((template.inline inners).1.text, (template.inline inners).2.map Template.text)
  | .lexeme lexeme, inners => by rw [Template.textWith, Template.inline]
  | .letter c clean, inners => by rw [Template.textWith, Template.inline]
  | .hollow bracket gap, inners => by rw [Template.textWith, Template.inline]
  | .directive gap letter, [] => rfl
  | .directive gap letter, inner :: rest => rfl
  | .elements bracket slots, inners => by
      rw [Template.textWith, Template.inline, slots_textWith_inline slots inners]
      simp only [Template.text]

theorem slots_textWith_inline : ∀ (slots : Slots) (inners : List Template),
    slots.textWith (inners.map Template.text) =
      ((slots.inline inners).1.text, (slots.inline inners).2.map Template.text)
  | .last before element after, inners => by
      rw [Slots.textWith, Slots.inline, textWith_inline element inners]
      simp only [Slots.text]
  | .cons before element after slots, inners => by
      rw [Slots.textWith, Slots.inline, textWith_inline element inners]
      simp only [Slots.text, slots_textWith_inline slots]

end

/-- A template without directives, which makes a valid term. -/
def Denoted (library : CLibrary) (template : Template) (term : ErlTerm) : Prop :=
  term.isValid = true ∧ ∀ arguments, template.fill library arguments =
    (.returns (some term), arguments)

section Spelled

variable {library : CLibrary} {core bytes : Bytes} {term : ErlTerm} {bracket : Bracket}

/-- A token that fits into its buffer is a template of its term. -/
theorem denoted_tokened {kind : TokenKind} (tokened : Tokened kind core bytes)
    (clean : 0 ∉ core) (fits : bytes.length + 1 ≤ bufsiz)
    (made : kind.term library bytes = .returns term) :
    ∃ template : Template, template.text = core ∧ Denoted library template term := by
  obtain ⟨c, more, rfl, splits⟩ := tokened
  refine ⟨.lexeme ⟨kind, c, more, bytes, splits, clean⟩, by rw [Template.text],
    TokenKind.term_valid made, fun arguments => ?_⟩
  rw [Template.fill, Lexeme.term, if_pos fits, made]
  rfl

/-- The pieces of a bracket are slots. -/
theorem denoted_pieces {pieces : List Piece} (some : pieces ≠ [])
    (padded : ∀ piece ∈ pieces, piece.Padded)
    (denoted : ∀ piece ∈ pieces, ∃ template : Template, template.text = piece.core ∧
      Denoted library template piece.term) :
    ∃ slots : Slots, slots.text = Piece.joined pieces ∧
      ∀ v, v.length + pieces.length ≤ maxEntries → ∀ arguments,
        slots.fill library v arguments =
          (.returns (.some (v ++ pieces.map Piece.term)), arguments) := by
  induction pieces with
  | nil => exact absurd rfl some
  | cons piece pieces ih =>
      rw [List.forall_mem_cons] at padded denoted
      obtain ⟨element, same, -, filled⟩ := denoted.1
      have entry : ∀ v next arguments, v.length + (piece :: pieces).length ≤ maxEntries →
          (element.fill library >>= stored v next) arguments = next (v ++ [piece.term]) arguments := by
        intro v next arguments room
        rw [List.length_cons] at room
        rw [Effect.bind_of_returns (filled arguments), stored, if_neg (by omega)]
      cases pieces with
      | nil =>
          refine ⟨.last ⟨piece.before, padded.1.1⟩ element ⟨piece.after, padded.1.2⟩, ?_, ?_⟩
          · rw [Slots.text, same]
            rfl
          · intro v room arguments
            rw [Slots.fill, entry v _ arguments room]
            rfl
      | cons next pieces =>
          obtain ⟨slots, text, later⟩ := ih (List.cons_ne_nil next pieces) padded.2 denoted.2
          refine ⟨.cons ⟨piece.before, padded.1.1⟩ element ⟨piece.after, padded.1.2⟩ slots, ?_, ?_⟩
          · rw [Slots.text, same, text, Piece.joined]
            rfl
          · intro v room arguments
            rw [Slots.fill, entry v _ arguments room, later _ (by
              rw [List.length_append, List.length_singleton]
              rw [List.length_cons] at room
              omega), List.append_assoc]
            rfl

theorem construct_valid {elems : List ErlTerm} (valid : ∀ elem ∈ elems, elem.isValid = true) :
    bracket.construct elems = .returns (bracket.term elems) := by
  cases bracket with
  | tuple => exact newTuple_valid valid
  | list => exact newConsList_valid valid

/-- A text within the limits is the text of a template without directives. -/
theorem Spells.denoted (spelled : Spells (.ofFormat library) core term) :
    ∃ template : Template, template.text = core ∧ Denoted library template term := by
  induction spelled with
  | atom first word fits =>
      have clean := clean_of_accepts (by decide) word
      exact denoted_tokened (tokened_atom first word) clean fits (newAtom_text clean)
  | quotedAtom inside clean fits =>
      exact denoted_tokened (tokened_quotedAtom inside) (clean_quoted (by decide) clean) fits
        (newAtom_text clean)
  | var first word fits =>
      exact denoted_tokened (tokened_var first word) (clean_of_accepts (by decide) word) fits
        (var_term word)
  | @long digits value numeral whole same fits range =>
      have kept : (atoi library digits).signExtend 64 = value := by
        apply BitVec.eq_of_toInt_eq
        rw [same] at range ⊢
        exact toInt_atoi range.1 range.2
      exact denoted_tokened (tokened_number numeral) numeral.clean fits
        (by rw [long_term whole, kept])
  | double numeral dotted same fits =>
      exact same ▸ denoted_tokened (tokened_number numeral) numeral.clean fits (double_term dotted)
  | string inside clean fits =>
      exact denoted_tokened (tokened_string inside) (clean_quoted (by decide) clean) fits
        (string_term clean)
  | @letter c clean fits =>
      refine ⟨.letter c clean, by rw [Template.text], rfl, fun arguments => ?_⟩
      rw [Template.fill, letter_value fits]
      rfl
  | @emptyTuple gap blank =>
      exact ⟨.hollow .tuple ⟨gap, blank⟩, by rw [Template.text]; rfl, rfl, fun _ => rfl⟩
  | @emptyList gap blank fits =>
      cases fits
      exact ⟨.hollow .list ⟨[], blank⟩, by rw [Template.text]; rfl, rfl, fun _ => rfl⟩
  | @elements bracket pieces nonempty padded fits spelled ih =>
      obtain ⟨slots, text, filled⟩ := denoted_pieces nonempty padded ih
      have room : ([] : List ErlTerm).length + pieces.length ≤ maxEntries := by
        rw [List.length_nil, Nat.zero_add]
        exact fits
      have valid : ∀ elem ∈ pieces.map Piece.term, elem.isValid = true := by
        refine List.forall_mem_map.mpr fun piece member => ?_
        obtain ⟨template, -, valid, -⟩ := ih piece member
        exact valid
      refine ⟨.elements bracket slots, by rw [Template.text, text], bracket.term_valid,
        fun arguments => ?_⟩
      rw [Template.fill, Effect.bind_of_returns (filled [] room arguments), List.nil_append]
      show (bracket.construct _ >>= fun term => pure (some term), arguments) = _
      rw [construct_valid valid]
      rfl

end Spelled

/-- The terms as arguments of directives. -/
def termArguments (terms : List ErlTerm) : List FormatArgument :=
  terms.map fun term => .term (some term)

/-- A filler with terms as arguments agrees with one that has templates of the terms in it. -/
structure Agrees {Value : Type} (library : CLibrary) (inners : List Template)
    (filled inlined : Outcome EpiException (Option Value) × List FormatArgument) : Prop where
  outcome : filled.1 = inlined.1
  found : ∀ value, inlined.1 = .returns (some value) → inlined.2 = [] ∧ ∃ terms,
    filled.2 = termArguments terms ∧ List.Forall₂ (Denoted library) inners terms

section Inlined

variable {library : CLibrary} {Value Next : Type} {middle inners : List Template}
  {terms : List ErlTerm} {arguments others : List FormatArgument}

theorem agrees_same (outcome : Outcome EpiException (Option Value))
    (denoted : List.Forall₂ (Denoted library) inners terms) :
    Agrees library inners (outcome, termArguments terms) (outcome, []) :=
  ⟨rfl, fun _ _ => ⟨rfl, terms, rfl, denoted⟩⟩

theorem Agrees.bind {filler inlined : Filler (Option Value)}
    {next nextInlined : Option Value → Filler (Option Next)}
    (agrees : Agrees library middle (filler arguments) (inlined others))
    (lost : ∀ rest rest', Agrees library inners (next none rest) (nextInlined none rest'))
    (later : ∀ value terms, List.Forall₂ (Denoted library) middle terms →
      Agrees library inners (next (some value) (termArguments terms))
        (nextInlined (some value) [])) :
    Agrees library inners ((filler >>= next) arguments) ((inlined >>= nextInlined) others) := by
  obtain ⟨same, found⟩ := agrees
  rw [Effect.bind_run, Effect.bind_run]
  rcases ran : filler arguments with ⟨outcome, rest⟩
  rcases filled : inlined others with ⟨other, last⟩
  rw [ran, filled] at same found
  obtain rfl : outcome = other := same
  cases outcome with
  | returns value =>
      cases value with
      | none => exact lost rest last
      | some value =>
          obtain ⟨rfl, terms, rfl, denoted⟩ := found value rfl
          exact later value terms denoted
  | _ => exact ⟨rfl, fun _ same => by cases same⟩

theorem agrees_stored {next nextInlined : List ErlTerm → Filler (Option (List ErlTerm))}
    (v : List ErlTerm) (later : ∀ elems terms, List.Forall₂ (Denoted library) middle terms →
      Agrees library inners (next elems (termArguments terms)) (nextInlined elems []))
    {filler inlined : Filler (Option ErlTerm)}
    (agrees : Agrees library middle (filler arguments) (inlined others)) :
    Agrees library inners ((filler >>= stored v next) arguments)
      ((inlined >>= stored v nextInlined) others) := by
  refine agrees.bind (fun rest rest' => ?_) fun term terms denoted => ?_
  · unfold stored
    split <;> exact ⟨rfl, fun _ same => by cases same⟩
  · unfold stored
    split
    · exact ⟨rfl, fun _ same => by cases same⟩
    · exact later (v ++ [term]) terms denoted

end Inlined

mutual

/-- A template with terms in the places of its directives makes what the directives make of the
terms. -/
theorem agrees_template (library : CLibrary) : ∀ (template : Template) {inners : List Template}
    {terms : List ErlTerm}, (∀ letter ∈ template.letters, letter = ascii 'w') →
    List.Forall₂ (Denoted library) inners terms →
      Agrees library (template.inline inners).2 (template.fill library (termArguments terms))
        ((template.inline inners).1.fill library [])
  | .lexeme lexeme, inners, terms, _, denoted => agrees_same _ denoted
  | .letter c clean, inners, terms, _, denoted => agrees_same _ denoted
  | .hollow bracket gap, inners, terms, _, denoted => agrees_same _ denoted
  | .directive gap letter, [], [], only, denoted => by
      have known : letter.byte = ascii 'w' := only _ (by rw [Template.letters]; simp)
      have missing : (Template.directive gap letter).fill library [] = (.aborts, []) := by
        rw [Template.fill, known]
        rfl
      show Agrees library [] ((Template.directive gap letter).fill library [])
        ((Template.directive gap letter).fill library [])
      rw [missing]
      exact agrees_same .aborts denoted
  | .directive gap letter, inner :: inners, term :: terms, only, denoted => by
      obtain ⟨here, later⟩ := List.forall₂_cons.mp denoted
      have known : letter.byte = ascii 'w' := only _ (by rw [Template.letters]; simp)
      have taken : (Template.directive gap letter).fill library (termArguments (term :: terms)) =
          (.returns (some term), termArguments terms) := by
        rw [Template.fill, known]
        rfl
      rw [Template.inline, taken, here.2 []]
      exact agrees_same _ later
  | .elements bracket slots, inners, terms, only, denoted => by
      rw [Template.letters] at only
      rw [Template.inline, Template.fill, Template.fill]
      refine (agrees_slots library slots [] only denoted).bind (fun rest rest' => ?_)
        fun elems terms later => agrees_same _ later
      exact ⟨rfl, fun _ same => by cases same⟩

theorem agrees_slots (library : CLibrary) : ∀ (slots : Slots) {inners : List Template}
    {terms : List ErlTerm} (v : List ErlTerm), (∀ letter ∈ slots.letters, letter = ascii 'w') →
    List.Forall₂ (Denoted library) inners terms →
      Agrees library (slots.inline inners).2 (slots.fill library v (termArguments terms))
        ((slots.inline inners).1.fill library v [])
  | .last before element after, inners, terms, v, only, denoted => by
      rw [Slots.letters] at only
      rw [Slots.inline, Slots.fill, Slots.fill]
      exact agrees_stored v (fun elems terms later => agrees_same _ later)
        (agrees_template library element only denoted)
  | .cons before element after slots, inners, terms, v, only, denoted => by
      rw [Slots.letters, List.forall_mem_append] at only
      rw [Slots.inline, Slots.fill, Slots.fill]
      exact agrees_stored v
        (fun elems terms later => agrees_slots library slots elems only.2 later)
        (agrees_template library element only.1 denoted)

end

/-- The terms of a template may as well stand in its text. With the printed texts in the places of
the directives for terms, a format string makes the same as with the terms behind it. -/
theorem format_inline (library : CLibrary) (stream : Ostream) (template : Template)
    (before after : Gap) (terms : List ErlTerm) (plain : ∀ term ∈ terms, PlainSyntax term)
    (only : ∀ letter ∈ template.letters, letter = ascii 'w') {fuel other : Nat}
    (enough : (template.padded before after).length + 1 < fuel)
    (enoughOther : (before.bytes ++
      (template.textWith (terms.map fun term => term.toString stream none)).1 ++
        after.bytes).length + 1 < other) :
    format library other (before.bytes ++
        (template.textWith (terms.map fun term => term.toString stream none)).1 ++ after.bytes) [] =
      format library fuel (template.padded before after) (termArguments terms) := by
  have each : ∀ term ∈ terms, ∃ inner : Template, inner.text = term.toString stream none ∧
      Denoted library inner term := fun term member => (plain term member).spells.denoted
  obtain ⟨inners, texts, denoted⟩ : ∃ inners : List Template,
      (terms.map fun term => term.toString stream none) = inners.map Template.text ∧
        List.Forall₂ (Denoted library) inners terms := by
    clear enough enoughOther plain
    induction terms with
    | nil => exact ⟨[], rfl, .nil⟩
    | cons term terms ih =>
        rw [List.forall_mem_cons] at each
        obtain ⟨inner, same, here⟩ := each.1
        obtain ⟨inners, texts, denoted⟩ := ih each.2
        exact ⟨inner :: inners, by rw [List.map_cons, List.map_cons, same, texts], .cons here denoted⟩
  have inlined := textWith_inline template inners
  rw [texts, inlined] at enoughOther ⊢
  have agrees := agrees_template library template only denoted
  have made := format_padded library (template.inline inners).1 before after [] enoughOther
  rw [Template.padded] at made
  rw [made, format_padded library template before after _ enough, Template.make, Template.make,
    agrees.outcome]

/-- `{~w, [~w]}`. -/
def wordsTemplate : Template :=
  let word : Template := .directive .nothing .forTerm
  .elements .tuple (.cons .nothing word .nothing
    (.last .oneSpace (.elements .list (.last .nothing word .nothing)) .nothing))

theorem format_inline_words :
    format wholeNumbers 60 (Gap.nothing.bytes ++ (wordsTemplate.textWith
        ([plainTerm, newLong 7].map fun term => term.toString (fun _ => []) none)).1 ++
          Gap.nothing.bytes) [] =
      format wholeNumbers 20 (wordsTemplate.padded .nothing .nothing)
        (termArguments [plainTerm, newLong 7]) :=
  format_inline wholeNumbers (fun _ => []) wordsTemplate .nothing .nothing [plainTerm, newLong 7]
    (by decide) (by decide +kernel) (by decide) (by decide +kernel)

end Epi.Parse
