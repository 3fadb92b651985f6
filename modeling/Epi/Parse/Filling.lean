import Epi.Parse.Template

namespace Epi.Parse

open Verification Epi.Type

section Directives

variable {Value : Type} {behind : Bytes} {arguments : List FormatArgument}

theorem lift_bind_pure {State Result : Type} (call : Call Value) (make : Value → Result) :
    (Effect.lift (call >>= fun value => pure (make value)) : Method State Result) =
      (Effect.lift call >>= fun value => pure (make value)) := by
  funext state
  cases call <;> rfl

/-- An argument is taken and converted on both sides. -/
theorem fills_vaArg {directive : Directive} (read : FormatArgument → Option Value)
    (make : Value → Call (Option ErlTerm))
    (converts : ∀ argument, directive.convert argument =
      match read argument with
      | some value => make value
      | none => .aborts) :
    Fills behind ((vaArg read >>= fun value => Effect.lift (make value)) ⟨behind, arguments⟩)
      ((Effect.item >>= fun argument => Effect.lift (directive.convert argument)) arguments) := by
  cases arguments with
  | nil => exact fills_aborts _ _
  | cons argument rest =>
      have taken : (Effect.item >>= fun argument => Effect.lift (directive.convert argument) :
          Filler (Option ErlTerm)) (argument :: rest) = (directive.convert argument, rest) := rfl
      rw [taken, converts argument, Effect.bind_run]
      cases found : read argument with
      | none =>
          simp only [vaArg, found]
          exact fills_aborts _ _
      | some value =>
          simp only [vaArg, found]
          exact fills_here _ _

/-- `pformat` knows the letters of the directives. -/
theorem fills_pformat (gap : Gap) (letter : DirectiveLetter) (arguments : List FormatArgument)
    (behind : Bytes) :
    Fills behind (pformat ⟨gap.bytes ++ letter.byte :: behind, arguments⟩)
      (fillDirective letter.byte arguments) := by
  have found : (gap.bytes ++ letter.byte :: behind).dropWhile isNullChar =
      letter.byte :: behind := dropWhile_blank gap.blank letter.solid
  have read : next ⟨letter.byte :: behind, arguments⟩ =
      (.returns letter.byte, ⟨behind, arguments⟩) := rfl
  rw [pformat, Effect.bind_of_returns (@skipNullChars_run ⟨_, arguments⟩ _ _ found),
    Effect.bind_of_returns read, fillDirective, Directive.ofLetter]
  by_cases term : letter.byte = ascii 'w'
  · rw [if_pos term, if_pos term]
    have same : vaArg FormatArgument.asTerm =
        (vaArg FormatArgument.asTerm >>= fun value => Effect.lift (.returns value)) := by
      funext state
      rw [Effect.bind_run]
      rcases vaArg FormatArgument.asTerm state with ⟨value | error | - | -, after⟩ <;> rfl
    rw [same]
    exact fills_vaArg FormatArgument.asTerm .returns fun argument => by cases argument <;> rfl
  rw [if_neg term, if_neg term]
  by_cases atom : letter.byte = ascii 'a'
  · rw [if_pos atom, if_pos atom]
    simp only [← lift_bind_pure]
    exact fills_vaArg FormatArgument.asString
      (fun string => newAtom string >>= fun atom => pure (some atom))
      fun argument => by cases argument <;> rfl
  rw [if_neg atom, if_neg atom]
  by_cases string : letter.byte = ascii 's'
  · rw [if_pos string, if_pos string]
    exact fills_vaArg FormatArgument.asString (fun string => .returns (some (newString string)))
      fun argument => by cases argument <;> rfl
  rw [if_neg string, if_neg string]
  by_cases int : letter.byte = ascii 'i'
  · rw [if_pos int, if_pos int]
    exact fills_vaArg FormatArgument.asInt
      (fun value => .returns (some (newLong (value.signExtend 64))))
      fun argument => by cases argument <;> rfl
  rw [if_neg int, if_neg int]
  by_cases double : letter.byte = ascii 'f'
  · rw [if_pos double, if_pos double]
    exact fills_vaArg FormatArgument.asDouble (fun value => .returns (some (newDouble value)))
      fun argument => by cases argument <;> rfl
  rw [if_neg double, if_neg double]
  exact fills_lost _ _

end Directives

section Elements

variable {library : CLibrary} {fuel : Nat} {bracket : Bracket} {v : List ErlTerm}
  {arguments : List FormatArgument} {d : UInt8} {before behind rest : Bytes}

theorem fills_lexeme (lexeme : Lexeme) (arguments : List FormatArgument) (delimiter : d ∈ delimiters)
    (behind : Bytes) :
    Fills (d :: behind)
      (pscalar library lexeme.first ⟨lexeme.first :: lexeme.more ++ d :: behind, arguments⟩)
      ((Template.lexeme lexeme).fill library arguments) := by
  obtain ⟨reader, ran, same⟩ := pscalar_run library arguments (lexeme.more ++ d :: behind)
    (not_delimiter_solid lexeme.splits.starter) lexeme.splits.1
  rw [same, Template.fill, Lexeme.term, List.cons_append, Effect.bind_run, ran,
    lexeme.splits.2 d behind delimiter, tokenResult]
  by_cases fits : lexeme.bytes.length + 1 ≤ bufsiz
  · simp only [if_pos fits]
    rw [← lift_bind_pure]
    exact fills_here _ _
  · simp only [if_neg fits]
    exact fills_aborts _ _

/-- A bracket that is closed behind blanks holds no elements. -/
theorem pelements_gap {eformat : Formatter (Option ErlTerm)} {rounds : Nat} (bracket : Bracket)
    (gap : Gap) (arguments : List FormatArgument) (rest : Bytes) :
    pelements eformat bracket.closing (rounds + 1) v
        ⟨gap.bytes ++ bracket.closing :: rest, arguments⟩ =
      (.returns (some v), ⟨rest, arguments⟩) := by
  have solid : isNullChar bracket.closing = false := by cases bracket <;> rfl
  rw [@pelements_run _ _ _ _ ⟨_, arguments⟩ _ _ (dropWhile_blank gap.blank solid), if_pos rfl]

theorem pelements_comma {eformat : Formatter (Option ErlTerm)} {rounds : Nat} (bracket : Bracket)
    (gap : Gap) (arguments : List FormatArgument) (rest : Bytes) :
    pelements eformat bracket.closing (rounds + 1) v ⟨gap.bytes ++ comma :: rest, arguments⟩ =
      pelements eformat bracket.closing rounds v ⟨rest, arguments⟩ := by
  have solid : isNullChar comma = false := rfl
  have other : comma ≠ bracket.closing := by cases bracket <;> decide
  rw [@pelements_run _ _ _ _ ⟨_, arguments⟩ _ _ (dropWhile_blank gap.blank solid), if_neg other,
    if_pos rfl]

/-- A round that reads an element and stores it. -/
theorem fills_round {element : Template} {eformat : Formatter (Option ErlTerm)} {rounds : Nat}
    {nextFiller : List ErlTerm → Filler (Option (List ErlTerm))} (before : Gap)
    (fills : Fills rest (eformat ⟨element.text ++ rest, arguments⟩)
      (element.fill library arguments))
    (later : ∀ elems remaining, Fills behind
      (pelements eformat bracket.closing rounds elems ⟨rest, remaining⟩)
      (nextFiller elems remaining)) :
    Fills behind
      (pelements eformat bracket.closing (rounds + 1) v
        ⟨before.bytes ++ element.text ++ rest, arguments⟩)
      ((element.fill library >>= stored v nextFiller) arguments) := by
  obtain ⟨c, more, same, starter⟩ := element.head
  have found : (before.bytes ++ element.text ++ rest).dropWhile isNullChar = c :: (more ++ rest) := by
    rw [same, List.append_assoc, List.cons_append]
    exact dropWhile_blank before.blank (not_delimiter_solid starter)
  have apart : c ≠ bracket.closing := by
    rintro rfl
    exact starter (by cases bracket <;> decide)
  have solid : c ≠ comma := by
    rintro rfl
    exact starter (by decide)
  rw [same, List.cons_append] at fills
  rw [@pelements_run _ _ _ _ ⟨_, arguments⟩ _ _ found, if_neg apart, if_neg solid]
  refine fills.bind (fun after remaining => ?_) fun term remaining => ?_
  · unfold stored
    split
    · exact fills_aborts _ _
    · exact fills_lost _ _
  · unfold stored
    split
    · exact fills_aborts _ _
    · exact later (v ++ [term]) remaining

/-- The elements that were read are made into a term. -/
theorem fills_construct {slots : Slots} {call : Formatter (Option (List ErlTerm))}
    {state : FormatState} (bracket : Bracket)
    (fills : Fills behind (call state) (slots.fill library [] arguments)) :
    Fills behind ((call >>= made bracket.construct) state)
      ((Template.elements bracket slots).fill library arguments) := by
  rw [Template.fill]
  refine fills.bind (fun after remaining => fills_lost _ _) fun elems remaining => ?_
  show Fills behind
    ((Effect.lift (bracket.construct elems) >>= fun term => pure (some term)) ⟨behind, remaining⟩)
    (bracket.construct elems >>= fun term => pure (some term), remaining)
  rw [← lift_bind_pure]
  exact fills_here _ _

/-- What `eformat` does at a byte that opens a bracket with elements. -/
theorem eformatNext_opening {eformat : Formatter (Option ErlTerm)} {first : UInt8}
    (bracket : Bracket) (blank : Blank before) (other : first ≠ rightBracket) :
    eformatNext library eformat fuel
        ⟨before ++ bracket.opening :: first :: rest, arguments⟩ =
      (pelements eformat bracket.closing fuel [] >>= made bracket.construct)
        ⟨first :: rest, arguments⟩ := by
  have starter : isNullChar bracket.opening = false := by cases bracket <;> rfl
  have found := @dropWhile_blank bracket.opening before (first :: rest) blank starter
  have read : peek ⟨first :: rest, arguments⟩ = (.returns first, ⟨first :: rest, arguments⟩) := rfl
  rw [@eformatNext_run _ _ _ ⟨_, arguments⟩ _ _ found]
  cases bracket with
  | tuple => rfl
  | list =>
      have apart : Bracket.list.opening ≠ leftBrace := by decide
      have opens : Bracket.list.opening = leftBracket := rfl
      rw [if_neg apart, if_pos opens, bracketed, Effect.bind_of_returns read, if_neg other]
      rfl

/-- What `eformat` does at a bracket without elements. -/
theorem eformatNext_hollow {eformat : Formatter (Option ErlTerm)} (bracket : Bracket) (gap : Gap)
    (blank : Blank before) :
    eformatNext library eformat (fuel + 1)
        ⟨before ++ bracket.opening :: (gap.bytes ++ [bracket.closing]) ++ rest, arguments⟩ =
      (.returns (some (bracket.hollow gap)), ⟨rest, arguments⟩) := by
  have closed := @pelements_gap [] eformat fuel bracket gap arguments rest
  have none : bracket.construct [] = .returns (bracket.term []) := by
    cases bracket with
    | tuple => exact newTuple_valid (List.forall_mem_nil _)
    | list => exact newConsList_valid (List.forall_mem_nil _)
  have elements : (pelements eformat bracket.closing (fuel + 1) [] >>= made bracket.construct)
      ⟨gap.bytes ++ bracket.closing :: rest, arguments⟩ =
        (.returns (some (bracket.term [])), ⟨rest, arguments⟩) := by
    rw [Effect.bind_of_returns closed, made, none]
    rfl
  rw [List.append_assoc, List.cons_append, List.append_assoc, List.singleton_append]
  obtain ⟨bytes, blanks⟩ := gap
  cases bytes with
  | nil =>
      cases bracket with
      | tuple =>
          rw [List.nil_append] at elements ⊢
          rw [eformatNext_opening .tuple blank (by decide), elements]
          rfl
      | list =>
          have found := @dropWhile_blank leftBracket before (rightBracket :: rest) blank rfl
          exact @eformatNext_run _ _ _ ⟨_, arguments⟩ _ _ found
  | cons e bytes =>
      have other : e ≠ rightBracket := by
        rintro rfl
        exact absurd (blanks rightBracket List.mem_cons_self) (by decide)
      have opened := @eformatNext_opening library (fuel + 1) arguments before
        (bytes ++ bracket.closing :: rest) eformat e bracket blank other
      rw [List.cons_append] at elements ⊢
      rw [opened, elements]
      cases bracket <;> rfl

end Elements

mutual

/-- Behind blanks and before a delimiter, `eformat` reads a template as its filler says. -/
theorem fills_template (library : CLibrary) : ∀ (template : Template) {fuel : Nat} {before : Bytes}
    {d : UInt8} (behind : Bytes) (arguments : List FormatArgument), Blank before →
    d ∈ delimiters → (before ++ template.text ++ d :: behind).length < fuel →
      Fills (d :: behind)
        (eformat library fuel ⟨before ++ template.text ++ d :: behind, arguments⟩)
        (template.fill library arguments)
  | _, 0, _, _, _, _, _, _, enough => absurd enough (Nat.not_lt_zero _)
  | .lexeme lexeme, fuel + 1, before, d, behind, arguments, blank, delimiter, _ => by
      have starter := lexeme.splits.starter
      have special : ∀ e, tokenKind e = none → lexeme.first ≠ e := by
        rintro e unknown rfl
        rw [lexeme.splits.1] at unknown
        cases unknown
      have found := @dropWhile_blank lexeme.first before (lexeme.more ++ d :: behind) blank
        (not_delimiter_solid starter)
      rw [Template.text, List.append_assoc, List.cons_append, eformat,
        @eformatNext_run _ _ _ ⟨_, arguments⟩ _ _ found, if_neg (special leftBrace rfl),
        if_neg (special leftBracket rfl), if_neg (special dollar rfl),
        if_neg (special tilde rfl)]
      exact fills_lexeme lexeme arguments delimiter behind
  | .letter c clean, fuel + 1, before, d, behind, arguments, blank, _, _ => by
      have found := @dropWhile_blank dollar before (c :: d :: behind) blank rfl
      rw [Template.text, List.append_assoc, eformat]
      show Fills _ (eformatNext library _ fuel ⟨before ++ dollar :: c :: d :: behind, arguments⟩) _
      rw [@eformatNext_run _ _ _ ⟨_, arguments⟩ _ _ found]
      exact fills_here _ _
  | .directive gap letter, fuel + 1, before, d, behind, arguments, blank, _, _ => by
      have found := @dropWhile_blank tilde before (gap.bytes ++ letter.byte :: d :: behind) blank rfl
      rw [Template.text, List.append_assoc, List.cons_append, List.append_assoc,
        List.singleton_append, eformat, @eformatNext_run _ _ _ ⟨_, arguments⟩ _ _ found]
      exact fills_pformat gap letter arguments (d :: behind)
  | .hollow bracket gap, 1, before, d, behind, arguments, _, _, enough => by
      rw [List.length_append, List.length_cons] at enough
      omega
  | .hollow bracket gap, fuel + 2, before, d, behind, arguments, blank, _, _ => by
      rw [Template.text, eformat, eformatNext_hollow bracket gap blank]
      exact fills_here _ _
  | .elements bracket slots, fuel + 1, before, d, behind, arguments, blank, _, enough => by
      obtain ⟨first, rest, same, other⟩ := slots.head (bracket.closing :: d :: behind)
      have short : (slots.text ++ bracket.closing :: d :: behind).length < fuel := by
        simp only [Template.text, List.length_append, List.length_cons, List.length_nil] at enough ⊢
        omega
      have inside := fills_slots library slots bracket [] (d :: behind) arguments short short
      rw [same] at inside
      rw [Template.text, List.append_assoc, List.cons_append, List.append_assoc,
        List.singleton_append, same, eformat, eformatNext_opening bracket blank other]
      exact fills_construct bracket inside

theorem fills_slots (library : CLibrary) : ∀ (slots : Slots) (bracket : Bracket) {fuel rounds : Nat}
    (v : List ErlTerm) (behind : Bytes) (arguments : List FormatArgument),
    (slots.text ++ bracket.closing :: behind).length < rounds →
    (slots.text ++ bracket.closing :: behind).length < fuel →
      Fills behind
        (pelements (eformat library fuel) bracket.closing rounds v
          ⟨slots.text ++ bracket.closing :: behind, arguments⟩)
        (slots.fill library v arguments)
  | .last before element after, bracket, fuel, rounds, v, behind, arguments, enough, below => by
      have delimiter : bracket.closing ∈ delimiters := by cases bracket <;> decide
      obtain ⟨e, more, same, ended⟩ := padded_delimiter after.blank delimiter behind
      simp only [Slots.text, List.append_assoc, same] at enough below ⊢
      rw [← List.append_assoc]
      simp only [List.length_append, List.length_cons] at enough below
      have some := element.text_pos
      obtain ⟨least, rfl⟩ : ∃ least, rounds = least + 2 := ⟨rounds - 2, by omega⟩
      refine fills_round before (fills_template library element more arguments
        (List.forall_mem_nil _) ended ?_) fun elems remaining => ?_
      · simp only [List.nil_append, List.length_append, List.length_cons]
        omega
      · rw [← same, pelements_gap]
        exact fills_here _ _
  | .cons before element after slots, bracket, fuel, rounds, v, behind, arguments, enough,
      below => by
      have delimiter : comma ∈ delimiters := by decide
      obtain ⟨e, more, same, ended⟩ :=
        padded_delimiter after.blank delimiter (slots.text ++ bracket.closing :: behind)
      have size := congrArg List.length same
      simp only [Slots.text, List.append_assoc, List.cons_append, same] at enough below ⊢
      rw [← List.append_assoc]
      simp only [List.length_append, List.length_cons] at enough below size
      have some := element.text_pos
      obtain ⟨least, rfl⟩ : ∃ least, rounds = least + 2 := ⟨rounds - 2, by omega⟩
      refine fills_round before (fills_template library element more arguments
        (List.forall_mem_nil _) ended ?_) fun elems remaining => ?_
      · simp only [List.nil_append, List.length_append, List.length_cons]
        omega
      · rw [← same, pelements_comma]
        refine fills_slots library slots bracket elems behind remaining ?_ ?_
        · simp only [List.length_append, List.length_cons]
          omega
        · simp only [List.length_append, List.length_cons]
          omega

end

section Taken

variable {library : CLibrary} {letters : List UInt8}

theorem takes_directive (letter : UInt8) :
    Effect.Takes Accepts [letter] (fillDirective letter) := by
  unfold fillDirective
  cases known : Directive.ofLetter letter with
  | some directive =>
      exact Effect.takes_item fun argument term converted => ⟨directive, term, known, converted⟩
  | none =>
      intro arguments term rest found
      cases found

theorem takes_stored {next : List ErlTerm → Filler (Option (List ErlTerm))}
    (takes : ∀ elems, Effect.Takes Accepts letters (next elems)) (v : List ErlTerm)
    (term : ErlTerm) : Effect.Takes Accepts letters (stored v next (some term)) := by
  unfold stored
  split
  · intro arguments elems rest found
    cases found
  · exact takes (v ++ [term])

theorem stored_none {next : List ErlTerm → Filler (Option (List ErlTerm))} (v : List ErlTerm)
    (arguments : List FormatArgument) (elems : List ErlTerm) (rest : List FormatArgument) :
    stored v next none arguments ≠ (.returns (some elems), rest) := by
  unfold stored
  split <;> exact fun same => by cases same

mutual

/-- A template takes one argument for each of its directives. -/
theorem takes_template (library : CLibrary) :
    ∀ template : Template, Effect.Takes Accepts template.letters (template.fill library)
  | .lexeme lexeme => Effect.takes_lift _
  | .letter c clean => Effect.takes_lift (.returns (some (newLong (c.toBitVec.signExtend 64))))
  | .directive gap letter => takes_directive letter.byte
  | .hollow bracket gap => Effect.takes_lift (.returns (some (bracket.hollow gap)))
  | .elements bracket slots => by
      rw [Template.letters, Template.fill, ← List.append_nil slots.letters]
      refine (takes_slots library slots []).bind (fun arguments term rest found => by cases found)
        fun elems => Effect.takes_lift _

theorem takes_slots (library : CLibrary) : ∀ (slots : Slots) (v : List ErlTerm),
    Effect.Takes Accepts slots.letters (slots.fill library v)
  | .last before element after, v => by
      rw [Slots.letters, Slots.fill, ← List.append_nil element.letters]
      exact (takes_template library element).bind (stored_none v)
        (takes_stored (fun elems => Effect.takes_lift (.returns (some elems))) v)
  | .cons before element after slots, v => by
      rw [Slots.letters, Slots.fill]
      exact (takes_template library element).bind (stored_none v)
        (takes_stored (fun elems => takes_slots library slots elems) v)

end

/-- The text of a template with blanks around it. -/
def Template.padded (template : Template) (before after : Gap) : Bytes :=
  before.bytes ++ template.text ++ after.bytes

/-- A format string makes what its template makes. -/
theorem format_padded (library : CLibrary) (template : Template) (before after : Gap)
    (arguments : List FormatArgument) {fuel : Nat}
    (enough : (template.padded before after).length + 1 < fuel) :
    format library fuel (template.padded before after) arguments =
      template.make library arguments := by
  have clean : 0 ∉ template.padded before after := by
    simp [Template.padded, clean_gap before, template.clean, clean_gap after]
  have ends : (0 : UInt8) ∈ delimiters := by decide
  obtain ⟨d, behind, same, delimiter⟩ := padded_delimiter after.blank ends []
  have split : terminated (template.padded before after) =
      before.bytes ++ template.text ++ d :: behind := by
    rw [terminated_clean clean, Template.padded, List.append_assoc _ after.bytes, same]
  have size := congrArg List.length split
  rw [terminated_clean clean, List.length_append, List.length_singleton] at size
  have filled := fills_template library template behind arguments before.blank delimiter
    (size ▸ enough)
  rw [format, split, filled.outcome, Template.make]
  rcases (template.fill library arguments).1 with (none | term) | error | - | - <;> rfl

/-- What a format string with directives is read as. It is the term of its template, whose
directives take one argument each from the left to the right, and the arguments behind them are not
looked at. -/
theorem format_template (library : CLibrary) (template : Template) (before after : Gap)
    (arguments : List FormatArgument) {fuel : Nat}
    (enough : (template.padded before after).length + 1 < fuel) :
    format library fuel (template.padded before after) arguments =
        template.make library arguments ∧
      ∀ term, format library fuel (template.padded before after) arguments = .returns term →
        ∃ taken rest, arguments = taken ++ rest ∧
          List.Forall₂ Accepts template.letters taken ∧
          ∀ others, format library fuel (template.padded before after) (taken ++ others) =
            .returns term := by
  refine ⟨format_padded library template before after arguments enough, fun term made => ?_⟩
  rw [format_padded library template before after arguments enough, Template.make,
    Call.throwsOnly_eq_returns] at made
  obtain ⟨res, found, same⟩ := Outcome.bind_eq_returns.mp made
  cases res with
  | none => cases same
  | some value =>
      cases same
      obtain ⟨taken, split, fits, again⟩ := takes_template library template arguments term
        (template.fill library arguments).2 (Prod.ext found rfl)
      refine ⟨taken, _, split, fits, fun others => ?_⟩
      rw [format_padded library template before after (taken ++ others) enough, Template.make,
        again others]
      rfl

end Taken

/-- `{pair, ~w ,[~i,X]}`. -/
def pairTemplate : Template :=
  let pair : Lexeme := ⟨.atom, ascii 'p', text "air", text "pair",
    splits_atom rfl (List.all_eq_true.mp rfl), by decide⟩
  let x : Lexeme := ⟨.var, ascii 'X', [], text "X",
    splits_var (.inl rfl) (List.all_eq_true.mp rfl), by decide⟩
  .elements .tuple (.cons .nothing (.lexeme pair) .nothing
    (.cons .oneSpace (.directive .nothing .forTerm) .oneSpace
      (.last .nothing (.elements .list
        (.cons .nothing (.directive .nothing .forInt) .nothing
          (.last .nothing (.lexeme x) .nothing))) .nothing)))

/-- The arguments of `pairTemplate`, and one too many. -/
def pairArguments : List FormatArgument :=
  [.term (some (.simple .erlEmptyList)), .int 7, .double ⟨0⟩]

example : pairTemplate.text = text "\x7bpair, ~w ,[~i,X]\x7d" := by decide

theorem format_template_pair :
    format wholeNumbers 20 (pairTemplate.padded .nothing .nothing) pairArguments =
        pairTemplate.make wholeNumbers pairArguments ∧
      ∀ term, format wholeNumbers 20 (pairTemplate.padded .nothing .nothing)
          pairArguments = .returns term →
        ∃ taken rest, pairArguments = taken ++ rest ∧
          List.Forall₂ Accepts pairTemplate.letters taken ∧
          ∀ others, format wholeNumbers 20 (pairTemplate.padded .nothing .nothing)
            (taken ++ others) = .returns term :=
  format_template wholeNumbers pairTemplate .nothing .nothing pairArguments
    (by decide)

end Epi.Parse
