import Epi.Parse.Passing

namespace Epi.Parse

open Verification Epi.Type Machine

/-- The reading of a text, with its directives passed, comes to a list whose brackets have only
blanks and commas between them. -/
def ReadsHollow (library : CLibrary) (whole : Bytes) : Prop :=
  ∃ opened fmt rest, Comes (Reading.pass library) (.reads [] whole) (.reads opened fmt) ∧
    fmt.dropWhile isNullChar = leftBracket :: rest ∧ Hollow rest

/-- The arguments are made of conses, and valid where that is asked. -/
def Given (valid : Prop) (pap : List FormatArgument) : Prop :=
  ∀ term, FormatArgument.term (some term) ∈ pap → term.Consed ∧ (valid → term.isValid = true)

/-- The term that is read of the text alone has a list without elements if the term has one, and
with valid arguments only then. -/
structure Resembles (valid : Prop) (term image : ErlTerm) : Prop where
  consed : image.Consed → term.Consed
  isValid : valid → term.isValid = true
  exact : valid → term.Consed → image.Consed

/-- The reading of the text passes what a call returns. -/
def Passes (library : CLibrary) (valid : Prop) (eformat : Formatter (Option ErlTerm)) : Prop :=
  ∀ c rest pap term after, isNullChar c = false → Given valid pap →
    eformat ⟨c :: rest, pap⟩ = (.returns (some term), after) →
      Given valid after.pap ∧ ∃ image, Resembles valid term image ∧ ∀ opened fmt,
        TermAt opened fmt c rest →
          Comes (Reading.pass library) (.reads opened fmt) (Reading.store opened image after.fmt)

section Passes

variable {library : CLibrary} {valid : Prop} {eformat : Formatter (Option ErlTerm)} {fuel : Nat}
  {state after : FormatState} {c : UInt8} {rest : Bytes} {pap : List FormatArgument}
  {term : ErlTerm} {opened : List Opened}

theorem Given.tail {argument : FormatArgument} (given : Given valid (argument :: pap)) :
    Given valid pap :=
  fun term member => given term (List.mem_cons_of_mem argument member)

/-- A term without lists. -/
theorem Resembles.scalar {image : ErlTerm} (valid : Prop) (consed : term.Consed)
    (isValid : term.isValid = true) (same : image.Consed) : Resembles valid term image :=
  ⟨fun _ => consed, fun _ => isValid, fun _ _ => same⟩

theorem resembles_self (consed : term.Consed) (isValid : term.isValid = true) :
    Resembles valid term term :=
  .scalar valid consed isValid consed

theorem consed_bracket {bracket : Bracket} {elems : List ErlTerm} :
    (bracket.term elems).Consed ↔
      (bracket = .list → elems ≠ []) ∧ ∀ elem ∈ elems, elem.Consed := by
  cases bracket with
  | tuple => simp [Bracket.term, ErlTerm.Consed, ErlTerm.consNode]
  | list =>
      have ended : (ErlTerm.simple .erlEmptyList).every ErlTerm.consNode = true := rfl
      have some : 2 ≤ elems.length + 1 ↔ elems ≠ [] := by
        rw [← List.length_pos_iff]
        omega
      rw [Bracket.term, ErlTerm.Consed, ErlTerm.every_erlConsList, ErlTerm.consNode_iff,
        ErlTerm.closedBy_append, List.length_append, List.length_singleton, some,
        List.forall_mem_append, List.forall_mem_singleton]
      simp [ErlTerm.isConsList, ended, ErlTerm.Consed]

/-- Elements that resemble each other have lists without elements together. -/
theorem resembles_elements {elems images : List ErlTerm}
    (both : List.Forall₂ (Resembles valid) elems images) :
    ((∀ image ∈ images, image.Consed) → ∀ elem ∈ elems, elem.Consed) ∧
      (valid → ∀ elem ∈ elems, elem.isValid = true) ∧
        (valid → (∀ elem ∈ elems, elem.Consed) → ∀ image ∈ images, image.Consed) := by
  induction both with
  | nil => simp
  | cons here _ ih =>
      obtain ⟨consed, isValid, exact'⟩ := ih
      simp only [List.forall_mem_cons]
      exact ⟨fun all => ⟨here.consed all.1, consed all.2⟩,
        fun sound => ⟨here.isValid sound, isValid sound⟩,
        fun sound all => ⟨here.exact sound all.1, exact' sound all.2⟩⟩

theorem resembles_nil {elems images : List ErlTerm}
    (both : List.Forall₂ (Resembles valid) elems images) : elems = [] ↔ images = [] := by
  cases both <;> simp

theorem resembles_tuple {elems images : List ErlTerm} (made : newTuple elems = .returns term)
    (both : List.Forall₂ (Resembles valid) elems images) :
    Resembles valid term (Bracket.tuple.term images) := by
  obtain ⟨consed, isValid, exact'⟩ := resembles_elements both
  have whole : valid → term = Bracket.tuple.term elems := fun sound =>
    Outcome.returns.inj (made.symm.trans (newTuple_valid (isValid sound)))
  constructor
  · exact fun image => newTuple_consed made (consed (consed_bracket.mp image).2)
  · intro sound
    rw [whole sound]
    exact Bracket.tuple.term_valid
  · intro sound here
    rw [whole sound] at here
    exact consed_bracket.mpr
      ⟨fun list => absurd list (by decide), exact' sound (consed_bracket.mp here).2⟩

theorem resembles_list {elems images : List ErlTerm} (made : newConsList elems = .returns term)
    (both : List.Forall₂ (Resembles valid) elems images) :
    Resembles valid term (Bracket.list.term images) := by
  obtain ⟨consed, -, exact'⟩ := resembles_elements both
  obtain rfl : term = Bracket.list.term elems := newConsList_returns made
  constructor
  · intro image
    obtain ⟨some, all⟩ := consed_bracket.mp image
    exact consed_bracket.mpr ⟨fun same none => some same ((resembles_nil both).mp none), consed all⟩
  · exact fun _ => Bracket.list.term_valid
  · intro sound here
    obtain ⟨some, all⟩ := consed_bracket.mp here
    exact consed_bracket.mpr
      ⟨fun same none => some same ((resembles_nil both).mpr none), exact' sound all⟩

theorem vaArg_returns {Value : Type} {read : FormatArgument → Option Value} {value : Value}
    (ran : vaArg read state = (.returns value, after)) :
    ∃ argument, state.pap = argument :: after.pap ∧ read argument = some value ∧
      after.fmt = state.fmt := by
  unfold vaArg at ran
  split at ran
  · rename_i argument rest found
    split at ran
    · rename_i known
      cases ran
      exact ⟨argument, found, known, rfl⟩
    · cases ran
  · cases ran

/-- An argument that is turned into a term without lists. -/
theorem converted_returns {Value : Type} {read : FormatArgument → Option Value}
    {convert : Value → Call ErlTerm} (given : Given valid state.pap)
    (scalar : ∀ value made, convert value = .returns made → made.Consed ∧ made.isValid = true)
    (ran : (do
      let value ← vaArg read
      let made ← Effect.lift (convert value)
      return some made : Formatter (Option ErlTerm)) state = (.returns (some term), after)) :
    after.fmt = state.fmt ∧ Given valid after.pap ∧ term.Consed ∧ (valid → term.isValid = true) := by
  obtain ⟨value, middle, taken, rest⟩ := Effect.bind_eq_returns.mp ran
  obtain ⟨made, last, converted, same⟩ := Effect.bind_eq_returns.mp rest
  have plain := scalar value made (congrArg Prod.fst converted)
  have unmoved : middle = last := congrArg Prod.snd converted
  cases same
  subst unmoved
  obtain ⟨argument, held, -, fmt⟩ := vaArg_returns taken
  rw [held] at given
  exact ⟨fmt, given.tail, plain.1, fun _ => plain.2⟩

/-- What `pformat` returns was made of one letter behind the blanks. -/
theorem pformat_returns (given : Given valid state.pap)
    (ran : pformat state = (.returns (some term), after)) :
    (∃ letter, state.fmt.dropWhile isNullChar = letter :: after.fmt) ∧ Given valid after.pap ∧
      term.Consed ∧ (valid → term.isValid = true) := by
  cases found : state.fmt.dropWhile isNullChar with
  | nil =>
      rw [pformat, Effect.bind_run, skipNullChars_end found] at ran
      cases ran
  | cons letter behind =>
      have first : next ⟨letter :: behind, state.pap⟩ = (.returns letter, ⟨behind, state.pap⟩) := rfl
      rw [pformat, Effect.bind_of_returns (skipNullChars_run found), Effect.bind_of_returns first]
        at ran
      suffices rest : after.fmt = behind ∧ Given valid after.pap ∧ term.Consed ∧
          (valid → term.isValid = true) from ⟨⟨letter, by rw [rest.1]⟩, rest.2⟩
      have start : Given valid (⟨behind, state.pap⟩ : FormatState).pap := given
      split at ran
      · obtain ⟨argument, held, known, fmt⟩ := vaArg_returns ran
        rw [held] at start
        cases argument with
        | term value =>
            cases known
            exact ⟨fmt, start.tail, start term List.mem_cons_self⟩
        | _ => cases known
      · split at ran
        · refine converted_returns start (fun value made atom => ?_) ran
          obtain ⟨mAtom, -, rfl⟩ := newAtom_returns atom
          exact ⟨rfl, rfl⟩
        · split at ran
          · exact @converted_returns valid _ _ _ _ FormatArgument.asString
              (fun value => .returns (newString value)) start
              (fun value made same => by cases same; exact ⟨rfl, rfl⟩) ran
          · split at ran
            · exact @converted_returns valid _ _ _ _ FormatArgument.asInt
                (fun value => .returns (newLong (value.signExtend 64))) start
                (fun value made same => by cases same; exact ⟨rfl, rfl⟩) ran
            · split at ran
              · exact @converted_returns valid _ _ _ _ FormatArgument.asDouble
                  (fun value => .returns (newDouble value)) start
                  (fun value made same => by cases same; exact ⟨rfl, rfl⟩) ran
              · cases ran

theorem pscalar_returns (solid : isNullChar c = false)
    (ran : pscalar library c ⟨c :: rest, pap⟩ = (.returns (some term), after)) :
    ∃ kind token, tokenKind c = some kind ∧ kind.token c rest = some token ∧
      token.bytes.length + 1 ≤ bufsiz ∧ kind.term library token.bytes = .returns term ∧
      after = ⟨token.behind, pap⟩ := by
  cases known : tokenKind c with
  | none =>
      rw [pscalar_nothing known] at ran
      cases ran
  | some kind =>
      obtain ⟨reader, read, same⟩ := pscalar_run library pap rest solid known
      rw [same] at ran
      obtain ⟨bytes, middle, taken, later⟩ := Effect.bind_eq_returns.mp ran
      obtain ⟨made, last, converted, ended⟩ := Effect.bind_eq_returns.mp later
      have built := congrArg Prod.fst converted
      have unmoved : middle = last := congrArg Prod.snd converted
      cases ended
      subst unmoved
      rw [read] at taken
      cases found : kind.token c rest with
      | none =>
          rw [found] at taken
          cases taken
      | some token =>
          rw [found, tokenResult] at taken
          split at taken
          · rename_i fits
            cases taken
            exact ⟨kind, token, rfl, found, fits, built, rfl⟩
          · cases taken

theorem comes_started {fmt : Bytes} {reading : Reading} (start : TermAt opened fmt c rest)
    (started : StartStep library opened c rest reading) (other : reading ≠ .directive) :
    Comes (Reading.pass library) (.reads opened fmt) reading :=
  Comes.one (pass_eq_step (ReadStep.start start started).step_eq other)

/-- The rounds of `ptuple` and `plist`. -/
theorem passes_pelements (passes : Passes library valid eformat) (bracket : Bracket)
    {v images elems : List ErlTerm} (given : Given valid state.pap)
    (both : List.Forall₂ (Resembles valid) v images)
    (ran : pelements eformat bracket.closing fuel v state = (.returns (some elems), after)) :
    Given valid after.pap ∧ ∃ all, List.Forall₂ (Resembles valid) elems all ∧ ∀ outer,
      Comes (Reading.pass library) (.reads (⟨bracket, images⟩ :: outer) state.fmt)
        (Reading.store outer (bracket.term all) after.fmt) := by
  induction fuel generalizing v images state with
  | zero => cases ran
  | succ fuel ih =>
      obtain ⟨c, rest, found, ⟨rfl, rfl, rfl⟩ | ⟨closes, rfl, later⟩ |
        ⟨closes, separates, room, term, middle, read, later⟩⟩ := pelements_returns ran
      · refine ⟨given, images, both, fun outer => Comes.one (pass_eq_step ?_ store_ne_directive)⟩
        exact (@ReadStep.closing library ⟨bracket, images⟩ outer _ _ found).step_eq
      · have behind : Given valid (⟨rest, state.pap⟩ : FormatState).pap := given
        obtain ⟨givenAfter, all, same, comes⟩ := ih behind both later
        refine ⟨givenAfter, all, same, fun outer =>
          (Comes.one (pass_eq_step ?_ ?_)).trans (comes outer)⟩
        · exact (@ReadStep.comma library ⟨bracket, images⟩ outer _ _ found).step_eq
        · exact fun same => by cases same
      · have solid := solid_of_dropWhile found
        obtain ⟨givenMiddle, image, resembles, passed⟩ := passes c rest _ term middle solid given read
        have extended := List.rel_append both (.cons resembles .nil)
        obtain ⟨givenAfter, all, same, comes⟩ := ih givenMiddle extended later
        refine ⟨givenAfter, all, same, fun outer => ?_⟩
        have stored := passed (⟨bracket, images⟩ :: outer) state.fmt
          ⟨found, by rintro _ ⟨⟩; exact ⟨closes, separates⟩⟩
        have entry : Opened.Room ⟨bracket, images⟩ := by
          rw [Opened.Room, ← both.length_eq]
          exact room
        rw [Reading.store, if_pos entry] at stored
        exact stored.trans (comes outer)

theorem passes_bracketed (passes : Passes library valid eformat) (given : Given valid pap)
    (ran : bracketed eformat fuel ⟨rest, pap⟩ = (.returns (some term), after)) :
    Given valid after.pap ∧ ∃ image, Resembles valid term image ∧ ∀ opened fmt,
      TermAt opened fmt leftBracket rest →
        Comes (Reading.pass library) (.reads opened fmt)
          (Reading.store opened image after.fmt) := by
  cases rest with
  | nil => cases ran
  | cons first behind =>
      have read : peek ⟨first :: behind, pap⟩ = (.returns first, ⟨first :: behind, pap⟩) := rfl
      rw [bracketed, Effect.bind_of_returns read] at ran
      split at ran
      · rename_i ended
        subst ended
        cases ran
        exact ⟨given, _, resembles_self rfl rfl, fun opened fmt start =>
          comes_started start .emptyList store_ne_directive⟩
      · rename_i openStill
        obtain ⟨elems, middle, listed, built⟩ := Effect.bind_eq_returns.mp ran
        obtain ⟨v, rfl, construct, rfl⟩ := made_returns built
        obtain ⟨givenAfter, all, both, comes⟩ :=
          passes_pelements passes .list given .nil listed
        refine ⟨givenAfter, _, resembles_list construct both, fun opened fmt start => ?_⟩
        exact (comes_started start (.list openStill) (fun same => by cases same)).trans (comes opened)

/-- The body of `eformat` is passed where the calls for the elements are. -/
theorem passes_eformatNext (passes : Passes library valid eformat) :
    Passes library valid (eformatNext library eformat fuel) := by
  intro c rest pap term after solid given ran
  have found := @dropWhile_solid c rest solid
  rw [@eformatNext_run _ _ _ ⟨c :: rest, pap⟩ _ _ found] at ran
  split at ran
  · rename_i brace
    subst brace
    obtain ⟨elems, middle, listed, built⟩ := Effect.bind_eq_returns.mp ran
    obtain ⟨v, rfl, construct, rfl⟩ := made_returns built
    obtain ⟨givenAfter, all, both, comes⟩ :=
      @passes_pelements library valid eformat fuel ⟨rest, pap⟩ _ passes .tuple [] [] v given .nil
        listed
    refine ⟨givenAfter, _, resembles_tuple construct both, fun opened fmt start => ?_⟩
    exact (comes_started start .brace (fun same => by cases same)).trans (comes opened)
  · split at ran
    · rename_i bracket
      subst bracket
      exact passes_bracketed passes given ran
    · split at ran
      · rename_i letter
        subst letter
        cases rest with
        | nil => cases ran
        | cons letter behind =>
            cases ran
            exact ⟨given, _, resembles_self rfl rfl, fun opened fmt start =>
              comes_started start .letter store_ne_directive⟩
      · split at ran
        · rename_i directive
          subst directive
          obtain ⟨⟨letter, found⟩, givenAfter, consed, isValid⟩ :=
            @pformat_returns valid ⟨rest, pap⟩ _ _ given ran
          refine ⟨givenAfter, Reading.argument, ⟨fun _ => consed, isValid, fun _ _ => rfl⟩,
            fun opened fmt start => ?_⟩
          have passed := Comes.one (@pass_directive library opened fmt rest start)
          simp only at found
          rwa [Reading.directed, found] at passed
        · obtain ⟨kind, token, known, found, fits, made, rfl⟩ := pscalar_returns solid ran
          exact ⟨given, term, resembles_self (TokenKind.term_consed made)
            (TokenKind.term_valid made), fun opened fmt start =>
              comes_started start (.token known found fits made) store_ne_directive⟩

theorem passes_eformat (library : CLibrary) (valid : Prop) (fuel : Nat) :
    Passes library valid (Parse.eformat library fuel) := by
  induction fuel with
  | zero => exact fun _ _ _ _ _ _ _ ran => by cases ran
  | succ fuel ih => exact passes_eformatNext ih

/-- A text that is read as a term is passed by the reading of it. -/
theorem eformat_passes {formatted : Bytes} (given : Given valid pap)
    (ran : Parse.eformat library fuel ⟨formatted, pap⟩ = (.returns (some term), after)) :
    ∃ image, Resembles valid term image ∧
      Comes (Reading.pass library) (.reads [] formatted) (.read image after.fmt) := by
  cases fuel with
  | zero => cases ran
  | succ fuel =>
      cases found : formatted.dropWhile isNullChar with
      | nil =>
          rw [Parse.eformat, eformatNext_end found] at ran
          cases ran
      | cons c rest =>
          have solid := solid_of_dropWhile found
          have again := @dropWhile_solid c rest solid
          have same : Parse.eformat library (fuel + 1) ⟨formatted, pap⟩ =
              Parse.eformat library (fuel + 1) ⟨c :: rest, pap⟩ := by
            rw [Parse.eformat, eformatNext_run found,
              @eformatNext_run _ _ _ ⟨c :: rest, pap⟩ _ _ again]
          rw [same] at ran
          obtain ⟨-, image, resembles, passed⟩ :=
            passes_eformat library valid (fuel + 1) c rest pap term after solid given ran
          exact ⟨image, resembles, passed [] formatted ⟨found, fun _ none => by cases none⟩⟩

end Passes

/-- So far all lists are conses, and an open list without elements still comes to one. -/
def Reading.Conses : Reading → Prop
  | reads opened fmt =>
      (∀ inner ∈ opened, ∀ elem ∈ inner.elems, elem.Consed) ∧
        ∀ inner ∈ opened.head?, inner.bracket = .list → inner.elems = [] →
          (fmt.dropWhile isFiller).head? ≠ some rightBracket
  | read term _ => term.Consed
  | _ => True

section Conses

variable {library : CLibrary} {opened : List Opened} {fmt rest whole : Bytes}
  {term image : ErlTerm} {after : Reading}

theorem conses_store (parts : ∀ inner ∈ opened, ∀ elem ∈ inner.elems, elem.Consed)
    (consed : term.Consed) : (Reading.store opened term fmt).Conses := by
  cases opened with
  | nil => exact consed
  | cons inner outer =>
      rw [List.forall_mem_cons] at parts
      unfold Reading.store
      dsimp only
      split
      · refine ⟨List.forall_mem_cons.mpr ⟨?_, parts.2⟩, ?_⟩
        · rw [List.forall_mem_append, List.forall_mem_singleton]
          exact ⟨parts.1, consed⟩
        · rintro _ ⟨⟩ - none
          simp at none
      · trivial

/-- A step makes no list without elements, unless it comes to the bracket of one. -/
theorem conses_pass (solid : ∀ rest, fmt.dropWhile isNullChar = leftBracket :: rest → ¬ Hollow rest)
    (taken : Reading.pass library (.reads opened fmt) = some after)
    (conses : (Reading.reads opened fmt).Conses) : after.Conses := by
  obtain ⟨parts, empty⟩ := conses
  cases passStep taken with
  | comma found =>
      refine ⟨parts, fun inner head list none => ?_⟩
      have filler : isFiller comma = true := by decide
      have here := empty inner head list none
      rwa [dropWhile_filler, found, List.dropWhile_cons, if_pos filler] at here
  | @opens _ _ _ bracket found other =>
      refine ⟨List.forall_mem_cons.mpr ⟨List.forall_mem_nil _, parts⟩, ?_⟩
      rintro _ ⟨⟩ list -
      simp only at list
      subst list
      exact fun closes => solid _ found ⟨other rfl, closes⟩
  | @closes inner outer _ _ found =>
      rw [List.forall_mem_cons] at parts
      refine conses_store parts.2 (consed_bracket.mpr ⟨fun list none => ?_, parts.1⟩)
      refine empty inner rfl list none ?_
      rw [dropWhile_filler, found, list]
      rfl
  | stores consed => exact conses_store parts consed
  | stops stopped => cases after <;> first | exact stopped.elim | trivial

/-- A list that is closed without an element is stored. -/
theorem comes_hollow (hollow : (rest.dropWhile isFiller).head? = some rightBracket) :
    ∃ behind, Comes (Reading.pass library) (.reads (⟨.list, []⟩ :: opened) rest)
      (Reading.store opened (Bracket.list.term []) behind) := by
  induction size : rest.length using Nat.strong_induction_on generalizing rest with
  | _ size ih =>
      rw [dropWhile_filler] at hollow
      cases found : rest.dropWhile isNullChar with
      | nil =>
          rw [found] at hollow
          cases hollow
      | cons c behind =>
          rw [found] at hollow
          have shorter := (List.dropWhile_suffix isNullChar (l := rest)).length_le
          rw [found, List.length_cons] at shorter
          by_cases separates : c = comma
          · subst separates
            have filler : isFiller comma = true := by decide
            rw [List.dropWhile_cons, if_pos filler] at hollow
            obtain ⟨last, later⟩ := ih behind.length (by omega) hollow rfl
            refine ⟨last, (Comes.one (pass_eq_step ?_ (fun same => by cases same))).trans later⟩
            exact (@ReadStep.comma library ⟨.list, []⟩ opened _ _ found).step_eq
          · have solid := solid_of_dropWhile found
            have stays : isFiller c = false := by simp [isFiller, solid, separates]
            rw [List.dropWhile_cons, if_neg (by simp [stays]), List.head?_cons,
              Option.some.injEq] at hollow
            subst hollow
            refine ⟨behind, Comes.one (pass_eq_step ?_ store_ne_directive)⟩
            exact (@ReadStep.closing library ⟨.list, []⟩ opened _ _ found).step_eq

/-- What a term of conses has inside is made of conses. -/
theorem Holds.consed {whole : ErlTerm} (holds : Holds opened term whole) (consed : whole.Consed) :
    term.Consed := by
  induction opened generalizing term with
  | nil => exact (show term = whole from holds) ▸ consed
  | cons inner outer ih =>
      obtain ⟨more, holds⟩ := holds
      exact (consed_bracket.mp (ih holds)).2 term (by simp)

/-- What is read of a text is made of conses exactly if the reading comes to no hollow list. -/
theorem consed_iff_of_comes
    (comes : Comes (Reading.pass library) (.reads [] whole) (.read image rest)) :
    image.Consed ↔ ¬ ReadsHollow library whole := by
  constructor
  · rintro consed ⟨opened, fmt, behind, reached, found, other, closes⟩
    have later := reached.before_end comes rfl
    have opens : Comes (Reading.pass library) (.reads opened fmt)
        (.reads (⟨.list, []⟩ :: opened) behind) := by
      have start : TermAt opened fmt leftBracket behind :=
        ⟨found, fun inner _ => ⟨by cases inner.bracket <;> decide, by decide⟩⟩
      cases behind with
      | nil => cases closes
      | cons first more =>
          have openStill : first ≠ rightBracket := by
            rintro rfl
            exact other rfl
          exact comes_started start (.list openStill) fun same => by cases same
    obtain ⟨left, stored⟩ := @comes_hollow library opened behind closes
    have holds := holds_of_comes ((opens.trans stored).before_end later rfl)
    exact absurd (holds.consed consed) (by decide)
  · intro solid
    have held : (Reading.read image rest).Conses := by
      have kept : ∀ state after, (Comes (Reading.pass library) (.reads [] whole) state ∧
          state.Conses) → Reading.pass library state = some after →
          Comes (Reading.pass library) (.reads [] whole) after ∧ after.Conses := by
        rintro state after ⟨reached, conses⟩ taken
        refine ⟨reached.trans (Comes.one taken), ?_⟩
        cases state with
        | reads opened fmt =>
            exact conses_pass (fun rest found hollow => solid ⟨opened, fmt, rest, reached, found,
              hollow⟩) taken conses
        | _ => cases taken
      have start : (Reading.reads [] whole).Conses :=
        ⟨List.forall_mem_nil _, fun inner none => by cases none⟩
      exact (@Comes.invariant _ _ _ _ (fun state =>
        Comes (Reading.pass library) (.reads [] whole) state ∧ state.Conses) kept
          ⟨Comes.refl, start⟩ comes).2
    exact held

end Conses

/-- What `format` makes of arguments of conses is made of conses if the reading of the text comes to
no hollow list, and with valid arguments only then. -/
theorem format_consed_iff {library : CLibrary} {fuel : Nat} {formatStr : Bytes}
    {arguments : List FormatArgument} {term : ErlTerm} (consed : ConsedArguments arguments)
    (ran : format library fuel formatStr arguments = .returns term) :
    (¬ ReadsHollow library (terminated formatStr) → term.Consed) ∧
      (ValidArguments arguments →
        (term.Consed ↔ ¬ ReadsHollow library (terminated formatStr))) := by
  rw [format, Call.throwsOnly_eq_returns] at ran
  obtain ⟨res, read, same⟩ := Outcome.bind_eq_returns.mp ran
  cases res with
  | none => cases same
  | some value =>
      cases same
      have given : Given (ValidArguments arguments) arguments :=
        fun value member => ⟨consed value member, fun valid => valid value member⟩
      obtain ⟨image, resembles, comes⟩ := eformat_passes given (Prod.ext read rfl)
      have exact' := consed_iff_of_comes comes
      refine ⟨fun solid => resembles.consed (exact'.mpr solid), fun valid => ?_⟩
      exact ⟨fun here => exact'.mp (resembles.exact valid here),
        fun solid => resembles.consed (exact'.mpr solid)⟩

end Epi.Parse
