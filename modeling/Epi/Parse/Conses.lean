import Epi.Parse.Format
import Epi.Type.ConsedTerms

namespace Epi.Parse

open Verification Epi.Type

/-- The bytes that `plist` skips before an element. -/
def isFiller (c : UInt8) : Bool := isNullChar c || c == comma

/-- The text behind an opening bracket comes to the closing one without an element, but not at
once. -/
def Hollow (rest : Bytes) : Prop :=
  rest.head? ≠ some rightBracket ∧ (rest.dropWhile isFiller).head? = some rightBracket

instance (rest : Bytes) : Decidable (Hollow rest) := inferInstanceAs (Decidable (_ ∧ _))

section Runs

variable {eformat : Formatter (Option ErlTerm)} {closing : UInt8} {fuel : Nat} {v : List ErlTerm}
  {state after : FormatState} {c : UInt8} {rest : Bytes}

/-- The blanks end at another byte. -/
theorem solid_of_dropWhile {fmt : Bytes} (found : fmt.dropWhile isNullChar = c :: rest) :
    isNullChar c = false := by
  have head := List.head?_dropWhile_not isNullChar fmt
  rw [found] at head
  simpa using head

theorem dropWhile_solid (solid : isNullChar c = false) :
    (c :: rest).dropWhile isNullChar = c :: rest := by
  rw [List.dropWhile_cons, if_neg (by simp [solid])]

theorem skipNullChars_run (found : state.fmt.dropWhile isNullChar = c :: rest) :
    skipNullChars state = (.returns (), ⟨c :: rest, state.pap⟩) := by
  simp only [skipNullChars, skipWhile, found]

theorem skipNullChars_end (found : state.fmt.dropWhile isNullChar = []) :
    skipNullChars state = (.aborts, ⟨[], state.pap⟩) := by
  simp only [skipNullChars, skipWhile, found]

/-- One round of `ptuple` or `plist`. -/
theorem pelements_run (found : state.fmt.dropWhile isNullChar = c :: rest) :
    pelements eformat closing (fuel + 1) v state =
      if c = closing then (.returns (some v), ⟨rest, state.pap⟩)
      else if c = comma then pelements eformat closing fuel v ⟨rest, state.pap⟩
      else
        (do
          let term ← eformat
          if maxEntries ≤ v.length then
            Effect.lift .aborts
          else
            match term with
            | some term => pelements eformat closing fuel (v ++ [term])
            | none => return none : Formatter (Option (List ErlTerm))) ⟨c :: rest, state.pap⟩ := by
  have read : peek ⟨c :: rest, state.pap⟩ = (.returns c, ⟨c :: rest, state.pap⟩) := rfl
  rw [pelements, Effect.bind_of_returns (skipNullChars_run found), Effect.bind_of_returns read]
  split
  · rfl
  · split
    · rfl
    · rfl

theorem pelements_end (found : state.fmt.dropWhile isNullChar = []) :
    pelements eformat closing (fuel + 1) v state = (.aborts, ⟨[], state.pap⟩) := by
  rw [pelements, Effect.bind_run, skipNullChars_end found]

/-- What a round that returns did: it ended the elements, passed a comma, or stored an element. -/
theorem pelements_returns {elems : List ErlTerm}
    (ran : pelements eformat closing (fuel + 1) v state = (.returns (some elems), after)) :
    ∃ c rest, state.fmt.dropWhile isNullChar = c :: rest ∧
      ((c = closing ∧ elems = v ∧ after = ⟨rest, state.pap⟩) ∨
        (c ≠ closing ∧ c = comma ∧
          pelements eformat closing fuel v ⟨rest, state.pap⟩ = (.returns (some elems), after)) ∨
        (c ≠ closing ∧ c ≠ comma ∧ v.length < maxEntries ∧ ∃ term middle,
          eformat ⟨c :: rest, state.pap⟩ = (.returns (some term), middle) ∧
          pelements eformat closing fuel (v ++ [term]) middle = (.returns (some elems), after))) := by
  cases found : state.fmt.dropWhile isNullChar with
  | nil =>
      rw [pelements_end found] at ran
      cases ran
  | cons c rest =>
      refine ⟨c, rest, rfl, ?_⟩
      rw [pelements_run found] at ran
      split at ran
      · rename_i ended
        cases ran
        exact .inl ⟨ended, rfl, rfl⟩
      · rename_i openStill
        split at ran
        · rename_i separated
          exact .inr (.inl ⟨openStill, separated, ran⟩)
        · rename_i element
          obtain ⟨term, middle, read, stored⟩ := Effect.bind_eq_returns.mp ran
          split at stored
          · cases stored
          · rename_i room
            cases term with
            | some term =>
                exact .inr (.inr ⟨openStill, element, Nat.not_le.mp room, term, middle, read, stored⟩)
            | none => cases stored

/-- The elements before stay. -/
theorem pelements_prefix {elems : List ErlTerm}
    (ran : pelements eformat closing fuel v state = (.returns (some elems), after)) :
    v <+: elems := by
  induction fuel generalizing v state with
  | zero => cases ran
  | succ fuel ih =>
      obtain ⟨c, rest, -, ⟨-, rfl, -⟩ | ⟨-, -, later⟩ | ⟨-, -, -, term, middle, -, later⟩⟩ :=
        pelements_returns ran
      · exact List.prefix_rfl
      · exact ih later
      · exact (List.prefix_append v [term]).trans (ih later)

theorem dropWhile_filler (fmt : Bytes) :
    fmt.dropWhile isFiller = (fmt.dropWhile isNullChar).dropWhile isFiller := by
  induction fmt with
  | nil => rfl
  | cons c rest ih =>
      cases blank : isNullChar c with
      | true => simp [isFiller, blank, ih]
      | false => simp [blank]

/-- There are no elements exactly where only blanks and commas stand before the closing byte. -/
theorem pelements_nil_iff (apart : isFiller closing = false) {elems : List ErlTerm}
    (ran : pelements eformat closing fuel [] state = (.returns (some elems), after)) :
    elems = [] ↔ (state.fmt.dropWhile isFiller).head? = some closing := by
  induction fuel generalizing state with
  | zero => cases ran
  | succ fuel ih =>
      obtain ⟨c, rest, found, cases⟩ := pelements_returns ran
      have solid := solid_of_dropWhile found
      rw [dropWhile_filler, found]
      rcases cases with ⟨rfl, rfl, -⟩ | ⟨-, rfl, later⟩ | ⟨other, element, -, term, middle, -, later⟩
      · simp [apart]
      · have filler : isFiller comma = true := by decide
        rw [List.dropWhile_cons, if_pos filler]
        exact ih later
      · have filler : isFiller c = false := by simp [isFiller, solid, element]
        rw [List.dropWhile_cons, if_neg (by simp [filler]), List.head?_cons, Option.some.injEq]
        refine iff_of_false ?_ other
        rintro rfl
        have some := pelements_prefix later
        simp at some

end Runs

section Constructors

/-- The elements are appended to an open list in their order. -/
theorem addEach_returns {elems done : List ErlTerm} {after : ErlConsList}
    (ran : addEach elems ⟨false, done⟩ = (.returns (), after)) :
    after = ⟨false, done ++ elems⟩ := by
  induction elems generalizing done with
  | nil =>
      cases ran
      rw [List.append_nil]
  | cons elem rest ih =>
      obtain ⟨⟨⟩, middle, added, later⟩ := Effect.bind_eq_returns.mp ran
      cases flag : elem.isValid with
      | false =>
          simp only [ErlConsList.addElement, flag, Bool.not_false, if_true] at added
          cases added
      | true =>
          rw [ErlConsList.addElement_open done flag] at added
          cases added
          rw [ih later, List.append_assoc, List.singleton_append]

theorem closeProper_run (elems : List ErlTerm) :
    closeProper ⟨false, elems⟩ = (.returns (), ⟨true, elems ++ [.simple .erlEmptyList]⟩) := by
  rw [closeProper, Method.throwsOnly, Effect.mapOutcome_run, ErlConsList.close_plain elems rfl rfl]
  rfl

/-- A list from an array ends in the empty list. -/
theorem newConsList_returns {elems : List ErlTerm} {term : ErlTerm}
    (made : newConsList elems = .returns term) :
    term = .erlConsList true (elems ++ [.simple .erlEmptyList]) := by
  rw [newConsList, Call.throwsOnly_eq_returns] at made
  rcases ran : (do addEach elems; closeProper : Method ErlConsList Unit) .uninitialized with
    ⟨outcome, list⟩
  rw [ran] at made
  obtain ⟨value, returned, same⟩ := Outcome.bind_eq_returns.mp made
  subst returned
  obtain ⟨⟨⟩, middle, added, ended⟩ := Effect.bind_eq_returns.mp ran
  rw [addEach_returns added, List.nil_append, closeProper_run] at ended
  cases ended
  cases same
  rfl

/-- The list is a cons if it was made from an element at least. -/
theorem newConsList_consNode {elems : List ErlTerm} {term : ErlTerm}
    (made : newConsList elems = .returns term) :
    term.consNode = true ↔ elems ≠ [] := by
  rw [newConsList_returns made, ErlTerm.consNode_iff, ErlTerm.closedBy_append, List.length_append,
    List.length_singleton]
  have closed : (!(ErlTerm.simple .erlEmptyList).isConsList) = true := rfl
  rw [and_iff_left closed, ← List.length_pos_iff]
  omega

theorem initElement_from (elem : Option ErlTerm) (tuple : ErlTuple) :
    ∀ part ∈ (ErlTuple.initElement elem tuple).2.mElementVector,
      part ∈ tuple.mElementVector ∨ part ∈ elem := by
  intro part member
  unfold ErlTuple.initElement at member
  split at member
  · exact .inl member
  · split at member
    · exact .inl member
    · split at member
      · exact .inl member
      · split at member
        · rcases List.mem_append.mp member with old | last
          · exact .inl old
          · rw [List.mem_singleton.mp last]
            exact .inr rfl
        · exact .inl member

/-- A tuple from an array holds terms of the array. -/
theorem initFrom_from (elems : List (Option ErlTerm)) (remaining index : Nat) (tuple : ErlTuple) :
    ∀ part ∈ (ErlTuple.initFrom elems remaining index tuple).2.mElementVector,
      part ∈ tuple.mElementVector ∨ some part ∈ elems := by
  induction remaining generalizing index tuple with
  | zero => exact fun part member => .inl member
  | succ remaining ih =>
      intro part member
      rw [ErlTuple.initFrom] at member
      cases found : elems[index]? with
      | none =>
          rw [found] at member
          exact .inl member
      | some elem =>
          rw [found] at member
          dsimp only at member
          have first := initElement_from elem tuple
          rw [Effect.bind_run] at member
          rcases ran : ErlTuple.initElement elem tuple with ⟨outcome, after⟩
          rw [ran] at first member
          have here : ∀ part ∈ after.mElementVector,
              part ∈ tuple.mElementVector ∨ some part ∈ elems := by
            intro part member
            refine (first part member).imp_right fun same => ?_
            rw [← Option.mem_def.mp same]
            exact List.mem_of_getElem? found
          cases outcome with
          | returns value =>
              rcases ih (index + 1) after part member with old | new
              · exact here part old
              · exact .inr new
          | _ => exact here part member

theorem newTuple_consed {elems : List ErlTerm} {term : ErlTerm}
    (made : newTuple elems = .returns term) (consed : ∀ elem ∈ elems, elem.Consed) :
    term.Consed := by
  have parts := initFrom_from (elems.map some) elems.length 0 (ErlTuple.ofArity elems.length)
  have filled : (ErlTuple.initElements (elems.map some) elems.length .uninitialized).2 =
      (ErlTuple.initFrom (elems.map some) elems.length 0 (ErlTuple.ofArity elems.length)).2 := rfl
  rw [← filled] at parts
  rw [newTuple, Call.throwsOnly_eq_returns] at made
  rcases ran : ErlTuple.initElements (elems.map some) elems.length .uninitialized with
    ⟨outcome, tuple⟩
  rw [ran] at made parts
  obtain ⟨value, -, same⟩ := Outcome.bind_eq_returns.mp made
  cases same
  rw [ErlTuple.toTerm, ErlTerm.Consed, ErlTerm.every_erlTuple]
  refine ⟨rfl, fun part member => ?_⟩
  rcases parts part member with old | given
  · rw [ErlTuple.ofArity_eq] at old
    cases old
  · rw [List.mem_map] at given
    obtain ⟨elem, inside, same⟩ := given
    exact Option.some.inj same ▸ consed elem inside

end Constructors

section Lists

variable {library : CLibrary} {eformat : Formatter (Option ErlTerm)} {fuel : Nat}
  {state after : FormatState} {c : UInt8} {rest : Bytes}

/-- What `eformat` does at a byte. -/
theorem eformatNext_run (found : state.fmt.dropWhile isNullChar = c :: rest) :
    eformatNext library eformat fuel state =
      if c = leftBrace then braced eformat fuel ⟨rest, state.pap⟩
      else if c = leftBracket then bracketed eformat fuel ⟨rest, state.pap⟩
      else if c = dollar then pchar ⟨rest, state.pap⟩
      else if c = tilde then pformat ⟨rest, state.pap⟩
      else pscalar library c ⟨c :: rest, state.pap⟩ := by
  have read : peek ⟨c :: rest, state.pap⟩ = (.returns c, ⟨c :: rest, state.pap⟩) := rfl
  rw [eformatNext, Effect.bind_of_returns (skipNullChars_run found), Effect.bind_of_returns read]
  split
  · rfl
  · split
    · rfl
    · split
      · rfl
      · split <;> rfl

theorem eformatNext_end (found : state.fmt.dropWhile isNullChar = []) :
    eformatNext library eformat fuel state = (.aborts, ⟨[], state.pap⟩) := by
  rw [eformatNext, Effect.bind_run, skipNullChars_end found]

theorem made_returns {construct : List ErlTerm → Call ErlTerm} {elems : Option (List ErlTerm)}
    {term : ErlTerm} (ran : made construct elems state = (.returns (some term), after)) :
    ∃ v, elems = some v ∧ construct v = .returns term ∧ after = state := by
  cases elems with
  | none => cases ran
  | some v =>
      obtain ⟨value, middle, built, same⟩ := Effect.bind_eq_returns.mp ran
      cases same
      exact ⟨v, rfl, (Prod.mk.inj built).1, (Prod.mk.inj built).2.symm⟩

/-- A list that is made of the text behind a bracket is a cons exactly when the text is not
hollow. -/
theorem bracketed_consNode {term : ErlTerm}
    (ran : bracketed eformat fuel state = (.returns (some term), after)) :
    term.consNode = true ↔ ¬ Hollow state.fmt := by
  obtain ⟨first, middle, read, branch⟩ := Effect.bind_eq_returns.mp ran
  have start : state.fmt.head? = some first ∧ middle = state := by
    unfold peek at read
    split at read
    · rename_i found
      cases read
      rw [found]
      exact ⟨rfl, rfl⟩
    · cases read
  obtain ⟨head, rfl⟩ := start
  split at branch
  · rename_i ended
    obtain ⟨_, last, -, same⟩ := Effect.bind_eq_returns.mp branch
    cases same
    refine iff_of_true rfl fun hollow => hollow.1 ?_
    rw [head, ended]
  · rename_i openStill
    obtain ⟨elems, last, listed, built⟩ := Effect.bind_eq_returns.mp branch
    obtain ⟨v, rfl, construct, -⟩ := made_returns built
    have apart : isFiller rightBracket = false := by decide
    rw [newConsList_consNode construct, ne_eq, pelements_nil_iff apart listed, not_iff_not, Hollow]
    exact (and_iff_right (by simpa [head] using openStill)).symm

/-- A list that a call of `eformat` at a bracket returns is a cons exactly when the text behind the
bracket is not hollow. -/
theorem eformat_consNode_iff (found : state.fmt.dropWhile isNullChar = leftBracket :: rest)
    {term : ErlTerm} (ran : Parse.eformat library fuel state = (.returns (some term), after)) :
    term.consNode = true ↔ ¬ Hollow rest := by
  cases fuel with
  | zero => cases ran
  | succ fuel =>
      have brace : leftBracket ≠ leftBrace := by decide
      rw [Parse.eformat, eformatNext_run found, if_neg brace, if_pos rfl] at ran
      exact bracketed_consNode ran

end Lists

section Formats

theorem dropDigits_suffix (dotp : Bool) (fmt : Bytes) : dropDigits dotp fmt <:+ fmt := by
  induction fmt generalizing dotp with
  | nil => exact List.suffix_rfl
  | cons c rest ih =>
      rw [dropDigits]
      split
      · exact (ih dotp).trans (List.suffix_cons c rest)
      · split
        · exact (ih true).trans (List.suffix_cons c rest)
        · exact List.suffix_rfl

/-- The lists of the arguments are conses. -/
def ConsedArguments (pap : List FormatArgument) : Prop :=
  ∀ term, FormatArgument.term (some term) ∈ pap → term.Consed

def ValidArguments (pap : List FormatArgument) : Prop :=
  ∀ term, FormatArgument.term (some term) ∈ pap → term.isValid = true

end Formats

end Epi.Parse
