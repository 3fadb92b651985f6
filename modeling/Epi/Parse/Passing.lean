import Epi.Parse.Descent

namespace Epi.Parse

open Verification Epi.Type Machine

namespace Reading

/-- The term that stands for an argument where only the text is read. -/
def argument : ErlTerm := .simple .erlEmptyList

/-- The reading goes on behind a directive, which is one letter behind the blanks. -/
def directed (opened : List Opened) (rest : Bytes) : Reading :=
  match rest.dropWhile isNullChar with
  | [] => .outside
  | _ :: behind => store opened argument behind

/-- A step of the reading that passes a directive as one term. -/
def pass (library : CLibrary) : Machine Reading
  | .reads opened fmt =>
      match step library (.reads opened fmt) with
      | some .directive => some (directed opened (fmt.dropWhile isNullChar).tail)
      | taken => taken
  | _ => none

/-- The reading ended without a term. -/
def Stopped : Reading → Prop
  | reads _ _ | read _ _ => False
  | _ => True

end Reading

/-- What a step makes of the open brackets. -/
inductive PassStep : List Opened → Bytes → Reading → Prop
  | comma {inner : Opened} {outer : List Opened} {fmt rest : Bytes}
      (found : fmt.dropWhile isNullChar = comma :: rest) :
      PassStep (inner :: outer) fmt (.reads (inner :: outer) rest)
  | opens {opened : List Opened} {fmt rest : Bytes} {bracket : Bracket}
      (found : fmt.dropWhile isNullChar = bracket.opening :: rest)
      (other : bracket = .list → rest.head? ≠ some rightBracket) :
      PassStep opened fmt (.reads (⟨bracket, []⟩ :: opened) rest)
  | closes {inner : Opened} {outer : List Opened} {fmt rest : Bytes}
      (found : fmt.dropWhile isNullChar = inner.bracket.closing :: rest) :
      PassStep (inner :: outer) fmt (Reading.store outer (inner.bracket.term inner.elems) rest)
  | stores {opened : List Opened} {fmt behind : Bytes} {term : ErlTerm} (consed : term.Consed) :
      PassStep opened fmt (Reading.store opened term behind)
  | stops {opened : List Opened} {fmt : Bytes} {after : Reading} (stopped : after.Stopped) :
      PassStep opened fmt after

/-- The term is the next element of the open brackets in what is read at last. -/
def Holds : List Opened → ErlTerm → ErlTerm → Prop
  | [], term, whole => term = whole
  | inner :: outer, term, whole =>
      ∃ more, Holds outer (inner.bracket.term (inner.elems ++ term :: more)) whole

/-- The open brackets become a part of what is read at last, with their elements. -/
def Grows : List Opened → ErlTerm → Prop
  | [], _ => True
  | inner :: outer, whole => ∃ more, Holds outer (inner.bracket.term (inner.elems ++ more)) whole

/-- What is read at last has what was read so far. -/
def Reading.GrowsInto (whole : ErlTerm) : Reading → Prop
  | reads opened _ => Grows opened whole
  | read term _ => term = whole
  | _ => False

section Steps

variable {library : CLibrary} {opened : List Opened} {c : UInt8} {fmt rest : Bytes}
  {after : Reading}

/-- A token has no list. -/
theorem TokenKind.term_consed {kind : TokenKind} {bytes : Bytes} {term : ErlTerm}
    (made : kind.term library bytes = .returns term) : term.Consed := by
  cases kind with
  | atom | quotedAtom =>
      obtain ⟨mAtom, -, rfl⟩ := newAtom_returns made
      rfl
  | number =>
      cases made
      split <;> rfl
  | var | string =>
      cases made
      rfl

theorem stopped_lost (opened : List Opened) : (Reading.lost opened).Stopped := by
  unfold Reading.lost
  split <;> trivial

/-- Where a term is to start, the step opens a bracket, stores a term or stops. -/
theorem passStep_start (found : fmt.dropWhile isNullChar = c :: rest)
    (started : StartStep library opened c rest after) : PassStep opened fmt after := by
  cases started with
  | brace => exact @PassStep.opens opened fmt _ .tuple found (fun same => by cases same)
  | list other =>
      refine @PassStep.opens opened fmt _ .list found fun _ head => other ?_
      exact Option.some.inj head
  | emptyList | letter => exact .stores rfl
  | token _ _ _ made => exact .stores (TokenKind.term_consed made)
  | nothing => exact .stops (stopped_lost opened)
  | _ => exact .stops trivial

theorem store_ne_directive {term : ErlTerm} : Reading.store opened term rest ≠ .directive := by
  unfold Reading.store
  split
  · exact fun same => by cases same
  · split <;> exact fun same => by cases same

/-- The cases of a step that passes directives. -/
theorem passStep (taken : Reading.pass library (.reads opened fmt) = some after) :
    PassStep opened fmt after := by
  unfold Reading.pass at taken
  dsimp only at taken
  split at taken
  · cases taken
    unfold Reading.directed
    split
    · exact .stops trivial
    · exact .stores rfl
  · cases readStep taken with
    | ended => exact .stops trivial
    | closing found => exact .closes found
    | comma found => exact .comma found
    | start start started => exact passStep_start start.1 started

theorem pass_eq_step (taken : Reading.step library (.reads opened fmt) = some after)
    (other : after ≠ .directive) : Reading.pass library (.reads opened fmt) = some after := by
  unfold Reading.pass
  dsimp only
  split
  · rename_i directive
    rw [directive] at taken
    exact absurd (Option.some.inj taken).symm other
  · exact taken

/-- A directive that is passed is stored as one term. -/
theorem pass_directive (start : TermAt opened fmt tilde rest) :
    Reading.pass library (.reads opened fmt) = some (Reading.directed opened rest) := by
  have taken : Reading.step library (.reads opened fmt) = some .directive :=
    (ReadStep.start start .directive).step_eq
  unfold Reading.pass
  dsimp only
  rw [taken, start.1]
  rfl

/-- A reading that ends with a term passes no directive. -/
theorem comes_pass {state : Reading} {term : ErlTerm}
    (comes : Comes (Reading.step library) state (.read term rest)) :
    Comes (Reading.pass library) state (.read term rest) := by
  induction comes using Relation.ReflTransGen.head_induction_on with
  | refl => exact Comes.refl
  | @head state after taken later ih =>
      have other : after ≠ .directive := by
        rintro rfl
        rcases Relation.ReflTransGen.cases_head later with same | ⟨_, next, -⟩
        · cases same
        · cases next
      cases state with
      | reads opened fmt => exact (Comes.one (pass_eq_step taken other)).trans ih
      | _ => cases taken

end Steps

section Growing

variable {library : CLibrary} {opened : List Opened} {fmt rest : Bytes}
  {term first second whole : ErlTerm}

theorem Holds.grows (holds : Holds opened term whole) : Grows opened whole := by
  cases opened with
  | nil => trivial
  | cons inner outer =>
      obtain ⟨more, holds⟩ := holds
      exact ⟨term :: more, holds⟩

/-- What is read at last has one term at a place. -/
theorem Holds.unique (left : Holds opened first whole) (right : Holds opened second whole) :
    first = second := by
  induction opened generalizing first second with
  | nil => exact Eq.trans left (Eq.symm right)
  | cons inner outer ih =>
      obtain ⟨more, left⟩ := left
      obtain ⟨others, right⟩ := right
      have same := List.append_cancel_left (inner.bracket.term_injective (ih left right))
      exact (List.cons.inj same).1

theorem holds_of_store (grows : (Reading.store opened term fmt).GrowsInto whole) :
    Holds opened term whole := by
  cases opened with
  | nil => exact grows
  | cons inner outer =>
      unfold Reading.store at grows
      dsimp only at grows
      split at grows
      · obtain ⟨more, holds⟩ := grows
        rw [List.append_assoc] at holds
        exact ⟨more, holds⟩
      · exact grows.elim

/-- No step takes back what was stored. -/
theorem growsInto_pass {state after : Reading} (taken : Reading.pass library state = some after)
    (grows : after.GrowsInto whole) : state.GrowsInto whole := by
  cases state with
  | reads opened fmt =>
      cases passStep taken with
      | comma => exact grows
      | opens =>
          obtain ⟨more, holds⟩ := grows
          exact holds.grows
      | @closes inner outer =>
          refine ⟨[], ?_⟩
          rw [List.append_nil]
          exact holds_of_store grows
      | stores => exact (holds_of_store grows).grows
      | stops stopped => cases after <;> first | exact stopped.elim | exact grows.elim
  | _ => cases taken

/-- What was stored stays in the term that is read at last. -/
theorem comes_growsInto {state : Reading}
    (comes : Comes (Reading.pass library) state (.read whole rest)) : state.GrowsInto whole := by
  induction comes using Relation.ReflTransGen.head_induction_on with
  | refl => rfl
  | head taken _ ih => exact growsInto_pass taken ih

/-- A term that is stored stays where it is stored. -/
theorem holds_of_comes
    (comes : Comes (Reading.pass library) (Reading.store opened term fmt) (.read whole rest)) :
    Holds opened term whole :=
  holds_of_store (comes_growsInto comes)

end Growing

end Epi.Parse
