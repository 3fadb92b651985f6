import Epi.Library.Items
import Epi.Parse.Printing

namespace Epi.Parse

open Verification Epi.Type

/-- Blanks of a text. -/
structure Gap where
  bytes : Bytes
  blank : Blank bytes

def Gap.nothing : Gap := ⟨[], List.forall_mem_nil _⟩

def Gap.oneSpace : Gap := ⟨[space], List.forall_mem_singleton.mpr rfl⟩

/-- A token with its text, which has no byte that ends a string. -/
structure Lexeme where
  kind : TokenKind
  first : UInt8
  more : Bytes
  bytes : Bytes
  splits : Splits kind first more bytes
  clean : 0 ∉ first :: more

/-- The letter of a directive, known or not. -/
structure DirectiveLetter where
  byte : UInt8
  solid : isNullChar byte = false
  clean : byte ≠ 0

def DirectiveLetter.forTerm : DirectiveLetter := ⟨ascii 'w', by decide, by decide⟩

def DirectiveLetter.forInt : DirectiveLetter := ⟨ascii 'i', by decide, by decide⟩

mutual

/-- A format string taken apart. -/
inductive Template where
  | lexeme (lexeme : Lexeme)
  | letter (c : UInt8) (clean : c ≠ 0)
  | directive (gap : Gap) (letter : DirectiveLetter)
  | hollow (bracket : Bracket) (gap : Gap)
  | elements (bracket : Bracket) (slots : Slots)

/-- The elements between two brackets, each with the blanks around it. -/
inductive Slots where
  | last (before : Gap) (element : Template) (after : Gap)
  | cons (before : Gap) (element : Template) (after : Gap) (slots : Slots)

end

mutual

def Template.text : Template → Bytes
  | .lexeme lexeme => lexeme.first :: lexeme.more
  | .letter c _ => [dollar, c]
  | .directive gap letter => tilde :: (gap.bytes ++ [letter.byte])
  | .hollow bracket gap => bracket.opening :: (gap.bytes ++ [bracket.closing])
  | .elements bracket slots => bracket.opening :: (slots.text ++ [bracket.closing])

def Slots.text : Slots → Bytes
  | .last before element after => before.bytes ++ element.text ++ after.bytes
  | .cons before element after slots =>
      before.bytes ++ element.text ++ after.bytes ++ comma :: slots.text

end

mutual

/-- The letters of the directives from the left to the right. -/
def Template.letters : Template → List UInt8
  | .directive _ letter => [letter.byte]
  | .elements _ slots => slots.letters
  | .lexeme _ | .letter _ _ | .hollow _ _ => []

def Slots.letters : Slots → List UInt8
  | .last _ element _ => element.letters
  | .cons _ element _ slots => element.letters ++ slots.letters

end

inductive Directive where
  | term
  | atom
  | string
  | int
  | double
  deriving DecidableEq, Repr

def Directive.ofLetter (c : UInt8) : Option Directive :=
  if c = ascii 'w' then some .term
  else if c = ascii 'a' then some .atom
  else if c = ascii 's' then some .string
  else if c = ascii 'i' then some .int
  else if c = ascii 'f' then some .double
  else none

/-- The term that a directive makes of its argument. -/
def Directive.convert : Directive → FormatArgument → Call (Option ErlTerm)
  | .term, .term value => .returns value
  | .atom, .string value => do
      let atom ← newAtom value
      return some atom
  | .string, .string value => .returns (some (newString value))
  | .int, .int value => .returns (some (newLong (value.signExtend 64)))
  | .double, .double value => .returns (some (newDouble value))
  | _, _ => .aborts

/-- The directive of a letter makes a term of the argument. -/
def Accepts (letter : UInt8) (argument : FormatArgument) : Prop :=
  ∃ directive term, Directive.ofLetter letter = some directive ∧
    directive.convert argument = .returns (some term)

/-- A call that takes its arguments from the left. -/
abbrev Filler (Value : Type) := Method (List FormatArgument) Value

/-- An unknown letter takes no argument. -/
def fillDirective (letter : UInt8) : Filler (Option ErlTerm) :=
  match Directive.ofLetter letter with
  | some directive => do
      let argument ← Effect.item
      Effect.lift (directive.convert argument)
  | none => pure none

def Lexeme.term (library : CLibrary) (lexeme : Lexeme) : Call ErlTerm :=
  if lexeme.bytes.length + 1 ≤ bufsiz then lexeme.kind.term library lexeme.bytes else .aborts

/-- The constructor of a term from the elements in a bracket. -/
def Bracket.construct : Bracket → List ErlTerm → Call ErlTerm
  | tuple => newTuple
  | list => newConsList

/-- The term of a bracket without elements. -/
def Bracket.hollow (bracket : Bracket) (gap : Gap) : ErlTerm :=
  match bracket, gap.bytes with
  | .list, [] => .simple .erlEmptyList
  | bracket, _ => bracket.term []

/-- A term is stored behind the elements before it, if the array has an entry for it. -/
def stored (v : List ErlTerm) (next : List ErlTerm → Filler (Option (List ErlTerm)))
    (term : Option ErlTerm) : Filler (Option (List ErlTerm)) :=
  if maxEntries ≤ v.length then
    Effect.lift .aborts
  else
    match term with
    | some term => next (v ++ [term])
    | none => pure none

mutual

/-- The term that a template makes of arguments, directive by directive. The null pointer is an
absent term. -/
def Template.fill (library : CLibrary) : Template → Filler (Option ErlTerm)
  | .lexeme lexeme => Effect.lift do
      let term ← lexeme.term library
      return some term
  | .letter c _ => pure (some (newLong (c.toBitVec.signExtend 64)))
  | .directive _ letter => fillDirective letter.byte
  | .hollow bracket gap => pure (some (bracket.hollow gap))
  | .elements bracket slots => do
      let elems ← slots.fill library []
      match elems with
      | some elems => Effect.lift do
          let term ← bracket.construct elems
          return some term
      | none => pure none

def Slots.fill (library : CLibrary) : Slots → List ErlTerm → Filler (Option (List ErlTerm))
  | .last _ element _, v => element.fill library >>= stored v fun elems => pure (some elems)
  | .cons _ element _ slots, v =>
      element.fill library >>= stored v fun elems => slots.fill library elems

end

/-- What `format` makes of a template. -/
def Template.make (library : CLibrary) (template : Template) (arguments : List FormatArgument) :
    Call ErlTerm :=
  Call.throwsOnly [.epiParseError] do
    let res ← (template.fill library arguments).1
    res.elim (.throws parseError) .returns

section Texts

variable {bracket : Bracket}

/-- A term does not start with a delimiter. -/
theorem Template.head (template : Template) :
    ∃ c more, template.text = c :: more ∧ c ∉ delimiters := by
  cases template with
  | lexeme lexeme => exact ⟨_, _, by rw [Template.text], lexeme.splits.starter⟩
  | letter c clean => exact ⟨_, _, by rw [Template.text], by decide⟩
  | directive gap letter => exact ⟨_, _, by rw [Template.text], by decide⟩
  | hollow bracket gap => exact ⟨_, _, by rw [Template.text], by cases bracket <;> decide⟩
  | elements bracket slots => exact ⟨_, _, by rw [Template.text], by cases bracket <;> decide⟩

theorem Template.text_pos (template : Template) : 0 < template.text.length := by
  obtain ⟨c, more, same, -⟩ := template.head
  rw [same]
  exact Nat.succ_pos _

theorem Gap.head (gap : Gap) {rest : Bytes} (starts : ∃ c more, rest = c :: more ∧ c ≠ rightBracket) :
    ∃ c more, gap.bytes ++ rest = c :: more ∧ c ≠ rightBracket := by
  cases found : gap.bytes with
  | nil => exact starts
  | cons e bytes =>
      refine ⟨e, bytes ++ rest, rfl, ?_⟩
      rintro rfl
      exact absurd (gap.blank rightBracket (found ▸ List.mem_cons_self)) (by decide)

/-- The elements of a list do not start with the byte that closes it. -/
theorem Slots.head (slots : Slots) (rest : Bytes) :
    ∃ c more, slots.text ++ rest = c :: more ∧ c ≠ rightBracket := by
  have start : ∀ (before : Gap) (element : Template) (behind : Bytes),
      ∃ c more, before.bytes ++ (element.text ++ behind) = c :: more ∧ c ≠ rightBracket := by
    intro before element behind
    obtain ⟨c, more, same, starter⟩ := element.head
    refine before.head ⟨c, more ++ behind, by rw [same]; rfl, ?_⟩
    rintro rfl
    exact starter (by decide)
  cases slots with
  | last before element after =>
      rw [Slots.text, List.append_assoc, List.append_assoc]
      exact start before element (after.bytes ++ rest)
  | cons before element after slots =>
      rw [Slots.text, List.append_assoc, List.append_assoc, List.append_assoc]
      exact start before element (after.bytes ++ (comma :: slots.text ++ rest))

theorem clean_gap (gap : Gap) : 0 ∉ gap.bytes := gap.blank.clean

mutual

/-- The byte that ends a string stands in no template. -/
theorem Template.clean : ∀ template : Template, 0 ∉ template.text
  | .lexeme lexeme => by
      rw [Template.text]
      exact lexeme.clean
  | .letter c clean => by
      have other : (0 : UInt8) ≠ dollar := by decide
      simp [Template.text, other, clean.symm]
  | .directive gap letter => by
      have other : (0 : UInt8) ≠ tilde := by decide
      simp [Template.text, other, clean_gap gap, letter.clean.symm]
  | .hollow bracket gap => by
      have brackets : (0 : UInt8) ≠ bracket.opening ∧ (0 : UInt8) ≠ bracket.closing := by
        cases bracket <;> decide
      simp [Template.text, brackets, clean_gap gap]
  | .elements bracket slots => by
      have brackets : (0 : UInt8) ≠ bracket.opening ∧ (0 : UInt8) ≠ bracket.closing := by
        cases bracket <;> decide
      simp [Template.text, brackets, slots.clean]

theorem Slots.clean : ∀ slots : Slots, 0 ∉ slots.text
  | .last before element after => by
      simp [Slots.text, clean_gap before, element.clean, clean_gap after]
  | .cons before element after slots => by
      have other : (0 : UInt8) ≠ comma := by decide
      simp [Slots.text, clean_gap before, element.clean, clean_gap after, other, slots.clean]

end

end Texts

/-- A call on a text comes to what a filler comes to. If it finds a value, it stops before the text
behind, with the arguments that are left. -/
structure Fills {Value : Type} (behind : Bytes)
    (result : Outcome EpiException (Option Value) × FormatState)
    (filled : Outcome EpiException (Option Value) × List FormatArgument) : Prop where
  outcome : result.1 = filled.1
  found : ∀ value, filled.1 = .returns (some value) → result.2 = ⟨behind, filled.2⟩

section Fills

variable {Value Next : Type} {behind middle : Bytes} {state : FormatState}
  {arguments : List FormatArgument}

theorem fills_here (outcome : Outcome EpiException (Option Value)) (rest : List FormatArgument) :
    Fills behind (outcome, ⟨behind, rest⟩) (outcome, rest) :=
  ⟨rfl, fun _ _ => rfl⟩

theorem fills_lost (after : FormatState) (rest : List FormatArgument) :
    Fills behind ((.returns none, after) : Outcome EpiException (Option Value) × FormatState)
      (.returns none, rest) :=
  ⟨rfl, fun _ same => by cases same⟩

theorem fills_aborts (after : FormatState) (rest : List FormatArgument) :
    Fills behind ((.aborts, after) : Outcome EpiException (Option Value) × FormatState)
      (.aborts, rest) :=
  ⟨rfl, fun _ same => by cases same⟩

theorem Fills.bind {call : Formatter (Option Value)} {filler : Filler (Option Value)}
    {next : Option Value → Formatter (Option Next)}
    {nextFiller : Option Value → Filler (Option Next)}
    (fills : Fills middle (call state) (filler arguments))
    (lost : ∀ after rest, Fills behind (next none after) (nextFiller none rest))
    (later : ∀ value rest,
      Fills behind (next (some value) ⟨middle, rest⟩) (nextFiller (some value) rest)) :
    Fills behind ((call >>= next) state) ((filler >>= nextFiller) arguments) := by
  obtain ⟨same, found⟩ := fills
  rw [Effect.bind_run, Effect.bind_run]
  rcases ran : call state with ⟨outcome, after⟩
  rcases filled : filler arguments with ⟨other, rest⟩
  rw [ran, filled] at same found
  obtain rfl : outcome = other := same
  cases outcome with
  | returns value =>
      cases value with
      | none => exact lost after rest
      | some value =>
          obtain rfl : after = ⟨middle, rest⟩ := found value rfl
          exact later value rest
  | _ => exact ⟨rfl, fun _ same => by cases same⟩

end Fills

end Epi.Parse
