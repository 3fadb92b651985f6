import Epi.Parse.Bounds
import Epi.Parse.Recognition

namespace Epi.Parse

open Verification Epi.Type Machine

/-- A text is accepted as the term that it denotes, or it is rejected with `EpiParseError`. -/
def WellRead (formatStr : Bytes) : Call ErlTerm → Prop
  | .returns term => Denotes .unbounded (cString formatStr) term
  | .throws error => error.thrownClass = .epiParseError
  | .aborts | .diverges => False

/-- The text has a byte that starts no term where a term is to start, and there is room for the
null pointer. -/
def Stuck (opened : List Opened) (fmt : Bytes) : Prop :=
  ∃ c rest, TermAt opened fmt c rest ∧ StartsNothing c ∧ ∀ inner ∈ opened, inner.Room

section Acceptance

variable {library : CLibrary} {formatStr fmt : Bytes} {opened : List Opened} {term : ErlTerm}
  {fuel : Nat}

theorem step_nothing_iff :
    Reading.step library (.reads opened fmt) = some .nothing ↔ Stuck opened fmt := by
  constructor
  · intro taken
    generalize same : Reading.nothing = after at taken
    cases readStep taken with
    | ended => cases same
    | closing => exact (store_not_stops same trivial).elim
    | comma => cases same
    | start start started =>
        cases started with
        | emptyList | letter | token => exact (store_not_stops same trivial).elim
        | nothing nothing =>
            refine ⟨_, _, start, nothing, ?_⟩
            unfold Reading.lost at same
            split at same
            · assumption
            · cases same
        | _ => cases same
  · rintro ⟨c, rest, start, nothing, room⟩
    have read : ReadStep library opened fmt _ := .start start (.nothing nothing)
    rw [Reading.lost, if_pos room] at read
    exact read.step_eq

/-- The reading of a text comes to the end of a step exactly where such a step is taken. -/
theorem comes_nothing_iff {whole : Bytes} :
    Comes (Reading.step library) (.reads [] whole) .nothing ↔
      ∃ opened fmt, Comes (Reading.step library) (.reads [] whole) (.reads opened fmt) ∧
        Stuck opened fmt := by
  constructor
  · intro nothing
    obtain ⟨before, comes, taken⟩ := nothing.last_step (by simp)
    cases before with
    | reads opened fmt => exact ⟨opened, fmt, comes, step_nothing_iff.mp taken⟩
    | _ => cases taken
  · rintro ⟨opened, fmt, comes, stuck⟩
    exact comes.trans (Comes.one (step_nothing_iff.mpr stuck))

/-- Only the constructor of an atom throws. -/
theorem refused_class {error : EpiException} {whole : Bytes}
    (refused : Comes (Reading.step library) (.reads [] whole) (.refused error)) :
    error.thrownClass = .epiBadArgument := by
  have atom : ∀ {bytes : Bytes} {thrown : EpiException}, newAtom bytes = .throws thrown →
      thrown.thrownClass = .epiBadArgument := by
    intro bytes thrown made
    unfold newAtom AtomText.init at made
    split at made
    · cases made
      rfl
    · split at made <;> cases made
      rfl
  obtain ⟨before, comes, taken⟩ := refused.last_step (by simp)
  cases before with
  | reads opened fmt =>
      generalize same : Reading.refused error = after at taken
      cases readStep taken with
      | ended => cases same
      | closing => exact (store_not_stops same trivial).elim
      | comma => cases same
      | start start started =>
          cases started with
          | emptyList | letter | token => exact (store_not_stops same trivial).elim
          | nothing =>
              unfold Reading.lost at same
              split at same <;> cases same
          | @refused _ _ kind _ _ known found fits made =>
              cases same
              cases kind with
              | atom | quotedAtom => exact atom made
              | _ => cases made
          | _ => cases same
  | _ => cases taken

theorem Denotes.comes (denotes : Denotes (.ofFormat library) (cString formatStr) term) :
    ∃ rest, Comes (Reading.step library) (.reads [] (terminated formatStr)) (.read term rest) := by
  obtain ⟨piece, same, ⟨before, after⟩, rfl, spelled⟩ := denotes
  rw [terminated, same]
  exact ⟨_, spelled.reads.padded [] before after (by decide) []⟩

/-- A text of the grammar that is read as its term is within what `format` shares with it. -/
theorem Denotes.shared (rounds : library.RoundsNumerals)
    (denotes : Denotes .unbounded (cString formatStr) term) {rest : Bytes}
    (comes : Comes (Reading.step library) (.reads [] (terminated formatStr)) (.read term rest)) :
    Denotes .shared (cString formatStr) term := by
  obtain ⟨piece, same, ⟨before, after⟩, rfl, spelled⟩ := denotes
  rw [terminated, same] at comes
  rcases spelled.shared_or_astray rounds with shared | astray
  · exact ⟨piece, same, ⟨before, after⟩, rfl, shared⟩
  · exact absurd rfl (astray.padded before after (by decide) comes)

theorem format_returns_iff (arguments : List FormatArgument)
    (enough : (terminated formatStr).length < fuel)
    (undirected : Undirected library (terminated formatStr)) :
    format library fuel formatStr arguments = .returns term ↔
      ∃ rest, Comes (Reading.step library) (.reads [] (terminated formatStr))
        (.read term rest) := by
  have read : format library fuel formatStr arguments = .returns term ↔
      ∃ after, eformat library fuel ⟨terminated formatStr, arguments⟩ =
        (.returns (some term), after) := by
    rw [format, Call.throwsOnly_eq_returns]
    rcases eformat library fuel ⟨terminated formatStr, arguments⟩ with
      ⟨(_ | other) | error | - | -, after⟩ <;> simp
  rw [read]
  constructor
  · rintro ⟨after, ran⟩
    exact ⟨after.fmt, (eformat_some_iff arguments enough undirected).mp ⟨after, ran, rfl⟩⟩
  · rintro ⟨rest, comes⟩
    obtain ⟨after, ran, -⟩ := (eformat_some_iff arguments enough undirected).mpr comes
    exact ⟨after, ran⟩

/-- The null pointer is the only result that throws. Another exception ends the process. -/
theorem format_throws_iff {error : EpiException} (arguments : List FormatArgument)
    (enough : (terminated formatStr).length < fuel)
    (undirected : Undirected library (terminated formatStr)) :
    format library fuel formatStr arguments = .throws error ↔
      error = parseError ∧
        Comes (Reading.step library) (.reads [] (terminated formatStr)) .nothing := by
  rw [← eformat_none_iff arguments enough undirected, format]
  rcases ran : eformat library fuel ⟨terminated formatStr, arguments⟩ with
    ⟨(_ | other) | thrown | - | -, after⟩
  · have null : Call.throwsOnly [.epiParseError]
        (.throws parseError : Call ErlTerm) = .throws parseError := rfl
    refine Iff.trans ?_ (and_iff_left rfl).symm
    rw [Outcome.returns_bind, null, Outcome.throws.injEq, eq_comm]
  · exact iff_of_false (by simp) (by simp)
  · have refused := refused_class ((eformat_throws_iff arguments enough undirected).mp
      (congrArg Prod.fst ran))
    refine iff_of_false (fun left => ?_) (by simp)
    obtain ⟨same, listed⟩ := Call.throwsOnly_eq_throws.mp left
    cases same
    rw [refused] at listed
    exact absurd listed (by decide)
  · exact iff_of_false (by simp) (by simp)
  · exact iff_of_false (by simp) (by simp)

/-- A text is accepted as what it denotes, or rejected with `EpiParseError`, exactly if it denotes
a term within what `format` shares with the grammar, or the reading of it comes to a byte that starts
no term. -/
theorem wellRead_iff (rounds : library.RoundsNumerals) (arguments : List FormatArgument)
    (enough : (terminated formatStr).length < fuel)
    (undirected : Undirected library (terminated formatStr)) :
    WellRead formatStr (format library fuel formatStr arguments) ↔
      (∃ term, Denotes .shared (cString formatStr) term) ∨
        ∃ opened fmt, Comes (Reading.step library) (.reads [] (terminated formatStr))
          (.reads opened fmt) ∧ Stuck opened fmt := by
  rw [← comes_nothing_iff]
  constructor
  · intro good
    cases ran : format library fuel formatStr arguments with
    | returns term =>
        rw [ran] at good
        obtain ⟨rest, comes⟩ := (format_returns_iff arguments enough undirected).mp ran
        exact .inl ⟨term, Denotes.shared rounds good comes⟩
    | throws error =>
        exact .inr ((format_throws_iff arguments enough undirected).mp ran).2
    | aborts =>
        rw [ran] at good
        exact good.elim
    | diverges =>
        rw [ran] at good
        exact good.elim
  · rintro (⟨term, denotes⟩ | nothing)
    · have read := (denotes.widen (Limits.shared_within_ofFormat rounds)).comes
      rw [(format_returns_iff arguments enough undirected).mpr read]
      exact denotes.widen Limits.shared_within_unbounded
    · rw [(format_throws_iff arguments enough undirected).mpr ⟨rfl, nothing⟩]
      rfl

theorem wellRead_iff_mixedText :
    WellRead mixedText (format wholeNumbers 40 mixedText []) ↔
      (∃ term, Denotes .shared (cString mixedText) term) ∨
        ∃ opened fmt, Comes (Reading.step wholeNumbers) (.reads [] (terminated mixedText))
          (.reads opened fmt) ∧ Stuck opened fmt :=
  wellRead_iff rounds_wholeNumbers [] (by decide) (undirected_of_plain (by decide))

/-- A text behind the term is not looked at. -/
theorem trailing_text_accepted :
    ¬ ∀ (library : CLibrary) (fuel : Nat) (formatStr : Bytes) (arguments : List FormatArgument),
      library.RoundsNumerals → (terminated formatStr).length < fuel → tilde ∉ formatStr →
        WellRead formatStr (format library fuel formatStr arguments) := by
  intro good
  have denotes : Denotes .unbounded (cString (text "a b"))
      (.simple (.erlAtom (some ⟨text "a", by decide, by decide⟩))) :=
    good wholeNumbers 5 (text "a b") [] rounds_wholeNumbers (by decide) (by decide)
  obtain ⟨⟨before, core, after, term⟩, whole, ⟨front, behind⟩, rfl, spelled⟩ := denotes
  have blank : ∀ {gap : Bytes}, Blank gap → 98 ∉ gap :=
    fun gap member => absurd (gap 98 member) (by decide)
  have letter : 98 ∈ cString (text "a b") := by decide
  rw [whole, Piece.text, List.mem_append, List.mem_append] at letter
  rcases letter with (inFront | inCore) | inBack
  · exact blank front inFront
  · rcases spelled.atom_core with same | same
    · rw [same] at inCore
      exact absurd inCore (by decide)
    · rw [same] at inCore
      exact absurd inCore (by decide)
  · exact blank behind inBack

end Acceptance

end Epi.Parse
