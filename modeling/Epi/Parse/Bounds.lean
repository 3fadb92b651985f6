import Epi.Parse.Descent

namespace Epi.Parse

open Verification Epi.Type Machine

/-- A term ends at the next byte or token, inside of the brackets that are still open. -/
inductive Completes (library : CLibrary) : List Opened → Bytes → List Opened → Prop
  | closing {inner : Opened} {outer : List Opened} {fmt rest : Bytes}
      (found : fmt.dropWhile isNullChar = inner.bracket.closing :: rest) :
      Completes library (inner :: outer) fmt outer
  | emptyList {opened : List Opened} {fmt rest : Bytes}
      (start : TermAt opened fmt leftBracket (rightBracket :: rest)) :
      Completes library opened fmt opened
  | letter {opened : List Opened} {fmt rest : Bytes} {letter : UInt8}
      (start : TermAt opened fmt dollar (letter :: rest)) : Completes library opened fmt opened
  | token {opened : List Opened} {fmt rest : Bytes} {c : UInt8} {kind : TokenKind} {token : Token}
      {term : ErlTerm} (start : TermAt opened fmt c rest) (known : tokenKind c = some kind)
      (found : kind.token c rest = some token) (fits : token.bytes.length + 1 ≤ bufsiz)
      (made : kind.term library token.bytes = .returns term) : Completes library opened fmt opened

/-- The text leads out of an array at the next byte. -/
inductive Overruns (library : CLibrary) : List Opened → Bytes → Prop
  /-- A dollar took the byte that ends the text. -/
  | behind {opened : List Opened} : Overruns library opened []
  /-- A quote is not closed. -/
  | unclosed {opened : List Opened} {fmt rest : Bytes} {closing : UInt8}
      (start : TermAt opened fmt closing rest) (quoted : closing = doubleQuote ∨ closing = quote)
      (missing : closing ∉ rest) : Overruns library opened fmt
  /-- A token does not fit into its buffer. -/
  | long {opened : List Opened} {fmt rest : Bytes} {c : UInt8} {kind : TokenKind} {token : Token}
      (start : TermAt opened fmt c rest) (known : tokenKind c = some kind)
      (found : kind.token c rest = some token) (long : bufsiz < token.bytes.length + 1) :
      Overruns library opened fmt
  /-- There is no entry for an element. -/
  | full {opened outer : List Opened} {fmt : Bytes} {inner : Opened}
      (completes : Completes library opened fmt (inner :: outer)) (full : ¬ inner.Room) :
      Overruns library opened fmt
  /-- There is no entry for the null pointer. -/
  | lost {opened : List Opened} {fmt rest : Bytes} {c : UInt8} {inner : Opened}
      (start : TermAt opened fmt c rest) (nothing : StartsNothing c) (member : inner ∈ opened)
      (full : ¬ inner.Room) : Overruns library opened fmt

section Suffixes

variable {library : CLibrary} {whole fmt rest : Bytes} {opened : List Opened} {c : UInt8}

/-- The reading stands inside of a text. -/
def Reading.Within (whole : Bytes) : Reading → Prop
  | reads _ fmt => fmt <:+ whole
  | read _ fmt => fmt <:+ whole
  | _ => True

/-- The reading stopped without a term, but not for a lack of room. -/
def Reading.Stops : Reading → Prop
  | nothing => True
  | refused _ => True
  | directive => True
  | _ => False

/-- A term that is stored is the whole term, or the reading goes on, or there is no room. -/
theorem store_cases (opened : List Opened) (term : ErlTerm) (fmt : Bytes) :
    Reading.store opened term fmt = .read term fmt ∨
      (∃ stored, Reading.store opened term fmt = .reads stored fmt) ∨
        Reading.store opened term fmt = .outside := by
  cases opened with
  | nil => exact .inl rfl
  | cons inner outer =>
      by_cases room : inner.Room
      · exact .inr (.inl ⟨_, if_pos room⟩)
      · exact .inr (.inr (if_neg room))

theorem store_not_stops {stop : Reading} {term : ErlTerm}
    (stored : stop = Reading.store opened term fmt) : ¬ stop.Stops := by
  intro stops
  subst stored
  rcases store_cases opened term fmt with same | ⟨stored, same⟩ | same
  all_goals
    rw [same] at stops
    exact stops

theorem within_store {term : ErlTerm} (inside : fmt <:+ whole) :
    (Reading.store opened term fmt).Within whole := by
  rcases store_cases opened term fmt with same | ⟨stored, same⟩ | same <;> rw [same]
  · exact inside
  · exact inside
  · trivial

theorem TokenKind.token_suffix {kind : TokenKind} {token : Token}
    (found : kind.token c rest = some token) : token.behind <:+ c :: rest := by
  have ofPrefix : ∀ behind, behind <:+ c :: rest →
      Token.ofPrefix (c :: rest) behind = some token → token.behind <:+ c :: rest := by
    intro behind suffix found
    rwa [(Token.ofPrefix_eq_some found).2]
  have ofQuoted : ∀ closing, Token.ofQuoted closing rest = some token →
      token.behind <:+ c :: rest := by
    intro closing found
    rw [(Token.ofQuoted_eq_some found).1]
    exact ⟨c :: (token.bytes ++ [closing]), by simp⟩
  cases kind with
  | atom => exact ofPrefix _ (List.dropWhile_suffix _) found
  | var => exact ofPrefix _ (List.dropWhile_suffix _) found
  | number => exact ofPrefix _ (dropDigits_suffix false _) found
  | string => exact ofQuoted _ found
  | quotedAtom => exact ofQuoted _ found

theorem within_start {after : Reading} (inside : c :: rest <:+ whole)
    (started : StartStep library opened c rest after) : after.Within whole := by
  have behind : rest <:+ whole := (List.suffix_cons c rest).trans inside
  cases started with
  | brace => exact behind
  | emptyList => exact within_store ((List.suffix_cons _ _).trans behind)
  | list => exact behind
  | letter => exact within_store ((List.suffix_cons _ _).trans behind)
  | nothing =>
      unfold Reading.lost
      split <;> trivial
  | token known found => exact within_store ((TokenKind.token_suffix found).trans inside)
  | _ => trivial

/-- A step stays inside of the text. -/
theorem within_step {state after : Reading} (inside : state.Within whole)
    (taken : Reading.step library state = some after) : after.Within whole := by
  cases state with
  | reads opened fmt =>
      have suffix := (List.dropWhile_suffix isNullChar).trans inside
      cases readStep taken with
      | ended => trivial
      | closing found =>
          rw [found] at suffix
          exact within_store ((List.suffix_cons _ _).trans suffix)
      | comma found =>
          rw [found] at suffix
          exact (List.suffix_cons _ _).trans suffix
      | start start started =>
          rw [start.1] at suffix
          exact within_start suffix started
  | _ => cases taken

theorem comes_suffix (comes : Comes (Reading.step library) (.reads [] whole)
    (.reads opened fmt)) : fmt <:+ whole := by
  have start : (Reading.reads [] whole).Within whole := List.suffix_rfl
  exact @Comes.invariant _ _ _ _ (Reading.Within whole) (fun _ _ => within_step) start comes

/-- A text without the byte of a directive has no directive. -/
theorem undirected_of_plain (plain : tilde ∉ whole) : Undirected library whole := by
  intro directive
  obtain ⟨before, comes, taken⟩ := directive.last_step (by simp)
  cases before with
  | reads opened fmt =>
      generalize same : Reading.directive = after at taken
      cases readStep taken with
      | ended => cases same
      | closing => exact store_not_stops same trivial
      | comma => cases same
      | start start started =>
          have suffix := (List.dropWhile_suffix isNullChar).trans (comes_suffix comes)
          rw [start.1] at suffix
          cases started with
          | directive => exact plain (suffix.subset List.mem_cons_self)
          | emptyList | letter | token => exact store_not_stops same trivial
          | nothing =>
              unfold Reading.lost at same
              split at same <;> cases same
          | _ => cases same
  | _ => cases taken

/-- What is left of a format string has the byte that ends it. -/
theorem zero_mem {formatStr : Bytes} (inside : fmt <:+ terminated formatStr) (some : fmt ≠ []) :
    0 ∈ fmt := by
  obtain ⟨front, split⟩ := inside
  have last := congrArg List.getLast? split
  rw [terminated, List.getLast?_append_of_ne_nil _ some, List.getLast?_append_of_ne_nil _ (by simp),
    List.getLast?_singleton] at last
  exact List.mem_of_getLast? last

end Suffixes

section Overruns

variable {library : CLibrary} {formatStr fmt rest : Bytes} {opened : List Opened} {c : UInt8}

theorem store_outside {term : ErlTerm} (outside : Reading.store opened term fmt = .outside) :
    ∃ inner outer, opened = inner :: outer ∧ ¬ inner.Room := by
  cases opened with
  | nil => cases outside
  | cons inner outer =>
      refine ⟨inner, outer, rfl, fun room => ?_⟩
      rw [Reading.store, if_pos room] at outside
      cases outside

theorem store_full {term : ErlTerm} {inner : Opened} (full : ¬ inner.Room) :
    Reading.store (inner :: opened) term fmt = .outside := if_neg full

theorem lost_outside_iff :
    Reading.lost opened = .outside ↔ ∃ inner ∈ opened, ¬ inner.Room := by
  unfold Reading.lost
  split
  · rename_i room
    refine iff_of_false (by simp) ?_
    rintro ⟨inner, member, full⟩
    exact full (room inner member)
  · rename_i full
    exact iff_of_true rfl (by simpa using full)

theorem dropDigits_nil {dotp : Bool} (none : dropDigits dotp fmt = []) : 0 ∉ fmt := by
  induction fmt generalizing dotp with
  | nil => simp
  | cons c rest ih =>
      rw [dropDigits] at none
      rw [List.mem_cons, not_or]
      split at none
      · rename_i digit
        refine ⟨?_, ih none⟩
        rintro rfl
        exact absurd digit (by decide)
      · split at none
        · rename_i dotted
          refine ⟨?_, ih none⟩
          rintro rfl
          rw [Bool.and_eq_true] at dotted
          exact absurd dotted.2 (by decide)
        · cases none

theorem dropWhile_nil {accepts : UInt8 → Bool} (apart : accepts 0 = false)
    (none : fmt.dropWhile accepts = []) : 0 ∉ fmt := by
  intro member
  have here := List.dropWhile_eq_nil_iff.mp none 0 member
  rw [apart] at here
  cases here

theorem ofPrefix_none {behind : Bytes} (none : Token.ofPrefix fmt behind = none) : behind = [] := by
  cases behind with
  | nil => rfl
  | cons d behind => cases none

theorem ofQuoted_none_iff {closing : UInt8} :
    Token.ofQuoted closing rest = none ↔ closing ∉ rest := by
  unfold Token.ofQuoted
  cases found : rest.dropWhile (· != closing) with
  | nil =>
      refine iff_of_true rfl fun member => ?_
      simpa using List.dropWhile_eq_nil_iff.mp found closing member
  | cons last behind =>
      have head := List.head?_dropWhile_not (· != closing) rest
      rw [found] at head
      have same : last = closing := by simpa using head
      have suffix := List.dropWhile_suffix (· != closing) (l := rest)
      rw [found, same] at suffix
      exact iff_of_false (by simp) fun missing => missing (suffix.subset List.mem_cons_self)

/-- The readers of words and numerals find the byte that ends the text. -/
theorem unclosed_of_unended {kind : TokenKind} (known : tokenKind c = some kind)
    (missing : kind.token c rest = none) (ended : 0 ∈ c :: rest) :
    (c = doubleQuote ∨ c = quote) ∧ c ∉ rest := by
  cases kind with
  | atom => exact absurd ended (dropWhile_nil (by decide) (ofPrefix_none missing))
  | var => exact absurd ended (dropWhile_nil (by decide) (ofPrefix_none missing))
  | number => exact absurd ended (dropDigits_nil (ofPrefix_none missing))
  | string =>
      have same : c = doubleQuote := by
        unfold tokenKind at known
        split_ifs at known <;> first | assumption | cases known
      exact ⟨.inl same, same ▸ ofQuoted_none_iff.mp missing⟩
  | quotedAtom =>
      have same : c = quote := by
        unfold tokenKind at known
        split_ifs at known <;> first | assumption | cases known
      exact ⟨.inr same, same ▸ ofQuoted_none_iff.mp missing⟩

/-- A term that ends is stored in what is still open. -/
theorem Completes.step_eq {outer : List Opened} (completes : Completes library opened fmt outer) :
    ∃ term rest, Reading.step library (.reads opened fmt) =
      some (Reading.store outer term rest) := by
  cases completes with
  | closing found => exact ⟨_, _, (ReadStep.closing found).step_eq⟩
  | emptyList start => exact ⟨_, _, (ReadStep.start start .emptyList).step_eq⟩
  | letter start => exact ⟨_, _, (ReadStep.start start .letter).step_eq⟩
  | token start known found fits made =>
      exact ⟨_, _, (ReadStep.start start (.token known found fits made)).step_eq⟩

/-- A step leaves an array exactly where the text leads out of one. -/
theorem step_outside_iff (inside : fmt <:+ terminated formatStr) :
    Reading.step library (.reads opened fmt) = some .outside ↔ Overruns library opened fmt := by
  constructor
  · intro taken
    generalize same : Reading.outside = after at taken
    cases readStep taken with
    | ended found =>
        by_cases none : fmt = []
        · exact none ▸ .behind
        · exact absurd (zero_mem inside none) (dropWhile_nil (by decide) found)
    | closing found =>
        obtain ⟨inner, outer, rfl, full⟩ := store_outside same.symm
        exact .full (.closing found) full
    | comma => cases same
    | @start _ _ rest c _ start started =>
        have suffix := (List.dropWhile_suffix isNullChar).trans inside
        rw [start.1] at suffix
        have ended : 0 ∈ c :: rest := zero_mem suffix (List.cons_ne_nil c rest)
        cases started with
        | brace => cases same
        | unlisted => exact absurd ended (by decide)
        | emptyList =>
            obtain ⟨inner, outer, rfl, full⟩ := store_outside same.symm
            exact .full (.emptyList start) full
        | list => cases same
        | letterless => exact absurd ended (by decide)
        | letter =>
            obtain ⟨inner, outer, rfl, full⟩ := store_outside same.symm
            exact .full (.letter start) full
        | directive => cases same
        | nothing nothing =>
            obtain ⟨inner, member, full⟩ := lost_outside_iff.mp same.symm
            exact .lost start nothing member full
        | unended known missing =>
            obtain ⟨quoted, open'⟩ := unclosed_of_unended known missing ended
            exact .unclosed start quoted open'
        | long known found long => exact .long start known found long
        | token known found fits made =>
            obtain ⟨inner, outer, rfl, full⟩ := store_outside same.symm
            exact .full (.token start known found fits made) full
        | refused => cases same
  · intro overruns
    cases overruns with
    | behind => rfl
    | unclosed start quoted missing =>
        rcases quoted with rfl | rfl
        · have none : TokenKind.string.token doubleQuote _ = none := ofQuoted_none_iff.mpr missing
          exact (ReadStep.start start (.unended rfl none)).step_eq
        · have none : TokenKind.quotedAtom.token quote _ = none := ofQuoted_none_iff.mpr missing
          exact (ReadStep.start start (.unended rfl none)).step_eq
    | long start known found long =>
        exact (ReadStep.start start (.long known found long)).step_eq
    | full completes full =>
        obtain ⟨term, rest, taken⟩ := completes.step_eq
        rw [taken, store_full full]
    | lost start nothing member full =>
        have read : ReadStep library opened fmt _ := .start start (.nothing nothing)
        rw [lost_outside_iff.mpr ⟨_, member, full⟩] at read
        exact read.step_eq

/-- `eformat` stays inside of the format string, of the arrays of elements and of the buffers for
tokens exactly if no place that the reading of the text comes to leads out of them. -/
theorem stays_inside_iff {fuel : Nat} (arguments : List FormatArgument)
    (enough : (terminated formatStr).length < fuel)
    (undirected : Undirected library (terminated formatStr)) :
    (eformat library fuel ⟨terminated formatStr, arguments⟩).1 ≠ .aborts ↔
      ∀ opened fmt, Comes (Reading.step library) (.reads [] (terminated formatStr))
        (.reads opened fmt) → ¬ Overruns library opened fmt := by
  rw [ne_eq, eformat_aborts_iff arguments enough undirected]
  constructor
  · intro stays opened fmt comes overruns
    exact stays (comes.trans (Comes.one ((step_outside_iff (comes_suffix comes)).mpr overruns)))
  · intro inside outside
    obtain ⟨before, comes, taken⟩ := outside.last_step (by simp)
    cases before with
    | reads opened fmt =>
        exact inside opened fmt comes ((step_outside_iff (comes_suffix comes)).mp taken)
    | _ => cases taken

theorem stays_inside_iff_mixedText :
    (eformat wholeNumbers 40 ⟨terminated mixedText, []⟩).1 ≠ .aborts ↔
      ∀ opened fmt, Comes (Reading.step wholeNumbers) (.reads [] (terminated mixedText))
        (.reads opened fmt) → ¬ Overruns wholeNumbers opened fmt :=
  stays_inside_iff [] (by decide) (undirected_of_plain (by decide))

/-- The reader of a quoted atom looks for its end behind the text. -/
theorem unclosed_quote_aborts :
    ¬ ∀ (library : CLibrary) (fuel : Nat) (formatStr : Bytes) (arguments : List FormatArgument),
      (terminated formatStr).length < fuel → tilde ∉ formatStr →
        (eformat library fuel ⟨terminated formatStr, arguments⟩).1 ≠ .aborts := by
  intro inside
  exact inside wholeNumbers 4 (text "'a") [] (by decide) (by decide) rfl

end Overruns

end Epi.Parse
