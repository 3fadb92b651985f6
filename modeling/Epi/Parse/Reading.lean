import Epi.Library.Machine
import Epi.Parse.Conses

namespace Epi.Parse

open Verification Epi.Type

/-- The brackets around elements. -/
inductive Bracket where
  | tuple
  | list
  deriving DecidableEq, Repr

namespace Bracket

def opening : Bracket → UInt8
  | tuple => leftBrace
  | list => leftBracket

def closing : Bracket → UInt8
  | tuple => rightBrace
  | list => rightBracket

/-- The term that the elements make. -/
def term : Bracket → List ErlTerm → ErlTerm
  | tuple, elems => .erlTuple true (some elems.length) elems
  | list, elems => .erlConsList true (elems ++ [.simple .erlEmptyList])

theorem term_injective (bracket : Bracket) : Function.Injective bracket.term := by
  intro elems others same
  cases bracket with
  | tuple =>
      injection same
  | list =>
      injection same with _ same
      exact List.append_cancel_right same

end Bracket

/-- A bracket that is still open, with the elements before. -/
structure Opened where
  bracket : Bracket
  elems : List ErlTerm

/-- There is an entry left in the array of a bracket. -/
def Opened.Room (inner : Opened) : Prop := inner.elems.length < maxEntries

instance (inner : Opened) : Decidable inner.Room := inferInstanceAs (Decidable (_ < _))

/-- Where the reading of a text stands, with the open brackets from the inside out, or how it
ended. -/
inductive Reading where
  | reads (opened : List Opened) (fmt : Bytes)
  | read (term : ErlTerm) (fmt : Bytes)
  | nothing
  | refused (error : EpiException)
  | outside
  | directive

inductive TokenKind where
  | atom
  | var
  | number
  | string
  | quotedAtom
  deriving DecidableEq, Repr

/-- The kind of token that a byte starts. -/
def tokenKind (c : UInt8) : Option TokenKind :=
  if islower c then some .atom
  else if isupper c || c = underscore then some .var
  else if isdigit c || c = minus then some .number
  else if c = doubleQuote then some .string
  else if c = quote then some .quotedAtom
  else none

def isWordByte (c : UInt8) : Bool := isalnum c || c == underscore

def isAtomByte (c : UInt8) : Bool := isalnum c || c == underscore || c == atSign

/-- The bytes of a token and the text behind them. A token ends before the end of the text. -/
structure Token where
  bytes : Bytes
  behind : Bytes

def Token.ofPrefix (fmt behind : Bytes) : Option Token :=
  match behind with
  | [] => none
  | _ :: _ => some ⟨fmt.take (fmt.length - behind.length), behind⟩

def Token.ofQuoted (closing : UInt8) (rest : Bytes) : Option Token :=
  match rest.dropWhile (· != closing) with
  | [] => none
  | _ :: behind => some ⟨rest.takeWhile (· != closing), behind⟩

/-- The token that starts with a byte of its kind. -/
def TokenKind.token (kind : TokenKind) (c : UInt8) (rest : Bytes) : Option Token :=
  match kind with
  | atom => Token.ofPrefix (c :: rest) ((c :: rest).dropWhile isAtomByte)
  | var => Token.ofPrefix (c :: rest) ((c :: rest).dropWhile isWordByte)
  | number => Token.ofPrefix (c :: rest) (dropDigits false (c :: rest))
  | string => Token.ofQuoted doubleQuote rest
  | quotedAtom => Token.ofQuoted quote rest

/-- The term that a token is turned into. -/
def TokenKind.term (library : CLibrary) (kind : TokenKind) (bytes : Bytes) : Call ErlTerm :=
  match kind with
  | atom | quotedAtom => newAtom bytes
  | var => .returns (.erlVariable (cString bytes))
  | number =>
      .returns (if dot ∈ bytes then newDouble (library.atof bytes)
        else newLong ((atoi library bytes).signExtend 64))
  | string => .returns (newString bytes)

namespace Reading

/-- A term is stored in the bracket around it, or it is the whole term. -/
def store (opened : List Opened) (term : ErlTerm) (fmt : Bytes) : Reading :=
  match opened with
  | [] => .read term fmt
  | inner :: outer =>
      if inner.Room then .reads ({ inner with elems := inner.elems ++ [term] } :: outer) fmt
      else .outside

/-- The null pointer is stored in each of the open brackets. -/
def lost (opened : List Opened) : Reading :=
  if ∀ inner ∈ opened, inner.Room then .nothing else .outside

/-- A token that fits into its buffer is stored as a term. -/
def scan (library : CLibrary) (opened : List Opened) (kind : TokenKind) (token : Token) :
    Reading :=
  if token.bytes.length + 1 ≤ bufsiz then
    match kind.term library token.bytes with
    | .returns term => store opened term token.behind
    | .throws error => .refused error
    | .aborts | .diverges => .outside
  else
    .outside

/-- The reading goes on at a byte that starts a token, or no term at all. -/
def scanned (library : CLibrary) (opened : List Opened) (c : UInt8) (rest : Bytes) : Reading :=
  match tokenKind c with
  | none => lost opened
  | some kind =>
      match kind.token c rest with
      | none => .outside
      | some token => scan library opened kind token

/-- The reading goes on behind the bracket of a list. -/
def listed (opened : List Opened) : Bytes → Reading
  | [] => .outside
  | first :: behind =>
      if first = rightBracket then store opened (.simple .erlEmptyList) behind
      else .reads (⟨.list, []⟩ :: opened) (first :: behind)

/-- The reading goes on behind a dollar. -/
def lettered (opened : List Opened) : Bytes → Reading
  | [] => .outside
  | letter :: behind => store opened (newLong (letter.toBitVec.signExtend 64)) behind

/-- The reading goes on at a byte where a term is to start. -/
def starts (library : CLibrary) (opened : List Opened) (c : UInt8) (rest : Bytes) : Reading :=
  if c = leftBrace then .reads (⟨.tuple, []⟩ :: opened) rest
  else if c = leftBracket then listed opened rest
  else if c = dollar then lettered opened rest
  else if c = tilde then .directive
  else scanned library opened c rest

/-- The reading goes on at a byte behind the blanks. -/
def goesOn (library : CLibrary) (opened : List Opened) (c : UInt8) (rest : Bytes) : Reading :=
  match opened with
  | [] => starts library [] c rest
  | inner :: outer =>
      if c = inner.bracket.closing then store outer (inner.bracket.term inner.elems) rest
      else if c = comma then .reads opened rest
      else starts library opened c rest

/-- One step of the reading, which has no limits on the depth and no calls. -/
def step (library : CLibrary) : Machine Reading
  | .reads opened fmt =>
      match fmt.dropWhile isNullChar with
      | [] => some .outside
      | c :: rest => some (goesOn library opened c rest)
  | _ => none

/-- How the reading goes on behind a call that was made inside of open brackets. -/
def ofResult {Value : Type} (target : Value → Bytes → Reading) (opened : List Opened) :
    Outcome EpiException (Option Value) × FormatState → Reading
  | (.returns (some value), after) => target value after.fmt
  | (.returns none, _) => lost opened
  | (.throws error, _) => .refused error
  | (.aborts, _) | (.diverges, _) => .outside

theorem lost_cons (inner : Opened) (outer : List Opened) :
    lost (inner :: outer) = if inner.Room then lost outer else .outside := by
  unfold lost
  by_cases room : inner.Room
  · simp only [List.forall_mem_cons, room, true_and, if_true]
  · simp only [List.forall_mem_cons, room, false_and, if_false]

end Reading

section Tokens

variable {pap : List FormatArgument} {c : UInt8} {rest : Bytes} {library : CLibrary}

/-- What the reader of a token leaves. -/
def tokenResult (pap : List FormatArgument) :
    Option Token → Outcome EpiException Bytes × FormatState
  | none => (.aborts, ⟨[], pap⟩)
  | some token =>
      (if token.bytes.length + 1 ≤ bufsiz then .returns token.bytes else .aborts,
        ⟨token.behind, pap⟩)

theorem copy_run (start : Bytes) (len : Nat) (state : FormatState) :
    copy start len state =
      (if len + 1 ≤ bufsiz then .returns (start.take len) else .aborts, state) := by
  unfold copy
  split <;> rfl

theorem skipNullChars_solid (solid : isNullChar c = false) :
    skipNullChars ⟨c :: rest, pap⟩ = (.returns (), ⟨c :: rest, pap⟩) :=
  skipNullChars_run (dropWhile_solid solid)

/-- What is behind a prefix of the text decides what the prefix is. -/
theorem tokenResult_ofPrefix {fmt : Bytes} (d : UInt8) (behind : Bytes)
    (shorter : (d :: behind).length ≤ fmt.length) :
    copy fmt (fmt.length - (d :: behind).length) ⟨d :: behind, pap⟩ =
      tokenResult pap (Token.ofPrefix fmt (d :: behind)) := by
  have size : (fmt.take (fmt.length - (d :: behind).length)).length =
      fmt.length - (d :: behind).length := by
    rw [List.length_take]
    omega
  rw [copy_run, Token.ofPrefix, tokenResult, size]

/-- A reader that skips the bytes of its token and then copies them. -/
theorem reader_run {skip : Formatter Unit} (left : Bytes → Bytes)
    (skips : ∀ fmt, skip ⟨fmt, pap⟩ = match left fmt with
      | d :: behind => (.returns (), ⟨d :: behind, pap⟩)
      | [] => (.aborts, ⟨[], pap⟩))
    (shorter : ∀ fmt, (left fmt).length ≤ fmt.length) (solid : isNullChar c = false) :
    (do
      let start ← Effect.get
      skipNullChars
      skip
      let stop ← Effect.get
      copy start.fmt (start.fmt.length - stop.fmt.length) : Formatter Bytes) ⟨c :: rest, pap⟩ =
        tokenResult pap (Token.ofPrefix (c :: rest) (left (c :: rest))) := by
  have start : (Effect.get : Formatter FormatState) ⟨c :: rest, pap⟩ =
      (.returns ⟨c :: rest, pap⟩, ⟨c :: rest, pap⟩) := rfl
  have size := shorter (c :: rest)
  have skipped := skips (c :: rest)
  rw [Effect.bind_of_returns start, Effect.bind_of_returns (skipNullChars_solid solid)]
  cases found : left (c :: rest) with
  | nil =>
      rw [found] at skipped
      rw [Effect.bind_run, skipped]
      rfl
  | cons d behind =>
      rw [found] at skipped size
      rw [Effect.bind_of_returns skipped, ← tokenResult_ofPrefix d behind size]
      rfl

theorem token_run (accepts : UInt8 → Bool) (solid : isNullChar c = false) :
    token accepts ⟨c :: rest, pap⟩ =
      tokenResult pap (Token.ofPrefix (c :: rest) ((c :: rest).dropWhile accepts)) := by
  refine reader_run (List.dropWhile accepts) (fun fmt => ?_)
    (fun _ => (List.dropWhile_suffix accepts).length_le) solid
  unfold skipWhile
  cases fmt.dropWhile accepts <;> rfl

theorem pdigit_run (solid : isNullChar c = false) :
    pdigit ⟨c :: rest, pap⟩ =
      tokenResult pap (Token.ofPrefix (c :: rest) (dropDigits false (c :: rest))) := by
  refine reader_run (dropDigits false) (fun fmt => ?_)
    (fun fmt => (dropDigits_suffix false fmt).length_le) solid
  unfold skipDigits
  cases dropDigits false fmt <;> rfl

/-- The test for an escape is never true. -/
theorem endsQuoted_eq {closing : UInt8} (other : closing ≠ backslash) (d : UInt8) :
    (!endsQuoted closing d) = (d != closing) := by
  unfold endsQuoted
  by_cases same : d = closing
  · subst same
    simp [other]
  · rw [beq_eq_false_iff_ne.mpr same, bne_iff_ne.mpr same]
    rfl

/-- The blanks behind the first quote belong to the token as well. -/
theorem dropWhile_blanks {closing : UInt8} (solid : isNullChar closing = false) (fmt : Bytes) :
    (fmt.dropWhile isNullChar).dropWhile (· != closing) = fmt.dropWhile (· != closing) := by
  induction fmt with
  | nil => rfl
  | cons d fmt ih =>
      cases blank : isNullChar d with
      | false => rw [List.dropWhile_cons, if_neg (by simp [blank])]
      | true =>
          have other : (d != closing) = true := by
            rw [bne_iff_ne]
            rintro rfl
            rw [solid] at blank
            cases blank
          rw [List.dropWhile_cons, if_pos blank, ih, List.dropWhile_cons, if_pos other]

theorem pquoted_run {closing : UInt8} (solid : isNullChar closing = false)
    (other : closing ≠ backslash) :
    pquoted closing ⟨c :: rest, pap⟩ = tokenResult pap (Token.ofQuoted closing rest) := by
  have first : next ⟨c :: rest, pap⟩ = (.returns c, ⟨rest, pap⟩) := rfl
  have start : (Effect.get : Formatter FormatState) ⟨rest, pap⟩ =
      (.returns ⟨rest, pap⟩, ⟨rest, pap⟩) := rfl
  have same : (fun d => !endsQuoted closing d) = (· != closing) :=
    funext (endsQuoted_eq other)
  have whole := dropWhile_blanks solid rest
  rw [pquoted, Effect.bind_of_returns first, Effect.bind_of_returns start, same, Token.ofQuoted]
  cases found : rest.dropWhile isNullChar with
  | nil =>
      rw [found, List.dropWhile_nil] at whole
      rw [Effect.bind_run, skipNullChars_end found, ← whole]
      rfl
  | cons d fmt =>
      rw [found] at whole
      rw [Effect.bind_of_returns (skipNullChars_run found), ← whole]
      cases ended : (d :: fmt).dropWhile (· != closing) with
      | nil =>
          have aborted : skipWhile (· != closing) ⟨d :: fmt, pap⟩ = (.aborts, ⟨[], pap⟩) := by
            simp only [skipWhile, ended]
          rw [Effect.bind_run, aborted]
          rfl
      | cons last behind =>
          have skipped : skipWhile (· != closing) ⟨d :: fmt, pap⟩ =
              (.returns (), ⟨last :: behind, pap⟩) := by
            simp only [skipWhile, ended]
          have passed : next ⟨last :: behind, pap⟩ = (.returns last, ⟨behind, pap⟩) := rfl
          have stop : (Effect.get : Formatter FormatState) ⟨behind, pap⟩ =
              (.returns ⟨behind, pap⟩, ⟨behind, pap⟩) := rfl
          have split := List.takeWhile_append_dropWhile (p := (· != closing)) (l := rest)
          rw [← whole, ended] at split
          have size : rest.length - behind.length - 1 = (rest.takeWhile (· != closing)).length := by
            have total := congrArg List.length split
            rw [List.length_append, List.length_cons] at total
            omega
          have token : rest.take (rest.takeWhile (· != closing)).length =
              rest.takeWhile (· != closing) :=
            (List.prefix_iff_eq_take.mp (List.takeWhile_prefix _)).symm
          rw [Effect.bind_of_returns skipped, Effect.bind_of_returns passed,
            Effect.bind_of_returns stop, size, copy_run, token]
          rfl

theorem Token.ofPrefix_eq_some {fmt behind : Bytes} {token : Token}
    (found : Token.ofPrefix fmt behind = some token) :
    behind ≠ [] ∧ token = ⟨fmt.take (fmt.length - behind.length), behind⟩ := by
  cases behind with
  | nil => cases found
  | cons d behind =>
      cases found
      exact ⟨List.cons_ne_nil d behind, rfl⟩

theorem Token.ofQuoted_eq_some {closing : UInt8} {token : Token}
    (found : Token.ofQuoted closing rest = some token) :
    rest = token.bytes ++ closing :: token.behind ∧ closing ∉ token.bytes := by
  unfold Token.ofQuoted at found
  cases ended : rest.dropWhile (· != closing) with
  | nil =>
      rw [ended] at found
      cases found
  | cons last behind =>
      rw [ended] at found
      cases found
      have split := List.takeWhile_append_dropWhile (p := (· != closing)) (l := rest)
      have head := List.head?_dropWhile_not (· != closing) rest
      rw [ended] at split head
      have same : last = closing := by simpa using head
      subst same
      refine ⟨split.symm, fun member => ?_⟩
      simpa using List.mem_takeWhile_imp member

/-- A token takes a byte at least. -/
theorem TokenKind.token_shorter {kind : TokenKind} {token : Token}
    (starts : tokenKind c = some kind) (found : kind.token c rest = some token) :
    token.behind.length ≤ rest.length := by
  have suffix : ∀ accepts : UInt8 → Bool, accepts c = true →
      ((c :: rest).dropWhile accepts).length ≤ rest.length := by
    intro accepts here
    rw [List.dropWhile_cons, if_pos here]
    exact (List.dropWhile_suffix accepts).length_le
  have inside : ∀ closing, rest = token.bytes ++ closing :: token.behind →
      token.behind.length ≤ rest.length := by
    intro closing split
    have total := congrArg List.length split
    rw [List.length_append, List.length_cons] at total
    omega
  unfold tokenKind at starts
  split at starts
  · rename_i lower
    cases starts
    rw [(Token.ofPrefix_eq_some found).2]
    exact suffix isAtomByte (by simp [isAtomByte, isalnum, lower])
  · split at starts
    · rename_i upper
      cases starts
      rw [(Token.ofPrefix_eq_some found).2]
      refine suffix isWordByte ?_
      rcases Bool.or_eq_true_iff.mp upper with letter | low
      · simp [isWordByte, isalnum, letter]
      · simpa [isWordByte] using .inr (decide_eq_true_eq.mp low)
    · split at starts
      · rename_i digit
        cases starts
        rw [(Token.ofPrefix_eq_some found).2]
        have here : (isdigit c || c == minus) = true := by simpa using digit
        rw [dropDigits, if_pos here]
        exact (dropDigits_suffix false rest).length_le
      · split at starts
        · cases starts
          exact inside doubleQuote (Token.ofQuoted_eq_some found).1
        · split at starts
          · cases starts
            exact inside quote (Token.ofQuoted_eq_some found).1
          · cases starts

theorem newAtom_returns {string : Bytes} {term : ErlTerm} (made : newAtom string = .returns term) :
    ∃ mAtom, AtomText.init (cString string) = .returns mAtom ∧
      term = .simple (.erlAtom (some mAtom)) := by
  obtain ⟨mAtom, checked, same⟩ := Outcome.bind_eq_returns.mp made
  cases same
  exact ⟨mAtom, checked, rfl⟩

theorem TokenKind.term_valid {kind : TokenKind} {bytes : Bytes} {term : ErlTerm}
    (made : kind.term library bytes = .returns term) : term.isValid = true := by
  cases kind with
  | atom | quotedAtom =>
      obtain ⟨mAtom, -, rfl⟩ := newAtom_returns made
      rfl
  | number =>
      cases made
      split <;> rfl
  | var | string =>
      cases made
      rfl

theorem TokenKind.term_ends {kind : TokenKind} {bytes : Bytes} :
    kind.term library bytes ≠ .diverges := by
  have atomEnds : newAtom bytes ≠ .diverges := by
    unfold newAtom AtomText.init
    split
    · exact fun same => by cases same
    · split <;> exact fun same => by cases same
  cases kind with
  | atom | quotedAtom => exact atomEnds
  | _ => exact fun same => by cases same

end Tokens

section Constructors

variable {elems : List ErlTerm}

/-- The elements of an array fill a tuple in their order. -/
theorem initFrom_holding (done : List ErlTerm) {rest : List ErlTerm} (split : elems = done ++ rest)
    (valid : ∀ elem ∈ rest, elem.isValid = true) :
    ErlTuple.initFrom (elems.map some) rest.length done.length
        (ErlTuple.holding elems.length done) =
      (.returns (), ErlTuple.holding elems.length elems) := by
  induction rest generalizing done with
  | nil =>
      rw [List.append_nil] at split
      subst split
      rfl
  | cons elem rest ih =>
      have found : (elems.map some)[done.length]? = some (some elem) := by
        rw [split]
        simp
      have room : done.length < elems.length := by
        rw [split]
        simp
      have stored := ErlTuple.initElement_holding elems.length done room
        (valid elem List.mem_cons_self)
      have later := ih (done ++ [elem]) (by rw [split, List.append_assoc]; rfl)
        fun other member => valid other (List.mem_cons_of_mem elem member)
      rw [List.length_append, List.length_singleton] at later
      simp only [List.length_cons, ErlTuple.initFrom, found]
      rw [Effect.bind_of_returns stored]
      exact later

/-- A tuple is made of valid elements. -/
theorem newTuple_valid (valid : ∀ elem ∈ elems, elem.isValid = true) :
    newTuple elems = .returns (Bracket.tuple.term elems) := by
  have opened : ErlTuple.init elems.length .uninitialized =
      (.returns (), ErlTuple.ofArity elems.length) := rfl
  have filled := initFrom_holding [] (List.nil_append elems).symm valid
  rw [← ErlTuple.ofArity_eq] at filled
  have ran : ErlTuple.initElements (elems.map some) elems.length .uninitialized =
      (.returns (), ErlTuple.holding elems.length elems) := by
    rw [ErlTuple.initElements, Method.throwsOnly, Effect.mapOutcome_run,
      Effect.bind_of_returns opened, Effect.mapOutcome_run]
    exact congrArg (fun result : Call Unit × ErlTuple =>
      (Call.throwsOnly [.epiBadArgument, .epiAlreadyInitialized]
        (Call.catching .epiInvalidTerm (fun _ => .returns ()) result.1), result.2)) filled
  rw [newTuple, ran]
  have whole : (ErlTuple.holding elems.length elems).toTerm = Bracket.tuple.term elems := by
    simp [ErlTuple.holding, ErlTuple.toTerm, Bracket.term]
  exact congrArg Outcome.returns whole

theorem addEach_valid (done : List ErlTerm) (valid : ∀ elem ∈ elems, elem.isValid = true) :
    addEach elems ⟨false, done⟩ = (.returns (), ⟨false, done ++ elems⟩) := by
  induction elems generalizing done with
  | nil =>
      rw [List.append_nil]
      rfl
  | cons elem rest ih =>
      have added := ErlConsList.addElement_open done (valid elem List.mem_cons_self)
      rw [addEach, Effect.bind_of_returns added,
        ih (done ++ [elem]) fun other member => valid other (List.mem_cons_of_mem elem member),
        List.append_assoc, List.singleton_append]

/-- A list is made of valid elements. -/
theorem newConsList_valid (valid : ∀ elem ∈ elems, elem.isValid = true) :
    newConsList elems = .returns (Bracket.list.term elems) := by
  have added := addEach_valid [] valid
  have ended := closeProper_run elems
  rw [List.nil_append] at added
  have ran : (do addEach elems; closeProper : Method ErlConsList Unit) .uninitialized =
      (.returns (), ⟨true, elems ++ [.simple .erlEmptyList]⟩) := by
    rw [← ended]
    exact Effect.bind_of_returns added
  rw [newConsList, ran]
  rfl

/-- A bracket makes a term that is valid. -/
theorem Bracket.term_valid (bracket : Bracket) : (bracket.term elems).isValid = true := by
  cases bracket <;> rfl

end Constructors

section Steps

variable {library : CLibrary} {opened : List Opened} {c : UInt8} {rest fmt : Bytes}
  {after : Reading}

/-- A term is to start at the next byte: it neither closes nor separates. -/
def TermAt (opened : List Opened) (fmt : Bytes) (c : UInt8) (rest : Bytes) : Prop :=
  fmt.dropWhile isNullChar = c :: rest ∧
    ∀ inner ∈ opened.head?, c ≠ inner.bracket.closing ∧ c ≠ comma

/-- A byte that starts neither a token, a bracket, a letter nor a directive. -/
def StartsNothing (c : UInt8) : Prop :=
  tokenKind c = none ∧ c ∉ [leftBrace, leftBracket, dollar, tilde]

/-- What a step does where a term is to start. -/
inductive StartStep (library : CLibrary) (opened : List Opened) : UInt8 → Bytes → Reading → Prop
  | brace {rest : Bytes} :
      StartStep library opened leftBrace rest (.reads (⟨.tuple, []⟩ :: opened) rest)
  | unlisted : StartStep library opened leftBracket [] .outside
  | emptyList {behind : Bytes} :
      StartStep library opened leftBracket (rightBracket :: behind)
        (Reading.store opened (.simple .erlEmptyList) behind)
  | list {first : UInt8} {behind : Bytes} (other : first ≠ rightBracket) :
      StartStep library opened leftBracket (first :: behind)
        (.reads (⟨.list, []⟩ :: opened) (first :: behind))
  | letterless : StartStep library opened dollar [] .outside
  | letter {letter : UInt8} {behind : Bytes} :
      StartStep library opened dollar (letter :: behind)
        (Reading.store opened (newLong (letter.toBitVec.signExtend 64)) behind)
  | directive {rest : Bytes} : StartStep library opened tilde rest .directive
  | nothing {c : UInt8} {rest : Bytes} (nothing : StartsNothing c) :
      StartStep library opened c rest (Reading.lost opened)
  | unended {c : UInt8} {rest : Bytes} {kind : TokenKind} (known : tokenKind c = some kind)
      (missing : kind.token c rest = none) : StartStep library opened c rest .outside
  | long {c : UInt8} {rest : Bytes} {kind : TokenKind} {token : Token}
      (known : tokenKind c = some kind) (found : kind.token c rest = some token)
      (long : bufsiz < token.bytes.length + 1) : StartStep library opened c rest .outside
  | token {c : UInt8} {rest : Bytes} {kind : TokenKind} {token : Token} {term : ErlTerm}
      (known : tokenKind c = some kind) (found : kind.token c rest = some token)
      (fits : token.bytes.length + 1 ≤ bufsiz)
      (made : kind.term library token.bytes = .returns term) :
      StartStep library opened c rest (Reading.store opened term token.behind)
  | refused {c : UInt8} {rest : Bytes} {kind : TokenKind} {token : Token} {error : EpiException}
      (known : tokenKind c = some kind) (found : kind.token c rest = some token)
      (fits : token.bytes.length + 1 ≤ bufsiz)
      (made : kind.term library token.bytes = .throws error) :
      StartStep library opened c rest (.refused error)

/-- What a step does with the next byte. -/
inductive ReadStep (library : CLibrary) : List Opened → Bytes → Reading → Prop
  | ended {opened : List Opened} {fmt : Bytes} (found : fmt.dropWhile isNullChar = []) :
      ReadStep library opened fmt .outside
  | closing {inner : Opened} {outer : List Opened} {fmt rest : Bytes}
      (found : fmt.dropWhile isNullChar = inner.bracket.closing :: rest) :
      ReadStep library (inner :: outer) fmt
        (Reading.store outer (inner.bracket.term inner.elems) rest)
  | comma {inner : Opened} {outer : List Opened} {fmt rest : Bytes}
      (found : fmt.dropWhile isNullChar = comma :: rest) :
      ReadStep library (inner :: outer) fmt (.reads (inner :: outer) rest)
  | start {opened : List Opened} {fmt rest : Bytes} {c : UInt8} {after : Reading}
      (start : TermAt opened fmt c rest) (started : StartStep library opened c rest after) :
      ReadStep library opened fmt after

theorem TokenKind.term_runs {kind : TokenKind} {bytes : Bytes} :
    kind.term library bytes ≠ .aborts := by
  have atomRuns : newAtom bytes ≠ .aborts := by
    unfold newAtom AtomText.init
    split
    · exact fun same => by cases same
    · split <;> exact fun same => by cases same
  cases kind with
  | atom | quotedAtom => exact atomRuns
  | _ => exact fun same => by cases same

theorem startStep (library : CLibrary) (opened : List Opened) (c : UInt8) (rest : Bytes) :
    StartStep library opened c rest (Reading.starts library opened c rest) := by
  unfold Reading.starts
  by_cases brace : c = leftBrace
  · rw [if_pos brace, brace]
    exact .brace
  · rw [if_neg brace]
    by_cases bracket : c = leftBracket
    · rw [if_pos bracket, bracket]
      cases rest with
      | nil => exact .unlisted
      | cons first behind =>
          by_cases closed : first = rightBracket
          · rw [Reading.listed, if_pos closed, closed]
            exact .emptyList
          · rw [Reading.listed, if_neg closed]
            exact .list closed
    · rw [if_neg bracket]
      by_cases letter : c = dollar
      · rw [if_pos letter, letter]
        cases rest with
        | nil => exact .letterless
        | cons letter behind => exact .letter
      · rw [if_neg letter]
        by_cases directive : c = tilde
        · rw [if_pos directive, directive]
          exact .directive
        · rw [if_neg directive, Reading.scanned]
          cases known : tokenKind c with
          | none => exact .nothing ⟨known, by simp [brace, bracket, letter, directive]⟩
          | some kind =>
              dsimp only
              cases found : kind.token c rest with
              | none => exact .unended known found
              | some token =>
                  dsimp only
                  by_cases fits : token.bytes.length + 1 ≤ bufsiz
                  · simp only [Reading.scan, if_pos fits]
                    cases made : kind.term library token.bytes with
                    | returns term => exact .token known found fits made
                    | throws error => exact .refused known found fits made
                    | aborts => exact absurd made TokenKind.term_runs
                    | diverges => exact absurd made TokenKind.term_ends
                  · simp only [Reading.scan, if_neg fits]
                    exact .long known found (Nat.not_le.mp fits)

/-- The cases of a step. -/
theorem readStep (taken : Reading.step library (.reads opened fmt) = some after) :
    ReadStep library opened fmt after := by
  unfold Reading.step at taken
  cases found : fmt.dropWhile isNullChar with
  | nil =>
      simp only [found, Option.some.injEq] at taken
      subst taken
      exact .ended found
  | cons c rest =>
      simp only [found, Option.some.injEq] at taken
      subst taken
      cases opened with
      | nil => exact .start ⟨found, fun _ none => by cases none⟩ (startStep library [] c rest)
      | cons inner outer =>
          rw [Reading.goesOn]
          by_cases closes : c = inner.bracket.closing
          · rw [if_pos closes]
            rw [closes] at found
            exact .closing found
          · rw [if_neg closes]
            by_cases separates : c = comma
            · rw [if_pos separates]
              rw [separates] at found
              exact .comma found
            · rw [if_neg separates]
              refine .start ⟨found, ?_⟩ (startStep library (inner :: outer) c rest)
              rintro _ ⟨⟩
              exact ⟨closes, separates⟩

/-- A step does what its case says. -/
theorem StartStep.starts_eq (started : StartStep library opened c rest after) :
    Reading.starts library opened c rest = after := by
  have ofToken : ∀ {c : UInt8} {kind : TokenKind}, tokenKind c = some kind → ∀ rest,
      Reading.starts library opened c rest = Reading.scanned library opened c rest := by
    intro c kind known rest
    have special : ∀ e, tokenKind e = none → c ≠ e := by
      rintro e unknown rfl
      rw [known] at unknown
      cases unknown
    rw [Reading.starts, if_neg (special leftBrace rfl), if_neg (special leftBracket rfl),
      if_neg (special dollar rfl), if_neg (special tilde rfl)]
  cases started with
  | list other => exact if_neg other
  | nothing nothing =>
      obtain ⟨unknown, other⟩ := nothing
      simp only [List.mem_cons, List.not_mem_nil, or_false, not_or] at other
      rw [Reading.starts, if_neg other.1, if_neg other.2.1, if_neg other.2.2.1,
        if_neg other.2.2.2, Reading.scanned, unknown]
  | unended known missing =>
      rw [ofToken known, Reading.scanned, known]
      simp only [missing]
  | long known found long =>
      rw [ofToken known, Reading.scanned, known]
      simp only [found, Reading.scan, if_neg (Nat.not_le.mpr long)]
  | token known found fits made =>
      rw [ofToken known, Reading.scanned, known]
      simp only [found, Reading.scan, if_pos fits, made]
  | refused known found fits made =>
      rw [ofToken known, Reading.scanned, known]
      simp only [found, Reading.scan, if_pos fits, made]
  | _ => rfl

theorem ReadStep.step_eq (read : ReadStep library opened fmt after) :
    Reading.step library (.reads opened fmt) = some after := by
  cases read with
  | ended found => simp only [Reading.step, found]
  | closing found => simp only [Reading.step, found, Reading.goesOn, if_true]
  | @comma inner outer _ _ found =>
      have other : Parse.comma ≠ inner.bracket.closing := by cases inner.bracket <;> decide
      simp only [Reading.step, found, Reading.goesOn, if_neg other, if_true]
  | start start started =>
      obtain ⟨found, other⟩ := start
      simp only [Reading.step, found, Option.some.injEq]
      cases opened with
      | nil => exact started.starts_eq
      | cons inner outer =>
          obtain ⟨closes, separates⟩ := other inner rfl
          rw [Reading.goesOn, if_neg closes, if_neg separates]
          exact started.starts_eq

end Steps

end Epi.Parse
