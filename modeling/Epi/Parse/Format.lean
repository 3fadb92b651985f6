import Epi.Type.TupleAccess

namespace Epi.Parse

open Verification Epi.Type

def space : UInt8 := 32

def tab : UInt8 := 9

def newline : UInt8 := 10

def doubleQuote : UInt8 := 34

def dollar : UInt8 := 36

def quote : UInt8 := 39

def comma : UInt8 := 44

def minus : UInt8 := 45

def dot : UInt8 := 46

def atSign : UInt8 := 64

def leftBracket : UInt8 := 91

def backslash : UInt8 := 92

def rightBracket : UInt8 := 93

def underscore : UInt8 := 95

def leftBrace : UInt8 := 123

def rightBrace : UInt8 := 125

def tilde : UInt8 := 126

/-- The byte of an ASCII letter. -/
def ascii (letter : Char) : UInt8 := UInt8.ofNat letter.toNat

def isdigit (c : UInt8) : Bool := 48 ≤ c && c ≤ 57

def isupper (c : UInt8) : Bool := 65 ≤ c && c ≤ 90

def islower (c : UInt8) : Bool := 97 ≤ c && c ≤ 122

def isalnum (c : UInt8) : Bool := isdigit c || isupper c || islower c

/-- The blanks of `skip_null_chars`. -/
def isNullChar (c : UInt8) : Bool := c == space || c == tab || c == newline

/-- `ERL_MAX_ENTRIES`. -/
def maxEntries : Nat := 255

/-- `BUFSIZ`, the size of the buffer for a token. -/
def bufsiz : Nat := 8192

/-- The conversions of the C library. `atoi` gives no defined value for a numeral outside of `int`. -/
structure CLibrary where
  atof : Bytes → Binary64
  overflow : Bytes → BitVec 32

/-- The value of decimal digits. -/
def decimal (digits : Bytes) : Nat :=
  digits.foldl (fun value digit => 10 * value + (digit.toNat - 48)) 0

/-- The number that a text starts with, after an optional sign. -/
def numeral : Bytes → Int
  | [] => 0
  | c :: rest =>
      if c = minus then -(decimal (rest.takeWhile isdigit))
      else decimal ((c :: rest).takeWhile isdigit)

def atoi (library : CLibrary) (digit : Bytes) : BitVec 32 :=
  if -2 ^ 31 ≤ numeral digit ∧ numeral digit < 2 ^ 31 then .ofInt 32 (numeral digit)
  else library.overflow digit

/-- The `double` nearest to the number of a numeral with a dot. -/
def dottedValue (digits : Bytes) : Binary64 :=
  let decimals := (digits.dropWhile (· != dot)).tail
  .nearest (digits.head? == some minus) (decimal (digits.filter isdigit)) (10 ^ decimals.length)

example : dottedValue (text "-0.1") = ⟨0xBFB999999999999A⟩ := by decide +kernel

/-- An argument behind the format string. The null pointer is an absent term. -/
inductive FormatArgument where
  | term (value : Option ErlTerm)
  | string (value : Bytes)
  | int (value : BitVec 32)
  | double (value : Binary64)

namespace FormatArgument

def asTerm : FormatArgument → Option (Option ErlTerm)
  | term value => some value
  | _ => none

def asString : FormatArgument → Option Bytes
  | string value => some value
  | _ => none

def asInt : FormatArgument → Option (BitVec 32)
  | int value => some value
  | _ => none

def asDouble : FormatArgument → Option Binary64
  | double value => some value
  | _ => none

end FormatArgument

/-- What is left of the format string, with the byte that ends it, and of the arguments. -/
structure FormatState where
  fmt : Bytes
  pap : List FormatArgument

abbrev Formatter (Value : Type) := Method FormatState Value

/-- `**fmt`. Nothing is defined behind the byte that ends the string. -/
def peek : Formatter UInt8 := fun state =>
  match state.fmt with
  | c :: _ => (.returns c, state)
  | [] => (.aborts, state)

/-- `*(*fmt)++`. Where the source steps back over the byte, it is read with `peek`. -/
def next : Formatter UInt8 := fun state =>
  match state.fmt with
  | c :: rest => (.returns c, { state with fmt := rest })
  | [] => (.aborts, state)

/-- A loop that stops at the first byte that it does not accept. -/
def skipWhile (accepts : UInt8 → Bool) : Formatter Unit := fun state =>
  match state.fmt.dropWhile accepts with
  | c :: rest => (.returns (), { state with fmt := c :: rest })
  | [] => (.aborts, { state with fmt := [] })

/-- `skip_null_chars`. -/
def skipNullChars : Formatter Unit := skipWhile isNullChar

/-- The copy of a token and of the byte that ends it. -/
def copy (start : Bytes) (len : Nat) : Formatter Bytes :=
  if len + 1 ≤ bufsiz then pure (start.take len) else Effect.lift .aborts

/-- The tokens of one kind of bytes, from the place before the blanks. -/
def token (accepts : UInt8 → Bool) : Formatter Bytes := do
  let start ← Effect.get
  skipNullChars
  skipWhile accepts
  let stop ← Effect.get
  copy start.fmt (start.fmt.length - stop.fmt.length)

def pvariable : Formatter Bytes := token fun c => isalnum c || c == underscore

def patom : Formatter Bytes := token fun c => isalnum c || c == underscore || c == atSign

/-- The loop of `pdigit` takes one dot. -/
def dropDigits : Bool → Bytes → Bytes
  | _, [] => []
  | dotp, c :: rest =>
      if isdigit c || c == minus then dropDigits dotp rest
      else if !dotp && c == dot then dropDigits true rest
      else c :: rest

def skipDigits : Formatter Unit := fun state =>
  match dropDigits false state.fmt with
  | c :: rest => (.returns (), { state with fmt := c :: rest })
  | [] => (.aborts, { state with fmt := [] })

def pdigit : Formatter Bytes := do
  let start ← Effect.get
  skipNullChars
  skipDigits
  let stop ← Effect.get
  copy start.fmt (start.fmt.length - stop.fmt.length)

/-- The test for an escape looks at the quote itself. -/
def endsQuoted (closing c : UInt8) : Bool := c == closing && !(c == backslash)

/-- The tokens between two quotes. The byte that ends the string does not end them. -/
def pquoted (closing : UInt8) : Formatter Bytes := do
  let _ ← next
  let start ← Effect.get
  skipNullChars
  skipWhile fun c => !endsQuoted closing c
  let _ ← next
  let stop ← Effect.get
  copy start.fmt (start.fmt.length - stop.fmt.length - 1)

def pstring : Formatter Bytes := pquoted doubleQuote

def pquotedatom : Formatter Bytes := pquoted quote

/-- `va_arg`. An argument of another type has no defined value. -/
def vaArg {Value : Type} (read : FormatArgument → Option Value) : Formatter Value := fun state =>
  match state.pap with
  | argument :: rest =>
      match read argument with
      | some value => (.returns value, { state with pap := rest })
      | none => (.aborts, state)
  | [] => (.aborts, state)

/-- `new ErlAtom`. -/
def newAtom (string : Bytes) : Call ErlTerm := do
  let mAtom ← AtomText.init (cString string)
  return .simple (.erlAtom (some mAtom))

def newString (string : Bytes) : ErlTerm := .simple (.erlString (some (cString string)))

def newLong (value : BitVec 64) : ErlTerm := .simple (.erlLong (some value))

def newDouble (value : Binary64) : ErlTerm := .simple (.erlDouble (some value))

/-- The constructor of a tuple from an array. -/
def newTuple (elems : List ErlTerm) : Call ErlTerm :=
  Call.throwsOnly [.epiBadArgument] <|
    match ErlTuple.initElements (elems.map some) elems.length .uninitialized with
    | (outcome, tuple) => do
        Call.catching .epiAlreadyInitialized (fun _ => .returns ()) outcome
        return tuple.toTerm

/-- The loop of `ErlConsList::init`. -/
def addEach : List ErlTerm → Method ErlConsList Unit
  | [] => pure ()
  | elem :: rest => do
      ErlConsList.addElement (some elem)
      addEach rest

/-- `ErlConsList::close` with an empty list. -/
def closeProper : Method ErlConsList Unit :=
  Method.throwsOnly [.epiAlreadyInitialized] (ErlConsList.close (some (.simple .erlEmptyList)))

/-- The constructor of a list from an array. -/
def newConsList (elems : List ErlTerm) : Call ErlTerm :=
  Call.throwsOnly [.epiBadArgument] <|
    match (do addEach elems; closeProper : Method ErlConsList Unit) .uninitialized with
    | (outcome, list) => do
        outcome
        return list.toTerm

/-- `pformat`. The result is absent for an unknown letter. -/
def pformat : Formatter (Option ErlTerm) := do
  skipNullChars
  let c ← next
  if c = ascii 'w' then
    vaArg FormatArgument.asTerm
  else if c = ascii 'a' then do
    let string ← vaArg FormatArgument.asString
    let atom ← Effect.lift (newAtom string)
    return some atom
  else if c = ascii 's' then do
    let string ← vaArg FormatArgument.asString
    return some (newString string)
  else if c = ascii 'i' then do
    let value ← vaArg FormatArgument.asInt
    return some (newLong (value.signExtend 64))
  else if c = ascii 'f' then do
    let value ← vaArg FormatArgument.asDouble
    return some (newDouble value)
  else
    return none

/-- The rounds of `ptuple` and `plist`, with the call for an element. An absent result is
`ERL_FORMAT_ERROR`. -/
def pelements (eformat : Formatter (Option ErlTerm)) (closing : UInt8) :
    Nat → List ErlTerm → Formatter (Option (List ErlTerm))
  | 0, _ => Effect.lift .diverges
  | fuel + 1, v => do
      skipNullChars
      let c ← peek
      if c = closing then do
        let _ ← next
        return some v
      else if c = comma then do
        let _ ← next
        pelements eformat closing fuel v
      else do
        let term ← eformat
        -- The array has no entry for an element too many.
        if maxEntries ≤ v.length then
          Effect.lift .aborts
        else
          match term with
          | some term => pelements eformat closing fuel (v ++ [term])
          | none => return none

def ptuple (eformat : Formatter (Option ErlTerm)) (fuel : Nat) :
    Formatter (Option (List ErlTerm)) := pelements eformat rightBrace fuel []

def plist (eformat : Formatter (Option ErlTerm)) (fuel : Nat) :
    Formatter (Option (List ErlTerm)) := pelements eformat rightBracket fuel []

/-- The cases of `eformat` that start with a letter, a digit or a quote. -/
def pscalar (library : CLibrary) (c : UInt8) : Formatter (Option ErlTerm) :=
  if islower c then do
    let atom ← patom
    let term ← Effect.lift (newAtom atom)
    return some term
  else if isupper c || c = underscore then do
    let var ← pvariable
    return some (.erlVariable (cString var))
  else if isdigit c || c = minus then do
    let digit ← pdigit
    if dot ∈ digit then
      return some (newDouble (library.atof digit))
    else
      return some (newLong ((atoi library digit).signExtend 64))
  else if c = doubleQuote then do
    let string ← pstring
    return some (newString string)
  else if c = quote then do
    let qatom ← pquotedatom
    let term ← Effect.lift (newAtom qatom)
    return some term
  else
    return none

/-- The term that is made of the elements, if there are any. -/
def made (construct : List ErlTerm → Call ErlTerm) :
    Option (List ErlTerm) → Formatter (Option ErlTerm)
  | some v => do
      let term ← Effect.lift (construct v)
      return some term
  | none => return none

/-- The case of an opening brace. -/
def braced (eformat : Formatter (Option ErlTerm)) (fuel : Nat) : Formatter (Option ErlTerm) := do
  let elems ← ptuple eformat fuel
  made newTuple elems

/-- The case of an opening bracket. -/
def bracketed (eformat : Formatter (Option ErlTerm)) (fuel : Nat) :
    Formatter (Option ErlTerm) := do
  let first ← peek
  if first = rightBracket then do
    let _ ← next
    return some (.simple .erlEmptyList)
  else do
    let elems ← plist eformat fuel
    made newConsList elems

/-- The case of a dollar. A `char` has a sign. -/
def pchar : Formatter (Option ErlTerm) := do
  let letter ← next
  return some (newLong (letter.toBitVec.signExtend 64))

/-- The body of `eformat`, with the call for an element and a bound on the elements. -/
def eformatNext (library : CLibrary) (eformat : Formatter (Option ErlTerm)) (fuel : Nat) :
    Formatter (Option ErlTerm) := do
  skipNullChars
  let c ← peek
  if c = leftBrace then do
    let _ ← next
    braced eformat fuel
  else if c = leftBracket then do
    let _ ← next
    bracketed eformat fuel
  else if c = dollar then do
    let _ ← next
    pchar
  else if c = tilde then do
    let _ ← next
    pformat
  else
    pscalar library c

/-- `eformat`. An absent term is the null pointer. The depth is bounded by the length of the text. -/
def eformat (library : CLibrary) : Nat → Formatter (Option ErlTerm)
  | 0 => Effect.lift .diverges
  | fuel + 1 => eformatNext library (eformat library fuel) fuel

def parseError : EpiException := ⟨.epiParseError, text "Parsing error."⟩

/-- A format string is read up to the byte that ends it. -/
def terminated (formatStr : Bytes) : Bytes := cString formatStr ++ [0]

/-- `ErlTerm::format`. -/
def format (library : CLibrary) (fuel : Nat) (formatStr : Bytes)
    (arguments : List FormatArgument) : Call ErlTerm :=
  Call.throwsOnly [.epiParseError] do
    let res ← (eformat library fuel ⟨terminated formatStr, arguments⟩).1
    match res with
    | some term => return term
    | none => .throws parseError

end Epi.Parse
