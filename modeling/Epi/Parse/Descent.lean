import Epi.Parse.Reading

namespace Epi.Parse

open Verification Epi.Type Machine

section Follows

variable {Value : Type} {library : CLibrary} {target : Value → Bytes → Reading}
  {opened : List Opened} {Fine : Value → Prop} {size : Nat}

/-- The reading comes to the result of a call. A value that is returned is fine, and a byte at
least was read for it. -/
structure Follows (library : CLibrary) (start : Reading) (target : Value → Bytes → Reading)
    (opened : List Opened) (Fine : Value → Prop) (size : Nat)
    (result : Outcome EpiException (Option Value) × FormatState) : Prop where
  comes : Comes (Reading.step library) start (Reading.ofResult target opened result)
  returned : ∀ value, result.1 = .returns (some value) → Fine value ∧ result.2.fmt.length < size
  ends : result.1 ≠ .diverges

theorem follows_none (after : FormatState) :
    Follows library (Reading.lost opened) target opened Fine size (.returns none, after) where
  comes := Comes.refl
  returned _ same := by cases same
  ends same := by cases same

theorem follows_throws (error : EpiException) (after : FormatState) :
    Follows library (.refused error) target opened Fine size (.throws error, after) where
  comes := Comes.refl
  returned _ same := by cases same
  ends same := by cases same

theorem follows_aborts (after : FormatState) :
    Follows library .outside target opened Fine size (.aborts, after) where
  comes := Comes.refl
  returned _ same := by cases same
  ends same := by cases same

/-- Steps before the reading of a call, and a larger text. -/
theorem Follows.after {start middle : Reading} {total : Nat}
    {result : Outcome EpiException (Option Value) × FormatState}
    (follows : Follows library middle target opened Fine size result)
    (comes : Comes (Reading.step library) start middle) (larger : size ≤ total) :
    Follows library start target opened Fine total result where
  comes := comes.trans follows.comes
  returned value same := (follows.returned value same).imp_right (Nat.lt_of_lt_of_le · larger)
  ends := follows.ends

/-- A call of `eformat` is followed by the reading, unless it comes to a directive. -/
def FollowsTerm (library : CLibrary) (start : Reading) (opened : List Opened) (size : Nat)
    (result : Outcome EpiException (Option ErlTerm) × FormatState) : Prop :=
  Comes (Reading.step library) start .directive ∨
    Follows library start (Reading.store opened) opened (fun term => term.isValid = true) size
      result

theorem follows_term {term : ErlTerm} (after : FormatState) (valid : term.isValid = true)
    (shorter : after.fmt.length < size) :
    Follows library (Reading.store opened term after.fmt) (Reading.store opened) opened
      (fun term => term.isValid = true) size (.returns (some term), after) where
  comes := Comes.refl
  returned := by
    rintro _ ⟨⟩
    exact ⟨valid, shorter⟩
  ends same := by cases same

end Follows

section Scalars

variable {library : CLibrary} {pap : List FormatArgument} {c : UInt8} {rest : Bytes}
  {opened : List Opened}

/-- A term that is made of a token. -/
theorem follows_token {kind : TokenKind} (starts : tokenKind c = some kind)
    {reader : Formatter Bytes} {state : FormatState}
    (ran : reader state = tokenResult pap (kind.token c rest)) :
    Follows library
      (match kind.token c rest with
        | none => .outside
        | some token => Reading.scan library opened kind token)
      (Reading.store opened) opened (fun term => term.isValid = true) (c :: rest).length
      ((do
        let bytes ← reader
        let term ← Effect.lift (kind.term library bytes)
        return some term : Formatter (Option ErlTerm)) state) := by
  rw [Effect.bind_run, ran]
  cases found : kind.token c rest with
  | none => exact follows_aborts _
  | some token =>
      have shorter := TokenKind.token_shorter starts found
      by_cases fits : token.bytes.length + 1 ≤ bufsiz
      · simp only [tokenResult, if_pos fits, Reading.scan, Effect.bind_run, Effect.lift_run]
        cases made : kind.term library token.bytes with
        | returns term =>
            exact follows_term ⟨token.behind, pap⟩ (TokenKind.term_valid made)
              (Nat.lt_succ_of_le shorter)
        | throws error => exact follows_throws error _
        | aborts => exact follows_aborts _
        | diverges => exact absurd made TokenKind.term_ends
      · simp only [tokenResult, if_neg fits, Reading.scan]
        exact follows_aborts _

theorem pscalar_nothing (none : tokenKind c = none) (state : FormatState) :
    pscalar library c state = (.returns .none, state) := by
  unfold tokenKind at none
  unfold pscalar
  split at none
  · cases none
  · rename_i lower
    rw [if_neg lower]
    split at none
    · cases none
    · rename_i upper
      rw [if_neg (by simpa using upper)]
      split at none
      · cases none
      · rename_i digit
        rw [if_neg (by simpa using digit)]
        split at none
        · cases none
        · rename_i double
          rw [if_neg double]
          split at none
          · cases none
          · rename_i single
            rw [if_neg single]
            rfl

/-- The cases of `pscalar` are the kinds of tokens. -/
theorem pscalar_run {kind : TokenKind} (library : CLibrary) (pap : List FormatArgument)
    (rest : Bytes) (solid : isNullChar c = false) (starts : tokenKind c = some kind) :
    ∃ reader : Formatter Bytes, reader ⟨c :: rest, pap⟩ = tokenResult pap (kind.token c rest) ∧
      pscalar library c = (do
        let bytes ← reader
        let term ← Effect.lift (kind.term library bytes)
        return some term) := by
  unfold tokenKind at starts
  unfold pscalar
  split at starts
  · rename_i lower
    cases starts
    exact ⟨patom, token_run isAtomByte solid, by rw [if_pos lower]; rfl⟩
  · rename_i lower
    rw [if_neg lower]
    split at starts
    · rename_i upper
      cases starts
      exact ⟨pvariable, token_run isWordByte solid, by rw [if_pos (by simpa using upper)]; rfl⟩
    · rename_i upper
      rw [if_neg (by simpa using upper)]
      split at starts
      · rename_i digit
        cases starts
        refine ⟨pdigit, pdigit_run solid, ?_⟩
        rw [if_pos (by simpa using digit)]
        congr 1
        funext bytes
        simp only [TokenKind.term, Effect.lift_returns_bind]
        split <;> rfl
      · rename_i digit
        rw [if_neg (by simpa using digit)]
        split at starts
        · rename_i double
          cases starts
          subst double
          exact ⟨pstring, pquoted_run solid (by decide), by rw [if_pos rfl]; rfl⟩
        · rename_i double
          rw [if_neg double]
          split at starts
          · rename_i single
            cases starts
            subst single
            exact ⟨pquotedatom, pquoted_run solid (by decide), by rw [if_pos rfl]; rfl⟩
          · cases starts

theorem follows_pscalar (solid : isNullChar c = false) (pap : List FormatArgument) :
    Follows library (Reading.scanned library opened c rest) (Reading.store opened) opened
      (fun term => term.isValid = true) (c :: rest).length
      (pscalar library c ⟨c :: rest, pap⟩) := by
  unfold Reading.scanned
  cases starts : tokenKind c with
  | none =>
      rw [pscalar_nothing starts]
      exact follows_none _
  | some kind =>
      obtain ⟨reader, ran, same⟩ := pscalar_run library pap rest solid starts
      rw [same]
      exact follows_token starts ran

end Scalars

section Brackets

variable {library : CLibrary} {eformat : Formatter (Option ErlTerm)} {fuel : Nat}
  {pap : List FormatArgument} {c : UInt8} {rest : Bytes} {opened : List Opened}

/-- The calls of `eformat` on texts below a length are followed by the reading. -/
def FollowsBelow (library : CLibrary) (eformat : Formatter (Option ErlTerm)) (bound : Nat) : Prop :=
  ∀ opened pap c rest, isNullChar c = false → (c :: rest).length < bound →
    FollowsTerm library (Reading.starts library opened c rest) opened (c :: rest).length
      (eformat ⟨c :: rest, pap⟩)

theorem step_reads {fmt : Bytes} (found : fmt.dropWhile isNullChar = c :: rest) :
    Comes (Reading.step library) (.reads opened fmt) (Reading.goesOn library opened c rest) := by
  apply Comes.one
  simp only [Reading.step, found]

/-- An element is stored in its bracket, and then the next round follows. -/
theorem follows_element {bracket : Bracket} {outer : List Opened} {rounds size : Nat}
    {v : List ErlTerm} {start : Reading}
    (element : Follows library start (Reading.store (⟨bracket, v⟩ :: outer))
      (⟨bracket, v⟩ :: outer) (fun term => term.isValid = true) size (eformat ⟨c :: rest, pap⟩))
    (later : ∀ term after, term.isValid = true → after.fmt.length < size →
      Comes (Reading.step library) (.reads (⟨bracket, v ++ [term]⟩ :: outer) after.fmt)
          .directive ∨
        Follows library (.reads (⟨bracket, v ++ [term]⟩ :: outer) after.fmt)
          (fun elems => Reading.store outer (bracket.term elems)) outer
          (fun elems => ∀ elem ∈ elems, elem.isValid = true) size
          (pelements eformat bracket.closing rounds (v ++ [term]) after)) :
    Comes (Reading.step library) start .directive ∨
      Follows library start (fun elems => Reading.store outer (bracket.term elems)) outer
        (fun elems => ∀ elem ∈ elems, elem.isValid = true) size
        ((do
          let term ← eformat
          if maxEntries ≤ v.length then
            Effect.lift .aborts
          else
            match term with
            | some term => pelements eformat bracket.closing rounds (v ++ [term])
            | none => return none : Formatter (Option (List ErlTerm))) ⟨c :: rest, pap⟩) := by
  obtain ⟨comes, returned, ends⟩ := element
  rw [Effect.bind_run]
  rcases ran : eformat ⟨c :: rest, pap⟩ with ⟨outcome, after⟩
  rw [ran] at comes returned ends
  cases outcome with
  | returns term =>
      by_cases room : (⟨bracket, v⟩ : Opened).Room
      · have entry : ¬ maxEntries ≤ v.length := Nat.not_le.mpr room
        simp only [if_neg entry]
        cases term with
        | some term =>
            obtain ⟨valid, shorter⟩ := returned term rfl
            have stored : Reading.store (⟨bracket, v⟩ :: outer) term after.fmt =
                .reads (⟨bracket, v ++ [term]⟩ :: outer) after.fmt := if_pos room
            rw [Reading.ofResult, stored] at comes
            exact (later term after valid shorter).imp comes.trans
              (·.after comes (le_refl _))
        | none =>
            rw [Reading.ofResult, Reading.lost_cons, if_pos room] at comes
            exact .inr ((follows_none after).after comes (le_refl _))
      · have none : maxEntries ≤ v.length := Nat.not_lt.mp room
        simp only [if_pos none]
        cases term with
        | some term =>
            have full : Reading.store (⟨bracket, v⟩ :: outer) term after.fmt = .outside :=
              if_neg room
            rw [Reading.ofResult, full] at comes
            exact .inr ((follows_aborts after).after comes (le_refl _))
        | none =>
            rw [Reading.ofResult, Reading.lost_cons, if_neg room] at comes
            exact .inr ((follows_aborts after).after comes (le_refl _))
  | throws error => exact .inr ((follows_throws error after).after comes (le_refl _))
  | aborts => exact .inr ((follows_aborts after).after comes (le_refl _))
  | diverges => exact absurd rfl ends

/-- The rounds of `ptuple` and `plist`. -/
theorem follows_pelements {bound : Nat} (follows : FollowsBelow library eformat bound)
    (bracket : Bracket) (outer : List Opened) {rounds : Nat} {v : List ErlTerm} (fmt : Bytes)
    (pap : List FormatArgument) (valid : ∀ elem ∈ v, elem.isValid = true) (enough : fmt.length < rounds)
    (below : fmt.length < bound) :
    Comes (Reading.step library) (.reads (⟨bracket, v⟩ :: outer) fmt) .directive ∨
      Follows library (.reads (⟨bracket, v⟩ :: outer) fmt)
        (fun elems => Reading.store outer (bracket.term elems)) outer
        (fun elems => ∀ elem ∈ elems, elem.isValid = true) fmt.length
        (pelements eformat bracket.closing rounds v ⟨fmt, pap⟩) := by
  induction rounds generalizing v fmt pap with
  | zero => exact absurd enough (Nat.not_lt_zero _)
  | succ rounds ih =>
      cases found : fmt.dropWhile isNullChar with
      | nil =>
          have stepped : Comes (Reading.step library) (.reads (⟨bracket, v⟩ :: outer) fmt)
              .outside := Comes.one (by simp only [Reading.step, found])
          rw [pelements_end found]
          exact .inr ((follows_aborts _).after stepped (le_refl _))
      | cons c rest =>
          have solid := solid_of_dropWhile found
          have stepped : Comes (Reading.step library) (.reads (⟨bracket, v⟩ :: outer) fmt)
              (Reading.goesOn library (⟨bracket, v⟩ :: outer) c rest) := step_reads found
          have shorter := (List.dropWhile_suffix isNullChar (l := fmt)).length_le
          rw [found, List.length_cons] at shorter
          rw [pelements_run found]
          by_cases closes : c = bracket.closing
          · rw [if_pos closes]
            rw [Reading.goesOn, if_pos closes] at stepped
            refine .inr ⟨stepped, ?_, fun same => by cases same⟩
            rintro _ ⟨⟩
            exact ⟨valid, shorter⟩
          · rw [if_neg closes]
            rw [Reading.goesOn, if_neg closes] at stepped
            by_cases separates : c = comma
            · rw [if_pos separates]
              rw [if_pos separates] at stepped
              rcases ih rest pap valid (by omega) (by omega) with directive | later
              · exact .inl (stepped.trans directive)
              · exact .inr (later.after stepped (by omega))
            · rw [if_neg separates]
              rw [if_neg separates] at stepped
              rcases follows (⟨bracket, v⟩ :: outer) pap c rest solid
                (by rw [List.length_cons]; omega) with directive | element
              · exact .inl (stepped.trans directive)
              · have extended : ∀ term : ErlTerm, term.isValid = true →
                    ∀ elem ∈ v ++ [term], elem.isValid = true := by
                  intro term here
                  rw [List.forall_mem_append, List.forall_mem_singleton]
                  exact ⟨valid, here⟩
                rw [← List.length_cons] at shorter
                refine (follows_element element fun term after here behind => ?_).imp
                  stepped.trans (·.after stepped shorter)
                rw [List.length_cons] at behind shorter
                exact (ih after.fmt after.pap (extended term here) (by omega) (by omega)).imp_right
                  (·.after Comes.refl (by rw [List.length_cons]; omega))

theorem follows_made {construct : List ErlTerm → Call ErlTerm} {bracket : Bracket}
    (constructs : ∀ elems : List ErlTerm, (∀ elem ∈ elems, elem.isValid = true) →
      construct elems = .returns (bracket.term elems))
    {call : Formatter (Option (List ErlTerm))} {state : FormatState} {start : Reading} {size : Nat}
    (elems : Follows library start (fun elems => Reading.store opened (bracket.term elems)) opened
      (fun elems => ∀ elem ∈ elems, elem.isValid = true) size (call state)) :
    Follows library start (Reading.store opened) opened (fun term => term.isValid = true) size
      ((do
        let elems ← call
        made construct elems : Formatter (Option ErlTerm)) state) := by
  obtain ⟨comes, returned, ends⟩ := elems
  rw [Effect.bind_run]
  rcases ran : call state with ⟨outcome, after⟩
  rw [ran] at comes returned ends
  cases outcome with
  | returns elems =>
      cases elems with
      | some elems =>
          obtain ⟨valid, shorter⟩ := returned elems rfl
          have built : made construct (some elems) after =
              (.returns (some (bracket.term elems)), after) := by
            rw [made, constructs elems valid, Effect.lift_returns_bind]
            rfl
          simp only [built]
          exact (follows_term after bracket.term_valid shorter).after comes (le_refl _)
      | none => exact (follows_none after).after comes (le_refl _)
  | throws error => exact (follows_throws error after).after comes (le_refl _)
  | aborts => exact (follows_aborts after).after comes (le_refl _)
  | diverges => exact absurd rfl ends

theorem follows_pchar (pap : List FormatArgument) :
    Follows library (Reading.lettered opened rest) (Reading.store opened) opened
      (fun term => term.isValid = true) (c :: rest).length (pchar ⟨rest, pap⟩) := by
  cases rest with
  | nil => exact follows_aborts ⟨[], pap⟩
  | cons letter behind =>
      have shorter : behind.length < (c :: letter :: behind).length := by
        simp only [List.length_cons]
        omega
      exact follows_term ⟨behind, pap⟩ rfl shorter

theorem follows_bracketed (follows : FollowsBelow library eformat fuel)
    (pap : List FormatArgument) (below : rest.length < fuel) :
    FollowsTerm library (Reading.listed opened rest) opened (c :: rest).length
      (bracketed eformat fuel ⟨rest, pap⟩) := by
  cases rest with
  | nil => exact .inr (follows_aborts ⟨[], pap⟩)
  | cons first behind =>
      have read : peek ⟨first :: behind, pap⟩ = (.returns first, ⟨first :: behind, pap⟩) := rfl
      rw [bracketed, Effect.bind_of_returns read]
      by_cases ended : first = rightBracket
      · simp only [Reading.listed, if_pos ended]
        have shorter : behind.length < (c :: first :: behind).length := by
          simp only [List.length_cons]
          omega
        exact .inr (follows_term ⟨behind, pap⟩ rfl shorter)
      · simp only [Reading.listed, if_neg ended]
        refine (follows_pelements follows .list opened (first :: behind) pap (List.forall_mem_nil _)
          below below).imp_right fun elems => ?_
        exact (follows_made (fun elems valid => newConsList_valid valid) elems).after Comes.refl
          (Nat.le_succ _)

/-- The body of `eformat` is followed where the calls for the elements are. -/
theorem follows_eformatNext (follows : FollowsBelow library eformat fuel) :
    FollowsBelow library (eformatNext library eformat fuel) (fuel + 1) := by
  intro opened pap c rest solid below
  have behind : rest.length < fuel := Nat.lt_of_succ_lt_succ below
  have found := @dropWhile_solid c rest solid
  rw [@eformatNext_run _ _ _ ⟨c :: rest, pap⟩ _ _ found]
  unfold Reading.starts
  split
  · refine (follows_pelements follows .tuple opened rest pap (List.forall_mem_nil _) behind
      behind).imp_right fun elems => ?_
    exact (follows_made (fun elems valid => newTuple_valid valid) elems).after Comes.refl
      (Nat.le_succ _)
  · split
    · exact follows_bracketed follows pap behind
    · split
      · exact .inr (follows_pchar pap)
      · split
        · exact .inl Comes.refl
        · exact .inr (follows_pscalar solid pap)

theorem follows_eformat (library : CLibrary) (fuel : Nat) :
    FollowsBelow library (Parse.eformat library fuel) fuel := by
  induction fuel with
  | zero => exact fun _ _ _ _ _ below => absurd below (Nat.not_lt_zero _)
  | succ fuel ih => exact follows_eformatNext ih

end Brackets

/-- With a bound above the length of its text, `eformat` comes to what the reading comes to. -/
theorem eformat_follows {library : CLibrary} {fuel : Nat} (fmt : Bytes)
    (pap : List FormatArgument) (enough : fmt.length < fuel) :
    FollowsTerm library (.reads [] fmt) [] fmt.length (eformat library fuel ⟨fmt, pap⟩) := by
  cases fuel with
  | zero => exact absurd enough (Nat.not_lt_zero _)
  | succ fuel =>
      cases found : fmt.dropWhile isNullChar with
      | nil =>
          have stepped : Comes (Reading.step library) (.reads [] fmt) .outside :=
            Comes.one (by simp only [Reading.step, found])
          rw [eformat, eformatNext_end found]
          exact .inr ((follows_aborts _).after stepped (le_refl _))
      | cons c rest =>
          have solid := solid_of_dropWhile found
          have again := @dropWhile_solid c rest solid
          have shorter := (List.dropWhile_suffix isNullChar (l := fmt)).length_le
          rw [found] at shorter
          have same : eformat library (fuel + 1) ⟨fmt, pap⟩ =
              eformat library (fuel + 1) ⟨c :: rest, pap⟩ := by
            rw [eformat, eformatNext_run found, @eformatNext_run _ _ _ ⟨c :: rest, pap⟩ _ _ again]
          rw [same]
          exact (follows_eformat library (fuel + 1) [] pap c rest solid (by omega)).imp
            (step_reads found).trans (·.after (step_reads found) shorter)

/-- The reading of a text does not come to a directive. -/
def Undirected (library : CLibrary) (fmt : Bytes) : Prop :=
  ¬ Comes (Reading.step library) (.reads [] fmt) .directive

section Outcomes

variable {library : CLibrary} {fuel : Nat} {fmt : Bytes}
  {result : Outcome EpiException (Option ErlTerm) × FormatState}

theorem ofResult_read {term : ErlTerm} {rest : Bytes} :
    Reading.ofResult .read [] result = .read term rest ↔
      ∃ after, result = (.returns (some term), after) ∧ after.fmt = rest := by
  rcases result with ⟨(_ | other) | error | - | -, after⟩ <;>
    simp [Reading.ofResult, Reading.lost]

theorem ofResult_nothing :
    Reading.ofResult .read [] result = .nothing ↔ result.1 = .returns none := by
  rcases result with ⟨(_ | other) | error | - | -, after⟩ <;>
    simp [Reading.ofResult, Reading.lost]

theorem ofResult_refused {error : EpiException} :
    Reading.ofResult .read [] result = .refused error ↔ result.1 = .throws error := by
  rcases result with ⟨(_ | other) | error | - | -, after⟩ <;>
    simp [Reading.ofResult, Reading.lost]

theorem ofResult_outside (ends : result.1 ≠ .diverges) :
    Reading.ofResult .read [] result = .outside ↔ result.1 = .aborts := by
  rcases result with ⟨(_ | other) | error | - | -, after⟩ <;>
    simp_all [Reading.ofResult, Reading.lost]

/-- The reading of the whole text ends where the call does. -/
theorem ofResult_iff (pap : List FormatArgument) (enough : fmt.length < fuel)
    (plain : Undirected library fmt) {last : Reading}
    (ended : Reading.step library last = none) :
    Reading.ofResult .read [] (eformat library fuel ⟨fmt, pap⟩) = last ↔
      Comes (Reading.step library) (.reads [] fmt) last := by
  have comes : Comes (Reading.step library) (.reads [] fmt)
      (Reading.ofResult .read [] (eformat library fuel ⟨fmt, pap⟩)) :=
    ((eformat_follows fmt pap enough).resolve_left plain).comes
  constructor
  · rintro rfl
    exact comes
  · intro ends
    refine comes.end_unique ends ?_ ended
    rcases eformat library fuel ⟨fmt, pap⟩ with ⟨(_ | term) | error | - | -, after⟩ <;> rfl

/-- A reading that ends otherwise does not come to a directive. -/
theorem undirected_of_end {last : Reading}
    (comes : Comes (Reading.step library) (.reads [] fmt) last)
    (ended : Reading.step library last = none) (other : last ≠ .directive) :
    Undirected library fmt :=
  fun directive => other (comes.end_unique directive ended rfl)

theorem eformat_some_iff (pap : List FormatArgument) (enough : fmt.length < fuel)
    (plain : Undirected library fmt) {term : ErlTerm} {rest : Bytes} :
    (∃ after, eformat library fuel ⟨fmt, pap⟩ = (.returns (some term), after) ∧
      after.fmt = rest) ↔ Comes (Reading.step library) (.reads [] fmt) (.read term rest) := by
  rw [← ofResult_read, ofResult_iff pap enough plain rfl]

theorem eformat_none_iff (pap : List FormatArgument) (enough : fmt.length < fuel)
    (plain : Undirected library fmt) :
    (eformat library fuel ⟨fmt, pap⟩).1 = .returns none ↔
      Comes (Reading.step library) (.reads [] fmt) .nothing := by
  rw [← ofResult_nothing, ofResult_iff pap enough plain rfl]

theorem eformat_throws_iff (pap : List FormatArgument) (enough : fmt.length < fuel)
    (plain : Undirected library fmt) {error : EpiException} :
    (eformat library fuel ⟨fmt, pap⟩).1 = .throws error ↔
      Comes (Reading.step library) (.reads [] fmt) (.refused error) := by
  rw [← ofResult_refused, ofResult_iff pap enough plain rfl]

theorem eformat_aborts_iff (pap : List FormatArgument) (enough : fmt.length < fuel)
    (plain : Undirected library fmt) :
    (eformat library fuel ⟨fmt, pap⟩).1 = .aborts ↔
      Comes (Reading.step library) (.reads [] fmt) .outside := by
  have ends := ((eformat_follows fmt pap enough).resolve_left plain).ends
  rw [← ofResult_outside ends, ofResult_iff pap enough plain rfl]

end Outcomes

/-- The conversions of texts whose whole numbers are in the range of `int`. -/
def wholeNumbers : CLibrary := ⟨dottedValue, fun _ => 0⟩

/-- A tuple of an atom in quotes, a list of two numerals and a string. -/
def mixedText : Bytes := text "\x7b'a b', [-1, 2.5], \"x\"\x7d"

end Epi.Parse
