import Epi.Buffer.Progress
import Epi.Parse.HollowLists
import Epi.Type.Conses

namespace Epi.Buffer

open Verification Epi.Type Epi.Parse ExternalFormat

section Writing

variable {ei : Ei} {binding : Option VariableBinding} {list : ErlConsList}

/-- The elements of a list are inside of it. -/
theorem writeElements_errs {writeTerm : ErlTerm → Method EIOutputBuffer Unit}
    (errs : ∀ elem, Effect.Errs OtherError (writeTerm elem)) (remaining index : Nat)
    (inside : index + remaining ≤ list.arity) :
    Effect.Errs OtherError
      (EIOutputBuffer.writeElements writeTerm list.elementAt remaining index) := by
  induction remaining generalizing index with
  | zero => exact Effect.errs_pure ()
  | succ remaining ih =>
      have read : ∀ error, list.elementAt index = .throws error → OtherError error := by
        intro error thrown
        unfold ErlConsList.elementAt at thrown
        split at thrown
        · cases thrown
          exact fun same => by cases same
        · split at thrown
          · omega
          · split at thrown <;> cases thrown
      apply (Effect.errs_lift read).bind
      intro elem
      exact (errs elem).bind fun _ => ih (index + 1) (by omega)

/-- Writing a valid list raises `EpiBadArgument` exactly when there is no element. -/
theorem write_raises_iff (valid : list.toTerm.Valid) (fuel : Nat) (buffer : EIOutputBuffer) :
    RaisesBadArgument (EIOutputBuffer.writeNext ei binding
      (fun elem => EIOutputBuffer.writeTerm ei binding fuel (some elem)) (some list.toTerm)
        buffer).1 ↔ list.arity = 0 := by
  obtain ⟨mInitialized, elems⟩ := list
  constructor
  · intro raised
    by_contra some
    have errs : ∀ elem, Effect.Errs OtherError
        (EIOutputBuffer.writeTerm ei binding fuel (Option.some elem)) := by
      intro elem
      cases fuel with
      | zero => exact Effect.errs_lift fun _ thrown => by cases thrown
      | succ fuel => exact errs_throwsOnly rfl _
    have header : Effect.Errs OtherError
        (EIOutputBuffer.appendUnchecked
          (ei.encodeListHeader (ErlConsList.arity ⟨mInitialized, elems⟩))) :=
      fun _ _ thrown => by cases thrown
    refine not_raises_of_errs (header.bind fun _ => ?_) buffer raised
    apply (writeElements_errs errs _ 0 (by omega)).bind
    intro _
    apply (Effect.errs_lift fun error thrown =>
      ErlConsList.tail_errs (Nat.pos_of_ne_zero some) thrown).bind
    exact errs
  · intro none
    obtain ⟨tail, alone⟩ := ErlConsList.alone_of_arity valid none
    cases alone
    exact ⟨_, rfl, rfl⟩

end Writing

/-- What `readTerm` decodes is made of conses. -/
theorem readTerm_consed {ei : Ei} (forward : ei.Forward) {fuel : Nat}
    {buffer after : EIInputBuffer} (inside : buffer.mDecodeIndex ≤ buffer.buff.length)
    (few : buffer.buff.length < buffer.mDecodeIndex + fuel) {term : ErlTerm}
    (ran : EIInputBuffer.readTerm ei fuel buffer = (.returns (some term), after))
    (flag : term.isValid = true) : term.Consed := by
  have settled := (readTerm_progress forward inside few).1
  rw [ran] at settled
  have whole : Whole term := settled term rfl flag
  exact ErlTerm.consed_of_celled whole.valid whole.celled

/-- The valid lists of every sequence of calls are conses exactly when no call closes a list without
elements. What `subst` returns is made of conses again unless it closes an open list of one entry.
A list that `format` makes is a cons unless only blanks and commas stand in its brackets, and all
lists of what it makes are conses unless the reading of its text comes to such brackets. All that
`readTerm` decodes is made of conses. Asking a valid list for its last tail, matching it and
writing it raise `EpiBadArgument` exactly when it has no element. -/
theorem valid_consLists_iff (library : CLibrary) (ei : Ei) (forward : ei.Forward) :
    (∀ calls : List PoolCall, (Pool.after [] calls).Consed ↔ ∀ before call later,
      calls = before ++ call :: later → ¬ call.ClosesEmpty (Pool.after [] before)) ∧
    (∀ (binding : Option VariableBinding) (term : ErlTerm) (result : Substituted),
      ErlTerm.ConsedValues binding → term.Built → term.Consed →
        term.subst binding = .returns result → (result.term.Consed ↔ ¬ term.ClosesAlone)) ∧
    (∀ fuel state rest term after, state.fmt.dropWhile isNullChar = leftBracket :: rest →
      eformat library fuel state = (.returns (some term), after) →
        (term.consNode = true ↔ ¬ Hollow rest)) ∧
    (∀ fuel formatStr arguments term, ConsedArguments arguments →
      format library fuel formatStr arguments = .returns term →
        (¬ ReadsHollow library (terminated formatStr) → term.Consed) ∧
        (ValidArguments arguments →
          (term.Consed ↔ ¬ ReadsHollow library (terminated formatStr)))) ∧
    (∀ fuel (buffer : EIInputBuffer) term after, buffer.mDecodeIndex ≤ buffer.buff.length →
      buffer.buff.length < buffer.mDecodeIndex + fuel →
        EIInputBuffer.readTerm ei fuel buffer = (.returns (some term), after) →
          term.isValid = true → term.Consed) ∧
    ∀ list : ErlConsList, list.toTerm.Valid →
      (RaisesBadArgument (list.tail (unsignedPred list.arity)) ↔ list.arity = 0) ∧
      ((∃ fuel pattern binding, RaisesBadArgument
        (ErlConsList.internalMatch (ErlTerm.internalMatch fuel) list pattern binding).1) ↔
          list.arity = 0) ∧
      ∀ binding fuel buffer, RaisesBadArgument (EIOutputBuffer.writeNext ei binding
        (fun elem => EIOutputBuffer.writeTerm ei binding fuel (some elem)) (some list.toTerm)
          buffer).1 ↔ list.arity = 0 := by
  refine ⟨fun calls => ?_, ?_, ?_, ?_, ?_, fun list valid => ⟨?_, ?_, ?_⟩⟩
  · rw [Pool.consed_after_iff Pool.sound_empty calls]
    refine and_iff_right fun this elems found => ?_
    cases found
  · exact fun binding term result values built consed ran =>
      ErlTerm.subst_consed_iff values built consed ran
  · exact fun fuel state rest term after found ran => eformat_consNode_iff found ran
  · exact fun fuel formatStr arguments term consed ran => format_consed_iff consed ran
  · exact fun fuel buffer term after inside few ran flag =>
      readTerm_consed forward inside few ran flag
  · exact ErlConsList.tail_raises_iff valid
  · exact ErlConsList.match_raises_iff valid
  · exact fun binding fuel buffer => write_raises_iff valid fuel buffer

/-- A list that was closed without elements. -/
def tailOnly : ErlTerm := .erlConsList true [.simple .erlEmptyList]

/-- The list `[1]`. -/
def oneList : ErlTerm := .erlConsList true [.simple (.erlLong (some 1)), .simple .erlEmptyList]

/-- A string with brackets. -/
def bracketText : Bytes := text "\"[ ]\""

theorem valid_consLists_iff_lone :
    ¬ (Pool.after [] [.newConsList, .closeProper 0]).Consed ∧
    ¬ tailOnly.Consed ∧
    (tailOnly.consNode = true ↔ ¬ Hollow (text " ]")) ∧
    ReadsHollow wholeNumbers (terminated (text "[ ]")) ∧
    ¬ ReadsHollow wholeNumbers (terminated bracketText) ∧
    oneList.Consed ∧
    RaisesBadArgument (ErlConsList.tail ⟨true, [.simple .erlEmptyList]⟩ (unsignedPred 0)) := by
  obtain ⟨runs, substituted, listed, formatted, decoded, consumed⟩ :=
    valid_consLists_iff wholeNumbers externalFormat forward_externalFormat
  have opened : ErlTerm.Built (.erlConsList false [.simple .erlEmptyList]) :=
    ⟨by decide, by decide⟩
  have ran : eformat wholeNumbers 3 ⟨text "[ ]", []⟩ =
      (.returns (some tailOnly), ⟨[], []⟩) := by rfl
  have none : ConsedArguments [] := fun term member => absurd member List.not_mem_nil
  have read : EIInputBuffer.readTerm externalFormat 9 ⟨[108, 0, 0, 0, 1, 97, 1, 106], 0⟩ =
      (.returns (some oneList), ⟨[108, 0, 0, 0, 1, 97, 1, 106], 8⟩) := by rfl
  have valid : ValidArguments [] := fun term member => absurd member List.not_mem_nil
  have hollow := (formatted 3 (text "[ ]") [] tailOnly none rfl).1
  have quoted := ((formatted 2 bracketText [] (.simple (.erlString (some (text "[ ]")))) none
    rfl).2 valid).mp (by decide)
  have whole : oneList.Consed := decoded 9 _ oneList _ (by decide) (by decide) read rfl
  refine ⟨fun consed => ?_, fun consed => ?_, ?_, ?_, quoted, whole, ?_⟩
  · exact (runs _).mp consed [.newConsList] (.closeProper 0) [] rfl rfl
  · have values : ErlTerm.ConsedValues Option.none := fun held bound => by cases bound
    have kept := (substituted _ _ ⟨tailOnly, false⟩ values opened (by decide) rfl).mp consed
    exact kept rfl
  · exact listed 3 _ _ tailOnly _ (by rfl) ran
  · by_contra solid
    exact absurd (hollow solid) (by decide)
  · exact (consumed ⟨true, [.simple .erlEmptyList]⟩ (by decide)).1.mpr rfl

/-- A list that is closed at once is valid and has no element, and so is the one of two brackets with
a blank between them. Asked for its last tail, it raises `EpiBadArgument`. -/
theorem valid_consLists_empty :
    Pool.after [] [.newConsList, .closeProper 0] =
      [.erlConsList true [1], .simple .erlEmptyList] ∧
    format wholeNumbers 3 (text "[ ]") [] = .returns tailOnly ∧ tailOnly.Valid ∧
    ErlConsList.tail ⟨true, [.simple .erlEmptyList]⟩ (unsignedPred 0) =
      .throws (.badArgument "Index grater than arity") ∧
    (¬ ∀ calls, (Pool.after [] calls).Consed) ∧
    ¬ ∀ library fuel formatStr term, format library fuel formatStr [] = .returns term →
      term.Consed := by
  have built : Pool.after [] [.newConsList, .closeProper 0] =
      [.erlConsList true [1], .simple .erlEmptyList] := rfl
  refine ⟨built, rfl, by decide, rfl, fun conses => ?_, fun conses => ?_⟩
  · have cons := conses [.newConsList, .closeProper 0]
    rw [built] at cons
    exact absurd (cons 0 [1] rfl).1 (by decide)
  · exact absurd (conses wholeNumbers 3 (text "[ ]") tailOnly rfl) (by decide)

end Epi.Buffer
