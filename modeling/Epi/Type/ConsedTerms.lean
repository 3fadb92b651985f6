import Epi.Type.MatchExceptions
import Epi.Type.SubstIncomplete

namespace Epi.Type

open Verification

namespace ErlTerm

/-- A valid list has an element before its tail, and the tail is no list. -/
def consNode : ErlTerm → Bool
  | .erlConsList true elems => decide (1 ≤ ErlConsList.arity ⟨true, elems⟩) && closedBy elems
  | _ => true

/-- Every valid list of the term is a cons. -/
def Consed (term : ErlTerm) : Prop := term.every consNode = true

instance (term : ErlTerm) : Decidable term.Consed := inferInstanceAs (Decidable (_ = true))

/-- An open list of one entry that comes back as its own pointer. -/
def ClosesAlone : ErlTerm → Prop
  | .erlConsList false [elem] => elem.keeps = true
  | _ => False

theorem consNode_iff {elems : List ErlTerm} :
    consNode (.erlConsList true elems) = true ↔ 2 ≤ elems.length ∧ closedBy elems = true := by
  rw [consNode, Bool.and_eq_true, decide_eq_true_eq]
  refine and_congr_left fun closed => ?_
  obtain ⟨cells, tail, rfl, -⟩ := closedBy_split closed
  rw [ErlConsList.arity_concat, List.length_append, List.length_singleton]
  omega

/-- A valid term whose lists have two entries is made of conses. -/
theorem consed_of_celled {term : ErlTerm} (valid : term.Valid) (celled : term.Celled) :
    term.Consed := by
  induction term with
  | simple value =>
      rw [Consed, every_simple]
      rfl
  | erlTuple mInitialized mArity elems ih =>
      rw [Consed, every_erlTuple]
      have parts := (every_erlTuple ..).mp celled
      exact ⟨rfl, fun elem member =>
        ih elem member ((valid_erlTuple.mp valid).2.2 elem member) (parts.2 elem member)⟩
  | erlConsList mInitialized elems ih =>
      obtain ⟨flag, closed, valids⟩ := valid_erlConsList.mp valid
      subst flag
      have parts := (every_erlConsList ..).mp celled
      rw [Consed, every_erlConsList, consNode_iff]
      exact ⟨⟨by simpa [cellNode] using parts.1, closed⟩, fun elem member =>
        ih elem member (valids elem member) (parts.2 elem member)⟩
  | erlVariable mName =>
      rw [Consed, every_erlVariable]
      rfl

section Subst

variable {binding : Option VariableBinding}

/-- The values are terms that the public operations can leave behind, and their lists are conses. -/
def ConsedValues (binding : Option VariableBinding) : Prop :=
  ∀ held ∈ binding, held.Values fun value => value.Built ∧ value.Consed

theorem ConsedValues.built (values : ConsedValues binding) : ∀ held ∈ binding, held.Values Built :=
  fun held bound name value search => (values held bound name value search).1

/-- The value of a variable is made of conses. -/
theorem ConsedValues.valueOf (values : ConsedValues binding) {mName : Bytes} {value : ErlTerm}
    (known : valueOf binding mName = some value) : value.Consed := by
  obtain ⟨held, bound, search⟩ := Option.bind_eq_some_iff.mp (valueOf_eq_some.mp known).2
  exact (values held bound mName value search).2

/-- A list that is filled has as many entries as before. -/
theorem consNode_filled (values : ConsedValues binding) {mInitialized : Bool}
    {elems : List ErlTerm} (built : (erlConsList mInitialized elems).Built)
    (ran : (erlConsList mInitialized elems).subst binding =
      .returns ⟨.erlConsList true (elems.map (substituted binding)), same⟩) :
    consNode (.erlConsList true (elems.map (substituted binding))) = true ↔ 2 ≤ elems.length := by
  have closed := (subst_built values.built built ran).2 rfl
  rw [consNode_iff, and_iff_left closed, List.length_map]

/-- The substitution of a valid term of conses is a term of conses. -/
theorem consed_substituted (values : ConsedValues binding) {term : ErlTerm} (valid : term.Valid)
    (fine : term.Fine binding) (consed : term.Consed) : (term.substituted binding).Consed := by
  induction term with
  | simple value => rwa [substituted]
  | erlTuple mInitialized mArity elems ih =>
      rw [substituted_erlTuple]
      split
      · exact consed
      · have parts := (every_erlTuple ..).mp consed
        rw [Consed, every_erlTuple, List.forall_mem_map]
        exact ⟨rfl, fun elem member => ih elem member ((valid_erlTuple.mp valid).2.2 elem member)
          (fine.parts elem member) (parts.2 elem member)⟩
  | erlConsList mInitialized elems ih =>
      have ran := (subst_of_fine valid fine).1
      obtain ⟨flag, -, valids⟩ := valid_erlConsList.mp valid
      subst flag
      have parts := (every_erlConsList ..).mp consed
      rw [substituted_erlConsList] at ran ⊢
      split
      · rename_i kept
        rw [if_pos kept] at ran
        rw [Consed, every_erlConsList, List.forall_mem_map, consNode_filled values valid.built ran]
        exact ⟨(consNode_iff.mp parts.1).1, fun elem member => ih elem member (valids elem member)
          (fine.parts elem member) (parts.2 elem member)⟩
      · exact consed
  | erlVariable mName =>
      have known : (valueOf binding mName).any isValid = true := every_self fine
      obtain ⟨value, some, -⟩ := (Option.any_eq_true _ _).mp known
      rw [substituted_erlVariable some]
      exact values.valueOf some

/-- An open list that is closed alone is one that changes nothing else. -/
theorem closesAlone_keeps {mInitialized : Bool} {elems : List ErlTerm}
    (alone : (erlConsList mInitialized elems).ClosesAlone) : elems.any keeps = true := by
  unfold ClosesAlone at alone
  split at alone
  · rename_i elem same
    cases same
    simpa using alone
  · cases alone

/-- Of the lists with an entry that comes back as it was, the others have an element. -/
theorem not_closesAlone_iff {mInitialized : Bool} {elems : List ErlTerm}
    (consed : (erlConsList mInitialized elems).Consed) (kept : elems.any keeps = true) :
    ¬ (erlConsList mInitialized elems).ClosesAlone ↔ 2 ≤ elems.length := by
  cases mInitialized with
  | true =>
      have parts := (every_erlConsList ..).mp consed
      exact iff_of_true id (consNode_iff.mp parts.1).1
  | false =>
      cases elems with
      | nil => cases kept
      | cons elem rest =>
          cases rest with
          | nil =>
              have alone : elem.keeps = true := by simpa using kept
              refine iff_of_false (not_not_intro alone) ?_
              rw [List.length_singleton]
              omega
          | cons other rest =>
              refine iff_of_true id ?_
              rw [List.length_cons, List.length_cons]
              omega

/-- What `subst` returns is made of conses again, unless an open list of one entry is closed. -/
theorem subst_consed_iff (values : ConsedValues binding) {term : ErlTerm} (built : term.Built)
    (consed : term.Consed) {result : Substituted} (ran : term.subst binding = .returns result) :
    result.term.Consed ↔ ¬ term.ClosesAlone := by
  cases term with
  | simple value =>
      rw [subst] at ran
      split at ran
      · cases ran
        exact iff_of_true consed id
      · cases ran
  | erlTuple mInitialized mArity elems =>
      obtain ⟨fines, same⟩ := subst_tuple_returns built ran
      have parts := (every_erlTuple ..).mp consed
      refine iff_of_true ?_ id
      rw [same, substituted_erlTuple]
      split
      · exact consed
      · rw [Consed, every_erlTuple, List.forall_mem_map]
        exact ⟨rfl, fun elem member =>
          consed_substituted values (built.1 elem member) (fines elem member) (parts.2 elem member)⟩
  | erlConsList mInitialized elems =>
      obtain ⟨fines, same⟩ := subst_consList_returns built ran
      have parts := (every_erlConsList ..).mp consed
      obtain ⟨term, pointer⟩ := result
      dsimp only at same ⊢
      rw [same]
      split
      · rename_i kept
        rw [if_pos kept] at same
        subst same
        have each : ∀ elem ∈ elems, (elem.substituted binding).every consNode = true :=
          fun elem member => consed_substituted values (built.1 elem member) (fines elem member)
            (parts.2 elem member)
        rw [Consed, every_erlConsList, List.forall_mem_map, consNode_filled values built ran,
          and_iff_left each, not_closesAlone_iff consed kept]
      · rename_i changed
        refine iff_of_true consed fun alone => ?_
        rw [closesAlone_keeps alone] at changed
        exact changed rfl
  | erlVariable mName =>
      exact iff_of_true (values.valueOf (subst_variable_returns ran)) id

end Subst

end ErlTerm

/-- The call raises `EpiBadArgument`. -/
def RaisesBadArgument {Value : Type} (outcome : Call Value) : Prop :=
  ∃ error, outcome = .throws error ∧ error.thrownClass = .epiBadArgument

/-- The errors of the other classes. -/
def OtherError (error : EpiException) : Prop := error.thrownClass ≠ .epiBadArgument

/-- A specification without `EpiBadArgument` lets only the other errors out. -/
theorem errs_throwsOnly {Object Value : Type} {listed : List ExceptionClass}
    (other : listed.any ExceptionClass.epiBadArgument.isA = false) (call : Method Object Value) :
    Effect.Errs OtherError (Method.throwsOnly listed call) := by
  intro object error thrown same
  have allowed := (Call.throwsOnly_eq_throws.mp thrown).2
  rw [same, other] at allowed
  cases allowed

theorem not_raises_of_errs {Object Value : Type} {call : Method Object Value}
    (errs : Effect.Errs OtherError call) (object : Object) :
    ¬ RaisesBadArgument (call object).1 := by
  rintro ⟨error, thrown, same⟩
  exact errs object error thrown same

namespace ErlConsList

/-- The last tail of a list with an element is inside of it. -/
theorem tail_errs {list : ErlConsList} (some : 1 ≤ list.arity) {error : EpiException}
    (thrown : list.tail (unsignedPred list.arity) = .throws error) : OtherError error := by
  unfold tail at thrown
  split at thrown
  · cases thrown
    exact nofun
  · split at thrown
    · rename_i outside
      rw [unsignedPred, if_neg (by omega)] at outside
      omega
    · split at thrown
      · cases thrown
      · split at thrown <;> cases thrown

theorem matchElements_errs {call : Matcher}
    (errs : ∀ this pattern, Effect.Errs OtherError (call this pattern))
    (elems others : List ErlTerm) : Effect.Errs OtherError (matchElements call elems others) := by
  induction elems generalizing others with
  | nil => exact Effect.errs_pure true
  | cons elem rest ih =>
      cases others with
      | nil => exact Effect.errs_lift fun _ thrown => by cases thrown
      | cons other otherRest =>
          apply (errs elem other).bind
          intro success
          split
          · exact ih otherRest
          · exact Effect.errs_pure false

/-- The matching of a list with an element raises no `EpiBadArgument`. -/
theorem internalMatch_errs {call : Matcher}
    (errs : ∀ this pattern, Effect.Errs OtherError (call this pattern))
    {list : ErlConsList} (some : 1 ≤ list.arity) (pattern : ErlTerm) :
    Effect.Errs OtherError (internalMatch call list pattern) := by
  unfold internalMatch
  split
  · exact errs pattern list.toTerm
  · split
    · exact Effect.errs_pure false
    · split
      · rename_i mInitialized mElementVector _
        dsimp only
        split
        · exact Effect.errs_pure false
        · rename_i same
          rw [ne_eq, not_not] at same
          apply (matchElements_errs errs _ _).bind
          intro success
          split
          · rw [same] at some ⊢
            apply (Effect.errs_lift fun error thrown => tail_errs some thrown).bind
            intro patternTail
            split
            · exact errs _ patternTail
            · exact Effect.errs_lift fun _ thrown => by cases thrown
          · exact Effect.errs_pure false
      · exact Effect.errs_pure false

variable {list : ErlConsList}

/-- A valid list without elements has only its tail. -/
theorem alone_of_arity (valid : list.toTerm.Valid) (none : list.arity = 0) :
    ∃ tail, list = ⟨true, [tail]⟩ := by
  obtain ⟨mInitialized, elems⟩ := list
  obtain ⟨flag, closed, -⟩ := ErlTerm.valid_erlConsList.mp valid
  subst flag
  obtain ⟨cells, tail, rfl, -⟩ := ErlTerm.closedBy_split closed
  rw [arity_concat, List.length_eq_zero_iff] at none
  subst none
  exact ⟨tail, rfl⟩

/-- The last tail of a valid list is refused exactly when there is no element. -/
theorem tail_raises_iff (valid : list.toTerm.Valid) :
    RaisesBadArgument (list.tail (unsignedPred list.arity)) ↔ list.arity = 0 := by
  constructor
  · rintro ⟨error, thrown, same⟩
    by_contra some
    exact tail_errs (Nat.pos_of_ne_zero some) thrown same
  · intro none
    obtain ⟨tail, rfl⟩ := alone_of_arity valid none
    exact ⟨_, tail_alone tail, rfl⟩

/-- The matching of a valid list raises `EpiBadArgument` for some pattern exactly when there is no
element. -/
theorem match_raises_iff (valid : list.toTerm.Valid) :
    (∃ fuel pattern binding, RaisesBadArgument
      (internalMatch (ErlTerm.internalMatch fuel) list pattern binding).1) ↔ list.arity = 0 := by
  constructor
  · rintro ⟨fuel, pattern, binding, raised⟩
    by_contra some
    have errs : ∀ this pattern, Effect.Errs OtherError (ErlTerm.internalMatch fuel this pattern) := by
      intro this pattern
      cases fuel with
      | zero => exact Effect.errs_lift fun _ thrown => by cases thrown
      | succ fuel => exact errs_throwsOnly rfl _
    exact not_raises_of_errs (internalMatch_errs errs (Nat.pos_of_ne_zero some) pattern) binding
      raised
  · intro none
    obtain ⟨tail, rfl⟩ := alone_of_arity valid none
    have refused : internalMatch (ErlTerm.internalMatch 0) ⟨true, [tail]⟩
        (.erlConsList true [tail]) = Effect.fail (.badArgument "Index grater than arity") :=
      @internalMatch_closed (ErlTerm.internalMatch 0) [] [] tail tail
    refine ⟨0, .erlConsList true [tail], .empty, ?_⟩
    rw [refused]
    exact ⟨_, rfl, rfl⟩

end ErlConsList

end Epi.Type
