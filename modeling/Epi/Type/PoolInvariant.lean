import Epi.Library.Acyclic
import Epi.Type.Pool

namespace Epi.Type

open Verification

/-- A tuple is valid when it holds as many elements as its arity says, and it never holds more. -/
def Object.Shaped : Object → Prop
  | .erlTuple mInitialized mArity mElementVector =>
      match mArity with
      | none => mInitialized = false ∧ mElementVector = []
      | some arity => mElementVector.length ≤ arity ∧
          (mInitialized = true ↔ mElementVector.length = arity)
  | _ => True

namespace Pool

def isConsList (pool : Pool) (address : Address) : Bool := pool[address]?.any Object.isConsList

/-- A valid list ends in a term that is no list. -/
def Closed (pool : Pool) : Object → Prop
  | .erlConsList true mElementVector =>
      ∃ last ∈ mElementVector.getLast?, pool.isConsList last = false
  | _ => True

/-- A term points to an element. -/
def Holds (pool : Pool) (upper lower : Address) : Prop :=
  ∃ object, pool[upper]? = some object ∧ lower ∈ object.elements

/-- What holds of all terms together after any calls. -/
structure Sound (pool : Pool) : Prop where
  shaped : ∀ (address : Address) (object : Object), pool[address]? = some object → object.Shaped
  closed : ∀ (address : Address) (object : Object), pool[address]? = some object → pool.Closed object
  elements : ∀ upper lower, pool.Holds upper lower → pool.valid lower = true
  grounded : Grounded pool.Holds

/-- All that a method does to the pool, one term at a time: it makes a term, or it fills one that is
not valid yet. -/
inductive Change (pool : Pool) : Pool → Prop
  | make (object : Object) (shaped : object.Shaped) (closed : pool.Closed object)
      (elements : ∀ elem ∈ object.elements, pool.valid elem = true) : Change pool (pool ++ [object])
  | fill (this : Address) (object after : Object) (found : pool[this]? = some object)
      (incomplete : object.isValid = false) (kind : after.isConsList = object.isConsList)
      (shaped : object.Shaped → after.Shaped) (closed : pool.Closed after)
      (elements : ∀ elem ∈ after.elements, elem ∈ object.elements ∨ pool.valid elem = true) :
      Change pool (pool.set this after)

section Change

variable {pool after : Pool}

theorem valid_iff {address : Address} :
    pool.valid address = true ↔ ∃ object, pool[address]? = some object ∧ object.isValid = true := by
  rw [valid, Option.any_eq_true_iff_get]
  constructor
  · rintro ⟨some, holds⟩
    exact ⟨_, (Option.some_get some).symm, holds⟩
  · rintro ⟨object, found, holds⟩
    exact ⟨by rw [found]; rfl, by simpa [found] using holds⟩

/-- A change leaves a valid term as it is. -/
theorem Change.keeps (change : Change pool after) {address : Address}
    (valid : pool.valid address = true) : after[address]? = pool[address]? := by
  obtain ⟨object, found, holds⟩ := valid_iff.mp valid
  cases change with
  | make object _ _ _ =>
      exact List.getElem?_append_left (List.getElem?_eq_some_iff.mp found).1
  | fill this other filled there incomplete _ _ _ _ =>
      have away : this ≠ address := by
        rintro rfl
        rw [found] at there
        rw [Option.some.inj there, incomplete] at holds
        cases holds
      exact List.getElem?_set_ne away

theorem Change.valid (change : Change pool after) {address : Address}
    (valid : pool.valid address = true) : after.valid address = true := by
  rw [Pool.valid, change.keeps valid]
  exact valid

theorem Change.isConsList (change : Change pool after) {address : Address}
    (valid : pool.valid address = true) : after.isConsList address = pool.isConsList address := by
  rw [Pool.isConsList, Pool.isConsList, change.keeps valid]

/-- A term of the changed pool was there before, or it is the new or the filled one. -/
theorem Change.cases (change : Change pool after) :
    ∃ this object, after[this]? = some object ∧ pool.valid this = false ∧
      (∀ address, address ≠ this → after[address]? = pool[address]?) ∧
      (Sound pool → object.Shaped) ∧ pool.Closed object ∧
      (Sound pool → ∀ elem ∈ object.elements, pool.valid elem = true) := by
  cases change with
  | make object shaped closed elements =>
      refine ⟨pool.length, object, by simp, by simp [Pool.valid], ?_, fun _ => shaped, closed,
        fun _ => elements⟩
      intro address away
      rcases lt_or_gt_of_ne away with inside | outside
      · exact List.getElem?_append_left inside
      · have before : pool[address]? = none := List.getElem?_eq_none outside.le
        rw [before]
        apply List.getElem?_eq_none
        simpa using outside
  | fill this object filled found incomplete _ shaped closed elements =>
      have inside := (List.getElem?_eq_some_iff.mp found).1
      refine ⟨this, filled, by simp [inside], by simp [Pool.valid, found, incomplete],
        fun address away => List.getElem?_set_ne (Ne.symm away),
        fun sound => shaped (sound.shaped this object found), closed, fun sound elem member => ?_⟩
      rcases elements elem member with old | valid
      · exact sound.elements this elem ⟨object, found, old⟩
      · exact valid

/-- A closed list stays closed, since its last entry stays as it is. -/
theorem Closed.change (change : Change pool after) {object : Object} (closed : pool.Closed object)
    (elements : ∀ elem ∈ object.elements, pool.valid elem = true) : after.Closed object := by
  cases object with
  | erlConsList mInitialized mElementVector =>
      cases mInitialized with
      | false => trivial
      | true =>
          obtain ⟨last, found, plain⟩ := closed
          refine ⟨last, found, ?_⟩
          rw [change.isConsList (elements last (List.mem_of_getLast? found))]
          exact plain
  | _ => trivial

/-- A change keeps a pool sound. Nothing points to the term that gets elements, for all that terms
point to is valid. -/
theorem Sound.change (sound : Sound pool) (change : Change pool after) : Sound after := by
  obtain ⟨this, object, found, fresh, others, shaped, closed, elements⟩ := change.cases
  have valid := elements sound
  have held : ∀ upper lower, after.Holds upper lower → pool.valid lower = true := by
    rintro upper lower ⟨holder, there, member⟩
    by_cases same : upper = this
    · subst same
      rw [found] at there
      obtain rfl := Option.some.inj there
      exact valid lower member
    · rw [others upper same] at there
      exact sound.elements upper lower ⟨holder, there, member⟩
  constructor
  · intro address other there
    by_cases same : address = this
    · subst same
      rw [found] at there
      obtain rfl := Option.some.inj there
      exact shaped sound
    · rw [others address same] at there
      exact sound.shaped address other there
  · intro address other there
    by_cases same : address = this
    · subst same
      rw [found] at there
      obtain rfl := Option.some.inj there
      exact closed.change change valid
    · rw [others address same] at there
      exact (sound.closed address other there).change change fun elem member =>
        sound.elements address elem ⟨other, there, member⟩
  · intro upper lower holds
    exact change.valid (held upper lower holds)
  · apply sound.grounded.grow this
    · rintro upper lower away ⟨holder, there, member⟩
      rw [others upper away] at there
      exact ⟨holder, there, member⟩
    · intro upper holds
      have valid := held upper this holds
      rw [fresh] at valid
      cases valid

end Change

/-- Changes one after the other. -/
abbrev Changes : Pool → Pool → Prop := Relation.ReflTransGen Change

theorem Sound.changes {pool after : Pool} (sound : Sound pool) (changes : Changes pool after) :
    Sound after := by
  induction changes with
  | refl => exact sound
  | tail before change ih => exact ih.change change

theorem Changes.keeps {pool after : Pool} (changes : Changes pool after) {address : Address}
    (valid : pool.valid address = true) : after[address]? = pool[address]? := by
  induction changes with
  | refl => rfl
  | @tail middle last before change ih =>
      have still : middle.valid address = true := by
        rw [Pool.valid, ih]
        exact valid
      rw [change.keeps still, ih]

/-- A method does no more than changes, whether it returns or throws. -/
def Evolves {Value : Type} (call : Method Pool Value) : Prop :=
  ∀ pool, Sound pool → Changes pool (call pool).2

section Rules

variable {First Second : Type}

theorem evolves_of_same {call : Method Pool First} (same : ∀ pool, (call pool).2 = pool) :
    Evolves call := by
  intro pool _
  rw [same pool]

theorem evolves_pure (value : First) : Evolves (pure value) := evolves_of_same fun _ => rfl

theorem evolves_lift (call : Call First) : Evolves (Effect.lift call) := evolves_of_same fun _ => rfl

theorem evolves_fail (error : EpiException) : Evolves (Effect.fail error : Method Pool First) :=
  evolves_of_same fun _ => rfl

theorem Evolves.bind {call : Method Pool First} {next : First → Method Pool Second}
    (first : Evolves call) (second : ∀ value, Evolves (next value)) : Evolves (call >>= next) := by
  intro pool sound
  have changes := first pool sound
  rw [Effect.bind_run]
  rcases ran : call pool with ⟨outcome, after⟩
  rw [ran] at changes
  cases outcome with
  | returns value => exact changes.trans (second value after (sound.changes changes))
  | _ => exact changes

theorem Evolves.mapOutcome {call : Method Pool First} (evolves : Evolves call)
    (transform : Call First → Call First) : Evolves (Effect.mapOutcome transform call) := by
  intro pool sound
  exact evolves pool sound

theorem Evolves.throwsOnly {call : Method Pool First} (evolves : Evolves call)
    (listed : List ExceptionClass) : Evolves (Method.throwsOnly listed call) :=
  evolves.mapOutcome _

end Rules

section Methods

/-- A new term without elements. -/
theorem evolves_alloc {object : Object} (shaped : object.Shaped) (none : object.elements = [])
    (incomplete : object.isConsList = true → object.isValid = false) : Evolves (alloc object) := by
  intro pool sound
  refine .single (.make object shaped ?_ ?_)
  · cases object with
    | erlConsList mInitialized mElementVector =>
        have flag : mInitialized = false := incomplete rfl
        subst flag
        trivial
    | _ => trivial
  · rw [none]
    exact List.forall_mem_nil _

/-- A constructor gives a term only if its method returns. -/
theorem evolves_construct {object : Object} (make : Evolves (alloc object))
    {init : Address → Method Pool Unit} (evolves : ∀ this, Evolves (init this)) :
    Evolves (construct object init) := by
  intro pool sound
  have made := make pool sound
  have changes := evolves pool.length (pool ++ [object]) (sound.changes made)
  rw [construct]
  rcases ran : init pool.length (pool ++ [object]) with ⟨outcome, after⟩
  rw [ran] at changes
  cases outcome with
  | returns value => exact made.trans changes
  | _ => exact .refl

theorem evolves_initSimple (this : Address) (arguments : SimpleArguments) :
    Evolves (initSimple this arguments) := by
  intro pool sound
  unfold initSimple
  split
  · rename_i value found
    split
    · exact .refl
    · split
      · exact .refl
      · rename_i incomplete
        have flag : (Object.simple value).isValid = false := by
          simpa [Object.isValid] using incomplete
        split
        · exact .single (.fill this _ _ found flag rfl (fun _ => trivial) trivial
            (List.forall_mem_nil _))
        · exact .refl
        · exact .refl
        · exact .refl
  · exact .refl

theorem evolves_initArity (this : Address) (arity : Nat) : Evolves (initArity this arity) := by
  intro pool sound
  unfold initArity
  split
  · rename_i mInitialized mArity mElementVector found
    split
    · exact .refl
    · rename_i incomplete
      simp only [Bool.or_eq_true, not_or, Bool.not_eq_true, Option.isSome_eq_false_iff,
        Option.isNone_iff_eq_none] at incomplete
      obtain ⟨flag, undefined⟩ := incomplete
      subst flag undefined
      refine .single (.fill this _ _ found rfl rfl ?_ trivial fun elem member => .inl member)
      rintro ⟨-, empty⟩
      subst empty
      refine ⟨Nat.zero_le arity, ?_⟩
      rw [beq_iff_eq, eq_comm]
      rfl
  · exact .refl

theorem evolves_initElement (this : Address) (elem : Option Address) :
    Evolves (initElement this elem) := by
  intro pool sound
  unfold initElement
  split
  · rename_i mInitialized mArity mElementVector found
    split
    · exact .refl
    · rename_i incomplete
      have flag : mInitialized = false := by simpa using incomplete
      subst flag
      cases mArity with
      | none => exact .refl
      | some arity =>
          cases elem with
          | none => exact .refl
          | some elem =>
              simp only
              split
              · rename_i valid
                refine .single (.fill this _ _ found rfl rfl ?_ trivial ?_)
                · rintro ⟨low, full⟩
                  have room : mElementVector.length ≠ arity := fun same => by
                    cases full.mpr same
                  refine ⟨?_, ?_⟩
                  · rw [List.length_append, List.length_singleton]
                    omega
                  · rw [beq_iff_eq, List.length_append, List.length_singleton]
                · intro other member
                  rcases List.mem_append.mp member with inside | last
                  · exact .inl inside
                  · exact .inr (List.mem_singleton.mp last ▸ valid)
              · exact .refl
  · exact .refl

theorem evolves_initEach (this : Address) (elems : List (Option Address)) :
    Evolves (initEach this elems) := by
  induction elems with
  | nil => exact evolves_pure ()
  | cons elem rest ih => exact (evolves_initElement this elem).bind fun _ => ih

theorem evolves_initElements (this : Address) (elems : List (Option Address)) :
    Evolves (initElements this elems) := by
  apply Evolves.throwsOnly
  exact (evolves_initArity this elems.length).bind fun _ => (evolves_initEach this elems).mapOutcome _

theorem evolves_addElement (this : Address) (elem : Option Address) :
    Evolves (addElement this elem) := by
  intro pool sound
  unfold addElement
  split
  · rename_i mInitialized mElementVector found
    cases elem with
    | none => exact .refl
    | some elem =>
        simp only
        split
        · exact .refl
        · rename_i valid
          split
          · exact .refl
          · rename_i incomplete
            have flag : mInitialized = false := by simpa using incomplete
            subst flag
            refine .single (.fill this _ _ found rfl rfl (fun _ => trivial) trivial ?_)
            intro other member
            rcases List.mem_append.mp member with inside | last
            · exact .inl inside
            · rw [List.mem_singleton.mp last]
              exact .inr (by simpa using valid)
  · exact .refl

/-- Access to an element changes no term. -/
theorem elementAt_after (this : Address) (index : Nat) (pool : Pool) :
    (elementAt this index pool).2 = pool := by
  unfold elementAt
  split
  · split
    · rfl
    · split
      · rfl
      · split <;> rfl
  · rfl

theorem evolves_elementAt (this : Address) (index : Nat) : Evolves (elementAt this index) :=
  evolves_of_same (elementAt_after this index)

theorem evolves_addElementsOf (this cons : Address) (remaining index : Nat) :
    Evolves (addElementsOf this cons remaining index) := by
  induction remaining generalizing index with
  | zero => exact evolves_pure ()
  | succ remaining ih =>
      apply (evolves_elementAt cons index).bind
      intro elem
      exact (evolves_addElement this (some elem)).bind fun _ => ih (index + 1)

/-- A tail ends in the term that the list ends in. -/
theorem evolves_tail (this : Address) (index : Nat) : Evolves (tail this index) := by
  intro pool sound
  unfold tail
  split
  · rename_i mInitialized mElementVector found
    split
    · exact .refl
    · rename_i valid
      have flag : mInitialized = true := by simpa using valid
      subst flag
      split
      · exact .refl
      · rename_i low
        split
        · rename_i few
          refine .single (.make _ trivial ?_ ?_)
          · obtain ⟨last, ends, plain⟩ := sound.closed this _ found
            refine ⟨last, ?_, plain⟩
            have longer : index + 1 < mElementVector.length := by
              have some := List.length_pos_iff.mpr (List.ne_nil_of_mem (List.mem_of_getLast? ends))
              have size : arity mElementVector + 1 = mElementVector.length := by
                rw [arity, unsignedPred, if_neg (by omega)]
                omega
              omega
            rw [List.getLast?_drop, if_neg (by omega)]
            exact ends
          · intro elem member
            exact sound.elements this elem ⟨_, found, List.mem_of_mem_drop member⟩
        · split <;> exact .refl
  · exact .refl

/-- The term that closes a list is appended, and then the list is marked. -/
theorem changes_append {pool : Pool} {elem : Address} (valid : pool.valid elem = true)
    (plain : pool.isConsList elem = false) (this : Address) :
    Changes pool ((do
      addElement this (some elem)
      markClosed this : Method Pool Unit) pool).2 := by
  rw [Effect.bind_run]
  cases found : pool[this]? with
  | none =>
      simp only [addElement, found]
      exact .refl
  | some object =>
      cases object with
      | erlConsList mInitialized mElementVector =>
          cases mInitialized with
          | true =>
              simp only [addElement, found, valid]
              exact .refl
          | false =>
              have inside := (List.getElem?_eq_some_iff.mp found).1
              simp only [addElement, found, valid, markClosed, Bool.not_true, Bool.false_eq_true,
                if_false, List.getElem?_set_self inside, List.set_set]
              refine .single (.fill this _ _ found rfl rfl (fun _ => trivial) ?_ ?_)
              · exact ⟨elem, by simp, plain⟩
              · intro other member
                rcases List.mem_append.mp member with old | last
                · exact .inl old
                · exact .inr (List.mem_singleton.mp last ▸ valid)
      | _ =>
          simp only [addElement, found]
          exact .refl

theorem evolves_closeBy {nested : Option Address → Method Pool Unit}
    (evolves : ∀ elem, Evolves (nested elem)) (this elem : Address) :
    Evolves (closeBy nested this elem) := by
  intro pool sound
  unfold closeBy
  split
  · rename_i mElementVector found
    have listed : Evolves (do
        addElementsOf this elem (arity mElementVector) 0
        let rest ← tail elem (arity mElementVector)
        nested (some rest)) :=
      (evolves_addElementsOf this elem _ 0).bind fun _ =>
        (evolves_tail elem _).bind fun rest => evolves (some rest)
    exact listed pool sound
  · rename_i object other found
    split
    · rename_i valid
      apply changes_append
      · exact valid_iff.mpr ⟨object, found, valid⟩
      · rw [Pool.isConsList, found, Option.any_some]
        cases object with
        | erlConsList mInitialized mElementVector =>
            have flag : mInitialized = true := valid
            subst flag
            exact absurd rfl (other mElementVector)
        | _ => rfl
    · exact .refl
  · exact .refl

theorem evolves_closeWithin (fuel : Nat) (this : Address) (elem : Option Address) :
    Evolves (closeWithin fuel this elem) := by
  induction fuel generalizing elem with
  | zero => exact evolves_lift _
  | succ fuel ih =>
      cases elem with
      | none => exact (evolves_fail _).throwsOnly _
      | some elem => exact (evolves_closeBy ih this elem).throwsOnly _

theorem evolves_closeProper (this : Address) : Evolves (closeProper this) := by
  have made : Evolves (alloc (.simple .erlEmptyList)) :=
    evolves_alloc trivial rfl fun list => by cases list
  apply Evolves.throwsOnly
  apply made.bind
  intro empty
  exact evolves_closeWithin 2 this (some empty)

theorem evolves_addEach (this : Address) (elems : List (Option Address)) :
    Evolves (addEach this elems) := by
  induction elems with
  | nil => exact evolves_pure ()
  | cons elem rest ih => exact (evolves_addElement this elem).bind fun _ => ih

theorem evolves_initList (this : Address) (elems : List (Option Address)) :
    Evolves (initList this elems) :=
  (evolves_addEach this elems).bind fun _ => evolves_closeProper this

end Methods

/-- A tuple that already has an arity is not initialized again, so its constructor throws. -/
theorem construct_defined (arity : Nat) (elems : List (Option Address)) (pool : Pool) :
    (construct (.erlTuple false (some arity) []) (fun this => initElements this elems) pool).2 =
      pool := by
  have refused : initElements pool.length elems (pool ++ [.erlTuple false (some arity) []]) =
      (.throws (.alreadyInitialized "Tuple already initialized"),
        pool ++ [.erlTuple false (some arity) []]) := by
    have first : initArity pool.length elems.length (pool ++ [.erlTuple false (some arity) []]) =
        (.throws (.alreadyInitialized "Tuple already initialized"),
          pool ++ [.erlTuple false (some arity) []]) := by
      simp [initArity]
    rw [initElements, Method.throwsOnly, Effect.mapOutcome_run, Effect.bind_run, first]
    rfl
  simp only [construct, refused]

/-- Every call does no more than changes. -/
theorem evolves_run (call : PoolCall) : Evolves call.run := by
  have tuple : Evolves (alloc (.erlTuple false none [])) :=
    evolves_alloc ⟨rfl, rfl⟩ rfl fun _ => rfl
  have list : Evolves (alloc (.erlConsList false [])) := evolves_alloc trivial rfl fun _ => rfl
  have dropped : ∀ {make : Method Pool Address}, Evolves make → Evolves (do let _ ← make) :=
    fun made => made.bind fun _ => evolves_pure ()
  cases call with
  | newSimple value => exact dropped (evolves_alloc trivial rfl fun list => by cases list)
  | newChecked arguments =>
      apply (evolves_lift arguments.value).bind
      intro value
      exact dropped (evolves_alloc trivial rfl fun list => by cases list)
  | newVariable mName => exact dropped (evolves_alloc trivial rfl fun list => by cases list)
  | newTuple => exact dropped tuple
  | newTupleOfArity arity =>
      exact dropped (evolves_construct tuple fun this => evolves_initArity this arity)
  | newTupleOf elems =>
      exact dropped (evolves_construct tuple fun this => evolves_initElements this elems)
  | newTupleOfArray mArityDefined elems =>
      cases mArityDefined with
      | none => exact dropped (evolves_construct tuple fun this => evolves_initElements this elems)
      | some arity => exact dropped (evolves_of_same (construct_defined arity elems))
  | newConsList => exact dropped list
  | newConsListOf elems =>
      exact dropped (evolves_construct list fun this => evolves_initList this elems)
  | initSimple this arguments => exact evolves_initSimple this arguments
  | initArity this arity => exact evolves_initArity this arity
  | initElements this elems => exact evolves_initElements this elems
  | initElement this elem => exact evolves_initElement this elem
  | initList this elems => exact evolves_initList this elems
  | addElement this elem => exact evolves_addElement this elem
  | close this elem => exact evolves_closeWithin 2 this elem
  | closeProper this => exact evolves_closeProper this
  | tail this index => exact dropped (evolves_tail this index)

theorem sound_empty : Sound [] where
  shaped address object found := by cases found
  closed address object found := by cases found
  elements upper lower holds := by
    obtain ⟨object, found, -⟩ := holds
    cases found
  grounded := grounded_of_no_edge fun upper lower holds => by
    obtain ⟨object, found, -⟩ := holds
    cases found

/-- A sequence of calls is a sequence of changes. -/
theorem changes_after {pool : Pool} (sound : Sound pool) (calls : List PoolCall) :
    Changes pool (pool.after calls) := by
  induction calls generalizing pool with
  | nil => exact .refl
  | cons call rest ih =>
      have first := evolves_run call pool sound
      exact first.trans (ih (sound.changes first))

theorem sound_after (calls : List PoolCall) : Sound (Pool.after [] calls) :=
  sound_empty.changes (changes_after sound_empty calls)

/-- After any calls a tuple is valid exactly when it holds as many elements as its arity says, all
elements are valid, no term is below itself, and later calls leave the valid terms as they are. -/
theorem validity_after (before later : List PoolCall) :
    (∀ (address : Address) (mInitialized : Bool) (mArity : Option Nat)
      (mElementVector : List Address),
      (Pool.after [] before)[address]? =
          some (Object.erlTuple mInitialized mArity mElementVector) →
        (mInitialized = true ↔ ∃ arity, mArity = some arity ∧ mElementVector.length = arity) ∧
        ∀ arity ∈ mArity, mElementVector.length ≤ arity) ∧
    (∀ upper lower, (Pool.after [] before).Holds upper lower →
      (Pool.after [] before).valid lower = true) ∧
    (∀ address, ¬ Relation.TransGen (Pool.after [] before).Holds address address) ∧
    (∀ address, (Pool.after [] before).valid address = true →
      ((Pool.after [] before).after later)[address]? = (Pool.after [] before)[address]?) := by
  have sound := sound_after before
  refine ⟨?_, sound.elements, sound.grounded.acyclic, ?_⟩
  · intro address mInitialized mArity mElementVector found
    have shaped := sound.shaped address _ found
    cases mArity with
    | none => simp [shaped.1]
    | some arity =>
        refine ⟨?_, fun count same => Option.some.inj same ▸ shaped.1⟩
        rw [shaped.2]
        simp [eq_comm]
  · intro address valid
    exact (changes_after sound later).keeps valid

end Pool

end Epi.Type
