import Epi.Type.TermPtr

namespace Epi.Type

open Verification

namespace Memory

/-- A counter with one more for a term. -/
def more (extra : TermId → Nat) (term : Option TermId) : TermId → Nat := fun other =>
  extra other + if term = some other then 1 else 0

@[simp] theorem more_none (extra : TermId → Nat) : more extra none = extra := by
  funext other
  simp [more]

/-- The pointers hold terms that were not deleted, and each of these counts its pointers and
something more. -/
structure Counted (extra : TermId → Nat) (memory : Memory) : Prop where
  counts : ∀ (term : TermId) (count : Int), memory.mRefCount[term]?.join = some count →
    count = memory.holders term + extra term
  held : ∀ (ptr : PtrId) (pointer : ErlTermPtr), memory.pointers[ptr]?.join = some pointer →
    ∀ term ∈ pointer.mErlTerm, memory.live term = true
  made : ∀ term, 0 < extra term → term < memory.mRefCount.length

theorem join_eq_some {Value : Type} {values : List (Option Value)} {index : Nat} {value : Value} :
    values[index]?.join = some value ↔ values[index]? = some (some value) := by
  cases values[index]? <;> simp

theorem lt_of_join {Value : Type} {values : List (Option Value)} {index : Nat}
    (present : (values[index]?.join).isSome = true) : index < values.length := by
  obtain ⟨value, found⟩ := Option.isSome_iff_exists.mp present
  exact (List.getElem?_eq_some_iff.mp (join_eq_some.mp found)).1

theorem join_set {Value : Type} {values : List (Option Value)} {index : Nat} (other : Nat)
    (inside : index < values.length) (value : Option Value) :
    (values.set index value)[other]?.join = if other = index then value else values[other]?.join := by
  by_cases same : other = index
  · subst same
    rw [List.getElem?_set_self inside, if_pos rfl]
    rfl
  · rw [List.getElem?_set_ne (Ne.symm same), if_neg same]

/-- A pointer holds a term. -/
def holdsTerm (term : TermId) (pointer : Option ErlTermPtr) : Bool :=
  pointer.any fun pointer => pointer.mErlTerm == some term

theorem holders_set {memory : Memory} {this : PtrId} {pointer : ErlTermPtr}
    (found : memory.pointers[this]?.join = some pointer) (after : Option ErlTermPtr)
    (term : TermId) :
    holders { memory with pointers := memory.pointers.set this after } term +
        (if pointer.mErlTerm = some term then 1 else 0) =
      memory.holders term + if holdsTerm term after then 1 else 0 := by
  have there := join_eq_some.mp found
  obtain ⟨inside, same⟩ := List.getElem?_eq_some_iff.mp there
  have counted := List.countP_set (p := holdsTerm term) (a := after) inside
  rw [same] at counted
  have before : holdsTerm term (some pointer) = (pointer.mErlTerm == some term) := rfl
  have positive : holdsTerm term (some pointer) = true →
      0 < memory.pointers.countP (holdsTerm term) := by
    intro holds
    rw [List.countP_pos_iff]
    exact ⟨some pointer, List.mem_of_getElem? there, holds⟩
  unfold holders
  change List.countP (holdsTerm term) _ + _ = List.countP (holdsTerm term) _ + _
  rw [counted, before]
  by_cases holds : pointer.mErlTerm = some term
  · rw [before, holds] at positive
    have some := positive (beq_self_eq_true _)
    simp only [holds, beq_self_eq_true, if_true]
    omega
  · simp [holds]

theorem more_self (extra : TermId → Nat) (term : TermId) :
    more extra (some term) term = extra term + 1 := by simp [more]

theorem more_other (extra : TermId → Nat) {term other : TermId} (away : other ≠ term) :
    more extra (some term) other = extra other := by simp [more, Ne.symm away]

theorem counted_none {extra : TermId → Nat} {memory : Memory} :
    Counted (more extra none) memory ↔ Counted extra memory := by
  rw [more_none]

section Steps

variable {extra : TermId → Nat} {memory after : Memory} {term : TermId} {this : PtrId}
  {pointer : ErlTermPtr}

/-- A counter that is set changes no other one. -/
theorem Counted.setCount (counted : Counted extra memory) {count : Int}
    (found : memory.mRefCount[term]?.join = some count) {other : TermId → Nat} {value : Option Int}
    (here : ∀ count ∈ value, count = memory.holders term + other term)
    (elsewhere : ∀ term', term' ≠ term → other term' = extra term')
    (gone : value = none → memory.holders term = 0) :
    Counted other { memory with mRefCount := memory.mRefCount.set term value } := by
  have inside := lt_of_join (by rw [found]; rfl)
  constructor
  · intro term' count' found'
    rw [join_set _ inside] at found'
    split at found'
    · rename_i same
      subst same
      exact here count' found'
    · rename_i away
      rw [elsewhere term' away]
      exact counted.counts term' count' found'
  · intro ptr pointer there term' holds
    have old := counted.held ptr pointer there term' holds
    rw [live, join_set _ inside]
    split
    · rename_i same
      subst same
      cases value with
      | some value => rfl
      | none =>
          have none := gone rfl
          have member := List.mem_of_getElem? (join_eq_some.mp there)
          rw [holders, List.countP_eq_zero] at none
          exact absurd (none _ member) (by simpa using holds)
    · exact old
  · intro term' positive
    rw [List.length_set]
    by_cases same : term' = term
    · rw [same]
      exact inside
    · rw [elsewhere term' same] at positive
      exact counted.made term' positive

theorem Counted.addRef (counted : Counted extra memory)
    (done : addRef term memory = (.returns (), after)) : Counted (more extra (some term)) after := by
  unfold Memory.addRef at done
  split at done
  · rename_i count found
    cases done
    apply counted.setCount found
    · rintro value ⟨⟩
      rw [more_self, counted.counts term count found]
      push_cast
      ring
    · intro other away
      exact more_other extra away
    · intro none
      cases none
  · cases done

theorem Counted.releaseOne (counted : Counted (more extra (some term)) memory)
    {elements : List PtrId} (done : releaseOne term memory = (.returns elements, after)) :
    Counted extra after := by
  unfold Memory.releaseOne at done
  split at done
  · rename_i count found
    have same := counted.counts term count found
    rw [more_self] at same
    have away : ∀ other, other ≠ term → extra other = more extra (some term) other :=
      fun other away => (more_other extra away).symm
    split at done
    · rename_i last
      cases done
      refine counted.setCount found (fun count none => by cases none) away fun _ => ?_
      omega
    · cases done
      refine counted.setCount found ?_ away fun none => by cases none
      rintro value ⟨⟩
      omega
  · cases done

theorem Counted.dropRef (counted : Counted (more extra (some term)) memory)
    (done : dropRef term memory = (.returns (), after)) : Counted extra after := by
  unfold Memory.dropRef at done
  split at done
  · rename_i count found
    have same := counted.counts term count found
    rw [more_self] at same
    rw [if_neg (by omega)] at done
    cases done
    refine counted.setCount found ?_ (fun other away => (more_other extra away).symm) ?_
    · rintro value ⟨⟩
      omega
    · intro none
      cases none
  · cases done

/-- A pointer that lets go of its term leaves the counter one too high. -/
theorem Counted.letGo (counted : Counted extra memory)
    (found : memory.pointers[this]?.join = some pointer) (gone : Option ErlTermPtr)
    (null : ∀ term, holdsTerm term gone = false) :
    Counted (more extra pointer.mErlTerm)
      { memory with pointers := memory.pointers.set this gone } := by
  have inside := lt_of_join (by rw [found]; rfl)
  constructor
  · intro other count there
    have before := counted.counts other count there
    have held := holders_set found gone other
    rw [null other] at held
    simp only [Bool.false_eq_true, if_false] at held
    simp only [more]
    omega
  · intro ptr held there other holds
    rw [join_set _ inside] at there
    split at there
    · rename_i same
      subst there
      have never := null other
      simp only [holdsTerm, Option.any_some, beq_eq_false_iff_ne] at never
      exact absurd holds never
    · exact counted.held ptr held there other holds
  · intro other positive
    by_cases holds : pointer.mErlTerm = some other
    · exact lt_of_join (counted.held this pointer found other holds)
    · simp only [more, if_neg holds, Nat.add_zero] at positive
      exact counted.made other positive

/-- A pointer without a term takes one that was counted for it. -/
theorem Counted.take (counted : Counted (more extra (some term)) memory)
    (live : memory.live term = true)
    (found : memory.pointers[this]?.join = some pointer) (null : pointer.mErlTerm = none) :
    Counted extra { memory with
      pointers := memory.pointers.set this (some { pointer with mErlTerm := some term }) } := by
  have inside := lt_of_join (by rw [found]; rfl)
  constructor
  · intro other count there
    have before := counted.counts other count there
    have held := holders_set found (some { pointer with mErlTerm := some term }) other
    simp only [null, holdsTerm, Option.any_some, beq_iff_eq, reduceCtorEq, if_false] at held
    simp only [more] at before
    omega
  · intro ptr held there other holds
    rw [join_set _ inside] at there
    split at there
    · obtain rfl := Option.some.inj there
      obtain rfl := Option.some.inj holds
      exact live
    · exact counted.held ptr held there other holds
  · intro other positive
    exact counted.made other (lt_of_lt_of_le positive (Nat.le_add_right _ _))

theorem Counted.push {held : Option TermId} (counted : Counted (more extra held) memory)
    (live : ∀ term ∈ held, memory.live term = true) (owner : Option TermId) :
    Counted extra { memory with pointers := memory.pointers ++ [some ⟨owner, held⟩] } := by
  constructor
  · intro other count there
    have before := counted.counts other count there
    have longer : holders { memory with pointers := memory.pointers ++ [some ⟨owner, held⟩] } other =
        memory.holders other + if held = some other then 1 else 0 := by
      simp [holders, List.countP_append, List.countP_singleton]
    simp only [more] at before
    omega
  · intro ptr pointer there other holds
    have found := join_eq_some.mp there
    rcases Nat.lt_or_ge ptr memory.pointers.length with old | new
    · rw [List.getElem?_append_left old] at found
      exact counted.held ptr pointer (join_eq_some.mpr found) other holds
    · rw [List.getElem?_append_right new] at found
      have same := List.mem_of_getElem? found
      rw [List.mem_singleton, Option.some.injEq] at same
      subst same
      exact live other holds
  · intro other positive
    exact counted.made other (lt_of_lt_of_le positive (Nat.le_add_right _ _))

/-- A new term has no counts and no pointers. -/
theorem Counted.newTerm (counted : Counted extra memory) :
    Counted extra { memory with mRefCount := memory.mRefCount ++ [some 0] } := by
  have old : ∀ other : TermId, memory.live other = true →
      (memory.mRefCount ++ [some 0])[other]?.join = memory.mRefCount[other]?.join := by
    intro other live
    rw [List.getElem?_append_left (lt_of_join live)]
  constructor
  · intro other count there
    rcases Nat.lt_or_ge other memory.mRefCount.length with inside | new
    · rw [List.getElem?_append_left inside] at there
      exact counted.counts other count there
    · have found := join_eq_some.mp there
      rw [List.getElem?_append_right new] at found
      have zero := List.mem_of_getElem? found
      rw [List.mem_singleton, Option.some.injEq] at zero
      have alone : memory.holders other = 0 := by
        rw [holders, List.countP_eq_zero]
        intro pointer member holds
        obtain ⟨ptr, there⟩ := List.mem_iff_getElem?.mp member
        cases pointer with
        | none => cases holds
        | some pointer =>
            have live := counted.held ptr pointer (join_eq_some.mpr there) other
              (by simpa using holds)
            exact absurd (lt_of_join live) (Nat.not_lt.mpr new)
      have none : extra other = 0 := by
        by_contra positive
        have inside := counted.made other (Nat.pos_of_ne_zero positive)
        exact absurd inside (Nat.not_lt.mpr new)
      change count = memory.holders other + extra other
      rw [zero, alone, none]
      rfl
  · intro ptr pointer there other holds
    have live := counted.held ptr pointer there other holds
    rw [Memory.live, old other live]
    exact live
  · intro other positive
    rw [List.length_append]
    exact Nat.lt_add_right _ (counted.made other positive)

end Steps

section Methods

variable {extra : TermId → Nat} {memory after : Memory} {term : TermId} {this : PtrId}

theorem Counted.destroyOne (counted : Counted extra memory) {elements : List PtrId}
    (done : destroyOne this memory = (.returns elements, after)) : Counted extra after := by
  unfold Memory.destroyOne at done
  split at done
  · rename_i pointer found
    have gone := counted.letGo found none fun _ => rfl
    cases held : pointer.mErlTerm with
    | none =>
        rw [held, more_none] at gone
        simp only [held] at done
        cases done
        exact gone
    | some term =>
        rw [held] at gone
        simp only [held] at done
        exact gone.releaseOne done
  · cases done

theorem Counted.destructors (counted : Counted extra memory) {fuel : Nat} {elements : List PtrId}
    (done : destructors fuel elements memory = (.returns (), after)) : Counted extra after := by
  induction fuel generalizing elements memory with
  | zero =>
      cases elements with
      | nil =>
          cases done
          exact counted
      | cons this rest => cases done
  | succ fuel ih =>
      cases elements with
      | nil =>
          cases done
          exact counted
      | cons this rest =>
          obtain ⟨elements, middle, first, later⟩ := Effect.bind_eq_returns.mp done
          exact ih (counted.destroyOne first) later

theorem Counted.destroyAll (counted : Counted extra memory) {elements : List PtrId}
    (done : destroyAll elements memory = (.returns (), after)) : Counted extra after :=
  counted.destructors done

theorem Counted.release (counted : Counted (more extra (some term)) memory)
    (done : release term memory = (.returns (), after)) : Counted extra after := by
  obtain ⟨elements, middle, first, later⟩ := Effect.bind_eq_returns.mp done
  exact (counted.releaseOne first).destroyAll later

theorem target_returns {held : Option TermId} (done : target this memory = (.returns held, after)) :
    after = memory ∧ ∃ pointer, memory.pointers[this]?.join = some pointer ∧
      pointer.mErlTerm = held := by
  unfold target at done
  split at done
  · rename_i pointer found
    obtain ⟨same, rfl⟩ := Prod.mk.inj done
    exact ⟨rfl, pointer, found, Outcome.returns.inj same⟩
  · cases done

theorem point_returns {held : Option TermId} (done : point this held memory = (.returns (), after)) :
    ∃ pointer, memory.pointers[this]?.join = some pointer ∧
      after = { memory with
        pointers := memory.pointers.set this (some { pointer with mErlTerm := held }) } := by
  unfold point at done
  split at done
  · rename_i pointer found
    exact ⟨pointer, found, (congrArg Prod.snd done).symm⟩
  · cases done

theorem target_some {pointer : ErlTermPtr} (found : memory.pointers[this]?.join = some pointer) :
    target this memory = (.returns pointer.mErlTerm, memory) := by
  rw [target, found]

theorem addRef_returns (done : addRef term memory = (.returns (), after)) :
    ∃ count, memory.mRefCount[term]?.join = some count ∧
      after = { memory with mRefCount := memory.mRefCount.set term (some (count + 1)) } := by
  unfold addRef at done
  split at done
  · rename_i count found
    exact ⟨count, found, (congrArg Prod.snd done).symm⟩
  · cases done

/-- A dropped reference changes its counter only, whatever the pointers are. -/
theorem dropRef_returns (done : dropRef term memory = (.returns (), after)) :
    after.pointers = memory.pointers ∧ ∀ pointers : List (Option ErlTermPtr),
      dropRef term { memory with pointers := pointers } =
        (.returns (), { after with pointers := pointers }) := by
  unfold dropRef at done
  split at done
  · rename_i count found
    split at done
    · rename_i zero
      cases done
      refine ⟨rfl, fun pointers => ?_⟩
      simp only [dropRef, found, if_pos zero]
    · rename_i some
      cases done
      refine ⟨rfl, fun pointers => ?_⟩
      simp only [dropRef, found, if_neg some]
  · cases done

theorem Counted.forAddRef (counted : Counted extra memory) {held : Option TermId}
    (done : forTerm Memory.addRef held memory = (.returns (), after)) :
    Counted (more extra held) after ∧ after.pointers = memory.pointers ∧
      ∀ term ∈ held, after.live term = true := by
  cases held with
  | none =>
      cases done
      rw [more_none]
      exact ⟨counted, rfl, fun term none => by cases none⟩
  | some term =>
      obtain ⟨count, found, rfl⟩ := addRef_returns done
      refine ⟨counted.addRef done, rfl, ?_⟩
      rintro other ⟨⟩
      rw [live, join_set _ (lt_of_join (by rw [found]; rfl)), if_pos rfl]
      rfl

/-- The new term of a pointer is counted after the pointer took it. -/
theorem Counted.pointAddRef (counted : Counted extra memory) {held : Option TermId}
    {pointer : ErlTermPtr} (found : memory.pointers[this]?.join = some pointer)
    (null : pointer.mErlTerm = none)
    (done : (do
      point this held
      forTerm Memory.addRef held : Method Memory Unit) memory = (.returns (), after)) :
    Counted extra after := by
  obtain ⟨_, middle, first, later⟩ := Effect.bind_eq_returns.mp done
  obtain ⟨other, there, rfl⟩ := point_returns first
  obtain rfl := Option.some.inj (found.symm.trans there)
  cases held with
  | none =>
      cases later
      have gone := counted.letGo found (some { pointer with mErlTerm := none }) fun _ => rfl
      rwa [null, more_none] at gone
  | some term =>
      obtain ⟨count, live, rfl⟩ := addRef_returns later
      have same : memory.mRefCount[term]?.join = some count := live
      have raised : Memory.addRef term memory = (.returns (), { memory with
          mRefCount := memory.mRefCount.set term (some (count + 1)) }) := by
        rw [Memory.addRef, same]
      refine (counted.addRef raised).take ?_ found null
      rw [Memory.live, join_set _ (lt_of_join (by rw [same]; rfl)), if_pos rfl]
      rfl

/-- What a call takes away does not come back: a pointer that is left was there before, and a
deleted term stays deleted. -/
structure Frees (memory after : Memory) : Prop where
  pointers : ∀ (ptr : PtrId) (pointer : ErlTermPtr), after.pointers[ptr]?.join = some pointer →
    memory.pointers[ptr]?.join = some pointer
  deleted : ∀ term : TermId, memory.mRefCount[term]?.join = none →
    after.mRefCount[term]?.join = none

theorem Frees.refl (memory : Memory) : Frees memory memory := ⟨fun _ _ found => found, fun _ gone => gone⟩

theorem Frees.trans {last : Memory} (first : Frees memory after) (second : Frees after last) :
    Frees memory last :=
  ⟨fun ptr pointer found => first.pointers ptr pointer (second.pointers ptr pointer found),
    fun term gone => second.deleted term (first.deleted term gone)⟩

theorem frees_count {count : Int} (found : memory.mRefCount[term]?.join = some count)
    (value : Option Int) :
    Frees memory { memory with mRefCount := memory.mRefCount.set term value } := by
  refine ⟨fun _ _ there => there, fun other gone => ?_⟩
  rw [join_set _ (lt_of_join (by rw [found]; rfl)), if_neg]
  · exact gone
  · rintro rfl
    rw [found] at gone
    cases gone

theorem frees_pointer {pointer : ErlTermPtr} (found : memory.pointers[this]?.join = some pointer) :
    Frees memory { memory with pointers := memory.pointers.set this none } := by
  refine ⟨fun ptr other there => ?_, fun _ gone => gone⟩
  rw [join_set _ (lt_of_join (by rw [found]; rfl))] at there
  split at there
  · cases there
  · exact there

theorem frees_releaseOne (term : TermId) (memory : Memory) :
    Frees memory (releaseOne term memory).2 := by
  unfold releaseOne
  split
  · rename_i count found
    split <;> exact frees_count found _
  · exact .refl memory

theorem frees_destroyOne (this : PtrId) (memory : Memory) : Frees memory (destroyOne this memory).2 := by
  unfold destroyOne
  split
  · rename_i pointer found
    split
    · exact (frees_pointer found).trans (frees_releaseOne _ _)
    · exact frees_pointer found
  · exact .refl memory

theorem destructors_nil (fuel : Nat) : destructors fuel [] = pure () := by
  cases fuel <;> rfl

theorem frees_destructors (fuel : Nat) (elements : List PtrId) (memory : Memory) :
    Frees memory (destructors fuel elements memory).2 := by
  induction fuel generalizing elements memory with
  | zero => cases elements <;> exact .refl memory
  | succ fuel ih =>
      cases elements with
      | nil => exact .refl memory
      | cons this rest =>
          rw [destructors]
          apply Effect.after_bind (frees_destroyOne this memory)
          intro elements after first
          exact first.trans (ih _ after)

theorem frees_release (term : TermId) (memory : Memory) : Frees memory (release term memory).2 := by
  rw [release]
  apply Effect.after_bind (frees_releaseOne term memory)
  intro elements after first
  exact first.trans (frees_destructors _ elements after)

theorem Counted.reset (counted : Counted extra memory) {held : Option TermId}
    (done : reset this held memory = (.returns (), after)) : Counted extra after := by
  obtain ⟨mErlTerm, middle, first, later⟩ := Effect.bind_eq_returns.mp done
  obtain ⟨rfl, pointer, found, rfl⟩ := target_returns first
  split at later
  · obtain ⟨_, loose, pointed, rest⟩ := Effect.bind_eq_returns.mp later
    obtain ⟨other, there, rfl⟩ := point_returns pointed
    obtain rfl := Option.some.inj (found.symm.trans there)
    obtain ⟨_, freed, released, taken⟩ := Effect.bind_eq_returns.mp rest
    have inside := lt_of_join (by rw [found]; rfl : (middle.pointers[this]?.join).isSome = true)
    have gone := counted.letGo found (some { pointer with mErlTerm := none }) fun _ => rfl
    have settled : Counted extra freed ∧ Frees { middle with
        pointers := middle.pointers.set this (some { pointer with mErlTerm := none }) } freed := by
      cases old : pointer.mErlTerm with
      | none =>
          rw [old] at gone released
          cases released
          rw [more_none] at gone
          exact ⟨gone, .refl _⟩
      | some term =>
          rw [old] at gone released
          have frees := frees_release term { middle with
            pointers := middle.pointers.set this (some { pointer with mErlTerm := none }) }
          rw [show Memory.release term _ = _ from released] at frees
          exact ⟨gone.release released, frees⟩
    obtain ⟨_, kept, pointed, -⟩ := Effect.bind_eq_returns.mp taken
    obtain ⟨now, present, -⟩ := point_returns pointed
    have before := settled.2.pointers this now present
    rw [join_set _ inside, if_pos rfl] at before
    obtain rfl := Option.some.inj before
    exact settled.1.pointAddRef present rfl taken
  · cases later
    exact counted

theorem Counted.drop (counted : Counted extra memory)
    (done : (PtrCall.drop this).run memory = (.returns (), after)) : Counted extra after := by
  obtain ⟨term, start, read, rest⟩ := Effect.bind_eq_returns.mp done
  obtain ⟨rfl, pointer, found, rfl⟩ := target_returns read
  obtain ⟨_, middle, first, later⟩ := Effect.bind_eq_returns.mp rest
  obtain ⟨other, there, rfl⟩ := point_returns later
  have gone := counted.letGo found (some { pointer with mErlTerm := none }) fun _ => rfl
  cases held : pointer.mErlTerm with
  | none =>
      rw [held] at gone first
      cases first
      obtain rfl := Option.some.inj (found.symm.trans there)
      exact counted_none.mp gone
  | some term =>
      rw [held] at gone first
      obtain ⟨pointers, counts⟩ := dropRef_returns first
      rw [pointers] at there
      obtain rfl := Option.some.inj (found.symm.trans there)
      have dropped : Memory.dropRef term { start with
          pointers := start.pointers.set this (some { pointer with mErlTerm := none }) } =
            (.returns (), { middle with
              pointers := start.pointers.set this (some { pointer with mErlTerm := none }) }) :=
        counts _
      have last := gone.dropRef dropped
      rwa [← pointers] at last

/-- Only an assignment from a pointer counts its term once more than there are pointers. -/
theorem Counted.run (counted : Counted extra memory) {call : PtrCall}
    (done : call.run memory = (.returns (), after)) :
    Counted (more extra (call.assigned memory)) after := by
  cases call with
  | newTerm =>
      cases done
      exact counted_none.mpr counted.newTerm
  | create owner term =>
      obtain ⟨_, middle, first, later⟩ := Effect.bind_eq_returns.mp done
      obtain ⟨raised, -, live⟩ := counted.forAddRef first
      cases later
      exact counted_none.mpr (raised.push live owner)
  | copy owner rhs =>
      obtain ⟨term, start, read, rest⟩ := Effect.bind_eq_returns.mp done
      obtain ⟨rfl, -⟩ := target_returns read
      obtain ⟨_, middle, first, later⟩ := Effect.bind_eq_returns.mp rest
      obtain ⟨raised, -, live⟩ := counted.forAddRef first
      cases later
      exact counted_none.mpr (raised.push live owner)
  | assign this rhs =>
      obtain ⟨term, start, read, rest⟩ := Effect.bind_eq_returns.mp done
      obtain ⟨rfl, pointer, found, rfl⟩ := target_returns read
      obtain ⟨_, middle, first, later⟩ := Effect.bind_eq_returns.mp rest
      have same : (PtrCall.assign this rhs).assigned start = pointer.mErlTerm := by
        rw [PtrCall.assigned, found, Option.bind_some]
      rw [same]
      exact (counted.forAddRef first).1.reset later
  | assignTerm this rhs => exact counted_none.mpr (counted.reset done)
  | reset this term => exact counted_none.mpr (counted.reset done)
  | drop this => exact counted_none.mpr (counted.drop done)
  | destroy this =>
      obtain ⟨elements, middle, first, later⟩ := Effect.bind_eq_returns.mp done
      exact counted_none.mpr ((counted.destroyOne first).destroyAll later)

/-- A term that no pointer holds any more is deleted unless it was counted too often. -/
theorem live_release (counted : Counted (more extra (some term)) memory)
    (live : memory.live term = true) (alone : memory.holders term = 0) :
    (release term memory).2.live term = false ↔ extra term = 0 := by
  obtain ⟨count, found⟩ := Option.isSome_iff_exists.mp live
  have same := counted.counts term count found
  rw [alone, more_self] at same
  have inside := lt_of_join live
  rw [release, Effect.bind_run, releaseOne, found]
  by_cases zero : extra term = 0
  · have last : count - 1 ≤ 0 := by omega
    simp only [if_pos last, zero, iff_true]
    have freed := frees_destructors memory.pointers.length (memory.elementsOf term)
      { memory with mRefCount := memory.mRefCount.set term none }
    rw [Memory.live, Option.isSome_eq_false_iff, Option.isNone_iff_eq_none]
    apply freed.deleted
    rw [join_set _ inside, if_pos rfl]
  · have more : ¬ count - 1 ≤ 0 := by omega
    simp only [if_neg more, zero, iff_false, Bool.not_eq_false, destroyAll, destructors_nil,
      Effect.pure_run]
    rw [Memory.live, join_set _ inside, if_pos rfl]
    rfl

/-- Neither a counter that goes up nor a pointer decides whether a term lives. -/
theorem live_pointAddRef (this : PtrId) (held : Option TermId) (memory : Memory) (other : TermId) :
    ((do
      point this held
      forTerm Memory.addRef held : Method Memory Unit) memory).2.live other = memory.live other := by
  have raised : ∀ (memory : Memory) (held : Option TermId),
      (forTerm Memory.addRef held memory).2.live other = memory.live other := by
    intro memory held
    cases held with
    | none => rfl
    | some term =>
        rw [forTerm, Memory.addRef]
        split
        · rename_i count found
          rw [live, live, join_set _ (lt_of_join (by rw [found]; rfl))]
          split
          · rename_i same
            rw [same, found]
            rfl
          · rfl
        · rfl
  rw [Effect.bind_run, point]
  cases memory.pointers[this]?.join with
  | none => rfl
  | some pointer => exact raised _ held

/-- A pointer that is the only holder of a term takes another one. -/
theorem live_reset (counted : Counted extra memory) {pointer : ErlTermPtr}
    (found : memory.pointers[this]?.join = some pointer) (holds : pointer.mErlTerm = some term)
    (alone : memory.holders term = 1) {held : Option TermId} (other : held ≠ some term) :
    (Memory.reset this held memory).2.live term = false ↔ extra term = 0 := by
  have live : memory.live term = true := counted.held this pointer found term holds
  have gone := counted.letGo found (some { pointer with mErlTerm := none }) fun _ => rfl
  rw [holds] at gone
  have left := holders_set found (some { pointer with mErlTerm := none }) term
  have null : holdsTerm term (some { pointer with mErlTerm := none }) = false := rfl
  rw [if_pos holds, alone, null, if_neg Bool.false_ne_true] at left
  have released := live_release gone live (by omega)
  have pointed : point this none memory = (.returns (), { memory with
      pointers := memory.pointers.set this (some { pointer with mErlTerm := none }) }) := by
    rw [point, found]
  rw [Memory.reset, Effect.bind_of_returns (target_some found), holds, if_pos (Ne.symm other),
    Effect.bind_of_returns pointed, forTerm, Effect.bind_run, ← released]
  rcases ran : release term { memory with
    pointers := memory.pointers.set this (some { pointer with mErlTerm := none }) } with
      ⟨outcome, after⟩
  cases outcome with
  | returns value =>
      change ((do
        point this held
        forTerm Memory.addRef held : Method Memory Unit) after).2.live term = false ↔ _
      rw [live_pointAddRef]
  | _ => rfl

end Methods

/-- The operation takes a term away from a pointer: it destroys the pointer or gives it another
term. -/
inductive Takes (memory : Memory) (term : TermId) : PtrCall → Prop
  | reset {this : PtrId} {pointer : ErlTermPtr} {held : Option TermId}
      (found : memory.pointers[this]?.join = some pointer) (holds : pointer.mErlTerm = some term)
      (other : held ≠ some term) : Takes memory term (.reset this held)
  | assignTerm {this : PtrId} {pointer : ErlTermPtr} {held : Option TermId}
      (found : memory.pointers[this]?.join = some pointer) (holds : pointer.mErlTerm = some term)
      (other : held ≠ some term) : Takes memory term (.assignTerm this held)
  | assign {this rhs : PtrId} {pointer source : ErlTermPtr}
      (found : memory.pointers[this]?.join = some pointer) (holds : pointer.mErlTerm = some term)
      (given : memory.pointers[rhs]?.join = some source) (other : source.mErlTerm ≠ some term) :
      Takes memory term (.assign this rhs)
  | destroy {this : PtrId} {pointer : ErlTermPtr}
      (found : memory.pointers[this]?.join = some pointer) (holds : pointer.mErlTerm = some term) :
      Takes memory term (.destroy this)

section Runs

variable {extra : TermId → Nat} {memory after : Memory} {term : TermId}
  {events : List (Option TermId)}

/-- The last holder of a term takes the term along unless it was counted too often. -/
theorem live_takes (counted : Counted extra memory) {call : PtrCall}
    (takes : Takes memory term call) (alone : memory.holders term = 1) :
    (call.run memory).2.live term = false ↔ extra term = 0 := by
  cases takes with
  | reset found holds other => exact live_reset counted found holds alone other
  | assignTerm found holds other => exact live_reset counted found holds alone other
  | @assign this rhs pointer source found holds given other =>
      have raised : ∃ middle, forTerm addRef source.mErlTerm memory = (.returns (), middle) := by
        cases held : source.mErlTerm with
        | none => exact ⟨memory, rfl⟩
        | some sent =>
            have live : memory.live sent = true := counted.held rhs source given sent held
            obtain ⟨count, there⟩ := Option.isSome_iff_exists.mp live
            exact ⟨_, by rw [forTerm, addRef, there]⟩
      obtain ⟨middle, first⟩ := raised
      obtain ⟨more, same, -⟩ := counted.forAddRef first
      have still : middle.pointers[this]?.join = some pointer := by rw [same, found]
      have once : middle.holders term = 1 := by rw [holders, same]; exact alone
      rw [PtrCall.run, Effect.bind_of_returns (target_some given), Effect.bind_of_returns first,
        live_reset more still holds once other]
      simp [Memory.more, other]
  | @destroy this pointer found holds =>
      have live : memory.live term = true := counted.held this pointer found term holds
      have gone := counted.letGo found none fun _ => rfl
      rw [holds] at gone
      have left := holders_set found none term
      have null : holdsTerm term none = false := rfl
      rw [if_pos holds, alone, null, if_neg Bool.false_ne_true] at left
      rw [← live_release gone live (by omega)]
      have first : destroyOne this memory = releaseOne term { memory with
          pointers := memory.pointers.set this none } := by
        simp only [destroyOne, found, holds]
      rw [PtrCall.run, release, Effect.bind_run, Effect.bind_run, first]

theorem counted_empty : Counted (fun _ => 0) Memory.empty where
  counts term count found := by cases found
  held ptr pointer found := by cases found
  made term positive := absurd positive (lt_irrefl 0)

/-- A counter is the holders and the assignments that handed the term over. -/
theorem counted_run (run : Run (· = Memory.empty) Step events memory) :
    Counted (fun term => events.count (some term)) memory := by
  induction run with
  | start initial =>
      subst initial
      exact counted_empty
  | @step events state after event before taken ih =>
      obtain ⟨call, done, rfl⟩ := taken
      have next := ih.run done
      have same : more (fun term => events.count (some term)) (call.assigned state) =
          fun term => (events ++ [call.assigned state]).count (some term) := by
        funext term
        simp only [more, List.count_append, List.count_singleton, beq_iff_eq]
      rwa [same] at next

/-- In every run the counter of a term is the number of its holders, and its last holder takes it
along, if and only if no assignment from a pointer has handed the term over. -/
theorem refCount_exact_iff (run : Run (· = Memory.empty) Step events memory) :
    (∀ (term : TermId) (count : Int), memory.mRefCount[term]?.join = some count →
      (count = memory.holders term ↔ some term ∉ events)) ∧
    (∀ (term : TermId) (call : PtrCall), Takes memory term call → memory.holders term = 1 →
      ((call.run memory).2.live term = false ↔ some term ∉ events)) := by
  have counted := counted_run run
  constructor
  · intro term count found
    have same : count = memory.holders term + events.count (some term) :=
      counted.counts term count found
    rw [← List.count_eq_zero]
    omega
  · intro term call takes alone
    rw [live_takes counted takes alone, List.count_eq_zero]

end Runs

section Destructors

variable {extra : TermId → Nat} {memory : Memory} {term : TermId} {this : PtrId}
  {elements rest : List PtrId}

/-- Pointers that are left to be destroyed: each is there, once, and its owner is deleted. -/
structure Left (memory : Memory) (elements : List PtrId) : Prop where
  once : elements.Nodup
  orphans : ∀ ptr ∈ elements, ∃ pointer, memory.pointers[ptr]?.join = some pointer ∧
    ∀ owner ∈ pointer.owner, memory.live owner = false

theorem mem_elementsOf {ptr : PtrId} : ptr ∈ memory.elementsOf term ↔
    ∃ pointer, memory.pointers[ptr]?.join = some pointer ∧ pointer.owner = some term := by
  rw [elementsOf, List.mem_filter, List.mem_range]
  constructor
  · rintro ⟨-, owned⟩
    cases found : memory.pointers[ptr]?.join with
    | none =>
        rw [found] at owned
        cases owned
    | some pointer =>
        rw [found] at owned
        exact ⟨pointer, rfl, by simpa using owned⟩
  · rintro ⟨pointer, found, owned⟩
    refine ⟨lt_of_join (by rw [found]; rfl), ?_⟩
    rw [found]
    simpa using owned

/-- What happens to the counter of a living term brings no owner back. -/
theorem Left.setCount (left : Left memory elements) (live : memory.live term = true)
    (value : Option Int) :
    Left { memory with mRefCount := memory.mRefCount.set term value } elements := by
  refine ⟨left.once, fun ptr member => ?_⟩
  obtain ⟨pointer, found, dead⟩ := left.orphans ptr member
  refine ⟨pointer, found, fun owner owned => ?_⟩
  have gone := dead owner owned
  rw [Memory.live, join_set _ (lt_of_join live), if_neg]
  · exact gone
  · rintro rfl
    rw [live] at gone
    cases gone

/-- A deleted term leaves its elements to be destroyed as well. -/
theorem Left.deleted (left : Left memory elements) (live : memory.live term = true) :
    Left { memory with mRefCount := memory.mRefCount.set term none }
      (memory.elementsOf term ++ elements) := by
  constructor
  · rw [List.nodup_append]
    refine ⟨List.nodup_range.filter _, left.once, ?_⟩
    rintro ptr owned other member rfl
    obtain ⟨pointer, found, own⟩ := mem_elementsOf.mp owned
    obtain ⟨orphan, there, dead⟩ := left.orphans ptr member
    obtain rfl := Option.some.inj (found.symm.trans there)
    rw [dead term own] at live
    cases live
  · intro ptr member
    rcases List.mem_append.mp member with owned | inner
    · obtain ⟨pointer, found, own⟩ := mem_elementsOf.mp owned
      refine ⟨pointer, found, fun owner same => ?_⟩
      obtain rfl := Option.some.inj (own.symm.trans same)
      rw [Memory.live, join_set _ (lt_of_join live), if_pos rfl]
      rfl
    · exact (left.setCount live none).orphans ptr inner

/-- The pointers behind the first one are left when it is gone. -/
theorem Left.tail (left : Left memory (this :: rest)) :
    Left { memory with pointers := memory.pointers.set this none } rest := by
  obtain ⟨away, once⟩ := List.nodup_cons.mp left.once
  obtain ⟨pointer, found, -⟩ := left.orphans this List.mem_cons_self
  refine ⟨once, fun ptr member => ?_⟩
  obtain ⟨orphan, there, dead⟩ := left.orphans ptr (List.mem_cons_of_mem _ member)
  refine ⟨orphan, ?_, dead⟩
  rw [join_set _ (lt_of_join (by rw [found]; rfl)), if_neg, there]
  rintro rfl
  exact away member

/-- A destroyed pointer is one pointer less. -/
theorem pointers_set_none {pointer : ErlTermPtr}
    (found : memory.pointers[this]?.join = some pointer) :
    (memory.pointers.set this none).countP Option.isSome + 1 =
      memory.pointers.countP Option.isSome := by
  have there := join_eq_some.mp found
  obtain ⟨inside, same⟩ := List.getElem?_eq_some_iff.mp there
  have counts := List.countP_set (p := Option.isSome) (a := none) inside
  have some : 0 < memory.pointers.countP Option.isSome :=
    List.countP_pos_iff.mpr ⟨_, List.mem_of_getElem? there, rfl⟩
  rw [same] at counts
  simp only [Option.isSome_some, if_true, Option.isSome_none, Bool.false_eq_true, if_false] at counts
  omega

/-- The destructor of a pointer hands on the elements of a term that it deletes. -/
theorem destroyOne_returns (counted : Counted extra memory) (left : Left memory (this :: rest)) :
    ∃ elements after, destroyOne this memory = (.returns elements, after) ∧
      Left after (elements ++ rest) ∧
      after.pointers.countP Option.isSome + 1 = memory.pointers.countP Option.isSome := by
  obtain ⟨pointer, found, -⟩ := left.orphans this List.mem_cons_self
  have fewer := pointers_set_none found
  cases holds : pointer.mErlTerm with
  | none =>
      refine ⟨[], { memory with pointers := memory.pointers.set this none }, ?_, left.tail, fewer⟩
      simp only [destroyOne, found, holds]
  | some term =>
      have live : memory.live term = true := counted.held this pointer found term holds
      obtain ⟨count, counts⟩ := Option.isSome_iff_exists.mp live
      simp only [destroyOne, found, holds, releaseOne, counts]
      split
      · exact ⟨_, _, rfl, left.tail.deleted live, fewer⟩
      · exact ⟨_, _, rfl, left.tail.setCount live _, fewer⟩

/-- Every destructor runs to its end. -/
theorem destructors_return (counted : Counted extra memory) (left : Left memory elements)
    {fuel : Nat} (enough : memory.pointers.countP Option.isSome ≤ fuel) :
    ∃ after, destructors fuel elements memory = (.returns (), after) := by
  induction fuel generalizing memory elements with
  | zero =>
      cases elements with
      | nil => exact ⟨memory, rfl⟩
      | cons this rest =>
          obtain ⟨elements, after, -, -, fewer⟩ := destroyOne_returns counted left
          omega
  | succ fuel ih =>
      cases elements with
      | nil => exact ⟨memory, rfl⟩
      | cons this rest =>
          obtain ⟨elements, after, ran, further, fewer⟩ := destroyOne_returns counted left
          obtain ⟨last, done⟩ := ih (counted.destroyOne ran) further (by omega)
          refine ⟨last, ?_⟩
          rw [destructors, Effect.bind_of_returns ran]
          exact done

/-- A pointer that stands alone can always be destroyed, whatever terms go with it. -/
theorem destroy_returns (counted : Counted extra memory) {term : Option TermId}
    (found : memory.pointers[this]?.join = some ⟨none, term⟩) :
    ∃ after, (PtrCall.destroy this).run memory = (.returns (), after) := by
  have left : Left memory [this] := by
    refine ⟨List.nodup_singleton this, ?_⟩
    intro ptr member
    rw [List.mem_singleton.mp member]
    exact ⟨_, found, fun owner owned => by cases owned⟩
  obtain ⟨elements, after, ran, further, -⟩ := destroyOne_returns counted left
  rw [List.append_nil] at further
  obtain ⟨last, done⟩ := destructors_return (counted.destroyOne ran) further List.countP_le_length
  exact ⟨last, by rw [PtrCall.run, Effect.bind_of_returns ran]; exact done⟩

end Destructors

/-- Two pointers to one term, the second one assigned from the first one. -/
def assignedMemory : Memory := ⟨[some 3], [some ⟨none, some 0⟩, some ⟨none, some 0⟩]⟩

/-- The calls one after the other, as long as they return. -/
def runAll (calls : List PtrCall) (memory : Memory) : Option Memory :=
  calls.foldlM (fun memory call => match call.run memory with
    | (.returns (), after) => some after
    | _ => none) memory

theorem run_step {events : List (Option TermId)} {memory after : Memory}
    (run : Run (· = Memory.empty) Step events memory) (call : PtrCall)
    (done : call.run memory = (.returns (), after)) :
    Run (· = Memory.empty) Step (events ++ [call.assigned memory]) after :=
  run.step ⟨call, done, rfl⟩

theorem run_created : Run (· = Memory.empty) Step [none, none, none]
    ⟨[some 1], [some ⟨none, some 0⟩, some ⟨none, none⟩]⟩ :=
  run_step (run_step (run_step (.start rfl) .newTerm rfl) (.create none (some 0)) rfl)
    (.create none none) rfl

theorem run_assigned : Run (· = Memory.empty) Step [none, none, none, some 0] assignedMemory :=
  run_step run_created (.assign 1 0) rfl

/-- Before the assignment the counter is exact, and the only holder takes the term along. -/
theorem refCount_exact_created :
    ((1 : Int) = Memory.holders ⟨[some 1], [some ⟨none, some 0⟩, some ⟨none, none⟩]⟩ 0 ↔
      some 0 ∉ [(none : Option TermId), none, none]) ∧
    (((PtrCall.reset 0 none).run ⟨[some 1], [some ⟨none, some 0⟩, some ⟨none, none⟩]⟩).2.live 0 =
      false ↔ some 0 ∉ [(none : Option TermId), none, none]) :=
  ⟨(refCount_exact_iff run_created).1 0 1 rfl,
    (refCount_exact_iff run_created).2 0 _ (.reset rfl rfl (by decide)) (by decide)⟩

/-- After the assignment two pointers hold a term that counts three. It stays when both are
destroyed. -/
theorem refCount_assigned : Run (· = Memory.empty) Step [none, none, none, some 0] assignedMemory ∧
    assignedMemory.mRefCount[0]?.join = some 3 ∧ assignedMemory.holders 0 = 2 ∧
    runAll [.destroy 0, .destroy 1] assignedMemory = some ⟨[some 1], [none, none]⟩ :=
  ⟨run_assigned, by decide, by decide, by decide⟩

end Memory

end Epi.Type
