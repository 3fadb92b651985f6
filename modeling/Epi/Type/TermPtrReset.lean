import Epi.Type.TermPtrCounts

namespace Epi.Type

open Verification

namespace Memory

/-- The terms that go when a pointer lets go of its term: those with an exact counter that are held
only by this pointer and by elements of terms that go. -/
inductive Freed (memory : Memory) (this : PtrId) : TermId → Prop
  | freed {term : TermId} (exact : memory.mRefCount[term]?.join = some (memory.holders term : Int))
      (held : 0 < memory.holders term)
      (owned : ∀ (ptr : PtrId) (pointer : ErlTermPtr), memory.pointers[ptr]?.join = some pointer →
        pointer.mErlTerm = some term → ptr ≠ this → pointer.owner ≠ none)
      (only : ∀ (ptr : PtrId) (pointer : ErlTermPtr), memory.pointers[ptr]?.join = some pointer →
        pointer.mErlTerm = some term → ptr ≠ this → ∀ owner, pointer.owner = some owner →
          Freed memory this owner) : Freed memory this term

theorem Freed.live {memory : Memory} {this : PtrId} {term : TermId}
    (freed : Freed memory this term) : memory.live term = true := by
  obtain ⟨exact, -, -, -⟩ := freed
  rw [Memory.live, exact]
  rfl

theorem holders_eq_zero {memory : Memory} {term : TermId} : memory.holders term = 0 ↔
    ∀ (ptr : PtrId) (pointer : ErlTermPtr), memory.pointers[ptr]?.join = some pointer →
      pointer.mErlTerm ≠ some term := by
  rw [holders, List.countP_eq_zero]
  constructor
  · intro none ptr pointer found holds
    have member := List.mem_of_getElem? (join_eq_some.mp found)
    exact none _ member (by simpa using holds)
  · intro none pointer member holds
    obtain ⟨ptr, there⟩ := List.mem_iff_getElem?.mp member
    cases pointer with
    | none => cases holds
    | some pointer => exact none ptr pointer (join_eq_some.mpr there) (by simpa using holds)

/-- An element of a term that goes. -/
def Doomed (memory : Memory) (this : PtrId) (pointer : ErlTermPtr) : Prop :=
  ∃ owner, pointer.owner = some owner ∧ Freed memory this owner

/-- The memory on the way through the destructors, after a pointer let go of its term. -/
structure Cascade (extra : TermId → Nat) (before : Memory) (this : PtrId) (memory : Memory)
    (elements : List PtrId) : Prop where
  counted : Counted extra memory
  left : Left memory elements
  deleted : ∀ term, before.live term = true → memory.live term = false → Freed before this term
  same : ∀ (ptr : PtrId) (pointer : ErlTermPtr), memory.pointers[ptr]?.join = some pointer →
    if ptr = this then pointer.mErlTerm = none ∧ ∃ term, before.pointers[ptr]?.join =
      some { pointer with mErlTerm := term }
    else before.pointers[ptr]?.join = some pointer
  destroyed : ∀ (ptr : PtrId) (pointer : ErlTermPtr), before.pointers[ptr]?.join = some pointer →
    memory.pointers[ptr]?.join = none → Doomed before this pointer
  listed : ∀ ptr ∈ elements, ∀ pointer, before.pointers[ptr]?.join = some pointer →
    Doomed before this pointer
  remaining : ∀ (ptr : PtrId) (pointer : ErlTermPtr), memory.pointers[ptr]?.join = some pointer →
    ∀ owner ∈ pointer.owner, before.live owner = true → memory.live owner = false → ptr ∈ elements
  idle : ∀ (term : TermId) (count : Int), memory.mRefCount[term]?.join = some count → count ≤ 0 →
    before.holders term = 0

section Steps

variable {extra : TermId → Nat} {before memory after : Memory} {this ptr : PtrId}
  {rest : List PtrId} {term : TermId}

theorem live_set (inside : term < memory.mRefCount.length) (value : Option Int) (other : TermId) :
    live { memory with mRefCount := memory.mRefCount.set term value } other =
      if other = term then value.isSome else memory.live other := by
  rw [live, join_set _ inside]
  split <;> rfl

/-- A pointer keeps its owner on the way. -/
theorem Cascade.owner (cascade : Cascade extra before this memory rest) {pointer first : ErlTermPtr}
    (found : memory.pointers[ptr]?.join = some pointer)
    (there : before.pointers[ptr]?.join = some first) : first.owner = pointer.owner := by
  have same := cascade.same ptr pointer found
  split at same
  · obtain ⟨-, held, known⟩ := same
    obtain rfl := Option.some.inj (there.symm.trans known)
    rfl
  · obtain rfl := Option.some.inj (there.symm.trans same)
    rfl

/-- A term without holders was held by pointers that went, so it goes as well. -/
theorem Cascade.freed (start : Counted extra before)
    (cascade : Cascade (more extra (some term)) before this memory rest) (counts : extra term = 0)
    (alone : memory.holders term = 0) (held : 0 < before.holders term)
    (live : before.live term = true) : Freed before this term := by
  obtain ⟨count, found⟩ := Option.isSome_iff_exists.mp live
  have exact := start.counts term count found
  rw [counts, Nat.cast_zero, add_zero] at exact
  have doomed : ∀ (other : PtrId) (pointer : ErlTermPtr),
      before.pointers[other]?.join = some pointer → pointer.mErlTerm = some term →
      other ≠ this → Doomed before this pointer := by
    intro other pointer there holds away
    cases now : memory.pointers[other]?.join with
    | none => exact cascade.destroyed other pointer there now
    | some present =>
        have same := cascade.same other present now
        rw [if_neg away] at same
        obtain rfl := Option.some.inj (there.symm.trans same)
        exact absurd holds (holders_eq_zero.mp alone other pointer now)
  refine .freed (exact ▸ found) held ?_ ?_
  · intro other pointer there holds away none
    obtain ⟨owner, owned, -⟩ := doomed other pointer there holds away
    rw [none] at owned
    cases owned
  · intro other pointer there holds away owner owned
    obtain ⟨found, same, freed⟩ := doomed other pointer there holds away
    obtain rfl := Option.some.inj (owned.symm.trans same)
    exact freed

/-- The first pointer that is left is destroyed. -/
theorem Cascade.remove (cascade : Cascade extra before this memory (ptr :: rest))
    {pointer : ErlTermPtr} (found : memory.pointers[ptr]?.join = some pointer) :
    Cascade (more extra pointer.mErlTerm) before this
      { memory with pointers := memory.pointers.set ptr none } rest := by
  have inside := lt_of_join (by rw [found]; rfl : (memory.pointers[ptr]?.join).isSome = true)
  have later : ∀ (other : PtrId) (present : ErlTermPtr),
      (memory.pointers.set ptr none)[other]?.join = some present →
      other ≠ ptr ∧ memory.pointers[other]?.join = some present := by
    intro other present there
    rw [join_set _ inside] at there
    split at there
    · cases there
    · rename_i away
      exact ⟨away, there⟩
  constructor
  · exact cascade.counted.letGo found none fun _ => rfl
  · exact cascade.left.tail
  · exact cascade.deleted
  · exact fun other present there => cascade.same other present (later other present there).2
  · intro other present there gone
    rw [join_set _ inside] at gone
    split at gone
    · rename_i here
      subst here
      exact cascade.listed other List.mem_cons_self present there
    · exact cascade.destroyed other present there gone
  · exact fun other member => cascade.listed other (List.mem_cons_of_mem _ member)
  · intro other present there owner owned old dead
    obtain ⟨away, still⟩ := later other present there
    rcases List.mem_cons.mp (cascade.remaining other present still owner owned old dead) with
      here | member
    · exact absurd here away
    · exact member
  · exact cascade.idle

/-- A term that goes leaves the pointers among its elements. -/
theorem Cascade.delete (cascade : Cascade (more extra (some term)) before this memory rest)
    (counted : Counted extra { memory with mRefCount := memory.mRefCount.set term none })
    (present : memory.live term = true) (gone : Freed before this term) :
    Cascade extra before this { memory with mRefCount := memory.mRefCount.set term none }
      (memory.elementsOf term ++ rest) := by
  have inside := lt_of_join present
  constructor
  · exact counted
  · exact cascade.left.deleted present
  · intro other old dead
    rw [live_set inside] at dead
    split at dead
    · rename_i here
      exact here ▸ gone
    · exact cascade.deleted other old dead
  · exact cascade.same
  · exact cascade.destroyed
  · intro ptr member first there
    rcases List.mem_append.mp member with owned | old
    · obtain ⟨pointer, known, owner⟩ := mem_elementsOf.mp owned
      exact ⟨term, (cascade.owner known there).trans owner, gone⟩
    · exact cascade.listed ptr old first there
  · intro ptr pointer there owner owned old dead
    rw [live_set inside] at dead
    rw [List.mem_append]
    split at dead
    · rename_i here
      subst here
      exact .inl (mem_elementsOf.mpr ⟨pointer, there, owned⟩)
    · exact .inr (cascade.remaining ptr pointer there owner owned old dead)
  · intro other count there low
    rw [join_set _ inside] at there
    split at there
    · cases there
    · exact cascade.idle other count there low

/-- A term that is still held only counts one holder less. -/
theorem Cascade.countDown (cascade : Cascade (more extra (some term)) before this memory rest)
    {count : Int}
    (counted : Counted extra { memory with mRefCount := memory.mRefCount.set term (some count) })
    (present : memory.live term = true) (still : ¬ count ≤ 0) :
    Cascade extra before this { memory with mRefCount := memory.mRefCount.set term (some count) }
      rest := by
  have inside := lt_of_join present
  constructor
  · exact counted
  · exact cascade.left.setCount present _
  · intro other old dead
    rw [live_set inside] at dead
    split at dead
    · cases dead
    · exact cascade.deleted other old dead
  · exact cascade.same
  · exact cascade.destroyed
  · exact cascade.listed
  · intro ptr pointer there owner owned old dead
    rw [live_set inside] at dead
    split at dead
    · cases dead
    · exact cascade.remaining ptr pointer there owner owned old dead
  · intro other value there low
    rw [join_set _ inside] at there
    split at there
    · obtain rfl := Option.some.inj there
      exact absurd low still
    · exact cascade.idle other value there low

/-- The release of a term that a pointer held at first. -/
theorem Cascade.releaseOne (start : Counted extra before)
    (cascade : Cascade (more extra (some term)) before this memory rest)
    (held : 0 < before.holders term) (live : before.live term = true) {elements : List PtrId}
    (done : releaseOne term memory = (.returns elements, after)) :
    Cascade extra before this after (elements ++ rest) := by
  have counted := cascade.counted.releaseOne done
  unfold Memory.releaseOne at done
  split at done
  · rename_i count found
    have present : memory.live term = true := by
      rw [Memory.live, found]
      rfl
    have exact := cascade.counted.counts term count found
    rw [more_self] at exact
    split at done
    · rename_i last
      cases done
      have gone : Freed before this term := cascade.freed start (by omega) (by omega) held live
      exact cascade.delete counted present gone
    · rename_i still
      cases done
      exact cascade.countDown counted present still
  · cases done

/-- The destructor of the first pointer that is left. -/
theorem Cascade.destroyOne (start : Counted extra before)
    (cascade : Cascade extra before this memory (ptr :: rest)) {elements : List PtrId}
    (done : destroyOne ptr memory = (.returns elements, after)) :
    Cascade extra before this after (elements ++ rest) := by
  unfold Memory.destroyOne at done
  split at done
  · rename_i pointer found
    have removed := cascade.remove found
    cases holds : pointer.mErlTerm with
    | none =>
        simp only [holds] at done removed
        cases done
        rwa [more_none] at removed
    | some term =>
        simp only [holds] at done removed
        have same := cascade.same ptr pointer found
        split at same
        · rw [holds] at same
          cases same.1
        · refine removed.releaseOne start ?_ (start.held ptr pointer same term holds) done
          by_contra none
          exact holders_eq_zero.mp (Nat.eq_zero_of_not_pos none) ptr pointer same holds
  · cases done

theorem Cascade.destructors (start : Counted extra before) {fuel : Nat}
    (cascade : Cascade extra before this memory rest)
    (done : destructors fuel rest memory = (.returns (), after)) :
    Cascade extra before this after [] := by
  induction fuel generalizing rest memory with
  | zero =>
      cases rest with
      | nil =>
          cases done
          exact cascade
      | cons ptr rest => cases done
  | succ fuel ih =>
      cases rest with
      | nil =>
          cases done
          exact cascade
      | cons ptr rest =>
          obtain ⟨elements, middle, first, later⟩ := Effect.bind_eq_returns.mp done
          exact ih (cascade.destroyOne start first) later

/-- A pointer that let go of its term, before the term is released. -/
theorem Cascade.start (counted : Counted extra memory) {pointer : ErlTermPtr}
    (found : memory.pointers[this]?.join = some pointer) :
    Cascade (more extra pointer.mErlTerm) memory this { memory with
      pointers := memory.pointers.set this (some { pointer with mErlTerm := none }) } [] := by
  have inside := lt_of_join (by rw [found]; rfl : (memory.pointers[this]?.join).isSome = true)
  constructor
  · exact counted.letGo found _ fun _ => rfl
  · exact ⟨List.nodup_nil, List.forall_mem_nil _⟩
  · intro term old dead
    exact absurd (old.symm.trans dead) Bool.false_ne_true.symm
  · intro ptr present there
    rw [join_set _ inside] at there
    split at there
    · rename_i here
      subst here
      obtain rfl := Option.some.inj there
      rw [if_pos rfl]
      exact ⟨rfl, pointer.mErlTerm, found⟩
    · rename_i away
      rw [if_neg away]
      exact there
  · intro ptr present there gone
    rw [join_set _ inside] at gone
    split at gone
    · cases gone
    · rw [there] at gone
      cases gone
  · exact List.forall_mem_nil _
  · intro ptr present there owner owned old dead
    exact absurd (old.symm.trans dead) Bool.false_ne_true.symm
  · intro term count there low
    have exact := counted.counts term count there
    omega

/-- All terms that are to go are deleted at the end. -/
theorem Cascade.complete (start : Counted extra before)
    (cascade : Cascade extra before this memory []) (freed : Freed before this term) :
    memory.live term = false := by
  induction freed with
  | @freed term exact held owned only ih =>
      by_contra live
      rw [Bool.not_eq_false] at live
      obtain ⟨count, found⟩ := Option.isSome_iff_exists.mp live
      have none : extra term = 0 := by
        have counts := start.counts term _ exact
        omega
      have alone : memory.holders term = 0 := by
        rw [holders_eq_zero]
        intro ptr pointer there holds
        have same := cascade.same ptr pointer there
        split at same
        · rw [holds] at same
          cases same.1
        · rename_i away
          obtain ⟨owner, named⟩ := Option.ne_none_iff_exists'.mp (owned ptr pointer same holds away)
          have dead := ih ptr pointer same holds away owner named
          have old := (only ptr pointer same holds away owner named).live
          exact absurd (cascade.remaining ptr pointer there owner named old dead) List.not_mem_nil
      have counts := cascade.counted.counts term count found
      have idle := cascade.idle term count found (by omega)
      omega

/-- At the end the deleted terms are those that were to go. -/
theorem Cascade.live_iff (start : Counted extra before)
    (cascade : Cascade extra before this memory []) (live : before.live term = true) :
    memory.live term = true ↔ ¬ Freed before this term := by
  constructor
  · intro still freed
    exact Bool.false_ne_true ((cascade.complete start freed).symm.trans still)
  · intro stays
    by_contra dead
    rw [Bool.not_eq_true] at dead
    exact stays (cascade.deleted term live dead)

/-- At the end the destroyed pointers are the elements of the deleted terms. -/
theorem Cascade.pointer_iff (start : Counted extra before)
    (cascade : Cascade extra before this memory []) {pointer : ErlTermPtr}
    (found : before.pointers[this]?.join = some pointer) :
    memory.pointers[this]?.join = some { pointer with mErlTerm := none } ↔
      ¬ Doomed before this pointer := by
  constructor
  · rintro still ⟨owner, owned, freed⟩
    have dead := cascade.complete start freed
    exact absurd (cascade.remaining this _ still owner owned freed.live dead) List.not_mem_nil
  · intro stays
    cases now : memory.pointers[this]?.join with
    | none => exact absurd (cascade.destroyed this pointer found now) stays
    | some present =>
        have same := cascade.same this present now
        rw [if_pos rfl] at same
        obtain ⟨null, term, known⟩ := same
        obtain rfl := Option.some.inj (found.symm.trans known)
        rw [← null]

end Steps

/-- A pointer that was not destroyed leads to the term. The elements of a term are pointers as well,
so this holds of the terms below, at any depth. -/
def Reachable (memory : Memory) (term : TermId) : Prop :=
  ∃ (ptr : PtrId) (pointer : ErlTermPtr), memory.pointers[ptr]?.join = some pointer ∧
    pointer.mErlTerm = some term

/-- The call comes back, the pointer holds its new term, and all terms that can be reached live. -/
def Holds (call : PtrCall) (this : PtrId) (newTerm : TermId) (memory : Memory) : Prop :=
  ∃ after, call.run memory = (.returns (), after) ∧ after.live newTerm = true ∧
    (∃ pointer, after.pointers[this]?.join = some pointer ∧ pointer.mErlTerm = some newTerm) ∧
    ∀ term, after.Reachable term → after.live term = true

section Reset

variable {extra : TermId → Nat} {memory : Memory} {this : PtrId} {newTerm : TermId}
  {pointer : ErlTermPtr}

/-- The release of the term that a pointer let go of comes to its end. -/
theorem release_returns (counted : Counted extra memory)
    (found : memory.pointers[this]?.join = some pointer) :
    ∃ after, forTerm release pointer.mErlTerm { memory with
        pointers := memory.pointers.set this (some { pointer with mErlTerm := none }) } =
        (.returns (), after) ∧ Cascade extra memory this after [] := by
  have start := Cascade.start counted found
  cases holds : pointer.mErlTerm with
  | none =>
      rw [holds, more_none] at start
      exact ⟨_, rfl, start⟩
  | some term =>
      rw [holds] at start
      have live : memory.live term = true := counted.held this pointer found term holds
      have held : 0 < memory.holders term := by
        by_contra none
        exact holders_eq_zero.mp (Nat.eq_zero_of_not_pos none) this pointer found holds
      obtain ⟨count, counts⟩ := Option.isSome_iff_exists.mp live
      obtain ⟨elements, middle, first⟩ : ∃ elements middle, Memory.releaseOne term { memory with
          pointers := memory.pointers.set this (some { pointer with mErlTerm := none }) } =
            (.returns elements, middle) := by
        simp only [Memory.releaseOne, counts]
        split <;> exact ⟨_, _, rfl⟩
      have further := start.releaseOne counted held live first
      rw [List.append_nil] at further
      obtain ⟨after, done⟩ :=
        destructors_return further.counted further.left List.countP_le_length
      refine ⟨after, ?_, further.destructors counted done⟩
      rw [forTerm, release, Effect.bind_of_returns first]
      exact done

/-- The pointer is safe if and only if neither its new term nor its owner goes with the old term. -/
theorem reset_holds_iff (counted : Counted extra memory)
    (found : memory.pointers[this]?.join = some pointer) (live : memory.live newTerm = true)
    (other : pointer.mErlTerm ≠ some newTerm) :
    Holds (.reset this (some newTerm)) this newTerm memory ↔
      ¬ Freed memory this newTerm ∧ ¬ Doomed memory this pointer := by
  obtain ⟨freed, released, cascade⟩ := release_returns counted found
  have pointed : point this none memory = (.returns (), { memory with
      pointers := memory.pointers.set this (some { pointer with mErlTerm := none }) }) := by
    rw [point, found]
  have run : (PtrCall.reset this (some newTerm)).run memory = (do
      point this (some newTerm)
      forTerm addRef (some newTerm) : Method Memory Unit) freed := by
    rw [PtrCall.run, reset, Effect.bind_of_returns (target_some found), if_pos other,
      Effect.bind_of_returns pointed, Effect.bind_of_returns released]
  rw [Holds, run, ← cascade.live_iff counted live, ← cascade.pointer_iff counted found]
  constructor
  · rintro ⟨after, done, -⟩
    obtain ⟨_, middle, first, later⟩ := Effect.bind_eq_returns.mp done
    obtain ⟨present, there, rfl⟩ := point_returns first
    obtain ⟨count, counts, -⟩ := addRef_returns later
    have alive : freed.mRefCount[newTerm]?.join = some count := counts
    have same := cascade.same this present there
    rw [if_pos rfl] at same
    obtain ⟨null, term, known⟩ := same
    obtain rfl := Option.some.inj (found.symm.trans known)
    refine ⟨?_, ?_⟩
    · rw [Memory.live, alive]
      rfl
    · rw [there, ← null]
  · rintro ⟨alive, still⟩
    obtain ⟨count, counts⟩ := Option.isSome_iff_exists.mp alive
    have inside := lt_of_join (by rw [still]; rfl : (freed.pointers[this]?.join).isSome = true)
    have done : (do
        point this (some newTerm)
        forTerm addRef (some newTerm) : Method Memory Unit) freed = (.returns (),
          { mRefCount := freed.mRefCount.set newTerm (some (count + 1))
            pointers := freed.pointers.set this (some { pointer with mErlTerm := some newTerm }) }) := by
      rw [Effect.bind_run, point, still]
      simp only [forTerm, addRef, counts]
    have last := cascade.counted.pointAddRef still rfl done
    refine ⟨_, done, ?_, ?_, ?_⟩
    · rw [Memory.live, join_set _ (lt_of_join alive), if_pos rfl]
      rfl
    · exact ⟨_, by rw [join_set _ inside, if_pos rfl], rfl⟩
    · rintro term ⟨ptr, holder, there, holds⟩
      exact last.held ptr holder there term holds

end Reset

/-- In every run, a pointer that is given a term that lives comes to hold it, with all terms that
can be reached alive, if and only if neither the new term nor the owner of the pointer goes with the
term that the pointer held. -/
theorem reset_safe_iff {events : List (Option TermId)} {memory : Memory}
    (run : Run (· = Memory.empty) Step events memory) {this : PtrId} {pointer : ErlTermPtr}
    (found : memory.pointers[this]?.join = some pointer) {newTerm : TermId}
    (live : memory.live newTerm = true) (other : pointer.mErlTerm ≠ some newTerm)
    {call : PtrCall}
    (given : call = .reset this (some newTerm) ∨ call = .assignTerm this (some newTerm)) :
    Holds call this newTerm memory ↔ ¬ Freed memory this newTerm ∧
      ∀ owner, pointer.owner = some owner → ¬ Freed memory this owner := by
  have same : Holds call this newTerm memory ↔
      Holds (.reset this (some newTerm)) this newTerm memory := by
    rcases given with rfl | rfl <;> rfl
  rw [same, reset_holds_iff (counted_run run) found live other, Doomed]
  exact and_congr_right fun _ => ⟨fun stays owner owned freed => stays ⟨owner, owned, freed⟩,
    fun stays ⟨owner, owned, freed⟩ => stays owner owned freed⟩

/-- A pointer to a term with one element, and a term that nobody holds. -/
def ownedMemory : Memory := ⟨[some 1, some 1, some 0], [some ⟨some 0, some 1⟩, some ⟨none, some 0⟩]⟩

theorem run_owned : Run (· = Memory.empty) Step [none, none, none, none, none] ownedMemory :=
  run_step (run_step (run_step (run_step (run_step (.start rfl) .newTerm rfl) .newTerm rfl) .newTerm
    rfl) (.create (some 0) (some 1)) rfl) (.create none (some 0)) rfl

/-- The pointer takes the term that nobody holds. -/
theorem reset_safe_spare : Holds (.reset 1 (some 2)) 1 2 ownedMemory := by
  have found : ownedMemory.pointers[1]?.join = some ⟨none, some 0⟩ := rfl
  refine (reset_safe_iff run_owned found (by decide) (by decide) (.inl rfl)).mpr ⟨?_, ?_⟩
  · rintro ⟨-, held, -, -⟩
    exact absurd held (by decide)
  · intro owner owned
    cases owned

/-- The pointer takes the element of the term that it holds, which goes with that term. -/
theorem reset_dangles : ¬ ∀ (events : List (Option TermId)) (memory : Memory),
    Run (· = Memory.empty) Step events memory → ∀ (this : PtrId) (pointer : ErlTermPtr)
      (newTerm : TermId), memory.pointers[this]?.join = some pointer →
      memory.live newTerm = true → pointer.mErlTerm ≠ some newTerm →
      Holds (.reset this (some newTerm)) this newTerm memory := by
  intro safe
  obtain ⟨after, done, -⟩ := safe _ _ run_owned 1 ⟨none, some 0⟩ 1 rfl (by decide) (by decide)
  have aborted : ((PtrCall.reset 1 (some 1)).run ownedMemory).1 = .aborts := by decide
  rw [done] at aborted
  cases aborted

end Memory

end Epi.Type
