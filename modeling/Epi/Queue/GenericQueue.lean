import Mathlib
import Epi.Error
import Epi.Library.Effect

namespace Epi.Queue

open Verification

/-- The pointers of a `GenericQueue`, in the order of their arrival. -/
structure GenericQueue (T : Type) where
  mList : List T

namespace GenericQueue

variable {T State Error : Type}

/-- `GenericQueue::tryGet`. The null pointer is an absent element. -/
def tryGet (queue : GenericQueue T) : Option T × GenericQueue T :=
  match queue.mList with
  | elem :: rest => (some elem, ⟨rest⟩)
  | [] => (none, queue)

/-- The loop over the list: the first element that the guard accepts. -/
def scan (check : T → Effect State Error Bool) : List T → Effect State Error (Option T)
  | [] => pure none
  | elem :: rest => do
      if ← check elem then
        return some elem
      else
        scan check rest

/-- `std::list::remove` takes out every copy of the pointer. -/
def remove [DecidableEq T] (elem : T) (queue : GenericQueue T) : GenericQueue T :=
  ⟨queue.mList.filter (· ≠ elem)⟩

/-- One pass of `get(QueueGuard*)` between two waits. -/
def tryGetGuarded [DecidableEq T] (check : T → Effect State Error Bool) (queue : GenericQueue T) :
    Effect State Error (Option T × GenericQueue T) := do
  match ← scan check queue.mList with
  | some elem => return (some elem, queue.remove elem)
  | none => return (none, queue)

/-- `GenericQueue::put`, without the signal. -/
def push (element : T) (queue : GenericQueue T) : GenericQueue T := ⟨queue.mList ++ [element]⟩

theorem tryGet_some {queue after : GenericQueue T} {element : T} :
    queue.tryGet = (some element, after) ↔ queue.mList = element :: after.mList := by
  obtain ⟨elems⟩ := queue
  obtain ⟨rest⟩ := after
  cases elems with
  | nil => simp [tryGet]
  | cons head tail => simp [tryGet]

theorem tryGet_none {queue after : GenericQueue T} :
    queue.tryGet = (none, after) ↔ queue.mList = [] ∧ after = queue := by
  obtain ⟨elems⟩ := queue
  cases elems with
  | nil => simp [tryGet, eq_comm]
  | cons head tail => simp [tryGet]

/-- A scan past rejected elements that leave the state as it is. -/
theorem scan_append {check : T → Effect State Error Bool} {state : State} {old : List T}
    (rejected : ∀ other ∈ old, check other state = (.returns false, state)) (new : List T) :
    scan check (old ++ new) state = scan check new state := by
  induction old with
  | nil => rfl
  | cons head tail ih =>
      rw [List.cons_append, scan, Effect.bind_of_returns (rejected head List.mem_cons_self)]
      exact ih fun other member => rejected other (List.mem_cons_of_mem _ member)

/-- The first accepted element, behind elements that are all rejected. -/
theorem first_accepted {check : T → Effect State Error Bool} {state : State} {elems : List T}
    (answers : ∀ elem ∈ elems, check elem state = (.returns false, state) ∨
      ∃ after, check elem state = (.returns true, after))
    (present : ∃ elem ∈ elems, ∃ after, check elem state = (.returns true, after)) :
    ∃ old elem new after, elems = old ++ elem :: new ∧
      (∀ other ∈ old, check other state = (.returns false, state)) ∧
      check elem state = (.returns true, after) := by
  induction elems with
  | nil =>
      obtain ⟨elem, member, -⟩ := present
      cases member
  | cons head tail ih =>
      rcases answers head List.mem_cons_self with rejected | ⟨after, accepted⟩
      · have inside : ∃ elem ∈ tail, ∃ after, check elem state = (.returns true, after) := by
          obtain ⟨elem, member, after, accepted⟩ := present
          rcases List.mem_cons.mp member with same | later
          · rw [same, rejected] at accepted
            cases accepted
          · exact ⟨elem, later, after, accepted⟩
        obtain ⟨old, elem, new, after, same, before, accepted⟩ :=
          ih (fun elem member => answers elem (List.mem_cons_of_mem _ member)) inside
        refine ⟨head :: old, elem, new, after, by rw [same]; rfl, ?_, accepted⟩
        exact List.forall_mem_cons.mpr ⟨rejected, before⟩
      · exact ⟨[], head, tail, after, rfl, by simp, accepted⟩

/-- One pass takes the accepted element that stands behind rejected ones. -/
theorem tryGetGuarded_first [DecidableEq T] {check : T → Effect State Error Bool}
    {state after : State} {queue : GenericQueue T} {old new : List T} {elem : T}
    (same : queue.mList = old ++ elem :: new)
    (rejected : ∀ other ∈ old, check other state = (.returns false, state))
    (accepted : check elem state = (.returns true, after)) :
    tryGetGuarded check queue state = (.returns (some elem, queue.remove elem), after) := by
  have scanned : scan check queue.mList state = (.returns (some elem), after) := by
    rw [same, scan_append rejected, scan, Effect.bind_of_returns accepted]
    rfl
  rw [tryGetGuarded, Effect.bind_of_returns scanned]
  rfl

/-- The element that a scan returns is the first one that the guard accepts. -/
theorem scan_some {answers : T → Outcome Error Bool} {elems : List T} {element : T} :
    scan (fun elem => (Effect.lift (answers elem) : Effect Unit Error Bool)) elems () =
        (.returns (some element), ()) ↔
      ∃ old new, elems = old ++ element :: new ∧ (∀ other ∈ old, answers other = .returns false) ∧
        answers element = .returns true := by
  induction elems with
  | nil => simp [scan]
  | cons head tail ih =>
      rw [scan, Effect.bind_run, Effect.lift_run]
      cases answer : answers head with
      | returns accepted =>
          cases accepted with
          | true =>
              simp only [if_true, Effect.pure_run, Prod.mk.injEq, Outcome.returns.injEq,
                Option.some.injEq, and_true]
              constructor
              · rintro rfl
                exact ⟨[], tail, rfl, by simp, answer⟩
              · rintro ⟨old, new, same, rejected, -⟩
                cases old with
                | nil => exact (List.cons.inj same).1
                | cons first rest =>
                    have here := rejected first List.mem_cons_self
                    rw [← (List.cons.inj same).1, answer] at here
                    cases here
          | false =>
              simp only [Bool.false_eq_true, if_false, ih]
              constructor
              · rintro ⟨old, new, rfl, rejected, accepted⟩
                refine ⟨head :: old, new, rfl, ?_, accepted⟩
                intro other member
                rcases List.mem_cons.mp member with rfl | inside
                · exact answer
                · exact rejected other inside
              · rintro ⟨old, new, same, rejected, accepted⟩
                cases old with
                | nil =>
                    rw [(List.cons.inj same).1, accepted] at answer
                    cases answer
                | cons first rest =>
                    exact ⟨rest, new, (List.cons.inj same).2,
                      fun other member => rejected other (List.mem_cons_of_mem _ member), accepted⟩
      | _ =>
          simp only [Prod.mk.injEq, reduceCtorEq, false_and, false_iff]
          rintro ⟨old, new, same, rejected, accepted⟩
          cases old with
          | nil =>
              rw [(List.cons.inj same).1, accepted] at answer
              cases answer
          | cons first rest =>
              have here := rejected first List.mem_cons_self
              rw [← (List.cons.inj same).1, answer] at here
              cases here

/-- A scan returns nothing when the guard rejects every element. -/
theorem scan_none {answers : T → Outcome Error Bool} {elems : List T} :
    scan (fun elem => (Effect.lift (answers elem) : Effect Unit Error Bool)) elems () =
        (.returns none, ()) ↔ ∀ element ∈ elems, answers element = .returns false := by
  induction elems with
  | nil => simp [scan]
  | cons head tail ih =>
      rw [scan, Effect.bind_run, Effect.lift_run, List.forall_mem_cons]
      cases answer : answers head with
      | returns accepted =>
          cases accepted with
          | true => simp
          | false => simp [ih]
      | _ => simp

theorem tryGetGuarded_some [DecidableEq T] {answers : T → Outcome Error Bool}
    {queue after : GenericQueue T} {element : T} :
    tryGetGuarded (fun elem => (Effect.lift (answers elem) : Effect Unit Error Bool)) queue () =
        (.returns (some element, after), ()) ↔
      (∃ old new, queue.mList = old ++ element :: new ∧
        (∀ other ∈ old, answers other = .returns false) ∧ answers element = .returns true) ∧
          after = queue.remove element := by
  rw [tryGetGuarded, Effect.bind_run, ← scan_some]
  rcases scan (fun elem => (Effect.lift (answers elem) : Effect Unit Error Bool)) queue.mList ()
    with ⟨outcome, ⟨⟩⟩
  cases outcome with
  | returns found =>
      cases found with
      | none => simp
      | some elem =>
          simp only [Effect.pure_run, Prod.mk.injEq, Outcome.returns.injEq, Option.some.injEq,
            and_true]
          constructor
          · rintro ⟨rfl, rfl⟩
            exact ⟨rfl, rfl⟩
          · rintro ⟨rfl, rfl⟩
            exact ⟨rfl, rfl⟩
  | _ => simp

theorem tryGetGuarded_none [DecidableEq T] {answers : T → Outcome Error Bool}
    {queue after : GenericQueue T} :
    tryGetGuarded (fun elem => (Effect.lift (answers elem) : Effect Unit Error Bool)) queue () =
        (.returns (none, after), ()) ↔
      (∀ element ∈ queue.mList, answers element = .returns false) ∧ after = queue := by
  rw [tryGetGuarded, Effect.bind_run, ← scan_none]
  rcases scan (fun elem => (Effect.lift (answers elem) : Effect Unit Error Bool)) queue.mList ()
    with ⟨outcome, ⟨⟩⟩
  cases outcome with
  | returns found => cases found <;> simp [eq_comm]
  | _ => simp

/-- An element that is queued once is taken out, and the others stay in order. -/
theorem remove_once [DecidableEq T] {queue : GenericQueue T} {old new : List T} {element : T}
    (same : queue.mList = old ++ element :: new) (distinct : queue.mList.Nodup) :
    (queue.remove element).mList = old ++ new := by
  rw [same, List.nodup_middle, List.nodup_cons] at distinct
  have others : ∀ other ∈ old ++ new, decide (other ≠ element) = true := by
    intro other member
    rw [decide_eq_true_eq]
    rintro rfl
    exact distinct.1 member
  have kept := List.filter_eq_self.mpr others
  rw [List.filter_append] at kept
  simp only [remove, same, List.filter_append, List.filter_cons, ne_eq, not_true_eq_false,
    decide_false, Bool.false_eq_true, if_false]
  exact kept

end GenericQueue

end Epi.Queue
