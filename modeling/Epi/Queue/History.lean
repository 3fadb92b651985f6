import Epi.Queue.Thread

namespace Epi.Queue

open Verification

variable {ι T : Type}

/-- The elements that the events put, in order. -/
def putsOf (events : List (Event ι T)) : List T :=
  events.filterMap fun event =>
    match event with
    | .puts _ element => some element
    | _ => none

/-- The elements that the events return, in order. -/
def returnsOf (events : List (Event ι T)) : List T :=
  events.filterMap fun event =>
    match event with
    | .returns _ element => some element
    | .picks _ _ element => some element
    | _ => none

theorem putsOf_append (first second : List (Event ι T)) :
    putsOf (first ++ second) = putsOf first ++ putsOf second := List.filterMap_append

theorem returnsOf_append (first second : List (Event ι T)) :
    returnsOf (first ++ second) = returnsOf first ++ returnsOf second := List.filterMap_append

variable [DecidableEq T]

/-- Everything that was put is queued, in the order of arrival, or was returned once. -/
structure Accounted (events : List (Event ι T)) (queue : GenericQueue T) : Prop where
  returnedOnce : (returnsOf events).Nodup
  returnedPut : ∀ element ∈ returnsOf events, element ∈ putsOf events
  queued : queue.mList = (putsOf events).filter (· ∉ returnsOf events)

/-- What a returning get leaves. An unguarded one returns the first element, a guarded one the first
element that its guard accepts. -/
def Orderly (before : GenericQueue T) (event : Event ι T) (after : GenericQueue T) : Prop :=
  match event with
  | .returns _ element => before.mList = element :: after.mList
  | .picks _ answers element => ∃ old new, before.mList = old ++ element :: new ∧
      (∀ other ∈ old, answers other = .returns false) ∧ answers element = .returns true ∧
        after.mList = old ++ new
  | .puts _ element => after.mList = before.mList ++ [element]
  | _ => after = before

/-- An orderly step that returns an element takes it out of the queue. -/
theorem accounted_return {events : List (Event ι T)} {queue after : GenericQueue T}
    (accounted : Accounted events queue) (distinct : (putsOf events).Nodup) {event : Event ι T}
    {element : T} (nothingPut : putsOf [event] = []) (returned : returnsOf [event] = [element])
    {old new : List T} (same : queue.mList = old ++ element :: new)
    (left : after.mList = old ++ new) : Accounted (events ++ [event]) after := by
  have queuedOnce : queue.mList.Nodup := by
    rw [accounted.queued]
    exact distinct.filter _
  have member : element ∈ queue.mList := by simp [same]
  have here := member
  rw [accounted.queued, List.mem_filter, decide_eq_true_eq] at here
  have removed : after.mList = queue.mList.filter (· ≠ element) :=
    left.trans (GenericQueue.remove_once same queuedOnce).symm
  constructor
  · rw [returnsOf_append, returned]
    exact List.Nodup.append accounted.returnedOnce (List.nodup_singleton _)
      (List.disjoint_singleton.mpr here.2)
  · intro other inside
    rw [returnsOf_append, returned, List.mem_append, List.mem_singleton] at inside
    rw [putsOf_append, nothingPut, List.append_nil]
    rcases inside with earlier | rfl
    · exact accounted.returnedPut other earlier
    · exact here.1
  · rw [removed, accounted.queued, returnsOf_append, putsOf_append, returned, nothingPut,
      List.append_nil, List.filter_filter]
    apply List.filter_congr
    intro other inside
    simp only [List.mem_append, List.mem_singleton, not_or, ne_eq, Bool.decide_and]
    rw [Bool.and_comm]

/-- A step that moves no element keeps the account. -/
theorem accounted_silent {events : List (Event ι T)} {queue after : GenericQueue T}
    (accounted : Accounted events queue) {event : Event ι T} (nothingPut : putsOf [event] = [])
    (nothingReturned : returnsOf [event] = []) (kept : after = queue) :
    Accounted (events ++ [event]) after := by
  have puts : putsOf (events ++ [event]) = putsOf events := by
    rw [putsOf_append, nothingPut, List.append_nil]
  have returned : returnsOf (events ++ [event]) = returnsOf events := by
    rw [returnsOf_append, nothingReturned, List.append_nil]
  subst kept
  constructor
  · rw [returned]
    exact accounted.returnedOnce
  · rw [returned, puts]
    exact accounted.returnedPut
  · rw [returned, puts]
    exact accounted.queued

variable [DecidableEq ι]

/-- Every step on a queue without copies is orderly. -/
theorem step_orderly {before after : Config ι T} {event : Event ι T}
    (distinct : before.queue.mList.Nodup) (taken : Step before event after) :
    Orderly before.queue event after.queue := by
  cases taken with
  | put ready signal => rfl
  | get ready found => exact GenericQueue.tryGet_some.mp found
  | getWaits ready empty => exact (GenericQueue.tryGet_none.mp empty).2
  | pick ready met found =>
      obtain ⟨⟨old, new, same, rejected, accepted⟩, rfl⟩ := pass_some.mp found
      exact ⟨old, new, same, rejected, accepted, GenericQueue.remove_once same distinct⟩
  | pickWaits ready met refused signal => exact (pass_none.mp refused).2
  | _ => rfl

/-- A step keeps the account, if the elements that were put are distinct. -/
theorem accounted_step {events : List (Event ι T)} {before after : Config ι T}
    {event : Event ι T} (distinct : (putsOf (events ++ [event])).Nodup)
    (accounted : Accounted events before.queue) (taken : Step before event after) :
    Accounted (events ++ [event]) after.queue := by
  have earlier : (putsOf events).Nodup := by
    rw [putsOf_append] at distinct
    exact (List.nodup_append.mp distinct).1
  have queuedOnce : before.queue.mList.Nodup := by
    rw [accounted.queued]
    exact earlier.filter _
  have orderly := step_orderly queuedOnce taken
  cases event with
  | puts thread element =>
      have stored : after.queue.mList = before.queue.mList ++ [element] := orderly
      have fresh : element ∉ returnsOf events := by
        intro returned
        have put := accounted.returnedPut element returned
        rw [putsOf_append] at distinct
        exact (List.nodup_append.mp distinct).2.2 element put element List.mem_cons_self rfl
      have nothing : returnsOf [Event.puts thread element] = [] := rfl
      have one : putsOf [Event.puts thread element] = [element] := rfl
      constructor
      · rw [returnsOf_append, nothing, List.append_nil]
        exact accounted.returnedOnce
      · intro other returned
        rw [returnsOf_append, nothing, List.append_nil] at returned
        rw [putsOf_append]
        exact List.mem_append_left _ (accounted.returnedPut other returned)
      · rw [stored, accounted.queued, returnsOf_append, nothing, List.append_nil, putsOf_append, one,
          List.filter_append]
        simp [fresh]
  | returns thread element =>
      have taken : before.queue.mList = [] ++ element :: after.queue.mList := orderly
      exact accounted_return accounted earlier rfl rfl taken rfl
  | picks thread answers element =>
      obtain ⟨old, new, same, -, -, left⟩ := orderly
      exact accounted_return accounted earlier rfl rfl same left
  | _ => exact accounted_silent accounted rfl rfl orderly

/-- In every run that puts each element once, each element is queued or was returned once, the
queue is in order of arrival, and every get that returns an element takes the first one it can. -/
theorem run_accounted {events : List (Event ι T)} {config : Config ι T}
    (run : Run Started Step events config) (distinct : (putsOf events).Nodup) :
    Accounted events config.queue ∧
      ∀ event after, Step config event after → Orderly config.queue event after.queue := by
  have accounted : Accounted events config.queue := by
    induction run with
    | start initial => exact ⟨List.nodup_nil, List.forall_mem_nil _, initial.1⟩
    | step before taken ih =>
        have earlier := distinct
        rw [putsOf_append] at earlier
        exact accounted_step distinct (ih (List.nodup_append.mp earlier).1) taken
  refine ⟨accounted, fun event after taken => step_orderly ?_ taken⟩
  rw [accounted.queued]
  exact distinct.filter _

/-- A guarded get takes the second of two elements. -/
theorem run_accounted_second : ∃ (events : List (Event Bool Nat)) (config : Config Bool Nat),
    putsOf events = [1, 2] ∧ returnsOf events = [2] ∧ config.queue.mList = [1] ∧
      Accounted events config.queue ∧
      ∀ event after, Step config event after → Orderly config.queue event after.queue := by
  have start : Run Started Step [] (⟨⟨[]⟩, fun _ => .idle⟩ : Config Bool Nat) :=
    .start ⟨rfl, fun _ => rfl⟩
  have one := start.step (show Step _ (.calls true (.put 1)) _ from .call rfl (.put 1))
  have putOne := one.step (show Step _ (.puts true 1) _ from .put rfl
    (.nobody (by intro thread call; cases thread <;> simp)))
  have two := putOne.step (show Step _ (.calls true (.put 2)) _ from .call rfl (.put 2))
  have putTwo := two.step (show Step _ (.puts true 2) _ from .put rfl
    (.nobody (by intro thread call; cases thread <;> simp)))
  have asks := putTwo.step (show Step _ (.calls false (.getGuarded (fun _ => True) true)) _ from
    .call rfl _)
  have picks := asks.step (show Step _ (.picks false (fun element => .returns (element == 2)) 2) _
    from .pick rfl trivial (by rfl))
  exact ⟨_, _, rfl, rfl, rfl, run_accounted picks (by decide)⟩

end Epi.Queue
