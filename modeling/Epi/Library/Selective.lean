import Epi.Library.Run

namespace Verification

variable {Caller Item Query Moment Answer : Type}

/-- A queue that is asked for items: which items a query accepts, what it answers for the item that
it takes, when its time is over, whether a notification ends it, and what it answers without an
item. -/
structure Selection (Item Query Moment Answer : Type) where
  accepts : Query → Item → Prop
  gives : Query → Item → Answer → Prop
  expired : Query → Moment → Prop
  hasty : Query → Prop
  misses : Query → Answer → Prop

/-- A query makes passes over the queue. The last one ends with the answer, or the query gives up
while it waits. -/
inductive SelectionEvent (Caller Item Query Moment Answer : Type) where
  | arrives (item : Item)
  | answers (caller : Caller) (query : Query) (moment : Moment) (answer : Answer)
  | waits (caller : Caller) (query : Query) (moment : Moment)
  | quits (caller : Caller) (query : Query) (answer : Answer)

namespace SelectionEvent

/-- Whose query it is. -/
def call : SelectionEvent Caller Item Query Moment Answer → Option (Caller × Query)
  | .arrives _ => none
  | .answers caller query _ _ | .waits caller query _ | .quits caller query _ =>
      some (caller, query)

/-- The query that went over the queue. -/
def pass : SelectionEvent Caller Item Query Moment Answer → Option Query
  | .arrives _ | .quits _ _ _ => none
  | .answers _ query _ _ | .waits _ query _ => some query

end SelectionEvent

/-- The items in the order of arrival, and the queries that wait. -/
structure Selecting (Caller Item Query : Type) where
  queue : List Item
  waiting : Caller → Option Query

/-- The caller waits with this query, or does not wait. -/
def Selecting.Calls (state : Selecting Caller Item Query) (caller : Caller) (query : Query) :
    Prop :=
  ∀ other ∈ state.waiting caller, other = query

namespace Selection

/-- An item gets behind the others. A pass takes the first item that its query accepts, and the
others stay in order. Without such an item the query ends when its time is over, and waits
otherwise. A query that waits makes another pass, or gives up. -/
inductive Step [DecidableEq Caller] (selection : Selection Item Query Moment Answer) :
    Transition (Selecting Caller Item Query) (SelectionEvent Caller Item Query Moment Answer)
  | arrives (item : Item) (state : Selecting Caller Item Query) :
      Step selection state (.arrives item) { state with queue := state.queue ++ [item] }
  | takes {state : Selecting Caller Item Query} {caller : Caller} {old new : List Item}
      {item : Item} {query : Query} {answer : Answer} (moment : Moment)
      (calls : state.Calls caller query) (queued : state.queue = old ++ item :: new)
      (refused : ∀ other ∈ old, ¬ selection.accepts query other)
      (accepted : selection.accepts query item) (given : selection.gives query item answer) :
      Step selection state (.answers caller query moment answer)
        ⟨old ++ new, Function.update state.waiting caller none⟩
  | expires {state : Selecting Caller Item Query} {caller : Caller} {query : Query}
      {moment : Moment} {answer : Answer} (calls : state.Calls caller query)
      (refused : ∀ other ∈ state.queue, ¬ selection.accepts query other)
      (expired : selection.expired query moment) (missed : selection.misses query answer) :
      Step selection state (.answers caller query moment answer)
        { state with waiting := Function.update state.waiting caller none }
  | waits {state : Selecting Caller Item Query} {caller : Caller} {query : Query}
      {moment : Moment} (calls : state.Calls caller query)
      (refused : ∀ other ∈ state.queue, ¬ selection.accepts query other)
      (left : ¬ selection.expired query moment) :
      Step selection state (.waits caller query moment)
        { state with waiting := Function.update state.waiting caller (some query) }
  | quits {state : Selecting Caller Item Query} {caller : Caller} {query : Query}
      {answer : Answer} (asleep : state.waiting caller = some query)
      (hasty : selection.hasty query) (missed : selection.misses query answer) :
      Step selection state (.quits caller query answer)
        { state with waiting := Function.update state.waiting caller none }

/-- The item that arrived at this place. -/
def ArrivesAt (events : List (SelectionEvent Caller Item Query Moment Answer)) (place : Nat)
    (item : Item) : Prop :=
  events[place]? = some (.arrives item)

/-- The query that went over the queue at this time. -/
def PassesAt (events : List (SelectionEvent Caller Item Query Moment Answer)) (time : Nat)
    (query : Query) : Prop :=
  ∃ event, events[time]? = some event ∧ event.pass = some query

/-- The caller waits with the query at this time, since its last event. -/
def WaitsUntil (events : List (SelectionEvent Caller Item Query Moment Answer)) (time : Nat)
    (caller : Caller) (query : Query) : Prop :=
  ∃ earlier < time, (∃ moment, events[earlier]? = some (.waits caller query moment)) ∧
    ∀ (between : Nat) event, earlier < between → between < time → events[between]? = some event →
      ∀ other, event.call ≠ some (caller, other)

/-- Which pass took which item, both by their places among the events. A pass takes one accepted
item that arrived before it, and no item is taken twice. It passes over an older item that its query
accepts only when that one was taken before. It ends without an item only after the query's time,
and waits only before. What nobody took is queued in the order of arrival. -/
structure Schedule (selection : Selection Item Query Moment Answer)
    (events : List (SelectionEvent Caller Item Query Moment Answer)) (queue : List Item)
    (taker : Nat → Option Nat) : Prop where
  taken : ∀ place time, taker place = some time → place < time ∧
    ∃ item caller query moment answer, ArrivesAt events place item ∧
      events[time]? = some (.answers caller query moment answer) ∧
      selection.accepts query item ∧ selection.gives query item answer
  once : ∀ first second time, taker first = some time → taker second = some time → first = second
  oldest : ∀ place time item query, ArrivesAt events place item → PassesAt events time query →
    place < time → selection.accepts query item →
      (∃ earlier ≤ time, taker place = some earlier) ∨ ∃ older < place, taker older = some time
  answered : ∀ (time : Nat) caller query moment answer,
    events[time]? = some (.answers caller query moment answer) →
      (∃ place, taker place = some time) ∨
        selection.expired query moment ∧ selection.misses query answer
  waited : ∀ (time : Nat) caller query moment, events[time]? = some (.waits caller query moment) →
    ¬ selection.expired query moment
  waiting : ∃ places : List Nat, places.Pairwise (· < ·) ∧
    (∀ place, place ∈ places ↔ taker place = none ∧ ∃ item, ArrivesAt events place item) ∧
    List.Forall₂ (ArrivesAt events) places queue

/-- A caller that waits comes back with the same query, and only a query that waits gives up. -/
structure Attendance (selection : Selection Item Query Moment Answer)
    (events : List (SelectionEvent Caller Item Query Moment Answer))
    (waiting : Caller → Option Query) : Prop where
  returns : ∀ (time : Nat) event caller query other, events[time]? = some event →
    event.call = some (caller, query) → WaitsUntil events time caller other → other = query
  quits : ∀ (time : Nat) caller query answer, events[time]? = some (.quits caller query answer) →
    WaitsUntil events time caller query ∧ selection.hasty query ∧ selection.misses query answer
  waiting : ∀ caller query,
    waiting caller = some query ↔ WaitsUntil events events.length caller query

section Schedule

variable {selection : Selection Item Query Moment Answer}
  {events : List (SelectionEvent Caller Item Query Moment Answer)} {queue : List Item}
  {taker : Nat → Option Nat} {event : SelectionEvent Caller Item Query Moment Answer}

/-- The new event is the last one. -/
theorem getElem?_concat_iff {Element : Type} {elems : List Element} {last element : Element}
    {place : Nat} : (elems ++ [last])[place]? = some element ↔
      elems[place]? = some element ∨ place = elems.length ∧ last = element := by
  rcases Nat.lt_trichotomy place elems.length with inside | rfl | behind
  · rw [List.getElem?_append_left inside]
    simp [inside.ne]
  · simp
  · have outside : elems[place]? = none := List.getElem?_eq_none behind.le
    have beyond : (elems ++ [last])[place]? = none :=
      List.getElem?_eq_none (by simpa using behind)
    simp [outside, beyond, behind.ne']

theorem arrivesAt_concat {place : Nat} {item : Item} :
    ArrivesAt (events ++ [event]) place item ↔
      ArrivesAt events place item ∨ place = events.length ∧ event = .arrives item :=
  getElem?_concat_iff

theorem passesAt_concat {time : Nat} {query : Query} :
    PassesAt (events ++ [event]) time query ↔
      PassesAt events time query ∨ time = events.length ∧ event.pass = some query := by
  constructor
  · rintro ⟨other, held, asked⟩
    rcases getElem?_concat_iff.mp held with earlier | ⟨last, rfl⟩
    · exact .inl ⟨other, earlier, asked⟩
    · exact .inr ⟨last, asked⟩
  · rintro (⟨other, held, asked⟩ | ⟨last, asked⟩)
    · exact ⟨other, getElem?_concat_iff.mpr (.inl held), asked⟩
    · exact ⟨event, getElem?_concat_iff.mpr (.inr ⟨last, rfl⟩), asked⟩

theorem ArrivesAt.lt {place : Nat} {item : Item} (arrives : ArrivesAt events place item) :
    place < events.length :=
  (List.getElem?_eq_some_iff.mp arrives).1

theorem PassesAt.lt {time : Nat} {query : Query} (passes : PassesAt events time query) :
    time < events.length := by
  obtain ⟨event, held, -⟩ := passes
  exact (List.getElem?_eq_some_iff.mp held).1

theorem ArrivesAt.item_eq {place : Nat} {item other : Item}
    (arrives : ArrivesAt events place item) (again : ArrivesAt events place other) :
    item = other := by
  rw [ArrivesAt, again, Option.some.injEq, SelectionEvent.arrives.injEq] at arrives
  exact arrives.symm

/-- A list that is related to a split one is split as well. -/
theorem forall₂_split {Left Right : Type} {related : Left → Right → Prop} {lefts : List Left}
    {old new : List Right} {right : Right}
    (both : List.Forall₂ related lefts (old ++ right :: new)) :
    ∃ before left behind, lefts = before ++ left :: behind ∧ List.Forall₂ related before old ∧
      related left right ∧ List.Forall₂ related behind new := by
  induction old generalizing lefts with
  | nil =>
      cases both with
      | cons here rest => exact ⟨[], _, _, rfl, .nil, here, rest⟩
  | cons head tail ih =>
      cases both with
      | cons here rest =>
          obtain ⟨before, left, behind, rfl, front, middle, back⟩ := ih rest
          exact ⟨_ :: before, left, behind, rfl, .cons here front, middle, back⟩

/-- Each element of the first list is related to one of the second. -/
theorem exists_related {Left Right : Type} {related : Left → Right → Prop} {lefts : List Left}
    {rights : List Right} (both : List.Forall₂ related lefts rights) {left : Left}
    (member : left ∈ lefts) : ∃ right ∈ rights, related left right := by
  induction both with
  | nil => cases member
  | @cons first right lefts rights here rest ih =>
      rcases List.mem_cons.mp member with rfl | later
      · exact ⟨right, List.mem_cons_self, here⟩
      · obtain ⟨other, inside, there⟩ := ih later
        exact ⟨other, List.mem_cons_of_mem _ inside, there⟩

namespace Schedule

theorem start (selection : Selection Item Query Moment Answer) :
    selection.Schedule ([] : List (SelectionEvent Caller Item Query Moment Answer)) []
      fun _ => none where
  taken _ _ taken := absurd taken.symm (Option.some_ne_none _)
  once _ _ _ taken := absurd taken.symm (Option.some_ne_none _)
  oldest _ _ _ _ arrived := absurd arrived.lt (Nat.not_lt_zero _)
  answered _ _ _ _ _ held := absurd held.symm (Option.some_ne_none _)
  waited _ _ _ _ held := absurd held.symm (Option.some_ne_none _)
  waiting := ⟨[], .nil, fun place => by simp [ArrivesAt], .nil⟩

/-- Only events that happened take part. -/
theorem taker_lt (schedule : selection.Schedule events queue taker) {place time : Nat}
    (taken : taker place = some time) : place < events.length ∧ time < events.length := by
  obtain ⟨-, item, caller, query, moment, answer, arrived, held, -⟩ :=
    schedule.taken place time taken
  exact ⟨arrived.lt, (List.getElem?_eq_some_iff.mp held).1⟩

/-- What was taken stays taken. -/
theorem taken_concat (schedule : selection.Schedule events queue taker)
    (event : SelectionEvent Caller Item Query Moment Answer) {place time : Nat}
    (taken : taker place = some time) : place < time ∧
      ∃ item caller query moment answer, ArrivesAt (events ++ [event]) place item ∧
        (events ++ [event])[time]? = some (.answers caller query moment answer) ∧
        selection.accepts query item ∧ selection.gives query item answer := by
  obtain ⟨before, item, caller, query, moment, answer, arrived, held, facts⟩ :=
    schedule.taken place time taken
  exact ⟨before, item, caller, query, moment, answer, arrivesAt_concat.mpr (.inl arrived),
    getElem?_concat_iff.mpr (.inl held), facts⟩

/-- A new item waits behind the others. -/
theorem arrive (schedule : selection.Schedule events queue taker) (item : Item) :
    selection.Schedule (events ++ [.arrives item]) (queue ++ [item]) taker where
  taken _ _ taken := schedule.taken_concat _ taken
  once := schedule.once
  oldest place time other query arrived passed before accepted := by
    rcases passesAt_concat.mp passed with earlier | ⟨-, same⟩
    · rcases arrivesAt_concat.mp arrived with old | ⟨rfl, -⟩
      · exact schedule.oldest place time other query old earlier before accepted
      · exact absurd (before.trans earlier.lt) (lt_irrefl _)
    · cases same
  answered time caller query moment answer held := by
    rcases getElem?_concat_iff.mp held with earlier | ⟨-, same⟩
    · exact schedule.answered time caller query moment answer earlier
    · cases same
  waited time caller query moment held := by
    rcases getElem?_concat_iff.mp held with earlier | ⟨-, same⟩
    · exact schedule.waited time caller query moment earlier
    · cases same
  waiting := by
    obtain ⟨places, ordered, waits, held⟩ := schedule.waiting
    have untaken : taker events.length = none := by
      cases taken : taker events.length with
      | none => rfl
      | some time => exact absurd (schedule.taker_lt taken).1 (lt_irrefl _)
    refine ⟨places ++ [events.length], ?_, ?_, ?_⟩
    · refine List.pairwise_append.mpr ⟨ordered, List.pairwise_singleton _ _, ?_⟩
      intro place member last here
      obtain ⟨-, other, arrived⟩ := (waits place).mp member
      rw [List.mem_singleton.mp here]
      exact arrived.lt
    · intro place
      rw [List.mem_append, List.mem_singleton, waits]
      constructor
      · rintro (⟨free, other, arrived⟩ | rfl)
        · exact ⟨free, other, arrivesAt_concat.mpr (.inl arrived)⟩
        · exact ⟨untaken, item, arrivesAt_concat.mpr (.inr ⟨rfl, rfl⟩)⟩
      · rintro ⟨free, other, arrived⟩
        rcases arrivesAt_concat.mp arrived with old | ⟨last, -⟩
        · exact .inl ⟨free, other, old⟩
        · exact .inr last
    · refine List.rel_append (held.imp fun _ _ arrived => arrivesAt_concat.mpr (.inl arrived)) ?_
      exact .cons (arrivesAt_concat.mpr (.inr ⟨rfl, rfl⟩)) .nil

/-- No item arrives with a call. -/
theorem arrivesAt_call {asked : Caller × Query} (called : event.call = some asked) {place : Nat}
    {item : Item} : ArrivesAt (events ++ [event]) place item ↔ ArrivesAt events place item := by
  rw [arrivesAt_concat]
  constructor
  · rintro (earlier | ⟨-, rfl⟩)
    · exact earlier
    · cases called
  · exact .inl

/-- An event that takes no item, because its query accepts nothing that waits or makes no pass. -/
theorem spare (schedule : selection.Schedule events queue taker) {asked : Caller × Query}
    (called : event.call = some asked)
    (refused : ∀ query ∈ event.pass, ∀ other ∈ queue, ¬ selection.accepts query other)
    (answered : ∀ caller query moment answer, event = .answers caller query moment answer →
      selection.expired query moment ∧ selection.misses query answer)
    (waited : ∀ caller query moment, event = .waits caller query moment →
      ¬ selection.expired query moment) :
    selection.Schedule (events ++ [event]) queue taker where
  taken _ _ taken := schedule.taken_concat _ taken
  once := schedule.once
  oldest place time item query arrived passed before accepted := by
    rw [arrivesAt_call called] at arrived
    rcases passesAt_concat.mp passed with earlier | ⟨rfl, wanted⟩
    · exact schedule.oldest place time item query arrived earlier before accepted
    · cases taken : taker place with
      | some earlier => exact .inl ⟨earlier, (schedule.taker_lt taken).2.le, rfl⟩
      | none =>
          obtain ⟨places, -, waits, held⟩ := schedule.waiting
          obtain ⟨waiting, member, there⟩ :=
            exists_related held ((waits place).mpr ⟨taken, item, arrived⟩)
          rw [arrived.item_eq there] at accepted
          exact absurd accepted (refused query wanted waiting member)
  answered time caller query moment answer held := by
    rcases getElem?_concat_iff.mp held with earlier | ⟨-, same⟩
    · exact schedule.answered time caller query moment answer earlier
    · exact .inr (answered caller query moment answer same)
  waited time caller query moment held := by
    rcases getElem?_concat_iff.mp held with earlier | ⟨-, same⟩
    · exact schedule.waited time caller query moment earlier
    · exact waited caller query moment same
  waiting := by
    obtain ⟨places, ordered, waits, held⟩ := schedule.waiting
    refine ⟨places, ordered, ?_, held.imp fun _ _ arrived => (arrivesAt_call called).mpr arrived⟩
    intro place
    simp only [waits, arrivesAt_call called]

/-- A pass takes the first item that its query accepts of those that wait. -/
theorem take {old new : List Item} {item : Item} {caller : Caller} {query : Query}
    {answer : Answer} (schedule : selection.Schedule events (old ++ item :: new) taker)
    (moment : Moment) (refused : ∀ other ∈ old, ¬ selection.accepts query other)
    (accepted : selection.accepts query item) (given : selection.gives query item answer) :
    ∃ later, selection.Schedule (events ++ [.answers caller query moment answer]) (old ++ new)
      later := by
  obtain ⟨places, ordered, waits, held⟩ := schedule.waiting
  obtain ⟨before, chosen, behind, rfl, front, arrived, back⟩ := forall₂_split held
  obtain ⟨-, ordered', apart⟩ := List.pairwise_append.mp ordered
  have free : taker chosen = none := ((waits chosen).mp (by simp)).1
  have untouched : ∀ {place}, place ≠ chosen →
      Function.update taker chosen (some events.length) place = taker place :=
    fun other => Function.update_of_ne other _ _
  have other : ∀ {place time}, taker place = some time → place ≠ chosen := by
    rintro place time taken rfl
    rw [free] at taken
    cases taken
  refine ⟨Function.update taker chosen (some events.length), ?_, ?_, ?_, ?_, ?_, ?_⟩
  · intro place time taken
    by_cases same : place = chosen
    · subst same
      rw [Function.update_self, Option.some.injEq] at taken
      subst taken
      exact ⟨arrived.lt, item, caller, query, moment, answer, (arrivesAt_call rfl).mpr arrived,
        getElem?_concat_iff.mpr (.inr ⟨rfl, rfl⟩), accepted, given⟩
    · rw [untouched same] at taken
      exact schedule.taken_concat _ taken
  · intro first second time takenFirst takenSecond
    by_cases same : first = chosen
    · by_cases again : second = chosen
      · rw [same, again]
      · rw [same, Function.update_self, Option.some.injEq] at takenFirst
        rw [untouched again, ← takenFirst] at takenSecond
        exact absurd (schedule.taker_lt takenSecond).2 (lt_irrefl _)
    · rw [untouched same] at takenFirst
      by_cases again : second = chosen
      · rw [again, Function.update_self, Option.some.injEq] at takenSecond
        rw [← takenSecond] at takenFirst
        exact absurd (schedule.taker_lt takenFirst).2 (lt_irrefl _)
      · rw [untouched again] at takenSecond
        exact schedule.once first second time takenFirst takenSecond
  · intro place time there asked arrivedThere passed less wanted
    rw [arrivesAt_call rfl] at arrivedThere
    rcases passesAt_concat.mp passed with earlier | ⟨rfl, same⟩
    · rcases schedule.oldest place time there asked arrivedThere earlier less wanted with
        ⟨taken, bound, known⟩ | ⟨older, smaller, known⟩
      · exact .inl ⟨taken, bound, (untouched (other known)).trans known⟩
      · exact .inr ⟨older, smaller, (untouched (other known)).trans known⟩
    · cases same
      by_cases same : place = chosen
      · exact .inl ⟨events.length, le_rfl, by rw [same, Function.update_self]⟩
      · cases known : taker place with
        | some taken =>
            exact .inl ⟨taken, (schedule.taker_lt known).2.le, (untouched same).trans known⟩
        | none =>
            -- It still waits, and it is none of the refused items in front of the chosen one.
            have inside := (waits place).mpr ⟨known, there, arrivedThere⟩
            rcases List.mem_append.mp inside with inFront | others
            · obtain ⟨waiting, member, held⟩ := exists_related front inFront
              rw [arrivedThere.item_eq held] at wanted
              exact absurd wanted (refused waiting member)
            · rcases List.mem_cons.mp others with equal | inBack
              · exact absurd equal same
              · exact .inr ⟨chosen, List.rel_of_pairwise_cons ordered' inBack,
                  Function.update_self ..⟩
  · intro time asker asked clock reply here
    rcases getElem?_concat_iff.mp here with earlier | ⟨rfl, -⟩
    · refine (schedule.answered time asker asked clock reply earlier).imp_left ?_
      rintro ⟨place, known⟩
      exact ⟨place, (untouched (other known)).trans known⟩
    · exact .inl ⟨chosen, Function.update_self ..⟩
  · intro time asker asked clock here
    rcases getElem?_concat_iff.mp here with earlier | ⟨-, same⟩
    · exact schedule.waited time asker asked clock earlier
    · cases same
  · have arrivals : ∀ {place : Nat} {other : Item},
        ArrivesAt (events ++ [.answers caller query moment answer]) place other ↔
          ArrivesAt events place other := arrivesAt_call rfl
    refine ⟨before ++ behind, ordered.sublist (by simp), ?_, ?_⟩
    · intro place
      simp only [arrivals]
      by_cases same : place = chosen
      · subst same
        have distinct : place ∉ before ++ behind := by
          rw [List.mem_append]
          rintro (inFront | inBack)
          · exact lt_irrefl _ (apart place inFront place List.mem_cons_self)
          · exact lt_irrefl _ (List.rel_of_pairwise_cons ordered' inBack)
        simp [distinct]
      · rw [untouched same, ← waits]
        simp [same]
    · exact (List.rel_append front back).imp fun _ _ held => arrivals.mpr held

/-- Each step takes at most one item. -/
theorem step [DecidableEq Caller] {state after : Selecting Caller Item Query}
    (schedule : selection.Schedule events state.queue taker)
    (step : selection.Step state event after) :
    ∃ later, selection.Schedule (events ++ [event]) after.queue later := by
  cases step with
  | arrives item => exact ⟨taker, schedule.arrive item⟩
  | takes moment calls queued refused accepted given =>
      rw [queued] at schedule
      exact schedule.take moment refused accepted given
  | expires calls refused expired missed =>
      refine ⟨taker, schedule.spare rfl ?_ ?_ ?_⟩
      · rintro query ⟨⟩
        exact refused
      · rintro caller query moment answer ⟨⟩
        exact ⟨expired, missed⟩
      · rintro caller query moment ⟨⟩
  | waits calls refused left =>
      refine ⟨taker, schedule.spare rfl ?_ ?_ ?_⟩
      · rintro query ⟨⟩
        exact refused
      · rintro caller query moment answer ⟨⟩
      · rintro caller query moment ⟨⟩
        exact left
  | quits asleep hasty missed =>
      refine ⟨taker, schedule.spare rfl ?_ ?_ ?_⟩
      · rintro query ⟨⟩
      · rintro caller query moment answer ⟨⟩
      · rintro caller query moment ⟨⟩

end Schedule

section Attendance

variable {waiting : Caller → Option Query} {caller : Caller} {query : Query}

/-- What was before a time does not change. -/
theorem waitsUntil_concat {time : Nat} (before : time ≤ events.length) :
    WaitsUntil (events ++ [event]) time caller query ↔ WaitsUntil events time caller query := by
  have kept : ∀ place < time, (events ++ [event])[place]? = events[place]? :=
    fun place inside => List.getElem?_append_left (inside.trans_le before)
  constructor
  · rintro ⟨earlier, less, ⟨moment, held⟩, alone⟩
    refine ⟨earlier, less, ⟨moment, (kept earlier less).symm.trans held⟩, ?_⟩
    intro between other behind inside here
    exact alone between other behind inside ((kept between inside).trans here)
  · rintro ⟨earlier, less, ⟨moment, held⟩, alone⟩
    refine ⟨earlier, less, ⟨moment, (kept earlier less).trans held⟩, ?_⟩
    intro between other behind inside here
    exact alone between other behind inside ((kept between inside).symm.trans here)

/-- A caller waits after an event when it began to wait then, or waited before and the event was not
its own. -/
theorem waitsUntil_last :
    WaitsUntil (events ++ [event]) (events ++ [event]).length caller query ↔
      (∃ moment, event = .waits caller query moment) ∨
        WaitsUntil events events.length caller query ∧
          ∀ other, event.call ≠ some (caller, other) := by
  have last : (events ++ [event])[events.length]? = some event :=
    getElem?_concat_iff.mpr (.inr ⟨rfl, rfl⟩)
  have length : (events ++ [event]).length = events.length + 1 := by simp
  rw [length]
  constructor
  · rintro ⟨earlier, less, ⟨moment, held⟩, alone⟩
    rcases getElem?_concat_iff.mp held with old | ⟨-, same⟩
    · have inside := (List.getElem?_eq_some_iff.mp old).1
      refine .inr ⟨⟨earlier, inside, ⟨moment, old⟩, ?_⟩,
        alone events.length event inside (Nat.lt_succ_self _) last⟩
      intro between other behind ahead here
      exact alone between other behind (Nat.lt_succ_of_lt ahead)
        (getElem?_concat_iff.mpr (.inl here))
    · exact .inl ⟨moment, same⟩
  · rintro (⟨moment, rfl⟩ | ⟨⟨earlier, less, ⟨moment, held⟩, alone⟩, foreign⟩)
    · refine ⟨events.length, Nat.lt_succ_self _, ⟨moment, last⟩, ?_⟩
      intro between other behind ahead
      omega
    · refine ⟨earlier, Nat.lt_succ_of_lt less, ⟨moment, getElem?_concat_iff.mpr (.inl held)⟩, ?_⟩
      intro between other behind ahead here
      rcases getElem?_concat_iff.mp here with old | ⟨-, rfl⟩
      · exact alone between other behind (List.getElem?_eq_some_iff.mp old).1 old
      · exact foreign

namespace Attendance

theorem start (selection : Selection Item Query Moment Answer) :
    selection.Attendance ([] : List (SelectionEvent Caller Item Query Moment Answer))
      fun _ => none where
  returns _ _ _ _ _ held := absurd held.symm (Option.some_ne_none _)
  quits _ _ _ _ held := absurd held.symm (Option.some_ne_none _)
  waiting caller query := by simp [WaitsUntil]

/-- A new event of a caller is one of the query that it waits with. -/
theorem extend (attendance : selection.Attendance events waiting) {after : Caller → Option Query}
    (calls : ∀ caller query, event.call = some (caller, query) →
      ∀ other ∈ waiting caller, other = query)
    (quits : ∀ caller query answer, event = .quits caller query answer →
      waiting caller = some query ∧ selection.hasty query ∧ selection.misses query answer)
    (moved : ∀ caller query, after caller = some query ↔
      (∃ moment, event = .waits caller query moment) ∨
        waiting caller = some query ∧ ∀ other, event.call ≠ some (caller, other)) :
    selection.Attendance (events ++ [event]) after where
  returns time other caller query previous held called waited := by
    rcases getElem?_concat_iff.mp held with earlier | ⟨rfl, rfl⟩
    · rw [waitsUntil_concat (List.getElem?_eq_some_iff.mp earlier).1.le] at waited
      exact attendance.returns time other caller query previous earlier called waited
    · rw [waitsUntil_concat le_rfl] at waited
      exact calls caller query called previous ((attendance.waiting caller previous).mpr waited)
  quits time caller query answer held := by
    rcases getElem?_concat_iff.mp held with earlier | ⟨rfl, same⟩
    · rw [waitsUntil_concat (List.getElem?_eq_some_iff.mp earlier).1.le]
      exact attendance.quits time caller query answer earlier
    · obtain ⟨asleep, facts⟩ := quits caller query answer same
      rw [waitsUntil_concat le_rfl]
      exact ⟨(attendance.waiting caller query).mp asleep, facts⟩
  waiting caller query := by
    rw [moved, waitsUntil_last, attendance.waiting]

theorem step [DecidableEq Caller] {state after : Selecting Caller Item Query}
    (attendance : selection.Attendance events state.waiting)
    (step : selection.Step state event after) :
    selection.Attendance (events ++ [event]) after.waiting := by
  have woken : ∀ (caller : Caller) (query : Query) (other : Caller) held,
      Function.update state.waiting caller none other = some held ↔
        state.waiting other = some held ∧
          ∀ asked : Query, some (caller, query) ≠ some (other, asked) := by
    intro caller query other held
    by_cases same : other = caller
    · simp [same]
    · simp [same, Ne.symm same]
  cases step with
  | arrives item =>
      apply attendance.extend
      · rintro caller query ⟨⟩
      · rintro caller query answer ⟨⟩
      · simp [SelectionEvent.call]
  | @takes _ caller old new item query answer moment calls queued refused accepted given =>
      apply attendance.extend
      · rintro _ _ ⟨⟩
        exact calls
      · rintro _ _ _ ⟨⟩
      · simpa [SelectionEvent.call] using woken caller query
  | @expires _ caller query moment answer calls refused expired missed =>
      apply attendance.extend
      · rintro _ _ ⟨⟩
        exact calls
      · rintro _ _ _ ⟨⟩
      · simpa [SelectionEvent.call] using woken caller query
  | @waits _ caller query moment calls refused left =>
      apply attendance.extend
      · rintro _ _ ⟨⟩
        exact calls
      · rintro _ _ _ ⟨⟩
      · intro other held
        by_cases same : other = caller
        · simp [SelectionEvent.call, same]
        · simp [SelectionEvent.call, same, Ne.symm same]
  | @quits _ caller query answer asleep hasty missed =>
      apply attendance.extend
      · rintro _ _ ⟨⟩ other held
        exact Option.some.inj (held.symm.trans asleep)
      · rintro _ _ _ ⟨⟩
        exact ⟨asleep, hasty, missed⟩
      · simpa [SelectionEvent.call] using woken caller query

end Attendance

end Attendance

/-- Every run from the empty queue, when nobody waits, has a schedule. -/
theorem exists_schedule [DecidableEq Caller] {state : Selecting Caller Item Query}
    (run : Run (· = ⟨[], fun _ => none⟩) selection.Step events state) :
    ∃ taker, selection.Schedule events state.queue taker ∧
      selection.Attendance events state.waiting := by
  induction run with
  | start initial =>
      subst initial
      exact ⟨_, .start selection, .start selection⟩
  | step earlier taken ih =>
      obtain ⟨taker, schedule, attendance⟩ := ih
      obtain ⟨later, scheduled⟩ := schedule.step taken
      exact ⟨later, scheduled, attendance.step taken⟩

end Schedule

end Selection

end Verification
