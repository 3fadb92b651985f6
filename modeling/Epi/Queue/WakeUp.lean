import Mathlib
import Epi.Library.Matching
import Epi.Queue.Thread

namespace Epi.Queue

open Verification

variable {ι T : Type}

namespace QueueCall

/-- No timeout, and a guard that always gives the same answers. -/
def Fixed : QueueCall T → Prop
  | .put _ => True
  | .get timed => timed = false
  | .getGuarded guard timed => timed = false ∧
      ∃ accepts : T → Bool, guard = fun answers => answers = fun element => .returns (accepts element)

/-- The call would take the element. -/
def Accepts : QueueCall T → T → Prop
  | .put _, _ => False
  | .get _, _ => True
  | .getGuarded guard _, element => ∃ answers, guard answers ∧ answers element = .returns true

theorem Fixed.untimed {call : QueueCall T} (fixed : call.Fixed) : call.timed = false := by
  cases call with
  | put element => rfl
  | get timed => exact fixed
  | getGuarded guard timed => exact fixed.1

/-- A guard whose answers are fixed rejects what one of its scans rejects. -/
theorem Fixed.accepts_iff {guard : Answers T → Prop} {timed : Bool} {answers : Answers T}
    (fixed : (getGuarded guard timed).Fixed) (met : guard answers) (element : T) :
    (getGuarded guard timed).Accepts element ↔ answers element = .returns true := by
  obtain ⟨-, accepts, rfl⟩ := fixed
  constructor
  · rintro ⟨others, same, accepted⟩
    rw [met, ← same]
    exact accepted
  · exact fun accepted => ⟨answers, met, accepted⟩

/-- A guard whose answers are fixed does not throw. -/
theorem Fixed.pass_returns [DecidableEq T] {guard : Answers T → Prop} {timed : Bool}
    {answers : Answers T} (fixed : (getGuarded guard timed).Fixed) (met : guard answers)
    (queue : GenericQueue T) : ∃ found, pass answers queue = .returns found := by
  obtain ⟨-, accepts, rfl⟩ := fixed
  have answer : ∀ element value, accepts element = value → answers element = .returns value := by
    rintro element value rfl
    rw [met]
  cases found : queue.mList.find? accepts with
  | none =>
      have rejected : ∀ element ∈ queue.mList, answers element = .returns false := fun element here =>
        answer element false (Bool.eq_false_of_not_eq_true (List.find?_eq_none.mp found element here))
      exact ⟨_, pass_none.mpr ⟨rejected, rfl⟩⟩
  | some element =>
      obtain ⟨accepted, old, new, same, rejected⟩ := List.find?_eq_some_iff_append.mp found
      have earlier : ∀ other ∈ old, answers other = .returns false := fun other here =>
        answer other false (Bool.not_eq_true' _ ▸ rejected other here)
      exact ⟨_, pass_some.mpr ⟨⟨old, new, same, earlier, answer element true accepted⟩, rfl⟩⟩

end QueueCall

namespace Thread

/-- The thread is about to take an element. -/
def reads : Thread T → Bool
  | .runnable call => call.takes
  | _ => false

/-- The call of the thread, if it is in one. -/
def Calls (Holds : QueueCall T → Prop) : Thread T → Prop
  | .idle => True
  | .runnable call => Holds call
  | .waiting call => Holds call

/-- The runnable thread would take the element. -/
def Wants : Thread T → T → Prop
  | .runnable call, element => call.Accepts element
  | _, _ => False

end Thread

section Update

variable [DecidableEq ι] {threads : ι → Thread T} {thread other : ι} {state : Thread T}
  {call : QueueCall T}

theorem wants_update (threads : ι → Thread T) (thread : ι) (state : Thread T)
    (takers : Finset ι) :
    SameBut thread takers (fun other => (Function.update threads thread state other).Wants)
      (fun other => (threads other).Wants) := by
  intro other member apart element wants
  simp only [Function.update_of_ne apart] at wants
  exact wants

theorem calls_update {Holds : QueueCall T → Prop}
    (each : ∀ thread, (threads thread).Calls Holds) (thread : ι) {state : Thread T}
    (holds : state.Calls Holds) (other : ι) :
    (Function.update threads thread state other).Calls Holds := by
  by_cases same : other = thread
  · rw [same, Function.update_self]
    exact holds
  · rw [Function.update_of_ne same]
    exact each other

/-- A thread that waits after an update of another thread waited before it. -/
theorem waiting_update (awake : ∀ call, state ≠ .waiting call)
    (asleep : Function.update threads thread state other = .waiting call) :
    other ≠ thread ∧ threads other = .waiting call := by
  by_cases same : other = thread
  · rw [same, Function.update_self] at asleep
    exact absurd asleep (awake call)
  · rw [Function.update_of_ne same] at asleep
    exact ⟨same, asleep⟩

end Update

variable [Fintype ι]

/-- The runnable threads that are about to take an element. -/
def readers (threads : ι → Thread T) : Finset ι := Finset.univ.filter fun thread =>
  (threads thread).reads = true

theorem mem_readers {threads : ι → Thread T} {thread : ι} :
    thread ∈ readers threads ↔ (threads thread).reads = true := by
  simp [readers]

/-- The runnable threads suffice for the new elements and for what they want of the old ones. -/
def Served (threads : ι → Thread T) (old new : List T) : Prop :=
  EnoughTakers (fun thread => (threads thread).Wants) (readers threads) old new

/-- The queue splits into elements that the waiting call rejects and new ones that are served. -/
def Covered (queue : GenericQueue T) (threads : ι → Thread T) (call : QueueCall T) : Prop :=
  ∃ old new, queue.mList = old ++ new ∧ (∀ element ∈ old, ¬ call.Accepts element) ∧
    Served threads old new

/-- The invariant: calls are fixed, and every waiting call takes elements and is covered. -/
structure Awake (queue : GenericQueue T) (threads : ι → Thread T) : Prop where
  fixed : ∀ thread, (threads thread).Calls QueueCall.Fixed
  takes : ∀ thread call, threads thread = .waiting call → call.takes = true
  covered : ∀ thread call, threads thread = .waiting call → Covered queue threads call

theorem Awake.fixed_runnable {queue : GenericQueue T} {threads : ι → Thread T}
    (awake : Awake queue threads) {thread : ι} {call : QueueCall T}
    (ready : threads thread = .runnable call) : call.Fixed := by
  have calls := awake.fixed thread
  rwa [ready] at calls

theorem Awake.fixed_waiting {queue : GenericQueue T} {threads : ι → Thread T}
    (awake : Awake queue threads) {thread : ι} {call : QueueCall T}
    (asleep : threads thread = .waiting call) : call.Fixed := by
  have calls := awake.fixed thread
  rwa [asleep] at calls

/-- Two waiting calls share the shorter of their splits. -/
theorem covered_common {queue : GenericQueue T} {threads : ι → Thread T}
    {first second : QueueCall T} (left : Covered queue threads first)
    (right : Covered queue threads second) :
    ∃ old new, queue.mList = old ++ new ∧ (∀ element ∈ old, ¬ first.Accepts element) ∧
      (∀ element ∈ old, ¬ second.Accepts element) ∧ Served threads old new := by
  obtain ⟨leftOld, leftNew, leftSame, leftRejects, leftServed⟩ := left
  obtain ⟨rightOld, rightNew, rightSame, rightRejects, rightServed⟩ := right
  have splits := leftSame.symm.trans rightSame
  rcases List.append_eq_append_iff.mp splits with ⟨more, longer, -⟩ | ⟨more, longer, -⟩
  · refine ⟨leftOld, leftNew, leftSame, leftRejects, ?_, leftServed⟩
    intro element member
    exact rightRejects element (longer ▸ List.mem_append_left _ member)
  · refine ⟨rightOld, rightNew, rightSame, ?_, rightRejects, rightServed⟩
    intro element member
    exact leftRejects element (longer ▸ List.mem_append_left _ member)

variable [DecidableEq ι] {queue after : GenericQueue T} {threads notified : ι → Thread T}
  {thread : ι}

theorem readers_update (threads : ι → Thread T) (thread : ι) (state : Thread T) :
    readers (Function.update threads thread state) =
      if state.reads then insert thread (readers threads) else (readers threads).erase thread := by
  ext other
  by_cases same : other = thread
  · subst same
    cases reading : state.reads <;> simp [mem_readers, reading]
  · cases reading : state.reads <;> simp [mem_readers, same]

/-- A thread that does not read comes back as one that does not read. -/
theorem served_quiet {old new : List T} (served : Served threads old new)
    (before : (threads thread).reads = false) {state : Thread T} (later : state.reads = false) :
    Served (Function.update threads thread state) old new := by
  have absent : thread ∉ readers threads := by
    rw [mem_readers, before]
    exact Bool.false_ne_true
  intro pairs matching
  rw [readers_update, later, if_neg Bool.false_ne_true] at matching ⊢
  have kept := matching.mono (.refl old) (wants_update threads thread state _)
  rw [Finset.erase_eq_of_notMem absent]
  exact served pairs kept

/-- A new call leaves every waiting call covered. -/
theorem awake_call (awake : Awake queue threads) (outside : threads thread = .idle)
    {call : QueueCall T} (fixed : call.Fixed) :
    Awake queue (Function.update threads thread (.runnable call)) := by
  have quiet : (threads thread).reads = false := by rw [outside]; rfl
  have absent : thread ∉ readers threads := by
    rw [mem_readers, quiet]
    exact Bool.false_ne_true
  constructor
  · exact calls_update awake.fixed thread fixed
  · intro other waiting asleep
    exact awake.takes other waiting (waiting_update (by simp) asleep).2
  · intro other waiting asleep
    obtain ⟨old, new, same, rejects, served⟩ :=
      awake.covered other waiting (waiting_update (by simp) asleep).2
    refine ⟨old, new, same, rejects, ?_⟩
    cases reading : call.takes with
    | false => exact served_quiet served quiet reading
    | true =>
        have more := served.insert_taker absent
          (wants_update threads thread (.runnable call) (readers threads))
        have counted := readers_update threads thread (.runnable call)
        rw [Thread.reads, reading, if_pos rfl] at counted
        rw [Served, counted]
        exact more

/-- A woken thread serves one more element that the call rejected before. -/
theorem served_wake {old new : List T} (served : Served threads old new) {call : QueueCall T}
    (asleep : threads thread = .waiting call) (takes : call.takes = true)
    (rejects : ∀ element ∈ old, ¬ call.Accepts element) (element : T) :
    Served (Function.update threads thread (.runnable call)) old (new ++ [element]) := by
  have absent : thread ∉ readers threads := by
    rw [mem_readers, asleep]
    exact Bool.false_ne_true
  have more := served.insert_rejecting absent (by
    intro element member
    rw [Function.update_self]
    exact rejects element member) (wants_update threads thread (.runnable call) _) element
  have counted := readers_update threads thread (.runnable call)
  rw [Thread.reads, takes, if_pos rfl] at counted
  rw [Served, counted]
  exact more

/-- A stored element is served by the thread that its signal wakes. -/
theorem awake_put (awake : Awake queue threads) {element : T}
    (ready : threads thread = .runnable (.put element)) (signal : NotifyOne threads notified) :
    Awake (queue.push element) (Function.update notified thread .idle) := by
  cases signal with
  | nobody nobody =>
      constructor
      · exact calls_update awake.fixed thread trivial
      · intro other waiting asleep
        exact absurd (waiting_update (by simp) asleep).2 (nobody other waiting)
      · intro other waiting asleep
        exact absurd (waiting_update (by simp) asleep).2 (nobody other waiting)
  | @somebody woken call sleeping =>
      have apart : thread ≠ woken := by
        rintro rfl
        rw [ready] at sleeping
        cases sleeping
      have woke : (Thread.runnable call).Calls QueueCall.Fixed := awake.fixed_waiting sleeping
      constructor
      · exact calls_update (calls_update awake.fixed woken woke) thread trivial
      · intro other waiting asleep
        exact awake.takes other waiting
          (waiting_update (by simp) (waiting_update (by simp) asleep).2).2
      · intro other waiting asleep
        have asleepBefore := (waiting_update (by simp) (waiting_update (by simp) asleep).2).2
        obtain ⟨old, new, same, rejects, wokenRejects, served⟩ := covered_common
          (awake.covered other waiting asleepBefore) (awake.covered woken call sleeping)
        refine ⟨old, new ++ [element], ?_, rejects, ?_⟩
        · rw [GenericQueue.push, same, List.append_assoc]
        · apply served_quiet
          · exact served_wake served sleeping (awake.takes woken call sleeping) wokenRejects element
          · rw [Function.update_of_ne apart, ready]
            rfl
          · rfl

/-- A reader that takes an element leaves the others covered. -/
theorem covered_take [DecidableEq T] {call waiting : QueueCall T} {element : T}
    (ready : threads thread = .runnable call) (takes : call.takes = true)
    (accepted : call.Accepts element) {state : Thread T} (quiet : state.reads = false)
    (covered : Covered queue threads waiting)
    (taken : ∀ old new, queue.mList = old ++ new → ∃ fewer left, after.mList = fewer ++ left ∧
      fewer.Sublist old ∧ left.length ≤ new.length ∧
        ((element :: fewer).Subperm old ∨ left.length + 1 ≤ new.length)) :
    Covered after (Function.update threads thread state) waiting := by
  obtain ⟨old, new, same, rejects, served⟩ := covered
  obtain ⟨fewer, left, rest, kept, less, removed⟩ := taken old new same
  have present : thread ∈ readers threads := by
    rw [mem_readers, ready]
    exact takes
  have wants : (threads thread).Wants element := by
    rw [ready]
    exact accepted
  have others := wants_update threads thread state (readers threads)
  have counted := readers_update threads thread state
  rw [quiet, if_neg Bool.false_ne_true] at counted
  refine ⟨fewer, left, rest, fun item member => rejects item (kept.subset member), ?_⟩
  rw [Served, counted]
  rcases removed with room | fewerNew
  · exact served.take_old present wants room less others
  · exact served.take_new present kept.subperm fewerNew others

/-- An unguarded get takes the first element. -/
theorem awake_get [DecidableEq T] (awake : Awake queue threads) {timed : Bool} {element : T}
    (ready : threads thread = .runnable (.get timed))
    (found : queue.tryGet = (some element, after)) :
    Awake after (Function.update threads thread .idle) := by
  have first := GenericQueue.tryGet_some.mp found
  constructor
  · exact calls_update awake.fixed thread trivial
  · intro other waiting asleep
    exact awake.takes other waiting (waiting_update (by simp) asleep).2
  · intro other waiting asleep
    apply covered_take ready rfl trivial rfl
      (awake.covered other waiting (waiting_update (by simp) asleep).2)
    intro old new same
    rw [first] at same
    cases old with
    | nil =>
        refine ⟨[], after.mList, rfl, .refl [], ?_, .inr ?_⟩
        · rw [← List.nil_append new, ← same, List.length_cons]
          omega
        · rw [← List.nil_append new, ← same, List.length_cons]
    | cons head rest =>
        obtain ⟨rfl, tail⟩ := List.cons.inj same
        exact ⟨rest, new, tail, List.sublist_cons_self _ rest, Nat.le_refl _, .inl (.refl _)⟩

/-- An unguarded get sleeps on an empty queue only. -/
theorem awake_getWaits (awake : Awake queue threads) {timed : Bool}
    (ready : threads thread = .runnable (.get timed)) (empty : queue.tryGet = (none, after)) :
    Awake after (Function.update threads thread (.waiting (.get timed))) := by
  obtain ⟨none, rfl⟩ := GenericQueue.tryGet_none.mp empty
  constructor
  · exact calls_update awake.fixed thread (awake.fixed_runnable ready)
  · intro other waiting asleep
    by_cases same : other = thread
    · simp only [same, Function.update_self, Thread.waiting.injEq] at asleep
      rw [← asleep]
      rfl
    · simp only [Function.update_of_ne same] at asleep
      exact awake.takes other waiting asleep
  · intro other waiting asleep
    exact ⟨[], [], none, by simp, EnoughTakers.of_no_new⟩

/-- The elements that a guarded get leaves, on both sides of a split. -/
theorem remove_split [DecidableEq T] {element : T} (member : element ∈ queue.mList)
    {old new : List T} (same : queue.mList = old ++ new) :
    ∃ fewer left, (queue.remove element).mList = fewer ++ left ∧ fewer.Sublist old ∧
      left.length ≤ new.length ∧
        ((element :: fewer).Subperm old ∨ left.length + 1 ≤ new.length) := by
  have shorter : ∀ items : List T, element ∈ items →
      (element :: items.filter (· ≠ element)).Subperm items := by
    intro items inside
    have split := List.filter_append_perm (· = element) items
    have here : element ∈ items.filter (· = element) := by simpa using inside
    have one : [element].Sublist (items.filter (· = element)) := List.singleton_sublist.mpr here
    have both := (one.append (List.Sublist.refl (items.filter fun item => !decide (item = element))))
    have flipped : items.filter (fun item => !decide (item = element)) =
        items.filter (· ≠ element) := by
      apply List.filter_congr
      intro item _
      simp
    rw [flipped, List.singleton_append] at both
    rw [flipped] at split
    exact both.subperm.trans split.subperm
  refine ⟨old.filter (· ≠ element), new.filter (· ≠ element), ?_, List.filter_sublist,
    List.length_filter_le _ _, ?_⟩
  · rw [GenericQueue.remove, same, List.filter_append]
  · rw [same] at member
    rcases List.mem_append.mp member with inOld | inNew
    · exact .inl (shorter old inOld)
    · exact .inr (shorter new inNew).length_le

/-- A guarded get takes the first element that it accepts. -/
theorem awake_pick [DecidableEq T] (awake : Awake queue threads)
    {guard : Answers T → Prop} {timed : Bool} {answers : Answers T} {element : T}
    (ready : threads thread = .runnable (.getGuarded guard timed)) (met : guard answers)
    (found : pass answers queue = .returns (some element, after)) :
    Awake after (Function.update threads thread .idle) := by
  obtain ⟨⟨old, new, same, -, accepted⟩, rfl⟩ := pass_some.mp found
  have member : element ∈ queue.mList := by simp [same]
  constructor
  · exact calls_update awake.fixed thread trivial
  · intro other waiting asleep
    exact awake.takes other waiting (waiting_update (by simp) asleep).2
  · intro other waiting asleep
    apply covered_take ready rfl ⟨answers, met, accepted⟩ rfl
      (awake.covered other waiting (waiting_update (by simp) asleep).2)
    intro old new split
    exact remove_split member split

/-- A reader goes to sleep, and a woken one that rejects the old elements takes its place. -/
theorem served_swap {old new : List T} (served : Served threads old new) {call waken : QueueCall T}
    (ready : threads thread = .runnable call) (takes : call.takes = true) {woken : ι}
    (asleep : threads woken = .waiting waken) (wakenTakes : waken.takes = true)
    (rejects : ∀ element ∈ old, ¬ waken.Accepts element) {state : Thread T}
    (quiet : state.reads = false) :
    Served (Function.update (Function.update threads woken (.runnable waken)) thread state)
      old new := by
  have present : thread ∈ readers threads := by
    rw [mem_readers, ready]
    exact takes
  have absent : woken ∉ readers threads := by
    rw [mem_readers, asleep]
    exact Bool.false_ne_true
  have apart : woken ≠ thread := fun same => absent (same ▸ present)
  have counted : readers (Function.update (Function.update threads woken (.runnable waken)) thread
      state) = insert woken ((readers threads).erase thread) := by
    rw [readers_update, readers_update, quiet, if_neg Bool.false_ne_true, Thread.reads, wakenTakes,
      if_pos rfl, Finset.erase_insert_of_ne apart]
  rw [Served, counted]
  apply EnoughTakers.replace served present absent
  · intro element member
    rw [Function.update_of_ne apart, Function.update_self]
    exact rejects element member
  · intro third member notThread notWoken element wants
    rwa [Function.update_of_ne notThread, Function.update_of_ne notWoken] at wants

/-- A guarded get that rejects every element passes its signal on before it sleeps. -/
theorem awake_pickWaits [DecidableEq T] (awake : Awake queue threads)
    {guard : Answers T → Prop} {timed : Bool} {answers : Answers T}
    (ready : threads thread = .runnable (.getGuarded guard timed)) (met : guard answers)
    (refused : pass answers queue = .returns (none, after))
    (signal : NotifyOne threads notified) :
    Awake after (Function.update notified thread (.waiting (.getGuarded guard timed))) := by
  obtain ⟨rejected, rfl⟩ := pass_none.mp refused
  have fixed := awake.fixed_runnable ready
  have ownCovered : ∀ state : ι → Thread T, Covered after state (.getGuarded guard timed) := by
    intro state
    refine ⟨after.mList, [], (List.append_nil _).symm, ?_, EnoughTakers.of_no_new⟩
    intro element member accepts
    rw [fixed.accepts_iff met, rejected element member] at accepts
    cases accepts
  have own : ∀ {state : ι → Thread T} {call : QueueCall T},
      Function.update state thread (.waiting (.getGuarded guard timed)) thread = .waiting call →
        .getGuarded guard timed = call := by
    intro state call asleep
    simpa using asleep
  cases signal with
  | nobody nobody =>
      constructor
      · exact calls_update awake.fixed thread fixed
      · intro other waiting asleep
        by_cases same : other = thread
        · rw [same] at asleep
          rw [← own asleep]
          rfl
        · simp only [Function.update_of_ne same] at asleep
          exact absurd asleep (nobody other waiting)
      · intro other waiting asleep
        by_cases same : other = thread
        · rw [same] at asleep
          rw [← own asleep]
          exact ownCovered _
        · simp only [Function.update_of_ne same] at asleep
          exact absurd asleep (nobody other waiting)
  | @somebody woken call sleeping =>
      have apart : woken ≠ thread := by
        rintro rfl
        rw [ready] at sleeping
        cases sleeping
      have woke : (Thread.runnable call).Calls QueueCall.Fixed := awake.fixed_waiting sleeping
      constructor
      · exact calls_update (calls_update awake.fixed woken woke) thread fixed
      · intro other waiting asleep
        by_cases same : other = thread
        · rw [same] at asleep
          rw [← own asleep]
          rfl
        · simp only [Function.update_of_ne same] at asleep
          exact awake.takes other waiting (waiting_update (by simp) asleep).2
      · intro other waiting asleep
        by_cases same : other = thread
        · rw [same] at asleep
          rw [← own asleep]
          exact ownCovered _
        · simp only [Function.update_of_ne same] at asleep
          have asleepBefore := (waiting_update (by simp) asleep).2
          obtain ⟨old, new, split, rejects, wokenRejects, served⟩ := covered_common
            (awake.covered other waiting asleepBefore) (awake.covered woken call sleeping)
          exact ⟨old, new, split, rejects, served_swap served ready rfl sleeping
            (awake.takes woken call sleeping) wokenRejects rfl⟩

/-- Every step of fixed calls keeps the waiting calls covered. -/
theorem awake_step [DecidableEq T] {before later : Config ι T} {event : Event ι T}
    (awake : Awake before.queue before.thread)
    (fixed : ∀ thread call, event = .calls thread call → call.Fixed)
    (taken : Step before event later) : Awake later.queue later.thread := by
  cases taken with
  | call outside call => exact awake_call awake outside (fixed _ call rfl)
  | put ready signal => exact awake_put awake ready signal
  | get ready found => exact awake_get awake ready found
  | getWaits ready empty => exact awake_getWaits awake ready empty
  | pick ready met found => exact awake_pick awake ready met found
  | pickWaits ready met refused signal => exact awake_pickWaits awake ready met refused signal
  | pickThrows ready met failed =>
      obtain ⟨found, returned⟩ := (awake.fixed_runnable ready).pass_returns met _
      rw [returned] at failed
      cases failed
  | timedWake asleep timed =>
      rw [(awake.fixed_waiting asleep).untimed] at timed
      cases timed
  | giveUp ready timed signal =>
      rw [(awake.fixed_runnable ready).untimed] at timed
      cases timed

/-- When no thread is runnable, no waiting thread would take an element of the queue. -/
theorem no_lost_wakeUp [DecidableEq T] {events : List (Event ι T)} {config : Config ι T}
    (run : Run Started Step events config)
    (fixed : ∀ event ∈ events, ∀ thread call, event = .calls thread call → call.Fixed)
    (stuck : ∀ thread call, config.thread thread ≠ .runnable call) :
    ∀ thread call, config.thread thread = .waiting call →
      ∀ element ∈ config.queue.mList, ¬ call.Accepts element := by
  have awake : Awake config.queue config.thread := by
    apply run.invariant_of_events _ _ fixed
    · intro start initial
      constructor
      · intro thread
        rw [initial.2 thread]
        trivial
      · intro thread call asleep
        rw [initial.2 thread] at asleep
        cases asleep
      · intro thread call asleep
        rw [initial.2 thread] at asleep
        cases asleep
    · exact fun before event later holds allowed taken => awake_step holds allowed taken
  intro thread call asleep
  obtain ⟨old, new, same, rejects, served⟩ := awake.covered thread call asleep
  have nobody : readers config.thread = ∅ := by
    apply Finset.eq_empty_of_forall_notMem
    intro other member
    rw [mem_readers] at member
    cases state : config.thread other with
    | runnable call => exact stuck other call state
    | _ =>
        rw [state] at member
        cases member
  have none : Matching (fun thread => (config.thread thread).Wants) (readers config.thread) old [] :=
    ⟨List.nodup_nil, by simp, List.nil_subperm, by simp⟩
  have counted := served [] none
  rw [nobody, Finset.card_empty, List.length_nil, Nat.add_zero, Nat.le_zero,
    List.length_eq_zero_iff] at counted
  rw [same, counted, List.append_nil]
  exact rejects

/-- A guard for the element 2. -/
def onlyTwo : QueueCall Nat :=
  .getGuarded (fun answers => answers = fun element => .returns (element == 2)) false

/-- A receiver of 2 sleeps beside the element 1. -/
theorem no_lost_wakeUp_beside : ∃ config : Config Bool Nat,
    config.thread false = .waiting onlyTwo ∧ config.queue.mList = [1] ∧
      ∀ element ∈ config.queue.mList, ¬ onlyTwo.Accepts element := by
  have start : Run Started Step [] (⟨⟨[]⟩, fun _ => .idle⟩ : Config Bool Nat) :=
    .start ⟨rfl, fun _ => rfl⟩
  have asks := start.step (show Step _ (.calls false onlyTwo) _ from .call rfl onlyTwo)
  have sleeps := asks.step (show Step _ (.sleeps false) _ from .pickWaits rfl rfl (by rfl)
    (.nobody (by intro thread call; cases thread <;> simp)))
  have offers := sleeps.step (show Step _ (.calls true (.put 1)) _ from .call rfl (.put 1))
  have puts := offers.step (show Step _ (.puts true 1) _ from .put rfl
    (@NotifyOne.somebody Bool Nat _ _ false onlyTwo rfl))
  have again := puts.step (show Step _ (.sleeps false) _ from .pickWaits rfl rfl (by rfl)
    (.nobody (by intro thread call; cases thread <;> simp)))
  refine ⟨_, ?_, ?_, no_lost_wakeUp again ?_ ?_ false onlyTwo rfl⟩
  · rfl
  · rfl
  · intro event member thread call same
    subst same
    simp only [List.nil_append, List.cons_append, List.mem_cons, Event.calls.injEq, reduceCtorEq,
      List.not_mem_nil, or_false, false_or] at member
    rcases member with ⟨rfl, rfl⟩ | ⟨rfl, rfl⟩
    · exact ⟨rfl, fun element => element == 2, rfl⟩
    · trivial
  · intro thread call
    cases thread <;> simp

end Epi.Queue
