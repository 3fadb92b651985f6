import Epi.Queue.Thread

namespace Epi.Queue

open Verification

/-- `get(long)` and `get(QueueGuard*, long)`, with the timeout in milliseconds. -/
inductive TimedCall (T : Type) where
  | get (timeout : Int)
  | getGuarded (guard : Answers T → Prop) (timeout : Int)

def TimedCall.timeout {T : Type} : TimedCall T → Int
  | .get timeout => timeout
  | .getGuarded _ timeout => timeout

/-- One look at the queue: the queued elements, and the answers of the call to them. -/
structure Inspection (T : Type) where
  elements : List T
  answers : Answers T

/-- No queued element was acceptable. -/
def Inspection.Rejects {T : Type} (inspection : Inspection T) : Prop :=
  ∀ element ∈ inspection.elements, inspection.answers element = .returns false

/-- The places of a thread in a timed call. A call that looked at the queue remembers its last
look. -/
inductive Phase (T : Type) where
  | idle
  | entering (call : TimedCall T)
  | inspecting (call : TimedCall T) (stopTime : Int)
  | refused (call : TimedCall T) (stopTime : Int) (last : Inspection T)
  | waiting (call : TimedCall T) (stopTime : Int) (last : Inspection T)
  | woken (call : TimedCall T) (stopTime : Int) (last : Inspection T) (result : Bool)
  | resumed (stopTime : Int) (last : Inspection T)

/-- One queue with its mutex, the system time, and the threads. -/
structure TimedConfig (ι T : Type) where
  queue : GenericQueue T
  now : Int
  holder : Option ι
  phase : ι → Phase T

/-- What a step shows. -/
inductive TimedEvent (ι T : Type) where
  | ticks (now : Int)
  | puts (thread : ι) (element : T)
  | calls (thread : ι) (call : TimedCall T)
  | starts (thread : ι)
  | returns (thread : ι) (element : T)
  | refuses (thread : ι)
  | throws (thread : ι) (error : EpiException)
  | sleeps (thread : ι)
  | wakes (thread : ι) (result : Bool)
  | resumes (thread : ι) (result : Bool) (stopTime now : Int)
  | returnsNull (thread : ι) (stopTime now : Int) (last : Inspection T)

variable {ι T : Type} [DecidableEq ι] [DecidableEq T]

/-- `notify_one` ends the wait of one waiting thread, if there is one, with the result true. -/
inductive NotifyTimed (before : ι → Phase T) : (ι → Phase T) → Prop
  | nobody (awake : ∀ thread call stopTime last, before thread ≠ .waiting call stopTime last) :
      NotifyTimed before before
  | somebody {thread : ι} {call : TimedCall T} {stopTime : Int} {last : Inspection T}
      (asleep : before thread = .waiting call stopTime last) :
      NotifyTimed before (Function.update before thread (.woken call stopTime last true))

/-- The steps with Boost. A wait ends with the result false when its time has come, and with any
result when nothing happened. -/
inductive TimedStep : Transition (TimedConfig ι T) (TimedEvent ι T)
  | tick {config : TimedConfig ι T} {later : Int} (forward : config.now ≤ later) :
      TimedStep config (.ticks later) { config with now := later }
  | put {config : TimedConfig ι T} {notified : ι → Phase T} {thread : ι} (element : T)
      (outside : config.phase thread = .idle) (free : config.holder = none)
      (signal : NotifyTimed config.phase notified) :
      TimedStep config (.puts thread element)
        { config with queue := config.queue.push element, phase := notified }
  | call {config : TimedConfig ι T} {thread : ι} (outside : config.phase thread = .idle)
      (call : TimedCall T) :
      TimedStep config (.calls thread call)
        { config with phase := Function.update config.phase thread (.entering call) }
  | start {config : TimedConfig ι T} {thread : ι} {call : TimedCall T}
      (called : config.phase thread = .entering call) (free : config.holder = none) :
      TimedStep config (.starts thread)
        { config with
          holder := some thread
          phase := Function.update config.phase thread
            (.inspecting call (config.now + call.timeout)) }
  | get {config : TimedConfig ι T} {after : GenericQueue T} {thread : ι} {timeout stopTime : Int}
      {element : T} (ready : config.phase thread = .inspecting (.get timeout) stopTime)
      (found : config.queue.tryGet = (some element, after)) :
      TimedStep config (.returns thread element)
        { config with
          queue := after
          holder := none
          phase := Function.update config.phase thread .idle }
  | getRefused {config : TimedConfig ι T} {after : GenericQueue T} {thread : ι}
      {timeout stopTime : Int} (ready : config.phase thread = .inspecting (.get timeout) stopTime)
      (empty : config.queue.tryGet = (none, after)) :
      TimedStep config (.refuses thread)
        { config with
          queue := after
          phase := Function.update config.phase thread
            (.refused (.get timeout) stopTime ⟨config.queue.mList, fun _ => .returns true⟩) }
  | pick {config : TimedConfig ι T} {after : GenericQueue T} {thread : ι}
      {guard : Answers T → Prop} {answers : Answers T} {timeout stopTime : Int} {element : T}
      (ready : config.phase thread = .inspecting (.getGuarded guard timeout) stopTime)
      (met : guard answers) (found : pass answers config.queue = .returns (some element, after)) :
      TimedStep config (.returns thread element)
        { config with
          queue := after
          holder := none
          phase := Function.update config.phase thread .idle }
  | pickRefused {config : TimedConfig ι T} {after : GenericQueue T} {notified : ι → Phase T}
      {thread : ι} {guard : Answers T → Prop} {answers : Answers T} {timeout stopTime : Int}
      (ready : config.phase thread = .inspecting (.getGuarded guard timeout) stopTime)
      (met : guard answers) (refused : pass answers config.queue = .returns (none, after))
      (signal : NotifyTimed config.phase notified) :
      TimedStep config (.refuses thread)
        { config with
          queue := after
          phase := Function.update notified thread
            (.refused (.getGuarded guard timeout) stopTime ⟨config.queue.mList, answers⟩) }
  | pickThrows {config : TimedConfig ι T} {thread : ι} {guard : Answers T → Prop}
      {answers : Answers T} {timeout stopTime : Int} {error : EpiException}
      (ready : config.phase thread = .inspecting (.getGuarded guard timeout) stopTime)
      (met : guard answers) (failed : pass answers config.queue = .throws error) :
      TimedStep config (.throws thread error)
        { config with
          holder := none
          phase := Function.update config.phase thread .idle }
  | expire {config : TimedConfig ι T} {thread : ι} {call : TimedCall T} {stopTime : Int}
      {last : Inspection T} (refused : config.phase thread = .refused call stopTime last)
      (passed : stopTime < config.now) :
      TimedStep config (.returnsNull thread stopTime config.now last)
        { config with
          holder := none
          phase := Function.update config.phase thread .idle }
  | sleep {config : TimedConfig ι T} {thread : ι} {call : TimedCall T} {stopTime : Int}
      {last : Inspection T} (refused : config.phase thread = .refused call stopTime last)
      (left : ¬ stopTime < config.now) :
      TimedStep config (.sleeps thread)
        { config with
          holder := none
          phase := Function.update config.phase thread (.waiting call stopTime last) }
  | timeOut {config : TimedConfig ι T} {thread : ι} {call : TimedCall T} {stopTime : Int}
      {last : Inspection T} (asleep : config.phase thread = .waiting call stopTime last)
      (passed : stopTime ≤ config.now) :
      TimedStep config (.wakes thread false)
        { config with
          phase := Function.update config.phase thread (.woken call stopTime last false) }
  | spurious {config : TimedConfig ι T} {thread : ι} {call : TimedCall T} {stopTime : Int}
      {last : Inspection T} (asleep : config.phase thread = .waiting call stopTime last)
      (result : Bool) :
      TimedStep config (.wakes thread result)
        { config with
          phase := Function.update config.phase thread (.woken call stopTime last result) }
  | resume {config : TimedConfig ι T} {thread : ι} {call : TimedCall T} {stopTime : Int}
      {last : Inspection T} {result : Bool}
      (awake : config.phase thread = .woken call stopTime last result)
      (free : config.holder = none) :
      TimedStep config (.resumes thread result stopTime config.now)
        { config with
          holder := some thread
          phase := Function.update config.phase thread
            (if result then .resumed stopTime last else .inspecting call stopTime) }
  | giveUp {config : TimedConfig ι T} {thread : ι} {stopTime : Int} {last : Inspection T}
      (resumed : config.phase thread = .resumed stopTime last) :
      TimedStep config (.returnsNull thread stopTime config.now last)
        { config with
          holder := none
          phase := Function.update config.phase thread .idle }

/-- The queue is empty, its mutex is free, and no thread is in a call. -/
def TimedStarted (config : TimedConfig ι T) : Prop :=
  config.queue.mList = [] ∧ config.holder = none ∧ ∀ thread, config.phase thread = .idle

namespace TimedEvent

/-- A null pointer after the deadline, by a call whose last look found nothing acceptable. -/
def Justified : TimedEvent ι T → Prop
  | .returnsNull _ stopTime now last => stopTime ≤ now ∧ last.Rejects
  | _ => True

/-- `timed_wait` does not return true before the deadline. -/
def Late : TimedEvent ι T → Prop
  | .resumes _ true stopTime now => stopTime ≤ now
  | _ => True

end TimedEvent

/-- What holds of a thread: its last look found nothing, and a wait that was over came to its end
after the deadline. -/
def Phase.Sound (now : Int) : Phase T → Prop
  | .refused _ _ last => last.Rejects
  | .waiting _ _ last => last.Rejects
  | .woken _ _ last _ => last.Rejects
  | .resumed stopTime last => stopTime ≤ now ∧ last.Rejects
  | _ => True

/-- Every thread is sound. -/
def Sound (config : TimedConfig ι T) : Prop := ∀ thread, (config.phase thread).Sound config.now

section Sound

variable {phases notified : ι → Phase T} {now : Int}

omit [DecidableEq T] in
theorem Phase.Sound.later {phase : Phase T} {later : Int} (sound : phase.Sound now)
    (forward : now ≤ later) : phase.Sound later := by
  cases phase with
  | resumed stopTime last => exact ⟨le_trans sound.1 forward, sound.2⟩
  | _ => exact sound

omit [DecidableEq T] in
theorem sound_update (sound : ∀ thread, (phases thread).Sound now) (thread : ι) {phase : Phase T}
    (here : phase.Sound now) (other : ι) :
    (Function.update phases thread phase other).Sound now := by
  by_cases same : other = thread
  · rw [same, Function.update_self]
    exact here
  · rw [Function.update_of_ne same]
    exact sound other

omit [DecidableEq T] in
/-- A notified thread remembers the same look. -/
theorem sound_notify (sound : ∀ thread, (phases thread).Sound now)
    (signal : NotifyTimed phases notified) : ∀ thread, (notified thread).Sound now := by
  cases signal with
  | nobody awake => exact sound
  | @somebody thread call stopTime last asleep =>
      have rejects := sound thread
      rw [asleep] at rejects
      exact sound_update sound thread rejects

end Sound

/-- A step whose waits are not over early keeps every thread sound and shows a justified event. -/
theorem sound_step {config after : TimedConfig ι T} {event : TimedEvent ι T}
    (sound : Sound config) (late : event.Late) (taken : TimedStep config event after) :
    Sound after ∧ event.Justified := by
  cases taken with
  | tick forward => exact ⟨fun thread => (sound thread).later forward, trivial⟩
  | put element outside free signal => exact ⟨sound_notify sound signal, trivial⟩
  | call outside call => exact ⟨sound_update sound _ trivial, trivial⟩
  | start called free => exact ⟨sound_update sound _ trivial, trivial⟩
  | get ready found => exact ⟨sound_update sound _ trivial, trivial⟩
  | getRefused ready empty =>
      refine ⟨sound_update sound _ ?_, trivial⟩
      intro element member
      rw [(GenericQueue.tryGet_none.mp empty).1] at member
      cases member
  | pick ready met found => exact ⟨sound_update sound _ trivial, trivial⟩
  | pickRefused ready met refused signal =>
      exact ⟨sound_update (sound_notify sound signal) _ (pass_none.mp refused).1, trivial⟩
  | pickThrows ready met failed => exact ⟨sound_update sound _ trivial, trivial⟩
  | @expire _ thread call stopTime last refused passed =>
      have rejects := sound thread
      rw [refused] at rejects
      exact ⟨sound_update sound _ trivial, le_of_lt passed, rejects⟩
  | @sleep _ thread call stopTime last refused left =>
      have rejects := sound thread
      rw [refused] at rejects
      exact ⟨sound_update sound _ rejects, trivial⟩
  | @timeOut _ thread call stopTime last asleep passed =>
      have rejects := sound thread
      rw [asleep] at rejects
      exact ⟨sound_update sound _ rejects, trivial⟩
  | @spurious _ thread call stopTime last asleep result =>
      have rejects := sound thread
      rw [asleep] at rejects
      exact ⟨sound_update sound _ rejects, trivial⟩
  | @resume _ thread call stopTime last result awake free =>
      have rejects := sound thread
      rw [awake] at rejects
      refine ⟨sound_update sound _ ?_, trivial⟩
      cases result with
      | true => exact ⟨late, rejects⟩
      | false => trivial
  | @giveUp _ thread stopTime last resumed =>
      have ended := sound thread
      rw [resumed] at ended
      exact ⟨sound_update sound _ trivial, ended⟩

/-- After a wait that was over early, the call can return null before its deadline. -/
theorem early_wake_loses {config after : TimedConfig ι T} {thread : ι} {stopTime now : Int}
    (taken : TimedStep config (.resumes thread true stopTime now) after) (early : now < stopTime) :
    ∃ event later, TimedStep after event later ∧ ¬ event.Justified := by
  cases taken with
  | resume awake free =>
      refine ⟨_, _, .giveUp (Function.update_self ..), ?_⟩
      rintro ⟨reached, -⟩
      exact absurd early (not_lt_of_ge reached)

/-- In a run whose waits are not over before their deadlines, every null pointer is justified. A
wait that is over early can be followed by a null pointer that is not. -/
theorem timed_gets_justified {events : List (TimedEvent ι T)} {config : TimedConfig ι T}
    (run : Run TimedStarted TimedStep events config) :
    ((∀ event ∈ events, event.Late) → ∀ event ∈ events, event.Justified) ∧
    ∀ before thread stopTime now, events = before ++ [.resumes thread true stopTime now] →
      now < stopTime → ∃ event after, TimedStep config event after ∧ ¬ event.Justified := by
  constructor
  · intro late
    have initially : ∀ config : TimedConfig ι T, TimedStarted config → Sound config := by
      rintro config ⟨-, -, idle⟩ thread
      rw [idle thread]
      trivial
    exact (Run.invariant_shows initially
      (fun _ _ _ sound allowed taken => sound_step sound allowed taken) run late).2
  · rintro before thread stopTime now rfl early
    obtain ⟨earlier, -, taken⟩ := Run.last_step run
    exact early_wake_loses taken early

/-- The look at an empty queue. -/
def emptyLook : Inspection Nat := ⟨[], fun _ => .returns true⟩

/-- A call with a timeout of 100 ms goes to sleep. -/
def sleepEvents : List (TimedEvent Bool Nat) :=
  [.calls false (.get 100), .starts false, .refuses false, .sleeps false]

/-- An element arrives at this time and ends the wait. -/
def notifyEvents (now : Int) : List (TimedEvent Bool Nat) :=
  [.puts true 7, .resumes false true 100 now]

/-- One thread waits at an empty queue, and the other one does nothing. -/
structure Asleep (config : TimedConfig Bool Nat) : Prop where
  waiting : config.phase false = .waiting (.get 100) 100 emptyLook
  idle : config.phase true = .idle
  free : config.holder = none
  empty : config.queue = ⟨[]⟩

theorem sleep_run : ∃ config : TimedConfig Bool Nat,
    Run TimedStarted TimedStep sleepEvents config ∧ Asleep config ∧ config.now = 0 := by
  have initial : TimedStarted (⟨⟨[]⟩, 0, none, fun _ => .idle⟩ : TimedConfig Bool Nat) :=
    ⟨rfl, rfl, fun _ => rfl⟩
  have called : Run TimedStarted TimedStep ([] ++ [.calls false (.get 100)]) _ :=
    .step (.start initial) (.call rfl (.get 100))
  have started : Run TimedStarted TimedStep (_ ++ [.starts false]) _ :=
    .step called (.start rfl rfl)
  have refused : Run TimedStarted TimedStep (_ ++ [.refuses false]) _ :=
    .step started (.getRefused rfl rfl)
  have asleep : Run TimedStarted TimedStep (_ ++ [.sleeps false]) _ :=
    .step refused (.sleep rfl (by decide))
  exact ⟨_, asleep, ⟨rfl, rfl, rfl, rfl⟩, rfl⟩

theorem notify_run {events : List (TimedEvent Bool Nat)} {config : TimedConfig Bool Nat}
    (run : Run TimedStarted TimedStep events config) (asleep : Asleep config) :
    ∃ after, Run TimedStarted TimedStep (events ++ notifyEvents config.now) after ∧
      after.phase false = .resumed 100 emptyLook ∧ after.now = config.now ∧
      after.queue.mList = [7] := by
  have notified := run.step
    (TimedStep.put 7 asleep.idle asleep.free (NotifyTimed.somebody asleep.waiting))
  have woken : Function.update config.phase false (.woken (.get 100) 100 emptyLook true) false =
      .woken (.get 100) 100 emptyLook true := Function.update_self ..
  have resumed := notified.step
    (@TimedStep.resume _ _ _ _ _ false (.get 100) 100 emptyLook true woken asleep.free)
  rw [List.append_assoc] at resumed
  refine ⟨_, resumed, ?_, rfl, ?_⟩
  · simp
  · simp only [asleep.empty]
    rfl

/-- The element arrives when the call has its deadline. -/
def lateEvents : List (TimedEvent Bool Nat) :=
  sleepEvents ++ [.ticks 100] ++ notifyEvents 100 ++ [.returnsNull false 100 100 emptyLook]

theorem late_run : ∃ config : TimedConfig Bool Nat,
    Run TimedStarted TimedStep lateEvents config := by
  obtain ⟨config, run, asleep, now⟩ := sleep_run
  have ticked := run.step (@TimedStep.tick _ _ _ _ config 100 (by omega))
  obtain ⟨after, resumed, phase, still, -⟩ := notify_run ticked
    ⟨asleep.waiting, asleep.idle, asleep.free, asleep.empty⟩
  have ended := resumed.step (TimedStep.giveUp phase)
  rw [still] at ended
  exact ⟨_, ended⟩

/-- The element arrives at once. -/
def earlyEvents : List (TimedEvent Bool Nat) := sleepEvents ++ notifyEvents 0

theorem early_run : ∃ config : TimedConfig Bool Nat,
    Run TimedStarted TimedStep earlyEvents config ∧ config.phase false = .resumed 100 emptyLook ∧
      config.now = 0 ∧ config.queue.mList = [7] := by
  obtain ⟨config, run, asleep, now⟩ := sleep_run
  obtain ⟨after, resumed, phase, still, queued⟩ := notify_run run asleep
  rw [now] at resumed still
  exact ⟨after, resumed, phase, still, queued⟩

/-- The null pointer at the deadline is justified, and the one that can follow the early end of the
wait is not. -/
theorem timed_gets_justified_notified :
    (∀ event ∈ lateEvents, event.Justified) ∧ ∃ config : TimedConfig Bool Nat,
      Run TimedStarted TimedStep earlyEvents config ∧
      ∃ event after, TimedStep config event after ∧ ¬ event.Justified := by
  have late : ∀ event ∈ lateEvents, event.Late := by
    simp [lateEvents, sleepEvents, notifyEvents, TimedEvent.Late]
  obtain ⟨lateConfig, lateRun⟩ := late_run
  obtain ⟨config, run, -⟩ := early_run
  exact ⟨(timed_gets_justified lateRun).1 late, config, run,
    (timed_gets_justified run).2 (sleepEvents ++ [.puts true 7]) false 100 0 rfl (by decide)⟩

/-- The call returns null 100 ms before its deadline, and the element stays in the queue. -/
theorem timed_get_loses :
    ∃ (events : List (TimedEvent Bool Nat)) (config : TimedConfig Bool Nat),
      Run TimedStarted TimedStep events config ∧ config.queue.mList = [7] ∧
      ∃ event ∈ events, ¬ event.Justified := by
  obtain ⟨config, run, phase, now, queued⟩ := early_run
  have ended := run.step (TimedStep.giveUp phase)
  rw [now] at ended
  refine ⟨_, _, ended, queued, .returnsNull false 100 0 emptyLook, ?_, ?_⟩
  · simp
  · rintro ⟨passed, -⟩
    exact absurd passed (by decide)

end Epi.Queue
