import Mathlib
import Epi.Library.Run
import Epi.Queue.GenericQueue

namespace Epi.Queue

open Verification

/-- The answers of a guard to the elements of one scan. -/
abbrev Answers (T : Type) := T → Call Bool

/-- A call of a queue method. A guard is the set of the answers that a scan can meet. -/
inductive QueueCall (T : Type) where
  | put (element : T)
  | get (timed : Bool)
  | getGuarded (guard : Answers T → Prop) (timed : Bool)

namespace QueueCall

variable {T : Type}

/-- The call has a timeout. -/
def timed : QueueCall T → Bool
  | .put _ => false
  | .get timed => timed
  | .getGuarded _ timed => timed

/-- The call takes an element out. -/
def takes : QueueCall T → Bool
  | .put _ => false
  | _ => true

end QueueCall

/-- A thread is outside the queue, waits for the mutex, or waits for a signal. -/
inductive Thread (T : Type) where
  | idle
  | runnable (call : QueueCall T)
  | waiting (call : QueueCall T)

/-- One queue and its threads. -/
structure Config (ι T : Type) where
  queue : GenericQueue T
  thread : ι → Thread T

/-- What a step shows. -/
inductive Event (ι T : Type) where
  | calls (thread : ι) (call : QueueCall T)
  | puts (thread : ι) (element : T)
  | returns (thread : ι) (element : T)
  | picks (thread : ι) (answers : Answers T) (element : T)
  | returnsNull (thread : ι)
  | throws (thread : ι) (error : EpiException)
  | sleeps (thread : ι)
  | wakes (thread : ι)

variable {ι T : Type} [DecidableEq ι] [DecidableEq T]

/-- `notify_one` makes one waiting thread runnable, if there is one. -/
inductive NotifyOne (before : ι → Thread T) : (ι → Thread T) → Prop
  | nobody (awake : ∀ thread call, before thread ≠ .waiting call) : NotifyOne before before
  | somebody {thread : ι} {call : QueueCall T} (asleep : before thread = .waiting call) :
      NotifyOne before (Function.update before thread (.runnable call))

/-- One pass of `get(QueueGuard*)` with these answers. -/
def pass (answers : Answers T) (queue : GenericQueue T) :
    Call (Option T × GenericQueue T) :=
  (queue.tryGetGuarded (fun element => (Effect.lift (answers element) : Effect Unit _ Bool)) ()).1

/-- The steps between two releases of the mutex. A timed wait can end without a signal, and a timed
call can give up when its time is over, with Boost also when it was signalled. -/
inductive Step : Transition (Config ι T) (Event ι T)
  | call {queue : GenericQueue T} {threads : ι → Thread T} {thread : ι}
      (outside : threads thread = .idle) (call : QueueCall T) :
      Step ⟨queue, threads⟩ (.calls thread call)
        ⟨queue, Function.update threads thread (.runnable call)⟩
  | put {queue : GenericQueue T} {threads notified : ι → Thread T} {thread : ι} {element : T}
      (ready : threads thread = .runnable (.put element))
      (signal : NotifyOne threads notified) :
      Step ⟨queue, threads⟩ (.puts thread element)
        ⟨queue.push element, Function.update notified thread .idle⟩
  | get {queue after : GenericQueue T} {threads : ι → Thread T} {thread : ι} {timed : Bool}
      {element : T} (ready : threads thread = .runnable (.get timed))
      (found : queue.tryGet = (some element, after)) :
      Step ⟨queue, threads⟩ (.returns thread element)
        ⟨after, Function.update threads thread .idle⟩
  | getWaits {queue after : GenericQueue T} {threads : ι → Thread T} {thread : ι} {timed : Bool}
      (ready : threads thread = .runnable (.get timed)) (empty : queue.tryGet = (none, after)) :
      Step ⟨queue, threads⟩ (.sleeps thread)
        ⟨after, Function.update threads thread (.waiting (.get timed))⟩
  | pick {queue after : GenericQueue T} {threads : ι → Thread T} {thread : ι} {timed : Bool}
      {guard : Answers T → Prop} {answers : Answers T} {element : T}
      (ready : threads thread = .runnable (.getGuarded guard timed)) (met : guard answers)
      (found : pass answers queue = .returns (some element, after)) :
      Step ⟨queue, threads⟩ (.picks thread answers element)
        ⟨after, Function.update threads thread .idle⟩
  | pickWaits {queue after : GenericQueue T} {threads notified : ι → Thread T} {thread : ι}
      {timed : Bool} {guard : Answers T → Prop} {answers : Answers T}
      (ready : threads thread = .runnable (.getGuarded guard timed)) (met : guard answers)
      (refused : pass answers queue = .returns (none, after))
      (signal : NotifyOne threads notified) :
      Step ⟨queue, threads⟩ (.sleeps thread)
        ⟨after, Function.update notified thread (.waiting (.getGuarded guard timed))⟩
  | pickThrows {queue : GenericQueue T} {threads : ι → Thread T} {thread : ι} {timed : Bool}
      {guard : Answers T → Prop} {answers : Answers T} {error : EpiException}
      (ready : threads thread = .runnable (.getGuarded guard timed)) (met : guard answers)
      (failed : pass answers queue = .throws error) :
      Step ⟨queue, threads⟩ (.throws thread error)
        ⟨queue, Function.update threads thread .idle⟩
  | timedWake {queue : GenericQueue T} {threads : ι → Thread T} {thread : ι} {call : QueueCall T}
      (asleep : threads thread = .waiting call) (timed : call.timed = true) :
      Step ⟨queue, threads⟩ (.wakes thread)
        ⟨queue, Function.update threads thread (.runnable call)⟩
  | giveUp {queue after : GenericQueue T} {threads notified : ι → Thread T} {thread : ι}
      {call : QueueCall T} (ready : threads thread = .runnable call) (timed : call.timed = true)
      (signal : notified = threads ∨ NotifyOne threads notified) :
      Step ⟨queue, threads⟩ (.returnsNull thread)
        ⟨queue, Function.update notified thread .idle⟩

/-- The queue is empty, and no thread is in a call. -/
def Started (config : Config ι T) : Prop :=
  config.queue.mList = [] ∧ ∀ thread, config.thread thread = .idle

theorem pass_some {answers : Answers T} {queue after : GenericQueue T} {element : T} :
    pass answers queue = .returns (some element, after) ↔
      (∃ old new, queue.mList = old ++ element :: new ∧
        (∀ other ∈ old, answers other = .returns false) ∧ answers element = .returns true) ∧
          after = queue.remove element := by
  rw [← GenericQueue.tryGetGuarded_some, pass, Prod.ext_iff]
  simp

theorem pass_none {answers : Answers T} {queue after : GenericQueue T} :
    pass answers queue = .returns (none, after) ↔
      (∀ element ∈ queue.mList, answers element = .returns false) ∧ after = queue := by
  rw [← GenericQueue.tryGetGuarded_none, pass, Prod.ext_iff]
  simp

end Epi.Queue
