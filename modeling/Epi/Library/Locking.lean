import Epi.Library.Run

namespace Verification

/-- What a thread does next inside of a call. A call reads an input from the environment, and its
instructions come before the others. -/
inductive Instruction (Thread Lock Data Input : Type) where
  | acquire (lock : Lock)
  | release (lock : Lock)
  | start (thread : Thread)
  | join (thread : Thread)
  | call (body : Data → Input → Data × List (Instruction Thread Lock Data Input))

abbrev Program (Thread Lock Data Input : Type) := List (Instruction Thread Lock Data Input)

/-- Threads with what is left of their calls, locks with their holders, and the shared data. -/
structure Threads (Thread Lock Data Input : Type) where
  rest : Thread → Program Thread Lock Data Input
  holder : Lock → Option Thread
  alive : Thread → Bool
  data : Data

/-- The calls that a thread may begin, and when it may end. -/
structure Behaviour (Thread Lock Data Input : Type) where
  begins : Data → Thread → Program Thread Lock Data Input → Prop
  ends : Data → Thread → Prop

variable {Thread Lock Data Input : Type}

namespace Threads

variable {thread : Thread} {lock : Lock} {owner : Option Thread} {lives : Bool}
  {program : Program Thread Lock Data Input} {state : Threads Thread Lock Data Input}

section OfThreads

variable [DecidableEq Thread]

def setRest (thread : Thread) (program : Program Thread Lock Data Input)
    (state : Threads Thread Lock Data Input) : Threads Thread Lock Data Input :=
  { state with rest := Function.update state.rest thread program }

def setAlive (thread : Thread) (lives : Bool) (state : Threads Thread Lock Data Input) :
    Threads Thread Lock Data Input :=
  { state with alive := Function.update state.alive thread lives }

@[simp] theorem rest_setRest :
    (state.setRest thread program).rest = Function.update state.rest thread program := rfl

@[simp] theorem holder_setRest : (state.setRest thread program).holder = state.holder := rfl

@[simp] theorem alive_setRest : (state.setRest thread program).alive = state.alive := rfl

@[simp] theorem data_setRest : (state.setRest thread program).data = state.data := rfl

@[simp] theorem rest_setAlive : (state.setAlive thread lives).rest = state.rest := rfl

@[simp] theorem holder_setAlive : (state.setAlive thread lives).holder = state.holder := rfl

@[simp] theorem alive_setAlive :
    (state.setAlive thread lives).alive = Function.update state.alive thread lives := rfl

@[simp] theorem data_setAlive : (state.setAlive thread lives).data = state.data := rfl

end OfThreads

section OfLocks

variable [DecidableEq Lock]

def setHolder (lock : Lock) (owner : Option Thread) (state : Threads Thread Lock Data Input) :
    Threads Thread Lock Data Input :=
  { state with holder := Function.update state.holder lock owner }

@[simp] theorem rest_setHolder : (state.setHolder lock owner).rest = state.rest := rfl

@[simp] theorem holder_setHolder :
    (state.setHolder lock owner).holder = Function.update state.holder lock owner := rfl

@[simp] theorem alive_setHolder : (state.setHolder lock owner).alive = state.alive := rfl

@[simp] theorem data_setHolder : (state.setHolder lock owner).data = state.data := rfl

end OfLocks

/-- A step shows its thread. -/
inductive Step [DecidableEq Thread] [DecidableEq Lock]
    (behaviour : Behaviour Thread Lock Data Input) :
    Transition (Threads Thread Lock Data Input) Thread
  | begins {state : Threads Thread Lock Data Input} {thread : Thread}
      {program : Program Thread Lock Data Input} (idle : state.rest thread = [])
      (alive : state.alive thread = true) (begins : behaviour.begins state.data thread program) :
      Step behaviour state thread (state.setRest thread program)
  | acquires {state : Threads Thread Lock Data Input} {thread : Thread} {lock : Lock}
      {program : Program Thread Lock Data Input}
      (next : state.rest thread = .acquire lock :: program) (free : state.holder lock = none) :
      Step behaviour state thread ((state.setRest thread program).setHolder lock (some thread))
  | releases {state : Threads Thread Lock Data Input} {thread : Thread} {lock : Lock}
      {program : Program Thread Lock Data Input}
      (next : state.rest thread = .release lock :: program) :
      Step behaviour state thread ((state.setRest thread program).setHolder lock none)
  | starts {state : Threads Thread Lock Data Input} {thread other : Thread}
      {program : Program Thread Lock Data Input}
      (next : state.rest thread = .start other :: program) :
      Step behaviour state thread ((state.setRest thread program).setAlive other true)
  | joins {state : Threads Thread Lock Data Input} {thread other : Thread}
      {program : Program Thread Lock Data Input}
      (next : state.rest thread = .join other :: program) (finished : state.alive other = false) :
      Step behaviour state thread (state.setRest thread program)
  | calls {state : Threads Thread Lock Data Input} {thread : Thread}
      {body : Data → Input → Data × Program Thread Lock Data Input}
      {program : Program Thread Lock Data Input}
      (next : state.rest thread = .call body :: program) (input : Input) :
      Step behaviour state thread
        { state.setRest thread ((body state.data input).2 ++ program) with
          data := (body state.data input).1 }
  | ends {state : Threads Thread Lock Data Input} {thread : Thread}
      (idle : state.rest thread = []) (alive : state.alive thread = true)
      (ends : behaviour.ends state.data thread) :
      Step behaviour state thread (state.setAlive thread false)

end Threads

/-- What a thread may acquire and join by the locks that it holds. -/
structure Permission (Thread Lock : Type) where
  acquires : (Lock → Prop) → Lock → Prop
  joins : (Lock → Prop) → Thread → Prop

/-- From the held locks the program does what is permitted, it keeps the data good, and it gives
back its locks before the end. -/
inductive Permitted (good : Data → Prop) (permission : Permission Thread Lock) :
    (Lock → Prop) → Program Thread Lock Data Input → Prop
  | done {held : Lock → Prop} (free : ∀ lock, ¬ held lock) : Permitted good permission held []
  | acquire {held : Lock → Prop} {lock : Lock} {program : Program Thread Lock Data Input}
      (may : permission.acquires held lock)
      (next : Permitted good permission (fun other => held other ∨ other = lock) program) :
      Permitted good permission held (.acquire lock :: program)
  | release {held : Lock → Prop} {lock : Lock} {program : Program Thread Lock Data Input}
      (own : held lock)
      (next : Permitted good permission (fun other => held other ∧ other ≠ lock) program) :
      Permitted good permission held (.release lock :: program)
  | start {held : Lock → Prop} {thread : Thread} {program : Program Thread Lock Data Input}
      (next : Permitted good permission held program) :
      Permitted good permission held (.start thread :: program)
  | join {held : Lock → Prop} {thread : Thread} {program : Program Thread Lock Data Input}
      (may : permission.joins held thread) (next : Permitted good permission held program) :
      Permitted good permission held (.join thread :: program)
  | call {held : Lock → Prop} {body : Data → Input → Data × Program Thread Lock Data Input}
      {program : Program Thread Lock Data Input}
      (keeps : ∀ data input, good data → good (body data input).1)
      (next : ∀ data input, good data →
        Permitted good permission held ((body data input).2 ++ program)) :
      Permitted good permission held (.call body :: program)

section Permitted

variable {good : Data → Prop} {permission : Permission Thread Lock} {held other : Lock → Prop}
  {lock : Lock} {thread : Thread} {program later : Program Thread Lock Data Input}

theorem Permitted.congr (permitted : Permitted good permission held program)
    (same : ∀ lock, held lock ↔ other lock) : Permitted good permission other program := by
  have equal : held = other := funext fun lock => propext (same lock)
  exact equal ▸ permitted

theorem Permitted.of_acquire
    (permitted : Permitted good permission held (.acquire lock :: program)) :
    permission.acquires held lock ∧
      Permitted good permission (fun other => held other ∨ other = lock) program := by
  cases permitted with
  | acquire may next => exact ⟨may, next⟩

theorem Permitted.of_release
    (permitted : Permitted good permission held (.release lock :: program)) :
    held lock ∧ Permitted good permission (fun other => held other ∧ other ≠ lock) program := by
  cases permitted with
  | release own next => exact ⟨own, next⟩

theorem Permitted.of_join (permitted : Permitted good permission held (.join thread :: program)) :
    permission.joins held thread ∧ Permitted good permission held program := by
  cases permitted with
  | join may next => exact ⟨may, next⟩

end Permitted

/-- Whatever may follow with the held locks may follow behind the program. -/
def Restores (good : Data → Prop) (permission : Permission Thread Lock) (held : Lock → Prop)
    (program : Program Thread Lock Data Input) : Prop :=
  ∀ later, Permitted good permission held later → Permitted good permission held (program ++ later)

namespace Restores

variable {good : Data → Prop} {permission : Permission Thread Lock} {held : Lock → Prop}
  {lock : Lock} {thread : Thread} {program other : Program Thread Lock Data Input}

theorem nil : Restores good permission held ([] : Program Thread Lock Data Input) :=
  fun _ next => next

theorem append (first : Restores good permission held program)
    (second : Restores good permission held other) :
    Restores good permission held (program ++ other) := by
  intro later next
  rw [List.append_assoc]
  exact first _ (second _ next)

theorem cons {instruction : Instruction Thread Lock Data Input}
    (first : Restores good permission held [instruction])
    (second : Restores good permission held program) :
    Restores good permission held (instruction :: program) := first.append second

theorem flatMap {Element : Type} {elements : List Element}
    {code : Element → Program Thread Lock Data Input}
    (each : ∀ element ∈ elements, Restores good permission held (code element)) :
    Restores good permission held (elements.flatMap code) := by
  induction elements with
  | nil => exact nil
  | cons element elements ih =>
      rw [List.forall_mem_cons] at each
      exact (each.1).append (ih each.2)

theorem call {body : Data → Input → Data × Program Thread Lock Data Input}
    (keeps : ∀ data input, good data → good (body data input).1)
    (next : ∀ data input, good data → Restores good permission held (body data input).2) :
    Restores good permission held [.call body] :=
  fun later rested => .call keeps fun data input fine => next data input fine later rested

theorem start : Restores good permission held
    ([.start thread] : Program Thread Lock Data Input) := fun _ next => .start next

theorem join (may : permission.joins held thread) :
    Restores good permission held ([.join thread] : Program Thread Lock Data Input) :=
  fun _ next => .join may next

/-- A lock that was free is given back. -/
theorem of_release {later : Program Thread Lock Data Input} (fresh : ¬ held lock)
    (next : Permitted good permission held later) :
    Permitted good permission (fun other => held other ∨ other = lock) (.release lock :: later) := by
  refine .release (.inr rfl) (next.congr fun other => ?_)
  by_cases same : other = lock
  · simp [same, fresh]
  · simp [same]

/-- A lock is held around a program. -/
theorem locked (may : permission.acquires held lock) (fresh : ¬ held lock)
    (inside : Restores good permission (fun other => held other ∨ other = lock) program) :
    Restores good permission held (.acquire lock :: (program ++ [.release lock])) := by
  intro later next
  refine .acquire may ?_
  show Permitted good permission _ ((program ++ [.release lock]) ++ later)
  rw [List.append_assoc]
  exact inside _ (of_release fresh next)

/-- What is read under a lock decides what follows. -/
theorem reading (may : permission.acquires held lock) (fresh : ¬ held lock)
    {code : Data → Input → Program Thread Lock Data Input}
    (next : ∀ data input, good data → Restores good permission held (code data input)) :
    Restores good permission held
      [.acquire lock, .call fun data input => (data, .release lock :: code data input)] := by
  intro later rested
  refine .acquire may (.call (fun _ _ fine => fine) fun data input fine => ?_)
  exact of_release fresh (next data input fine later rested)

theorem permitted (restores : Restores good permission (fun _ => False) program) :
    Permitted good permission (fun _ => False) program := by
  have ended := restores [] (.done fun _ => id)
  rwa [List.append_nil] at ended

end Restores

/-- The data are good, and every thread goes on as permitted from the locks that it holds. -/
structure Disciplined (good : Data → Prop) (permission : Thread → Permission Thread Lock)
    (state : Threads Thread Lock Data Input) : Prop where
  fine : good state.data
  permitted : ∀ thread,
    Permitted good (permission thread) (fun lock => state.holder lock = some thread)
      (state.rest thread)

/-- The thread waits for a lock that the other one holds. -/
def Waits (state : Threads Thread Lock Data Input) (thread other : Thread) : Prop :=
  ∃ lock program, state.rest thread = .acquire lock :: program ∧ state.holder lock = some other

/-- The thread waits for a lock that the other one holds, or for its end. -/
def Blocks (state : Threads Thread Lock Data Input) (thread other : Thread) : Prop :=
  Waits state thread other ∨
    ∃ program, state.rest thread = .join other :: program ∧ state.alive other = true

section Disciplined

variable {good : Data → Prop} {permission : Thread → Permission Thread Lock}
  {state : Threads Thread Lock Data Input} {thread other : Thread}

/-- A waiting thread may acquire the lock with those that it holds. -/
theorem Disciplined.acquires (disciplined : Disciplined good permission state) {lock : Lock}
    {program : Program Thread Lock Data Input}
    (next : state.rest thread = .acquire lock :: program) :
    (permission thread).acquires (fun held => state.holder held = some thread) lock := by
  have own := disciplined.permitted thread
  rw [next] at own
  exact own.of_acquire.1

/-- A joining thread may join with the locks that it holds. -/
theorem Disciplined.joins (disciplined : Disciplined good permission state)
    {program : Program Thread Lock Data Input}
    (next : state.rest thread = .join other :: program) :
    (permission thread).joins (fun held => state.holder held = some thread) other := by
  have own := disciplined.permitted thread
  rw [next] at own
  exact own.of_join.1

end Disciplined

section Steps

variable [DecidableEq Thread] [DecidableEq Lock] {behaviour : Behaviour Thread Lock Data Input}
  {good : Data → Prop} {permission : Thread → Permission Thread Lock}
  {state after : Threads Thread Lock Data Input} {thread other : Thread}

/-- Permitted calls keep the threads disciplined. -/
theorem Disciplined.step (disciplined : Disciplined good permission state)
    (calls : ∀ data thread program, behaviour.begins data thread program →
      Permitted good (permission thread) (fun _ => False) program)
    (taken : Threads.Step behaviour state thread after) : Disciplined good permission after := by
  have own := disciplined.permitted thread
  cases taken with
  | @begins _ _ program idle alive begins =>
      refine ⟨disciplined.fine, fun reader => ?_⟩
      simp only [Threads.rest_setRest, Threads.holder_setRest]
      by_cases same : reader = thread
      · subst same
        rw [idle] at own
        cases own with
        | done free =>
            rw [Function.update_self]
            exact (calls _ _ program begins).congr fun lock => iff_of_false id (free lock)
      · rw [Function.update_of_ne same]
        exact disciplined.permitted reader
  | @acquires _ _ lock program next free =>
      refine ⟨disciplined.fine, fun reader => ?_⟩
      simp only [Threads.rest_setHolder, Threads.rest_setRest, Threads.holder_setHolder,
        Threads.holder_setRest]
      rw [next] at own
      by_cases same : reader = thread
      · subst same
        rw [Function.update_self]
        refine own.of_acquire.2.congr fun other => ?_
        by_cases here : other = lock
        · simp [here]
        · simp [here]
      · rw [Function.update_of_ne same]
        refine (disciplined.permitted reader).congr fun other => ?_
        by_cases here : other = lock
        · rw [here, free, Function.update_self]
          exact iff_of_false (by simp) fun taken => same (Option.some.inj taken).symm
        · rw [Function.update_of_ne here]
  | @releases _ _ lock program next =>
      refine ⟨disciplined.fine, fun reader => ?_⟩
      simp only [Threads.rest_setHolder, Threads.rest_setRest, Threads.holder_setHolder,
        Threads.holder_setRest]
      rw [next] at own
      by_cases same : reader = thread
      · subst same
        rw [Function.update_self]
        refine own.of_release.2.congr fun other => ?_
        by_cases here : other = lock
        · simp [here]
        · simp [here]
      · rw [Function.update_of_ne same]
        refine (disciplined.permitted reader).congr fun other => ?_
        by_cases here : other = lock
        · rw [here, own.of_release.1, Function.update_self]
          exact iff_of_false (fun taken => same (Option.some.inj taken).symm) (by simp)
        · rw [Function.update_of_ne here]
  | @starts _ _ _ program next =>
      refine ⟨disciplined.fine, fun reader => ?_⟩
      simp only [Threads.rest_setAlive, Threads.rest_setRest, Threads.holder_setAlive,
        Threads.holder_setRest]
      rw [next] at own
      by_cases same : reader = thread
      · subst same
        rw [Function.update_self]
        cases own with
        | start rested => exact rested
      · rw [Function.update_of_ne same]
        exact disciplined.permitted reader
  | @joins _ _ _ program next finished =>
      refine ⟨disciplined.fine, fun reader => ?_⟩
      simp only [Threads.rest_setRest, Threads.holder_setRest]
      rw [next] at own
      by_cases same : reader = thread
      · subst same
        rw [Function.update_self]
        exact own.of_join.2
      · rw [Function.update_of_ne same]
        exact disciplined.permitted reader
  | @calls _ _ body program next input =>
      rw [next] at own
      cases own with
      | call keeps rested =>
          refine ⟨keeps _ _ disciplined.fine, fun reader => ?_⟩
          simp only [Threads.rest_setRest, Threads.holder_setRest]
          by_cases same : reader = thread
          · subst same
            rw [Function.update_self]
            exact rested _ _ disciplined.fine
          · rw [Function.update_of_ne same]
            exact disciplined.permitted reader
  | ends idle alive ends => exact ⟨disciplined.fine, disciplined.permitted⟩

/-- A blocked thread takes no step. -/
theorem not_step_of_blocks (blocks : Blocks state thread other) :
    ¬ Threads.Step behaviour state thread after := by
  intro taken
  obtain ⟨lock, program, next, holds⟩ | ⟨program, next, lives⟩ := blocks
  · cases taken with
    | begins idle => exact nomatch idle.symm.trans next
    | @acquires _ _ other _ own free =>
        have same : lock = other := by
          have heads := next.symm.trans own
          injection heads with head _
          injection head
        rw [← same, holds] at free
        cases free
    | releases own => exact nomatch own.symm.trans next
    | starts own => exact nomatch own.symm.trans next
    | joins own => exact nomatch own.symm.trans next
    | calls own => exact nomatch own.symm.trans next
    | ends idle => exact nomatch idle.symm.trans next
  · cases taken with
    | begins idle => exact nomatch idle.symm.trans next
    | acquires own => exact nomatch own.symm.trans next
    | releases own => exact nomatch own.symm.trans next
    | starts own => exact nomatch own.symm.trans next
    | @joins _ _ joined _ own finished =>
        have same : other = joined := by
          have heads := next.symm.trans own
          injection heads with head _
          injection head
        rw [← same, lives] at finished
        cases finished
    | calls own => exact nomatch own.symm.trans next
    | ends idle => exact nomatch idle.symm.trans next

/-- Every member is blocked by a member. -/
def Knotted (members : Thread → Prop) (state : Threads Thread Lock Data Input) : Prop :=
  ∀ thread, members thread → ∃ other, members other ∧ Blocks state thread other

/-- What another thread does blocks nobody less, as long as it does not block by itself. -/
theorem Blocks.step (disciplined : Disciplined good permission state) {stepping : Thread}
    (blocks : Blocks state thread other) (apart : thread ≠ stepping) (others : other ≠ stepping)
    (taken : Threads.Step behaviour state stepping after) : Blocks after thread other := by
  have kept : after.rest thread = state.rest thread := by
    cases taken with
    | ends idle => rfl
    | _ => exact Function.update_of_ne apart _ _
  obtain ⟨lock, program, next, holds⟩ | ⟨program, next, lives⟩ := blocks
  · refine .inl ⟨lock, program, kept.trans next, ?_⟩
    cases taken with
    | @acquires _ _ acquired _ own free =>
        have different : lock ≠ acquired := by
          intro same
          rw [← same, holds] at free
          cases free
        exact (Function.update_of_ne different _ _).trans holds
    | @releases _ _ released _ own =>
        have mine := disciplined.permitted stepping
        rw [own] at mine
        have different : lock ≠ released := by
          intro same
          have theirs := mine.of_release.1
          rw [← same, holds] at theirs
          exact others (Option.some.inj theirs)
        exact (Function.update_of_ne different _ _).trans holds
    | _ => exact holds
  · refine .inr ⟨program, kept.trans next, ?_⟩
    cases taken with
    | @starts _ _ started _ own =>
        by_cases same : other = started
        · rw [same]
          exact Function.update_self _ _ _
        · exact (Function.update_of_ne same _ _).trans lives
    | ends idle => exact (Function.update_of_ne others _ _).trans lives
    | _ => exact lives

/-- A knot stays, and none of its members takes a step. -/
theorem Knotted.step {members : Thread → Prop} (knotted : Knotted members state)
    (disciplined : Disciplined good permission state)
    (taken : Threads.Step behaviour state thread after) :
    Knotted members after ∧ ¬ members thread := by
  have outside : ¬ members thread := by
    intro inside
    obtain ⟨other, -, blocks⟩ := knotted thread inside
    exact not_step_of_blocks blocks taken
  refine ⟨fun member inside => ?_, outside⟩
  obtain ⟨other, otherInside, blocks⟩ := knotted member inside
  have apart : member ≠ thread := fun same => outside (same ▸ inside)
  have others : other ≠ thread := fun same => outside (same ▸ otherInside)
  exact ⟨other, otherInside, blocks.step disciplined apart others taken⟩

end Steps

namespace Concurrent

variable [DecidableEq Thread] [DecidableEq Lock] {behaviour : Behaviour Thread Lock Data Input}
  {good : Data → Prop} {permission : Thread → Permission Thread Lock} {rank : Lock → Nat}
  {bound : Nat} {state final : Threads Thread Lock Data Input} {thread : Thread}
  {events : List Thread}

end Concurrent

end Verification
