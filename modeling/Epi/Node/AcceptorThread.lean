import Epi.Node.Cookie

namespace Epi.Node

open Verification Epi.Type Epi.Buffer

/-- The places of `EIMessageAcceptor::run`: the test of the outer loop, the test before a receive, the
receive, the end of the polling loop, the exit test behind it, and the rest of the outer loop. -/
inductive AcceptorPlace where
  | looping
  | polling
  | waiting
  | received (result : ReceiveResult)
  | leaving (result : ReceiveResult)
  | handling (result : ReceiveResult)
  | ended

namespace AcceptorPlace

/-- The result that has not passed the exit test. -/
def pending : AcceptorPlace → Option ReceiveResult
  | received result | leaving result => some result
  | _ => none

/-- No result is on its way. -/
def atRest : AcceptorPlace → Bool
  | received _ | leaving _ | handling _ => false
  | _ => true

end AcceptorPlace

/-- The acceptor as the other threads see it. -/
structure AcceptorThread where
  place : AcceptorPlace
  mThreadExit : Bool
  msgResult : Option EpiMessage

/-- The constructor starts the thread. -/
def AcceptorThread.Starts (thread : AcceptorThread) : Prop := thread = ⟨.looping, false, none⟩

/-- What happens at an acceptor. A request to stop shows the result that it overtakes. -/
inductive ThreadEvent where
  | stops (pending : Option ReceiveResult)
  | receives (result : ReceiveResult)
  | handles (result : ReceiveResult) (delivered : List EpiMessage)
  | works

/-- The steps of the thread, and the requests of other threads to stop it. Once the exit flag is set
it stays so. -/
inductive ThreadStep (platform : Platform) (ei : Ei) (fuel : Nat) (mCookie : Bytes) :
    Transition AcceptorThread ThreadEvent
  | stops {place : AcceptorPlace} {msgResult : Option EpiMessage} :
      ThreadStep platform ei fuel mCookie ⟨place, false, msgResult⟩ (.stops place.pending)
        ⟨place, true, msgResult⟩
  | enters {msgResult : Option EpiMessage} :
      ThreadStep platform ei fuel mCookie ⟨.looping, false, msgResult⟩ .works
        ⟨.polling, false, msgResult⟩
  | ends {msgResult : Option EpiMessage} :
      ThreadStep platform ei fuel mCookie ⟨.looping, true, msgResult⟩ .works
        ⟨.ended, true, msgResult⟩
  | polls {msgResult : Option EpiMessage} :
      ThreadStep platform ei fuel mCookie ⟨.polling, false, msgResult⟩ .works
        ⟨.waiting, false, msgResult⟩
  -- The inner `break` is followed by the one behind the exit test.
  | breaks {msgResult : Option EpiMessage} :
      ThreadStep platform ei fuel mCookie ⟨.polling, true, msgResult⟩ .works
        ⟨.ended, true, msgResult⟩
  | receives {mThreadExit : Bool} {msgResult : Option EpiMessage} (result : ReceiveResult) :
      ThreadStep platform ei fuel mCookie ⟨.waiting, mThreadExit, msgResult⟩ (.receives result)
        ⟨.received result, mThreadExit, msgResult⟩
  | ignores {msgResult : Option EpiMessage} {result : ReceiveResult}
      (ignored : platform.ignores result = true) :
      ThreadStep platform ei fuel mCookie ⟨.received result, false, msgResult⟩ .works
        ⟨.polling, false, msgResult⟩
  | leaves {mThreadExit : Bool} {msgResult : Option EpiMessage} {result : ReceiveResult}
      (done : platform.ignores result = false ∨ mThreadExit = true) :
      ThreadStep platform ei fuel mCookie ⟨.received result, mThreadExit, msgResult⟩ .works
        ⟨.leaving result, mThreadExit, msgResult⟩
  | exits {msgResult : Option EpiMessage} {result : ReceiveResult} :
      ThreadStep platform ei fuel mCookie ⟨.leaving result, true, msgResult⟩ .works
        ⟨.ended, true, msgResult⟩
  | stays {msgResult : Option EpiMessage} {result : ReceiveResult} :
      ThreadStep platform ei fuel mCookie ⟨.leaving result, false, msgResult⟩ .works
        ⟨.handling result, false, msgResult⟩
  | handles {mThreadExit : Bool} {msgResult : Option EpiMessage} {result : ReceiveResult}
      {delivered : List EpiMessage} {after : EIMessageAcceptor}
      (ran : EIMessageAcceptor.pass platform ei fuel mCookie result ⟨false, msgResult⟩ =
        (.returns delivered, after)) :
      ThreadStep platform ei fuel mCookie ⟨.handling result, mThreadExit, msgResult⟩
        (.handles result delivered)
        ⟨if after.mThreadExit then .ended else .looping, mThreadExit, after.msgResult⟩
  | crashes {mThreadExit : Bool} {msgResult : Option EpiMessage} {result : ReceiveResult}
      (crashed : ∀ delivered state, EIMessageAcceptor.pass platform ei fuel mCookie result
        ⟨false, msgResult⟩ ≠ (.returns delivered, state)) :
      ThreadStep platform ei fuel mCookie ⟨.handling result, mThreadExit, msgResult⟩
        (.handles result []) ⟨.ended, mThreadExit, msgResult⟩

/-- An error that the polling loop does not ignore. -/
def Platform.reportable (platform : Platform) : ReceiveResult → Bool
  | .erlError erlErrno => !platform.ignores (.erlError erlErrno)
  | _ => false

/-- The error that ends the loop. -/
def Platform.fatal (platform : Platform) : ReceiveResult → Bool
  | .erlError erlErrno => platform.reportable (.erlError erlErrno) && erlErrno == platform.eIO
  | _ => false

namespace ThreadEvent

def isStop : ThreadEvent → Bool
  | .stops _ => true
  | _ => false

/-- The result of a receive, if it has to be reported. -/
def owed (platform : Platform) : ThreadEvent → List ReceiveResult
  | .receives result => if platform.reportable result then [result] else []
  | _ => []

/-- The messages that the handling of an error delivers. -/
def reports : ThreadEvent → List EpiMessage
  | .handles (.erlError _) delivered => delivered
  | _ => []

end ThreadEvent

/-- A request to stop is among the events. -/
def stopRequested (events : List ThreadEvent) : Bool := events.any ThreadEvent.isStop

/-- The errors received before stop is requested that have to be reported. -/
def owedErrors (platform : Platform) (events : List ThreadEvent) : List ReceiveResult :=
  (events.takeWhile fun event => !event.isStop).flatMap (ThreadEvent.owed platform)

/-- What is delivered for errors. -/
def errorReports (events : List ThreadEvent) : List EpiMessage :=
  events.flatMap ThreadEvent.reports

/-- The message is the report of the error. -/
def IsReport (platform : Platform) (result : ReceiveResult) (message : EpiMessage) : Prop :=
  ∃ erlErrno, result = .erlError erlErrno ∧
    message = .errorMessage (platform.eiException "Error in receive" erlErrno)

/-- Each error is reported once, in the order of the errors, and nothing else is. -/
def Reported (platform : Platform) (events : List ThreadEvent) : Prop :=
  List.Forall₂ (IsReport platform) (owedErrors platform events) (errorReports events)

/-- No error that ends the loop is among the errors, and no request to stop overtakes one. -/
structure SparesErrors (platform : Platform) (events : List ThreadEvent) : Prop where
  received : ∀ result ∈ owedErrors platform events, platform.fatal result = false
  stopped : ∀ result, .stops (some result) ∈ events → platform.reportable result = false

/-- What the thread still delivers for a result. -/
def Platform.due (platform : Platform) : ReceiveResult → List EpiMessage
  | .erlError erlErrno =>
      if platform.reportable (.erlError erlErrno) && !platform.fatal (.erlError erlErrno) then
        [.errorMessage (platform.eiException "Error in receive" erlErrno)]
      else []
  | _ => []

/-- What the thread still delivers for the result that is on its way. -/
def AcceptorThread.due (platform : Platform) (thread : AcceptorThread) : List EpiMessage :=
  match thread.place with
  | .received result | .leaving result =>
      if thread.mThreadExit then [] else platform.due result
  | .handling result => platform.due result
  | _ => []

section Events

variable {platform : Platform} {events : List ThreadEvent} {event : ThreadEvent}

theorem stopRequested_append :
    stopRequested (events ++ [event]) = (stopRequested events || event.isStop) := by
  simp [stopRequested]

theorem errorReports_append :
    errorReports (events ++ [event]) = errorReports events ++ event.reports := by
  simp [errorReports]

theorem owedErrors_append :
    owedErrors platform (events ++ [event]) =
      owedErrors platform events ++ if stopRequested events then [] else event.owed platform := by
  cases requested : stopRequested events with
  | false =>
      have unstopped : ∀ earlier ∈ events, (!earlier.isStop) = true := by
        simpa [stopRequested] using requested
      rw [owedErrors, owedErrors, List.takeWhile_append_of_pos unstopped,
        List.takeWhile_eq_self_iff.mpr unstopped, List.flatMap_append]
      cases event <;> simp [ThreadEvent.isStop, ThreadEvent.owed, List.takeWhile]
  | true =>
      obtain ⟨stop, member, stops⟩ := List.any_eq_true.mp requested
      have shorter : (events.takeWhile fun event => !event.isStop).length ≠ events.length := by
        intro same
        have kept := (List.takeWhile_prefix fun event : ThreadEvent => !event.isStop).eq_of_length same
        have unstopped := List.takeWhile_eq_self_iff.mp kept stop member
        simp [stops] at unstopped
      rw [owedErrors, owedErrors, List.takeWhile_append, if_neg shorter]
      simp

/-- The condition on one more event. -/
def ThreadEvent.Spares (platform : Platform) (stopped : Bool) : ThreadEvent → Prop
  | .receives result => stopped = false → platform.fatal result = false
  | .stops pending => ∀ result, pending = some result → platform.reportable result = false
  | _ => True

/-- What is fatal is an error that has to be reported. -/
theorem reportable_of_fatal {result : ReceiveResult} (fatal : platform.fatal result = true) :
    platform.reportable result = true := by
  cases result with
  | erlError erlErrno =>
      simp only [Platform.fatal, Bool.and_eq_true] at fatal
      exact fatal.1
  | _ => cases fatal

theorem sparesErrors_nil : SparesErrors platform [] :=
  ⟨fun _ member => absurd member List.not_mem_nil, fun _ member => absurd member List.not_mem_nil⟩

theorem sparesErrors_append :
    SparesErrors platform (events ++ [event]) ↔
      SparesErrors platform events ∧ event.Spares platform (stopRequested events) := by
  have added : (∀ result ∈ owedErrors platform (events ++ [event]), platform.fatal result = false) ↔
      (∀ result ∈ owedErrors platform events, platform.fatal result = false) ∧
        (stopRequested events = false →
          ∀ result ∈ event.owed platform, platform.fatal result = false) := by
    rw [owedErrors_append, List.forall_mem_append]
    cases stopRequested events <;> simp
  have last : event.Spares platform (stopRequested events) ↔
      (stopRequested events = false →
        ∀ result ∈ event.owed platform, platform.fatal result = false) ∧
      ∀ result, ThreadEvent.stops (some result) = event → platform.reportable result = false := by
    cases event with
    | receives result =>
        cases reportable : platform.reportable result with
        | true => simp [ThreadEvent.Spares, ThreadEvent.owed, reportable]
        | false =>
            have harmless : platform.fatal result = false := by
              by_contra fatal
              rw [reportable_of_fatal (by simpa using fatal)] at reportable
              cases reportable
            simp [ThreadEvent.Spares, ThreadEvent.owed, reportable, harmless]
    | stops pending =>
        simp only [ThreadEvent.Spares, ThreadEvent.owed, List.not_mem_nil, false_imp_iff,
          implies_true, true_and, ThreadEvent.stops.injEq, eq_comm]
    | handles result delivered => simp [ThreadEvent.Spares, ThreadEvent.owed]
    | works => simp [ThreadEvent.Spares, ThreadEvent.owed]
  constructor
  · rintro ⟨received, stopped⟩
    obtain ⟨before, now⟩ := added.mp received
    refine ⟨⟨before, fun result member => stopped result (List.mem_append_left _ member)⟩, ?_⟩
    exact last.mpr ⟨now, fun result same => stopped result (by simp [same])⟩
  · rintro ⟨⟨before, stopped⟩, spares⟩
    obtain ⟨now, overtaken⟩ := last.mp spares
    refine ⟨added.mpr ⟨before, now⟩, fun result member => ?_⟩
    rcases List.mem_append.mp member with earlier | same
    · exact stopped result earlier
    · exact overtaken result (List.mem_singleton.mp same)

end Events

/-- The errors and their reports, with those that the thread still delivers. As long as the errors are
spared they are paired, and afterwards a report is missing. -/
structure Balanced (platform : Platform) (events : List ThreadEvent) (thread : AcceptorThread) :
    Prop where
  flag : thread.mThreadExit = stopRequested events
  paired : SparesErrors platform events → List.Forall₂ (IsReport platform) (owedErrors platform events)
    (errorReports events ++ thread.due platform)
  missing : ¬ SparesErrors platform events →
    (errorReports events ++ thread.due platform).length < (owedErrors platform events).length
  doomed : ∀ result, thread.place.pending = some result → thread.mThreadExit = false →
    platform.fatal result = true → ¬ SparesErrors platform events

section Thread

variable {platform : Platform} {ei : Ei} {fuel : Nat} {mCookie : Bytes}
  {events : List ThreadEvent} {thread after : AcceptorThread} {event : ThreadEvent}
  {result : ReceiveResult}

/-- The rest that is due for a result is its report, unless it is fatal. -/
theorem due_eq (platform : Platform) (result : ReceiveResult) :
    (platform.reportable result = false ∧ platform.due result = []) ∨
    (platform.fatal result = true ∧ platform.due result = []) ∨
    (platform.reportable result = true ∧ platform.fatal result = false ∧
      ∃ message, platform.due result = [message] ∧ IsReport platform result message) := by
  cases result with
  | erlError erlErrno =>
      cases reportable : platform.reportable (.erlError erlErrno) with
      | false => exact .inl ⟨rfl, by simp [Platform.due, reportable]⟩
      | true =>
          cases fatal : platform.fatal (.erlError erlErrno) with
          | true => exact .inr (.inl ⟨rfl, by simp [Platform.due, fatal]⟩)
          | false =>
              exact .inr (.inr ⟨rfl, rfl, _, by simp [Platform.due, reportable, fatal],
                erlErrno, rfl, rfl⟩)
  | _ => exact .inl ⟨rfl, rfl⟩

/-- With Boost the pass of an error delivers what is due. -/
theorem pass_error (ei : Ei) (fuel : Nat) (mCookie : Bytes) (boost : platform.useBoost = true)
    (erlErrno : Nat) (acceptor : EIMessageAcceptor) :
    ∃ last, EIMessageAcceptor.pass platform ei fuel mCookie (.erlError erlErrno) acceptor =
      (.returns (platform.due (.erlError erlErrno)), last) := by
  rw [EIMessageAcceptor.pass]
  cases ignored : platform.ignores (.erlError erlErrno) with
  | true =>
      refine ⟨acceptor, ?_⟩
      simp [Platform.due, Platform.reportable, ignored]
  | false =>
      by_cases ends : erlErrno = platform.eIO
      · have nothing : platform.due (.erlError erlErrno) = [] := by
          simp [Platform.due, Platform.fatal, ends]
        refine ⟨(EIMessageAcceptor.exit (EIMessageAcceptor.assign (.errorMessage
          (platform.eiException "Error in receive" erlErrno)) acceptor).2).2, ?_⟩
        simp only [if_neg Bool.false_ne_true, if_pos ends, boost, if_true, nothing]
        rfl
      · have report : platform.due (.erlError erlErrno) =
            [.errorMessage (platform.eiException "Error in receive" erlErrno)] := by
          simp [Platform.due, Platform.reportable, Platform.fatal, ignored, ends]
        refine ⟨(EIMessageAcceptor.assign (.errorMessage
          (platform.eiException "Error in receive" erlErrno)) acceptor).2, ?_⟩
        simp only [if_neg Bool.false_ne_true, if_neg ends, report]
        rfl

/-- The handling of a result reports what is due. -/
theorem handles_reports (boost : platform.useBoost = true) {delivered : List EpiMessage}
    {before last : EIMessageAcceptor}
    (ran : EIMessageAcceptor.pass platform ei fuel mCookie result before =
      (.returns delivered, last)) :
    (ThreadEvent.handles result delivered).reports = platform.due result := by
  cases result with
  | erlError erlErrno =>
      obtain ⟨left, passed⟩ := pass_error ei fuel mCookie boost erlErrno before
      rw [passed] at ran
      cases ran
      rfl
  | _ => rfl

/-- The handling of an error comes back. -/
theorem crashes_reports (boost : platform.useBoost = true) {before : EIMessageAcceptor}
    (crashed : ∀ delivered state, EIMessageAcceptor.pass platform ei fuel mCookie result before ≠
      (.returns delivered, state)) :
    (ThreadEvent.handles result []).reports = platform.due result := by
  cases result with
  | erlError erlErrno =>
      obtain ⟨left, passed⟩ := pass_error ei fuel mCookie boost erlErrno before
      exact absurd passed (crashed _ _)
  | _ => rfl

/-- One event more. What is received is paired, and a report is lost where the event does not spare
the errors. -/
theorem Balanced.more (balanced : Balanced platform events thread)
    (flag : after.mThreadExit = (thread.mThreadExit || event.isStop))
    (paired : event.Spares platform (stopRequested events) → ∃ new,
      event.reports ++ after.due platform = thread.due platform ++ new ∧
      List.Forall₂ (IsReport platform)
        (if stopRequested events then [] else event.owed platform) new)
    (missing : ¬ event.Spares platform (stopRequested events) →
      (event.reports ++ after.due platform).length ≤ (thread.due platform).length ∧
      (SparesErrors platform events → (event.reports ++ after.due platform).length <
        (thread.due platform).length +
          (if stopRequested events then [] else event.owed platform).length))
    (doomed : ∀ result, after.place.pending = some result → after.mThreadExit = false →
      platform.fatal result = true → thread.place.pending = some result ∨
        ¬ event.Spares platform (stopRequested events)) :
    Balanced platform (events ++ [event]) after := by
  constructor
  · rw [stopRequested_append, ← balanced.flag, flag]
  · intro spared
    obtain ⟨before, spares⟩ := sparesErrors_append.mp spared
    obtain ⟨new, same, reports⟩ := paired spares
    rw [owedErrors_append, errorReports_append, List.append_assoc, same, ← List.append_assoc]
    exact List.rel_append (balanced.paired before) reports
  · intro lossy
    rw [owedErrors_append, errorReports_append, List.append_assoc]
    simp only [List.length_append] at missing ⊢
    by_cases spares : event.Spares platform (stopRequested events)
    · have before : ¬ SparesErrors platform events := fun spared =>
        lossy (sparesErrors_append.mpr ⟨spared, spares⟩)
      have short := balanced.missing before
      obtain ⟨new, same, reports⟩ := paired spares
      have lengths := congrArg List.length same
      have equal := reports.length_eq
      simp only [List.length_append] at short lengths
      omega
    · obtain ⟨atMost, less⟩ := missing spares
      by_cases spared : SparesErrors platform events
      · have equal := (balanced.paired spared).length_eq
        have lost := less spared
        rw [List.length_append] at equal
        omega
      · have short := balanced.missing spared
        rw [List.length_append] at short
        omega
  · intro result waits unset fatal spared
    obtain ⟨before, spares⟩ := sparesErrors_append.mp spared
    have flagged : thread.mThreadExit = false := by
      rw [flag, Bool.or_eq_false_iff] at unset
      exact unset.1
    rcases doomed result waits unset fatal with earlier | lossy
    · exact balanced.doomed result earlier flagged fatal before
    · exact lossy spares

/-- A step that shows nothing and leaves what is due. -/
theorem Balanced.silent (balanced : Balanced platform events thread)
    (flag : after.mThreadExit = thread.mThreadExit) (same : after.due platform = thread.due platform)
    (pending : ∀ result, after.place.pending = some result → after.mThreadExit = false →
      thread.place.pending = some result) :
    Balanced platform (events ++ [.works]) after := by
  refine balanced.more (by rw [flag]; exact (Bool.or_false _).symm) (fun _ => ⟨[], ?_, ?_⟩)
    (fun lossy => absurd trivial lossy) (fun result waits unset _ => .inl (pending result waits unset))
  · rw [same]
    exact (List.append_nil _).symm
  · cases stopRequested events <;> exact .nil

/-- The handling of a result reports what was due. -/
theorem Balanced.handled {delivered : List EpiMessage} {last : AcceptorPlace}
    {mThreadExit : Bool} {msgResult left : Option EpiMessage}
    (balanced : Balanced platform events ⟨.handling result, mThreadExit, msgResult⟩)
    (reports : (ThreadEvent.handles result delivered).reports = platform.due result)
    (closed : last = .looping ∨ last = .ended) :
    Balanced platform (events ++ [.handles result delivered]) ⟨last, mThreadExit, left⟩ := by
  have nothing : (AcceptorThread.mk last mThreadExit left).due platform = [] := by
    rcases closed with rfl | rfl <;> rfl
  refine balanced.more (Bool.or_false _).symm (fun _ => ⟨[], ?_, ?_⟩) (fun lossy => absurd trivial lossy)
    ?_
  · rw [nothing, reports]
    rfl
  · cases stopRequested events <;> exact .nil
  · rintro other waits
    rcases closed with rfl | rfl <;> cases waits

/-- A request to stop loses the report that is due for a pending result. -/
theorem Balanced.stopped {place : AcceptorPlace} {msgResult : Option EpiMessage}
    (balanced : Balanced platform events ⟨place, false, msgResult⟩) :
    Balanced platform (events ++ [.stops place.pending]) ⟨place, true, msgResult⟩ := by
  have unowed : (if stopRequested events then [] else
      (ThreadEvent.stops place.pending).owed platform) = [] := by
    cases stopRequested events <;> rfl
  cases pending : place.pending with
  | none =>
      have same : (AcceptorThread.mk place true msgResult).due platform =
          (AcceptorThread.mk place false msgResult).due platform := by
        cases place with
        | received result => cases pending
        | leaving result => cases pending
        | _ => rfl
      rw [pending] at unowed
      refine balanced.more rfl (fun _ => ⟨[], ?_, ?_⟩) (fun lossy => absurd (fun _ => nofun) lossy)
        (fun _ _ set => by cases set)
      · rw [same]
        exact (List.append_nil _).symm
      · rw [unowed]
        exact .nil
  | some result =>
      have lost : (AcceptorThread.mk place true msgResult).due platform = [] := by
        cases place with
        | received | leaving => rfl
        | _ => cases pending
      have due : (AcceptorThread.mk place false msgResult).due platform = platform.due result := by
        cases place with
        | received | leaving =>
            cases pending
            rfl
        | _ => cases pending
      rw [pending] at unowed
      have spares : (ThreadEvent.stops (some result)).Spares platform (stopRequested events) ↔
          platform.reportable result = false :=
        ⟨fun all => all _ rfl, fun safe other same => Option.some.inj same ▸ safe⟩
      refine balanced.more rfl ?_ ?_ (fun _ _ set => by cases set)
      · intro safe
        refine ⟨[], ?_, by rw [unowed]; exact .nil⟩
        rw [lost, due]
        rcases due_eq platform result with ⟨-, nothing⟩ | ⟨-, nothing⟩ | ⟨reportable, -⟩
        · rw [nothing]
          rfl
        · rw [nothing]
          rfl
        · rw [spares.mp safe] at reportable
          cases reportable
      · intro lossy
        rw [spares, Bool.not_eq_false] at lossy
        rw [lost, due, unowed]
        refine ⟨Nat.zero_le _, fun spared => ?_⟩
        rcases due_eq platform result with ⟨harmless, -⟩ | ⟨fatal, -⟩ | ⟨-, -, message, report, -⟩
        · rw [harmless] at lossy
          cases lossy
        · exact absurd spared (balanced.doomed result pending rfl fatal)
        · rw [report]
          exact Nat.zero_lt_one

/-- A received result is owed and due, unless it comes too late. -/
theorem Balanced.received {mThreadExit : Bool} {msgResult : Option EpiMessage}
    (balanced : Balanced platform events ⟨.waiting, mThreadExit, msgResult⟩)
    (result : ReceiveResult) :
    Balanced platform (events ++ [.receives result]) ⟨.received result, mThreadExit, msgResult⟩ := by
  have flag := balanced.flag
  simp only at flag
  have nothing : (AcceptorThread.mk .waiting mThreadExit msgResult).due platform = [] := rfl
  have spares : (ThreadEvent.receives result).Spares platform (stopRequested events) ↔
      (stopRequested events = false → platform.fatal result = false) := Iff.rfl
  have waiting : ∀ other, (AcceptorPlace.received result).pending = some other →
      mThreadExit = false → platform.fatal other = true →
      AcceptorPlace.waiting.pending = some other ∨
        ¬ (ThreadEvent.receives result).Spares platform (stopRequested events) := by
    intro other same unset fatal
    cases same
    refine .inr fun safe => ?_
    rw [safe (flag ▸ unset)] at fatal
    cases fatal
  refine balanced.more (Bool.or_false _).symm ?_ ?_ waiting
  · intro safe
    cases mThreadExit with
    | true =>
        rw [← flag]
        exact ⟨[], rfl, .nil⟩
    | false =>
        rw [← flag] at safe ⊢
        have due : (AcceptorThread.mk (.received result) false msgResult).due platform =
            platform.due result := rfl
        refine ⟨platform.due result, rfl, ?_⟩
        simp only [ThreadEvent.owed, if_neg Bool.false_ne_true]
        rcases due_eq platform result with
          ⟨harmless, nothing⟩ | ⟨fatal, -⟩ | ⟨reportable, -, message, report, isReport⟩
        · rw [nothing, harmless]
          exact .nil
        · rw [safe rfl] at fatal
          cases fatal
        · rw [report, reportable]
          exact .cons isReport .nil
  · intro lossy
    rw [spares, Classical.not_imp, Bool.not_eq_false] at lossy
    obtain ⟨unset, fatal⟩ := lossy
    have running : mThreadExit = false := flag.trans unset
    subst running
    have due : (AcceptorThread.mk (.received result) false msgResult).due platform = [] := by
      rcases due_eq platform result with ⟨harmless, -⟩ | ⟨-, nothing⟩ | ⟨-, kept, -⟩
      · rw [reportable_of_fatal fatal] at harmless
        cases harmless
      · exact nothing
      · rw [fatal] at kept
        cases kept
    rw [due, unset, if_neg Bool.false_ne_true, ThreadEvent.owed, reportable_of_fatal fatal]
    exact ⟨Nat.zero_le _, fun _ => Nat.zero_lt_one⟩

/-- Every step keeps the balance. -/
theorem Balanced.step (boost : platform.useBoost = true)
    (balanced : Balanced platform events thread)
    (taken : ThreadStep platform ei fuel mCookie thread event after) :
    Balanced platform (events ++ [event]) after := by
  cases taken with
  | stops => exact balanced.stopped
  | enters => exact balanced.silent rfl rfl (fun _ waits _ => by cases waits)
  | ends => exact balanced.silent rfl rfl (fun _ waits _ => by cases waits)
  | polls => exact balanced.silent rfl rfl (fun _ waits _ => by cases waits)
  | breaks => exact balanced.silent rfl rfl (fun _ waits _ => by cases waits)
  | receives result => exact balanced.received result
  | @ignores msgResult result ignored =>
      have nothing : platform.due result = [] := by
        cases result with
        | erlError erlErrno => simp [Platform.due, Platform.reportable, ignored]
        | _ => rfl
      exact balanced.silent rfl nothing.symm (fun _ waits _ => by cases waits)
  | leaves done => exact balanced.silent rfl rfl (fun _ waits _ => waits)
  | exits => exact balanced.silent rfl rfl (fun _ waits _ => by cases waits)
  | stays => exact balanced.silent rfl rfl (fun _ waits _ => by cases waits)
  | @handles mThreadExit msgResult result delivered last ran =>
      refine balanced.handled (handles_reports boost ran) ?_
      cases last.mThreadExit
      · exact .inl rfl
      · exact .inr rfl
  | crashes crashed => exact balanced.handled (crashes_reports boost crashed) (.inr rfl)

/-- At every point of a run the errors are balanced. -/
theorem run_balanced (boost : platform.useBoost = true)
    (run : Run AcceptorThread.Starts (ThreadStep platform ei fuel mCookie) events thread) :
    Balanced platform events thread := by
  apply run.invariant
  · rintro state rfl
    exact ⟨rfl, fun _ => .nil, fun lossy => absurd sparesErrors_nil lossy, fun _ waits => by cases waits⟩
  · intro events state event later balanced taken
    exact balanced.step boost taken

/-- Nothing is due when no result is on its way. -/
theorem due_atRest (rest : thread.place.atRest = true) : thread.due platform = [] := by
  obtain ⟨place, mThreadExit, msgResult⟩ := thread
  cases place with
  | received | leaving | handling => cases rest
  | _ => rfl

/-- The errors received before a stop are reported once each where none of them ends the loop and the
stop overtakes none, and only there. -/
theorem errors_reported_iff (boost : platform.useBoost = true)
    (run : Run AcceptorThread.Starts (ThreadStep platform ei fuel mCookie) events thread)
    (rest : thread.place.atRest = true) :
    Reported platform events ↔ SparesErrors platform events := by
  have balanced := run_balanced boost run
  have paired := balanced.paired
  have missing := balanced.missing
  rw [due_atRest rest, List.append_nil] at paired missing
  constructor
  · intro reported
    by_contra lossy
    have short := missing lossy
    have equal := reported.length_eq
    omega
  · exact paired

end Thread

/-- A first receive that fails with this error number. -/
def failingEvents (erlErrno : Nat) (delivered : List EpiMessage) : List ThreadEvent :=
  [.works, .works, .receives (.erlError erlErrno), .works, .works,
    .handles (.erlError erlErrno) delivered]

/-- The thread up to the handling of the error. -/
theorem failing_run (erlErrno : Nat) (delivered : List EpiMessage) (after : EIMessageAcceptor)
    (heard : samplePlatform.ignores (.erlError erlErrno) = false)
    (ran : EIMessageAcceptor.pass samplePlatform externalFormat 5 (text "secret")
      (.erlError erlErrno) ⟨false, none⟩ = (.returns delivered, after)) :
    Run AcceptorThread.Starts (ThreadStep samplePlatform externalFormat 5 (text "secret"))
      (failingEvents erlErrno delivered)
      ⟨if after.mThreadExit then .ended else .looping, false, after.msgResult⟩ := by
  let Step := ThreadStep samplePlatform externalFormat 5 (text "secret")
  have started : AcceptorThread.Starts ⟨.looping, false, none⟩ := rfl
  have entered : Step ⟨.looping, false, none⟩ .works ⟨.polling, false, none⟩ := .enters
  have polled : Step ⟨.polling, false, none⟩ .works ⟨.waiting, false, none⟩ := .polls
  have failed : Step ⟨.waiting, false, none⟩ (.receives (.erlError erlErrno))
      ⟨.received (.erlError erlErrno), false, none⟩ := .receives _
  have left : Step ⟨.received (.erlError erlErrno), false, none⟩ .works
      ⟨.leaving (.erlError erlErrno), false, none⟩ := .leaves (.inl heard)
  have stayed : Step ⟨.leaving (.erlError erlErrno), false, none⟩ .works
      ⟨.handling (.erlError erlErrno), false, none⟩ := .stays
  exact (((((Run.start started).step entered).step polled).step failed).step left).step stayed
    |>.step (.handles ran)

/-- A reset of the connection is reported. -/
theorem errors_reported_reset :
    Reported samplePlatform (failingEvents 104
        [.errorMessage (samplePlatform.eiException "Error in receive" 104)]) ↔
      SparesErrors samplePlatform (failingEvents 104
        [.errorMessage (samplePlatform.eiException "Error in receive" 104)]) :=
  errors_reported_iff rfl (failing_run 104 _ _ rfl rfl) rfl

/-- The error of a connection that is gone ends the thread without a report. -/
theorem eio_unreported :
    samplePlatform.useBoost = true ∧
    (∃ thread, Run AcceptorThread.Starts
      (ThreadStep samplePlatform externalFormat 5 (text "secret"))
      (failingEvents samplePlatform.eIO []) thread ∧ thread.place = .ended ∧
      thread.mThreadExit = false) ∧
    .erlError samplePlatform.eIO ∈ owedErrors samplePlatform (failingEvents samplePlatform.eIO []) ∧
    ¬ Reported samplePlatform (failingEvents samplePlatform.eIO []) := by
  refine ⟨rfl, ⟨_, failing_run 5 [] _ rfl rfl, rfl, rfl⟩, List.mem_cons_self, ?_⟩
  intro reported
  have lengths := reported.length_eq
  cases lengths

end Epi.Node
