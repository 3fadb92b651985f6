import Epi.Library.Exchange
import Epi.Library.Run
import Epi.Node.Registry
import Epi.Node.Replies

namespace Epi.Node

open Verification Epi.Type Epi.Buffer Epi.Queue

/-- The call that a mailbox is in. A timed one gives up only after a wait. -/
structure OpenCall where
  number : Nat
  timed : Bool
  waited : Bool

/-- A node, how many requests a mailbox of it sent, which of them the server works on, and the call
that the mailbox is in. -/
structure Calling where
  node : AutoNode
  sent : Nat
  working : List Nat
  call : Option OpenCall

/-- What happens while a mailbox calls. -/
inductive CallEvent where
  | sends (number : Nat)
  | fails (error : EpiException)
  | answers (number : Nat)
  | gets (message : EpiMessage)
  | works
  | waits (number : Nat)
  | ends (number : Nat) (outcome : RPCCall (Option ErlTerm))

/-- The mailbox makes one call after another, and the server answers each of them once, at any time.
Other messages reach the mailbox as well, and the rest of the node works on. A call that aborts ends
the program, and the run with it. -/
inductive CallStep (transport : Transport) (ei : Ei) (fuel mailbox : Nat)
    (result : Nat → ErlTerm) : Transition Calling CallEvent
  | sends {before : Calling} {after : AutoNode} {nodename mod function : Bytes}
      {args : Option ErlTerm} (timed : Bool) (outside : before.call = none)
      (other : before.node.getRegMailBox (text "rex") ≠ some mailbox)
      (ran : MailBox.sendRPC transport ei fuel mailbox nodename mod function args before.node =
        (.returns (), after)) :
      CallStep transport ei fuel mailbox result before (.sends before.sent)
        { node := after
          sent := before.sent + 1
          working := before.working ++ [before.sent]
          call := some ⟨before.sent, timed, false⟩ }
  | fails {before : Calling} {after : AutoNode} {nodename mod function : Bytes}
      {args : Option ErlTerm} {error : EpiException} (outside : before.call = none)
      (other : before.node.getRegMailBox (text "rex") ≠ some mailbox)
      (ran : MailBox.sendRPC transport ei fuel mailbox nodename mod function args before.node =
        (.throws error, after)) :
      CallStep transport ei fuel mailbox result before (.fails error)
        { before with node := after }
  | answers {before : Calling} {after : AutoNode} {number : Nat} {object : MailBox}
      {msg : ErlangMessage} {origin : Address} (pending : number ∈ before.working)
      (here : before.node.mailBoxes[mailbox]? = some object)
      (found : before.node.getMailBox (some object.mSelf) = some mailbox)
      (decoded : msg.mPayLoad = some (rexTuple (result number)))
      (ran : AutoNode.deliver origin before.node.messages.length
        (before.node.gained (.sendMessage msg object.mSelf)) = (.returns (), after)) :
      CallStep transport ei fuel mailbox result before (.answers number)
        { before with node := after, working := before.working.erase number }
  | gets {before : Calling} {after : AutoNode} {message : EpiMessage} (foreign : message.Foreign)
      (ran : AutoNode.onMailBox mailbox (MailBox.deliver (before.node.gained message).messages
        before.node.messages.length) (before.node.gained message) = (.returns (), after)) :
      CallStep transport ei fuel mailbox result before (.gets message)
        { before with node := after }
  | works {before : Calling} {after : AutoNode} (spares : Spares mailbox before.node after) :
      CallStep transport ei fuel mailbox result before .works { before with node := after }
  | waits {before : Calling} {after : AutoNode} {call : OpenCall} (inside : before.call = some call)
      (ran : MailBox.rpc ei fuel call.timed false mailbox before.node = (.diverges, after)) :
      CallStep transport ei fuel mailbox result before (.waits call.number)
        { before with node := after, call := some { call with waited := true } }
  | ends {before : Calling} {after : AutoNode} {call : OpenCall} {expired : Bool}
      {outcome : RPCCall (Option ErlTerm)} (inside : before.call = some call)
      (expires : expired = true → call.timed = true ∧ call.waited = true)
      (ran : MailBox.rpc ei fuel call.timed expired mailbox before.node = (outcome, after))
      (alive : outcome ≠ .aborts) (done : outcome ≠ .diverges) :
      CallStep transport ei fuel mailbox result before (.ends call.number outcome)
        { before with node := after, call := none }

/-- The calls whose answers arrived, in order. -/
def arrivals (events : List CallEvent) : List Nat :=
  events.filterMap fun
    | .answers number => some number
    | _ => none

/-- The calls that came back with a term or with the error of the server, in order. -/
def served (events : List CallEvent) : List (Nat × RPCCall (Option ErlTerm)) :=
  events.filterMap fun
    | .ends number outcome => if outcome.answered then some (number, outcome) else none
    | _ => none

/-- A mailbox before its first call. No reply is in its queue. -/
structure Uncalled (result : Nat → ErlTerm) (mailbox : Nat) (state : Calling) : Prop where
  awaits : state.node.Awaits result mailbox []
  sent : state.sent = 0
  working : state.working = []
  call : state.call = none

/-- The calls and the answers make an exchange, and the answers that were not taken wait in the
mailbox. -/
structure Exchanges (result : Nat → ErlTerm) (mailbox : Nat) (events : List CallEvent)
    (state : Calling) : Prop where
  exchange : Exchange (fun owner outcome => outcome = rpcAnswer (result owner)) state.sent
    state.working (arrivals events) (served events)
  awaits : state.node.Awaits result mailbox ((arrivals events).drop (served events).length)
  earlier : ∀ question ∈ served events,
    question.1 < (state.call.map OpenCall.number).getD state.sent
  last : ∀ call, state.call = some call → call.number + 1 = state.sent

section Calls

variable {transport : Transport} {ei : Ei} {fuel mailbox : Nat} {result : Nat → ErlTerm}
  {events : List CallEvent} {event : CallEvent} {before after : Calling}

theorem arrivals_append (events : List CallEvent) (event : CallEvent) :
    arrivals (events ++ [event]) = arrivals events ++ arrivals [event] :=
  List.filterMap_append

theorem served_append (events : List CallEvent) (event : CallEvent) :
    served (events ++ [event]) = served events ++ served [event] :=
  List.filterMap_append

theorem rpcAnswer_answered (response : ErlTerm) : (rpcAnswer response).answered = true := by
  rw [rpcAnswer]
  cases badrpcReason response <;> rfl

/-- An event of no arrival and no answered call. -/
theorem Exchanges.silent (exchanges : Exchanges result mailbox events before)
    (arrives : arrivals [event] = []) (serves : served [event] = [])
    (awaits : before.node.Awaits result mailbox ((arrivals events).drop (served events).length) →
      after.node.Awaits result mailbox ((arrivals events).drop (served events).length))
    (sent : after.sent = before.sent) (working : after.working = before.working)
    (call : after.call.map OpenCall.number = before.call.map OpenCall.number) :
    Exchanges result mailbox (events ++ [event]) after := by
  have sameArrivals : arrivals (events ++ [event]) = arrivals events := by
    rw [arrivals_append, arrives, List.append_nil]
  have sameServed : served (events ++ [event]) = served events := by
    rw [served_append, serves, List.append_nil]
  constructor
  · rw [sameArrivals, sameServed, sent, working]
    exact exchanges.exchange
  · rw [sameArrivals, sameServed]
    exact awaits exchanges.awaits
  · rw [sameServed, call, sent]
    exact exchanges.earlier
  · intro opened inside
    rw [inside, Option.map_some] at call
    obtain ⟨old, known, number⟩ := Option.map_eq_some_iff.mp call.symm
    rw [sent, ← number]
    exact exchanges.last old known

/-- The end of a call that took an answer, or none. -/
theorem Exchanges.ends (exchanges : Exchanges result mailbox events before) {call : OpenCall}
    {outcome : RPCCall (Option ErlTerm)} {node : AutoNode} (inside : before.call = some call)
    (alive : outcome ≠ .aborts)
    (takes : Takes result mailbox ((arrivals events).drop (served events).length)
      (outcome, node)) :
    Exchanges result mailbox (events ++ [.ends call.number outcome])
      { before with node := node, call := none } := by
  have last := exchanges.last call inside
  have earlier : ∀ question ∈ served events, question.1 < call.number := by
    have known := exchanges.earlier
    rwa [inside] at known
  have sameArrivals : arrivals (events ++ [.ends call.number outcome]) = arrivals events := by
    rw [arrivals_append]
    exact List.append_nil _
  cases takes with
  | @answer owner rest after first awaits =>
      have newServed : served (events ++ [.ends call.number (rpcAnswer (result owner))]) =
          served events ++ [(call.number, rpcAnswer (result owner))] := by
        rw [served_append]
        simp only [served, List.filterMap_cons, rpcAnswer_answered, if_true, List.filterMap_nil]
      refine ⟨?_, ?_, ?_, fun opened none => by cases none⟩
      · rw [sameArrivals, newServed]
        exact exchanges.exchange.serve last earlier first rfl
      · rw [sameArrivals, newServed, Exchange.drop_served first]
        exact awaits
      · rw [newServed]
        intro question member
        have bound : question.1 < before.sent := by
          rcases List.mem_append.mp member with old | new
          · have smaller := earlier question old
            omega
          · cases List.mem_singleton.mp new
            omega
        exact bound
  | nothing unanswered awaits =>
      have sameServed : served (events ++ [.ends call.number outcome]) = served events := by
        rw [served_append]
        simp only [served, List.filterMap_cons, unanswered, Bool.false_eq_true, if_false,
          List.filterMap_nil, List.append_nil]
      refine ⟨?_, ?_, ?_, fun opened none => by cases none⟩
      · rw [sameArrivals, sameServed]
        exact exchanges.exchange
      · rw [sameArrivals, sameServed]
        exact awaits
      · rw [sameServed]
        intro question member
        have smaller := earlier question member
        have bound : question.1 < before.sent := by omega
        exact bound
  | aborts => exact absurd rfl alive

theorem Exchanges.step (deep : 4 ≤ fuel) (results : ∀ number, (result number).Matchable)
    (exchanges : Exchanges result mailbox events before)
    (taken : CallStep transport ei fuel mailbox result before event after) :
    Exchanges result mailbox (events ++ [event]) after := by
  have queueing := queueing_of_awaits exchanges.awaits
  cases taken with
  | @sends _ node nodename mod function args timed outside other ran =>
      have spares := @sendRPC_spares fuel mailbox before.node transport ei nodename mod function args
        queueing other
      rw [ran] at spares
      have sameArrivals : arrivals (events ++ [.sends before.sent]) = arrivals events := by
        rw [arrivals_append]
        exact List.append_nil _
      have sameServed : served (events ++ [.sends before.sent]) = served events := by
        rw [served_append]
        exact List.append_nil _
      refine ⟨?_, ?_, ?_, ?_⟩
      · rw [sameArrivals, sameServed]
        exact exchanges.exchange.ask
      · rw [sameArrivals, sameServed]
        exact Awaits.spares exchanges.awaits spares
      · have known := exchanges.earlier
        rw [outside] at known
        rw [sameServed]
        exact known
      · intro call opened
        cases opened
        rfl
  | @fails _ node nodename mod function args error outside other ran =>
      have spares := @sendRPC_spares fuel mailbox before.node transport ei nodename mod function args
        queueing other
      rw [ran] at spares
      exact exchanges.silent rfl rfl (fun awaits => Awaits.spares awaits spares) rfl rfl rfl
  | @answers _ node number object msg origin pending here found decoded ran =>
      have newArrivals : arrivals (events ++ [.answers number]) = arrivals events ++ [number] :=
        arrivals_append events _
      have sameServed : served (events ++ [.answers number]) = served events := by
        rw [served_append]
        exact List.append_nil _
      refine ⟨?_, ?_, ?_, exchanges.last⟩
      · rw [newArrivals, sameServed]
        exact exchanges.exchange.arrive pending
      · rw [newArrivals, sameServed, List.drop_append_of_le_length exchanges.exchange.length_le]
        exact deliver_awaits exchanges.awaits here found decoded ran
      · rw [sameServed]
        exact exchanges.earlier
  | @gets _ node message foreign ran =>
      exact exchanges.silent rfl rfl (fun awaits => onMailBox_awaits awaits foreign ran) rfl rfl rfl
  | works spares =>
      exact exchanges.silent rfl rfl (fun awaits => Awaits.spares awaits spares) rfl rfl rfl
  | @waits _ node call inside ran =>
      have takes := rpc_takes ei deep results exchanges.awaits call.timed false
      rw [ran] at takes
      refine exchanges.silent rfl rfl (fun awaits => ?_) rfl rfl (by rw [inside]; rfl)
      generalize outcome : (Outcome.diverges : RPCCall (Option ErlTerm)) = diverged at takes
      cases takes with
      | nothing unanswered awaits => exact awaits
      | answer first awaits =>
          rcases rpcAnswer_cases (result _) with returned | ⟨reason, thrown⟩
          · cases outcome.trans returned
          · cases outcome.trans thrown
      | aborts => cases outcome
  | @ends _ node call expired outcome inside expires ran alive done =>
      have takes := rpc_takes ei deep results exchanges.awaits call.timed expired
      rw [ran] at takes
      exact exchanges.ends inside alive takes

/-- An RPC call comes back with the answer to a call up to itself. The answers are taken in the order
of their arrival, each once, and a call whose predecessors all took an answer takes its own one. -/
theorem rpc_takes_arrivals (deep : 4 ≤ fuel) (results : ∀ number, (result number).Matchable)
    (run : Run (Uncalled result mailbox) (CallStep transport ei fuel mailbox result) events after) :
    (arrivals events).Nodup ∧
    List.Forall₂ (fun call owner => owner ≤ call.1 ∧ call.2 = rpcAnswer (result owner))
      (served events) ((arrivals events).take (served events).length) ∧
    ∀ number outcome, (number, outcome) ∈ served events →
      (∀ earlier < number, ∃ other, (earlier, other) ∈ served events) →
      outcome = rpcAnswer (result number) := by
  have exchanges : Exchanges result mailbox events after := by
    apply run.invariant
    · rintro state ⟨awaits, sent, working, call⟩
      refine ⟨?_, awaits, fun _ member => absurd member List.not_mem_nil, ?_⟩
      · rw [sent, working]
        exact .start _
      · intro opened inside
        rw [call] at inside
        cases inside
    · intro events state event later holds taken
      exact holds.step deep results taken
  exact ⟨exchanges.exchange.arrived_nodup, exchanges.exchange.taken, exchanges.exchange.own⟩

end Calls

/-- A network on which every node answers. -/
def callNetwork : Transport where
  connect name := .returns (name, [])
  sendEncoded _ _ _ := .returns ()
  sendRegEncoded _ _ _ _ := .returns ()

/-- The server answers with the number of the call. -/
def numberResult (number : Nat) : ErlTerm := .simple (.erlLong (some (.ofNat 64 number)))

/-- The request of `m:f()` at the node `c@d`. -/
def request : Method AutoNode Unit :=
  MailBox.sendRPC callNetwork externalFormat 5 0 (text "c@d") (text "m") (text "f")
    (some (.simple .erlEmptyList))

/-- A node with a mailbox and a connection to `c@d`. -/
def callingNode : AutoNode := firstCreated.connected (text "c@d") []

/-- The pid of its mailbox. -/
def callerPid : ErlPid := (callingNode.mailBoxes[0]?.map MailBox.mSelf).getD senderPid

/-- The answer to the first call. -/
def lateMessage : ErlangMessage := ⟨.plainBuffer .create, some (rexTuple (numberResult 0))⟩

def lateNode : AutoNode :=
  (callingNode.gained (.sendMessage lateMessage callerPid)).queued 0 0
    ⟨callerPid, some .node, ⟨[]⟩⟩

/-- The first call gives up before its answer arrives, and the second one has no timeout. -/
def lateEvents : List CallEvent :=
  [.sends 0, .waits 0, .ends 0 (.returns none), .sends 1, .answers 0,
    .ends 1 (.returns (some (numberResult 0)))]

theorem late_run : ∃ last, Run (Uncalled numberResult 0)
    (CallStep callNetwork externalFormat 5 0 numberResult) lateEvents last := by
  have other : firstCreated.getRegMailBox (text "rex") ≠ some 0 := by decide
  have still : callingNode.getRegMailBox (text "rex") ≠ some 0 := by decide
  have connects : request firstCreated = (.returns (), callingNode) := rfl
  have again : request callingNode = (.returns (), callingNode) := rfl
  have waits : MailBox.rpc externalFormat 5 true false 0 callingNode = (.diverges, callingNode) :=
    rfl
  have expires : MailBox.rpc externalFormat 5 true true 0 callingNode =
      (.returns none, callingNode) := rfl
  have delivers : AutoNode.deliver (.acceptor 0) 0
      (callingNode.gained (.sendMessage lateMessage callerPid)) = (.returns (), lateNode) := rfl
  have takes : MailBox.rpc externalFormat 5 false false 0 lateNode =
      (.returns (some (numberResult 0)), (MailBox.rpc externalFormat 5 false false 0 lateNode).2) :=
    rfl
  have decoded : lateMessage.mPayLoad = some (rexTuple (numberResult 0)) := rfl
  let Step := CallStep callNetwork externalFormat 5 0 numberResult
  have sent : Step ⟨firstCreated, 0, [], none⟩ (.sends 0)
      ⟨callingNode, 1, [0], some ⟨0, true, false⟩⟩ := .sends true rfl other connects
  have slept : Step ⟨callingNode, 1, [0], some ⟨0, true, false⟩⟩ (.waits 0)
      ⟨callingNode, 1, [0], some ⟨0, true, true⟩⟩ :=
    @CallStep.waits _ _ _ _ _ _ _ ⟨0, true, false⟩ rfl waits
  have gaveUp : Step ⟨callingNode, 1, [0], some ⟨0, true, true⟩⟩ (.ends 0 (.returns none))
      ⟨callingNode, 1, [0], none⟩ :=
    @CallStep.ends _ _ _ _ _ _ _ ⟨0, true, true⟩ true _ rfl (fun _ => ⟨rfl, rfl⟩) expires
      (by simp) (by simp)
  have called : Step ⟨callingNode, 1, [0], none⟩ (.sends 1)
      ⟨callingNode, 2, [0, 1], some ⟨1, false, false⟩⟩ := .sends false rfl still again
  have arrived : Step ⟨callingNode, 2, [0, 1], some ⟨1, false, false⟩⟩ (.answers 0)
      ⟨lateNode, 2, [1], some ⟨1, false, false⟩⟩ :=
    @CallStep.answers _ _ _ _ _ _ _ _ _ _ _ List.mem_cons_self rfl rfl decoded delivers
  have took : Step ⟨lateNode, 2, [1], some ⟨1, false, false⟩⟩
      (.ends 1 (.returns (some (numberResult 0))))
      ⟨(MailBox.rpc externalFormat 5 false false 0 lateNode).2, 2, [1], none⟩ :=
    @CallStep.ends _ _ _ _ _ _ _ ⟨1, false, false⟩ false _ rfl (by simp) takes (by simp) (by simp)
  have uncalled : Uncalled numberResult 0 ⟨firstCreated, 0, [], none⟩ :=
    ⟨⟨_, [], rfl, .nil, .nil, rfl⟩, rfl, rfl, rfl⟩
  exact ⟨_, (((((Run.start uncalled).step sent).step slept).step gaveUp).step called).step arrived
    |>.step took⟩

/-- The second call comes back with the answer to the first one. -/
theorem late_answer_taken : ∃ events last,
    Run (Uncalled numberResult 0) (CallStep callNetwork externalFormat 5 0 numberResult) events last ∧
    (1, rpcAnswer (numberResult 0)) ∈ served events ∧
    rpcAnswer (numberResult 0) ≠ rpcAnswer (numberResult 1) := by
  obtain ⟨last, run⟩ := late_run
  refine ⟨lateEvents, last, run, List.mem_cons_self, ?_⟩
  intro same
  cases same

theorem rpc_takes_arrivals_late :
    (arrivals lateEvents).Nodup ∧
    List.Forall₂ (fun call owner => owner ≤ call.1 ∧ call.2 = rpcAnswer (numberResult owner))
      (served lateEvents) ((arrivals lateEvents).take (served lateEvents).length) ∧
    ∀ number outcome, (number, outcome) ∈ served lateEvents →
      (∀ earlier < number, ∃ other, (earlier, other) ∈ served lateEvents) →
      outcome = rpcAnswer (numberResult number) := by
  obtain ⟨last, run⟩ := late_run
  exact rpc_takes_arrivals (by decide) (fun _ => ⟨rfl, rfl⟩) run

end Epi.Node
