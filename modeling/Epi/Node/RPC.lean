import Epi.Node.Receive
import Epi.Node.Sending

namespace Epi.Node

open Verification Epi.Type Epi.Buffer Epi.Queue

/-- The exceptions of an RPC call. An `EpiBadRPC` holds the error term. -/
inductive RPCException where
  | epiException (error : EpiException)
  | epiBadRPC (mError : ErlTerm)
  deriving Repr

abbrev RPCCall := Outcome RPCException

abbrev RPCMethod (Object Value : Type) := Effect Object RPCException Value

namespace RPCCall

/-- A call that does not know `EpiBadRPC`. -/
def ofCall {Value : Type} : Call Value → RPCCall Value
  | .returns value => .returns value
  | .throws error => .throws (.epiException error)
  | .aborts => .aborts
  | .diverges => .diverges

/-- The specification lists other classes, and `EpiBadRPC` or not. -/
def throwsOnly {Value : Type} (listed : List ExceptionClass) (badRPC : Bool)
    (call : RPCCall Value) : RPCCall Value :=
  call.declares fun
    | .epiException error => listed.any error.thrownClass.isA
    | .epiBadRPC _ => badRPC

end RPCCall

namespace RPCMethod

def ofMethod {Object Value : Type} (call : Method Object Value) : RPCMethod Object Value :=
  fun object => (RPCCall.ofCall (call object).1, (call object).2)

def throwsOnly {Object Value : Type} (listed : List ExceptionClass) (badRPC : Bool)
    (call : RPCMethod Object Value) : RPCMethod Object Value :=
  Effect.mapOutcome (RPCCall.throwsOnly listed badRPC) call

end RPCMethod

def rexName : AtomText := ⟨text "rex", by decide, by decide⟩

def badrpcName : AtomText := ⟨text "badrpc", by decide, by decide⟩

def callName : AtomText := ⟨text "call", by decide, by decide⟩

def userName : AtomText := ⟨text "user", by decide, by decide⟩

def atomTerm (name : AtomText) : ErlTerm := .simple (.erlAtom (some name))

/-- The tuple of two elements. -/
def pairTerm (first second : ErlTerm) : ErlTerm := .erlTuple true (some 2) [first, second]

/-- `{rex, Result}`. -/
def rexTuple (response : ErlTerm) : ErlTerm := pairTerm (atomTerm rexName) response

/-- `{rex, _}`. -/
def rexPattern : ErlTerm := rexTuple (.erlVariable anonymous)

/-- `{rex, {badrpc, Reason}}`. -/
def badrpcPattern : ErlTerm :=
  rexTuple (pairTerm (atomTerm badrpcName) (.erlVariable (text "Reason")))

/-- The loop over the elements of a new tuple. -/
def initElements : List (Option ErlTerm) → Method ErlTuple Unit
  | [] => pure ()
  | elem :: rest => do
      ErlTuple.initElement elem
      initElements rest

/-- The constructors with elements. What their handlers drop is not thrown for a new tuple. -/
def tupleOf (elems : List (Option ErlTerm)) : Call ErlTerm :=
  let (outcome, tuple) := initElements elems (ErlTuple.ofArity elems.length)
  outcome >>= fun _ => .returns tuple.toTerm

namespace MailBox

/-- `MailBox::sendRPC`. The request is sent as any other term. -/
def sendRPC (transport : Transport) (ei : Ei) (fuel : Nat) (mailbox : Nat)
    (nodename mod function : Bytes) (args : Option ErlTerm) : Method AutoNode Unit :=
  Method.throwsOnly [.epiBadArgument, .epiInvalidTerm, .epiEncodeException,
    .epiConnectionException] do
    let modAtom ← Effect.lift (AtomText.init mod)
    let funAtom ← Effect.lift (AtomText.init function)
    let node ← Effect.get
    match node.mailBoxes[mailbox]? with
    | none => Effect.lift .aborts
    | some object => do
        let inner ← Effect.lift (tupleOf [some (atomTerm callName), some (atomTerm modAtom),
          some (atomTerm funAtom), args, some (atomTerm userName)])
        let execTuple ← Effect.lift
          (tupleOf [some (.simple (.erlPid (some object.mSelf))), some inner])
        sendTo transport ei fuel mailbox nodename (text "rex") (some execTuple)

/-- What `receiveRPC` makes of a received tuple. -/
def rpcResponse (fuel : Nat) (rex : ErlTerm) : RPCCall (Option ErlTerm) :=
  match rex.matchPattern fuel badrpcPattern (some .empty) with
  | (.returns true, binding) =>
      match binding.bind fun binding => binding.search (text "Reason") with
      | some error => .throws (.epiBadRPC error)
      | none => .aborts
  | (.returns false, _) =>
      match rex with
      | .erlTuple mInitialized mArity mElementVector =>
          RPCCall.ofCall do
            let response ← ErlTuple.elementAt ⟨mInitialized, mArity, mElementVector⟩ 1
            return some response
      | _ => .aborts
  | (.throws error, _) => .throws (.epiException error)
  | (.aborts, _) => .aborts
  | (.diverges, _) => .diverges

/-- `MailBox::receive` of a pattern with a timeout. It makes the passes of the other one, and after
the timeout it hands out the null pointer. -/
def receiveTimed (ei : Ei) (fuel : Nat) (expired : Bool) (pattern : ErlTerm) :
    Method Receiving (Option ErlTerm) :=
  if expired then return none else receive ei fuel pattern

/-- `MailBox::receiveRPC`, up to the next wait. -/
def receiveRPC (ei : Ei) (fuel : Nat) (mailbox : Nat) : RPCMethod AutoNode (Option ErlTerm) :=
  RPCMethod.throwsOnly [.epiConnectionException] true do
    let rex ← RPCMethod.ofMethod (AutoNode.onReceiving mailbox (receive ei fuel rexPattern))
    match rex with
    | none => Effect.lift .aborts
    | some rex => Effect.lift (rpcResponse fuel rex)

/-- `MailBox::receiveRPC` with a timeout, up to the next wait. -/
def receiveRPCTimed (ei : Ei) (fuel : Nat) (expired : Bool) (mailbox : Nat) :
    RPCMethod AutoNode (Option ErlTerm) :=
  RPCMethod.throwsOnly [.epiConnectionException] true do
    let rex ← RPCMethod.ofMethod
      (AutoNode.onReceiving mailbox (receiveTimed ei fuel expired rexPattern))
    match rex with
    | none => return none
    | some rex => Effect.lift (rpcResponse fuel rex)

/-- `MailBox::RPC` behind its `sendRPC`. Only the overload without a timeout lists `EpiBadRPC`. -/
def rpc (ei : Ei) (fuel : Nat) (timed expired : Bool) (mailbox : Nat) :
    RPCMethod AutoNode (Option ErlTerm) :=
  RPCMethod.throwsOnly [.epiBadArgument, .epiInvalidTerm, .epiEncodeException,
    .epiConnectionException] (!timed)
    (if timed then receiveRPCTimed ei fuel expired mailbox else receiveRPC ei fuel mailbox)

end MailBox

/-- The reason in `{badrpc, Reason}`. -/
def badrpcReason : ErlTerm → Option ErlTerm
  | .erlTuple true _ [.simple (.erlAtom (some name)), reason] =>
      if name = badrpcName then some reason else none
  | _ => none

/-- What a call should come back with for a result of the server. -/
def rpcAnswer (result : ErlTerm) : RPCCall (Option ErlTerm) :=
  match badrpcReason result with
  | some reason => .throws (.epiBadRPC reason)
  | none => .returns (some result)

section Pairs

variable {fuel : Nat} {first second third fourth term : ErlTerm}

/-- Two pairs are matched in order. -/
theorem internalMatch_pair {same : Bool}
    (compared : first.internalMatch fuel third = pure same) :
    (pairTerm first second).internalMatch (fuel + 1) (pairTerm third fourth) =
      if same then
        Method.throwsOnly [.epiVariableUnbound]
          (Effect.mapOutcome (Call.catching .epiInvalidTerm fun _ => .returns false)
            (second.internalMatch fuel fourth))
      else pure false := by
  have elements : matchElements (ErlTerm.internalMatch fuel) [first, second] [third, fourth] =
      if same then second.internalMatch fuel fourth else pure false := by
    rw [matchElements, compared]
    cases same with
    | true => exact answer_eq (second.internalMatch fuel fourth)
    | false => rfl
  have whole := ErlTuple.internalMatch_complete (ErlTerm.internalMatch fuel) [first, second]
    [third, fourth]
  have size : [first, second].length = [third, fourth].length := rfl
  rw [if_pos size, elements] at whole
  rw [pairTerm, pairTerm, ErlTerm.internalMatch]
  refine (congrArg _ whole).trans ?_
  cases same <;> rfl

theorem equals_atomTerm {name : AtomText} {term : ErlTerm} :
    (atomTerm name).equals term = true ↔ term = atomTerm name := by
  constructor
  · intro same
    cases term with
    | simple value =>
        rw [atomTerm, ErlTerm.equals_simple] at same
        cases value with
        | erlAtom mAtom =>
            cases mAtom with
            | none => cases same
            | some other =>
                have equal : name = other := of_decide_eq_true same
                rw [equal, atomTerm]
        | _ => cases same
    | _ => cases same
  · rintro rfl
    rw [atomTerm, ErlTerm.equals_simple]
    exact decide_eq_true rfl

/-- A pair without variables. -/
theorem pair_or_other (matchable : term.Matchable) :
    (∃ first second, term = pairTerm first second ∧ first.Matchable ∧ second.Matchable) ∨
    (∀ first second, term ≠ pairTerm first second) ∧
      (∀ third fourth, (pairTerm third fourth).internalMatch (fuel + 1) term = pure false) ∧
      (∀ third fourth, term.internalMatch (fuel + 1) (pairTerm third fourth) = pure false) := by
  cases term with
  | erlTuple mInitialized mArity elems =>
      obtain ⟨flag, size, -⟩ := ErlTerm.valid_erlTuple.mp matchable.2
      subst flag size
      have parts : ∀ part ∈ elems, part.Matchable := ErlTerm.matchable_hereditary _ matchable
      match elems with
      | [first, second] =>
          exact .inl ⟨first, second, rfl, parts first (by simp), parts second (by simp)⟩
      | [] => exact .inr ⟨by simp [pairTerm], fun _ _ => rfl, fun _ _ => rfl⟩
      | [only] => exact .inr ⟨by simp [pairTerm], fun _ _ => rfl, fun _ _ => rfl⟩
      | first :: second :: third :: rest =>
          exact .inr ⟨by simp [pairTerm], fun _ _ => rfl, fun _ _ => rfl⟩
  | erlVariable mName => exact absurd matchable.not_variable (by simp [ErlTerm.isVariable])
  | simple value =>
      have flag : value.isValid = true := matchable.2.isValid
      refine .inr ⟨by simp [pairTerm], fun _ _ => ?_, fun _ _ => ?_⟩
      · cases value <;> rfl
      · rw [ErlTerm.internalMatch]; simp only [SimpleTerm.internalMatch, flag]; rfl
  | erlConsList mInitialized elems =>
      have flag : mInitialized = true := matchable.2.isValid
      subst flag
      exact .inr ⟨by simp [pairTerm], fun _ _ => rfl, fun _ _ => rfl⟩

/-- The pattern of the calls accepts the replies of the server and nothing else. -/
theorem rexPattern_matches (matchable : term.Matchable) (deep : 4 ≤ fuel) :
    (∃ response, term = rexTuple response) ∧
        rexPattern.matchPattern fuel term none = (.returns true, none) ∨
      (∀ response, term ≠ rexTuple response) ∧
        rexPattern.matchPattern fuel term none = (.returns false, none) := by
  obtain ⟨fuel, rfl⟩ : ∃ rest, fuel = rest + 4 := ⟨fuel - 4, by omega⟩
  rcases @pair_or_other (fuel + 3) _ matchable with
    ⟨first, second, rfl, firstMatchable, -⟩ | ⟨other, refused, -⟩
  · have compared : (atomTerm rexName).internalMatch (fuel + 3) first =
        pure ((atomTerm rexName).equals first) :=
      simple_internalMatch rfl firstMatchable (fuel + 2)
    by_cases same : (atomTerm rexName).equals first = true
    · obtain rfl := equals_atomTerm.mp same
      exact .inl ⟨⟨second, rfl⟩, rfl⟩
    · rw [Bool.not_eq_true] at same
      rw [same] at compared
      have ran := @internalMatch_pair (fuel + 3) _ (.erlVariable anonymous) _ second _ compared
      refine .inr ⟨?_, ?_⟩
      · intro response equal
        have head : first = atomTerm rexName := by
          simp only [pairTerm, rexTuple, ErlTerm.erlTuple.injEq, List.cons.injEq] at equal
          exact equal.2.2.1
        rw [equals_atomTerm.mpr head] at same
        cases same
      · rw [ErlTerm.matchPattern, Method.throwsOnly, Effect.mapOutcome_run, ErlTerm.onCopy]
        have whole : rexPattern.internalMatch (fuel + 4) (pairTerm first second) = pure false := ran
        simp only [whole]
        rfl
  · have whole : rexPattern.internalMatch (fuel + 4) term = pure false := refused _ _
    refine .inr ⟨fun response => other _ _, ?_⟩
    rw [ErlTerm.matchPattern, Method.throwsOnly, Effect.mapOutcome_run, ErlTerm.onCopy]
    simp only [whole]
    rfl

theorem badrpcReason_eq_some {reason : ErlTerm} (known : badrpcReason term = some reason) :
    ∃ mArity, term = .erlTuple true mArity [atomTerm badrpcName, reason] := by
  unfold badrpcReason at known
  split at known
  · rename_i mArity name other
    split at known
    · rename_i same
      cases known
      exact ⟨mArity, by rw [same, atomTerm]⟩
    · cases known
  · cases known

theorem badrpcReason_eq_none
    (other : ∀ mArity reason, term ≠ .erlTuple true mArity [atomTerm badrpcName, reason]) :
    badrpcReason term = none := by
  cases known : badrpcReason term with
  | none => rfl
  | some reason =>
      obtain ⟨mArity, same⟩ := badrpcReason_eq_some known
      exact absurd same (other mArity reason)

theorem badrpcReason_pair (reason : ErlTerm) :
    badrpcReason (pairTerm (atomTerm badrpcName) reason) = some reason := rfl

/-- The pattern of an error takes the reason out. -/
theorem badrpc_internalMatch (matchable : term.Matchable) (fuel : Nat) :
    term.internalMatch (fuel + 3)
        (pairTerm (atomTerm badrpcName) (.erlVariable (text "Reason"))) .empty =
      match badrpcReason term with
      | some reason => (.returns true, VariableBinding.bind .empty (text "Reason") reason)
      | none => (.returns false, .empty) := by
  rcases @pair_or_other (fuel + 2) _ matchable with
    ⟨first, second, rfl, firstMatchable, secondMatchable⟩ | ⟨other, -, refused⟩
  · have compared : first.internalMatch (fuel + 2) (atomTerm badrpcName) =
        pure ((atomTerm badrpcName).equals first) :=
      internalMatch_simple rfl firstMatchable (fuel + 1)
    rw [internalMatch_pair compared]
    by_cases same : (atomTerm badrpcName).equals first = true
    · obtain rfl := equals_atomTerm.mp same
      obtain ⟨kept, substituted⟩ :=
        ErlTerm.subst_ground secondMatchable.2 secondMatchable.1 (some VariableBinding.empty)
      have bound : (ErlTerm.erlVariable (text "Reason")).internalMatch (fuel + 1) second
          .empty = (.returns true, VariableBinding.bind .empty (text "Reason") second) := by
        rw [ErlTerm.internalMatch, Method.throwsOnly, Effect.mapOutcome_run,
          ErlVariable.internalMatch, if_neg (by decide), Effect.bind_run, Effect.get_run]
        simp only [VariableBinding.search_empty, substituted]
        rfl
      rw [if_pos same, internalMatch_variable secondMatchable, badrpcReason_pair]
      simp only [Method.throwsOnly, Effect.mapOutcome_run, bound]
      rfl
    · have none : badrpcReason (pairTerm first second) = none := by
        apply badrpcReason_eq_none
        intro mArity reason equal
        simp only [pairTerm, ErlTerm.erlTuple.injEq, List.cons.injEq] at equal
        exact same (equals_atomTerm.mpr equal.2.2.1)
      rw [if_neg same, none]
      rfl
  · have none : badrpcReason term = none := by
      apply badrpcReason_eq_none
      rintro mArity reason rfl
      obtain ⟨-, size, -⟩ := ErlTerm.valid_erlTuple.mp matchable.2
      subst size
      exact other _ _ rfl
    rw [refused, none]
    rfl

theorem rpcResponse_rexTuple (matchable : term.Matchable) (deep : 4 ≤ fuel) :
    MailBox.rpcResponse fuel (rexTuple term) = rpcAnswer term := by
  obtain ⟨fuel, rfl⟩ : ∃ rest, fuel = rest + 4 := ⟨fuel - 4, by omega⟩
  have compared : (atomTerm rexName).internalMatch (fuel + 3) (atomTerm rexName) = pure true := rfl
  have ran := @internalMatch_pair (fuel + 3) _ term _
    (pairTerm (atomTerm badrpcName) (.erlVariable (text "Reason"))) _ compared
  have inner := badrpc_internalMatch matchable fuel
  have whole : (rexTuple term).internalMatch (fuel + 4) badrpcPattern .empty = _ :=
    congrFun ran .empty
  rw [if_pos rfl, Method.throwsOnly, Effect.mapOutcome_run, Effect.mapOutcome_run, inner] at whole
  unfold MailBox.rpcResponse
  rw [ErlTerm.matchPattern, Method.throwsOnly, Effect.mapOutcome_run, ErlTerm.onCopy, rpcAnswer]
  simp only [Option.getD_some]
  rw [whole]
  cases known : badrpcReason term with
  | none => rfl
  | some reason =>
      have found : (VariableBinding.merge .empty
          (VariableBinding.bind .empty (text "Reason") reason)).search (text "Reason") =
            some reason := by
        rw [VariableBinding.search_merge, VariableBinding.search_bind,
          VariableBinding.search_empty, if_pos rfl]
        rfl
      simp only [Call.throwsOnly_returns, Call.catching_returns, Option.map_some,
        Option.bind_some, found]
end Pairs

end Epi.Node
