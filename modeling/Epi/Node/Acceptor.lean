import Epi.Library.Run
import Epi.Node.Message

namespace Epi.Node

open Verification Epi.Type Epi.Buffer

/-- The kinds of messages that `ei_xreceive_msg_tmo` reports. -/
inductive MessageType where
  | erlLink
  | erlSend
  | erlExit
  | erlUnlink
  | erlRegSend
  | erlExit2
  | other (code : Nat)
  deriving DecidableEq, Repr

/-- `erlang_msg`. The character arrays hold C strings. -/
structure ErlangMsg where
  msgtype : MessageType
  fromPid : ErlangPid
  toPid : ErlangPid
  toname : Bytes
  cookie : Bytes
  deriving DecidableEq, Repr

/-- `EI2ErlPid` of a pid that is there. -/
def ei2ErlPid (pid : ErlangPid) : Call ErlPid :=
  ErlPid.init pid.node pid.num pid.serial pid.creation

/-- The reason of an exit message. The type of an absent term has no defined result. -/
def exitReason (ei : Ei) (fuel : Nat) (buffer : InputBuffer) : Call (Option AtomText) := do
  let t ← Call.catching .epiDecodeException
    (fun _ => .throws (.unknownMessage "Error decoding reason atom")) (buffer.readTerm ei fuel).1
  match t with
  | none => .aborts
  | some (.simple (.erlAtom mReason)) => .returns mReason
  | some _ => .throws (.unknownMessage "Error decoding reason atom")

/-- `ToMessage`. -/
def toMessage (ei : Ei) (fuel : Nat) (msg : ErlangMsg) (buffer : InputBuffer) : Call EpiMessage :=
  Call.throwsOnly [.epiUnknownMessageException] <|
    match msg.msgtype with
    | .erlSend => do
        let recipient ← ei2ErlPid msg.toPid
        let message ← ErlangMessage.create ei fuel buffer
        return .sendMessage message recipient
    | .erlRegSend => do
        let sender ← ei2ErlPid msg.fromPid
        let message ← ErlangMessage.create ei fuel buffer
        return .regSendMessage message sender msg.toname
    | .erlExit | .erlExit2 => do
        let reason ← exitReason ei fuel buffer
        let sender ← ei2ErlPid msg.fromPid
        let recipient ← ei2ErlPid msg.toPid
        return .exitMessage sender recipient reason
    | .erlLink => do
        let sender ← ei2ErlPid msg.fromPid
        let recipient ← ei2ErlPid msg.toPid
        return .linkMessage sender recipient
    | .erlUnlink => do
        let sender ← ei2ErlPid msg.fromPid
        let recipient ← ei2ErlPid msg.toPid
        return .unLinkMessage sender recipient
    | .other _ => .throws (.unknownMessage "Unknown message type received")

/-- The threads library, the error numbers and their texts. -/
structure Platform where
  useBoost : Bool
  eTimedOut : Nat
  eAgain : Nat
  eIO : Nat
  strerror : Nat → Bytes

/-- A result of `ei_xreceive_msg_tmo`. -/
inductive ReceiveResult where
  | erlTick
  | erlError (erlErrno : Nat)
  | erlMsg (msg : ErlangMsg) (buffer : EIInputBuffer)

/-- The polling loop goes on after ticks and timeouts. -/
def Platform.ignores (platform : Platform) : ReceiveResult → Bool
  | .erlTick => true
  | .erlError erlErrno =>
      erlErrno == platform.eTimedOut || erlErrno == platform.eAgain || erlErrno == 0
  | .erlMsg _ _ => false

/-- The message of an `EpiEIException`. -/
def Platform.eiException (platform : Platform) (msg : String) (eiErr : Nat) : EpiException :=
  ⟨.epiEIException, text msg ++ text " ERROR CODE=" ++ text (toString eiErr) ++ text "(" ++
    platform.strerror eiErr ++ text ")"⟩

/-- The variables of `EIMessageAcceptor::run`. A `break` counts as an exit, too. -/
structure EIMessageAcceptor where
  mThreadExit : Bool
  msgResult : Option EpiMessage

namespace EIMessageAcceptor

/-- An assignment to `msgResult`. -/
def assign (message : EpiMessage) : Method EIMessageAcceptor Unit := fun acceptor =>
  (.returns (), { acceptor with msgResult := some message })

/-- The `break`, or `stop()`. The `join` in it, of the thread that runs it, is taken to return. -/
def exit : Method EIMessageAcceptor Unit := fun acceptor =>
  (.returns (), { acceptor with mThreadExit := true })

/-- What `mConnection->deliver(this, msgResult)` gets. -/
def deliver : Method EIMessageAcceptor (List EpiMessage) := do
  let acceptor ← Effect.get
  match acceptor.msgResult with
  | some message => return [message]
  | none => Effect.lift .aborts

/-- The cookie check. It does not end the branch. -/
def checkCookie (mCookie : Bytes) (msg : ErlangMsg) : Method EIMessageAcceptor Unit :=
  if mCookie = msg.cookie then
    return ()
  else
    assign (.errorMessage (.auth (text "Cookies differ " ++ mCookie ++ text "!=" ++ msg.cookie)))

/-- The conversion. A failure becomes an error message of the base class. -/
def convert (ei : Ei) (fuel : Nat) (msg : ErlangMsg) (buffer : EIInputBuffer) :
    Method EIMessageAcceptor Unit := do
  let message ← Effect.lift <| Call.catching .epiConnectionException
    (fun error => .returns (.errorMessage (.connection error.mMsg)))
    (toMessage ei fuel msg (.eiInputBuffer buffer))
  assign message

/-- One pass of the loop, and what it delivers. -/
def pass (platform : Platform) (ei : Ei) (fuel : Nat) (mCookie : Bytes) (result : ReceiveResult) :
    Method EIMessageAcceptor (List EpiMessage) := do
  if platform.ignores result then
    return []
  else
    match result with
    | .erlTick => return []
    | .erlError erlErrno => do
        assign (.errorMessage (platform.eiException "Error in receive" erlErrno))
        if erlErrno = platform.eIO then do
          exit
          if platform.useBoost then return [] else deliver
        else
          deliver
    | .erlMsg msg buffer => do
        checkCookie mCookie msg
        convert ei fuel msg buffer
        deliver

/-- The thread starts its loop. -/
def Started (acceptor : EIMessageAcceptor) : Prop := acceptor = ⟨false, none⟩

end EIMessageAcceptor

/-- A received result and the messages that its pass delivers. -/
structure AcceptorEvent where
  result : ReceiveResult
  delivered : List EpiMessage

/-- The passes of a running thread. A pass that does not come back delivers nothing and is the last
one. -/
inductive AcceptorStep (platform : Platform) (ei : Ei) (fuel : Nat) (mCookie : Bytes) :
    Transition EIMessageAcceptor AcceptorEvent
  | passes {before after : EIMessageAcceptor} {result : ReceiveResult} {delivered : List EpiMessage}
      (running : before.mThreadExit = false)
      (ran : EIMessageAcceptor.pass platform ei fuel mCookie result before =
        (.returns delivered, after)) :
      AcceptorStep platform ei fuel mCookie before ⟨result, delivered⟩ after
  | crashes {before after : EIMessageAcceptor} {result : ReceiveResult}
      (running : before.mThreadExit = false)
      (crashed : ∀ delivered state, EIMessageAcceptor.pass platform ei fuel mCookie result before ≠
        (.returns delivered, state))
      (ended : after = { before with mThreadExit := true }) :
      AcceptorStep platform ei fuel mCookie before ⟨result, []⟩ after

end Epi.Node
