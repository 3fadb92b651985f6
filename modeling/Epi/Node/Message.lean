import Epi.Buffer.InputBuffer
import Epi.Buffer.PlainBuffer

namespace Epi.Node

open Verification Epi.Type Epi.Buffer

/-- An input buffer of one of the two classes. -/
inductive InputBuffer where
  | eiInputBuffer (buffer : EIInputBuffer)
  | plainBuffer (buffer : PlainBuffer)

namespace InputBuffer

/-- The virtual method `readTerm`. -/
def readTerm (ei : Ei) (fuel : Nat) : Method InputBuffer (Option ErlTerm)
  | .eiInputBuffer buffer =>
      let (outcome, after) := EIInputBuffer.readTerm ei fuel buffer
      (outcome, .eiInputBuffer after)
  | .plainBuffer buffer =>
      let (outcome, after) := PlainBuffer.readTerm buffer
      (outcome, .plainBuffer after)

/-- The virtual method `resetIndex`. In an `EIInputBuffer` it sets the index of the received bytes,
which no read looks at, and leaves `mDecodeIndex` where it is. -/
def resetIndex : InputBuffer → InputBuffer
  | .eiInputBuffer buffer => .eiInputBuffer buffer
  | .plainBuffer buffer => .plainBuffer { buffer with mDecodeIndex := 0 }

end InputBuffer

/-- An `ErlangMessage`. The payload is absent until it is decoded. -/
structure ErlangMessage where
  mBuffer : InputBuffer
  mPayLoad : Option ErlTerm

namespace ErlangMessage

/-- The decoding in `getMsg`. The handler throws a copy of the base class. -/
def decodeMsg (ei : Ei) (fuel : Nat) : Method ErlangMessage (Option ErlTerm) := fun msg =>
  match msg.mBuffer.readTerm ei fuel with
  | (.returns payload, read) =>
      (.returns payload, { mBuffer := read.resetIndex, mPayLoad := payload })
  | (.throws error, read) =>
      if error.thrownClass.isA .epiDecodeException then
        (.throws (.decode error.mMsg), { msg with mBuffer := read.resetIndex })
      else
        (.throws error, { msg with mBuffer := read })
  | (.aborts, read) => (.aborts, { msg with mBuffer := read })
  | (.diverges, read) => (.diverges, { msg with mBuffer := read })

/-- `ErlangMessage::getMsg`. -/
def getMsg (ei : Ei) (fuel : Nat) : Method ErlangMessage (Option ErlTerm) :=
  Method.throwsOnly [.epiDecodeException] do
    let msg ← Effect.get
    match msg.mPayLoad with
    | some payload => return some payload
    | none => decodeMsg ei fuel

/-- The constructor decodes the buffer, and it drops a failure. -/
def create (ei : Ei) (fuel : Nat) (buffer : InputBuffer) : Call ErlangMessage :=
  match getMsg ei fuel ⟨buffer, none⟩ with
  | (outcome, msg) =>
      Call.catching .epiDecodeException (fun _ => .returns msg) (outcome >>= fun _ => .returns msg)

/-- A decoded payload is handed out again. -/
theorem getMsg_decoded (ei : Ei) (fuel : Nat) {msg : ErlangMessage} {payload : ErlTerm}
    (decoded : msg.mPayLoad = some payload) :
    getMsg ei fuel msg = (.returns (some payload), msg) := by
  simp only [getMsg, Method.throwsOnly, Effect.mapOutcome_run, Effect.bind_run, Effect.get_run,
    decoded, Effect.pure_run, Call.throwsOnly_returns]

end ErlangMessage

inductive EpiMessageType where
  | errorMsg
  | erlangMsg
  | sendMsg
  | regSendMsg
  | controlMsg
  | unlinkMsg
  | linkMsg
  | exitMsg
  deriving DecidableEq, Repr

/-- A message of one of the classes below `EpiMessage`. -/
inductive EpiMessage where
  | errorMessage (mException : EpiException)
  | sendMessage (msg : ErlangMessage) (mRecipient : ErlPid)
  | regSendMessage (msg : ErlangMessage) (mSender : ErlPid) (mRecipient : Bytes)
  | linkMessage (mSender mRecipient : ErlPid)
  | unLinkMessage (mSender mRecipient : ErlPid)
  | exitMessage (mSender mRecipient : ErlPid) (mReason : Option AtomText)

namespace EpiMessage

def messageType : EpiMessage → EpiMessageType
  | .errorMessage _ => .errorMsg
  | .sendMessage _ _ => .sendMsg
  | .regSendMessage _ _ _ => .regSendMsg
  | .linkMessage _ _ => .linkMsg
  | .unLinkMessage _ _ => .unlinkMsg
  | .exitMessage _ _ _ => .exitMsg

/-- A message answers to its own type and to the type of its base class. -/
def instanceOf (message : EpiMessage) (type : EpiMessageType) : Bool :=
  message.messageType == type ||
    match message with
    | .errorMessage _ => false
    | .sendMessage _ _ | .regSendMessage _ _ _ => type == .erlangMsg
    | .linkMessage _ _ | .unLinkMessage _ _ | .exitMessage _ _ _ => type == .controlMsg

end EpiMessage

end Epi.Node
