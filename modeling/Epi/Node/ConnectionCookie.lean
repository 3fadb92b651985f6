import Epi.Node.AutoNode
import Epi.Node.Acceptor
import Epi.Node.Name

namespace Epi.Node

open Verification Epi.Type Epi.Buffer

/-- `MAX_COOKIE_SIZE`. -/
def maxCookieSize : Nat := 512

/-- `ei_cnode`: the array of its cookie and the other fields. -/
structure EiCNode (Fields : Type) (size : Nat) where
  fields : Fields
  eiConnectCookie : Vector UInt8 size

/-- The error numbers of `do_connect`. -/
structure ConnectPlatform extends Platform where
  eHostUnreach : Nat
  eConnRefused : Nat

/-- The calls of the EI library and of the socket. A failure has an error number. -/
structure EiConnect (Fields : Type) (size : Nat) where
  eiConnect : EiCNode Fields size → Bytes → Except Nat Nat
  eiAcceptTmo : EiCNode Fields size → Int → Except Nat (Bytes × Nat)
  listen : Bool

/-- An `EITransport`, and the nodes with which the library was called. -/
structure EITransportObject (Fields : Type) (size : Nat) where
  ec : EiCNode Fields size
  mListening : Bool
  handshakes : List (EiCNode Fields size)

variable {Fields : Type} {size : Nat}

namespace EiCNode

/-- The string in the array. -/
def cookie (ec : EiCNode Fields size) : Bytes := cString ec.eiConnectCookie.toList

/-- The string that is made of the array, which must have an end. -/
def cookieString (ec : EiCNode Fields size) : Call Bytes :=
  if 0 ∈ ec.eiConnectCookie.toList then .returns ec.cookie else .aborts

/-- The array after a `memcpy` to its start. -/
def overwrite (ec : EiCNode Fields size) (newCookie : Bytes) : EiCNode Fields size :=
  { ec with eiConnectCookie := Vector.ofFn fun index =>
      newCookie[index.val]?.getD ec.eiConnectCookie[index] }

/-- `EiCNodeChangeCookie`. The length of the new cookie does not count its terminator. A copy beyond
the array has no defined result. -/
def changeCookie (ec : EiCNode Fields size) (newCookie : Bytes) : Call (EiCNode Fields size) :=
  if newCookie.length ≤ size then .returns (ec.overwrite newCookie) else .aborts

end EiCNode

/-- The error of a connection that failed. -/
def ConnectPlatform.connectError (platform : ConnectPlatform) (erlErrno : Nat) : EpiException :=
  if erlErrno = platform.eHostUnreach then
    ⟨.epiNetworkException, text "Can not connect: host is unreachable"⟩
  else if erlErrno = platform.eIO then
    ⟨.epiNetworkException, text "Can not connect: network error"⟩
  else if erlErrno = platform.eConnRefused then
    ⟨.epiNetworkException, text "Can not connect: no body in other side"⟩
  else
    ⟨.epiNetworkException, text "Can not connect"⟩

namespace EITransportObject

/-- The library is called with this node. -/
def handshake (otherEc : EiCNode Fields size) : Method (EITransportObject Fields size) Unit :=
  fun transport =>
    (.returns (), { transport with handshakes := transport.handshakes ++ [otherEc] })

/-- A new `EIConnection` and its socket. -/
def newConnection (otherEc : EiCNode Fields size) (node : Bytes) (newSock : Nat) :
    Call (EIConnection × Nat) := do
  let peer ← AbstractNode.initNodeName node
  let cookie ← otherEc.cookieString
  return (⟨peer.mNodeName, cookie, none, none⟩, newSock)

/-- `EITransport::do_connect`. -/
def doConnect (platform : ConnectPlatform) (library : EiConnect Fields size)
    (otherEc : EiCNode Fields size) (node : Bytes) :
    Method (EITransportObject Fields size) (Option (EIConnection × Nat)) :=
  Method.throwsOnly [.epiConnectionException] do
    handshake otherEc
    match library.eiConnect otherEc node with
    | .error erlErrno => Effect.fail (platform.connectError erlErrno)
    | .ok newSock => do
        let connection ← Effect.lift (newConnection otherEc node newSock)
        return some connection

/-- `EITransport::setListening`. -/
def setListening (library : EiConnect Fields size) : Method (EITransportObject Fields size) Unit :=
  Method.throwsOnly [.epiNetworkException] do
    let transport ← Effect.get
    if transport.mListening then
      return ()
    else if library.listen then
      Effect.set { transport with mListening := true }
    else
      Effect.fail ⟨.epiNetworkException, text "Error opening port for listen"⟩

/-- `EITransport::do_accept`. A timeout gives no connection. -/
def doAccept (platform : ConnectPlatform) (library : EiConnect Fields size)
    (otherEc : EiCNode Fields size) (timeout : Int) :
    Method (EITransportObject Fields size) (Option (EIConnection × Nat)) :=
  Method.throwsOnly [.epiConnectionException] do
    setListening library
    handshake otherEc
    match library.eiAcceptTmo otherEc timeout with
    | .error erlErrno =>
        if erlErrno = platform.eTimedOut || erlErrno = 0 then
          return none
        else
          Effect.fail (platform.eiException "Error accepting connection" erlErrno)
    | .ok (nodename, newSock) => do
        let connection ← Effect.lift (newConnection otherEc nodename newSock)
        return some connection

/-- `EITransport::connect` with a cookie. The changed copy is not the node that is passed on. -/
def connect (platform : ConnectPlatform) (library : EiConnect Fields size)
    (node cookie : Bytes) : Method (EITransportObject Fields size) (Option (EIConnection × Nat)) :=
  Method.throwsOnly [.epiConnectionException] do
    let transport ← Effect.get
    let _newEc ← Effect.lift (transport.ec.changeCookie cookie)
    doConnect platform library transport.ec node

/-- `EITransport::accept` with a cookie. -/
def accept (platform : ConnectPlatform) (library : EiConnect Fields size)
    (cookie : Bytes) (timeout : Int) :
    Method (EITransportObject Fields size) (Option (EIConnection × Nat)) :=
  Method.throwsOnly [.epiConnectionException] do
    let transport ← Effect.get
    let newEc ← Effect.lift (transport.ec.changeCookie cookie)
    doAccept platform library newEc timeout

end EITransportObject

/-- A call uses the cookie `c` alone: the library gets a node with it, a connection that comes back
has it, and the own node of the transport keeps `c0`. -/
structure CookieExact (c0 c : Bytes) (before : EITransportObject Fields size)
    (called : Call (Option (EIConnection × Nat)) × EITransportObject Fields size) : Prop where
  handshakes : ∀ ec ∈ called.2.handshakes.drop before.handshakes.length, ec.cookie = c
  connection : ∀ connection newSock, called.1 = .returns (some (connection, newSock)) →
    connection.mCookie = c
  own : called.2.ec.cookie = c0

section Cookies

variable {ec otherEc : EiCNode Fields size} {c c0 node : Bytes}
  {transport : EITransportObject Fields size}
  {platform : ConnectPlatform} {library : EiConnect Fields size} {timeout : Int}

/-- The copy replaces the start of the array. -/
theorem overwrite_toList (ec : EiCNode Fields size) (fits : c.length ≤ size) :
    (ec.overwrite c).eiConnectCookie.toList = c ++ ec.eiConnectCookie.toList.drop c.length := by
  apply List.ext_getElem
  · simp only [Vector.length_toList, List.length_append, List.length_drop]
    omega
  · intro index inside _
    simp only [EiCNode.overwrite, Vector.toList_ofFn, List.getElem_ofFn]
    by_cases early : index < c.length
    · rw [List.getElem_append_left early, List.getElem?_eq_getElem early, Option.getD_some]
    · have late : c.length ≤ index := Nat.le_of_not_lt early
      rw [List.getElem_append_right late, List.getElem?_eq_none late, Option.getD_none]
      simp [Nat.add_sub_cancel' late]

/-- A string with more characters behind it reads as itself only if there are none. -/
theorem cString_append (bare : 0 ∉ c) (rest : Bytes) : cString (c ++ rest) = c ++ cString rest := by
  apply List.takeWhile_append_of_pos
  intro byte member
  exact bne_iff_ne.mpr fun zero => bare (zero ▸ member)

/-- The copy makes the string exactly where the array has an end behind it. -/
theorem overwrite_cookie_iff (bare : 0 ∉ c) (fits : c.length < size) :
    (ec.overwrite c).cookie = c ↔ ec.eiConnectCookie.toList[c.length]? = some 0 := by
  have inside : c.length < ec.eiConnectCookie.toList.length := by simpa using fits
  rw [EiCNode.cookie, overwrite_toList ec fits.le, cString_append bare, List.append_right_eq_self,
    List.drop_eq_getElem_cons inside, List.getElem?_eq_getElem inside, Option.some.injEq, cString,
    List.takeWhile_cons]
  simp

/-- A new cookie that is shorter than the one in the array keeps its tail. -/
theorem overwrite_shorter (shorter : c.length < ec.cookie.length) :
    ec.eiConnectCookie.toList[c.length]? ≠ some 0 := by
  intro zero
  have kept : ec.cookie <+: ec.eiConnectCookie.toList := List.takeWhile_prefix _
  have here : ec.cookie[c.length]? = some 0 := by
    rw [List.getElem?_eq_getElem shorter, ← zero, kept.getElem shorter]
    exact (List.getElem?_eq_getElem _).symm
  have member := List.mem_of_getElem? here
  exact absurd (List.mem_takeWhile_imp member) (by decide)

theorem newConnection_cookie {newSock : Nat} {connection : EIConnection} {socket : Nat}
    (ran : EITransportObject.newConnection otherEc node newSock = .returns (connection, socket)) :
    connection.mCookie = otherEc.cookie := by
  obtain ⟨peer, -, rest⟩ := Outcome.bind_eq_returns.mp ran
  obtain ⟨cookie, made, last⟩ := Outcome.bind_eq_returns.mp rest
  cases last
  rw [EiCNode.cookieString] at made
  split at made
  · exact (Outcome.returns.inj made).symm
  · cases made

/-- What a call does with the node that it passes on. -/
structure PassesOn (otherEc : EiCNode Fields size) (transport : EITransportObject Fields size)
    (called : Call (Option (EIConnection × Nat)) × EITransportObject Fields size) : Prop where
  handshakes : called.2.handshakes = transport.handshakes ++ [otherEc]
  connection : ∀ connection newSock, called.1 = .returns (some (connection, newSock)) →
    connection.mCookie = otherEc.cookie
  own : called.2.ec = transport.ec

/-- Then it uses a cookie alone exactly where this node carries it. -/
theorem PassesOn.exact_iff
    {called : Call (Option (EIConnection × Nat)) × EITransportObject Fields size}
    (passes : PassesOn otherEc transport called) (carries : transport.ec.cookie = c0) :
    CookieExact c0 c transport called ↔ otherEc.cookie = c := by
  have log : called.2.handshakes.drop transport.handshakes.length = [otherEc] := by
    rw [passes.handshakes, List.drop_left]
  constructor
  · intro exact
    exact exact.handshakes otherEc (by rw [log]; exact List.mem_cons_self)
  · intro same
    refine ⟨?_, ?_, by rw [passes.own, carries]⟩
    · rw [log]
      intro ec member
      rw [List.mem_singleton.mp member, same]
    · intro connection newSock ran
      rw [passes.connection connection newSock ran, same]

/-- A call that fails once the library was called with the node. -/
theorem fail_passes (otherEc : EiCNode Fields size) (error : EpiException) (mListening : Bool) :
    PassesOn otherEc transport
      (Effect.mapOutcome (Call.throwsOnly [.epiConnectionException]) (Effect.fail error)
        ⟨transport.ec, mListening, transport.handshakes ++ [otherEc]⟩) := by
  refine ⟨rfl, ?_, rfl⟩
  intro connection newSock ran
  have thrown : Call.throwsOnly [.epiConnectionException]
      (.throws error : Call (Option (EIConnection × Nat))) = .returns (some (connection, newSock)) :=
    ran
  cases Call.throwsOnly_eq_returns.mp thrown

/-- A call that makes a connection once the library was called with the node. -/
theorem newConnection_passes (otherEc : EiCNode Fields size) (node : Bytes) (newSock : Nat)
    (mListening : Bool) :
    PassesOn otherEc transport
      (Effect.mapOutcome (Call.throwsOnly [.epiConnectionException])
        (do
          let connection ← Effect.lift (EITransportObject.newConnection otherEc node newSock)
          return some connection)
        ⟨transport.ec, mListening, transport.handshakes ++ [otherEc]⟩) := by
  rw [Effect.mapOutcome_run, Effect.bind_run, Effect.lift_run]
  cases made : EITransportObject.newConnection otherEc node newSock with
  | returns connection =>
      refine ⟨rfl, ?_, rfl⟩
      intro connection newSock ran
      cases ran
      exact newConnection_cookie made
  | throws error => exact fail_passes otherEc error mListening
  | aborts => exact ⟨rfl, nofun, rfl⟩
  | diverges => exact ⟨rfl, nofun, rfl⟩

/-- `do_connect` passes its node on. -/
theorem doConnect_passes (platform : ConnectPlatform) (library : EiConnect Fields size)
    (otherEc : EiCNode Fields size) (node : Bytes) (transport : EITransportObject Fields size) :
    PassesOn otherEc transport
      (EITransportObject.doConnect platform library otherEc node transport) := by
  have handshake : EITransportObject.handshake otherEc transport = (.returns (),
    ⟨transport.ec, transport.mListening, transport.handshakes ++ [otherEc]⟩) := rfl
  rw [EITransportObject.doConnect, Method.throwsOnly, Effect.mapOutcome_run,
    Effect.bind_of_returns handshake]
  cases answer : library.eiConnect otherEc node with
  | error erlErrno => exact fail_passes otherEc _ _
  | ok newSock => exact newConnection_passes otherEc node newSock _

/-- `do_accept` passes its node on, unless the socket cannot listen. -/
theorem doAccept_passes (platform : ConnectPlatform) (otherEc : EiCNode Fields size) (timeout : Int)
    (listens : transport.mListening = true ∨ library.listen = true) :
    PassesOn otherEc transport
      (EITransportObject.doAccept platform library otherEc timeout transport) := by
  have listening : EITransportObject.setListening library transport =
      (.returns (), ⟨transport.ec, true, transport.handshakes⟩) := by
    obtain ⟨ec, mListening, handshakes⟩ := transport
    cases mListening with
    | true => rfl
    | false =>
        have ready : library.listen = true := listens.resolve_left Bool.false_ne_true
        rw [EITransportObject.setListening, ready]
        rfl
  have handshake : EITransportObject.handshake otherEc ⟨transport.ec, true, transport.handshakes⟩ =
    (.returns (), ⟨transport.ec, true, transport.handshakes ++ [otherEc]⟩) := rfl
  rw [EITransportObject.doAccept, Method.throwsOnly, Effect.mapOutcome_run,
    Effect.bind_of_returns listening, Effect.bind_of_returns handshake]
  cases answer : library.eiAcceptTmo otherEc timeout with
  | error erlErrno =>
      simp only
      split
      · refine ⟨rfl, ?_, rfl⟩
        intro connection newSock same
        cases same
      · exact fail_passes otherEc _ _
  | ok accepted => exact newConnection_passes otherEc accepted.1 accepted.2 _

/-- Without a listening socket the library is not called. -/
theorem doAccept_fails (platform : ConnectPlatform) (otherEc : EiCNode Fields size) (timeout : Int)
    (unset : transport.mListening = false) (fails : library.listen = false) :
    EITransportObject.doAccept platform library otherEc timeout transport =
      (.throws ⟨.epiNetworkException, text "Error opening port for listen"⟩, transport) := by
  obtain ⟨ec, mListening, handshakes⟩ := transport
  subst unset
  have refused : EITransportObject.setListening library ⟨ec, false, handshakes⟩ =
      (.throws ⟨.epiNetworkException, text "Error opening port for listen"⟩,
        ⟨ec, false, handshakes⟩) := by
    rw [EITransportObject.setListening, fails]
    rfl
  rw [EITransportObject.doAccept, Method.throwsOnly, Effect.mapOutcome_run, Effect.bind_run, refused]
  rfl

/-- A copy of the node that fits. -/
theorem changeCookie_returns (ec : EiCNode Fields size) (fits : c.length < size) :
    ec.changeCookie c = .returns (ec.overwrite c) := by
  rw [EiCNode.changeCookie, if_pos fits.le]

/-- A second specification with the same class changes nothing. -/
theorem passesOn_throwsOnly
    {called : Call (Option (EIConnection × Nat)) × EITransportObject Fields size}
    (passes : PassesOn otherEc transport called) :
    PassesOn otherEc transport (Call.throwsOnly [.epiConnectionException] called.1, called.2) :=
  ⟨passes.handshakes, fun connection newSock ran =>
    passes.connection connection newSock (Call.throwsOnly_eq_returns.mp ran), passes.own⟩

/-- A connection that is opened with a cookie uses the one of the transport. -/
theorem connect_exact_iff (platform : ConnectPlatform) (library : EiConnect Fields size)
    (node : Bytes) (fits : c.length < size) (carries : transport.ec.cookie = c0) :
    CookieExact c0 c transport (EITransportObject.connect platform library node c transport) ↔
      c = c0 := by
  have connects := passesOn_throwsOnly
    (doConnect_passes platform library transport.ec node transport)
  rw [EITransportObject.connect, Method.throwsOnly, Effect.mapOutcome_run, Effect.bind_run,
    Effect.get_run]
  simp only [changeCookie_returns transport.ec fits, Effect.lift_returns_bind]
  rw [connects.exact_iff carries, carries, eq_comm]

/-- A connection that is accepted with a cookie uses it alone exactly where the array has an end
behind its characters, or where the socket cannot listen. -/
theorem accept_exact_iff (platform : ConnectPlatform) (library : EiConnect Fields size)
    (timeout : Int) (bare : 0 ∉ c) (fits : c.length < size) (carries : transport.ec.cookie = c0) :
    CookieExact c0 c transport (EITransportObject.accept platform library c timeout transport) ↔
      (transport.mListening = false ∧ library.listen = false) ∨
        transport.ec.eiConnectCookie.toList[c.length]? = some 0 := by
  rw [EITransportObject.accept, Method.throwsOnly, Effect.mapOutcome_run, Effect.bind_run,
    Effect.get_run]
  simp only [changeCookie_returns transport.ec fits, Effect.lift_returns_bind]
  by_cases listens : transport.mListening = true ∨ library.listen = true
  · have accepts := passesOn_throwsOnly
      (doAccept_passes platform (transport.ec.overwrite c) timeout listens)
    have able : ¬(transport.mListening = false ∧ library.listen = false) := by
      rintro ⟨unset, fails⟩
      rw [unset, fails] at listens
      rcases listens with set | ready
      · cases set
      · cases ready
    rw [accepts.exact_iff carries, overwrite_cookie_iff bare fits, or_iff_right able]
  · rw [not_or, Bool.not_eq_true, Bool.not_eq_true] at listens
    rw [doAccept_fails platform _ timeout listens.1 listens.2]
    refine iff_of_true ⟨?_, ?_, carries⟩ (.inl listens)
    · intro ec member
      rw [List.drop_length] at member
      cases member
    · intro connection newSock same
      cases same

/-- The array holds the cookie and zeros behind it, as the library fills it. -/
def EiCNode.Padded (ec : EiCNode Fields size) (c0 : Bytes) : Prop :=
  ec.eiConnectCookie.toList = c0 ++ List.replicate (size - c0.length) 0

theorem EiCNode.Padded.cookie (padded : ec.Padded c0) (bare : 0 ∉ c0) : ec.cookie = c0 := by
  rw [EiCNode.cookie, padded, cString_append bare, List.append_right_eq_self, cString]
  simp

/-- A cookie that is copied into zeros is padded. -/
theorem padded_overwrite (fields : Fields) (fits : c.length ≤ size) :
    (EiCNode.overwrite ⟨fields, Vector.replicate size 0⟩ c).Padded c := by
  rw [EiCNode.Padded, overwrite_toList _ fits, Vector.toList_replicate, List.drop_replicate]

/-- Then the cookies that are not shorter than the one of the transport have an end behind them. -/
theorem EiCNode.Padded.end_iff (padded : ec.Padded c0) (bare : 0 ∉ c0) (fits : c.length < size) :
    ec.eiConnectCookie.toList[c.length]? = some 0 ↔ c0.length ≤ c.length := by
  constructor
  · intro zero
    by_contra shorter
    exact overwrite_shorter (by rw [padded.cookie bare]; exact Nat.lt_of_not_le shorter) zero
  · intro longer
    rw [padded, List.getElem?_append_right longer, List.getElem?_replicate_of_lt (by omega)]

/-- A connection that is opened with a cookie uses it alone exactly where it is the one of the
transport. A connection that is accepted with a cookie does so exactly where the socket cannot listen
or the array of the transport has an end behind the characters of the cookie, and where the array is
padded, these are the cookies that are not shorter than the one of the transport. -/
theorem cookie_exact_iff (platform : ConnectPlatform) (library : EiConnect Fields size)
    (timeout : Int) (node : Bytes) (bare : 0 ∉ c) (bare0 : 0 ∉ c0)
    (short : c.length < maxCookieSize) (room : maxCookieSize ≤ size)
    (carries : transport.ec.cookie = c0) :
    (CookieExact c0 c transport (EITransportObject.connect platform library node c transport) ↔
      c = c0) ∧
    (CookieExact c0 c transport (EITransportObject.accept platform library c timeout transport) ↔
      (transport.mListening = false ∧ library.listen = false) ∨
        transport.ec.eiConnectCookie.toList[c.length]? = some 0) ∧
    (transport.ec.Padded c0 →
      (transport.ec.eiConnectCookie.toList[c.length]? = some 0 ↔ c0.length ≤ c.length)) := by
  have fits : c.length < size := Nat.lt_of_lt_of_le short room
  refine ⟨connect_exact_iff platform library node fits carries,
    accept_exact_iff platform library timeout bare fits carries, ?_⟩
  intro padded
  exact padded.end_iff bare0 fits

end Cookies

/-- A node whose array holds the cookie. -/
def cookieNode (cookie : Bytes) : EiCNode Unit 513 :=
  EiCNode.overwrite ⟨(), Vector.replicate 513 0⟩ cookie

/-- Every peer answers. -/
def answeringLibrary : EiConnect Unit 513 where
  eiConnect _ _ := .ok 3
  eiAcceptTmo _ _ := .ok (text "b@c", 4)
  listen := true

def sampleConnectPlatform : ConnectPlatform where
  useBoost := true
  eTimedOut := 110
  eAgain := 11
  eIO := 5
  strerror _ := text "error"
  eHostUnreach := 113
  eConnRefused := 111

/-- A transport with the cookie `secret`. -/
def secretTransport : EITransportObject Unit 513 := ⟨cookieNode (text "secret"), false, []⟩

theorem secretTransport_padded : secretTransport.ec.Padded (text "secret") :=
  padded_overwrite () (by decide)

theorem secretTransport_carries : secretTransport.ec.cookie = text "secret" :=
  secretTransport_padded.cookie (by decide)

/-- A longer cookie is accepted as it is. -/
theorem cookie_exact_longer :
    (CookieExact (text "secret") (text "longer secret") secretTransport
        (EITransportObject.connect sampleConnectPlatform answeringLibrary (text "b@c")
          (text "longer secret") secretTransport) ↔ text "longer secret" = text "secret") ∧
    (CookieExact (text "secret") (text "longer secret") secretTransport
        (EITransportObject.accept sampleConnectPlatform answeringLibrary (text "longer secret") 0
          secretTransport) ↔
      (secretTransport.mListening = false ∧ answeringLibrary.listen = false) ∨
        secretTransport.ec.eiConnectCookie.toList[(text "longer secret").length]? = some 0) ∧
    (secretTransport.ec.Padded (text "secret") →
      (secretTransport.ec.eiConnectCookie.toList[(text "longer secret").length]? = some 0 ↔
        (text "secret").length ≤ (text "longer secret").length)) :=
  cookie_exact_iff sampleConnectPlatform answeringLibrary 0 (text "b@c") (by decide) (by decide)
    (by decide) (by decide) secretTransport_carries

/-- With a shorter cookie the tail of the old one stays, and an opened connection uses the old one. -/
theorem shorter_cookie_mixed :
    secretTransport.ec.cookie = text "secret" ∧
    ¬ CookieExact (text "secret") (text "ab") secretTransport
      (EITransportObject.connect sampleConnectPlatform answeringLibrary (text "b@c") (text "ab")
        secretTransport) ∧
    (secretTransport.ec.overwrite (text "ab")).cookie = text "abcret" ∧
    ¬ CookieExact (text "secret") (text "ab") secretTransport
      (EITransportObject.accept sampleConnectPlatform answeringLibrary (text "ab") 0
        secretTransport) := by
  have mixed : (secretTransport.ec.overwrite (text "ab")).cookie = text "abcret" := by
    have array : (secretTransport.ec.overwrite (text "ab")).eiConnectCookie.toList =
        text "abcret" ++ List.replicate 507 0 := by
      rw [overwrite_toList _ (by decide), secretTransport_padded]
      rfl
    rw [EiCNode.cookie, array, cString_append (by decide), List.append_right_eq_self]
    rfl
  refine ⟨secretTransport_carries, ?_, mixed, ?_⟩
  · rw [connect_exact_iff _ _ _ (by decide) secretTransport_carries]
    decide
  · rw [accept_exact_iff _ _ _ (by decide) (by decide) secretTransport_carries]
    rw [secretTransport_padded.end_iff (by decide) (by decide)]
    decide

end Epi.Node
