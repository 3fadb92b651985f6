import Epi.Node.LocalNode
import Epi.Node.Name
import Epi.Parse.Format
import Epi.Type.Binding

namespace Epi.Node

open Verification Epi.Type

/-- The byte between the parts of a node identifier. -/
def colon : UInt8 := 58

/-- The exceptions of a transport. An `EpiUnknownProtocol` holds its message. -/
inductive TransportException where
  | epiException (error : EpiException)
  | epiUnknownProtocol (mMsg : Bytes)
  deriving DecidableEq, Repr

abbrev TransportCall := Outcome TransportException

namespace TransportCall

/-- A call that does not know `EpiUnknownProtocol`. -/
def ofCall {Value : Type} : Call Value → TransportCall Value
  | .returns value => .returns value
  | .throws error => .throws (.epiException error)
  | .aborts => .aborts
  | .diverges => .diverges

end TransportCall

/-- The arguments of the constructor of an `EITransport`. -/
structure EITransportNames where
  aNodeName : Bytes
  aAliveName : Bytes
  aHostName : Bytes
  aCookie : Bytes
  aPort : Int
  deriving DecidableEq, Repr

/-- An `EITransport`, or another transport with its node name. -/
inductive ErlangTransport where
  | eiTransport (names : EITransportNames)
  | other (nodeName : Bytes)
  deriving DecidableEq, Repr

/-- The virtual method `getNodeName`. -/
def ErlangTransport.getNodeName : ErlangTransport → Bytes
  | .eiTransport names => names.aNodeName
  | .other nodeName => nodeName

/-- The factory of the EI library, or another one. -/
inductive ErlangTransportFactory where
  | eiTransportFactory
  | other (createErlangTransport : Bytes → Bytes → TransportCall Bytes)

/-- The calls of the network and of the EI library. -/
structure EiNetwork where
  opens : Int → Bool
  eiConnectXinit : EITransportNames → Bool
  strerror : Bytes

/-- What a failed extraction leaves in an `int` that was not set. -/
abbrev UnsetInt := Int

def isspace (c : UInt8) : Bool := c == 32 || 9 ≤ c && c ≤ 13

/-- `stream >> port` in decimal. A text that denotes no `int` leaves the variable alone. -/
def extractInt (unset : UnsetInt) (stream : Bytes) : Int :=
  let word := stream.dropWhile isspace
  let negative := word.head? == some 45
  let digits := (if negative || word.head? == some 43 then word.drop 1 else word).takeWhile
    Parse.isdigit
  let value : Int := if negative then -(Parse.decimal digits) else Parse.decimal digits
  if digits.isEmpty || value < -2 ^ 31 || 2 ^ 31 ≤ value then unset else value

/-- The texts before and behind the first separator. -/
def splitFirst (separator : UInt8) (name : Bytes) : Option (Bytes × Bytes) :=
  (name.idxOf? separator).map fun pos => (name.take pos, name.drop (pos + 1))

/-- `EITransport::EITransport`. -/
def EITransportNames.create (network : EiNetwork) (names : EITransportNames) :
    TransportCall ErlangTransport :=
  if network.opens names.aPort then
    if network.eiConnectXinit names then
      .returns (.eiTransport names)
    else
      .throws (.epiException ⟨.epiEIException,
        text "Error init EI-library ERROR CODE=0(" ++ network.strerror ++ text ")"⟩)
  else
    .throws (.epiException ⟨.epiNetworkException, text "Unable to open port"⟩)

/-- `EITransportFactory::createErlangTransport`. -/
def eiCreateErlangTransport (network : EiNetwork) (unset : UnsetInt) (nodename aCookie : Bytes) :
    TransportCall ErlangTransport :=
  let (subnodename, port) := match splitFirst colon nodename with
    | none => (nodename, 0)
    | some (subnodename, stream) =>
        let port := extractInt unset stream
        (subnodename, if port < 1024 || port > 65535 then 0 else port)
  let (alivename, hostname) := match splitFirst atSign subnodename with
    | none => (subnodename, text "defaulthost")
    | some parts => parts
  EITransportNames.create network
    ⟨alivename ++ atSign :: hostname, alivename, hostname, aCookie, port⟩

/-- The virtual method `createErlangTransport`. -/
def ErlangTransportFactory.createErlangTransport (network : EiNetwork) (unset : UnsetInt)
    (nodename cookie : Bytes) : ErlangTransportFactory → TransportCall ErlangTransport
  | .eiTransportFactory => eiCreateErlangTransport network unset nodename cookie
  | .other create => do
      let nodeName ← create nodename cookie
      return .other nodeName

/-- An `ErlangTransportManager`. A null pointer is an absent factory. -/
structure ErlangTransportManager where
  mFactoryMap : OrderedMap Bytes (Option ErlangTransportFactory) nameLess

namespace ErlangTransportManager

def defaultProtocol : Bytes := text "ei"

/-- The constructor. -/
def create : ErlangTransportManager :=
  ⟨OrderedMap.empty.store nameLess_ordered (text "ei") (some .eiTransportFactory)⟩

/-- `ErlangTransportManager::registerProtocol`. -/
def registerProtocol (manager : ErlangTransportManager) (protocol : Bytes)
    (factory : Option ErlangTransportFactory) : ErlangTransportManager :=
  ⟨manager.mFactoryMap.store nameLess_ordered protocol factory⟩

def unknownProtocol (protocol : Bytes) : TransportException :=
  .epiUnknownProtocol (text "Unknown protocol: " ++ protocol)

/-- `ErlangTransportManager::createErlangTransport`. -/
def createErlangTransport (manager : ErlangTransportManager) (network : EiNetwork)
    (unset : UnsetInt) (nodeid cookie : Bytes) : TransportCall ErlangTransport :=
  let (protocol, nodename) := (splitFirst colon nodeid).getD (defaultProtocol, nodeid)
  match manager.mFactoryMap.find protocol with
  | none | some none => .throws (unknownProtocol protocol)
  | some (some factory) => factory.createErlangTransport network unset nodename cookie

end ErlangTransportManager

/-- A `LocalNode` with the names of its base class, its cookie and its transport. -/
structure OpenedNode where
  node : LocalNode
  names : AbstractNode
  mCookie : Bytes
  mTransport : ErlangTransport

/-- The end of `LocalNode::init`. The names come from the transport. -/
def LocalNode.adopt (creation : BitVec 16) (aCookie : Bytes) (mTransport : ErlangTransport) :
    TransportCall OpenedNode := do
  let names ← TransportCall.ofCall (AbstractNode.initNodeName mTransport.getNodeName)
  return ⟨LocalNode.init names.mNodeName creation, names, aCookie, mTransport⟩

/-- The constructors of a `LocalNode` that open a transport. -/
def LocalNode.open (manager : ErlangTransportManager) (network : EiNetwork) (unset : UnsetInt)
    (creation : BitVec 16) (aNodeId aCookie : Bytes) : TransportCall OpenedNode := do
  let mTransport ← manager.createErlangTransport network unset aNodeId aCookie
  adopt creation aCookie mTransport

/-- The calls of the network and of the EI library go well. -/
def EiNetwork.Succeeds (network : EiNetwork) : Prop :=
  ∀ names, network.opens names.aPort = true ∧ network.eiConnectXinit names = true

/-- A part of an identifier: some bytes, and no separator. -/
structure PlainPart where
  text : Bytes
  nonempty : text ≠ []
  noColon : colon ∉ text
  noAt : atSign ∉ text

/-- Decimal digits that denote an `int`. -/
structure PortText where
  digits : Bytes
  nonempty : digits ≠ []
  decimal : ∀ digit ∈ digits, Parse.isdigit digit = true
  bounded : Parse.decimal digits < 2 ^ 31

/-- `protocol:alive@host:port` with its parts. There is a port only behind a host, and only in an
identifier with a protocol. -/
structure NodeIdentifier where
  protocol : Option PlainPart
  alive : PlainPart
  host : Option PlainPart
  port : Option PortText
  ported : port.isSome = true → protocol.isSome = true ∧ host.isSome = true

namespace NodeIdentifier

/-- `alive@host`. -/
def address (id : NodeIdentifier) : Bytes :=
  match id.host with
  | none => id.alive.text
  | some host => id.alive.text ++ atSign :: host.text

/-- `alive@host:port`. -/
def nodename (id : NodeIdentifier) : Bytes :=
  match id.port with
  | none => id.address
  | some port => id.address ++ colon :: port.digits

/-- `protocol:alive@host:port`. -/
def text (id : NodeIdentifier) : Bytes :=
  match id.protocol with
  | none => id.nodename
  | some protocol => protocol.text ++ colon :: id.nodename

def protocolName (id : NodeIdentifier) : Bytes :=
  match id.protocol with
  | none => ErlangTransportManager.defaultProtocol
  | some protocol => protocol.text

def hostName (id : NodeIdentifier) : Bytes :=
  match id.host with
  | none => Epi.text "defaulthost"
  | some host => host.text

/-- The number of the port, if it is one that a node may ask for. -/
def portNumber (id : NodeIdentifier) : Int :=
  match id.port with
  | none => 0
  | some port =>
      if 1024 ≤ Parse.decimal port.digits ∧ Parse.decimal port.digits ≤ 65535 then
        Parse.decimal port.digits
      else 0

/-- What the EI transport of an identifier gets. -/
def names (id : NodeIdentifier) (aCookie : Bytes) : EITransportNames where
  aNodeName := id.alive.text ++ atSign :: id.hostName
  aAliveName := id.alive.text
  aHostName := id.hostName
  aCookie := aCookie
  aPort := id.portNumber

end NodeIdentifier

section Splitting

variable {separator : UInt8} {front back name : Bytes}

theorem splitFirst_append (bare : separator ∉ front) :
    splitFirst separator (front ++ separator :: back) = some (front, back) := by
  have found : (front ++ separator :: back).idxOf? separator = some front.length := by
    rw [List.idxOf?_eq_some_iff]
    refine ⟨by simp, by simp, ?_⟩
    intro earlier less
    rw [List.getElem_append_left less]
    intro same
    exact bare (same ▸ List.getElem_mem less)
  simp [splitFirst, found]

theorem splitFirst_bare (bare : separator ∉ name) : splitFirst separator name = none := by
  rw [splitFirst, List.idxOf?_eq_none_iff.mpr bare]
  rfl

/-- A digit is no blank and no sign. -/
theorem isdigit_plain {c : UInt8} (digit : Parse.isdigit c = true) :
    isspace c = false ∧ c ≠ 45 ∧ c ≠ 43 := by
  simp only [Parse.isdigit, Bool.and_eq_true, decide_eq_true_eq, UInt8.le_iff_toNat_le] at digit
  have low : 48 ≤ c.toNat := digit.1
  have other : ∀ sign : UInt8, sign.toNat < 48 → c ≠ sign := by
    rintro sign small rfl
    omega
  refine ⟨?_, other 45 (by decide), other 43 (by decide)⟩
  have high : ¬ c ≤ 13 := by
    intro small
    have bound : c.toNat ≤ 13 := UInt8.le_iff_toNat_le.mp small
    omega
  simp [isspace, other 32 (by decide), high]

/-- Digits are read to their end. -/
theorem extractInt_digits (unset : UnsetInt) (port : PortText) :
    extractInt unset port.digits = Parse.decimal port.digits := by
  obtain ⟨digits, nonempty, decimal, bounded⟩ := port
  obtain ⟨first, rest, rfl⟩ := List.exists_cons_of_ne_nil nonempty
  obtain ⟨word, unsigned, signless⟩ := isdigit_plain (decimal first List.mem_cons_self)
  have whole : (first :: rest).takeWhile Parse.isdigit = first :: rest :=
    List.takeWhile_eq_self_iff.mpr decimal
  have inside : ((Parse.decimal (first :: rest) : Nat) : Int) < 2 ^ 31 := by
    exact_mod_cast bounded
  have start : (first :: rest).dropWhile isspace = first :: rest :=
    List.dropWhile_cons_of_neg (by rw [word]; exact Bool.false_ne_true)
  simp only [extractInt, start, List.head?_cons, Option.some_beq_some, beq_false_of_ne unsigned,
    beq_false_of_ne signless, Bool.or_self, if_neg Bool.false_ne_true, whole, List.isEmpty_cons,
    Bool.false_or]
  rw [if_neg]
  simp only [Bool.or_eq_true, decide_eq_true_eq, not_or]
  omega

end Splitting

section Identifiers

variable {id : NodeIdentifier}

theorem colon_not_mem_address (id : NodeIdentifier) : colon ∉ id.address := by
  unfold NodeIdentifier.address
  cases id.host with
  | none => exact id.alive.noColon
  | some host =>
      simp only [List.mem_append, List.mem_cons, not_or]
      exact ⟨id.alive.noColon, by decide, host.noColon⟩

/-- The first stage finds the protocol. -/
theorem split_protocol (id : NodeIdentifier) :
    (splitFirst colon id.text).getD (ErlangTransportManager.defaultProtocol, id.text) =
      (id.protocolName, id.nodename) := by
  unfold NodeIdentifier.text NodeIdentifier.protocolName
  cases given : id.protocol with
  | some protocol =>
      simp only [splitFirst_append protocol.noColon, Option.getD_some]
  | none =>
      have portless : id.port = none := by
        cases port : id.port with
        | none => rfl
        | some digits =>
            have parts := id.ported (by rw [port]; rfl)
            rw [given] at parts
            cases parts.1
      have bare : id.nodename = id.address := by
        rw [NodeIdentifier.nodename, portless]
      simp only [bare, splitFirst_bare (colon_not_mem_address id), Option.getD_none]

/-- The second stage finds the port. -/
theorem split_port (id : NodeIdentifier) (unset : UnsetInt) :
    (match splitFirst colon id.nodename with
      | none => (id.nodename, 0)
      | some (subnodename, stream) =>
          let port := extractInt unset stream
          (subnodename, if port < 1024 || port > 65535 then 0 else port)) =
      (id.address, id.portNumber) := by
  unfold NodeIdentifier.nodename NodeIdentifier.portNumber
  cases id.port with
  | none => simp only [splitFirst_bare (colon_not_mem_address id)]
  | some port =>
      simp only [splitFirst_append (colon_not_mem_address id), extractInt_digits, Bool.or_eq_true,
        decide_eq_true_eq, Prod.mk.injEq, true_and]
      split
      · rw [if_neg (by omega)]
      · rw [if_pos (by omega)]

/-- The third stage finds the host. -/
theorem split_host (id : NodeIdentifier) :
    (match splitFirst atSign id.address with
      | none => (id.address, Epi.text "defaulthost")
      | some parts => parts) = (id.alive.text, id.hostName) := by
  unfold NodeIdentifier.address NodeIdentifier.hostName
  cases id.host with
  | none => simp only [splitFirst_bare id.alive.noAt]
  | some host => simp only [splitFirst_append id.alive.noAt]

/-- The factory of the EI library hands the parts on. -/
theorem eiCreate_returns {network : EiNetwork} (succeeds : network.Succeeds) (unset : UnsetInt)
    (id : NodeIdentifier) (aCookie : Bytes) :
    eiCreateErlangTransport network unset id.nodename aCookie =
      .returns (.eiTransport (id.names aCookie)) := by
  have created : ∀ names, EITransportNames.create network names = .returns (.eiTransport names) := by
    intro names
    rw [EITransportNames.create, if_pos (succeeds names).1, if_pos (succeeds names).2]
  rw [eiCreateErlangTransport, split_port id unset]
  simp only [split_host id, created]
  rfl

/-- The node takes the names of its transport apart once more. -/
theorem adopt_returns (creation : BitVec 16) (aCookie : Bytes) {names : EITransportNames}
    (bare : atSign ∉ names.aAliveName)
    (whole : names.aNodeName = names.aAliveName ++ atSign :: names.aHostName)
    (bounded : names.aNodeName.length ≤ maxNodeLength) :
    LocalNode.adopt creation aCookie (.eiTransport names) =
      .returns ⟨LocalNode.init names.aNodeName creation,
        ⟨names.aNodeName, names.aAliveName, names.aHostName⟩, aCookie, .eiTransport names⟩ := by
  have split : AbstractNode.initNodeName names.aNodeName =
      .returns ⟨names.aNodeName, names.aAliveName, names.aHostName⟩ := by
    rw [whole] at bounded ⊢
    simp only [AbstractNode.initNodeName, splitName_append bare]
    rw [if_neg (Nat.not_lt.mpr bounded)]
  rw [LocalNode.adopt, ErlangTransport.getNodeName, split]
  rfl

/-- The construction uses the factory of the protocol, with what is behind the protocol. -/
theorem open_selects (manager : ErlangTransportManager) (network : EiNetwork) (unset : UnsetInt)
    (creation : BitVec 16) (aCookie : Bytes) (id : NodeIdentifier) :
    LocalNode.open manager network unset creation id.text aCookie =
      match manager.mFactoryMap.find id.protocolName with
      | some (some factory) => do
          let mTransport ← factory.createErlangTransport network unset id.nodename aCookie
          LocalNode.adopt creation aCookie mTransport
      | _ => .throws (ErlangTransportManager.unknownProtocol id.protocolName) := by
  rw [LocalNode.open, ErlangTransportManager.createErlangTransport, split_protocol id]
  simp only
  cases manager.mFactoryMap.find id.protocolName with
  | none => rfl
  | some found => cases found <;> rfl

/-- A factory that is registered for the protocol is the one that the construction uses. -/
theorem open_registered (manager : ErlangTransportManager) (factory : ErlangTransportFactory)
    (network : EiNetwork) (unset : UnsetInt) (creation : BitVec 16) (aCookie : Bytes)
    (id : NodeIdentifier) :
    LocalNode.open (manager.registerProtocol id.protocolName (some factory)) network unset creation
        id.text aCookie = (do
      let mTransport ← factory.createErlangTransport network unset id.nodename aCookie
      LocalNode.adopt creation aCookie mTransport) := by
  have registered : (manager.registerProtocol id.protocolName (some factory)).mFactoryMap.find
      id.protocolName = some (some factory) := by
    rw [ErlangTransportManager.registerProtocol, OrderedMap.find_store nameLess_ordered, if_pos rfl]
  rw [open_selects, registered]

/-- The protocol of an identifier selects the factory, the EI transport gets its alive name, its host
and its port, and the node has the names of its transport. -/
theorem identifier_taken_apart (manager : ErlangTransportManager) {network : EiNetwork}
    (succeeds : network.Succeeds) (unset : UnsetInt) (creation : BitVec 16) (aCookie : Bytes)
    (id : NodeIdentifier)
    (bounded : (id.alive.text ++ atSign :: id.hostName).length ≤ maxNodeLength) :
    (LocalNode.open manager network unset creation id.text aCookie =
      match manager.mFactoryMap.find id.protocolName with
      | some (some factory) => do
          let mTransport ← factory.createErlangTransport network unset id.nodename aCookie
          LocalNode.adopt creation aCookie mTransport
      | _ => .throws (ErlangTransportManager.unknownProtocol id.protocolName)) ∧
    (manager.mFactoryMap.find id.protocolName = some (some .eiTransportFactory) →
      ∃ opened, LocalNode.open manager network unset creation id.text aCookie = .returns opened ∧
        opened.mTransport = .eiTransport {
          aNodeName := id.alive.text ++ atSign :: id.hostName
          aAliveName := id.alive.text
          aHostName := id.hostName
          aCookie := aCookie
          aPort := id.portNumber } ∧
        opened.names.mAliveName = id.alive.text ∧ opened.names.mHostName = id.hostName ∧
        opened.node.mNodeName = id.alive.text ++ atSign :: id.hostName) := by
  have selects := open_selects manager network unset creation aCookie id
  refine ⟨selects, fun registered => ?_⟩
  have adopted := @adopt_returns creation aCookie (id.names aCookie) id.alive.noAt rfl bounded
  rw [registered] at selects
  simp only [ErlangTransportFactory.createErlangTransport, eiCreate_returns succeeds,
    Outcome.returns_bind, adopted] at selects
  exact ⟨_, selects, rfl, rfl, rfl, rfl⟩

end Identifiers

/-- A network on which all calls go well. -/
def readyNetwork : EiNetwork := ⟨fun _ => true, fun _ => true, text "Success"⟩

def partA : PlainPart := ⟨text "a", by decide, by decide, by decide⟩

def partB : PlainPart := ⟨text "b", by decide, by decide, by decide⟩

/-- `ei:a@b:4370`. -/
def sampleIdentifier : NodeIdentifier where
  protocol := some ⟨text "ei", by decide, by decide, by decide⟩
  alive := partA
  host := some partB
  port := some ⟨text "4370", by decide,
    List.all_eq_true.mp (show (text "4370").all Parse.isdigit = true from rfl),
    show 4370 < 2 ^ 31 by norm_num⟩
  ported := fun _ => ⟨rfl, rfl⟩

theorem identifier_taken_apart_sample :
    (LocalNode.open .create readyNetwork 0 0 sampleIdentifier.text [] =
      match ErlangTransportManager.create.mFactoryMap.find sampleIdentifier.protocolName with
      | some (some factory) => do
          let mTransport ← factory.createErlangTransport readyNetwork 0 sampleIdentifier.nodename []
          LocalNode.adopt 0 [] mTransport
      | _ => .throws (ErlangTransportManager.unknownProtocol sampleIdentifier.protocolName)) ∧
    ∃ opened, LocalNode.open .create readyNetwork 0 0 sampleIdentifier.text [] = .returns opened ∧
      opened.mTransport = .eiTransport ⟨text "a@b", text "a", text "b", [], 4370⟩ ∧
      opened.names.mAliveName = text "a" ∧ opened.names.mHostName = text "b" ∧
      opened.node.mNodeName = text "a@b" := by
  have succeeds : readyNetwork.Succeeds := fun _ => ⟨rfl, rfl⟩
  have apart := identifier_taken_apart .create succeeds 0 0 [] sampleIdentifier (by decide)
  exact ⟨apart.1, apart.2 rfl⟩

end Epi.Node
