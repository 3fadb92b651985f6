import Epi.Buffer.Written

namespace Epi.Buffer

open Verification Epi.Type ErlTerm

/-- A node name that a peer can send. -/
structure SentNode (node : Bytes) : Prop where
  clean : NodeText node
  nonempty : 0 < node.length

/-- A pid that a peer can send. -/
structure ErlangPid.Sent (pid : ErlangPid) : Prop where
  node : SentNode pid.node
  num : pid.num < 2 ^ 15
  serial : pid.serial < 2 ^ 13
  creation : pid.creation < 4

/-- A port that a peer can send. -/
structure ErlangPort.Sent (port : ErlangPort) : Prop where
  node : SentNode port.node
  id : port.id < 2 ^ 28
  creation : port.creation < 4

/-- A reference that a peer can send. -/
structure ErlangRef.Sent (ref : ErlangRef) : Prop where
  node : SentNode ref.node
  words : 1 ≤ ref.n.length ∧ ref.n.length ≤ 3
  first : ∀ word ∈ ref.n.head?, word.toNat < 2 ^ 18
  creation : ref.creation < 4

/-- The calls carry the fields of every identifier, and the number of words of a reference. -/
structure Ei.Identifiers (ei : Ei) : Prop where
  pid : ∀ pid : ErlangPid, pid.Sent →
    Encodes ei (ei.encodePid pid) (fun type _ => type = .pidExt) ei.decodePid pid
  port : ∀ port : ErlangPort, port.Sent →
    Encodes ei (ei.encodePort port) (fun type _ => type = .portExt) ei.decodePort port
  ref : ∀ ref : ErlangRef, ref.Sent →
    Encodes ei (ei.encodeRef ref) (fun type _ => type = .newReferenceExt) ei.decodeRef ref

/-- The identifiers of a type are read as terms. A term is written as the identifier with its
fields kept, and two terms are equal when their identifiers are the same. -/
structure Carries {Value : Type} (ei : Ei) (fuel : Nat) (type : ExternalType)
    (decoder : Decoder Value) (Sent : Value → Prop) (kept : Value → Value)
    (Same : Value → Value → Prop) : Prop where
  comesBack : ∀ value bytes, Sent value → Item ei bytes (fun kind _ => kind = type) decoder value →
    ∃ term, Yields (EIInputBuffer.readTerm ei fuel) bytes (some (some term)) ∧
      ∀ buffer, ∃ again, EIOutputBuffer.writeTerm ei none fuel (some term) buffer =
          (.returns (), buffer.add again) ∧
        Item ei again (fun kind _ => kind = type) decoder (kept value)
  separates : ∀ left right first second leftTerm rightTerm, Sent left → Sent right →
    Item ei first (fun kind _ => kind = type) decoder left →
    Item ei second (fun kind _ => kind = type) decoder right →
    Yields (EIInputBuffer.readTerm ei fuel) first (some (some leftTerm)) →
    Yields (EIInputBuffer.readTerm ei fuel) second (some (some rightTerm)) →
    (leftTerm.equals rightTerm = true ↔ Same left right)

/-- The tag of a reference in the old format, which has no case. -/
def referenceExt : ExternalType := .other 101

/-- A read at the start of the bytes throws this and does not move. -/
def Refuses {Value : Type} (call : Method EIInputBuffer Value) (bytes : Bytes)
    (error : EpiException) : Prop :=
  ∀ front back, call ⟨front ++ (bytes ++ back), front.length⟩ =
    (.throws error, ⟨front ++ (bytes ++ back), front.length⟩)

section Terms

variable {ei : Ei} {bytes : Bytes}

def SentNode.name {node : Bytes} (sent : SentNode node) : NodeName :=
  ⟨node, sent.nonempty, sent.clean.2⟩

def ErlangPid.Sent.term {pid : ErlangPid} (sent : pid.Sent) : ErlPid :=
  ⟨sent.node.name, .ofNat 18 pid.num, .ofNat 13 pid.serial, .ofNat 2 pid.creation⟩

def ErlangPort.Sent.term {port : ErlangPort} (sent : port.Sent) : ErlPort :=
  ⟨sent.node.name, .ofNat 18 port.id, .ofNat 2 port.creation⟩

/-- The other two ids of a new style reference may be the unset ones. -/
def ErlangRef.Sent.term {ref : ErlangRef} (sent : ref.Sent) (unset : BitVec 32) : ErlRef where
  mNode := sent.node.name
  mId0 := (ref.n.getD 0 unset).setWidth 18
  mId1 := if ref.n.length != 1 then ref.n.getD 1 unset else 0
  mId2 := if ref.n.length != 1 then ref.n.getD 2 unset else 0
  mCreation := .ofNat 2 ref.creation
  mNewStyle := ref.n.length != 1
  unset := by
    intro old
    simp [old]

theorem SentNode.check {node : Bytes} (sent : SentNode node) :
    NodeName.check node = .returns sent.name :=
  NodeName.check_text sent.name

theorem yields_pid {pid : ErlangPid} (sent : pid.Sent)
    (item : Item ei bytes (fun type _ => type = .pidExt) ei.decodePid pid) (fuel : Nat) :
    Yields (EIInputBuffer.readTerm ei (fuel + 1)) bytes
      (some (some (.simple (.erlPid (some sent.term))))) := by
  have built : (ErlPid.init pid.node pid.num pid.serial pid.creation).toOption =
      some sent.term := by
    rw [ErlPid.init, sent.node.check]
    rfl
  change Yields _ bytes ((some (simple (.erlPid (some sent.term)))).map some)
  apply yields_item item
  · intro type size held nested
    subst held
    rfl
  · intro type size held
    exact yields_built built (toOption_rethrow .eiDecode) fun read => .simple (.erlPid (some read))

theorem yields_port {port : ErlangPort} (sent : port.Sent)
    (item : Item ei bytes (fun type _ => type = .portExt) ei.decodePort port) (fuel : Nat) :
    Yields (EIInputBuffer.readTerm ei (fuel + 1)) bytes
      (some (some (.simple (.erlPort (some sent.term))))) := by
  have built : (ErlPort.init port.node port.id port.creation).toOption = some sent.term := by
    rw [ErlPort.init, sent.node.check]
    rfl
  change Yields _ bytes ((some (simple (.erlPort (some sent.term)))).map some)
  apply yields_item item
  · intro type size held nested
    subst held
    rfl
  · intro type size held
    exact yields_built built (toOption_rethrow .decode) fun read => .simple (.erlPort (some read))

theorem yields_ref {ref : ErlangRef} (sent : ref.Sent)
    (item : Item ei bytes (fun type _ => type = .newReferenceExt) ei.decodeRef ref) (fuel : Nat) :
    Yields (EIInputBuffer.readTerm ei (fuel + 1)) bytes
      (some (some (.simple (.erlRef (some (sent.term ei.unset)))))) := by
  have built : (ErlRef.init ref.node (EIInputBuffer.refIds ei.unset ref.n) ref.creation
      (ref.n.length != 1)).toOption = some (sent.term ei.unset) := by
    rw [ErlRef.init, sent.node.check]
    rfl
  change Yields _ bytes ((some (simple (.erlRef (some (sent.term ei.unset))))).map some)
  apply yields_item item
  · intro type size held nested
    subst held
    rfl
  · intro type size held
    exact yields_built built (toOption_rethrow .eiDecode) fun read => .simple (.erlRef (some read))

theorem refuses_referenceExt {ref : ErlangRef} {fuel : Nat}
    (item : Item ei bytes (fun type _ => type = referenceExt) ei.decodeRef ref) :
    Refuses (EIInputBuffer.readTerm ei (fuel + 1)) bytes
      (.eiDecode (text "Unknown message content type 101")) := by
  intro front back
  obtain ⟨type, size, typed, rfl⟩ := item.typed front back
  have inside : front.length ≠ (front ++ (bytes ++ back)).length := by
    have positive := List.length_pos_iff.mpr item.nonempty
    simp only [List.length_append]
    omega
  rw [EIInputBuffer.readTerm, Method.throwsOnly, Effect.mapOutcome_run, EIInputBuffer.readNext,
    if_neg inside, typed]
  rfl

/-- A simple term is written as its item. -/
theorem writeTerm_item {value : SimpleTerm} (encoded : itemOf ei value = some bytes) (fuel : Nat)
    (buffer : EIOutputBuffer) :
    EIOutputBuffer.writeTerm ei none (fuel + 1) (some (.simple value)) buffer =
      (.returns (), buffer.add bytes) :=
  writeTerm_of_returns (writeSimple_item encoded buffer)

theorem erlPid2EI_term {pid : ErlangPid} (sent : pid.Sent) :
    erlPid2EI (some sent.term) = some pid := by
  have num : pid.num < 2 ^ 18 := lt_trans sent.num (by decide)
  have creation : pid.creation < 2 ^ 2 := sent.creation
  have node : cString sent.node.name.text = pid.node := cString_eq_self sent.node.clean.1
  simp only [erlPid2EI, ErlangPid.Sent.term, Option.map_some, BitVec.toNat_ofNat, node]
  rw [Nat.mod_eq_of_lt num, Nat.mod_eq_of_lt sent.serial, Nat.mod_eq_of_lt creation]

/-- A port loses the bits of its id behind the first 18. -/
theorem erlPort2EI_term {port : ErlangPort} (sent : port.Sent) :
    erlPort2EI (some sent.term) = some { port with id := port.id % 2 ^ 18 } := by
  have creation : port.creation < 2 ^ 2 := sent.creation
  have node : cString sent.node.name.text = port.node := cString_eq_self sent.node.clean.1
  simp only [erlPort2EI, ErlangPort.Sent.term, Option.map_some, BitVec.toNat_ofNat, node]
  rw [Nat.mod_eq_of_lt creation]

/-- A reference of one word or of three words keeps them. -/
theorem erlRef2EI_term {ref : ErlangRef} (sent : ref.Sent)
    (words : ref.n.length = 1 ∨ ref.n.length = 3) (unset : BitVec 32) :
    erlRef2EI (some (sent.term unset)) = some ref := by
  have creation : ref.creation < 2 ^ 2 := sent.creation
  have node : cString sent.node.name.text = ref.node := cString_eq_self sent.node.clean.1
  have first := sent.first
  obtain ⟨name, ids, version⟩ := ref
  have narrow : ∀ word : BitVec 32, word.toNat < 2 ^ 18 →
      (word.setWidth 18).setWidth 32 = word := by
    intro word small
    apply BitVec.eq_of_toNat_eq
    simp only [BitVec.toNat_setWidth]
    omega
  simp only [erlRef2EI, ErlangRef.Sent.term, Option.map_some, BitVec.toNat_ofNat, node]
  rw [Nat.mod_eq_of_lt creation]
  rcases words with one | three
  · obtain ⟨word, rfl⟩ := List.length_eq_one_iff.mp one
    simp [narrow word (first word rfl)]
  · obtain ⟨word, second, third, rfl⟩ := List.length_eq_three.mp three
    simp [narrow word (first word rfl)]

theorem name_inj {left right : Bytes} (sent : SentNode left) (other : SentNode right) :
    sent.name = other.name ↔ left = right := by
  simp [SentNode.name]

/-- A number that fits is kept by its field. -/
theorem ofNat_inj {width left right : Nat} (small : left < 2 ^ width) (other : right < 2 ^ width) :
    BitVec.ofNat width left = BitVec.ofNat width right ↔ left = right := by
  rw [← BitVec.toNat_inj, BitVec.toNat_ofNat, BitVec.toNat_ofNat, Nat.mod_eq_of_lt small,
    Nat.mod_eq_of_lt other]

theorem equals_pid {left right : ErlangPid} (sent : left.Sent) (other : right.Sent) :
    (simple (.erlPid (some sent.term))).equals (simple (.erlPid (some other.term))) = true ↔
      left.node = right.node ∧ left.num = right.num ∧ left.serial = right.serial := by
  have small : left.num < 2 ^ 18 := lt_trans sent.num (by decide)
  have fits : right.num < 2 ^ 18 := lt_trans other.num (by decide)
  change ErlPid.equals sent.term other.term = true ↔ _
  simp only [ErlPid.equals, ErlangPid.Sent.term, Bool.and_eq_true, beq_iff_eq, name_inj,
    ofNat_inj small fits, ofNat_inj sent.serial other.serial, and_assoc]

theorem equals_port {left right : ErlangPort} (sent : left.Sent) (other : right.Sent) :
    (simple (.erlPort (some sent.term))).equals (simple (.erlPort (some other.term))) = true ↔
      left.node = right.node ∧ left.id % 2 ^ 18 = right.id % 2 ^ 18 := by
  change ErlPort.equals sent.term other.term = true ↔ _
  simp only [ErlPort.equals, ErlangPort.Sent.term, Bool.and_eq_true, beq_iff_eq, name_inj,
    ← BitVec.toNat_inj, BitVec.toNat_ofNat]

theorem setWidth_inj {left right : BitVec 32} (small : left.toNat < 2 ^ 18)
    (other : right.toNat < 2 ^ 18) : left.setWidth 18 = right.setWidth 18 ↔ left = right := by
  rw [← BitVec.toNat_inj, ← BitVec.toNat_inj, BitVec.toNat_setWidth, BitVec.toNat_setWidth,
    Nat.mod_eq_of_lt small, Nat.mod_eq_of_lt other]

theorem equals_ref {left right : ErlangRef} (sent : left.Sent) (other : right.Sent)
    (words : left.n.length = 1 ∨ left.n.length = 3)
    (otherWords : right.n.length = 1 ∨ right.n.length = 3) (unset : BitVec 32) :
    (simple (.erlRef (some (sent.term unset)))).equals
        (simple (.erlRef (some (other.term unset)))) = true ↔
      left.node = right.node ∧ left.n = right.n := by
  change ErlRef.equals (sent.term unset) (other.term unset) = true ↔ _
  have small := sent.first
  have fits := other.first
  simp only [ErlRef.equals, ErlangRef.Sent.term, Bool.and_eq_true, beq_iff_eq, name_inj]
  obtain ⟨name, ids, creation⟩ := left
  obtain ⟨otherName, otherIds, otherCreation⟩ := right
  rcases words with one | three <;> rcases otherWords with otherOne | otherThree
  · obtain ⟨word, rfl⟩ := List.length_eq_one_iff.mp one
    obtain ⟨otherWord, rfl⟩ := List.length_eq_one_iff.mp otherOne
    simp [setWidth_inj (small word rfl) (fits otherWord rfl)]
  · simp only at one otherThree ⊢
    have differ : ids ≠ otherIds := by
      rintro rfl
      omega
    simp [one, otherThree, differ]
  · simp only at three otherOne ⊢
    have differ : ids ≠ otherIds := by
      rintro rfl
      omega
    simp [three, otherOne, differ]
  · obtain ⟨word, second, third, rfl⟩ := List.length_eq_three.mp three
    obtain ⟨otherWord, otherSecond, otherThird, rfl⟩ := List.length_eq_three.mp otherThree
    simp [setWidth_inj (small word rfl) (fits otherWord rfl), and_assoc]

end Terms

/-- Pids and references of one or three words keep their identity. A port keeps the low 18 bits of
its id. A reference in the old format is refused. -/
theorem identifiers_carried {ei : Ei} (identifiers : ei.Identifiers) {fuel : Nat}
    (enough : 0 < fuel) :
    Carries ei fuel .pidExt ei.decodePid ErlangPid.Sent id (fun left right =>
        left.node = right.node ∧ left.num = right.num ∧ left.serial = right.serial) ∧
      Carries ei fuel .portExt ei.decodePort ErlangPort.Sent
        (fun port => { port with id := port.id % 2 ^ 18 }) (fun left right =>
          left.node = right.node ∧ left.id % 2 ^ 18 = right.id % 2 ^ 18) ∧
      Carries ei fuel .newReferenceExt ei.decodeRef
        (fun ref => ref.Sent ∧ (ref.n.length = 1 ∨ ref.n.length = 3)) id (fun left right =>
          left.node = right.node ∧ left.n = right.n) ∧
      ∀ ref bytes, Item ei bytes (fun type _ => type = referenceExt) ei.decodeRef ref →
        Refuses (EIInputBuffer.readTerm ei fuel) bytes
          (.eiDecode (text "Unknown message content type 101")) := by
  obtain ⟨fuel, rfl⟩ : ∃ rest, fuel = rest + 1 := ⟨fuel - 1, by omega⟩
  refine ⟨⟨?_, ?_⟩, ⟨?_, ?_⟩, ⟨?_, ?_⟩, fun _ _ item => refuses_referenceExt item⟩
  · intro pid bytes sent item
    obtain ⟨again, encoded, written⟩ := identifiers.pid pid sent
    have converted : itemOf ei (.erlPid (some sent.term)) = some again := by
      rw [itemOf, erlPid2EI_term, Option.bind_some, encoded]
    exact ⟨_, yields_pid sent item fuel, fun buffer =>
      ⟨again, writeTerm_item converted fuel buffer, written⟩⟩
  · intro left right first second leftTerm rightTerm sent other item otherItem read otherRead
    obtain rfl := Option.some.inj (Option.some.inj (read.unique (yields_pid sent item fuel)))
    obtain rfl :=
      Option.some.inj (Option.some.inj (otherRead.unique (yields_pid other otherItem fuel)))
    exact equals_pid sent other
  · intro port bytes sent item
    have narrow : ErlangPort.Sent { port with id := port.id % 2 ^ 18 } :=
      ⟨sent.node, lt_trans (Nat.mod_lt _ (by decide)) (by decide), sent.creation⟩
    obtain ⟨again, encoded, written⟩ := identifiers.port _ narrow
    have converted : itemOf ei (.erlPort (some sent.term)) = some again := by
      rw [itemOf, erlPort2EI_term, Option.bind_some, encoded]
    exact ⟨_, yields_port sent item fuel, fun buffer =>
      ⟨again, writeTerm_item converted fuel buffer, written⟩⟩
  · intro left right first second leftTerm rightTerm sent other item otherItem read otherRead
    obtain rfl := Option.some.inj (Option.some.inj (read.unique (yields_port sent item fuel)))
    obtain rfl :=
      Option.some.inj (Option.some.inj (otherRead.unique (yields_port other otherItem fuel)))
    exact equals_port sent other
  · rintro ref bytes ⟨sent, words⟩ item
    obtain ⟨again, encoded, written⟩ := identifiers.ref ref sent
    have converted : itemOf ei (.erlRef (some (sent.term ei.unset))) = some again := by
      rw [itemOf, erlRef2EI_term sent words, Option.bind_some, encoded]
    exact ⟨_, yields_ref sent item fuel, fun buffer =>
      ⟨again, writeTerm_item converted fuel buffer, written⟩⟩
  · rintro left right first second leftTerm rightTerm ⟨sent, words⟩ ⟨other, otherWords⟩ item
      otherItem read otherRead
    obtain rfl := Option.some.inj (Option.some.inj (read.unique (yields_ref sent item fuel)))
    obtain rfl :=
      Option.some.inj (Option.some.inj (otherRead.unique (yields_ref other otherItem fuel)))
    exact equals_ref sent other words otherWords ei.unset

namespace ExternalFormat

open ByteParser

theorem identifiers_externalFormat : externalFormat.Identifiers where
  pid pid sent :=
    lawful_externalFormat.pid pid sent.node.clean sent.num sent.serial sent.creation
  port port sent := by
    refine ⟨_, rfl, item_of_body .portExt (by rfl) (sized_zero rfl) rfl (parses_onlyTag 102 ?_)⟩
    have same : port.id % 2 ^ 28 = port.id := Nat.mod_eq_of_lt sent.id
    rw [same]
    have fits : port.id < 256 ^ 4 := lt_trans sent.id (by decide)
    have last := (parses_creation sent.creation).map fun creation =>
      ErlangPort.mk port.node port.id creation
    exact (parses_node sent.node.clean).bind ((parses_number fits).bind last)
  ref ref sent := by
    have count : ref.n.length < 256 ^ 2 := lt_of_le_of_lt sent.words.2 (by decide)
    exact ⟨_, rfl, item_of_body .newReferenceExt (by rfl) (sized_zero rfl) rfl
      (parses_ref sent.node.clean count sent.creation)⟩

end ExternalFormat

open ExternalFormat

/-- A port of the node `n@h` with an id of more than 18 bits. -/
def widePort : ErlangPort := ⟨[110, 64, 104], 2 ^ 18 + 5, 1⟩

/-- A port of the same node with a small id. -/
def narrowPort : ErlangPort := ⟨[110, 64, 104], 5, 1⟩

theorem sent_widePort : widePort.Sent := ⟨⟨by decide, by decide⟩, by decide, by decide⟩

theorem sent_narrowPort : narrowPort.Sent := ⟨⟨by decide, by decide⟩, by decide, by decide⟩

/-- A reference of the same node in the old format. -/
def oldRef : Bytes := 101 :: (node [110, 64, 104] ++ (ByteParser.bigEndian 4 5 ++ creation 1))

theorem item_oldRef : Item externalFormat oldRef (fun type _ => type = referenceExt)
    externalFormat.decodeRef ⟨[110, 64, 104], [5], 1⟩ := by
  have last := (@parses_creation 1 (by decide)).map (ErlangRef.mk [110, 64, 104] [.ofNat 32 5])
  exact item_of_body referenceExt (by rfl) (sized_zero rfl) rfl
    ((parses_node sent_narrowPort.node.clean).bind
      ((@ByteParser.parses_number 4 5 (by decide)).bind last))

/-- The calls of the external format carry the fields of the two ports, and the reference in the
old format is refused. -/
theorem identifiers_carried_ports :
    Carries externalFormat 1 .portExt externalFormat.decodePort ErlangPort.Sent
        (fun port => { port with id := port.id % 2 ^ 18 }) (fun left right =>
          left.node = right.node ∧ left.id % 2 ^ 18 = right.id % 2 ^ 18) ∧
      Refuses (EIInputBuffer.readTerm externalFormat 1) oldRef
        (.eiDecode (text "Unknown message content type 101")) :=
  have carried := identifiers_carried identifiers_externalFormat Nat.one_pos
  ⟨carried.2.1, carried.2.2.2 _ _ item_oldRef⟩

/-- Two ports with different ids are read as equal terms. -/
theorem ports_alias : externalFormat.Identifiers ∧ widePort.Sent ∧ narrowPort.Sent ∧
    widePort.id ≠ narrowPort.id ∧ ∃ first second leftTerm rightTerm,
      Item externalFormat first (fun type _ => type = .portExt) externalFormat.decodePort widePort ∧
      Item externalFormat second (fun type _ => type = .portExt) externalFormat.decodePort
        narrowPort ∧
      Yields (EIInputBuffer.readTerm externalFormat 1) first (some (some leftTerm)) ∧
      Yields (EIInputBuffer.readTerm externalFormat 1) second (some (some rightTerm)) ∧
      leftTerm.equals rightTerm = true := by
  obtain ⟨first, -, item⟩ := identifiers_externalFormat.port widePort sent_widePort
  obtain ⟨second, -, otherItem⟩ := identifiers_externalFormat.port narrowPort sent_narrowPort
  exact ⟨identifiers_externalFormat, sent_widePort, sent_narrowPort, by decide, first, second, _, _,
    item, otherItem, yields_port sent_widePort item 0, yields_port sent_narrowPort otherItem 0,
    (equals_port sent_widePort sent_narrowPort).mpr (by decide)⟩

end Epi.Buffer
