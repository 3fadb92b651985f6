import Epi.Buffer.ExternalFormat
import Epi.Buffer.InputBuffer

namespace Epi.Buffer

open Verification Epi.Type ErlTerm

/-- The item that a term without elements is written as. -/
def itemOf (ei : Ei) : SimpleTerm → Option Bytes
  | .erlAtom mAtom => mAtom.bind fun atom => ei.encodeAtom (cString atom.text)
  | .erlLong mValue => mValue.bind ei.encodeLonglong
  | .erlDouble mValue => mValue.bind ei.encodeDouble
  | .erlString mString => mString.bind fun value => ei.encodeString (cString value)
  | .erlRef ref => (erlRef2EI ref).bind ei.encodeRef
  | .erlPort port => (erlPort2EI port).bind ei.encodePort
  | .erlPid pid => (erlPid2EI pid).bind ei.encodePid
  | .erlBinary mData => mData.bind ei.encodeBinary
  | .erlEmptyList => ei.encodeEmptyList

def rangeNode (ei : Ei) : ErlTerm → Bool
  | .simple (.erlAtom (some mAtom)) => !mAtom.text.contains 0
  | .simple (.erlString (some mString)) =>
      !mString.contains 0 && 0 < mString.length && mString.length ≤ 65535
  | .simple (.erlPid (some pid)) => pid.mId.toNat < 2 ^ 15
  | .simple (.erlBinary (some mData)) => ei.carries mData.length
  | .erlTuple _ _ elems => ei.carries elems.length
  | .erlConsList _ elems => ei.carries (elems.length - 1)
  | _ => true

/-- Atoms and strings hold no NUL, strings have 1 to 65535 bytes, pid ids have 15 bits, and the
sizes of binaries, tuples and lists are carried. -/
def InRange (ei : Ei) (term : ErlTerm) : Prop := term.every (rangeNode ei) = true

instance (ei : Ei) (term : ErlTerm) : Decidable (InRange ei term) :=
  inferInstanceAs (Decidable (_ = true))

def cleanNode : ErlTerm → Bool
  | .simple (.erlPid (some pid)) => !pid.mNode.text.contains 0
  | .simple (.erlPort (some port)) => !port.mNode.text.contains 0
  | .simple (.erlRef (some ref)) => !ref.mNode.text.contains 0
  | _ => true

/-- Node names hold no NUL. -/
def CleanNodes (term : ErlTerm) : Prop := term.every cleanNode = true

instance (term : ErlTerm) : Decidable (CleanNodes term) := inferInstanceAs (Decidable (_ = true))

theorem contains_zero {value : Bytes} : (!value.contains 0) = true ↔ 0 ∉ value := by
  rw [Bool.not_eq_true', ← Bool.not_eq_true, List.contains_iff_mem]

theorem zero_not_mem_cString (value : Bytes) : 0 ∉ cString value := by
  intro member
  unfold cString at member
  have kept := List.mem_takeWhile_imp member
  exact absurd kept (by decide)

/-- The node name that is left of a C string. -/
def cutNode (node : NodeName) : Option NodeName :=
  if nonempty : 0 < (cString node.text).length then
    some ⟨cString node.text, nonempty,
      (List.takeWhile_sublist (· != 0)).length_le.trans node.bounded⟩
  else none

theorem check_cString (node : NodeName) :
    (NodeName.check (cString node.text)).toOption = cutNode node := by
  have bounded : (cString node.text).length ≤ maxNodeLength :=
    (List.takeWhile_sublist (· != 0)).length_le.trans node.bounded
  unfold NodeName.check cutNode
  rw [dif_neg (by omega)]
  by_cases empty : (cString node.text).length = 0
  · rw [dif_pos empty, dif_neg (by omega)]
    rfl
  · rw [dif_neg empty, dif_pos (by omega)]
    rfl

/-- A name without a NUL is left as it is. -/
theorem cutNode_clean {node : NodeName} (clean : 0 ∉ node.text) : cutNode node = some node := by
  have checked := check_cString node
  rw [cString_eq_self clean, NodeName.check_text] at checked
  exact checked.symm

/-- A name that is left as it is has no NUL. -/
theorem clean_of_cutNode {node left : NodeName} (cut : cutNode node = some left)
    (same : left = node) : 0 ∉ node.text := by
  unfold cutNode at cut
  split at cut
  · have text : cString node.text = left.text := congrArg NodeName.text (Option.some.inj cut)
    rw [same] at text
    rw [← text]
    exact zero_not_mem_cString node.text
  · cases cut

def receivedRef (ref : ErlRef) : Option ErlRef :=
  (cutNode ref.mNode).map fun node => { ref with mNode := node }

def receivedPort (port : ErlPort) : Option ErlPort :=
  (cutNode port.mNode).map fun node => { port with mNode := node }

def receivedPid (pid : ErlPid) : Option ErlPid :=
  (cutNode pid.mNode).map fun node => { pid with mNode := node }

/-- The value that is read for a written value. Only the node names can change. -/
def receivedSimple : SimpleTerm → Option SimpleTerm
  | .erlRef (some ref) => (receivedRef ref).map fun read => .erlRef (some read)
  | .erlPort (some port) => (receivedPort port).map fun read => .erlPort (some read)
  | .erlPid (some pid) => (receivedPid pid).map fun read => .erlPid (some read)
  | value => some value

/-- A read at the start of the bytes returns the result and stops behind the bytes. A read without
a result does not return. -/
def Yields {Value : Type} (call : Method EIInputBuffer Value) (bytes : Bytes)
    (result : Option Value) : Prop :=
  ∀ front back,
    (call ⟨front ++ (bytes ++ back), front.length⟩).1.toOption = result ∧
      (result.isSome = true → (call ⟨front ++ (bytes ++ back), front.length⟩).2 =
        ⟨front ++ (bytes ++ back), front.length + bytes.length⟩)

section Rules

variable {First Second : Type} {bytes : Bytes}

theorem Yields.returns {call : Method EIInputBuffer First} {value : First}
    (yields : Yields call bytes (some value)) (front back : Bytes) :
    call ⟨front ++ (bytes ++ back), front.length⟩ =
      (.returns value, ⟨front ++ (bytes ++ back), front.length + bytes.length⟩) := by
  obtain ⟨outcome, after⟩ := yields front back
  exact Prod.ext (Outcome.toOption_eq_some.mp outcome) (after rfl)

theorem yields_of_returns {call : Method EIInputBuffer First} {value : First}
    (ran : ∀ front back, call ⟨front ++ (bytes ++ back), front.length⟩ =
      (.returns value, ⟨front ++ (bytes ++ back), front.length + bytes.length⟩)) :
    Yields call bytes (some value) := by
  intro front back
  rw [ran front back]
  exact ⟨rfl, fun _ => rfl⟩

/-- Two reads of the same bytes give the same. -/
theorem Yields.unique {call : Method EIInputBuffer First} {left right : Option First}
    (first : Yields call bytes left) (second : Yields call bytes right) : left = right :=
  (first [] []).1.symm.trans (second [] []).1

theorem yields_lift (call : Call First) : Yields (Effect.lift call) [] call.toOption := by
  intro front back
  exact ⟨rfl, fun _ => rfl⟩

theorem yields_pure (value : First) : Yields (pure value) [] (some value) :=
  yields_lift (.returns value)

/-- The second read starts behind the bytes of the first one. -/
theorem Yields.bind {call : Method EIInputBuffer First}
    {next : First → Method EIInputBuffer Second} {later : Bytes} {read : Option First}
    {result : Option Second} (first : Yields call bytes read)
    (missing : read = none → result = none)
    (second : ∀ value, read = some value → Yields (next value) later result) :
    Yields (call >>= next) (bytes ++ later) result := by
  intro front back
  cases read with
  | none =>
      have failed := (first front (later ++ back)).1
      rw [missing rfl, Effect.bind_run, List.append_assoc]
      rcases ran : call ⟨front ++ (bytes ++ (later ++ back)), front.length⟩ with ⟨outcome, after⟩
      rw [ran] at failed
      cases outcome with
      | returns value => cases failed
      | _ =>
          constructor
          · rfl
          · intro done
            cases done
  | some value =>
      have ran := first.returns front (later ++ back)
      have rest := second value rfl (front ++ bytes) back
      rw [List.append_assoc bytes, Effect.bind_of_returns ran]
      simpa only [List.append_assoc, List.length_append, Nat.add_assoc] using rest

theorem Yields.map {call : Method EIInputBuffer First} {read : Option First}
    (first : Yields call bytes read) (build : First → Second) :
    Yields (call >>= fun value => pure (build value)) bytes (read.map build) := by
  rw [← List.append_nil bytes]
  apply first.bind
  · rintro rfl
    rfl
  · rintro value rfl
    exact yields_pure (build value)

/-- A specification and a handler that throws again do not change what is read. -/
theorem Yields.mapOutcome {call : Method EIInputBuffer First} {read : Option First}
    (first : Yields call bytes read) {transform : Call First → Call First}
    (same : ∀ outcome, (transform outcome).toOption = outcome.toOption) :
    Yields (Effect.mapOutcome transform call) bytes read := by
  intro front back
  simp only [Effect.mapOutcome_run, same]
  exact first front back

theorem toOption_rethrow (raise : Bytes → EpiException) (outcome : Call First) :
    (Call.catchingAny (fun error => .throws (raise error.mMsg)) outcome).toOption =
      outcome.toOption := by
  apply Outcome.toOption_handle
  intro error caught picked
  rw [← Option.some.inj picked]
  rfl

theorem toOption_catching (caught : ExceptionClass) (raise : Bytes → EpiException)
    (outcome : Call First) :
    (Call.catching caught (fun error => .throws (raise error.mMsg)) outcome).toOption =
      outcome.toOption := by
  apply Outcome.toOption_handle
  intro error handled picked
  split at picked
  · rw [← Option.some.inj picked]
    rfl
  · cases picked

end Rules

section Simple

variable {ei : Ei} {Value : Type} {bytes : Bytes} {kind : ExternalType → Nat → Prop}
  {decoder : Decoder Value} {value : Value}

theorem yields_decode (item : Item ei bytes kind decoder value) (failure : Bytes) :
    Yields (EIInputBuffer.decode failure decoder) bytes (some value) := by
  apply yields_of_returns
  intro front back
  simp only [EIInputBuffer.decode, item.decoded front back]

/-- A read of an item takes the case of its type. -/
theorem yields_readTerm (item : Item ei bytes kind decoder value) {later : Bytes} {fuel : Nat}
    {result : Option ErlTerm}
    (cases : ∀ type size, kind type size →
      Yields (EIInputBuffer.readType ei (EIInputBuffer.readTerm ei fuel) size type)
        (bytes ++ later) result) :
    Yields (EIInputBuffer.readTerm ei (fuel + 1)) (bytes ++ later) (result.map some) := by
  apply Yields.mapOutcome _ (Outcome.toOption_declares _)
  intro front back
  obtain ⟨type, size, typed, held⟩ := item.typed front (later ++ back)
  have inside : front.length ≠ (front ++ (bytes ++ later ++ back)).length := by
    have positive := List.length_pos_iff.mpr item.nonempty
    simp only [List.length_append]
    omega
  obtain ⟨outcome, after⟩ := cases type size held front back
  rw [← List.append_assoc bytes] at typed
  unfold EIInputBuffer.readNext
  rw [if_neg inside]
  simp only [typed, Outcome.toOption_bind, outcome]
  refine ⟨?_, fun found => after (by simpa using found)⟩
  cases result <;> rfl

/-- An item of a type whose case reads one value is a term without elements. -/
theorem yields_item (item : Item ei bytes kind decoder value) {failure : Bytes}
    {build : Nat → Value → Method EIInputBuffer ErlTerm} {result : Option ErlTerm}
    (cases : ∀ type size, kind type size → ∀ nested,
      EIInputBuffer.readType ei nested size type =
        (do
          let read ← EIInputBuffer.decode failure decoder
          build size read))
    (builds : ∀ type size, kind type size → Yields (build size value) [] result) (fuel : Nat) :
    Yields (EIInputBuffer.readTerm ei (fuel + 1)) bytes (result.map some) := by
  rw [← List.append_nil bytes]
  apply yields_readTerm item
  intro type size held
  rw [cases type size held]
  apply (yields_decode item failure).bind
  · intro missing
    cases missing
  · intro read same
    rw [← Option.some.inj same]
    exact builds type size held

/-- The checks of a new value decide what is read. -/
theorem yields_built {Built : Type} {check : Call Built} {built : Option Built}
    (checked : check.toOption = built) {handled : Call Built → Call Built}
    (same : ∀ outcome, (handled outcome).toOption = outcome.toOption)
    (build : Built → ErlTerm) :
    Yields (do
      let value ← Effect.lift (handled check)
      return build value) [] (built.map build) := by
  rw [← checked, ← same check]
  exact (yields_lift (handled check)).map build

end Simple

theorem cutNode_nodeText (node : NodeName) : NodeText (cString node.text) :=
  ⟨zero_not_mem_cString node.text,
    (List.takeWhile_sublist (· != 0)).length_le.trans node.bounded⟩

/-- The ids that a reference of its style hands over. -/
def sentIds (ref : ErlRef) : List (BitVec 32) :=
  if ref.mNewStyle then [ref.mId0.setWidth 32, ref.mId1, ref.mId2] else [ref.mId0.setWidth 32]

/-- A reference is rebuilt from the ids that it hands over. -/
theorem init_sentIds (unset : BitVec 32) (ref : ErlRef) :
    (ErlRef.init (cString ref.mNode.text) (EIInputBuffer.refIds unset (sentIds ref))
      ref.mCreation.toNat ((sentIds ref).length != 1)).toOption =
        receivedRef ref := by
  unfold receivedRef
  obtain ⟨node, first, second, third, creation, newStyle, old⟩ := ref
  have narrow : (first.setWidth 32).setWidth 18 = first := by
    apply BitVec.eq_of_toNat_eq
    have small := first.isLt
    simp only [BitVec.toNat_setWidth]
    omega
  rw [ErlRef.init, Outcome.toOption_bind, check_cString]
  cases newStyle with
  | true =>
      cases cutNode node <;>
        simp [EIInputBuffer.refIds, sentIds, narrow]
  | false =>
      obtain ⟨rfl, rfl⟩ := old rfl
      cases cutNode node <;>
        simp [EIInputBuffer.refIds, sentIds, narrow]

theorem init_pid (pid : ErlPid) :
    (ErlPid.init (cString pid.mNode.text) pid.mId.toNat pid.mSerial.toNat
      pid.mCreation.toNat).toOption =
        receivedPid pid := by
  rw [receivedPid, ErlPid.init, Outcome.toOption_bind, check_cString]
  cases cutNode pid.mNode <;> simp

theorem init_port (port : ErlPort) :
    (ErlPort.init (cString port.mNode.text) port.mId.toNat port.mCreation.toNat).toOption =
      receivedPort port := by
  rw [receivedPort, ErlPort.init, Outcome.toOption_bind, check_cString]
  cases cutNode port.mNode <;> simp

/-- A valid value is written as one item, and the item is read as the value with its node cut. -/
theorem simple_item {ei : Ei} (lawful : ei.Lawful) {value : SimpleTerm}
    (valid : value.isValid = true) (inRange : rangeNode ei (.simple value) = true) :
    ∃ bytes, itemOf ei value = some bytes ∧
      ∀ fuel, Yields (EIInputBuffer.readTerm ei (fuel + 1)) bytes
        (((receivedSimple value).map ErlTerm.simple).map some) := by
  cases value with
  | erlAtom mAtom =>
      obtain ⟨atom, rfl⟩ := Option.isSome_iff_exists.mp valid
      have clean : 0 ∉ atom.text := contains_zero.mp inRange
      obtain ⟨bytes, encoded, item⟩ := lawful.atom atom.text clean atom.nonempty atom.bounded
      refine ⟨bytes, ?_, fun fuel => ?_⟩
      · simp only [itemOf, Option.bind_some, cString_eq_self clean, encoded]
      · apply yields_item item
        · intro type size held nested
          subst held
          rfl
        · intro type size held
          have checked : (AtomText.init (cString atom.text)).toOption = some atom := by
            rw [cString_eq_self clean, AtomText.init_text]
            rfl
          exact yields_built checked (toOption_catching .epiBadArgument .eiDecode)
            fun atom => .simple (.erlAtom (some atom))
  | erlLong mValue =>
      obtain ⟨number, rfl⟩ := Option.isSome_iff_exists.mp valid
      obtain ⟨bytes, encoded, item⟩ := lawful.longlong number
      refine ⟨bytes, encoded, fun fuel => ?_⟩
      apply yields_item item
      · intro type size held nested
        simp only [List.mem_cons, List.not_mem_nil, or_false] at held
        rcases held with rfl | rfl | rfl | rfl <;> rfl
      · intro type size held
        exact yields_pure _
  | erlDouble mValue =>
      obtain ⟨number, rfl⟩ := Option.isSome_iff_exists.mp valid
      obtain ⟨bytes, encoded, item⟩ := lawful.double number
      refine ⟨bytes, encoded, fun fuel => ?_⟩
      apply yields_item item
      · intro type size held nested
        rcases held with rfl | rfl <;> rfl
      · intro type size held
        exact yields_pure _
  | erlString mString =>
      obtain ⟨letters, rfl⟩ := Option.isSome_iff_exists.mp valid
      simp only [rangeNode, Bool.and_eq_true, contains_zero, decide_eq_true_eq] at inRange
      obtain ⟨⟨clean, positive⟩, short⟩ := inRange
      obtain ⟨bytes, encoded, item⟩ := lawful.string letters clean positive short
      refine ⟨bytes, ?_, fun fuel => ?_⟩
      · simp only [itemOf, Option.bind_some, cString_eq_self clean, encoded]
      · apply yields_item item
        · intro type size held nested
          subst held
          rfl
        · intro type size held
          rw [cString_eq_self clean]
          exact yields_pure _
  | erlRef ref =>
      obtain ⟨ref, rfl⟩ := Option.isSome_iff_exists.mp valid
      obtain ⟨bytes, encoded, item⟩ := lawful.ref
        ⟨cString ref.mNode.text, sentIds ref, ref.mCreation.toNat⟩ (cutNode_nodeText ref.mNode)
        (by cases style : ref.mNewStyle <;> simp [sentIds, style]) ref.mCreation.isLt
      refine ⟨bytes, encoded, fun fuel => ?_⟩
      apply yields_item item
      · intro type size held nested
        subst held
        rfl
      · intro type size held
        rw [receivedSimple, Option.map_map]
        exact yields_built (init_sentIds ei.unset ref) (toOption_rethrow .eiDecode)
          fun read => .simple (.erlRef (some read))
  | erlPort port =>
      obtain ⟨port, rfl⟩ := Option.isSome_iff_exists.mp valid
      obtain ⟨bytes, encoded, item⟩ := lawful.port
        ⟨cString port.mNode.text, port.mId.toNat, port.mCreation.toNat⟩
        (cutNode_nodeText port.mNode) port.mId.isLt port.mCreation.isLt
      refine ⟨bytes, encoded, fun fuel => ?_⟩
      apply yields_item item
      · intro type size held nested
        subst held
        rfl
      · intro type size held
        rw [receivedSimple, Option.map_map]
        exact yields_built (init_port port) (toOption_rethrow .decode)
          fun read => .simple (.erlPort (some read))
  | erlPid pid =>
      obtain ⟨pid, rfl⟩ := Option.isSome_iff_exists.mp valid
      have small : pid.mId.toNat < 2 ^ 15 := by simpa [rangeNode] using inRange
      obtain ⟨bytes, encoded, item⟩ := lawful.pid
        ⟨cString pid.mNode.text, pid.mId.toNat, pid.mSerial.toNat, pid.mCreation.toNat⟩
        (cutNode_nodeText pid.mNode) small pid.mSerial.isLt pid.mCreation.isLt
      refine ⟨bytes, encoded, fun fuel => ?_⟩
      apply yields_item item
      · intro type size held nested
        subst held
        rfl
      · intro type size held
        rw [receivedSimple, Option.map_map]
        exact yields_built (init_pid pid) (toOption_rethrow .eiDecode)
          fun read => .simple (.erlPid (some read))
  | erlBinary mData =>
      obtain ⟨data, rfl⟩ := Option.isSome_iff_exists.mp valid
      obtain ⟨bytes, encoded, item⟩ := lawful.binary data inRange
      refine ⟨bytes, encoded, fun fuel => ?_⟩
      apply yields_item item
      · intro type size held nested
        obtain ⟨rfl, -⟩ := held
        rfl
      · intro type size held
        obtain ⟨-, rfl⟩ := held
        rw [List.take_length]
        exact yields_pure _
  | erlEmptyList =>
      obtain ⟨bytes, encoded, item⟩ := lawful.emptyList
      refine ⟨bytes, encoded, fun fuel => ?_⟩
      apply yields_item item
      · intro type size held nested
        subst held
        rfl
      · intro type size held
        exact yields_pure _

end Epi.Buffer
