import Epi.Buffer.Ei
import Epi.Library.ByteParser

namespace Epi.Buffer

open Verification ByteParser

namespace ExternalFormat

/-- A count of 32 bits. -/
def size (count : Nat) : Bytes := bigEndian 4 count

def parseSize : ByteParser Nat := number 4

/-- The counts that an `int` holds. -/
def carries (count : Nat) : Bool := count < 2 ^ 31

/-- The conversion of a count to `int`. -/
def intOf (count : Nat) : Int := (BitVec.ofNat 32 count).toInt

theorem parses_size {count : Nat} (carried : carries count = true) :
    Parses parseSize (size count) count := by
  have fits : count < 256 ^ 4 := lt_trans (of_decide_eq_true carried) (by decide)
  exact parses_number fits

theorem intOf_carried {count : Nat} (carried : carries count = true) : intOf count = count := by
  have small : count < 2 ^ 31 := of_decide_eq_true carried
  rw [intOf, BitVec.toInt_eq_toNat_of_lt (by rw [BitVec.toNat_ofNat]; omega), BitVec.toNat_ofNat,
    Nat.mod_eq_of_lt (by omega)]

/-- Items begin with their tag. -/
def tagged {Value : Type} (body : UInt8 → ByteParser Value) : ByteParser Value := do
  let tag ← byte
  body tag

def onlyTag {Value : Type} (tag : UInt8) (body : ByteParser Value) : UInt8 → ByteParser Value :=
  fun head => if head = tag then body else fail

/-- The decoder of a parser counts the bytes that are left. -/
def decoder {Value : Type} (parser : ByteParser Value) : Decoder Value := fun buff index =>
  (parser (buff.drop index)).map fun (value, rest) => (value, buff.length - rest.length)

/-- The tags of `ei.h`. -/
def typeTag (tag : UInt8) : ExternalType :=
  match tag.toNat with
  | 97 => .smallIntegerExt
  | 98 => .integerExt
  | 99 => .floatExt
  | 70 => .newFloatExt
  | 100 => .atomExt
  | 114 => .newReferenceExt
  | 102 => .portExt
  | 103 => .pidExt
  | 104 => .smallTupleExt
  | 105 => .largeTupleExt
  | 106 => .nilExt
  | 107 => .stringExt
  | 108 => .listExt
  | 109 => .binaryExt
  | 110 => .smallBigExt
  | 111 => .largeBigExt
  | code => .other code

def sizeOf : ExternalType → ByteParser Nat
  | .atomExt | .stringExt => number 2
  | .smallTupleExt => number 1
  | .largeTupleExt | .listExt | .binaryExt => parseSize
  | _ => pure 0

def typeAndSize : ByteParser (ExternalType × Nat) := do
  let tag ← byte
  let size ← sizeOf (typeTag tag)
  return (typeTag tag, size)

def atomBody (letters : Bytes) : Bytes := bigEndian 2 letters.length ++ letters

def parseLetters : ByteParser Bytes := do
  let count ← number 2
  take count

/-- The node atom in front of the numbers. -/
def node (letters : Bytes) : Bytes := 100 :: atomBody letters

def parseNode : ByteParser Bytes := tagged (onlyTag 100 parseLetters)

def creation (value : Nat) : Bytes := bigEndian 1 (value % 4)

def encodeLonglong (value : BitVec 64) : Bytes :=
  if 0 ≤ value.toInt ∧ value.toInt < 256 then
    97 :: bigEndian 1 value.toNat
  else if -(2 ^ 27) ≤ value.toInt ∧ value.toInt < 2 ^ 27 then
    98 :: bigEndian 4 (value.setWidth 32).toNat
  else
    let magnitude := littleEndian 8 value.toInt.natAbs
    110 :: (bigEndian 1 magnitude.length ++
      (bigEndian 1 (if value.toInt < 0 then 1 else 0) ++ magnitude))

def parseLonglong (tag : UInt8) : ByteParser (BitVec 64) :=
  if tag = 97 then do
    let value ← number 1
    return .ofNat 64 value
  else if tag = 98 then do
    let value ← number 4
    return (BitVec.ofNat 32 value).signExtend 64
  else if tag = 110 then do
    let count ← number 1
    let sign ← number 1
    let magnitude ← take count
    return .ofInt 64 (if sign = 1 then -(fromLittleEndian magnitude : Int)
      else fromLittleEndian magnitude)
  else
    fail

def encodeString (value : Bytes) : Bytes :=
  if value.length = 0 then [106]
  else if value.length ≤ 65535 then 107 :: atomBody value
  else 108 :: (size value.length ++ (value.flatMap fun letter => [97, letter]) ++ [106])

def encodeIds (ids : List (BitVec 32)) : Bytes := ids.flatMap fun id => bigEndian 4 id.toNat

def parseIds : Nat → ByteParser (List (BitVec 32))
  | 0 => pure []
  | count + 1 => do
      let id ← number 4
      let rest ← parseIds count
      return .ofNat 32 id :: rest

def encodeRef (ref : ErlangRef) : Bytes :=
  114 :: (bigEndian 2 ref.n.length ++ (node ref.node ++ (creation ref.creation ++ encodeIds ref.n)))

def parseRef : ByteParser ErlangRef := do
  let count ← number 2
  let name ← parseNode
  let creation ← number 1
  let ids ← parseIds count
  return ⟨name, ids, creation⟩

/-- A reference in the old format has one id, which stands before the creation. -/
def parseOldRef : ByteParser ErlangRef := do
  let name ← parseNode
  let id ← number 4
  let creation ← number 1
  return ⟨name, [.ofNat 32 id], creation⟩

def parseAnyRef (tag : UInt8) : ByteParser ErlangRef :=
  if tag = 114 then parseRef else if tag = 101 then parseOldRef else fail

def encodePort (port : ErlangPort) : Bytes :=
  102 :: (node port.node ++ (bigEndian 4 (port.id % 2 ^ 28) ++ creation port.creation))

def parsePort : ByteParser ErlangPort := do
  let name ← parseNode
  let id ← number 4
  let creation ← number 1
  return ⟨name, id, creation⟩

def encodePid (pid : ErlangPid) : Bytes :=
  103 :: (node pid.node ++ (bigEndian 4 (pid.num % 2 ^ 15) ++
    (bigEndian 4 (pid.serial % 2 ^ 13) ++ creation pid.creation)))

def parsePid : ByteParser ErlangPid := do
  let name ← parseNode
  let num ← number 4
  let serial ← number 4
  let creation ← number 1
  return ⟨name, num, serial, creation⟩

def parseData : ByteParser Bytes := do
  let count ← parseSize
  take count

def encodeTupleHeader (arity : Nat) : Bytes :=
  if arity < 256 then 104 :: bigEndian 1 arity else 105 :: size arity

def tupleArity (tag : UInt8) : ByteParser Nat :=
  if tag = 104 then number 1 else if tag = 105 then parseSize else fail

def parseTupleHeader (tag : UInt8) : ByteParser Int := do
  let arity ← tupleArity tag
  return intOf arity

def encodeListHeader (arity : Nat) : Bytes := if arity = 0 then [106] else 108 :: size arity

def listArity (tag : UInt8) : ByteParser Nat :=
  if tag = 106 then pure 0 else if tag = 108 then parseSize else fail

def parseListHeader (tag : UInt8) : ByteParser Int := do
  let arity ← listArity tag
  return intOf arity

end ExternalFormat

open ExternalFormat

/-- The library on the bytes of the external term format. -/
def externalFormat : Ei where
  version := [131]
  carries := carries
  encodeAtom letters := some (100 :: atomBody letters)
  encodeLonglong value := some (encodeLonglong value)
  encodeDouble value := some (70 :: bigEndian 8 value.bits.toNat)
  encodeString value := some (encodeString value)
  encodeRef ref := some (encodeRef ref)
  encodePort port := some (encodePort port)
  encodePid pid := some (encodePid pid)
  encodeBinary data := some (109 :: (size data.length ++ data))
  encodeTupleHeader arity := some (encodeTupleHeader arity)
  encodeListHeader arity := some (encodeListHeader arity)
  encodeEmptyList := some [106]
  getType buff index := (typeAndSize (buff.drop index)).map (·.1)
  decodeVersion := decoder (tagged (onlyTag 131 (pure ())))
  decodeAtom := decoder (tagged (onlyTag 100 parseLetters))
  decodeLonglong := decoder (tagged parseLonglong)
  decodeDouble := decoder (tagged (onlyTag 70 (do
    let bits ← number 8
    return ⟨.ofNat 64 bits⟩)))
  decodeString := decoder (tagged (onlyTag 107 parseLetters))
  decodeRef := decoder (tagged parseAnyRef)
  decodePort := decoder (tagged (onlyTag 102 parsePort))
  decodePid := decoder (tagged (onlyTag 103 parsePid))
  decodeBinary := decoder (tagged (onlyTag 109 parseData))
  decodeTupleHeader := decoder (tagged parseTupleHeader)
  decodeListHeader := decoder (tagged parseListHeader)
  unset := 0

namespace ExternalFormat

theorem parses_tagged {Value : Type} {body : UInt8 → ByteParser Value} {tag : UInt8}
    {bytes : Bytes} {value : Value} (parses : Parses (body tag) bytes value) :
    Parses (tagged body) (tag :: bytes) value :=
  (parses_byte tag).bind parses

theorem parses_onlyTag {Value : Type} {body : ByteParser Value} {bytes : Bytes} {value : Value}
    (tag : UInt8) (parses : Parses body bytes value) :
    Parses (onlyTag tag body tag) bytes value := by
  rw [onlyTag, if_pos rfl]
  exact parses

/-- A decoder reads what its parser reads, at any index. -/
theorem decoder_parses {Value : Type} {parser : ByteParser Value} {bytes : Bytes} {value : Value}
    (parses : Parses parser bytes value) (front back : Bytes) :
    decoder parser (front ++ (bytes ++ back)) front.length =
      some (value, front.length + bytes.length) := by
  have left : (front ++ (bytes ++ back)).length - back.length = front.length + bytes.length := by
    simp only [List.length_append]
    omega
  rw [decoder, List.drop_left, parses back, Option.map_some]
  show some (value, (front ++ (bytes ++ back)).length - back.length) = _
  rw [left]

/-- A tag and a body that the parser of the tag reads are an item. -/
theorem item_of_body {Value : Type} {tag : UInt8} {body sizes : Bytes} (type : ExternalType)
    {count : Nat} {parser : UInt8 → ByteParser Value} {value : Value}
    {kind : ExternalType → Nat → Prop} (typed : typeTag tag = type)
    (sized : ∃ rest, body = sizes ++ rest ∧ Parses (sizeOf type) sizes count)
    (held : kind type count) (parses : Parses (parser tag) body value) :
    Item externalFormat (tag :: body) kind (decoder (tagged parser)) value where
  nonempty := List.cons_ne_nil _ _
  typed front back := by
    obtain ⟨rest, rfl, parsesSize⟩ := sized
    refine ⟨type, count, ?_, held⟩
    have read : typeAndSize (tag :: (sizes ++ rest) ++ back) =
        some ((type, count), rest ++ back) := by
      have ran : typeAndSize (tag :: (sizes ++ rest) ++ back) =
          ((sizeOf (typeTag tag)) (sizes ++ rest ++ back)).bind fun read =>
            some ((typeTag tag, read.1), read.2) := rfl
      rw [ran, typed, List.append_assoc, parsesSize]
      rfl
    simp only [externalFormat, List.drop_left, read, Option.map_some]
  decoded front back := decoder_parses (parses_tagged parses) front back

/-- An item whose type has no size in its body. -/
theorem sized_zero {body : Bytes} {type : ExternalType} (none : sizeOf type = pure 0) :
    ∃ rest, body = [] ++ rest ∧ Parses (sizeOf type) [] 0 := by
  refine ⟨body, rfl, ?_⟩
  rw [none]
  exact parses_pure 0

theorem parses_letters {letters : Bytes} (short : letters.length ≤ 65535) :
    Parses parseLetters (atomBody letters) letters := by
  have fits : letters.length < 256 ^ 2 := by omega
  exact (parses_number fits).bind (parses_take letters)

theorem parses_node {name : Bytes} (text : NodeText name) : Parses parseNode (node name) name := by
  have short : name.length ≤ 65535 := by
    have bounded : name.length ≤ 128 := text.2
    omega
  exact parses_tagged (parses_onlyTag 100 (parses_letters short))

theorem parses_creation {value : Nat} (small : value < 4) :
    Parses (number 1) (creation value) value := by
  rw [creation, Nat.mod_eq_of_lt small]
  exact parses_number (by omega)

theorem parses_ids (ids : List (BitVec 32)) : Parses (parseIds ids.length) (encodeIds ids) ids := by
  induction ids with
  | nil => exact parses_pure []
  | cons id rest ih =>
      have small : id.toNat < 256 ^ 4 := id.isLt
      have value : BitVec.ofNat 32 id.toNat = id := by simp
      have later : Parses (do let rest ← parseIds rest.length; return .ofNat 32 id.toNat :: rest)
          (encodeIds rest) (id :: rest) := by
        rw [value]
        exact ih.map fun rest => id :: rest
      exact (parses_number small).bind later

theorem parses_data {data : Bytes} (carried : carries data.length = true) :
    Parses parseData (size data.length ++ data) data :=
  (parses_size carried).bind (parses_take data)

theorem parses_ref {ref : ErlangRef} (text : NodeText ref.node) (count : ref.n.length < 256 ^ 2)
    (small : ref.creation < 4) :
    Parses (parseAnyRef 114) (bigEndian 2 ref.n.length ++ (node ref.node ++
      (creation ref.creation ++ encodeIds ref.n))) ref := by
  have last := (parses_ids ref.n).map fun ids => ErlangRef.mk ref.node ids ref.creation
  exact (parses_number count).bind ((parses_node text).bind ((parses_creation small).bind last))

theorem parses_magnitude {magnitude : Bytes} (short : magnitude.length < 256) {sign : Nat}
    (small : sign < 256) :
    Parses (parseLonglong 110) (bigEndian 1 magnitude.length ++ (bigEndian 1 sign ++ magnitude))
      (.ofInt 64 (if sign = 1 then -(fromLittleEndian magnitude : Int)
        else fromLittleEndian magnitude)) := by
  have last := (parses_take magnitude).map fun magnitude =>
    BitVec.ofInt 64 (if sign = 1 then -(fromLittleEndian magnitude : Int)
      else fromLittleEndian magnitude)
  exact (parses_number (by simpa using short)).bind
    ((parses_number (by simpa using small)).bind last)

theorem signExtend_setWidth {value : BitVec 64} (low : -(2 ^ 27) ≤ value.toInt)
    (high : value.toInt < 2 ^ 27) : (value.setWidth 32).signExtend 64 = value := by
  apply BitVec.eq_of_toInt_eq
  rw [BitVec.toInt_signExtend_of_le (by omega), BitVec.toInt_setWidth]
  rw [BitVec.toInt_eq_toNat_cond] at low high ⊢
  have bound := value.isLt
  rw [Int.bmod_def]
  by_cases small : 2 * value.toNat < 2 ^ 64
  · simp only [small, if_true] at low high ⊢
    split <;> omega
  · simp only [small, if_false] at low high ⊢
    split <;> omega

theorem signed_magnitude (value : BitVec 64) :
    BitVec.ofInt 64 (if (if value.toInt < 0 then 1 else 0) = 1
      then -(fromLittleEndian (littleEndian 8 value.toInt.natAbs) : Int)
      else fromLittleEndian (littleEndian 8 value.toInt.natAbs)) = value := by
  have small : value.toInt.natAbs < 256 ^ 8 := by
    have low := BitVec.le_toInt value
    have high := BitVec.toInt_lt (x := value)
    omega
  rw [fromLittleEndian_littleEndian small]
  have same : (if (if value.toInt < 0 then 1 else 0) = 1 then -(value.toInt.natAbs : Int)
      else value.toInt.natAbs) = value.toInt := by
    by_cases negative : value.toInt < 0
    · rw [if_pos negative, if_pos rfl]
      omega
    · rw [if_neg negative, if_neg (by decide)]
      omega
  rw [same, BitVec.ofInt_toInt]

theorem item_longlong (value : BitVec 64) :
    Item externalFormat (encodeLonglong value)
      (fun type _ => type ∈ [.smallIntegerExt, .integerExt, .smallBigExt, .largeBigExt])
      externalFormat.decodeLonglong value := by
  unfold encodeLonglong
  split
  · rename_i small
    have fits : value.toNat < 256 ^ 1 := by
      rw [BitVec.toInt_eq_toNat_cond] at small
      split at small <;> omega
    refine item_of_body .smallIntegerExt (by rfl) (sized_zero rfl) (by simp) ?_
    have read := (parses_number fits).map fun value => BitVec.ofNat 64 value
    rw [BitVec.ofNat_toNat, BitVec.setWidth_eq] at read
    exact read
  · split
    · rename_i range
      refine item_of_body .integerExt (by rfl) (sized_zero rfl) (by simp) ?_
      have fits : (value.setWidth 32).toNat < 256 ^ 4 := (value.setWidth 32).isLt
      have same := signExtend_setWidth range.1 range.2
      have read := (parses_number fits).map fun value => (BitVec.ofNat 32 value).signExtend 64
      rw [BitVec.ofNat_toNat, BitVec.setWidth_eq, same] at read
      exact read
    · refine item_of_body .smallBigExt (by rfl) (sized_zero rfl) (by simp) ?_
      have short : (littleEndian 8 value.toInt.natAbs).length < 256 := by
        have bound := littleEndian_length 8 value.toInt.natAbs
        omega
      have sign : (if value.toInt < 0 then 1 else 0) < 256 := by
        split <;> omega
      have read := parses_magnitude short sign
      rw [signed_magnitude] at read
      exact read

theorem encodeListHeader_pos {arity : Nat} (positive : 0 < arity) :
    encodeListHeader arity = 108 :: size arity := by
  rw [encodeListHeader, if_neg (by omega)]

theorem lawful_externalFormat : externalFormat.Lawful where
  version back := decoder_parses (parses_tagged (parses_onlyTag 131 (parses_pure ()))) [] back
  atom letters clean positive bounded := by
    have short : letters.length ≤ 65535 := by
      have bound : letters.length ≤ 255 := bounded
      omega
    refine ⟨_, rfl, item_of_body .atomExt (by rfl) ⟨letters, rfl, parses_number ?_⟩ rfl
      (parses_onlyTag 100 (parses_letters short))⟩
    omega
  longlong value := ⟨_, rfl, item_longlong value⟩
  double value := by
    refine ⟨_, rfl, item_of_body .newFloatExt (by rfl) (sized_zero rfl) (.inr rfl)
      (parses_onlyTag 70 ?_)⟩
    have small : value.bits.toNat < 256 ^ 8 := value.bits.isLt
    have read := (parses_number small).map fun bits => (⟨.ofNat 64 bits⟩ : Binary64)
    rw [BitVec.ofNat_toNat, BitVec.setWidth_eq] at read
    exact read
  string letters clean positive short := by
    have encoded : encodeString letters = 107 :: atomBody letters := by
      rw [encodeString, if_neg (by omega), if_pos short]
    refine ⟨107 :: atomBody letters, congrArg some encoded, item_of_body .stringExt (by rfl)
      ⟨letters, rfl, parses_number ?_⟩ rfl (parses_onlyTag 107 (parses_letters short))⟩
    omega
  ref ref text ids small := by
    have count : ref.n.length < 256 ^ 2 := by omega
    exact ⟨_, rfl, item_of_body .newReferenceExt (by rfl) (sized_zero rfl) rfl
      (parses_ref text count small)⟩
  port port text id small := by
    refine ⟨_, rfl, item_of_body .portExt (by rfl) (sized_zero rfl) rfl (parses_onlyTag 102 ?_)⟩
    have same : port.id % 2 ^ 28 = port.id := Nat.mod_eq_of_lt (by omega)
    rw [same]
    have fits : port.id < 256 ^ 4 := by omega
    have last :=
      (parses_creation small).map fun creation => ErlangPort.mk port.node port.id creation
    exact (parses_node text).bind ((parses_number fits).bind last)
  pid pid text num serial small := by
    refine ⟨_, rfl, item_of_body .pidExt (by rfl) (sized_zero rfl) rfl (parses_onlyTag 103 ?_)⟩
    rw [Nat.mod_eq_of_lt num, Nat.mod_eq_of_lt serial]
    have numFits : pid.num < 256 ^ 4 := by omega
    have serialFits : pid.serial < 256 ^ 4 := by omega
    have last := (parses_creation small).map fun creation =>
      ErlangPid.mk pid.node pid.num pid.serial creation
    exact (parses_node text).bind ((parses_number numFits).bind
      ((parses_number serialFits).bind last))
  binary data carried := ⟨_, rfl, item_of_body .binaryExt (by rfl) ⟨data, rfl, parses_size carried⟩
    ⟨rfl, rfl⟩ (parses_onlyTag 109 (parses_data carried))⟩
  tupleHeader arity carried := by
    refine ⟨_, rfl, ?_⟩
    unfold encodeTupleHeader
    split
    · rename_i small
      have read : Parses (number 1) (bigEndian 1 arity) arity := parses_number (by omega)
      have count := read.map intOf
      rw [intOf_carried carried] at count
      exact item_of_body .smallTupleExt (by rfl) ⟨[], by simp, read⟩ (.inl rfl) count
    · have count := (parses_size carried).map intOf
      rw [intOf_carried carried] at count
      exact item_of_body .largeTupleExt (by rfl) ⟨[], by simp, parses_size carried⟩ (.inr rfl) count
  listHeader arity positive carried := by
    have count := (parses_size carried).map intOf
    rw [intOf_carried carried] at count
    exact ⟨_, congrArg some (encodeListHeader_pos positive), item_of_body .listExt (by rfl)
      ⟨[], by simp, parses_size carried⟩ rfl count⟩
  tupleWritten arity := by
    refine ⟨_, ?_, rfl⟩
    unfold encodeTupleHeader
    split
    · exact List.cons_ne_nil _ _
    · exact List.cons_ne_nil _ _
  listWritten arity positive :=
    ⟨_, List.cons_ne_nil _ _, congrArg some (encodeListHeader_pos positive)⟩
  emptyList := ⟨_, rfl, item_of_body .nilExt (by rfl) (sized_zero rfl) rfl
    ((parses_pure 0).map intOf)⟩

end ExternalFormat

end Epi.Buffer
