import Epi.Buffer.ExternalFormat
import Epi.Buffer.InputBuffer
import Epi.Type.Close

namespace Epi.Buffer

open Verification Epi.Type

/-- A decoding call that succeeds ends behind the place where it starts, inside the buffer. -/
def Decoder.Forward {Value : Type} (decoder : Decoder Value) : Prop :=
  ∀ buff index value next, index ≤ buff.length → decoder buff index = some (value, next) →
    index < next ∧ next ≤ buff.length

/-- Every decoding call consumes a byte of the buffer or fails. -/
structure Ei.Forward (ei : Ei) : Prop where
  atom : Decoder.Forward ei.decodeAtom
  longlong : Decoder.Forward ei.decodeLonglong
  double : Decoder.Forward ei.decodeDouble
  string : Decoder.Forward ei.decodeString
  ref : Decoder.Forward ei.decodeRef
  port : Decoder.Forward ei.decodePort
  pid : Decoder.Forward ei.decodePid
  binary : Decoder.Forward ei.decodeBinary
  tupleHeader : Decoder.Forward ei.decodeTupleHeader
  listHeader : Decoder.Forward ei.decodeListHeader

/-- The first decoding call for a type succeeds. -/
def Ei.reads (ei : Ei) (buff : Bytes) (index : Nat) : ExternalType → Bool
  | .atomExt => (ei.decodeAtom buff index).isSome
  | .pidExt => (ei.decodePid buff index).isSome
  | .smallTupleExt | .largeTupleExt => (ei.decodeTupleHeader buff index).isSome
  | .stringExt => (ei.decodeString buff index).isSome
  | .listExt | .nilExt => (ei.decodeListHeader buff index).isSome
  | .smallBigExt | .largeBigExt | .smallIntegerExt | .integerExt =>
      (ei.decodeLonglong buff index).isSome
  | .newFloatExt | .floatExt => (ei.decodeDouble buff index).isSome
  | .binaryExt => (ei.decodeBinary buff index).isSome
  | .newReferenceExt => (ei.decodeRef buff index).isSome
  | .portExt => (ei.decodePort buff index).isSome
  | .other _ => false

/-- There is a term to decode where the buffer stands, or at least the first item of one. -/
def EIInputBuffer.Starts (ei : Ei) (buffer : EIInputBuffer) : Prop :=
  buffer.mDecodeIndex ≠ buffer.buff.length ∧
    ∃ item ∈ ei.getType buffer.buff buffer.mDecodeIndex,
      ei.reads buffer.buff buffer.mDecodeIndex item.1 = true

/-- The arity in the header of a tuple or of a list. -/
def Ei.headerArity (ei : Ei) (buff : Bytes) (index : Nat) : ExternalType → Option Int
  | .smallTupleExt | .largeTupleExt => (ei.decodeTupleHeader buff index).map (·.1)
  | .listExt => (ei.decodeListHeader buff index).map (·.1)
  | _ => none

/-- A complete term without variables. No list ends in a list or has no element. -/
structure Whole (term : ErlTerm) : Prop where
  valid : term.Valid
  ground : term.Ground
  celled : term.Celled

/-- A term that looks valid from outside is complete. -/
def Sound (term : ErlTerm) : Prop := term.isValid = true → Whole term

/-- The term behind a header is complete unless the header counts below zero. -/
structure Framed (arity : Option Int) (term : ErlTerm) : Prop where
  sound : Sound term
  complete : (∀ count ∈ arity, 0 ≤ count) → term.isValid = true

/-- An exception that may leave `readTerm`. -/
def Undecodable (error : EpiException) : Prop :=
  error.thrownClass.isA .epiDecodeException = true

/-- A call comes back, with a good value or with an exception of a kind. -/
def Settled {Value : Type} (Good : Value → Prop) (Bad : EpiException → Prop) : Call Value → Prop
  | .returns value => Good value
  | .throws error => Bad error
  | _ => False

/-- The bytes stay, and the index moves only forward inside of them. -/
structure Reaches (buffer after : EIInputBuffer) : Prop where
  buff : after.buff = buffer.buff
  forward : buffer.mDecodeIndex ≤ after.mDecodeIndex
  inside : after.mDecodeIndex ≤ buffer.buff.length

/-- With fewer than this many bytes left the call settles, and the index does not move back. -/
def Settles {Value : Type} (room : Nat) (Good : Value → Prop) (Bad : EpiException → Prop)
    (call : Method EIInputBuffer Value) : Prop :=
  ∀ buffer : EIInputBuffer, buffer.mDecodeIndex ≤ buffer.buff.length →
    buffer.buff.length < buffer.mDecodeIndex + room →
      Settled Good Bad (call buffer).1 ∧ Reaches buffer (call buffer).2

section Rules

variable {First Second : Type} {room : Nat} {Good : First → Prop} {Later : Second → Prop}
  {Bad Worse : EpiException → Prop} {buffer after last : EIInputBuffer}

theorem Reaches.refl (inside : buffer.mDecodeIndex ≤ buffer.buff.length) : Reaches buffer buffer :=
  ⟨rfl, le_rfl, inside⟩

theorem Reaches.trans (first : Reaches buffer after) (second : Reaches after last) :
    Reaches buffer last := by
  constructor
  · rw [second.buff, first.buff]
  · exact first.forward.trans second.forward
  · rw [← first.buff]
    exact second.inside

/-- A sequence settles when its calls do, each from the state before it. -/
theorem Settled.andThen {Object : Type} {call : Method Object First}
    {next : First → Method Object Second} {object : Object}
    (first : Settled Good Bad (call object).1)
    (second : ∀ value after, Settled Later Bad (next value after).1) :
    Settled Later Bad ((call >>= next) object).1 := by
  rw [Effect.bind_run]
  rcases ran : call object with ⟨outcome, after⟩
  rw [ran] at first
  cases outcome with
  | returns value => exact second value after
  | throws error => exact first
  | aborts => exact first.elim
  | diverges => exact first.elim

theorem settles_lift {call : Call First} (settled : Settled Good Bad call) :
    Settles room Good Bad (Effect.lift call) :=
  fun _ inside _ => ⟨settled, .refl inside⟩

theorem settles_pure {value : First} (good : Good value) :
    Settles room Good Bad (pure value) :=
  fun _ inside _ => ⟨good, .refl inside⟩

theorem settles_fail {error : EpiException} (bad : Bad error) :
    Settles room Good Bad (Effect.fail error) :=
  fun _ inside _ => ⟨bad, .refl inside⟩

/-- The second call has no more bytes left than the first one. -/
theorem Settles.bind {call : Method EIInputBuffer First}
    {next : First → Method EIInputBuffer Second} (first : Settles room Good Bad call)
    (second : ∀ value, Good value → Settles room Later Bad (next value)) :
    Settles room Later Bad (call >>= next) := by
  intro buffer inside few
  obtain ⟨settled, reached⟩ := first buffer inside few
  rw [Effect.bind_run]
  rcases ran : call buffer with ⟨outcome, after⟩
  rw [ran] at settled reached
  cases outcome with
  | returns value =>
      have inner : after.mDecodeIndex ≤ after.buff.length := by
        rw [reached.buff]
        exact reached.inside
      have fewer : after.buff.length < after.mDecodeIndex + room := by
        have forward : buffer.mDecodeIndex ≤ after.mDecodeIndex := reached.forward
        rw [reached.buff]
        omega
      obtain ⟨done, further⟩ := second value settled after inner fewer
      exact ⟨done, reached.trans further⟩
  | throws error => exact ⟨settled, reached⟩
  | aborts => exact settled.elim
  | diverges => exact settled.elim

theorem Settles.mapOutcome {call : Method EIInputBuffer First}
    {transform : Call First → Call First} (settles : Settles room Good Worse call)
    (keeps : ∀ outcome, Settled Good Worse outcome → Settled Good Bad (transform outcome)) :
    Settles room Good Bad (Effect.mapOutcome transform call) := by
  intro buffer inside few
  obtain ⟨settled, reached⟩ := settles buffer inside few
  exact ⟨keeps _ settled, reached⟩

/-- A handler that throws again turns every exception into a kind. -/
theorem settled_catchingAny {raise : Bytes → EpiException} (raised : ∀ msg, Bad (raise msg))
    {outcome : Call First} (settled : Settled Good Worse outcome) :
    Settled Good Bad (Call.catchingAny (fun error => .throws (raise error.mMsg)) outcome) := by
  cases outcome with
  | returns value => exact settled
  | throws error => exact raised _
  | aborts => exact settled.elim
  | diverges => exact settled.elim

/-- A specification lets the exceptions through that it lists. -/
theorem settled_throwsOnly {outcome : Call First} (settled : Settled Good Undecodable outcome) :
    Settled Good Undecodable (Call.throwsOnly [.epiDecodeException] outcome) := by
  cases outcome with
  | throws error =>
      have listed : error.thrownClass.isA .epiDecodeException = true := settled
      simp only [Call.throwsOnly, Outcome.declares_throws, List.any_cons, List.any_nil, listed,
        Bool.true_or, if_true]
      exact settled
  | _ => exact settled

theorem settled_onNew {Object : Type} {call : Method Object Unit} {object : Object}
    {Holds : Object → Prop} (settled : Settled (fun _ => True) (fun _ => True) (call object).1)
    (holds : (call object).1 = .returns () → Holds (call object).2) :
    Settled Holds (fun _ => True) (EIInputBuffer.onNew call object) := by
  rw [EIInputBuffer.onNew]
  rcases ran : call object with ⟨outcome, after⟩
  rw [ran] at settled holds
  cases outcome with
  | returns value => exact holds rfl
  | throws error => trivial
  | aborts => exact settled.elim
  | diverges => exact settled.elim

end Rules

section New

variable {Good : Unit → Prop} {Bad : EpiException → Prop}

theorem initElement_settled (elem : Option ErlTerm) (tuple : ErlTuple) :
    Settled (fun _ => True) (fun _ => True) (ErlTuple.initElement elem tuple).1 := by
  unfold ErlTuple.initElement
  split
  · trivial
  · split
    · trivial
    · split
      · trivial
      · split <;> trivial

/-- An exception of the specification of `close`. -/
def Refused (error : EpiException) : Prop :=
  error.thrownClass = .epiBadArgument ∨ error.thrownClass = .epiAlreadyInitialized

theorem addElement_settled (elem : Option ErlTerm) (list : ErlConsList) :
    Settled (fun _ => True) Refused (ErlConsList.addElement elem list).1 := by
  unfold ErlConsList.addElement
  cases elem with
  | none => exact .inl rfl
  | some elem =>
      simp only
      split
      · exact .inl rfl
      · split
        · exact .inr rfl
        · trivial

/-- The elements of a closed list are all there. -/
theorem addElementsOf_settled {cells : List ErlTerm} {last : ErlTerm} {remaining index : Nat}
    (room : index + remaining ≤ cells.length) (list : ErlConsList) :
    Settled (fun _ => True) Refused
      (ErlConsList.addElementsOf ⟨true, cells ++ [last]⟩ remaining index list).1 := by
  induction remaining generalizing index list with
  | zero => trivial
  | succ remaining ih =>
      have inside : index < cells.length := by omega
      have found := ErlConsList.elementAt_cell last (List.getElem?_eq_getElem inside)
      rw [ErlConsList.addElementsOf, found, Effect.lift_returns_bind]
      apply (addElement_settled (some cells[index]) list).andThen
      intro _ after
      exact ih (by omega) after

theorem settled_refused {outcome : Call Unit} (settled : Settled (fun _ => True) Refused outcome) :
    Settled (fun _ => True) (fun _ => True)
      (Call.throwsOnly [.epiBadArgument, .epiAlreadyInitialized] outcome) := by
  cases outcome with
  | throws error =>
      rcases settled with argument | again
      · simp [Call.throwsOnly, Outcome.declares_throws, argument, ExceptionClass.isA, Settled]
      · simp [Call.throwsOnly, Outcome.declares_throws, again, ExceptionClass.isA, Settled]
  | _ => exact settled

theorem closeWithin_some (fuel : Nat) (term : ErlTerm) :
    ErlConsList.closeWithin (fuel + 1) (some term) =
      Method.throwsOnly [.epiBadArgument, .epiAlreadyInitialized]
        (if !term.isValid then
          Effect.fail (.badArgument "Element is invalid")
        else
          match term with
          | .erlConsList mInitialized mElementVector => do
              ErlConsList.addElementsOf ⟨mInitialized, mElementVector⟩
                (ErlConsList.arity ⟨mInitialized, mElementVector⟩) 0
              let rest ← Effect.lift (ErlConsList.tail ⟨mInitialized, mElementVector⟩
                (ErlConsList.arity ⟨mInitialized, mElementVector⟩))
              ErlConsList.closeWithin fuel (some rest)
          | other => do
              ErlConsList.addElement (some other)
              let list ← Effect.get
              Effect.set { list with mInitialized := true }) := rfl

/-- The last cell is set like the ones before it. -/
theorem settled_append (other : ErlTerm) (list : ErlConsList) :
    Settled (fun _ => True) Refused ((do
      ErlConsList.addElement (some other)
      let list ← Effect.get
      Effect.set { list with mInitialized := true } : Method ErlConsList Unit) list).1 := by
  apply (addElement_settled (some other) list).andThen
  intro _ after
  trivial

/-- A valid list holds the term that closes it, and that term is no list. -/
theorem Whole.split {mInitialized : Bool} {mElementVector : List ErlTerm}
    (whole : Whole (.erlConsList mInitialized mElementVector)) :
    ∃ cells last, mInitialized = true ∧ mElementVector = cells ++ [last] := by
  obtain ⟨flag, closed, -⟩ := ErlTerm.valid_erlConsList.mp whole.valid
  obtain ⟨cells, last, same, -⟩ := ErlTerm.closedBy_split closed
  exact ⟨cells, last, flag, same⟩

theorem close_settled {elem : Option ErlTerm} (sound : ∀ term ∈ elem, Sound term)
    (list : ErlConsList) :
    Settled (fun _ => True) (fun _ => True) (ErlConsList.close elem list).1 := by
  cases elem with
  | none =>
      have missing : Settled (fun _ => True) Refused
          (.throws (.badArgument "Element is invalid") : Call Unit) := .inl rfl
      exact settled_refused missing
  | some term =>
      rw [ErlConsList.close, closeWithin_some, Method.throwsOnly, Effect.mapOutcome_run]
      apply settled_refused
      split
      · exact .inl rfl
      · rename_i valid
        cases term with
        | erlConsList mInitialized mElementVector =>
            have whole := sound _ rfl (by simpa using valid)
            obtain ⟨cells, last, rfl, rfl⟩ := whole.split
            have added := @addElementsOf_settled cells last cells.length 0 (by omega) list
            have refused := ErlConsList.tail_arity ⟨true, cells ++ [last]⟩ rfl
            rw [ErlConsList.arity_concat] at refused
            simp only [ErlConsList.arity_concat, refused]
            apply added.andThen
            intro _ after
            exact .inl rfl
        | _ => exact settled_append _ list

theorem whole_simple {value : SimpleTerm} (valid : value.isValid = true) : Whole (.simple value) where
  valid := by rwa [ErlTerm.Valid, ErlTerm.every_simple]
  ground := by rw [ErlTerm.Ground, ErlTerm.every_simple]; rfl
  celled := by rw [ErlTerm.Celled, ErlTerm.every_simple]; rfl

/-- A list of complete terms is complete when it is closed behind an element by another term. -/
theorem whole_list {cells : List ErlTerm} {last : ErlTerm} (some : cells ≠ [])
    (elems : ∀ elem ∈ cells, Whole elem) (tail : Whole last) (plain : last.isConsList = false) :
    Whole (.erlConsList true (cells ++ [last])) := by
  have all : ∀ elem ∈ cells ++ [last], Whole elem := by
    intro elem member
    rcases List.mem_append.mp member with inside | final
    · exact elems elem inside
    · rwa [List.mem_singleton.mp final]
  constructor
  · apply ErlTerm.valid_erlConsList.mpr
    exact ⟨rfl, by rw [ErlTerm.closedBy_append, plain]; rfl, fun elem member => (all elem member).valid⟩
  · apply (ErlTerm.every_erlConsList ..).mpr
    exact ⟨rfl, fun elem member => (all elem member).ground⟩
  · apply (ErlTerm.every_erlConsList ..).mpr
    refine ⟨?_, fun elem member => (all elem member).celled⟩
    have size : 0 < cells.length := List.length_pos_iff.mpr some
    simp only [ErlTerm.cellNode, List.length_append, List.length_singleton, decide_eq_true_eq]
    omega

/-- An element that a list takes was valid, and it stands behind the others. -/
theorem addElement_returns {elem : Option ErlTerm} {list after : ErlConsList}
    (done : ErlConsList.addElement elem list = (.returns (), after)) :
    ∃ term, elem = some term ∧ term.isValid = true ∧
      after = { list with mElementVector := list.mElementVector ++ [term] } := by
  unfold ErlConsList.addElement at done
  cases elem with
  | none => cases done
  | some term =>
      simp only at done
      split at done
      · cases done
      · rename_i valid
        split at done
        · cases done
        · exact ⟨term, rfl, by simpa using valid, (congrArg Prod.snd done).symm⟩

/-- A specification does not touch a call that returns. -/
theorem throwsOnly_run_returns {Object Value : Type} {listed : List ExceptionClass}
    {call : Method Object Value} {object after : Object} {value : Value} :
    Method.throwsOnly listed call object = (.returns value, after) ↔
      call object = (.returns value, after) := by
  rw [Method.throwsOnly, Effect.mapOutcome_run, Prod.ext_iff, Prod.ext_iff,
    Call.throwsOnly_eq_returns]

/-- Only a term that is no list closes a list. -/
theorem close_returns {elem : Option ErlTerm} (sound : ∀ term ∈ elem, Sound term)
    {list after : ErlConsList} (done : ErlConsList.close elem list = (.returns (), after)) :
    ∃ last, elem = some last ∧ last.isValid = true ∧ last.isConsList = false ∧
      after = ⟨true, list.mElementVector ++ [last]⟩ := by
  cases elem with
  | none => cases congrArg Prod.fst done
  | some term =>
      rw [ErlConsList.close, closeWithin_some, throwsOnly_run_returns] at done
      split at done
      · cases congrArg Prod.fst done
      · rename_i valid
        have append : ∀ other : ErlTerm, (do
            ErlConsList.addElement (some other)
            let list ← Effect.get
            Effect.set { list with mInitialized := true } : Method ErlConsList Unit) list =
              (.returns (), after) → after = ⟨true, list.mElementVector ++ [other]⟩ := by
          intro other ran
          obtain ⟨_, middle, added, rest⟩ := Effect.bind_eq_returns.mp ran
          obtain ⟨taken, same, -, rfl⟩ := addElement_returns added
          obtain rfl := Option.some.inj same
          exact (congrArg Prod.snd rest).symm
        cases term with
        | erlConsList mInitialized mElementVector =>
            have whole := sound _ rfl (by simpa using valid)
            obtain ⟨cells, last, rfl, rfl⟩ := whole.split
            have refused := ErlConsList.tail_arity ⟨true, cells ++ [last]⟩ rfl
            rw [ErlConsList.arity_concat] at refused
            simp only [ErlConsList.arity_concat, refused] at done
            obtain ⟨_, middle, -, rest⟩ := Effect.bind_eq_returns.mp done
            cases congrArg Prod.fst rest
        | _ => exact ⟨_, rfl, by simpa using valid, rfl, append _ done⟩

/-- A tuple of that arity under construction. Its elements are complete terms. -/
structure Filling (arity : Nat) (tuple : ErlTuple) : Prop where
  mArity : tuple.mArity = some arity
  mInitialized : tuple.mInitialized = true ↔ tuple.mElementVector.length = arity
  elems : ∀ elem ∈ tuple.mElementVector, Whole elem

theorem filling_ofArity (arity : Nat) : Filling arity (ErlTuple.ofArity arity) where
  mArity := rfl
  mInitialized := by
    change (arity == 0) = true ↔ 0 = arity
    rw [beq_iff_eq, eq_comm]
  elems := List.forall_mem_nil _

theorem Filling.whole {arity : Nat} {tuple : ErlTuple} (filling : Filling arity tuple)
    (flag : tuple.mInitialized = true) : Whole tuple.toTerm where
  valid := by
    apply ErlTerm.valid_erlTuple.mpr
    refine ⟨flag, ?_, fun elem member => (filling.elems elem member).valid⟩
    rw [filling.mArity, filling.mInitialized.mp flag]
  ground := (ErlTerm.every_erlTuple ..).mpr ⟨rfl, fun elem member => (filling.elems elem member).ground⟩
  celled := (ErlTerm.every_erlTuple ..).mpr ⟨rfl, fun elem member => (filling.elems elem member).celled⟩

/-- The tuple takes valid elements, one behind the other, as long as there is room for them. -/
theorem Filling.initElement {arity : Nat} {tuple after : ErlTuple} {elem : Option ErlTerm}
    (filling : Filling arity tuple) (sound : ∀ term ∈ elem, Sound term)
    (done : ErlTuple.initElement elem tuple = (.returns (), after)) :
    Filling arity after ∧ after.mElementVector.length = tuple.mElementVector.length + 1 := by
  unfold ErlTuple.initElement at done
  rw [filling.mArity] at done
  split at done
  · cases done
  · cases elem with
    | none => cases done
    | some term =>
        simp only at done
        split at done
        · rename_i valid
          cases done
          refine ⟨⟨rfl, ?_, ?_⟩, by simp⟩
          · simp
          · intro elem member
            rcases List.mem_append.mp member with inside | final
            · exact filling.elems elem inside
            · rw [List.mem_singleton.mp final]
              exact sound term rfl valid
        · cases done

end New

section Reading

variable {First Second : Type} {ei : Ei} {room : Nat}
  {nested : Method EIInputBuffer (Option ErlTerm)}

/-- What a read gives is complete if it is valid. -/
def SoundRead (read : Option ErlTerm) : Prop := ∀ term ∈ read, Sound term

/-- A call that starts with an item settles behind it. Without the item it leaves the buffer. -/
structure Progress (started : Bool) (Good : First → Prop) (buffer : EIInputBuffer)
    (result : Call First × EIInputBuffer) : Prop where
  settled : Settled Good Undecodable result.1
  reaches : Reaches buffer result.2
  moves : started = true → buffer.mDecodeIndex < result.2.mDecodeIndex
  stays : started = false → (∃ error, result.1 = .throws error) ∧ result.2 = buffer

theorem Settles.weaken {Good : First → Prop} {call : Method EIInputBuffer First}
    (settles : Settles room Good Undecodable call) :
    Settles room Good (fun _ => True) call := by
  intro buffer inside few
  obtain ⟨settled, reached⟩ := settles buffer inside few
  refine ⟨?_, reached⟩
  cases ran : (call buffer).1 with
  | throws error => trivial
  | _ =>
      rw [ran] at settled
      exact settled

/-- A new object settles as the method on it does, with what the method leaves if it returns. -/
theorem settled_built {Object : Type} {Holds : Object → Prop} {call : Method Object Unit}
    {object : Object} (settled : Settled (fun _ => True) (fun _ => True) (call object).1)
    (holds : ∀ after, call object = (.returns (), after) → Holds after) :
    Settled Holds (fun _ => True) (EIInputBuffer.onNew call object) :=
  settled_onNew settled fun done => holds _ (Prod.ext done rfl)

theorem settles_readTuple (inner : Settles room SoundRead Undecodable nested) {arity : Nat}
    (remaining : Nat) {tuple : ErlTuple} (filling : Filling arity tuple) :
    Settles room (fun after => Filling arity after ∧
        after.mElementVector.length = tuple.mElementVector.length + remaining) (fun _ => True)
      (EIInputBuffer.readTuple nested remaining tuple) := by
  induction remaining generalizing tuple with
  | zero => exact settles_pure ⟨filling, rfl⟩
  | succ remaining ih =>
      rw [EIInputBuffer.readTuple]
      apply inner.weaken.bind
      intro elem sound
      apply (settles_lift (settled_built (initElement_settled elem tuple)
        fun _ => filling.initElement sound)).bind
      intro extended further
      have rest := ih further.1
      rw [further.2, Nat.add_right_comm] at rest
      exact rest

theorem settles_readList (inner : Settles room SoundRead Undecodable nested) (remaining : Nat)
    {list : ErlConsList} (elems : ∀ elem ∈ list.mElementVector, Whole elem)
    (some : 0 < list.mElementVector.length + remaining) :
    Settles room (fun after => Whole after.toTerm) (fun _ => True)
      (EIInputBuffer.readList nested remaining list) := by
  induction remaining generalizing list with
  | zero =>
      rw [EIInputBuffer.readList]
      apply inner.weaken.bind
      intro tail sound
      apply settles_lift (settled_built (close_settled sound list) _)
      intro after done
      obtain ⟨last, rfl, valid, plain, rfl⟩ := close_returns sound done
      exact whole_list (List.length_pos_iff.mp some) elems (sound last rfl valid) plain
  | succ remaining ih =>
      rw [EIInputBuffer.readList]
      apply inner.weaken.bind
      intro elem sound
      have added : Settled (fun _ => True) (fun _ => True) (ErlConsList.addElement elem list).1 := by
        have refused := addElement_settled elem list
        cases ran : (ErlConsList.addElement elem list).1 with
        | throws error => trivial
        | _ => rwa [ran] at refused
      have taken : ∀ after, ErlConsList.addElement elem list = (.returns (), after) →
          (∀ elem ∈ after.mElementVector, Whole elem) ∧ 0 < after.mElementVector.length := by
        intro after done
        obtain ⟨term, rfl, valid, rfl⟩ := addElement_returns done
        refine ⟨?_, by simp⟩
        intro other member
        rcases List.mem_append.mp member with inside | final
        · exact elems other inside
        · rw [List.mem_singleton.mp final]
          exact sound term rfl valid
      apply (settles_lift (settled_built added taken)).bind
      intro extended further
      exact ih further.1 (by omega)

/-- The call behind an item has fewer bytes left. -/
theorem progress_item {decoder : Decoder First} (forward : decoder.Forward) {failure : Bytes}
    {next : First → Method EIInputBuffer Second} {Good : Second → Prop}
    {buffer : EIInputBuffer}
    (later : ∀ value index, decoder buffer.buff buffer.mDecodeIndex = some (value, index) →
      Settles room Good Undecodable (next value))
    (inside : buffer.mDecodeIndex ≤ buffer.buff.length)
    (few : buffer.buff.length < buffer.mDecodeIndex + (room + 1)) :
    Progress (decoder buffer.buff buffer.mDecodeIndex).isSome Good buffer
      ((EIInputBuffer.decode failure decoder >>= next) buffer) := by
  rw [Effect.bind_run, EIInputBuffer.decode]
  cases read : decoder buffer.buff buffer.mDecodeIndex with
  | none =>
      refine ⟨?_, .refl inside, fun started => ?_, fun _ => ⟨⟨_, rfl⟩, rfl⟩⟩
      · exact (rfl : (EpiException.eiDecode failure).thrownClass.isA .epiDecodeException = true)
      · cases started
  | some item =>
      obtain ⟨value, index⟩ := item
      obtain ⟨after, bound⟩ := forward buffer.buff buffer.mDecodeIndex value index inside read
      have fewer : buffer.buff.length < index + room := by omega
      obtain ⟨settled, reached⟩ := later value index read ⟨buffer.buff, index⟩ bound fewer
      have further : index ≤ (next value ⟨buffer.buff, index⟩).2.mDecodeIndex := reached.forward
      refine ⟨settled, ⟨reached.buff, ?_, reached.inside⟩, fun _ => ?_, fun started => ?_⟩
      · exact after.le.trans further
      · exact lt_of_lt_of_le after further
      · cases started

theorem undecodable_eiDecode (msg : Bytes) : Undecodable (.eiDecode msg) := rfl

theorem undecodable_decode (msg : Bytes) : Undecodable (.decode msg) := rfl

/-- A simple term has no header. -/
theorem framed_simple {value : SimpleTerm} (valid : value.isValid = true) :
    Framed none (.simple value) where
  sound _ := whole_simple valid
  complete _ := valid

/-- A constructor that throws does so inside of a handler. -/
theorem settles_built {Value : Type} {raise : Bytes → EpiException}
    (raised : ∀ msg, Undecodable (raise msg)) {call : Call Value}
    (settled : Settled (fun _ => True) (fun _ => True) call) (build : Value → SimpleTerm)
    (valid : ∀ value, (build value).isValid = true) :
    Settles room (Framed none) Undecodable (do
      let value ← Effect.lift <| Call.catchingAny (fun error => .throws (raise error.mMsg)) call
      return ErlTerm.simple (build value)) := by
  apply (settles_lift (settled_catchingAny raised settled)).bind
  intro value _
  exact settles_pure (framed_simple (valid value))

/-- The structures of `ei.h` are built after one check of their node name. -/
theorem settled_node {Value : Type} (name : Bytes) (build : NodeName → Value) :
    Settled (fun _ => True) (fun _ => True)
      (NodeName.check name >>= fun node => .returns (build node)) := by
  unfold NodeName.check
  split
  · trivial
  · split <;> trivial

theorem atomText_settled (atom : Bytes) :
    Settled (fun _ => True) (fun error => error.thrownClass.isA .epiBadArgument = true)
      (AtomText.init atom) := by
  unfold AtomText.init
  split
  · rfl
  · split
    · rfl
    · trivial

/-- The loop over a new tuple fills it unless it does not run. -/
theorem framed_tuple {arity : Int} {tuple : ErlTuple} (filling : Filling (EIInputBuffer.unsignedOf arity) tuple)
    (size : tuple.mElementVector.length = arity.toNat) : Framed (some arity) tuple.toTerm where
  sound flag := filling.whole flag
  complete counts := by
    have counted : 0 ≤ arity := counts arity rfl
    apply filling.mInitialized.mpr
    rw [size, EIInputBuffer.unsignedOf, if_neg (by omega)]

/-- The loop over a new list closes it unless it does not run. -/
theorem settles_readCells (inner : Settles room SoundRead Undecodable nested) {arity : Int}
    (counts : arity ≠ 0) :
    Settles room (fun list => Framed (some arity) list.toTerm) (fun _ => True)
      (EIInputBuffer.readCells nested arity) := by
  rw [EIInputBuffer.readCells]
  split
  · rename_i negative
    apply settles_pure
    refine Framed.mk (fun flag => ?_) fun header => ?_
    · cases flag
    · have counted : 0 ≤ arity := header arity rfl
      omega
  · have room : 0 < ErlConsList.uninitialized.mElementVector.length + arity.toNat := by
      change 0 < 0 + arity.toNat
      omega
    intro buffer inside few
    obtain ⟨settled, reached⟩ :=
      settles_readList inner arity.toNat (List.forall_mem_nil _) room buffer inside few
    refine ⟨?_, reached⟩
    cases ran : (EIInputBuffer.readList nested arity.toNat ErlConsList.uninitialized buffer).1 with
    | returns list =>
        rw [ran] at settled
        have whole : Whole list.toTerm := settled
        exact ⟨fun _ => whole, fun _ => whole.valid.isValid⟩
    | _ => rwa [ran] at settled

/-- Every case of `readTerm` gets along with its item, or finds none. -/
theorem readType_progress (forward : ei.Forward)
    (inner : Settles room SoundRead Undecodable nested) (size : Nat) (type : ExternalType)
    {buffer : EIInputBuffer} (inside : buffer.mDecodeIndex ≤ buffer.buff.length)
    (few : buffer.buff.length < buffer.mDecodeIndex + (room + 1)) :
    Progress (ei.reads buffer.buff buffer.mDecodeIndex type)
      (Framed (ei.headerArity buffer.buff buffer.mDecodeIndex type)) buffer
      (EIInputBuffer.readType ei nested size type buffer) := by
  cases type with
  | atomExt =>
      apply progress_item forward.atom _ inside few
      intro atom _ _
      have caught : Settled (fun _ => True) Undecodable (Call.catching .epiBadArgument
          (fun error => .throws (.eiDecode error.mMsg)) (AtomText.init (cString atom))) := by
        have settled := atomText_settled (cString atom)
        cases ran : AtomText.init (cString atom) with
        | returns value => trivial
        | throws error =>
            rw [ran] at settled
            rw [Call.catching_throws _ settled]
            rfl
        | _ =>
            rw [ran] at settled
            exact settled.elim
      apply (settles_lift caught).bind
      intro value _
      exact settles_pure (framed_simple rfl)
  | pidExt =>
      apply progress_item forward.pid _ inside few
      intro pid _ _
      exact settles_built undecodable_eiDecode (settled_node _ _) _ (fun _ => rfl)
  | newReferenceExt =>
      apply progress_item forward.ref _ inside few
      intro ref _ _
      exact settles_built undecodable_eiDecode (settled_node _ _) _ (fun _ => rfl)
  | portExt =>
      apply progress_item forward.port _ inside few
      intro port _ _
      exact settles_built undecodable_decode (settled_node _ _) _ (fun _ => rfl)
  | smallTupleExt | largeTupleExt =>
      apply progress_item forward.tupleHeader _ inside few
      intro arity _ read
      rw [Ei.headerArity, read]
      apply ((settles_readTuple inner arity.toNat (filling_ofArity _)).mapOutcome
        fun _ => settled_catchingAny undecodable_decode).bind
      intro tuple filled
      exact settles_pure (framed_tuple filled.1 (filled.2.trans (Nat.zero_add _)))
  | listExt =>
      apply progress_item forward.listHeader _ inside few
      intro arity _ read
      rw [Ei.headerArity, read]
      split
      · rename_i zero
        subst zero
        exact settles_pure ⟨fun _ => whole_simple rfl, fun _ => rfl⟩
      · rename_i counts
        apply ((settles_readCells inner counts).mapOutcome
          fun _ => settled_catchingAny undecodable_decode).bind
        intro list framed
        exact settles_pure framed
  | nilExt =>
      apply progress_item forward.listHeader _ inside few
      intro arity _ _
      split
      · exact settles_pure (framed_simple rfl)
      · exact settles_fail rfl
  | stringExt =>
      apply progress_item forward.string _ inside few
      exact fun _ _ _ => settles_pure (framed_simple rfl)
  | smallBigExt | largeBigExt | smallIntegerExt | integerExt =>
      apply progress_item forward.longlong _ inside few
      exact fun _ _ _ => settles_pure (framed_simple rfl)
  | newFloatExt | floatExt =>
      apply progress_item forward.double _ inside few
      exact fun _ _ _ => settles_pure (framed_simple rfl)
  | binaryExt =>
      apply progress_item forward.binary _ inside few
      exact fun _ _ _ => settles_pure (framed_simple rfl)
  | other code =>
      refine ⟨rfl, .refl inside, fun started => ?_, fun _ => ⟨⟨_, rfl⟩, rfl⟩⟩
      cases started

/-- A read gets along exactly when an item starts where it stands, and it always comes back. -/
theorem readTerm_progress (forward : ei.Forward) {fuel : Nat} {buffer : EIInputBuffer}
    (inside : buffer.mDecodeIndex ≤ buffer.buff.length)
    (few : buffer.buff.length < buffer.mDecodeIndex + fuel) :
    Settled SoundRead Undecodable (EIInputBuffer.readTerm ei fuel buffer).1 ∧
      Reaches buffer (EIInputBuffer.readTerm ei fuel buffer).2 ∧
      (buffer.Starts ei → (EIInputBuffer.readTerm ei fuel buffer).1 ≠ .returns none ∧
        buffer.mDecodeIndex < (EIInputBuffer.readTerm ei fuel buffer).2.mDecodeIndex) ∧
      (¬ buffer.Starts ei → (∀ term, (EIInputBuffer.readTerm ei fuel buffer).1 ≠ .returns (some term)) ∧
        (EIInputBuffer.readTerm ei fuel buffer).2 = buffer) := by
  induction fuel generalizing buffer with
  | zero => exact absurd few (by omega)
  | succ fuel ih =>
      have inner : Settles fuel SoundRead Undecodable (EIInputBuffer.readTerm ei fuel) :=
        fun other bound less => ⟨(ih bound less).1, (ih bound less).2.1⟩
      rw [EIInputBuffer.readTerm, Method.throwsOnly, Effect.mapOutcome_run]
      suffices Settled SoundRead Undecodable
            (EIInputBuffer.readNext ei (EIInputBuffer.readTerm ei fuel) buffer).1 ∧
          Reaches buffer (EIInputBuffer.readNext ei (EIInputBuffer.readTerm ei fuel) buffer).2 ∧
          (buffer.Starts ei →
            (EIInputBuffer.readNext ei (EIInputBuffer.readTerm ei fuel) buffer).1 ≠ .returns none ∧
            buffer.mDecodeIndex <
              (EIInputBuffer.readNext ei (EIInputBuffer.readTerm ei fuel) buffer).2.mDecodeIndex) ∧
          (¬ buffer.Starts ei →
            (∀ term, (EIInputBuffer.readNext ei (EIInputBuffer.readTerm ei fuel) buffer).1 ≠
              .returns (some term)) ∧
            (EIInputBuffer.readNext ei (EIInputBuffer.readTerm ei fuel) buffer).2 = buffer) by
        obtain ⟨settled, reaches, moves, stays⟩ := this
        refine ⟨settled_throwsOnly settled, reaches, fun starts => ?_, fun starts => ?_⟩
        · exact ⟨fun none => (moves starts).1 (Call.throwsOnly_eq_returns.mp none), (moves starts).2⟩
        · exact ⟨fun term some => (stays starts).1 term (Call.throwsOnly_eq_returns.mp some),
            (stays starts).2⟩
      rw [EIInputBuffer.readNext]
      by_cases ended : buffer.mDecodeIndex = buffer.buff.length
      · rw [if_pos ended]
        refine ⟨fun term none => ?_, .refl inside, fun starts => ?_, fun _ => ⟨?_, rfl⟩⟩
        · cases none
        · exact absurd ended starts.1
        · simp
      · rw [if_neg ended]
        cases typed : ei.getType buffer.buff buffer.mDecodeIndex with
        | none =>
            refine ⟨rfl, .refl inside, fun starts => ?_, fun _ => ⟨?_, rfl⟩⟩
            · obtain ⟨-, item, some, -⟩ := starts
              rw [typed] at some
              cases some
            · simp
        | some item =>
            obtain ⟨type, size⟩ := item
            have starts : buffer.Starts ei ↔
                ei.reads buffer.buff buffer.mDecodeIndex type = true := by
              simp [EIInputBuffer.Starts, ended, typed]
            obtain ⟨settled, reaches, moves, stays⟩ :=
              readType_progress forward inner size type inside few
            rw [starts, Bool.not_eq_true]
            simp only
            rcases ran : EIInputBuffer.readType ei (EIInputBuffer.readTerm ei fuel) size type buffer with
              ⟨outcome, after⟩
            rw [ran] at settled reaches moves stays
            refine ⟨?_, reaches, fun started => ⟨?_, moves started⟩, fun missing => ?_⟩
            · cases outcome with
              | returns term =>
                  rintro read same
                  obtain rfl := Option.some.inj same
                  exact settled.sound
              | _ => exact settled
            · cases outcome <;> simp
            · obtain ⟨⟨error, thrown⟩, rfl⟩ := stays missing
              rw [show outcome = .throws error from thrown]
              simp

end Reading

namespace ExternalFormat

open ByteParser

theorem shrinks_parseSize : Shrinks parseSize := shrinks_number 4

theorem shrinks_onlyTag {Value : Type} {body : ByteParser Value} (shrinks : Shrinks body)
    (tag head : UInt8) : Shrinks (onlyTag tag body head) := by
  unfold onlyTag
  split
  · exact shrinks
  · exact shrinks_fail

theorem shrinks_parseLetters : Shrinks parseLetters := (shrinks_number 2).bind shrinks_take

theorem shrinks_tagged {Value : Type} {body : UInt8 → ByteParser Value}
    (shrinks : ∀ tag, Shrinks (body tag)) : Shrinks (tagged body) :=
  fun _ _ _ ran => (byte_shorter shrinks ran).le

theorem shrinks_parseNode : Shrinks parseNode :=
  shrinks_tagged (shrinks_onlyTag shrinks_parseLetters 100)

theorem shrinks_parseIds (count : Nat) : Shrinks (parseIds count) := by
  induction count with
  | zero => exact shrinks_pure []
  | succ count ih =>
      apply (shrinks_number 4).bind
      intro id
      exact ih.bind fun _ => shrinks_pure _

theorem shrinks_parseRef : Shrinks parseRef := by
  apply (shrinks_number 2).bind
  intro count
  apply shrinks_parseNode.bind
  intro name
  apply (shrinks_number 1).bind
  intro creation
  exact (shrinks_parseIds count).bind fun _ => shrinks_pure _

theorem shrinks_parseAnyRef (tag : UInt8) : Shrinks (parseAnyRef tag) := by
  unfold parseAnyRef
  split
  · exact shrinks_parseRef
  · split
    · apply shrinks_parseNode.bind
      intro name
      apply (shrinks_number 4).bind
      intro id
      exact (shrinks_number 1).bind fun _ => shrinks_pure _
    · exact shrinks_fail

theorem shrinks_parsePort : Shrinks parsePort := by
  apply shrinks_parseNode.bind
  intro name
  apply (shrinks_number 4).bind
  intro id
  exact (shrinks_number 1).bind fun _ => shrinks_pure _

theorem shrinks_parsePid : Shrinks parsePid := by
  apply shrinks_parseNode.bind
  intro name
  apply (shrinks_number 4).bind
  intro num
  apply (shrinks_number 4).bind
  intro serial
  exact (shrinks_number 1).bind fun _ => shrinks_pure _

theorem shrinks_parseData : Shrinks parseData := shrinks_parseSize.bind shrinks_take

theorem shrinks_parseLonglong (tag : UInt8) : Shrinks (parseLonglong tag) := by
  unfold parseLonglong
  split
  · exact (shrinks_number 1).bind fun _ => shrinks_pure _
  · split
    · exact (shrinks_number 4).bind fun _ => shrinks_pure _
    · split
      · apply (shrinks_number 1).bind
        intro count
        apply (shrinks_number 1).bind
        intro sign
        exact (shrinks_take count).bind fun _ => shrinks_pure _
      · exact shrinks_fail

theorem shrinks_parseTupleHeader (tag : UInt8) : Shrinks (parseTupleHeader tag) := by
  have counts : Shrinks (tupleArity tag) := by
    unfold tupleArity
    split
    · exact shrinks_number 1
    · split
      · exact shrinks_parseSize
      · exact shrinks_fail
  exact counts.bind fun _ => shrinks_pure _

theorem shrinks_parseListHeader (tag : UInt8) : Shrinks (parseListHeader tag) := by
  have counts : Shrinks (listArity tag) := by
    unfold listArity
    split
    · exact shrinks_pure 0
    · split
      · exact shrinks_parseSize
      · exact shrinks_fail
  exact counts.bind fun _ => shrinks_pure _

/-- The decoder of an item takes at least its tag. -/
theorem forward_tagged {Value : Type} {body : UInt8 → ByteParser Value}
    (shrinks : ∀ tag, Shrinks (body tag)) : (decoder (tagged body)).Forward := by
  intro buff index value next inside ran
  obtain ⟨⟨read, rest⟩, parsed, same⟩ := Option.map_eq_some_iff.mp ran
  obtain ⟨-, rfl⟩ := Prod.mk.inj same
  have shorter := byte_shorter shrinks parsed
  rw [List.length_drop] at shorter
  omega

theorem forward_externalFormat : externalFormat.Forward where
  atom := forward_tagged (shrinks_onlyTag shrinks_parseLetters 100)
  longlong := forward_tagged shrinks_parseLonglong
  double := forward_tagged (shrinks_onlyTag ((shrinks_number 8).bind fun _ => shrinks_pure _) 70)
  string := forward_tagged (shrinks_onlyTag shrinks_parseLetters 107)
  ref := forward_tagged shrinks_parseAnyRef
  port := forward_tagged (shrinks_onlyTag shrinks_parsePort 102)
  pid := forward_tagged (shrinks_onlyTag shrinks_parsePid 103)
  binary := forward_tagged (shrinks_onlyTag shrinks_parseData 109)
  tupleHeader := forward_tagged shrinks_parseTupleHeader
  listHeader := forward_tagged shrinks_parseListHeader

end ExternalFormat

end Epi.Buffer
