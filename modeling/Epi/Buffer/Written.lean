import Epi.Buffer.Item
import Epi.Type.SubstCorrect

namespace Epi.Buffer

open Verification Epi.Type ErlTerm

mutual

/-- The bytes of a term without variables. -/
def bytesOf (ei : Ei) : ErlTerm → Bytes
  | .simple value => (itemOf ei value).getD []
  | .erlTuple _ _ elems => (ei.encodeTupleHeader elems.length).getD [] ++ bytesOfEach ei elems
  | .erlConsList _ elems =>
      (ei.encodeListHeader (elems.length - 1)).getD [] ++ bytesOfEach ei elems
  | .erlVariable _ => []

def bytesOfEach (ei : Ei) : List ErlTerm → Bytes
  | [] => []
  | elem :: rest => bytesOf ei elem ++ bytesOfEach ei rest

end

theorem bytesOfEach_eq (ei : Ei) (elems : List ErlTerm) :
    bytesOfEach ei elems = elems.flatMap (bytesOf ei) := by
  induction elems with
  | nil => rfl
  | cons elem rest ih => rw [bytesOfEach, ih, List.flatMap_cons]

def writtenNode : ErlTerm → Bool
  | .simple value => value.isValid
  | .erlTuple mInitialized mArity elems => mInitialized && mArity == some elems.length
  | .erlConsList mInitialized elems => mInitialized && 2 ≤ elems.length
  | .erlVariable _ => false

/-- A term without variables whose vectors are complete. The tail of a list may be a list. -/
def Written (term : ErlTerm) : Prop := term.every writtenNode = true

instance (term : ErlTerm) : Decidable (Written term) := inferInstanceAs (Decidable (_ = true))

theorem written_erlTuple {mInitialized : Bool} {mArity : Option Nat} {elems : List ErlTerm} :
    Written (.erlTuple mInitialized mArity elems) ↔
      mInitialized = true ∧ mArity = some elems.length ∧ ∀ elem ∈ elems, Written elem := by
  simp only [Written, every_erlTuple, writtenNode, Bool.and_eq_true, beq_iff_eq, and_assoc]

theorem written_erlConsList {mInitialized : Bool} {elems : List ErlTerm} :
    Written (.erlConsList mInitialized elems) ↔
      mInitialized = true ∧ 2 ≤ elems.length ∧ ∀ elem ∈ elems, Written elem := by
  simp only [Written, every_erlConsList, writtenNode, Bool.and_eq_true, decide_eq_true_eq,
    and_assoc]

theorem Written.ground {term : ErlTerm} (written : Written term) : term.Ground := by
  apply every_imp _ written
  intro part holds
  cases part with
  | erlVariable mName => exact absurd holds (by simp [writtenNode])
  | _ => rfl

theorem Written.isValid {term : ErlTerm} (written : Written term) : term.isValid = true := by
  have here := every_self written
  cases term with
  | simple value => exact here
  | erlTuple mInitialized mArity elems => exact (written_erlTuple.mp written).1
  | erlConsList mInitialized elems => exact (written_erlConsList.mp written).1
  | erlVariable mName => rfl

/-- A vector with at least two entries has elements before its tail. -/
theorem cells_split {elems : List ErlTerm} (long : 2 ≤ elems.length) :
    ∃ cells last, elems = cells ++ [last] ∧ cells ≠ [] := by
  rcases List.eq_nil_or_concat elems with empty | ⟨cells, last, same⟩
  · subst empty
    exact absurd long (by simp)
  · rw [List.concat_eq_append] at same
    refine ⟨cells, last, same, ?_⟩
    intro none
    rw [same, none] at long
    exact absurd long (by simp)

theorem Written.of_valid {term : ErlTerm} (valid : term.Valid) (ground : term.Ground)
    (celled : term.Celled) : Written term := by
  induction term with
  | simple value => exact valid
  | erlTuple mInitialized mArity elems ih =>
      obtain ⟨flag, size, parts⟩ := valid_erlTuple.mp valid
      refine written_erlTuple.mpr ⟨flag, size, ?_⟩
      intro elem member
      exact ih elem member (parts elem member) (ground.parts elem member)
        (hereditary_every cellNode _ celled elem member)
  | erlConsList mInitialized elems ih =>
      obtain ⟨flag, -, parts⟩ := valid_erlConsList.mp valid
      have long : cellNode (.erlConsList mInitialized elems) = true := every_self celled
      refine written_erlConsList.mpr ⟨flag, by simpa [cellNode] using long, ?_⟩
      intro elem member
      exact ih elem member (parts elem member) (ground.parts elem member)
        (hereditary_every cellNode _ celled elem member)
  | erlVariable mName => exact absurd ground (by simp [Ground, isVariable])

/-- The written bytes of an output buffer with more bytes behind them. -/
def EIOutputBuffer.add (buffer : EIOutputBuffer) (bytes : Bytes) : EIOutputBuffer :=
  { buffer with buff := buffer.buff ++ bytes }

@[simp] theorem EIOutputBuffer.add_nil (buffer : EIOutputBuffer) : buffer.add [] = buffer := by
  simp [add]

@[simp] theorem EIOutputBuffer.add_add (buffer : EIOutputBuffer) (first second : Bytes) :
    (buffer.add first).add second = buffer.add (first ++ second) := by
  simp [add]

theorem append_some (failure : String) (bytes : Bytes) (buffer : EIOutputBuffer) :
    EIOutputBuffer.append failure (some bytes) buffer = (.returns (), buffer.add bytes) := rfl

theorem appendUnchecked_some (bytes : Bytes) (buffer : EIOutputBuffer) :
    EIOutputBuffer.appendUnchecked (some bytes) buffer = (.returns (), buffer.add bytes) := rfl

/-- The loop over the elements writes their bytes in order. -/
theorem writeElements_each {write : ErlTerm → Method EIOutputBuffer Unit}
    {elementAt : Nat → Call ErlTerm} {bytes : ErlTerm → Bytes} {elems : List ErlTerm}
    (each : ∀ elem ∈ elems, ∀ buffer, write elem buffer = (.returns (), buffer.add (bytes elem)))
    (start : Nat)
    (found : ∀ index elem, elems[index]? = some elem → elementAt (start + index) = .returns elem)
    (buffer : EIOutputBuffer) :
    EIOutputBuffer.writeElements write elementAt elems.length start buffer =
      (.returns (), buffer.add (elems.flatMap bytes)) := by
  induction elems generalizing start buffer with
  | nil =>
      rw [List.flatMap_nil, EIOutputBuffer.add_nil]
      rfl
  | cons elem rest ih =>
      have first : elementAt start = .returns elem := found 0 elem rfl
      have later := ih (fun other member => each other (List.mem_cons_of_mem _ member)) (start + 1)
        (fun index other at' => by
          have shifted := found (index + 1) other at'
          rwa [show start + (index + 1) = start + 1 + index by omega] at shifted)
        (buffer.add (bytes elem))
      rw [List.length_cons, EIOutputBuffer.writeElements, Effect.bind_run, first, Effect.lift_run]
      simp only
      rw [Effect.bind_of_returns (each elem List.mem_cons_self buffer), later,
        EIOutputBuffer.add_add, List.flatMap_cons]

theorem writeTerm_of_returns {ei : Ei} {binding : Option VariableBinding} {fuel : Nat}
    {term : Option ErlTerm} {buffer after : EIOutputBuffer}
    (ran : EIOutputBuffer.writeNext ei binding
      (fun elem => EIOutputBuffer.writeTerm ei binding fuel (some elem)) term buffer =
        (.returns (), after)) :
    EIOutputBuffer.writeTerm ei binding (fuel + 1) term buffer = (.returns (), after) := by
  rw [EIOutputBuffer.writeTerm, Method.throwsOnly, Effect.mapOutcome_run, ran]
  rfl

theorem writeSimple_item {ei : Ei} {value : SimpleTerm} {bytes : Bytes}
    (encoded : itemOf ei value = some bytes) (buffer : EIOutputBuffer) :
    EIOutputBuffer.writeSimple ei value buffer = (.returns (), buffer.add bytes) := by
  have appended : ∀ (failure : String) (item : Option Bytes), item = some bytes →
      EIOutputBuffer.append failure item buffer = (.returns (), buffer.add bytes) := by
    intro failure item same
    rw [same]
    rfl
  cases value with
  | erlEmptyList => exact appended _ _ encoded
  | erlRef ref =>
      obtain ⟨sent, converted, item⟩ := Option.bind_eq_some_iff.mp encoded
      simp only [EIOutputBuffer.writeSimple, converted]
      exact appended _ _ item
  | erlPort port =>
      obtain ⟨sent, converted, item⟩ := Option.bind_eq_some_iff.mp encoded
      simp only [EIOutputBuffer.writeSimple, converted]
      exact appended _ _ item
  | erlPid pid =>
      obtain ⟨sent, converted, item⟩ := Option.bind_eq_some_iff.mp encoded
      simp only [EIOutputBuffer.writeSimple, converted]
      exact appended _ _ item
  | _ =>
      obtain ⟨value, rfl, item⟩ := Option.bind_eq_some_iff.mp encoded
      exact appended _ _ item

/-- The parts of a term are filled in with it. -/
theorem part_filled {binding : Option VariableBinding} {term part : ErlTerm}
    (inside : part ∈ term.parts) : filled binding part ∈ (filled binding term).parts := by
  cases term with
  | erlTuple mInitialized mArity elems =>
      rw [filled, filledEach_eq]
      exact List.mem_map_of_mem inside
  | erlConsList mInitialized elems =>
      rw [filled, filledEach_eq]
      exact List.mem_map_of_mem inside
  | _ => cases inside

section Compound

variable {ei : Ei} {binding : Option VariableBinding} {write : ErlTerm → Method EIOutputBuffer Unit}
  {mInitialized : Bool} {elems : List ErlTerm}

/-- A tuple is written when its elements are. -/
theorem writeNext_erlTuple {mArity : Option Nat} (lawful : ei.Lawful)
    (written : Written (filled binding (.erlTuple mInitialized mArity elems)))
    (each : ∀ elem ∈ elems, ∀ out,
      write elem out = (.returns (), out.add (bytesOf ei (filled binding elem))))
    (buffer : EIOutputBuffer) :
    EIOutputBuffer.writeNext ei binding write (some (.erlTuple mInitialized mArity elems)) buffer =
      (.returns (),
        buffer.add (bytesOf ei (filled binding (.erlTuple mInitialized mArity elems)))) := by
  rw [filled, filledEach_eq] at written ⊢
  obtain ⟨flag, size, -⟩ := written_erlTuple.mp written
  rw [List.length_map] at size
  subst flag size
  obtain ⟨header, -, encoded⟩ := lawful.tupleWritten elems.length
  have looped := writeElements_each each 0 (fun index elem found => by
    rw [Nat.zero_add]
    exact ErlTuple.elementAt_complete found) (buffer.add header)
  simp only [EIOutputBuffer.writeNext, ErlTuple.arity, Effect.bind_run, Effect.lift_run,
    encoded, append_some]
  rw [looped, EIOutputBuffer.add_add, bytesOf, bytesOfEach_eq, List.length_map, encoded,
    List.flatMap_map]
  rfl

/-- A list is written when its elements and its tail are. -/
theorem writeNext_erlConsList (lawful : ei.Lawful)
    (written : Written (filled binding (.erlConsList mInitialized elems)))
    (each : ∀ elem ∈ elems, ∀ out,
      write elem out = (.returns (), out.add (bytesOf ei (filled binding elem))))
    (buffer : EIOutputBuffer) :
    EIOutputBuffer.writeNext ei binding write (some (.erlConsList mInitialized elems)) buffer =
      (.returns (), buffer.add (bytesOf ei (filled binding (.erlConsList mInitialized elems)))) := by
  rw [filled, filledEach_eq] at written ⊢
  obtain ⟨flag, long, -⟩ := written_erlConsList.mp written
  rw [List.length_map] at long
  obtain ⟨cells, last, rfl, nonempty⟩ := cells_split long
  subst flag
  obtain ⟨header, -, encoded⟩ :=
    lawful.listWritten cells.length (List.length_pos_iff.mpr nonempty)
  have looped := writeElements_each
    (fun elem inside => each elem (List.mem_append_left _ inside)) 0
    (fun index elem found => by
      rw [Nat.zero_add]
      exact ErlConsList.elementAt_cell last found) (buffer.add header)
  have lastWritten := each last (by simp)
  have tailFound := ErlConsList.tail_concat last nonempty
  simp only [EIOutputBuffer.writeNext, ErlConsList.arity_concat, Effect.bind_run,
    Effect.lift_run, encoded, appendUnchecked_some, looped, tailFound, lastWritten]
  rw [EIOutputBuffer.add_add, EIOutputBuffer.add_add, bytesOf, bytesOfEach_eq,
    List.length_map, List.length_append, List.length_singleton, Nat.add_sub_cancel, encoded,
    List.flatMap_map, List.flatMap_append, List.flatMap_singleton]
  simp

end Compound

/-- A term with its variables filled in is written as its bytes. -/
theorem writeTerm_filled {ei : Ei} (lawful : ei.Lawful) {binding : Option VariableBinding}
    {fuel : Nat} {term : ErlTerm} (written : Written (filled binding term))
    (inRange : InRange ei (filled binding term)) (named : Named term)
    (enough : term.Ground ∧ (filled binding term).depth + 1 ≤ fuel ∨
      (filled binding term).depth + 2 ≤ fuel) (buffer : EIOutputBuffer) :
    EIOutputBuffer.writeTerm ei binding fuel (some term) buffer =
      (.returns (), buffer.add (bytesOf ei (filled binding term))) := by
  induction fuel generalizing term buffer with
  | zero =>
      rcases enough with ⟨-, few⟩ | few
      · exact absurd few (by omega)
      · exact absurd few (by omega)
  | succ fuel ih =>
      apply writeTerm_of_returns
      have parts : ∀ part ∈ term.parts, ∀ out,
          EIOutputBuffer.writeTerm ei binding fuel (some part) out =
            (.returns (), out.add (bytesOf ei (filled binding part))) := by
        intro part inside out
        have member : filled binding part ∈ (filled binding term).parts := part_filled inside
        have lower := depth_part member
        apply ih (hereditary_every _ _ written _ member) (hereditary_every _ _ inRange _ member)
          (hereditary_every _ _ named part inside)
        exact enough.imp (fun plain => ⟨plain.1.parts part inside, by omega⟩) (fun _ => by omega)
      cases term with
      | simple value =>
          rw [filled] at written inRange ⊢
          have valid : value.isValid = true := written.isValid
          obtain ⟨bytes, encoded, -⟩ := simple_item lawful valid (every_self inRange)
          rw [bytesOf, encoded]
          exact writeSimple_item encoded buffer
      | erlTuple mInitialized mArity elems => exact writeNext_erlTuple lawful written parts buffer
      | erlConsList mInitialized elems => exact writeNext_erlConsList lawful written parts buffer
      | erlVariable mName =>
          have wild : mName ≠ anonymous := by
            have here : namedNode (.erlVariable mName) = true := every_self named
            simpa [namedNode] using here
          have bound : (filled binding (.erlVariable mName)).depth + 2 ≤ fuel + 1 := by
            rcases enough with ⟨ground, -⟩ | enough
            · exact absurd ground (by simp [Ground, isVariable])
            · exact enough
          simp only [EIOutputBuffer.writeNext, wild, if_false]
          cases found : binding.bind (·.search mName) with
          | none =>
              rw [filled, found] at written
              exact absurd written (by simp [Written, writtenNode])
          | some value =>
              rw [filled, found, Option.getD_some] at written inRange bound ⊢
              have ground := written.ground
              have same := filled_ground ground binding
              have valueNamed : Named value := every_imp (fun part holds => by
                cases part with
                | erlVariable other => exact absurd holds (by simp [isVariable])
                | _ => rfl) ground
              have ran : EIOutputBuffer.writeTerm ei binding fuel (some value) buffer =
                  (.returns (), buffer.add (bytesOf ei (filled binding value))) := by
                apply ih _ _ valueNamed
                · rw [same]
                  exact .inl ⟨ground, by omega⟩
                · rwa [same]
                · rwa [same]
              rw [same] at ran
              exact ran

/-- Each element of the loop was handed out and written. -/
theorem writeElements_returns {write : ErlTerm → Method EIOutputBuffer Unit}
    {elementAt : Nat → Call ErlTerm} {count start : Nat} {buffer after : EIOutputBuffer}
    (ran : EIOutputBuffer.writeElements write elementAt count start buffer =
      (.returns (), after)) :
    ∀ index < count, ∃ elem before next, elementAt (start + index) = .returns elem ∧
      write elem before = (.returns (), next) := by
  induction count generalizing start buffer with
  | zero =>
      intro index inside
      exact absurd inside (Nat.not_lt_zero index)
  | succ count ih =>
      rw [EIOutputBuffer.writeElements] at ran
      obtain ⟨elem, same, found, written⟩ := Effect.bind_eq_returns.mp ran
      obtain ⟨done, next, wrote, loop⟩ := Effect.bind_eq_returns.mp written
      intro index inside
      cases index with
      | zero => exact ⟨elem, same, next, congrArg Prod.fst found, wrote⟩
      | succ index =>
          have later := ih loop index (by omega)
          rwa [show start + 1 + index = start + (index + 1) by omega] at later

/-- A tuple hands out its elements only, and a tuple with a gap stops the loop. -/
theorem elements_of_tuple {mInitialized : Bool} {arity : Nat} {elems : List ErlTerm}
    {Good : ErlTerm → Prop} (few : elems.length ≤ arity)
    (each : ∀ index < arity, ∃ elem,
      ErlTuple.elementAt ⟨mInitialized, some arity, elems⟩ index = .returns elem ∧ Good elem) :
    elems.length = arity ∧ ∀ elem ∈ elems, Good elem := by
  have found : ∀ index < arity, ∃ elem, elems[index]? = some elem ∧ Good elem := by
    intro index inside
    obtain ⟨elem, handed, good⟩ := each index inside
    refine ⟨elem, ?_, good⟩
    unfold ErlTuple.elementAt at handed
    simp only at handed
    split at handed
    · cases handed
    · split at handed
      · cases handed
      · split at handed
        · rename_i same
          rw [same, Outcome.returns.inj handed]
        · cases handed
  constructor
  · by_contra gap
    obtain ⟨elem, here, -⟩ := found elems.length (by omega)
    rw [List.getElem?_eq_none (Nat.le_refl _)] at here
    cases here
  · intro elem member
    obtain ⟨index, inside, same⟩ := List.getElem_of_mem member
    obtain ⟨other, here, good⟩ := found index (by omega)
    rw [List.getElem?_eq_getElem inside, same] at here
    rw [Option.some.inj here]
    exact good

/-- A list hands out its cells and its tail only, and at least one cell. -/
theorem elements_of_list {mInitialized : Bool} {elems : List ErlTerm} {tail : ErlTerm}
    {Good : ErlTerm → Prop} (closed : mInitialized = true → closedBy elems = true)
    (each : ∀ index < ErlConsList.arity ⟨mInitialized, elems⟩, ∃ elem,
      ErlConsList.elementAt ⟨mInitialized, elems⟩ index = .returns elem ∧ Good elem)
    (handed : ErlConsList.tail ⟨mInitialized, elems⟩
      (unsignedPred (ErlConsList.arity ⟨mInitialized, elems⟩)) = .returns tail)
    (last : Good tail) :
    mInitialized = true ∧ 2 ≤ elems.length ∧ ∀ elem ∈ elems, Good elem := by
  cases mInitialized with
  | false => exact absurd handed (by simp [ErlConsList.tail])
  | true =>
      obtain ⟨cells, other, rfl, -⟩ := closedBy_split (closed rfl)
      rw [ErlConsList.arity_concat] at each handed
      have nonempty : cells ≠ [] := by
        rintro rfl
        rw [List.length_nil, List.nil_append, ErlConsList.tail_alone] at handed
        cases handed
      rw [ErlConsList.tail_concat other nonempty] at handed
      have same : other = tail := Outcome.returns.inj handed
      have positive := List.length_pos_iff.mpr nonempty
      refine ⟨rfl, by simp only [List.length_append, List.length_singleton]; omega, ?_⟩
      intro elem member
      rcases List.mem_append.mp member with cell | ending
      · obtain ⟨index, inside, found⟩ := List.getElem_of_mem cell
        obtain ⟨picked, here, good⟩ := each index inside
        have there : cells[index]? = some elem := by
          rw [List.getElem?_eq_getElem inside, found]
        rw [ErlConsList.elementAt_cell other there] at here
        rw [Outcome.returns.inj here]
        exact good
      · rw [List.mem_singleton.mp ending, same]
        exact last

theorem writeSimple_returns {ei : Ei} {value : SimpleTerm} {buffer after : EIOutputBuffer}
    (ran : EIOutputBuffer.writeSimple ei value buffer = (.returns (), after)) :
    value.isValid = true := by
  have absent : ∀ (Value : Type) (failure : String)
      (next : Value → Method EIOutputBuffer Unit),
      (EIOutputBuffer.initialized failure none >>= next) buffer ≠ (.returns (), after) := by
    intro Value failure next same
    obtain ⟨value, middle, failed, -⟩ := Effect.bind_eq_returns.mp same
    cases (congrArg Prod.fst failed)
  by_contra invalid
  cases value with
  | erlEmptyList => exact invalid rfl
  | erlRef ref | erlPort port | erlPid pid | erlAtom mAtom | erlLong mValue | erlDouble mValue
  | erlString mString | erlBinary mData =>
      rw [SimpleTerm.isValid, Bool.not_eq_true, Option.isSome_eq_false_iff,
        Option.isNone_iff_eq_none] at invalid
      subst invalid
      exact absent _ _ _ ran

/-- Whatever is written has named variables with complete values. -/
theorem written_of_returns {ei : Ei} {binding : Option VariableBinding}
    (values : ∀ held ∈ binding, held.Values Storable) {fuel : Nat} {term : ErlTerm}
    (built : term.Built) {buffer after : EIOutputBuffer}
    (ran : EIOutputBuffer.writeTerm ei binding fuel (some term) buffer = (.returns (), after)) :
    Named term ∧ Written (filled binding term) := by
  induction fuel generalizing term buffer after with
  | zero => cases (congrArg Prod.fst ran)
  | succ fuel ih =>
      rw [EIOutputBuffer.writeTerm, Method.throwsOnly, Effect.mapOutcome_run, Prod.mk.injEq,
        Call.throwsOnly_eq_returns] at ran
      have wrote : EIOutputBuffer.writeNext ei binding
          (fun elem => EIOutputBuffer.writeTerm ei binding fuel (some elem)) (some term) buffer =
            (.returns (), after) := Prod.ext ran.1 ran.2
      cases term with
      | simple value =>
          have valid : value.isValid = true := writeSimple_returns wrote
          rw [Named, every_simple, filled, Written, every_simple]
          exact ⟨rfl, valid⟩
      | erlTuple mInitialized mArity elems =>
          obtain ⟨parts, shape⟩ := built
          simp only [EIOutputBuffer.writeNext] at wrote
          obtain ⟨arity, same, counted, headed⟩ := Effect.bind_eq_returns.mp wrote
          obtain ⟨done, started, -, loop⟩ := Effect.bind_eq_returns.mp headed
          cases mArity with
          | none => cases (congrArg Prod.fst counted)
          | some size =>
              obtain rfl : size = arity := Outcome.returns.inj (congrArg Prod.fst counted)
              have each : ∀ index < size, ∃ elem,
                  ErlTuple.elementAt ⟨mInitialized, some size, elems⟩ index = .returns elem ∧
                    (elem.Built → Named elem ∧ Written (filled binding elem)) := by
                intro index inside
                obtain ⟨elem, before, next, handed, ran⟩ := writeElements_returns loop index inside
                rw [Nat.zero_add] at handed
                exact ⟨elem, handed, fun built => ih built ran⟩
              obtain ⟨complete, good⟩ := elements_of_tuple shape.1 each
              have goods := fun elem member => good elem member (parts elem member).built
              refine ⟨(every_erlTuple ..).mpr ⟨rfl, fun elem member => (goods elem member).1⟩, ?_⟩
              rw [filled, filledEach_eq, written_erlTuple, List.length_map, complete]
              refine ⟨shape.2.mpr complete, rfl, ?_⟩
              intro part member
              obtain ⟨elem, inside, rfl⟩ := List.mem_map.mp member
              exact (goods elem inside).2
      | erlConsList mInitialized elems =>
          obtain ⟨parts, closed⟩ := built
          simp only [EIOutputBuffer.writeNext] at wrote
          obtain ⟨done, headed, -, elements⟩ := Effect.bind_eq_returns.mp wrote
          obtain ⟨done, looped, loop, ending⟩ := Effect.bind_eq_returns.mp elements
          obtain ⟨tail, same, handed, ended⟩ := Effect.bind_eq_returns.mp ending
          have each : ∀ index < ErlConsList.arity ⟨mInitialized, elems⟩, ∃ elem,
              ErlConsList.elementAt ⟨mInitialized, elems⟩ index = .returns elem ∧
                (elem.Built → Named elem ∧ Written (filled binding elem)) := by
            intro index inside
            obtain ⟨elem, before, next, handed, ran⟩ := writeElements_returns loop index inside
            rw [Nat.zero_add] at handed
            exact ⟨elem, handed, fun built => ih built ran⟩
          obtain ⟨flag, long, good⟩ := elements_of_list closed each (congrArg Prod.fst handed)
            fun built => ih built ended
          have goods := fun elem member => good elem member (parts elem member).built
          refine ⟨(every_erlConsList ..).mpr ⟨rfl, fun elem member => (goods elem member).1⟩, ?_⟩
          rw [filled, filledEach_eq, written_erlConsList, List.length_map]
          refine ⟨flag, long, ?_⟩
          intro part member
          obtain ⟨elem, inside, rfl⟩ := List.mem_map.mp member
          exact (goods elem inside).2
      | erlVariable mName =>
          simp only [EIOutputBuffer.writeNext] at wrote
          split at wrote
          · cases (congrArg Prod.fst wrote)
          · rename_i named
            cases found : binding.bind (·.search mName) with
            | none =>
                rw [found] at wrote
                cases (congrArg Prod.fst wrote)
            | some value =>
                rw [found] at wrote
                obtain ⟨held, bound, search⟩ := Option.bind_eq_some_iff.mp found
                have storable := values held bound mName value search
                have inner := (ih storable.2 wrote).2
                rw [filled_ground storable.1] at inner
                rw [Named, every_erlVariable, filled, found]
                exact ⟨by simpa [namedNode] using named, inner⟩

end Epi.Buffer
