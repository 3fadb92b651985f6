import Mathlib
import Epi.Buffer.Written

namespace Epi.Buffer

open Verification Epi.Type ErlTerm

mutual

/-- The term that is read for a written term. -/
def received : ErlTerm → Option ErlTerm
  | .simple value => (receivedSimple value).map .simple
  | .erlTuple mInitialized mArity elems =>
      (receivedEach elems).map (.erlTuple mInitialized mArity)
  | .erlConsList mInitialized elems => (receivedEach elems).map (.erlConsList mInitialized)
  | .erlVariable mName => some (.erlVariable mName)

def receivedEach : List ErlTerm → Option (List ErlTerm)
  | [] => some []
  | elem :: rest => (received elem).bind fun read => (receivedEach rest).map (read :: ·)

end

theorem receivedEach_iff {elems reads : List ErlTerm} :
    receivedEach elems = some reads ↔
      List.Forall₂ (fun elem read => received elem = some read) elems reads := by
  induction elems generalizing reads with
  | nil => rw [receivedEach, Option.some.injEq, List.forall₂_nil_left_iff, eq_comm]
  | cons elem rest ih =>
      rw [receivedEach, Option.bind_eq_some_iff, List.forall₂_cons_left_iff]
      constructor
      · rintro ⟨read, here, later⟩
        obtain ⟨others, found, rfl⟩ := Option.map_eq_some_iff.mp later
        exact ⟨read, others, here, ih.mp found, rfl⟩
      · rintro ⟨read, others, here, later, rfl⟩
        exact ⟨read, here, Option.map_eq_some_iff.mpr ⟨others, ih.mpr later, rfl⟩⟩

theorem receivedSimple_isValid {value read : SimpleTerm}
    (found : receivedSimple value = some read) : read.isValid = value.isValid := by
  unfold receivedSimple at found
  split at found
  · obtain ⟨ref, -, rfl⟩ := Option.map_eq_some_iff.mp found
    rfl
  · obtain ⟨port, -, rfl⟩ := Option.map_eq_some_iff.mp found
    rfl
  · obtain ⟨pid, -, rfl⟩ := Option.map_eq_some_iff.mp found
    rfl
  · rw [Option.some.inj found]

/-- The class and the state of a term are received unchanged. -/
theorem received_shape {term read : ErlTerm} (found : received term = some read) :
    read.isValid = term.isValid ∧ read.isConsList = term.isConsList ∧
      read.isVariable = term.isVariable := by
  cases term with
  | simple value =>
      rw [received] at found
      obtain ⟨value, same, rfl⟩ := Option.map_eq_some_iff.mp found
      exact ⟨receivedSimple_isValid same, rfl, rfl⟩
  | erlTuple mInitialized mArity elems =>
      rw [received] at found
      obtain ⟨reads, -, rfl⟩ := Option.map_eq_some_iff.mp found
      exact ⟨rfl, rfl, rfl⟩
  | erlConsList mInitialized elems =>
      rw [received] at found
      obtain ⟨reads, -, rfl⟩ := Option.map_eq_some_iff.mp found
      exact ⟨rfl, rfl, rfl⟩
  | erlVariable mName =>
      rw [received] at found
      rw [← Option.some.inj found]
      exact ⟨rfl, rfl, rfl⟩

theorem receivedSimple_clean {value : SimpleTerm} (clean : cleanNode (.simple value) = true) :
    receivedSimple value = some value := by
  unfold receivedSimple
  split
  · rw [cleanNode, contains_zero] at clean
    rw [receivedRef, cutNode_clean clean]
    rfl
  · rw [cleanNode, contains_zero] at clean
    rw [receivedPort, cutNode_clean clean]
    rfl
  · rw [cleanNode, contains_zero] at clean
    rw [receivedPid, cutNode_clean clean]
    rfl
  · rfl

/-- A term with clean node names is received as it is. -/
theorem received_clean {term : ErlTerm} (clean : CleanNodes term) :
    received term = some term := by
  have each : ∀ elems : List ErlTerm, (∀ elem ∈ elems, received elem = some elem) →
      receivedEach elems = some elems := by
    intro elems same
    exact receivedEach_iff.mpr (List.forall₂_same.mpr same)
  induction term with
  | simple value => rw [received, receivedSimple_clean (every_self clean), Option.map_some]
  | erlTuple mInitialized mArity elems ih =>
      have cleans := hereditary_every cleanNode _ clean
      rw [received, each elems fun elem member => ih elem member (cleans elem member),
        Option.map_some]
  | erlConsList mInitialized elems ih =>
      have cleans := hereditary_every cleanNode _ clean
      rw [received, each elems fun elem member => ih elem member (cleans elem member),
        Option.map_some]
  | erlVariable mName => rw [received]

theorem clean_of_receivedSimple {value read : SimpleTerm}
    (found : receivedSimple value = some read) (same : read.equals value = true) :
    cleanNode (.simple value) = true := by
  cases value with
  | erlRef ref =>
      cases ref with
      | none => rfl
      | some ref =>
          obtain ⟨kept, here, rfl⟩ := Option.map_eq_some_iff.mp found
          obtain ⟨node, cut, rfl⟩ := Option.map_eq_some_iff.mp here
          have equal : ErlRef.equals _ _ = true := same
          simp only [ErlRef.equals, Bool.and_eq_true, beq_iff_eq] at equal
          exact contains_zero.mpr (clean_of_cutNode cut equal.1.1.2)
  | erlPort port =>
      cases port with
      | none => rfl
      | some port =>
          obtain ⟨kept, here, rfl⟩ := Option.map_eq_some_iff.mp found
          obtain ⟨node, cut, rfl⟩ := Option.map_eq_some_iff.mp here
          have equal : ErlPort.equals _ _ = true := same
          simp only [ErlPort.equals, Bool.and_eq_true, beq_iff_eq] at equal
          exact contains_zero.mpr (clean_of_cutNode cut equal.1)
  | erlPid pid =>
      cases pid with
      | none => rfl
      | some pid =>
          obtain ⟨kept, here, rfl⟩ := Option.map_eq_some_iff.mp found
          obtain ⟨node, cut, rfl⟩ := Option.map_eq_some_iff.mp here
          have equal : ErlPid.equals _ _ = true := same
          simp only [ErlPid.equals, Bool.and_eq_true, beq_iff_eq] at equal
          exact contains_zero.mpr (clean_of_cutNode cut equal.1.1)
  | _ => rfl

/-- A term that equals what is received for it has clean node names. -/
theorem clean_of_received {term read : ErlTerm} (found : received term = some read)
    (same : read.equals term = true) : CleanNodes term := by
  have each : ∀ elems reads : List ErlTerm, receivedEach elems = some reads →
      equalElements reads elems = true →
      (∀ elem ∈ elems, ∀ read, received elem = some read → read.equals elem = true →
        CleanNodes elem) → ∀ elem ∈ elems, CleanNodes elem := by
    intro elems reads parts equal cleans
    induction receivedEach_iff.mp parts with
    | nil => exact List.forall_mem_nil _
    | @cons elem read rest others here later ih =>
        rw [equalElements_cons, Bool.and_eq_true] at equal
        intro part member
        rcases List.mem_cons.mp member with rfl | inside
        · exact cleans part List.mem_cons_self read here equal.1
        · exact ih (receivedEach_iff.mpr later) equal.2
            (fun other held => cleans other (List.mem_cons_of_mem _ held)) part inside
  induction term generalizing read with
  | simple value =>
      rw [received] at found
      obtain ⟨value, here, rfl⟩ := Option.map_eq_some_iff.mp found
      rw [equals_simple] at same
      rw [CleanNodes, every_simple]
      exact clean_of_receivedSimple here same
  | erlTuple mInitialized mArity elems ih =>
      rw [received] at found
      obtain ⟨reads, parts, rfl⟩ := Option.map_eq_some_iff.mp found
      rw [equals_erlTuple, Bool.and_eq_true] at same
      refine (every_erlTuple ..).mpr ⟨rfl, each elems reads parts same.2 ?_⟩
      exact fun elem member read here equal => ih elem member here equal
  | erlConsList mInitialized elems ih =>
      rw [received] at found
      obtain ⟨reads, parts, rfl⟩ := Option.map_eq_some_iff.mp found
      rw [equals_erlConsList, Bool.and_eq_true] at same
      refine (every_erlConsList ..).mpr ⟨rfl, each elems reads parts same.2 ?_⟩
      exact fun elem member read here equal => ih elem member here equal
  | erlVariable mName =>
      rw [CleanNodes, every_erlVariable]
      rfl

theorem onNew_returns {Object : Type} {call : Method Object Unit} {object after : Object}
    (ran : call object = (.returns (), after)) :
    EIInputBuffer.onNew call object = .returns after := by
  simp only [EIInputBuffer.onNew, ran]
  rfl

section Loops

variable {read : Method EIInputBuffer (Option ErlTerm)} {bytes : ErlTerm → Bytes}

/-- Each read yields what is received for a valid element. -/
def ReadEach (read : Method EIInputBuffer (Option ErlTerm)) (bytes : ErlTerm → Bytes)
    (elems : List ErlTerm) : Prop :=
  ∀ elem ∈ elems, Yields read (bytes elem) ((received elem).map some) ∧ elem.isValid = true

/-- The loop over the elements of a tuple. -/
theorem yields_readTuple {elems : List ErlTerm} (each : ReadEach read bytes elems) {arity : Nat}
    (done : List ErlTerm) (room : done.length + elems.length ≤ arity) :
    Yields (EIInputBuffer.readTuple read elems.length (ErlTuple.holding arity done))
      (elems.flatMap bytes)
      ((receivedEach elems).map fun reads => ErlTuple.holding arity (done ++ reads)) := by
  induction elems generalizing done with
  | nil =>
      rw [receivedEach, Option.map_some, List.append_nil]
      exact yields_pure _
  | cons elem rest ih =>
      obtain ⟨here, valid⟩ := each elem List.mem_cons_self
      simp only [List.length_cons] at room
      rw [List.flatMap_cons, List.length_cons, EIInputBuffer.readTuple, receivedEach]
      apply here.bind
      · intro missing
        rw [Option.map_eq_none_iff.mp missing]
        rfl
      · intro value found
        obtain ⟨first, same, rfl⟩ := Option.map_eq_some_iff.mp found
        have stored := onNew_returns (ErlTuple.initElement_holding arity done (by omega)
          ((received_shape same).1.trans valid))
        have roomLater : (done ++ [first]).length + rest.length ≤ arity := by
          simp only [List.length_append, List.length_singleton]
          omega
        have later := ih (fun other member => each other (List.mem_cons_of_mem _ member))
          (done ++ [first]) roomLater
        rw [stored, Effect.lift_returns_bind, same, Option.bind_some, Option.map_map]
        simpa only [List.append_assoc, List.singleton_append, Function.comp_def] using later

/-- The loop over the elements and the tail of a list. -/
theorem yields_readList {cells : List ErlTerm} {last : ErlTerm}
    (each : ReadEach read bytes (cells ++ [last])) (plain : last.isConsList = false)
    (done : List ErlTerm) :
    Yields (EIInputBuffer.readList read cells.length ⟨false, done⟩)
      ((cells ++ [last]).flatMap bytes)
      ((receivedEach (cells ++ [last])).map fun reads => ⟨true, done ++ reads⟩) := by
  induction cells generalizing done with
  | nil =>
      obtain ⟨here, valid⟩ := each last (by simp)
      rw [List.nil_append, List.flatMap_singleton, List.length_nil, EIInputBuffer.readList,
        receivedEach, receivedEach, ← List.append_nil (bytes last)]
      apply here.bind
      · intro missing
        rw [Option.map_eq_none_iff.mp missing]
        rfl
      · intro value found
        obtain ⟨first, same, rfl⟩ := Option.map_eq_some_iff.mp found
        have shape := received_shape same
        have closed := onNew_returns (ErlConsList.close_plain done (shape.1.trans valid)
          (shape.2.1.trans plain))
        rw [closed, same]
        exact yields_pure _
  | cons elem rest ih =>
      obtain ⟨here, valid⟩ := each elem (by simp)
      rw [List.cons_append, List.flatMap_cons, List.length_cons, EIInputBuffer.readList,
        receivedEach]
      apply here.bind
      · intro missing
        rw [Option.map_eq_none_iff.mp missing]
        rfl
      · intro value found
        obtain ⟨first, same, rfl⟩ := Option.map_eq_some_iff.mp found
        have added := onNew_returns (ErlConsList.addElement_open done
          ((received_shape same).1.trans valid))
        have later := ih (fun other member => each other (List.mem_cons_of_mem _ member))
          (done ++ [first])
        rw [added, Effect.lift_returns_bind, same, Option.bind_some, Option.map_map]
        simpa only [List.append_assoc, List.singleton_append, Function.comp_def] using later

end Loops

def flatNode : ErlTerm → Bool
  | .erlConsList _ elems => closedBy elems
  | _ => true

/-- No list ends in a list. -/
def Flat (term : ErlTerm) : Prop := term.every flatNode = true

instance (term : ErlTerm) : Decidable (Flat term) := inferInstanceAs (Decidable (_ = true))

theorem Flat.of_valid {term : ErlTerm} (valid : term.Valid) : Flat term := by
  apply every_imp _ valid
  intro part holds
  cases part with
  | erlConsList mInitialized elems =>
      simp only [validNode, Bool.and_eq_true] at holds
      exact holds.2
  | _ => rfl

theorem readType_tuple (ei : Ei) (nested : Method EIInputBuffer (Option ErlTerm)) (size : Nat)
    {type : ExternalType} (kind : type = .smallTupleExt ∨ type = .largeTupleExt) :
    EIInputBuffer.readType ei nested size type = (do
      let arity ← EIInputBuffer.decode (text "EI tuple decoding failed") ei.decodeTupleHeader
      let tuple ← EIInputBuffer.rethrow .decode
        (EIInputBuffer.readTuple nested arity.toNat
          (ErlTuple.ofArity (EIInputBuffer.unsignedOf arity)))
      return tuple.toTerm) := by
  rcases kind with rfl | rfl <;> rfl

theorem readType_list (ei : Ei) (nested : Method EIInputBuffer (Option ErlTerm)) (size : Nat) :
    EIInputBuffer.readType ei nested size .listExt = (do
      let arity ← EIInputBuffer.decode (text "EI list decoding failed") ei.decodeListHeader
      if arity = 0 then
        return .simple .erlEmptyList
      else
        let list ← EIInputBuffer.rethrow .decode (EIInputBuffer.readCells nested arity)
        return list.toTerm) := rfl

/-- A written tuple is read as the tuple of what is read for its elements. -/
theorem yields_tuple {ei : Ei} (lawful : ei.Lawful) {fuel : Nat} {elems : List ErlTerm}
    (each : ReadEach (EIInputBuffer.readTerm ei fuel) (bytesOf ei) elems)
    (carried : ei.carries elems.length = true) :
    Yields (EIInputBuffer.readTerm ei (fuel + 1)) (bytesOf ei (erlTuple true (some elems.length) elems))
      ((received (erlTuple true (some elems.length) elems)).map some) := by
  obtain ⟨header, encoded, item⟩ := lawful.tupleHeader elems.length carried
  have room : ([] : List ErlTerm).length + elems.length ≤ elems.length := by simp
  have looped := yields_readTuple each [] room
  rw [← ErlTuple.ofArity_eq, ← bytesOfEach_eq] at looped
  rw [bytesOf, encoded, Option.getD_some, received]
  apply yields_readTerm item
  intro type size held
  rw [readType_tuple ei _ size held]
  apply (yields_decode item _).bind
  · intro missing
    cases missing
  · intro arity same
    rw [← Option.some.inj same, EIInputBuffer.unsignedOf_natCast, Int.toNat_natCast]
    have built := (looped.mapOutcome (toOption_rethrow .decode)).map ErlTuple.toTerm
    rw [Option.map_map] at built
    have sizes : ∀ reads, receivedEach elems = some reads → reads.length = elems.length :=
      fun reads found => (receivedEach_iff.mp found).length_eq.symm
    cases found : receivedEach elems with
    | none =>
        rw [found] at built
        exact built
    | some reads =>
        rw [found] at built
        have complete : (ErlTuple.toTerm ∘ fun reads => ErlTuple.holding elems.length ([] ++ reads))
            reads = erlTuple true (some elems.length) reads := by
          simp [ErlTuple.toTerm, ErlTuple.holding, sizes reads found]
        rw [Option.map_some, complete] at built
        exact built

/-- A written list that ends in another term is read as the list of what is read for its entries. -/
theorem yields_list {ei : Ei} (lawful : ei.Lawful) {fuel : Nat} {cells : List ErlTerm}
    {last : ErlTerm} (each : ReadEach (EIInputBuffer.readTerm ei fuel) (bytesOf ei) (cells ++ [last]))
    (positive : 0 < cells.length) (carried : ei.carries cells.length = true)
    (plain : last.isConsList = false) :
    Yields (EIInputBuffer.readTerm ei (fuel + 1)) (bytesOf ei (erlConsList true (cells ++ [last])))
      ((received (erlConsList true (cells ++ [last]))).map some) := by
  obtain ⟨header, encoded, item⟩ := lawful.listHeader cells.length positive carried
  have looped := yields_readList each plain []
  rw [← bytesOfEach_eq] at looped
  rw [bytesOf, List.length_append, List.length_singleton, Nat.add_sub_cancel, encoded,
    Option.getD_some, received]
  apply yields_readTerm item
  intro type size held
  subst held
  rw [readType_list]
  apply (yields_decode item _).bind
  · intro missing
    cases missing
  · intro arity same
    rw [← Option.some.inj same, if_neg (by omega), EIInputBuffer.readCells_natCast]
    have built := (looped.mapOutcome (toOption_rethrow .decode)).map ErlConsList.toTerm
    rw [Option.map_map] at built
    exact built

/-- The bytes of a term whose lists do not end in lists are read as the term, with its node names
cut at their first NUL. -/
theorem yields_bytesOf {ei : Ei} (lawful : ei.Lawful) {term : ErlTerm} (written : Written term)
    (inRange : InRange ei term) (flat : Flat term) {fuel : Nat} (enough : term.depth + 1 ≤ fuel) :
    Yields (EIInputBuffer.readTerm ei fuel) (bytesOf ei term) ((received term).map some) := by
  induction term generalizing fuel with
  | simple value =>
      obtain ⟨fuel, rfl⟩ : ∃ rest, fuel = rest + 1 := ⟨fuel - 1, by omega⟩
      have valid : value.isValid = true := written.isValid
      obtain ⟨bytes, encoded, yields⟩ := simple_item lawful valid (every_self inRange)
      rw [bytesOf, encoded, received]
      exact yields fuel
  | erlTuple mInitialized mArity elems ih =>
      obtain ⟨fuel, rfl⟩ : ∃ rest, fuel = rest + 1 := ⟨fuel - 1, by omega⟩
      obtain ⟨flag, size, parts⟩ := written_erlTuple.mp written
      have ranges := hereditary_every (rangeNode ei) _ inRange
      have flats := hereditary_every flatNode _ flat
      have each : ReadEach (EIInputBuffer.readTerm ei fuel) (bytesOf ei) elems := by
        intro elem member
        have lower : elem.depth < (erlTuple mInitialized mArity elems).depth := depth_part member
        refine ⟨ih elem member (parts elem member) (ranges elem member) (flats elem member) ?_,
          (parts elem member).isValid⟩
        omega
      subst flag size
      exact yields_tuple lawful each (every_self inRange)
  | erlConsList mInitialized elems ih =>
      obtain ⟨fuel, rfl⟩ : ∃ rest, fuel = rest + 1 := ⟨fuel - 1, by omega⟩
      obtain ⟨flag, long, parts⟩ := written_erlConsList.mp written
      have ranges := hereditary_every (rangeNode ei) _ inRange
      have flats := hereditary_every flatNode _ flat
      have each : ReadEach (EIInputBuffer.readTerm ei fuel) (bytesOf ei) elems := by
        intro elem member
        have lower : elem.depth < (erlConsList mInitialized elems).depth := depth_part member
        refine ⟨ih elem member (parts elem member) (ranges elem member) (flats elem member) ?_,
          (parts elem member).isValid⟩
        omega
      have closed : closedBy elems = true := every_self flat
      obtain ⟨cells, last, rfl, plain⟩ := closedBy_split closed
      subst flag
      have positive : 0 < cells.length := by
        simp only [List.length_append, List.length_singleton] at long
        omega
      have carried : ei.carries ((cells ++ [last]).length - 1) = true := every_self inRange
      rw [List.length_append, List.length_singleton, Nat.add_sub_cancel] at carried
      exact yields_list lawful each positive carried plain
  | erlVariable mName => exact absurd written (by simp [Written, writtenNode])

end Epi.Buffer
