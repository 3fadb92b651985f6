import Epi.Type.Subst

namespace Epi.Type

open Verification ErlTerm

/-- A valid list is a closed vector of valid terms. -/
theorem closed_cells {term : ErlTerm} (built : term.Built) (flag : term.isValid = true)
    (list : term.isConsList = true) :
    ∃ cells last, term = .erlConsList true (cells ++ [last]) ∧ last.isConsList = false ∧
      ∀ cell ∈ cells ++ [last], cell.isValid = true := by
  cases term with
  | erlConsList mInitialized elems =>
      have here : mInitialized = true := flag
      subst here
      obtain ⟨cells, last, rfl, plain⟩ := closedBy_split (built.2 rfl)
      exact ⟨cells, last, rfl, plain, fun cell member => (built.1 cell member).isValid⟩
  | _ => exact absurd list (by simp [isConsList])

namespace ErlConsList

/-- Cells that an open list takes over one by one. -/
theorem addElementsOf_open {cells : List ErlTerm} {last : ErlTerm}
    (valid : ∀ cell ∈ cells, cell.isValid = true) {remaining index : Nat}
    (inside : index + remaining ≤ cells.length) (elems : List ErlTerm) :
    addElementsOf ⟨true, cells ++ [last]⟩ remaining index ⟨false, elems⟩ =
      (.returns (), ⟨false, elems ++ (cells.drop index).take remaining⟩) := by
  induction remaining generalizing index elems with
  | zero => simp [addElementsOf]
  | succ remaining ih =>
      have low : index < cells.length := by omega
      have found : cells[index]? = some cells[index] := List.getElem?_eq_getElem low
      have added := addElement_open elems (valid cells[index] (List.getElem_mem low))
      rw [addElementsOf, elementAt_cell last found, Effect.lift_returns_bind,
        Effect.bind_of_returns added, ih (by omega)]
      rw [List.drop_eq_getElem_cons low, List.take_succ_cons, List.append_assoc,
        List.singleton_append]

/-- A closed list takes over nothing. -/
theorem addElementsOf_closed {cells : List ErlTerm} {last : ErlTerm}
    (valid : ∀ cell ∈ cells, cell.isValid = true) (some : cells ≠ []) (elems : List ErlTerm) :
    addElementsOf ⟨true, cells ++ [last]⟩ cells.length 0 ⟨true, elems⟩ =
      (.throws (.alreadyInitialized "list is closed"), ⟨true, elems⟩) := by
  obtain ⟨cell, rest, rfl⟩ := List.exists_cons_of_ne_nil some
  have found : (cell :: rest)[0]? = Option.some cell := rfl
  rw [List.length_cons, addElementsOf, elementAt_cell last found, Effect.lift_returns_bind,
    Effect.bind_run]
  simp [addElement, valid cell List.mem_cons_self]

/-- The tail behind all elements is asked for with an index that `tail` refuses. -/
theorem tail_arity (list : ErlConsList) (closed : list.mInitialized = true) :
    list.tail list.arity = .throws (.badArgument "Index grater than arity") := by
  simp [tail, closed]

variable {cells : List ErlTerm} {last : ErlTerm}

/-- A list hands its elements over, and then the call throws. -/
theorem close_open (valid : ∀ cell ∈ cells, cell.isValid = true) (elems : List ErlTerm) :
    close (some (.erlConsList true (cells ++ [last]))) ⟨false, elems⟩ =
      (.throws (.badArgument "Index grater than arity"), ⟨false, elems ++ cells⟩) := by
  have added : addElementsOf ⟨true, cells ++ [last]⟩ cells.length 0 ⟨false, elems⟩ =
      (.returns (), ⟨false, elems ++ (cells.drop 0).take cells.length⟩) :=
    addElementsOf_open valid (by omega) elems
  rw [List.drop_zero, List.take_length] at added
  have refused := tail_arity ⟨true, cells ++ [last]⟩ rfl
  rw [arity_concat] at refused
  simp only [close, closeWithin, isValid, Bool.not_true, Bool.false_eq_true, if_false,
    arity_concat, refused]
  rw [Method.throwsOnly, Effect.mapOutcome_run, Effect.bind_of_returns added]
  rfl

/-- A closed list refuses a list. -/
theorem close_closed (valid : ∀ cell ∈ cells, cell.isValid = true) (elems : List ErlTerm) :
    ∃ error, close (some (.erlConsList true (cells ++ [last]))) ⟨true, elems⟩ =
      (.throws error, ⟨true, elems⟩) := by
  have refused := tail_arity ⟨true, cells ++ [last]⟩ rfl
  rw [arity_concat] at refused
  simp only [close, closeWithin, isValid, Bool.not_true, Bool.false_eq_true, if_false,
    arity_concat, refused]
  rw [Method.throwsOnly, Effect.mapOutcome_run]
  by_cases empty : cells = []
  · subst empty
    exact ⟨_, rfl⟩
  · rw [Effect.bind_run, addElementsOf_closed valid empty]
    exact ⟨_, rfl⟩

/-- A closed list refuses a tail. -/
theorem close_plain_closed (elems : List ErlTerm) {elem : ErlTerm} (valid : elem.isValid = true)
    (plain : elem.isConsList = false) :
    close (some elem) ⟨true, elems⟩ =
      (.throws (.alreadyInitialized "list is closed"), ⟨true, elems⟩) := by
  have refused : addElement (some elem) ⟨true, elems⟩ =
      (.throws (.alreadyInitialized "list is closed"), ⟨true, elems⟩) := by
    simp [addElement, valid]
  cases elem with
  | erlConsList mInitialized cells => exact absurd plain (by simp [ErlTerm.isConsList])
  | _ =>
      simp only [close, closeWithin, valid, Method.throwsOnly, Effect.mapOutcome_run,
        Bool.not_true, Bool.false_eq_true, if_false]
      rw [Effect.bind_run, refused]
      rfl

/-- An uninitialized argument changes nothing. -/
theorem close_invalid (list : ErlConsList) {elem : ErlTerm} (invalid : elem.isValid = false) :
    close (some elem) list = (.throws (.badArgument "Element is invalid"), list) := by
  simp only [close, closeWithin, invalid, Method.throwsOnly, Effect.mapOutcome_run, Bool.not_false,
    if_true]
  rfl

/-- The elements before the tail of a closed list. -/
def elementsOf : Option ErlTerm → List ErlTerm
  | some (.erlConsList true mElementVector) => mElementVector.dropLast
  | _ => []

theorem elementsOf_invalid {elem : ErlTerm} (invalid : elem.isValid = false) :
    elementsOf (some elem) = [] := by
  cases elem with
  | erlConsList mInitialized cells =>
      have flag : mInitialized = false := invalid
      rw [flag]
      rfl
  | _ => rfl

theorem elementsOf_plain {elem : ErlTerm} (plain : elem.isConsList = false) :
    elementsOf (some elem) = [] := by
  cases elem with
  | erlConsList mInitialized cells => exact absurd plain (by simp [ErlTerm.isConsList])
  | _ => rfl

/-- What a throwing call leaves: a closed list as it was, an open one with the elements that the
argument handed over. -/
theorem close_throws {elem : Option ErlTerm} (built : ∀ term ∈ elem, term.Built)
    {list after : ErlConsList} {error : EpiException}
    (ran : close elem list = (.throws error, after)) :
    after = if list.mInitialized then list
      else ⟨false, list.mElementVector ++ elementsOf elem⟩ := by
  obtain ⟨mInitialized, elems⟩ := list
  -- Where nothing is handed over, the list is as it was.
  have kept : elementsOf elem = [] → after = ⟨mInitialized, elems⟩ →
      after = if mInitialized then ⟨mInitialized, elems⟩
        else ⟨false, elems ++ elementsOf elem⟩ := by
    intro nothing same
    rw [nothing, List.append_nil, same]
    cases mInitialized <;> rfl
  cases elem with
  | none =>
      apply kept rfl
      exact (congrArg Prod.snd ran).symm
  | some term =>
      cases flag : term.isValid with
      | false =>
          apply kept (elementsOf_invalid flag)
          rw [close_invalid _ flag] at ran
          exact (congrArg Prod.snd ran).symm
      | true =>
          cases plain : term.isConsList with
          | false =>
              apply kept (elementsOf_plain plain)
              cases mInitialized with
              | true =>
                  rw [close_plain_closed elems flag plain] at ran
                  exact (congrArg Prod.snd ran).symm
              | false =>
                  rw [close_plain elems flag plain] at ran
                  cases ran
          | true =>
              obtain ⟨cells, last, rfl, -, parts⟩ := closed_cells (built term rfl) flag plain
              have valid : ∀ cell ∈ cells, cell.isValid = true :=
                fun cell member => parts cell (List.mem_append_left _ member)
              simp only [elementsOf, List.dropLast_concat]
              cases mInitialized with
              | true =>
                  obtain ⟨refusal, refused⟩ :
                      ∃ refusal, close (some (.erlConsList true (cells ++ [last])))
                        ⟨true, elems⟩ = (.throws refusal, ⟨true, elems⟩) :=
                    close_closed valid elems
                  rw [refused] at ran
                  exact (congrArg Prod.snd ran).symm
              | false =>
                  rw [close_open valid] at ran
                  exact (congrArg Prod.snd ran).symm

/-- The call made `elems` and then the elements and the tail of the other list. -/
def Splices (elems : List ErlTerm) (cons : ErlConsList) : Prop :=
  close (some cons.toTerm) ⟨false, elems⟩ = (.returns (), ⟨true, elems ++ cons.mElementVector⟩)

/-- The elements up to an index, and then the tail behind them. -/
def rebuild (list : ErlConsList) (index : Nat) : Method ErlConsList Unit := do
  addElementsOf list (index + 1) 0
  let rest ← Effect.lift (list.tail index)
  close (some rest)

/-- A fresh list becomes the list that it is made from. -/
def Rebuilds (list : ErlConsList) (index : Nat) : Prop :=
  rebuild list index uninitialized = (.returns (), list)

/-- A throwing call leaves the list as it was. -/
def LeavesOnThrow (list : ErlConsList) (elem : Option ErlTerm) : Prop :=
  ∀ error after, close elem list = (.throws error, after) → after = list

theorem leavesOnThrow_iff {elem : Option ErlTerm} (built : ∀ term ∈ elem, term.Built)
    (list : ErlConsList) :
    LeavesOnThrow list elem ↔ list.mInitialized = true ∨ elementsOf elem = [] := by
  constructor
  · intro leaves
    by_contra given
    obtain ⟨opened, some⟩ := not_or.mp given
    rw [Bool.not_eq_true] at opened
    cases elem with
    | none => exact some rfl
    | some term =>
        have flag : term.isValid = true := by
          by_contra invalid
          exact some (elementsOf_invalid (Bool.eq_false_iff.mpr invalid))
        have cons : term.isConsList = true := by
          by_contra plain
          exact some (elementsOf_plain (Bool.eq_false_iff.mpr plain))
        obtain ⟨cells, last, rfl, -, parts⟩ := closed_cells (built term rfl) flag cons
        have valid : ∀ cell ∈ cells, cell.isValid = true :=
          fun cell member => parts cell (List.mem_append_left _ member)
        obtain ⟨mInitialized, elems⟩ := list
        subst opened
        have same := leaves _ _ (close_open valid elems)
        have empty : cells = [] := by
          simpa using (ErlConsList.mk.inj same).2
        exact some (by simp [elementsOf, empty])
  · intro safe error after ran
    rw [close_throws built ran]
    rcases safe with closed | nothing
    · rw [closed]
      rfl
    · obtain ⟨mInitialized, elems⟩ := list
      rw [nothing, List.append_nil]
      cases mInitialized <;> rfl

theorem rebuilds_iff {list : ErlConsList} (valid : list.toTerm.Valid) {index : Nat}
    (inside : index < list.arity) : Rebuilds list index ↔ index + 1 = list.arity := by
  obtain ⟨mInitialized, elems⟩ := list
  obtain ⟨flag, closed, parts⟩ := valid_erlConsList.mp valid
  obtain ⟨cells, last, rfl, plain⟩ := closedBy_split closed
  subst flag
  have cellValid : ∀ cell ∈ cells, cell.isValid = true :=
    fun cell member => (parts cell (List.mem_append_left _ member)).isValid
  have lastValid : last.isValid = true := (parts last (by simp)).isValid
  rw [arity_concat] at inside ⊢
  have added : addElementsOf ⟨true, cells ++ [last]⟩ (index + 1) 0 ⟨false, []⟩ =
      (.returns (), ⟨false, cells.take (index + 1)⟩) :=
    addElementsOf_open cellValid (by omega) []
  unfold Rebuilds rebuild uninitialized
  rw [Effect.bind_of_returns added]
  constructor
  · intro rebuilt
    by_contra early
    -- The tail asked for is a list again, and closing with it never returns.
    have before : index < unsignedPred cells.length := by
      simp only [unsignedPred]
      split <;> omega
    have handed : tail ⟨true, cells ++ [last]⟩ index =
        .returns (.erlConsList true ((cells ++ [last]).drop (index + 1))) := by
      have low : ¬ cells.length ≤ index := by omega
      simp [tail, arity_concat, low, before]
    rw [handed, Effect.lift_returns_bind, List.drop_append_of_le_length (by omega),
      close_open (fun cell member => cellValid cell (List.mem_of_mem_drop member))] at rebuilt
    cases rebuilt
  · intro final
    have handed := tail_concat last (List.ne_nil_of_length_pos (l := cells) (by omega))
    rw [show unsignedPred cells.length = index by rw [← final, unsignedPred_succ]] at handed
    rw [handed, Effect.lift_returns_bind, close_plain _ lastValid plain, final, List.take_length]

/-- Closing a list with a list never splices it. A list is rebuilt only from all of its elements,
and a throwing call leaves the list as it was unless an open list was given elements. -/
theorem close_splices_iff {cons : ErlConsList} (valid : cons.toTerm.Valid)
    (elems : List ErlTerm) {elem : Option ErlTerm} (built : ∀ term ∈ elem, term.Built)
    (list : ErlConsList) :
    ¬ Splices elems cons ∧
    (∀ index, index < cons.arity → (Rebuilds cons index ↔ index + 1 = cons.arity)) ∧
    (LeavesOnThrow list elem ↔ list.mInitialized = true ∨ elementsOf elem = []) := by
  refine ⟨?_, fun index inside => rebuilds_iff valid inside, leavesOnThrow_iff built list⟩
  intro spliced
  obtain ⟨cells, last, same, -, parts⟩ := closed_cells (Valid.built valid) (Valid.isValid valid) rfl
  have cellValid : ∀ cell ∈ cells, cell.isValid = true :=
    fun cell member => parts cell (List.mem_append_left _ member)
  rw [Splices, same, close_open cellValid] at spliced
  cases spliced

/-- The list `[2]`. -/
def twoList : ErlConsList := ⟨true, [.simple (.erlLong (some 2)), .simple .erlEmptyList]⟩

theorem close_splices_iff_two :
    ¬ Splices [.simple (.erlLong (some 1))] twoList ∧
    (∀ index, index < twoList.arity → (Rebuilds twoList index ↔ index + 1 = twoList.arity)) ∧
    (LeavesOnThrow ⟨false, [.simple (.erlLong (some 1))]⟩ (some twoList.toTerm) ↔
      (false = true ∨ elementsOf (some twoList.toTerm) = [])) :=
  close_splices_iff (by decide) _ (by
    intro term same
    cases same
    exact Valid.built (by decide)) _

/-- An open list with 1 takes the 2 of the other list over and stays open. -/
theorem close_half_spliced :
    twoList.toTerm.Valid ∧
    close (some twoList.toTerm) ⟨false, [.simple (.erlLong (some 1))]⟩ =
      (.throws (.badArgument "Index grater than arity"),
        ⟨false, [.simple (.erlLong (some 1)), .simple (.erlLong (some 2))]⟩) := by
  refine ⟨by decide, ?_⟩
  have valid : ∀ cell ∈ [ErlTerm.simple (.erlLong (some 2))], cell.isValid = true := by
    intro cell member
    rw [List.mem_singleton.mp member]
    rfl
  exact close_open valid [.simple (.erlLong (some 1))]

end ErlConsList

end Epi.Type
