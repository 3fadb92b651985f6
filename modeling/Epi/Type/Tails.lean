import Epi.Type.PoolTerms

namespace Epi.Type

open Verification

namespace Pool

variable {pool : Pool} {this : Address} {elems : List Address}

/-- A term stays what it is when another one is made. -/
theorem denotes_append (object : Object) {address : Address} {term : ErlTerm}
    (denotes : Denotes pool address term) : Denotes (pool ++ [object]) address term := by
  have each : ∀ (terms : List ErlTerm) (elems : List Address),
      (∀ term ∈ terms, ∀ address, Denotes pool address term →
        Denotes (pool ++ [object]) address term) →
      DenoteEach pool elems terms → DenoteEach (pool ++ [object]) elems terms := by
    intro terms elems kept
    rw [denoteEach_iff, denoteEach_iff]
    intro pairs
    induction pairs with
    | nil => exact .nil
    | @cons elem term rest terms here later ih =>
        rw [List.forall_mem_cons] at kept
        exact .cons (kept.1 elem here) (ih kept.2)
  have stays : ∀ {address : Address} {other : Object}, pool[address]? = some other →
      (pool ++ [object])[address]? = some other := by
    intro address other found
    have inside := (List.getElem?_eq_some_iff.mp found).1
    rwa [List.getElem?_append_left inside]
  induction term generalizing address with
  | simple value => exact stays denotes
  | erlTuple mInitialized mArity terms ih =>
      obtain ⟨elems, found, parts⟩ := denotes
      exact ⟨elems, stays found, each terms elems (fun term member _ => ih term member) parts⟩
  | erlConsList mInitialized terms ih =>
      obtain ⟨elems, found, parts⟩ := denotes
      exact ⟨elems, stays found, each terms elems (fun term member _ => ih term member) parts⟩
  | erlVariable mName => exact stays denotes

/-- The arity of a list is the number of its entries before the tail. -/
theorem arity_eq (some : elems ≠ []) : arity elems = elems.length - 1 := by
  have more := List.length_pos_iff.mpr some
  rw [arity, unsignedPred, if_neg (by omega)]

theorem elementAt_inside {index : Nat} (found : pool[this]? = some (.erlConsList true elems))
    (inside : index < arity elems) (some : elems ≠ []) :
    ∃ elem ∈ elems[index]?, elementAt this index pool = (.returns elem, pool) := by
  have size := arity_eq some
  have there : index < elems.length := by omega
  refine ⟨elems[index], List.getElem?_eq_getElem there, ?_⟩
  simp only [elementAt, found, Bool.not_true, Bool.false_eq_true, if_false, ge_iff_le,
    Nat.not_le.mpr inside, List.getElem?_eq_getElem there]

theorem tail_outside {index : Nat} (found : pool[this]? = some (.erlConsList true elems))
    (outside : arity elems ≤ index) :
    tail this index pool = (.throws (.badArgument "Index grater than arity"), pool) := by
  simp only [tail, found, Bool.not_true, Bool.false_eq_true, if_false, ge_iff_le, outside, if_true]

/-- The last tail is the last entry of the vector. -/
theorem tail_last {index : Nat} (found : pool[this]? = some (.erlConsList true elems))
    (some : elems ≠ []) (last : index + 1 = arity elems) :
    ∃ final ∈ elems.getLast?, tail this index pool = (.returns final, pool) := by
  have low : ¬ arity elems ≤ index := by omega
  have high : ¬ index < unsignedPred (arity elems) := by
    rw [← last, unsignedPred_succ]
    omega
  refine ⟨elems.getLast some, List.getLast?_eq_some_getLast some, ?_⟩
  simp only [tail, found, Bool.not_true, Bool.false_eq_true, if_false, ge_iff_le, low, high,
    List.getLast?_eq_some_getLast some]

/-- Every tail before the last one is a new list of the entries behind the index. -/
theorem tail_inside {index : Nat} (found : pool[this]? = some (.erlConsList true elems))
    (inside : index + 1 < arity elems) :
    tail this index pool =
      (.returns pool.length, pool ++ [.erlConsList true (elems.drop (index + 1))]) := by
  have low : ¬ arity elems ≤ index := by omega
  have high : index < unsignedPred (arity elems) := by
    rw [unsignedPred, if_neg (by omega)]
    omega
  simp only [tail, found, Bool.not_true, Bool.false_eq_true, if_false, ge_iff_le, low, high,
    if_true, alloc]

theorem arity_drop {index : Nat} (some : elems ≠ []) (inside : index + 1 < arity elems) :
    elems.drop (index + 1) ≠ [] ∧ arity (elems.drop (index + 1)) = arity elems - 1 - index := by
  have size := arity_eq some
  have more : elems.drop (index + 1) ≠ [] := by
    rw [ne_eq, List.drop_eq_nil_iff]
    omega
  refine ⟨more, ?_⟩
  rw [arity_eq more, List.length_drop]
  omega

/-- The entries behind an index make a valid list again, as the last one stays. -/
theorem valid_drop {terms : List ErlTerm} {count : Nat} (inside : count < terms.length)
    (valid : (ErlTerm.erlConsList true terms).Valid) :
    (ErlTerm.erlConsList true (terms.drop count)).Valid := by
  rw [ErlTerm.valid_erlConsList] at valid ⊢
  refine ⟨rfl, ?_, fun term member => valid.2.2 term (List.mem_of_mem_drop member)⟩
  have closed := valid.2.1
  rwa [ErlTerm.closedBy, List.getLast?_drop, if_neg (by omega)]

theorem denotes_drop {terms : List ErlTerm}
    (found : pool[this]? = some (.erlConsList true elems))
    (denotes : Denotes pool this (.erlConsList true terms)) (count : Nat) :
    Denotes (pool ++ [.erlConsList true (elems.drop count)]) pool.length
      (.erlConsList true (terms.drop count)) := by
  obtain ⟨others, same, each⟩ := denotes
  obtain ⟨-, rfl⟩ := Object.erlConsList.inj (Option.some.inj (found.symm.trans same))
  refine ⟨elems.drop count, by simp, ?_⟩
  rw [denoteEach_iff] at each ⊢
  exact (List.forall₂_drop count each).imp fun _ _ => denotes_append _

/-- Every element of a list that denotes a term denotes a term. -/
theorem denotes_element {terms : List ErlTerm} (each : DenoteEach pool elems terms) {elem : Address}
    (member : elem ∈ elems) : ∃ term ∈ terms, Denotes pool elem term := by
  rw [denoteEach_iff] at each
  induction each with
  | nil => exact absurd member List.not_mem_nil
  | @cons head term rest terms here _ ih =>
      rcases List.mem_cons.mp member with rfl | later
      · exact ⟨term, List.mem_cons_self, here⟩
      · obtain ⟨other, found, denotes⟩ := ih later
        exact ⟨other, List.mem_cons_of_mem _ found, denotes⟩

/-- The tail of a tail is the tail further on: both end at the same place, or they are two new lists
of the same entries. -/
theorem tail_tail {terms : List ErlTerm} {index next : Nat} {rest : Address}
    (found : pool[this]? = some (.erlConsList true elems))
    (denotes : Denotes pool this (.erlConsList true terms))
    (below : pool[rest]? = some (.erlConsList true (elems.drop (index + 1))))
    (restDenotes : Denotes pool rest (.erlConsList true (terms.drop (index + 1))))
    (some : elems ≠ []) (inside : index + 1 < arity elems)
    (nextInside : next < arity elems - 1 - index) :
    ∃ left right middle after, tail rest next pool = (.returns left, middle) ∧
      tail this (index + 1 + next) middle = (.returns right, after) ∧
      ∃ term, Denotes after left term ∧ Denotes after right term := by
  obtain ⟨more, size⟩ := arity_drop some inside
  rcases Nat.lt_or_ge (next + 1) (arity (elems.drop (index + 1))) with before | last
  · have first := tail_inside below before
    have stays : (pool ++ [.erlConsList true ((elems.drop (index + 1)).drop (next + 1))])[this]? =
        Option.some (.erlConsList true elems) := by
      have inside := (List.getElem?_eq_some_iff.mp found).1
      rwa [List.getElem?_append_left inside]
    have second := tail_inside stays (by omega : index + 1 + next + 1 < arity elems)
    refine ⟨_, _, _, _, first, second, .erlConsList true (terms.drop (index + 1 + next + 1)), ?_, ?_⟩
    · apply denotes_append
      have same : terms.drop (index + 1 + next + 1) = (terms.drop (index + 1)).drop (next + 1) := by
        rw [List.drop_drop, Nat.add_assoc (index + 1)]
      rw [same]
      exact denotes_drop below restDenotes (next + 1)
    · exact denotes_drop stays (denotes_append _ denotes) _
  · obtain ⟨left, ends, first⟩ := tail_last below more (by omega : next + 1 = _)
    obtain ⟨right, same, second⟩ := tail_last found some
      (by omega : index + 1 + next + 1 = arity elems)
    rw [List.getLast?_drop, if_neg (by rw [arity_eq some] at inside; omega)] at ends
    obtain rfl := Option.mem_unique ends same
    obtain ⟨others, also, each⟩ := denotes
    obtain ⟨-, rfl⟩ := Object.erlConsList.inj (Option.some.inj (found.symm.trans also))
    obtain ⟨term, -, here⟩ := denotes_element each (List.mem_of_mem_getLast? ends)
    exact ⟨_, _, _, _, first, second, term, here, here⟩

/-- The tails of a valid list with an element at least. Asking for one changes no term. -/
theorem tail_composes {terms : List ErlTerm} (found : pool[this]? = some (.erlConsList true elems))
    (denotes : Denotes pool this (.erlConsList true terms))
    (valid : (ErlTerm.erlConsList true terms).Valid) (some : 1 ≤ arity elems) (index : Nat) :
    (arity elems ≤ index → ∃ msg, tail this index pool = (.throws ⟨.epiBadArgument, msg⟩, pool)) ∧
    (index + 1 = arity elems →
      ∃ final ∈ elems.getLast?, tail this index pool = (.returns final, pool)) ∧
    (index + 1 < arity elems → ∃ rest after others,
      tail this index pool = (.returns rest, after) ∧
      (∀ address < pool.length, after[address]? = pool[address]?) ∧
      after[rest]? = Option.some (.erlConsList true others) ∧
      (∃ term, Denotes after rest term ∧ term.Valid) ∧
      arity others = arity elems - 1 - index ∧
      ∀ next < arity elems - 1 - index,
        (∃ elem, elementAt rest next after = (.returns elem, after) ∧
          elementAt this (index + 1 + next) after = (.returns elem, after)) ∧
        ∃ left right middle last, tail rest next after = (.returns left, middle) ∧
          tail this (index + 1 + next) middle = (.returns right, last) ∧
          ∃ term, Denotes last left term ∧ Denotes last right term) := by
  have more : elems ≠ [] := by
    rintro rfl
    obtain ⟨others, same, each⟩ := denotes
    obtain ⟨-, rfl⟩ := Object.erlConsList.inj (Option.some.inj (found.symm.trans same))
    obtain rfl := List.eq_nil_of_length_eq_zero (DenoteEach.length_eq each).symm
    exact Bool.false_ne_true (ErlTerm.valid_erlConsList.mp valid).2.1
  refine ⟨fun outside => ⟨_, tail_outside found outside⟩, tail_last found more, fun inside => ?_⟩
  obtain ⟨restMore, size⟩ := arity_drop more inside
  have made := tail_inside found inside
  have restDenotes := denotes_drop found denotes (index + 1)
  have stays : ∀ address < pool.length,
      (pool ++ [Object.erlConsList true (elems.drop (index + 1))])[address]? = pool[address]? :=
    fun address old => List.getElem?_append_left old
  have kept := (stays this (List.getElem?_eq_some_iff.mp found).1).trans found
  have below : (pool ++ [Object.erlConsList true (elems.drop (index + 1))])[pool.length]? =
      Option.some (.erlConsList true (elems.drop (index + 1))) := by simp
  refine ⟨_, _, _, made, stays, below, ⟨_, restDenotes, ?_⟩, size, fun next before => ⟨?_, ?_⟩⟩
  · obtain ⟨others, same, each⟩ := denotes
    obtain ⟨-, rfl⟩ := Object.erlConsList.inj (Option.some.inj (found.symm.trans same))
    rw [arity_eq more, DenoteEach.length_eq each] at inside
    exact valid_drop (by omega) valid
  · obtain ⟨elem, there, first⟩ := elementAt_inside below (by omega : next < _) restMore
    obtain ⟨other, also, second⟩ :=
      elementAt_inside kept (by omega : index + 1 + next < arity elems) more
    rw [List.getElem?_drop] at there
    obtain rfl := Option.mem_unique there also
    exact ⟨elem, first, second⟩
  · exact tail_tail kept (denotes_append _ denotes) below restDenotes more inside before

/-- A list of two empty lists. -/
def two : Pool := [.simple .erlEmptyList, .erlConsList true [0, 0, 0]]

theorem tail_composes_two : ∃ rest after, tail 1 0 two = (.returns rest, after) ∧
    ∃ elem, elementAt rest 0 after = (.returns elem, after) ∧
      elementAt 1 1 after = (.returns elem, after) := by
  have here : Denotes two 0 (.simple .erlEmptyList) := rfl
  have denotes : Denotes two 1 (.erlConsList true (List.replicate 3 (.simple .erlEmptyList))) :=
    ⟨_, rfl, _, _, rfl, here, _, _, rfl, here, _, _, rfl, here, rfl⟩
  obtain ⟨rest, after, -, made, -, -, -, -, below⟩ :=
    (tail_composes rfl denotes (by decide) (by decide) 0).2.2 (by decide)
  exact ⟨rest, after, made, (below 0 (by decide)).1⟩

end Pool

end Epi.Type
