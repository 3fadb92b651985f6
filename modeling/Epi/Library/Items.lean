import Epi.Library.Effect

namespace Verification

namespace Effect

variable {Kind Item Error First Second : Type} {Fits : Kind → Item → Prop}
  {kinds later : List Kind}

/-- The first of some items. There is nothing defined behind the last one. -/
def item : Effect (List Item) Error Item
  | [] => (.aborts, [])
  | first :: rest => (.returns first, rest)

/-- A call that finds a value takes one item of each kind in their order, and does not look at the
items behind them. -/
def Takes (Fits : Kind → Item → Prop) (kinds : List Kind)
    (call : Effect (List Item) Error (Option First)) : Prop :=
  ∀ items value rest, call items = (.returns (some value), rest) →
    ∃ taken, items = taken ++ rest ∧ List.Forall₂ Fits kinds taken ∧
      ∀ others, call (taken ++ others) = (.returns (some value), others)

theorem takes_lift (call : Outcome Error (Option First)) : Takes Fits [] (lift call) := by
  intro items value rest found
  obtain ⟨found, same⟩ := Prod.mk.inj found
  refine ⟨[], same, .nil, fun others => ?_⟩
  rw [List.nil_append, lift_run, found]

/-- One item is read as a value. -/
theorem takes_item {kind : Kind} {read : Item → Outcome Error (Option First)}
    (fits : ∀ first value, read first = .returns (some value) → Fits kind first) :
    Takes Fits [kind] (item >>= fun first => lift (read first)) := by
  intro items value rest found
  cases items with
  | nil => cases found
  | cons first behind =>
      obtain ⟨found, same⟩ := Prod.mk.inj found
      refine ⟨[first], by rw [same]; rfl, .cons (fits first value found) .nil, fun others => ?_⟩
      show (read first, others) = _
      rw [found]

/-- A sequence takes what its calls take, one behind the other. -/
theorem Takes.bind {first : Effect (List Item) Error (Option First)}
    {next : Option First → Effect (List Item) Error (Option Second)}
    (takes : Takes Fits kinds first)
    (lost : ∀ items value rest, next none items ≠ (.returns (some value), rest))
    (takesNext : ∀ value, Takes Fits later (next (some value))) :
    Takes Fits (kinds ++ later) (first >>= next) := by
  intro items value last found
  obtain ⟨middle, rest, ran, continued⟩ := bind_eq_returns.mp found
  cases middle with
  | none => exact absurd continued (lost rest value last)
  | some middle =>
      obtain ⟨taken, rfl, fits, again⟩ := takes items middle rest ran
      obtain ⟨more, rfl, fitsMore, againMore⟩ := takesNext middle rest value last continued
      refine ⟨taken ++ more, (List.append_assoc _ _ _).symm, List.rel_append fits fitsMore,
        fun others => ?_⟩
      rw [List.append_assoc, bind_of_returns (again (more ++ others))]
      exact againMore others

end Effect

end Verification
