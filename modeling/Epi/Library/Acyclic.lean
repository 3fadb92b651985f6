import Mathlib

namespace Verification

variable {Node : Type} {Edge After : Node → Node → Prop}

/-- Every way down along the edges ends. -/
def Grounded (Edge : Node → Node → Prop) : Prop := WellFounded fun lower upper => Edge upper lower

/-- A node with an endless way down is one that comes back to itself. -/
theorem Grounded.acyclic (grounded : Grounded Edge) (node : Node) :
    ¬ Relation.TransGen Edge node node := by
  intro cycle
  have reversed : Relation.TransGen (fun lower upper => Edge upper lower) node node :=
    Relation.transGen_swap.mp cycle
  exact grounded.transGen.irrefl.irrefl node reversed

theorem grounded_of_no_edge (none : ∀ upper lower, ¬ Edge upper lower) : Grounded Edge :=
  ⟨fun _ => .intro _ fun lower edge => absurd edge (none _ lower)⟩

/-- Only a node that nothing leads to gets new edges, so no way through it becomes longer than one
step on top of an old way. -/
theorem Grounded.grow (grounded : Grounded Edge) (source : Node)
    (kept : ∀ upper lower, upper ≠ source → After upper lower → Edge upper lower)
    (top : ∀ upper, ¬ After upper source) : Grounded After := by
  have below : ∀ node, node ≠ source → Acc (fun lower upper => After upper lower) node := by
    intro node
    induction node using grounded.induction with
    | h node ih =>
        intro away
        constructor
        intro lower edge
        apply ih lower (kept node lower away edge)
        rintro rfl
        exact top node edge
  constructor
  intro node
  by_cases same : node = source
  · subst same
    constructor
    intro lower edge
    apply below lower
    rintro rfl
    exact top lower edge
  · exact below node same

end Verification
