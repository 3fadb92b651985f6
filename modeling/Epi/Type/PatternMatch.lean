import Epi.Type.Match

namespace Epi.Type

open Verification

namespace ErlTerm

mutual

/-- The number of calls that a term nests. -/
def depth : ErlTerm → Nat
  | .simple _ => 0
  | .erlTuple _ _ elems => depthEach elems + 1
  | .erlConsList _ elems => depthEach elems + 1
  | .erlVariable _ => 0

def depthEach : List ErlTerm → Nat
  | [] => 0
  | elem :: rest => max (depth elem) (depthEach rest)

end

theorem depth_le_depthEach {elems : List ErlTerm} {elem : ErlTerm} (member : elem ∈ elems) :
    elem.depth ≤ depthEach elems := by
  induction elems with
  | nil => cases member
  | cons head rest ih =>
      rw [depthEach]
      rcases List.mem_cons.mp member with same | later
      · rw [same]
        exact le_max_left _ _
      · exact (ih later).trans (le_max_right _ _)

end ErlTerm

mutual

/-- A pattern against a term without variables. The values of bound variables are compared by
the given function, and two lists of a tail only have no tail to ask for. -/
def matchWith (atValue : ErlTerm → ErlTerm → Call Bool) :
    ErlTerm → ErlTerm → Method VariableBinding Bool
  | .simple value, term => pure ((ErlTerm.simple value).equals term)
  | .erlTuple mInitialized _ elems, term =>
      match term with
      | .erlTuple otherInitialized _ others =>
          if mInitialized && otherInitialized && elems.length == others.length then
            matchEach atValue elems others
          else
            pure false
      | _ => pure false
  | .erlConsList mInitialized elems, term =>
      match term with
      | .erlConsList otherInitialized others =>
          if mInitialized && otherInitialized && elems.length == others.length then
            if elems.length = 1 then Effect.lift .aborts else matchEach atValue elems others
          else
            pure false
      | _ => pure false
  | .erlVariable mName, term => fun binding =>
      if mName = anonymous then
        (.returns true, binding)
      else
        match binding.search mName with
        | some value => (atValue value term, binding)
        | none => (.returns true, binding.bind mName term)

/-- The entries in order, up to the first failure. -/
def matchEach (atValue : ErlTerm → ErlTerm → Call Bool) :
    List ErlTerm → List ErlTerm → Method VariableBinding Bool
  | [], _ => pure true
  | elem :: rest, others =>
      match others with
      | [] => pure false
      | other :: otherRest => do
          let success ← matchWith atValue elem other
          if success then matchEach atValue rest otherRest else pure false

end

/-- Two terms without variables. -/
def termMatch (left right : ErlTerm) : Call Bool :=
  (matchWith (fun _ _ => .returns false) left right .empty).1

/-- A pattern against a term without variables, under a binding to such terms. -/
def patternMatch : Matcher := matchWith termMatch

section Equations

variable (atValue : ErlTerm → ErlTerm → Call Bool)

theorem matchWith_simple (value : SimpleTerm) (term : ErlTerm) :
    matchWith atValue (.simple value) term = pure ((ErlTerm.simple value).equals term) := by
  rw [matchWith]

theorem matchWith_erlVariable (mName : Bytes) (term : ErlTerm) (binding : VariableBinding) :
    matchWith atValue (.erlVariable mName) term binding =
      if mName = anonymous then (.returns true, binding)
      else match binding.search mName with
        | some value => (atValue value term, binding)
        | none => (.returns true, binding.bind mName term) := by
  rw [matchWith]

theorem matchWith_erlTuple (left right : Option Nat) (elems others : List ErlTerm) :
    matchWith atValue (.erlTuple true left elems) (.erlTuple true right others) =
      if elems.length = others.length then matchEach atValue elems others else pure false := by
  rw [matchWith]
  simp

theorem matchWith_erlConsList (elems others : List ErlTerm) :
    matchWith atValue (.erlConsList true elems) (.erlConsList true others) =
      if elems.length = others.length then
        if elems.length = 1 then Effect.lift .aborts else matchEach atValue elems others
      else pure false := by
  rw [matchWith]
  simp

theorem matchEach_cons (elem other : ErlTerm) (rest others : List ErlTerm) :
    matchEach atValue (elem :: rest) (other :: others) = (do
      let success ← matchWith atValue elem other
      if success then matchEach atValue rest others else pure false) := by
  rw [matchEach]

theorem matchEach_nil (others : List ErlTerm) : matchEach atValue [] others = pure true := by
  rw [matchEach]

/-- A call that answers for itself. -/
theorem answer_eq (call : Method VariableBinding Bool) :
    (do let success ← call; if success then pure true else pure false) = call := by
  funext binding
  rw [Effect.bind_run]
  rcases call binding with ⟨outcome, after⟩
  cases outcome with
  | returns success => cases success <;> rfl
  | _ => rfl

/-- The last entry is matched after the others. -/
theorem matchEach_concat {cells others : List ErlTerm} (same : cells.length = others.length)
    (last other : ErlTerm) :
    matchEach atValue (cells ++ [last]) (others ++ [other]) = (do
      let success ← matchEach atValue cells others
      if success then matchWith atValue last other else pure false) := by
  induction cells generalizing others with
  | nil =>
      have empty : others = [] := List.length_eq_zero_iff.mp same.symm
      subst empty
      rw [List.nil_append, List.nil_append, matchEach_cons, matchEach_nil, answer_eq]
      rfl
  | cons elem rest ih =>
      cases others with
      | nil => exact absurd same (by simp)
      | cons head more =>
          have shorter : rest.length = more.length := by simpa using same
          rw [List.cons_append, List.cons_append, matchEach_cons, matchEach_cons, ih shorter]
          funext binding
          rw [Effect.bind_run, Effect.bind_run, Effect.bind_run]
          rcases matchWith atValue elem head binding with ⟨outcome, after⟩
          cases outcome with
          | returns success => cases success <;> rfl
          | _ => rfl

end Equations

/-- The elements of a tuple, or the cells and the tail of a list. -/
def ErlTerm.parts : ErlTerm → List ErlTerm
  | .erlTuple _ _ elems => elems
  | .erlConsList _ elems => elems
  | _ => []

/-- A property of a term that its parts have as well. -/
def Hereditary (Holds : ErlTerm → Prop) : Prop :=
  ∀ term, Holds term → ∀ part ∈ term.parts, Holds part

theorem hereditary_every (check : ErlTerm → Bool) : Hereditary fun term => term.every check := by
  intro term holds part member
  cases term with
  | erlTuple mInitialized mArity elems => exact ((ErlTerm.every_erlTuple ..).mp holds).2 part member
  | erlConsList mInitialized elems => exact ((ErlTerm.every_erlConsList ..).mp holds).2 part member
  | _ => cases member

theorem Hereditary.and {First Second : ErlTerm → Prop} (first : Hereditary First)
    (second : Hereditary Second) : Hereditary fun term => First term ∧ Second term :=
  fun term holds part member => ⟨first term holds.1 part member, second term holds.2 part member⟩

theorem matchEach_keeps {atValue : ErlTerm → ErlTerm → Call Bool}
    {Good : VariableBinding → Prop} {elems others : List ErlTerm}
    (keeps : ∀ elem ∈ elems, ∀ other ∈ others,
      Effect.Keeps Good (matchWith atValue elem other)) :
    Effect.Keeps Good (matchEach atValue elems others) := by
  induction elems generalizing others with
  | nil =>
      rw [matchEach_nil]
      exact Effect.keeps_pure true
  | cons elem rest ih =>
      cases others with
      | nil =>
          rw [matchEach]
          exact Effect.keeps_pure false
      | cons other more =>
          rw [matchEach_cons]
          apply Effect.keeps_bind (keeps elem List.mem_cons_self other List.mem_cons_self)
          intro success
          cases success with
          | false => exact Effect.keeps_pure false
          | true =>
              apply ih
              intro elem inside other member
              exact keeps elem (List.mem_cons_of_mem _ inside) other
                (List.mem_cons_of_mem _ member)

/-- A matching does not throw, and it keeps what each of its new entries keeps. -/
theorem matchWith_keeps {atValue : ErlTerm → ErlTerm → Call Bool}
    (quiet : ∀ value term, (atValue value term).Quiet) {Holds : ErlTerm → Prop}
    (hereditary : Hereditary Holds) {Good : VariableBinding → Prop}
    (entry : ∀ binding name term, Good binding → Holds term → Good (binding.bind name term))
    (pattern : ErlTerm) {term : ErlTerm} (holds : Holds term) :
    Effect.Keeps Good (matchWith atValue pattern term) := by
  induction pattern generalizing term with
  | simple value =>
      rw [matchWith_simple]
      exact Effect.keeps_pure _
  | erlTuple mInitialized mArity elems ih =>
      cases term with
      | erlTuple otherInitialized otherArity others =>
          rw [matchWith]
          split
          · apply matchEach_keeps
            intro elem inside other member
            exact ih elem inside (hereditary _ holds other member)
          · exact Effect.keeps_pure false
      | _ =>
          simp only [matchWith]
          exact Effect.keeps_pure false
  | erlConsList mInitialized elems ih =>
      cases term with
      | erlConsList otherInitialized others =>
          rw [matchWith]
          split
          · split
            · exact Effect.keeps_lift trivial
            · apply matchEach_keeps
              intro elem inside other member
              exact ih elem inside (hereditary _ holds other member)
          · exact Effect.keeps_pure false
      | _ =>
          simp only [matchWith]
          exact Effect.keeps_pure false
  | erlVariable mName =>
      intro binding good
      rw [matchWith_erlVariable]
      by_cases wild : mName = anonymous
      · rw [if_pos wild]
        exact ⟨trivial, good⟩
      · rw [if_neg wild]
        cases binding.search mName with
        | some value => exact ⟨quiet value term, good⟩
        | none => exact ⟨trivial, entry binding mName term good holds⟩

theorem termMatch_quiet (left right : ErlTerm) : (termMatch left right).Quiet := by
  have every : Hereditary fun _ => True := fun _ _ _ _ => trivial
  have keeps : Effect.Keeps (fun _ => True) (matchWith (fun _ _ => .returns false) left right) :=
    matchWith_keeps (fun _ _ => Outcome.quiet_returns false) every (fun _ _ _ _ _ => trivial)
      left trivial
  exact (keeps .empty trivial).1

end Epi.Type
