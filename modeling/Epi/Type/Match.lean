import Epi.Type.Subst

namespace Epi.Type

open Verification

/-- A call of `internalMatch`: the object, the pattern parameter and the binding. -/
abbrev Matcher := ErlTerm → ErlTerm → Method VariableBinding Bool

/-- The loop over two vectors. A read behind the second one has no defined result. -/
def matchElements (internalMatch : Matcher) :
    List ErlTerm → List ErlTerm → Method VariableBinding Bool
  | [], _ => pure true
  | elem :: rest, others =>
      match others with
      | [] => Effect.lift .aborts
      | other :: otherRest => do
          let success ← internalMatch elem other
          if success then matchElements internalMatch rest otherRest else pure false

/-- `ErlTerm::internalMatch`. -/
def SimpleTerm.internalMatch (internalMatch : Matcher) (this : SimpleTerm) (pattern : ErlTerm) :
    Method VariableBinding Bool :=
  if !this.isValid then
    pure false
  else if pattern.instanceOf .erlVariable then
    internalMatch pattern (.simple this)
  else
    pure ((ErlTerm.simple this).equals pattern)

/-- `ErlTuple::internalMatch`. -/
def ErlTuple.internalMatch (internalMatch : Matcher) (this : ErlTuple) (pattern : ErlTerm) :
    Method VariableBinding Bool :=
  if pattern.instanceOf .erlVariable then
    internalMatch pattern this.toTerm
  else
    match pattern with
    | .erlTuple mInitialized mArity mElementVector =>
        if !this.mInitialized || !mInitialized then
          pure false
        else do
          let other : ErlTuple := ⟨mInitialized, mArity, mElementVector⟩
          let arity ← Effect.lift this.arity
          let otherArity ← Effect.lift other.arity
          if arity ≠ otherArity then
            pure false
          else
            Effect.mapOutcome (Call.catching .epiInvalidTerm fun _ => .returns false)
              (matchElements internalMatch this.mElementVector other.mElementVector)
    | _ => pure false

/-- `ErlConsList::internalMatch`. -/
def ErlConsList.internalMatch (internalMatch : Matcher) (this : ErlConsList)
    (pattern : ErlTerm) : Method VariableBinding Bool :=
  if pattern.instanceOf .erlVariable then
    internalMatch pattern this.toTerm
  else if !this.mInitialized || !pattern.isValid then
    pure false
  else
    match pattern with
    | .erlConsList mInitialized mElementVector =>
        let other : ErlConsList := ⟨mInitialized, mElementVector⟩
        if this.arity ≠ other.arity then
          pure false
        else do
          let success ← matchElements internalMatch (this.mElementVector.take this.arity)
            (other.mElementVector.take this.arity)
          if success then
            let patternTail ← Effect.lift (other.tail (unsignedPred this.arity))
            match this.mElementVector.getLast? with
            | some last => internalMatch last patternTail
            | none => Effect.lift .aborts
          else
            pure false
    | _ => pure false

/-- `ErlVariable::internalMatch`. The caller always hands over a binding. -/
def ErlVariable.internalMatch (internalMatch : Matcher) (mName : Bytes) (pattern : ErlTerm) :
    Method VariableBinding Bool :=
  if mName = anonymous then
    pure true
  else do
    let binding ← Effect.get
    match binding.search mName with
    | some boundValue => internalMatch boundValue pattern
    | none => do
        let value ← Effect.lift (pattern.subst (some binding))
        Effect.set (binding.bind mName value.term)
        pure true

namespace ErlTerm

/-- The virtual method. A value may lead back to its own variable, so the depth is bounded. -/
def internalMatch : Nat → Matcher
  | 0, _, _ => Effect.lift .diverges
  | fuel + 1, this, pattern =>
      Method.throwsOnly [.epiVariableUnbound] <|
        match this with
        | .simple value => value.internalMatch (internalMatch fuel) pattern
        | .erlTuple mInitialized mArity mElementVector =>
            ErlTuple.internalMatch (internalMatch fuel) ⟨mInitialized, mArity, mElementVector⟩
              pattern
        | .erlConsList mInitialized mElementVector =>
            ErlConsList.internalMatch (internalMatch fuel) ⟨mInitialized, mElementVector⟩ pattern
        | .erlVariable mName => ErlVariable.internalMatch (internalMatch fuel) mName pattern

/-- The matching works on a copy of the binding, and a success merges the copy. -/
def onCopy (internalMatch : Method VariableBinding Bool) : Method (Option VariableBinding) Bool :=
  fun binding =>
    match internalMatch (binding.getD .empty) with
    | (.returns true, dirtyBinding) => (.returns true, binding.map (·.merge dirtyBinding))
    | (outcome, _) => (outcome, binding)

/-- `ErlTerm::match`. -/
def matchPattern (fuel : Nat) (this pattern : ErlTerm) : Method (Option VariableBinding) Bool :=
  Method.throwsOnly [.epiVariableUnbound] (onCopy (this.internalMatch fuel pattern))

end ErlTerm

end Epi.Type
