import Mathlib
import Epi.Type.MatchRefinement

namespace Epi.Type

open Verification ErlTerm

/-- A substitution gives terms to variable names. -/
abbrev Substitution := Bytes → Option ErlTerm

/-- The substitution has the entries of the binding. -/
def Substitution.Extends (values : Substitution) (binding : VariableBinding) : Prop :=
  ∀ name value, binding.search name = some value → values name = some value

/-- A list whose tail is a list again is one list. -/
def spliced (cells : List ErlTerm) : List ErlTerm :=
  match cells.getLast? with
  | some (.erlConsList _ rest) => cells.dropLast ++ rest
  | _ => cells

mutual

/-- The second term is the first one with its variables replaced by their values. The anonymous
variable stands for any term at each of its places. -/
def IsInstance (values : Substitution) : ErlTerm → ErlTerm → Prop
  | .simple value, term => term = .simple value
  | .erlTuple mInitialized mArity elems, term =>
      ∃ others, AreInstances values elems others ∧ term = .erlTuple mInitialized mArity others
  | .erlConsList mInitialized elems, term =>
      ∃ others, AreInstances values elems others ∧
        term = .erlConsList mInitialized (spliced others)
  | .erlVariable mName, term => mName = anonymous ∨ values mName = some term

def AreInstances (values : Substitution) : List ErlTerm → List ErlTerm → Prop
  | [], others => others = []
  | elem :: rest, others =>
      ∃ other more, IsInstance values elem other ∧ AreInstances values rest more ∧
        others = other :: more

end

/-- The substitution makes the pattern equal to the term. -/
def Fits (values : Substitution) (pattern term : ErlTerm) : Prop :=
  ∃ instanceTerm, IsInstance values pattern instanceTerm ∧ instanceTerm.equals term = true

mutual

/-- The substitution makes the pattern equal to the term entry by entry. A variable at the end of a
list stands for the tail of a list with as many cells, and not for the cells behind its own. -/
def Suits (values : Substitution) : ErlTerm → ErlTerm → Prop
  | .simple value, term => (ErlTerm.simple value).equals term = true
  | .erlTuple _ _ elems, term => ∃ mInitialized mArity others,
      term = .erlTuple mInitialized mArity others ∧ SuitEach values elems others
  | .erlConsList _ elems, term => ∃ mInitialized others,
      term = .erlConsList mInitialized others ∧ SuitEach values elems others
  | .erlVariable mName, term => mName = anonymous ∨
      ∃ value, values mName = some value ∧ value.equals term = true

def SuitEach (values : Substitution) : List ErlTerm → List ErlTerm → Prop
  | [], others => others = []
  | elem :: rest, others => ∃ other more, others = other :: more ∧ Suits values elem other ∧
      SuitEach values rest more

end

mutual

/-- The names of the variables, without the anonymous one. -/
def ErlTerm.variableNames : ErlTerm → List Bytes
  | .simple _ => []
  | .erlTuple _ _ elems => variableNamesOf elems
  | .erlConsList _ elems => variableNamesOf elems
  | .erlVariable mName => if mName = anonymous then [] else [mName]

def variableNamesOf : List ErlTerm → List Bytes
  | [] => []
  | elem :: rest => elem.variableNames ++ variableNamesOf rest

end

section Fits

variable {values : Substitution}

theorem fits_simple {value : SimpleTerm} {term : ErlTerm} :
    Fits values (.simple value) term ↔ (ErlTerm.simple value).equals term = true := by
  simp [Fits, IsInstance]

theorem fits_erlVariable {mName : Bytes} {term : ErlTerm} (named : mName ≠ anonymous) :
    Fits values (.erlVariable mName) term ↔
      ∃ value, values mName = some value ∧ value.equals term = true := by
  simp [Fits, IsInstance, named]

/-- Vectors fit entry by entry. -/
theorem fitsEach_iff {elems others : List ErlTerm} :
    (∃ instances, AreInstances values elems instances ∧ equalElements instances others = true) ↔
      List.Forall₂ (Fits values) elems others := by
  induction elems generalizing others with
  | nil =>
      cases others with
      | nil => simp [AreInstances]
      | cons other more =>
          constructor
          · rintro ⟨instances, each, same⟩
            simp only [AreInstances] at each
            subst each
            exact absurd same (by simp)
          · intro each
            cases each
  | cons elem rest ih =>
      cases others with
      | nil =>
          constructor
          · rintro ⟨instances, each, same⟩
            simp only [AreInstances] at each
            obtain ⟨first, later, -, -, rfl⟩ := each
            exact absurd same (by simp)
          · intro each
            cases each
      | cons other more =>
          rw [List.forall₂_cons, ← ih]
          constructor
          · rintro ⟨_, ⟨first, later, head, tail, rfl⟩, same⟩
            rw [equalElements_cons, Bool.and_eq_true] at same
            exact ⟨⟨first, head, same.1⟩, later, tail, same.2⟩
          · rintro ⟨⟨first, head, same⟩, later, tail, others⟩
            refine ⟨first :: later, ⟨first, later, head, tail, rfl⟩, ?_⟩
            rw [equalElements_cons, same, others]
            rfl

theorem fits_erlTuple {left right : Option Nat} {elems others : List ErlTerm} :
    Fits values (.erlTuple true left elems) (.erlTuple true right others) ↔
      List.Forall₂ (Fits values) elems others := by
  rw [← fitsEach_iff, Fits]
  simp only [IsInstance]
  constructor
  · rintro ⟨_, ⟨instances, each, rfl⟩, same⟩
    rw [equals_erlTuple] at same
    exact ⟨instances, each, by simpa using same⟩
  · rintro ⟨instances, each, same⟩
    exact ⟨_, ⟨instances, each, rfl⟩, by rw [equals_erlTuple, same]; rfl⟩

theorem areInstances_concat {cells : List ErlTerm} {last : ErlTerm} {instances : List ErlTerm} :
    AreInstances values (cells ++ [last]) instances ↔
      ∃ heads other, AreInstances values cells heads ∧ IsInstance values last other ∧
        instances = heads ++ [other] := by
  induction cells generalizing instances with
  | nil => simp [AreInstances]
  | cons elem rest ih =>
      simp only [List.cons_append, AreInstances, ih]
      constructor
      · rintro ⟨first, _, head, ⟨heads, other, each, final, rfl⟩, rfl⟩
        exact ⟨first :: heads, other, ⟨first, heads, head, each, rfl⟩, final, rfl⟩
      · rintro ⟨_, other, ⟨first, heads, head, each, rfl⟩, final, rfl⟩
        exact ⟨first, heads ++ [other], head, ⟨heads, other, each, final, rfl⟩, rfl⟩

/-- Only a variable can turn into a list. -/
theorem IsInstance.not_consList {pattern term : ErlTerm} (replaced : IsInstance values pattern term)
    (plain : pattern.isConsList = false) (fixed : pattern.isVariable = false) :
    term.isConsList = false := by
  cases pattern with
  | simple value =>
      simp only [IsInstance] at replaced
      rw [replaced]
      rfl
  | erlTuple mInitialized mArity elems =>
      simp only [IsInstance] at replaced
      obtain ⟨others, -, rfl⟩ := replaced
      rfl
  | erlConsList mInitialized elems => exact absurd plain (by simp [isConsList])
  | erlVariable mName => exact absurd fixed (by simp [isVariable])

/-- Without a variable as the tail, a list fits entry by entry. -/
theorem fits_erlConsList {cells others : List ErlTerm} {last : ErlTerm}
    (plain : last.isConsList = false) (fixed : last.isVariable = false) :
    Fits values (.erlConsList true (cells ++ [last])) (.erlConsList true others) ↔
      List.Forall₂ (Fits values) (cells ++ [last]) others := by
  have unspliced : ∀ instances, AreInstances values (cells ++ [last]) instances →
      spliced instances = instances := by
    intro instances each
    obtain ⟨heads, other, -, final, rfl⟩ := areInstances_concat.mp each
    have here := final.not_consList plain fixed
    unfold spliced
    rw [List.getLast?_concat]
    cases other with
    | erlConsList mInitialized elems => exact absurd here (by simp [isConsList])
    | _ => rfl
  rw [← fitsEach_iff, Fits]
  simp only [IsInstance]
  constructor
  · rintro ⟨_, ⟨instances, each, rfl⟩, same⟩
    rw [equals_erlConsList, unspliced instances each] at same
    exact ⟨instances, each, by simpa using same⟩
  · rintro ⟨instances, each, same⟩
    refine ⟨_, ⟨instances, each, rfl⟩, ?_⟩
    rw [equals_erlConsList, unspliced instances each, same]
    rfl

theorem suitEach_iff {elems others : List ErlTerm} :
    SuitEach values elems others ↔ List.Forall₂ (Suits values) elems others := by
  induction elems generalizing others with
  | nil =>
      rw [SuitEach, List.forall₂_nil_left_iff]
  | cons elem rest ih =>
      rw [SuitEach, List.forall₂_cons_left_iff]
      constructor
      · rintro ⟨other, more, rfl, first, later⟩
        exact ⟨other, more, first, ih.mp later, rfl⟩
      · rintro ⟨other, more, first, later, rfl⟩
        exact ⟨other, more, rfl, first, ih.mpr later⟩

theorem suits_erlTuple {mInitialized otherInitialized : Bool} {left right : Option Nat}
    {elems others : List ErlTerm} :
    Suits values (.erlTuple mInitialized left elems) (.erlTuple otherInitialized right others) ↔
      List.Forall₂ (Suits values) elems others := by
  rw [← suitEach_iff, Suits]
  constructor
  · rintro ⟨_, _, _, same, each⟩
    cases same
    exact each
  · intro each
    exact ⟨_, _, _, rfl, each⟩

theorem suits_erlConsList {mInitialized otherInitialized : Bool} {elems others : List ErlTerm} :
    Suits values (.erlConsList mInitialized elems) (.erlConsList otherInitialized others) ↔
      List.Forall₂ (Suits values) elems others := by
  rw [← suitEach_iff, Suits]
  constructor
  · rintro ⟨_, _, same, each⟩
    cases same
    exact each
  · intro each
    exact ⟨_, _, rfl, each⟩

theorem suits_erlVariable {mName : Bytes} {term : ErlTerm} (named : mName ≠ anonymous) :
    Suits values (.erlVariable mName) term ↔
      ∃ value, values mName = some value ∧ value.equals term = true := by
  simp [Suits, named]

/-- Two relations that are the same on the entries are the same on the vectors. -/
theorem forall₂_congr_mem {Left Right : Type} {related other : Left → Right → Prop}
    {lefts : List Left} {rights : List Right}
    (same : ∀ left ∈ lefts, ∀ right ∈ rights, (related left right ↔ other left right)) :
    List.Forall₂ related lefts rights ↔ List.Forall₂ other lefts rights := by
  induction lefts generalizing rights with
  | nil => simp
  | cons left rest ih =>
      cases rights with
      | nil => simp
      | cons right more =>
          rw [List.forall₂_cons, List.forall₂_cons, ih fun left inside right member =>
            same left (List.mem_cons_of_mem _ inside) right (List.mem_cons_of_mem _ member),
            same left List.mem_cons_self right List.mem_cons_self]

end Fits

/-- A term whose matching always ends with an answer. -/
def Proper (term : ErlTerm) : Prop := term.Matchable ∧ term.Celled

theorem proper_hereditary : Hereditary Proper :=
  Hereditary.and matchable_hereditary (hereditary_every cellNode)

theorem Proper.storable {term : ErlTerm} (proper : Proper term) : term.Storable :=
  proper.1.storable

/-- A closed vector with a cell before its tail. -/
theorem cells_of_list {elems : List ErlTerm} {mInitialized : Bool}
    (celled : (erlConsList mInitialized elems).Celled) : elems.length ≠ 1 := by
  have here : cellNode (.erlConsList mInitialized elems) = true := every_self celled
  simp only [cellNode, decide_eq_true_eq] at here
  omega

/-- Terms without variables match exactly when they are equal. -/
theorem matchWith_equals {atValue : ErlTerm → ErlTerm → Call Bool} {value : ErlTerm}
    (proper : Proper value) (term : ErlTerm) :
    matchWith atValue value term = pure (value.equals term) := by
  have each : ∀ elems : List ErlTerm,
      (∀ elem ∈ elems, ∀ other, matchWith atValue elem other = pure (elem.equals other)) →
      ∀ others, matchEach atValue elems others = pure (equalElements elems others) ∨
        elems.length ≠ others.length := by
    intro elems
    induction elems with
    | nil =>
        intro _ others
        cases others with
        | nil => exact .inl (by rw [matchEach_nil]; rfl)
        | cons other more => exact .inr (by simp)
    | cons elem rest ih =>
        intro same others
        cases others with
        | nil => exact .inr (by simp)
        | cons other more =>
            have later := ih (fun elem member => same elem (List.mem_cons_of_mem _ member)) more
            rcases later with equal | apart
            · refine .inl ?_
              rw [matchEach_cons, same elem List.mem_cons_self, equal, equalElements_cons]
              cases elem.equals other <;> rfl
            · exact .inr (by simpa using apart)
  induction value generalizing term with
  | simple value => rw [matchWith_simple]
  | erlTuple mInitialized mArity elems ih =>
      have parts : ∀ elem ∈ elems, Proper elem := proper_hereditary _ proper
      cases term with
      | erlTuple otherInitialized otherArity others =>
          rw [matchWith, equals_erlTuple]
          by_cases same : elems.length = others.length
          · rcases each elems (fun elem member => ih elem member (parts elem member)) others with
              equal | apart
            · rw [equal]
              cases mInitialized <;> cases otherInitialized <;> simp [same]
            · exact absurd same apart
          · have differ : equalElements elems others = false := by
              by_contra equal
              rw [Bool.not_eq_false] at equal
              exact same (equalElements_length equal)
            simp [same, differ]
      | _ => simp only [matchWith, equals]
  | erlConsList mInitialized elems ih =>
      have parts : ∀ elem ∈ elems, Proper elem := proper_hereditary _ proper
      have long := cells_of_list proper.2
      cases term with
      | erlConsList otherInitialized others =>
          rw [matchWith, equals_erlConsList, if_neg long]
          by_cases same : elems.length = others.length
          · rcases each elems (fun elem member => ih elem member (parts elem member)) others with
              equal | apart
            · rw [equal]
              cases mInitialized <;> cases otherInitialized <;> simp [same]
            · exact absurd same apart
          · have differ : equalElements elems others = false := by
              by_contra equal
              rw [Bool.not_eq_false] at equal
              exact same (equalElements_length equal)
            simp [same, differ]
      | _ => simp only [matchWith, equals]
  | erlVariable mName =>
      have plain := proper.1.not_variable
      exact absurd plain (by simp [isVariable])

theorem termMatch_equals {value : ErlTerm} (proper : Proper value) (term : ErlTerm) :
    termMatch value term = .returns (value.equals term) := by
  rw [termMatch, matchWith_equals proper]
  rfl

/-- The values of the substitution equal only what the entries of the binding equal. -/
def Covers (values : Substitution) (binding : VariableBinding) : Prop :=
  ∀ name value, binding.search name = some value →
    ∃ other, values name = some other ∧
      ∀ term : ErlTerm, other.equals term = true → value.equals term = true

theorem Substitution.Extends.covers {values : Substitution} {binding : VariableBinding}
    (extension : values.Extends binding) : Covers values binding :=
  fun name value known => ⟨value, extension name value known, fun _ same => same⟩

/-- What one matching leaves behind, for a pattern that some substitutions fit. -/
structure MatchedBy (fits : Substitution → Prop) (names : List Bytes) (before : VariableBinding)
    (success : Bool) (after : VariableBinding) : Prop where
  proper : after.Values Proper
  extension : after.Extends before
  entries : success = true → ∀ name,
    (after.search name).isSome = true ↔ (before.search name).isSome = true ∨ name ∈ names
  sound : success = true → ∀ values : Substitution, values.Extends after → fits values
  complete : ∀ values : Substitution, Covers values before → fits values →
    success = true ∧ Covers values after

/-- A new entry is covered by a value that equals its term. -/
theorem Covers.bind {values : Substitution} {binding : VariableBinding}
    (covers : Covers values binding) {mName : Bytes} {term other : ErlTerm}
    (given : values mName = some other) (equal : other.equals term = true) :
    Covers values (binding.bind mName term) := by
  intro name value held
  rw [VariableBinding.search_bind, Option.or_eq_some_iff] at held
  rcases held with old | ⟨-, new⟩
  · exact covers name value old
  · split at new
    · rename_i named
      rw [named, ← Option.some.inj new]
      refine ⟨other, given, ?_⟩
      intro later equalLater
      have reversed : term.equals other = true := by
        rw [ErlTerm.equals_symm]
        exact equal
      exact ErlTerm.equals_trans reversed equalLater
    · cases new

theorem isSome_search_bind (binding : VariableBinding) (mName name : Bytes) (term : ErlTerm) :
    ((binding.bind mName term).search name).isSome = true ↔
      (binding.search name).isSome = true ∨ name = mName := by
  rw [VariableBinding.search_bind]
  cases binding.search name with
  | some value => simp
  | none =>
      by_cases named : name = mName
      · simp [named]
      · simp [named]

/-- The call decides which substitutions fit. -/
def Decides (call : Method VariableBinding Bool) (fits : Substitution → Prop)
    (names : List Bytes) : Prop :=
  ∀ before : VariableBinding, before.Values Proper →
    ∃ success after, call before = (.returns success, after) ∧
      MatchedBy fits names before success after

/-- A call that does not touch the binding decides a plain fact. -/
theorem decides_pure (success : Bool) : Decides (pure success) (fun _ => success = true) [] := by
  intro before proper
  refine ⟨success, before, rfl, proper, .refl before, ?_, ?_, ?_⟩
  · intro _ name
    simp
  · intro done _ _
    exact done
  · intro values covers done
    exact ⟨done, covers⟩

theorem Decides.congr {call : Method VariableBinding Bool} {fits other : Substitution → Prop}
    {names : List Bytes} (decides : Decides call fits names)
    (same : ∀ values, fits values ↔ other values) : Decides call other names := by
  have equal : fits = other := funext fun values => propext (same values)
  exact equal ▸ decides

/-- A call that fails for every substitution. -/
theorem decides_false {fits : Substitution → Prop} {names : List Bytes}
    (never : ∀ values, ¬ fits values) : Decides (pure false) fits names := by
  intro before proper
  refine ⟨false, before, rfl, proper, .refl before, ?_, ?_, ?_⟩
  · intro failed
    exact absurd failed Bool.false_ne_true
  · intro failed
    exact absurd failed Bool.false_ne_true
  · intro values _ fit
    exact absurd fit (never values)

/-- Two calls in order decide which substitutions fit both. -/
theorem Decides.andThen {first second : Method VariableBinding Bool}
    {fitsFirst fitsSecond : Substitution → Prop} {firstNames secondNames : List Bytes}
    (decidesFirst : Decides first fitsFirst firstNames)
    (decidesSecond : Decides second fitsSecond secondNames) :
    Decides (do let success ← first; if success then second else pure false)
      (fun values => fitsFirst values ∧ fitsSecond values) (firstNames ++ secondNames) := by
  intro before proper
  obtain ⟨success, middle, ran, matched⟩ := decidesFirst before proper
  cases success with
  | false =>
      refine ⟨false, middle, ?_, matched.proper, matched.extension, ?_, ?_, ?_⟩
      · rw [Effect.bind_of_returns ran]
        rfl
      · intro failed
        exact absurd failed Bool.false_ne_true
      · intro failed
        exact absurd failed Bool.false_ne_true
      · intro values covers fit
        exact absurd (matched.complete values covers fit.1).1 Bool.false_ne_true
  | true =>
      obtain ⟨success, after, later, done⟩ := decidesSecond middle matched.proper
      have upper := done.extension
      refine ⟨success, after, ?_, done.proper, upper.trans matched.extension, ?_, ?_, ?_⟩
      · rw [Effect.bind_of_returns ran]
        exact later
      · intro succeeded name
        rw [done.entries succeeded, matched.entries rfl, List.mem_append, or_assoc]
      · intro succeeded values extension
        have lower : values.Extends middle :=
          fun name value known => extension name value (upper name value known)
        exact ⟨matched.sound rfl values lower, done.sound succeeded values extension⟩
      · intro values covers fit
        have between := (matched.complete values covers fit.1).2
        exact done.complete values between fit.2

/-- A pattern whose lists do not end in a variable. -/
def ProperPattern (pattern : ErlTerm) : Prop :=
  pattern.Valid ∧ pattern.Celled ∧ pattern.PlainTails

theorem properPattern_hereditary : Hereditary ProperPattern :=
  Hereditary.and (hereditary_every _) (Hereditary.and (hereditary_every _) (hereditary_every _))

/-- A term that equals itself. -/
def SelfEqual (term : ErlTerm) : Prop := Proper term ∧ term.Numeric

theorem selfEqual_hereditary : Hereditary SelfEqual :=
  Hereditary.and proper_hereditary (hereditary_every _)

theorem SelfEqual.equals_self {term : ErlTerm} (same : SelfEqual term) :
    term.equals term = true :=
  (ErlTerm.equals_self same.1.1.2 same.1.1.1).mpr same.2

/-- A variable decides whether its value equals the term, and an unbound one takes the term. -/
theorem patternMatch_erlVariable_decides (mName : Bytes) {term : ErlTerm}
    (same : SelfEqual term) :
    Decides (patternMatch (.erlVariable mName) term)
      (fun values => Suits values (.erlVariable mName) term) (erlVariable mName).variableNames := by
  intro before proper
  have self := same.equals_self
  unfold patternMatch variableNames
  rw [matchWith_erlVariable]
  by_cases wild : mName = anonymous
  · rw [if_pos wild, if_pos wild]
    have suits : ∀ values, Suits values (.erlVariable mName) term :=
      fun values => by rw [Suits]; exact .inl wild
    refine ⟨true, before, rfl, proper, .refl before, ?_, ?_, ?_⟩
    · intro _ name
      simp
    · intro _ values _
      exact suits values
    · intro values covers _
      exact ⟨rfl, covers⟩
  · rw [if_neg wild, if_neg wild]
    cases known : before.search mName with
    | some value =>
        have bound := proper mName value known
        refine ⟨value.equals term, before, ?_, proper, .refl before, ?_, ?_, ?_⟩
        · exact congrArg (·, before) (termMatch_equals bound term)
        · intro _ name
          rw [List.mem_singleton]
          constructor
          · exact .inl
          · rintro (held | rfl)
            · exact held
            · rw [known]
              rfl
        · intro equal values extension
          exact (suits_erlVariable wild).mpr ⟨value, extension mName value known, equal⟩
        · intro values covers suit
          obtain ⟨other, given, equal⟩ := (suits_erlVariable wild).mp suit
          obtain ⟨found, named, implies⟩ := covers mName value known
          rw [given] at named
          rw [Option.some.inj named] at equal
          exact ⟨implies term equal, covers⟩
    | none =>
        have entry : (before.bind mName term).search mName = some term := by
          rw [VariableBinding.search_bind, known]
          simp
        refine ⟨true, before.bind mName term, rfl, proper.bind same.1 mName,
          VariableBinding.extends_bind before mName term, ?_, ?_, ?_⟩
        · intro _ name
          rw [isSome_search_bind, List.mem_singleton]
        · intro _ values extension
          exact (suits_erlVariable wild).mpr ⟨term, extension mName term entry, self⟩
        · intro values covers suit
          refine ⟨rfl, ?_⟩
          obtain ⟨other, given, equal⟩ := (suits_erlVariable wild).mp suit
          exact covers.bind given equal

theorem matchEach_decides {elems others : List ErlTerm} (same : elems.length = others.length)
    (each : ∀ elem ∈ elems, ∀ other ∈ others, Decides (patternMatch elem other)
      (fun values => Suits values elem other) elem.variableNames) :
    Decides (matchEach termMatch elems others)
      (fun values => List.Forall₂ (Suits values) elems others) (variableNamesOf elems) := by
  induction elems generalizing others with
  | nil =>
      have empty : others = [] := List.length_eq_zero_iff.mp same.symm
      subst empty
      rw [matchEach_nil]
      exact (decides_pure true).congr fun values => by simp
  | cons elem rest ih =>
      cases others with
      | nil => exact absurd same (by simp)
      | cons other more =>
          have shorter : rest.length = more.length := by simpa using same
          have first := each elem List.mem_cons_self other List.mem_cons_self
          have later := ih shorter fun elem inside other member =>
            each elem (List.mem_cons_of_mem _ inside) other (List.mem_cons_of_mem _ member)
          rw [matchEach_cons]
          exact (first.andThen later).congr fun values => List.forall₂_cons.symm

/-- A matching decides which substitutions suit the pattern and the term. -/
theorem patternMatch_decides {pattern : ErlTerm} (valid : pattern.Valid)
    {term : ErlTerm} (same : SelfEqual term) :
    Decides (patternMatch pattern term) (fun values => Suits values pattern term)
      pattern.variableNames := by
  induction pattern generalizing term with
  | simple value =>
      unfold patternMatch variableNames
      rw [matchWith_simple]
      exact (decides_pure _).congr fun values => by rw [Suits]
  | erlTuple mInitialized mArity elems ih =>
      obtain ⟨flag, -, parts⟩ := valid_erlTuple.mp valid
      subst flag
      unfold patternMatch variableNames
      cases term with
      | erlTuple otherInitialized otherArity others =>
          obtain ⟨otherFlag, -, -⟩ := valid_erlTuple.mp same.1.1.2
          have otherParts : ∀ other ∈ others, SelfEqual other := selfEqual_hereditary _ same
          subst otherFlag
          rw [matchWith_erlTuple]
          by_cases size : elems.length = others.length
          · rw [if_pos size]
            have each := matchEach_decides size fun elem inside other member =>
              ih elem inside (parts elem inside) (otherParts other member)
            exact each.congr fun values => suits_erlTuple.symm
          · rw [if_neg size]
            apply decides_false
            intro values suit
            exact size (suits_erlTuple.mp suit).length_eq
      | _ =>
          simp only [matchWith]
          apply decides_false
          simp [Suits]
  | erlConsList mInitialized elems ih =>
      obtain ⟨flag, -, parts⟩ := valid_erlConsList.mp valid
      subst flag
      unfold patternMatch variableNames
      cases term with
      | erlConsList otherInitialized others =>
          obtain ⟨otherFlag, -, -⟩ := valid_erlConsList.mp same.1.1.2
          have otherParts : ∀ other ∈ others, SelfEqual other := selfEqual_hereditary _ same
          have long := cells_of_list same.1.2
          subst otherFlag
          rw [matchWith_erlConsList]
          by_cases size : elems.length = others.length
          · rw [if_pos size, if_neg (size ▸ long)]
            have each := matchEach_decides size fun elem inside other member =>
              ih elem inside (parts elem inside) (otherParts other member)
            exact each.congr fun values => suits_erlConsList.symm
          · rw [if_neg size]
            apply decides_false
            intro values suit
            exact size (suits_erlConsList.mp suit).length_eq
      | _ =>
          simp only [matchWith]
          apply decides_false
          simp [Suits]
  | erlVariable mName => exact patternMatch_erlVariable_decides mName same

/-- Without a variable as the tail of a list, entry by entry is all that a substitution can do. -/
theorem suits_iff_fits {pattern : ErlTerm} (wellFormed : ProperPattern pattern)
    (values : Substitution) {term : ErlTerm} (same : SelfEqual term) :
    Suits values pattern term ↔ Fits values pattern term := by
  induction pattern generalizing term with
  | simple value => rw [Suits, fits_simple]
  | erlTuple mInitialized mArity elems ih =>
      obtain ⟨flag, -, -⟩ := valid_erlTuple.mp wellFormed.1
      have parts : ∀ elem ∈ elems, ProperPattern elem := properPattern_hereditary _ wellFormed
      subst flag
      cases term with
      | erlTuple otherInitialized otherArity others =>
          obtain ⟨otherFlag, -, -⟩ := valid_erlTuple.mp same.1.1.2
          have otherParts : ∀ other ∈ others, SelfEqual other := selfEqual_hereditary _ same
          subst otherFlag
          rw [suits_erlTuple, fits_erlTuple]
          exact forall₂_congr_mem fun elem inside other member =>
            ih elem inside (parts elem inside) (otherParts other member)
      | _ =>
          rw [Suits, Fits]
          simp [IsInstance, equals]
  | erlConsList mInitialized elems ih =>
      obtain ⟨flag, closed, -⟩ := valid_erlConsList.mp wellFormed.1
      have parts : ∀ elem ∈ elems, ProperPattern elem := properPattern_hereditary _ wellFormed
      have fixed : plainTailNode (.erlConsList mInitialized elems) = true :=
        every_self wellFormed.2.2
      subst flag
      cases term with
      | erlConsList otherInitialized others =>
          obtain ⟨otherFlag, -, -⟩ := valid_erlConsList.mp same.1.1.2
          have otherParts : ∀ other ∈ others, SelfEqual other := selfEqual_hereditary _ same
          obtain ⟨cells, last, rfl, plain⟩ := closedBy_split closed
          have notVariable : last.isVariable = false := by simpa [plainTailNode] using fixed
          subst otherFlag
          rw [suits_erlConsList, fits_erlConsList plain notVariable]
          exact forall₂_congr_mem fun elem inside other member =>
            ih elem inside (parts elem inside) (otherParts other member)
      | _ =>
          rw [Suits, Fits]
          simp [IsInstance, equals]
  | erlVariable mName =>
      by_cases wild : mName = anonymous
      · rw [Suits]
        exact iff_of_true (.inl wild) ⟨term, by simp [IsInstance, wild], same.equals_self⟩
      · rw [suits_erlVariable wild, fits_erlVariable wild]

/-- A matching of a pattern without variable tails succeeds exactly when a substitution that
extends the binding makes the pattern equal to the term. A success adds the variables of the
pattern, and a failure adds nothing. -/
theorem matchPattern_correct {pattern term : ErlTerm} {binding : VariableBinding} {fuel : Nat}
    (patternValid : pattern.Valid) (patternCelled : pattern.Celled)
    (plainTails : pattern.PlainTails) (termValid : term.Valid) (termGround : term.Ground)
    (termCelled : term.Celled) (numeric : term.Numeric)
    (values : binding.Values fun value => value.Valid ∧ value.Ground ∧ value.Celled)
    (enough : term.matchDepth ≤ fuel) :
    ∃ success after,
      pattern.matchPattern fuel term (some binding) = (.returns success, some after) ∧
      (success = true ↔
        ∃ substitution : Substitution, substitution.Extends binding ∧
          Fits substitution pattern term) ∧
      (success = true →
        after.Extends binding ∧
        (∀ name, (after.search name).isSome = true ↔
          (binding.search name).isSome = true ∨ name ∈ pattern.variableNames) ∧
        Fits after.search pattern term) ∧
      (success = false → after = binding) := by
  have wellFormed : ProperPattern pattern := ⟨patternValid, patternCelled, plainTails⟩
  have same : SelfEqual term := ⟨⟨⟨termGround, termValid⟩, termCelled⟩, numeric⟩
  have proper : binding.Values Proper := fun name value known => by
    obtain ⟨valid, ground, celled⟩ := values name value known
    exact ⟨⟨ground, valid⟩, celled⟩
  have storable : ((some binding).getD .empty).Values Storable :=
    fun name value known => (proper name value known).storable
  have run := matchPattern_pattern patternValid same.1.1 storable enough
  obtain ⟨success, dirtyBinding, ran, matched⟩ := (patternMatch_decides patternValid same).congr
    (fun substitution => suits_iff_fits wellFormed substitution same) binding proper
  rw [run]
  unfold patternMatches onCopy
  simp only [Option.getD_some, ran]
  cases success with
  | false =>
      refine ⟨false, binding, rfl, ?_, ?_, fun _ => rfl⟩
      · constructor
        · intro failed
          exact absurd failed Bool.false_ne_true
        · rintro ⟨substitution, extension, fit⟩
          exact (matched.complete substitution extension.covers fit).1
      · intro failed
        exact absurd failed Bool.false_ne_true
  | true =>
      have merged : (binding.merge dirtyBinding).search = dirtyBinding.search :=
        funext (VariableBinding.search_merge_extends matched.extension)
      have fit : Fits dirtyBinding.search pattern term :=
        matched.sound rfl dirtyBinding.search fun _ _ known => known
      refine ⟨true, binding.merge dirtyBinding, rfl, ?_, ?_, ?_⟩
      · constructor
        · intro _
          exact ⟨dirtyBinding.search, matched.extension, fit⟩
        · intro _
          rfl
      · intro _
        refine ⟨?_, ?_, ?_⟩
        · intro name value known
          rw [merged]
          exact matched.extension name value known
        · intro name
          rw [merged]
          exact matched.entries rfl name
        · rw [merged]
          exact fit
      · intro failed
        exact absurd failed.symm Bool.false_ne_true

/-- The pattern `{X, X, [1, Y]}`. -/
def repeatedPattern : ErlTerm :=
  .erlTuple true (some 3) [.erlVariable (text "X"), .erlVariable (text "X"),
    .erlConsList true [.simple (.erlLong (some 1)), .erlVariable (text "Y"),
      .simple .erlEmptyList]]

/-- The term `{7, 7, [1, 8]}`. -/
def repeatedTerm : ErlTerm :=
  .erlTuple true (some 3) [.simple (.erlLong (some 7)), .simple (.erlLong (some 7)),
    .erlConsList true [.simple (.erlLong (some 1)), .simple (.erlLong (some 8)),
      .simple .erlEmptyList]]

/-- The binding of `Y` to 8. -/
def repeatedBinding : VariableBinding := .bind .empty (text "Y") (.simple (.erlLong (some 8)))

theorem matchPattern_correct_repeated :
    ∃ success after,
      repeatedPattern.matchPattern 5 repeatedTerm (some repeatedBinding) =
        (.returns success, some after) ∧
      (success = true ↔
        ∃ substitution : Substitution, substitution.Extends repeatedBinding ∧
          Fits substitution repeatedPattern repeatedTerm) ∧
      (success = true →
        after.Extends repeatedBinding ∧
        (∀ name, (after.search name).isSome = true ↔
          (repeatedBinding.search name).isSome = true ∨ name ∈ repeatedPattern.variableNames) ∧
        Fits after.search repeatedPattern repeatedTerm) ∧
      (success = false → after = repeatedBinding) := by
  have values : repeatedBinding.Values fun value => value.Valid ∧ value.Ground ∧ value.Celled := by
    apply VariableBinding.Values.bind
    · intro name value known
      cases known
    · exact ⟨by decide, by decide, by decide⟩
  exact matchPattern_correct (by decide) (by decide) (by decide) (by decide) (by decide)
    (by decide) (by decide) values (by decide)

/-- A variable takes a NaN, and no substitution makes it equal to one. -/
theorem matchPattern_takes_nan :
    ∃ (pattern term : ErlTerm) (binding after : VariableBinding),
      pattern.Valid ∧ pattern.Celled ∧ pattern.PlainTails ∧ term.Valid ∧ term.Ground ∧
      term.Celled ∧ (binding.Values fun value => value.Valid ∧ value.Ground ∧ value.Celled) ∧
      pattern.matchPattern term.matchDepth term (some binding) = (.returns true, some after) ∧
      ¬ ∃ substitution : Substitution, substitution.Extends binding ∧
        Fits substitution pattern term := by
  refine ⟨.erlVariable (text "X"), .simple (.erlDouble (some ⟨0x7FF8000000000000⟩)), .empty,
    .bind .empty (text "X") (.simple (.erlDouble (some ⟨0x7FF8000000000000⟩))), by decide,
    by decide, by decide, by decide, by decide, by decide, ?_, by rfl, ?_⟩
  · intro name value known
    cases known
  · rintro ⟨substitution, -, instanceTerm, -, equal⟩
    have reversed : (ErlTerm.simple (.erlDouble (some ⟨0x7FF8000000000000⟩))).equals
        instanceTerm = true := by
      rw [ErlTerm.equals_symm]
      exact equal
    have self := ErlTerm.equals_trans reversed equal
    exact absurd self (by decide)

end Epi.Type
