import Epi.Type.MatchCorrect

namespace Epi.Type

open Verification ErlTerm

/-- The list that is left behind the first elements. -/
def remainder (rest : List ErlTerm) (tail : ErlTerm) : ErlTerm :=
  match rest with
  | [] => tail
  | _ :: _ => .erlConsList true (rest ++ [tail])

/-- The elements in order, and then the tail variable with the list that is left. -/
def consMatch (fuel : Nat) (cells : List ErlTerm) (tailName : Bytes) (heads : List ErlTerm)
    (left : ErlTerm) : Method VariableBinding Bool := do
  let success ← matchElements (ErlTerm.internalMatch fuel) cells heads
  if success then (ErlTerm.erlVariable tailName).internalMatch fuel left else pure false

/-- The list pattern with this tail variable. -/
def listPattern (cells : List ErlTerm) (tailName : Bytes) : ErlTerm :=
  .erlConsList true (cells ++ [.erlVariable tailName])

/-- The list of some first elements, the other elements and the tail. -/
def listTerm (heads rest : List ErlTerm) (tail : ErlTerm) : ErlTerm :=
  .erlConsList true (heads ++ (rest ++ [tail]))

/-- Both directions of `match` succeed exactly when the cells match, with the same binding. -/
def MatchesByCells (fuel : Nat) (cells : List ErlTerm) (tailName : Bytes)
    (heads rest : List ErlTerm) (tail : ErlTerm) (binding : VariableBinding) : Prop :=
  let byCells := onCopy (consMatch fuel cells tailName heads (remainder rest tail)) (some binding)
  let pattern := listPattern cells tailName
  let term := listTerm heads rest tail
  ∀ after, (pattern.matchPattern fuel term (some binding) = (.returns true, after) ↔
      byCells = (.returns true, after)) ∧
    (term.matchPattern fuel pattern (some binding) = (.returns true, after) ↔
      byCells = (.returns true, after))

/-- A variable that is anonymous, unbound or bound to a value that matches the term. -/
def Takes (binding : VariableBinding) (mName : Bytes) (term : ErlTerm) : Prop :=
  mName = anonymous ∨ binding.search mName = none ∨
    ∃ value, binding.search mName = some value ∧ termMatch value term = .returns true

theorem takes_iff {binding : VariableBinding} {mName : Bytes} {term : ErlTerm} :
    Takes binding mName term ↔
      ∃ after, patternMatch (.erlVariable mName) term binding = (.returns true, after) := by
  unfold patternMatch Takes
  rw [matchWith_erlVariable]
  by_cases wild : mName = anonymous
  · simp [wild]
  · rw [if_neg wild]
    cases known : binding.search mName with
    | none => simp
    | some value => simp [wild]

theorem remainder_matchable {heads rest : List ErlTerm} {tail : ErlTerm}
    (matchable : (listTerm heads rest tail).Matchable) : (remainder rest tail).Matchable := by
  have parts : ∀ part ∈ heads ++ (rest ++ [tail]), part.Matchable :=
    matchable_hereditary _ matchable
  cases rest with
  | nil => exact parts tail (by simp)
  | cons elem more =>
      obtain ⟨-, closed, -⟩ := valid_erlConsList.mp matchable.2
      have later : ∀ part ∈ elem :: more ++ [tail], part.Matchable :=
        fun part member => parts part (List.mem_append_right _ member)
      have plain : closedBy (elem :: more ++ [tail]) = true := by
        rw [← List.append_assoc, closedBy_append] at closed
        rw [closedBy_append]
        exact closed
      constructor
      · refine (every_erlConsList ..).mpr ⟨rfl, ?_⟩
        exact fun part member => (later part member).1
      · exact valid_erlConsList.mpr ⟨rfl, plain, fun part member => (later part member).2⟩

theorem depthEach_append_right (front back : List ErlTerm) :
    depthEach back ≤ depthEach (front ++ back) := by
  induction front with
  | nil => exact le_refl _
  | cons elem rest ih =>
      rw [List.cons_append, depthEach]
      exact ih.trans (le_max_right _ _)

theorem remainder_matchDepth (heads rest : List ErlTerm) (tail : ErlTerm) :
    (remainder rest tail).matchDepth ≤ (listTerm heads rest tail).matchDepth := by
  have lower : (remainder rest tail).depth ≤ (listTerm heads rest tail).depth := by
    cases rest with
    | nil => exact Nat.le_of_lt (depth_part (by simp [listTerm, parts, remainder]))
    | cons elem more =>
        unfold remainder listTerm
        rw [depth, depth]
        exact Nat.succ_le_succ (depthEach_append_right heads _)
  simp only [matchDepth]
  omega

section Lists

variable {cells heads rest : List ErlTerm} {tailName : Bytes} {tail : ErlTerm}
  {binding : VariableBinding} {fuel : Nat}

/-- The elements and the tail variable against the specification. -/
def patternCons (cells : List ErlTerm) (tailName : Bytes) (heads : List ErlTerm)
    (left : ErlTerm) : Method VariableBinding Bool := do
  let success ← matchEach termMatch cells heads
  if success then patternMatch (.erlVariable tailName) left else pure false

theorem consMatch_eq (size : heads.length = cells.length)
    (valid : (listPattern cells tailName).Valid)
    (matchable : (listTerm heads rest tail).Matchable) (values : binding.Values Storable)
    (enough : (listTerm heads rest tail).matchDepth ≤ fuel) :
    consMatch fuel cells tailName heads (remainder rest tail) binding =
      patternCons cells tailName heads (remainder rest tail) binding := by
  have patternParts : ∀ part ∈ cells ++ [.erlVariable tailName], part.Valid := valid.parts
  have parts : ∀ part ∈ heads ++ (rest ++ [tail]), part.Matchable :=
    matchable_hereditary _ matchable
  have headParts : ∀ head ∈ heads, head.Matchable :=
    fun head member => parts head (List.mem_append_left _ member)
  have agree : CallsAgree termMatch (ErlTerm.internalMatch fuel) cells heads := by
    intro elem inside head member before good
    have lower : head.depth < (listTerm heads rest tail).depth :=
      depth_part (List.mem_append_left _ member)
    apply internalMatch_pattern (patternParts elem (List.mem_append_left _ inside))
      (headParts head member) good
    simp only [matchDepth] at enough ⊢
    omega
  obtain ⟨run, -, kept⟩ := matchElements_agree termMatch_quiet size.symm agree headParts values
  unfold consMatch patternCons
  rw [Effect.bind_run, Effect.bind_run, ← run]
  rcases ran : matchElements (ErlTerm.internalMatch fuel) cells heads binding with ⟨outcome, after⟩
  rw [ran] at kept
  cases outcome with
  | returns success =>
      cases success with
      | false => rfl
      | true =>
          have deep := (remainder_matchDepth heads rest tail).trans enough
          exact internalMatch_pattern (patternParts _ (by simp)) (remainder_matchable matchable)
            kept deep
  | _ => rfl

/-- Lists with the same number of elements are matched by cells. -/
theorem patternMatch_sameLength (size : heads.length = cells.length) (some : cells ≠ []) :
    patternMatch (listPattern cells tailName) (listTerm heads [] tail) =
      patternCons cells tailName heads tail := by
  have sameLength : (cells ++ [ErlTerm.erlVariable tailName]).length =
      (heads ++ ([] ++ [tail])).length := by
    simp [size]
  have long : (cells ++ [ErlTerm.erlVariable tailName]).length ≠ 1 := by simpa using some
  unfold patternMatch listPattern listTerm
  rw [matchWith_erlConsList, if_pos sameLength, if_neg long, List.nil_append,
    matchEach_concat termMatch size.symm]
  rfl

/-- The arity check refuses a longer list. -/
theorem patternMatch_longer (size : heads.length = cells.length) (more : rest ≠ []) :
    patternMatch (listPattern cells tailName) (listTerm heads rest tail) = pure false := by
  have apart : (cells ++ [ErlTerm.erlVariable tailName]).length ≠
      (heads ++ (rest ++ [tail])).length := by
    have positive := List.length_pos_iff.mpr more
    simp only [List.length_append, List.length_singleton, size]
    omega
  unfold patternMatch listPattern listTerm
  rw [matchWith_erlConsList, if_neg apart]

theorem onCopy_succeeds {call : Method VariableBinding Bool} :
    (∃ after, onCopy call (some binding) = (.returns true, after)) ↔
      ∃ after, call binding = (.returns true, after) := by
  unfold onCopy
  rw [Option.getD_some]
  rcases call binding with ⟨outcome, after⟩
  cases outcome with
  | returns success => cases success <;> simp
  | _ => simp

theorem patternCons_succeeds {left : ErlTerm} :
    (∃ after, patternCons cells tailName heads left binding = (.returns true, after)) ↔
      ∃ middle, matchEach termMatch cells heads binding = (.returns true, middle) ∧
        Takes middle tailName left := by
  simp only [patternCons, Effect.bind_eq_returns, takes_iff]
  constructor
  · rintro ⟨after, success, middle, first, later⟩
    cases success with
    | false => exact absurd later (by simp)
    | true => exact ⟨middle, first, after, later⟩
  · rintro ⟨middle, first, after, later⟩
    exact ⟨after, true, middle, first, later⟩

/-- A list pattern matches by cells exactly when the list has no more elements than the pattern,
or its cells do not match. -/
theorem matchesByCells_iff (some : cells ≠ []) (size : heads.length = cells.length)
    (patternValid : (listPattern cells tailName).Valid)
    (termValid : (listTerm heads rest tail).Valid) (termGround : (listTerm heads rest tail).Ground)
    (values : binding.Values fun value => value.Ground ∧ value.Built)
    (enough : (listTerm heads rest tail).matchDepth ≤ fuel) :
    MatchesByCells fuel cells tailName heads rest tail binding ↔
      rest = [] ∨
        ¬ ∃ middle, matchEach termMatch cells heads binding = (.returns true, middle) ∧
          Takes middle tailName (remainder rest tail) := by
  have matchable : (listTerm heads rest tail).Matchable := ⟨termGround, termValid⟩
  have storable : ((Option.some binding).getD .empty).Values Storable := values
  have direct := matchPattern_pattern patternValid matchable storable enough
  have commuted := matchPattern_term patternValid matchable storable enough
  have inner : consMatch fuel cells tailName heads (remainder rest tail)
      ((Option.some binding).getD .empty) = patternCons cells tailName heads (remainder rest tail)
        ((Option.some binding).getD .empty) :=
    consMatch_eq size patternValid matchable values enough
  have byCells := onCopy_congr inner
  unfold MatchesByCells
  simp only [direct, commuted, byCells, and_self]
  unfold patternMatches
  by_cases shorter : rest = []
  · subst shorter
    rw [patternMatch_sameLength size some]
    simp [remainder]
  · rw [patternMatch_longer size shorter, ← patternCons_succeeds, ← onCopy_succeeds]
    have refused : ∀ after, onCopy (pure false) (Option.some binding) ≠ (.returns true, after) := by
      intro after succeeded
      simp [onCopy] at succeeded
    simp [shorter, refused]

end Lists

/-- The pattern `[Y|Z]` and the list `[1]`. -/
theorem matchesByCells_single :
    MatchesByCells 4 [.erlVariable (text "Y")] (text "Z") [.simple (.erlLong (some 1))] []
      (.simple .erlEmptyList) .empty := by
  refine (matchesByCells_iff ?_ ?_ ?_ ?_ ?_ (VariableBinding.values_empty _) ?_).mpr (.inl rfl)
  · exact List.cons_ne_nil _ _
  · rfl
  · decide
  · decide
  · decide
  · decide

/-- The pattern `[Y|Z]` and the list `[1, 2]`. -/
theorem longerList_refused :
    (listPattern [.erlVariable (text "Y")] (text "Z")).Valid ∧
    (listTerm [.simple (.erlLong (some 1))] [.simple (.erlLong (some 2))]
      (.simple .erlEmptyList)).Valid ∧
    (listTerm [.simple (.erlLong (some 1))] [.simple (.erlLong (some 2))]
      (.simple .erlEmptyList)).Ground ∧
    ¬ MatchesByCells 4 [.erlVariable (text "Y")] (text "Z") [.simple (.erlLong (some 1))]
      [.simple (.erlLong (some 2))] (.simple .erlEmptyList) .empty := by
  refine ⟨by decide, by decide, by decide, ?_⟩
  intro byCells
  have refused : (listPattern [.erlVariable (text "Y")] (text "Z")).matchPattern 4
      (listTerm [.simple (.erlLong (some 1))] [.simple (.erlLong (some 2))]
        (.simple .erlEmptyList)) (some .empty) = (.returns false, some .empty) := by rfl
  have accepted := (byCells _).1.mpr rfl
  rw [refused] at accepted
  exact absurd accepted (by simp)

end Epi.Type
