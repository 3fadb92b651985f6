import Epi.Library.OrderedMap
import Epi.Type.Term

namespace Epi.Type

open Verification

/-- The order of `std::string`. -/
def nameLess (left right : Bytes) : Bool := decide (left < right)

theorem nameLess_ordered : Entries.OrderedOn nameLess fun _ => True where
  irrefl name _ := by
    simp only [nameLess, decide_eq_false_iff_not]
    exact List.lt_irrefl name
  trans first second third _ _ _ left right := by
    simp only [nameLess, decide_eq_true_eq] at left right ⊢
    have : Trans (α := UInt8) (· < ·) (· < ·) (· < ·) := ⟨UInt8.lt_trans⟩
    exact List.lt_trans left right
  total left right _ _ notBefore notAfter := by
    simp only [nameLess, decide_eq_false_iff_not] at notBefore notAfter
    exact List.le_antisymm notAfter notBefore

/-- A binding maps variable names to terms. -/
structure VariableBinding where
  mErlTermMap : OrderedMap Bytes ErlTerm nameLess

namespace VariableBinding

def empty : VariableBinding := ⟨.empty⟩

def search (binding : VariableBinding) (variableName : Bytes) : Option ErlTerm :=
  binding.mErlTermMap.find variableName

/-- A bound variable keeps its value. -/
def bind (binding : VariableBinding) (variableName : Bytes) (term : ErlTerm) : VariableBinding :=
  if (binding.search variableName).isSome then binding
  else ⟨binding.mErlTermMap.store nameLess_ordered variableName term⟩

def merge (binding other : VariableBinding) : VariableBinding :=
  other.mErlTermMap.entries.foldl (fun merged entry => merged.bind entry.1 entry.2) binding

@[simp] theorem search_empty (name : Bytes) : empty.search name = none := rfl

/-- A new entry is found under its name only, and a bound name keeps its value. -/
theorem search_bind (binding : VariableBinding) (variableName name : Bytes) (term : ErlTerm) :
    (binding.bind variableName term).search name =
      (binding.search name).or (if name = variableName then some term else none) := by
  unfold bind
  cases known : binding.search variableName with
  | some value =>
      by_cases same : name = variableName
      · subst same
        simp [known]
      · simp [same]
  | none =>
      have stored := OrderedMap.find_store nameLess_ordered binding.mErlTermMap variableName name
        term
      simp only [Option.isSome_none, Bool.false_eq_true, if_false]
      rw [search, stored]
      by_cases same : name = variableName
      · subst same
        simp [known]
      · simp [same, search]

/-- The entries of a merged binding appear where the first binding has none. -/
theorem search_merge (binding other : VariableBinding) (name : Bytes) :
    (binding.merge other).search name = (binding.search name).or (other.search name) := by
  have known : other.search name =
      other.mErlTermMap.entries.findSome? fun entry =>
        if name = entry.1 then some entry.2 else none := by
    cases found : other.search name with
    | none =>
        symm
        rw [List.findSome?_eq_none_iff]
        intro entry member
        rw [if_neg]
        intro same
        have inside := OrderedMap.find_of_mem nameLess_ordered other.mErlTermMap member
        rw [← same] at inside
        exact Option.some_ne_none _ (inside.symm.trans found)
    | some value =>
        symm
        have member := OrderedMap.mem_of_find nameLess_ordered other.mErlTermMap found
        cases first : other.mErlTermMap.entries.findSome? fun entry =>
            if name = entry.1 then some entry.2 else none with
        | none =>
            have missing := List.findSome?_eq_none_iff.mp first (name, value) member
            simp at missing
        | some held =>
            obtain ⟨entry, inside, picked⟩ := List.exists_of_findSome?_eq_some first
            split at picked
            · rename_i same
              have stored := OrderedMap.find_of_mem nameLess_ordered other.mErlTermMap inside
              rw [← same] at stored
              rw [← picked]
              exact stored.symm.trans found
            · cases picked
  rw [known]
  unfold merge
  generalize other.mErlTermMap.entries = entries
  induction entries generalizing binding with
  | nil => simp
  | cons entry rest ih =>
      rw [List.foldl_cons, ih, search_bind, List.findSome?_cons]
      split <;> rename_i picked <;> simp [picked]

/-- Every value of the binding has the property. -/
def Values (binding : VariableBinding) (Holds : ErlTerm → Prop) : Prop :=
  ∀ name value, binding.search name = some value → Holds value

theorem values_empty (Holds : ErlTerm → Prop) : empty.Values Holds := by
  intro name value known
  cases known

/-- The second binding has the entries of the first one. -/
def Extends (later earlier : VariableBinding) : Prop :=
  ∀ name value, earlier.search name = some value → later.search name = some value

theorem Extends.refl (binding : VariableBinding) : binding.Extends binding :=
  fun _ _ known => known

theorem Extends.trans {first second third : VariableBinding} (upper : third.Extends second)
    (lower : second.Extends first) : third.Extends first :=
  fun name value known => upper name value (lower name value known)

theorem extends_bind (binding : VariableBinding) (name : Bytes) (term : ErlTerm) :
    (binding.bind name term).Extends binding := by
  intro other value known
  rw [search_bind, known]
  rfl

theorem Values.bind {binding : VariableBinding} {Holds : ErlTerm → Prop}
    (values : binding.Values Holds) {term : ErlTerm} (holds : Holds term) (name : Bytes) :
    (binding.bind name term).Values Holds := by
  intro other value known
  rw [search_bind, Option.or_eq_some_iff] at known
  rcases known with old | ⟨-, new⟩
  · exact values other value old
  · split at new
    · rw [← Option.some.inj new]
      exact holds
    · cases new

/-- A merge with an extension of the binding leaves the extension. -/
theorem search_merge_extends {binding later : VariableBinding} (extension : later.Extends binding)
    (name : Bytes) : (binding.merge later).search name = later.search name := by
  rw [search_merge]
  cases known : binding.search name with
  | none => rfl
  | some value => exact (extension name value known).symm

end VariableBinding

end Epi.Type
