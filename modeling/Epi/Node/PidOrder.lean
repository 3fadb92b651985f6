import Epi.Type.Binding

namespace Epi.Node

open Verification Epi.Type

/-- The `operator<` of pids. The second test of the ids repeats the first one. -/
def pidBefore (t1 t2 : ErlPid) : Bool :=
  if nameLess t1.mNode.text t2.mNode.text then true
  else if nameLess t2.mNode.text t1.mNode.text then false
  else if t1.mId < t2.mId then true
  else if t1.mId < t2.mId then false
  else if t1.mSerial < t2.mSerial then true
  else if t1.mSerial > t2.mSerial then false
  else if t1.mCreation < t2.mCreation then true
  else if t1.mCreation > t2.mCreation then false
  else false

/-- `ErlPidPtrCompare`. The null pointer is an absent pid. -/
def erlPidPtrCompare : Option ErlPid → Option ErlPid → Bool
  | none, none => true
  | some t1, some t2 => pidBefore t1 t2
  | _, _ => false

/-- The laws of a strict weak order on the keys in use, and its incomparable pids. -/
structure StrictWeakOn (used : Option ErlPid → Prop) : Prop where
  irrefl : ∀ key, used key → erlPidPtrCompare key key = false
  asymm : ∀ left right, used left → used right → erlPidPtrCompare left right = true →
    erlPidPtrCompare right left = false
  trans : ∀ first second third, used first → used second → used third →
    erlPidPtrCompare first second = true → erlPidPtrCompare second third = true →
      erlPidPtrCompare first third = true
  incomparable : ∀ left right : ErlPid, used (some left) → used (some right) →
    ((erlPidPtrCompare (some left) (some right) = false ∧
        erlPidPtrCompare (some right) (some left) = false) ↔
      left.mNode = right.mNode ∧ left.mId = right.mId ∧ left.mSerial = right.mSerial ∧
        left.mCreation = right.mCreation)

/-- The serial and the creation decide. -/
def Later (left right : ErlPid) : Prop :=
  left.mSerial < right.mSerial ∨ left.mSerial = right.mSerial ∧ left.mCreation < right.mCreation

instance (left right : ErlPid) : Decidable (Later left right) :=
  inferInstanceAs (Decidable (_ ∨ _))

/-- Two pids of one node whose ids stand in one order, and their serials and creations in the other
one. -/
def Opposed (left right : ErlPid) : Prop :=
  left.mNode = right.mNode ∧ left.mId < right.mId ∧ Later right left

instance (left right : ErlPid) : Decidable (Opposed left right) :=
  inferInstanceAs (Decidable (_ ∧ _))

theorem NodeName.eq_of_text {left right : NodeName} (same : left.text = right.text) :
    left = right := by
  cases left
  cases right
  cases same
  rfl

/-- Two names that are not before each other are one name. -/
theorem nameLess_total {left right : NodeName}
    (notBefore : nameLess left.text right.text = false)
    (notAfter : nameLess right.text left.text = false) : left = right :=
  NodeName.eq_of_text (nameLess_ordered.total _ _ trivial trivial notBefore notAfter)

theorem nameLess_self (name : Bytes) : nameLess name name = false :=
  nameLess_ordered.irrefl name trivial

/-- The order that the tests compute. -/
theorem pidBefore_iff {left right : ErlPid} : pidBefore left right = true ↔
    nameLess left.mNode.text right.mNode.text = true ∨
      left.mNode = right.mNode ∧ (left.mId < right.mId ∨ Later left right) := by
  have laterIff : (if left.mSerial < right.mSerial then true
      else if left.mSerial > right.mSerial then false
      else if left.mCreation < right.mCreation then true
      else if left.mCreation > right.mCreation then false
      else false) = true ↔ Later left right := by
    simp only [Later, GT.gt, BitVec.lt_def, ← BitVec.toNat_inj]
    split
    · simp [*]
    · split
      · simp only [Bool.false_eq_true, false_iff]
        omega
      · split
        · simp only [true_iff]
          omega
        · simp only [ite_self, Bool.false_eq_true, false_iff]
          omega
  unfold pidBefore
  cases before : nameLess left.mNode.text right.mNode.text with
  | true => simp
  | false =>
      cases after : nameLess right.mNode.text left.mNode.text with
      | true =>
          have apart : left.mNode ≠ right.mNode := by
            intro same
            rw [same, nameLess_self] at after
            exact Bool.false_ne_true after
          simp [apart]
      | false =>
          simp only [Bool.false_eq_true, if_false, nameLess_total before after, true_and, false_or]
          split
          · simp [*]
          · rename_i notBefore
            simp only [notBefore, false_or]
            exact laterIff

/-- Incomparable pids agree in all fields, in whatever order their ids and serials stand. -/
theorem incomparable_iff {left right : ErlPid} :
    (pidBefore left right = false ∧ pidBefore right left = false) ↔
      left.mNode = right.mNode ∧ left.mId = right.mId ∧ left.mSerial = right.mSerial ∧
        left.mCreation = right.mCreation := by
  simp only [← Bool.not_eq_true, pidBefore_iff]
  constructor
  · rintro ⟨notBefore, notAfter⟩
    rw [not_or] at notBefore notAfter
    have same : left.mNode = right.mNode :=
      nameLess_total (Bool.not_eq_true _ ▸ notBefore.1) (Bool.not_eq_true _ ▸ notAfter.1)
    have first : ¬ (left.mId < right.mId ∨ Later left right) :=
      fun here => notBefore.2 ⟨same, here⟩
    have second : ¬ (right.mId < left.mId ∨ Later right left) :=
      fun here => notAfter.2 ⟨same.symm, here⟩
    simp only [Later, BitVec.lt_def, ← BitVec.toNat_inj] at first second ⊢
    refine ⟨same, ?_⟩
    omega
  · rintro ⟨node, id, serial, creation⟩
    simp [Later, node, id, serial, creation, nameLess_self]

theorem eq_of_incomparable {left right : ErlPid} (notBefore : pidBefore left right = false)
    (notAfter : pidBefore right left = false) : left = right := by
  obtain ⟨node, id, serial, creation⟩ := incomparable_iff.mp ⟨notBefore, notAfter⟩
  cases left
  cases right
  simp only at node id serial creation
  rw [node, id, serial, creation]

/-- The order is a strict weak one exactly on keys without the null pointer and without opposed
pids. -/
theorem strictWeakOn_iff {used : Option ErlPid → Prop} :
    StrictWeakOn used ↔ ¬ used none ∧
      ∀ left right, used (some left) → used (some right) → ¬ Opposed left right := by
  constructor
  · intro strict
    constructor
    · intro null
      exact absurd (strict.irrefl none null) (by simp [erlPidPtrCompare])
    · rintro left right leftUsed rightUsed ⟨node, id, later⟩
      have before : pidBefore left right = true := pidBefore_iff.mpr (.inr ⟨node, .inl id⟩)
      have after : pidBefore right left = true :=
        pidBefore_iff.mpr (.inr ⟨node.symm, .inr later⟩)
      have refused := strict.asymm _ _ leftUsed rightUsed before
      rw [erlPidPtrCompare, after] at refused
      exact Bool.noConfusion refused
  · rintro ⟨null, unopposed⟩
    have present : ∀ key, used key → ∃ pid, key = some pid := by
      intro key keyUsed
      cases key with
      | none => exact absurd keyUsed null
      | some pid => exact ⟨pid, rfl⟩
    have irrefl : ∀ pid, pidBefore pid pid = false :=
      fun pid => (incomparable_iff.mpr ⟨rfl, rfl, rfl, rfl⟩).1
    have trans : ∀ first second third, used (some first) → used (some second) →
        used (some third) → pidBefore first second = true → pidBefore second third = true →
          pidBefore first third = true := by
      intro first second third firstUsed secondUsed thirdUsed left right
      rw [pidBefore_iff] at left right ⊢
      rcases left with left | ⟨leftNode, left⟩
      · rcases right with right | ⟨rightNode, right⟩
        · exact .inl (nameLess_ordered.trans _ _ _ trivial trivial trivial left right)
        · exact .inl (rightNode ▸ left)
      · rcases right with right | ⟨rightNode, right⟩
        · exact .inl (leftNode ▸ right)
        · refine .inr ⟨leftNode.trans rightNode, ?_⟩
          -- A first id above the third one would oppose the second pid to one of them.
          by_contra backwards
          rw [not_or] at backwards
          have low : ¬ (second.mId < first.mId ∧ Later first second) := fun here =>
            unopposed second first secondUsed firstUsed ⟨leftNode.symm, here.1, here.2⟩
          have high : ¬ (third.mId < second.mId ∧ Later second third) := fun here =>
            unopposed third second thirdUsed secondUsed ⟨rightNode.symm, here.1, here.2⟩
          simp only [Later, BitVec.lt_def, ← BitVec.toNat_inj] at left right backwards low high
          omega
    refine ⟨?_, ?_, ?_, ?_⟩
    · intro key keyUsed
      obtain ⟨pid, rfl⟩ := present key keyUsed
      exact irrefl pid
    · intro left right leftUsed rightUsed before
      obtain ⟨left, rfl⟩ := present left leftUsed
      obtain ⟨right, rfl⟩ := present right rightUsed
      by_contra after
      rw [Bool.not_eq_false] at after
      have cycle := trans left right left leftUsed rightUsed leftUsed before after
      rw [irrefl left] at cycle
      exact Bool.false_ne_true cycle
    · intro first second third firstUsed secondUsed thirdUsed left right
      obtain ⟨first, rfl⟩ := present first firstUsed
      obtain ⟨second, rfl⟩ := present second secondUsed
      obtain ⟨third, rfl⟩ := present third thirdUsed
      exact trans first second third firstUsed secondUsed thirdUsed left right
    · intro left right leftUsed rightUsed
      exact incomparable_iff

/-- A map can rely on the order where it is a strict weak one. -/
theorem StrictWeakOn.orderedOn {used : Option ErlPid → Prop} (strict : StrictWeakOn used) :
    Entries.OrderedOn erlPidPtrCompare used where
  irrefl := strict.irrefl
  trans := strict.trans
  total left right leftUsed rightUsed notBefore notAfter := by
    cases left with
    | none => exact absurd (strict.irrefl none leftUsed) (by simp [erlPidPtrCompare])
    | some left =>
        cases right with
        | none => exact absurd (strict.irrefl none rightUsed) (by simp [erlPidPtrCompare])
        | some right => rw [eq_of_incomparable notBefore notAfter]

end Epi.Node
