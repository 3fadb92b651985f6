import Epi.Type.PoolInvariant

namespace Epi.Type

open Verification

mutual

/-- The term that stands at a place, with its elements instead of pointers to them. -/
def Denotes (pool : Pool) (address : Address) : ErlTerm → Prop
  | .simple value => pool[address]? = some (.simple value)
  | .erlTuple mInitialized mArity terms => ∃ elems,
      pool[address]? = some (.erlTuple mInitialized mArity elems) ∧ DenoteEach pool elems terms
  | .erlConsList mInitialized terms => ∃ elems,
      pool[address]? = some (.erlConsList mInitialized elems) ∧ DenoteEach pool elems terms
  | .erlVariable mName => pool[address]? = some (.erlVariable mName)

def DenoteEach (pool : Pool) (elems : List Address) : List ErlTerm → Prop
  | [] => elems = []
  | term :: terms => ∃ elem rest, elems = elem :: rest ∧ Denotes pool elem term ∧
      DenoteEach pool rest terms

end

theorem denoteEach_iff {pool : Pool} {elems : List Address} {terms : List ErlTerm} :
    DenoteEach pool elems terms ↔ List.Forall₂ (Denotes pool) elems terms := by
  induction terms generalizing elems with
  | nil => rw [DenoteEach, List.forall₂_nil_right_iff]
  | cons term terms ih =>
      rw [DenoteEach, List.forall₂_cons_right_iff]
      constructor
      · rintro ⟨elem, rest, rfl, here, later⟩
        exact ⟨elem, rest, here, ih.mp later, rfl⟩
      · rintro ⟨elem, rest, here, later, rfl⟩
        exact ⟨elem, rest, rfl, here, ih.mpr later⟩

namespace Pool

variable {pool after : Pool}

/-- The object at a place decides whether the term there is valid and whether it is a list. -/
theorem denotes_object {address : Address} {term : ErlTerm} (denotes : Denotes pool address term) :
    ∃ object, pool[address]? = some object ∧ object.isValid = term.isValid ∧
      object.isConsList = term.isConsList := by
  cases term with
  | simple value => exact ⟨_, denotes, rfl, rfl⟩
  | erlTuple mInitialized mArity terms =>
      obtain ⟨elems, found, -⟩ := denotes
      exact ⟨_, found, rfl, rfl⟩
  | erlConsList mInitialized terms =>
      obtain ⟨elems, found, -⟩ := denotes
      exact ⟨_, found, rfl, rfl⟩
  | erlVariable mName => exact ⟨_, denotes, rfl, rfl⟩

theorem denotes_valid {address : Address} {term : ErlTerm} (denotes : Denotes pool address term) :
    pool.valid address = term.isValid := by
  obtain ⟨object, found, same, -⟩ := denotes_object denotes
  rw [valid, found, Option.any_some, same]

theorem denotes_isConsList {address : Address} {term : ErlTerm}
    (denotes : Denotes pool address term) : pool.isConsList address = term.isConsList := by
  obtain ⟨object, found, -, same⟩ := denotes_object denotes
  rw [isConsList, found, Option.any_some, same]

section Inversion

variable {address : Address} {term : ErlTerm}

/-- The object at a place says what kind of term stands there. -/
theorem denotes_simple {value : SimpleTerm} (found : pool[address]? = some (.simple value))
    (denotes : Denotes pool address term) : term = .simple value := by
  cases term <;> simp only [Denotes, found, Option.some.injEq, Object.simple.injEq, reduceCtorEq,
    false_and, exists_false] at denotes
  rw [denotes]

theorem denotes_erlTuple {mInitialized : Bool} {mArity : Option Nat} {elems : List Address}
    (found : pool[address]? = some (.erlTuple mInitialized mArity elems))
    (denotes : Denotes pool address term) :
    ∃ terms, term = .erlTuple mInitialized mArity terms ∧ DenoteEach pool elems terms := by
  cases term <;> simp only [Denotes, found, Option.some.injEq, Object.erlTuple.injEq, reduceCtorEq,
    false_and, exists_false] at denotes
  obtain ⟨_, ⟨rfl, rfl, rfl⟩, each⟩ := denotes
  exact ⟨_, rfl, each⟩

theorem denotes_erlConsList {mInitialized : Bool} {elems : List Address}
    (found : pool[address]? = some (.erlConsList mInitialized elems))
    (denotes : Denotes pool address term) :
    ∃ terms, term = .erlConsList mInitialized terms ∧ DenoteEach pool elems terms := by
  cases term <;> simp only [Denotes, found, Option.some.injEq, Object.erlConsList.injEq,
    reduceCtorEq, false_and, exists_false] at denotes
  obtain ⟨_, ⟨rfl, rfl⟩, each⟩ := denotes
  exact ⟨_, rfl, each⟩

theorem denotes_erlVariable {mName : Bytes} (found : pool[address]? = some (.erlVariable mName))
    (denotes : Denotes pool address term) : term = .erlVariable mName := by
  cases term <;> simp only [Denotes, found, Option.some.injEq, Object.erlVariable.injEq,
    reduceCtorEq, false_and, exists_false] at denotes
  rw [denotes]

end Inversion

/-- Places that hold one term each hold one list of terms. -/
theorem denoteEach_unique {elems : List Address} {lefts rights : List ErlTerm}
    (unique : ∀ left ∈ lefts, ∀ address right, Denotes pool address left →
      Denotes pool address right → left = right)
    (first : DenoteEach pool elems lefts) (second : DenoteEach pool elems rights) :
    lefts = rights := by
  rw [denoteEach_iff] at first second
  induction first generalizing rights with
  | nil => exact (List.forall₂_nil_left_iff.mp second).symm
  | @cons elem left rest lefts here _ ih =>
      obtain ⟨right, others, there, later, rfl⟩ := List.forall₂_cons_left_iff.mp second
      rw [unique left List.mem_cons_self elem right here there,
        ih (fun other member => unique other (List.mem_cons_of_mem _ member)) later]

/-- A place holds one term. -/
theorem denotes_unique {address : Address} {left right : ErlTerm} (first : Denotes pool address left)
    (second : Denotes pool address right) : left = right := by
  induction left generalizing address right with
  | simple value => exact (denotes_simple first second).symm
  | erlTuple mInitialized mArity lefts ih =>
      obtain ⟨elems, found, parts⟩ := first
      obtain ⟨rights, rfl, others⟩ := denotes_erlTuple found second
      rw [denoteEach_unique (fun left member _ _ => ih left member) parts others]
  | erlConsList mInitialized lefts ih =>
      obtain ⟨elems, found, parts⟩ := first
      obtain ⟨rights, rfl, others⟩ := denotes_erlConsList found second
      rw [denoteEach_unique (fun left member _ _ => ih left member) parts others]
  | erlVariable mName => exact (denotes_erlVariable first second).symm

/-- The elements of a sound pool denote terms when the places below do. -/
theorem denoteEach_of_forall {elems : List Address}
    (each : ∀ elem ∈ elems, ∃ term, Denotes pool elem term ∧ term.Built) :
    ∃ terms, DenoteEach pool elems terms ∧ ∀ term ∈ terms, term.Built := by
  induction elems with
  | nil => exact ⟨[], rfl, List.forall_mem_nil _⟩
  | cons elem rest ih =>
      obtain ⟨term, here, built⟩ := each elem List.mem_cons_self
      obtain ⟨terms, later, all⟩ := ih fun other member => each other (List.mem_cons_of_mem _ member)
      exact ⟨term :: terms, ⟨elem, rest, rfl, here, later⟩, List.forall_mem_cons.mpr ⟨built, all⟩⟩

theorem DenoteEach.length_eq {elems : List Address} {terms : List ErlTerm}
    (each : DenoteEach pool elems terms) : elems.length = terms.length :=
  (denoteEach_iff.mp each).length_eq

/-- The elements of an object are valid terms. -/
theorem DenoteEach.valid {elems : List Address} {terms : List ErlTerm}
    (each : DenoteEach pool elems terms) (built : ∀ term ∈ terms, term.Built)
    (valid : ∀ elem ∈ elems, pool.valid elem = true) : ∀ term ∈ terms, term.Valid := by
  induction denoteEach_iff.mp each with
  | nil => exact List.forall_mem_nil _
  | @cons elem term rest terms here later ih =>
      rw [List.forall_mem_cons] at built valid ⊢
      refine ⟨built.1.valid ?_, ih (denoteEach_iff.mpr later) built.2 valid.2⟩
      rw [← denotes_valid here]
      exact valid.1

/-- The last element decides what a list ends in. -/
theorem DenoteEach.closedBy {elems : List Address} {terms : List ErlTerm}
    (each : DenoteEach pool elems terms)
    (closed : ∃ last ∈ elems.getLast?, pool.isConsList last = false) :
    ErlTerm.closedBy terms = true := by
  obtain ⟨last, ends, plain⟩ := closed
  have pairs := List.forall₂_reverse_iff.mpr (denoteEach_iff.mp each)
  rw [List.getLast?_eq_head?_reverse] at ends
  unfold ErlTerm.closedBy
  rw [List.getLast?_eq_head?_reverse]
  generalize elems.reverse = others at pairs ends
  generalize terms.reverse = rights at pairs
  cases pairs with
  | nil => cases ends
  | cons here later =>
      obtain rfl := Option.some.inj ends
      simp only [List.head?_cons, ← denotes_isConsList here, plain, Bool.not_false]

/-- Every place of a sound pool holds one term, and it is one that the methods can leave behind. -/
theorem Sound.denotes (sound : Sound pool) {address : Address} {object : Object}
    (found : pool[address]? = some object) : ∃ term, Denotes pool address term ∧ term.Built := by
  induction address using sound.grounded.induction generalizing object with
  | h address ih =>
      have below : ∃ terms, DenoteEach pool object.elements terms ∧
          (∀ term ∈ terms, term.Built) := by
        apply denoteEach_of_forall
        intro elem member
        have holds : pool.Holds address elem := ⟨object, found, member⟩
        obtain ⟨below, there, -⟩ := valid_iff.mp (sound.elements address elem holds)
        exact ih elem holds there
      obtain ⟨terms, each, built⟩ := below
      have valid := DenoteEach.valid each built fun elem member =>
        sound.elements address elem ⟨object, found, member⟩
      have shaped := sound.shaped address object found
      have closed := sound.closed address object found
      cases object with
      | simple value => exact ⟨.simple value, found, trivial⟩
      | erlTuple mInitialized mArity elems =>
          refine ⟨.erlTuple mInitialized mArity terms, ⟨elems, found, each⟩, valid, ?_⟩
          have size : elems.length = terms.length := DenoteEach.length_eq each
          cases mArity with
          | none =>
              obtain ⟨flag, empty⟩ := shaped
              subst empty
              exact ⟨flag, List.eq_nil_of_length_eq_zero size.symm⟩
          | some arity =>
              have shape : elems.length ≤ arity ∧ (mInitialized = true ↔ elems.length = arity) :=
                shaped
              rwa [size] at shape
      | erlConsList mInitialized elems =>
          refine ⟨.erlConsList mInitialized terms, ⟨elems, found, each⟩, valid, ?_⟩
          rintro rfl
          exact DenoteEach.closedBy each closed
      | erlVariable mName => exact ⟨.erlVariable mName, found, trivial⟩

/-- A valid term stays the term that it is. -/
theorem Sound.denotes_change (sound : Sound pool) (changes : Changes pool after) {address : Address}
    {term : ErlTerm} (denotes : Denotes pool address term) (valid : pool.valid address = true) :
    Denotes after address term := by
  have each : ∀ (terms : List ErlTerm) (elems : List Address),
      (∀ term ∈ terms, ∀ address, Denotes pool address term → pool.valid address = true →
        Denotes after address term) → (∀ elem ∈ elems, pool.valid elem = true) →
      DenoteEach pool elems terms → DenoteEach after elems terms := by
    intro terms elems kept valid
    rw [denoteEach_iff, denoteEach_iff]
    intro pairs
    induction pairs with
    | nil => exact .nil
    | @cons elem term rest terms here later ih =>
        rw [List.forall_mem_cons] at valid
        exact .cons (kept term List.mem_cons_self elem here valid.1)
          (ih (fun other member => kept other (List.mem_cons_of_mem _ member)) valid.2)
  have same := changes.keeps valid
  induction term generalizing address with
  | simple value =>
      rw [Denotes, same]
      exact denotes
  | erlTuple mInitialized mArity terms ih =>
      obtain ⟨elems, found, parts⟩ := denotes
      refine ⟨elems, same.trans found, each terms elems ?_ ?_ parts⟩
      · exact fun term member place here valid => ih term member here valid (changes.keeps valid)
      · exact fun elem member => sound.elements address elem ⟨_, found, member⟩
  | erlConsList mInitialized terms ih =>
      obtain ⟨elems, found, parts⟩ := denotes
      refine ⟨elems, same.trans found, each terms elems ?_ ?_ parts⟩
      · exact fun term member place here valid => ih term member here valid (changes.keeps valid)
      · exact fun elem member => sound.elements address elem ⟨_, found, member⟩
  | erlVariable mName =>
      rw [Denotes, same]
      exact denotes

/-- The elements and one more denote their terms and one more after a change, as all are valid. -/
theorem Sound.denoteEach_append (sound : Sound pool) (changes : Changes pool after)
    {elems : List Address} {terms : List ErlTerm} (each : DenoteEach pool elems terms)
    (valid : ∀ elem ∈ elems, pool.valid elem = true) {elem : Address} {term : ErlTerm}
    (last : Denotes pool elem term) (more : pool.valid elem = true) :
    DenoteEach after (elems ++ [elem]) (terms ++ [term]) := by
  rw [denoteEach_iff] at each ⊢
  induction each with
  | nil => exact .cons (sound.denotes_change changes last more) .nil
  | cons here later ih =>
      rw [List.forall_mem_cons] at valid
      exact .cons (sound.denotes_change changes here valid.1) (ih valid.2)

/-- The method on a tuple in memory does what it does on the tuple that stands there. -/
theorem initElement_refines (sound : Sound pool) {this elem : Address} {tuple : ErlTuple}
    {term : ErlTerm} (here : Denotes pool this tuple.toTerm) (there : Denotes pool elem term) :
    (initElement this (some elem) pool).1 = (ErlTuple.initElement (some term) tuple).1 ∧
      Denotes (initElement this (some elem) pool).2 this
        (ErlTuple.initElement (some term) tuple).2.toTerm := by
  have changes := evolves_initElement this (some elem) pool sound
  obtain ⟨mInitialized, mArity, terms⟩ := tuple
  obtain ⟨elems, found, each⟩ := here
  have valid := denotes_valid there
  have size := DenoteEach.length_eq each
  have stays : Denotes pool this (ErlTuple.toTerm ⟨mInitialized, mArity, terms⟩) :=
    ⟨elems, found, each⟩
  simp only [initElement, found, ErlTuple.initElement, valid] at changes ⊢
  cases mInitialized with
  | true => exact ⟨rfl, stays⟩
  | false =>
      cases mArity with
      | none => exact ⟨rfl, stays⟩
      | some arity =>
          cases known : term.isValid with
          | false => exact ⟨rfl, stays⟩
          | true =>
              simp only [known, if_true, Bool.false_eq_true, if_false] at changes ⊢
              have inside := (List.getElem?_eq_some_iff.mp found).1
              rw [size] at changes ⊢
              refine ⟨trivial, elems ++ [elem], List.getElem?_set_self inside, ?_⟩
              apply sound.denoteEach_append changes each _ there (valid.trans known)
              exact fun part member => sound.elements this part ⟨_, found, member⟩

/-- The method on a list in memory does what it does on the list that stands there. -/
theorem addElement_refines (sound : Sound pool) {this elem : Address} {list : ErlConsList}
    {term : ErlTerm} (here : Denotes pool this list.toTerm) (there : Denotes pool elem term) :
    (addElement this (some elem) pool).1 = (ErlConsList.addElement (some term) list).1 ∧
      Denotes (addElement this (some elem) pool).2 this
        (ErlConsList.addElement (some term) list).2.toTerm := by
  have changes := evolves_addElement this (some elem) pool sound
  obtain ⟨mInitialized, terms⟩ := list
  obtain ⟨elems, found, each⟩ := here
  have valid := denotes_valid there
  have stays : Denotes pool this (ErlConsList.toTerm ⟨mInitialized, terms⟩) := ⟨elems, found, each⟩
  simp only [addElement, found, ErlConsList.addElement, valid] at changes ⊢
  cases known : term.isValid with
  | false => exact ⟨rfl, stays⟩
  | true =>
      cases mInitialized with
      | true => exact ⟨rfl, stays⟩
      | false =>
          simp only [known, Bool.not_true, if_false, Bool.false_eq_true] at changes ⊢
          have inside := (List.getElem?_eq_some_iff.mp found).1
          refine ⟨trivial, elems ++ [elem], List.getElem?_set_self inside, ?_⟩
          apply sound.denoteEach_append changes each _ there (valid.trans known)
          exact fun part member => sound.elements this part ⟨_, found, member⟩

/-- After any calls every term in memory is one that can be built, and it is one term only. -/
theorem denotes_after (calls : List PoolCall) {address : Address} {object : Object}
    (found : (Pool.after [] calls)[address]? = some object) :
    ∃ term, Denotes (Pool.after [] calls) address term ∧ term.Built ∧
      ∀ other, Denotes (Pool.after [] calls) address other → other = term := by
  obtain ⟨term, denotes, built⟩ := (sound_after calls).denotes found
  exact ⟨term, denotes, built, fun other also => denotes_unique also denotes⟩

end Pool

end Epi.Type
