import Mathlib

namespace Verification

/-- The nodes of an ordered map, in the order of a walk. -/
abbrev Entries (Key Value : Type) := List (Key × Value)

namespace Entries

variable {Key Value : Type}

/-- The search stops at the first node whose key is not less, and an incomparable key is found.
The nodes are searched in their order, so keys that `less` does not order have an answer here;
`std::map` goes down a tree and gives none. -/
def lookup (less : Key → Key → Bool) (key : Key) : Entries Key Value → Option Value
  | [] => none
  | (held, value) :: rest =>
      if less held key then lookup less key rest
      else if less key held then none
      else some value

/-- The value of an incomparable key is replaced, otherwise a node is inserted. -/
def store (less : Key → Key → Bool) (key : Key) (value : Value) :
    Entries Key Value → Entries Key Value
  | [] => [(key, value)]
  | (held, old) :: rest =>
      if less held key then (held, old) :: store less key value rest
      else if less key held then (key, value) :: (held, old) :: rest
      else (held, value) :: rest

/-- The order that an ordered map relies on, for the keys in use. -/
structure OrderedOn (less : Key → Key → Bool) (used : Key → Prop) : Prop where
  irrefl : ∀ key, used key → less key key = false
  trans : ∀ first second third, used first → used second → used third →
    less first second = true → less second third = true → less first third = true
  total : ∀ left right, used left → used right → less left right = false →
    less right left = false → left = right

/-- All keys are in use, and each key is less than all keys behind it. -/
def Sorted (less : Key → Key → Bool) (used : Key → Prop) (entries : Entries Key Value) : Prop :=
  (∀ entry ∈ entries, used entry.1) ∧
    entries.Pairwise fun first second => less first.1 second.1 = true

variable {less : Key → Key → Bool} {used : Key → Prop} {entries : Entries Key Value}

theorem sorted_nil : Sorted less used ([] : Entries Key Value) := by
  constructor
  · intro entry member
    cases member
  · exact List.Pairwise.nil

theorem sorted_cons {entry : Key × Value} :
    Sorted less used (entry :: entries) ↔
      used entry.1 ∧ (∀ other ∈ entries, less entry.1 other.1 = true) ∧
        Sorted less used entries := by
  simp only [Sorted, List.forall_mem_cons, List.pairwise_cons]
  tauto

theorem OrderedOn.asymm (ordered : OrderedOn less used) {left right : Key}
    (leftUsed : used left) (rightUsed : used right) (before : less left right = true) :
    less right left = false := by
  by_contra after
  rw [Bool.not_eq_false] at after
  have cycle := ordered.trans left right left leftUsed rightUsed leftUsed before after
  rw [ordered.irrefl left leftUsed] at cycle
  exact Bool.false_ne_true cycle

theorem OrderedOn.less_of_ne (ordered : OrderedOn less used) {left right : Key}
    (leftUsed : used left) (rightUsed : used right) (apart : left ≠ right)
    (notAfter : less right left = false) : less left right = true := by
  by_contra notBefore
  rw [Bool.not_eq_true] at notBefore
  exact apart (ordered.total left right leftUsed rightUsed notBefore notAfter)

/-- An insertion adds the new key and keeps the other keys. -/
theorem mem_store {key : Key} {value : Value} {entry : Key × Value}
    (member : entry ∈ store less key value entries) :
    entry.1 = key ∨ ∃ other ∈ entries, entry.1 = other.1 := by
  induction entries with
  | nil =>
      simp only [store, List.mem_singleton] at member
      exact .inl (by rw [member])
  | cons head rest ih =>
      obtain ⟨held, old⟩ := head
      simp only [store] at member
      split at member
      · rcases List.mem_cons.mp member with same | later
        · exact .inr ⟨_, List.mem_cons_self, by rw [same]⟩
        · rcases ih later with new | ⟨other, kept, same⟩
          · exact .inl new
          · exact .inr ⟨other, List.mem_cons_of_mem _ kept, same⟩
      · split at member
        · rcases List.mem_cons.mp member with same | later
          · exact .inl (by rw [same])
          · exact .inr ⟨entry, later, rfl⟩
        · rcases List.mem_cons.mp member with same | later
          · exact .inr ⟨_, List.mem_cons_self, by rw [same]⟩
          · exact .inr ⟨entry, List.mem_cons_of_mem _ later, rfl⟩

/-- An insertion keeps the nodes sorted. -/
theorem sorted_store (ordered : OrderedOn less used) {key : Key} (keyUsed : used key)
    (value : Value) (sorted : Sorted less used entries) :
    Sorted less used (store less key value entries) := by
  induction entries with
  | nil => exact sorted_cons.mpr ⟨keyUsed, by simp, sorted_nil⟩
  | cons head rest ih =>
      obtain ⟨held, old⟩ := head
      obtain ⟨heldUsed, first, restSorted⟩ := sorted_cons.mp sorted
      simp only [store]
      split
      · rename_i before
        refine sorted_cons.mpr ⟨heldUsed, ?_, ih restSorted⟩
        intro entry member
        rcases mem_store member with new | ⟨other, kept, same⟩
        · rw [new]
          exact before
        · rw [same]
          exact first other kept
      · split
        · rename_i before
          refine sorted_cons.mpr ⟨keyUsed, ?_, sorted⟩
          intro entry member
          rcases List.mem_cons.mp member with same | later
          · rw [same]
            exact before
          · exact ordered.trans key held entry.1 keyUsed heldUsed (restSorted.1 entry later)
              before (first entry later)
        · exact sorted_cons.mpr ⟨heldUsed, first, restSorted⟩

/-- After an insertion the key is found with its value, and the other keys as before. -/
theorem lookup_store [DecidableEq Key] (ordered : OrderedOn less used) {key other : Key}
    (keyUsed : used key) (otherUsed : used other) (value : Value)
    (sorted : Sorted less used entries) :
    lookup less other (store less key value entries) =
      if other = key then some value else lookup less other entries := by
  induction entries with
  | nil =>
      by_cases same : other = key
      · subst same
        simp [store, lookup, ordered.irrefl other otherUsed]
      · have apart := ordered.less_of_ne otherUsed keyUsed same
        cases before : less key other with
        | true => simp [store, lookup, before, same]
        | false => simp [store, lookup, before, apart before, same]
  | cons head rest ih =>
      obtain ⟨held, old⟩ := head
      obtain ⟨heldUsed, first, restSorted⟩ := sorted_cons.mp sorted
      have inner := ih restSorted
      simp only at heldUsed
      cases before : less held key with
      | true =>
          have stored : store less key value ((held, old) :: rest) =
              (held, old) :: store less key value rest := by simp [store, before]
          rw [stored, lookup, inner, lookup]
          by_cases same : other = key
          · subst same
            simp [before]
          · simp [same]
      | false =>
          cases after : less key held with
          | true =>
              have stored : store less key value ((held, old) :: rest) =
                  (key, value) :: (held, old) :: rest := by simp [store, before, after]
              rw [stored, lookup]
              by_cases same : other = key
              · subst same
                simp [ordered.irrefl other otherUsed]
              · simp only [same, if_false]
                cases keyFirst : less key other with
                | true => simp
                | false =>
                    have otherFirst := ordered.less_of_ne otherUsed keyUsed same keyFirst
                    have otherHeld := ordered.trans other key held otherUsed keyUsed heldUsed
                      otherFirst after
                    have heldOther := ordered.asymm otherUsed heldUsed otherHeld
                    simp [otherFirst, lookup, otherHeld, heldOther]
          | false =>
              have same := ordered.total held key heldUsed keyUsed before after
              subst same
              have stored : store less held value ((held, old) :: rest) =
                  (held, value) :: rest := by simp [store, before]
              rw [stored, lookup, lookup]
              by_cases same : other = held
              · subst same
                simp [before]
              · simp only [same, if_false]
                cases heldFirst : less held other with
                | true => simp
                | false =>
                    have otherFirst := ordered.less_of_ne otherUsed heldUsed same heldFirst
                    simp [otherFirst]

/-- Every node is found under its key. -/
theorem lookup_of_mem (ordered : OrderedOn less used) (sorted : Sorted less used entries)
    {entry : Key × Value} (member : entry ∈ entries) :
    lookup less entry.1 entries = some entry.2 := by
  induction entries with
  | nil => cases member
  | cons head rest ih =>
      obtain ⟨held, value⟩ := head
      obtain ⟨heldUsed, first, restSorted⟩ := sorted_cons.mp sorted
      rcases List.mem_cons.mp member with same | later
      · rw [same]
        simp [lookup, ordered.irrefl held heldUsed]
      · have before : less held entry.1 = true := first entry later
        rw [lookup, if_pos before]
        exact ih restSorted later

/-- A key that is found is incomparable with the key of a node. -/
theorem mem_of_lookup {key : Key} {value : Value} (found : lookup less key entries = some value) :
    ∃ held, (held, value) ∈ entries ∧ less held key = false ∧ less key held = false := by
  induction entries with
  | nil => cases found
  | cons head rest ih =>
      obtain ⟨held, old⟩ := head
      rw [lookup] at found
      cases before : less held key with
      | true =>
          rw [before, if_pos rfl] at found
          obtain ⟨other, member, incomparable⟩ := ih found
          exact ⟨other, List.mem_cons_of_mem _ member, incomparable⟩
      | false =>
          cases after : less key held with
          | true => simp [before, after] at found
          | false =>
              simp only [before, after, Bool.false_eq_true, if_false, Option.some.injEq] at found
              exact ⟨held, by rw [found]; exact List.mem_cons_self, before, after⟩

theorem Sorted.sublist {fewer : Entries Key Value} (sorted : Sorted less used entries)
    (kept : fewer.Sublist entries) : Sorted less used fewer :=
  ⟨fun entry member => sorted.1 entry (kept.subset member), sorted.2.sublist kept⟩

/-- Two nodes with one key are one node. -/
theorem Sorted.unique (ordered : OrderedOn less used) (sorted : Sorted less used entries)
    {first second : Key × Value} (left : first ∈ entries) (right : second ∈ entries)
    (same : first.1 = second.1) : first = second := by
  have one := lookup_of_mem ordered sorted left
  have two := lookup_of_mem ordered sorted right
  rw [same, two] at one
  exact Prod.ext same (Option.some.inj one).symm

/-- The new node and the nodes with other keys. -/
theorem mem_store_iff [DecidableEq Key] (ordered : OrderedOn less used) {key : Key}
    (keyUsed : used key) (value : Value) (sorted : Sorted less used entries)
    {entry : Key × Value} :
    entry ∈ store less key value entries ↔
      entry = (key, value) ∨ entry ∈ entries ∧ entry.1 ≠ key := by
  have stored := sorted_store ordered keyUsed value sorted
  have found : used entry.1 → lookup less entry.1 (store less key value entries) =
      if entry.1 = key then some value else lookup less entry.1 entries :=
    fun entryUsed => lookup_store ordered keyUsed entryUsed value sorted
  have held : ∀ {nodes : Entries Key Value}, used entry.1 → Sorted less used nodes →
      (lookup less entry.1 nodes = some entry.2 ↔ entry ∈ nodes) := by
    intro nodes entryUsed nodesSorted
    constructor
    · intro there
      obtain ⟨other, member, before, after⟩ := mem_of_lookup there
      have same := ordered.total other entry.1 (nodesSorted.1 _ member) entryUsed before after
      rwa [same] at member
    · exact lookup_of_mem ordered nodesSorted
  constructor
  · intro member
    have entryUsed := stored.1 entry member
    have there := (held entryUsed stored).mpr member
    rw [found entryUsed] at there
    split at there
    · rename_i same
      exact .inl (Prod.ext same (Option.some.inj there).symm)
    · rename_i other
      exact .inr ⟨(held entryUsed sorted).mp there, other⟩
  · rintro (rfl | ⟨member, other⟩)
    · apply (held keyUsed stored).mp
      rw [found keyUsed, if_pos rfl]
    · have entryUsed := sorted.1 entry member
      apply (held entryUsed stored).mp
      rw [found entryUsed, if_neg other]
      exact (held entryUsed sorted).mpr member

/-- The node with an incomparable key is taken out. -/
def erase (less : Key → Key → Bool) (key : Key) : Entries Key Value → Entries Key Value
  | [] => []
  | (held, value) :: rest =>
      if less held key then (held, value) :: erase less key rest
      else if less key held then (held, value) :: rest
      else rest

theorem erase_sublist (key : Key) : (erase less key entries).Sublist entries := by
  induction entries with
  | nil => exact .slnil
  | cons head rest ih =>
      obtain ⟨held, value⟩ := head
      rw [erase]
      split
      · exact ih.cons_cons _
      · split
        · exact .refl _
        · exact .cons _ (.refl _)

/-- The nodes with other keys stay. -/
theorem mem_erase (ordered : OrderedOn less used) {key : Key} (keyUsed : used key)
    (sorted : Sorted less used entries) {entry : Key × Value} :
    entry ∈ erase less key entries ↔ entry ∈ entries ∧ entry.1 ≠ key := by
  induction entries with
  | nil => simp [erase]
  | cons head rest ih =>
      obtain ⟨held, value⟩ := head
      obtain ⟨heldUsed, first, restSorted⟩ := sorted_cons.mp sorted
      simp only at heldUsed first
      rw [erase, List.mem_cons]
      cases before : less held key with
      | true =>
          have other : held ≠ key := by
            rintro rfl
            exact absurd before (by simp [ordered.irrefl held heldUsed])
          rw [if_pos rfl, List.mem_cons, ih restSorted]
          constructor
          · rintro (rfl | ⟨member, apart⟩)
            · exact ⟨.inl rfl, other⟩
            · exact ⟨.inr member, apart⟩
          · rintro ⟨rfl | member, apart⟩
            · exact .inl rfl
            · exact .inr ⟨member, apart⟩
      | false =>
          have later : ∀ entry ∈ rest, less held entry.1 = true := first
          cases after : less key held with
          | true =>
              simp only [Bool.false_eq_true, if_false, if_true, List.mem_cons]
              have behind : ∀ entry ∈ (held, value) :: rest, entry.1 ≠ key := by
                intro entry member same
                have entryBefore : less key entry.1 = true := by
                  rcases List.mem_cons.mp member with rfl | inside
                  · exact after
                  · exact ordered.trans key held entry.1 keyUsed heldUsed (restSorted.1 entry inside)
                      after (later entry inside)
                rw [same, ordered.irrefl key keyUsed] at entryBefore
                exact Bool.false_ne_true entryBefore
              constructor
              · exact fun member => ⟨member, behind entry (List.mem_cons.mpr member)⟩
              · exact fun kept => kept.1
          | false =>
              have same := ordered.total held key heldUsed keyUsed before after
              simp only [Bool.false_eq_true, if_false]
              constructor
              · intro member
                refine ⟨.inr member, fun equal => ?_⟩
                have entryAfter := later entry member
                rw [equal, before] at entryAfter
                exact Bool.false_ne_true entryAfter
              · rintro ⟨rfl | member, apart⟩
                · exact absurd same apart
                · exact member

/-- The set of the keys that hold a value. -/
def keysWith [DecidableEq Value] (less : Key → Key → Bool) (value : Value)
    (entries : Entries Key Value) : Entries Key Unit :=
  entries.foldl (fun keys entry => if entry.2 = value then store less entry.1 () keys else keys) []

/-- All nodes with a value are taken out, and their keys are counted. -/
def eraseByValue [DecidableEq Value] (less : Key → Key → Bool) (value : Value)
    (entries : Entries Key Value) : Entries Key Value × Nat :=
  let keys := keysWith less value entries
  (keys.foldl (fun left key => erase less key.1 left) entries, keys.length)

theorem mem_keysWith [DecidableEq Key] [DecidableEq Value] (ordered : OrderedOn less used)
    {value : Value} (sorted : Sorted less used entries) {key : Key} :
    (key, ()) ∈ keysWith less value entries ↔ (key, value) ∈ entries := by
  have loop : ∀ (nodes : Entries Key Value) (keys : Entries Key Unit),
      (∀ entry ∈ nodes, used entry.1) → Sorted less used keys →
      ((key, ()) ∈ nodes.foldl
        (fun keys entry => if entry.2 = value then store less entry.1 () keys else keys) keys ↔
          (key, ()) ∈ keys ∨ (key, value) ∈ nodes) := by
    intro nodes
    induction nodes with
    | nil => simp
    | cons entry rest ih =>
        intro keys nodesUsed keysSorted
        obtain ⟨held, holds⟩ := entry
        have heldUsed : used held := nodesUsed (held, holds) List.mem_cons_self
        have restUsed := fun other member => nodesUsed other (List.mem_cons_of_mem _ member)
        rw [List.foldl_cons]
        by_cases same : holds = value
        · subst same
          rw [if_pos rfl, ih _ restUsed (sorted_store ordered heldUsed () keysSorted),
            mem_store_iff ordered heldUsed () keysSorted, List.mem_cons]
          by_cases equal : key = held
          · simp [equal]
          · simp [equal]
        · rw [if_neg same, ih keys restUsed keysSorted, List.mem_cons]
          have other : (key, value) ≠ (held, holds) := fun equal => same (congrArg Prod.snd equal).symm
          simp [other]
  have start := loop entries [] sorted.1 sorted_nil
  simpa [keysWith] using start

theorem eraseByValue_sublist [DecidableEq Value] (value : Value) :
    (eraseByValue less value entries).1.Sublist entries := by
  unfold eraseByValue
  simp only
  generalize keysWith less value entries = keys
  induction keys generalizing entries with
  | nil => exact .refl _
  | cons key rest ih => exact ih.trans (erase_sublist key.1)

/-- The nodes with other values stay. -/
theorem mem_eraseByValue [DecidableEq Key] [DecidableEq Value] (ordered : OrderedOn less used)
    (value : Value) (sorted : Sorted less used entries) {entry : Key × Value} :
    entry ∈ (eraseByValue less value entries).1 ↔ entry ∈ entries ∧ entry.2 ≠ value := by
  have loop : ∀ (keys : Entries Key Unit) (nodes : Entries Key Value),
      (∀ key ∈ keys, used key.1) → Sorted less used nodes →
      (entry ∈ keys.foldl (fun left key => erase less key.1 left) nodes ↔
        entry ∈ nodes ∧ (entry.1, ()) ∉ keys) := by
    intro keys
    induction keys with
    | nil => simp
    | cons key rest ih =>
        intro nodes keysUsed nodesSorted
        have keyUsed := keysUsed key List.mem_cons_self
        have restUsed := fun other member => keysUsed other (List.mem_cons_of_mem _ member)
        rw [List.foldl_cons, ih _ restUsed (nodesSorted.sublist (erase_sublist key.1)),
          mem_erase ordered keyUsed nodesSorted, List.mem_cons]
        have same : (entry.1, ()) = key ↔ entry.1 = key.1 :=
          ⟨fun equal => congrArg Prod.fst equal, fun equal => Prod.ext equal rfl⟩
        rw [same]
        tauto
  have keysUsed : ∀ key ∈ keysWith less value entries, used key.1 := by
    rintro ⟨key, ⟨⟩⟩ member
    exact sorted.1 (key, value) ((mem_keysWith ordered sorted).mp member)
  rw [eraseByValue, loop _ entries keysUsed sorted, mem_keysWith ordered sorted]
  constructor
  · rintro ⟨member, apart⟩
    refine ⟨member, fun same => apart ?_⟩
    rwa [← same]
  · rintro ⟨member, other⟩
    refine ⟨member, fun there => other ?_⟩
    exact congrArg Prod.snd (sorted.unique ordered member there rfl)

/-- The values in the order of a walk. -/
def values (entries : Entries Key Value) : List Value := entries.map (·.2)

/-- An insertion adds its value once, and the value that stood under the key is gone. -/
theorem count_store [DecidableEq Value] (key : Key) (value other : Value) :
    (store less key value entries).values.count other +
        (if lookup less key entries = some other then 1 else 0) =
      entries.values.count other + if value = other then 1 else 0 := by
  induction entries with
  | nil => simp [store, lookup, values, List.count_singleton]
  | cons head rest ih =>
      obtain ⟨held, old⟩ := head
      simp only [store, lookup]
      split
      · simp only [values, List.map_cons, List.count_cons] at ih ⊢
        omega
      · split
        · simp only [values, List.map_cons, List.count_cons, beq_iff_eq, reduceCtorEq, if_false]
          omega
        · simp only [values, List.map_cons, List.count_cons, beq_iff_eq, Option.some.injEq]
          omega

theorem Sorted.nodup (ordered : OrderedOn less used) (sorted : Sorted less used entries) :
    entries.Nodup := by
  have apart : ∀ first ∈ entries, ∀ second ∈ entries, less first.1 second.1 = true →
      first ≠ second := by
    rintro first member second - before rfl
    rw [ordered.irrefl first.1 (sorted.1 first member)] at before
    cases before
  exact sorted.2.imp_of_mem fun {first second} left right => apart first left second right

/-- The other values are still there, and as often. -/
theorem count_eraseByValue [DecidableEq Key] [DecidableEq Value] (ordered : OrderedOn less used)
    (value other : Value) (sorted : Sorted less used entries) :
    (eraseByValue less value entries).1.values.count other =
      if other = value then 0 else entries.values.count other := by
  have members : ∀ entry, entry ∈ (eraseByValue less value entries).1 ↔
      entry ∈ entries.filter (·.2 ≠ value) := by
    intro entry
    rw [mem_eraseByValue ordered value sorted, List.mem_filter, decide_eq_true_eq]
  have left : (eraseByValue less value entries).1.Nodup :=
    (sorted.nodup ordered).sublist (eraseByValue_sublist value)
  have right := (sorted.nodup ordered).filter (fun entry => decide (entry.2 ≠ value))
  have same := (List.perm_ext_iff_of_nodup left right).mpr members
  rw [values, (same.map (·.2)).count_eq]
  split
  · rename_i equal
    rw [List.count_eq_zero]
    simp [equal]
  · rename_i apart
    simp only [values, List.count_eq_countP, List.countP_map, List.countP_filter]
    apply List.countP_congr
    rintro ⟨key, held⟩ -
    simp only [Function.comp_apply, beq_iff_eq, Bool.and_eq_true, decide_eq_true_eq]
    constructor
    · exact And.left
    · rintro rfl
      exact ⟨rfl, apart⟩

end Entries

/-- A map whose order is known to be a strict one on all keys. -/
structure OrderedMap (Key Value : Type) (less : Key → Key → Bool) where
  entries : Entries Key Value
  sorted : Entries.Sorted less (fun _ => True) entries

namespace OrderedMap

variable {Key Value : Type} {less : Key → Key → Bool}

def empty : OrderedMap Key Value less := ⟨[], Entries.sorted_nil⟩

def find (map : OrderedMap Key Value less) (key : Key) : Option Value :=
  map.entries.lookup less key

def store (ordered : Entries.OrderedOn less fun _ => True) (map : OrderedMap Key Value less)
    (key : Key) (value : Value) : OrderedMap Key Value less :=
  ⟨map.entries.store less key value, Entries.sorted_store ordered trivial value map.sorted⟩

/-- The node of a key is taken out. -/
def erase (map : OrderedMap Key Value less) (key : Key) : OrderedMap Key Value less :=
  ⟨map.entries.erase less key, map.sorted.sublist (Entries.erase_sublist key)⟩

/-- All nodes with a value are taken out, and their keys are counted. -/
def eraseByValue [DecidableEq Value] (map : OrderedMap Key Value less) (value : Value) :
    OrderedMap Key Value less × Nat :=
  let erased := map.entries.eraseByValue less value
  (⟨erased.1, map.sorted.sublist (Entries.eraseByValue_sublist value)⟩, erased.2)

@[simp] theorem find_empty (key : Key) : (empty : OrderedMap Key Value less).find key = none := rfl

theorem find_store [DecidableEq Key] (ordered : Entries.OrderedOn less fun _ => True)
    (map : OrderedMap Key Value less) (key other : Key) (value : Value) :
    (map.store ordered key value).find other =
      if other = key then some value else map.find other :=
  Entries.lookup_store ordered trivial trivial value map.sorted

/-- Every node is found under its key. -/
theorem find_of_mem (ordered : Entries.OrderedOn less fun _ => True)
    (map : OrderedMap Key Value less) {entry : Key × Value} (member : entry ∈ map.entries) :
    map.find entry.1 = some entry.2 :=
  Entries.lookup_of_mem ordered map.sorted member

/-- A key that is found belongs to a node. -/
theorem mem_of_find (ordered : Entries.OrderedOn less fun _ => True)
    (map : OrderedMap Key Value less) {key : Key} {value : Value}
    (found : map.find key = some value) : (key, value) ∈ map.entries := by
  obtain ⟨held, member, before, after⟩ := Entries.mem_of_lookup found
  rwa [ordered.total held key trivial trivial before after] at member

theorem find_eq_some (ordered : Entries.OrderedOn less fun _ => True)
    (map : OrderedMap Key Value less) {key : Key} {value : Value} :
    map.find key = some value ↔ (key, value) ∈ map.entries :=
  ⟨map.mem_of_find ordered, map.find_of_mem ordered⟩

/-- Only the nodes with another value are found again. -/
theorem find_eraseByValue [DecidableEq Key] [DecidableEq Value]
    (ordered : Entries.OrderedOn less fun _ => True) (map : OrderedMap Key Value less)
    (erased : Value) {key : Key} {value : Value} :
    (map.eraseByValue erased).1.find key = some value ↔
      map.find key = some value ∧ value ≠ erased := by
  rw [find_eq_some ordered, find_eq_some ordered]
  exact Entries.mem_eraseByValue ordered erased map.sorted

/-- A value that is found is counted. -/
theorem eraseByValue_count [DecidableEq Key] [DecidableEq Value]
    (ordered : Entries.OrderedOn less fun _ => True) (map : OrderedMap Key Value less) {key : Key}
    {value : Value} (found : map.find key = some value) : 0 < (map.eraseByValue value).2 := by
  have inside : (key, ()) ∈ map.entries.keysWith less value :=
    (Entries.mem_keysWith ordered map.sorted).mpr (map.mem_of_find ordered found)
  exact List.length_pos_of_mem inside

/-- The values in the order of a walk. -/
def values (map : OrderedMap Key Value less) : List Value := map.entries.values

/-- A new name adds its value once. -/
theorem count_store [DecidableEq Value] (ordered : Entries.OrderedOn less fun _ => True)
    (map : OrderedMap Key Value less) (key : Key) (value other : Value) :
    (map.store ordered key value).values.count other + (if map.find key = some other then 1 else 0) =
      map.values.count other + if value = other then 1 else 0 :=
  Entries.count_store key value other

theorem count_eraseByValue [DecidableEq Key] [DecidableEq Value]
    (ordered : Entries.OrderedOn less fun _ => True) (map : OrderedMap Key Value less)
    (value other : Value) :
    (map.eraseByValue value).1.values.count other =
      if other = value then 0 else map.values.count other :=
  Entries.count_eraseByValue ordered value other map.sorted

theorem mem_values (ordered : Entries.OrderedOn less fun _ => True)
    (map : OrderedMap Key Value less) {value : Value} :
    value ∈ map.values ↔ ∃ key, map.find key = some value := by
  rw [values, Entries.values, List.mem_map]
  constructor
  · rintro ⟨entry, member, rfl⟩
    exact ⟨entry.1, map.find_of_mem ordered member⟩
  · rintro ⟨key, found⟩
    exact ⟨_, map.mem_of_find ordered found, rfl⟩

/-- A value is counted exactly when it is there. -/
theorem eraseByValue_count_pos [DecidableEq Key] [DecidableEq Value]
    (ordered : Entries.OrderedOn less fun _ => True) (map : OrderedMap Key Value less)
    {value : Value} : 0 < (map.eraseByValue value).2 ↔ value ∈ map.values := by
  rw [map.mem_values ordered]
  constructor
  · intro counted
    obtain ⟨⟨key, ⟨⟩⟩, member⟩ := List.exists_mem_of_length_pos counted
    exact ⟨key, map.find_of_mem ordered ((Entries.mem_keysWith ordered map.sorted).mp member)⟩
  · rintro ⟨key, found⟩
    exact map.eraseByValue_count ordered found

end OrderedMap

end Verification
