import Mathlib

namespace Verification

variable {Taker Item : Type}

/-- Pairs of different takers and different places of the items, each taker accepting its item. -/
structure Matching (accepts : Taker → Item → Prop) (takers : Finset Taker) (items : List Item)
    (pairs : List (Taker × Item)) : Prop where
  distinct : (pairs.map Prod.fst).Nodup
  present : ∀ pair ∈ pairs, pair.1 ∈ takers
  inside : (pairs.map Prod.snd).Subperm items
  accepted : ∀ pair ∈ pairs, accepts pair.1 pair.2

/-- There are takers enough for all new items and for every matching with the old ones. -/
def EnoughTakers (accepts : Taker → Item → Prop) (takers : Finset Taker) (old new : List Item) :
    Prop :=
  ∀ pairs, Matching accepts takers old pairs → new.length + pairs.length ≤ takers.card

/-- The acceptance of all takers but one is as before. -/
def SameBut (taker : Taker) (takers : Finset Taker) (accepts before : Taker → Item → Prop) : Prop :=
  ∀ other ∈ takers, other ≠ taker → ∀ item, accepts other item → before other item

namespace Matching

variable {accepts before : Taker → Item → Prop} {takers : Finset Taker}
  {items fewer : List Item} {pairs : List (Taker × Item)} {taker : Taker} {item : Item}

variable [DecidableEq Taker]

/-- A matching has at most one pair for each taker. -/
theorem length_le (matching : Matching accepts takers items pairs) :
    pairs.length ≤ takers.card := by
  have inside : (pairs.map Prod.fst).toFinset ⊆ takers := by
    intro taker member
    rw [List.mem_toFinset] at member
    obtain ⟨pair, here, rfl⟩ := List.mem_map.mp member
    exact matching.present pair here
  have counted := Finset.card_le_card inside
  rwa [List.toFinset_card_of_nodup matching.distinct, List.length_map] at counted

/-- A taker that accepts none of the items is not matched. -/
theorem of_rejecting (matching : Matching accepts (insert taker takers) items pairs)
    (rejects : ∀ item ∈ items, ¬ accepts taker item)
    (same : SameBut taker takers accepts before) :
    Matching before (takers.erase taker) items pairs := by
  have apart : ∀ pair ∈ pairs, pair.1 ≠ taker := by
    intro pair member equal
    have accepted := matching.accepted pair member
    rw [equal] at accepted
    exact rejects pair.2 (matching.inside.subset (List.mem_map_of_mem member)) accepted
  have known : ∀ pair ∈ pairs, pair.1 ∈ takers := fun pair member =>
    Finset.mem_of_mem_insert_of_ne (matching.present pair member) (apart pair member)
  constructor
  · exact matching.distinct
  · exact fun pair member => Finset.mem_erase.mpr ⟨apart pair member, known pair member⟩
  · exact matching.inside
  · exact fun pair member => same pair.1 (known pair member) (apart pair member) pair.2
      (matching.accepted pair member)

/-- One more taker gives at most one more pair. -/
theorem of_insert (matching : Matching accepts (insert taker takers) items pairs)
    (same : SameBut taker takers accepts before) :
    ∃ others, Matching before (takers.erase taker) items others ∧
      pairs.length ≤ others.length + 1 := by
  refine ⟨pairs.filter (·.1 ≠ taker), ?_, ?_⟩
  · have kept : ∀ pair ∈ pairs.filter (·.1 ≠ taker), pair ∈ pairs ∧ pair.1 ≠ taker := by
      intro pair member
      simpa using List.mem_filter.mp member
    have known : ∀ pair ∈ pairs.filter (·.1 ≠ taker), pair.1 ∈ takers := fun pair member =>
      Finset.mem_of_mem_insert_of_ne (matching.present pair (kept pair member).1)
        (kept pair member).2
    constructor
    · exact matching.distinct.sublist (List.filter_sublist.map Prod.fst)
    · exact fun pair member => Finset.mem_erase.mpr ⟨(kept pair member).2, known pair member⟩
    · exact (List.filter_sublist.map Prod.snd).subperm.trans matching.inside
    · exact fun pair member => same pair.1 (known pair member) (kept pair member).2 pair.2
        (matching.accepted pair (kept pair member).1)
  · have once : (pairs.filter (·.1 = taker)).length ≤ 1 := by
      have distinct : ((pairs.filter (·.1 = taker)).map Prod.fst).Nodup :=
        matching.distinct.sublist (List.filter_sublist.map Prod.fst)
      have equal : ∀ other ∈ (pairs.filter (·.1 = taker)).map Prod.fst, other = taker := by
        intro other member
        obtain ⟨pair, here, rfl⟩ := List.mem_map.mp member
        simpa using (List.mem_filter.mp here).2
      have few : (List.map Prod.fst (pairs.filter (·.1 = taker))).toFinset ⊆ {taker} := by
        intro other member
        rw [List.mem_toFinset] at member
        exact Finset.mem_singleton.mpr (equal other member)
      have counted := Finset.card_le_card few
      rwa [List.toFinset_card_of_nodup distinct, List.length_map, Finset.card_singleton] at counted
    have split := List.length_eq_length_filter_add (l := pairs) (·.1 = taker)
    simp only [← decide_not] at split
    have flipped : pairs.filter (fun pair => decide ¬ pair.1 = taker) =
        pairs.filter (·.1 ≠ taker) := rfl
    rw [flipped] at split
    omega

/-- A taker that is not matched and an item that is not matched make one more pair. -/
theorem cons (matching : Matching before (takers.erase taker) fewer pairs)
    (present : taker ∈ takers) (item_accepted : accepts taker item)
    (room : (item :: fewer).Subperm items)
    (same : SameBut taker takers before accepts) :
    Matching accepts takers items ((taker, item) :: pairs) := by
  constructor
  · rw [List.map_cons, List.nodup_cons]
    refine ⟨?_, matching.distinct⟩
    intro member
    obtain ⟨pair, here, equal⟩ := List.mem_map.mp member
    have apart := (Finset.mem_erase.mp (matching.present pair here)).1
    exact apart equal
  · intro pair member
    rcases List.mem_cons.mp member with rfl | inside
    · exact present
    · exact Finset.mem_of_mem_erase (matching.present pair inside)
  · rw [List.map_cons]
    exact ((List.subperm_cons item).mpr matching.inside).trans room
  · intro pair member
    rcases List.mem_cons.mp member with rfl | inside
    · exact item_accepted
    · obtain ⟨apart, known⟩ := Finset.mem_erase.mp (matching.present pair inside)
      exact same pair.1 known apart pair.2 (matching.accepted pair inside)

/-- A matching stays one with more takers and more items. -/
theorem mono (matching : Matching before (takers.erase taker) fewer pairs)
    (room : fewer.Subperm items)
    (same : SameBut taker takers before accepts) :
    Matching accepts takers items pairs := by
  have known := fun pair member => Finset.mem_erase.mp (matching.present pair member)
  constructor
  · exact matching.distinct
  · exact fun pair member => (known pair member).2
  · exact matching.inside.trans room
  · exact fun pair member => same pair.1 (known pair member).2 (known pair member).1 pair.2
      (matching.accepted pair member)

end Matching

namespace EnoughTakers

variable {accepts before : Taker → Item → Prop} {takers : Finset Taker}
  {old fewer new left : List Item} {taker other : Taker} {item : Item} [DecidableEq Taker]

/-- Without new items the takers are always enough. -/
theorem of_no_new : EnoughTakers accepts takers old [] := by
  intro pairs matching
  rw [List.length_nil, Nat.zero_add]
  exact matching.length_le

/-- One more taker, whatever it accepts. -/
theorem insert_taker (enough : EnoughTakers before takers old new) (absent : taker ∉ takers)
    (same : SameBut taker takers accepts before) :
    EnoughTakers accepts (insert taker takers) old new := by
  intro pairs matching
  obtain ⟨others, fewer, bound⟩ := matching.of_insert same
  rw [Finset.erase_eq_of_notMem absent] at fewer
  have counted := enough others fewer
  rw [Finset.card_insert_of_notMem absent]
  omega

/-- One more taker for one more item, if it accepts none of the old ones. -/
theorem insert_rejecting (enough : EnoughTakers before takers old new) (absent : taker ∉ takers)
    (rejects : ∀ item ∈ old, ¬ accepts taker item)
    (same : SameBut taker takers accepts before) (item : Item) :
    EnoughTakers accepts (insert taker takers) old (new ++ [item]) := by
  intro pairs matching
  have kept := matching.of_rejecting rejects same
  rw [Finset.erase_eq_of_notMem absent] at kept
  have counted := enough pairs kept
  rw [Finset.card_insert_of_notMem absent, List.length_append, List.length_singleton]
  omega

/-- A taker leaves with an old item. -/
theorem take_old (enough : EnoughTakers before takers old new) (present : taker ∈ takers)
    (accepted : before taker item) (room : (item :: fewer).Subperm old)
    (less : left.length ≤ new.length) (same : SameBut taker takers accepts before) :
    EnoughTakers accepts (takers.erase taker) fewer left := by
  intro pairs matching
  have counted := enough _ (matching.cons present accepted room same)
  rw [List.length_cons] at counted
  rw [Finset.card_erase_of_mem present]
  omega

/-- A taker leaves with a new item. -/
theorem take_new (enough : EnoughTakers before takers old new) (present : taker ∈ takers)
    (room : fewer.Subperm old) (less : left.length + 1 ≤ new.length)
    (same : SameBut taker takers accepts before) :
    EnoughTakers accepts (takers.erase taker) fewer left := by
  intro pairs matching
  have counted := enough _ (matching.mono room same)
  rw [Finset.card_erase_of_mem present]
  omega

/-- A taker is replaced by one that accepts none of the old items. -/
theorem replace (enough : EnoughTakers before takers old new) (present : taker ∈ takers)
    (absent : other ∉ takers) (rejects : ∀ item ∈ old, ¬ accepts other item)
    (same : ∀ third ∈ takers, third ≠ taker → third ≠ other → ∀ item, accepts third item →
      before third item) :
    EnoughTakers accepts (insert other (takers.erase taker)) old new := by
  intro pairs matching
  have away : other ∉ takers.erase taker := fun member => absent (Finset.mem_of_mem_erase member)
  have kept : Matching before (takers.erase taker) old pairs := by
    rw [← Finset.erase_eq_of_notMem away]
    apply matching.of_rejecting rejects
    intro third member apart item accepted
    obtain ⟨alive, known⟩ := Finset.mem_erase.mp member
    exact same third known alive apart item accepted
  have counted := enough pairs (kept.mono (List.Subperm.refl old) fun _ _ _ _ accepted => accepted)
  rw [Finset.card_insert_of_notMem away, Finset.card_erase_of_mem present]
  have positive := Finset.card_pos.mpr ⟨taker, present⟩
  omega

end EnoughTakers

end Verification
