import Mathlib

namespace Verification

variable {Answer : Type}

/-- Questions are numbered as they are asked, and an answer does not say to which question it belongs.
Every question is answered once, the answers are taken in the order in which they arrive, none of
them before its question was asked, and a question whose predecessors were all served got its own
answer. -/
structure Exchange (gives : Nat → Answer → Prop) (asked : Nat) (working arrived : List Nat)
    (served : List (Nat × Answer)) : Prop where
  complete : (arrived ++ working).Perm (List.range asked)
  taken : List.Forall₂ (fun question owner => owner ≤ question.1 ∧ gives owner question.2) served
    (arrived.take served.length)
  own : ∀ number answer, (number, answer) ∈ served →
    (∀ earlier < number, ∃ other, (earlier, other) ∈ served) → gives number answer

namespace Exchange

variable {gives : Nat → Answer → Prop} {asked : Nat} {working arrived : List Nat}
  {served : List (Nat × Answer)}

theorem start (gives : Nat → Answer → Prop) : Exchange gives 0 [] [] [] where
  complete := .nil
  taken := .nil
  own _ _ member := absurd member List.not_mem_nil

/-- A new question is not answered yet. -/
theorem ask (exchange : Exchange gives asked working arrived served) :
    Exchange gives (asked + 1) (working ++ [asked]) arrived served where
  complete := by
    rw [List.range_succ, ← List.append_assoc]
    exact exchange.complete.append_right [asked]
  taken := exchange.taken
  own := exchange.own

theorem arrived_nodup (exchange : Exchange gives asked working arrived served) :
    arrived.Nodup := by
  have distinct := exchange.complete.nodup_iff.mpr List.nodup_range
  exact (List.nodup_append.mp distinct).1

theorem arrived_lt (exchange : Exchange gives asked working arrived served) :
    ∀ owner ∈ arrived, owner < asked := by
  intro owner member
  exact List.mem_range.mp (exchange.complete.mem_iff.mp (List.mem_append_left _ member))

theorem length_le (exchange : Exchange gives asked working arrived served) :
    served.length ≤ arrived.length := by
  have size := exchange.taken.length_eq
  rw [List.length_take] at size
  omega

/-- An answer stands behind the ones that arrived before it. -/
theorem arrive (exchange : Exchange gives asked working arrived served) {number : Nat}
    (pending : number ∈ working) :
    Exchange gives asked (working.erase number) (arrived ++ [number]) served where
  complete := by
    have moved := (List.perm_cons_erase pending).symm.append_left arrived
    rw [List.append_assoc]
    exact moved.trans exchange.complete
  taken := by
    rw [List.take_append_of_le_length exchange.length_le]
    exact exchange.taken
  own := exchange.own

/-- When every earlier question was served, the answers that were taken are theirs. -/
theorem owner_eq (exchange : Exchange gives asked working arrived served) {number owner : Nat}
    {rest : List Nat} (before : ∀ question ∈ served, question.1 < number)
    (earlier : ∀ earlier < number, ∃ other, (earlier, other) ∈ served)
    (waiting : arrived.drop served.length = owner :: rest) (bound : owner ≤ number) :
    owner = number := by
  have whole : arrived = arrived.take served.length ++ owner :: rest := by
    rw [← waiting, List.take_append_drop]
  have distinct := exchange.arrived_nodup
  rw [whole, List.nodup_append] at distinct
  obtain ⟨different, -, apart⟩ := distinct
  have below : ∀ other ∈ arrived.take served.length, other < number := by
    have bounded : List.Forall₂ (fun other _ => other < number ∧ True)
        (arrived.take served.length) served := by
      apply List.Forall₂.flip
      apply ((List.forall₂_and_left served _).mpr ⟨before, exchange.taken⟩).imp
      intro question other known
      exact ⟨known.2.1.trans_lt known.1, trivial⟩
    exact ((List.forall₂_and_left _ _).mp bounded).1
  have enough : number ≤ (arrived.take served.length).length := by
    have listed : List.range number ⊆ served.map Prod.fst := by
      intro question member
      obtain ⟨other, inside⟩ := earlier question (List.mem_range.mp member)
      exact List.mem_map_of_mem inside
    have size := (List.nodup_range.subperm listed).length_le
    rw [List.length_range, List.length_map] at size
    rwa [← exchange.taken.length_eq]
  have full : (arrived.take served.length).toFinset = Finset.range number := by
    apply Finset.eq_of_subset_of_card_le
    · intro other member
      exact Finset.mem_range.mpr (below other (List.mem_toFinset.mp member))
    · rwa [Finset.card_range, List.toFinset_card_of_nodup different]
  by_contra other
  have inside : owner ∈ (arrived.take served.length).toFinset := by
    rw [full, Finset.mem_range]
    omega
  exact apart owner (List.mem_toFinset.mp inside) owner List.mem_cons_self rfl

/-- The last question takes the first answer that waits. -/
theorem serve (exchange : Exchange gives asked working arrived served) {number owner : Nat}
    {rest : List Nat} {answer : Answer} (last : number + 1 = asked)
    (before : ∀ question ∈ served, question.1 < number)
    (waiting : arrived.drop served.length = owner :: rest) (given : gives owner answer) :
    Exchange gives asked working arrived (served ++ [(number, answer)]) := by
  have here : arrived[served.length]? = some owner := by
    rw [← List.head?_drop, waiting]
    rfl
  have bound : owner ≤ number := by
    have issued := exchange.arrived_lt owner (List.mem_of_getElem? here)
    omega
  refine ⟨exchange.complete, ?_, ?_⟩
  · rw [List.length_append, List.length_singleton, List.take_add_one, here]
    exact List.rel_append exchange.taken (.cons ⟨bound, given⟩ .nil)
  · intro question other member earlier
    rcases List.mem_append.mp member with old | new
    · apply exchange.own question other old
      intro smaller less
      obtain ⟨known, inside⟩ := earlier smaller less
      rcases List.mem_append.mp inside with there | late
      · exact ⟨known, there⟩
      · have later := before _ old
        cases List.mem_singleton.mp late
        omega
    · cases List.mem_singleton.mp new
      have known : ∀ earlier < number, ∃ other, (earlier, other) ∈ served := by
        intro smaller less
        obtain ⟨known, inside⟩ := earlier smaller less
        rcases List.mem_append.mp inside with there | late
        · exact ⟨known, there⟩
        · cases List.mem_singleton.mp late
          omega
      rw [← exchange.owner_eq before known waiting bound]
      exact given

/-- The other answers go on waiting. -/
theorem drop_served {owner : Nat} {rest : List Nat}
    (waiting : arrived.drop served.length = owner :: rest) (question : Nat × Answer) :
    arrived.drop (served ++ [question]).length = rest := by
  rw [List.length_append, List.length_singleton, ← List.drop_drop, waiting]
  rfl

end Exchange

end Verification
