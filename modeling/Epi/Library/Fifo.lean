import Mathlib

namespace Verification

variable {Address Value Answer : Type}

/-- The history of a queue of addresses. The values that were put stand behind the old addresses,
each address that was put holds its value, and every address that was taken behind the old ones gave
the answer of its value. -/
structure Fifo (holds : Address → Value → Prop) (answer : Value → Answer) (old : List Address)
    (put : List Value) (answers : List Answer) (queue : List Address) : Prop where
  history : ∃ fresh taken, old ++ fresh = taken ++ queue ∧ List.Forall₂ holds fresh put ∧
    answers.length = taken.length ∧
    answers.drop old.length = (put.take (taken.length - old.length)).map answer

namespace Fifo

variable {holds later : Address → Value → Prop} {answer : Value → Answer} {old : List Address}
  {put : List Value} {answers : List Answer} {queue : List Address}

theorem start (holds : Address → Value → Prop) (answer : Value → Answer) (old : List Address) :
    Fifo holds answer old [] [] old :=
  ⟨[], [], by simp, .nil, rfl, by simp⟩

/-- The addresses go on holding their values. -/
theorem mono (fifo : Fifo holds answer old put answers queue)
    (keeps : ∀ address value, holds address value → later address value) :
    Fifo later answer old put answers queue := by
  obtain ⟨fresh, taken, same, held, length, order⟩ := fifo.history
  exact ⟨fresh, taken, same, held.imp keeps, length, order⟩

theorem length_eq (fifo : Fifo holds answer old put answers queue) :
    old.length + put.length = answers.length + queue.length := by
  obtain ⟨fresh, taken, same, held, length, -⟩ := fifo.history
  have whole := congrArg List.length same
  rw [List.length_append, List.length_append, held.length_eq, ← length] at whole
  exact whole

/-- What was answered behind the old addresses was put first. -/
theorem order (fifo : Fifo holds answer old put answers queue) :
    answers.drop old.length = (put.take (answers.length - old.length)).map answer := by
  obtain ⟨fresh, taken, -, -, length, order⟩ := fifo.history
  rw [order, length]

/-- A new value stands behind the others. -/
theorem push (fifo : Fifo holds answer old put answers queue) {address : Address} {value : Value}
    (here : holds address value) :
    Fifo holds answer old (put ++ [value]) answers (queue ++ [address]) := by
  have counted := fifo.length_eq
  obtain ⟨fresh, taken, same, held, length, order⟩ := fifo.history
  refine ⟨fresh ++ [address], taken, ?_, ?_, length, ?_⟩
  · rw [← List.append_assoc, same, List.append_assoc]
  · exact List.rel_append held (.cons here .nil)
  · rw [order, List.take_append_of_le_length]
    omega

/-- The first address is taken, and unless it is an old one it gives the answer of its value. -/
theorem pop {address : Address} (fifo : Fifo holds answer old put answers (address :: queue))
    {given : Answer} (gives : ∀ value, holds address value → given = answer value) :
    Fifo holds answer old put (answers ++ [given]) queue := by
  obtain ⟨fresh, taken, same, held, length, order⟩ := fifo.history
  refine ⟨fresh, taken ++ [address], by rw [same, List.append_assoc]; rfl, held, ?_, ?_⟩
  · rw [List.length_append, List.length_append, length]
    rfl
  · rw [List.length_append, List.length_singleton]
    rcases Nat.lt_or_ge taken.length old.length with before | behind
    · rw [List.drop_eq_nil_of_le (by rw [List.length_append, List.length_singleton]; omega),
        Nat.sub_eq_zero_of_le before, List.take_zero, List.map_nil]
    · -- The old addresses are all taken, and this one is one of the new ones.
      have front : old <+: taken ++ address :: queue := same ▸ List.prefix_append old fresh
      obtain ⟨new, rfl⟩ : old <+: taken :=
        List.prefix_of_prefix_length_le front (List.prefix_append _ _) behind
      rw [List.append_assoc, List.append_cancel_left_eq] at same
      subst same
      have rested := List.forall₂_drop_append put new (address :: queue) held.flip
      cases found : put.drop new.length with
      | nil =>
          rw [found] at rested
          cases rested
      | cons value rest =>
          rw [found, List.forall₂_cons] at rested
          have here : put[new.length]? = some value := by
            rw [← List.head?_drop, found]
            rfl
          have count : (old ++ new).length + 1 - old.length = new.length + 1 := by
            rw [List.length_append]
            omega
          have before : (old ++ new).length - old.length = new.length := by
            rw [List.length_append]
            omega
          rw [List.drop_append_of_le_length (by rw [length]; exact behind), order, count, before,
            List.take_add_one, here, gives value rested.1]
          simp

end Fifo

end Verification
