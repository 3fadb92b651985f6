import Mathlib

namespace Verification

variable {Frame Address Value Answer : Type}

/-- The values that were sent to a place. The first ones were received there and gave their answers,
the next ones wait in its queue, and the last ones are on the wire. -/
structure Relay (carries : Frame → Value → Prop) (holds : Address → Value → Prop)
    (answer : Value → Answer) (sent : List Value) (answers : List Answer) (queue : List Address)
    (wire : List Frame) : Prop where
  history : ∃ received waiting flying, sent = received ++ (waiting ++ flying) ∧
    answers = received.map answer ∧ List.Forall₂ holds queue waiting ∧
    List.Forall₂ carries wire flying

namespace Relay

variable {carries : Frame → Value → Prop} {holds later : Address → Value → Prop}
  {answer : Value → Answer} {sent : List Value} {answers : List Answer} {queue : List Address}
  {wire : List Frame}

theorem start (carries : Frame → Value → Prop) (holds : Address → Value → Prop)
    (answer : Value → Answer) : Relay carries holds answer [] [] [] [] :=
  ⟨[], [], [], rfl, rfl, .nil, .nil⟩

/-- The addresses go on holding their values. -/
theorem mono (relay : Relay carries holds answer sent answers queue wire)
    (keeps : ∀ address value, holds address value → later address value) :
    Relay carries later answer sent answers queue wire := by
  obtain ⟨received, waiting, flying, order, answered, queued, carried⟩ := relay.history
  exact ⟨received, waiting, flying, order, answered, queued.imp keeps, carried⟩

/-- A new value is the last one on the wire. -/
theorem send (relay : Relay carries holds answer sent answers queue wire) {frame : Frame}
    {value : Value} (fits : carries frame value) :
    Relay carries holds answer (sent ++ [value]) answers queue (wire ++ [frame]) := by
  obtain ⟨received, waiting, flying, order, answered, queued, carried⟩ := relay.history
  refine ⟨received, waiting, flying ++ [value], ?_, answered, queued, ?_⟩
  · rw [order, List.append_assoc, List.append_assoc]
  · exact List.rel_append carried (.cons fits .nil)

/-- The first frame of the wire becomes the last address of the queue. -/
theorem arrive {frame : Frame} {address : Address}
    (relay : Relay carries holds answer sent answers queue (frame :: wire))
    (becomes : ∀ value, carries frame value → holds address value) :
    Relay carries holds answer sent answers (queue ++ [address]) wire := by
  obtain ⟨received, waiting, flying, order, answered, queued, carried⟩ := relay.history
  cases carried with
  | @cons _ value _ rest fits others =>
      refine ⟨received, waiting ++ [value], rest, ?_, answered, ?_, others⟩
      · rw [order, List.append_assoc, List.singleton_append]
      · exact List.rel_append queued (.cons (becomes value fits) .nil)

/-- The first address of the queue gives the answer of its value. -/
theorem receive {address : Address} {given : Answer}
    (relay : Relay carries holds answer sent answers (address :: queue) wire)
    (gives : ∀ value, holds address value → given = answer value) :
    Relay carries holds answer sent (answers ++ [given]) queue wire := by
  obtain ⟨received, waiting, flying, order, answered, queued, carried⟩ := relay.history
  cases queued with
  | @cons _ value _ rest here others =>
      refine ⟨received ++ [value], rest, flying, ?_, ?_, others, carried⟩
      · rw [order, List.append_assoc, List.singleton_append, List.cons_append]
      · rw [answered, gives value here, List.map_append, List.map_singleton]

theorem length_eq (relay : Relay carries holds answer sent answers queue wire) :
    sent.length = answers.length + queue.length + wire.length := by
  obtain ⟨received, waiting, flying, order, answered, queued, carried⟩ := relay.history
  rw [order, answered, queued.length_eq, carried.length_eq, List.length_append, List.length_append,
    List.length_map, Nat.add_assoc]

/-- The answers are those of the values that were sent first. -/
theorem order (relay : Relay carries holds answer sent answers queue wire) :
    answers = (sent.take answers.length).map answer := by
  obtain ⟨received, waiting, flying, order, answered, -, -⟩ := relay.history
  rw [order, answered, List.length_map, List.take_left]

end Relay

end Verification
