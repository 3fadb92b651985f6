import Epi.Library.Effect

namespace Verification

/-- What a look at one item says: the answer is no, an error leaves, the process ends, or these
items are to be asked first. -/
inductive Verdict (State Item Error : Type) where
  | refuses
  | throws (error : Error)
  | aborts
  | asks (after : State) (items : List Item)

namespace Worklist

variable {State Item Error : Type}

/-- Items one after the other, up to the first no. -/
def askEach (ask : Item → Effect State Error Bool) : List Item → Effect State Error Bool
  | [] => pure true
  | item :: rest => do
      let success ← ask item
      if success then askEach ask rest else pure false

/-- The recursive evaluation of an item, with a bound on the calls that it nests. -/
def ask (look : State → Item → Verdict State Item Error) : Nat → Item → Effect State Error Bool
  | 0, _ => Effect.lift .diverges
  | fuel + 1, item => fun state =>
      match look state item with
      | .refuses => (.returns false, state)
      | .throws error => (.throws error, state)
      | .aborts => (.aborts, state)
      | .asks after items => askEach (ask look fuel) items after

/-- The items come to an end: none of them ends the process, and there are finitely many looks. -/
inductive Ends (look : State → Item → Verdict State Item Error) : State → List Item → Prop
  | nothing (state : State) : Ends look state []
  | refuses {state : State} {item : Item} (rest : List Item)
      (verdict : look state item = .refuses) : Ends look state (item :: rest)
  | throws {state : State} {item : Item} {error : Error} (rest : List Item)
      (verdict : look state item = .throws error) : Ends look state (item :: rest)
  | asks {state after : State} {item : Item} {items rest : List Item}
      (verdict : look state item = .asks after items) (later : Ends look after (items ++ rest)) :
      Ends look state (item :: rest)

variable {look : State → Item → Verdict State Item Error}

theorem askEach_cons (call : Item → Effect State Error Bool) (item : Item) (rest : List Item) :
    askEach call (item :: rest) = (do
      let success ← call item
      if success then askEach call rest else pure false) := rfl

theorem ask_run (fuel : Nat) (item : Item) (state : State) :
    ask look (fuel + 1) item state =
      match look state item with
      | .refuses => (.returns false, state)
      | .throws error => (.throws error, state)
      | .aborts => (.aborts, state)
      | .asks after items => askEach (ask look fuel) items after := rfl

theorem ask_of_asks {state after : State} {item : Item} {items : List Item}
    (verdict : look state item = .asks after items) (fuel : Nat) :
    ask look (fuel + 1) item state = askEach (ask look fuel) items after := by
  rw [ask_run, verdict]

/-- The items of two lists are asked one list after the other. -/
theorem askEach_append (call : Item → Effect State Error Bool) (items rest : List Item) :
    askEach call (items ++ rest) = (do
      let success ← askEach call items
      if success then askEach call rest else pure false) := by
  induction items with
  | nil => rfl
  | cons item more ih =>
      rw [List.cons_append, askEach_cons, askEach_cons, ih]
      funext state
      rw [Effect.bind_run, Effect.bind_run, Effect.bind_run]
      rcases call item state with ⟨outcome, after⟩
      cases outcome with
      | returns success => cases success <;> rfl
      | _ => rfl

/-- One item in a list is asked as it is. -/
theorem askEach_singleton (call : Item → Effect State Error Bool) (item : Item) :
    askEach call [item] = call item := by
  funext state
  rw [askEach_cons, Effect.bind_run]
  rcases call item state with ⟨outcome, after⟩
  cases outcome with
  | returns success => cases success <;> rfl
  | _ => rfl

/-- Calls that agree where they come back agree on a list. -/
theorem askEach_mono {call deeper : Item → Effect State Error Bool}
    (agree : ∀ item state, (call item state).1 ≠ .diverges → deeper item state = call item state)
    (items : List Item) (state : State) (back : (askEach call items state).1 ≠ .diverges) :
    askEach deeper items state = askEach call items state := by
  induction items generalizing state with
  | nil => rfl
  | cons item rest ih =>
      rw [askEach_cons, Effect.bind_run] at back
      rw [askEach_cons, askEach_cons, Effect.bind_run, Effect.bind_run]
      have first : (call item state).1 ≠ .diverges := by
        intro lost
        rcases ran : call item state with ⟨outcome, after⟩
        rw [ran] at back lost
        have same : outcome = .diverges := lost
        subst same
        exact back rfl
      rw [agree item state first]
      rcases ran : call item state with ⟨outcome, after⟩
      rw [ran] at back
      cases outcome with
      | returns success =>
          cases success with
          | true => exact ih after back
          | false => rfl
      | _ => rfl

/-- A deeper bound does not change an evaluation that comes back. -/
theorem ask_succ (fuel : Nat) (item : Item) (state : State)
    (back : (ask look fuel item state).1 ≠ .diverges) :
    ask look (fuel + 1) item state = ask look fuel item state := by
  induction fuel generalizing item state with
  | zero => exact absurd rfl back
  | succ fuel ih =>
      rw [ask_run] at back
      rw [ask_run, ask_run]
      cases verdict : look state item with
      | asks after items =>
          rw [verdict] at back
          exact askEach_mono (fun item state => ih item state) items after back
      | _ => rfl

/-- The evaluation answers, or an error leaves it. -/
def Settled (outcome : Outcome Error Bool) : Prop :=
  (∃ success, outcome = .returns success) ∨ ∃ error, outcome = .throws error

theorem Settled.back {outcome : Outcome Error Bool} (settled : Settled outcome) :
    outcome ≠ .diverges := by
  rintro rfl
  rcases settled with ⟨success, same⟩ | ⟨error, same⟩ <;> cases same

/-- The items that an evaluation was asked for end if the rest does after a yes. -/
def Leads (look : State → Item → Verdict State Item Error) (items : List Item) (state : State)
    (ended : Outcome Error Bool × State) : Prop :=
  ∀ rest, Settled ended.1 → (ended.1 = .returns true → Ends look ended.2 rest) →
    Ends look state (items ++ rest)

theorem askEach_leads {call : Item → Effect State Error Bool}
    (leads : ∀ item state, Leads look [item] state (call item state)) (items : List Item)
    (state : State) : Leads look items state (askEach call items state) := by
  induction items generalizing state with
  | nil => exact fun rest _ later => later rfl
  | cons item more ih =>
      intro rest settled later
      have here := leads item state (more ++ rest)
      rw [askEach_cons, Effect.bind_run] at settled later
      rcases ran : call item state with ⟨outcome, after⟩
      rw [ran] at here settled later
      apply here
      · cases outcome with
        | returns success => exact .inl ⟨success, rfl⟩
        | throws error => exact .inr ⟨error, rfl⟩
        | aborts => exact settled
        | diverges => exact settled
      · intro yes
        have same : outcome = .returns true := yes
        subst same
        exact ih after rest settled later

/-- An evaluation that settles comes to an end as a list of items. -/
theorem ask_leads (fuel : Nat) (item : Item) (state : State) :
    Leads look [item] state (ask look fuel item state) := by
  induction fuel generalizing item state with
  | zero => exact fun rest settled _ => absurd rfl settled.back
  | succ fuel ih =>
      intro rest settled later
      rw [ask_run] at settled later
      cases verdict : look state item with
      | refuses => exact .refuses rest verdict
      | throws error => exact .throws rest verdict
      | aborts =>
          rw [verdict] at settled
          rcases settled with ⟨success, same⟩ | ⟨error, same⟩ <;> cases same
      | asks after items =>
          rw [verdict] at settled later
          exact .asks verdict (askEach_leads ih items after rest settled later)

/-- Items that come to an end are evaluated with some bound. -/
theorem settled_of_ends {items : List Item} {state : State} (ends : Ends look state items) :
    ∃ fuel, Settled (askEach (ask look fuel) items state).1 := by
  induction ends with
  | nothing state => exact ⟨0, .inl ⟨true, rfl⟩⟩
  | @refuses state item rest verdict =>
      refine ⟨1, .inl ⟨false, ?_⟩⟩
      rw [askEach_cons, Effect.bind_run, ask_run, verdict]
      rfl
  | @throws state item error rest verdict =>
      refine ⟨1, .inr ⟨error, ?_⟩⟩
      rw [askEach_cons, Effect.bind_run, ask_run, verdict]
  | @asks state after item items rest verdict later ih =>
      obtain ⟨fuel, settled⟩ := ih
      refine ⟨fuel + 1, ?_⟩
      rw [askEach_append, Effect.bind_run] at settled
      rcases ran : askEach (ask look fuel) items after with ⟨outcome, middle⟩
      rw [ran] at settled
      rw [askEach_cons, Effect.bind_run, ask_of_asks verdict, ran]
      cases outcome with
      | returns success =>
          cases success with
          | false => exact .inl ⟨false, rfl⟩
          | true =>
              -- The rest was evaluated with one call less.
              have done : Settled (askEach (ask look fuel) rest middle).1 := settled
              have deeper := askEach_mono (fun item state => ask_succ fuel item state) rest middle
                done.back
              rw [← deeper] at done
              exact done
      | throws error => exact settled
      | aborts => exact settled
      | diverges => exact settled

/-- An evaluation settles with some bound exactly when its item comes to an end. -/
theorem settled_iff_ends {item : Item} {state : State} :
    (∃ fuel, Settled (ask look fuel item state).1) ↔ Ends look state [item] := by
  constructor
  · rintro ⟨fuel, settled⟩
    exact ask_leads fuel item state [] settled fun _ => .nothing _
  · intro ends
    obtain ⟨fuel, settled⟩ := settled_of_ends ends
    rw [askEach_singleton] at settled
    exact ⟨fuel, settled⟩

/-- What holds of each evaluation holds of a list of them: the errors are listed ones, and good
states are kept. -/
theorem askEach_sound {Listed : Error → Prop} {Good : State → Prop} {Fit : Item → Prop}
    {call : Item → Effect State Error Bool}
    (sound : ∀ item state, Fit item → Good state → Good (call item state).2 ∧
      ∀ error, (call item state).1 = .throws error → Listed error)
    {items : List Item} {state : State} (fits : ∀ item ∈ items, Fit item) (good : Good state) :
    Good (askEach call items state).2 ∧
      ∀ error, (askEach call items state).1 = .throws error → Listed error := by
  induction items generalizing state with
  | nil => exact ⟨good, nofun⟩
  | cons item rest ih =>
      have here := sound item state (fits item List.mem_cons_self) good
      rw [askEach_cons, Effect.bind_run]
      rcases ran : call item state with ⟨outcome, after⟩
      rw [ran] at here
      cases outcome with
      | returns success =>
          cases success with
          | true => exact ih (fun other member => fits other (List.mem_cons_of_mem _ member)) here.1
          | false => exact ⟨here.1, nofun⟩
      | throws error => exact here
      | aborts => exact here
      | diverges => exact here

/-- What every look keeps an evaluation keeps, and its errors are those of the looks. -/
theorem ask_sound {Listed : Error → Prop} {Good : State → Prop} {Fit : Item → Prop}
    (looks : ∀ state item error, look state item = .throws error → Listed error)
    (keeps : ∀ state item after items, Good state → Fit item →
      look state item = .asks after items → Good after ∧ ∀ asked ∈ items, Fit asked)
    (fuel : Nat) (item : Item) (state : State) (fit : Fit item) (good : Good state) :
    Good (ask look fuel item state).2 ∧
      ∀ error, (ask look fuel item state).1 = .throws error → Listed error := by
  induction fuel generalizing item state with
  | zero => exact ⟨good, nofun⟩
  | succ fuel ih =>
      rw [ask_run]
      cases verdict : look state item with
      | refuses => exact ⟨good, nofun⟩
      | throws error =>
          refine ⟨good, ?_⟩
          rintro _ same
          cases same
          exact looks state item error verdict
      | aborts => exact ⟨good, nofun⟩
      | asks after items =>
          obtain ⟨afterGood, fits⟩ := keeps state item after items good fit verdict
          exact askEach_sound ih fits afterGood

end Worklist

end Verification
