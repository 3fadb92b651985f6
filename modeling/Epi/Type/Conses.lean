import Epi.Type.Tails

namespace Epi.Type

open Verification

namespace Pool

/-- There is an element before the tail, and the tail is no list. -/
def IsCons (pool : Pool) (elems : List Address) : Prop :=
  1 ≤ arity elems ∧ ∃ tail ∈ elems.getLast?, pool.isConsList tail = false

/-- Every valid list is a cons. -/
def Consed (pool : Pool) : Prop :=
  ∀ (this : Address) (elems : List Address),
    pool[this]? = some (Object.erlConsList true elems) → pool.IsCons elems

/-- A list without elements that is not closed yet. -/
def OpenEmpty (pool : Pool) (this : Address) : Prop :=
  pool[this]? = some (.erlConsList false [])

end Pool

/-- The call gives a tail to a list without elements. -/
def PoolCall.ClosesEmpty (pool : Pool) : PoolCall → Prop
  | .newConsListOf elems => elems = []
  | .initList this elems => pool.OpenEmpty this ∧ elems = []
  | .close this elem => pool.OpenEmpty this ∧
      ∃ tail ∈ elem, pool.valid tail = true ∧ pool.isConsList tail = false
  | .closeProper this => pool.OpenEmpty this
  | _ => False

namespace Pool

/-- Every valid list has an element and a tail. -/
def Long (pool : Pool) : Prop :=
  ∀ (this : Address) (elems : List Address),
    pool[this]? = some (Object.erlConsList true elems) → 2 ≤ elems.length

section Long

variable {pool : Pool} {this : Address} {elems : List Address}

theorem consed_iff_long (sound : Sound pool) : Consed pool ↔ Long pool := by
  refine forall₃_congr fun this elems found => ?_
  have closed : ∃ tail ∈ elems.getLast?, pool.isConsList tail = false :=
    sound.closed this _ found
  rw [IsCons, and_iff_left closed]
  obtain ⟨tail, ends, -⟩ := closed
  have some := List.length_pos_iff.mpr (List.ne_nil_of_mem (List.mem_of_getLast? ends))
  rw [arity, unsignedPred, if_neg (by omega)]
  omega

/-- A valid list is the same list after the call. -/
theorem long_of_changes {after : Pool} (changes : Changes pool after) (long : Long after) :
    Long pool := by
  intro this elems found
  have valid : pool.valid this = true := valid_iff.mpr ⟨_, found, rfl⟩
  exact long this elems ((changes.keeps valid).trans found)

theorem Long.append (long : Long pool) {object : Object}
    (longer : ∀ elems, object = .erlConsList true elems → 2 ≤ elems.length) :
    Long (pool ++ [object]) := by
  intro this elems found
  rw [List.getElem?_append] at found
  split at found
  · exact long this elems found
  · obtain ⟨inside, same⟩ := List.getElem?_eq_some_iff.mp found
    rw [List.getElem_singleton] at same
    exact longer elems same

theorem Long.set (long : Long pool) (this : Address) {object : Object}
    (longer : ∀ elems, object = .erlConsList true elems → 2 ≤ elems.length) :
    Long (pool.set this object) := by
  intro other elems found
  rw [List.getElem?_set] at found
  split at found
  · split at found
    · exact longer elems (Option.some.inj found)
    · cases found
  · exact long other elems found

theorem long_alloc (long : Long pool) {object : Object}
    (incomplete : object.isConsList = true → object.isValid = false) :
    Long (alloc object pool).2 := by
  apply long.append
  rintro elems rfl
  cases incomplete rfl

theorem long_construct {object : Object} (long : Long pool) {init : Address → Method Pool Unit}
    (kept : Long (init pool.length (pool ++ [object])).2) :
    Long (construct object init pool).2 := by
  unfold construct
  split
  · rename_i after ran
    rwa [ran] at kept
  all_goals exact long

theorem long_initSimple (long : Long pool) (arguments : SimpleArguments) :
    Long (initSimple this arguments pool).2 := by
  unfold initSimple
  split
  · split
    · exact long
    · split
      · exact long
      · split
        · exact long.set this fun _ same => by cases same
        all_goals exact long
  · exact long

theorem long_initArity (long : Long pool) (arity : Nat) : Long (initArity this arity pool).2 := by
  unfold initArity
  split
  · split
    · exact long
    · exact long.set this fun _ same => by cases same
  · exact long

theorem long_initElement (long : Long pool) (elem : Option Address) :
    Long (initElement this elem pool).2 := by
  unfold initElement
  split
  · split
    · exact long
    · split
      · exact long
      · split
        · exact long
        · split
          · exact long.set this fun _ same => by cases same
          · exact long
  · exact long

theorem long_initElements (long : Long pool) (elems : List (Option Address)) :
    Long (initElements this elems pool).2 := by
  have each : ∀ (elems : List (Option Address)) (pool : Pool), Long pool →
      Long (initEach this elems pool).2 := by
    intro elems
    induction elems with
    | nil => exact fun pool long => long
    | cons elem rest ih =>
        exact fun pool long => Effect.after_bind (long_initElement long elem) fun _ => ih
  exact Effect.after_bind (long_initArity long elems.length) fun _ after => each elems after

theorem long_addElement (long : Long pool) (elem : Option Address) :
    Long (addElement this elem pool).2 := by
  unfold addElement
  split
  · rename_i mInitialized mElementVector found
    split
    · exact long
    · split
      · exact long
      · split
        · exact long
        · rename_i opened
          apply long.set this
          rintro elems ⟨⟩
          exact absurd rfl opened
  · exact long

theorem long_addElementsOf (long : Long pool) (cons : Address) (remaining index : Nat) :
    Long (addElementsOf this cons remaining index pool).2 := by
  induction remaining generalizing index pool with
  | zero => exact long
  | succ remaining ih =>
      apply Effect.after_bind (by rwa [elementAt_after])
      intro elem after afterLong
      exact Effect.after_bind (long_addElement afterLong (some elem)) fun _ last lastLong =>
        ih lastLong (index + 1)

/-- A tail that is a list again has two entries at least. -/
theorem long_tail (long : Long pool) (index : Nat) : Long (tail this index pool).2 := by
  unfold tail
  split
  · rename_i mInitialized mElementVector found
    split
    · exact long
    · rename_i valid
      split
      · exact long
      · split
        · rename_i few
          have flag : mInitialized = true := by simpa using valid
          subst flag
          have more := long this _ found
          apply long.append
          rintro elems ⟨⟩
          have size : arity mElementVector = mElementVector.length - 1 := by
            rw [arity, unsignedPred, if_neg (by omega)]
          rw [size, unsignedPred, if_neg (by omega)] at few
          rw [List.length_drop]
          omega
        · split <;> exact long
  · exact long

theorem closed_list {elem : Address} (valid : pool.valid elem = true)
    (list : pool.isConsList elem = true) :
    ∃ cells, pool[elem]? = some (.erlConsList true cells) := by
  obtain ⟨object, found, flag⟩ := valid_iff.mp valid
  rw [isConsList, found, Option.any_some] at list
  cases object with
  | erlConsList mInitialized cells =>
      have closed : mInitialized = true := flag
      exact ⟨cells, closed ▸ found⟩
  | _ => cases list

/-- A call with a list ends at its last tail, which is not handed out. -/
theorem closeBy_list (sound : Sound pool) {elem : Address} {cells : List Address}
    (found : pool[elem]? = some (.erlConsList true cells))
    (nested : Option Address → Method Pool Unit) :
    (closeBy nested this elem pool).2 = (addElementsOf this elem (arity cells) 0 pool).2 := by
  have kept := (evolves_addElementsOf this elem (arity cells) 0 pool sound).keeps
    (valid_iff.mpr ⟨_, found, rfl⟩)
  simp only [closeBy, found]
  rw [Effect.bind_run]
  rcases ran : addElementsOf this elem (arity cells) 0 pool with ⟨outcome, after⟩
  rw [ran] at kept
  cases outcome with
  | returns value =>
      have refused := tail_outside (kept.trans found) (le_refl (arity cells))
      simp only
      rw [Effect.bind_run, refused]
  | _ => rfl

/-- A term that is no list is appended, and then the list is marked. -/
theorem closeBy_plain {elem : Address} (valid : pool.valid elem = true)
    (plain : pool.isConsList elem = false) (nested : Option Address → Method Pool Unit) :
    closeBy nested this elem pool = (do
      addElement this (some elem)
      markClosed this : Method Pool Unit) pool := by
  obtain ⟨object, found, flag⟩ := valid_iff.mp valid
  unfold closeBy
  split
  · rename_i cells list
    rw [isConsList, list] at plain
    cases plain
  · rename_i other _ there
    rw [found] at there
    cases there
    rw [if_pos flag]
  · rename_i missing
    rw [found] at missing
    cases missing

theorem append_open {elem : Address} (found : pool[this]? = some (.erlConsList false elems))
    (valid : pool.valid elem = true) :
    (do
      addElement this (some elem)
      markClosed this : Method Pool Unit) pool =
        (.returns (), pool.set this (.erlConsList true (elems ++ [elem]))) := by
  have inside := (List.getElem?_eq_some_iff.mp found).1
  have added : addElement this (some elem) pool =
      (.returns (), pool.set this (.erlConsList false (elems ++ [elem]))) := by
    simp [addElement, found, valid]
  rw [Effect.bind_of_returns added]
  simp [markClosed, inside]

theorem close_open {elem : Address} (found : pool[this]? = some (.erlConsList false elems))
    (valid : pool.valid elem = true) (plain : pool.isConsList elem = false) :
    close this (some elem) pool =
      (.returns (), pool.set this (.erlConsList true (elems ++ [elem]))) := by
  rw [close, closeWithin, Method.throwsOnly, Effect.mapOutcome_run]
  simp only [closeBy_plain valid plain, append_open found valid]
  rfl

/-- Without an open list nothing changes. -/
theorem append_other {elem : Address} (valid : pool.valid elem = true)
    (other : ∀ elems, pool[this]? ≠ some (.erlConsList false elems)) :
    ((do
      addElement this (some elem)
      markClosed this : Method Pool Unit) pool).2 = pool := by
  rw [Effect.bind_run]
  cases found : pool[this]? with
  | none => simp only [addElement, found]
  | some object =>
      cases object with
      | erlConsList mInitialized mElementVector =>
          cases mInitialized with
          | false => exact absurd found (other mElementVector)
          | true => simp [addElement, found, valid]
      | _ => simp only [addElement, found]

/-- A term that is not valid is refused. -/
theorem closeBy_invalid {elem : Address} (invalid : pool.valid elem = false)
    (nested : Option Address → Method Pool Unit) : (closeBy nested this elem pool).2 = pool := by
  unfold closeBy
  split
  · rename_i cells found
    rw [Pool.valid, found] at invalid
    cases invalid
  · rename_i object _ found
    rw [Pool.valid, found] at invalid
    rw [if_neg (by simpa using invalid)]
  · rfl

/-- An open list gets its tail behind an element, and otherwise nothing is closed. -/
theorem long_append (long : Long pool) {elem : Address} (valid : pool.valid elem = true)
    (filled : ¬ pool.OpenEmpty this) :
    Long ((do
      addElement this (some elem)
      markClosed this : Method Pool Unit) pool).2 := by
  by_cases opened : ∃ elems, pool[this]? = some (.erlConsList false elems)
  · obtain ⟨elems, found⟩ := opened
    rw [append_open found valid]
    apply long.set this
    rintro _ ⟨⟩
    have more : elems ≠ [] := by
      rintro rfl
      exact filled found
    have size := List.length_pos_iff.mpr more
    rw [List.length_append, List.length_singleton]
    omega
  · rwa [append_other valid (not_exists.mp opened)]

theorem long_close (sound : Sound pool) (long : Long pool) {elem : Option Address}
    (safe : ¬ (PoolCall.close this elem).ClosesEmpty pool) : Long (close this elem pool).2 := by
  cases elem with
  | none => exact long
  | some elem =>
      rw [close, closeWithin, Method.throwsOnly, Effect.mapOutcome_run]
      dsimp only
      cases valid : pool.valid elem with
      | false => rwa [closeBy_invalid valid]
      | true =>
          cases list : pool.isConsList elem with
          | true =>
              obtain ⟨cells, found⟩ := closed_list valid list
              rw [closeBy_list sound found]
              exact long_addElementsOf long elem (arity cells) 0
          | false =>
              rw [closeBy_plain valid list]
              exact long_append long valid fun opened => safe ⟨opened, elem, rfl, valid, list⟩

theorem sound_grown (sound : Sound pool) : Sound (pool ++ [.simple .erlEmptyList]) := by
  have made : Evolves (alloc (.simple .erlEmptyList)) :=
    evolves_alloc trivial rfl fun list => by cases list
  exact sound.changes (made pool sound)

theorem openEmpty_grown :
    OpenEmpty (pool ++ [.simple .erlEmptyList]) this ↔ pool.OpenEmpty this := by
  unfold OpenEmpty
  rw [List.getElem?_append]
  split
  · rfl
  · rename_i outside
    rw [List.getElem?_eq_none (Nat.le_of_not_lt outside)]
    refine iff_of_false (fun found => ?_) nofun
    obtain ⟨inside, same⟩ := List.getElem?_eq_some_iff.mp found
    rw [List.getElem_singleton] at same
    cases same

theorem long_closeProper (sound : Sound pool) (long : Long pool) (safe : ¬ pool.OpenEmpty this) :
    Long (closeProper this pool).2 := by
  have grown : Long (pool ++ [.simple .erlEmptyList]) :=
    long.append fun _ same => by cases same
  have closed : Long (close this (some pool.length) (pool ++ [.simple .erlEmptyList])).2 :=
    long_close (sound_grown sound) grown fun closes => safe (openEmpty_grown.mp closes.1)
  exact closed

/-- A list that takes an element is not empty. -/
theorem addEach_fills {elems : List (Option Address)} {after : Pool}
    (ran : addEach this elems pool = (.returns (), after)) (opened : after.OpenEmpty this) :
    pool.OpenEmpty this ∧ elems = [] := by
  induction elems generalizing pool with
  | nil =>
      cases ran
      exact ⟨opened, rfl⟩
  | cons elem rest ih =>
      obtain ⟨⟨⟩, middle, added, later⟩ := Effect.bind_eq_returns.mp ran
      obtain ⟨still, -⟩ := ih later
      exfalso
      unfold addElement at added
      split at added
      · rename_i mInitialized mElementVector found
        have inside := (List.getElem?_eq_some_iff.mp found).1
        split at added
        · cases added
        · split at added
          · cases added
          · split at added
            · cases added
            · cases added
              rw [OpenEmpty, List.getElem?_set_self inside] at still
              simp at still
      · cases added

theorem long_initList (sound : Sound pool) (long : Long pool) {elems : List (Option Address)}
    (safe : ¬ (PoolCall.initList this elems).ClosesEmpty pool) :
    Long (initList this elems pool).2 := by
  have each : ∀ (elems : List (Option Address)) (pool : Pool), Long pool →
      Long (addEach this elems pool).2 := by
    intro elems
    induction elems with
    | nil => exact fun pool long => long
    | cons elem rest ih =>
        exact fun pool long => Effect.after_bind (long_addElement long elem) fun _ => ih
  have changes := evolves_addEach this elems pool sound
  have added := each elems pool long
  rw [initList, Effect.bind_run]
  rcases ran : addEach this elems pool with ⟨outcome, after⟩
  rw [ran] at added changes
  cases outcome with
  | returns value =>
      exact long_closeProper (sound.changes changes) added fun opened =>
        safe (addEach_fills ran opened)
  | _ => exact added

/-- A list of one entry is not long. -/
theorem not_long_set (inside : this < pool.length) (tail : Address) :
    ¬ Long (pool.set this (.erlConsList true [tail])) := by
  intro long
  have short := long this [tail] (List.getElem?_set_self inside)
  rw [List.length_singleton] at short
  omega

/-- The list gets the new empty list for its tail. -/
theorem closeProper_open (opened : pool.OpenEmpty this) :
    closeProper this pool =
      (.returns (), (pool ++ [Object.simple .erlEmptyList]).set this
        (.erlConsList true [pool.length])) := by
  have valid : Pool.valid (pool ++ [.simple .erlEmptyList]) pool.length = true := by
    simp [Pool.valid, Object.isValid, SimpleTerm.isValid]
  have plain : Pool.isConsList (pool ++ [.simple .erlEmptyList]) pool.length = false := by
    simp [Pool.isConsList, Object.isConsList]
  have closed := close_open (openEmpty_grown.mpr opened) valid plain
  have made : alloc (Object.simple .erlEmptyList) pool =
      (.returns pool.length, pool ++ [Object.simple .erlEmptyList]) := rfl
  rw [closeProper, Method.throwsOnly, Effect.mapOutcome_run, Effect.bind_of_returns made, closed]
  rfl

theorem not_long_closeProper (opened : pool.OpenEmpty this) :
    ¬ Long (closeProper this pool).2 := by
  have inside := (List.getElem?_eq_some_iff.mp opened).1
  rw [closeProper_open opened]
  apply not_long_set
  rw [List.length_append]
  exact Nat.lt_add_right 1 inside

theorem not_long_newConsListOf :
    ¬ Long (construct (.erlConsList false []) (fun this => initList this []) pool).2 := by
  have opened : OpenEmpty (pool ++ [.erlConsList false []]) pool.length := by simp [OpenEmpty]
  have ran : initList pool.length [] (pool ++ [.erlConsList false []]) =
      closeProper pool.length (pool ++ [.erlConsList false []]) := rfl
  have short := not_long_closeProper opened
  rw [closeProper_open opened] at ran short
  simpa only [construct, ran] using short

end Long

section Runs

variable {pool : Pool}

/-- A constructor leaves what its method leaves. -/
theorem make_after (make : Method Pool Address) :
    ((do let _ ← make : Method Pool Unit) pool).2 = (make pool).2 := by
  rw [Effect.bind_run]
  rcases make pool with ⟨outcome, after⟩
  cases outcome <;> rfl

theorem not_long_run {call : PoolCall} (closes : call.ClosesEmpty pool) :
    ¬ Long (call.run pool).2 := by
  cases call with
  | newConsListOf elems =>
      have empty : elems = [] := closes
      subst empty
      rw [PoolCall.run, make_after]
      exact not_long_newConsListOf
  | initList this elems =>
      obtain ⟨opened, rfl⟩ := closes
      exact not_long_closeProper opened
  | close this elem =>
      obtain ⟨opened, tail, rfl, valid, plain⟩ := closes
      have closed := close_open opened valid plain
      simp only [PoolCall.run, closed]
      exact not_long_set (List.getElem?_eq_some_iff.mp opened).1 tail
  | closeProper this => exact not_long_closeProper closes
  | _ => cases closes

theorem long_make {make : Method Pool Address} (long : Long (make pool).2) :
    Long ((do let _ ← make : Method Pool Unit) pool).2 := by
  rwa [make_after]

/-- One call leaves only conses exactly when there were only conses before and it closes no list
without elements. -/
theorem long_run_iff (sound : Sound pool) (call : PoolCall) :
    Long (call.run pool).2 ↔ Long pool ∧ ¬ call.ClosesEmpty pool := by
  constructor
  · intro after
    exact ⟨long_of_changes (evolves_run call pool sound) after, fun closes =>
      not_long_run closes after⟩
  · rintro ⟨long, safe⟩
    cases call with
    | newSimple value => exact long_make (long_alloc long fun list => by cases list)
    | newChecked arguments =>
        apply Effect.after_bind long
        exact fun value after afterLong => long_make (long_alloc afterLong fun list => by cases list)
    | newVariable mName => exact long_make (long_alloc long fun list => by cases list)
    | newTuple => exact long_make (long_alloc long fun list => by cases list)
    | newTupleOfArity arity =>
        apply long_make
        exact long_construct long (long_initArity (long_alloc long fun list => by cases list) arity)
    | newTupleOf elems =>
        apply long_make
        exact long_construct long
          (long_initElements (long_alloc long fun list => by cases list) elems)
    | newTupleOfArray mArityDefined elems =>
        apply long_make
        exact long_construct long
          (long_initElements (long_alloc long fun list => by cases list) elems)
    | newConsList => exact long_make (long_alloc long fun _ => rfl)
    | newConsListOf elems =>
        have made : Evolves (alloc (.erlConsList false [])) :=
          evolves_alloc trivial rfl fun _ => rfl
        apply long_make
        apply long_construct long
        exact long_initList (sound.changes (made pool sound)) (long_alloc long fun _ => rfl)
          fun closes => safe closes.2
    | initSimple this arguments => exact long_initSimple long arguments
    | initArity this arity => exact long_initArity long arity
    | initElements this elems => exact long_initElements long elems
    | initElement this elem => exact long_initElement long elem
    | initList this elems => exact long_initList sound long safe
    | addElement this elem => exact long_addElement long elem
    | close this elem => exact long_close sound long safe
    | closeProper this => exact long_closeProper sound long safe
    | tail this index => exact long_make (long_tail long index)

/-- After a sequence of calls all valid lists are conses exactly when no call closed a list without
elements. -/
theorem consed_after_iff (sound : Sound pool) (calls : List PoolCall) :
    Consed (pool.after calls) ↔ Consed pool ∧ ∀ before call later,
      calls = before ++ call :: later → ¬ call.ClosesEmpty (pool.after before) := by
  rw [consed_iff_long (sound.changes (changes_after sound calls)), consed_iff_long sound]
  induction calls generalizing pool with
  | nil => simp [Pool.after]
  | cons call rest ih =>
      have first := sound.changes (evolves_run call pool sound)
      have later : pool.after (call :: rest) = Pool.after (call.run pool).2 rest := rfl
      rw [later, ih first, long_run_iff sound, and_assoc]
      refine and_congr_right fun _ => ?_
      constructor
      · rintro ⟨safe, others⟩ before other after same
        cases before with
        | nil =>
            cases same
            exact safe
        | cons head before =>
            obtain ⟨rfl, rest⟩ := List.cons.inj same
            exact others before other after rest
      · intro all
        refine ⟨all [] call rest rfl, fun before other after same => ?_⟩
        exact all (call :: before) other after (by rw [same, List.cons_append])

end Runs

end Pool

end Epi.Type
