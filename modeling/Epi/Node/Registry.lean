import Epi.Library.Run
import Epi.Node.AutoNode

namespace Epi.Node

open Verification Epi.Type Epi.Queue

/-- What the owner of a node does with its mailboxes and pids. -/
inductive RegistryEvent where
  | createMailBox (mailbox : Nat)
  | createPid (pid : ErlPid)
  | deattachMailBox (mailbox : Nat)

/-- The calls that return. -/
inductive RegistryStep : Transition AutoNode RegistryEvent
  | createMailBox {node after : AutoNode} {mailbox : Nat}
      (ran : AutoNode.createMailBox node = (.returns mailbox, after)) :
      RegistryStep node (.createMailBox mailbox) after
  | createPid {node after : AutoNode} {pid : ErlPid}
      (ran : AutoNode.onLocalNode LocalNode.createPid node = (.returns pid, after)) :
      RegistryStep node (.createPid pid) after
  | deattachMailBox {node after : AutoNode} {mailbox : Nat}
      (ran : AutoNode.deattachMailBox mailbox node = (.returns (), after)) :
      RegistryStep node (.deattachMailBox mailbox) after

/-- A new node of any name. -/
def NewNode (node : AutoNode) : Prop :=
  ∃ nodeName creation, node = .create (.init nodeName creation)

/-- The mailbox was created, and it was not deattached since. -/
def Attached (events : List RegistryEvent) (mailbox : Nat) : Prop :=
  .createMailBox mailbox ∈ events ∧ .deattachMailBox mailbox ∉ events

/-- The keys of the registry. -/
def AutoNode.Held (node : AutoNode) (key : Option ErlPid) : Prop :=
  ∃ entry ∈ node.mMailBoxes, entry.1 = key

/-- The pid that comes next is new among the keys of the registry, and opposed to none of them. -/
def AutoNode.Unopposed (node : AutoNode) : Prop :=
  ∀ name : NodeName, node.localNode.mNodeName = name.text → ∀ held, node.Held (some held) →
    held ≠ node.localNode.nextPid name ∧ ¬ Opposed held (node.localNode.nextPid name) ∧
      ¬ Opposed (node.localNode.nextPid name) held

/-- A mailbox is created only where the next pid is unopposed. -/
def Calm (node : AutoNode) : RegistryEvent → Prop
  | .createMailBox _ => node.Unopposed
  | _ => True

namespace AutoNode

variable {node after : AutoNode}

theorem onLocalNode_createPid {pid : ErlPid}
    (ran : onLocalNode LocalNode.createPid node = (.returns pid, after)) :
    ∃ name : NodeName, node.localNode.mNodeName = name.text ∧ pid = node.localNode.nextPid name ∧
      after = { node with localNode := node.localNode.countPid } := by
  unfold onLocalNode at ran
  rcases created : LocalNode.createPid node.localNode with ⟨outcome, counted⟩
  rw [created] at ran
  simp only [Prod.mk.injEq] at ran
  obtain ⟨rfl, rfl⟩ := ran
  obtain ⟨name, named, same, rfl⟩ := LocalNode.createPid_eq_returns.mp created
  exact ⟨name, named, same, rfl⟩

/-- A new mailbox gets the next pid, and the registry gets the mailbox under it. -/
theorem createMailBox_returns {mailbox : Nat}
    (ran : createMailBox node = (.returns mailbox, after)) :
    ∃ name : NodeName, node.localNode.mNodeName = name.text ∧ mailbox = node.mailBoxes.length ∧
      after = { node with
        localNode := node.localNode.countPid
        mailBoxes := node.mailBoxes ++ [⟨node.localNode.nextPid name, some .node, ⟨[]⟩⟩]
        mMailBoxes := node.mMailBoxes.store erlPidPtrCompare
          (some (node.localNode.nextPid name)) node.mailBoxes.length } := by
  obtain ⟨created, first, newRan, ran⟩ := Effect.bind_eq_returns.mp ran
  obtain ⟨self, counted, pidRan, newRan⟩ := Effect.bind_eq_returns.mp newRan
  obtain ⟨name, named, rfl, rfl⟩ := onLocalNode_createPid pidRan
  refine ⟨name, named, ?_⟩
  simp only [Effect.bind_run, Effect.get_run, Effect.set_run, Effect.pure_run, Prod.mk.injEq,
    Outcome.returns.injEq] at newRan
  obtain ⟨rfl, rfl⟩ := newRan
  simp [Effect.bind_run, onMailBox, addMailBox, MailBox.setSender, MailBox.create] at ran
  exact ⟨ran.1.symm, ran.2.symm⟩

/-- A deattached mailbox leaves both maps. -/
theorem deattachMailBox_returns {mailbox : Nat}
    (ran : deattachMailBox mailbox node = (.returns (), after)) :
    ∃ object, node.mailBoxes[mailbox]? = some object ∧
      after = { node with
        mailBoxes := node.mailBoxes.set mailbox (object.setSender none)
        mMailBoxes := (node.mMailBoxes.eraseByValue erlPidPtrCompare mailbox).1
        mRegMailBoxes := (node.mRegMailBoxes.eraseByValue mailbox).1 } := by
  cases here : node.mailBoxes[mailbox]? with
  | none => simp [deattachMailBox, Effect.bind_run, onMailBox, here] at ran
  | some object =>
      simp only [deattachMailBox, Effect.bind_run, onMailBox, here, removeMailBox, Prod.mk.injEq,
        true_and] at ran
      exact ⟨object, rfl, ran.symm⟩

end AutoNode

/-- Every attached mailbox stands in the registry once, under its own pid, and the keys keep the
order. -/
structure Registered (events : List RegistryEvent) (node : AutoNode) : Prop where
  unopposed : ∀ left right, node.Held (some left) → node.Held (some right) → ¬ Opposed left right
  sorted : Entries.Sorted erlPidPtrCompare node.Held node.mMailBoxes
  own : ∀ entry ∈ node.mMailBoxes, ∃ object,
    node.mailBoxes[entry.2]? = some object ∧ entry.1 = some object.mSelf
  attached : ∀ mailbox, (∃ entry ∈ node.mMailBoxes, entry.2 = mailbox) ↔ Attached events mailbox
  known : ∀ mailbox, .createMailBox mailbox ∈ events ∨ .deattachMailBox mailbox ∈ events →
    mailbox < node.mailBoxes.length

namespace Registered

variable {events : List RegistryEvent} {node after : AutoNode}

/-- The registry never holds the null pointer. -/
theorem present (registered : Registered events node) : ¬ node.Held none := by
  rintro ⟨entry, member, null⟩
  obtain ⟨object, -, same⟩ := registered.own entry member
  cases (null.symm.trans same)

theorem ordered (registered : Registered events node) :
    Entries.OrderedOn erlPidPtrCompare node.Held :=
  (strictWeakOn_iff.mpr ⟨registered.present, registered.unopposed⟩).orderedOn

theorem init {nodeName : Bytes} {creation : BitVec 16} :
    Registered [] (.create (.init nodeName creation)) where
  unopposed left right leftHeld _ := by
    obtain ⟨entry, member, -⟩ := leftHeld
    cases member
  sorted := Entries.sorted_nil
  own := List.forall_mem_nil _
  attached mailbox := by
    constructor
    · rintro ⟨entry, member, -⟩
      cases member
    · rintro ⟨created, -⟩
      cases created
  known mailbox happened := by
    rcases happened with created | deattached
    · cases created
    · cases deattached

theorem attached_append {mailbox : Nat} {event : RegistryEvent} :
    Attached (events ++ [event]) mailbox ↔
      (.createMailBox mailbox ∈ events ∨ event = .createMailBox mailbox) ∧
        .deattachMailBox mailbox ∉ events ∧ event ≠ .deattachMailBox mailbox := by
  simp [Attached, eq_comm]

/-- The key of a new mailbox keeps the order of the keys. -/
theorem createMailBox (registered : Registered events node) (calm : node.Unopposed) {mailbox : Nat}
    (ran : AutoNode.createMailBox node = (.returns mailbox, after)) :
    Registered (events ++ [.createMailBox mailbox]) after := by
  obtain ⟨name, named, rfl, rfl⟩ := AutoNode.createMailBox_returns ran
  generalize fresh : node.localNode.nextPid name = self
  have apart := calm name named
  rw [fresh] at apart
  -- The order has to hold on the old keys and the new one together.
  let used : Option ErlPid → Prop := fun key => node.Held key ∨ key = some self
  have selfUnopposed : ¬ Opposed self self := by
    rintro ⟨-, less, -⟩
    exact absurd less (BitVec.lt_irrefl _)
  have usedUnopposed : ∀ left right, used (some left) → used (some right) →
      ¬ Opposed left right := by
    rintro left right (leftHeld | leftNew) (rightHeld | rightNew)
    · exact registered.unopposed left right leftHeld rightHeld
    · obtain rfl := Option.some.inj rightNew
      exact (apart left leftHeld).2.1
    · obtain rfl := Option.some.inj leftNew
      exact (apart right rightHeld).2.2
    · obtain rfl := Option.some.inj leftNew
      obtain rfl := Option.some.inj rightNew
      exact selfUnopposed
  have usedPresent : ¬ used none := by
    rintro (held | new)
    · exact registered.present held
    · cases new
  have ordered : Entries.OrderedOn erlPidPtrCompare used :=
    (strictWeakOn_iff.mpr ⟨usedPresent, usedUnopposed⟩).orderedOn
  have sorted : Entries.Sorted erlPidPtrCompare used node.mMailBoxes :=
    ⟨fun entry member => .inl (registered.sorted.1 entry member), registered.sorted.2⟩
  have stored := Entries.sorted_store ordered (.inr rfl) node.mailBoxes.length sorted
  have members : ∀ entry, entry ∈ node.mMailBoxes.store erlPidPtrCompare (some self)
      node.mailBoxes.length ↔ entry = (some self, node.mailBoxes.length) ∨
        entry ∈ node.mMailBoxes := by
    intro entry
    rw [Entries.mem_store_iff ordered (.inr rfl) node.mailBoxes.length sorted]
    constructor
    · rintro (new | ⟨old, -⟩)
      · exact .inl new
      · exact .inr old
    · rintro (new | old)
      · exact .inl new
      · refine .inr ⟨old, fun same => ?_⟩
        exact (apart self ⟨entry, old, same⟩).1 rfl
  refine ⟨?_, ⟨fun entry member => ⟨entry, member, rfl⟩, stored.2⟩, ?_, ?_, ?_⟩
  · rintro left right ⟨leftEntry, leftMember, leftKey⟩ ⟨rightEntry, rightMember, rightKey⟩
    exact usedUnopposed left right (leftKey ▸ stored.1 leftEntry leftMember)
      (rightKey ▸ stored.1 rightEntry rightMember)
  · intro entry member
    rcases (members entry).mp member with rfl | old
    · exact ⟨⟨self, some .node, ⟨[]⟩⟩, by simp, rfl⟩
    · obtain ⟨object, here, same⟩ := registered.own entry old
      refine ⟨object, ?_, same⟩
      obtain ⟨inside, -⟩ := List.getElem?_eq_some_iff.mp here
      rw [List.getElem?_append_left inside]
      exact here
  · intro mailbox
    have unborn : .deattachMailBox node.mailBoxes.length ∉ events := fun happened =>
      absurd (registered.known _ (.inr happened)) (lt_irrefl _)
    rw [attached_append]
    constructor
    · rintro ⟨entry, member, rfl⟩
      rcases (members entry).mp member with rfl | old
      · exact ⟨.inr rfl, unborn, by simp⟩
      · have before := (registered.attached entry.2).mp ⟨entry, old, rfl⟩
        exact ⟨.inl before.1, before.2, by simp⟩
    · rintro ⟨created | new, kept, -⟩
      · obtain ⟨entry, old, same⟩ := (registered.attached mailbox).mpr ⟨created, kept⟩
        exact ⟨entry, (members entry).mpr (.inr old), same⟩
      · obtain rfl : node.mailBoxes.length = mailbox := by simpa using new
        exact ⟨_, (members _).mpr (.inl rfl), rfl⟩
  · intro mailbox happened
    rw [List.length_append, List.length_singleton]
    rcases happened with created | deattached
    · rcases List.mem_append.mp created with old | new
      · exact Nat.lt_succ_of_lt (registered.known mailbox (.inl old))
      · obtain rfl : mailbox = node.mailBoxes.length := by simpa using new
        exact Nat.lt_succ_self _
    · rcases List.mem_append.mp deattached with old | new
      · exact Nat.lt_succ_of_lt (registered.known mailbox (.inr old))
      · exact absurd new (by simp)

theorem createPid (registered : Registered events node) {pid : ErlPid}
    (ran : AutoNode.onLocalNode LocalNode.createPid node = (.returns pid, after)) :
    Registered (events ++ [.createPid pid]) after := by
  obtain ⟨name, -, -, rfl⟩ := AutoNode.onLocalNode_createPid ran
  refine ⟨registered.unopposed, registered.sorted, registered.own, ?_, ?_⟩
  · intro mailbox
    rw [attached_append]
    have before := registered.attached mailbox
    simpa [Attached] using before
  · intro mailbox happened
    exact registered.known mailbox (by simpa using happened)

/-- A mailbox that is taken out leaves the others in their order. -/
theorem deattachMailBox (registered : Registered events node) {mailbox : Nat}
    (ran : AutoNode.deattachMailBox mailbox node = (.returns (), after)) :
    Registered (events ++ [.deattachMailBox mailbox]) after := by
  obtain ⟨object, here, rfl⟩ := AutoNode.deattachMailBox_returns ran
  have members : ∀ entry, entry ∈ (node.mMailBoxes.eraseByValue erlPidPtrCompare mailbox).1 ↔
      entry ∈ node.mMailBoxes ∧ entry.2 ≠ mailbox := fun entry =>
    Entries.mem_eraseByValue registered.ordered mailbox registered.sorted
  have fewer : (node.mMailBoxes.eraseByValue erlPidPtrCompare mailbox).1.Sublist node.mMailBoxes :=
    Entries.eraseByValue_sublist mailbox
  have stillHeld : ∀ key, (∃ entry ∈ (node.mMailBoxes.eraseByValue erlPidPtrCompare mailbox).1,
      entry.1 = key) → node.Held key := by
    rintro key ⟨entry, member, same⟩
    exact ⟨entry, fewer.subset member, same⟩
  refine ⟨?_, ?_, ?_, ?_, ?_⟩
  · intro left right leftHeld rightHeld
    exact registered.unopposed left right (stillHeld _ leftHeld) (stillHeld _ rightHeld)
  · exact ⟨fun entry member => ⟨entry, member, rfl⟩, registered.sorted.2.sublist fewer⟩
  · intro entry member
    obtain ⟨old, other⟩ := (members entry).mp member
    obtain ⟨object, there, same⟩ := registered.own entry old
    refine ⟨object, ?_, same⟩
    rw [List.getElem?_set_ne (Ne.symm other)]
    exact there
  · intro other
    rw [attached_append]
    constructor
    · rintro ⟨entry, member, rfl⟩
      obtain ⟨old, apart⟩ := (members entry).mp member
      obtain ⟨created, kept⟩ := (registered.attached entry.2).mp ⟨entry, old, rfl⟩
      exact ⟨.inl created, kept, by simpa [eq_comm] using apart⟩
    · rintro ⟨created | new, kept, apart⟩
      · obtain ⟨entry, old, rfl⟩ := (registered.attached other).mpr ⟨created, kept⟩
        refine ⟨entry, (members entry).mpr ⟨old, fun same => apart ?_⟩, rfl⟩
        rw [same]
      · cases new
  · intro other happened
    rw [List.length_set]
    obtain ⟨inside, -⟩ := List.getElem?_eq_some_iff.mp here
    rcases happened with created | deattached
    · rcases List.mem_append.mp created with old | new
      · exact registered.known other (.inl old)
      · exact absurd new (by simp)
    · rcases List.mem_append.mp deattached with old | new
      · exact registered.known other (.inr old)
      · obtain rfl : other = mailbox := by simpa using new
        exact inside

theorem step (registered : Registered events node) {event : RegistryEvent}
    (calm : Calm node event) (taken : RegistryStep node event after) :
    Registered (events ++ [event]) after := by
  cases taken with
  | createMailBox ran => exact registered.createMailBox calm ran
  | createPid ran => exact registered.createPid ran
  | deattachMailBox ran => exact registered.deattachMailBox ran

/-- An attached mailbox is found under its own pid. -/
theorem found (registered : Registered events node) {mailbox : Nat}
    (attached : Attached events mailbox) :
    ∃ object, node.mailBoxes[mailbox]? = some object ∧
      node.getMailBox (some object.mSelf) = some mailbox := by
  obtain ⟨entry, member, rfl⟩ := (registered.attached mailbox).mpr attached
  obtain ⟨object, here, same⟩ := registered.own entry member
  refine ⟨object, here, ?_⟩
  rw [AutoNode.getMailBox, ← same]
  exact Entries.lookup_of_mem registered.ordered registered.sorted member

/-- Only the pid of an attached mailbox is found, wherever it stands in the order. -/
theorem foundOnly (registered : Registered events node) {pid : ErlPid} {mailbox : Nat}
    (found : node.getMailBox (some pid) = some mailbox) :
    Attached events mailbox ∧ ∃ object, node.mailBoxes[mailbox]? = some object ∧
      object.mSelf = pid := by
  obtain ⟨key, member, before, behind⟩ := Entries.mem_of_lookup found
  obtain ⟨object, here, same⟩ := registered.own (key, mailbox) member
  simp only at here same
  subst same
  exact ⟨(registered.attached mailbox).mp ⟨_, member, rfl⟩, object, here,
    eq_of_incomparable before behind⟩

end Registered

/-- A step that is calm. -/
def CalmStep : Transition AutoNode RegistryEvent :=
  fun before event after => Calm before event ∧ RegistryStep before event after

/-- The key order is a strict weak one exactly without a null key and without opposed pids. In every
run of calm steps each attached mailbox is found under its own pid, and no other pid finds a
mailbox. -/
theorem registry_correct (used : Option ErlPid → Prop) (events : List RegistryEvent)
    (node : AutoNode) :
    (StrictWeakOn used ↔ ¬ used none ∧
      ∀ left right, used (some left) → used (some right) → ¬ Opposed left right) ∧
    (Run NewNode CalmStep events node →
      (∀ mailbox, Attached events mailbox → ∃ object, node.mailBoxes[mailbox]? = some object ∧
        node.getMailBox (some object.mSelf) = some mailbox) ∧
      ∀ pid mailbox, node.getMailBox (some pid) = some mailbox →
        Attached events mailbox ∧ ∃ object, node.mailBoxes[mailbox]? = some object ∧
          object.mSelf = pid) := by
  refine ⟨strictWeakOn_iff, fun run => ?_⟩
  have registered : Registered events node := by
    apply run.invariant
    · rintro start ⟨nodeName, creation, rfl⟩
      exact .init
    · rintro events before event after registered ⟨calm, taken⟩
      exact registered.step calm taken
  exact ⟨fun mailbox attached => registered.found attached,
    fun pid mailbox found => registered.foundOnly found⟩

/-- The pids that the events took from the counters. -/
def pidsTaken (events : List RegistryEvent) : Nat :=
  events.countP fun
    | .deattachMailBox _ => false
    | _ => true

/-- The counters and the keys come from the pids that were taken so far. -/
def FromCounters (events : List RegistryEvent) (node : AutoNode) : Prop :=
  ∃ nodeName creation,
    node.localNode = LocalNode.countPid^[pidsTaken events] (.init nodeName creation) ∧
    ∀ held, node.Held (some held) → ∃ earlier < pidsTaken events, ∃ name : NodeName,
      held = (LocalNode.countPid^[earlier] (.init nodeName creation)).nextPid name

theorem pidsTaken_append (events : List RegistryEvent) (event : RegistryEvent) :
    pidsTaken (events ++ [event]) = pidsTaken events + pidsTaken [event] := by
  simp only [pidsTaken, List.countP_append]

theorem fromCounters_step {events : List RegistryEvent} {node after : AutoNode}
    {event : RegistryEvent} (before : FromCounters events node)
    (taken : RegistryStep node event after) : FromCounters (events ++ [event]) after := by
  obtain ⟨nodeName, creation, counters, keys⟩ := before
  refine ⟨nodeName, creation, ?_⟩
  rw [pidsTaken_append]
  cases taken with
  | createMailBox ran =>
      obtain ⟨name, -, rfl, rfl⟩ := AutoNode.createMailBox_returns ran
      have one : pidsTaken [.createMailBox node.mailBoxes.length] = 1 := rfl
      rw [one, Function.iterate_succ_apply', ← counters]
      refine ⟨rfl, ?_⟩
      rintro held ⟨entry, member, same⟩
      rcases Entries.mem_store member with new | ⟨other, old, equal⟩
      · refine ⟨pidsTaken events, Nat.lt_succ_self _, name, ?_⟩
        rw [← counters]
        exact Option.some.inj (same.symm.trans new)
      · obtain ⟨earlier, less, which⟩ := keys held ⟨other, old, equal.symm.trans same⟩
        exact ⟨earlier, Nat.lt_succ_of_lt less, which⟩
  | createPid ran =>
      obtain ⟨name, -, rfl, rfl⟩ := AutoNode.onLocalNode_createPid ran
      have one : pidsTaken [.createPid (node.localNode.nextPid name)] = 1 := rfl
      rw [one, Function.iterate_succ_apply', ← counters]
      refine ⟨rfl, ?_⟩
      intro held here
      obtain ⟨earlier, less, which⟩ := keys held here
      exact ⟨earlier, Nat.lt_succ_of_lt less, which⟩
  | deattachMailBox ran =>
      obtain ⟨object, -, rfl⟩ := AutoNode.deattachMailBox_returns ran
      refine ⟨counters, ?_⟩
      rintro held ⟨entry, member, same⟩
      exact keys held ⟨entry, (Entries.eraseByValue_sublist _).subset member, same⟩

/-- Before the serial moves, ids alone tell the pids apart. -/
theorem FromCounters.unopposed {events : List RegistryEvent} {node : AutoNode}
    (counters : FromCounters events node) (young : pidsTaken events + 1 < 2 ^ 15) :
    node.Unopposed := by
  obtain ⟨nodeName, creation, same, keys⟩ := counters
  intro name _ held here
  obtain ⟨earlier, less, owner, rfl⟩ := keys held here
  obtain ⟨-, -, oldId, oldSerial⟩ := LocalNode.iterate_countPid nodeName creation earlier
  obtain ⟨-, -, newId, newSerial⟩ :=
    LocalNode.iterate_countPid nodeName creation (pidsTaken events)
  rw [← same] at newId newSerial
  obtain ⟨-, age, -⟩ := LocalNode.iterate_countPid nodeName creation earlier
  obtain ⟨-, newAge, -⟩ := LocalNode.iterate_countPid nodeName creation (pidsTaken events)
  rw [← same] at newAge
  have ids : ((LocalNode.countPid^[earlier] (.init nodeName creation)).nextPid owner).mId <
      (node.localNode.nextPid name).mId := by
    simp only [LocalNode.nextPid, BitVec.lt_def, BitVec.toNat_ofNat, oldId, newId]
    omega
  have serials : ((LocalNode.countPid^[earlier] (.init nodeName creation)).nextPid owner).mSerial =
      (node.localNode.nextPid name).mSerial := by
    simp only [LocalNode.nextPid, ← BitVec.toNat_inj, BitVec.toNat_ofNat, oldSerial, newSerial]
    omega
  have creations :
      ((LocalNode.countPid^[earlier] (.init nodeName creation)).nextPid owner).mCreation =
        (node.localNode.nextPid name).mCreation := by
    simp only [LocalNode.nextPid, age, newAge]
  refine ⟨?_, ?_, ?_⟩
  · intro equal
    rw [equal] at ids
    exact absurd ids (BitVec.lt_irrefl _)
  · rintro ⟨-, -, later⟩
    simp only [Later, serials, creations, BitVec.lt_irrefl, and_false, or_false] at later
  · rintro ⟨-, backwards, -⟩
    simp only [BitVec.lt_def] at ids backwards
    omega

/-- All runs are calm up to the pid with the highest id. -/
theorem calm_of_young {events : List RegistryEvent} {node : AutoNode}
    (run : Run NewNode RegistryStep events node) (young : pidsTaken events < 2 ^ 15) :
    Run NewNode CalmStep events node ∧ FromCounters events node := by
  induction run with
  | start initial =>
      refine ⟨.start initial, ?_⟩
      obtain ⟨nodeName, creation, rfl⟩ := initial
      refine ⟨nodeName, creation, rfl, ?_⟩
      rintro held ⟨entry, member, -⟩
      cases member
  | @step events before after event run taken ih =>
      rw [pidsTaken_append] at young
      obtain ⟨calmRun, counters⟩ := ih (Nat.lt_of_le_of_lt (Nat.le_add_right _ _) young)
      refine ⟨.step calmRun ⟨?_, taken⟩, fromCounters_step counters taken⟩
      cases event with
      | createMailBox mailbox => exact counters.unopposed young
      | createPid pid => trivial
      | deattachMailBox mailbox => trivial

/-- A node with two mailboxes, after the first one is deattached. -/
def startedNode : AutoNode := .create (.init (text "a@b") 0)

def firstCreated : AutoNode := (AutoNode.createMailBox startedNode).2

def secondCreated : AutoNode := (AutoNode.createMailBox firstCreated).2

def firstDeattached : AutoNode := (AutoNode.deattachMailBox 0 secondCreated).2

theorem registry_correct_deattached :
    (∃ object, firstDeattached.mailBoxes[1]? = some object ∧
      firstDeattached.getMailBox (some object.mSelf) = some 1) ∧
    ∀ pid, firstDeattached.getMailBox (some pid) ≠ some 0 := by
  have first : Run NewNode RegistryStep [.createMailBox 0] firstCreated :=
    .step (.start ⟨text "a@b", 0, rfl⟩) (.createMailBox rfl)
  have second : Run NewNode RegistryStep [.createMailBox 0, .createMailBox 1] secondCreated :=
    .step first (.createMailBox rfl)
  have run : Run NewNode RegistryStep
      [.createMailBox 0, .createMailBox 1, .deattachMailBox 0] firstDeattached :=
    .step second (.deattachMailBox rfl)
  obtain ⟨found, foundOnly⟩ :=
    (registry_correct (fun _ => False) _ _).2 (calm_of_young run (by decide)).1
  constructor
  · exact found 1 ⟨by simp, by simp⟩
  · intro pid here
    obtain ⟨⟨-, kept⟩, -⟩ := foundOnly pid 0 here
    exact kept (by simp)

/-- A lower id under a later serial. -/
theorem opposed_of_counters {first later : LocalNode} (name : NodeName)
    (ids : later.mPidCount.toNat < first.mPidCount.toNat) (idBound : first.mPidCount.toNat < 2 ^ 18)
    (serials : first.mSerial.toNat < later.mSerial.toNat)
    (serialBound : later.mSerial.toNat < 2 ^ 13) :
    Opposed (later.nextPid name) (first.nextPid name) := by
  refine ⟨rfl, ?_, .inl ?_⟩
  · simp only [LocalNode.nextPid, BitVec.lt_def, BitVec.toNat_ofNat]
    omega
  · simp only [LocalNode.nextPid, BitVec.lt_def, BitVec.toNat_ofNat]
    omega

/-- After 32767 pids the id starts again at zero, under the next serial. -/
theorem opposed_after_wrap (nodeName : Bytes) (creation : BitVec 16) (name : NodeName) :
    Opposed ((LocalNode.countPid^[32767] (.init nodeName creation)).nextPid name)
      ((LocalNode.init nodeName creation).nextPid name) := by
  obtain ⟨-, -, count, serial⟩ := LocalNode.iterate_countPid nodeName creation 32767
  obtain ⟨-, -, firstCount, firstSerial⟩ := LocalNode.iterate_countPid nodeName creation 0
  rw [Function.iterate_zero, id] at firstCount firstSerial
  apply opposed_of_counters
  · omega
  · omega
  · omega
  · omega

/-- The first pid of a node and the one after 32767 pids stand before each other, and the null
pointer stands before itself. -/
theorem erlPidPtrCompare_cyclic :
    ∃ (node : LocalNode) (first later : ErlPid),
      node = .init (text "a@b") 0 ∧
      LocalNode.createPid node = (.returns first, node.countPid) ∧
      LocalNode.createPid (LocalNode.countPid^[32767] node) =
        (.returns later, (LocalNode.countPid^[32767] node).countPid) ∧
      erlPidPtrCompare (some first) (some later) = true ∧
      erlPidPtrCompare (some later) (some first) = true ∧
      erlPidPtrCompare none none = true := by
  let name : NodeName := ⟨text "a@b", by decide, by decide⟩
  obtain ⟨named, -⟩ := LocalNode.iterate_countPid (text "a@b") 0 32767
  obtain ⟨same, ids, later⟩ := opposed_after_wrap (text "a@b") 0 name
  exact ⟨.init (text "a@b") 0, _, _, rfl, LocalNode.createPid_eq_returns.mpr ⟨name, rfl, rfl, rfl⟩,
    LocalNode.createPid_eq_returns.mpr ⟨name, named, rfl, rfl⟩,
    pidBefore_iff.mpr (.inr ⟨same.symm, .inr later⟩), pidBefore_iff.mpr (.inr ⟨same, .inl ids⟩), rfl⟩

end Epi.Node
