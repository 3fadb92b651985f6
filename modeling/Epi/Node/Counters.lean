import Epi.Library.Counter
import Epi.Library.Run
import Epi.Node.LocalNode
import Epi.Node.Name
import Epi.Type.Equals

namespace Epi.Node

open Verification Epi.Type

/-- A term that a node has created. -/
inductive CreatedTerm where
  | pid (pid : ErlPid)
  | port (port : ErlPort)
  | ref (ref : ErlRef)

/-- The node creates a pid, a port or a reference. -/
inductive CreateStep : Transition LocalNode CreatedTerm
  | pid {before after : LocalNode} {pid : ErlPid}
      (ran : LocalNode.createPid before = (.returns pid, after)) :
      CreateStep before (.pid pid) after
  | port {before after : LocalNode} {port : ErlPort}
      (ran : LocalNode.createPort before = (.returns port, after)) :
      CreateStep before (.port port) after
  | ref {before after : LocalNode} {ref : ErlRef}
      (ran : LocalNode.createRef before = (.returns ref, after)) :
      CreateStep before (.ref ref) after

namespace LocalNode

/-- `init` has returned. The transport has a name that `initNodeName` takes. -/
def Initialized (node : LocalNode) : Prop :=
  ∃ given base creation, AbstractNode.initNodeName given = .returns base ∧
    node = init base.mNodeName creation

/-- The counters stay in their ranges, and the node keeps its name. -/
structure Counting (name : NodeName) (node : LocalNode) : Prop where
  named : node.mNodeName = name.text
  pid : node.mPidCount.toNat < 2 ^ 15
  serial : node.mSerial.toNat < 2 ^ 13
  port : node.mPortCount.toNat < 2 ^ 28
  ref : node.mRefId.1.toNat < 2 ^ 18

/-- The number of a pid. -/
def pidValue (node : LocalNode) : Nat := node.mSerial.toNat * 2 ^ 15 + node.mPidCount.toNat

/-- The number of a port. -/
def portValue (node : LocalNode) : Nat := node.mPortCount.toNat

/-- The number of a reference. -/
def refValue (node : LocalNode) : Nat :=
  (node.mRefId.2.2.toNat * 2 ^ 32 + node.mRefId.2.1.toNat) * 2 ^ 18 + node.mRefId.1.toNat

/-- The port that the counter stands for, under a checked name. -/
def nextPort (name : NodeName) (node : LocalNode) : ErlPort where
  mNode := name
  mId := .ofNat 18 node.mPortCount.toNat
  mCreation := .ofNat 2 node.mCreation.toNat

/-- The reference that the ids stand for, under a checked name. -/
def nextRef (name : NodeName) (node : LocalNode) : ErlRef where
  mNode := name
  mId0 := node.mRefId.1.setWidth 18
  mId1 := node.mRefId.2.1
  mId2 := node.mRefId.2.2
  mCreation := .ofNat 2 node.mCreation.toNat
  mNewStyle := true
  unset := Bool.noConfusion

section Counting

variable {name : NodeName} {node : LocalNode}

theorem toNat_succ (count : BitVec 32) : (count + 1).toNat = (count.toNat + 1) % 2 ^ 32 :=
  BitVec.toNat_add _ _

theorem zero_below (width : Nat) : (0 : BitVec 32).toNat < 2 ^ width := Nat.two_pow_pos width

/-- One more pid. -/
theorem countPid_counts (counting : Counting name node) :
    Counting name node.countPid ∧ node.countPid.pidValue = (node.pidValue + 1) % 2 ^ 28 := by
  obtain ⟨named, pid, serial, port, ref⟩ := counting
  have idBound : (0x7fff : BitVec 32).toNat = 0x7fff := rfl
  have serialBound : (0x1fff : BitVec 32).toNat = 0x1fff := rfl
  have zero : (0 : BitVec 32).toNat = 0 := rfl
  have next := toNat_succ node.mPidCount
  have nextSerial := toNat_succ node.mSerial
  rw [Nat.mod_eq_of_lt (by omega)] at next nextSerial
  simp only [countPid, GT.gt, BitVec.lt_def, next, nextSerial, idBound, serialBound]
  split
  · split
    · refine ⟨⟨named, zero_below 15, zero_below 13, port, ref⟩, ?_⟩
      have lastPid : node.mPidCount.toNat = 0x7fff := by omega
      have lastSerial : node.mSerial.toNat = 0x1fff := by omega
      simp only [pidValue, zero, lastPid, lastSerial]
      norm_num
    · refine ⟨⟨named, zero_below 15, ?_, port, ref⟩, ?_⟩
      · simp only [nextSerial]
        omega
      · simp only [pidValue, zero, nextSerial]
        omega
  · refine ⟨⟨named, ?_, serial, port, ref⟩, ?_⟩
    · simp only [next]
      omega
    · simp only [pidValue, next]
      omega

/-- One more port. -/
theorem countPort_counts (counting : Counting name node) :
    Counting name node.countPort ∧ node.countPort.portValue = (node.portValue + 1) % 2 ^ 28 := by
  obtain ⟨named, pid, serial, port, ref⟩ := counting
  have bound : (0xfffffff : BitVec 32).toNat = 0xfffffff := rfl
  have next := toNat_succ node.mPortCount
  rw [Nat.mod_eq_of_lt (by omega)] at next
  simp only [countPort, GT.gt, BitVec.lt_def, next, bound, portValue]
  split
  · have zero : (0 : BitVec 32).toNat = 0 := rfl
    refine ⟨⟨named, pid, serial, zero_below 28, ref⟩, ?_⟩
    rw [zero]
    omega
  · refine ⟨⟨named, pid, serial, ?_, ref⟩, ?_⟩
    · simp only [next]
      omega
    · rw [next]
      omega

/-- One more reference. -/
theorem countRef_counts (counting : Counting name node) :
    Counting name node.countRef ∧ node.countRef.refValue = (node.refValue + 1) % 2 ^ 82 := by
  obtain ⟨mNodeName, mCreation, mPidCount, mPortCount, mSerial, first, second, third⟩ := node
  obtain ⟨named, pid, serial, port, ref⟩ := counting
  have below : first.toNat < 2 ^ 18 := ref
  have bound : (0x3ffff : BitVec 32).toNat = 0x3ffff := rfl
  have zero : (0 : BitVec 32).toNat = 0 := rfl
  have next := toNat_succ first
  have nextSecond := toNat_succ second
  have nextThird := toNat_succ third
  have secondBound := second.isLt
  have thirdBound := third.isLt
  rw [Nat.mod_eq_of_lt (by omega)] at next
  simp only [countRef, GT.gt, BitVec.lt_def, next, bound]
  split
  · split
    · rename_i wraps
      have wrapped := congrArg BitVec.toNat wraps
      rw [nextSecond, zero] at wrapped
      refine ⟨⟨named, pid, serial, port, zero_below 18⟩, ?_⟩
      simp only [refValue, zero, nextSecond, nextThird]
      omega
    · rename_i stays
      have moved : (second.toNat + 1) % 2 ^ 32 ≠ 0 := by
        intro wrapped
        exact stays (BitVec.eq_of_toNat_eq (by rw [nextSecond, zero, wrapped]))
      refine ⟨⟨named, pid, serial, port, zero_below 18⟩, ?_⟩
      simp only [refValue, zero, nextSecond]
      omega
  · refine ⟨⟨named, pid, serial, port, ?_⟩, ?_⟩
    · simp only [next]
      omega
    · simp only [refValue, next]
      omega

/-- The counter of the pids. -/
theorem pid_counts (name : NodeName) : Counts (Counting name) countPid pidValue (2 ^ 28) where
  keeps _ counting := (countPid_counts counting).1
  counts _ counting := (countPid_counts counting).2
  below node counting := by
    have pid := counting.pid
    have serial := counting.serial
    rw [pidValue]
    omega

/-- The counter of the ports. -/
theorem port_counts (name : NodeName) : Counts (Counting name) countPort portValue (2 ^ 28) where
  keeps _ counting := (countPort_counts counting).1
  counts _ counting := (countPort_counts counting).2
  below _ counting := counting.port

/-- The counter of the references. -/
theorem ref_counts (name : NodeName) : Counts (Counting name) countRef refValue (2 ^ 82) where
  keeps _ counting := (countRef_counts counting).1
  counts _ counting := (countRef_counts counting).2
  below node counting := by
    have ref := counting.ref
    have second := node.mRefId.2.1.isLt
    have third := node.mRefId.2.2.isLt
    rw [refValue]
    omega

theorem createPid_counting (counting : Counting name node) :
    createPid node = (.returns (node.nextPid name), node.countPid) := by
  rw [createPid_run, counting.named, NodeName.check_text]

theorem createPort_counting (counting : Counting name node) :
    createPort node = (.returns (node.nextPort name), node.countPort) := by
  simp only [createPort, Effect.bind_run, Effect.get_run, Effect.lift_run, ErlPort.init,
    counting.named, NodeName.check_text]
  rfl

theorem createRef_counting (counting : Counting name node) :
    createRef node = (.returns (node.nextRef name), node.countRef) := by
  simp only [createRef, Effect.bind_run, Effect.get_run, Effect.lift_run, ErlRef.init,
    counting.named, NodeName.check_text]
  rfl

/-- The masks keep the counters of a pid. -/
theorem nextPid_equals {other : LocalNode} (counting : Counting name node)
    (otherCounting : Counting name other) :
    (node.nextPid name).equals (other.nextPid name) = true ↔ node.pidValue = other.pidValue := by
  obtain ⟨-, pid, serial, -⟩ := counting
  obtain ⟨-, otherPid, otherSerial, -⟩ := otherCounting
  simp only [ErlPid.equals, nextPid, beq_self_eq_true, Bool.true_and, Bool.and_eq_true, beq_iff_eq,
    ← BitVec.toNat_inj, BitVec.toNat_ofNat]
  rw [Nat.mod_eq_of_lt (by omega), Nat.mod_eq_of_lt (by omega), Nat.mod_eq_of_lt serial,
    Nat.mod_eq_of_lt otherSerial, pidValue, pidValue]
  omega

/-- The mask drops the upper bits of the counter of a port. -/
theorem nextPort_equals {other : LocalNode} :
    (node.nextPort name).equals (other.nextPort name) = true ↔
      node.portValue % 2 ^ 18 = other.portValue % 2 ^ 18 := by
  simp only [ErlPort.equals, nextPort, beq_self_eq_true, Bool.true_and, beq_iff_eq,
    ← BitVec.toNat_inj, BitVec.toNat_ofNat, portValue]

/-- The mask keeps the first id of a reference. -/
theorem nextRef_equals {other : LocalNode} (counting : Counting name node)
    (otherCounting : Counting name other) :
    (node.nextRef name).equals (other.nextRef name) = true ↔ node.refValue = other.refValue := by
  have ref := counting.ref
  have otherRef := otherCounting.ref
  have second := node.mRefId.2.1.isLt
  have otherSecond := other.mRefId.2.1.isLt
  simp only [ErlRef.equals, nextRef, beq_self_eq_true, Bool.true_and, Bool.and_eq_true, beq_iff_eq,
    Bool.not_true, Bool.false_or, ← BitVec.toNat_inj, BitVec.toNat_setWidth]
  rw [Nat.mod_eq_of_lt ref, Nat.mod_eq_of_lt otherRef, refValue, refValue]
  omega

/-- A new node counts, and every call keeps it so. -/
theorem run_counting {events : List CreatedTerm} (run : Run Initialized CreateStep events node) :
    ∃ name, Counting name node := by
  change (fun (_ : List CreatedTerm) state => ∃ name, Counting name state) events node
  apply run.invariant
  · rintro state ⟨given, base, creation, named, rfl⟩
    have parts := named_of_init named
    refine ⟨⟨base.mNodeName, ?_, parts.bounded⟩, rfl, ?_, ?_, ?_, ?_⟩
    · rw [parts.parts]
      simp
    · exact (by decide : 1 < 2 ^ 15)
    · exact zero_below 13
    · exact (by decide : 1 < 2 ^ 28)
    · exact (by decide : 1 < 2 ^ 18)
  · rintro events state event after ⟨name, counting⟩ taken
    cases taken with
    | pid ran =>
        rw [createPid_counting counting] at ran
        cases ran
        exact ⟨name, (countPid_counts counting).1⟩
    | port ran =>
        rw [createPort_counting counting] at ran
        cases ran
        exact ⟨name, (countPort_counts counting).1⟩
    | ref ran =>
        rw [createRef_counting counting] at ran
        cases ran
        exact ⟨name, (countRef_counts counting).1⟩

end Counting

/-- Consecutive calls that each return a term, in their order. -/
def Creates {Term : Type} (create : Method LocalNode Term) (count : Nat) (node : LocalNode)
    (created : List Term) : Prop :=
  ∃ after, Effect.times create count node = (.returns created, after) ∧ created.length = count

/-- No two terms are equal. -/
def Unequal {Term : Type} (equals : Term → Term → Bool) (created : List Term) : Prop :=
  created.Pairwise fun earlier later => equals earlier later = false

section Unique

variable {node : LocalNode} {events : List CreatedTerm} {count : Nat}

/-- The terms that many calls return. -/
theorem creates_range {Term : Type} {create : Method LocalNode Term} {name : NodeName}
    {made : LocalNode → Term} {next : LocalNode → LocalNode}
    (returns : ∀ state, Counting name state → create state = (.returns (made state), next state))
    (keeps : ∀ state, Counting name state → Counting name (next state)) (count : Nat)
    (counting : Counting name node) :
    Creates create count node ((List.range count).map fun passed => made (next^[passed] node)) :=
  ⟨_, Effect.times_run returns keeps count counting, by simp⟩

/-- In each period of its counter a node creates no pid and no reference twice. -/
theorem created_unique (run : Run Initialized CreateStep events node) :
    (∃ pids, Creates createPid (2 ^ 28) node pids ∧ Unequal ErlPid.equals pids) ∧
    ∃ refs, Creates createRef (2 ^ 82) node refs ∧ Unequal ErlRef.equals refs := by
  obtain ⟨name, counting⟩ := run_counting run
  constructor
  · refine ⟨_, creates_range (fun _ => createPid_counting) (pid_counts name).keeps _ counting, ?_⟩
    rw [Unequal, pairwise_map_range]
    intro first second earlier inside
    have good := (pid_counts name).good_iterate counting
    rw [← Bool.not_eq_true, nextPid_equals (good first) (good second)]
    have different := (pid_counts name).shown_ne counting (dvd_refl _) earlier (by omega)
    exact fun same => different (congrArg (· % 2 ^ 28) same)
  · refine ⟨_, creates_range (fun _ => createRef_counting) (ref_counts name).keeps _ counting, ?_⟩
    rw [Unequal, pairwise_map_range]
    intro first second earlier inside
    have good := (ref_counts name).good_iterate counting
    rw [← Bool.not_eq_true, nextRef_equals (good first) (good second)]
    have different := (ref_counts name).shown_ne counting (dvd_refl _) earlier (by omega)
    exact fun same => different (congrArg (· % 2 ^ 82) same)

/-- Consecutive ports differ exactly up to the width that a port keeps of its number. -/
theorem ports_unequal_iff {name : NodeName} (counting : Counting name node) (count : Nat) :
    ∃ ports, Creates createPort count node ports ∧
      (Unequal ErlPort.equals ports ↔ count ≤ 2 ^ 18) := by
  have divides : 2 ^ 18 ∣ 2 ^ 28 := Nat.pow_dvd_pow 2 (by decide)
  refine ⟨_, creates_range (fun _ => createPort_counting) (port_counts name).keeps _ counting, ?_⟩
  rw [Unequal, pairwise_map_range]
  constructor
  · intro unequal
    by_contra many
    have differ := unequal 0 (2 ^ 18) (by decide) (by omega)
    rw [← Bool.not_eq_true, nextPort_equals,
      (port_counts name).shown_eq_iff counting divides (Nat.zero_le _)] at differ
    exact differ (dvd_refl _)
  · intro few first second earlier inside
    rw [← Bool.not_eq_true, nextPort_equals]
    exact (port_counts name).shown_ne counting divides earlier (by omega)

/-- From every state that a node reaches, consecutive ports differ exactly up to 2^18 of them. -/
theorem ports_unique_iff (run : Run Initialized CreateStep events node) (count : Nat) :
    ∃ ports, Creates createPort count node ports ∧
      (Unequal ErlPort.equals ports ↔ count ≤ 2 ^ 18) := by
  obtain ⟨name, counting⟩ := run_counting run
  exact ports_unequal_iff counting count

end Unique

/-- A new node with the name `a@b`. -/
def sampleNode : LocalNode := init (text "a@b") 0

theorem sampleNode_initialized : Initialized sampleNode :=
  ⟨text "a@b", _, 0, rfl, rfl⟩

theorem created_unique_sample :
    (∃ pids, Creates createPid (2 ^ 28) sampleNode pids ∧ Unequal ErlPid.equals pids) ∧
    ∃ refs, Creates createRef (2 ^ 82) sampleNode refs ∧ Unequal ErlRef.equals refs :=
  created_unique (.start sampleNode_initialized)

theorem ports_unique_sample :
    ∃ ports, Creates createPort (2 ^ 18) sampleNode ports ∧
      (Unequal ErlPort.equals ports ↔ 2 ^ 18 ≤ 2 ^ 18) :=
  ports_unique_iff (.start sampleNode_initialized) (2 ^ 18)

/-- Ports of a new node repeat before its counter does. -/
theorem sample_ports_repeat :
    ∃ ports, Creates createPort (2 ^ 28) sampleNode ports ∧ ¬ Unequal ErlPort.equals ports := by
  obtain ⟨name, counting⟩ := run_counting (.start sampleNode_initialized)
  obtain ⟨ports, creates, unequal⟩ := ports_unequal_iff counting (2 ^ 28)
  refine ⟨ports, creates, ?_⟩
  rw [unequal]
  decide

end LocalNode

end Epi.Node
