import Mathlib
import Epi.Type.Compound

namespace Epi.Node

open Verification Epi.Type

/-- The name, the creation and the counters of a `LocalNode`. -/
structure LocalNode where
  mNodeName : Bytes
  mCreation : BitVec 16
  mPidCount : BitVec 32
  mPortCount : BitVec 32
  mSerial : BitVec 32
  mRefId : BitVec 32 × BitVec 32 × BitVec 32
  deriving DecidableEq, Repr

namespace LocalNode

/-- `LocalNode::init`. The name comes from the transport. -/
def init (nodeName : Bytes) (creation : BitVec 16) : LocalNode where
  mNodeName := nodeName
  mCreation := creation
  mPidCount := 1
  mPortCount := 1
  mSerial := 0
  mRefId := (1, 0, 0)

/-- The counters after a pid. -/
def countPid (node : LocalNode) : LocalNode :=
  let mPidCount := node.mPidCount + 1
  if mPidCount > 0x7fff then
    let mSerial := node.mSerial + 1
    { node with mPidCount := 0, mSerial := if mSerial > 0x1fff then 0 else mSerial }
  else
    { node with mPidCount := mPidCount }

/-- `LocalNode::createPid`. The constructor of the pid checks the name before the counters move. -/
def createPid : Method LocalNode ErlPid := do
  let node ← Effect.get
  let pid ← Effect.lift <| ErlPid.init node.mNodeName node.mPidCount.toNat node.mSerial.toNat
    node.mCreation.toNat
  Effect.set node.countPid
  return pid

/-- The counter after a port. -/
def countPort (node : LocalNode) : LocalNode :=
  let mPortCount := node.mPortCount + 1
  { node with mPortCount := if mPortCount > 0xfffffff then 0 else mPortCount }

/-- `LocalNode::createPort`. -/
def createPort : Method LocalNode ErlPort := do
  let node ← Effect.get
  let port ← Effect.lift <| ErlPort.init node.mNodeName node.mPortCount.toNat node.mCreation.toNat
  Effect.set node.countPort
  return port

/-- The counters after a reference. -/
def countRef (node : LocalNode) : LocalNode :=
  let (first, second, third) := node.mRefId
  let first := first + 1
  if first > 0x3ffff then
    let second := second + 1
    { node with mRefId := (0, second, if second = 0 then third + 1 else third) }
  else
    { node with mRefId := (first, second, third) }

/-- `LocalNode::createRef`. -/
def createRef : Method LocalNode ErlRef := do
  let node ← Effect.get
  let ref ← Effect.lift <| ErlRef.init node.mNodeName node.mRefId node.mCreation.toNat true
  Effect.set node.countRef
  return ref

/-- The pid that the counters stand for, under a checked name. -/
def nextPid (name : NodeName) (node : LocalNode) : ErlPid where
  mNode := name
  mId := .ofNat 18 node.mPidCount.toNat
  mSerial := .ofNat 13 node.mSerial.toNat
  mCreation := .ofNat 2 node.mCreation.toNat

/-- The name is checked, and then the counters move. -/
theorem createPid_run (node : LocalNode) :
    createPid node = match NodeName.check node.mNodeName with
      | .returns name => (.returns (node.nextPid name), node.countPid)
      | .throws error => (.throws error, node)
      | .aborts => (.aborts, node)
      | .diverges => (.diverges, node) := by
  simp only [createPid, Effect.bind_run, Effect.get_run, Effect.lift_run, ErlPid.init]
  cases NodeName.check node.mNodeName <;> rfl

theorem createPid_eq_returns {node after : LocalNode} {pid : ErlPid} :
    createPid node = (.returns pid, after) ↔
      ∃ name : NodeName, node.mNodeName = name.text ∧ pid = node.nextPid name ∧
        after = node.countPid := by
  rw [createPid_run]
  constructor
  · intro ran
    cases checked : NodeName.check node.mNodeName with
    | returns name =>
        rw [checked] at ran
        simp only [Prod.mk.injEq, Outcome.returns.injEq] at ran
        exact ⟨name, (NodeName.text_of_check checked).symm, ran.1.symm, ran.2.symm⟩
    | _ =>
        rw [checked] at ran
        cases ran
  · rintro ⟨name, named, rfl, rfl⟩
    rw [named, NodeName.check_text]

@[simp] theorem countPid_mNodeName (node : LocalNode) :
    node.countPid.mNodeName = node.mNodeName := by
  simp only [countPid]
  split <;> rfl

@[simp] theorem countPid_mCreation (node : LocalNode) :
    node.countPid.mCreation = node.mCreation := by
  simp only [countPid]
  split <;> rfl

/-- The two counters run through their bits. -/
theorem iterate_countPid (nodeName : Bytes) (creation : BitVec 16) (created : Nat) :
    let node := countPid^[created] (init nodeName creation)
    node.mNodeName = nodeName ∧ node.mCreation = creation ∧
      node.mPidCount.toNat = (created + 1) % 2 ^ 15 ∧
      node.mSerial.toNat = (created + 1) / 2 ^ 15 % 2 ^ 13 := by
  induction created with
  | zero => exact ⟨rfl, rfl, rfl, rfl⟩
  | succ created ih =>
      simp only [Function.iterate_succ_apply'] at ih ⊢
      obtain ⟨name, age, count, serial⟩ := ih
      generalize countPid^[created] (init nodeName creation) = node at *
      refine ⟨by simpa using name, by simpa using age, ?_⟩
      have one : (1 : BitVec 32).toNat = 1 := rfl
      have idBound : (0x7fff : BitVec 32).toNat = 0x7fff := rfl
      have serialBound : (0x1fff : BitVec 32).toNat = 0x1fff := rfl
      have zero : (0 : BitVec 32).toNat = 0 := rfl
      have next : (node.mPidCount + 1).toNat = (created + 1) % 2 ^ 15 + 1 := by
        rw [BitVec.toNat_add, count, one]
        omega
      have nextSerial : (node.mSerial + 1).toNat = (created + 1) / 2 ^ 15 % 2 ^ 13 + 1 := by
        rw [BitVec.toNat_add, serial, one]
        omega
      simp only [countPid, GT.gt, BitVec.lt_def, next, nextSerial, idBound, serialBound]
      split
      · simp only [zero]
        split
        · rw [zero]
          omega
        · rw [nextSerial]
          omega
      · simp only [next, serial]
        omega

end LocalNode

end Epi.Node
