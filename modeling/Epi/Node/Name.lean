import Epi.Type.Term

namespace Epi.Node

open Verification Epi.Type

/-- The byte between the alive name and the host name. -/
def atSign : UInt8 := 64

/-- `AbstractNode::smLocalhost`. -/
def smLocalhost : Bytes := text "localhost"

/-- The names of an `AbstractNode`. -/
structure AbstractNode where
  mNodeName : Bytes
  mAliveName : Bytes
  mHostName : Bytes
  deriving DecidableEq, Repr

namespace AbstractNode

/-- The alive name and the host name. A name without a host is one of `localhost`. -/
def splitName (aNodeName : Bytes) : Bytes × Bytes :=
  match aNodeName.idxOf? atSign with
  | none => (aNodeName, smLocalhost)
  | some pos => (aNodeName.take pos, aNodeName.drop (pos + 1))

/-- `AbstractNode::initNodeName`. -/
def initNodeName (aNodeName : Bytes) : Call AbstractNode :=
  let (mAliveName, mHostName) := splitName aNodeName
  let mNodeName := mAliveName ++ atSign :: mHostName
  if mNodeName.length > maxNodeLength then
    .throws (.badArgument "Node name too big")
  else
    .returns ⟨mNodeName, mAliveName, mHostName⟩

end AbstractNode

/-- The name that `isSameHost` compares. The host is put behind the names that have one. -/
def fullNodeName (host node : Bytes) : Bytes :=
  match node.idxOf? atSign with
  | none => node
  | some _ => node ++ atSign :: host

/-- `isSameHost`. -/
def isSameHost (node1 node2 host : Bytes) : Bool :=
  fullNodeName host node1 == fullNodeName host node2

/-- A node name with its host, which is the given one unless the name has its own. -/
def completeName (host node : Bytes) : Bytes :=
  if atSign ∈ node then node else node ++ atSign :: host

section Names

variable {given name host alive : Bytes} {base : AbstractNode}

theorem fullNodeName_eq :
    fullNodeName host name = if atSign ∈ name then name ++ atSign :: host else name := by
  unfold fullNodeName
  cases found : name.idxOf? atSign with
  | none => rw [if_neg (List.idxOf?_eq_none_iff.mp found)]
  | some pos =>
      have member : atSign ∈ name := by
        by_contra missing
        rw [List.idxOf?_eq_none_iff.mpr missing] at found
        cases found
      rw [if_pos member]

/-- The parts of a name with a host. -/
theorem splitName_append (bare : atSign ∉ alive) :
    AbstractNode.splitName (alive ++ atSign :: host) = (alive, host) := by
  have found : (alive ++ atSign :: host).idxOf? atSign = some alive.length := by
    rw [List.idxOf?_eq_some_iff]
    refine ⟨by simp, by simp, ?_⟩
    intro earlier less
    rw [List.getElem_append_left less]
    intro same
    exact bare (same ▸ List.getElem_mem less)
  simp [AbstractNode.splitName, found]

theorem splitName_bare (bare : atSign ∉ name) :
    AbstractNode.splitName name = (name, smLocalhost) := by
  rw [AbstractNode.splitName, List.idxOf?_eq_none_iff.mpr bare]

/-- A node name has two parts, and it is the given one when that has a host. -/
structure Named (given : Bytes) (base : AbstractNode) : Prop where
  bare : atSign ∉ base.mAliveName
  parts : base.mNodeName = base.mAliveName ++ atSign :: base.mHostName
  completed : base.mNodeName = completeName smLocalhost given
  bounded : base.mNodeName.length ≤ maxNodeLength

theorem named_of_init (named : AbstractNode.initNodeName given = .returns base) :
    Named given base := by
  unfold AbstractNode.initNodeName at named
  by_cases member : atSign ∈ given
  · obtain ⟨alive, host, rfl, bare⟩ := List.eq_append_cons_of_mem member
    rw [splitName_append bare] at named
    simp only at named
    split at named
    · cases named
    · rename_i short
      cases named
      exact ⟨bare, rfl, (if_pos member).symm, Nat.le_of_not_gt short⟩
  · rw [splitName_bare member] at named
    simp only at named
    split at named
    · cases named
    · rename_i short
      cases named
      exact ⟨member, rfl, (if_neg member).symm, Nat.le_of_not_gt short⟩

/-- A name with a host is the same host only as itself. -/
theorem isSameHost_iff :
    isSameHost name (alive ++ atSign :: host) host = true ↔ name = alive ++ atSign :: host := by
  have member : atSign ∈ alive ++ atSign :: host := by simp
  rw [isSameHost, beq_iff_eq, fullNodeName_eq, fullNodeName_eq, if_pos member]
  split
  · exact List.append_left_inj _
  · rename_i missing
    constructor
    · intro same
      rw [same] at missing
      exact absurd (List.mem_append_left _ member) missing
    · intro same
      rw [same] at missing
      exact absurd member missing

theorem mem_completeName (host name : Bytes) : atSign ∈ completeName host name := by
  unfold completeName
  split
  · assumption
  · simp

/-- A node has two spellings. -/
theorem completeName_iff (bare : atSign ∉ alive) :
    completeName host name = alive ++ atSign :: host ↔
      name = alive ∨ name = alive ++ atSign :: host := by
  unfold completeName
  split
  · rename_i member
    constructor
    · exact .inr
    · rintro (rfl | same)
      · exact absurd member bare
      · exact same
  · rename_i missing
    constructor
    · intro same
      exact .inl (List.append_cancel_right same)
    · rintro (rfl | rfl)
      · rfl
      · exact absurd (by simp) missing

end Names

end Epi.Node
