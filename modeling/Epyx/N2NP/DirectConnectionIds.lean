import Epyx.N2NP.Node

/-! `Node::askForDirectConnectionIds`: the nodes that this one talks to and has no direct socket
for, by a walk over a locked map. -/
namespace Epyx.N2NP
open Std (ExtTreeMap)

namespace Node

/-- `atom::Map::isEnd`. An iterator is the place of its entry in the order of the map. -/
def isEnd (mruNodeIds : ExtTreeMap NodeId UInt32) (i : Nat) : Bool := i = mruNodeIds.size

/-- `*i`: there is nothing at the end. -/
def entryAt (mruNodeIds : ExtTreeMap NodeId UInt32) (i : Nat) : Option (NodeId × UInt32) :=
  mruNodeIds.toList[i]?

theorem entryAt_isEnd {mruNodeIds : ExtTreeMap NodeId UInt32} {i : Nat}
    (h : isEnd mruNodeIds i) : entryAt mruNodeIds i = none := by
  have hi : i = mruNodeIds.size := of_decide_eq_true h
  exact List.getElem?_eq_none (by rw [ExtTreeMap.length_toList, hi])

/-- `for (auto i = ...; mruNodeIds.isEnd(i); i++)`, which is undefined where the end is
dereferenced; the stack is held from its top. -/
def askLoop (n : Node) (i : Nat) (mruNodeIds : ExtTreeMap NodeId UInt32) (stackIds : List NodeId) :
    Option (ExtTreeMap NodeId UInt32 × List NodeId) :=
  if _hend : isEnd mruNodeIds i then
    match _hentry : entryAt mruNodeIds i with
    | none => none
    | some (id, _) =>
      if id ∈ n.directSockets then askLoop n (i + 1) mruNodeIds stackIds
      else askLoop n (i + 1) (mruNodeIds.insert id 0) (id :: stackIds)
  else some (mruNodeIds, stackIds)
termination_by mruNodeIds.size - i
decreasing_by all_goals exact absurd ((entryAt_isEnd _hend).symm.trans _hentry) (by simp)

/-- The walk starts at `mruNodeIds.beginLock()`. -/
def askForDirectConnectionIds (n : Node) (stackIds : List NodeId) :
    Option (Node × List NodeId) :=
  (n.askLoop 0 n.mruNodeIds stackIds).map fun r => ({ n with mruNodeIds := r.1 }, r.2)

/-- What the call is for: the ids with a weight and without a direct socket are pushed, each once,
and their weights are set to zero. -/
def AsksForUnconnected (n : Node) (stackIds : List NodeId) (r : Option (Node × List NodeId)) :
    Prop :=
  ∃ pushed weights, r = some ({ n with mruNodeIds := weights }, pushed ++ stackIds) ∧
    pushed.Nodup ∧
    (∀ id, id ∈ pushed ↔ id ∈ n.mruNodeIds ∧ id ∉ n.directSockets) ∧
    ∀ id, weights[id]? = if id ∈ pushed then some 0 else n.mruNodeIds[id]?

/-- The walk is over before it looks at an entry; over an empty map it starts at the end and looks
there. -/
theorem askForDirectConnectionIds_eq (n : Node) (stackIds : List NodeId) :
    n.askForDirectConnectionIds stackIds =
      if n.mruNodeIds.isEmpty then none else some (n, stackIds) := by
  rw [askForDirectConnectionIds, askLoop]
  have hiff : isEnd n.mruNodeIds 0 ↔ n.mruNodeIds.isEmpty := by
    rw [isEnd, decide_eq_true_iff, ExtTreeMap.isEmpty_eq_size_beq_zero, beq_iff_eq, eq_comm]
  by_cases hempty : n.mruNodeIds.isEmpty
  · have hend : isEnd n.mruNodeIds 0 := hiff.mpr hempty
    rw [dif_pos hend, if_pos hempty]
    split
    · rfl
    · rename_i hentry
      rw [entryAt_isEnd hend] at hentry
      cases hentry
  · have hend : ¬isEnd n.mruNodeIds 0 := fun hend => hempty (hiff.mp hend)
    rw [dif_neg hend, if_neg hempty]
    rfl

/-- The call does what it is for exactly when there is something in `mruNodeIds` and a direct socket
for all of it, that is, when there is nothing to ask for. -/
theorem asksForUnconnected_iff (n : Node) (stackIds : List NodeId) :
    n.AsksForUnconnected stackIds (n.askForDirectConnectionIds stackIds) ↔
      ¬n.mruNodeIds.isEmpty ∧ ∀ id ∈ n.mruNodeIds, id ∈ n.directSockets := by
  rw [askForDirectConnectionIds_eq]
  by_cases hempty : n.mruNodeIds.isEmpty
  · rw [if_pos hempty]
    refine iff_of_false ?_ fun h => h.1 hempty
    rintro ⟨pushed, weights, hr, -⟩
    cases hr
  rw [if_neg hempty, and_iff_right hempty]
  constructor
  · rintro ⟨pushed, weights, hr, -, hpushed, -⟩ id hid
    have hnil : pushed = [] := by
      have hstack := congrArg Prod.snd (Option.some.inj hr)
      exact List.self_eq_append_left.mp hstack
    by_contra hno
    have hmem := (hpushed id).mpr ⟨hid, hno⟩
    rw [hnil] at hmem
    cases hmem
  · intro hall
    refine ⟨[], n.mruNodeIds, rfl, .nil, fun id => ?_, fun id => rfl⟩
    exact iff_of_false List.not_mem_nil fun h => h.2 (hall id h.1)

def peer : NodeId := ⟨lit "1", ⟨⟨lit "10.0.0.2", 4⟩, 4242⟩⟩

/-- A node with a weight for a peer it has no direct socket for. -/
def talking : Node :=
  ⟨⟨3, peer.relay⟩, ⟨lit "0", peer.relay⟩, true, .unset,
    (∅ : ExtTreeMap NodeId UInt32).insert peer 30, 1, ∅, ∅, 0, []⟩

/-- The peer is not asked for, and over an empty map the end is dereferenced. -/
theorem asksForUnconnected_talking :
    ¬talking.AsksForUnconnected [] (talking.askForDirectConnectionIds []) ∧
    talking.askForDirectConnectionIds [] = some (talking, []) ∧
    ({ talking with mruNodeIds := ∅ }).askForDirectConnectionIds [] = none := by
  have hpeer : peer ∈ talking.mruNodeIds := ExtTreeMap.mem_insert_self
  have hdirect : peer ∉ talking.directSockets := ExtTreeMap.not_mem_empty
  have hweights : talking.mruNodeIds.isEmpty = false := by simp [talking]
  have heq : talking.askForDirectConnectionIds [] = some (talking, []) := by
    rw [askForDirectConnectionIds_eq, hweights]
    rfl
  refine ⟨?_, heq, ?_⟩
  · rw [heq]
    rintro ⟨pushed, weights, hr, -, hpushed, -⟩
    have hmem := (hpushed peer).mpr ⟨hpeer, hdirect⟩
    have hnil : [] = pushed ++ [] := congrArg Prod.snd (Option.some.inj hr)
    rw [List.append_nil] at hnil
    rw [← hnil] at hmem
    cases hmem
  · rw [askForDirectConnectionIds_eq]
    rfl

end Node
end Epyx.N2NP
