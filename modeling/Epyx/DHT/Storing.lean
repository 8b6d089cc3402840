import Epyx.DHT.Replication

/-! STOREs that several workers treat at the same time: `Storage::set` of `dht/storage.cpp`, what it
does under its lock and what it does after, with all the other handlers between. -/
namespace Epyx.DHT
open Lib

/-- A worker that has been through the locked part of `Storage::set`. -/
structure Storing where
  peer : SPtr
  connectionId : Int32
  key : ByteStr
  /-- "new key" has still to be posted -/
  newKey : Bool
  deriving DecidableEq, Repr

/-- The key that a worker is about to post. -/
def Storing.pending (w : Storing) : Option ByteStr := if w.newKey then some w.key else none

namespace InternalNode

/-- The locked part of `Storage::set`, with the `newKey` it leaves. -/
def storageLocked (n : InternalNode) (key value : ByteStr) : InternalNode × Bool :=
  ({ n with storage := n.storage.insert key value }, n.storage[key]? = none)

theorem storageSet_eq (n : InternalNode) (key value : ByteStr) :
    n.storageSet key value =
      if n.storage[key]? = none then (n.storageLocked key value).1.post (.newKey key)
      else (n.storageLocked key value).1 := rfl

end InternalNode

/-- A node with its workers that store values. -/
structure Workers where
  node : InternalNode
  storing : List Storing

namespace Workers

inductive Event where
  /-- a handler that nobody comes between, or anything else that can happen to a node -/
  | step (e : InternalNode.Event)
  /-- a worker takes a STORE and goes through the locked part -/
  | lock (k : Nat)
  /-- a worker posts "new key" -/
  | post (j : Nat)
  /-- a worker answers -/
  | answer (j : Nat)

def lock (s : Workers) (k : Nat) : Option Workers :=
  match s.node.messages[k]? with
  | some (.store peer connectionId key value) =>
    let n := { s.node with messages := s.node.messages.eraseIdx k }.emit (.stored key value)
    let r := n.storageLocked key value
    some ⟨r.1, s.storing ++ [⟨peer, connectionId, key, r.2⟩]⟩
  | _ => none

def post (s : Workers) (j : Nat) : Option Workers :=
  s.storing[j]?.bind fun w =>
    if w.newKey then
      some ⟨s.node.post (.newKey w.key), s.storing.set j { w with newKey := false }⟩
    else none

def answer (s : Workers) (j : Nat) : Option Workers :=
  s.storing[j]?.bind fun w =>
    if w.newKey then none
    else some ⟨s.node.send (.stored w.connectionId 0) w.peer, s.storing.eraseIdx j⟩

def handle (s : Workers) : Event → Option Workers
  | .step e => (s.node.handle e).map fun n => { s with node := n }
  | .lock k => s.lock k
  | .post j => s.post j
  | .answer j => s.answer j

def machine : Machine Workers Event Output where
  step s e := (s.handle e).map fun s' =>
    ({ s' with node := { s'.node with out := [] } }, s'.node.out)

/-- A worker that nobody comes between does what the handler of a STORE does. -/
theorem lock_post_answer {keyId : Id} {s : Workers} {k : Nat} {peer : SPtr}
    {connectionId : Int32} {key value : ByteStr}
    (hm : s.node.messages[k]? = some (.store peer connectionId key value)) :
    ∃ s₁ s₂, s.lock k = some s₁ ∧
      (if s.node.storage[key]? = none then s₁.post s.storing.length = some s₂ else s₂ = s₁) ∧
      s₂.answer s.storing.length = s.handle (.step (.work k keyId)) := by
  obtain ⟨n, hn⟩ : ∃ n, n = InternalNode.emit
      { s.node with messages := s.node.messages.eraseIdx k } (.stored key value) := ⟨_, rfl⟩
  have hstorage : n.storage = s.node.storage := by rw [hn]; rfl
  have hwork : s.handle (.step (.work k keyId)) = some { s with
      node := (n.storageSet key value).send (.stored connectionId 0) peer } := by
    simp only [handle, InternalNode.handle, hm, hn]
    rfl
  have hlock : s.lock k = some ⟨(n.storageLocked key value).1,
      s.storing ++ [⟨peer, connectionId, key, n.storage[key]? = none⟩]⟩ := by
    unfold lock
    rw [hm, hn]
    rfl
  have hlast : ∀ w, (s.storing ++ [w]).eraseIdx s.storing.length = s.storing := fun w => by
    simp [List.eraseIdx_append_of_length_le]
  rw [hwork, InternalNode.storageSet_eq, ← hstorage]
  by_cases hnew : n.storage[key]? = none
  · refine ⟨_, ⟨(n.storageLocked key value).1.post (.newKey key),
      s.storing ++ [⟨peer, connectionId, key, false⟩]⟩, hlock, ?_, ?_⟩
    · simp [post, hnew]
    · simp [answer, hnew, hlast]
  · refine ⟨_, ⟨(n.storageLocked key value).1,
      s.storing ++ [⟨peer, connectionId, key, false⟩]⟩, hlock, ?_, ?_⟩
    · simp [hnew]
    · simp [answer, hnew, hlast]

/-- The keys that are about to be posted. -/
def pending (s : Workers) : List ByteStr := s.storing.filterMap Storing.pending

/-- The messages "new key", sent or about to be posted, the timers "replicate" and the SETs that
replicate a key. -/
def activities (s : Workers) (key : ByteStr) : Nat :=
  s.storing.countP (·.pending == some key) + s.node.activities key

/-- No key is replicated twice. -/
structure Sound (s : Workers) : Prop where
  placed : s.node.Placed
  sole : s.node.Sole s.pending

theorem pending_perm {s : Workers} {j : Nat} {w : Storing} (hw : s.storing[j]? = some w) :
    s.pending.Perm (w.pending.toList ++ (s.storing.eraseIdx j).filterMap Storing.pending) := by
  obtain ⟨hj, rfl⟩ := List.getElem?_eq_some_iff.mp hw
  refine ((List.getElem_cons_eraseIdx_perm hj).symm.filterMap Storing.pending).trans ?_
  rw [List.filterMap_cons]
  cases s.storing[j].pending with
  | none => exact .refl _
  | some key => exact .refl _

/-- What the locked part does: the key is stored, and is about to be posted if it is new. -/
theorem lock_spec {s s' : Workers} {k : Nat} (h : s.lock k = some s') :
    ∃ key value, s'.node.mail.Perm s.node.mail ∧ s'.node.actors = s.node.actors ∧
      s'.node.actorCount = s.node.actorCount ∧
      s'.node.storage = s.node.storage.insert key value ∧
      s'.pending = s.pending ++ if s.node.storage[key]? = none then [key] else [] := by
  unfold lock at h
  split at h
  · rename_i peer connectionId key value hm
    cases h
    refine ⟨key, value, (InternalNode.mail_take hm).symm, rfl, rfl, rfl, ?_⟩
    unfold pending
    rw [List.filterMap_append]
    refine congrArg _ ?_
    by_cases hnew : s.node.storage[key]? = none <;>
      simp [InternalNode.storageLocked, InternalNode.emit, Storing.pending, hnew]
  · cases h

theorem Sound.lock {s s' : Workers} {k : Nat} (hs : s.Sound) (h : s.lock k = some s') :
    s'.Sound := by
  obtain ⟨key, value, hmail, hactors, hcount, hstorage, hpending⟩ := lock_spec h
  have hreplica : s'.node.replica = s.node.replica := by
    unfold InternalNode.replica
    rw [hactors]
  have hmem : ∀ k, k ∈ s'.node.storage ↔ k = key ∨ k ∈ s.node.storage := fun k => by
    rw [hstorage]
    exact s.node.mem_storage_insert key value k
  refine ⟨fun a p hp => ?_, ?_⟩
  · rw [hactors] at hp
    rw [hcount]
    exact hs.placed a p hp
  · rw [hpending]
    split
    · rename_i hnew
      have hfresh : key ∉ s.node.storage := fun hk => InternalNode.mem_storage.mp hk hnew
      have hlike : InternalNode.Like (s.pending ++ [key]) s'.node
          ((s.node.custody s.pending).put key) := by
        refine ⟨?_, InternalNode.hand_of_replica hreplica⟩
        show ((s.pending ++ s.node.mail) ++ [key]).Perm ((s.pending ++ [key]) ++ s'.node.mail)
        rw [List.append_assoc, List.append_assoc]
        exact ((List.perm_append_singleton key _).trans (hmail.symm.cons key)).append_left s.pending
      refine hlike.sole (hs.sole.sound.put fun hk => hfresh (hs.sole.stored key hk)) fun k hk => ?_
      rcases Custody.present_put hk with hk | rfl
      · exact (hmem k).mpr (.inr (hs.sole.stored k hk))
      · exact (hmem k).mpr (.inl rfl)
    · rw [List.append_nil]
      have hlike : InternalNode.Like s.pending s'.node (s.node.custody s.pending) :=
        ⟨hmail.symm.append_left _, InternalNode.hand_of_replica hreplica⟩
      exact hlike.sole hs.sole.sound fun k hk => (hmem k).mpr (.inr (hs.sole.stored k hk))

/-- A key that was about to be posted is in the queue. -/
theorem Sound.post {s s' : Workers} {j : Nat} (hs : s.Sound) (h : s.post j = some s') :
    s'.Sound := by
  obtain ⟨w, hw, h⟩ := Option.bind_eq_some_iff.mp h
  split at h
  · rename_i hnew
    cases h
    have hj := (List.getElem?_eq_some_iff.mp hw).1
    have hpending := pending_perm hw
    have hset : ((s.storing.set j { w with newKey := false }).filterMap Storing.pending).Perm
        ((s.storing.eraseIdx j).filterMap Storing.pending) :=
      (List.set_perm_cons_eraseIdx hj _).filterMap Storing.pending
    rw [Storing.pending, if_pos hnew] at hpending
    refine ⟨hs.placed, InternalNode.Like.sole (c := s.node.custody s.pending) ⟨?_, rfl⟩
      hs.sole.sound hs.sole.stored⟩
    refine (hpending.append_right _).trans (List.perm_middle.symm.trans ?_)
    exact hset.symm.append (s.node.mail_post (.newKey w.key)).symm
  · cases h

theorem Sound.answer {s s' : Workers} {j : Nat} (hs : s.Sound) (h : s.answer j = some s') :
    s'.Sound := by
  obtain ⟨w, hw, h⟩ := Option.bind_eq_some_iff.mp h
  split at h
  · cases h
  · rename_i hnew
    cases h
    have hpending := pending_perm hw
    rw [Storing.pending, if_neg hnew] at hpending
    exact ⟨hs.placed, InternalNode.Like.sole (c := s.node.custody s.pending)
      ⟨hpending.append_right _, rfl⟩ hs.sole.sound hs.sole.stored⟩

theorem Sound.handle {s s' : Workers} {e : Event} (hs : s.Sound)
    (h : s.handle e = some s') : s'.Sound := by
  cases e with
  | step e =>
    obtain ⟨n, hn, rfl⟩ := Option.map_eq_some_iff.mp h
    exact ⟨InternalNode.handle_placed hs.placed hn,
      (InternalNode.handle_turn hs.placed hn).sole hs.sole⟩
  | lock k => exact hs.lock h
  | post j => exact hs.post h
  | answer j => exact hs.answer h

theorem Sound.activities_le {s : Workers} (hs : s.Sound) (key : ByteStr) :
    s.activities key ≤ 1 := by
  have h := hs.sole.activities_le key
  rwa [pending, List.count_filterMap] at h

/-- At most one activity replicates a key, whatever the workers do and in whatever order. -/
theorem activities_le_one {id : Id} {n2npId : N2NP.NodeId}
    {count : Int64} {s : Workers} {log : List Output}
    (run : machine.Run (fun _ _ _ => True) ⟨.new id n2npId count, []⟩ s log)
    (key : ByteStr) : s.activities key ≤ 1 := by
  have hnew : Sound ⟨.new id n2npId count, []⟩ :=
    ⟨InternalNode.placed_new id n2npId count, InternalNode.sole_new id n2npId count⟩
  have hs : s.Sound := by
    refine run.invariant (P := fun s _ => s.Sound) hnew ?_
    intro s log e s' out h _ taken
    obtain ⟨s₁, hs₁, heq⟩ := Option.map_eq_some_iff.mp taken
    cases heq
    have hnext := h.handle hs₁
    exact ⟨hnext.placed, ⟨hnext.sole.sound, hnext.sole.stored⟩⟩
  exact hs.activities_le key

/-- Two workers store one key at the same time. -/
def twoStores : List Event :=
  [.step (.receive ⟨(Peer.numbered 1).id, .store 1 (lit "k") (lit "v")⟩
      (Peer.numbered 1).n2npId 0),
    .step (.receive ⟨(Peer.numbered 2).id, .store 1 (lit "k") (lit "w")⟩
      (Peer.numbered 2).n2npId 0),
    .lock 1, .lock 0, .answer 1, .post 0]

theorem activities_le_one_twoStores :
    ∃ s log, machine.Run (fun _ _ _ => True)
        ⟨.new (Peer.numbered 7).id (Peer.numbered 7).n2npId 0, []⟩ s log ∧
      s.activities (lit "k") = 1 ∧ s.activities (lit "k") ≤ 1 := by
  have h : (machine.exec (fun _ _ _ => true)
      (⟨.new (Peer.numbered 7).id (Peer.numbered 7).n2npId 0, []⟩, []) twoStores).map
        (fun r => r.1.activities (lit "k")) = some 1 := by
    decide +kernel
  obtain ⟨⟨s, log⟩, hrun, hone⟩ := Option.map_eq_some_iff.mp h
  have run := (Machine.Run.exec .start hrun).free
  exact ⟨s, log, run, hone, activities_le_one run (lit "k")⟩

end Workers
end Epyx.DHT
