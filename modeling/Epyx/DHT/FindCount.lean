import Epyx.DHT.InternalNode
import Epyx.DHT.Nearest

/-! The count of a FIND: `findNearestNodes` takes it from the network as it is, and compares it as
an `unsigned long`. -/
namespace Epyx.DHT
open Lib
open N2NP (NodeId)

namespace KBucket
variable {own : Id} {k : KBucket} {objects : Peers}

/-- A count that is not zero as an `unsigned long` fills the queue without looking into an empty
one. -/
theorem AllFiled.findNearestNodes_length (h : AllFiled own k objects) (target : Id) {n : Int}
    (hn : 1 ≤ toU64 n) : ∃ nearest, k.findNearestNodes objects target n = some nearest ∧
      nearest.length = min (toU64 n) k.buckets.flatten.length := by
  have hdist : (k.buckets.flatten.map (objects.distance target)).Nodup := by
    refine List.pairwise_map.mpr ((List.pairwise_map.mp h.ids_nodup).imp fun hpq he => hpq ?_)
    exact Peers.distance_inj he
  have hnil : Nearest objects target (toU64 n) [] [] := .nil
  obtain ⟨closest, hfold, hclosest⟩ := hnil.foldlM hn hdist
  refine ⟨closest.map Prod.snd, by rw [findNearestNodes, hfold]; rfl, ?_⟩
  rw [List.length_map]
  exact hclosest.length hdist

/-- With a count of zero the first peer is compared with the top of an empty queue. -/
theorem findNearestNodes_zero (objects : Peers) (target : Id) (h : k.buckets.flatten ≠ []) :
    k.findNearestNodes objects target 0 = none := by
  obtain ⟨p, peers, hp⟩ := List.exists_cons_of_ne_nil h
  rw [findNearestNodes, hp]
  rfl

/-- No more peers than were asked for, and no look into an empty queue: the count is positive, or
there is no peer to be found. -/
theorem AllFiled.findNearestNodes_iff (h : AllFiled own k objects) (target : Id) (count : Int32) :
    (∃ nearest, k.findNearestNodes objects target count.toInt = some nearest ∧
      nearest.length ≤ (max count.toInt 0).toNat) ↔
    0 < count.toInt ∨ k.buckets.flatten = [] := by
  have hlow : -2 ^ 31 ≤ count.toInt := count.le_toInt
  have hhigh : count.toInt < 2 ^ 31 := count.toInt_lt
  by_cases hempty : k.buckets.flatten = []
  · refine iff_of_true ⟨[], ?_, Nat.zero_le _⟩ (.inr hempty)
    rw [findNearestNodes, hempty]
    rfl
  have hstored : 0 < k.buckets.flatten.length := List.length_pos_iff.mpr hempty
  by_cases hzero : count.toInt = 0
  · rw [hzero, findNearestNodes_zero objects target hempty]
    simp [hempty]
  obtain ⟨nearest, hnearest, hlen⟩ := h.findNearestNodes_length target (n := count.toInt)
    (by unfold toU64; omega)
  rw [hnearest]
  constructor
  · rintro ⟨found, hfound, hle⟩
    cases hfound
    unfold toU64 at hlen
    refine .inl ?_
    omega
  · rintro (hpos | hnil)
    · refine ⟨nearest, rfl, ?_⟩
      unfold toU64 at hlen
      omega
    · exact absurd hnil hempty

/-- New objects are not in the table. -/
theorem AllFiled.append (h : AllFiled own k objects) (new : Peers) :
    AllFiled own k (objects ++ new) := by
  refine ⟨h.ownId, h.size, fun i => (h.bucket i).keep (.refl _) (fun p hp => ?_) (by simp)⟩
  simp [Peers.deref, List.getElem?_append_left ((h.bucket i).valid p hp)]

end KBucket

namespace InternalNode
variable {n n' : InternalNode}

/-- The table and the objects stay as they are. -/
structure SameTable (n n' : InternalNode) : Prop where
  kbucket : n'.kbucket = n.kbucket
  objects : n'.objects = n.objects

theorem SameTable.refl (n : InternalNode) : SameTable n n := ⟨rfl, rfl⟩

theorem SameTable.trans {n'' : InternalNode} (h : SameTable n n') (h' : SameTable n' n'') :
    SameTable n n'' := ⟨h'.kbucket.trans h.kbucket, h'.objects.trans h.objects⟩

theorem SameTable.run (h : SameTable n n') (a : ActorId) (p : ProcessActor)
    (r : Role × List Action) : SameTable n (n'.run a p r) := by
  have hfold : ∀ (xs : List Action) (s : InternalNode × ProcessActor),
      SameTable s.1 (xs.foldl (perform a) s).1 := by
    intro xs
    induction xs with
    | nil => exact fun s => .refl _
    | cons x xs ih =>
      intro s
      refine .trans ?_ (ih (perform a s x))
      cases x <;> exact ⟨rfl, rfl⟩
  exact h.trans ((hfold r.2 (n', { p with role := r.1 })).trans ⟨rfl, rfl⟩)

theorem treatProcess_sameTable (n : InternalNode) (a : ActorId) (m : ProcessMessage) :
    SameTable n (n.treatProcess a m) := by
  unfold treatProcess
  split
  · exact .refl n
  · rename_i p hp
    split
    · cases m with
      | receive peer answer =>
        dsimp only
        unfold treatReceive
        dsimp only
        split
        · refine SameTable.run ?_ a _ _
          exact ⟨rfl, rfl⟩
        · exact .refl n
      | processTimeout pNumber =>
        dsimp only
        unfold treatTimeout
        split
        · refine SameTable.run ?_ a _ _
          exact ⟨rfl, rfl⟩
        · exact .refl n
      | _ => exact (SameTable.refl n).run a p _
    · obtain ⟨r, hr⟩ := foldl_unregister p.queries.keys n
      rw [destroy, hr]
      exact ⟨rfl, rfl⟩

theorem SameTable.add (n : InternalNode) (role : Role) : SameTable n (n.add role) := ⟨rfl, rfl⟩

theorem SameTable.findClosest {n'' : InternalNode} (hn : SameTable n n') {cb : FindCallback}
    {count : Int} {idToFind : Id} (h : n'.findClosest cb count idToFind = some n'') :
    SameTable n n'' := by
  obtain ⟨nearest, -, rfl⟩ := Option.map_eq_some_iff.mp h
  refine SameTable.run ?_ _ _ _
  exact ⟨hn.kbucket, hn.objects⟩

theorem treat_sameTable {keyId : Id} {m : Message} (h : n.treat keyId m = some n') :
    SameTable n n' := by
  cases m with
  | ping sender => cases h; exact ⟨rfl, rfl⟩
  | get sender connectionId key =>
    cases h
    unfold treatGet
    split <;> exact ⟨rfl, rfl⟩
  | store sender connectionId key value =>
    cases h
    unfold treatStore storageSet
    dsimp only
    split <;> exact ⟨rfl, rfl⟩
  | find sender connectionId count idToFind =>
    obtain ⟨nearest, -, rfl⟩ := Option.map_eq_some_iff.mp h
    exact ⟨rfl, rfl⟩
  | newKey key => cases h; exact ⟨rfl, rfl⟩
  | replicate key =>
    simp only [InternalNode.treat, treatReplicate] at h
    split at h
    · exact (SameTable.add n _).findClosest h
    · cases h; exact .refl n
  | process a m => cases h; exact treatProcess_sameTable n a m

/-- The table is filed at all times: packets file their sender, and nothing else writes to it. -/
def Filed (n : InternalNode) : Prop := KBucket.AllFiled n.kbucket.ownId n.kbucket n.objects

theorem SameTable.filed (h : SameTable n n') (hn : Filed n) : Filed n' := by
  unfold Filed
  rw [h.kbucket, h.objects]
  exact hn

theorem processPacket_filed (hn : Filed n) (pkt : Packet) (senderId : NodeId) (now : Int) :
    Filed (n.processPacket pkt senderId now) := by
  have hseen : Filed (n.seenPeer pkt.from senderId now).1 := by
    have h := KBucket.AllFiled.seenPeer hn ⟨pkt.from, senderId, now⟩
    have hown := h.ownId
    unfold Filed
    exact hown ▸ h
  have hd : ∀ (n : InternalNode) (sender : SPtr) (answer : Answer), Filed n →
      Filed (n.dispatchToProcessActor sender answer) := fun n sender answer h => by
    unfold dispatchToProcessActor
    split
    · exact h
    · exact h
  unfold processPacket
  cases pkt.content with
  | got connectionId status value => exact hd _ _ _ hseen
  | stored connectionId status => exact hd _ _ _ hseen
  | found connectionId status count foundPeers => exact hd _ _ _ (KBucket.AllFiled.append hseen _)
  | _ => exact hseen

theorem handle_filed {e : Event} (hn : Filed n) (h : n.handle e = some n') :
    Filed n' := by
  cases e with
  | receive pkt senderId now => cases h; exact processPacket_filed hn pkt senderId now
  | work k keyId =>
    obtain ⟨m, -, hn'⟩ := Option.bind_eq_some_iff.mp h
    exact (treat_sameTable hn').filed hn
  | expire k =>
    obtain ⟨m, -, rfl⟩ := Option.map_eq_some_iff.mp h
    exact hn
  | sendPing dest => cases h; exact hn
  | findClosest count idToFind => exact ((SameTable.refl n).findClosest h).filed hn
  | getValue key keyId =>
    exact ((SameTable.add n _).findClosest h).filed hn
  | setValue key value keyId edit =>
    exact ((SameTable.add n _).findClosest h).filed hn

theorem run_filed {ok : InternalNode → List Output → Event → Prop} {log : List Output} {id : Id}
    {n2npId : NodeId} {counter : Int64}
    (run : machine.Run ok (.new id n2npId counter) n log) : Filed n := by
  have hstart : Filed (.new id n2npId counter) := KBucket.AllFiled.new id
  refine run.invariant (P := fun n _ => Filed n) hstart ?_
  intro n log e n' out hn _ taken
  obtain ⟨n₁, hn₁, heq⟩ := Option.map_eq_some_iff.mp taken
  cases heq
  exact SameTable.filed (n := n₁) ⟨rfl, rfl⟩ (handle_filed hn hn₁)

/-- `FindActor::treat` answers with no more peers than were asked for, and the search reads no top
of an empty queue. -/
def AnswersFind (n : InternalNode) (peer : SPtr) (connectionId count : Int32) (idToFind : Id) :
    Prop :=
  ∃ nearest, n.kbucket.findNearestNodes n.objects idToFind count.toInt = some nearest ∧
    nearest.length ≤ (max count.toInt 0).toNat ∧
    n.treatFind peer connectionId count idToFind =
      some (n.send (.found connectionId 0 0 (nearest.map fun p => (n.objects.deref p).toPeer)) peer)

/-- In every state a node reaches, a FIND is answered as it should be just when its count is
positive or the table is empty. -/
theorem treatFind_iff {log : List Output} {id : Id} {n2npId : NodeId} {counter : Int64}
    (run : machine.Run (fun _ _ _ => True) (.new id n2npId counter) n log)
    (peer : SPtr) (connectionId count : Int32) (idToFind : Id) :
    AnswersFind n peer connectionId count idToFind ↔
      0 < count.toInt ∨ n.kbucket.buckets.flatten = [] := by
  rw [← (run_filed run).findNearestNodes_iff idToFind count]
  constructor
  · rintro ⟨nearest, hnearest, hlen, -⟩
    exact ⟨nearest, hnearest, hlen⟩
  · rintro ⟨nearest, hnearest, hlen⟩
    exact ⟨nearest, hnearest, hlen, by rw [treatFind, hnearest]; rfl⟩

/-- A FIND as a node has it from the network. -/
def askedFor (count : Int32) : List Event :=
  [.receive ⟨(Peer.numbered 1).id, .find 7 count .zero⟩ (Peer.numbered 1).n2npId 0]

/-- The peer that asks is in the table by then. -/
theorem treatFind_iff_one :
    ∃ n log, machine.Run (fun _ _ _ => True)
        (.new (Peer.numbered 7).id (Peer.numbered 7).n2npId 0) n log ∧
      n.messages = [.find 0 7 1 .zero] ∧
      (AnswersFind n 0 7 1 .zero ↔ 0 < (1 : Int32).toInt ∨ n.kbucket.buckets.flatten = []) := by
  have h : (machine.exec (fun _ _ _ => true)
      (.new (Peer.numbered 7).id (Peer.numbered 7).n2npId 0, []) (askedFor 1)).map
        (fun r => r.1.messages) = some [.find 0 7 1 .zero] := by decide +kernel
  obtain ⟨⟨n, log⟩, hrun, hmessages⟩ := Option.map_eq_some_iff.mp h
  have run := (Machine.Run.exec .start hrun).free
  exact ⟨n, log, run, hmessages, treatFind_iff run 0 7 1 .zero⟩

/-- A FIND for no peer makes the node look into an empty queue, and one for `-1` peers is answered
with all there are. -/
theorem find_unbounded :
    (∃ n log, machine.Run (fun _ _ _ => True)
        (.new (Peer.numbered 7).id (Peer.numbered 7).n2npId 0) n log ∧
      n.messages = [.find 0 7 0 .zero] ∧
      n.kbucket.findNearestNodes n.objects .zero (0 : Int32).toInt = none ∧
      ¬AnswersFind n 0 7 0 .zero) ∧
    ∃ n log, machine.Run (fun _ _ _ => True)
        (.new (Peer.numbered 7).id (Peer.numbered 7).n2npId 0) n log ∧
      n.messages = [.find 0 7 (-1) .zero] ∧
      n.kbucket.findNearestNodes n.objects .zero (-1 : Int32).toInt = some [0] ∧
      ¬AnswersFind n 0 7 (-1) .zero := by
  have h0 : (machine.exec (fun _ _ _ => true)
      (.new (Peer.numbered 7).id (Peer.numbered 7).n2npId 0, []) (askedFor 0)).map
        (fun r => (r.1.messages, r.1.kbucket.findNearestNodes r.1.objects .zero 0)) =
        some ([.find 0 7 0 .zero], none) := by decide +kernel
  have h1 : (machine.exec (fun _ _ _ => true)
      (.new (Peer.numbered 7).id (Peer.numbered 7).n2npId 0, []) (askedFor (-1))).map
        (fun r => (r.1.messages, r.1.kbucket.findNearestNodes r.1.objects .zero (-1))) =
        some ([.find 0 7 (-1) .zero], some [0]) := by decide +kernel
  constructor
  · obtain ⟨⟨n, log⟩, hrun, heq⟩ := Option.map_eq_some_iff.mp h0
    obtain ⟨hmessages, hnone⟩ := Prod.mk.inj heq
    refine ⟨n, log, (Machine.Run.exec .start hrun).free, hmessages, hnone, ?_⟩
    rintro ⟨nearest, hsome, -⟩
    exact absurd (hnone.symm.trans hsome) (by simp)
  · obtain ⟨⟨n, log⟩, hrun, heq⟩ := Option.map_eq_some_iff.mp h1
    obtain ⟨hmessages, hfound⟩ := Prod.mk.inj heq
    refine ⟨n, log, (Machine.Run.exec .start hrun).free, hmessages, hfound, ?_⟩
    rintro ⟨nearest, hsome, hlen, -⟩
    obtain rfl : [0] = nearest := Option.some.inj (hfound.symm.trans hsome)
    exact absurd hlen (by decide)

end InternalNode
end Epyx.DHT
