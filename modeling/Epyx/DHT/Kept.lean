import Epyx.DHT.Replication

/-! Whether the keys a node stores stay in replication. -/
namespace Epyx.DHT.InternalNode
open Lib

/-- The node, with a log of what the find phases of its replications have returned: whether the
node itself was among the peers. -/
def replications : Machine InternalNode Event (ByteStr × Bool) where
  step n e := (machine.step n e).map fun r => (r.1, (n.looked e).toList)

/-- What the last find phase for a key has returned. -/
def lastFound (log : List (ByteStr × Bool)) (key : ByteStr) : Option Bool := log.reverse.lookup key

/-- No step ends a SET in an error, except where its find phase has not returned the node. -/
def Spared (n : InternalNode) (log : List (ByteStr × Bool)) (e : Event) : Prop :=
  ∀ key ∈ n.ends e, lastFound log key = some false

instance (n : InternalNode) (log : List (ByteStr × Bool)) (e : Event) :
    Decidable (n.Spared log e) := inferInstanceAs (Decidable (∀ key ∈ n.ends e, _))

theorem lastFound_append (log : List (ByteStr × Bool)) (k : ByteStr) (self : Bool)
    (key : ByteStr) :
    lastFound (log ++ [(k, self)]) key = if key = k then some self else lastFound log key := by
  unfold lastFound
  rw [List.reverse_append, List.reverse_singleton, List.singleton_append, List.lookup_cons]
  by_cases hk : key = k
  · simp [hk]
  · rw [if_neg hk, beq_eq_false_iff_ne.mpr hk]

/-- Each stored key is replicated, or the node was not among the peers of its last find phase. A
SET with requests that are pending knows what its find phase has returned. -/
structure Kept (log : List (ByteStr × Bool)) (n : InternalNode) : Prop where
  kept : ∀ key ∈ n.storage, (n.custody []).Present key ∨ lastFound log key = some false
  aware : ∀ a r, n.replica a = some r → r.isHandlingKey = false → 1 ≤ r.pendingRequests →
    lastFound log r.key = some false

theorem Kept.of_replica {log : List (ByteStr × Bool)} {n n' : InternalNode} (h : Kept log n)
    (replica : n'.replica = n.replica)
    (kept : ∀ key ∈ n'.storage, (n'.custody []).Present key ∨ lastFound log key = some false) :
    Kept log n' :=
  ⟨kept, fun a r hr => h.aware a r (by rwa [replica] at hr)⟩

/-- A step changes the SET of one actor. -/
theorem Kept.aware_update {log : List (ByteStr × Bool)} {n n' : InternalNode} {a : ActorId}
    {left : Option Replica} (h : Kept log n)
    (replica : n'.replica = Function.update n.replica a left)
    (ha : ∀ r, left = some r → r.isHandlingKey = false → 1 ≤ r.pendingRequests →
      lastFound log r.key = some false) (b : ActorId) (r : Replica) (hr : n'.replica b = some r)
    (hkey : r.isHandlingKey = false) (hpending : 1 ≤ r.pendingRequests) :
    lastFound log r.key = some false := by
  rw [replica] at hr
  by_cases hb : b = a
  · rw [hb, Function.update_self] at hr
    exact ha r hr hkey hpending
  · rw [Function.update_of_ne hb] at hr
    exact h.aware b r hr hkey hpending

/-- A SET may end where the node was not among the peers. -/
theorem Kept.drop {log : List (ByteStr × Bool)} {n n' : InternalNode} {a : ActorId} {r : Replica}
    (h : Kept log n) (hr : n.replica a = some r) (mail : n'.mail.Perm n.mail)
    (replica : n'.replica = Function.update n.replica a none)
    (stored : ∀ k, k ∈ n'.storage ↔ k ∈ n.storage) (hfound : lastFound log r.key = some false) :
    Kept log n' := by
  have hhand : (n.custody []).hand a = some r.key := congrArg (Option.map Replica.key) hr
  refine ⟨fun k hk => ?_, h.aware_update replica (by simp)⟩
  rw [(like_drop mail replica []).present]
  by_cases hkey : k = r.key
  · rw [hkey]
    exact .inr hfound
  · refine (h.kept k ((stored k).mp hk)).imp_left fun hp => hp.drop ?_
    rw [hhand, ne_eq, Option.some.injEq]
    exact Ne.symm hkey

/-- A SET that goes on. -/
theorem Kept.keep {log : List (ByteStr × Bool)} {n n' : InternalNode} {a : ActorId}
    {r r' : Replica} (h : Kept log n) (hr : n.replica a = some r) (mail : n'.mail.Perm n.mail)
    (replica : n'.replica = Function.update n.replica a (some r'))
    (stored : ∀ k, k ∈ n'.storage ↔ k ∈ n.storage) (hkey : r'.key = r.key)
    (hr' : r'.isHandlingKey = false → 1 ≤ r'.pendingRequests → lastFound log r'.key = some false) :
    Kept log n' := by
  refine ⟨fun k hk => ?_, h.aware_update replica fun r₁ hr₁ => ?_⟩
  · rw [(like_keep hr mail replica hkey []).present]
    exact h.kept k ((stored k).mp hk)
  · cases hr₁
    exact hr'

/-- The find phase of a SET returns. -/
theorem Kept.find {log : List (ByteStr × Bool)} {n n' : InternalNode} {a : ActorId} {r : Replica}
    {self : Bool} {count : Int} (hs : Sole [] n) (h : Kept log n) (hr : n.replica a = some r)
    (mail : n'.mail.Perm n.mail)
    (replica : n'.replica = Function.update n.replica a
      (some ⟨r.key, r.isHandlingKey || self, count, r.nErrors⟩))
    (stored : ∀ k, k ∈ n'.storage ↔ k ∈ n.storage) : Kept (log ++ [(r.key, self)]) n' := by
  have hhand : (n.custody []).hand a = some r.key := congrArg (Option.map Replica.key) hr
  refine ⟨fun k hk => ?_, fun b r' hr' hkey hpending => ?_⟩
  · rw [(like_keep hr mail replica rfl []).present, lastFound_append]
    by_cases hk' : k = r.key
    · rw [hk']
      exact .inl (.inr ⟨a, hhand⟩)
    · rw [if_neg hk']
      exact h.kept k ((stored k).mp hk)
  · rw [replica] at hr'
    rw [lastFound_append]
    by_cases hb : b = a
    · rw [hb, Function.update_self] at hr'
      cases hr'
      rw [if_pos rfl, (Bool.or_eq_false_iff.mp hkey).2]
    · -- no other SET is one of the same key
      rw [Function.update_of_ne hb] at hr'
      have hne : r'.key ≠ r.key := fun he => hb <| hs.sound.inj b a r.key
        ((congrArg (Option.map Replica.key) hr').trans (congrArg some he)) hhand
      rw [if_neg hne]
      exact h.aware b r' hr' hkey hpending

/-- A SET that ends well sets its timer again. -/
theorem Kept.renew {log : List (ByteStr × Bool)} {n n' : InternalNode} {a : ActorId} {r : Replica}
    (h : Kept log n) (hr : n.replica a = some r) (mail : n'.mail.Perm (r.key :: n.mail))
    (replica : n'.replica = Function.update n.replica a none)
    (stored : ∀ k, k ∈ n'.storage ↔ k ∈ n.storage) : Kept log n' := by
  have hhand : (n.custody []).hand a = some r.key := congrArg (Option.map Replica.key) hr
  refine ⟨fun k hk => ?_, h.aware_update replica (by simp)⟩
  rw [(like_renew mail replica []).present]
  by_cases hkey : k = r.key
  · rw [hkey]
    exact .inl Custody.present_put_self
  · refine (h.kept k ((stored k).mp hk)).imp_left fun hp => (hp.drop ?_).put
    rw [hhand, ne_eq, Option.some.injEq]
    exact Ne.symm hkey

theorem Kept.start {log : List (ByteStr × Bool)} {n n' : InternalNode} {a : ActorId}
    {key : ByteStr} (h : Kept log n) (free : n.replica a = none)
    (mail : n.mail.Perm (key :: n'.mail))
    (replica : n'.replica = Function.update n.replica a (some ⟨key, false, 0, 0⟩))
    (stored : ∀ k, k ∈ n'.storage ↔ k ∈ n.storage) : Kept log n' := by
  have hfree : (n.custody []).hand a = none := congrArg (Option.map Replica.key) free
  refine ⟨fun k hk => ?_, h.aware_update replica fun r hr hkey hpending => ?_⟩
  · rw [(like_take replica []).present]
    exact (h.kept k ((stored k).mp hk)).imp_left
      fun hp => hp.take (perm_cons_mail mail []) hfree
  · -- the SET has no requests yet
    cases hr
    simp at hpending

theorem Turn.kept {log : List (ByteStr × Bool)} {n n' : InternalNode}
    {found : Option (ByteStr × Bool)} {failed : Option ByteStr} (hs : Sole [] n) (h : Kept log n)
    (t : Turn n n' found failed) (spared : ∀ key ∈ failed, lastFound log key = some false) :
    Kept (log ++ found.toList) n' := by
  have hlog : log ++ (none : Option (ByteStr × Bool)).toList = log := List.append_nil log
  cases t with
  | idle hidle =>
    rw [hlog]
    refine h.of_replica hidle.replica fun key hk => ?_
    rw [(hidle.like []).present]
    exact h.kept key ((hidle.stored key).mp hk)
  | @store key new mail replica stored =>
    rw [hlog]
    refine h.of_replica replica fun k hk => ?_
    rw [(like_put mail replica []).present]
    rcases (stored k).mp hk with rfl | hk
    · exact .inl Custody.present_put_self
    · exact (h.kept k hk).imp_left Custody.Present.put
  | start free mail replica stored =>
    rw [hlog]
    exact h.start free mail replica stored
  | @lapse key gone mail replica stored =>
    refine absurd (hs.stored key (.inl ?_)) gone
    exact List.mem_append_right _ (mail.mem_iff.mpr (.head _))
  | @treat a r found failed left timers hr next mail replica stored =>
    cases next with
    | ignore =>
      rw [Option.map_none, hlog]
      exact h.keep hr mail replica stored rfl (h.aware a r hr)
    | receive errors hmore =>
      rw [Option.map_none, hlog]
      refine h.keep hr mail replica stored rfl fun hkey hpending => h.aware a r hr hkey ?_
      dsimp only at hpending
      omega
    | found self count => exact h.find hs hr mail replica stored
    | renew last hkey =>
      rw [Option.map_none, hlog]
      exact h.renew hr mail replica stored
    | leave last hkey =>
      rw [Option.map_none, hlog]
      exact h.drop hr mail replica stored (h.aware a r hr hkey (Int.le_of_eq last.symm))
    | fail =>
      rw [Option.map_none, hlog]
      exact h.drop hr mail replica stored (spared r.key rfl)

theorem kept_of_run {id : Id} {n2npId : N2NP.NodeId} {count : Int64}
    {n : InternalNode} {log : List (ByteStr × Bool)}
    (run : replications.Run Spared (.new id n2npId count) n log) :
    Placed n ∧ Sole [] n ∧ Kept log n := by
  have hnew : Kept [] (.new id n2npId count) := by
    refine ⟨fun key hk => ?_, fun a r hr => ?_⟩
    · simp [InternalNode.new] at hk
    · simp [replica, InternalNode.new] at hr
  refine run.invariant (P := fun n log => Placed n ∧ Sole [] n ∧ Kept log n)
    ⟨placed_new id n2npId count, sole_new id n2npId count, hnew⟩ ?_
  intro n log e n' out h spared taken
  obtain ⟨hn, hs, hk⟩ := h
  obtain ⟨r, hr, heq⟩ := Option.map_eq_some_iff.mp taken
  cases heq
  obtain ⟨n₁, hn₁, rfl⟩ := Option.map_eq_some_iff.mp hr
  have turn := handle_turn hn hn₁
  have hplaced := handle_placed hn hn₁
  have hsole := turn.sole hs
  have hkept := turn.kept hs hk spared
  exact ⟨hplaced, ⟨hsole.sound, hsole.stored⟩, hkept.kept, hkept.aware⟩

/-- As long as no replication ends in an error, a stored key is replicated until the node is no
more among the peers that a find phase returns for it. -/
theorem replicated_of_spared {id : Id} {n2npId : N2NP.NodeId}
    {count : Int64} {n : InternalNode} {log : List (ByteStr × Bool)}
    (run : replications.Run Spared (.new id n2npId count) n log) {key : ByteStr}
    (h : key ∈ n.storage) : 0 < n.activities key ∨ lastFound log key = some false := by
  obtain ⟨-, -, hkept⟩ := kept_of_run run
  rw [activities_pos]
  exact hkept.kept key h

/-- A SET that ends in an error takes its key with it. -/
theorem lost_of_ends {id : Id} {n2npId : N2NP.NodeId} {count : Int64}
    {n n' : InternalNode} {log out : List (ByteStr × Bool)} {e : Event}
    (run : replications.Run Spared (.new id n2npId count) n log)
    (taken : replications.step n e = some (n', out)) {key : ByteStr}
    (h : n.ends e = some key) : key ∈ n'.storage ∧ n'.activities key = 0 ∧ out = [] := by
  obtain ⟨hn, hs, -⟩ := kept_of_run run
  obtain ⟨r, hr, heq⟩ := Option.map_eq_some_iff.mp taken
  cases heq
  obtain ⟨n₁, hn₁, rfl⟩ := Option.map_eq_some_iff.mp hr
  have turn := handle_turn hn hn₁
  generalize n.looked e = found at turn ⊢
  rw [h] at turn
  have hzero : ¬(n₁.custody []).Present key → n₁.activities key = 0 := fun hp =>
    Nat.eq_zero_of_not_pos fun hpos => hp (activities_pos.mp hpos)
  generalize hfailed : some key = failed at turn
  cases turn with
  | @treat a r found failed left timers hr next mail replica stored =>
    have hhand : (n.custody []).hand a = some r.key := congrArg (Option.map Replica.key) hr
    cases next with
    | fail =>
      obtain rfl : key = r.key := by simpa using hfailed
      refine ⟨(stored _).mpr (hs.stored _ (.inr ⟨a, hhand⟩)), hzero fun hp => ?_, rfl⟩
      exact hs.sound.ne_of_drop hhand ((like_drop mail replica []).present.mp hp) rfl
    | _ => cases hfailed
  | _ => cases hfailed

/-- A packet of a peer. -/
def fromPeer (b : Byte) (content : Content) : Event :=
  .receive ⟨(Peer.numbered b).id, content⟩ (Peer.numbered b).n2npId 0

/-- The node 7 replicates a key: the peer 1, whom it asks for the nearest nodes, names the node
itself, 2 and 3. All four are asked to store the key, and 1 has done so. -/
def replicating : List Event :=
  [fromPeer 1 (.store 1 (lit "k") (lit "v")), .work 0 .zero, .work 0 .zero, .expire 0,
    .work 0 .zero, fromPeer 1 (.found 0 0 3 [Peer.numbered 7, Peer.numbered 2, Peer.numbered 3]),
    .work 0 .zero, .expire 3, .work 0 .zero, .expire 3, .work 0 .zero, .work 0 .zero,
    .work 0 .zero, fromPeer 1 (.stored 6 0), .work 0 .zero]

/-- The peer 2 stores the key as well, and the two other requests expire. -/
theorem replicated_of_spared_renewed :
    ∃ n log, replications.Run Spared
        (.new (Peer.numbered 7).id (Peer.numbered 7).n2npId 0) n log ∧
      lit "k" ∈ n.storage ∧ lastFound log (lit "k") = some true ∧
      (0 < n.activities (lit "k") ∨ lastFound log (lit "k") = some false) := by
  have h : (replications.exec (fun n log e => decide (Spared n log e))
      (.new (Peer.numbered 7).id (Peer.numbered 7).n2npId 0, []) (replicating ++
        [fromPeer 2 (.stored 5 0), .work 0 .zero, .expire 3, .work 0 .zero, .expire 3,
          .work 0 .zero])).map
        (fun r => (r.1.storage[lit "k"]?, lastFound r.2 (lit "k"))) =
        some (some (lit "v"), some true) := by
    decide +kernel
  obtain ⟨⟨n, log⟩, hrun, heq⟩ := Option.map_eq_some_iff.mp h
  obtain ⟨hvalue, hfound⟩ := Prod.mk.inj heq
  have run := (Machine.Run.exec .start hrun).of_decide
  have hk : lit "k" ∈ n.storage := mem_storage.mpr (by simp [hvalue])
  exact ⟨n, log, run, hk, hfound, replicated_of_spared run hk⟩

/-- The three other requests expire: the node was among the peers, and gives up the key. That it is
stored again changes nothing. -/
theorem lost_by_error :
    ∃ n log, replications.Run (fun _ _ _ => True)
        (.new (Peer.numbered 7).id (Peer.numbered 7).n2npId 0) n log ∧
      lit "k" ∈ n.storage ∧ n.activities (lit "k") = 0 ∧ lastFound log (lit "k") = some true := by
  have h : (replications.exec (fun _ _ _ => true)
      (.new (Peer.numbered 7).id (Peer.numbered 7).n2npId 0, []) (replicating ++
        [.expire 3, .work 0 .zero, .expire 3, .work 0 .zero, .expire 3, .work 0 .zero,
          fromPeer 2 (.store 1 (lit "k") (lit "w")), .work 0 .zero, .work 0 .zero])).map
        (fun r => (r.1.storage[lit "k"]?, r.1.activities (lit "k"), lastFound r.2 (lit "k"))) =
        some (some (lit "w"), 0, some true) := by
    decide +kernel
  obtain ⟨⟨n, log⟩, hrun, heq⟩ := Option.map_eq_some_iff.mp h
  obtain ⟨hvalue, hzero, hfound⟩ : _ ∧ _ ∧ _ := by simpa only [Prod.mk.injEq] using heq
  have hk : lit "k" ∈ n.storage := mem_storage.mpr (by simp [hvalue])
  exact ⟨n, log, (Machine.Run.exec .start hrun).free, hk, hzero, hfound⟩

end Epyx.DHT.InternalNode
