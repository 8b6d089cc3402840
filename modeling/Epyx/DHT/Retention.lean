import Epyx.DHT.Table

/-! Whom `KBucket::seenPeer` lets into a full bucket, and whom it gives up. -/
namespace Epyx.DHT.KBucket
open N2NP (NodeId)

/-- The bucket an id belongs to. -/
def bucketOf (own : Id) (t : KBucket × Peers) (id : Id) : List SPtr :=
  t.1.buckets.getD (index own id) []

/-- A peer with the id is in the table. -/
def Stored (t : KBucket × Peers) (id : Id) : Prop :=
  ∃ p ∈ t.1.buckets.flatten, (t.2.deref p).id = id

/-- The last call for a peer is more than `MAX_INACTIVE_PERIOD` ago. -/
def Inactive (calls : List Seen) (objects : Peers) (now : Int) (p : SPtr) : Prop :=
  ∃ d, lastSeen calls (objects.deref p).id = some d ∧ now - d.now > MAX_INACTIVE_PERIOD

/-- The last call for a peer was not after that for another one. -/
def SeenBefore (calls : List Seen) (objects : Peers) (p q : SPtr) : Prop :=
  ∃ d e, lastSeen calls (objects.deref p).id = some d ∧
    lastSeen calls (objects.deref q).id = some e ∧ d.now ≤ e.now

/-- The bucket of the call is full, and no peer in it is inactive. -/
def Busy (own : Id) (calls : List Seen) (t : KBucket × Peers) (c : Seen) : Prop :=
  NODES_PER_BUCKET ≤ (bucketOf own t c.peerId).length ∧
    ∀ p ∈ bucketOf own t c.peerId, ¬Inactive calls t.2 c.now p

/-- What a call of `seenPeer` makes of the table. -/
structure Effect (own : Id) (calls : List Seen) (t t' : KBucket × Peers) (c : Seen) : Prop where
  refresh : Stored t c.peerId → ∃ l p r, bucketOf own t c.peerId = l ++ p :: r ∧
    (t.2.deref p).id = c.peerId ∧ bucketOf own t' c.peerId = l ++ r ++ [p] ∧
    t'.2.deref p = ⟨⟨c.peerId, c.n2npId⟩, c.now⟩
  letIn : ¬Stored t c.peerId → (Stored t' c.peerId ↔
    (bucketOf own t c.peerId).length < NODES_PER_BUCKET ∨
      ∃ p ∈ bucketOf own t c.peerId, Inactive calls t.2 c.now p)
  room : ¬Stored t c.peerId → (bucketOf own t c.peerId).length < NODES_PER_BUCKET →
    bucketOf own t' c.peerId = bucketOf own t c.peerId ++ [t.2.length]
  evict : ¬Stored t c.peerId → NODES_PER_BUCKET ≤ (bucketOf own t c.peerId).length →
    (∃ p ∈ bucketOf own t c.peerId, Inactive calls t.2 c.now p) →
    ∃ front rest, bucketOf own t c.peerId = front :: rest ∧
      (∀ q ∈ rest, SeenBefore calls t.2 front q) ∧
      bucketOf own t' c.peerId = rest ++ [t.2.length]
  refuse : ¬Stored t c.peerId → Busy own calls t c →
    bucketOf own t' c.peerId = bucketOf own t c.peerId
  other : ∀ j, j ≠ index own c.peerId → t'.1.buckets.getD j [] = t.1.buckets.getD j []
  new : ¬Stored t c.peerId → t'.2.deref t.2.length = ⟨⟨c.peerId, c.n2npId⟩, c.now⟩
  same : ∀ p < t.2.length, (t.2.deref p).id ≠ c.peerId → t'.2.deref p = t.2.deref p

variable {own : Id} {calls : List Seen} {k : KBucket} {objects : Peers} {c : Seen}

theorem AllFiled.bucket_eq (h : AllFiled own k objects) (id : Id) (new : List SPtr) :
    (k.buckets.set (index own id) new).getD (index own id) [] = new := by
  have hlt : index own id < k.buckets.length := by
    rw [h.size]
    exact Distance.firstActiveBit_lt _
  simp [List.getD, hlt]

/-- A peer is in the table if it is in the bucket of its id. -/
theorem AllFiled.stored_iff (h : AllFiled own k objects) (id : Id) :
    Stored (k, objects) id ↔ ∃ p ∈ bucketOf own (k, objects) id, (objects.deref p).id = id := by
  constructor
  · rintro ⟨p, hp, hid⟩
    obtain ⟨peers, hpeers, hp⟩ := List.mem_flatten.mp hp
    obtain ⟨i, hi, rfl⟩ := List.mem_iff_getElem.mp hpeers
    have hget : k.buckets.getD i [] = k.buckets[i] := by simp [List.getD, hi]
    have hplace := (h.bucket i).place p (by rwa [hget])
    rw [hid] at hplace
    refine ⟨p, ?_, hid⟩
    rw [bucketOf, hplace, hget]
    exact hp
  · rintro ⟨p, hp, hid⟩
    have hlt : index own id < k.buckets.length := by
      rw [h.size]
      exact Distance.firstActiveBit_lt _
    rw [bucketOf, List.getD, List.getElem?_eq_getElem hlt] at hp
    exact ⟨p, List.mem_flatten.mpr ⟨_, List.getElem_mem hlt, hp⟩, hid⟩

/-- A call for a peer that is stored. -/
theorem AllFiled.seenPeer_stored (h : AllFiled own k objects)
    (hstored : Stored (k, objects) c.peerId) :
    ∃ l p r, bucketOf own (k, objects) c.peerId = l ++ p :: r ∧
      (objects.deref p).id = c.peerId ∧ p < objects.length ∧
      k.seenPeer objects c.peerId c.n2npId c.now =
        ({ k with buckets := k.buckets.set (index own c.peerId) (l ++ r ++ [p]) },
          objects.set p ⟨⟨c.peerId, c.n2npId⟩, c.now⟩, p) := by
  obtain ⟨q, hq, hqid⟩ := (h.stored_iff c.peerId).mp hstored
  unfold KBucket.seenPeer
  dsimp only
  rw [h.ownId, ← index]
  change ∃ l p r, k.buckets.getD (index own c.peerId) [] = _ ∧ _
  change q ∈ k.buckets.getD (index own c.peerId) [] at hq
  have hvalid := (h.bucket (index own c.peerId)).valid
  cases hfind : (k.buckets.getD (index own c.peerId) []).find?
      fun p => (objects.deref p).id = c.peerId with
  | none => exact absurd hqid (by simpa using List.find?_eq_none.mp hfind q hq)
  | some p =>
    obtain ⟨hp, l, r, hsplit, hl⟩ := List.find?_eq_some_iff_append.mp hfind
    have herase : (p :: r).eraseP (fun p => (objects.deref p).id = c.peerId) = r :=
      List.eraseP_cons_of_pos hp
    refine ⟨l, p, r, hsplit, by simpa using hp, hvalid p (by rw [hsplit]; simp), ?_⟩
    rw [hsplit, List.eraseP_append_right _ fun x hx => by simpa using hl x hx, herase]

/-- A call for a peer that is not. -/
theorem AllFiled.seenPeer_unknown (h : AllFiled own k objects)
    (hunknown : ¬Stored (k, objects) c.peerId) :
    k.seenPeer objects c.peerId c.n2npId c.now =
      ({ k with
          buckets := k.buckets.set (index own c.peerId)
            (let room := makeRoom objects c.now (bucketOf own (k, objects) c.peerId)
            if room.1 then room.2 ++ [objects.length] else room.2) },
        objects ++ [⟨⟨c.peerId, c.n2npId⟩, c.now⟩], objects.length) := by
  have hfind : (k.buckets.getD (index own c.peerId) []).find?
      (fun p => (objects.deref p).id = c.peerId) = none := by
    refine List.find?_eq_none.mpr fun p hp => ?_
    rw [decide_eq_true_iff]
    exact fun he => hunknown ((h.stored_iff c.peerId).mpr ⟨p, hp, he⟩)
  unfold KBucket.seenPeer
  dsimp only
  rw [h.ownId, ← index, hfind]
  rfl

/-- When the table was last told of the peers of a bucket. -/
theorem BucketOk.inactive_iff {i : Nat} {peers : List SPtr} (h : BucketOk own calls objects i peers)
    {p : SPtr} (hp : p ∈ peers) (now : Int) :
    Inactive calls objects now p ↔
      now - (objects.deref p).lastReceiveTime > MAX_INACTIVE_PERIOD := by
  simp [Inactive, h.last p hp]

theorem BucketOk.seenBefore {i : Nat} {front : SPtr} {rest : List SPtr}
    (h : BucketOk own calls objects i (front :: rest)) {q : SPtr} (hq : q ∈ rest) :
    SeenBefore calls objects front q :=
  ⟨_, _, h.last front (List.mem_cons_self ..), h.last q (.tail _ hq),
    (List.pairwise_cons.mp h.sorted).1 q hq⟩

/-- The front of a bucket speaks for all of it: as the bucket is ordered by time, a peer in it is
inactive just when the front is. -/
theorem BucketOk.inactive_front {i : Nat} {front : SPtr} {rest : List SPtr}
    (h : BucketOk own calls objects i (front :: rest)) (now : Int) :
    (∃ p ∈ front :: rest, Inactive calls objects now p) ↔
      now - (objects.deref front).lastReceiveTime > MAX_INACTIVE_PERIOD := by
  constructor
  · rintro ⟨p, hp, hold⟩
    rw [h.inactive_iff hp] at hold
    rcases List.mem_cons.mp hp with rfl | hp
    · exact hold
    · have hle := (List.pairwise_cons.mp h.sorted).1 p hp
      omega
  · intro hold
    exact ⟨front, List.mem_cons_self .., (h.inactive_iff (List.mem_cons_self ..) now).mpr hold⟩

/-- `makeRoom` decides about the whole bucket. -/
theorem BucketOk.makeRoom_eq {i : Nat} {peers : List SPtr} (h : BucketOk own calls objects i peers)
    (now : Int) :
    (peers.length < NODES_PER_BUCKET ∧ makeRoom objects now peers = (true, peers)) ∨
    (NODES_PER_BUCKET ≤ peers.length ∧ ∃ front rest, peers = front :: rest ∧
      ((∃ p ∈ peers, Inactive calls objects now p) ∧
          makeRoom objects now peers = (true, rest) ∨
        (¬∃ p ∈ peers, Inactive calls objects now p) ∧
          makeRoom objects now peers = (false, peers))) := by
  by_cases hlt : peers.length < NODES_PER_BUCKET
  · exact .inl ⟨hlt, if_pos hlt⟩
  · cases peers with
    | nil => exact absurd (by decide) hlt
    | cons front rest =>
      refine .inr ⟨Nat.le_of_not_lt hlt, front, rest, rfl, ?_⟩
      rw [h.inactive_front now]
      by_cases hold : now - (objects.deref front).lastReceiveTime > MAX_INACTIVE_PERIOD
      · exact .inl ⟨hold, by rw [makeRoom, if_neg hlt]; exact if_pos hold⟩
      · exact .inr ⟨hold, by rw [makeRoom, if_neg hlt]; exact if_neg hold⟩

theorem BucketOk.makeRoom_iff {i : Nat} {peers : List SPtr} (h : BucketOk own calls objects i peers)
    (now : Int) :
    (makeRoom objects now peers).1 = true ↔
      peers.length < NODES_PER_BUCKET ∨ ∃ p ∈ peers, Inactive calls objects now p := by
  rcases h.makeRoom_eq now with ⟨hlt, he⟩ | ⟨hge, _, _, -, ⟨hi, he⟩ | ⟨hno, he⟩⟩
  · exact iff_of_true (congrArg Prod.fst he) (.inl hlt)
  · exact iff_of_true (congrArg Prod.fst he) (.inr hi)
  · refine iff_of_false (fun htrue => ?_) fun hor => hor.elim (Nat.not_lt.mpr hge) hno
    exact Bool.false_ne_true ((congrArg Prod.fst he).symm.trans htrue)

theorem bucket_other (k : KBucket) {j : Nat} {id : Id} (hj : j ≠ index own id) (new : List SPtr) :
    (k.buckets.set (index own id) new).getD j [] = k.buckets.getD j [] := by
  simp [List.getD, List.getElem?_set_ne (Ne.symm hj)]

/-- The table behind a call. -/
def afterSeen (t : KBucket × Peers) (c : Seen) : KBucket × Peers :=
  ((t.1.seenPeer t.2 c.peerId c.n2npId c.now).1, (t.1.seenPeer t.2 c.peerId c.n2npId c.now).2.1)

theorem seenAll_concat (own : Id) (calls : List Seen) (c : Seen) :
    seenAll own (calls ++ [c]) = afterSeen (seenAll own calls) c := by
  rw [seenAll, List.foldl_append]
  rfl

/-- A peer that is stored is refreshed. -/
theorem Sound.effect_stored (h : Sound own calls k objects)
    (hstored : Stored (k, objects) c.peerId) :
    Effect own calls (k, objects) (afterSeen (k, objects) c) c := by
  obtain ⟨l, p, r, hsplit, hid, hlt, heq⟩ := h.allFiled.seenPeer_stored hstored
  have ht : afterSeen (k, objects) c =
      ({ k with buckets := k.buckets.set (index own c.peerId) (l ++ r ++ [p]) },
        objects.set p ⟨⟨c.peerId, c.n2npId⟩, c.now⟩) := by rw [afterSeen, heq]
  have hbucket := h.allFiled.bucket_eq c.peerId (l ++ r ++ [p])
  rw [ht]
  refine ⟨fun _ => ⟨l, p, r, hsplit, hid, hbucket, Peers.deref_set_self hlt _⟩, absurd hstored,
    absurd hstored, absurd hstored, absurd hstored, fun j hj => bucket_other k hj _,
    absurd hstored, fun q _ hq => ?_⟩
  exact Peers.deref_set_of_ne (by rintro rfl; exact hq hid) _

/-- The table behind a call for a peer that is not stored, by what `makeRoom` has made of the
bucket. -/
theorem Sound.afterSeen_unknown (h : Sound own calls k objects)
    (hunknown : ¬Stored (k, objects) c.peerId) {room : Bool × List SPtr}
    (hroom : makeRoom objects c.now (bucketOf own (k, objects) c.peerId) = room) :
    let new := if room.1 then room.2 ++ [objects.length] else room.2
    afterSeen (k, objects) c = ({ k with buckets := k.buckets.set (index own c.peerId) new },
        objects ++ [⟨⟨c.peerId, c.n2npId⟩, c.now⟩]) ∧
      bucketOf own (afterSeen (k, objects) c) c.peerId = new := by
  have ht := h.allFiled.seenPeer_unknown hunknown
  rw [hroom] at ht
  rw [afterSeen, ht]
  exact ⟨rfl, h.allFiled.bucket_eq c.peerId _⟩

/-- A peer that is not stored is let in if there is room for it, or room is made. -/
theorem Sound.letIn_unknown (h : Sound own calls k objects)
    (hunknown : ¬Stored (k, objects) c.peerId) :
    Stored (afterSeen (k, objects) c) c.peerId ↔
      (makeRoom objects c.now (bucketOf own (k, objects) c.peerId)).1 = true := by
  obtain ⟨room, hroom⟩ : ∃ room,
      makeRoom objects c.now (bucketOf own (k, objects) c.peerId) = room := ⟨_, rfl⟩
  obtain ⟨ht, hbucket⟩ := h.afterSeen_unknown hunknown hroom
  have hfiled := h.allFiled.seenPeer c
  rw [hroom, (show Stored (afterSeen (k, objects) c) c.peerId ↔ _ from hfiled.stored_iff _)]
  change (∃ p ∈ bucketOf own (afterSeen (k, objects) c) c.peerId,
    (Peers.deref (afterSeen (k, objects) c).2 p).id = c.peerId) ↔ _
  rw [hbucket, ht]
  constructor
  · rintro ⟨p, hp, hid⟩
    by_contra hno
    have hsub : room.2 ⊆ bucketOf own (k, objects) c.peerId :=
      hroom ▸ (makeRoom_sublist _ _ _).subset
    rw [if_neg hno] at hp
    rw [Peers.deref_append ((h.bucket (index own c.peerId)).valid p (hsub hp))] at hid
    exact hunknown ((h.allFiled.stored_iff _).mpr ⟨p, hsub hp, hid⟩)
  · intro hyes
    rw [if_pos hyes]
    exact ⟨objects.length, by simp, by rw [Peers.deref_length]⟩

theorem Sound.effect_unknown (h : Sound own calls k objects)
    (hunknown : ¬Stored (k, objects) c.peerId) :
    Effect own calls (k, objects) (afterSeen (k, objects) c) c := by
  have hb : BucketOk own calls objects (index own c.peerId) (bucketOf own (k, objects) c.peerId) :=
    h.bucket (index own c.peerId)
  obtain ⟨room, hroom⟩ : ∃ room,
      makeRoom objects c.now (bucketOf own (k, objects) c.peerId) = room := ⟨_, rfl⟩
  obtain ⟨ht, hbucket⟩ := h.afterSeen_unknown hunknown hroom
  refine ⟨fun hs => absurd hs hunknown, fun _ => (h.letIn_unknown hunknown).trans
    (hb.makeRoom_iff c.now), fun _ hlt => ?_, fun _ hge hinactive => ?_,
    fun _ hbusy => ?_, fun j hj => ?_, fun _ => ?_, fun p hp _ => ?_⟩
  · rcases hb.makeRoom_eq c.now with ⟨-, he⟩ | ⟨hge, -⟩
    · rw [hbucket, ← hroom, he, if_pos rfl]
    · exact absurd hlt (Nat.not_lt.mpr hge)
  · rcases hb.makeRoom_eq c.now with ⟨hlt, -⟩ | ⟨-, front, rest, hsplit, ⟨-, he⟩ | ⟨hno, -⟩⟩
    · exact absurd hlt (Nat.not_lt.mpr hge)
    · rw [hbucket, ← hroom, he, if_pos rfl]
      rw [hsplit] at hb
      exact ⟨front, rest, hsplit, fun q hq => hb.seenBefore hq, rfl⟩
    · exact absurd hinactive hno
  · rcases hb.makeRoom_eq c.now with ⟨hlt, -⟩ | ⟨-, _, _, -, ⟨⟨p, hp, hpi⟩, -⟩ | ⟨-, he⟩⟩
    · exact absurd hlt (Nat.not_lt.mpr hbusy.1)
    · exact absurd hpi (hbusy.2 p hp)
    · rw [hbucket, ← hroom, he]
      rfl
  · rw [ht]
    exact bucket_other k hj _
  · rw [ht]
    exact Peers.deref_length _ _
  · rw [ht]
    exact Peers.deref_append hp _

theorem Sound.effect (h : Sound own calls k objects) (c : Seen) :
    Effect own calls (k, objects) (afterSeen (k, objects) c) c := by
  by_cases hstored : Stored (k, objects) c.peerId
  · exact h.effect_stored hstored
  · exact h.effect_unknown hstored

/-- A call for a peer that is not stored keeps those of its bucket that are not inactive: what it
may take out is the front, which was last seen before all others. -/
theorem Effect.mem_bucket {t t' : KBucket × Peers} (he : Effect own calls t t' c)
    (hunknown : ¬Stored t c.peerId) {p : SPtr} (hp : p ∈ bucketOf own t c.peerId)
    (hactive : ¬Inactive calls t.2 c.now p) : p ∈ bucketOf own t' c.peerId := by
  by_cases hroom : (bucketOf own t c.peerId).length < NODES_PER_BUCKET
  · rw [he.room hunknown hroom]
    exact List.mem_append_left _ hp
  · by_cases hold : ∃ q ∈ bucketOf own t c.peerId, Inactive calls t.2 c.now q
    · obtain ⟨front, rest, hsplit, hbefore, hbucket⟩ :=
        he.evict hunknown (Nat.le_of_not_lt hroom) hold
      obtain ⟨q, hq, hqi⟩ := hold
      rw [hsplit] at hp hq
      rw [hbucket]
      rcases List.mem_cons.mp hp with rfl | hp
      · -- the front is not inactive, and then no other one is
        rcases List.mem_cons.mp hq with rfl | hq
        · exact absurd hqi hactive
        · obtain ⟨d, e, hd, he', hle⟩ := hbefore q hq
          obtain ⟨e', hqe, hlate⟩ := hqi
          rw [hqe, Option.some.injEq] at he'
          subst he'
          exact absurd ⟨d, hd, by omega⟩ hactive
      · exact List.mem_append_left _ hp
    · rwa [he.refuse hunknown ⟨Nat.le_of_not_lt hroom, fun q hq hqi => hold ⟨q, hq, hqi⟩⟩]

/-- A call keeps a peer that was not long ago. -/
theorem Sound.stored_afterSeen (h : Sound own calls k objects) {id : Id}
    (hstored : Stored (k, objects) id)
    (hrecent : ∀ d, lastSeen calls id = some d → c.now - d.now ≤ MAX_INACTIVE_PERIOD) :
    Stored (afterSeen (k, objects) c) id := by
  have he := h.effect c
  have hfiled := h.allFiled.seenPeer c
  refine (hfiled.stored_iff id).mpr ?_
  change ∃ p ∈ bucketOf own (afterSeen (k, objects) c) id,
    (Peers.deref (afterSeen (k, objects) c).2 p).id = id
  obtain ⟨p, hp, hid⟩ := (h.allFiled.stored_iff id).mp hstored
  by_cases hc : c.peerId = id
  · rw [← hc] at hstored ⊢
    obtain ⟨l, q, r, -, -, hbucket, hq⟩ := he.refresh hstored
    exact ⟨q, by rw [hbucket]; simp, by rw [hq]⟩
  · have hlt := (h.bucket (index own id)).valid p hp
    refine ⟨p, ?_, by rw [he.same p hlt (by rw [hid]; exact Ne.symm hc), hid]⟩
    by_cases hi : index own id = index own c.peerId
    · have hsame : ∀ t, bucketOf own t id = bucketOf own t c.peerId := fun t => by
        rw [bucketOf, bucketOf, hi]
      rw [hsame] at hp ⊢
      by_cases hknown : Stored (k, objects) c.peerId
      · obtain ⟨l, q, r, hsplit, hq, hbucket, -⟩ := he.refresh hknown
        have hpq : p ≠ q := by
          rintro rfl
          exact hc (hq.symm.trans hid)
        rw [hsplit] at hp
        rw [hbucket]
        simpa [hpq] using hp
      · refine he.mem_bucket hknown hp ?_
        rintro ⟨d, hd, hlate⟩
        rw [hid] at hd
        exact Int.not_le.mpr hlate (hrecent d hd)
    · rw [bucketOf, he.other _ hi]
      exact hp

/-- At each of the later calls the last one for the id is no longer ago than that. -/
def SeenWithin (before later : List Seen) (id : Id) : Prop :=
  ∀ n c d, later[n]? = some c → lastSeen (before ++ later.take n) id = some d →
    c.now - d.now ≤ MAX_INACTIVE_PERIOD

theorem stored_of_seenWithin {before later : List Seen} {id : Id}
    (hclock : (before ++ later).Pairwise fun c d => c.now ≤ d.now)
    (hstored : Stored (seenAll own before) id) (hrecent : SeenWithin before later id) :
    Stored (seenAll own (before ++ later)) id := by
  induction later using List.reverseRecOn with
  | nil => rwa [List.append_nil]
  | append_singleton later c ih =>
    rw [← List.append_assoc] at hclock ⊢
    have hlater := (List.pairwise_append.mp hclock).1
    have hkept := ih hlater fun n d e hd he => by
      have hn := (List.getElem?_eq_some_iff.mp hd).1
      refine hrecent n d e ?_ ?_
      · rw [List.getElem?_append_left hn]
        exact hd
      · rw [List.take_append_of_le_length hn.le]
        exact he
    rw [seenAll_concat]
    exact (sound_seenAll own _ hlater).stored_afterSeen hkept fun d hd =>
      hrecent later.length c d (by simp) (by simpa using hd)

/-- While the clock does not go back, a call refreshes a peer that is stored; it lets another one
in just when there is room in its bucket or an inactive peer in it, and then the least recently
seen one goes. So a peer stays as long as it is seen often enough, whatever calls come. -/
theorem seenPeer_retains (own : Id) (calls : List Seen)
    (hclock : calls.Pairwise fun c d => c.now ≤ d.now) :
    (∀ c, (∀ d ∈ calls, d.now ≤ c.now) →
      Effect own calls (seenAll own calls) (seenAll own (calls ++ [c])) c) ∧
    ∀ later id, (calls ++ later).Pairwise (fun c d => c.now ≤ d.now) →
      Stored (seenAll own calls) id → SeenWithin calls later id →
      Stored (seenAll own (calls ++ later)) id := by
  refine ⟨fun c _ => ?_, fun later id => stored_of_seenWithin⟩
  rw [seenAll_concat]
  exact (sound_seenAll own calls hclock).effect c

/-- A full bucket, and one more peer that belongs to it. -/
theorem seenPeer_retains_full :
    let seen : Nat → Seen := fun k =>
      let p := Peer.numbered (UInt8.ofNat (128 + k))
      ⟨p.id, p.n2npId, k⟩
    let calls := (List.range 20).map seen
    (bucketOf .zero (seenAll .zero calls) (seen 20).peerId).length = NODES_PER_BUCKET ∧
    Effect .zero calls (seenAll .zero calls) (seenAll .zero (calls ++ [seen 20])) (seen 20) ∧
    Stored (seenAll .zero (calls ++ [seen 20])) (seen 0).peerId := by
  intro seen calls
  have hclock : calls.Pairwise fun c d => c.now ≤ d.now := by decide +kernel
  have hlater : (calls ++ [seen 20]).Pairwise fun c d => c.now ≤ d.now := by decide +kernel
  have hfull : (bucketOf .zero (seenAll .zero calls) (seen 20).peerId).length =
      NODES_PER_BUCKET := by decide +kernel
  have hstored : Stored (seenAll .zero calls) (seen 0).peerId :=
    ⟨0, by decide +kernel, by decide +kernel⟩
  have hlast : lastSeen calls (seen 0).peerId = some (seen 0) := by decide +kernel
  have hwithin : SeenWithin calls [seen 20] (seen 0).peerId := by
    intro n c d hn hd
    cases n with
    | zero =>
      rw [List.take_zero, List.append_nil, hlast] at hd
      cases hn
      cases hd
      decide
    | succ n => cases hn
  exact ⟨hfull, (seenPeer_retains .zero calls hclock).1 (seen 20) (by decide +kernel),
    (seenPeer_retains .zero calls hclock).2 [seen 20] _ hlater hstored hwithin⟩

end Epyx.DHT.KBucket
