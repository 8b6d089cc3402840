import Epyx.DHT.KBucket
import Mathlib.Data.List.Nodup
import Mathlib.Data.List.Pairwise

/-! What the routing table holds after any calls of `seenPeer` while the clock does not go back. -/
namespace Epyx.DHT
open N2NP (NodeId)

structure Seen where
  peerId : Id
  n2npId : NodeId
  now : Int
  deriving DecidableEq, Repr

/-- The last call for an id. -/
def lastSeen (calls : List Seen) (id : Id) : Option Seen := calls.reverse.find? (·.peerId = id)

theorem lastSeen_concat (calls : List Seen) (c : Seen) (id : Id) :
    lastSeen (calls ++ [c]) id = if c.peerId = id then some c else lastSeen calls id := by
  rw [lastSeen, List.reverse_append, List.reverse_singleton, List.singleton_append,
    List.find?_cons, lastSeen]
  by_cases h : c.peerId = id <;> simp [h]

theorem mem_of_lastSeen {calls : List Seen} {id : Id} {c : Seen} (h : lastSeen calls id = some c) :
    c ∈ calls ∧ c.peerId = id :=
  ⟨List.mem_reverse.mp (List.mem_of_find?_eq_some h), by simpa using List.find?_some h⟩

namespace Peers

theorem deref_append {objects : Peers} {p : SPtr} (h : p < objects.length) (x : SharedPeer) :
    deref (objects ++ [x]) p = deref objects p := by
  simp [deref, List.getElem?_append_left h]

theorem deref_length (objects : Peers) (x : SharedPeer) :
    deref (objects ++ [x]) objects.length = x := by
  simp [deref]

theorem deref_set_self {objects : Peers} {p : SPtr} (h : p < objects.length) (x : SharedPeer) :
    deref (objects.set p x) p = x := by
  simp [deref, h]

theorem deref_set_of_ne {objects : Peers} {p q : SPtr} (h : q ≠ p) (x : SharedPeer) :
    deref (objects.set p x) q = deref objects q := by
  simp [deref, List.getElem?_set_ne (Ne.symm h)]

end Peers

namespace KBucket

/-- The bucket of an id, in the table of a node. -/
def index (own id : Id) : Nat := (Distance.between own id).firstActiveBit

/-- The peers in the bucket with an index belong there, each once. -/
structure Filed (own : Id) (objects : Peers) (i : Nat) (peers : List SPtr) : Prop where
  valid : ∀ p ∈ peers, p < objects.length
  place : ∀ p ∈ peers, index own (objects.deref p).id = i
  nodup : (peers.map fun p => (objects.deref p).id).Nodup

/-- A table whose peers are where they belong, whatever the clock has shown. -/
structure AllFiled (own : Id) (k : KBucket) (objects : Peers) : Prop where
  ownId : k.ownId = own
  size : k.buckets.length = 256
  bucket : ∀ i, Filed own objects i (k.buckets.getD i [])

/-- What a call of `seenPeer` makes of the bucket of its peer: some peers stay, and behind them
stands the peer of the call if it was let in. -/
structure Refiled (peers : List SPtr) (objects : Peers) (c : Seen) (new rest : List SPtr)
    (objects' : Peers) : Prop where
  sublist : rest.Sublist peers
  other : ∀ p ∈ rest, (objects.deref p).id ≠ c.peerId
  length : objects.length ≤ objects'.length
  same : ∀ p < objects.length, (objects.deref p).id ≠ c.peerId → objects'.deref p = objects.deref p
  new : new = rest ∨ ∃ q, new = rest ++ [q] ∧
    (peers.length ≤ NODES_PER_BUCKET → rest.length < NODES_PER_BUCKET) ∧ q < objects'.length ∧
    objects'.deref q = ⟨⟨c.peerId, c.n2npId⟩, c.now⟩

/-- What is known of the peers in the bucket with an index after some calls. -/
structure BucketOk (own : Id) (calls : List Seen) (objects : Peers) (i : Nat) (peers : List SPtr) :
    Prop where
  valid : ∀ p ∈ peers, p < objects.length
  place : ∀ p ∈ peers, index own (objects.deref p).id = i
  nodup : (peers.map fun p => (objects.deref p).id).Nodup
  short : peers.length ≤ NODES_PER_BUCKET
  sorted : peers.Pairwise fun p q =>
    (objects.deref p).lastReceiveTime ≤ (objects.deref q).lastReceiveTime
  last : ∀ p ∈ peers, lastSeen calls (objects.deref p).id =
    some ⟨(objects.deref p).id, (objects.deref p).n2npId, (objects.deref p).lastReceiveTime⟩

variable {own : Id} {calls : List Seen} {objects objects' : Peers} {i : Nat}
  {peers rest : List SPtr}

/-- Some peers stay where they are, and the objects they are do not change. -/
theorem Filed.keep (h : Filed own objects i peers) (hrest : rest.Sublist peers)
    (hsame : ∀ p ∈ rest, objects'.deref p = objects.deref p)
    (hlen : objects.length ≤ objects'.length) : Filed own objects' i rest := by
  have hin := hrest.subset
  refine ⟨fun p hp => Nat.lt_of_lt_of_le (h.valid p (hin hp)) hlen, fun p hp => ?_, ?_⟩
  · rw [hsame p hp]
    exact h.place p (hin hp)
  · have hmap : (rest.map fun p => (objects'.deref p).id) =
        rest.map fun p => (objects.deref p).id := List.map_congr_left fun p hp => by rw [hsame p hp]
    rw [hmap]
    exact h.nodup.sublist (hrest.map _)

/-- A peer with a new id is put at the end. -/
theorem Filed.concat (h : Filed own objects i peers) {q : SPtr} (hq : q < objects.length)
    (hi : index own (objects.deref q).id = i)
    (hnew : ∀ p ∈ peers, (objects.deref p).id ≠ (objects.deref q).id) :
    Filed own objects i (peers ++ [q]) := by
  have hmem : ∀ {p}, p ∈ peers ++ [q] → p ∈ peers ∨ p = q := fun hp =>
    (List.mem_append.mp hp).imp_right List.mem_singleton.mp
  refine ⟨fun p hp => ?_, fun p hp => ?_, ?_⟩
  · rcases hmem hp with hp | rfl
    · exact h.valid p hp
    · exact hq
  · rcases hmem hp with hp | rfl
    · exact h.place p hp
    · exact hi
  · rw [List.map_append, List.map_singleton]
    refine List.nodup_append.mpr ⟨h.nodup, List.nodup_singleton _, fun a ha b hb hab => ?_⟩
    obtain ⟨p, hp, rfl⟩ := List.mem_map.mp ha
    exact hnew p hp (hab.trans (List.mem_singleton.mp hb))

theorem BucketOk.filed (h : BucketOk own calls objects i peers) : Filed own objects i peers :=
  ⟨h.valid, h.place, h.nodup⟩

/-- Some peers stay where they are, none of which the call is about. -/
theorem BucketOk.keep (h : BucketOk own calls objects i peers) (hrest : rest.Sublist peers)
    (hsame : ∀ p ∈ rest, objects'.deref p = objects.deref p)
    (hlen : objects.length ≤ objects'.length) {c : Seen}
    (hother : ∀ p ∈ rest, (objects.deref p).id ≠ c.peerId) :
    BucketOk own (calls ++ [c]) objects' i rest := by
  have hfiled := h.filed.keep hrest hsame hlen
  refine ⟨hfiled.valid, hfiled.place, hfiled.nodup, hrest.length_le.trans h.short, ?_,
    fun p hp => ?_⟩
  · refine (h.sorted.sublist hrest).imp_of_mem fun {p q} hp hq hpq => ?_
    rwa [hsame p hp, hsame q hq]
  · rw [hsame p hp, lastSeen_concat, if_neg (Ne.symm (hother p hp))]
    exact h.last p (hrest.subset hp)

/-- The peer of the call is put at the end of its bucket. -/
theorem BucketOk.push (h : BucketOk own calls objects i peers) (hrest : rest.Sublist peers)
    (hsame : ∀ p ∈ rest, objects'.deref p = objects.deref p)
    (hlen : objects.length ≤ objects'.length) {c : Seen}
    (hother : ∀ p ∈ rest, (objects.deref p).id ≠ c.peerId) (hroom : rest.length < NODES_PER_BUCKET)
    (hi : index own c.peerId = i) (hclock : ∀ d ∈ calls, d.now ≤ c.now) {q : SPtr}
    (hq : q < objects'.length) (hnew : objects'.deref q = ⟨⟨c.peerId, c.n2npId⟩, c.now⟩) :
    BucketOk own (calls ++ [c]) objects' i (rest ++ [q]) := by
  have hkeep := h.keep hrest hsame hlen hother
  have hid : (objects'.deref q).id = c.peerId := by rw [hnew]
  have hfiled := hkeep.filed.concat hq (by rw [hid, hi]) fun p hp => by
    rw [hsame p hp, hid]
    exact hother p hp
  refine ⟨hfiled.valid, hfiled.place, hfiled.nodup, ?_, ?_, fun p hp => ?_⟩
  · rw [List.length_append, List.length_singleton]
    exact hroom
  · refine List.pairwise_append.mpr ⟨hkeep.sorted, List.pairwise_singleton _ _, fun p hp x hx => ?_⟩
    -- what is stored of a peer was the time of an earlier call
    rw [List.mem_singleton.mp hx, hsame p hp, hnew]
    exact hclock _ (mem_of_lastSeen (h.last p (hrest.subset hp))).1
  · rcases List.mem_append.mp hp with hp | hp
    · exact hkeep.last p hp
    · rw [List.mem_singleton.mp hp, hnew, lastSeen_concat, if_pos rfl]

/-- Without the first peer that has an id, no peer is left that has it. -/
theorem ne_of_mem_eraseP (h : (peers.map fun p => (objects.deref p).id).Nodup) {id : Id} {p : SPtr}
    (hp : p ∈ peers.eraseP fun p => (objects.deref p).id = id) : (objects.deref p).id ≠ id := by
  induction peers with
  | nil => cases hp
  | cons q peers ih =>
    obtain ⟨hq, hnodup⟩ := List.nodup_cons.mp h
    rw [List.eraseP_cons] at hp
    by_cases hid : (objects.deref q).id = id
    · rw [decide_eq_true hid] at hp
      exact fun he => hq (List.mem_map.mpr ⟨p, hp, he.trans hid.symm⟩)
    · rw [decide_eq_false hid] at hp
      rcases List.mem_cons.mp hp with rfl | hp
      · exact hid
      · exact ih hnodup hp

theorem AllFiled.new (own : Id) : AllFiled own (.new own) [] := by
  refine ⟨rfl, List.length_replicate, fun i => ?_⟩
  have hempty : (KBucket.new own).buckets.getD i [] = [] := by
    rw [KBucket.new, List.getD, List.getElem?_replicate]
    split <;> rfl
  rw [hempty]
  exact ⟨nofun, nofun, List.nodup_nil⟩

/-- A call writes one bucket. -/
theorem AllFiled.seenPeer_refiled {k : KBucket} (h : AllFiled own k objects) (c : Seen) :
    ∃ new rest, (k.seenPeer objects c.peerId c.n2npId c.now).1 =
        { k with buckets := k.buckets.set (index own c.peerId) new } ∧
      Refiled (k.buckets.getD (index own c.peerId) []) objects c new rest
        (k.seenPeer objects c.peerId c.n2npId c.now).2.1 := by
  obtain ⟨own, buckets⟩ := k
  obtain rfl := h.ownId
  have hb := h.bucket (index own c.peerId)
  unfold KBucket.seenPeer
  dsimp only
  rw [← index]
  split
  · -- the peer is refreshed and goes to the end of its bucket
    rename_i p hfind
    have hp := List.mem_of_find?_eq_some hfind
    have hid : (objects.deref p).id = c.peerId := by simpa using List.find?_some hfind
    have hlt := hb.valid p hp
    refine ⟨_, _, rfl, List.eraseP_sublist .., fun q hq => ne_of_mem_eraseP hb.nodup hq, by simp,
      fun q _ hq => Peers.deref_set_of_ne (by rintro rfl; exact hq hid) _,
      .inr ⟨p, rfl, fun hshort => ?_, by simpa using hlt, Peers.deref_set_self hlt _⟩⟩
    rw [List.length_eraseP_of_mem hp (by simpa using hid)]
    exact Nat.lt_of_lt_of_le (Nat.sub_one_lt_of_lt (List.length_pos_of_mem hp)) hshort
  · -- the peer is new: it is put into its bucket if there is room
    rename_i hfind
    have hsub := makeRoom_sublist objects c.now (buckets.getD (index own c.peerId) [])
    refine ⟨_, _, rfl, hsub,
      fun q hq => by simpa using List.find?_eq_none.mp hfind q (hsub.subset hq), by simp,
      fun q hq _ => Peers.deref_append hq _, ?_⟩
    split
    · exact .inr ⟨_, rfl, fun hshort => makeRoom_lt hshort ‹_›, by simp, Peers.deref_length _ _⟩
    · exact .inl rfl

/-- What holds of the bucket that a call writes, and of the others, holds of all. -/
theorem AllFiled.forall_set {k : KBucket} (h : AllFiled own k objects) {P : Nat → List SPtr → Prop}
    {id : Id} {new : List SPtr} (hnew : P (index own id) new)
    (hrest : ∀ j, j ≠ index own id → P j (k.buckets.getD j [])) (j : Nat) :
    P j ((k.buckets.set (index own id) new).getD j []) := by
  have hlt : index own id < k.buckets.length := by
    rw [h.size]
    exact Distance.firstActiveBit_lt _
  by_cases hj : j = index own id
  · subst hj
    have hget : (k.buckets.set (index own id) new).getD (index own id) [] = new := by
      simp [List.getD, hlt]
    rwa [hget]
  · have hget : (k.buckets.set (index own id) new).getD j [] = k.buckets.getD j [] := by
      simp [List.getD, List.getElem?_set_ne (Ne.symm hj)]
    rw [hget]
    exact hrest j hj

/-- The peers of the other buckets are not those of the call. -/
theorem Filed.ne_of_index {j : Nat} {id : Id} (h : Filed own objects j peers)
    (hj : j ≠ index own id) {p : SPtr} (hp : p ∈ peers) : (objects.deref p).id ≠ id := fun he =>
  hj (by rw [← h.place p hp, he])

theorem AllFiled.seenPeer {k : KBucket} (h : AllFiled own k objects) (c : Seen) :
    AllFiled own (k.seenPeer objects c.peerId c.n2npId c.now).1
      (k.seenPeer objects c.peerId c.n2npId c.now).2.1 := by
  obtain ⟨new, rest, hk, hr⟩ := h.seenPeer_refiled c
  rw [hk]
  refine ⟨h.ownId, by simpa using h.size, h.forall_set ?_ fun j hj => ?_⟩
  · have hb := h.bucket (index own c.peerId)
    have hsame : ∀ p ∈ rest, Peers.deref _ p = objects.deref p := fun p hp =>
      hr.same p (hb.valid p (hr.sublist.subset hp)) (hr.other p hp)
    have hkeep := hb.keep hr.sublist hsame hr.length
    rcases hr.new with rfl | ⟨q, rfl, -, hq, hdq⟩
    · exact hkeep
    · refine hkeep.concat hq (by rw [hdq]) fun p hp => ?_
      rw [hsame p hp, hdq]
      exact hr.other p hp
  · have hb := h.bucket j
    exact hb.keep (.refl _) (fun p hp => hr.same p (hb.valid p hp) (hb.ne_of_index hj hp)) hr.length

/-- No id is in two buckets, as the bucket is determined by the id. -/
theorem AllFiled.ids_nodup {k : KBucket} (h : AllFiled own k objects) :
    (k.buckets.flatten.map fun p => (objects.deref p).id).Nodup := by
  have hget : ∀ (i : Nat) (hi : i < k.buckets.length), k.buckets.getD i [] = k.buckets[i] :=
    fun i hi => by simp [List.getD, hi]
  rw [List.map_flatten, List.nodup_flatten]
  refine ⟨fun ids hids => ?_, ?_⟩
  · obtain ⟨peers, hpeers, rfl⟩ := List.mem_map.mp hids
    obtain ⟨i, hi, rfl⟩ := List.mem_iff_getElem.mp hpeers
    rw [← hget i hi]
    exact (h.bucket i).nodup
  · refine List.pairwise_map.mpr (List.pairwise_iff_getElem.mpr fun i j hi hj hij => ?_)
    intro id hid hid'
    obtain ⟨p, hp, hpid⟩ := List.mem_map.mp hid
    obtain ⟨q, hq, hqid⟩ := List.mem_map.mp hid'
    have hip := (h.bucket i).place p (by rwa [hget i hi])
    have hjq := (h.bucket j).place q (by rwa [hget j hj])
    rw [hpid] at hip
    rw [hqid, hip] at hjq
    exact absurd hjq (Nat.ne_of_lt hij)

/-- The table of a node after some calls. -/
structure Sound (own : Id) (calls : List Seen) (k : KBucket) (objects : Peers) : Prop where
  ownId : k.ownId = own
  size : k.buckets.length = 256
  bucket : ∀ i, BucketOk own calls objects i (k.buckets.getD i [])

theorem Sound.new (own : Id) : Sound own [] (.new own) [] := by
  refine ⟨rfl, List.length_replicate, fun i => ?_⟩
  have hempty := (AllFiled.new own).bucket i
  refine ⟨hempty.valid, hempty.place, hempty.nodup, ?_, ?_, ?_⟩
  all_goals
    have hnil : (KBucket.new own).buckets.getD i [] = [] :=
      List.eq_nil_iff_forall_not_mem.mpr fun p hp => Nat.not_lt_zero _ (hempty.valid p hp)
    rw [hnil]
  · exact Nat.zero_le _
  · exact List.Pairwise.nil
  · exact fun p hp => by cases hp

theorem Sound.allFiled {k : KBucket} (h : Sound own calls k objects) : AllFiled own k objects :=
  ⟨h.ownId, h.size, fun i => (h.bucket i).filed⟩

theorem Sound.seenPeer {k : KBucket} (h : Sound own calls k objects) (c : Seen)
    (hclock : ∀ d ∈ calls, d.now ≤ c.now) :
    Sound own (calls ++ [c]) (k.seenPeer objects c.peerId c.n2npId c.now).1
      (k.seenPeer objects c.peerId c.n2npId c.now).2.1 := by
  obtain ⟨new, rest, hk, hr⟩ := h.allFiled.seenPeer_refiled c
  rw [hk]
  refine ⟨h.ownId, by simpa using h.size, h.allFiled.forall_set ?_ fun j hj => ?_⟩
  · have hb := h.bucket (index own c.peerId)
    have hsame : ∀ p ∈ rest, Peers.deref _ p = objects.deref p := fun p hp =>
      hr.same p (hb.valid p (hr.sublist.subset hp)) (hr.other p hp)
    rcases hr.new with rfl | ⟨q, rfl, hroom, hq, hdq⟩
    · exact hb.keep hr.sublist hsame hr.length hr.other
    · exact hb.push hr.sublist hsame hr.length hr.other (hroom hb.short) rfl hclock hq hdq
  · have hb := h.bucket j
    have hother : ∀ p ∈ k.buckets.getD j [], (objects.deref p).id ≠ c.peerId := fun p hp =>
      hb.filed.ne_of_index hj hp
    exact hb.keep (.refl _) (fun p hp => hr.same p (hb.valid p hp) (hother p hp)) hr.length hother

/-- A new table behind calls of `seenPeer`. -/
def seenAll (own : Id) (calls : List Seen) : KBucket × Peers :=
  calls.foldl (fun t c => ((t.1.seenPeer t.2 c.peerId c.n2npId c.now).1,
    (t.1.seenPeer t.2 c.peerId c.n2npId c.now).2.1)) (.new own, [])

theorem allFiled_seenAll (own : Id) (calls : List Seen) :
    AllFiled own (seenAll own calls).1 (seenAll own calls).2 := by
  induction calls using List.reverseRecOn with
  | nil => exact .new own
  | append_singleton calls c ih =>
    rw [seenAll, List.foldl_append, List.foldl_cons, List.foldl_nil, ← seenAll]
    exact ih.seenPeer c

theorem sound_seenAll (own : Id) (calls : List Seen)
    (hclock : calls.Pairwise fun c d => c.now ≤ d.now) :
    Sound own calls (seenAll own calls).1 (seenAll own calls).2 := by
  induction calls using List.reverseRecOn with
  | nil => exact .new own
  | append_singleton calls c ih =>
    obtain ⟨hcalls, -, hlast⟩ := List.pairwise_append.mp hclock
    rw [seenAll, List.foldl_append, List.foldl_cons, List.foldl_nil, ← seenAll]
    exact (ih hcalls).seenPeer c fun d hd => hlast d hd c (List.mem_singleton_self c)

theorem Sound.mem_bucket {k : KBucket} (h : Sound own calls k objects) {peers : List SPtr}
    (hpeers : peers ∈ k.buckets) : ∃ i, BucketOk own calls objects i peers := by
  obtain ⟨i, hi⟩ := List.mem_iff_getElem?.mp hpeers
  have hget : k.buckets.getD i [] = peers := by simp [List.getD, hi]
  exact ⟨i, hget ▸ h.bucket i⟩

/-- Every peer is in the bucket of its distance, no id is in the table twice, no bucket has too
many peers, every bucket is ordered by time, and what is stored of a peer is what the last call
for its id said. -/
theorem seenAll_table (own : Id) (calls : List Seen)
    (hclock : calls.Pairwise fun c d => c.now ≤ d.now) :
    let t := seenAll own calls
    (∀ i, ∀ p ∈ t.1.buckets.getD i [],
      (Distance.between own (t.2.deref p).id).firstActiveBit = i) ∧
    (t.1.buckets.flatten.map fun p => (t.2.deref p).id).Nodup ∧
    (∀ peers ∈ t.1.buckets, peers.length ≤ NODES_PER_BUCKET) ∧
    (∀ peers ∈ t.1.buckets, peers.Pairwise fun p q =>
      (t.2.deref p).lastReceiveTime ≤ (t.2.deref q).lastReceiveTime) ∧
    ∀ p ∈ t.1.buckets.flatten, ∃ c, lastSeen calls (t.2.deref p).id = some c ∧
      (t.2.deref p).n2npId = c.n2npId ∧ (t.2.deref p).lastReceiveTime = c.now := by
  have h := sound_seenAll own calls hclock
  refine ⟨fun i => (h.bucket i).place, h.allFiled.ids_nodup, fun peers hpeers => ?_,
    fun peers hpeers => ?_,
    fun p hp => ?_⟩
  · obtain ⟨i, hi⟩ := h.mem_bucket hpeers
    exact hi.short
  · obtain ⟨i, hi⟩ := h.mem_bucket hpeers
    exact hi.sorted
  · obtain ⟨peers, hpeers, hp⟩ := List.mem_flatten.mp hp
    obtain ⟨i, hi⟩ := h.mem_bucket hpeers
    exact ⟨_, hi.last p hp, rfl, rfl⟩

/-- A peer that was seen twice, and another one between. -/
theorem seenAll_table_refresh :
    let p := Peer.numbered 1
    let q := Peer.numbered 2
    let calls : List Seen := [⟨p.id, p.n2npId, 0⟩, ⟨q.id, q.n2npId, 5⟩, ⟨p.id, q.n2npId, 9⟩]
    let t := seenAll .zero calls
    t.1.buckets.getD 7 [] = [0] ∧ t.1.buckets.getD 6 [] = [1] ∧
      ∀ x ∈ t.1.buckets.flatten, ∃ c, lastSeen calls (t.2.deref x).id = some c ∧
        (t.2.deref x).n2npId = c.n2npId ∧ (t.2.deref x).lastReceiveTime = c.now :=
  ⟨by decide +kernel, by decide +kernel, (seenAll_table .zero _ (by simp)).2.2.2.2⟩

end KBucket
end Epyx.DHT
