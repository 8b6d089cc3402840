import Epyx.DHT.InternalNode
import Epyx.DHT.Nearest

/-! The lists of a `FinderActor`: the nearest of all peers it was ever offered. -/
namespace Epyx.DHT
open Lib
open N2NP (NodeId)

/-- The objects at a later time: there are more of them, and each has the id it had. -/
structure Peers.Later (objects later : Peers) : Prop where
  length : objects.length ≤ later.length
  id : ∀ p < objects.length, (later.deref p).id = (objects.deref p).id

theorem Peers.Later.append (objects new : Peers) : Peers.Later objects (objects ++ new) :=
  ⟨by simp, fun p hp => by simp [Peers.deref, List.getElem?_append_left hp]⟩

/-- The table writes to a peer what it has just been seen with, which is the id it has. -/
theorem KBucket.seenPeer_later (k : KBucket) (objects : Peers) (peerId : Id) (n2npId : NodeId)
    (now : Int) : Peers.Later objects (k.seenPeer objects peerId n2npId now).2.1 := by
  unfold KBucket.seenPeer
  dsimp only
  split
  · rename_i p hfind
    have hid : (objects.deref p).id = peerId := by simpa using List.find?_some hfind
    refine ⟨by simp, fun q hq => ?_⟩
    by_cases hqp : q = p
    · subst hqp
      rw [Peers.deref_set_self hq, hid]
    · rw [Peers.deref_set_of_ne hqp]
  · exact .append _ _

theorem Peers.Later.distance {objects later : Peers} (h : Peers.Later objects later) (id : Id)
    {p : SPtr} (hp : p < objects.length) : later.distance id p = objects.distance id p := by
  rw [Peers.distance, Peers.distance, h.id p hp]

namespace FinderActor
open KBucket (distances mem_distances entry)

/-- What `heap_comp` compares. -/
def key (x : Distance × SPtr) : Nat := x.1.toNat

theorem less_iff (a b : Distance × SPtr) : less a b = true ↔ key a < key b := Id.lt_iff a.1 b.1

/-- `heap_push`, and `heap_pop_no_res` if there are too many now -/
def keep (k : Nat) (queue : ClosestQueue) (c : Distance × SPtr) : ClosestQueue :=
  let queue := Heap.push less queue c
  if queue.length > k then Heap.pop less queue else queue

/-- The list has the nearest `k` of the peers that were offered. -/
structure Closest (objects : Peers) (target : Id) (k : Nat) (offered : List SPtr)
    (queue : ClosestQueue) : Prop where
  entry : ∀ x ∈ queue, x.2 ∈ offered ∧ x.1 = Distance.between target (objects.deref x.2).id
  heap : Heap.Ordered key queue
  nodup : (queue.map key).Nodup
  least : Least k (offered.map (objects.distance target)).toFinset (distances queue)

variable {objects : Peers} {target : Id} {k : Nat} {offered : List SPtr} {queue : ClosestQueue}

theorem Closest.nil (objects : Peers) (target : Id) (k : Nat) : Closest objects target k [] [] :=
  ⟨by simp, by simp [Heap.Ordered, Heap.Edge], .nil, .empty k⟩

theorem Closest.card (h : Closest objects target k offered queue) :
    (distances queue).card = queue.length :=
  (List.toFinset_card_of_nodup h.nodup).trans (List.length_map key)

theorem Closest.distance (h : Closest objects target k offered queue) :
    ∀ x ∈ queue, key x = objects.distance target x.2 := fun x hx => by
  rw [key, (h.entry x hx).2, Peers.distance]

/-- A peer comes that is in the list already. -/
theorem Closest.present (h : Closest objects target k offered queue) {p : SPtr}
    (hp : objects.distance target p ∈ distances queue) :
    Closest objects target k (offered ++ [p]) queue := by
  refine ⟨fun x hx => ⟨List.mem_append_left _ (h.entry x hx).1, (h.entry x hx).2⟩, h.heap, h.nodup,
    ?_⟩
  rw [KBucket.toFinset_concat]
  exact h.least.insert_mem hp

theorem Closest.entry_push (h : Closest objects target k offered queue) (p : SPtr) :
    ∀ x ∈ Heap.push less queue (KBucket.entry objects target p),
      x.2 ∈ offered ++ [p] ∧ x.1 = Distance.between target (objects.deref x.2).id := by
  intro x hx
  rcases List.mem_cons.mp ((Heap.push_perm less queue _).subset hx) with rfl | hx
  · exact ⟨List.mem_append_right _ (List.mem_singleton_self p), rfl⟩
  · exact ⟨List.mem_append_left _ (h.entry x hx).1, (h.entry x hx).2⟩

theorem Closest.nodup_push (h : Closest objects target k offered queue) {p : SPtr}
    (hp : objects.distance target p ∉ distances queue) :
    ((Heap.push less queue (KBucket.entry objects target p)).map key).Nodup := by
  refine (((Heap.push_perm less queue _).map key).nodup_iff).mpr ?_
  rw [List.map_cons, List.nodup_cons]
  exact ⟨fun hmem => hp (List.mem_toFinset.mpr hmem), h.nodup⟩

theorem distances_push (queue : ClosestQueue) (c : Distance × SPtr) :
    distances (Heap.push less queue c) = insert (key c) (distances queue) := by
  rw [distances, List.toFinset_eq_of_perm _ _ ((Heap.push_perm less queue c).map _), List.map_cons,
    List.toFinset_cons, distances, key]

/-- The first entry goes. -/
theorem distances_pop {m : Distance × SPtr} {rest : ClosestQueue}
    (hnodup : ((m :: rest).map key).Nodup) :
    distances (Heap.pop less (m :: rest)) = (distances (m :: rest)).erase (key m) := by
  rw [List.map_cons, List.nodup_cons] at hnodup
  have hnot : key m ∉ distances rest := fun hmem => hnodup.1 (List.mem_toFinset.mp hmem)
  have hm : distances (m :: rest) = insert (key m) (distances rest) := by simp [distances, key]
  rw [hm, Finset.erase_insert hnot]
  exact List.toFinset_eq_of_perm _ _ ((Heap.pop_perm less m rest).map _)

/-- A new peer comes; if there are too many now the farthest one goes, the new one perhaps. -/
theorem Closest.keep (h : Closest objects target k offered queue) {p : SPtr}
    (hp : objects.distance target p ∉ distances queue) :
    Closest objects target k (offered ++ [p])
      (keep k queue (KBucket.entry objects target p)) := by
  have hentry := h.entry_push p
  have hnodup := h.nodup_push hp
  have hheap := Heap.push_ordered (.of_lt less_iff) h.heap (KBucket.entry objects target p)
  have hlen := (Heap.push_perm less queue (KBucket.entry objects target p)).length_eq
  have hset : distances (Heap.push less queue (KBucket.entry objects target p)) =
      insert (objects.distance target p) (distances queue) := distances_push queue _
  have hcard := h.card
  rw [List.length_cons] at hlen
  unfold FinderActor.keep
  dsimp only
  generalize Heap.push less queue (KBucket.entry objects target p) = pushed at *
  split
  · cases pushed with
    | nil => simp at hlen
    | cons m rest =>
      have hperm := Heap.pop_perm less m rest
      have hrest := distances_pop hnodup
      rw [List.map_cons, List.nodup_cons] at hnodup
      refine ⟨fun x hx => hentry x (.tail _ (hperm.subset hx)),
        Heap.pop_ordered (.of_lt less_iff) hheap, ((hperm.map key).nodup_iff).mpr hnodup.2, ?_⟩
      rw [KBucket.toFinset_concat, hrest, hset]
      refine h.least.insert_erase hp (by omega) ?_ fun d hd => ?_
      · rw [← hset]
        exact mem_distances.mpr ⟨m, .head rest, rfl⟩
      · rw [← hset] at hd
        obtain ⟨x, hx, rfl⟩ := mem_distances.mp hd
        exact hheap.le_head x hx
  · refine ⟨hentry, hheap, hnodup, ?_⟩
    rw [KBucket.toFinset_concat, hset]
    exact h.least.insert_room (by omega)

theorem Closest.later (h : Closest objects target k offered queue) {later : Peers}
    (hlater : Peers.Later objects later) (hvalid : ∀ p ∈ offered, p < objects.length) :
    Closest later target k offered queue := by
  refine ⟨fun x hx => ⟨(h.entry x hx).1, ?_⟩, h.heap, h.nodup, ?_⟩
  · rw [hlater.id x.2 (hvalid _ (h.entry x hx).1)]
    exact (h.entry x hx).2
  · rw [List.map_congr_left fun p hp => hlater.distance target (hvalid p hp)]
    exact h.least

/-- One list looks for the distance of a peer. -/
theorem any_distance (objects : Peers) (target : Id) (queue : ClosestQueue) (p : SPtr) :
    queue.any (·.1 = Distance.between target (objects.deref p).id) ↔
      objects.distance target p ∈ distances queue := by
  rw [List.any_eq_true, mem_distances]
  refine exists_congr fun x => and_congr_right fun _ => ?_
  rw [decide_eq_true_iff]
  exact ⟨fun he => congrArg Id.toNat he, Id.toNat_inj⟩

/-- The other one looks for its id, which is the same. -/
theorem Closest.any_id (h : Closest objects target k offered queue) (p : SPtr) :
    (queue.any fun x => (objects.deref x.2).id = (objects.deref p).id) ↔
      objects.distance target p ∈ distances queue := by
  rw [List.any_eq_true, mem_distances]
  refine exists_congr fun x => and_congr_right fun hx => ?_
  rw [decide_eq_true_iff, ← key, h.distance x hx]
  exact ⟨fun he => by rw [Peers.distance, he, Peers.distance], Peers.distance_inj⟩

/-- Both lists of a finder, after some peers were offered to it. -/
structure Sound (objects : Peers) (target : Id) (count : Nat) (offered : List SPtr)
    (f : FinderActor) : Prop where
  requestedId : f.requestedId = target
  countToFind : toU64 f.countToFind = count
  valid : ∀ p ∈ offered, p < objects.length
  foundPeers : Closest objects target count offered f.foundPeers
  shortlist : Closest objects target FIND_PARALLEL_QUERIES offered f.shortlist

variable {count : Nat} {f : FinderActor}

theorem addToShortList_eq (objects : Peers) (f : FinderActor) (p : SPtr) :
    addToShortList objects f p =
      if f.shortlist.any (·.1 = Distance.between f.requestedId (objects.deref p).id) then f
      else
        { f with
          shortlist :=
            keep FIND_PARALLEL_QUERIES f.shortlist (KBucket.entry objects f.requestedId p) } := rfl

theorem addToFoundPeers_eq (objects : Peers) (f : FinderActor) (p : SPtr) :
    addToFoundPeers objects f p =
      if f.foundPeers.any fun x => (objects.deref x.2).id = (objects.deref p).id then f
      else
        { f with
          foundPeers :=
            keep (toU64 f.countToFind) f.foundPeers (KBucket.entry objects f.requestedId p) } := rfl

theorem addToShortList_closest (hid : f.requestedId = target)
    (h : Closest objects target FIND_PARALLEL_QUERIES offered f.shortlist) (p : SPtr) :
    Closest objects target FIND_PARALLEL_QUERIES (offered ++ [p])
      (addToShortList objects f p).shortlist := by
  subst hid
  rw [addToShortList_eq]
  split
  · rename_i hmem
    exact h.present ((any_distance ..).mp hmem)
  · rename_i hmem
    exact h.keep fun hd => hmem ((any_distance ..).mpr hd)

theorem addToFoundPeers_closest (hid : f.requestedId = target)
    (hcount : toU64 f.countToFind = count)
    (h : Closest objects target count offered f.foundPeers) (p : SPtr) :
    Closest objects target count (offered ++ [p]) (addToFoundPeers objects f p).foundPeers := by
  subst hid hcount
  rw [addToFoundPeers_eq]
  split
  · rename_i hmem
    exact h.present ((h.any_id p).mp hmem)
  · rename_i hmem
    exact h.keep fun hd => hmem ((h.any_id p).mpr hd)

/-- Only the shortlist changes. -/
theorem addToShortList_frame (objects : Peers) (f : FinderActor) (p : SPtr) :
    ∃ q, addToShortList objects f p = { f with shortlist := q } := by
  rw [addToShortList_eq]
  split
  · exact ⟨_, rfl⟩
  · exact ⟨_, rfl⟩

theorem addToFoundPeers_frame (objects : Peers) (f : FinderActor) (p : SPtr) :
    ∃ q, addToFoundPeers objects f p = { f with foundPeers := q } := by
  rw [addToFoundPeers_eq]
  split
  · exact ⟨_, rfl⟩
  · exact ⟨_, rfl⟩

theorem Sound.new (objects : Peers) (target : Id) {count : Int} (cb : FindCallback) :
    Sound objects target (toU64 count) [] (.new target count cb) :=
  ⟨rfl, rfl, by simp, .nil .., .nil ..⟩

theorem Sound.addPeer (h : Sound objects target count offered f) {p : SPtr}
    (hp : p < objects.length) :
    Sound objects target count (offered ++ [p])
      (addToFoundPeers objects (addToShortList objects f p) p) := by
  have hshort := addToShortList_closest h.requestedId h.shortlist p
  obtain ⟨short, hf⟩ := addToShortList_frame objects f p
  rw [hf] at hshort ⊢
  have hfound := addToFoundPeers_closest (f := { f with shortlist := short }) h.requestedId
    h.countToFind h.foundPeers p
  obtain ⟨found, hg⟩ := addToFoundPeers_frame objects { f with shortlist := short } p
  rw [hg] at hfound ⊢
  refine ⟨h.requestedId, h.countToFind, fun q hq => ?_, hfound, hshort⟩
  rcases List.mem_append.mp hq with hq | hq
  · exact h.valid q hq
  · rwa [List.mem_singleton.mp hq]

theorem Sound.addPeers (h : Sound objects target count offered f) {peers : List SPtr}
    (hpeers : ∀ p ∈ peers, p < objects.length) :
    Sound objects target count (offered ++ peers) (addPeers objects f peers) := by
  induction peers generalizing offered f with
  | nil => rwa [List.append_nil]
  | cons p peers ih =>
    rw [← List.singleton_append, ← List.append_assoc]
    exact ih (h.addPeer (hpeers p (List.mem_cons_self ..))) fun q hq => hpeers q (.tail _ hq)

/-- What is asked, and how often, has nothing to do with the lists. -/
theorem Sound.contact (h : Sound objects target count offered f) (contacted : List Distance)
    (pending : Int) : Sound objects target count offered
      { f with contactedPeers := contacted, pendingRequests := pending } :=
  ⟨h.requestedId, h.countToFind, h.valid, h.foundPeers, h.shortlist⟩

theorem Sound.sendQueries (h : Sound objects target count offered f) (peers : List SPtr) :
    Sound objects target count offered (sendQueries objects f peers).1 := by
  induction peers generalizing f with
  | nil => exact h
  | cons p peers ih => exact ih (h.contact _ _)

theorem Sound.onResponse (h : Sound objects target count offered f) :
    Sound objects target count offered (onResponse objects f).1 := by
  have hp := h.contact f.contactedPeers (f.pendingRequests - 1)
  unfold FinderActor.onResponse
  dsimp only
  split
  · rename_i r hr
    obtain ⟨x, -, rfl⟩ := Option.map_eq_some_iff.mp hr
    exact hp.contact _ _
  · split
    · exact hp
    · exact hp

end FinderActor

/-- The peers an answer offers to a finder. -/
def Answer.offered : Answer → List SPtr
  | .found _ status count foundPeers => if status = 0 ∧ count > 0 then foundPeers else []
  | _ => []

theorem FinderActor.Sound.onNewAnswer {objects : Peers} {target : Id} {count : Nat}
    {offered : List SPtr} {f : FinderActor} (h : Sound objects target count offered f)
    {answer : Answer} (hvalid : ∀ p ∈ answer.offered, p < objects.length) :
    Sound objects target count (offered ++ answer.offered) (f.onNewAnswer objects answer).1 := by
  cases answer with
  | found connectionId status n foundPeers =>
    unfold FinderActor.onNewAnswer
    unfold Answer.offered at hvalid ⊢
    dsimp only at hvalid ⊢
    split
    · rename_i hok
      rw [if_pos hok] at hvalid
      exact (h.addPeers hvalid).onResponse
    · rw [List.append_nil]
      exact h.onResponse
  | got connectionId status value =>
    rw [show (Answer.got connectionId status value).offered = [] from rfl, List.append_nil]
    exact h.onResponse
  | stored connectionId status =>
    rw [show (Answer.stored connectionId status).offered = [] from rfl, List.append_nil]
    exact h.onResponse

/-- A finder, with the table and the peers of its node. -/
structure Search where
  kbucket : KBucket
  objects : Peers
  finder : FinderActor

namespace Search

/-- What happens to a finder, and to the peers while it searches. -/
inductive Event where
  /-- a packet is received -/
  | seen (peerId : Id) (n2npId : NodeId) (now : Int)
  /-- the peers of a FOUND are read -/
  | read (foundPeers : List Peer)
  | start (nearest : List SPtr)
  | answer (answer : Answer)
  | answerTimeout
  | timeout

/-- The peers an event offers to the finder. -/
def Event.offered : Event → List SPtr
  | .start nearest => nearest
  | .answer a => a.offered
  | _ => []

def handle (s : Search) : Event → Search
  | .seen peerId n2npId now =>
    let r := s.kbucket.seenPeer s.objects peerId n2npId now
    { s with kbucket := r.1, objects := r.2.1 }
  | .read foundPeers => { s with objects := s.objects ++ foundPeers.map fun p => ⟨p, 0⟩ }
  | .start nearest => { s with finder := (s.finder.start s.objects nearest).1 }
  | .answer answer => { s with finder := (s.finder.onNewAnswer s.objects answer).1 }
  | .answerTimeout => { s with finder := (s.finder.onAnswerTimeout s.objects).1 }
  | .timeout => { s with finder := s.finder.timeout.1 }

/-- Its log is what was offered. -/
def machine : Lib.Machine Search Event SPtr where
  step s e := some (s.handle e, e.offered)

/-- The pointers that are offered are those of peers. -/
def Valid (s : Search) (_ : List SPtr) (e : Event) : Prop := ∀ p ∈ e.offered, p < s.objects.length

def Sound (target : Id) (count : Nat) (s : Search) (offered : List SPtr) : Prop :=
  s.finder.Sound s.objects target count offered

variable {target : Id} {count : Nat} {s : Search} {offered : List SPtr}

theorem Sound.later (h : Sound target count s offered) {later : Peers}
    (hlater : Peers.Later s.objects later) (kbucket : KBucket) :
    Sound target count ⟨kbucket, later, s.finder⟩ offered :=
  ⟨h.requestedId, h.countToFind, fun p hp => Nat.lt_of_lt_of_le (h.valid p hp) hlater.length,
    h.foundPeers.later hlater h.valid, h.shortlist.later hlater h.valid⟩

theorem Sound.handle (h : Sound target count s offered) {e : Event} (he : Valid s offered e) :
    Sound target count (s.handle e) (offered ++ e.offered) := by
  cases e with
  | seen peerId n2npId now =>
    rw [show (Event.seen peerId n2npId now).offered = [] from rfl, List.append_nil]
    exact h.later (s.kbucket.seenPeer_later s.objects peerId n2npId now) _
  | read foundPeers =>
    rw [show (Event.read foundPeers).offered = [] from rfl, List.append_nil]
    exact h.later (.append _ _) _
  | start nearest => exact (FinderActor.Sound.addPeers h he).sendQueries _
  | answer answer => exact FinderActor.Sound.onNewAnswer h he
  | answerTimeout =>
    rw [show Event.answerTimeout.offered = [] from rfl, List.append_nil]
    exact FinderActor.Sound.onResponse h
  | timeout =>
    rw [show Event.timeout.offered = [] from rfl, List.append_nil]
    exact h

theorem Sound.of_run {kbucket : KBucket} {objects : Peers} {count : Int} {cb : FindCallback}
    (run : machine.Run Valid ⟨kbucket, objects, .new target count cb⟩ s offered) :
    Sound target (toU64 count) s offered := by
  refine run.invariant (FinderActor.Sound.new objects target cb) ?_
  intro s offered e s' out h he taken
  cases taken
  exact h.handle he

end Search

/-- The ids of some peers. -/
def Peers.ids (objects : Peers) (peers : List SPtr) : List Id :=
  peers.map fun p => (objects.deref p).id

/-- Of the ids of the peers that were offered, the list has the nearest `k`, each once. -/
structure HoldsNearest (objects : Peers) (target : Id) (k : Nat) (offered held : List SPtr) :
    Prop where
  nodup : (objects.ids held).Nodup
  length : held.length = min k (objects.ids offered).toFinset.card
  subset : held ⊆ offered
  nearest : ∀ p ∈ held, ∀ q ∈ offered, (objects.deref q).id ∉ objects.ids held →
    objects.distance target p < objects.distance target q

namespace FinderActor.Closest
variable {objects : Peers} {target : Id} {k : Nat} {offered : List SPtr} {queue : ClosestQueue}

/-- There are as many distances as ids. -/
theorem card_distances (objects : Peers) (target : Id) (peers : List SPtr) :
    (peers.map (objects.distance target)).toFinset.card = (objects.ids peers).toFinset.card := by
  have himage : (peers.map (objects.distance target)).toFinset =
      (objects.ids peers).toFinset.image fun id => (Distance.between target id).toNat := by
    ext d
    simp [Peers.ids, Peers.distance]
  rw [himage, Finset.card_image_of_injective]
  exact fun a b hab => Distance.between_inj (Id.toNat_inj hab)

theorem mem_distances_iff (h : Closest objects target k offered queue) (id : Id) :
    id ∈ objects.ids (queue.map Prod.snd) ↔
      (Distance.between target id).toNat ∈ KBucket.distances queue := by
  rw [Peers.ids, List.map_map, List.mem_map, KBucket.mem_distances]
  refine exists_congr fun x => and_congr_right fun hx => ?_
  rw [(h.entry x hx).2]
  exact ⟨fun he => by rw [← he]; rfl, fun he => Distance.between_inj (Id.toNat_inj he)⟩

theorem holds (h : Closest objects target k offered queue) :
    HoldsNearest objects target k offered (queue.map Prod.snd) := by
  refine ⟨?_, ?_, fun p hp => ?_, fun p hp q hq hout => ?_⟩
  · rw [Peers.ids, List.map_map]
    refine List.pairwise_map.mpr ((List.pairwise_map.mp h.nodup).imp_of_mem ?_)
    intro x y hx hy hne he
    refine hne ?_
    rw [h.distance x hx, h.distance y hy, Peers.distance, Peers.distance]
    exact congrArg (fun id => (Distance.between target id).toNat) he
  · rw [List.length_map, ← h.card, h.least.card, card_distances]
  · obtain ⟨x, hx, rfl⟩ := List.mem_map.mp hp
    exact (h.entry x hx).1
  · obtain ⟨x, hx, rfl⟩ := List.mem_map.mp hp
    rw [← h.distance x hx]
    refine h.least.below _ (KBucket.mem_distances.mpr ⟨x, hx, rfl⟩) _ ?_ fun hd => hout ?_
    · exact List.mem_toFinset.mpr (List.mem_map_of_mem hq)
    · exact (h.mem_distances_iff _).mpr hd

/-- The ids that are held depend on the set of the ids that were offered, and on nothing else. -/
theorem ids_iff (h : Closest objects target k offered queue) {objects' : Peers}
    {offered' : List SPtr} {queue' : ClosestQueue} (h' : Closest objects' target k offered' queue')
    (hoffered : ∀ id, id ∈ objects.ids offered ↔ id ∈ objects'.ids offered') (id : Id) :
    id ∈ objects.ids (queue.map Prod.snd) ↔ id ∈ objects'.ids (queue'.map Prod.snd) := by
  have hset : (offered.map (objects.distance target)).toFinset =
      (offered'.map (objects'.distance target)).toFinset := by
    have himage : ∀ (objects : Peers) (peers : List SPtr) (d : Nat),
        d ∈ (peers.map (objects.distance target)).toFinset ↔
          ∃ id ∈ objects.ids peers, (Distance.between target id).toNat = d := by
      intro objects peers d
      simp [Peers.ids, Peers.distance]
    ext d
    rw [himage, himage]
    exact exists_congr fun id => and_congr_left fun _ => hoffered id
  have hleast := h'.least
  rw [← hset] at hleast
  rw [h.mem_distances_iff, h'.mem_distances_iff, h.least.unique hleast]

end FinderActor.Closest

namespace Search

/-- Whatever peers were offered to a finder, in whatever order and how often, it holds the nearest
ones; and a finder that was offered the same ids holds the same ids. -/
theorem run_holdsNearest {target : Id} {count : Int32} (hcount : 0 ≤ count.toInt)
    {kbucket : KBucket} {objects : Peers} {cb : FindCallback} {s : Search} {offered : List SPtr}
    (run : machine.Run Valid ⟨kbucket, objects, .new target count.toInt cb⟩ s offered) :
    HoldsNearest s.objects target count.toInt.toNat offered
      (s.finder.foundPeers.map Prod.snd) ∧
    HoldsNearest s.objects target 3 offered (s.finder.shortlist.map Prod.snd) ∧
    ∀ (kbucket' : KBucket) (objects' : Peers) (cb' : FindCallback) (s' : Search)
      (offered' : List SPtr),
      machine.Run Valid ⟨kbucket', objects', .new target count.toInt cb'⟩ s' offered' →
      (∀ id, id ∈ s.objects.ids offered ↔ id ∈ s'.objects.ids offered') →
      ∀ id,
        (id ∈ s.objects.ids (s.finder.foundPeers.map Prod.snd) ↔
          id ∈ s'.objects.ids (s'.finder.foundPeers.map Prod.snd)) ∧
        (id ∈ s.objects.ids (s.finder.shortlist.map Prod.snd) ↔
          id ∈ s'.objects.ids (s'.finder.shortlist.map Prod.snd)) := by
  have hnat : toU64 count.toInt = count.toInt.toNat := by
    have hlt := count.toInt_lt
    unfold toU64
    omega
  have h := Sound.of_run run
  have hfound := h.foundPeers.holds
  rw [hnat] at hfound
  refine ⟨hfound, h.shortlist.holds, fun _ _ _ s' offered' run' hoffered id => ?_⟩
  have h' := Sound.of_run run'
  exact ⟨h.foundPeers.ids_iff h'.foundPeers hoffered id,
    h.shortlist.ids_iff h'.shortlist hoffered id⟩

/-- Four peers are offered to a search for one, an answer brings the third one again. -/
theorem run_holdsNearest_again :
    let objects : Peers := [4, 3, 2, 1].map fun k => ⟨Peer.numbered k, 0⟩
    let s : Search := ⟨.new .zero, objects, .new .zero (Int32.toInt 1) .user⟩
    let t := (s.handle (.start [0, 1, 2, 3])).handle (.answer (.found 0 0 1 [2]))
    t.finder.foundPeers.map Prod.snd = [3] ∧
    HoldsNearest t.objects .zero 1 [0, 1, 2, 3, 2] (t.finder.foundPeers.map Prod.snd) := by
  intro objects s t
  have hstart : Valid s [] (Event.start [0, 1, 2, 3]) := by
    simp [Valid, Event.offered, s, objects]
  have hanswer : Valid (s.handle (.start [0, 1, 2, 3])) [0, 1, 2, 3]
      (Event.answer (.found 0 0 1 [2])) := by
    simp [Valid, Event.offered, Answer.offered, handle, s, objects]
  have run : machine.Run Valid s t [0, 1, 2, 3, 2] :=
    (Machine.Run.start.step hstart rfl).step hanswer rfl
  exact ⟨by decide +kernel, (run_holdsNearest (by decide) run).1⟩

end Search
end Epyx.DHT
