import Epyx.DHT.Table
import Epyx.Lib.Least

/-! The nodes that `KBucket::findNearestNodes` finds: the nearest ones of all that are stored. -/
namespace Epyx.DHT
open Lib

/-- The distance of a peer from an id, as a number. -/
def Peers.distance (objects : Peers) (id : Id) (p : SPtr) : Nat :=
  (Distance.between id (objects.deref p).id).toNat

/-- A distance tells the id of a peer. -/
theorem Peers.distance_inj {objects : Peers} {id : Id} {p q : SPtr}
    (h : objects.distance id p = objects.distance id q) :
    (objects.deref p).id = (objects.deref q).id :=
  Distance.between_inj (Id.toNat_inj h)

namespace KBucket

/-- From the farthest to the nearest, no two at one distance. -/
def Descending (closest : List (Distance × SPtr)) : Prop :=
  closest.Pairwise fun x y => y.1.toNat < x.1.toNat

/-- The distances of the entries of a queue. -/
def distances (closest : List (Distance × SPtr)) : Finset Nat :=
  (closest.map fun x => x.1.toNat).toFinset

theorem mem_distances {closest : List (Distance × SPtr)} {d : Nat} :
    d ∈ distances closest ↔ ∃ x ∈ closest, x.1.toNat = d := by
  simp [distances]

theorem Descending.card {closest : List (Distance × SPtr)} (h : Descending closest) :
    (distances closest).card = closest.length := by
  rw [distances, List.toFinset_card_of_nodup, List.length_map]
  exact List.pairwise_map.mpr (h.imp Nat.ne_of_gt)

theorem enqueue_perm (c : Distance × SPtr) (closest : List (Distance × SPtr)) :
    (enqueue c closest).Perm (c :: closest) := by
  induction closest with
  | nil => exact .refl _
  | cons x xs ih =>
    rw [enqueue]
    split
    · exact .refl _
    · exact (ih.cons x).trans (.swap c x xs)

theorem Descending.enqueue {closest : List (Distance × SPtr)} (h : Descending closest)
    {c : Distance × SPtr} (hc : ∀ x ∈ closest, x.1.toNat ≠ c.1.toNat) :
    Descending (enqueue c closest) := by
  induction closest with
  | nil => exact List.pairwise_singleton _ _
  | cons x xs ih =>
    obtain ⟨hx, hxs⟩ := List.pairwise_cons.mp h
    rw [KBucket.enqueue]
    split
    · rename_i hlt
      have hxc : x.1.toNat < c.1.toNat := (Id.lt_iff _ _).mp hlt
      refine List.pairwise_cons.mpr ⟨fun y hy => ?_, h⟩
      rcases List.mem_cons.mp hy with rfl | hy
      · exact hxc
      · exact (hx y hy).trans hxc
    · rename_i hge
      have hcx : c.1.toNat < x.1.toNat := by
        rw [Id.lt_iff] at hge
        have hne := hc x (List.mem_cons_self ..)
        omega
      refine List.pairwise_cons.mpr ⟨fun y hy => ?_, ih hxs fun y hy => hc y (.tail _ hy)⟩
      rcases List.mem_cons.mp ((enqueue_perm c xs).subset hy) with rfl | hy
      · exact hcx
      · exact hx y hy

theorem distances_enqueue (c : Distance × SPtr) (closest : List (Distance × SPtr)) :
    distances (enqueue c closest) = insert c.1.toNat (distances closest) := by
  rw [distances, List.toFinset_eq_of_perm _ _ ((enqueue_perm c closest).map _), List.map_cons,
    List.toFinset_cons, distances]

/-- The queue after some peers were considered: it has the nearest `n` of them. -/
structure Nearest (objects : Peers) (id : Id) (n : Nat) (seen : List SPtr)
    (closest : List (Distance × SPtr)) : Prop where
  entry : ∀ x ∈ closest, x.2 ∈ seen ∧ x.1.toNat = objects.distance id x.2
  descending : Descending closest
  least : Least n (seen.map (objects.distance id)).toFinset (distances closest)

variable {objects : Peers} {id : Id} {n : Nat} {seen : List SPtr} {closest : List (Distance × SPtr)}

theorem Nearest.nil : Nearest objects id n [] [] :=
  ⟨by simp, .nil, .empty n⟩

/-- The entry of a peer. -/
def entry (objects : Peers) (id : Id) (p : SPtr) : Distance × SPtr :=
  (Distance.between id (objects.deref p).id, p)

theorem consider_room (hroom : closest.length < n) (p : SPtr) :
    consider objects id n closest p = some (enqueue (entry objects id p) closest) := by
  simp [consider, entry, hroom, Nat.not_le.mpr hroom]

/-- A full queue lets a peer in for its farthest one. -/
theorem consider_full {farthest : Distance × SPtr} {rest : List (Distance × SPtr)}
    (hn : rest.length + 1 = n) (p : SPtr) :
    consider objects id n (farthest :: rest) p =
      some (if (entry objects id p).1.lt farthest.1 then enqueue (entry objects id p) rest
        else farthest :: rest) := by
  have hroom : rest.length < n := by omega
  by_cases hlt : Id.lt (Distance.between id (objects.deref p).id) farthest.1
  · simp [consider, entry, hlt, hn, hroom]
  · simp [consider, entry, hlt, hn]

theorem Nearest.entry_ne (h : Nearest objects id n seen closest) {p : SPtr}
    (hp : objects.distance id p ∉ seen.map (objects.distance id)) :
    ∀ x ∈ closest, x.1.toNat ≠ objects.distance id p := fun x hx he => by
  obtain ⟨hmem, hd⟩ := h.entry x hx
  exact hp (List.mem_map.mpr ⟨x.2, hmem, hd.symm.trans he⟩)

theorem Nearest.notMem (h : Nearest objects id n seen closest) {p : SPtr}
    (hp : objects.distance id p ∉ seen.map (objects.distance id)) :
    objects.distance id p ∉ distances closest := fun hd => by
  obtain ⟨x, hx, he⟩ := mem_distances.mp hd
  exact h.entry_ne hp x hx he

theorem Nearest.entry_concat (h : Nearest objects id n seen closest) (p : SPtr) :
    ∀ x ∈ KBucket.entry objects id p :: closest,
      x.2 ∈ seen ++ [p] ∧ x.1.toNat = objects.distance id x.2 := by
  intro x hx
  rcases List.mem_cons.mp hx with rfl | hx
  · exact ⟨List.mem_append_right _ (List.mem_singleton_self p), rfl⟩
  · exact ⟨List.mem_append_left _ (h.entry x hx).1, (h.entry x hx).2⟩

theorem toFinset_concat (objects : Peers) (id : Id) (seen : List SPtr) (p : SPtr) :
    ((seen ++ [p]).map (objects.distance id)).toFinset =
      insert (objects.distance id p) (seen.map (objects.distance id)).toFinset := by
  ext d
  simp

/-- There is room for one more peer. -/
theorem Nearest.room (h : Nearest objects id n seen closest) {p : SPtr}
    (hp : objects.distance id p ∉ seen.map (objects.distance id)) (hroom : closest.length < n) :
    Nearest objects id n (seen ++ [p]) (enqueue (KBucket.entry objects id p) closest) := by
  refine ⟨fun x hx => h.entry_concat p x ((enqueue_perm _ _).subset hx),
    h.descending.enqueue (h.entry_ne hp), ?_⟩
  rw [toFinset_concat, distances_enqueue]
  exact h.least.insert_room (h.descending.card ▸ hroom)

section
variable {farthest : Distance × SPtr} {rest : List (Distance × SPtr)}

theorem Nearest.le_farthest (h : Nearest objects id n seen (farthest :: rest)) :
    ∀ d ∈ distances (farthest :: rest), d ≤ farthest.1.toNat := by
  intro d hd
  obtain ⟨x, hx, rfl⟩ := mem_distances.mp hd
  rcases List.mem_cons.mp hx with rfl | hx
  · exact le_rfl
  · exact le_of_lt ((List.pairwise_cons.mp h.descending).1 x hx)

/-- The farthest peer makes room for a nearer one. -/
theorem Nearest.replace (h : Nearest objects id n seen (farthest :: rest)) {p : SPtr}
    (hp : objects.distance id p ∉ seen.map (objects.distance id)) (hn : rest.length + 1 = n)
    (hlt : objects.distance id p < farthest.1.toNat) :
    Nearest objects id n (seen ++ [p]) (enqueue (KBucket.entry objects id p) rest) := by
  obtain ⟨hfar, hrest⟩ := List.pairwise_cons.mp h.descending
  refine ⟨fun x hx => h.entry_concat p x ?_,
    Descending.enqueue hrest fun x hx => h.entry_ne hp x (.tail _ hx), ?_⟩
  · rcases List.mem_cons.mp ((enqueue_perm _ _).subset hx) with rfl | hx
    · exact List.mem_cons_self ..
    · exact .tail _ (.tail _ hx)
  · have hfr : farthest.1.toNat ∉ insert (objects.distance id p) (distances rest) := by
      rw [Finset.mem_insert, not_or]
      refine ⟨Nat.ne_of_gt hlt, fun hd => ?_⟩
      obtain ⟨x, hx, he⟩ := mem_distances.mp hd
      exact Nat.ne_of_lt (hfar x hx) he
    have hcons : distances (farthest :: rest) = insert farthest.1.toNat (distances rest) := by
      simp [distances]
    have hd : distances (enqueue (KBucket.entry objects id p) rest) =
        (insert (objects.distance id p) (distances (farthest :: rest))).erase
          farthest.1.toNat := by
      rw [distances_enqueue, hcons, Finset.insert_comm, Finset.erase_insert hfr]
      rfl
    rw [toFinset_concat, hd]
    refine h.least.insert_erase (h.notMem hp) ?_ ?_ fun d hd => ?_
    · rw [h.descending.card, List.length_cons, hn]
    · rw [hcons]
      exact Finset.mem_insert_of_mem (Finset.mem_insert_self ..)
    · rcases Finset.mem_insert.mp hd with rfl | hd
      · exact le_of_lt hlt
      · exact h.le_farthest d hd

/-- A peer that is farther than all the others is left out. -/
theorem Nearest.refuse (h : Nearest objects id n seen (farthest :: rest)) {p : SPtr}
    (hn : rest.length + 1 = n) (hlt : farthest.1.toNat < objects.distance id p) :
    Nearest objects id n (seen ++ [p]) (farthest :: rest) := by
  refine ⟨fun x hx => h.entry_concat p x (.tail _ hx), h.descending, ?_⟩
  rw [toFinset_concat]
  refine h.least.insert_greater ?_ fun d hd => lt_of_le_of_lt (h.le_farthest d hd) hlt
  rw [h.descending.card, List.length_cons, hn]

end

/-- One more peer is considered, at a distance of its own. -/
theorem Nearest.consider (h : Nearest objects id n seen closest) (hn : 1 ≤ n) {p : SPtr}
    (hp : objects.distance id p ∉ seen.map (objects.distance id)) :
    ∃ closest', KBucket.consider objects id n closest p = some closest' ∧
      Nearest objects id n (seen ++ [p]) closest' := by
  by_cases hroom : closest.length < n
  · exact ⟨_, consider_room hroom p, h.room hp hroom⟩
  · have hle : closest.length ≤ n := by
      rw [← h.descending.card, h.least.card]
      exact Nat.min_le_left ..
    cases closest with
    | nil => exact absurd (Nat.lt_of_lt_of_le Nat.one_pos hn) hroom
    | cons farthest rest =>
      have hlen : rest.length + 1 = n := Nat.le_antisymm hle (Nat.le_of_not_lt hroom)
      refine ⟨_, consider_full hlen p, ?_⟩
      split
      · rename_i hlt
        exact h.replace hp hlen ((Id.lt_iff _ _).mp hlt)
      · rename_i hge
        rw [Id.lt_iff] at hge
        have hne := h.entry_ne hp farthest (List.mem_cons_self ..)
        exact h.refuse hlen (Nat.lt_of_le_of_ne (Nat.le_of_not_lt hge) hne)

/-- All peers of a list are considered, one after the other. -/
theorem Nearest.foldlM (h : Nearest objects id n seen closest) (hn : 1 ≤ n) {peers : List SPtr}
    (hnodup : ((seen ++ peers).map (objects.distance id)).Nodup) :
    ∃ closest', peers.foldlM (KBucket.consider objects id n) closest = some closest' ∧
      Nearest objects id n (seen ++ peers) closest' := by
  induction peers generalizing seen closest with
  | nil => exact ⟨closest, rfl, by rwa [List.append_nil]⟩
  | cons p peers ih =>
    have hp : objects.distance id p ∉ seen.map (objects.distance id) := by
      rw [List.map_append, List.map_cons] at hnodup
      exact fun hmem => (List.nodup_append.mp hnodup).2.2 _ hmem _ (List.mem_cons_self ..) rfl
    obtain ⟨next, hnext, hsound⟩ := h.consider hn hp
    rw [← List.singleton_append, ← List.append_assoc] at hnodup ⊢
    obtain ⟨closest', hfold, hclosest⟩ := ih hsound hnodup
    refine ⟨closest', ?_, hclosest⟩
    rw [List.singleton_append, List.foldlM_cons, hnext]
    exact hfold

/-! What is in the queue when all peers were considered. -/

theorem Nearest.sorted (h : Nearest objects id n seen closest) :
    (closest.map Prod.snd).Pairwise fun p q => objects.distance id q < objects.distance id p := by
  refine List.pairwise_map.mpr (h.descending.imp_of_mem fun {x y} hx hy hxy => ?_)
  rwa [(h.entry x hx).2, (h.entry y hy).2] at hxy

theorem Nearest.mem_seen (h : Nearest objects id n seen closest) {p : SPtr}
    (hp : p ∈ closest.map Prod.snd) : p ∈ seen := by
  obtain ⟨x, hx, rfl⟩ := List.mem_map.mp hp
  exact (h.entry x hx).1

theorem Nearest.length (h : Nearest objects id n seen closest)
    (hdist : (seen.map (objects.distance id)).Nodup) : closest.length = min n seen.length := by
  rw [← h.descending.card, h.least.card, List.toFinset_card_of_nodup hdist, List.length_map]

/-- What is not in the queue is farther than what is. -/
theorem Nearest.below (h : Nearest objects id n seen closest)
    (hdist : (seen.map (objects.distance id)).Nodup) {p q : SPtr} (hp : p ∈ seen)
    (hout : p ∉ closest.map Prod.snd) (hq : q ∈ closest.map Prod.snd) :
    objects.distance id q < objects.distance id p := by
  obtain ⟨x, hx, rfl⟩ := List.mem_map.mp hq
  rw [← (h.entry x hx).2]
  refine h.least.below _ (mem_distances.mpr ⟨x, hx, rfl⟩) _ ?_ fun hd => hout ?_
  · exact List.mem_toFinset.mpr (List.mem_map_of_mem hp)
  · -- one distance, one peer
    obtain ⟨y, hy, he⟩ := mem_distances.mp hd
    rw [(h.entry y hy).2] at he
    obtain rfl := List.inj_on_of_nodup_map hdist (h.entry y hy).1 hp he
    exact List.mem_map_of_mem hy

/-- A search in a table that calls of `seenPeer` have filled finds the nearest `n` of all stored
peers, from the farthest to the nearest. -/
theorem findNearestNodes_nearest (own : Id) (calls : List Seen) (target : Id) (n : Int32)
    (hn : 1 ≤ n.toInt) :
    let t := seenAll own calls
    let stored := t.1.buckets.flatten
    ∃ nearest, t.1.findNearestNodes t.2 target n.toInt = some nearest ∧
      nearest.length = min n.toInt.toNat stored.length ∧ nearest.Nodup ∧
      (∀ p ∈ nearest, p ∈ stored) ∧
      (∀ p ∈ stored, p ∉ nearest → ∀ q ∈ nearest,
        t.2.distance target q < t.2.distance target p) ∧
      nearest.Pairwise fun p q => t.2.distance target q < t.2.distance target p := by
  intro t stored
  have hlt : n.toInt < 2 ^ 31 := n.toInt_lt
  have hnat : toU64 n.toInt = n.toInt.toNat := by
    unfold toU64
    omega
  have hids := (allFiled_seenAll own calls).ids_nodup
  have hdist : (stored.map (t.2.distance target)).Nodup := by
    refine List.pairwise_map.mpr ((List.pairwise_map.mp hids).imp fun hpq he => hpq ?_)
    exact Peers.distance_inj he
  have hnil : Nearest t.2 target n.toInt.toNat [] [] := .nil
  obtain ⟨closest, hfold, h⟩ := hnil.foldlM (by omega) hdist
  rw [List.nil_append] at h
  have hfound : t.1.findNearestNodes t.2 target n.toInt = some (closest.map Prod.snd) := by
    rw [findNearestNodes, hnat, hfold]
    rfl
  have hnodup : (closest.map Prod.snd).Nodup := h.sorted.imp fun hpq he => by
    rw [he] at hpq
    exact Nat.lt_irrefl _ hpq
  have hlength : (closest.map Prod.snd).length = min n.toInt.toNat stored.length := by
    rw [List.length_map]
    exact h.length hdist
  exact ⟨closest.map Prod.snd, hfound, hlength, hnodup, fun p hp => h.mem_seen hp,
    fun p hp hout q hq => h.below hdist hp hout hq, h.sorted⟩

/-- Two of three peers are found. -/
theorem findNearestNodes_nearest_two :
    let calls : List Seen := [1, 2, 3].map fun k =>
      ⟨(Peer.numbered k).id, (Peer.numbered k).n2npId, 0⟩
    let t := seenAll .zero calls
    t.1.findNearestNodes t.2 .zero 2 = some [1, 0] ∧
    ∃ nearest, t.1.findNearestNodes t.2 .zero 2 = some nearest ∧
      nearest.Pairwise fun p q => t.2.distance .zero q < t.2.distance .zero p := by
  intro calls t
  obtain ⟨nearest, h, -, -, -, -, hsorted⟩ :=
    findNearestNodes_nearest .zero calls .zero 2 (by decide)
  exact ⟨by decide +kernel, nearest, h, hsorted⟩

end KBucket
end Epyx.DHT
