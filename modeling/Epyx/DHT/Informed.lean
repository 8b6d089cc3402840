import Epyx.DHT.FirstActiveBit
import Epyx.DHT.Genuine

/-! Why a search gets nearer: a node that has somebody in the bucket of a nearer node knows somebody
nearer than itself, and its answer to a FIND tells of one. -/
namespace Epyx.DHT
open Lib

namespace Distance

theorem leadingZeros_log2 {b : Byte} (h : b ≠ 0) : leadingZeros 8 b + b.toNat.log2 = 7 := by
  have hall : ∀ n : Fin 256, UInt8.ofFin n ≠ 0 →
      leadingZeros 8 (UInt8.ofFin n) + (UInt8.ofFin n).toNat.log2 = 7 := by
    decide +kernel
  simpa using hall b.toFin (by simpa using h)

/-- The high byte decides how long a number is. -/
theorem log2_high {b r k : Nat} (hb : b ≠ 0) (hr : r < 2 ^ k) :
    (b * 2 ^ k + r).log2 = k + b.log2 := by
  have hlow : 2 ^ b.log2 ≤ b := Nat.log2_self_le hb
  have hhigh : b < 2 ^ (b.log2 + 1) := Nat.lt_log2_self
  have hpos : 0 < b * 2 ^ k := Nat.mul_pos (Nat.pos_of_ne_zero hb) (Nat.two_pow_pos k)
  refine (Nat.log2_eq_iff (by omega)).mpr ⟨?_, ?_⟩
  · calc 2 ^ (k + b.log2) = 2 ^ b.log2 * 2 ^ k := by rw [Nat.add_comm, Nat.pow_add]
      _ ≤ b * 2 ^ k := Nat.mul_le_mul_right _ hlow
      _ ≤ b * 2 ^ k + r := Nat.le_add_right _ _
  · calc b * 2 ^ k + r < b * 2 ^ k + 2 ^ k := Nat.add_lt_add_left hr _
      _ = (b + 1) * 2 ^ k := (Nat.succ_mul b _).symm
      _ ≤ 2 ^ (b.log2 + 1) * 2 ^ k := Nat.mul_le_mul_right _ hhigh
      _ = 2 ^ (k + b.log2 + 1) := by rw [← Nat.pow_add]; congr 1; omega

/-- The first active bit is the highest one of the number the bytes stand for. -/
theorem firstActive_log2 {bs : List Byte} {n : Nat} (h : firstActive bs = some n) :
    n + (Id.bigEndian bs).log2 + 1 = 8 * bs.length := by
  induction bs generalizing n with
  | nil => cases h
  | cons b bs ih =>
    rw [firstActive] at h
    rw [Id.bigEndian, List.length_cons]
    split at h
    · rename_i hb
      obtain ⟨m, hm, rfl⟩ := Option.map_eq_some_iff.mp h
      have hrest := ih hm
      rw [hb, show (0 : Byte).toNat = 0 from rfl, Nat.zero_mul, Nat.zero_add]
      omega
    · rename_i hb
      cases h
      have hzeros := leadingZeros_log2 hb
      have hne : b.toNat ≠ 0 := fun hz => hb (UInt8.toNat_inj.mp hz)
      have hbits : 256 ^ bs.length = 2 ^ (8 * bs.length) := by rw [Nat.pow_mul]
      have hlt : Id.bigEndian bs < 2 ^ (8 * bs.length) := by
        rw [← hbits]
        exact Id.bigEndian_lt bs
      rw [hbits, log2_high hne hlt]
      omega

theorem firstActiveBit_log2 {a b : Id} (h : a ≠ b) :
    (between a b).firstActiveBit + (a.toNat ^^^ b.toNat).log2 = 255 := by
  obtain ⟨n, hn, hbit⟩ := exists_firstActive h
  have hlog := firstActive_log2 hn
  rw [(between a b).size] at hlog
  rw [hbit, ← toNat_between]
  show n + (Id.bigEndian (between a b).data).log2 = 255
  omega

/-- Whoever is in the same bucket as a nearer node is nearer. -/
theorem nearer_of_bucket {c m p target : Id} (hm : c ≠ m) (hp : c ≠ p)
    (hbucket : KBucket.index c p = KBucket.index c m)
    (h : (between target m).toNat < (between target c).toNat) :
    (between target p).toNat < (between target c).toNat := by
  have hlog : (c.toNat ^^^ p.toNat).log2 = (c.toNat ^^^ m.toNat).log2 := by
    have hcp := firstActiveBit_log2 hp
    have hcm := firstActiveBit_log2 hm
    have hindex : (between c p).firstActiveBit = (between c m).firstActiveBit := hbucket
    omega
  rw [toNat_between, toNat_between, Nat.xor_comm, Nat.xor_comm target.toNat] at h ⊢
  exact xor_lt_of_log2_eq (fun he => hm (Id.toNat_inj he)) (fun he => hp (Id.toNat_inj he)) hlog h

end Distance

namespace Deployment
variable {ι : Type*} (D : Deployment ι)

/-- How far the node `j` is from an id. -/
def gap (target : Id) (j : ι) : Nat := (Distance.between target (D.id j)).toNat

/-- No node is nearer. -/
def Nearest (target : Id) (j : ι) : Prop := ∀ l, D.gap target j ≤ D.gap target l

/-- Among the ids is one of a nearer node than `j`, unless no node is nearer. -/
def Leads (target : Id) (j : ι) (ids : List Id) : Prop :=
  D.Nearest target j ∨ ∃ id ∈ ids, (Distance.between target id).toNat < D.gap target j

/-- The node `i` knows, for each other node, one in the same bucket, besides itself. -/
def Informed (i : ι) (n : InternalNode) : Prop :=
  ∀ l, l ≠ i → ∃ p ∈ n.kbucket.buckets.getD (KBucket.index (D.id i) (D.id l)) [],
    (n.objects.deref p).id ≠ D.id i

variable {D} {i : ι} {n : InternalNode}

/-- Such a node finds somebody nearer than itself. -/
theorem Informed.leads (h : D.Informed i n) (hfiled : KBucket.AllFiled (D.id i) n.kbucket n.objects)
    (target : Id) {count : Int} (hcount : 1 ≤ toU64 count) {nearest : List SPtr}
    (hnearest : n.kbucket.findNearestNodes n.objects target count = some nearest) :
    D.Leads target i (nearest.map fun p => (n.objects.deref p).id) := by
  by_cases hall : D.Nearest target i
  · exact .inl hall
  · obtain ⟨l, hl⟩ := not_forall.mp hall
    have hnear : D.gap target l < D.gap target i := Nat.lt_of_not_le hl
    have hne : l ≠ i := fun he => Nat.lt_irrefl _ (he ▸ hnear)
    obtain ⟨p, hp, hself⟩ := h l hne
    have hbucket := (hfiled.bucket _).place p hp
    have hpnear := Distance.nearer_of_bucket (fun he => hne (D.id_injective he).symm)
      (fun he => hself he.symm) hbucket hnear
    -- the table finds the nearest it has, which is as near as that one at least
    have hdist : (n.kbucket.buckets.flatten.map (n.objects.distance target)).Nodup := by
      refine List.pairwise_map.mpr
        ((List.pairwise_map.mp hfiled.ids_nodup).imp fun hpq he => hpq ?_)
      exact Peers.distance_inj he
    have hnil : KBucket.Nearest n.objects target (toU64 count) [] [] := .nil
    obtain ⟨closest, hfold, hclosest⟩ := hnil.foldlM hcount hdist
    rw [KBucket.findNearestNodes, hfold] at hnearest
    obtain rfl := Option.some.inj hnearest
    have hstored : n.objects.distance target p ∈
        (n.kbucket.buckets.flatten.map (n.objects.distance target)).toFinset :=
      List.mem_toFinset.mpr (List.mem_map_of_mem (KBucket.mem_flatten_of_getD hp))
    obtain ⟨d, hd, hle⟩ := hclosest.least.exists_le hcount hstored
    obtain ⟨x, hx, rfl⟩ := KBucket.mem_distances.mp hd
    rw [(hclosest.entry x hx).2] at hle
    refine .inr ⟨_, List.mem_map_of_mem (List.mem_map_of_mem hx), ?_⟩
    exact Nat.lt_of_le_of_lt hle hpnear

end Deployment
end Epyx.DHT
