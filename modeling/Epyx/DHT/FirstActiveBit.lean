import Epyx.DHT.Metric
import Epyx.DHT.Table

/-! `Distance::initSelf` of `dht/id.cpp` finds the first bit in which two ids differ, and with it
the bucket of a peer. -/
namespace Epyx.DHT
open Lib

namespace Distance

/-- The first loop on a byte of the distance, with `firstActive` and the byte that
`firstActiveChar` points to, if it does. -/
def findBlock (s : Nat × Option Byte) (dist : Byte) : Nat × Option Byte :=
  match s.2 with
  | none => if dist = 0 then (s.1 + 8, none) else (s.1, some dist)
  | some _ => s

/-- The body of the second loop, with `firstActive` and `active`. -/
def shift (s : Nat × Byte) : Nat × Byte :=
  if 128 &&& s.2 = 0 then (s.1 + 1, s.2 <<< 1) else s

/-- `Distance::initSelf`: the distance and its `firstActive`. -/
def initSelf (a b : Id) : Distance × Nat :=
  let dist := between a b
  match dist.data.foldl findBlock (0, none) with
  | (_, none) => (dist, 255)
  | (firstActive, some active) => (dist, (shift^[8] (firstActive, active)).1)

theorem foldl_findBlock_some (bs : List Byte) (n : Nat) (active : Byte) :
    bs.foldl findBlock (n, some active) = (n, some active) := by
  induction bs with
  | nil => rfl
  | cons b bs ih => exact ih

theorem shift_iterate (k n : Nat) (active : Byte) :
    (shift^[k] (n, active)).1 = n + leadingZeros k active := by
  induction k generalizing n active with
  | zero => rfl
  | succ k ih =>
    rw [Function.iterate_succ_apply, shift, leadingZeros]
    dsimp only
    by_cases h : 128 &&& active = 0
    · rw [if_pos h, if_pos h, ih]
      omega
    · rw [if_neg h, if_neg h, ih]

/-- The loops from some byte on, behind bytes that were all zero. -/
theorem foldl_findBlock_none (bs : List Byte) (n : Nat) :
    match bs.foldl findBlock (n, none) with
    | (_, none) => firstActive bs = none
    | (m, some active) => (firstActive bs).map (n + ·) = some (m + leadingZeros 8 active) := by
  induction bs generalizing n with
  | nil => rfl
  | cons b bs ih =>
    rw [List.foldl_cons, firstActive]
    by_cases hb : b = 0
    · have hnext : findBlock (n, none) b = (n + 8, none) := by simp [findBlock, hb]
      have h := ih (n + 8)
      rw [hnext, if_pos hb]
      revert h
      split
      · intro h
        rw [h]
        rfl
      · intro h
        rw [← h, Option.map_map]
        congr 1
        funext m
        simp only [Function.comp_apply]
        omega
    · have hnext : findBlock (n, none) b = (n, some b) := by simp [findBlock, hb]
      rw [hnext, foldl_findBlock_some, if_neg hb]
      rfl

theorem initSelf_eq (a b : Id) : initSelf a b = (between a b, (between a b).firstActiveBit) := by
  have h := foldl_findBlock_none (between a b).data 0
  unfold initSelf firstActiveBit
  dsimp only
  generalize (between a b).data.foldl findBlock (0, none) = s at h ⊢
  obtain ⟨n, active⟩ := s
  cases active with
  | none =>
    dsimp only at h ⊢
    rw [h]
    rfl
  | some active =>
    dsimp only at h ⊢
    obtain ⟨m, hm, heq⟩ := Option.map_eq_some_iff.mp h
    rw [shift_iterate, hm, ← heq, Nat.zero_add]
    rfl

end Distance

/-! The bits of an id, the most significant one first. -/

def byteBits (b : Byte) : List Bool := (List.range 8).map fun i => b.toNat.testBit (7 - i)

theorem byteBits_length (b : Byte) : (byteBits b).length = 8 := by
  rw [byteBits, List.length_map, List.length_range]

theorem byteBits_xor (b c : Byte) :
    byteBits (b ^^^ c) = (byteBits b).zipWith xor (byteBits c) := by
  simp only [byteBits, List.zipWith_map, List.zipWith_self, UInt8.toNat_xor, Nat.testBit_xor]

/-- The second loop counts the leading zeros of a byte. -/
theorem leadingZeros_byteBits {b : Byte} (h : b ≠ 0) :
    ((byteBits b).takeWhile (!·)).length = Distance.leadingZeros 8 b := by
  have hall : ∀ n : Fin 256, UInt8.ofFin n ≠ 0 →
      ((byteBits (UInt8.ofFin n)).takeWhile (!·)).length =
        Distance.leadingZeros 8 (UInt8.ofFin n) := by
    decide +kernel
  simpa using hall b.toFin (by simpa using h)

namespace Id

def bits (a : Id) : List Bool := a.data.flatMap byteBits

theorem length_byteBits (bs : List Byte) : (bs.flatMap byteBits).length = 8 * bs.length := by
  induction bs with
  | nil => rfl
  | cons b bs ih =>
    rw [List.flatMap_cons, List.length_append, ih, byteBits_length, List.length_cons]
    omega

theorem bits_length (a : Id) : a.bits.length = 256 := by
  rw [bits, length_byteBits, a.size]

theorem flatMap_byteBits_xor {bs cs : List Byte} (h : bs.length = cs.length) :
    (bs.zipWith (· ^^^ ·) cs).flatMap byteBits =
      (bs.flatMap byteBits).zipWith xor (cs.flatMap byteBits) := by
  induction bs generalizing cs with
  | nil => rfl
  | cons b bs ih =>
    cases cs with
    | nil => cases h
    | cons c cs =>
      have hb : (byteBits b).length = (byteBits c).length := by
        rw [byteBits_length, byteBits_length]
      rw [List.zipWith_cons_cons, List.flatMap_cons, List.flatMap_cons, List.flatMap_cons,
        List.zipWith_append hb, ih (Nat.succ.inj h), byteBits_xor]

end Id

namespace Distance

theorem bits_between (a b : Id) : (between a b).bits = a.bits.zipWith xor b.bits :=
  Id.flatMap_byteBits_xor (a.size.trans b.size.symm)

/-- Bytes of which none is found are all zero. -/
theorem eq_zero_of_firstActive {bs : List Byte} (h : firstActive bs = none) :
    bs = List.replicate bs.length 0 := by
  induction bs with
  | nil => rfl
  | cons b bs ih =>
    rw [firstActive] at h
    split at h
    · rename_i hb
      rw [List.length_cons, List.replicate_succ, ← ih (Option.map_eq_none_iff.mp h), hb]
    · cases h

/-- The bit that is found is the first that is set. -/
theorem leading_of_firstActive {bs : List Byte} {n : Nat} (h : firstActive bs = some n) :
    ((bs.flatMap byteBits).takeWhile (!·)).length = n := by
  induction bs generalizing n with
  | nil => cases h
  | cons b bs ih =>
    rw [firstActive] at h
    rw [List.flatMap_cons]
    split at h
    · rename_i hb
      obtain ⟨m, hm, rfl⟩ := Option.map_eq_some_iff.mp h
      have hzero : ∀ x ∈ byteBits b, (!x) = true := by
        rw [hb]
        decide
      rw [List.takeWhile_append_of_pos hzero, List.length_append, byteBits_length, ih hm,
        Nat.add_comm]
    · rename_i hb
      cases h
      have hlt := leadingZeros_lt hb
      rw [← leadingZeros_byteBits hb] at hlt ⊢
      rw [List.takeWhile_append, byteBits_length, if_neg (by omega)]

/-- The first active bit of two ids that differ. -/
theorem exists_firstActive {a b : Id} (h : a ≠ b) :
    ∃ n, firstActive (between a b).data = some n ∧ (between a b).firstActiveBit = n := by
  cases hn : firstActive (between a b).data with
  | none =>
    have hzero : between a b = Id.zero := by
      have hdata := eq_zero_of_firstActive hn
      rw [(between a b).size] at hdata
      generalize between a b = d at hdata
      cases d
      cases hdata
      rfl
    exact absurd ((between_zero_iff a b).mp hzero) h
  | some n => exact ⟨n, rfl, by rw [firstActiveBit, hn]; rfl⟩

/-- For two ids that differ the index is the number of leading zeros of their XOR, so that they
agree on as many leading bits and differ on the next. For any two ids it is one of a table with
256 buckets, and the bucket of a peer is in the table of a node, whatever calls of `seenPeer` the
node has made. -/
theorem initSelf_leading_zeros :
    (∀ a b : Id, a ≠ b →
      ((a.bits.zipWith xor b.bits).takeWhile (!·)).length = (initSelf a b).2 ∧
      a.bits.take (initSelf a b).2 = b.bits.take (initSelf a b).2 ∧
      a.bits[(initSelf a b).2]? ≠ b.bits[(initSelf a b).2]?) ∧
    (∀ a b : Id, (initSelf a b).2 ≤ 255) ∧
    ∀ (own : Id) (calls : List Seen) (peerId : Id),
      (initSelf (KBucket.seenAll own calls).1.ownId peerId).2 <
        (KBucket.seenAll own calls).1.buckets.length := by
  refine ⟨fun a b hab => ?_, fun a b => ?_, fun own calls peerId => ?_⟩
  · rw [initSelf_eq]
    obtain ⟨n, hfirst, hn⟩ := exists_firstActive hab
    have hlt := firstActiveBit_lt (between a b)
    have hleading := leading_of_firstActive hfirst
    rw [← hn, ← Id.bits, bits_between] at hleading
    have hlen : a.bits.length = b.bits.length := a.bits_length.trans b.bits_length.symm
    exact ⟨hleading, agree_of_leading_zeros hlen hleading (by rwa [a.bits_length])⟩
  · rw [initSelf_eq]
    exact Nat.le_of_lt_succ (firstActiveBit_lt _)
  · rw [initSelf_eq, (KBucket.allFiled_seenAll own calls).size]
    exact firstActiveBit_lt _

/-- The ids that differ in bit 11 alone. -/
theorem initSelf_leading_zeros_bit :
    let b : Id := ⟨0 :: 16 :: List.replicate 30 0, by decide⟩
    Id.zero.bits.take 11 = b.bits.take 11 ∧ Id.zero.bits[11]? ≠ b.bits[11]? := by
  intro b
  have hbit : (initSelf Id.zero b).2 = 11 := by decide +kernel
  have h := (initSelf_leading_zeros.1 Id.zero b (by decide)).2
  rwa [hbit] at h

end Distance
end Epyx.DHT
