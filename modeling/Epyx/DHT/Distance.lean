import Epyx.DHT.Id

/-! The XOR metric of `dht/id.cpp`. -/
namespace Epyx.DHT

namespace Id

/-- `Id::Id()` -/
def zero : Id := ⟨List.replicate 32 0, by decide⟩

/-- `operator<`: the first byte that differs decides. -/
def lt (a b : Id) : Bool := go a.data b.data
where
  go : List Byte → List Byte → Bool
    | x :: xs, y :: ys => if x < y then true else if y < x then false else go xs ys
    | _, _ => false

/-- The number that bytes stand for, the most significant one first. -/
def bigEndian : List Byte → Nat
  | [] => 0
  | b :: bs => b.toNat * 256 ^ bs.length + bigEndian bs

theorem bigEndian_lt (bs : List Byte) : bigEndian bs < 256 ^ bs.length := by
  induction bs with
  | nil => exact Nat.one_pos
  | cons b bs ih =>
    have hb : b.toNat ≤ 255 := Nat.le_of_lt_succ b.toNat_lt
    calc b.toNat * 256 ^ bs.length + bigEndian bs
        < b.toNat * 256 ^ bs.length + 256 ^ bs.length := Nat.add_lt_add_left ih _
      _ ≤ 255 * 256 ^ bs.length + 256 ^ bs.length :=
        Nat.add_le_add_right (Nat.mul_le_mul_right _ hb) _
      _ = 256 ^ (bs.length + 1) := by rw [Nat.pow_succ]; omega

/-- `operator<` compares the numbers. -/
theorem lt.go_iff {xs ys : List Byte} (h : xs.length = ys.length) :
    lt.go xs ys = true ↔ bigEndian xs < bigEndian ys := by
  induction xs generalizing ys with
  | nil =>
    obtain rfl : ys = [] := List.length_eq_zero_iff.mp h.symm
    simp [lt.go]
  | cons x xs ih =>
    cases ys with
    | nil => cases h
    | cons y ys =>
      have hlen : xs.length = ys.length := Nat.succ.inj h
      have hx := bigEndian_lt xs
      have hy := bigEndian_lt ys
      rw [hlen] at hx
      rw [lt.go, bigEndian, bigEndian, hlen]
      split
      · rename_i hxy
        have hmul := Nat.mul_le_mul_right (256 ^ ys.length) (UInt8.lt_iff_toNat_lt.mp hxy)
        rw [Nat.succ_mul] at hmul
        exact iff_of_true rfl (by omega)
      · split
        · rename_i hyx
          have hmul := Nat.mul_le_mul_right (256 ^ ys.length) (UInt8.lt_iff_toNat_lt.mp hyx)
          rw [Nat.succ_mul] at hmul
          exact iff_of_false (by simp) (by omega)
        · rename_i hxy hyx
          have heq : x.toNat = y.toNat := by
            rw [UInt8.lt_iff_toNat_lt] at hxy hyx
            omega
          rw [ih hlen, heq, Nat.add_lt_add_iff_left]

theorem bigEndian_inj {xs ys : List Byte} (h : xs.length = ys.length)
    (heq : bigEndian xs = bigEndian ys) : xs = ys := by
  induction xs generalizing ys with
  | nil => exact (List.length_eq_zero_iff.mp h.symm).symm
  | cons x xs ih =>
    cases ys with
    | nil => cases h
    | cons y ys =>
      have hlen : xs.length = ys.length := Nat.succ.inj h
      have hx := bigEndian_lt xs
      have hy := bigEndian_lt ys
      rw [bigEndian, bigEndian, hlen] at heq
      rw [hlen] at hx
      -- quotient and remainder
      have hpos : 0 < 256 ^ ys.length := Nat.pow_pos (by decide)
      have hdiv := congrArg (· / 256 ^ ys.length) heq
      have hmod := congrArg (· % 256 ^ ys.length) heq
      simp only [Nat.mul_comm _ (256 ^ ys.length), Nat.mul_add_div hpos, Nat.mul_add_mod,
        Nat.div_eq_of_lt hx, Nat.div_eq_of_lt hy, Nat.mod_eq_of_lt hx, Nat.mod_eq_of_lt hy,
        Nat.add_zero] at hdiv hmod
      rw [UInt8.toNat_inj.mp hdiv, ih hlen hmod]

/-- An id as a number of 256 bits. -/
def toNat (a : Id) : Nat := bigEndian a.data

theorem lt_iff (a b : Id) : a.lt b = true ↔ a.toNat < b.toNat :=
  lt.go_iff (a.size.trans b.size.symm)

theorem toNat_inj {a b : Id} (h : a.toNat = b.toNat) : a = b := by
  cases a with
  | mk x hx => cases b with
    | mk y hy =>
      obtain rfl := bigEndian_inj (hx.trans hy.symm) h
      rfl

end Id

/-- `Distance`: the bytes of an id, from which `firstActiveBit` is computed. -/
abbrev Distance := Id

namespace Distance

/-- `Distance::Distance(a, b)` -/
def between (a b : Id) : Distance :=
  ⟨List.zipWith (· ^^^ ·) a.data b.data, by simp [a.size, b.size]⟩

/-- The distance from an id tells an id. -/
theorem between_inj {a b c : Id} (h : between a b = between a c) : b = c := by
  have hdata : ∀ {zs xs ys : List Byte}, zs.length = xs.length → zs.length = ys.length →
      zs.zipWith (· ^^^ ·) xs = zs.zipWith (· ^^^ ·) ys → xs = ys := by
    intro zs
    induction zs with
    | nil =>
      intro xs ys hx hy _
      rw [List.length_eq_zero_iff.mp hx.symm, List.length_eq_zero_iff.mp hy.symm]
    | cons z zs ih =>
      intro xs ys hx hy h
      cases xs with
      | nil => cases hx
      | cons x xs =>
        cases ys with
        | nil => cases hy
        | cons y ys =>
          obtain ⟨hxy, htail⟩ := List.cons.inj h
          have hhead : x = y := by
            have hz := congrArg (z ^^^ ·) hxy
            simpa [← UInt8.xor_assoc] using hz
          rw [hhead, ih (Nat.succ.inj hx) (Nat.succ.inj hy) htail]
  cases b with
  | mk x hx => cases c with
    | mk y hy =>
      obtain rfl := hdata (a.size.trans hx.symm) (a.size.trans hy.symm) (congrArg Id.data h)
      rfl

/-- The loop over the bits of the first byte that is not zero: the shift stops having an effect
once the top bit is set. -/
def leadingZeros : Nat → Byte → Nat
  | 0, _ => 0
  | k + 1, active =>
    if 128 &&& active = 0 then leadingZeros k (active <<< 1) + 1 else leadingZeros k active

/-- `firstActive`, of the bytes from some byte on; there are none when the distance is zero. -/
def firstActive : List Byte → Option Nat
  | [] => none
  | b :: bs => if b = 0 then (firstActive bs).map (· + 8) else some (leadingZeros 8 b)

def firstActiveBit (d : Distance) : Nat := (firstActive d.data).getD 255

theorem leadingZeros_lt {b : Byte} (h : b ≠ 0) : leadingZeros 8 b < 8 := by
  have hall : ∀ n : Fin 256, UInt8.ofFin n ≠ 0 → leadingZeros 8 (UInt8.ofFin n) < 8 := by
    decide +kernel
  simpa using hall b.toFin (by simpa using h)

theorem firstActive_lt {bs : List Byte} {n : Nat} (h : firstActive bs = some n) :
    n < 8 * bs.length := by
  induction bs generalizing n with
  | nil => cases h
  | cons b bs ih =>
    rw [firstActive] at h
    split at h
    · obtain ⟨m, hm, rfl⟩ := Option.map_eq_some_iff.mp h
      have := ih hm
      simp only [List.length_cons]; omega
    · cases h
      have := leadingZeros_lt ‹_›
      simp only [List.length_cons]; omega

theorem firstActiveBit_lt (d : Distance) : d.firstActiveBit < 256 := by
  unfold firstActiveBit
  cases h : firstActive d.data with
  | none => decide
  | some n =>
    have := firstActive_lt h
    rw [d.size] at this
    simpa using this

end Distance
end Epyx.DHT
