import Epyx.DHT.Distance
import Epyx.Lib.Xor
import Mathlib.Order.Defs.Unbundled

/-! The distances of `dht/id.cpp` are a metric, and `operator<` is the order of the numbers. -/
namespace Epyx.DHT
open Lib

namespace Id

/-- `operator==`: the loop stops at the first byte that differs. -/
def eq (a b : Id) : Bool := go a.data b.data
where
  go : List Byte → List Byte → Bool
    | x :: xs, y :: ys => if x ≠ y then false else go xs ys
    | _, _ => true

theorem eq.go_iff {xs ys : List Byte} (h : xs.length = ys.length) :
    eq.go xs ys = true ↔ xs = ys := by
  induction xs generalizing ys with
  | nil =>
    obtain rfl : ys = [] := List.length_eq_zero_iff.mp h.symm
    simp [eq.go]
  | cons x xs ih =>
    cases ys with
    | nil => cases h
    | cons y ys =>
      rw [eq.go]
      by_cases hxy : x = y
      · simp [hxy, ih (Nat.succ.inj h)]
      · simp [hxy]

theorem eq_iff (a b : Id) : a.eq b = true ↔ a = b := by
  rw [eq, eq.go_iff (a.size.trans b.size.symm)]
  cases a
  cases b
  simp

theorem toNat_lt (a : Id) : a.toNat < 2 ^ 256 := by
  have h := bigEndian_lt a.data
  rw [a.size] at h
  exact h

/-- Byte by byte is bit by bit. -/
theorem bigEndian_xor {xs ys : List Byte} (h : xs.length = ys.length) :
    bigEndian (List.zipWith (· ^^^ ·) xs ys) = bigEndian xs ^^^ bigEndian ys := by
  induction xs generalizing ys with
  | nil =>
    obtain rfl : ys = [] := List.length_eq_zero_iff.mp h.symm
    rfl
  | cons x xs ih =>
    cases ys with
    | nil => cases h
    | cons y ys =>
      have hlen : xs.length = ys.length := Nat.succ.inj h
      have hbits : 256 ^ ys.length = 2 ^ (8 * ys.length) := by rw [Nat.pow_mul]
      have hx : bigEndian xs < 2 ^ (8 * ys.length) := by
        rw [← hbits, ← hlen]
        exact bigEndian_lt xs
      have hy : bigEndian ys < 2 ^ (8 * ys.length) := by
        rw [← hbits]
        exact bigEndian_lt ys
      have hzip : (List.zipWith (· ^^^ ·) xs ys).length = ys.length := by simp [hlen]
      rw [List.zipWith_cons_cons, bigEndian, bigEndian, bigEndian, hzip, hlen, hbits,
        xor_split _ _ hx hy, ih hlen, UInt8.toNat_xor]

theorem toNat_zero : zero.toNat = 0 := by decide

end Id

namespace Distance

theorem toNat_between (a b : Id) : (between a b).toNat = a.toNat ^^^ b.toNat :=
  Id.bigEndian_xor (a.size.trans b.size.symm)

theorem between_comm (a b : Id) : between a b = between b a := by
  apply Id.toNat_inj
  rw [toNat_between, toNat_between, Nat.xor_comm]

theorem between_inj_iff (a x y : Id) : between a x = between a y ↔ x = y :=
  ⟨between_inj, congrArg _⟩

theorem between_self (a : Id) : between a a = Id.zero := by
  apply Id.toNat_inj
  rw [toNat_between, Nat.xor_self, Id.toNat_zero]

theorem between_zero_iff (a x : Id) : between a x = Id.zero ↔ a = x := by
  rw [← between_self a, between_inj_iff]
  exact eq_comm

theorem triangle (a x z : Id) :
    (between a z).toNat ≤ (between a x).toNat + (between x z).toNat := by
  rw [toNat_between, toNat_between, toNat_between]
  exact xor_triangle _ _ _

end Distance

namespace Id

/-- `operator<` as the containers use it. -/
def Less (a b : Id) : Prop := a.lt b = true

theorem less_irrefl (a : Id) : ¬Less a a := by
  rw [Less, lt_iff]
  exact Nat.lt_irrefl _

theorem less_trans {a b c : Id} (hab : Less a b) (hbc : Less b c) : Less a c := by
  rw [Less, lt_iff] at *
  exact Nat.lt_trans hab hbc

/-- Neither is less just when they are equal. -/
theorem less_equivalence (a b : Id) : ¬Less a b ∧ ¬Less b a ↔ a.eq b = true := by
  rw [Less, Less, lt_iff, lt_iff, eq_iff]
  constructor
  · rintro ⟨hab, hba⟩
    exact toNat_inj (Nat.le_antisymm (Nat.not_lt.mp hba) (Nat.not_lt.mp hab))
  · rintro rfl
    exact ⟨Nat.lt_irrefl _, Nat.lt_irrefl _⟩

instance : IsStrictTotalOrder Id Less where
  irrefl := less_irrefl
  trans _ _ _ := less_trans
  trichotomous a b hab hba := (eq_iff a b).mp ((less_equivalence a b).mp ⟨hab, hba⟩)

end Id

/-- The distances from an id are ordered as numbers of 256 bits are, and they are a metric; the
order on ids is strict and total, and its equivalence is `operator==`. -/
theorem xor_metric (a x y z : Id) :
    ((Distance.between a x).lt (Distance.between a y) = true ↔
      a.toNat ^^^ x.toNat < a.toNat ^^^ y.toNat) ∧
    a.toNat ^^^ x.toNat < 2 ^ 256 ∧
    (Distance.between a x).eq (Distance.between x a) = true ∧
    ((Distance.between a x).eq (Distance.between a y) = true ↔ x.eq y = true) ∧
    ((Distance.between a x).toNat = 0 ↔ a.eq x = true) ∧
    (Distance.between a z).toNat ≤ (Distance.between a x).toNat + (Distance.between x z).toNat ∧
    IsStrictTotalOrder Id Id.Less ∧
    (¬Id.Less x y ∧ ¬Id.Less y x ↔ x.eq y = true) := by
  refine ⟨?_, ?_, ?_, ?_, ?_, Distance.triangle a x z, inferInstance, Id.less_equivalence x y⟩
  · rw [Id.lt_iff, Distance.toNat_between, Distance.toNat_between]
  · rw [← Distance.toNat_between]
    exact Id.toNat_lt _
  · rw [Id.eq_iff]
    exact Distance.between_comm a x
  · rw [Id.eq_iff, Id.eq_iff, Distance.between_inj_iff]
  · rw [Id.eq_iff, ← Distance.between_zero_iff, ← Id.toNat_zero]
    exact ⟨Id.toNat_inj, congrArg Id.toNat⟩

end Epyx.DHT
