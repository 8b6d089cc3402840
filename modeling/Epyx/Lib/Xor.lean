import Mathlib.Data.Nat.Bitwise

/-! Numbers under XOR: how it meets addition and a split into high and low bits. The XOR of two
lists of bits shows how far they agree, and that of two numbers which of them is less. -/
namespace Epyx.Lib

/-- XOR is the sum without its carries. -/
theorem xor_le_add (m n : Nat) : m ^^^ n ≤ m + n := by
  induction m using Nat.strongRecOn generalizing n with
  | ind m ih =>
    by_cases hm : m = 0
    · simp [hm]
    · have hhalf := ih (m / 2) (by omega) (n / 2)
      have hdiv : (m ^^^ n) / 2 = m / 2 ^^^ n / 2 := Nat.xor_div_two
      have hmod : (m ^^^ n) % 2 = (m + n) % 2 := Nat.xor_mod_two_eq
      omega

/-- The high bits and the low bits are taken on their own. -/
theorem xor_split {k x y : Nat} (a b : Nat) (hx : x < 2 ^ k) (hy : y < 2 ^ k) :
    (a * 2 ^ k + x) ^^^ (b * 2 ^ k + y) = (a ^^^ b) * 2 ^ k + (x ^^^ y) := by
  have hpos : 0 < 2 ^ k := Nat.two_pow_pos k
  have hhigh : ((a * 2 ^ k + x) ^^^ (b * 2 ^ k + y)) / 2 ^ k = a ^^^ b := by
    rw [Nat.xor_div_two_pow, Nat.mul_comm a, Nat.mul_comm b, Nat.mul_add_div hpos,
      Nat.mul_add_div hpos, Nat.div_eq_of_lt hx, Nat.div_eq_of_lt hy, Nat.add_zero, Nat.add_zero]
  have hlow : ((a * 2 ^ k + x) ^^^ (b * 2 ^ k + y)) % 2 ^ k = x ^^^ y := by
    rw [Nat.xor_mod_two_pow, Nat.mul_comm a, Nat.mul_comm b, Nat.mul_add_mod, Nat.mul_add_mod,
      Nat.mod_eq_of_lt hx, Nat.mod_eq_of_lt hy]
  have h := Nat.div_add_mod ((a * 2 ^ k + x) ^^^ (b * 2 ^ k + y)) (2 ^ k)
  rw [hhigh, hlow, Nat.mul_comm] at h
  exact h.symm

/-- The triangle inequality: what two numbers differ in, one of them and a third differ in, or
the third and the other. -/
theorem xor_triangle (a x z : Nat) : a ^^^ z ≤ (a ^^^ x) + (x ^^^ z) := by
  have h : a ^^^ z = (a ^^^ x) ^^^ (x ^^^ z) := by
    rw [Nat.xor_assoc, ← Nat.xor_assoc x x z, Nat.xor_self, Nat.zero_xor]
  rw [h]
  exact xor_le_add _ _

/-- Two lists agree on as many bits as their XOR has leading zeros, and differ on the next. -/
theorem agree_of_leading_zeros {xs ys : List Bool} {n : Nat} (hlen : xs.length = ys.length)
    (hn : ((xs.zipWith xor ys).takeWhile (!·)).length = n) (hlt : n < xs.length) :
    xs.take n = ys.take n ∧ xs[n]? ≠ ys[n]? := by
  induction xs generalizing ys n with
  | nil => cases hlt
  | cons x xs ih =>
    cases ys with
    | nil => cases hlen
    | cons y ys =>
      cases hxy : xor x y with
      | true =>
        simp only [List.zipWith_cons_cons, hxy, Bool.not_true, Bool.false_eq_true,
          not_false_eq_true, List.takeWhile_cons_of_neg, List.length_nil] at hn
        subst hn
        refine ⟨rfl, fun h => ?_⟩
        obtain rfl : x = y := Option.some.inj h
        simp at hxy
      | false =>
        have heq : x = y := by simpa using hxy
        simp only [List.zipWith_cons_cons, hxy, Bool.not_false, List.takeWhile_cons_of_pos,
          List.length_cons] at hn
        subst heq hn
        obtain ⟨htake, hnext⟩ := ih (Nat.succ.inj hlen) rfl (Nat.lt_of_succ_lt_succ hlt)
        refine ⟨?_, ?_⟩
        · rw [List.take_succ_cons, List.take_succ_cons, htake]
        · rwa [List.getElem?_cons_succ, List.getElem?_cons_succ]

/-- Two numbers agree on the bits above the first one they differ in. -/
theorem testBit_above_xor {x y j : Nat} (h : (x ^^^ y).log2 < j) : x.testBit j = y.testBit j := by
  have hzero : (x ^^^ y).testBit j = false := by
    refine Nat.testBit_lt_two_pow ?_
    by_cases hne : x ^^^ y = 0
    · rw [hne]
      exact Nat.two_pow_pos j
    · exact (Nat.log2_lt hne).mp h
  rw [Nat.testBit_xor] at hzero
  simpa using hzero

/-- The first bit in which they differ tells which number is less. -/
theorem lt_iff_testBit {x y : Nat} (h : x ≠ y) : x < y ↔ y.testBit (x ^^^ y).log2 = true := by
  have hne : x ^^^ y ≠ 0 := fun hz => h (Nat.xor_eq_zero_iff.mp hz)
  have hbit := Nat.testBit_log2 hne
  rw [Nat.testBit_xor] at hbit
  cases hy : y.testBit (x ^^^ y).log2 with
  | true =>
    have hx : x.testBit (x ^^^ y).log2 = false := by simpa [hy] using hbit
    exact iff_of_true (Nat.lt_of_testBit _ hx hy fun j hj => testBit_above_xor hj) rfl
  | false =>
    have hx : x.testBit (x ^^^ y).log2 = true := by simpa [hy] using hbit
    have hlt := Nat.lt_of_testBit _ hy hx fun j hj => (testBit_above_xor hj).symm
    exact iff_of_false (Nat.not_lt.mpr hlt.le) Bool.false_ne_true

/-- If `m` is nearer to `t` than `c` is, so is every `p` that parts from `c` at the same bit. -/
theorem xor_lt_of_log2_eq {c m p t : Nat} (hm : c ≠ m) (hp : c ≠ p)
    (hlog : (c ^^^ p).log2 = (c ^^^ m).log2) (h : m ^^^ t < c ^^^ t) : p ^^^ t < c ^^^ t := by
  have hcancel : ∀ x : Nat, (x ^^^ t) ^^^ (c ^^^ t) = c ^^^ x := fun x => by
    rw [Nat.xor_comm c t, Nat.xor_assoc, ← Nat.xor_assoc t t c, Nat.xor_self, Nat.zero_xor,
      Nat.xor_comm]
  have hne : ∀ {x : Nat}, c ≠ x → x ^^^ t ≠ c ^^^ t := fun hx he =>
    hx (Nat.xor_left_inj.mp he).symm
  rw [lt_iff_testBit (hne hm), hcancel] at h
  rw [lt_iff_testBit (hne hp), hcancel, hlog]
  exact h

end Epyx.Lib
