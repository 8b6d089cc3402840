import Mathlib.Data.List.Basic

/-! Decimal text over bytes: the digits of a natural number, the value of a run of
digits, and the round trip between the two. Nothing here knows about a program. -/
namespace Epyx.Lib.Decimal

def isDigit (c : UInt8) : Bool := 48 ≤ c && c ≤ 57

def ofChar (c : Char) : UInt8 := UInt8.ofNat c.toNat

def toChar (c : UInt8) : Char := Char.ofNat c.toNat

/-- The decimal digits of `n`, most significant first; `0` is one digit. -/
def digits (n : Nat) : List UInt8 := (Nat.toDigits 10 n).map ofChar

def value (ds : List UInt8) : Nat := Nat.ofDigitChars 10 (ds.map toChar) 0

theorem toNat_ofChar (c : Char) (h : c.isDigit) :
    (ofChar c).toNat = c.toNat ∧ 48 ≤ c.toNat ∧ c.toNat ≤ 57 := by
  have hc : 48 ≤ c.toNat ∧ c.toNat ≤ 57 := by simpa [Char.isDigit, UInt32.le_iff_toNat_le] using h
  have hs : c.toNat < UInt8.size := by simp only [UInt8.size]; omega
  exact ⟨UInt8.toNat_ofNat_of_lt hs, hc⟩

theorem ofChar_isDigit (c : Char) (h : c.isDigit) : isDigit (ofChar c) := by
  obtain ⟨hn, hc⟩ := toNat_ofChar c h
  simp [isDigit, UInt8.le_iff_toNat_le, hn, hc]

theorem toChar_ofChar (c : Char) (h : c.isDigit) : toChar (ofChar c) = c := by
  obtain ⟨hn, -⟩ := toNat_ofChar c h
  simp [toChar, hn]

theorem digits_isDigit {n : Nat} {c : UInt8} (h : c ∈ digits n) : isDigit c := by
  obtain ⟨d, hd, rfl⟩ := List.mem_map.mp h
  exact ofChar_isDigit d (Nat.isDigit_of_mem_toDigits (by decide) (by decide) hd)

theorem digits_ne_nil (n : Nat) : digits n ≠ [] := by
  simp [digits, Nat.toDigits_ne_nil]

theorem value_digits (n : Nat) : value (digits n) = n := by
  have hid : (Nat.toDigits 10 n).map (toChar ∘ ofChar) = Nat.toDigits 10 n := by
    refine (List.map_congr_left fun d hd => ?_).trans (List.map_id _)
    exact toChar_ofChar d (Nat.isDigit_of_mem_toDigits (by decide) (by decide) hd)
  rw [value, digits, List.map_map, hid, Nat.ofDigitChars_ten_toDigits]

theorem takeWhile_digits (n : Nat) (rest : List UInt8) (h : ∀ c ∈ rest.head?, ¬isDigit c) :
    (digits n ++ rest).takeWhile isDigit = digits n := by
  rw [List.takeWhile_append_of_pos fun c hc => digits_isDigit hc]
  cases rest with
  | nil => simp
  | cons c rest => simp [h c rfl]

theorem digits_injective : Function.Injective digits := fun m n h => by
  rw [← value_digits m, h, value_digits n]

end Epyx.Lib.Decimal
