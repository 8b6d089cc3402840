import Mathlib.Algebra.Group.Int.Defs
import Mathlib.Algebra.Group.Nat.Defs
import Mathlib.Data.List.Nodup
import Mathlib.Data.List.TakeWhile

/-! Bytes and byte strings. The source moves between `std::string` and `byte_str` with a
`reinterpret_cast`, so both are lists of bytes here. -/
namespace Epyx

abbrev Byte := UInt8

abbrev ByteStr := List Byte

/-- The bytes of an ASCII literal of the source. -/
def lit (s : String) : ByteStr := s.toList.map fun c => UInt8.ofNat c.toNat

def crlf : ByteStr := [13, 10]

/-- What a `const char*` loop sees of a string: the bytes before the first NUL. -/
def cstr (s : ByteStr) : ByteStr := s.takeWhile (· != 0)

/-- `l[i]` at the position a scanner has reached: past the end there is the NUL of `c_str()`. -/
def peek (s : ByteStr) : Byte := s.headD 0

/-! The `ctype.h` classes in the C locale. A byte from 128 on is a negative `char` and is in
none of them. -/

def isupper (c : Byte) : Bool := 65 ≤ c && c ≤ 90
def islower (c : Byte) : Bool := 97 ≤ c && c ≤ 122
def isdigit (c : Byte) : Bool := 48 ≤ c && c ≤ 57
def isalpha (c : Byte) : Bool := isupper c || islower c
def isalnum (c : Byte) : Bool := isalpha c || isdigit c
def isspace (c : Byte) : Bool := c = 32 || (9 ≤ c && c ≤ 13)
def tolower (c : Byte) : Byte := if isupper c then c + 32 else c

/-- `l[i] >= 32 && l[i] < 126` -/
def printable (c : Byte) : Bool := 32 ≤ c && c < 126

theorem cstr_eq_self {s : ByteStr} (h : 0 ∉ s) : cstr s = s := by
  exact List.takeWhile_eq_self_iff.mpr fun c hc => bne_iff_ne.mpr fun h0 => h (h0 ▸ hc)

theorem cstr_append {w : ByteStr} (h : 0 ∉ w) (s : ByteStr) : cstr (w ++ s) = w ++ cstr s :=
  List.takeWhile_append_of_pos fun _ hc => bne_iff_ne.mpr fun h0 => h (h0 ▸ hc)

/-- Behind what is seen of a string comes its end or a NUL. -/
theorem cstr_split (s : ByteStr) : ∃ t, s = cstr s ++ t ∧ cstr t = [] := by
  refine ⟨_, (List.takeWhile_append_dropWhile (p := (· != 0)) (l := s)).symm, ?_⟩
  cases hd : s.dropWhile (· != 0) with
  | nil => rfl
  | cons c t =>
    have hc : (c != 0) = false := by
      have hh := List.head_dropWhile_not (· != 0) (by simp [hd] : s.dropWhile (· != 0) ≠ [])
      simpa only [hd, List.head_cons] using hh
    simp [cstr, hc]

theorem dropWhile_bne_eq_nil {c : Byte} {s : ByteStr} : s.dropWhile (· != c) = [] ↔ c ∉ s := by
  rw [List.dropWhile_eq_nil_iff]
  exact ⟨fun h hm => by simpa using h c hm, fun h x hx => bne_iff_ne.mpr fun he => h (he ▸ hx)⟩

@[simp] theorem peek_nil : peek [] = 0 := rfl

@[simp] theorem peek_cons (c : Byte) (s : ByteStr) : peek (c :: s) = c := rfl

/-- A counter that has not come round tells how often it was counted up. -/
theorem eq_of_ofNat_eq {j k : Nat} (hj : j < 2 ^ 64) (hk : k < 2 ^ 64)
    (h : UInt64.ofNat j = UInt64.ofNat k) : j = k := by
  have hval := congrArg UInt64.toNat h
  rwa [UInt64.toNat_ofNat_of_lt' hj, UInt64.toNat_ofNat_of_lt' hk] at hval

/-- Entries that are told apart by a counter that has not come round. -/
theorem nodup_of_counted {α : Type*} {l : List α} (count : UInt64 → α → Prop)
    (hl : l.length ≤ 2 ^ 64) (h : ∀ (k : Nat) a, l[k]? = some a → count (UInt64.ofNat k) a)
    (hinj : ∀ j k a, count j a → count k a → j = k) : l.Nodup := by
  refine List.nodup_iff_injective_get.mpr fun ⟨j, hj⟩ ⟨k, hk⟩ hjk => ?_
  have hcj := h j _ (List.getElem?_eq_getElem hj)
  have hck := h k _ (List.getElem?_eq_getElem hk)
  have heq : l[j] = l[k] := hjk
  rw [← heq] at hck
  exact Fin.ext (eq_of_ofNat_eq (hj.trans_le hl) (hk.trans_le hl) (hinj _ _ _ hcj hck))

/-- The conversion to an `int`, which keeps the low 32 bits. -/
def toInt32 (n : Int) : Int :=
  if n % 4294967296 < 2147483648 then n % 4294967296 else n % 4294967296 - 4294967296

/-- The conversion to an `unsigned long`, which keeps the low 64 bits. -/
def toU64 (n : Int) : Nat := (n % 18446744073709551616).toNat

/-- The values of an `int`. -/
def InInt (n : Int) : Prop := -2 ^ 31 ≤ n ∧ n < 2 ^ 31

instance (n : Int) : Decidable (InInt n) := inferInstanceAs (Decidable (_ ∧ _))

theorem toInt32_inInt (n : Int) : InInt (toInt32 n) := by
  unfold InInt toInt32; split <;> omega

theorem toInt32_eq_self {n : Int} (h : InInt n) : toInt32 n = n := by
  unfold InInt at h; unfold toInt32; split <;> omega

/-- What a number is converted to, by its low 32 bits. -/
theorem toInt32_eq_iff {n m : Int} :
    toInt32 n = m ↔ InInt m ∧ n % 4294967296 = m % 4294967296 := by
  unfold InInt toInt32
  split <;> omega

theorem toInt32_toInt32_add (n m : Int) : toInt32 (toInt32 n + m) = toInt32 (n + m) := by
  unfold toInt32
  split <;> omega

end Epyx
