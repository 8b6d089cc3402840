import Epyx.Core.Exception
import Epyx.Lib.Decimal
import Mathlib.Data.List.DropRight
import Mathlib.Data.Nat.Find

/-! `core/string.cpp`: numbers to text and back, trimming and case. -/
namespace Epyx.Text
open Lib

/-- What `stringstream >> number` scans: the sign and the digits after the leading spaces.
Text after the digits stays in the stream and is never looked at. -/
def scanNumber (s : ByteStr) : Bool × ByteStr :=
  match s.dropWhile isspace with
  | [] => (false, [])
  | c :: t =>
    if c = 45 then (true, t.takeWhile isdigit)
    else if c = 43 then (false, t.takeWhile isdigit)
    else (false, (c :: t).takeWhile isdigit)

/-- The exception of `String::toInt` and of `String::toULong`. -/
def invalidCharacters : Exn := .parser "String::toInt" "Invalid characters"

/-- `String::toInt`: the extraction fails without digits and outside the range of `long`. -/
def toInt (s : ByteStr) : Except Exn Int :=
  let (neg, ds) := scanNumber s
  let n := Decimal.value ds
  if ds = [] then .error invalidCharacters
  else if neg then
    if n ≤ 2 ^ 63 then .ok (-n) else .error invalidCharacters
  else
    if n < 2 ^ 63 then .ok n else .error invalidCharacters

/-- `String::toULong`: a minus sign is accepted and wraps, as `strtoul` does. -/
def toULong (s : ByteStr) : Except Exn Nat :=
  let (neg, ds) := scanNumber s
  let n := Decimal.value ds
  if ds = [] then .error invalidCharacters
  else if n < 2 ^ 64 then .ok (if neg then toU64 (-n) else n)
  else .error invalidCharacters

/-- `String::fromInt`, for a value that is already an `int`. -/
def fromInt (n : Int) : ByteStr :=
  if n < 0 then 45 :: Decimal.digits n.natAbs else Decimal.digits n.natAbs

/-- `String::fromUnsignedLong`, and `<<` of a size. -/
def fromUnsignedLong (n : Nat) : ByteStr := Decimal.digits n

def ltrim (s : ByteStr) : ByteStr := s.dropWhile isspace

def rtrim (s : ByteStr) : ByteStr := s.rdropWhile isspace

def trim (s : ByteStr) : ByteStr := ltrim (rtrim s)

def toLower (s : ByteStr) : ByteStr := s.map tolower

/-- `std::string::find`, of a string: where it stands first. `none` is `npos`. -/
def find (s pattern : ByteStr) : Option Nat := (s.dropInfix? pattern).map fun r => r.1.length

theorem find_eq_some_iff {s pattern : ByteStr} {n : Nat} :
    find s pattern = some n ↔
      (∃ pre post, pre.length = n ∧ s = pre ++ pattern ++ post) ∧
        ∀ pre post, s = pre ++ pattern ++ post → n ≤ pre.length := by
  simp only [find, Option.map_eq_some_iff, Prod.exists, List.dropInfix?_eq_some_iff, beq_iff_eq,
    exists_eq_right, ge_iff_le]
  constructor
  · rintro ⟨pre, post, ⟨rfl, hfirst⟩, rfl⟩
    exact ⟨⟨pre, post, rfl, rfl⟩, fun p q h => hfirst p pattern q h rfl⟩
  · rintro ⟨⟨pre, post, rfl, rfl⟩, hfirst⟩
    refine ⟨pre, post, ⟨rfl, ?_⟩, rfl⟩
    rintro p i q h rfl
    exact hfirst p q h

theorem find_eq_none_iff {s pattern : ByteStr} : find s pattern = none ↔ ¬pattern <:+: s := by
  constructor
  · rintro h ⟨pre, post, hs⟩
    have hexists : ∃ n pre post, pre.length = n ∧ s = pre ++ pattern ++ post :=
      ⟨_, pre, post, rfl, hs.symm⟩
    classical
    have hsome : find s pattern = some (Nat.find hexists) :=
      find_eq_some_iff.mpr ⟨Nat.find_spec hexists, fun p q hp =>
        Nat.find_min' hexists ⟨p, q, rfl, hp⟩⟩
    rw [h] at hsome
    cases hsome
  · intro h
    cases hfind : find s pattern with
    | none => rfl
    | some n =>
      obtain ⟨⟨pre, post, -, hs⟩, -⟩ := find_eq_some_iff.mp hfind
      exact absurd ⟨pre, post, hs.symm⟩ h

theorem find_eq_zero_iff {s pattern : ByteStr} : find s pattern = some 0 ↔ pattern <+: s := by
  rw [find_eq_some_iff]
  constructor
  · rintro ⟨⟨pre, post, hpre, hs⟩, -⟩
    rw [List.length_eq_zero_iff.mp hpre] at hs
    exact ⟨post, hs.symm⟩
  · rintro ⟨post, hs⟩
    exact ⟨⟨[], post, rfl, hs.symm⟩, fun _ _ _ => Nat.zero_le _⟩

/-- Text without white space is not trimmed. -/
theorem ltrim_eq_self {s : ByteStr} (h : ∀ c ∈ s, ¬isspace c) : ltrim s = s := by
  cases s with
  | nil => rfl
  | cons c s => simp [ltrim, h c (List.mem_cons_self ..)]

theorem rtrim_append {s t : ByteStr} (hne : t ≠ []) (h : ∀ c ∈ t, ¬isspace c) :
    rtrim (s ++ t) = s ++ t := by
  obtain ⟨init, c, rfl⟩ := (List.eq_nil_or_concat t).resolve_left hne
  have hc : ¬isspace c := h c (by simp)
  rw [rtrim, List.concat_eq_append, ← List.append_assoc, List.rdropWhile_concat_neg _ _ _ hc]

/-- The blank before a value goes. -/
theorem trim_space {s : ByteStr} (hne : s ≠ []) (h : ∀ c ∈ s, ¬isspace c) :
    trim (32 :: s) = s := by
  have hr : rtrim (32 :: s) = 32 :: s := rtrim_append (s := [32]) hne h
  rw [trim, hr]
  exact ltrim_eq_self h

theorem isdigit_bounds {c : Byte} (h : isdigit c) : 48 ≤ c.toNat ∧ c.toNat ≤ 57 := by
  simpa [isdigit, UInt8.le_iff_toNat_le] using h

theorem takeWhile_digits (n : Nat) : (Decimal.digits n).takeWhile isdigit = Decimal.digits n :=
  List.takeWhile_eq_self_iff.mpr fun _ hc => Decimal.digits_isDigit hc

theorem isdigit_not_special {c : Byte} (h : isdigit c) : ¬isspace c ∧ c ≠ 45 ∧ c ≠ 43 := by
  have hb := isdigit_bounds h
  refine ⟨?_, ?_, ?_⟩
  · simp only [isspace, Bool.or_eq_true, decide_eq_true_eq, Bool.and_eq_true,
      UInt8.le_iff_toNat_le, ← UInt8.toNat_inj, UInt8.reduceToNat]
    omega
  · rintro rfl; exact absurd h (by decide)
  · rintro rfl; exact absurd h (by decide)

/-- Text that is all digits is scanned whole. -/
theorem scanNumber_of_digits {s : ByteStr} (hne : s ≠ []) (h : ∀ c ∈ s, isdigit c) :
    scanNumber s = (false, s) := by
  have ht : s.takeWhile isdigit = s := List.takeWhile_eq_self_iff.mpr h
  cases s with
  | nil => exact absurd rfl hne
  | cons c t =>
    obtain ⟨hs, hm, hp⟩ := isdigit_not_special (h c (by simp))
    simp [scanNumber, hs, hm, hp, ht]

theorem scanNumber_digits (n : Nat) :
    scanNumber (Decimal.digits n) = (false, Decimal.digits n) :=
  scanNumber_of_digits (Decimal.digits_ne_nil n) fun _ hc => Decimal.digits_isDigit hc

theorem scanNumber_minus (n : Nat) :
    scanNumber (45 :: Decimal.digits n) = (true, Decimal.digits n) := by
  have hs : ¬isspace 45 := by decide
  simp [scanNumber, hs, takeWhile_digits]

/-- A `long` survives being printed and read back. -/
theorem toInt_fromInt {n : Int} (hl : -2 ^ 63 ≤ n) (hu : n < 2 ^ 63) :
    toInt (fromInt n) = .ok n := by
  unfold fromInt
  by_cases hn : n < 0
  · have hb : n.natAbs ≤ 2 ^ 63 := by omega
    rw [if_pos hn, toInt, scanNumber_minus]
    simp only [Decimal.digits_ne_nil, Decimal.value_digits, hb, if_true, if_false]
    congr 1; omega
  · have hb : n.natAbs < 2 ^ 63 := by omega
    rw [if_neg hn, toInt, scanNumber_digits]
    simp only [Decimal.digits_ne_nil, Decimal.value_digits, hb, if_true, if_false,
      Bool.false_eq_true]
    congr 1; omega

theorem toInt_fromInt32 (n : Int) : toInt (fromInt (toInt32 n)) = .ok (toInt32 n) := by
  have h := toInt32_inInt n
  unfold InInt at h
  exact toInt_fromInt (by omega) (by omega)

theorem toInt_digits {n : Nat} (h : n < 2 ^ 63) : toInt (fromUnsignedLong n) = .ok (n : Int) := by
  have hf := toInt_fromInt (n := (n : Int)) (by omega) (by omega)
  have hn : ¬(n : Int) < 0 := by omega
  simpa only [fromInt, fromUnsignedLong, if_neg hn, Int.natAbs_natCast] using hf

theorem toULong_digits {n : Nat} (h : n < 2 ^ 64) : toULong (fromUnsignedLong n) = .ok n := by
  rw [toULong, fromUnsignedLong, scanNumber_digits]
  simp only [Decimal.digits_ne_nil, Decimal.value_digits, h, if_true, if_false,
    Bool.false_eq_true]

/-- `String::toInt` throws nothing but its own `ParserException`. -/
theorem toInt_error {s : ByteStr} {e : Exn} (h : toInt s = .error e) : e.isParser := by
  simp only [toInt] at h
  repeat' split at h
  all_goals cases h <;> rfl

/-- The texts `String::toInt` reads. -/
def IsLong (s : ByteStr) : Prop :=
  let (neg, ds) := scanNumber s
  ds ≠ [] ∧ if neg then Decimal.value ds ≤ 2 ^ 63 else Decimal.value ds < 2 ^ 63

/-- The texts `String::toULong` reads. -/
def IsULong (s : ByteStr) : Prop :=
  (scanNumber s).2 ≠ [] ∧ Decimal.value (scanNumber s).2 < 2 ^ 64

instance (s : ByteStr) : Decidable (IsLong s) := by
  unfold IsLong; infer_instance

instance (s : ByteStr) : Decidable (IsULong s) := inferInstanceAs (Decidable (_ ∧ _))

/-- The number a text starts with. -/
theorem toInt_isLong {s : ByteStr} (h : IsLong s) :
    toInt s = .ok (if (scanNumber s).1 then -(Decimal.value (scanNumber s).2 : Int)
      else Decimal.value (scanNumber s).2) := by
  revert h
  unfold IsLong toInt
  rcases scanNumber s with ⟨neg, ds⟩
  rintro ⟨hd, hb⟩
  cases neg with
  | false =>
    have hlt : Decimal.value ds < 2 ^ 63 := hb
    simp only [if_neg hd, if_pos hlt, Bool.false_eq_true, if_false]
  | true =>
    have hle : Decimal.value ds ≤ 2 ^ 63 := hb
    simp only [if_neg hd, if_pos hle, if_true]

theorem toInt_eq_ok_iff (s : ByteStr) : (∃ n, toInt s = .ok n) ↔ IsLong s := by
  unfold toInt IsLong
  rcases scanNumber s with ⟨neg, ds⟩
  by_cases hd : ds = []
  · simp [hd]
  · cases neg
    · simp only [hd, if_false, Bool.false_eq_true]
      split <;> simp_all
    · simp only [hd, if_false, if_true]
      split <;> simp_all

theorem toULong_eq_ok_iff (s : ByteStr) : (∃ n, toULong s = .ok n) ↔ IsULong s := by
  unfold toULong IsULong
  rcases scanNumber s with ⟨neg, ds⟩
  by_cases hd : ds = []
  · simp [hd]
  · simp only [hd, if_false]
    split <;> simp_all

theorem toULong_error {s : ByteStr} {e : Exn} (h : toULong s = .error e) : e.isParser := by
  simp only [toULong] at h
  repeat' split at h
  all_goals cases h <;> rfl

/-- The text of a number is not empty and has no byte but digits and the sign. -/
theorem fromInt_bytes {n : Int} {c : Byte} (h : c ∈ fromInt n) : isdigit c ∨ c = 45 := by
  unfold fromInt at h
  split at h
  · rcases List.mem_cons.mp h with rfl | h
    · exact .inr rfl
    · exact .inl (Decimal.digits_isDigit h)
  · exact .inl (Decimal.digits_isDigit h)

theorem fromInt_ne_nil (n : Int) : fromInt n ≠ [] := by
  unfold fromInt; split <;> simp [Decimal.digits_ne_nil]

end Epyx.Text
