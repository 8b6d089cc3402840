import Epyx.Core.Text

/-! `net/ipaddress.cpp`. The IPv4 text functions of the C library are written out; what IPv6
text means is a parameter. -/
namespace Epyx

/-- `struct in_addr` -/
structure InAddr where
  a : Byte
  b : Byte
  c : Byte
  d : Byte
  deriving DecidableEq, Repr

/-- `inet_ntop(AF_INET, ...)` -/
def inetNtop4 (x : InAddr) : ByteStr :=
  [46].intercalate ([x.a, x.b, x.c, x.d].map fun o => Text.fromUnsignedLong o.toNat)

/-- One number of a dotted quad: at most 255 and without leading zeros. -/
def octet (s : ByteStr) : Option Byte :=
  let n := Lib.Decimal.value s
  if n < 256 ∧ s = Lib.Decimal.digits n then some (UInt8.ofNat n) else none

/-- `inet_pton(AF_INET, ...)` -/
def inetPton4 (s : ByteStr) : Option InAddr :=
  match (s.splitOn 46).map octet with
  | [some a, some b, some c, some d] => some ⟨a, b, c, d⟩
  | _ => none

/-- The IPv4 text `inet_ntop` produces. -/
def IsIPv4 (s : ByteStr) : Prop := ∃ x, s = inetNtop4 x

/-- What the C library does with other addresses. When `inet_pton` refuses a text the `sockaddr`
it should have filled keeps what the stack held, and that is what is printed back. -/
structure Inet where
  stale : ByteStr → InAddr
  pton6 : ByteStr → Option (List Byte)
  ntop6 : List Byte → ByteStr
  stale6 : ByteStr → List Byte

/-- A C library without IPv6, over memory that is zero. -/
def Inet.zero : Inet := ⟨fun _ => ⟨0, 0, 0, 0⟩, fun _ => none, fun _ => lit "::", fun _ => []⟩

structure IpAddress where
  ip : ByteStr
  ipVersion : Int
  deriving DecidableEq, Repr

namespace IpAddress

/-- `IpAddress::IpAddress()` -/
def unset : IpAddress := ⟨[], 0⟩

/-- `IpAddress::simplifyIP`: through a `sockaddr` and back. -/
def simplifyIP (inet : Inet) (a : IpAddress) : Except Exn IpAddress :=
  if ¬a.ipVersion > 0 then .error (assertFailed "this->ipVersion > 0")
  else if a.ipVersion = 4 then
    .ok { a with ip := inetNtop4 ((inetPton4 (cstr a.ip)).getD (inet.stale a.ip)) }
  else if a.ipVersion = 6 then
    .ok { a with ip := inet.ntop6 ((inet.pton6 (cstr a.ip)).getD (inet.stale6 a.ip)) }
  else .error (.fail "IpAddress" "Bad IP Version")

/-- `IpAddress::IpAddress(ip, ipVersion)` -/
def ofString (inet : Inet) (ip : ByteStr) (ipVersion : Int) : Except Exn IpAddress :=
  if ip = [] then .ok ⟨ip, ipVersion⟩
  else if peek ip = 91 then
    -- brackets around an IPv6 address
    if ip.getLast? ≠ some 93 then .error (.parser "IpAddress" "Invalid IPv6 address")
    else simplifyIP inet ⟨(ip.drop 1).dropLast, 6⟩
  else
    let ipVersion := if ipVersion = 0 then (if 58 ∈ ip then 6 else 4) else ipVersion
    simplifyIP inet ⟨ip, ipVersion⟩

def empty (a : IpAddress) : Bool := a.ip = []

/-- `operator<<` -/
def print (a : IpAddress) : ByteStr := if a.ip.length ≠ 0 then a.ip else lit "*"

/-- `IpAddress::compare`, by the sign of its result. -/
def compare (a b : IpAddress) : Ordering :=
  if a.ipVersion < b.ipVersion then .lt
  else if a.ipVersion > b.ipVersion then .gt
  else Ord.compare a.ip b.ip

instance : Ord IpAddress := ⟨compare⟩

theorem compare_lex :
    compare = compareLex (compareOn IpAddress.ipVersion) (compareOn IpAddress.ip) := by
  funext a b
  simp only [compare, compareLex, compareOn, Int.compare_eq_ite_lt, gt_iff_lt]
  split
  · rfl
  · split <;> rfl

instance : Std.TransOrd IpAddress := by
  change Std.TransCmp compare
  rw [compare_lex]
  infer_instance

theorem compare_eq_iff {a b : IpAddress} : a.compare b = .eq ↔ a = b := by
  obtain ⟨ip, v⟩ := a
  obtain ⟨ip', v'⟩ := b
  simp [compare_lex, compareLex, compareOn, Ordering.then_eq_eq, and_comm]

instance : Std.LawfulEqOrd IpAddress where
  compare_self := compare_eq_iff.mpr rfl
  eq_of_compare := compare_eq_iff.mp

/-- With a version given, only an opening bracket without its closing one is refused. -/
theorem ofString_eq_ok_iff (inet : Inet) {v : Int} (hv : v = 4 ∨ v = 6) (s : ByteStr) :
    (∃ a, ofString inet s v = .ok a) ↔ (s ≠ [] → peek s = 91 → s.getLast? = some 93) := by
  unfold ofString simplifyIP
  by_cases h0 : s = []
  · simp [h0]
  · by_cases h91 : peek s = 91
    · by_cases h93 : s.getLast? = some 93 <;> simp [h0, h91, h93]
    · rcases hv with rfl | rfl <;> simp [h0, h91]

theorem ofString_error {inet : Inet} {v : Int} (hv : v = 4 ∨ v = 6) {s : ByteStr} {e : Exn}
    (h : ofString inet s v = .error e) : e.isParser := by
  unfold ofString simplifyIP at h
  rcases hv with rfl | rfl
  all_goals
    repeat' split at h
    all_goals first | cases h; rfl | simp at *

end IpAddress

/-! Canonical IPv4 text survives `simplifyIP`. -/

theorem octet_digits (o : Byte) : octet (Text.fromUnsignedLong o.toNat) = some o := by
  have ho : o.toNat < 256 := o.toNat_lt
  simp [octet, Text.fromUnsignedLong, Lib.Decimal.value_digits, ho]

theorem dot_notMem_digits (n : Nat) : 46 ∉ Text.fromUnsignedLong n := fun h =>
  absurd (Lib.Decimal.digits_isDigit h) (by decide)

theorem inetPton4_ntop4 (x : InAddr) : inetPton4 (inetNtop4 x) = some x := by
  have hs : (inetNtop4 x).splitOn 46 =
      [x.a, x.b, x.c, x.d].map fun o => Text.fromUnsignedLong o.toNat := by
    refine List.splitOn_intercalate 46 (fun l hl => ?_) (by simp)
    obtain ⟨o, -, rfl⟩ := List.mem_map.mp hl
    exact dot_notMem_digits _
  simp [inetPton4, hs, octet_digits]

theorem inetNtop4_bytes {x : InAddr} {c : Byte} (h : c ∈ inetNtop4 x) : isdigit c ∨ c = 46 := by
  have hd : ∀ n, c ∈ Text.fromUnsignedLong n → isdigit c ∨ c = 46 := fun n hc =>
    .inl (Lib.Decimal.digits_isDigit hc)
  simp only [inetNtop4, List.map_cons, List.map_nil, List.intercalate, List.intersperse,
    List.flatten_cons, List.flatten_nil, List.mem_append, List.mem_singleton,
    List.append_nil] at h
  rcases h with h | h | h | h | h | h | h
  · exact hd _ h
  · exact .inr h
  · exact hd _ h
  · exact .inr h
  · exact hd _ h
  · exact .inr h
  · exact hd _ h

theorem inetNtop4_ne_nil (x : InAddr) : inetNtop4 x ≠ [] := by
  have h := Lib.Decimal.digits_ne_nil x.a.toNat
  simp [inetNtop4, List.intercalate, Text.fromUnsignedLong, h]

theorem IsIPv4.bytes {s : ByteStr} (h : IsIPv4 s) {c : Byte} (hc : c ∈ s) :
    isdigit c ∨ c = 46 := by
  obtain ⟨x, rfl⟩ := h
  exact inetNtop4_bytes hc

theorem IsIPv4.ne_nil {s : ByteStr} (h : IsIPv4 s) : s ≠ [] := by
  obtain ⟨x, rfl⟩ := h
  exact inetNtop4_ne_nil x

theorem IsIPv4.notMem {s : ByteStr} (h : IsIPv4 s) {c : Byte} (hc : ¬isdigit c)
    (hd : c ≠ 46) : c ∉ s := fun hm => (h.bytes hm).elim hc hd

theorem IpAddress.ofString_ipv4 (inet : Inet) {s : ByteStr} (h : IsIPv4 s) :
    ofString inet s 4 = .ok ⟨s, 4⟩ := by
  have hne := h.ne_nil
  have h0 : (0 : Byte) ∉ s := h.notMem (by decide) (by decide)
  have h91 : peek s ≠ 91 := by
    cases s with
    | nil => exact absurd rfl hne
    | cons c t =>
      rintro rfl
      exact h.notMem (c := 91) (by decide) (by decide) (by simp)
  obtain ⟨x, rfl⟩ := h
  simp [ofString, simplifyIP, hne, h91, cstr_eq_self h0, inetPton4_ntop4]

end Epyx
