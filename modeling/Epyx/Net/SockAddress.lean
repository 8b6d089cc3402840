import Epyx.Net.IpAddress

/-! `net/sockaddress.cpp`: an address with a port, and its text. -/
namespace Epyx

structure SockAddress where
  ip : IpAddress
  port : UInt16
  deriving DecidableEq, Repr

namespace SockAddress

/-- `SockAddress::SockAddress()` -/
def unset : SockAddress := ⟨.unset, 0⟩

/-- `if (!portstr.empty() && portstr[0] == ':')`: the number is narrowed to `unsigned short`. -/
def portOfString (portstr : ByteStr) : Except Exn UInt16 :=
  match portstr with
  | 58 :: digits => (Text.toInt digits).map UInt16.ofInt
  | _ => .ok 0

/-- The address once its ip and the text of its port are apart. -/
def withPort (ip : Except Exn IpAddress) (portstr : ByteStr) : Except Exn SockAddress := do
  let ip ← ip
  let port ← portOfString portstr
  return ⟨ip, port⟩

/-- `SockAddress::SockAddress(addressFormat)` -/
def ofString (inet : Inet) (addressFormat : ByteStr) : Except Exn SockAddress :=
  if addressFormat = [] then .ok unset
  else if peek addressFormat = 91 then
    match addressFormat.dropWhile (· != 93) with
    | [] => .error (.parser "SockAddress" "Invalid IPv6 address")
    | _ :: portstr =>
      withPort (IpAddress.ofString inet ((addressFormat.takeWhile (· != 93)).drop 1) 6) portstr
  else
    withPort (IpAddress.ofString inet (addressFormat.takeWhile (· != 58)) 4)
      (addressFormat.dropWhile (· != 58))

def empty (a : SockAddress) : Bool := a.ip.empty && a.port = 0

/-- `operator<<`, and `SockAddress::toString` -/
def print (a : SockAddress) : ByteStr :=
  a.ip.print ++ if a.port ≠ 0 then 58 :: Text.fromUnsignedLong a.port.toNat else []

/-- `SockAddress::compare`, by the sign of its result. -/
def compare (a b : SockAddress) : Ordering :=
  match a.ip.compare b.ip with
  | .eq => if a.port < b.port then .lt else if a.port > b.port then .gt else .eq
  | c => c

instance : Ord SockAddress := ⟨compare⟩

theorem compare_lex :
    compare = compareLex (compareOn SockAddress.ip) (compareOn SockAddress.port) := by
  funext a b
  have hport : Ord.compare a.port b.port =
      if a.port < b.port then .lt else if a.port > b.port then .gt else .eq := by
    change compareOfLessAndEq a.port b.port = _
    simp only [compareOfLessAndEq, gt_iff_lt, UInt16.lt_iff_toNat_lt, ← UInt16.toNat_inj]
    split
    · rfl
    · split <;> split <;> first | rfl | omega
  simp only [compareLex, compareOn, hport]
  change (match Ord.compare a.ip b.ip with | .eq => _ | c => c) = _
  cases Ord.compare a.ip b.ip <;> rfl

instance : Std.TransOrd SockAddress := by
  change Std.TransCmp compare
  rw [compare_lex]
  infer_instance

theorem compare_eq_iff {a b : SockAddress} : a.compare b = .eq ↔ a = b := by
  obtain ⟨ip, port⟩ := a
  obtain ⟨ip', port'⟩ := b
  simp [compare_lex, compareLex, compareOn, Ordering.then_eq_eq]

instance : Std.LawfulEqOrd SockAddress where
  compare_self := compare_eq_iff.mpr rfl
  eq_of_compare := compare_eq_iff.mp

/-- The text of an address is a C string: the constructors of `IpAddress` have it from
`inet_ntop`. -/
def IsText (a : SockAddress) : Prop := 0 ∉ a.ip.ip

instance (a : SockAddress) : Decidable a.IsText := inferInstanceAs (Decidable (¬_))

theorem IsText.print {a : SockAddress} (h : a.IsText) : 0 ∉ a.print := by
  have hip : 0 ∉ a.ip.print := by
    unfold IpAddress.print
    split
    · exact h
    · decide
  have hport : 0 ∉ (58 : Byte) :: Text.fromUnsignedLong a.port.toNat := fun h0 => by
    rcases List.mem_cons.mp h0 with h0 | h0
    · cases h0
    · exact absurd (Lib.Decimal.digits_isDigit h0) (by decide)
  unfold SockAddress.print
  rw [List.mem_append, not_or]
  refine ⟨hip, ?_⟩
  split
  · exact hport
  · exact List.not_mem_nil

/-! The texts an address can be read from. -/

def IsPortText (portstr : ByteStr) : Prop :=
  match portstr with
  | 58 :: digits => Text.IsLong digits
  | _ => True

/-- A bracketed address needs its closing bracket and no second opening one; a port needs its
number. -/
def IsAddressText (s : ByteStr) : Prop :=
  s = [] ∨
    if peek s = 91 then
      93 ∈ s ∧ peek ((s.takeWhile (· != 93)).drop 1) ≠ 91 ∧
        IsPortText ((s.dropWhile (· != 93)).drop 1)
    else IsPortText (s.dropWhile (· != 58))

theorem portOfString_eq_ok_iff (s : ByteStr) : (∃ p, portOfString s = .ok p) ↔ IsPortText s := by
  unfold portOfString IsPortText
  split
  · rename_i digits
    rw [← Text.toInt_eq_ok_iff, map_eq_ok_iff]
  · simp

theorem portOfString_error {s : ByteStr} {e : Exn} (h : portOfString s = .error e) :
    e.isParser := by
  unfold portOfString at h
  split at h
  · exact Text.toInt_error (map_eq_error_iff.mp h)
  · cases h

theorem withPort_eq_ok_iff {ip : Except Exn IpAddress} {portstr : ByteStr} :
    (∃ a, withPort ip portstr = .ok a) ↔ (∃ i, ip = .ok i) ∧ IsPortText portstr := by
  rw [← portOfString_eq_ok_iff]
  cases ip <;> cases h : portOfString portstr <;>
    simp [withPort, h, bind, Except.bind, pure, Except.pure]

theorem withPort_error {ip : Except Exn IpAddress} {portstr : ByteStr} {e : Exn}
    (hip : ∀ e, ip = .error e → e.isParser) (h : withPort ip portstr = .error e) :
    e.isParser := by
  cases ip with
  | error e' => cases h; exact hip e rfl
  | ok i =>
    cases hp : portOfString portstr with
    | error e' =>
      simp only [withPort, bind, Except.bind, hp, Except.error.injEq] at h
      exact h ▸ portOfString_error hp
    | ok p => simp [withPort, bind, Except.bind, hp, pure, Except.pure] at h

/-- Between the brackets there is no closing one. -/
theorem inside_getLast? (s : ByteStr) : ((s.takeWhile (· != 93)).drop 1).getLast? ≠ some 93 :=
  fun h => by simpa using List.mem_takeWhile_imp (List.mem_of_mem_drop (List.mem_of_getLast? h))

theorem ofString_eq_ok_iff (inet : Inet) (s : ByteStr) :
    (∃ a, ofString inet s = .ok a) ↔ IsAddressText s := by
  unfold ofString IsAddressText
  by_cases h0 : s = []
  · simp [h0]
  by_cases h91 : peek s = 91
  · simp only [h0, h91, if_false, if_true, false_or]
    cases hd : s.dropWhile (· != 93) with
    | nil =>
      simp [dropWhile_bne_eq_nil.mp hd]
    | cons c portstr =>
      have h93 : 93 ∈ s := by
        by_contra hm
        simp [dropWhile_bne_eq_nil.mpr hm] at hd
      simp only [withPort_eq_ok_iff, IpAddress.ofString_eq_ok_iff inet (.inr rfl), h93,
        inside_getLast? s, true_and, List.drop_succ_cons, List.drop_zero, imp_false]
      refine and_congr_left fun _ => ⟨fun h he => h (fun hn => ?_) he, fun h _ => h⟩
      simp [hn] at he
  · have hhead : s.takeWhile (· != 58) ≠ [] → peek (s.takeWhile (· != 58)) ≠ 91 := fun _ h => by
      cases s with
      | nil => exact h0 rfl
      | cons c t =>
        by_cases hc : c != 58
        · simp only [List.takeWhile_cons, hc, if_true, peek_cons] at h h91
          exact h91 h
        · simp [hc] at h
    simp only [h0, h91, if_false, false_or, withPort_eq_ok_iff,
      IpAddress.ofString_eq_ok_iff inet (.inl rfl)]
    exact and_iff_right fun hn h => absurd h (hhead hn)

theorem ofString_error {inet : Inet} {s : ByteStr} {e : Exn} (h : ofString inet s = .error e) :
    e.isParser := by
  unfold ofString at h
  split at h
  · cases h
  · split at h
    · split at h
      · cases h; rfl
      · exact withPort_error (fun _ => IpAddress.ofString_error (.inr rfl)) h
    · exact withPort_error (fun _ => IpAddress.ofString_error (.inl rfl)) h

/-- The addresses with a canonical IPv4 text. -/
def IsIPv4 (a : SockAddress) : Prop := a.ip.ipVersion = 4 ∧ Epyx.IsIPv4 a.ip.ip

/-- What the text of an IPv4 address holds: digits, dots and the colon before the port. -/
theorem IsIPv4.print_bytes {a : SockAddress} (h : a.IsIPv4) {c : Byte} (hc : c ∈ a.print) :
    isdigit c ∨ c = 46 ∨ c = 58 := by
  have hip : a.ip.print = a.ip.ip := by simp [IpAddress.print, h.2.ne_nil]
  rw [print, hip, List.mem_append] at hc
  rcases hc with hc | hc
  · exact (h.2.bytes hc).imp_right .inl
  · split at hc
    · rcases List.mem_cons.mp hc with rfl | hc
      · exact .inr (.inr rfl)
      · exact .inl (Lib.Decimal.digits_isDigit hc)
    · cases hc

theorem IsIPv4.print_ne_nil {a : SockAddress} (h : a.IsIPv4) : a.print ≠ [] := by
  have hip : a.ip.print = a.ip.ip := by simp [IpAddress.print, h.2.ne_nil]
  simp [print, hip, h.2.ne_nil]

theorem IsIPv4.print_noSpace {a : SockAddress} (h : a.IsIPv4) : ∀ c ∈ a.print, ¬isspace c := by
  intro c hc
  rcases h.print_bytes hc with hd | rfl | rfl
  · exact (Text.isdigit_not_special hd).1
  · decide
  · decide

theorem portOfString_print (port : UInt16) :
    portOfString (if port ≠ 0 then 58 :: Text.fromUnsignedLong port.toNat else []) = .ok port := by
  by_cases h0 : port = 0
  · simp [h0, portOfString]
  · have hlt : port.toNat < 2 ^ 63 := lt_trans port.toNat_lt (by decide)
    have hof : UInt16.ofInt (port.toNat : Int) = port := by
      have hn : ((port.toNat : Int) % 2 ^ 16).toNat = port.toNat := by
        have := port.toNat_lt
        omega
      rw [UInt16.ofInt, hn, UInt16.ofNat_toNat]
    simp [h0, portOfString, Text.toInt_digits hlt, Except.map, hof]

/-- The text of an IPv4 address, with or without a port, reads back as the address. -/
theorem ofString_print (inet : Inet) {a : SockAddress} (h : a.IsIPv4) :
    ofString inet a.print = .ok a := by
  have hne := h.2.ne_nil
  have hcolon : ∀ c ∈ a.ip.ip, (c != 58) = true := fun c hc =>
    bne_iff_ne.mpr fun he => h.2.notMem (c := 58) (by decide) (by decide) (he ▸ hc)
  have hip : a.ip.print = a.ip.ip := by simp [IpAddress.print, hne]
  obtain ⟨p, hp⟩ : ∃ p, p = if a.port ≠ 0 then 58 :: Text.fromUnsignedLong a.port.toNat else [] :=
    ⟨_, rfl⟩
  have hport : portOfString p = .ok a.port := hp ▸ portOfString_print a.port
  have hp58 : p.takeWhile (· != 58) = [] ∧ p.dropWhile (· != 58) = p := by
    rw [hp]; split <;> simp
  have hpeek : peek (a.ip.ip ++ p) ≠ 91 := by
    obtain ⟨c, t, hct⟩ := List.exists_cons_of_ne_nil hne
    rw [hct]
    rintro rfl
    exact h.2.notMem (c := 91) (by decide) (by decide) (by simp [hct])
  have haddr : IpAddress.ofString inet a.ip.ip 4 = .ok a.ip := by
    rw [IpAddress.ofString_ipv4 inet h.2, ← h.1]
  rw [print, hip, ← hp, ofString, if_neg (by simp [hne]), if_neg hpeek,
    List.takeWhile_append_of_pos hcolon, List.dropWhile_append_of_pos hcolon, hp58.1, hp58.2,
    List.append_nil, haddr, withPort, hport]
  rfl

end SockAddress
end Epyx
