import Epyx.N2NP.NodeId
import Epyx.DHT.Id

/-! Which node ids come back from their text: `operator<<` of `net/ipaddress.cpp` leaves the
brackets of an IPv6 address out, and writes `*` for an address that is not set. -/
namespace Epyx

/-- A byte of the text of an IPv6 address. -/
def isAddressByte (c : Byte) : Bool := isalnum c || c = 58 || c = 46

/-- What `inet_pton(3)` and `inet_ntop(3)` say of IPv6: they undo each other, and other text is
refused. -/
structure Inet.Documented (inet : Inet) : Prop where
  pton6_ntop6 : ∀ x, x.length = 16 → inet.pton6 (inet.ntop6 x) = some x
  pton6_text : ∀ s x, inet.pton6 s = some x → s ≠ [] ∧ s.all isAddressByte

/-- The IPv6 text `inet_ntop` produces. -/
def IsIPv6 (inet : Inet) (s : ByteStr) : Prop := ∃ x, x.length = 16 ∧ s = inet.ntop6 x

theorem IsIPv6.text {inet : Inet} (hinet : inet.Documented) {s : ByteStr} (h : IsIPv6 inet s) :
    s ≠ [] ∧ s.all isAddressByte := by
  obtain ⟨x, hx, rfl⟩ := h
  exact hinet.pton6_text _ x (hinet.pton6_ntop6 x hx)

theorem IsIPv6.no_bracket {inet : Inet} (hinet : inet.Documented) {s : ByteStr}
    (h : IsIPv6 inet s) : peek s ≠ 91 := by
  obtain ⟨hne, hall⟩ := h.text hinet
  obtain ⟨c, t, rfl⟩ := List.exists_cons_of_ne_nil hne
  rintro rfl
  have h91 : isAddressByte 91 := List.all_eq_true.mp hall 91 (by simp)
  exact absurd h91 (by decide)

namespace IpAddress

/-- Without brackets the text is read as what the caller says it is. -/
theorem ofString_four {inet : Inet} {s : ByteStr} {a : IpAddress} (h91 : peek s ≠ 91)
    (h : ofString inet s 4 = .ok a) : a.ipVersion = 4 ∧ (s ≠ [] → a.ip ≠ []) := by
  by_cases hs : s = []
  · rw [ofString, if_pos hs] at h
    cases h
    exact ⟨rfl, absurd hs⟩
  · rw [ofString, if_neg hs, if_neg h91] at h
    have hversion : (4 : Int) ≠ 0 ∧ (0 : Int) < 4 := by decide
    simp only [simplifyIP, hversion, if_false, if_true, not_true_eq_false, Except.ok.injEq] at h
    subst h
    exact ⟨rfl, fun _ => inetNtop4_ne_nil _⟩

end IpAddress

namespace SockAddress

theorem withPort_ok {ip : Except Exn IpAddress} {portstr : ByteStr} {a : SockAddress}
    (h : withPort ip portstr = .ok a) : ip = .ok a.ip := by
  cases ip with
  | error e => cases h
  | ok i =>
    cases hp : portOfString portstr with
    | error e => simp [withPort, bind, Except.bind, hp] at h
    | ok p =>
      simp only [withPort, bind, Except.bind, hp, pure, Except.pure, Except.ok.injEq] at h
      rw [← h]

/-- An address that does not open with a bracket is taken for an IPv4 address. -/
theorem ofString_four {inet : Inet} {s : ByteStr} {a : SockAddress} (hs : s ≠ [])
    (h91 : peek s ≠ 91) (h : ofString inet s = .ok a) :
    a.ip.ipVersion = 4 ∧ (peek s ≠ 58 → a.ip.ip ≠ []) := by
  obtain ⟨c, t, rfl⟩ := List.exists_cons_of_ne_nil hs
  rw [ofString, if_neg hs, if_neg h91] at h
  have hip := withPort_ok h
  simp only [peek_cons] at h91 ⊢
  have hpeek : peek ((c :: t).takeWhile (· != 58)) ≠ 91 := by
    by_cases hc : c = 58
    · simp [hc]
    · simpa [hc] using h91
  refine (IpAddress.ofString_four hpeek hip).imp_right fun hne hc => hne ?_
  simp [hc]

/-- The addresses with a canonical IPv6 text. -/
def IsIPv6 (inet : Inet) (a : SockAddress) : Prop := a.ip.ipVersion = 6 ∧ Epyx.IsIPv6 inet a.ip.ip

/-- The text of an address that is not set never gives it back. -/
theorem ofString_print_unset {inet : Inet} {a b : SockAddress} (ha : a.ip.ip = [])
    (h : ofString inet a.print = .ok b) : b ≠ a := by
  have hp : a.print =
      42 :: if a.port ≠ 0 then 58 :: Text.fromUnsignedLong a.port.toNat else [] := by
    rw [print, IpAddress.print, ha]
    rfl
  rw [hp] at h
  have hb := (ofString_four (by simp) (by simp) h).2 (by simp)
  rintro rfl
  exact hb ha

/-- An IPv6 address is printed without its brackets and read as IPv4. -/
theorem ofString_print_ipv6 {inet : Inet} (hinet : inet.Documented) {a b : SockAddress}
    (ha : a.IsIPv6 inet) (h : ofString inet a.print = .ok b) : b ≠ a := by
  obtain ⟨c, t, hct⟩ := List.exists_cons_of_ne_nil (ha.2.text hinet).1
  have h91 : c ≠ 91 := by simpa [hct] using ha.2.no_bracket hinet
  have hp : a.print = c :: (t ++ if a.port ≠ 0 then 58 :: Text.fromUnsignedLong a.port.toNat
      else []) := by
    rw [print, IpAddress.print, hct]
    rfl
  rw [hp] at h
  have hb := (ofString_four (by simp) (by simpa using h91) h).1
  rintro rfl
  rw [ha.1] at hb
  cases hb

end SockAddress

namespace N2NP.NodeId

theorem ofString_relay {inet : Inet} {n m : NodeId} (hname : 64 ∉ n.name)
    (h : ofString inet n.print = .ok m) :
    SockAddress.ofString inet n.relay.print = .ok m.relay := by
  have hat : ∀ c ∈ n.name, (c != 64) = true := fun c hc =>
    bne_iff_ne.mpr fun he => hname (he ▸ hc)
  have hd : (n.name ++ 64 :: n.relay.print).dropWhile (· != 64) = 64 :: n.relay.print := by
    rw [List.dropWhile_append_of_pos hat]; simp
  rw [ofString, print, hd] at h
  cases ha : SockAddress.ofString inet n.relay.print with
  | error e => simp [ha, Except.map] at h
  | ok a =>
    simp only [ha, Except.map, Except.ok.injEq] at h
    rw [← h]

/-- A node id comes back from its text just when its relay is an IPv4 address. -/
theorem reads_back_iff {inet : Inet} (hinet : inet.Documented) {n : NodeId} (hname : 64 ∉ n.name)
    (hrelay : n.relay.ip.ip = [] ∨ n.relay.IsIPv4 ∨ n.relay.IsIPv6 inet) :
    (∃ m, ofString inet n.print = .ok m ∧ n.compare m = .eq) ↔ n.relay.IsIPv4 := by
  constructor
  · rintro ⟨m, hm, heq⟩
    obtain rfl := compare_eq_iff.mp heq
    have haddr := ofString_relay hname hm
    rcases hrelay with hrelay | hrelay | hrelay
    · exact absurd rfl (SockAddress.ofString_print_unset hrelay haddr)
    · exact hrelay
    · exact absurd rfl (SockAddress.ofString_print_ipv6 hinet hrelay haddr)
  · intro h
    exact ⟨n, ofString_print hname h inet, compare_eq_iff.mpr rfl⟩

end N2NP.NodeId

/-! A C library that writes IPv6 addresses without shortening them, as the real one does where
no group is zero and none starts with a zero. -/

def Inet.ntop6Full (x : List Byte) : ByteStr := (DHT.Id.printFrom 16 x).drop 1

def Inet.pton6Full (s : ByteStr) : Option (List Byte) :=
  let x := (DHT.Id.readFrom 16 16 s).1
  if ntop6Full x = s then some x else none

def Inet.full : Inet := ⟨fun _ => ⟨0, 0, 0, 0⟩, pton6Full, ntop6Full, fun _ => []⟩

theorem Inet.full_documented : full.Documented where
  pton6_ntop6 x hx := by
    cases x with
    | nil => cases hx
    | cons b bs =>
      have hp : ntop6Full (b :: bs) =
          DHT.Id.hexa (b / 16) :: DHT.Id.hexa (b % 16) :: DHT.Id.printFrom 17 bs := by
        simp [ntop6Full, DHT.Id.printFrom]
      have hr := DHT.Id.readFrom_printFrom bs b 16 [] (by omega)
      rw [hx, List.append_nil, ← hp] at hr
      change pton6Full (ntop6Full (b :: bs)) = _
      rw [pton6Full, hr]
      simp
  pton6_text s x h := by
    change pton6Full s = some x at h
    rw [pton6Full] at h
    split at h
    · rename_i hs
      have hlen := DHT.Id.readFrom_length 16 16 s
      rw [← hs, List.all_eq_true]
      constructor
      · cases hx : (DHT.Id.readFrom 16 16 s).1 with
        | nil => simp [hx] at hlen
        | cons b bs => simp [ntop6Full, DHT.Id.printFrom]
      · intro c hc
        rcases DHT.Id.printFrom_bytes (List.mem_of_mem_drop hc) with hd | hl | rfl
        · simp [isAddressByte, isalnum, hd]
        · simp [isAddressByte, isalnum, isalpha, hl]
        · decide
    · cases h

namespace N2NP.NodeId

/-- A node behind an IPv6 relay: `n@[2001:4860:4864:2020:1111:2222:3333:4444]:4242`, as its
text should be. -/
def behindIPv6 : NodeId :=
  ⟨lit "n", ⟨⟨lit "2001:4860:4864:2020:1111:2222:3333:4444", 6⟩, 4242⟩⟩

theorem behindIPv6_relay : behindIPv6.relay.IsIPv6 Inet.full := by
  refine ⟨rfl, [32, 1, 72, 96, 72, 100, 32, 32, 17, 17, 34, 34, 51, 51, 68, 68], rfl, ?_⟩
  decide +kernel

theorem reads_back_behindIPv6 :
    (∃ m, ofString Inet.full behindIPv6.print = .ok m ∧ behindIPv6.compare m = .eq) ↔
      behindIPv6.relay.IsIPv4 :=
  reads_back_iff Inet.full_documented (by decide) (.inr (.inr behindIPv6_relay))

/-- Such a node comes back as a node of another relay, and one without a relay as a node that
has one. -/
theorem relay_changed :
    (64 ∉ behindIPv6.name ∧ behindIPv6.relay.IsIPv6 Inet.full ∧
      ofString Inet.full behindIPv6.print = .ok ⟨lit "n", ⟨⟨lit "0.0.0.0", 4⟩, 4860⟩⟩ ∧
      ¬∃ m, ofString Inet.full behindIPv6.print = .ok m ∧ behindIPv6.compare m = .eq) ∧
    ofString Inet.full unset.print = .ok ⟨[], ⟨⟨lit "0.0.0.0", 4⟩, 0⟩⟩ ∧
    ¬∃ m, ofString Inet.full unset.print = .ok m ∧ unset.compare m = .eq := by
  have h6 : ofString Inet.full behindIPv6.print =
      .ok ⟨lit "n", ⟨⟨lit "0.0.0.0", 4⟩, 4860⟩⟩ := by decide +kernel
  have h0 : ofString Inet.full unset.print = .ok ⟨[], ⟨⟨lit "0.0.0.0", 4⟩, 0⟩⟩ := by
    decide +kernel
  refine ⟨⟨by decide, behindIPv6_relay, h6, ?_⟩, h0, ?_⟩
  · rintro ⟨m, hm, heq⟩
    rw [h6, Except.ok.injEq] at hm
    rw [← hm] at heq
    revert heq
    decide
  · rintro ⟨m, hm, heq⟩
    rw [h0, Except.ok.injEq] at hm
    rw [← hm] at heq
    revert heq
    decide

end N2NP.NodeId
end Epyx
