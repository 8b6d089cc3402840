import Epyx.Net.SockAddress

/-! `net/uri.cpp`: a scheme, an address and an absolute path, and their text. -/
namespace Epyx

namespace SockAddress

/-- The text of an IPv4 address has no slash and no colon at its end. -/
theorem IsIPv4.print_noSlash {a : SockAddress} (h : a.IsIPv4) : 47 ∉ a.print := by
  intro hc
  rcases h.print_bytes hc with hd | h46 | h58
  · exact absurd hd (by decide)
  · cases h46
  · cases h58

theorem IsIPv4.print_noColon {a : SockAddress} (h : a.IsIPv4) (w : ByteStr) :
    a.print ≠ w ++ [58] := by
  intro hw
  have hip : a.ip.print = a.ip.ip := by simp [IpAddress.print, h.2.ne_nil]
  have hdigits := Lib.Decimal.digits_ne_nil a.port.toNat
  have hlast : ∀ s t : ByteStr, t ≠ [] → 58 ∉ t → s ++ t ≠ w ++ [58] := by
    intro s t hne ht heq
    have hl := congrArg List.getLast? heq
    rw [List.getLast?_append_of_ne_nil s hne, List.getLast?_concat] at hl
    exact ht (List.mem_of_getLast? hl)
  have h58 : ∀ n, 58 ∉ Text.fromUnsignedLong n := fun n hm =>
    absurd (Lib.Decimal.digits_isDigit hm) (by decide)
  rw [print, hip] at hw
  split at hw
  · rw [List.append_cons] at hw
    exact hlast _ _ hdigits (h58 _) hw
  · exact hlast [] _ h.2.ne_nil (h.2.notMem (by decide) (by decide)) (by simpa using hw)

end SockAddress

structure URI where
  scheme : ByteStr
  addr : SockAddress
  path : ByteStr
  deriving DecidableEq, Repr

namespace URI

/-- `URI::URI(scheme, addr, path)` -/
def new (scheme : ByteStr) (addr : SockAddress) (path : ByteStr) : URI :=
  ⟨Text.toLower scheme, addr, path⟩

/-- The scheme of a text and its location. -/
def splitScheme (uri : ByteStr) : ByteStr × ByteStr :=
  match Text.find uri (lit "://") with
  | some pos => (uri.take pos, uri.drop (pos + 3))
  | none => ([], uri)

/-- `URI::URI(uri)` -/
def ofString (inet : Inet) (uri : ByteStr) : Except Exn URI := do
  let (scheme, location) := splitScheme uri
  let scheme := Text.toLower scheme
  -- the address ends at the first slash, and the path begins with it
  let addr ← SockAddress.ofString inet (location.takeWhile (· != 47))
  return ⟨scheme, addr, location.dropWhile (· != 47)⟩

/-- `operator<<`, and `URI::toString` -/
def print (uri : URI) : ByteStr :=
  (if uri.scheme ≠ [] then uri.scheme ++ lit "://" else []) ++ (uri.addr.print ++ uri.path)

/-- A mark that begins in a text without slashes begins with its last byte, and otherwise it stands
behind the text. -/
theorem mark_cases {w x pre post : ByteStr} (hw : 47 ∉ w) (h : w ++ x = pre ++ lit "://" ++ post) :
    (w = pre ++ [58] ∧ x = 47 :: 47 :: post) ∨
      ∃ mid, pre = w ++ mid ∧ x = mid ++ lit "://" ++ post := by
  rw [List.append_assoc] at h
  rcases List.append_eq_append_iff.mp h with ⟨mid, rfl, hx⟩ | ⟨mid, rfl, hx⟩
  · exact .inr ⟨mid, rfl, by rw [hx, List.append_assoc]⟩
  · have hmark : lit "://" ++ post = 58 :: 47 :: 47 :: post := rfl
    rw [hmark] at hx
    match mid, hx with
    | [], hx => exact .inr ⟨[], by simp, by simpa [hmark] using hx.symm⟩
    | [c], hx =>
      obtain ⟨rfl, hrest⟩ := List.cons.inj hx
      exact .inl ⟨rfl, hrest.symm⟩
    | c :: d :: mid, hx =>
      obtain ⟨rfl, hrest⟩ := List.cons.inj hx
      obtain ⟨rfl, -⟩ := List.cons.inj hrest
      exact absurd (by simp) hw

/-- A scheme without slashes is split off where it ends. -/
theorem splitScheme_scheme {scheme : ByteStr} (h : 47 ∉ scheme) (location : ByteStr) :
    splitScheme (scheme ++ lit "://" ++ location) = (scheme, location) := by
  have hfind : Text.find (scheme ++ lit "://" ++ location) (lit "://") = some scheme.length := by
    refine Text.find_eq_some_iff.mpr ⟨⟨scheme, location, rfl, rfl⟩, fun pre post hs => ?_⟩
    rw [List.append_assoc] at hs
    rcases mark_cases h hs with ⟨-, hx⟩ | ⟨mid, rfl, -⟩
    · cases hx
    · simp
  have hlen : scheme.length + 3 = (scheme ++ lit "://").length := by
    rw [List.length_append]
    rfl
  rw [splitScheme, hfind]
  dsimp only
  rw [hlen, List.drop_left, List.append_assoc, List.take_left]

theorem splitScheme_none {uri : ByteStr} (h : ¬lit "://" <:+: uri) :
    splitScheme uri = ([], uri) := by
  rw [splitScheme, Text.find_eq_none_iff.mpr h]

/-- The location of a URI: behind the address the path begins. -/
theorem ofString_location (inet : Inet) {a : SockAddress} (h : a.IsIPv4) {path : ByteStr}
    (hpath : path = [] ∨ peek path = 47) :
    SockAddress.ofString inet ((a.print ++ path).takeWhile (· != 47)) = .ok a ∧
      (a.print ++ path).dropWhile (· != 47) = path := by
  have haddr : ∀ c ∈ a.print, (c != 47) = true := fun c hc =>
    bne_iff_ne.mpr fun he => h.print_noSlash (he ▸ hc)
  have hend : path.takeWhile (· != 47) = [] ∧ path.dropWhile (· != 47) = path := by
    cases path with
    | nil => exact ⟨rfl, rfl⟩
    | cons c path =>
      have hc : c = 47 := hpath.resolve_left (by simp)
      simp [hc]
  rw [List.takeWhile_append_of_pos haddr, List.dropWhile_append_of_pos haddr, hend.1, hend.2,
    List.append_nil]
  exact ⟨SockAddress.ofString_print inet h, rfl⟩

theorem ofString_split (inet : Inet) {uri scheme : ByteStr} {a : SockAddress} (h : a.IsIPv4)
    {path : ByteStr} (hpath : path = [] ∨ peek path = 47)
    (hsplit : splitScheme uri = (scheme, a.print ++ path)) :
    ofString inet uri = .ok ⟨Text.toLower scheme, a, path⟩ := by
  obtain ⟨haddr, hdrop⟩ := ofString_location inet h hpath
  simp only [ofString, hsplit, haddr, hdrop]
  rfl

/-- Without a scheme the first mark is looked for in the path. -/
theorem infix_location {a : SockAddress} (h : a.IsIPv4) {path : ByteStr} :
    lit "://" <:+: a.print ++ path ↔ lit "://" <:+: path := by
  constructor
  · rintro ⟨pre, post, hs⟩
    rcases mark_cases h.print_noSlash hs.symm with ⟨hend, -⟩ | ⟨mid, -, hx⟩
    · exact absurd hend (h.print_noColon pre)
    · exact ⟨mid, post, hx.symm⟩
  · rintro ⟨pre, post, hs⟩
    exact ⟨a.print ++ pre, post, by rw [← hs]; simp⟩

/-- A scheme that is found begins with the address. -/
theorem ofString_ne {inet : Inet} {a : SockAddress} (h : a.IsIPv4) {path : ByteStr}
    (hmark : lit "://" <:+: path) :
    ofString inet (a.print ++ path) ≠ .ok ⟨[], a, path⟩ := by
  intro hok
  cases hfind : Text.find (a.print ++ path) (lit "://") with
  | none => exact Text.find_eq_none_iff.mp hfind ((infix_location h).mpr hmark)
  | some pos =>
    obtain ⟨⟨pre, post, hpos, hs⟩, -⟩ := Text.find_eq_some_iff.mp hfind
    have hpre : pre ≠ [] := by
      rcases mark_cases h.print_noSlash hs with ⟨hend, -⟩ | ⟨mid, hmid, -⟩
      · exact absurd hend (h.print_noColon pre)
      · rw [hmid]
        simp [h.print_ne_nil]
    have hsplit : (splitScheme (a.print ++ path)).1 = pre := by
      rw [splitScheme, hfind]
      dsimp only
      rw [hs, ← hpos, List.append_assoc, List.take_left]
    simp only [ofString] at hok
    cases haddr : SockAddress.ofString inet
        ((splitScheme (a.print ++ path)).2.takeWhile (· != 47)) with
    | error e => simp [haddr, bind, Except.bind] at hok
    | ok addr =>
      simp only [haddr, bind, Except.bind, pure, Except.pure, Except.ok.injEq, mk.injEq, hsplit,
        Text.toLower, List.map_eq_nil_iff] at hok
      exact hpre hok.1

/-- A URI of a scheme in lower case without slashes, an IPv4 address and a path reads back from its
text exactly when it has a scheme or there is no mark of one in its path. -/
theorem ofString_print_iff (inet : Inet) {scheme path : ByteStr} {addr : SockAddress}
    (hlower : Text.toLower scheme = scheme) (hslash : 47 ∉ scheme) (haddr : addr.IsIPv4)
    (hpath : path = [] ∨ peek path = 47) :
    ofString inet (new scheme addr path).print = .ok (new scheme addr path) ↔
      scheme ≠ [] ∨ ¬lit "://" <:+: path := by
  rw [new, hlower]
  by_cases hnil : scheme = []
  · rw [hnil]
    have hprint : print ⟨[], addr, path⟩ = addr.print ++ path := rfl
    rw [hprint]
    constructor
    · intro hok
      exact .inr fun hmark => ofString_ne haddr hmark hok
    · rintro (hne | hmark)
      · exact absurd rfl hne
      · exact ofString_split inet haddr hpath
          (splitScheme_none fun h => hmark ((infix_location haddr).mp h))
  · refine iff_of_true ?_ (.inl hnil)
    have hprint : print ⟨scheme, addr, path⟩ = scheme ++ lit "://" ++ (addr.print ++ path) := by
      simp [print, hnil]
    rw [hprint]
    have hok := ofString_split inet haddr hpath (splitScheme_scheme hslash (addr.print ++ path))
    rwa [hlower] at hok

def router : SockAddress := ⟨⟨lit "192.168.42.1", 4⟩, 1337⟩

theorem router_ipv4 : router.IsIPv4 := ⟨rfl, ⟨192, 168, 42, 1⟩, by decide +kernel⟩

/-- With a scheme a mark in the path does no harm. -/
theorem ofString_print_iff_http :
    ofString .zero (new (lit "http") router (lit "/go?to=http://x")).print =
      .ok (new (lit "http") router (lit "/go?to=http://x")) :=
  (ofString_print_iff .zero (by decide) (by decide) router_ipv4 (by decide)).mpr (.inl (by decide))

/-- Without one the mark in the path ends a scheme that the address begins. -/
theorem ofString_print_mark :
    ofString .zero (new [] router (lit "/go?to=http://192.168.42.1")).print =
        .ok ⟨lit "192.168.42.1:1337/go?to=http", ⟨⟨lit "192.168.42.1", 4⟩, 0⟩, []⟩ ∧
      ofString .zero (new [] router (lit "/go?to=http://192.168.42.1")).print ≠
        .ok (new [] router (lit "/go?to=http://192.168.42.1")) := by
  decide +kernel

end URI
end Epyx
