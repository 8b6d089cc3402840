import Epyx.NatPunching.IGD

/-! `natpunching/upnp/openconnect.cpp`: a port of the gateway is mapped to one of this machine. -/
namespace Epyx.UPNP

/-- What a `Natpunch` works with: what the discovery finds, what the description of the gateway
comes to, and the numbers that `rand` gives. -/
structure Network extends Surroundings where
  disco : Option URI
  services : Option Services
  rand : Nat → Int

namespace Natpunch

/-- `RAND_MAX` of the C library -/
def randMax : Int := 2147483647

/-- `(unsigned short) 1024 + (rand() * range / (RAND_MAX + 1.0))`. The product is one of `int`s and
wraps round; the divisor is a power of two, so that the quotient is exact in a `double`, and the
conversion to `unsigned short` cuts it off. -/
def drawPort (rand : Int) : UInt16 :=
  let range := 65536 - 1024
  UInt16.ofInt ((1024 * (randMax + 1) + toInt32 (rand * range)) / (randMax + 1))

/-- The search for a port that no port map has, from a random number on; null when it has not ended
in this number of rounds. -/
def searchPort (portMapList : List PortMap) (rand : Nat → Int) : Nat → Nat → Option UInt16
  | 0, _ => none
  | rounds + 1, i =>
    let remotePort := drawPort (rand i)
    let foundValidPort := portMapList.all fun it => it.natPort ≠ remotePort
    if foundValidPort then some remotePort else searchPort portMapList rand rounds (i + 1)

/-- `openMapPort` up to the gateway with its services, if there is one; its address is asked for to
be logged. -/
def findGateway (net : Network) : Except Exn (Option IGD) × List Command :=
  match net.disco with
  | none => (.ok none, [])
  | some uri =>
    let (loaded, igd) := (IGD.new uri).getServices net.services
    if ¬loaded then (.ok none, [])
    else
      let (extIP, sent) := igd.getExtIPAdress net.toSurroundings []
      (extIP.map fun _ => some igd, sent)

/-- What has become of a call of `openMapPort`. -/
structure Opened where
  /-- the external port that `addPortMap` was called with -/
  passed : Option UInt16
  /-- null when a loop has not ended -/
  result : Option (Except Exn SockAddress)
  sent : List Command

/-- The end of `openMapPort`. -/
def mapPort (net : Network) (igd : IGD) (localPort remotePort : UInt16) (sent : List Command) :
    Opened :=
  let (addr, sent) := igd.addPortMap net.toSurroundings localPort .TCP remotePort sent
  ⟨some remotePort, some addr, sent⟩

/-- `Natpunch::openMapPort`, with so many rounds for the list of port maps and for the search. -/
def openMapPort (net : Network) (listRounds rounds : Nat) (localPort remotePort : UInt16) :
    Opened :=
  match findGateway net with
  | (.error e, sent) => ⟨none, some (.error e), sent⟩
  | (.ok none, sent) => ⟨none, some (.ok .unset), sent⟩
  | (.ok (some igd), sent) =>
    if remotePort = 0 then
      match igd.getListPortMap net.toSurroundings listRounds sent with
      | (none, sent) => ⟨none, none, sent⟩
      | (some (.error e), sent) => ⟨none, some (.error e), sent⟩
      | (some (.ok portMapList), sent) =>
        match searchPort portMapList net.rand rounds 0 with
        | none => ⟨none, none, sent⟩
        -- the port that is found is in a variable of the block, which hides the parameter in it
        | some _ => mapPort net igd localPort remotePort sent
    else mapPort net igd localPort remotePort sent

/-- The list of port maps that `openMapPort` gets. -/
def portMaps (net : Network) (listRounds : Nat) : Option (List PortMap) :=
  match findGateway net with
  | (.ok (some igd), sent) =>
    match (igd.getListPortMap net.toSurroundings listRounds sent).1 with
    | some (.ok portMapList) => some portMapList
    | _ => none
  | _ => none

/-- The product has left the range of an `int` long before it is divided: whatever `rand` gives, one
of two ports is drawn. -/
theorem drawPort_eq (rand : Int) : drawPort rand = 1023 ∨ drawPort rand = 1024 := by
  have h := toInt32_inInt (rand * (65536 - 1024))
  unfold InInt at h
  unfold drawPort randMax
  dsimp only
  generalize toInt32 (rand * (65536 - 1024)) = p at h
  have hquotient : (1024 * (2147483647 + 1) + p) / (2147483647 + 1) = 1023 ∨
      (1024 * (2147483647 + 1) + p) / (2147483647 + 1) = 1024 := by omega
  rcases hquotient with hq | hq
  · exact .inl (by rw [hq]; rfl)
  · exact .inr (by rw [hq]; rfl)

/-- The search ends with the first port drawn that is free. -/
theorem searchPort_eq_some {portMapList : List PortMap} {rand : Nat → Int} {rounds i : Nat}
    {port : UInt16} (h : searchPort portMapList rand rounds i = some port) :
    ∃ j, port = drawPort (rand j) ∧ ∀ m ∈ portMapList, m.natPort ≠ port := by
  induction rounds generalizing i with
  | zero => cases h
  | succ rounds ih =>
    rw [searchPort] at h
    split at h
    · rename_i hfree
      cases h
      exact ⟨i, rfl, by simpa using hfree⟩
    · exact ih h

theorem searchPort_isSome {portMapList : List PortMap} {rand : Nat → Int} {j : Nat}
    (hj : ∀ m ∈ portMapList, m.natPort ≠ drawPort (rand j)) (i : Nat) (hi : i ≤ j) :
    (searchPort portMapList rand (j - i + 1) i).isSome := by
  induction hk : j - i generalizing i with
  | zero =>
    obtain rfl : i = j := by omega
    have hfree : (portMapList.all fun it => it.natPort ≠ drawPort (rand i)) = true := by
      simpa using hj
    rw [searchPort, if_pos hfree]
    rfl
  | succ k ih =>
    rw [searchPort]
    split
    · rfl
    · exact ih (i + 1) (by omega) (by omega)

/-- A port from 1024 on is left. -/
def LeavesPort (portMapList : List PortMap) : Prop :=
  ∃ port : UInt16, 1024 ≤ port.toNat ∧ ∀ m ∈ portMapList, m.natPort ≠ port

/-- A search that has ended gives a free port to `addPortMap`, and without a search the port of the
call is given. -/
structure Meets (net : Network) (localPort remotePort : UInt16) : Prop where
  searched : remotePort = 0 → ∀ listRounds rounds portMapList port,
    portMaps net listRounds = some portMapList → LeavesPort portMapList →
    (openMapPort net listRounds rounds localPort remotePort).passed = some port →
    1024 ≤ port.toNat ∧ ∀ m ∈ portMapList, m.natPort ≠ port
  given : remotePort ≠ 0 → ∀ listRounds rounds igd sent, findGateway net = (.ok (some igd), sent) →
    (openMapPort net listRounds rounds localPort remotePort).passed = some remotePort

/-- Where the search ends, the port 0 is passed that the call has named. -/
theorem openMapPort_passed {net : Network} {listRounds : Nat} {portMapList : List PortMap}
    (hmaps : portMaps net listRounds = some portMapList) (rounds : Nat) (localPort : UInt16) :
    (openMapPort net listRounds rounds localPort 0).passed =
      (searchPort portMapList net.rand rounds 0).map fun _ => 0 := by
  unfold portMaps at hmaps
  unfold openMapPort
  split at hmaps
  · rename_i igd sent hgateway
    rw [hgateway]
    dsimp only
    rw [if_pos rfl]
    cases hlist : igd.getListPortMap net.toSurroundings listRounds sent with
    | mk list sent' =>
      rw [hlist] at hmaps
      split at hmaps
      · rename_i heq
        cases hmaps
        cases heq
        dsimp only
        cases searchPort portMapList net.rand rounds 0 <;> rfl
      · cases hmaps
  · cases hmaps

/-- A call meets this exactly when it names a port, or when its search does not end because every
port that is drawn is taken. -/
theorem openMapPort_meets_iff (net : Network) (localPort remotePort : UInt16) :
    Meets net localPort remotePort ↔ remotePort ≠ 0 ∨
      ∀ listRounds portMapList, portMaps net listRounds = some portMapList →
        LeavesPort portMapList → ∀ i, ∃ m ∈ portMapList, m.natPort = drawPort (net.rand i) := by
  constructor
  · intro h
    by_cases hport : remotePort = 0
    · refine .inr fun listRounds portMapList hmaps hleaves i => ?_
      by_contra hfree
      push Not at hfree
      obtain ⟨port, hsearch⟩ := Option.isSome_iff_exists.mp
        (searchPort_isSome hfree 0 (Nat.zero_le i))
      have hpassed : (openMapPort net listRounds (i - 0 + 1) localPort remotePort).passed =
          some 0 := by
        rw [hport, openMapPort_passed hmaps, hsearch]
        rfl
      have hrange := (h.searched hport listRounds _ portMapList _ hmaps hleaves hpassed).1
      exact absurd hrange (by decide)
    · exact .inl hport
  · intro h
    refine ⟨fun hport listRounds rounds portMapList port hmaps hleaves hpassed => ?_,
      fun hport listRounds rounds igd sent hgateway => ?_⟩
    · have htaken := h.resolve_left (not_not.mpr hport) listRounds portMapList hmaps hleaves
      rw [hport, openMapPort_passed hmaps] at hpassed
      obtain ⟨found, hsearch, -⟩ := Option.map_eq_some_iff.mp hpassed
      obtain ⟨j, rfl, hfree⟩ := searchPort_eq_some hsearch
      obtain ⟨m, hm, heq⟩ := htaken j
      exact absurd heq (hfree m hm)
    · rw [openMapPort, hgateway]
      dsimp only
      rw [if_neg hport]
      rfl

/-- A gateway without port maps, that lets every command go unanswered. -/
def quiet : Network where
  inet := .zero
  envelope _ _ _ := []
  answer _ _ := none
  interfaces := []
  disco := some ⟨lit "http", ⟨⟨lit "192.168.42.1", 4⟩, 1337⟩, lit "/rootDesc.xml"⟩
  services := some ((∅ : Services).insert (lit "urn:schemas-upnp-org:service:WANIPConnection:1")
    (lit "/ctl/IPConn"))
  rand _ := 0

/-- The first port that is drawn is free, but it is not the one that is passed. -/
theorem openMapPort_quiet :
    searchPort [] quiet.rand 1 0 = some 1024 ∧
    (openMapPort quiet 1 1 5000 0).passed = some 0 ∧ ¬Meets quiet 5000 0 := by
  have hmaps : portMaps quiet 1 = some [] := by decide +kernel
  have hsearch : searchPort [] quiet.rand 1 0 = some 1024 := by decide
  have hpassed := openMapPort_passed hmaps 1 5000
  rw [hsearch] at hpassed
  refine ⟨hsearch, hpassed, fun h => ?_⟩
  have hrange := (h.searched rfl 1 1 [] 0 hmaps ⟨1024, by decide, nofun⟩ hpassed).1
  exact absurd hrange (by decide)

end Natpunch
end Epyx.UPNP
