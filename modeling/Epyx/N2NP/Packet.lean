import Epyx.N2NP.NodeId

/-! `n2np/packet.cpp`: the typed packet of N2NP and its GTT form. -/
namespace Epyx.N2NP

structure Packet where
  method : ByteStr
  «from» : NodeId
  «to» : NodeId
  version : ByteStr
  pktID : UInt64
  data : ByteStr
  deriving DecidableEq, Repr

namespace Packet

def new (method data : ByteStr) : Packet := ⟨method, .unset, .unset, [], 0, data⟩

/-- The body of the header loop. The number is read as a `long`, for a `pktID` that is an
`unsigned long`. -/
def readHeader (inet : Inet) (p : Packet) (h : ByteStr × ByteStr) : Except Exn Packet :=
  if h.1 = lit "From" then (NodeId.ofString inet h.2).map ({ p with «from» := · })
  else if h.1 = lit "To" then (NodeId.ofString inet h.2).map ({ p with «to» := · })
  else if h.1 = lit "Version" then .ok { p with version := h.2 }
  else if h.1 = lit "ID" then
    (Text.toInt h.2).map fun n => { p with pktID := UInt64.ofInt n }
  else .error (.minor "N2NP::Packet" "Invalid GTT header")

/-- `Packet::Packet(pkt)` -/
def ofGTT (inet : Inet) (pkt : GTTPacket) : Except Exn Packet :=
  if pkt.protocol ≠ lit "N2NP" then .error (.fail "N2NP::Packet" "Invalid GTT packet")
  else
    (pkt.headers.toList.foldlM (readHeader inet) (new pkt.method [])).map
      ({ · with data := pkt.body })

/-- `version.empty() ? "0" : version` -/
def versionText (version : ByteStr) : ByteStr := if version = [] then lit "0" else version

/-- The GTT packet of `Packet::build`. The id is narrowed to the `int` of `String::fromInt`. -/
def toGTT (p : Packet) : GTTPacket where
  protocol := lit "N2NP"
  method := p.method
  headers := (∅ : Headers)
    |>.insert (lit "From") p.from.print
    |>.insert (lit "To") p.to.print
    |>.insert (lit "Version") (versionText p.version)
    |>.insert (lit "ID") (Text.fromInt (toInt32 p.pktID.toNat))
  body := p.data

def build (p : Packet) : ByteStr := p.toGTT.build

/-- The packets N2NP can carry. No string is longer than a `size_t` can count. -/
structure Legal (p : Packet) : Prop where
  method : isName p.method
  «from» : p.from.Legal
  «to» : p.to.Legal
  version : p.version = [] ∨ isFlagValue p.version
  data : p.data.length < 2 ^ 63

/-- What a packet is read back as: the version is given and the id is the `int` that was sent. -/
def carried (p : Packet) : Packet :=
  { p with
    version := versionText p.version
    pktID := UInt64.ofInt (toInt32 p.pktID.toNat) }

@[simp] theorem carried_method (p : Packet) : p.carried.method = p.method := rfl

@[simp] theorem carried_to (p : Packet) : p.carried.to = p.to := rfl

/-- The headers come out of the map in the order of their names. -/
theorem toGTT_toList (p : Packet) :
    p.toGTT.headers.toList =
      [(lit "From", p.from.print), (lit "ID", Text.fromInt (toInt32 p.pktID.toNat)),
        (lit "To", p.to.print), (lit "Version", versionText p.version)] := by
  rfl

theorem Legal.toGTT_wellFormed {p : Packet} (h : p.Legal) : p.toGTT.WellFormed where
  protocol := show isName (lit "N2NP") by decide
  method := h.method
  headers := by
    have hv : isFlagValue (versionText p.version) := by
      unfold versionText
      by_cases h0 : p.version = []
      · rw [if_pos h0]; decide
      · rw [if_neg h0]; exact h.version.resolve_left h0
    rw [toGTT_toList]
    simp only [List.forall_mem_cons, List.not_mem_nil, false_imp_iff, implies_true, and_true]
    exact ⟨GTTParser.headerOk (by decide) h.from.print_isFlagValue,
      GTTParser.headerOk (by decide) (GTTParser.fromInt_isFlagValue _),
      GTTParser.headerOk (by decide) h.to.print_isFlagValue, GTTParser.headerOk (by decide) hv⟩
  body := h.data

/-- A legal packet is read back from its GTT packet. -/
theorem Legal.ofGTT_toGTT {p : Packet} (h : p.Legal) (inet : Inet) :
    ofGTT inet p.toGTT = .ok p.carried := by
  have hproto : p.toGTT.protocol = lit "N2NP" := rfl
  have hT : ¬lit "To" = lit "From" := by decide
  have hV : ¬lit "Version" = lit "From" ∧ ¬lit "Version" = lit "To" := by decide
  have hI : ¬lit "ID" = lit "From" ∧ ¬lit "ID" = lit "To" ∧ ¬lit "ID" = lit "Version" := by
    decide
  rw [ofGTT, if_neg (not_not.mpr hproto), toGTT_toList]
  simp only [List.foldlM_cons, List.foldlM_nil, readHeader, if_true, hT, hV.1, hV.2, hI.1, hI.2.1,
    hI.2.2, if_false, NodeId.ofString_print h.from.noAt h.from.relay inet,
    NodeId.ofString_print h.to.noAt h.to.relay inet, Text.toInt_fromInt32]
  rfl

/-- An id that has been through the wire once goes through it unchanged. -/
theorem toInt32_ofInt (n : Int) : toInt32 (UInt64.ofInt (toInt32 n)).toNat = toInt32 n := by
  have h : (UInt64.ofInt (toInt32 n)).toNat = (toInt32 n % 2 ^ 64).toNat := by
    have hlt : (toInt32 n % 2 ^ 64).toNat < 2 ^ 64 := by omega
    exact UInt64.toNat_ofNat_of_lt' hlt
  rw [h]
  unfold toInt32
  omega

theorem versionText_versionText (v : ByteStr) : versionText (versionText v) = versionText v := by
  unfold versionText
  split <;> simp_all [lit]

/-- What is read back builds the same bytes again. -/
theorem carried_toGTT (p : Packet) : p.carried.toGTT = p.toGTT := by
  simp only [carried, toGTT, toInt32_ofInt, versionText_versionText]

/-- What a parser and `Packet::Packet` make of bytes: the packet that is read, if one is. -/
def received (inet : Inet) (bytes : ByteStr) : Option Packet :=
  match (GTTParser.getPacket GTTParser.rules (GTTParser.fresh.eat bytes)).1 with
  | .ok (some pkt) => (ofGTT inet pkt).toOption
  | _ => none

theorem Legal.received_build {p : Packet} (h : p.Legal) (inet : Inet) :
    received inet p.build = some p.carried := by
  have hparse := GTTParser.getPacket_build h.toGTT_wellFormed []
  rw [List.append_nil] at hparse
  rw [received, GTTParser.fresh_eat, build, hparse]
  simp only [h.ofGTT_toGTT inet, Except.toOption]

/-- The ids that an `int` can count, from either end. -/
theorem ofInt_toInt32_iff (n : UInt64) :
    UInt64.ofInt (toInt32 n.toNat) = n ↔ n.toNat < 2 ^ 31 ∨ 2 ^ 64 - 2 ^ 31 ≤ n.toNat := by
  have hn := n.toNat_lt
  have hval : (UInt64.ofInt (toInt32 n.toNat)).toNat = (toInt32 n.toNat % 2 ^ 64).toNat := by
    have hlt : (toInt32 n.toNat % 2 ^ 64).toNat < 2 ^ 64 := by omega
    exact UInt64.toNat_ofNat_of_lt' hlt
  rw [← UInt64.toNat_inj, hval]
  unfold toInt32
  split <;> omega

/-- A packet is read back field by field, with the version filled in, exactly when its id fits an
`int` or is at most `2 ^ 31` below `2 ^ 64`. -/
theorem Legal.received_build_iff {p : Packet} (h : p.Legal) (inet : Inet) :
    received inet p.build = some { p with version := versionText p.version } ↔
      p.pktID.toNat < 2 ^ 31 ∨ 2 ^ 64 - 2 ^ 31 ≤ p.pktID.toNat := by
  rw [h.received_build inet, ← ofInt_toInt32_iff, carried]
  simp

/-- A packet from the first node of a relay to its second one. -/
def numbered (pktID : UInt64) : Packet :=
  let relay : SockAddress := ⟨⟨lit "10.0.0.1", 4⟩, 4242⟩
  ⟨lit "DHT", ⟨lit "self", relay⟩, ⟨lit "2-10.0.0.7:51324", relay⟩, [], pktID, crlf⟩

theorem numbered_legal (pktID : UInt64) : (numbered pktID).Legal := by
  have hip : IsIPv4 (lit "10.0.0.1") := ⟨⟨10, 0, 0, 1⟩, by decide⟩
  have hnode : ∀ name : String, (lit name).all printable → 64 ∉ lit name →
      (lit name).head? ≠ some 32 → NodeId.Legal ⟨lit name, ⟨lit "10.0.0.1", 4⟩, 4242⟩ :=
    fun _ h1 h2 h3 => ⟨h1, h2, h3, rfl, hip⟩
  exact ⟨show isName (lit "DHT") by decide,
    hnode "self" (by decide) (by decide) (by decide),
    hnode "2-10.0.0.7:51324" (by decide) (by decide) (by decide), .inl rfl,
    show 2 < 2 ^ 63 by decide⟩

theorem received_numbered :
    received Inet.zero (numbered 7).build = some { numbered 7 with version := lit "0" } :=
  ((numbered_legal 7).received_build_iff Inet.zero).mpr (.inl (by decide))

/-- The first id that an `int` cannot hold is read back as another one. -/
theorem received_narrowed :
    received Inet.zero (numbered 2147483648).build =
      some { numbered 2147483648 with version := lit "0", pktID := 18446744071562067968 } ∧
    received Inet.zero (numbered 2147483648).build ≠
      some { numbered 2147483648 with version := lit "0" } := by
  have hcarried : (numbered 2147483648).carried =
      { numbered 2147483648 with version := lit "0", pktID := 18446744071562067968 } := by
    decide +kernel
  rw [(numbered_legal 2147483648).received_build Inet.zero, hcarried]
  exact ⟨rfl, by decide⟩

end Packet
end Epyx.N2NP
