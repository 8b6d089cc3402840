import Epyx.N2NP.Exchange

/-! A node gets its id: what a relay sends to a client it attaches, and what the client makes of
it. -/
namespace Epyx.N2NP

namespace Node

/-- The line of the data of an ID packet reads back as the address. -/
theorem ipLine_print {a : SockAddress} (h : a.IsIPv4) :
    ipLine (lit "IP: " ++ a.print) = some a.print := by
  have hline : Text.trim (lit "IP: " ++ a.print) = 73 :: 80 :: 58 :: 32 :: a.print := by
    have hr : Text.rtrim (lit "IP: " ++ a.print) = lit "IP: " ++ a.print :=
      Text.rtrim_append h.print_ne_nil h.print_noSpace
    rw [Text.trim, hr]
    rfl
  have hdrop : (73 :: 80 :: 58 :: 32 :: a.print : ByteStr).dropWhile (· != 58) =
      58 :: 32 :: a.print := rfl
  have htake : (73 :: 80 :: 58 :: 32 :: a.print : ByteStr).takeWhile (· != 58) = [73, 80] := rfl
  have hname : Text.toLower (Text.trim [73, 80]) = lit "ip" := by decide
  unfold ipLine
  simp only [hline, hdrop, htake, hname, if_true, Text.trim_space h.print_ne_nil h.print_noSpace]

theorem ipLines_print {a : SockAddress} (h : a.IsIPv4) :
    ipLines (lit "IP: " ++ a.print ++ crlf) = [a.print] := by
  have hprefix : ∀ c ∈ lit "IP: ", c ≠ 10 := by decide +kernel
  have hfeed : ∀ c ∈ lit "IP: " ++ a.print, c ≠ 10 := by
    intro c hc
    rcases List.mem_append.mp hc with hc | hc
    · exact hprefix c hc
    · rcases h.print_bytes hc with hd | rfl | rfl
      · rintro rfl
        revert hd
        decide
      · decide
      · decide
  have hfirst : ((LineParser.reset.push (lit "IP: " ++ a.print ++ crlf)).push crlf).popLine =
      some (lit "IP: " ++ a.print, ⟨crlf⟩) := by
    have hpush : (LineParser.reset.push (lit "IP: " ++ a.print ++ crlf)).push crlf =
        ⟨lit "IP: " ++ a.print ++ crlf ++ crlf⟩ := (LineParser.push_append _ _ _).symm
    rw [hpush]
    exact LineParser.popLine_crlf (fun h10 => hfeed 10 h10 rfl) crlf
  have hempty : (⟨crlf⟩ : LineParser).popLine = some ([], ⟨[]⟩) := rfl
  rw [ipLines, popLines_some hfirst, popLines_some hempty, popLines_none rfl]
  have hnil : ipLine [] = none := rfl
  simp [ipLine_print h, hnil]

end Node

namespace Relay

theorem digits_length {n k : Nat} (hk : 0 < k) (h : n < 10 ^ k) :
    (Text.fromUnsignedLong n).length ≤ k := by
  rw [Text.fromUnsignedLong, Lib.Decimal.digits, List.length_map]
  exact (Nat.length_toDigits_le_iff (by decide) hk).mpr h

/-- An IPv4 address with its port is a short text. -/
theorem print_length {a : SockAddress} (h : a.IsIPv4) : a.print.length ≤ 21 := by
  obtain ⟨-, x, hx⟩ := h
  have hbyte : ∀ o : Byte, (Text.fromUnsignedLong o.toNat).length ≤ 3 := fun o =>
    digits_length (by decide) (lt_trans o.toNat_lt (by decide))
  have hport : (Text.fromUnsignedLong a.port.toNat).length ≤ 5 :=
    digits_length (by decide) (lt_trans a.port.toNat_lt (by decide))
  have hip : a.ip.ip.length ≤ 15 := by
    have ha := hbyte x.a
    have hb := hbyte x.b
    have hc := hbyte x.c
    have hd := hbyte x.d
    rw [hx]
    simp only [inetNtop4, List.map_cons, List.map_nil, List.intercalate, List.intersperse,
      List.flatten_cons, List.flatten_nil, List.length_append, List.length_cons, List.length_nil]
    omega
  have hprint : a.ip.print.length ≤ 15 := by
    unfold IpAddress.print
    split
    · exact hip
    · decide
  rw [SockAddress.print, List.length_append]
  split
  · rw [List.length_cons]
    omega
  · rw [List.length_nil]
    omega

theorem nodeName_bytes (number : UInt64) {sock : Conn} (h : sock.address.IsIPv4) {c : Byte}
    (hc : c ∈ nodeName number sock) : printable c ∧ c ≠ 32 ∧ c ≠ 64 ∧ c ≠ 0 := by
  have hself : ∀ c ∈ lit "self", printable c ∧ c ≠ 32 ∧ c ≠ 64 ∧ c ≠ 0 := by decide +kernel
  have hdigit : isdigit c → printable c ∧ c ≠ 32 ∧ c ≠ 64 ∧ c ≠ 0 := by
    intro hd
    obtain ⟨h1, h2⟩ := GTTParser.isdigit_printable hd
    refine ⟨h1, h2, ?_, ?_⟩ <;> rintro rfl <;> revert hd <;> decide
  unfold nodeName at hc
  split at hc
  · exact hself c hc
  · rcases List.mem_append.mp hc with hc | hc
    · rcases List.mem_append.mp hc with hc | hc
      · exact hdigit (Lib.Decimal.digits_isDigit hc)
      · obtain rfl : c = 45 := List.mem_singleton.mp hc
        decide
    · rcases h.print_bytes hc with hd | rfl | rfl
      · exact hdigit hd
      · decide
      · decide

theorem cstr_nodeName (number : UInt64) {sock : Conn} (h : sock.address.IsIPv4) :
    cstr (nodeName number sock) = nodeName number sock :=
  cstr_eq_self fun h0 => (nodeName_bytes number h h0).2.2.2 rfl

/-- The name of a node can stand before the `@` of its id. -/
theorem nodeName_legal (number : UInt64) {sock : Conn} (h : sock.address.IsIPv4)
    {relay : SockAddress} (hrelay : relay.IsIPv4) :
    NodeId.Legal ⟨nodeName number sock, relay⟩ where
  name := List.all_eq_true.mpr fun _ hc => (nodeName_bytes number h hc).1
  noAt h64 := (nodeName_bytes number h h64).2.2.1 rfl
  noSpace h32 := (nodeName_bytes number h (List.mem_of_mem_head? h32)).2.1 rfl
  relay := hrelay

theorem idPacket_legal {r : Relay} (hr : r.relayId = ⟨[], r.relayAddr⟩)
    (haddr : r.relayAddr.IsIPv4) {nodeid : NodeId} (hid : nodeid.Legal) {sock : Conn}
    (h : sock.address.IsIPv4) : (r.idPacket nodeid sock).Legal where
  method := show isName (lit "ID") by decide
  «from» := by
    have hfrom : (r.idPacket nodeid sock).from = ⟨[], r.relayAddr⟩ := hr
    rw [hfrom]
    exact ⟨rfl, List.not_mem_nil, nofun, haddr⟩
  «to» := hid
  version := .inl rfl
  data := by
    have hlen := print_length h
    have hdata : (r.idPacket nodeid sock).data.length = sock.address.print.length + 6 := by
      show (lit "IP: " ++ sock.address.print ++ crlf).length = _
      rw [List.length_append, List.length_append]
      show 4 + _ + 2 = _
      omega
    rw [hdata]
    omega

end Relay

namespace Node
variable {μ : Type*} (inet : Inet) (net : SendCalls) (modules : Modules μ)

/-- A node without an id takes it from an ID packet, and its address from the line in it. -/
theorem treat_id (r : Relay) (nodeid : NodeId) {sock : Conn} (h : sock.address.IsIPv4)
    {n : Node} (hid : n.hasId = false) (m : μ) :
    treat inet net modules (r.idPacket nodeid sock).carried (n, m) =
      (none,
        { n with nodeid := nodeid, hasId := true, nodeAddressFromRelay := sock.address }, m) := by
  have hmethod : (r.idPacket nodeid sock).carried.method = lit "ID" := rfl
  have hto : (r.idPacket nodeid sock).carried.to = nodeid := rfl
  have hlines : ipLines (r.idPacket nodeid sock).carried.data = [sock.address.print] :=
    ipLines_print h
  have hset : setAddress inet [sock.address.print] { n with nodeid := nodeid, hasId := true } =
      (none,
        { n with nodeid := nodeid, hasId := true, nodeAddressFromRelay := sock.address }) := by
    simp only [setAddress, SockAddress.ofString_print inet h]
  unfold treat
  simp only [hid, hmethod, hto, hlines, hset, Bool.false_eq_true, not_false_eq_true, if_true,
    ne_eq, not_true_eq_false, if_false]

end Node

/-- The node that a relay attaches learns the id under which the relay has it in its map, and the
address the relay sees, from the bytes the relay sends, wherever they are cut; it changes nothing
else, and sends nothing. -/
theorem Relay.attachNode_learned (addr : SockAddress) (haddr : addr.IsIPv4)
    (nodes : Std.ExtTreeMap ByteStr NodeInfo) (counter : UInt64) (messages : List Packet)
    (sock : Conn) (hsock : sock.address.IsIPv4) (send : SendCalls) (calls : Nat) :
    ∃ (relay : Relay) (nodeid : NodeId) (bytes : ByteStr),
      (⟨addr, ⟨[], addr⟩, nodes, counter, messages⟩ : Relay).attachNode send sock calls =
        (relay, nodeid, Socket.sendBytes send bytes calls) ∧
      relay.nodes[nodeid.name]? = some ⟨nodeid, sock⟩ ∧
      ∀ {μ : Type*} (inet : Inet) (net : SendCalls) (modules : Modules μ) (m : μ) (n : Node)
        (parser : GTTParser) (chunks : List ByteStr), n.hasId = false →
        (parser = GTTParser.fresh ∨ parser = GTTParser.waiting) → chunks.flatten = bytes →
        NetSelectSocket.eatAll (Node.treatPacket inet net modules) chunks (parser, n, m) =
          (none, GTTParser.waiting,
            { n with nodeid := nodeid, hasId := true, nodeAddressFromRelay := sock.address },
            m) := by
  obtain ⟨nodeid, hnodeid⟩ : ∃ nodeid : NodeId, nodeid = ⟨nodeName counter sock, addr⟩ := ⟨_, rfl⟩
  obtain ⟨relay, hrelay⟩ : ∃ relay : Relay, relay =
    ⟨addr, ⟨[], addr⟩, nodes.insert nodeid.name ⟨nodeid, sock⟩, counter + 1, messages⟩ := ⟨_, rfl⟩
  have hpkt : (relay.idPacket nodeid sock).Legal := by
    refine idPacket_legal (by rw [hrelay]) (by rw [hrelay]; exact haddr) ?_ hsock
    exact hnodeid ▸ nodeName_legal counter hsock haddr
  refine ⟨relay, nodeid, (relay.idPacket nodeid sock).build, ?_, ?_, ?_⟩
  · rw [attachNode, hrelay, hnodeid]
    simp only [cstr_nodeName counter hsock]
  · rw [hrelay]
    exact Std.ExtTreeMap.getElem?_insert_self
  · intro μ inet net modules m n parser chunks hid hparser hchunks
    have hwf : ∀ g ∈ [(relay.idPacket nodeid sock).toGTT], g.WellFormed := by
      simpa using hpkt.toGTT_wellFormed
    have hbytes : chunks.flatten = [(relay.idPacket nodeid sock).toGTT].flatMap
        GTTPacket.build := by simpa [Packet.build] using hchunks
    have hne : chunks ≠ [] := by
      rintro rfl
      simp [Packet.build, GTTPacket.build, crlf] at hchunks
    refine NetSelectSocket.eatAll_build hparser hwf hne hbytes ?_
    have htreat := Node.treat_id inet net modules relay nodeid hsock hid m
    simp only [GTTParser.treatAll, Node.treatPacket, hpkt.ofGTT_toGTT inet, htreat]

/-- The seventh client of a relay, and a node that eats the bytes one by one. -/
theorem Relay.attachNode_learned_client :
    let nodeid : NodeId := ⟨lit "7-10.0.0.7:51324", home⟩
    let n := Node.blank ⟨3, home⟩
    ∃ relay bytes,
      (⟨home, ⟨[], home⟩, ∅, 7, []⟩ : Relay).attachNode (fun _ n => .ok n) client 0 =
        (relay, nodeid, Socket.sendBytes (fun _ n => .ok n) bytes 0) ∧
      relay.nodes[nodeid.name]? = some ⟨nodeid, client⟩ ∧
      NetSelectSocket.eatAll
          (Node.treatPacket Inet.zero (fun _ n => .ok n) (fun _ => none : Modules Unit))
          (bytes.map fun c => [c]) (GTTParser.fresh, n, ()) =
        (none, GTTParser.waiting,
          { n with nodeid := nodeid, hasId := true, nodeAddressFromRelay := client.address },
          ()) := by
  have hhome : home.IsIPv4 := ⟨rfl, ⟨10, 0, 0, 1⟩, by decide⟩
  have hclient : client.address.IsIPv4 := ⟨rfl, ⟨10, 0, 0, 7⟩, by decide⟩
  obtain ⟨relay, nodeid, bytes, hattach, hnode, heat⟩ :=
    attachNode_learned home hhome ∅ 7 [] client hclient (fun _ n => .ok n) 0
  have hid : nodeid = ⟨lit "7-10.0.0.7:51324", home⟩ := (Prod.ext_iff.mp
    (Prod.ext_iff.mp hattach).2).1.symm.trans (by decide +kernel)
  subst hid
  have hflatten : (bytes.map fun c => [c]).flatten = bytes := List.flatMap_singleton' bytes
  exact ⟨relay, bytes, hattach, hnode, heat _ _ _ _ _ _ _ rfl (.inl rfl) hflatten⟩

end Epyx.N2NP
