import Epyx.N2NP.Attachment
import Epyx.Net.Stream

/-! What a node that is attached to its relay writes, and what it makes of the packets that can be
on their way to it. -/
namespace Epyx.N2NP

/-- The node ids that are header values, of a length that does not matter. -/
structure NodeId.Short (id : NodeId) : Prop extends id.Legal where
  length : id.print.length ≤ 2 ^ 20

/-- Each `send` takes what it is given, as long as an `int` can count it. -/
def Whole (net : SendCalls) : Prop :=
  ∀ bytes calls, bytes.length < 2 ^ 31 →
    Socket.Delivers (Socket.sendBytes net bytes calls) bytes

theorem whole_ok : Whole fun _ size => .ok size := fun _ _ h =>
  have hprogress : Socket.Progress fun _ size => size := fun _ _ hpos => ⟨hpos, le_refl _⟩
  Socket.sendBytes_atOnce hprogress h rfl

namespace Packet

theorem length_fromInt (n : Int) : (Text.fromInt (toInt32 n)).length ≤ 11 := by
  have hn : (toInt32 n).natAbs < 10 ^ 10 := by
    unfold toInt32
    omega
  have hdigits := Relay.digits_length (by decide) hn
  rw [Text.fromUnsignedLong] at hdigits
  unfold Text.fromInt
  split
  · exact Nat.succ_le_succ hdigits
  · exact Nat.le_succ_of_le hdigits

theorem length_contentLine {body : ByteStr} (h : body.length < 2 ^ 63) :
    (GTTPacket.contentLine body).length ≤ 38 := by
  have hdigits := Relay.digits_length (k := 20) (by decide)
    (show body.length < 10 ^ 20 by omega)
  have hname : (lit "content-length: ").length = 16 := rfl
  have hcrlf : crlf.length = 2 := rfl
  unfold GTTPacket.contentLine
  split
  · simp only [List.length_append, hname, hcrlf]
    omega
  · exact Nat.zero_le _

/-- What the headers add to the data. -/
theorem length_build {p : Packet} (h : p.data.length < 2 ^ 63) :
    p.build.length ≤ p.method.length + p.from.print.length + p.to.print.length +
      (versionText p.version).length + p.data.length + 96 := by
  have hid := length_fromInt p.pktID.toNat
  have hline := length_contentLine h
  have hheaders : p.toGTT.headers.toList.flatMap GTTPacket.headerLine =
      GTTPacket.headerLine (lit "From", p.from.print) ++
      (GTTPacket.headerLine (lit "ID", Text.fromInt (toInt32 p.pktID.toNat)) ++
      (GTTPacket.headerLine (lit "To", p.to.print) ++
      (GTTPacket.headerLine (lit "Version", versionText p.version) ++ []))) := by
    rw [toGTT_toList]
    rfl
  have hbuild : p.build = lit "N2NP" ++ lit " " ++ p.method ++ crlf ++
      p.toGTT.headers.toList.flatMap GTTPacket.headerLine ++ GTTPacket.contentLine p.data ++
      crlf ++ p.data := rfl
  have hproto : (lit "N2NP").length = 4 ∧ (lit " ").length = 1 ∧ (lit ": ").length = 2 ∧
    crlf.length = 2 := ⟨rfl, rfl, rfl, rfl⟩
  have hnames : (lit "From").length = 4 ∧ (lit "ID").length = 2 ∧ (lit "To").length = 2 ∧
    (lit "Version").length = 7 := ⟨rfl, rfl, rfl, rfl⟩
  rw [hbuild, hheaders]
  simp only [GTTPacket.headerLine, List.length_append, List.length_nil, hproto, hnames]
  omega

/-- A packet without a version, from and to nodes that a relay has named. -/
structure Light (p : Packet) : Prop where
  method : isName p.method ∧ p.method.length ≤ 2 ^ 20
  «from» : p.from.Short
  «to» : p.to.Short
  version : p.version = []
  data : p.data.length ≤ 2 ^ 30

theorem Light.legal {p : Packet} (h : p.Light) : p.Legal :=
  ⟨h.method.1, h.from.toLegal, h.to.toLegal, .inl h.version, by have := h.data; omega⟩

/-- An `int` counts the bytes of the packet. -/
theorem Light.length {p : Packet} (h : p.Light) : p.build.length < 2 ^ 31 := by
  have hdata := h.data
  have hfrom := h.from.length
  have hto := h.to.length
  have hmethod := h.method.2
  have hversion : (versionText p.version).length = 1 := by rw [h.version]; rfl
  have hbuild := length_build (p := p) (by omega)
  omega

end Packet

namespace Node

/-- A node that has got its id and has no socket but the one to its relay. -/
structure Joined (id : NodeId) (n : Node) : Prop where
  nodeid : n.nodeid = id
  hasId : n.hasId
  direct : n.directSockets = ∅

/-- What goes out on the sockets for the buffers that they have been given. -/
def accepted (net : SendCalls) : Nat → List (Conn × ByteStr) → ByteStr
  | _, [] => []
  | calls, (_, bytes) :: wires =>
    let sent := Socket.sendBytes net bytes calls
    sent.wire ++ accepted net sent.calls wires

theorem accepted_eq {net : SendCalls} (hnet : Whole net) {wires : List (Conn × ByteStr)}
    (h : ∀ w ∈ wires, w.2.length < 2 ^ 31) (calls : Nat) :
    accepted net calls wires = wires.flatMap Prod.snd := by
  induction wires generalizing calls with
  | nil => rfl
  | cons w wires ih =>
    have hsent : (Socket.sendBytes net w.2 calls).wire = w.2 := (hnet w.2 calls (h w (.head _))).1
    rw [accepted, hsent, ih (fun w hw => h w (.tail _ hw)), List.flatMap_cons]

variable {id : NodeId} {n : Node} {net : SendCalls}

theorem Joined.select (h : Joined id n) (dest : NodeId) : n.select dest = some n.sock := by
  unfold Node.select
  simp [h.direct]

/-- A node that sends a packet gives its bytes to the socket of the relay, and is attached as
before. -/
theorem Joined.write (h : Joined id n) (hnet : Whole net) {p : Packet}
    (hlength : p.build.length < 2 ^ 31) :
    ∃ n', n.write net n.sock p = (.ok true, n') ∧ Joined id n' ∧
      n'.wires = n.wires ++ [(n.sock, p.build)] := by
  have hsent : (n.write net n.sock p).1 = .ok true :=
    (write_fst rfl n.sock).trans (hnet _ _ hlength).2
  have hnode : (n.write net n.sock p).2 = { n with
      calls := (Socket.sendBytes net p.build n.calls).calls
      wires := n.wires ++ [(n.sock, p.build)] } := by rw [Node.write]
  refine ⟨(n.write net n.sock p).2, Prod.ext hsent rfl, ?_⟩
  rw [hnode]
  exact ⟨⟨h.nodeid, h.hasId, h.direct⟩, rfl⟩

theorem Joined.outgoing_light (h : Joined id n) (hid : id.Short) {dest : NodeId}
    (hdest : dest.Short) {method data : ByteStr} (hmethod : isName method ∧ method.length ≤ 2 ^ 20)
    (hdata : data.length ≤ 2 ^ 30) : (n.outgoing dest method data).Light :=
  ⟨hmethod, show n.nodeid.Short from h.nodeid ▸ hid, hdest, rfl, hdata⟩

/-- `Node::send` writes its packet or throws; it throws only where the packet is to be kept. -/
theorem Joined.send (h : Joined id n) (hid : id.Short) (hnet : Whole net) {dest : NodeId}
    (hdest : dest.Short) {method data : ByteStr} (hmethod : isName method ∧ method.length ≤ 2 ^ 20)
    (hdata : data.length ≤ 2 ^ 30) (store : Bool) :
    (∃ e n', n.send net dest method data store = (.error e, n') ∧ store) ∨
    ∃ n', n.send net dest method data store = (.ok true, n') ∧ Joined id n' ∧
      n'.wires = n.wires ++ [(n.sock, (n.outgoing dest method data).build)] := by
  have hlight := h.outgoing_light hid hdest hmethod hdata
  have hwrite : ∀ m : Node, Joined id m → m.sock = n.sock → m.wires = n.wires →
      ∃ n', m.write net m.sock (n.outgoing dest method data) = (.ok true, n') ∧ Joined id n' ∧
        n'.wires = n.wires ++ [(n.sock, (n.outgoing dest method data).build)] := by
    intro m hm hsock hwires
    obtain ⟨n', hn', hj, hout⟩ := hm.write hnet hlight.length
    exact ⟨n', hn', hj, by rw [hout, hwires, hsock]⟩
  unfold Node.send
  rw [if_neg (fun hn => hn.2 h.hasId)]
  dsimp only
  by_cases hused : store ∧ (n.outgoing dest method data).pktID ∈ n.sentMap
  · rw [if_pos hused]
    exact .inl ⟨_, _, rfl, hused.1⟩
  · rw [if_neg hused]
    right
    have hkept : ∀ kept, Joined id ({ n with curId := n.curId + 1, sentMap := kept }.weigh dest
        data) := fun _ => ⟨h.nodeid, h.hasId, h.direct⟩
    cases store with
    | false =>
      simp only [Bool.false_eq_true, if_false, (hkept n.sentMap).select]
      exact hwrite _ (hkept _) rfl rfl
    | true =>
      simp only [if_true, (hkept (n.sentMap.insert _ _)).select]
      exact hwrite _ (hkept _) rfl rfl

variable {μ : Type*} (net) (inet : Inet) (modules : Modules μ) {p : Packet}

/-- A packet for another node is dropped. -/
theorem Joined.treat_other (h : Joined id n) (hto : p.to ≠ id) (m : μ) :
    treat inet net modules p (n, m) = (none, n, m) := by
  have hne : p.to.compare n.nodeid ≠ .eq := fun heq =>
    hto ((NodeId.compare_eq_iff.mp heq).trans h.nodeid)
  unfold treat
  simp only [h.hasId, not_true_eq_false, if_false, hne, ne_eq, not_false_eq_true, if_true]

/-- An acknowledgement ends the memory of a packet, and nothing is sent for it. -/
theorem Joined.treat_ack (h : Joined id n) (hto : p.to = id) (hmethod : p.method = lit "ACK")
    {k : Nat} (hk : k < 2 ^ 64) (hdata : p.data = Text.fromUnsignedLong k) (m : μ) :
    ∃ n', treat inet net modules p (n, m) = (none, n', m) ∧ Joined id n' ∧
      n'.wires = n.wires := by
  have hself : p.to.compare n.nodeid = .eq := NodeId.compare_eq_iff.mpr (hto.trans h.nodeid.symm)
  have hread : Text.toULong p.data = .ok k := by rw [hdata, Text.toULong_digits hk]
  refine ⟨{ n with sentMap := n.sentMap.erase (UInt64.ofNat k) }, ?_,
    ⟨h.nodeid, h.hasId, h.direct⟩, rfl⟩
  unfold treat
  simp only [h.hasId, not_true_eq_false, if_false, hself, ne_eq, hmethod, if_true, hread]

variable {net modules} in
/-- A packet for a module that takes it is acknowledged. -/
theorem Joined.treat_module (h : Joined id n) (hid : id.Short) (hnet : Whole net)
    (hto : p.to = id) (hmethod : p.method ≠ lit "ACK" ∧ p.method ≠ lit "ERR")
    (hfrom : p.from.Short) {module : NodeId → ByteStr → Node × μ → Option Exn × Node × μ}
    (hmodule : modules p.method = some module) {m m' : μ}
    (htakes : ∀ n : Node, module p.from p.data (n, m) = (none, n, m')) :
    ∃ (n' : Node) (ack : Packet), treat inet net modules p (n, m) = (none, n', m') ∧ Joined id n' ∧
      n'.wires = n.wires ++ [(n.sock, ack.build)] ∧ ack.Light ∧ ack.method = lit "ACK" ∧
      ack.data = Text.fromUnsignedLong p.pktID.toNat := by
  have hself : p.to.compare n.nodeid = .eq := NodeId.compare_eq_iff.mpr (hto.trans h.nodeid.symm)
  have hweighed : Joined id (n.weigh p.from p.data) := ⟨h.nodeid, h.hasId, h.direct⟩
  have hack : isName (lit "ACK") ∧ (lit "ACK").length ≤ 2 ^ 20 := by decide
  have hdigits : (Text.fromUnsignedLong p.pktID.toNat).length ≤ 2 ^ 30 :=
    (Relay.digits_length (k := 20) (by decide)
      (lt_trans p.pktID.toNat_lt (by decide))).trans (by decide)
  rcases hweighed.send hid hnet hfrom hack hdigits false with ⟨e, n', -, hfalse⟩ | hsent
  · cases hfalse
  obtain ⟨n', hsent, hj, hwires⟩ := hsent
  refine ⟨n', (n.weigh p.from p.data).outgoing p.from (lit "ACK")
    (Text.fromUnsignedLong p.pktID.toNat), ?_, hj, hwires,
    hweighed.outgoing_light hid hfrom hack hdigits, rfl, rfl⟩
  have hcall : callModule net module p (n.weigh p.from p.data, m) = (none, n', m') := by
    unfold callModule
    rw [htakes]
    simp only [sendAck, hsent, thrown]
  unfold treat
  simp only [h.hasId, not_true_eq_false, if_false, hself, ne_eq, hmethod.1, hmethod.2, hmodule,
    hcall]

end Node
end Epyx.N2NP
