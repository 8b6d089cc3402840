import Epyx.N2NP.Packet
import Epyx.Net.Socket
import Epyx.Net.NetSelectSocket

/-! `n2np/relay.cpp` and `n2np/relaysocket.cpp`: a relay names the nodes that connect to it and
passes packets on. -/
namespace Epyx.N2NP

/-- A connected socket: its descriptor and the address of its peer. -/
structure Conn where
  fd : Nat
  address : SockAddress
  deriving DecidableEq, Repr

structure NodeInfo where
  id : NodeId
  sock : Conn
  deriving DecidableEq, Repr

/-- A relay, with the queue of packets its worker has still to treat. -/
structure Relay where
  relayAddr : SockAddress
  relayId : NodeId
  nodes : Std.ExtTreeMap ByteStr NodeInfo
  nodeNextId : UInt64
  messages : List Packet
  deriving DecidableEq

/-- Where a relay sends a packet. -/
inductive Target where
  | relay (addr : SockAddress)
  | node (sock : Conn)
  deriving DecidableEq, Repr

namespace Relay

def new (addr : SockAddress) : Relay := ⟨addr, ⟨[], addr⟩, ∅, 1, []⟩

/-- The name `attachNode` gives to the node behind a socket. -/
def nodeName (number : UInt64) (sock : Conn) : ByteStr :=
  if number = 1 then lit "self"
  else Text.fromUnsignedLong number.toNat ++ lit "-" ++ sock.address.print

/-- The packet that tells a node its id and its address. -/
def idPacket (r : Relay) (nodeid : NodeId) (sock : Conn) : Packet :=
  { Packet.new (lit "ID") (lit "IP: " ++ sock.address.print ++ crlf) with
    «from» := r.relayId, «to» := nodeid }

/-- `Relay::attachNode`: the node is in the map before its id is sent. -/
def attachNode (send : SendCalls) (r : Relay) (sock : Conn) (calls : Nat) :
    Relay × NodeId × Sent :=
  let name := nodeName r.nodeNextId sock
  let nodeid : NodeId := ⟨cstr name, r.relayAddr⟩
  let r := { r with
    nodes := r.nodes.insert name ⟨nodeid, sock⟩, nodeNextId := r.nodeNextId + 1 }
  (r, nodeid, Socket.sendBytes send (r.idPacket nodeid sock).build calls)

/-- `Relay::detachNode`: the new state, and what is returned. -/
def detachNode (r : Relay) (nodeid : NodeId) : Relay × Bool :=
  if nodeid.relay.compare r.relayAddr ≠ .eq then (r, false)
  else ({ r with nodes := r.nodes.erase nodeid.name }, true)

def detachAllNodes (r : Relay) : Relay := { r with nodes := ∅ }

def post (r : Relay) (pkt : Packet) : Relay := { r with messages := r.messages ++ [pkt] }

/-- `Relay::treat`: where the packet goes and the bytes given to `sendBytes` there. A failure to
send them is only logged. -/
def treat (r : Relay) (pkt : Packet) : Option (Target × ByteStr) :=
  if pkt.to.relay.compare r.relayAddr ≠ .eq then some (.relay pkt.to.relay, pkt.build)
  else (r.nodes[pkt.to.name]?).map fun node => (.node node.sock, pkt.build)

end Relay

/-- What a `RelaySocket` works on besides its parser: its socket, the id the relay gave it, the
relay, and the number of `send`s made so far. -/
structure RelaySocket where
  sock : Conn
  nodeid : NodeId
  relay : Relay
  calls : Nat
  deriving DecidableEq

namespace RelaySocket
variable (inet : Inet) (send : SendCalls)

/-- The loop body of `RelaySocket::eat`. -/
def treatPacket (gttpkt : GTTPacket) (t : RelaySocket) : Option Exn × RelaySocket :=
  match Packet.ofGTT inet gttpkt with
  | .error e => (some e, t)
  | .ok n2nppkt =>
    if n2nppkt.method = lit "ID" ∧ n2nppkt.to.compare t.relay.relayId = .eq then
      let r := t.relay.attachNode send t.sock t.calls
      match r.2.2.result with
      | .error e => (some e, { t with relay := r.1, calls := r.2.2.calls })
      | .ok _ => (none, { t with relay := r.1, nodeid := r.2.1, calls := r.2.2.calls })
    else (none, { t with relay := t.relay.post n2nppkt })

def eat : ByteStr → GTTParser × RelaySocket → Option Exn × GTTParser × RelaySocket :=
  eatWith (treatPacket inet send)

end RelaySocket

/-! A packet that passes through a relay. -/

/-- A packet that does not ask the relay for an id is posted to its worker. -/
theorem RelaySocket.treatPacket_post (inet : Inet) (send : SendCalls) {g : GTTPacket} {q : Packet}
    (hg : Packet.ofGTT inet g = .ok q) {t : RelaySocket}
    (hfwd : ¬(q.method = lit "ID" ∧ q.to = t.relay.relayId)) :
    treatPacket inet send g t = (none, { t with relay := t.relay.post q }) := by
  rw [← NodeId.compare_eq_iff] at hfwd
  unfold treatPacket
  rw [hg]
  exact if_neg hfwd

/-- A packet that asks the relay for an id attaches the node, and the connection keeps the id when
it could be sent. -/
theorem RelaySocket.treatPacket_id (inet : Inet) (send : SendCalls) {g : GTTPacket} {q : Packet}
    (hg : Packet.ofGTT inet g = .ok q) {t : RelaySocket}
    (hid : q.method = lit "ID" ∧ q.to = t.relay.relayId) {r : Relay × NodeId × Sent}
    (hr : t.relay.attachNode send t.sock t.calls = r) {ret : Bool}
    (hret : r.2.2.result = .ok ret) :
    treatPacket inet send g t =
      (none, { t with relay := r.1, nodeid := r.2.1, calls := r.2.2.calls }) := by
  rw [← NodeId.compare_eq_iff] at hid
  unfold treatPacket
  simp only [hg, hid, and_self, if_true, hr, hret]

theorem RelaySocket.treatPacket_error (inet : Inet) (send : SendCalls) {g : GTTPacket} {e : Exn}
    (hg : Packet.ofGTT inet g = .error e) (t : RelaySocket) :
    treatPacket inet send g t = (some e, t) := by
  unfold treatPacket
  rw [hg]

/-- Whatever route a packet takes, its bytes are those of its `build`. -/
theorem Relay.treat_build {r : Relay} {pkt : Packet} {target : Target} {bytes : ByteStr}
    (h : r.treat pkt = some (target, bytes)) : bytes = pkt.build := by
  unfold treat at h
  split at h
  · cases h; rfl
  · obtain ⟨node, -, hnode⟩ := Option.map_eq_some_iff.mp h
    cases hnode; rfl

/-- A relay passes a packet on as it came. What it reads builds the bytes it has read; unless the
packet asks this relay for an id it is posted to the worker, and the bytes the worker sends,
wherever they go, are those the relay has read. -/
theorem RelaySocket.forward_build (inet : Inet) (send : SendCalls) (p : Packet) (hp : p.Legal)
    (parser : GTTParser) (hparser : parser = GTTParser.fresh ∨ parser = GTTParser.waiting) :
    ∃ g q, (GTTParser.packets GTTParser.rules (parser.eat p.build)).1 = [g] ∧
      Packet.ofGTT inet g = .ok q ∧ q.build = p.build ∧
      ∀ t : RelaySocket, ¬(p.method = lit "ID" ∧ p.to = t.relay.relayId) →
        eat inet send p.build (parser, t) =
          (none, GTTParser.waiting, { t with relay := t.relay.post q }) ∧
        ∀ (r : Relay) target bytes, r.treat q = some (target, bytes) → bytes = p.build := by
  have hbuild : p.carried.build = p.build := by rw [Packet.build, p.carried_toGTT]; rfl
  have hwf : ∀ g ∈ [p.toGTT], g.WellFormed := by simpa using hp.toGTT_wellFormed
  have hbytes : p.build = [p.toGTT].flatMap GTTPacket.build := by simp [Packet.build]
  have hread := hp.ofGTT_toGTT inet
  refine ⟨p.toGTT, p.carried, ?_, hread, hbuild, fun t hfwd => ⟨?_, fun r target bytes h => ?_⟩⟩
  · rw [hbytes, GTTParser.packets_eat_build hparser hwf]
  · rw [← p.carried_method, ← p.carried_to] at hfwd
    rw [eat, hbytes]
    refine NetSelectSocket.eatWith_build hparser hwf ?_
    simp only [GTTParser.treatAll, treatPacket_post inet send hread hfwd]
  · rw [Relay.treat_build h, hbuild]

def Relay.home : SockAddress := ⟨⟨lit "10.0.0.1", 4⟩, 4242⟩

def Relay.client : Conn := ⟨5, ⟨⟨lit "10.0.0.7", 4⟩, 51324⟩⟩

/-- A packet with a body, a version to fill in and an id that does not fit an `int`. -/
theorem RelaySocket.forward_build_large :
    let node (name : String) : NodeId := ⟨lit name, ⟨lit "10.0.0.1", 4⟩, 4242⟩
    let p : Packet := ⟨lit "DHT", node "self", node "2-10.0.0.7:51324", [], 4294967297, crlf⟩
    ∃ g q, (GTTParser.packets GTTParser.rules (GTTParser.fresh.eat p.build)).1 = [g] ∧
      Packet.ofGTT Inet.zero g = .ok q ∧ q.build = p.build ∧
      ∀ t : RelaySocket, ¬(p.method = lit "ID" ∧ p.to = t.relay.relayId) →
        eat Inet.zero (fun _ n => .ok n) p.build (GTTParser.fresh, t) =
          (none, GTTParser.waiting, { t with relay := t.relay.post q }) ∧
        ∀ (r : Relay) target bytes, r.treat q = some (target, bytes) → bytes = p.build := by
  intro node p
  have hip : IsIPv4 (lit "10.0.0.1") := ⟨⟨10, 0, 0, 1⟩, by decide⟩
  have hnode : ∀ name : String, (lit name).all printable → 64 ∉ lit name →
      (lit name).head? ≠ some 32 → (node name).Legal := fun name h1 h2 h3 =>
    ⟨h1, h2, h3, rfl, hip⟩
  refine forward_build _ _ p ⟨by decide, hnode _ (by decide) (by decide) (by decide),
    hnode _ (by decide) (by decide) (by decide), .inl rfl, by decide⟩ _ (.inl rfl)

end Epyx.N2NP
