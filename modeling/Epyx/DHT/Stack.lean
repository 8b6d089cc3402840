import Epyx.DHT.Module
import Epyx.DHT.Network
import Epyx.N2NP.Delivery

/-! The DHT as it is deployed: its packets inside those of N2NP, over streams of bytes to a relay
and from it. What the nodes do there is what they do on a network that delivers packets. -/
namespace Epyx.N2NP

/-- `Node::send` of a GTT packet, which becomes the data of one of N2NP. -/
def Node.sendGTT (net : SendCalls) (n : Node) (dest : NodeId) (method : ByteStr)
    (pkt : GTTPacket) : Except Exn Bool × Node :=
  let payload := pkt.build
  if payload = [] then (.ok false, n) else n.send net dest method payload true

end Epyx.N2NP

namespace Epyx.DHT
open N2NP (NodeId Conn Relay RelaySocket)
open Lib

/-- A host: a node of N2NP with the parser of its connection, and the DHT that is its module. -/
structure Host where
  dht : Node
  node : N2NP.Node
  parser : GTTParser

/-- The relay's end of the connection of a host. -/
structure Link where
  parser : GTTParser
  sock : Conn
  nodeid : NodeId

/-- Hosts at a relay, with the bytes on their way to it and from it. -/
structure Stack (ι : Type*) where
  hosts : ι → Host
  links : ι → Link
  relay : Relay
  calls : Nat
  up : ι → ByteStr
  down : ι → ByteStr

namespace Host

/-- The only module of a host. It reads the clock for each packet. -/
def modules (inet : Inet) : N2NP.Modules (List Int × Node) := fun method =>
  if method = lit "DHT" then
    some fun senderId data s =>
      let r := Node.fromN2NP inet senderId data (s.2.1.headD 0) s.2.2
      (r.1, s.1, s.2.1.tail, r.2)
  else none

/-- `DHT::Node::send` for each packet that is sent. Where one throws there is no state. -/
def sends (net : SendCalls) : List Output → N2NP.Node → Option N2NP.Node
  | [], n => some n
  | .send dest pkt :: out, n =>
    match n.sendGTT net dest (lit "DHT") pkt.toGTTPacket with
    | (.ok _, n) => sends net out n
    | (.error _, _) => none
  | _ :: out, n => sends net out n

end Host

def InternalNode.Event.isReceive : InternalNode.Event → Bool
  | .receive _ _ _ => true
  | _ => false

namespace Stack
variable {ι : Type*}

inductive Event (ι : Type*) where
  /-- a user calls a host, a worker of it takes a message or a timeout expires -/
  | act (i : ι) (e : InternalNode.Event)
  /-- the relay reads a chunk of what a host has sent -/
  | up (i : ι) (k : Nat)
  /-- a worker of the relay takes a packet -/
  | relay (k : Nat)
  /-- a host reads a chunk of what the relay has sent -/
  | down (i : ι) (k : Nat) (times : List Int)

/-- The nodes of the DHT. -/
def nodes (s : Stack ι) (i : ι) : InternalNode := (s.hosts i).dht.n

/-- `Relay::treat`, with the bytes that go out to the hosts. -/
def treat (net : SendCalls) (s : Stack ι) (pkt : N2NP.Packet) : Stack ι :=
  match s.relay.treat pkt with
  | some (.node sock, bytes) =>
    let sent := Socket.sendBytes net bytes s.calls
    { s with
      calls := sent.calls
      down := fun i => if (s.links i).sock = sock then s.down i ++ sent.wire else s.down i }
  | _ => s

variable [DecidableEq ι] (inet : Inet) (net : SendCalls)

/-- The host `i` has become `h`: what it has given to its socket is on its way. -/
def put (s : Stack ι) (i : ι) (h : Host) : Stack ι :=
  { s with
    hosts := Function.update s.hosts i { h with node := { h.node with wires := [] } }
    up := Function.update s.up i
      (s.up i ++ N2NP.Node.accepted net (s.hosts i).node.calls h.node.wires) }

def act (s : Stack ι) (i : ι) (e : InternalNode.Event) : Option (Stack ι × List (ι × Output)) :=
  (InternalNode.machine.step (s.hosts i).dht.n e).bind fun r =>
    (Host.sends net r.2 (s.hosts i).node).map fun node =>
      (s.put net i ⟨{ (s.hosts i).dht with n := r.1 }, node, (s.hosts i).parser⟩, r.2.map (i, ·))

/-- `RelaySocket::eat` of the first `k` bytes. -/
def readUp (s : Stack ι) (i : ι) (k : Nat) : Option Exn × Stack ι :=
  let l := s.links i
  let r := RelaySocket.eat inet net ((s.up i).take k)
    (l.parser, ⟨l.sock, l.nodeid, s.relay, s.calls⟩)
  (r.1, { s with
    links := Function.update s.links i ⟨r.2.1, l.sock, r.2.2.nodeid⟩
    relay := r.2.2.relay
    calls := r.2.2.calls
    up := Function.update s.up i ((s.up i).drop k) })

/-- `N2NP::Node::eat` of the first `k` bytes. -/
def readDown (s : Stack ι) (i : ι) (k : Nat) (times : List Int) : Option Exn × Stack ι :=
  let h := s.hosts i
  let r := N2NP.Node.eat inet net (Host.modules inet) ((s.down i).take k)
    (h.parser, h.node, times, h.dht)
  (r.1, { s.put net i ⟨r.2.2.2.2, r.2.2.1, r.2.1⟩ with
    down := Function.update s.down i ((s.down i).drop k) })

/-- The hosts and the relay. What the DHT receives it receives from N2NP, and a `send` that throws
ends the run. -/
def machine : Machine (Stack ι) (Event ι) (ι × Output) where
  step s
    | .act i e => if e.isReceive then none else s.act net i e
    | .up i k => some ((s.readUp inet net i k).2, [])
    | .relay k => s.relay.messages[k]?.map fun pkt =>
      (treat net
        { s with relay := { s.relay with messages := s.relay.messages.eraseIdx k } } pkt, [])
    | .down i k times => some ((s.readDown inet net i k times).2, [])

end Stack

/-! ### What is on its way -/

/-- A packet of the DHT that comes through as it was sent. -/
structure Packet.Carriable (dest : NodeId) (pkt : Packet) : Prop where
  dest : dest.Short
  content : pkt.content.Legal
  peers : pkt.content.peerCount < 2 ^ 31
  size : pkt.toGTTPacket.build.length ≤ 2 ^ 30

namespace Deployment
variable {ι : Type*} (D : Deployment ι)

/-- The packets of N2NP that can be on their way: those in which a packet of the DHT was sent, and
acknowledgements. -/
def Posted (log : Log ι) (p : N2NP.Packet) : Prop :=
  p.Light ∧
    ((p.method = lit "DHT" ∧ ∃ i pkt, (i, .send p.to pkt) ∈ log ∧ pkt.Carriable p.to ∧
        p.from = D.n2npId i ∧ p.data = pkt.toGTTPacket.build) ∨
      (p.method = lit "ACK" ∧ ∃ k < 2 ^ 64, p.data = Text.fromUnsignedLong k))

/-- Its GTT form. -/
def OnWay (log : Log ι) (g : GTTPacket) : Prop := ∃ p, D.Posted log p ∧ g = p.toGTT

/-- The buffers that were given to a socket hold such packets. -/
def Written (log : Log ι) (wires : List (Conn × ByteStr)) : Prop :=
  (∀ w ∈ wires, w.2.length < 2 ^ 31) ∧
    ∃ gs : List GTTPacket, (∀ g ∈ gs, D.OnWay log g) ∧
      wires.flatMap Prod.snd = gs.flatMap GTTPacket.build

/-- A stream that a parser eats brings such packets. -/
def Brings (log : Log ι) (parser : GTTParser) (rest : ByteStr) : Prop :=
  ∃ todo, GTTParser.Carries parser rest todo ∧ ∀ g ∈ todo, D.OnWay log g

variable {D} {log log' : Log ι}

theorem Posted.mono {p : N2NP.Packet} (h : D.Posted log p) (hl : log ⊆ log') :
    D.Posted log' p := by
  refine ⟨h.1, h.2.imp_left ?_⟩
  rintro ⟨hmethod, i, pkt, hsent, hrest⟩
  exact ⟨hmethod, i, pkt, hl hsent, hrest⟩

theorem OnWay.mono {g : GTTPacket} (h : D.OnWay log g) (hl : log ⊆ log') : D.OnWay log' g := by
  obtain ⟨p, hp, hg⟩ := h
  exact ⟨p, hp.mono hl, hg⟩

theorem OnWay.wellFormed {g : GTTPacket} (h : D.OnWay log g) : g.WellFormed := by
  obtain ⟨p, hp, rfl⟩ := h
  exact hp.1.legal.toGTT_wellFormed

theorem Brings.mono {parser : GTTParser} {rest : ByteStr} (h : D.Brings log parser rest)
    (hl : log ⊆ log') : D.Brings log' parser rest := by
  obtain ⟨todo, hcarries, htodo⟩ := h
  exact ⟨todo, hcarries, fun g hg => (htodo g hg).mono hl⟩

theorem Written.nil : D.Written log [] :=
  ⟨List.forall_mem_nil _, [], List.forall_mem_nil _, rfl⟩

theorem Written.append {ws ws' : List (Conn × ByteStr)} (h : D.Written log ws)
    (h' : D.Written log ws') : D.Written log (ws ++ ws') := by
  obtain ⟨hlen, gs, hgs, heq⟩ := h
  obtain ⟨hlen', gs', hgs', heq'⟩ := h'
  refine ⟨fun w hw => ?_, gs ++ gs', fun g hg => ?_, ?_⟩
  · exact (List.mem_append.mp hw).elim (hlen w) (hlen' w)
  · exact (List.mem_append.mp hg).elim (hgs g) (hgs' g)
  · rw [List.flatMap_append, List.flatMap_append, heq, heq']

theorem Posted.written {p : N2NP.Packet} (h : D.Posted log p) (sock : Conn) :
    D.Written log [(sock, p.build)] := by
  refine ⟨fun w hw => ?_, [p.toGTT], fun g hg => ?_, ?_⟩
  · rw [List.mem_singleton.mp hw]
    exact h.1.length
  · rw [List.mem_singleton.mp hg]
    exact ⟨p, h, rfl⟩
  · rw [List.flatMap_singleton, List.flatMap_singleton]
    rfl

/-- What is written comes at the end of the stream. -/
theorem Brings.write {net : SendCalls} (hnet : N2NP.Whole net) {parser : GTTParser}
    {rest : ByteStr} (h : D.Brings log parser rest) {wires : List (Conn × ByteStr)}
    (hw : D.Written log wires) (calls : Nat) :
    D.Brings log parser (rest ++ N2NP.Node.accepted net calls wires) := by
  obtain ⟨todo, hcarries, htodo⟩ := h
  obtain ⟨hlen, gs, hgs, heq⟩ := hw
  rw [N2NP.Node.accepted_eq hnet hlen, heq]
  refine ⟨todo ++ gs, hcarries.write fun g hg => (hgs g hg).wellFormed, fun g hg => ?_⟩
  exact (List.mem_append.mp hg).elim (htodo g) (hgs g)

/-- A chunk is read: packets that were on their way are treated one after the other. -/
theorem Brings.eat (τ : Type*) {parser : GTTParser} {rest : ByteStr}
    (h : D.Brings log parser rest) (k : Nat) :
    ∃ os q, (∀ g ∈ os, D.OnWay log g) ∧ D.Brings log q (rest.drop k) ∧
      ∀ (treat : GTTPacket → τ → Option Exn × τ) (t t' : τ),
        GTTParser.treatAll treat os t = (none, t') →
          eatWith treat (rest.take k) (parser, t) = (none, q, t') := by
  obtain ⟨todo, hcarries, htodo⟩ := h
  rw [← List.take_append_drop k rest] at hcarries
  obtain ⟨os, left, q, rfl, hleft, heat⟩ := NetSelectSocket.eatWith_carries hcarries
  refine ⟨os, q, fun g hg => htodo g (List.mem_append_left _ hg), ⟨left, hleft, ?_⟩, heat⟩
  exact fun g hg => htodo g (List.mem_append_right _ hg)

/-! ### What becomes of it -/

/-- A node receives packets that were sent to it. -/
def Receives (D : Deployment ι) (log : Log ι) (i : ι) (n n' : InternalNode) : Prop :=
  ∃ j pkt now, (j, .send (D.n2npId i) pkt) ∈ log ∧
    n' = n.processPacket pkt.carried (D.n2npId j) now

/-- A host treats a packet that was on its way: its DHT receives it, or nothing happens there. -/
theorem Posted.treat {net : SendCalls} (hnet : N2NP.Whole net) (inet : Inet)
    (hshort : ∀ i, (D.n2npId i).Short) {p : N2NP.Packet} (hp : D.Posted log p) {i : ι}
    {n : N2NP.Node} (hn : n.Joined (D.n2npId i)) (times : List Int) (dht : InternalNode) :
    ∃ n' times' dht' ws,
      N2NP.Node.treatPacket inet net (Host.modules inet) p.toGTT (n, times, ⟨.fresh, dht⟩) =
        (none, n', times', ⟨.fresh, dht'⟩) ∧ n'.Joined (D.n2npId i) ∧
      n'.wires = n.wires ++ ws ∧ D.Written log ws ∧
      Relation.ReflTransGen (D.Receives log i) dht dht' := by
  obtain ⟨hlight, hkind⟩ := hp
  have hread := hlight.legal.ofGTT_toGTT inet
  have htreat : ∀ s, N2NP.Node.treatPacket inet net (Host.modules inet) p.toGTT s =
      N2NP.Node.treat inet net (Host.modules inet) p.carried s := fun s => by
    rw [N2NP.Node.treatPacket, hread]
  rw [htreat]
  by_cases hto : p.to = D.n2npId i
  · rcases hkind with ⟨hmethod, j, pkt, hsent, hcarry, hfrom, hdata⟩ | ⟨hmethod, k, hk, hdata⟩
    · have hmodule : Host.modules inet p.carried.method = some fun senderId data s =>
          let r := Node.fromN2NP inet senderId data (s.2.1.headD 0) s.2.2
          (r.1, s.1, s.2.1.tail, r.2) := by
        rw [p.carried_method, Host.modules, if_pos hmethod]
      have hother : p.carried.method ≠ lit "ACK" ∧ p.carried.method ≠ lit "ERR" := by
        rw [p.carried_method, hmethod]
        decide
      have htakes : ∀ n : N2NP.Node,
          (fun (senderId : NodeId) (data : ByteStr) (s : N2NP.Node × List Int × Node) =>
            let r := Node.fromN2NP inet senderId data (s.2.1.headD 0) s.2.2
            (r.1, s.1, s.2.1.tail, r.2)) p.carried.from p.carried.data
              (n, times, ⟨.fresh, dht⟩) =
          (none, n, times.tail,
            ⟨.fresh, dht.processPacket pkt.carried (D.n2npId j) (times.headD 0)⟩) := fun n => by
        rw [show p.carried.data = p.data from rfl, hdata,
          show p.carried.from = p.from from rfl, hfrom]
        simp only [Node.fromN2NP_build inet _ hcarry.content hcarry.peers]
      obtain ⟨n', ack, hnode, hj, hwires, hack, hackMethod, hackData⟩ :=
        hn.treat_module inet (hshort i) hnet (p := p.carried) hto hother
          (show p.from.Short from hlight.from) hmodule htakes
      have hposted : D.Posted log ack :=
        ⟨hack, .inr ⟨hackMethod, _, p.carried.pktID.toNat_lt, hackData⟩⟩
      rw [hto] at hsent
      exact ⟨n', _, _, _, hnode, hj, hwires, hposted.written _, .single ⟨j, pkt, _, hsent, rfl⟩⟩
    · obtain ⟨n', hnode, hj, hwires⟩ := hn.treat_ack net inet (Host.modules inet)
        (p := p.carried) hto hmethod hk hdata (times, ⟨.fresh, dht⟩)
      exact ⟨n', _, _, [], hnode, hj, by rw [hwires, List.append_nil], .nil, .refl⟩
  · have hdrop := hn.treat_other net inet (Host.modules inet) (p := p.carried) hto
      (times, (⟨.fresh, dht⟩ : Node))
    exact ⟨n, times, dht, [], hdrop, hn, (List.append_nil _).symm, .nil, .refl⟩

/-- A host treats what a chunk brings. -/
theorem OnWay.treatAll {net : SendCalls} (hnet : N2NP.Whole net) (inet : Inet)
    (hshort : ∀ i, (D.n2npId i).Short) {os : List GTTPacket} (hos : ∀ g ∈ os, D.OnWay log g)
    {i : ι} {n : N2NP.Node} (hn : n.Joined (D.n2npId i)) (times : List Int)
    (dht : InternalNode) :
    ∃ n' times' dht' ws,
      GTTParser.treatAll (N2NP.Node.treatPacket inet net (Host.modules inet)) os
          (n, times, ⟨.fresh, dht⟩) = (none, n', times', ⟨.fresh, dht'⟩) ∧
      n'.Joined (D.n2npId i) ∧ n'.wires = n.wires ++ ws ∧ D.Written log ws ∧
      Relation.ReflTransGen (D.Receives log i) dht dht' := by
  induction os generalizing n times dht with
  | nil => exact ⟨n, times, dht, [], rfl, hn, (List.append_nil _).symm, .nil, .refl⟩
  | cons g os ih =>
    obtain ⟨p, hp, rfl⟩ := hos g (.head _)
    obtain ⟨n₁, times₁, dht₁, ws₁, htreat, hn₁, hwires₁, hws₁, hrec₁⟩ :=
      hp.treat hnet inet hshort hn times dht
    obtain ⟨n₂, times₂, dht₂, ws₂, hall, hn₂, hwires₂, hws₂, hrec₂⟩ :=
      ih (fun g hg => hos g (.tail _ hg)) hn₁ times₁ dht₁
    refine ⟨n₂, times₂, dht₂, ws₁ ++ ws₂, ?_, hn₂, ?_, hws₁.append hws₂, hrec₁.trans hrec₂⟩
    · rw [GTTParser.treatAll, htreat]
      exact hall
    · rw [hwires₂, hwires₁, List.append_assoc]

/-- The relay posts what a chunk brings to its workers. -/
theorem OnWay.post (inet : Inet) (net : SendCalls) {os : List GTTPacket}
    (hos : ∀ g ∈ os, D.OnWay log g) (t : RelaySocket) :
    ∃ ms, GTTParser.treatAll (RelaySocket.treatPacket inet net) os t =
        (none, { t with relay := { t.relay with messages := t.relay.messages ++ ms } }) ∧
      ∀ m ∈ ms, ∃ p, D.Posted log p ∧ m = p.carried := by
  induction os generalizing t with
  | nil => exact ⟨[], by rw [List.append_nil]; rfl, List.forall_mem_nil _⟩
  | cons g os ih =>
    obtain ⟨p, hp, rfl⟩ := hos g (.head _)
    have hfwd : ¬(p.carried.method = lit "ID" ∧ p.carried.to = t.relay.relayId) := by
      rintro ⟨hid, -⟩
      rw [p.carried_method] at hid
      rcases hp.2 with ⟨hmethod, -⟩ | ⟨hmethod, -⟩ <;> rw [hmethod] at hid <;> revert hid <;> decide
    have hpost := RelaySocket.treatPacket_post inet net (hp.1.legal.ofGTT_toGTT inet) hfwd
    obtain ⟨ms, hall, hms⟩ := ih (fun g hg => hos g (.tail _ hg))
      { t with relay := t.relay.post p.carried }
    refine ⟨p.carried :: ms, ?_, ?_⟩
    · rw [GTTParser.treatAll, hpost]
      simpa [Relay.post, List.append_assoc] using hall
    · intro m hm
      rcases List.mem_cons.mp hm with rfl | hm
      · exact ⟨p, hp, rfl⟩
      · exact hms m hm

/-- What a host sends for its DHT is on its way. -/
theorem Posted.sends {net : SendCalls} (hnet : N2NP.Whole net) (hshort : ∀ i, (D.n2npId i).Short)
    {i : ι} {out : List Output} (hlog : ∀ o ∈ out, (i, o) ∈ log)
    (hcarry : ∀ dest pkt, .send dest pkt ∈ out → pkt.Carriable dest) {n n' : N2NP.Node}
    (hn : n.Joined (D.n2npId i)) (h : Host.sends net out n = some n') :
    n'.Joined (D.n2npId i) ∧ ∃ ws, n'.wires = n.wires ++ ws ∧ D.Written log ws := by
  induction out generalizing n with
  | nil =>
    cases h
    exact ⟨hn, [], (List.append_nil _).symm, .nil⟩
  | cons o out ih =>
    have hrest := fun m (hm : m.Joined (D.n2npId i)) => ih (fun o ho => hlog o (.tail _ ho))
      (fun dest pkt hs => hcarry dest pkt (.tail _ hs)) (n := m) hm
    cases o with
    | send dest pkt =>
      have hc := hcarry dest pkt (.head _)
      have hname : isName (lit "DHT") ∧ (lit "DHT").length ≤ 2 ^ 20 := by decide
      have hne : pkt.toGTTPacket.build ≠ [] := by
        simp [GTTPacket.build, crlf]
      have hgtt : n.sendGTT net dest (lit "DHT") pkt.toGTTPacket =
          n.send net dest (lit "DHT") pkt.toGTTPacket.build true := by
        simp only [N2NP.Node.sendGTT, hne, if_false]
      rw [Host.sends, hgtt] at h
      rcases hn.send (hshort i) hnet hc.dest hname hc.size true with
        ⟨e, n₁, herr, -⟩ | ⟨n₁, hok, hj, hwires⟩
      · rw [herr] at h
        cases h
      · rw [hok] at h
        obtain ⟨hn', ws, hws, hw⟩ := hrest n₁ hj h
        have hposted : D.Posted log (n.outgoing dest (lit "DHT") pkt.toGTTPacket.build) :=
          ⟨hn.outgoing_light (hshort i) hc.dest hname hc.size,
            .inl ⟨rfl, i, pkt, hlog _ (.head _), hc, hn.nodeid, rfl⟩⟩
        exact ⟨hn', _, by rw [hws, hwires, List.append_assoc], (hposted.written n.sock).append hw⟩
    | _ => exact hrest n hn h

end Deployment

/-! ### The steps -/

namespace Stack
variable {ι : Type*} {D : Deployment ι} {log log' : Log ι} {s : Stack ι}

/-- The hosts have their ids, and nothing but such packets is on its way. -/
structure Follows (D : Deployment ι) (log : Log ι) (s : Stack ι) : Prop where
  gttParser : ∀ i, (s.hosts i).dht.gttParser = .fresh
  joined : ∀ i, (s.hosts i).node.Joined (D.n2npId i)
  wires : ∀ i, (s.hosts i).node.wires = []
  up : ∀ i, D.Brings log (s.links i).parser (s.up i)
  down : ∀ i, D.Brings log (s.hosts i).parser (s.down i)
  messages : ∀ m ∈ s.relay.messages, ∃ p, D.Posted log p ∧ m = p.carried

theorem Follows.mono (h : Follows D log s) (hl : log ⊆ log') : Follows D log' s := by
  refine ⟨h.gttParser, h.joined, h.wires, fun i => (h.up i).mono hl, fun i => (h.down i).mono hl,
    fun m hm => ?_⟩
  obtain ⟨p, hp, hpm⟩ := h.messages m hm
  exact ⟨p, hp.mono hl, hpm⟩

/-- The hosts have been attached to the relay, and nothing is on its way. -/
structure Attached (D : Deployment ι) (s : Stack ι) : Prop where
  dht : ∀ i, (s.hosts i).dht = ⟨.fresh, D.init i⟩
  joined : ∀ i, (s.hosts i).node.Joined (D.n2npId i)
  wires : ∀ i, (s.hosts i).node.wires = []
  parser : ∀ i, (s.hosts i).parser = .fresh ∨ (s.hosts i).parser = .waiting
  link : ∀ i, (s.links i).parser = .fresh ∨ (s.links i).parser = .waiting
  messages : s.relay.messages = []
  up : ∀ i, s.up i = []
  down : ∀ i, s.down i = []

theorem Attached.follows (h : Attached D s) : Follows D [] s where
  gttParser i := by rw [h.dht i]
  joined := h.joined
  wires := h.wires
  up i := ⟨[], h.up i ▸ GTTParser.carries_nil (h.link i), List.forall_mem_nil _⟩
  down i := ⟨[], h.down i ▸ GTTParser.carries_nil (h.parser i), List.forall_mem_nil _⟩
  messages m hm := by
    rw [h.messages] at hm
    cases hm

theorem Attached.nodes (h : Attached D s) : s.nodes = D.init :=
  funext fun i => congrArg Node.n (h.dht i)

/-- A worker of the relay sends a packet on. -/
theorem Follows.relay {net : SendCalls} (hnet : N2NP.Whole net) (h : Follows D log s) (k : Nat)
    {m : N2NP.Packet} (hm : s.relay.messages[k]? = some m) :
    Follows D log (treat net
      { s with relay := { s.relay with messages := s.relay.messages.eraseIdx k } } m) := by
  obtain ⟨p, hp, rfl⟩ := h.messages m (List.mem_of_getElem? hm)
  have hleft : ∀ m ∈ s.relay.messages.eraseIdx k, ∃ p, D.Posted log p ∧ m = p.carried :=
    fun m hm => h.messages m (List.mem_of_mem_eraseIdx hm)
  have hbuild : p.carried.build = p.build := by rw [N2NP.Packet.build, p.carried_toGTT]; rfl
  unfold treat
  split
  · rename_i sock bytes hsent
    have hbytes : bytes = p.build := (N2NP.Relay.treat_build hsent).trans hbuild
    have hwire : (Socket.sendBytes net bytes s.calls).wire = p.build := by
      rw [hbytes]
      exact (hnet p.build s.calls hp.1.length).1
    refine ⟨h.gttParser, h.joined, h.wires, h.up, fun i => ?_, hleft⟩
    dsimp only
    split
    · have hwrite := (h.down i).write hnet (hp.written sock) s.calls
      rw [N2NP.Node.accepted_eq hnet (hp.written sock).1, List.flatMap_singleton] at hwrite
      rw [hwire]
      exact hwrite
    · exact h.down i
  · exact ⟨h.gttParser, h.joined, h.wires, h.up, h.down, hleft⟩

variable [DecidableEq ι]

/-- The relay reads a chunk without an exception. -/
theorem Follows.readUp (inet : Inet) (net : SendCalls) (h : Follows D log s) (i : ι) (k : Nat) :
    (s.readUp inet net i k).1 = none ∧ Follows D log (s.readUp inet net i k).2 ∧
      (s.readUp inet net i k).2.hosts = s.hosts := by
  obtain ⟨os, q, hos, hleft, heat⟩ := (h.up i).eat RelaySocket k
  obtain ⟨ms, hall, hms⟩ := Deployment.OnWay.post inet net hos
    ⟨(s.links i).sock, (s.links i).nodeid, s.relay, s.calls⟩
  have hread := heat _ _ _ hall
  unfold Stack.readUp RelaySocket.eat
  dsimp only
  rw [hread]
  refine ⟨rfl, ⟨h.gttParser, h.joined, h.wires, fun j => ?_, h.down, fun m hm => ?_⟩, rfl⟩
  · by_cases hj : j = i
    · subst hj
      simpa only [Function.update_self] using hleft
    · simpa only [Function.update_of_ne hj] using h.up j
  · exact (List.mem_append.mp hm).elim (h.messages m) (hms m)

/-- What a host has written is on its way, whatever else has become of it. -/
theorem Follows.put {net : SendCalls} (hnet : N2NP.Whole net) (h : Follows D log s) {i : ι}
    (host : Host) {ws : List (Conn × ByteStr)} (hparser : host.dht.gttParser = .fresh)
    (hjoined : host.node.Joined (D.n2npId i))
    (hwires : host.node.wires = (s.hosts i).node.wires ++ ws) (hws : D.Written log ws)
    {down : ι → ByteStr} (hdown : ∀ j ≠ i, down j = s.down j)
    (hself : D.Brings log host.parser (down i)) :
    Follows D log { s.put net i host with down := down } := by
  rw [h.wires i, List.nil_append] at hwires
  refine ⟨fun j => ?_, fun j => ?_, fun j => ?_, fun j => ?_, fun j => ?_, h.messages⟩
  all_goals
    unfold Stack.put
    dsimp only
    by_cases hj : j = i
  · subst hj
    rwa [Function.update_self]
  · rw [Function.update_of_ne hj]
    exact h.gttParser j
  · subst hj
    rw [Function.update_self]
    exact ⟨hjoined.nodeid, hjoined.hasId, hjoined.direct⟩
  · rw [Function.update_of_ne hj]
    exact h.joined j
  · subst hj
    rw [Function.update_self]
  · rw [Function.update_of_ne hj]
    exact h.wires j
  · subst hj
    rw [Function.update_self, hwires]
    exact (h.up j).write hnet hws _
  · rw [Function.update_of_ne hj]
    exact h.up j
  · subst hj
    rwa [Function.update_self]
  · rw [Function.update_of_ne hj, hdown j hj]
    exact h.down j

/-- A host reads a chunk without an exception: its DHT receives packets that were sent to it. -/
theorem Follows.readDown (inet : Inet) {net : SendCalls} (hnet : N2NP.Whole net)
    (hshort : ∀ i, (D.n2npId i).Short) (h : Follows D log s) (i : ι) (k : Nat)
    (times : List Int) :
    (s.readDown inet net i k times).1 = none ∧
      Follows D log (s.readDown inet net i k times).2 ∧
      ∃ n, Relation.ReflTransGen (D.Receives log i) (s.nodes i) n ∧
        (s.readDown inet net i k times).2.nodes = Function.update s.nodes i n := by
  have hdht : (s.hosts i).dht = ⟨.fresh, s.nodes i⟩ := by
    rw [← h.gttParser i]
    rfl
  obtain ⟨os, q, hos, hleft, heat⟩ := (h.down i).eat (N2NP.Node × List Int × Node) k
  obtain ⟨n', times', dht', ws, hall, hn', hwires, hws, hrec⟩ :=
    Deployment.OnWay.treatAll hnet inet hshort hos (h.joined i) times (s.nodes i)
  have hread := heat _ _ _ hall
  unfold Stack.readDown N2NP.Node.eat
  dsimp only
  rw [hdht, hread]
  refine ⟨rfl, h.put hnet ⟨⟨.fresh, dht'⟩, n', q⟩ rfl hn' hwires hws
    (fun j hj => Function.update_of_ne hj _ _) ?_, dht', hrec, ?_⟩
  · rw [Function.update_self]
    exact hleft
  · funext j
    unfold nodes Stack.put
    dsimp only
    by_cases hj : j = i
    · subst hj
      rw [Function.update_self, Function.update_self]
    · rw [Function.update_of_ne hj, Function.update_of_ne hj]

/-- A host does something by itself: what its DHT sends is on its way. -/
theorem Follows.act {net : SendCalls} (hnet : N2NP.Whole net)
    (hshort : ∀ i, (D.n2npId i).Short) (h : Follows D log s) {i : ι} {e : InternalNode.Event}
    {s' : Stack ι} {out : List (ι × Output)} (hs : s.act net i e = some (s', out)) :
    Deployment.network.step s.nodes (i, e) = some (s'.nodes, out) ∧
      ((∀ dest pkt, (i, .send dest pkt) ∈ out → pkt.Carriable dest) →
        Follows D (log ++ out) s') := by
  obtain ⟨⟨n, o⟩, hn, hs⟩ := Option.bind_eq_some_iff.mp hs
  obtain ⟨node, hnode, heq⟩ := Option.map_eq_some_iff.mp hs
  cases heq
  refine ⟨?_, fun hcarry => ?_⟩
  · show (Option.map _ (InternalNode.machine.step (s.nodes i) e)) = _
    rw [show s.nodes i = (s.hosts i).dht.n from rfl, hn]
    refine congrArg some (Prod.ext ?_ rfl)
    funext j
    unfold nodes Stack.put
    dsimp only
    by_cases hj : j = i
    · subst hj
      rw [Function.update_self, Function.update_self]
    · rw [Function.update_of_ne hj, Function.update_of_ne hj]
  · have hgrown := h.mono (List.subset_append_left log (o.map (i, ·)))
    have hlog : ∀ x ∈ o, (i, x) ∈ log ++ o.map (i, ·) := fun x hx =>
      List.mem_append_right _ (List.mem_map_of_mem hx)
    obtain ⟨hjoined, ws, hwires, hws⟩ := Deployment.Posted.sends hnet hshort hlog
      (fun dest pkt hsent => hcarry dest pkt (List.mem_map_of_mem hsent)) (h.joined i) hnode
    exact hgrown.put hnet ⟨{ (s.hosts i).dht with n := n }, node, (s.hosts i).parser⟩
      (h.gttParser i) hjoined hwires hws (fun j _ => rfl) (hgrown.down i)

/-! ### The runs -/

/-- A node that receives a packet puts nothing out. -/
theorem processPacket_out (n : InternalNode) (pkt : Packet)
    (senderId : NodeId) (now : Int) : (n.processPacket pkt senderId now).out = n.out := by
  have hdispatch : ∀ (m : InternalNode) (sender : SPtr) (answer : Answer),
      (m.dispatchToProcessActor sender answer).out = m.out := fun m sender answer => by
    unfold InternalNode.dispatchToProcessActor
    split <;> rfl
  unfold InternalNode.processPacket
  cases pkt.content with
  | got connectionId status value => exact hdispatch _ _ _
  | stored connectionId status => exact hdispatch _ _ _
  | found connectionId status count foundPeers => exact hdispatch _ _ _
  | _ => rfl

/-- What the hosts may do by themselves. -/
abbrev Policy (ι : Type*) := (ι → InternalNode) → Log ι → ι × InternalNode.Event → Prop

/-- The network delivers what was sent, and the hosts do what they may. -/
def Works (D : Deployment ι) (P : Policy ι) (t : ι → InternalNode) (log : Log ι)
    (e : ι × InternalNode.Event) : Prop :=
  D.Delivers log e ∧ (e.2.isReceive = false → P t log e)

/-- The chunks, and the order in which the relay works, are anyone's choice. -/
def Event.Allowed (P : Policy ι) (s : Stack ι) (log : Log ι) : Event ι → Prop
  | .act i e => P s.nodes log (i, e)
  | _ => True

theorem Works.delivers {P : Policy ι} {t : ι → InternalNode}
    (run : Deployment.network.Run (Works D P) D.init t log) :
    Deployment.network.Run (fun _ log e => D.Delivers log e) D.init t log :=
  run.mono fun _ _ _ h => h.1

/-- The network delivers packets one after the other. -/
theorem run_receives {P : Policy ι} {t : ι → InternalNode}
    (run : Deployment.network.Run (Works D P) D.init t log) {i : ι}
    {n : InternalNode} (hrec : Relation.ReflTransGen (D.Receives log i) (t i) n) :
    Deployment.network.Run (Works D P) D.init (Function.update t i n) log := by
  induction hrec with
  | refl => rwa [Function.update_eq_self]
  | @tail n₁ n₂ _ hstep ih =>
    obtain ⟨j, pkt, now, hsent, rfl⟩ := hstep
    have hout : n₁.out = [] := by
      have h := ((Deployment.sound_of_run (Works.delivers ih)).2 i).2
      rwa [Function.update_self] at h
    have hnext : (n₁.processPacket pkt.carried (D.n2npId j) now).out = [] :=
      (processPacket_out n₁ _ _ _).trans hout
    have hone : InternalNode.machine.step n₁
        (.receive pkt.carried (D.n2npId j) now) =
        some (n₁.processPacket pkt.carried (D.n2npId j) now, []) := by
      simp only [InternalNode.machine, InternalNode.handle, Option.map_some, hnext]
      rw [← hnext]
    have htaken : Deployment.network.step (Function.update t i n₁)
        (i, .receive pkt.carried (D.n2npId j) now) =
        some (Function.update t i (n₁.processPacket pkt.carried (D.n2npId j) now), []) := by
      simp only [Deployment.network, Machine.family, Function.update_self, hone, Option.map_some,
        List.map_nil, Function.update_idem]
    have hallowed : Works D P (Function.update t i n₁) log
        (i, .receive pkt.carried (D.n2npId j) now) :=
      ⟨⟨j, pkt, hsent, rfl, rfl⟩, fun h => by cases h⟩
    have hreceived := ih.step hallowed htaken
    rwa [List.append_nil] at hreceived

/-- One step of the hosts and the relay is some steps of the network, or none. -/
theorem Follows.step {P : Policy ι} {inet : Inet}
    {net : SendCalls} (hnet : N2NP.Whole net) (hshort : ∀ i, (D.n2npId i).Short)
    (h : Follows D log s)
    (run : Deployment.network.Run (Works D P) D.init s.nodes log) {e : Event ι}
    (he : e.Allowed P s log) {s' : Stack ι} {out : List (ι × Output)}
    (taken : (machine inet net).step s e = some (s', out)) :
    Deployment.network.Run (Works D P) D.init s'.nodes (log ++ out) ∧
      ((∀ i dest pkt, (i, .send dest pkt) ∈ out → pkt.Carriable dest) →
        Follows D (log ++ out) s') := by
  cases e with
  | act i e =>
    have taken : (if e.isReceive then none else s.act net i e) = some (s', out) := taken
    by_cases hreceive : e.isReceive
    · rw [if_pos hreceive] at taken
      cases taken
    · rw [if_neg hreceive] at taken
      obtain ⟨hstep, hfollows⟩ := h.act hnet hshort taken
      have hdelivers : D.Delivers log (i, e) := by
        cases e with
        | receive pkt senderId now => exact absurd rfl hreceive
        | _ => trivial
      exact ⟨run.step ⟨hdelivers, fun _ => he⟩ hstep, fun hcarry => hfollows fun dest pkt =>
        hcarry i dest pkt⟩
  | up i k =>
    cases taken
    obtain ⟨-, hfollows, hhosts⟩ := h.readUp inet net i k
    have hnodes : (s.readUp inet net i k).2.nodes = s.nodes := by
      unfold nodes
      rw [hhosts]
    rw [List.append_nil, hnodes]
    exact ⟨run, fun _ => hfollows⟩
  | relay k =>
    obtain ⟨m, hm, heq⟩ := Option.map_eq_some_iff.mp taken
    cases heq
    rw [List.append_nil]
    refine ⟨?_, fun _ => h.relay hnet k hm⟩
    unfold treat
    split <;> exact run
  | down i k times =>
    cases taken
    obtain ⟨-, hfollows, n, hrec, hnodes⟩ := h.readDown inet hnet hshort i k times
    rw [List.append_nil, hnodes]
    exact ⟨run_receives run hrec, fun _ => hfollows⟩

/-- No `eat` throws. -/
theorem Follows.eats (h : Follows D log s) (inet : Inet) {net : SendCalls}
    (hnet : N2NP.Whole net) (hshort : ∀ i, (D.n2npId i).Short) (i : ι) (k : Nat) :
    (s.readUp inet net i k).1 = none ∧ ∀ times, (s.readDown inet net i k times).1 = none :=
  ⟨(h.readUp inet net i k).1, fun times => (h.readDown inet hnet hshort i k times).1⟩

/-- Whatever chunks the streams are read in and whatever order the relay works in, what the hosts
do is what the nodes of the network do, as long as what they send can be carried; and no `eat`
throws. -/
theorem network_of_run {P : Policy ι} {inet : Inet} {net : SendCalls}
    (hnet : N2NP.Whole net) (hshort : ∀ i, (D.n2npId i).Short) {s₀ : Stack ι}
    (hattached : Attached D s₀)
    (run : (machine inet net).Run (fun s log e => e.Allowed P s log) s₀ s log)
    (hcarry : ∀ i dest pkt, (i, .send dest pkt) ∈ log → pkt.Carriable dest) :
    Deployment.network.Run (Works D P) D.init s.nodes log ∧
      ∀ i k, (s.readUp inet net i k).1 = none ∧
        ∀ times, (s.readDown inet net i k times).1 = none := by
  have hboth : Deployment.network.Run (Works D P) D.init s.nodes log ∧
      Follows D log s := by
    induction run with
    | start => exact ⟨hattached.nodes ▸ .start, hattached.follows⟩
    | step run allowed taken ih =>
      obtain ⟨hrun, hfollows⟩ := ih fun i dest pkt hsent =>
        hcarry i dest pkt (List.mem_append_left _ hsent)
      obtain ⟨hnext, hnew⟩ := hfollows.step hnet hshort hrun allowed taken
      exact ⟨hnext, hnew fun i dest pkt hsent => hcarry i dest pkt (List.mem_append_right _ hsent)⟩
  obtain ⟨hrun, hfollows⟩ := hboth
  exact ⟨hrun, hfollows.eats inet hnet hshort⟩

/-- Two hosts that have been attached. -/
def pair : Stack Bool where
  hosts b := ⟨⟨.fresh, Deployment.pair.init b⟩,
    { N2NP.Node.blank ⟨3, Relay.home⟩ with nodeid := Deployment.pair.n2npId b, hasId := true },
    .waiting⟩
  links b := ⟨.waiting, ⟨if b then 6 else 5, Relay.client.address⟩, Deployment.pair.n2npId b⟩
  relay := { Relay.new Relay.home with
    nodes := (∅ : Std.ExtTreeMap ByteStr N2NP.NodeInfo).insert
      (Deployment.pair.n2npId false).name
      ⟨Deployment.pair.n2npId false, ⟨5, Relay.client.address⟩⟩ }
  calls := 0
  up _ := []
  down _ := []

theorem pair_attached : Attached Deployment.pair pair :=
  ⟨fun _ => rfl, fun _ => ⟨rfl, rfl, rfl⟩, fun _ => rfl, fun _ => .inr rfl, fun _ => .inr rfl, rfl,
    fun _ => rfl, fun _ => rfl⟩

theorem pair_short (b : Bool) : (Deployment.pair.n2npId b).Short := by
  have hip : IsIPv4 (lit "10.0.0.1") := ⟨⟨10, 0, 0, 1⟩, by decide⟩
  cases b
  · exact ⟨⟨by decide, by decide, by decide, rfl, hip⟩, by decide +kernel⟩
  · exact ⟨⟨by decide, by decide, by decide, rfl, hip⟩, by decide +kernel⟩

/-- A ping that comes to the other host in two chunks. -/
def pinged : List (Event Bool) :=
  [.act true (.sendPing (Deployment.pair.n2npId false)), .up true 1000, .relay 0,
    .down false 40 [], .down false 1000 [5]]

theorem network_of_run_pair :
    ∃ s log, (machine Inet.zero fun _ n => .ok n).Run
        (fun s log e => e.Allowed (fun _ _ _ => True) s log) pair s log ∧
      (s.nodes false).messages = [.ping 0] ∧
      Deployment.network.Run (Works Deployment.pair fun _ _ _ => True)
        Deployment.pair.init s.nodes log := by
  have h : ((machine Inet.zero fun _ n => .ok n).exec (fun _ _ _ => true)
      (pair, []) pinged).map (fun r => ((r.1.nodes false).messages, r.2)) =
      some ([.ping 0],
        [(true, .send (Deployment.pair.n2npId false) ⟨Deployment.pair.id true, .ping⟩)]) := by
    decide +kernel
  obtain ⟨⟨s, log⟩, hrun, hend⟩ := Option.map_eq_some_iff.mp h
  obtain ⟨hmessages, hlog⟩ : (s.nodes false).messages = _ ∧ log = _ := Prod.mk.inj hend
  have run : (machine Inet.zero fun _ n => .ok n).Run
      (fun s log e => e.Allowed (fun _ _ _ => True) s log) pair s log :=
    (Machine.Run.exec .start hrun).mono fun s log e _ => by cases e <;> trivial
  refine ⟨s, log, run, hmessages, (network_of_run N2NP.whole_ok pair_short pair_attached run ?_).1⟩
  intro i dest pkt hsent
  rw [hlog, List.mem_singleton] at hsent
  cases hsent
  exact ⟨pair_short false, trivial, by decide, by decide +kernel⟩

end Stack
end Epyx.DHT
