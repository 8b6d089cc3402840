import Epyx.N2NP.Packet
import Epyx.N2NP.Relay

/-! `n2np/node.cpp`: a node sends packets by the best socket it has and gives those it receives to
its modules. -/
namespace Epyx.N2NP

/-- A node besides its parser. A direct socket can be null; `wires` is what has been given to the
sockets, and `calls` the number of `send`s made for it. -/
structure Node where
  sock : Conn
  nodeid : NodeId
  hasId : Bool
  nodeAddressFromRelay : SockAddress
  mruNodeIds : Std.ExtTreeMap NodeId UInt32
  curId : UInt64
  sentMap : Std.ExtTreeMap UInt64 Packet
  directSockets : Std.ExtTreeMap NodeId (Option Conn)
  calls : Nat
  wires : List (Conn × ByteStr)
  deriving DecidableEq

/-- The modules of a node by their method, over the state `μ` they keep: `Module::fromN2NP` may
use the node and may throw. A method bound to a null pointer has no module. -/
abbrev Modules (μ : Type*) :=
  ByteStr → Option (NodeId → ByteStr → Node × μ → Option Exn × Node × μ)

namespace Node

/-- `data.size() > 1000 ? 1000 : data.size()` added to the weight of a node id. -/
def weigh (n : Node) (id : NodeId) (data : ByteStr) : Node :=
  let weight := UInt32.ofNat (if data.length > 1000 then 1000 else data.length)
  { n with mruNodeIds := n.mruNodeIds.insert id ((n.mruNodeIds[id]?).getD 0 + weight) }

@[simp] theorem weigh_calls (n : Node) (id : NodeId) (data : ByteStr) :
    (n.weigh id data).calls = n.calls := rfl

/-- The socket `Node::send` selects: a direct one, one to the relay of the destination, or the
one to its own relay. -/
def select (n : Node) (dest : NodeId) : Option Conn :=
  match n.directSockets[dest]? with
  | some sock => sock
  | none =>
    match n.directSockets[(⟨[], dest.relay⟩ : NodeId)]? with
    | some sock => sock
    | none => some n.sock

/-- The packet `Node::send` makes. -/
def outgoing (n : Node) (dest : NodeId) (method data : ByteStr) : Packet :=
  { Packet.new method data with «from» := n.nodeid, «to» := dest, pktID := n.curId }

/-- The end of `Node::send`: write a packet on a socket. -/
def write (net : SendCalls) (n : Node) (sock : Conn) (pkt : Packet) : Except Exn Bool × Node :=
  let sent := Socket.sendBytes net pkt.build n.calls
  (sent.result, { n with calls := sent.calls, wires := n.wires ++ [(sock, pkt.build)] })

theorem write_fst {net : SendCalls} {n : Node} {pkt : Packet} {sent : Sent}
    (h : Socket.sendBytes net pkt.build n.calls = sent) (sock : Conn) :
    (n.write net sock pkt).1 = sent.result := by
  unfold write
  rw [h]

def send (net : SendCalls) (n : Node) (dest : NodeId) (method data : ByteStr) (store : Bool) :
    Except Exn Bool × Node :=
  if method ≠ lit "ID" ∧ ¬n.hasId then (.error (assertFailed "hasId"), n)
  else
    let pkt := n.outgoing dest method data
    let n := { n with curId := n.curId + 1 }
    if store ∧ pkt.pktID ∈ n.sentMap then
      (.error (.fail "N2NP::Node" "Duplicate packet ID while sending"), n)
    else
      let n := if store then { n with sentMap := n.sentMap.insert pkt.pktID pkt } else n
      let n := n.weigh dest data
      match n.select dest with
      | none => (.error (assertFailed "selected != __null"), n)
      | some sock => n.write net sock pkt

def sendAck (net : SendCalls) (n : Node) (pkt : Packet) : Except Exn Bool × Node :=
  n.send net pkt.from (lit "ACK") (Text.fromUnsignedLong pkt.pktID.toNat) false

def sendErr (net : SendCalls) (n : Node) (pkt : Packet) : Except Exn Bool × Node :=
  n.send net pkt.from (lit "ERR") (Text.fromUnsignedLong pkt.pktID.toNat) false

/-- The lines a line parser pops, `while (parser.popLine(line))`. -/
def popLines (p : LineParser) : List ByteStr :=
  match _h : p.popLine with
  | none => []
  | some (line, p') => line :: popLines p'
termination_by p.buffer.length
decreasing_by exact LineParser.popLine_lt ‹_›

theorem popLines_some {p p' : LineParser} {line : ByteStr} (h : p.popLine = some (line, p')) :
    popLines p = line :: popLines p' := by
  rw [popLines]
  split
  · rename_i hnone
    rw [h] at hnone
    cases hnone
  · rename_i hsome
    rw [h] at hsome
    cases hsome
    rfl

theorem popLines_none {p : LineParser} (h : p.popLine = none) : popLines p = [] := by
  rw [popLines]
  split
  · rfl
  · rename_i hsome
    rw [h] at hsome
    cases hsome

/-- The value of an `ip:` line of the data of an ID packet. -/
def ipLine (line : ByteStr) : Option ByteStr :=
  let line := Text.trim line
  match line.dropWhile (· != 58) with
  | [] => none
  | _ :: value =>
    let name := Text.toLower (Text.trim (line.takeWhile (· != 58)))
    if name = lit "ip" then some (Text.trim value) else none

/-- The values of the `ip:` lines of an ID packet. -/
def ipLines (data : ByteStr) : List ByteStr :=
  (popLines ((LineParser.reset.push data).push crlf)).filterMap ipLine

variable {μ : Type*} (inet : Inet) (net : SendCalls) (modules : Modules μ)

/-- Set the address the relay has seen from each `ip:` line in turn. -/
def setAddress : List ByteStr → Node → Option Exn × Node
  | [], n => (none, n)
  | value :: values, n =>
    match SockAddress.ofString inet value with
    | .error e => (some e, n)
    | .ok addr => setAddress values { n with nodeAddressFromRelay := addr }

/-- The module call of `Node::treat` and the acknowledgement after it: only a `MinorException` of
the module is caught. -/
def callModule (module : NodeId → ByteStr → Node × μ → Option Exn × Node × μ) (pkt : Packet)
    (s : Node × μ) : Option Exn × Node × μ :=
  match module pkt.from pkt.data s with
  | (some e, s) =>
    if e.isMinor then
      let r := s.1.sendAck net pkt
      (thrown r.1, r.2, s.2)
    else (some e, s)
  | (none, s) =>
    let r := s.1.sendAck net pkt
    (thrown r.1, r.2, s.2)

def treat (pkt : Packet) (s : Node × μ) : Option Exn × Node × μ :=
  let n := s.1
  if ¬n.hasId then
    if pkt.method ≠ lit "ID" then (none, s)
    else
      let r := setAddress inet (ipLines pkt.data) { n with nodeid := pkt.to, hasId := true }
      (r.1, r.2, s.2)
  else if pkt.to.compare n.nodeid ≠ .eq then (none, s)
  else if pkt.method = lit "ACK" then
    match Text.toULong pkt.data with
    | .error e => (some e, s)
    | .ok idAcked =>
      (none, { n with sentMap := n.sentMap.erase (UInt64.ofNat idAcked) }, s.2)
  else if pkt.method = lit "ERR" then (none, s)
  else
    let n := n.weigh pkt.from pkt.data
    match modules pkt.method with
    | none =>
      let r := n.sendErr net pkt
      (thrown r.1, r.2, s.2)
    | some module => callModule net module pkt (n, s.2)

/-- The loop body of `Node::eat`. -/
def treatPacket (gttpkt : GTTPacket) (s : Node × μ) : Option Exn × Node × μ :=
  match Packet.ofGTT inet gttpkt with
  | .error e => (some e, s)
  | .ok n2nppkt => treat inet net modules n2nppkt s

def eat : ByteStr → GTTParser × Node × μ → Option Exn × GTTParser × Node × μ :=
  eatWith (treatPacket inet net modules)

end Node
end Epyx.N2NP
