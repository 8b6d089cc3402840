import Epyx.DHT.Id
import Epyx.N2NP.NodeId

/-! `dht/peer.cpp` and `dht/packet.cpp`: the packets of the DHT and their GTT form. -/
namespace Epyx.DHT
open N2NP (NodeId)

/-- A peer as packets carry it. -/
structure Peer where
  id : Id
  n2npId : NodeId
  deriving DecidableEq, Repr

def Peer.serialize (p : Peer) : ByteStr := p.n2npId.print ++ 37 :: p.id.print

/-- `Peer::unserialize`: the peer, and what is left of the stream. -/
def Peer.unserialize (inet : Inet) (s : ByteStr) : Except Exn (Peer × ByteStr) :=
  (NodeId.ofString inet (s.takeWhile (· != 37))).map fun n2npId =>
    let r := Id.read ((s.dropWhile (· != 37)).drop 1)
    (⟨r.1, n2npId⟩, r.2)

/-- A peer of a small network. -/
def Peer.numbered (b : Byte) : Peer :=
  ⟨⟨b :: List.replicate 31 0, by simp⟩, [110 + b], ⟨lit "10.0.0.1", 4⟩, 4242⟩

/-- What a packet carries besides its sender. The source keeps all fields in one class; each method
has its own here. -/
inductive Content where
  | ping
  | pong
  | store (connectionId : Int32) (key value : ByteStr)
  | stored (connectionId status : Int32)
  | get (connectionId : Int32) (key : ByteStr)
  | got (connectionId status : Int32) (value : ByteStr)
  | find (connectionId count : Int32) (idToFind : Id)
  | found (connectionId status count : Int32) (foundPeers : List Peer)
  deriving DecidableEq, Repr

structure Packet where
  «from» : Id
  content : Content
  deriving DecidableEq, Repr

namespace Packet

/-- `pkt.headers["name"]`, behind the test whose `throw;` has no exception to throw again. -/
def header (pkt : GTTPacket) (name : String) : Except Exn ByteStr :=
  match pkt.headers[lit name]? with
  | some v => .ok v
  | none => .error .terminate

/-- `String::toInt`, stored in an `int`. -/
def int (text : ByteStr) : Except Exn Int32 := (Text.toInt text).map Int32.ofInt

/-- The loop that reads the peers of a FOUND. -/
def readPeers (inet : Inet) : Nat → ByteStr → Except Exn (List Peer)
  | 0, _ => .ok []
  | n + 1, ssdata => do
    let (p, ssdata) ← Peer.unserialize inet ssdata
    let peers ← readPeers inet n ssdata
    return p :: peers

/-- `getValueFromGTT`, of a packet with a status. -/
def valueOf (status : Int32) (body : ByteStr) : ByteStr := if status = 0 then body else []

/-- What follows the method in `Packet::Packet(pkt)`. -/
def readContent (inet : Inet) (pkt : GTTPacket) : Except Exn Content :=
  if pkt.method = lit "PING" then .ok .ping
  else if pkt.method = lit "PONG" then .ok .pong
  else if pkt.method = lit "STORE" then do
    let connectionid ← header pkt "connectionid"
    let key ← header pkt "key"
    return .store (← int connectionid) key pkt.body
  else if pkt.method = lit "STORED" then do
    let connectionid ← header pkt "connectionid"
    let status ← header pkt "status"
    return .stored (← int connectionid) (← int status)
  else if pkt.method = lit "GET" then do
    let connectionid ← header pkt "connectionid"
    let key ← header pkt "key"
    return .get (← int connectionid) key
  else if pkt.method = lit "GOT" then do
    let connectionid ← header pkt "connectionid"
    let status ← header pkt "status"
    let connectionId ← int connectionid
    let status ← int status
    return .got connectionId status (valueOf status pkt.body)
  else if pkt.method = lit "FIND" then do
    let connectionid ← header pkt "connectionid"
    let count ← header pkt "count"
    let target ← header pkt "target"
    return .find (← int connectionid) (← int count) (Id.read target).1
  else if pkt.method = lit "FOUND" then do
    let connectionid ← header pkt "connectionid"
    let count ← header pkt "count"
    let status ← header pkt "status"
    if pkt.body = [] then .error .terminate
    else do
      let status ← int status
      let connectionId ← int connectionid
      let count ← int count
      let foundPeers ← readPeers inet count.toInt.toNat (valueOf status pkt.body)
      return .found connectionId status count foundPeers
  else .error .terminate

/-- `Packet::Packet(pkt)` -/
def ofGTT (inet : Inet) (pkt : GTTPacket) : Except Exn Packet := do
  let «from» ← header pkt "from"
  return ⟨(Id.read «from»).1, ← readContent inet pkt⟩

/-- The method, headers and body `toGTTPacket` writes for a content. A FOUND counts its peers. -/
def writeContent (headers : Headers) : Content → ByteStr × Headers × ByteStr
  | .ping => (lit "PING", headers, [])
  | .pong => (lit "PONG", headers, [])
  | .store connectionId key value =>
    (lit "STORE", headers.insert (lit "key") key
      |>.insert (lit "connectionid") (Text.fromInt connectionId.toInt), value)
  | .stored connectionId status =>
    (lit "STORED", headers.insert (lit "connectionid") (Text.fromInt connectionId.toInt)
      |>.insert (lit "status") (Text.fromInt status.toInt), [])
  | .get connectionId key =>
    (lit "GET", headers.insert (lit "key") key
      |>.insert (lit "connectionid") (Text.fromInt connectionId.toInt), [])
  | .got connectionId status value =>
    (lit "GOT", headers.insert (lit "connectionid") (Text.fromInt connectionId.toInt)
      |>.insert (lit "status") (Text.fromInt status.toInt), valueOf status value)
  | .find connectionId count idToFind =>
    (lit "FIND", headers.insert (lit "connectionid") (Text.fromInt connectionId.toInt)
      |>.insert (lit "count") (Text.fromInt count.toInt)
      |>.insert (lit "target") idToFind.print, [])
  | .found connectionId status _ foundPeers =>
    (lit "FOUND", headers.insert (lit "connectionid") (Text.fromInt connectionId.toInt)
      |>.insert (lit "count") (Text.fromInt (Int32.ofNat foundPeers.length).toInt)
      |>.insert (lit "status") (Text.fromInt status.toInt),
      valueOf status (foundPeers.flatMap Peer.serialize))

def toGTTPacket (p : Packet) : GTTPacket :=
  let w := writeContent ((∅ : Headers).insert (lit "from") p.from.print) p.content
  ⟨lit "DHT", w.1, w.2.1, w.2.2⟩

end Packet
end Epyx.DHT
