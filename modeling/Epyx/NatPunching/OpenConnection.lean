import Epyx.N2NP.Node

/-! `natpunching/openconnection.cpp`, `natpunching/listener.cpp` and `natpunching/dispatcher.cpp`: a
direct connection to another node is opened by the two ends in turn. -/
namespace Epyx.DirectConnection
open N2NP (NodeId Node Conn)

inductive State where
  | client
  | server
  deriving DecidableEq, Repr

inductive Method where
  | direct
  | upnp
  deriving DecidableEq, Repr

structure OpenConnection where
  remoteHost : NodeId
  etat : State
  client_tried : Bool
  server_tried : Bool
  tested_method : Method
  socket : Option Conn
  deriving DecidableEq, Repr

/-- What the operating system and the gateway answer while a message is treated. -/
structure World where
  /-- `pthread_create` -/
  spawn : Bool
  /-- the descriptor `::socket` gives -/
  socket : Option Nat
  /-- `TCPSocket::send` to an address, which connects first if it has to -/
  tcp : SockAddress → SendCalls
  /-- the descriptor `TCPServer::TCPServer` listens on, when it gets one -/
  server : Except Exn (Option Nat)
  /-- what `SockAddress` makes of the address that `::accept` gives; until somebody has connected
  there is none -/
  accept : Option (Except Exn SockAddress)
  /-- `::getsockname`, of a descriptor -/
  sockname : Nat → SockAddress
  /-- `Natpunch::openMapPort` -/
  openMapPort : UInt16 → Except Exn SockAddress
  /-- `::recv` on a descriptor, when it does not fail -/
  recv : Nat → Option ByteStr
  /-- it fails on a descriptor that listens -/
  recv_server : ∀ fd, server = .ok (some fd) → recv fd = none

/-- The listener's server, by its descriptor, and what its thread has made. -/
structure Listener where
  srv : Option Nat
  sock : Option Conn
  hasAccept : Bool
  deriving DecidableEq, Repr

namespace Listener
variable (world : World)

/-- `Listener::run`, as far as it has come when the socket is asked for. What `::accept` returns is
dropped: the socket gets the descriptor of the server. An exception ends the thread. -/
def run (l : Listener) : Listener :=
  match world.accept with
  | none => l
  | some (.error _) => { l with hasAccept := true }
  | some (.ok clientAddr) =>
    { l with hasAccept := true, sock := l.srv.map fun newfd => ⟨newfd, clientAddr⟩ }

/-- `Listener::getLocalAddress` -/
def getLocalAddress (l : Listener) : Except Exn SockAddress :=
  match l.sock with
  | none => .error .nullPointer
  | some sock => .ok (world.sockname sock.fd)

/-- `getSocket()->recv` -/
def recv (l : Listener) : Except Exn ByteStr :=
  match l.sock with
  | none => .error .nullPointer
  | some sock =>
    match world.recv sock.fd with
    | none => .error (.err "Socket" "recv")
    | some data => .ok data

/-- What `serverStateOpen` reads of whoever has connected. -/
def received (l : Listener) : Except Exn ByteStr := if l.hasAccept then l.recv world else .ok []

/-- Whatever socket the thread has made, it is one over the descriptor of the server. -/
theorem run_sock {world : World} {srv : Option Nat} {sock : Conn}
    (h : ((Listener.mk srv none false).run world).sock = some sock) :
    ((Listener.mk srv none false).run world).hasAccept ∧ srv = some sock.fd := by
  unfold run at h ⊢
  split at h
  · cases h
  · cases h
  · obtain ⟨fd, rfl, rfl⟩ := Option.map_eq_some_iff.mp h
    exact ⟨rfl, rfl⟩

end Listener

namespace OpenConnection

/-- `OpenConnection::OpenConnection`, as a client. -/
def new (remoteHost : NodeId) : OpenConnection :=
  ⟨remoteHost, .client, false, false, .direct, none⟩

/-- A message of this protocol; its packets have no protocol name. -/
def message (method : String) (headers : Headers) : GTTPacket := ⟨[], lit method, headers, []⟩

/-- `N2NP::Node::send` of a GTT packet. -/
def send (net : SendCalls) (n : Node) (oc : OpenConnection) (pkt : GTTPacket) :
    Except Exn Bool × Node :=
  n.send net oc.remoteHost (lit "DIRECTCONNECTION") pkt.build true

/-- `node->offerDirectConn(remoteHost, std::move(socket))`. The pointer to a `TCPSocket` is moved
into a pointer to a `Socket`, and that one is swapped. -/
def offerDirectConn (n : Node) (oc : OpenConnection) : Node × OpenConnection :=
  ({ n with directSockets := n.directSockets.insert oc.remoteHost oc.socket },
    { oc with socket := none })

/-- `TCPSocket::TCPSocket(addr)`, which connects: `getSockAddr` needs the version of the ip. -/
def connect (world : World) (addr : SockAddress) : Except Exn Conn :=
  match world.socket with
  | none => .ok ⟨0, addr⟩
  | some fd =>
    if ¬addr.ip.ipVersion > 0 then .error (assertFailed "this->ipVersion > 0")
    else if addr.ip.ipVersion = 4 ∨ addr.ip.ipVersion = 6 then .ok ⟨fd, addr⟩
    else .error (.fail "IpAddress" "Bad IP Version")

variable (world : World) (net : SendCalls)

/-- The `DID_NOT_WORK` of a server. -/
def didNotWorkServer (oc : OpenConnection) : OpenConnection :=
  if ¬oc.client_tried then { oc with server_tried := true }
  else if oc.tested_method = .direct then
    { oc with
      tested_method := .upnp, client_tried := false, server_tried := false, etat := .client }
  else oc

def testMessage : ByteStr := lit "Test"

/-- The listener of `serverStateOpen`, which has been started. -/
def listen : Except Exn Listener := do
  let srv ← world.server
  if world.spawn then return (Listener.mk srv none false).run world
  else throw (assertFailed "thread_create_status == 0")

/-- The address it asks the other end to connect to. -/
def openAddress (n : Node) (oc : OpenConnection) (port : UInt16) : Except Exn SockAddress :=
  if oc.tested_method = .upnp then world.openMapPort port
  else return ⟨n.nodeAddressFromRelay.ip, port⟩

def listenAddress (n : Node) (oc : OpenConnection) : Except Exn (Listener × SockAddress) := do
  let sockListen ← listen world
  let addr ← sockListen.getLocalAddress world
  return (sockListen, ← openAddress world n oc addr.port)

/-- The headers of the `SEND` of `serverStateOpen`. -/
def sendHeaders (addr : SockAddress) : Headers :=
  (∅ : Headers).insert (lit "Address") addr.print |>.insert (lit "Message") testMessage

/-- The end of `serverStateOpen`, once the other end has been asked. -/
def afterSend (sockListen : Listener) (headers : Headers) (n : Node) (oc : OpenConnection) :
    Option Exn × Node × OpenConnection :=
  match sockListen.received world with
  | .error e => (some e, n, oc)
  | .ok data =>
    if sockListen.hasAccept ∧ data = testMessage then
      let n :=
        { n with directSockets := n.directSockets.insert oc.remoteHost sockListen.sock }
      let r := send net n oc (message "ESTABLISHED" headers)
      (thrown r.1, r.2, oc)
    else
      let r := send net n oc (message "DID_NOT_WORK" headers)
      (thrown r.1, r.2, if (thrown r.1).isNone then oc.didNotWorkServer else oc)

/-- `OpenConnection::serverStateOpen`, of a server. -/
def serverStateOpen (n : Node) (oc : OpenConnection) : Option Exn × Node × OpenConnection :=
  match listenAddress world n oc with
  | .error e => (some e, n, oc)
  | .ok (sockListen, addr) =>
    let headers := sendHeaders addr
    match send net n oc (message "SEND" headers) with
    | (.error e, n) => (some e, n, oc)
    | (.ok _, n) => afterSend world net sockListen headers n oc

/-- The `DID_NOT_WORK` of `getMessage`. The last branch of the source stands behind
`if (STATE_CLIENT)`, a constant zero. -/
def didNotWork (n : Node) (oc : OpenConnection) : Option Exn × Node × OpenConnection :=
  if oc.etat = .server then (none, n, oc.didNotWorkServer)
  else if ¬oc.server_tried then serverStateOpen world net n { oc with etat := .server }
  else (none, n, oc)

/-- What follows the test message: the other end is told when nothing could be sent. -/
def afterTest (sent : Except Exn Bool) (n : Node) (oc : OpenConnection) :
    Option Exn × Node × OpenConnection :=
  match sent with
  | .error e => (some e, n, oc)
  | .ok true => (none, n, oc)
  | .ok false =>
    match send net n oc (message "DID_NOT_WORK" ∅) with
    | (.error e, n) => (some e, n, oc)
    | (.ok _, n) => didNotWork world net n oc

/-- The `SEND` of `getMessage`: connect to the address and send the message there. -/
def sendMessage (inet : Inet) (headers : Headers) (n : Node) (oc : OpenConnection) :
    Option Exn × Node × OpenConnection :=
  match headers[lit "Address"]?, headers[lit "Message"]? with
  | none, _ => (some (.parser "OpenConnection" "No address in headers"), n, oc)
  | some _, none => (some (.parser "OpenConnection" "No message in headers"), n, oc)
  | some address, some msg =>
    match SockAddress.ofString inet address with
    | .error e => (some e, n, oc)
    | .ok addr =>
      match connect world addr with
      | .error e => (some e, n, oc)
      | .ok conn =>
        afterTest world net (Socket.sendBytes (world.tcp addr) msg 0).result n
          { oc with socket := some conn }

def getMessage (inet : Inet) (command : ByteStr) (headers : Headers) (n : Node)
    (oc : OpenConnection) : Option Exn × Node × OpenConnection :=
  if command = lit "SEND" ∧ oc.etat = .client then sendMessage world net inet headers n oc
  else if command = lit "DID_NOT_WORK" then didNotWork world net n oc
  else if command = lit "ESTABLISHED" then
    let r := offerDirectConn n oc
    (none, r.1, r.2)
  else (none, n, oc)

/-! The socket of the listener is one that listens, so nothing is ever received through it. -/

variable {world} {net} {n : Node} {oc : OpenConnection} {sockListen : Listener}

theorem listen_eq (h : listen world = .ok sockListen) :
    ∃ srv, world.server = .ok srv ∧ sockListen = (Listener.mk srv none false).run world := by
  obtain ⟨srv, hsrv, h⟩ := bind_eq_ok.mp h
  split at h
  · cases h
    exact ⟨srv, hsrv, rfl⟩
  · cases h

theorem listenAddress_received {addr : SockAddress}
    (h : listenAddress world n oc = .ok (sockListen, addr)) :
    sockListen.received world = .error (.err "Socket" "recv") := by
  obtain ⟨l, hl, h⟩ := bind_eq_ok.mp h
  obtain ⟨here, hhere, h⟩ := bind_eq_ok.mp h
  obtain ⟨_, -, h⟩ := bind_eq_ok.mp h
  cases h
  obtain ⟨srv, hsrv, rfl⟩ := listen_eq hl
  unfold Listener.getLocalAddress at hhere
  split at hhere
  · cases hhere
  · rename_i sock hsock
    obtain ⟨haccept, rfl⟩ := Listener.run_sock hsock
    rw [Listener.received, if_pos haccept, Listener.recv, hsock]
    dsimp only
    rw [world.recv_server sock.fd hsrv]

/-- A server asks the other end to connect at most: it never gets to know whether that worked. -/
theorem serverStateOpen_throws : (serverStateOpen world net n oc).1.isSome := by
  unfold serverStateOpen
  split
  · rfl
  · rename_i sockListen addr hlisten
    dsimp only
    split
    · rfl
    · unfold afterSend
      rw [listenAddress_received hlisten]
      rfl

end OpenConnection

/-- `Dispatcher`, by its `nodeConnect`. -/
abbrev Dispatcher := Std.ExtTreeMap NodeId OpenConnection

/-- `Dispatcher::fromN2NP`. What `getPacket` returns is used without a look at it. -/
def Dispatcher.fromN2NP (world : World) (net : SendCalls) (inet : Inet) («from» : NodeId)
    (data : ByteStr) (s : Node × Dispatcher) : Option Exn × Node × Dispatcher :=
  match (GTTParser.getPacket GTTParser.rules (GTTParser.fresh.eat data)).1 with
  | .error e => (some e, s)
  | .ok none => (some .nullPointer, s)
  | .ok (some packet) =>
    if packet.method = lit "OPENCONNECTION" then
      if ¬world.spawn then (some (assertFailed "thread_create_status == 0"), s)
      else (none, s.1, s.2.insert «from» (.new «from»))
    else
      match s.2[«from»]? with
      | none =>
        (some (.minor "DirectConnection::Dispatcher::fromN2NP"
          "No direct connection from specified ID"), s)
      | some oconn =>
        let r := oconn.getMessage world net inet packet.method packet.headers s.1
        (r.1, r.2.1, s.2.insert «from» r.2.2)

end Epyx.DirectConnection
