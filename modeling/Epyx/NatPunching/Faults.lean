import Epyx.NatPunching.OpenConnection
import Epyx.DHT.Module

/-! Which payloads end the thread that hands them to a module. `N2NP::Node::treat` catches
`MinorException` only; what else a module throws leaves it. -/
namespace Epyx.DirectConnection
open N2NP (NodeId Node Conn)

namespace OpenConnection
variable (world : World) (net : SendCalls)

/-- The node can send the message, and the id it would give to the packet is not in use. -/
def CanSend (n : Node) (oc : OpenConnection) (pkt : GTTPacket) : Prop :=
  n.CanSend net oc.remoteHost (lit "DIRECTCONNECTION") pkt.build ∧ n.curId ∉ n.sentMap

def CanConnect (addr : SockAddress) : Prop :=
  world.socket.isSome → addr.ip.ipVersion = 4 ∨ addr.ip.ipVersion = 6

/-- A server throws in any case; it throws a `MinorException` only if the port mapping or the node
throws one, before the socket of the listener is read. -/
def CanOpen (n : Node) (oc : OpenConnection) : Prop :=
  ∃ e : Exn, e.isMinor ∧ (listenAddress world n oc = .error e ∨
    ∃ sockListen addr n', listenAddress world n oc = .ok (sockListen, addr) ∧
      send net n oc (message "SEND" (sendHeaders addr)) = (.error e, n'))

/-- Only a client that has not been a server has to open a server. -/
def CanFail (n : Node) (oc : OpenConnection) : Prop :=
  oc.etat = .client → ¬oc.server_tried → CanOpen world net n { oc with etat := .server }

/-- The socket does not fail in another way than by sending nothing, and the other end can be
told. -/
def CanTest (sent : Except Exn Bool) (n : Node) (oc : OpenConnection) : Prop :=
  let pkt := message "DID_NOT_WORK" ∅
  Handled (thrown sent) ∧ (sent = .ok false → CanSend net n oc pkt ∧
    ∀ b n', send net n oc pkt = (.ok b, n') → CanFail world net n' oc)

/-- The address and the message are there, the address is one, and the socket to it works. -/
def CanConnectTo (inet : Inet) (headers : Headers) (n : Node) (oc : OpenConnection) : Prop :=
  ∃ address msg, headers[lit "Address"]? = some address ∧ headers[lit "Message"]? = some msg ∧
    SockAddress.IsAddressText address ∧ ∀ addr, SockAddress.ofString inet address = .ok addr →
      CanConnect world addr ∧ ∀ conn, connect world addr = .ok conn →
        CanTest world net (Socket.sendBytes (world.tcp addr) msg 0).result n
          { oc with socket := some conn }

/-- The commands an `OpenConnection` can take. -/
def Accepts (inet : Inet) (command : ByteStr) (headers : Headers) (n : Node)
    (oc : OpenConnection) : Prop :=
  if command = lit "SEND" ∧ oc.etat = .client then CanConnectTo world net inet headers n oc
  else command = lit "DID_NOT_WORK" → CanFail world net n oc

theorem send_handled (n : Node) (oc : OpenConnection) (pkt : GTTPacket) :
    Handled (thrown (send net n oc pkt).1) ↔ CanSend net n oc pkt := by
  have h := Node.send_handled net n oc.remoteHost pkt.build
    (show lit "DIRECTCONNECTION" ≠ lit "ID" by decide) true
  simp only [true_and] at h
  exact h

theorem connect_eq_ok_iff (addr : SockAddress) :
    (∃ conn, connect world addr = .ok conn) ↔ CanConnect world addr := by
  unfold connect CanConnect
  cases world.socket with
  | none => simp
  | some fd =>
    by_cases h : addr.ip.ipVersion = 4 ∨ addr.ip.ipVersion = 6
    · have h0 : addr.ip.ipVersion > 0 := by omega
      simp [h0, h]
    · by_cases h0 : addr.ip.ipVersion > 0 <;> simp [h0, h]

theorem connect_neverMinor (addr : SockAddress) : NeverMinor (connect world addr) := by
  intro e h
  unfold connect at h
  repeat' split at h
  all_goals cases h <;> rfl

theorem serverStateOpen_handled (n : Node) (oc : OpenConnection) :
    Handled (serverStateOpen world net n oc).1 ↔ CanOpen world net n oc := by
  unfold serverStateOpen CanOpen
  cases hlisten : listenAddress world n oc with
  | error e => simp
  | ok r =>
    obtain ⟨sockListen, addr⟩ := r
    have hreceived := listenAddress_received hlisten
    rcases hsent : send net n oc (message "SEND" (sendHeaders addr)) with ⟨e | b, n'⟩
    · simp [hsent]
    · simp [hsent, afterSend, hreceived, Exn.isMinor]

theorem didNotWork_handled (n : Node) (oc : OpenConnection) :
    Handled (didNotWork world net n oc).1 ↔ CanFail world net n oc := by
  unfold didNotWork CanFail
  cases he : oc.etat with
  | server => simp
  | client =>
    by_cases ht : oc.server_tried
    · simp [ht]
    · simp [ht, serverStateOpen_handled]

theorem afterTest_handled (sent : Except Exn Bool) (n : Node) (oc : OpenConnection) :
    Handled (afterTest world net sent n oc).1 ↔ CanTest world net sent n oc := by
  unfold afterTest CanTest
  rcases sent with e | ⟨_ | _⟩
  · simp
  · have hs := send_handled net n oc (message "DID_NOT_WORK" ∅)
    simp only [thrown_ok, handled_none, true_and, true_imp_iff, ← hs]
    rcases send net n oc (message "DID_NOT_WORK" ∅) with ⟨e | b, n'⟩
    · simp
    · simp [didNotWork_handled]
  · simp

theorem sendMessage_handled (inet : Inet) (headers : Headers) (n : Node) (oc : OpenConnection) :
    Handled (sendMessage world net inet headers n oc).1 ↔
      CanConnectTo world net inet headers n oc := by
  unfold sendMessage CanConnectTo
  cases headers[lit "Address"]? with
  | none => simp [Exn.isMinor]
  | some address =>
    cases headers[lit "Message"]? with
    | none => simp [Exn.isMinor]
    | some msg =>
      simp only [Option.some.injEq, exists_and_left, exists_eq_left',
        ← SockAddress.ofString_eq_ok_iff inet]
      cases ha : SockAddress.ofString inet address with
      | error e => simp [Exn.isMinor_of_isParser (SockAddress.ofString_error ha)]
      | ok addr =>
        simp only [Except.ok.injEq, exists_eq', true_and, forall_eq', ← connect_eq_ok_iff]
        cases hc : connect world addr with
        | error e => simp [connect_neverMinor world addr e hc]
        | ok conn => simp [afterTest_handled]

theorem getMessage_handled (inet : Inet) (command : ByteStr) (headers : Headers) (n : Node)
    (oc : OpenConnection) :
    Handled (getMessage world net inet command headers n oc).1 ↔
      Accepts world net inet command headers n oc := by
  unfold getMessage Accepts
  split
  · exact sendMessage_handled world net inet headers n oc
  · by_cases hd : command = lit "DID_NOT_WORK"
    · simp [hd, didNotWork_handled]
    · rw [if_neg hd]
      split <;> simp [hd]

end OpenConnection

namespace Dispatcher

/-- The payloads the dispatcher can take: a packet that asks for a connection when a thread can be
started, and else a command that the connection to the sender can take if there is one. -/
def Readable (world : World) (net : SendCalls) (inet : Inet) («from» : NodeId) (data : ByteStr)
    (s : Node × Dispatcher) : Prop :=
  ∃ packet, (GTTParser.getPacket GTTParser.rules (GTTParser.fresh.eat data)).1 = .ok (some packet) ∧
    if packet.method = lit "OPENCONNECTION" then world.spawn = true
    else ∀ oconn, s.2[«from»]? = some oconn →
      oconn.Accepts world net inet packet.method packet.headers s.1

theorem fromN2NP_handled (world : World) (net : SendCalls) (inet : Inet) («from» : NodeId)
    (data : ByteStr) (s : Node × Dispatcher) :
    Handled (fromN2NP world net inet «from» data s).1 ↔
      Readable world net inet «from» data s := by
  unfold fromN2NP Readable
  rcases hp : GTTParser.getPacket GTTParser.rules (GTTParser.fresh.eat data) with
    ⟨e | _ | packet, p⟩
  · exact absurd hp (GTTParser.getPacket_noThrow (p := GTTParser.fresh.eat data) rfl)
  · simp [Exn.isMinor]
  · simp only [Except.ok.injEq, Option.some.injEq, exists_eq_left']
    by_cases hm : packet.method = lit "OPENCONNECTION"
    · by_cases hs : world.spawn <;> simp [hm, hs, assertFailed, Exn.isMinor]
    · rw [if_neg hm, if_neg hm]
      cases hf : s.2[«from»]? with
      | none => simp [Exn.isMinor]
      | some oconn => simp [OpenConnection.getMessage_handled]

end Dispatcher

/-- A payload makes the DHT, or the dispatcher of direct connections, throw nothing but
`MinorException` exactly when it is readable there. -/
theorem fromN2NP_handled_iff (inet : Inet) («from» : NodeId) (data : ByteStr) :
    (∀ now n, Handled (DHT.Node.fromN2NP inet «from» data now ⟨.fresh, n⟩).1 ↔
      DHT.Node.Readable data) ∧
    ∀ world net s, Handled (Dispatcher.fromN2NP world net inet «from» data s).1 ↔
      Dispatcher.Readable world net inet «from» data s :=
  ⟨fun now n => DHT.Node.fromN2NP_handled inet «from» data now n,
    fun world net s => Dispatcher.fromN2NP_handled world net inet «from» data s⟩

/-- A DHT packet without a sender ends the process, and so does an empty payload for the
dispatcher. -/
theorem fromN2NP_unhandled :
    (DHT.Node.fromN2NP Inet.zero .unset (lit "DHT PING\r\n\r\n") 0
      ⟨.fresh, .new .zero .unset 0⟩).1 = some .terminate ∧
    ¬Handled (some .terminate) ∧
    (∀ world net s, (Dispatcher.fromN2NP world net Inet.zero .unset [] s).1 = some .nullPointer) ∧
    ¬Handled (some .nullPointer) := by
  have hd : (DHT.Node.fromN2NP Inet.zero .unset (lit "DHT PING\r\n\r\n") 0
      ⟨.fresh, .new .zero .unset 0⟩).1 = some .terminate := by
    decide +kernel
  have hp : (GTTParser.getPacket GTTParser.rules (GTTParser.fresh.eat [])).1 = .ok none := by
    decide +kernel
  refine ⟨hd, by simp [Exn.isMinor], fun world net s => ?_, by simp [Exn.isMinor]⟩
  simp [Dispatcher.fromN2NP, hp]

end Epyx.DirectConnection
