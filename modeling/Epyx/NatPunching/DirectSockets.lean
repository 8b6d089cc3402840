import Epyx.Lib.Machine
import Epyx.NatPunching.OpenConnection

/-! The direct sockets of a node while the dispatcher treats the messages of its peers: one that a
message offers can be null. -/
namespace Epyx.DirectConnection
open Lib
open N2NP (NodeId Node Conn)
open Std (ExtTreeMap)

/-- The map of the direct sockets holds no null pointer. -/
def NoNull (n : Node) : Prop := ∀ id : NodeId, n.directSockets[id]? ≠ some none

/-- With that, the assertion `selected != NULL` of `Node::send` holds, whoever the packet is for. -/
theorem NoNull.select {n : Node} (h : NoNull n) (dest : NodeId) : (n.select dest).isSome := by
  unfold Node.select
  split
  · rename_i sock hsock
    cases sock with
    | none => exact absurd hsock (h _)
    | some sock => rfl
  · split
    · rename_i sock hsock
      cases sock with
      | none => exact absurd hsock (h _)
      | some sock => rfl
    · rfl

theorem NoNull.insert {n : Node} (h : NoNull n) (id : NodeId) (sock : Conn) :
    NoNull { n with directSockets := n.directSockets.insert id (some sock) } := by
  intro id'
  rw [ExtTreeMap.getElem?_insert]
  split
  · exact fun hc => by cases hc
  · exact h id'

theorem send_directSockets (net : SendCalls) (n : Node) (dest : NodeId) (method data : ByteStr)
    (store : Bool) : (n.send net dest method data store).2.directSockets = n.directSockets := by
  unfold Node.send
  split
  · rfl
  · dsimp only
    split
    · rfl
    · split <;> cases store <;> rfl

namespace OpenConnection
variable {world : World} {net : SendCalls} {inet : Inet} {n : Node} {oc : OpenConnection}

theorem noNull_send (h : NoNull n) (pkt : GTTPacket) : NoNull (send net n oc pkt).2 := by
  unfold NoNull send
  rwa [send_directSockets]

theorem noNull_serverStateOpen (h : NoNull n) : NoNull (serverStateOpen world net n oc).2.1 := by
  unfold serverStateOpen
  split
  · exact h
  · rename_i sockListen addr hlisten
    have hsent : NoNull (send net n oc (message "SEND" (sendHeaders addr))).2 := noNull_send h _
    dsimp only
    split <;> rename_i heq <;> rw [heq] at hsent
    · exact hsent
    · rw [afterSend, listenAddress_received hlisten]
      exact hsent

theorem noNull_didNotWork (h : NoNull n) : NoNull (didNotWork world net n oc).2.1 := by
  unfold didNotWork
  split
  · exact h
  · split
    · exact noNull_serverStateOpen h
    · exact h

theorem noNull_afterTest (h : NoNull n) (sent : Except Exn Bool) :
    NoNull (afterTest world net sent n oc).2.1 := by
  unfold afterTest
  split
  · exact h
  · exact h
  · have hsent : NoNull (send net n oc (message "DID_NOT_WORK" ∅)).2 := noNull_send h _
    split <;> rename_i heq <;> rw [heq] at hsent
    · exact hsent
    · exact noNull_didNotWork hsent

theorem noNull_sendMessage (h : NoNull n) (headers : Headers) :
    NoNull (sendMessage world net inet headers n oc).2.1 := by
  unfold sendMessage
  split
  · exact h
  · exact h
  · split
    · exact h
    · split
      · exact h
      · exact noNull_afterTest h _

/-- What a message makes of the map: only an `ESTABLISHED` with no socket to offer spoils it. -/
theorem noNull_getMessage (h : NoNull n) (command : ByteStr) (headers : Headers) :
    NoNull (getMessage world net inet command headers n oc).2.1 ↔
      ¬(command = lit "ESTABLISHED" ∧ oc.socket = none) := by
  unfold getMessage
  split
  · rename_i hc
    have hne : command ≠ lit "ESTABLISHED" := by rw [hc.1]; decide
    exact iff_of_true (noNull_sendMessage h headers) fun he => hne he.1
  · split
    · rename_i hc
      have hne : command ≠ lit "ESTABLISHED" := by rw [hc]; decide
      exact iff_of_true (noNull_didNotWork h) fun he => hne he.1
    · split
      · rename_i hc
        cases hs : oc.socket with
        | none =>
          refine iff_of_false (fun hall => hall oc.remoteHost ?_) fun he => he ⟨hc, rfl⟩
          simp [offerDirectConn, hs]
        | some sock =>
          refine iff_of_true ?_ fun he => by cases he.2
          rw [offerDirectConn, hs]
          exact h.insert _ _
      · rename_i hc
        exact iff_of_true h fun he => hc he.1

end OpenConnection

namespace Dispatcher

/-- The message is an `ESTABLISHED` for a connection that has no socket: none was made by a `SEND`,
or it was offered already. -/
def OffersNull («from» : NodeId) (data : ByteStr) (d : Dispatcher) : Prop :=
  ∃ packet ∈ (GTTParser.getPacket GTTParser.rules (GTTParser.fresh.eat data)).1.toOption.join,
    packet.method = lit "ESTABLISHED" ∧ ∃ oconn ∈ d[«from»]?, oconn.socket = none

instance («from» : NodeId) (data : ByteStr) (d : Dispatcher) :
    Decidable (OffersNull «from» data d) :=
  inferInstanceAs (Decidable (∃ packet ∈ Option.join _, _ ∧ ∃ oconn ∈ d[«from»]?, _))

theorem noNull_fromN2NP {world : World} {net : SendCalls} {inet : Inet} {«from» : NodeId}
    {data : ByteStr} {s : Node × Dispatcher} (h : NoNull s.1) :
    NoNull (fromN2NP world net inet «from» data s).2.1 ↔ ¬OffersNull «from» data s.2 := by
  unfold fromN2NP OffersNull
  split
  · rename_i hp
    exact iff_of_true h (by simp [hp, Except.toOption])
  · rename_i hp
    exact iff_of_true h (by simp [hp, Except.toOption])
  · rename_i packet hp
    simp only [hp, Except.toOption, Option.join_some, Option.mem_def, Option.some.injEq,
      exists_eq_left']
    split
    · rename_i hm
      have hne : packet.method ≠ lit "ESTABLISHED" := by rw [hm]; decide
      refine iff_of_true ?_ fun he => hne he.1
      split <;> exact h
    · split
      · rename_i hf
        exact iff_of_true h (by simp [hf])
      · rename_i oconn hf
        simp [OpenConnection.noNull_getMessage h, hf]

/-- What a node does as far as its direct sockets matter: it is given a message of a peer, in some
state of the world, or its program sends a packet. -/
inductive Event where
  | message (world : World) (net : SendCalls) («from» : NodeId) (data : ByteStr)
  | send (net : SendCalls) (dest : NodeId) (method data : ByteStr) (store : Bool)

def machine (inet : Inet) : Machine (Node × Dispatcher) Event Exn where
  step s
    | .message world net «from» data =>
      let r := fromN2NP world net inet «from» data s
      some (r.2, r.1.toList)
    | .send net dest method data store =>
      let r := s.1.send net dest method data store
      some ((r.2, s.2), (thrown r.1).toList)

/-- Each `ESTABLISHED` of a known peer comes while there is a socket to offer. -/
def Offers (s : Node × Dispatcher) (_ : List Exn) : Event → Prop
  | .message _ _ «from» data => ¬OffersNull «from» data s.2
  | .send .. => True

instance (s : Node × Dispatcher) (log : List Exn) : (e : Event) → Decidable (Offers s log e)
  | .message .. => inferInstanceAs (Decidable (¬_))
  | .send .. => inferInstanceAs (Decidable True)

/-- In every run in which each `ESTABLISHED` comes while its connection has a socket, the node has
no null socket, and finds one to send by, whoever the packet is for; one that comes without leaves
a null socket in the map. -/
theorem noNull_of_offers (inet : Inet) {n₀ : Node} (h₀ : NoNull n₀) (d₀ : Dispatcher) :
    (∀ s log, (machine inet).Run Offers (n₀, d₀) s log →
      NoNull s.1 ∧ ∀ dest, (s.1.select dest).isSome) ∧
    ∀ s log world net «from» data s' out, (machine inet).Run Offers (n₀, d₀) s log →
      OffersNull «from» data s.2 →
      (machine inet).step s (.message world net «from» data) = some (s', out) →
      ¬NoNull s'.1 := by
  have hrun : ∀ s log, (machine inet).Run Offers (n₀, d₀) s log → NoNull s.1 := by
    intro s log run
    refine run.invariant (P := fun s _ => NoNull s.1) h₀ ?_
    intro s log e s' out h allowed taken
    cases e with
    | message world net «from» data =>
      cases taken
      exact (noNull_fromN2NP h).mpr allowed
    | send net dest method data store =>
      cases taken
      unfold NoNull
      rwa [send_directSockets]
  refine ⟨fun s log run => ⟨hrun s log run, (hrun s log run).select⟩, ?_⟩
  intro s log world net «from» data s' out run hnull taken
  cases taken
  exact fun h => (noNull_fromN2NP (hrun s log run)).mp h hnull

def node : Node :=
  ⟨⟨3, N2NP.Relay.home⟩, ⟨lit "self", N2NP.Relay.home⟩, true, .unset, ∅, 1, ∅, ∅, 0, []⟩

def peer : NodeId := ⟨lit "2-10.0.0.7:51324", N2NP.Relay.home⟩

/-- A world in which connections can be made. -/
def world : World where
  spawn := true
  socket := some 7
  tcp _ _ n := .ok n
  server := .ok (some 5)
  accept := none
  sockname _ := .unset
  openMapPort _ := .error (.fail "UPNP" "")
  recv _ := none
  recv_server _ _ := rfl

def message (data : String) : Event := .message world (fun _ n => .ok n) peer (lit data)

/-- A direct connection as it is meant to be made. -/
theorem noNull_of_offers_send :
    ∃ s log, (machine Inet.zero).Run Offers (node, ∅) s log ∧
      s.1.directSockets[peer]? = some (some ⟨7, ⟨⟨lit "10.0.0.7", 4⟩, 4000⟩⟩) ∧
      NoNull s.1 ∧ ∀ dest, (s.1.select dest).isSome := by
  have h : ((machine Inet.zero).exec (fun s log e => Offers s log e) ((node, ∅), [])
      [message "DC OPENCONNECTION\r\n\r\n",
        message "DC SEND\r\nAddress: 10.0.0.7:4000\r\nMessage: Test\r\n\r\n",
        message "DC ESTABLISHED\r\n\r\n"]).map (fun r => r.1.1.directSockets[peer]?) =
      some (some (some ⟨7, ⟨⟨lit "10.0.0.7", 4⟩, 4000⟩⟩)) := by
    decide +kernel
  obtain ⟨⟨s, log⟩, hrun, hsock⟩ := Option.map_eq_some_iff.mp h
  have run := (Machine.Run.exec .start hrun).of_decide
  exact ⟨s, log, run, hsock,
    (noNull_of_offers Inet.zero (fun id => by simp [node]) ∅).1 s log run⟩

/-- An `ESTABLISHED` without a `SEND` before it: the node cannot send to that peer any more. -/
theorem null_offered :
    ∃ s log, (machine Inet.zero).Run (fun _ _ _ => True) (node, ∅) s log ∧ ¬NoNull s.1 ∧
      ∀ net data, (s.1.send net peer (lit "DHT") data false).1 =
        .error (assertFailed "selected != __null") := by
  have h : ((machine Inet.zero).exec (fun _ _ _ => true) ((node, ∅), [])
      [message "DC OPENCONNECTION\r\n\r\n", message "DC ESTABLISHED\r\n\r\n"]).map
        (fun r => (r.1.1.directSockets[peer]?, r.1.1.hasId)) = some (some none, true) := by
    decide +kernel
  obtain ⟨⟨s, log⟩, hrun, heq⟩ := Option.map_eq_some_iff.mp h
  obtain ⟨hsock, hid⟩ : s.1.directSockets[peer]? = some none ∧ s.1.hasId = true := by
    simpa only [Prod.mk.injEq] using heq
  refine ⟨s, log, (Machine.Run.exec .start hrun).free, fun hall => hall peer hsock, ?_⟩
  intro net data
  simp [Node.send, hid, Node.select, Node.weigh, hsock]

end Dispatcher
end Epyx.DirectConnection
