import Epyx.Lib.Machine
import Epyx.N2NP.RelayNames

/-! A relay with the connections of its clients, from `RelaySocket::RelaySocket` to
`RelaySocket::~RelaySocket`: which of its entries outlive their connection. -/
namespace Epyx.N2NP
open Lib
open Std (ExtTreeMap)

/-- A `RelaySocket` over its life. -/
inductive Connection where
  | never
  | live (sock : Conn) (nodeid : NodeId)
  | destroyed
  deriving DecidableEq

def Connection.socket : Connection → Option Conn
  | .live sock _ => some sock
  | _ => none

/-- A relay with its connections. The source keeps no `through`: the connection through which an
entry was attached. -/
structure RelayServer (ι : Type*) where
  relay : Relay
  conns : ι → Connection
  through : ByteStr → Option ι
  calls : Nat

namespace RelayServer

/-- What can happen: a connection is accepted, gives a packet or is destroyed, all nodes are
detached, or the worker treats a packet. -/
inductive Event (ι : Type*) where
  | accept (i : ι) (sock : Conn)
  | packet (i : ι) (gttpkt : GTTPacket)
  | destroy (i : ι)
  | detachAllNodes
  | work

/-- The test of `RelaySocket::eat` for the packet that asks the relay for an id. -/
def asksId (inet : Inet) (relay : Relay) (gttpkt : GTTPacket) : Bool :=
  match Packet.ofGTT inet gttpkt with
  | .error _ => false
  | .ok p => p.method = lit "ID" ∧ p.to.compare relay.relayId = .eq

variable {ι : Type*} [DecidableEq ι]

def new (addr : SockAddress) : RelayServer ι := ⟨.new addr, fun _ => .never, fun _ => none, 0⟩

/-- A packet of a live connection. -/
def packet (inet : Inet) (send : SendCalls) (s : RelayServer ι) (i : ι) (sock : Conn)
    (nodeid : NodeId) (gttpkt : GTTPacket) : RelayServer ι :=
  let t := (RelaySocket.treatPacket inet send gttpkt ⟨sock, nodeid, s.relay, s.calls⟩).2
  { relay := t.relay
    conns := Function.update s.conns i (.live t.sock t.nodeid)
    through :=
      if asksId inet s.relay gttpkt then
        Function.update s.through (Relay.nodeName s.relay.nodeNextId sock) (some i)
      else s.through
    calls := t.calls }

def machine (inet : Inet) (send : SendCalls) :
    Machine (RelayServer ι) (Event ι) (Target × ByteStr) where
  step s
    | .accept i sock =>
      match s.conns i with
      | .never => some ({ s with conns := Function.update s.conns i (.live sock .unset) }, [])
      | _ => none
    | .packet i gttpkt =>
      match s.conns i with
      | .live sock nodeid => some (s.packet inet send i sock nodeid gttpkt, [])
      | _ => none
    | .destroy i =>
      match s.conns i with
      | .live _ nodeid =>
        some ({ s with
          relay := (s.relay.detachNode nodeid).1
          conns := Function.update s.conns i .destroyed }, [])
      | _ => none
    | .detachAllNodes => some ({ s with relay := s.relay.detachAllNodes }, [])
    | .work =>
      match s.relay.messages with
      | [] => none
      | pkt :: messages =>
        some ({ s with relay := { s.relay with messages := messages } },
          (s.relay.treat pkt).toList)

/-- The entries of the relay are of live connections. -/
def Connected (s : RelayServer ι) : Prop :=
  ∀ (name : ByteStr) (info : NodeInfo), s.relay.nodes[name]? = some info →
    ∃ i nodeid, s.through name = some i ∧ s.conns i = .live info.sock nodeid

/-- A connection asks for an id while no entry is attached through it, and the id can be sent to
it. A peer has an address. -/
def Once (inet : Inet) (send : SendCalls) (s : RelayServer ι) (_ : List (Target × ByteStr)) :
    Event ι → Prop
  | .accept _ sock => sock.address.IsText
  | .packet i gttpkt => asksId inet s.relay gttpkt →
    (∀ name ∈ s.relay.nodes.keys, s.through name ≠ some i) ∧
      ∀ sock ∈ (s.conns i).socket, thrown (s.relay.attachNode send sock s.calls).2.2.result = none
  | _ => True

instance (inet : Inet) (send : SendCalls) (s : RelayServer ι) (log : List (Target × ByteStr)) :
    (e : Event ι) → Decidable (Once inet send s log e)
  | .accept _ sock => inferInstanceAs (Decidable sock.address.IsText)
  | .packet _ _ => inferInstanceAs (Decidable (_ → _ ∧ _))
  | .destroy _ | .detachAllNodes | .work => inferInstanceAs (Decidable True)

/-- An entry is remembered by the connection it was attached through. -/
structure Remembered (s : RelayServer ι) : Prop where
  entries : ∀ (name : ByteStr) (info : NodeInfo), s.relay.nodes[name]? = some info →
    ∃ i, s.through name = some i ∧ s.conns i = .live info.sock ⟨name, s.relay.relayAddr⟩
  peers : ∀ i sock nodeid, s.conns i = .live sock nodeid → sock.address.IsText

/-- A packet that does not ask for an id changes nothing but the queue of the worker. -/
theorem packet_other {inet : Inet} (send : SendCalls) {s : RelayServer ι} (i : ι) (sock : Conn)
    (nodeid : NodeId) {gttpkt : GTTPacket} (h : asksId inet s.relay gttpkt = false) :
    ∃ relay, relay.nodes = s.relay.nodes ∧ relay.relayAddr = s.relay.relayAddr ∧
      s.packet inet send i sock nodeid gttpkt =
        { s with relay := relay, conns := Function.update s.conns i (.live sock nodeid) } := by
  cases hg : Packet.ofGTT inet gttpkt with
  | error e =>
    refine ⟨s.relay, rfl, rfl, ?_⟩
    rw [packet, h, RelaySocket.treatPacket_error inet send hg]
    rfl
  | ok p =>
    have hno : ¬(p.method = lit "ID" ∧ p.to = s.relay.relayId) := by
      simpa [asksId, hg, NodeId.compare_eq_iff] using h
    refine ⟨s.relay.post p, rfl, rfl, ?_⟩
    rw [packet, h, RelaySocket.treatPacket_post inet send hg hno]
    rfl

/-- A packet that asks for an id attaches the connection, which remembers the id if it could be
sent. -/
theorem packet_asksId {inet : Inet} {send : SendCalls} {s : RelayServer ι} {i : ι} {sock : Conn}
    {nodeid : NodeId} {gttpkt : GTTPacket} (h : asksId inet s.relay gttpkt)
    {r : Relay × NodeId × Sent} (hr : s.relay.attachNode send sock s.calls = r)
    (hret : thrown r.2.2.result = none) :
    s.packet inet send i sock nodeid gttpkt =
      { relay := r.1
        conns := Function.update s.conns i (.live sock r.2.1)
        through := Function.update s.through (Relay.nodeName s.relay.nodeNextId sock) (some i)
        calls := r.2.2.calls } := by
  cases hg : Packet.ofGTT inet gttpkt with
  | error e => simp [asksId, hg] at h
  | ok p =>
    have hid : p.method = lit "ID" ∧ p.to = s.relay.relayId := by
      simpa [asksId, hg, NodeId.compare_eq_iff] using h
    cases hresult : r.2.2.result with
    | error e => simp [hresult] at hret
    | ok ret =>
      have ht := RelaySocket.treatPacket_id inet send hg
        (t := ⟨sock, nodeid, s.relay, s.calls⟩) hid hr hresult
      rw [packet, h, if_pos rfl, ht]

/-- A connection that comes or goes leaves the other peers as they are. -/
theorem Remembered.update {s : RelayServer ι} (h : Remembered s) (i : ι) {c : Connection}
    (hc : ∀ sock nodeid, c = .live sock nodeid → sock.address.IsText) :
    ∀ j sock nodeid, Function.update s.conns i c j = .live sock nodeid → sock.address.IsText :=
  (Function.forall_update_iff s.conns fun _ x =>
    ∀ sock nodeid, x = .live sock nodeid → sock.address.IsText).mpr ⟨hc, fun j _ => h.peers j⟩

theorem Remembered.accept {s : RelayServer ι} (h : Remembered s) {i : ι} (hi : s.conns i = .never)
    {sock : Conn} (hsock : sock.address.IsText) :
    Remembered { s with conns := Function.update s.conns i (.live sock .unset) } := by
  refine ⟨fun n info hn => ?_, h.update i ?_⟩
  · obtain ⟨j, hj, hlive⟩ := h.entries n info hn
    have hji : j ≠ i := fun he => by rw [he, hi] at hlive; cases hlive
    exact ⟨j, hj, by simpa [hji] using hlive⟩
  · rintro _ _ ⟨⟩
    exact hsock

/-- The destructor takes out the one entry that was attached through its connection. -/
theorem Remembered.destroy {s : RelayServer ι} (h : Remembered s) {i : ι} {sock : Conn}
    {nodeid : NodeId} (hi : s.conns i = .live sock nodeid) :
    Remembered { s with
      relay := (s.relay.detachNode nodeid).1
      conns := Function.update s.conns i .destroyed } := by
  have haddr : (s.relay.detachNode nodeid).1.relayAddr = s.relay.relayAddr := by
    unfold Relay.detachNode
    split <;> rfl
  refine ⟨fun n info hn => ?_, h.update i fun _ _ he => ?_⟩
  · have hother : s.relay.nodes[n]? = some info ∧ nodeid ≠ ⟨n, s.relay.relayAddr⟩ := by
      unfold Relay.detachNode at hn
      split at hn
      · rename_i hne
        exact ⟨hn, fun he => hne (SockAddress.compare_eq_iff.mpr (he ▸ rfl))⟩
      · obtain ⟨hne, hn⟩ := Lib.TreeMap.of_getElem?_erase hn
        exact ⟨hn, fun he => hne (he ▸ rfl)⟩
    obtain ⟨j, hj, hlive⟩ := h.entries n info hother.1
    have hji : j ≠ i := fun he => by
      rw [he, hi] at hlive
      exact hother.2 (Connection.live.inj hlive).2
    rw [haddr]
    exact ⟨j, hj, by simpa [hji] using hlive⟩
  · cases he

theorem Remembered.attach {send : SendCalls} {s : RelayServer ι} (h : Remembered s) {i : ι}
    {sock : Conn} {nodeid : NodeId} (hi : s.conns i = .live sock nodeid)
    (hnone : ∀ name ∈ s.relay.nodes.keys, s.through name ≠ some i)
    {r : Relay × NodeId × Sent} (hr : s.relay.attachNode send sock s.calls = r) :
    Remembered
      { relay := r.1
        conns := Function.update s.conns i (.live sock r.2.1)
        through := Function.update s.through (Relay.nodeName s.relay.nodeNextId sock) (some i)
        calls := r.2.2.calls } := by
  obtain ⟨name, hname⟩ : ∃ name, Relay.nodeName s.relay.nodeNextId sock = name := ⟨_, rfl⟩
  have htext := h.peers i sock nodeid hi
  have hid : r.2.1 = ⟨name, s.relay.relayAddr⟩ := by
    have hc : cstr (Relay.nodeName s.relay.nodeNextId sock) = name :=
      hname ▸ cstr_eq_self (Relay.nodeName_noNul _ htext)
    rw [← hr, Relay.attachNode, hc]
  have hnodes : r.1.nodes = s.relay.nodes.insert name ⟨⟨name, s.relay.relayAddr⟩, sock⟩ := by
    rw [← hid, ← hname, ← hr]
    rfl
  have haddr : r.1.relayAddr = s.relay.relayAddr := by rw [← hr]; rfl
  refine ⟨fun n info hn => ?_, h.update i fun _ _ he => ?_⟩
  · simp only [hnodes] at hn
    rw [hname, hid]
    simp only [haddr]
    rcases Lib.TreeMap.of_getElem?_insert hn with ⟨rfl, rfl⟩ | ⟨hne, hn⟩
    · exact ⟨i, Function.update_self .., Function.update_self ..⟩
    · obtain ⟨j, hj, hlive⟩ := h.entries n info hn
      have hji : j ≠ i := fun he =>
        hnone n (ExtTreeMap.mem_keys.mpr (ExtTreeMap.mem_iff_isSome_getElem?.mpr (by simp [hn])))
          (he ▸ hj)
      exact ⟨j, by simpa [hne.symm] using hj, by simpa [hji] using hlive⟩
  · exact (Connection.live.inj he).1 ▸ htext

theorem Remembered.step {inet : Inet} {send : SendCalls} {s s' : RelayServer ι}
    {log out : List (Target × ByteStr)} {e : Event ι} (h : Remembered s)
    (hok : Once inet send s log e) (hs : (machine inet send).step s e = some (s', out)) :
    Remembered s' := by
  cases e with
  | accept i sock =>
    simp only [machine] at hs
    split at hs
    · rename_i hi
      cases hs
      exact h.accept hi hok
    · cases hs
  | packet i gttpkt =>
    simp only [machine] at hs
    split at hs
    · rename_i sock nodeid hi
      cases hs
      cases ha : asksId inet s.relay gttpkt with
      | true =>
        obtain ⟨hnone, hret⟩ := hok ha
        rw [packet_asksId ha rfl (hret sock (by rw [hi]; rfl))]
        exact h.attach hi hnone rfl
      | false =>
        obtain ⟨relay, hnodes, haddr, heq⟩ := packet_other send i sock nodeid ha
        rw [heq, ← hi, Function.update_eq_self]
        refine ⟨fun n info hn => ?_, h.peers⟩
        rw [haddr]
        exact h.entries n info (hnodes ▸ hn)
    · cases hs
  | destroy i =>
    simp only [machine] at hs
    split at hs
    · rename_i sock nodeid hi
      cases hs
      exact h.destroy hi
    · cases hs
  | detachAllNodes =>
    cases hs
    exact ⟨fun n info hn => by simp [Relay.detachAllNodes] at hn, h.peers⟩
  | work =>
    simp only [machine] at hs
    split at hs
    · cases hs
    · cases hs
      exact ⟨h.entries, h.peers⟩

/-- In every run in which no connection asks for an id while an entry attached through it is still
in the map, and in which the ids can be sent, every entry is of the socket of a live connection:
none is left when the connection it was attached through has been destroyed. -/
theorem entries_connected {inet : Inet} {send : SendCalls} {addr : SockAddress}
    {s : RelayServer ι} {log : List (Target × ByteStr)}
    (run : (machine inet send).Run (Once inet send) (.new addr) s log) :
    Connected s ∧
      ∀ i, s.conns i = .destroyed → ∀ name ∈ s.relay.nodes, s.through name ≠ some i := by
  have h : Remembered s := by
    refine run.invariant (P := fun s _ => Remembered s) ⟨?_, ?_⟩
      fun _ _ _ _ _ h hok hs => h.step hok hs
    · exact fun n info hn => by simp [new, Relay.new] at hn
    · exact fun _ _ _ hi => by cases hi
  have hconnected : Connected s := by
    intro n info hn
    obtain ⟨i, hi, hlive⟩ := h.entries n info hn
    exact ⟨i, _, hi, hlive⟩
  refine ⟨hconnected, fun i hi name hname hthrough => ?_⟩
  obtain ⟨info, hinfo⟩ := Option.isSome_iff_exists.mp
    (ExtTreeMap.mem_iff_isSome_getElem?.mp hname)
  obtain ⟨j, nodeid, hj, hlive⟩ := hconnected name info hinfo
  rw [hthrough] at hj
  cases hj
  rw [hi] at hlive
  cases hlive

/-- The packet with which a node asks its relay for an id. -/
def idRequest : GTTPacket := { Packet.new (lit "ID") [] with «to» := ⟨[], Relay.home⟩ }.toGTT

/-- A client asks once, gets its id and goes. -/
theorem entries_connected_once :
    ∃ (s : RelayServer Nat) (log : List (Target × ByteStr)),
      (machine Inet.zero fun _ n => .ok n).Run (Once Inet.zero fun _ n => .ok n)
        (.new Relay.home) s log ∧
      s.through (lit "self") = some 0 ∧ s.conns 0 = .destroyed ∧ lit "self" ∉ s.relay.nodes := by
  have h : ((machine Inet.zero fun _ n => .ok n).exec
      (fun s log e => Once Inet.zero (fun _ n => .ok n) s log e)
      ((.new Relay.home : RelayServer Nat), [])
      [.accept 0 Relay.client, .packet 0 idRequest, .destroy 0]).map
        (fun r => (r.1.through (lit "self"), r.1.conns 0)) = some (some 0, .destroyed) := by
    decide +kernel
  obtain ⟨⟨s, log⟩, hrun, heq⟩ := Option.map_eq_some_iff.mp h
  obtain ⟨hthrough, hconn⟩ : _ ∧ _ := by simpa only [Prod.mk.injEq] using heq
  have run := (Machine.Run.exec .start hrun).of_decide
  exact ⟨s, log, run, hthrough, hconn, fun hmem =>
    (entries_connected run).2 0 hconn _ hmem hthrough⟩

/-- A client asks twice and goes: its first entry stays. -/
theorem entry_left :
    ∃ (s : RelayServer Nat) (log : List (Target × ByteStr)),
      (machine Inet.zero fun _ n => .ok n).Run (fun _ _ _ => True) (.new Relay.home) s log ∧
      s.conns 0 = .destroyed ∧ lit "self" ∈ s.relay.nodes ∧ s.through (lit "self") = some 0 ∧
      ¬Connected s := by
  have h : ((machine Inet.zero fun _ n => .ok n).exec (fun _ _ _ => true)
      ((.new Relay.home : RelayServer Nat), [])
      [.accept 0 Relay.client, .packet 0 idRequest, .packet 0 idRequest, .destroy 0]).map
        (fun r => (r.1.through (lit "self"), r.1.conns 0, r.1.relay.nodes.contains (lit "self"))) =
      some (some 0, .destroyed, true) := by
    decide +kernel
  obtain ⟨⟨s, log⟩, hrun, heq⟩ := Option.map_eq_some_iff.mp h
  obtain ⟨hthrough, hconn, hmem⟩ : _ ∧ _ ∧ _ := by simpa only [Prod.mk.injEq] using heq
  refine ⟨s, log, (Machine.Run.exec .start hrun).free, hconn,
    ExtTreeMap.mem_iff_contains.mpr hmem, hthrough, fun hc => ?_⟩
  obtain ⟨info, hinfo⟩ := Option.isSome_iff_exists.mp
    (ExtTreeMap.mem_iff_isSome_getElem?.mp (ExtTreeMap.mem_iff_contains.mpr hmem))
  obtain ⟨i, nodeid, hi, hlive⟩ := hc _ info hinfo
  rw [hthrough] at hi
  cases hi
  rw [hconn] at hlive
  cases hlive

end RelayServer
end Epyx.N2NP
