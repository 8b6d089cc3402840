import Epyx.N2NP.Node

/-! Which packets of a peer end the thread that reads them. `NetSelectSocket::read` catches
`MinorException` only; everything else a packet can throw leaves it. -/
namespace Epyx.N2NP

/-! ### Texts and packets -/

/-- The texts a node id can be read from. -/
def IsNodeText (s : ByteStr) : Prop :=
  64 ∈ s ∧ SockAddress.IsAddressText ((s.dropWhile (· != 64)).drop 1)

theorem NodeId.ofString_eq_ok_iff (inet : Inet) (s : ByteStr) :
    (∃ n, NodeId.ofString inet s = .ok n) ↔ IsNodeText s := by
  unfold NodeId.ofString IsNodeText
  cases hd : s.dropWhile (· != 64) with
  | nil => simp [dropWhile_bne_eq_nil.mp hd]
  | cons c addr =>
    have h64 : 64 ∈ s := by
      by_contra hm
      simp [dropWhile_bne_eq_nil.mpr hm] at hd
    simp only [h64, true_and, List.drop_succ_cons, List.drop_zero, map_eq_ok_iff,
      SockAddress.ofString_eq_ok_iff]

theorem NodeId.ofString_error {inet : Inet} {s : ByteStr} {e : Exn}
    (h : NodeId.ofString inet s = .error e) : e.isParser := by
  unfold NodeId.ofString at h
  split at h
  · cases h; rfl
  · exact SockAddress.ofString_error (map_eq_error_iff.mp h)

/-- The text of a header N2NP knows: an id of a node, a number or any text. -/
def IsHeaderText (h : ByteStr × ByteStr) : Prop :=
  ((h.1 = lit "From" ∨ h.1 = lit "To") → IsNodeText h.2) ∧ (h.1 = lit "ID" → Text.IsLong h.2)

def IsKnownHeader (k : ByteStr) : Prop :=
  k = lit "From" ∨ k = lit "To" ∨ k = lit "Version" ∨ k = lit "ID"

/-- The headers that can be read, up to the first one N2NP does not know. -/
def ReadableHeaders : List (ByteStr × ByteStr) → Prop
  | [] => True
  | h :: hs => IsKnownHeader h.1 → IsHeaderText h ∧ ReadableHeaders hs

/-- The GTT packets that N2NP reads or refuses with a `MinorException`. -/
def IsReadable (pkt : GTTPacket) : Prop :=
  pkt.protocol = lit "N2NP" ∧ ReadableHeaders pkt.headers.toList

theorem readHeader_eq_ok_iff (inet : Inet) (p : Packet) {h : ByteStr × ByteStr}
    (hk : IsKnownHeader h.1) :
    (∃ q, Packet.readHeader inet p h = .ok q) ↔ IsHeaderText h := by
  obtain ⟨k, v⟩ := h
  have hT : lit "To" ≠ lit "From" := by decide
  have hV : lit "Version" ≠ lit "From" ∧ lit "Version" ≠ lit "To" ∧ lit "Version" ≠ lit "ID" := by
    decide
  have hI : lit "ID" ≠ lit "From" ∧ lit "ID" ≠ lit "To" ∧ lit "ID" ≠ lit "Version" := by decide
  simp only [IsKnownHeader] at hk
  rcases hk with rfl | rfl | rfl | rfl
  · simp [Packet.readHeader, IsHeaderText, map_eq_ok_iff, NodeId.ofString_eq_ok_iff, hI.1.symm]
  · simp [Packet.readHeader, IsHeaderText, map_eq_ok_iff, NodeId.ofString_eq_ok_iff, hT,
      hI.2.1.symm]
  · simp [Packet.readHeader, IsHeaderText, hV]
  · simp [Packet.readHeader, IsHeaderText, map_eq_ok_iff, Text.toInt_eq_ok_iff, hI]

theorem readHeader_error {inet : Inet} {p : Packet} {h : ByteStr × ByteStr} {e : Exn}
    (hk : IsKnownHeader h.1) (he : Packet.readHeader inet p h = .error e) : e.isParser := by
  unfold Packet.readHeader at he
  split at he
  · exact NodeId.ofString_error (map_eq_error_iff.mp he)
  · split at he
    · exact NodeId.ofString_error (map_eq_error_iff.mp he)
    · split at he
      · cases he
      · split at he
        · exact Text.toInt_error (map_eq_error_iff.mp he)
        · simp_all [IsKnownHeader]

theorem readHeader_unknown {inet : Inet} {p : Packet} {h : ByteStr × ByteStr}
    (hk : ¬IsKnownHeader h.1) :
    Packet.readHeader inet p h = .error (.minor "N2NP::Packet" "Invalid GTT header") := by
  simp only [IsKnownHeader, not_or] at hk
  simp [Packet.readHeader, hk]

theorem readHeaders_handled (inet : Inet) (hs : List (ByteStr × ByteStr)) (p : Packet) :
    Handled (thrown (hs.foldlM (Packet.readHeader inet) p)) ↔ ReadableHeaders hs := by
  induction hs generalizing p with
  | nil => simp [ReadableHeaders, pure, Except.pure]
  | cons h hs ih =>
    rw [List.foldlM_cons, ReadableHeaders]
    by_cases hk : IsKnownHeader h.1
    · have hok := readHeader_eq_ok_iff inet p hk
      simp only [hk, true_imp_iff]
      cases hr : Packet.readHeader inet p h with
      | ok q =>
        have ht : IsHeaderText h := hok.mp ⟨q, hr⟩
        simpa [ht, bind, Except.bind] using ih q
      | error e =>
        have ht : ¬IsHeaderText h := fun ht => by
          obtain ⟨q, hq⟩ := hok.mpr ht
          rw [hr] at hq
          cases hq
        have hp := readHeader_error hk hr
        simp [ht, bind, Except.bind, Exn.isMinor_of_isParser hp]
    · simp [hk, readHeader_unknown hk, bind, Except.bind, Exn.isMinor]

/-- A packet is read, or refused with a `MinorException`, exactly when it is readable. -/
theorem ofGTT_handled (inet : Inet) (pkt : GTTPacket) :
    Handled (thrown (Packet.ofGTT inet pkt)) ↔ IsReadable pkt := by
  unfold Packet.ofGTT IsReadable
  by_cases hp : pkt.protocol = lit "N2NP"
  · have h := readHeaders_handled inet pkt.headers.toList (Packet.new pkt.method [])
    rw [if_neg (not_not.mpr hp), ← h]
    cases pkt.headers.toList.foldlM (Packet.readHeader inet) (Packet.new pkt.method []) <;>
      simp [Except.map, hp]
  · simp [hp, Exn.isMinor]

/-! ### The relay -/

namespace RelaySocket
variable (inet : Inet) (net : SendCalls)

/-- A packet that the relay can take from a client: a readable one and, when it asks the relay for
an id, one whose answer the socket does not fail to send. -/
def Readable (gttpkt : GTTPacket) (t : RelaySocket) : Prop :=
  IsReadable gttpkt ∧ ∀ p, Packet.ofGTT inet gttpkt = .ok p →
    p.method = lit "ID" → p.to = t.relay.relayId →
      Handled (thrown (t.relay.attachNode net t.sock t.calls).2.2.result)

theorem treatPacket_handled (gttpkt : GTTPacket) (t : RelaySocket) :
    Handled (treatPacket inet net gttpkt t).1 ↔ Readable inet net gttpkt t := by
  unfold treatPacket Readable
  rw [← ofGTT_handled inet]
  cases hg : Packet.ofGTT inet gttpkt with
  | error e => simp
  | ok p =>
    generalize t.relay.attachNode net t.sock t.calls = r
    simp only [thrown_ok, handled_none, true_and, Except.ok.injEq, forall_eq',
      NodeId.compare_eq_iff]
    by_cases hid : p.method = lit "ID" ∧ p.to = t.relay.relayId
    · simp only [hid, and_self, if_true, true_imp_iff]
      cases r.2.2.result <;> simp
    · rw [if_neg hid]
      exact ⟨fun _ h1 h2 => absurd ⟨h1, h2⟩ hid, fun _ => trivial⟩

end RelaySocket

/-! ### The node -/

namespace Node
variable {μ : Type*} (inet : Inet) (net : SendCalls) (modules : Modules μ)

/-- The node can send: it has an id, a socket that is not null, and the socket does not fail. -/
def CanSend (n : Node) (dest : NodeId) (method data : ByteStr) : Prop :=
  n.hasId ∧ ∃ sock, n.select dest = some sock ∧
    Handled (thrown (Socket.sendBytes net (n.outgoing dest method data).build n.calls).result)

/-- A packet of a node with an id: its own id is taken, its destination weighed, and it is
written to the socket the destination has. A packet that is kept needs an id that is not in use. -/
theorem send_eq {n : Node} (hid : n.hasId) (dest : NodeId) (method data : ByteStr) {store : Bool}
    (hfree : ¬(store ∧ n.curId ∈ n.sentMap)) :
    ∃ n', n'.calls = n.calls ∧ n.send net dest method data store =
      match n.select dest with
      | none => (.error (assertFailed "selected != __null"), n')
      | some sock => n'.write net sock (n.outgoing dest method data) := by
  have h : ¬(method ≠ lit "ID" ∧ ¬n.hasId) := fun h => h.2 hid
  have hpkt : (n.outgoing dest method data).pktID = n.curId := rfl
  unfold send
  rw [if_neg h]
  simp only [hpkt]
  rw [if_neg hfree]
  cases store
  · exact ⟨({ n with curId := n.curId + 1 } : Node).weigh dest data, weigh_calls _ _ _, rfl⟩
  · exact ⟨({ n with
      curId := n.curId + 1
      sentMap := n.sentMap.insert n.curId (n.outgoing dest method data) } : Node).weigh dest data,
      weigh_calls _ _ _, rfl⟩

theorem send_handled (n : Node) (dest : NodeId) {method : ByteStr} (data : ByteStr)
    (hm : method ≠ lit "ID") (store : Bool) :
    Handled (thrown (n.send net dest method data store).1) ↔
      n.CanSend net dest method data ∧ ¬(store ∧ n.curId ∈ n.sentMap) := by
  unfold CanSend
  by_cases hid : n.hasId
  · by_cases hfree : store ∧ n.curId ∈ n.sentMap
    · have h : ¬(method ≠ lit "ID" ∧ ¬n.hasId) := fun h => h.2 hid
      have hthrow : (n.send net dest method data store).1 =
          .error (.fail "N2NP::Node" "Duplicate packet ID while sending") := by
        unfold send
        rw [if_neg h]
        exact congrArg Prod.fst (if_pos hfree)
      have hbusy : ¬¬(store ∧ n.curId ∈ n.sentMap) := not_not.mpr hfree
      rw [hthrow]
      exact iff_of_false (by simp [Exn.isMinor]) fun hs => hbusy hs.2
    · obtain ⟨n', hcalls, hsend⟩ := send_eq net hid dest method data hfree
      rw [hsend, and_iff_left hfree]
      cases n.select dest with
      | none => simp [assertFailed, Exn.isMinor]
      | some sock =>
        obtain ⟨sent, hsent⟩ :
            ∃ sent, Socket.sendBytes net (n.outgoing dest method data).build n.calls = sent :=
          ⟨_, rfl⟩
        simp only [hid, true_and, Option.some.injEq, exists_eq_left', hsent]
        rw [write_fst (hcalls ▸ hsent)]
  · have h : method ≠ lit "ID" ∧ ¬n.hasId := ⟨hm, hid⟩
    have hthrow : n.send net dest method data store = (.error (assertFailed "hasId"), n) :=
      if_pos h
    simp [hthrow, hid, assertFailed, Exn.isMinor]

theorem reply_handled (n : Node) (dest : NodeId) {method : ByteStr} (data : ByteStr)
    (hm : method ≠ lit "ID") :
    Handled (thrown (n.send net dest method data false).1) ↔ n.CanSend net dest method data := by
  rw [send_handled net n dest data hm]
  simp only [Bool.false_eq_true, false_and, not_false_eq_true, and_true]

/-- What a module does with a packet: it throws nothing but `MinorException`, and leaves a node
that can acknowledge the packet. -/
def Accepts (module : NodeId → ByteStr → Node × μ → Option Exn × Node × μ) (pkt : Packet)
    (s : Node × μ) : Prop :=
  let r := module pkt.from pkt.data s
  Handled r.1 ∧
    r.2.1.CanSend net pkt.from (lit "ACK") (Text.fromUnsignedLong pkt.pktID.toNat)

/-- The N2NP packets a node can take: its id with readable addresses, acknowledgements with a
number, and for a module what the module accepts. -/
def Takes (pkt : Packet) (s : Node × μ) : Prop :=
  if ¬s.1.hasId then
    pkt.method = lit "ID" → ∀ value ∈ ipLines pkt.data, SockAddress.IsAddressText value
  else if pkt.to ≠ s.1.nodeid then True
  else if pkt.method = lit "ACK" then Text.IsULong pkt.data
  else if pkt.method = lit "ERR" then True
  else
    let n := s.1.weigh pkt.from pkt.data
    match modules pkt.method with
    | none => n.CanSend net pkt.from (lit "ERR") (Text.fromUnsignedLong pkt.pktID.toNat)
    | some module => Accepts net module pkt (n, s.2)

def Readable (gttpkt : GTTPacket) (s : Node × μ) : Prop :=
  IsReadable gttpkt ∧ ∀ p, Packet.ofGTT inet gttpkt = .ok p → Takes net modules p s

theorem setAddress_handled (values : List ByteStr) (n : Node) :
    Handled (setAddress inet values n).1 ↔ ∀ v ∈ values, SockAddress.IsAddressText v := by
  induction values generalizing n with
  | nil => simp [setAddress]
  | cons v values ih =>
    have hok := SockAddress.ofString_eq_ok_iff inet v
    rw [List.forall_mem_cons, setAddress]
    cases hv : SockAddress.ofString inet v with
    | ok addr =>
      have ht : SockAddress.IsAddressText v := hok.mp ⟨addr, hv⟩
      simpa [ht] using ih { n with nodeAddressFromRelay := addr }
    | error e =>
      have ht : ¬SockAddress.IsAddressText v := fun ht => by
        obtain ⟨a, ha⟩ := hok.mpr ht
        rw [hv] at ha
        cases ha
      have hp := SockAddress.ofString_error hv
      simp [ht, Exn.isMinor_of_isParser hp]

theorem callModule_handled (module : NodeId → ByteStr → Node × μ → Option Exn × Node × μ)
    (pkt : Packet) (s : Node × μ) :
    Handled (callModule net module pkt s).1 ↔ Accepts net module pkt s := by
  have hack : lit "ACK" ≠ lit "ID" := by decide
  unfold callModule Accepts
  rcases module pkt.from pkt.data s with ⟨_ | e, s'⟩
  · simp only [sendAck, reply_handled net _ _ _ hack, handled_none, true_and]
  · by_cases hm : e.isMinor
    · simp only [hm, if_true, sendAck, reply_handled net _ _ _ hack, handled_some, true_and]
    · simp [hm]

theorem treat_handled (pkt : Packet) (s : Node × μ) :
    Handled (treat inet net modules pkt s).1 ↔ Takes net modules pkt s := by
  have herr : lit "ERR" ≠ lit "ID" := by decide
  unfold treat Takes
  simp only [ne_eq, NodeId.compare_eq_iff]
  split
  · split
    · rename_i hm
      simp [hm]
    · rename_i hm
      simp only [not_not.mp hm, true_imp_iff]
      exact setAddress_handled inet _ _
  · split
    · simp
    · split
      · rw [← Text.toULong_eq_ok_iff]
        cases hd : Text.toULong pkt.data with
        | ok id => simp
        | error e =>
          have hp := Text.toULong_error hd
          simp [Exn.isMinor_of_isParser hp]
      · split
        · simp
        · cases modules pkt.method with
          | none => exact reply_handled net _ _ _ herr
          | some module => exact callModule_handled net module pkt _

theorem treatPacket_handled (gttpkt : GTTPacket) (s : Node × μ) :
    Handled (treatPacket inet net modules gttpkt s).1 ↔ Readable inet net modules gttpkt s := by
  unfold treatPacket Readable
  rw [← ofGTT_handled inet]
  cases Packet.ofGTT inet gttpkt with
  | error e => simp
  | ok p => simp [treat_handled]

end Node

/-! ### Connections -/

/-- No exception but `MinorException` leaves an `eat`, and none leaves `read`, over a whole
connection to a relay or of a node, exactly when every packet that arrives before it is closed is
readable where it arrives. -/
theorem connections_survive_iff {μ : Type*} (inet : Inet) (net : SendCalls) (modules : Modules μ) :
    (∀ (rs : List (Reading RelaySocket)) (t : RelaySocket),
      NetSelectSocket.serve (RelaySocket.treatPacket inet net) rs (GTTParser.fresh, t) = none ↔
        NetSelectSocket.Throughout (RelaySocket.treatPacket inet net)
          (RelaySocket.Readable inet net) rs (GTTParser.fresh, t)) ∧
    ∀ (rs : List (Reading (Node × μ))) (s : Node × μ),
      NetSelectSocket.serve (Node.treatPacket inet net modules) rs (GTTParser.fresh, s) = none ↔
        NetSelectSocket.Throughout (Node.treatPacket inet net modules)
          (Node.Readable inet net modules) rs (GTTParser.fresh, s) :=
  ⟨fun rs t => NetSelectSocket.serve_eq_none_iff (RelaySocket.treatPacket_handled inet net) rs
      rfl t,
    fun rs s => NetSelectSocket.serve_eq_none_iff (Node.treatPacket_handled inet net modules) rs
      rfl s⟩

/-- A GTT packet of another protocol ends the thread of the relay that reads it. -/
theorem connection_dht :
    let data := lit "DHT PING\r\n\r\n"
    let t : RelaySocket := ⟨⟨3, .unset⟩, .unset, .new ⟨⟨lit "10.0.0.1", 4⟩, 4242⟩, 0⟩
    ¬Handled (RelaySocket.eat Inet.zero (fun _ n => .ok n) data (GTTParser.fresh, t)).1 ∧
    NetSelectSocket.serve (RelaySocket.treatPacket Inet.zero fun _ n => .ok n)
      [⟨.ok data, true, id⟩] (GTTParser.fresh, t) =
    some (.fail "N2NP::Packet" "Invalid GTT packet") := by
  decide +kernel

end Epyx.N2NP
