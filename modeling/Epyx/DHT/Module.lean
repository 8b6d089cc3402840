import Epyx.DHT.InternalNode
import Epyx.DHT.Keys
import Epyx.N2NP.Faults

/-! `dht/node.cpp`: the DHT as a module of N2NP, and the payloads it can take. -/
namespace Epyx.DHT
open N2NP (NodeId IsNodeText)

structure Node where
  gttParser : GTTParser
  n : InternalNode

/-- `Node::fromN2NP`, at the time `now`. -/
def Node.fromN2NP (inet : Inet) (senderId : NodeId) (data : ByteStr) (now : Int) (s : Node) :
    Option Exn × Node :=
  match GTTParser.getPacket GTTParser.rules (s.gttParser.eat data) with
  | (.error e, p) => (some e, { s with gttParser := p })
  | (.ok none, p) => (none, { s with gttParser := p.reset })
  | (.ok (some gtt_packet), p) =>
    let s := { s with gttParser := p.reset }
    match Packet.ofGTT inet gtt_packet with
    | .error e => (some e, s)
    | .ok pkt => (none, { s with n := s.n.processPacket pkt senderId now })

namespace Id

/-- The bytes `operator>>` takes for the bytes from number `i` on. -/
def width : Nat → Nat → Nat
  | 0, _ => 0
  | left + 1, i => (if i ≠ 31 ∧ i % 2 = 1 then 3 else 2) + width left (i + 1)

theorem get_snd (s : ByteStr) : (get s).2 = s.drop 1 := by cases s <;> rfl

theorem readFrom_snd (left i : Nat) (s : ByteStr) :
    (readFrom left i s).2 = s.drop (width left i) := by
  induction left generalizing i s with
  | zero => rfl
  | succ left ih =>
    simp only [readFrom, width, ih, get_snd]
    split <;> simp [Nat.add_comm]

/-- An id takes 79 bytes of the stream, or what is left of it. -/
theorem read_snd (s : ByteStr) : (read s).2 = s.drop 79 := readFrom_snd 32 0 s

end Id

namespace Packet

def Has (pkt : GTTPacket) (name : String) : Prop := ∃ v, pkt.headers[lit name]? = some v

/-- The header is there, with a number. -/
def HasNumber (pkt : GTTPacket) (name : String) : Prop :=
  ∃ v, pkt.headers[lit name]? = some v ∧ Text.IsLong v

/-- Each of the peers asked for starts with the text of a node id, up to its `%`; its own id is
the 79 bytes behind it, whatever they are. -/
def ReadablePeers : Nat → ByteStr → Prop
  | 0, _ => True
  | n + 1, s =>
    IsNodeText (s.takeWhile (· != 37)) ∧ ReadablePeers n ((s.dropWhile (· != 37)).drop 80)

/-- As many peers as the count says can be read from the body; from an empty text if the status
is an error. -/
def HasPeers (pkt : GTTPacket) : Prop :=
  ∃ count status, (header pkt "count").bind int = .ok count ∧
    (header pkt "status").bind int = .ok status ∧
    ReadablePeers count.toInt.toNat (valueOf status pkt.body)

/-- What each method needs. -/
def IsReadableContent (pkt : GTTPacket) : Prop :=
  if pkt.method = lit "PING" then True
  else if pkt.method = lit "PONG" then True
  else if pkt.method = lit "STORE" then Has pkt "key" ∧ HasNumber pkt "connectionid"
  else if pkt.method = lit "STORED" then HasNumber pkt "status" ∧ HasNumber pkt "connectionid"
  else if pkt.method = lit "GET" then Has pkt "key" ∧ HasNumber pkt "connectionid"
  else if pkt.method = lit "GOT" then HasNumber pkt "status" ∧ HasNumber pkt "connectionid"
  else if pkt.method = lit "FIND" then
    Has pkt "target" ∧ HasNumber pkt "count" ∧ HasNumber pkt "connectionid"
  else if pkt.method = lit "FOUND" then
    HasNumber pkt "connectionid" ∧ pkt.body ≠ [] ∧ HasPeers pkt
  else False

/-- The GTT packets that are packets of the DHT. -/
def IsReadable (pkt : GTTPacket) : Prop := Has pkt "from" ∧ IsReadableContent pkt

theorem header_eq_ok_iff {pkt : GTTPacket} {name : String} {v : ByteStr} :
    header pkt name = .ok v ↔ pkt.headers[lit name]? = some v := by
  unfold header
  split <;> simp_all

theorem int_eq_ok_iff (s : ByteStr) : (∃ n, int s = .ok n) ↔ Text.IsLong s := by
  rw [int, map_eq_ok_iff, Text.toInt_eq_ok_iff]

theorem header_neverMinor (pkt : GTTPacket) (name : String) : NeverMinor (header pkt name) := by
  intro e h
  unfold header at h
  split at h <;> cases h
  rfl

theorem int_neverMinor (s : ByteStr) : NeverMinor (int s) := NeverMinor.map
  (fun _ h => Exn.isMinor_of_isParser (Text.toInt_error h)) _

theorem unserialize_eq_ok_iff (inet : Inet) (s : ByteStr) :
    (∃ p, Peer.unserialize inet s = .ok p) ↔ IsNodeText (s.takeWhile (· != 37)) := by
  rw [Peer.unserialize, map_eq_ok_iff, N2NP.NodeId.ofString_eq_ok_iff]

theorem unserialize_snd {inet : Inet} {s : ByteStr} {r : Peer × ByteStr}
    (h : Peer.unserialize inet s = .ok r) : r.2 = (s.dropWhile (· != 37)).drop 80 := by
  obtain ⟨n, hn, rfl⟩ : ∃ n, _ ∧ _ = r := by
    unfold Peer.unserialize at h
    cases hn : N2NP.NodeId.ofString inet (s.takeWhile (· != 37)) with
    | error e => simp [hn, Except.map] at h
    | ok n => exact ⟨n, hn, by simpa [hn, Except.map] using h⟩
  rw [Id.read_snd, ← List.drop_one, List.drop_drop]

theorem readPeers_eq_ok_iff (inet : Inet) (n : Nat) (s : ByteStr) :
    (∃ ps, readPeers inet n s = .ok ps) ↔ ReadablePeers n s := by
  induction n generalizing s with
  | zero => simp [readPeers, ReadablePeers]
  | succ n ih =>
    rw [readPeers, ReadablePeers, ← unserialize_eq_ok_iff inet, ← ih]
    cases hp : Peer.unserialize inet s with
    | error e => simp [bind, Except.bind]
    | ok r =>
      rw [← unserialize_snd hp]
      cases hr : readPeers inet n r.2 <;> simp [bind, Except.bind, hr, pure, Except.pure]

theorem readPeers_neverMinor (inet : Inet) (n : Nat) (s : ByteStr) :
    NeverMinor (readPeers inet n s) := by
  induction n generalizing s with
  | zero => exact .ok _
  | succ n ih =>
    have hp : NeverMinor (Peer.unserialize inet s) := NeverMinor.map
      (fun _ h => Exn.isMinor_of_isParser (N2NP.NodeId.ofString_error h)) _
    exact hp.bind fun r => (ih r.2).bind fun _ => .ok _

theorem readContent_neverMinor (inet : Inet) (pkt : GTTPacket) :
    NeverMinor (readContent inet pkt) := by
  have hterm : NeverMinor (.error .terminate : Except Exn Content) := fun e h => by cases h; rfl
  have hh := header_neverMinor pkt
  have hi := int_neverMinor
  have store : ∀ name (f : Int32 → ByteStr → Content), NeverMinor
      ((header pkt "connectionid").bind fun c => (header pkt name).bind fun k =>
        (int c).bind fun n => .ok (f n k)) := fun name _ =>
    (hh _).bind fun _ => (hh name).bind fun _ => (hi _).bind fun _ => .ok _
  have stored : ∀ f : Int32 → Int32 → Content, NeverMinor
      ((header pkt "connectionid").bind fun c => (header pkt "status").bind fun s =>
        (int c).bind fun n => (int s).bind fun m => .ok (f n m)) := fun _ =>
    (hh _).bind fun _ => (hh _).bind fun _ => (hi _).bind fun _ => (hi _).bind fun _ => .ok _
  unfold readContent
  refine .ite (.ok _) <| .ite (.ok _) <| .ite (store _ _) <| .ite (stored _) <|
    .ite (store _ _) <| .ite (stored _) <| .ite ?find <| .ite ?found hterm
  case find =>
    exact (hh _).bind fun _ => (hh _).bind fun _ => (hh _).bind fun _ => (hi _).bind fun _ =>
      (hi _).bind fun _ => .ok _
  case found =>
    refine (hh _).bind fun _ => (hh _).bind fun _ => (hh _).bind fun _ => .ite hterm ?_
    exact (hi _).bind fun _ => (hi _).bind fun _ => (hi _).bind fun _ =>
      (readPeers_neverMinor inet _ _).bind fun _ => .ok _

theorem hasNumber_iff (pkt : GTTPacket) (name : String) :
    HasNumber pkt name ↔ ∃ v, header pkt name = .ok v ∧ ∃ n, int v = .ok n := by
  simp only [HasNumber, header_eq_ok_iff, int_eq_ok_iff]

theorem has_iff (pkt : GTTPacket) (name : String) :
    Has pkt name ↔ ∃ v, header pkt name = .ok v := by
  simp only [Has, header_eq_ok_iff]

theorem store_eq_ok_iff (pkt : GTTPacket) (f : Int32 → ByteStr → Content) :
    (∃ a, ((header pkt "connectionid").bind fun c => (header pkt "key").bind fun k =>
      (int c).bind fun n => .ok (f n k)) = .ok a) ↔
      Has pkt "key" ∧ HasNumber pkt "connectionid" := by
  simp only [bind_eq_ok_iff, has_iff, hasNumber_iff]
  constructor
  · rintro ⟨c, hc, k, hk, n, hn, _⟩
    exact ⟨⟨k, hk⟩, c, hc, n, hn⟩
  · rintro ⟨⟨k, hk⟩, c, hc, n, hn⟩
    exact ⟨c, hc, k, hk, n, hn, _, rfl⟩

theorem stored_eq_ok_iff (pkt : GTTPacket) (f : Int32 → Int32 → Content) :
    (∃ a, ((header pkt "connectionid").bind fun c => (header pkt "status").bind fun s =>
      (int c).bind fun n => (int s).bind fun m => .ok (f n m)) = .ok a) ↔
      HasNumber pkt "status" ∧ HasNumber pkt "connectionid" := by
  simp only [bind_eq_ok_iff, hasNumber_iff]
  constructor
  · rintro ⟨c, hc, s, hs, n, hn, m, hm, _⟩
    exact ⟨⟨s, hs, m, hm⟩, c, hc, n, hn⟩
  · rintro ⟨⟨s, hs, m, hm⟩, c, hc, n, hn⟩
    exact ⟨c, hc, s, hs, n, hn, m, hm, _, rfl⟩

theorem readContent_eq_ok_iff (inet : Inet) (pkt : GTTPacket) :
    (∃ c, readContent inet pkt = .ok c) ↔ IsReadableContent pkt := by
  have hterm : ¬∃ c, (.error .terminate : Except Exn Content) = .ok c := by simp
  unfold readContent IsReadableContent
  refine ite_eq_ok_iff (by simp) <| ite_eq_ok_iff (by simp) <|
    ite_eq_ok_iff (store_eq_ok_iff pkt _) <| ite_eq_ok_iff (stored_eq_ok_iff pkt _) <|
    ite_eq_ok_iff (store_eq_ok_iff pkt _) <| ite_eq_ok_iff (stored_eq_ok_iff pkt _) <|
    ite_eq_ok_iff ?find <| ite_eq_ok_iff ?found (iff_false_intro hterm)
  case find =>
    simp only [bind, pure, Except.pure, bind_eq_ok_iff, has_iff, hasNumber_iff]
    constructor
    · rintro ⟨c, hc, k, hk, t, ht, n, hn, m, hm, _⟩
      exact ⟨⟨t, ht⟩, ⟨k, hk, m, hm⟩, c, hc, n, hn⟩
    · rintro ⟨⟨t, ht⟩, ⟨k, hk, m, hm⟩, c, hc, n, hn⟩
      exact ⟨c, hc, k, hk, t, ht, n, hn, m, hm, _, rfl⟩
  case found =>
    simp only [bind, pure, Except.pure, bind_eq_ok_iff, hasNumber_iff]
    by_cases hbody : pkt.body = []
    · simp [hbody]
    simp only [hbody, if_false, bind_eq_ok_iff]
    simp only [HasPeers, bind_eq_ok, ← readPeers_eq_ok_iff inet]
    constructor
    · rintro ⟨c, hc, k, hk, s, hs, st, hst, n, hn, m, hm, ps, hps, _⟩
      exact ⟨⟨c, hc, n, hn⟩, hbody, m, st, ⟨k, hk, hm⟩, ⟨s, hs, hst⟩, ps, hps⟩
    · rintro ⟨⟨c, hc, n, hn⟩, -, m, st, ⟨k, hk, hm⟩, ⟨s, hs, hst⟩, ps, hps⟩
      exact ⟨c, hc, k, hk, s, hs, st, hst, n, hn, m, hm, ps, hps, _, rfl⟩

theorem ofGTT_eq_ok_iff (inet : Inet) (pkt : GTTPacket) :
    (∃ p, ofGTT inet pkt = .ok p) ↔ IsReadable pkt := by
  rw [IsReadable, has_iff, ← readContent_eq_ok_iff inet]
  simp only [ofGTT, bind, pure, Except.pure, bind_eq_ok_iff]
  constructor
  · rintro ⟨f, hf, c, hc, _⟩
    exact ⟨⟨f, hf⟩, c, hc⟩
  · rintro ⟨⟨f, hf⟩, c, hc⟩
    exact ⟨f, hf, c, hc, _, rfl⟩

theorem ofGTT_neverMinor (inet : Inet) (pkt : GTTPacket) : NeverMinor (ofGTT inet pkt) :=
  (header_neverMinor pkt "from").bind fun _ => (readContent_neverMinor inet pkt).bind fun _ => .ok _

end Packet

namespace Node

/-- The payloads the DHT can take: those without a complete packet, and those whose first packet
is one of the DHT. -/
def Readable (data : ByteStr) : Prop :=
  ∀ pkt, (GTTParser.getPacket GTTParser.rules (GTTParser.fresh.eat data)).1 = .ok (some pkt) →
    Packet.IsReadable pkt

/-- A call leaves the parser as it finds it, with nothing in it. -/
theorem fromN2NP_gttParser (inet : Inet) (senderId : NodeId) (data : ByteStr) (now : Int)
    (n : InternalNode) : (fromN2NP inet senderId data now ⟨.fresh, n⟩).2.gttParser = .fresh := by
  unfold fromN2NP
  split
  · rename_i e p hp
    exact absurd hp (GTTParser.getPacket_noThrow (p := GTTParser.fresh.eat data) rfl)
  · rfl
  · dsimp only
    split <;> rfl

theorem fromN2NP_handled (inet : Inet) (senderId : NodeId) (data : ByteStr) (now : Int)
    (n : InternalNode) :
    Handled (fromN2NP inet senderId data now ⟨.fresh, n⟩).1 ↔ Readable data := by
  unfold fromN2NP Readable
  split
  · rename_i e p hp
    exact absurd hp (GTTParser.getPacket_noThrow (p := GTTParser.fresh.eat data) rfl)
  · rename_i p hp
    simp [hp]
  · rename_i pkt p hp
    rw [hp]
    have hr := (Packet.ofGTT_neverMinor inet pkt).handled_iff.trans
      (Packet.ofGTT_eq_ok_iff inet pkt)
    simp only [Except.ok.injEq, Option.some.injEq, forall_eq']
    rw [← hr]
    cases Packet.ofGTT inet pkt <;> simp

/-- What is processed of a payload is the packet it is read as. -/
theorem fromN2NP_received (inet : Inet) (senderId : NodeId) (data : ByteStr) (now : Int)
    (n : InternalNode) :
    (fromN2NP inet senderId data now ⟨.fresh, n⟩).2.n =
      match received inet data with
      | some pkt => n.processPacket pkt senderId now
      | none => n := by
  unfold fromN2NP received
  split
  · rename_i e p hp
    rw [hp]
  · rename_i p hp
    rw [hp]
  · rename_i pkt p hp
    rw [hp]
    dsimp only
    cases Packet.ofGTT inet pkt <;> rfl

/-- A packet that was built as the DHT builds it is processed as it was sent. -/
theorem fromN2NP_build (inet : Inet) (senderId : NodeId) {p : Packet} (hp : p.content.Legal)
    (hn : p.content.peerCount < 2 ^ 31) (now : Int) (n : InternalNode) :
    fromN2NP inet senderId p.toGTTPacket.build now ⟨.fresh, n⟩ =
      (none, ⟨.fresh, n.processPacket p.carried senderId now⟩) := by
  have hread := Packet.ofGTT_eq inet p (Packet.readContent_writeContent inet p.from hp hn)
  simp only [fromN2NP, Packet.getPacket_build hp, hread]
  rfl

end Node
end Epyx.DHT
