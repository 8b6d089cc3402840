import Epyx.DHT.Packet
import Epyx.Parser.Framing

/-! What a DHT packet is read back as: encoder and decoder of each method agree on every field the
method carries. -/
namespace Epyx.DHT
open N2NP (NodeId)
open Lib

/-- The peers whose text can be found again in a list of peers. -/
structure Peer.Legal (p : Peer) : Prop where
  noAt : 64 ∉ p.n2npId.name
  noPercent : 37 ∉ p.n2npId.name
  relay : p.n2npId.relay.IsIPv4

namespace Content

/-- The contents a packet can carry. No string is longer than a `size_t` can count. -/
def Legal : Content → Prop
  | .store _ key value => isFlagValue key ∧ value.length < 2 ^ 63
  | .get _ key => isFlagValue key
  | .got _ _ value => value.length < 2 ^ 63
  | .found _ status _ foundPeers =>
    foundPeers ≠ [] ∧ status = 0 ∧ (∀ p ∈ foundPeers, p.Legal) ∧
      (foundPeers.flatMap Peer.serialize).length < 2 ^ 63
  | _ => True

/-- What the other side reads: no value with an error status, and the number of peers. -/
def carried : Content → Content
  | .got connectionId status value => .got connectionId status (Packet.valueOf status value)
  | .found connectionId status _ foundPeers =>
    .found connectionId status (Int32.ofNat foundPeers.length) foundPeers
  | c => c

def peerCount : Content → Nat
  | .found _ _ _ foundPeers => foundPeers.length
  | _ => 0

end Content

/-- The packet the other side reads. -/
def Packet.carried (p : Packet) : Packet := { p with content := p.content.carried }

/-! ### Fields -/

theorem Packet.int_fromInt (n : Int32) : int (Text.fromInt n.toInt) = .ok n := by
  have hl := n.le_toInt
  have hu := n.toInt_lt
  rw [int, Text.toInt_fromInt (by omega) (by omega)]
  simp [Except.map]

/-- The `%` of a peer is the first one in its text, and the id ends before the next peer. -/
theorem Peer.Legal.unserialize_serialize {p : Peer} (h : p.Legal) (inet : Inet) (rest : ByteStr) :
    Peer.unserialize inet (p.serialize ++ rest) = .ok (p, rest) := by
  have hpc : ∀ c ∈ p.n2npId.print, (c != 37) = true := fun c hc => by
    refine bne_iff_ne.mpr fun he => ?_
    subst he
    rcases List.mem_append.mp hc with hn | hr
    · exact h.noPercent hn
    · rcases List.mem_cons.mp hr with h64 | hr
      · cases h64
      · rcases h.relay.print_bytes hr with hd | hd | hd <;> revert hd <;> decide
  have hs : p.serialize ++ rest = p.n2npId.print ++ 37 :: (p.id.print ++ rest) := by
    simp [Peer.serialize]
  have ht : (p.serialize ++ rest).takeWhile (· != 37) = p.n2npId.print := by
    rw [hs, List.takeWhile_append_of_pos hpc]; simp
  have hd : (p.serialize ++ rest).dropWhile (· != 37) = 37 :: (p.id.print ++ rest) := by
    rw [hs, List.dropWhile_append_of_pos hpc]; simp
  simp [Peer.unserialize, ht, hd, NodeId.ofString_print h.noAt h.relay inet, Id.read_print,
    Except.map]

/-- As many peers are read as are asked for, of those that were written. -/
theorem Packet.readPeers_serialize (inet : Inet) (ps : List Peer) (hps : ∀ p ∈ ps, p.Legal)
    (n : Nat) (hn : n ≤ ps.length) (rest : ByteStr) :
    readPeers inet n (ps.flatMap Peer.serialize ++ rest) = .ok (ps.take n) := by
  induction ps generalizing n with
  | nil =>
    obtain rfl : n = 0 := by simpa using hn
    rfl
  | cons p ps ih =>
    cases n with
    | zero => rfl
    | succ n =>
      have hp := (hps p (by simp)).unserialize_serialize inet (ps.flatMap Peer.serialize ++ rest)
      have hih := ih (fun q hq => hps q (by simp [hq])) n (by simpa using hn)
      rw [List.flatMap_cons, List.append_assoc, readPeers, hp]
      simp [bind, Except.bind, hih, pure, Except.pure]

theorem Id.print_isFlagValue (id : Id) : isFlagValue id.print := by
  refine GTTParser.isFlagValue_of_forall id.print_ne_nil fun c hc => ?_
  rcases Id.print_bytes hc with hd | hl | rfl
  · exact GTTParser.isdigit_printable hd
  · exact GTTParser.islower_printable hl
  · decide

/-! ### Packets -/

namespace Packet

theorem headers_insert {headers : Headers} {k v : ByteStr}
    (hk : isFlagName k ∧ ¬GTTParser.isContentLength k) (hv : isFlagValue v)
    (h : ∀ x ∈ headers.toList, isFlagName x.1 ∧ ¬GTTParser.isContentLength x.1 ∧ isFlagValue x.2) :
    ∀ x ∈ (headers.insert k v).toList,
      isFlagName x.1 ∧ ¬GTTParser.isContentLength x.1 ∧ isFlagValue x.2 :=
  TreeMap.forall_toList_insert (GTTParser.headerOk hk hv) h

theorem connectionid_name :
    isFlagName (lit "connectionid") ∧ ¬GTTParser.isContentLength (lit "connectionid") := by decide

theorem status_name :
    isFlagName (lit "status") ∧ ¬GTTParser.isContentLength (lit "status") := by decide

theorem count_name : isFlagName (lit "count") ∧ ¬GTTParser.isContentLength (lit "count") := by
  decide

theorem key_name : isFlagName (lit "key") ∧ ¬GTTParser.isContentLength (lit "key") := by decide

theorem target_name : isFlagName (lit "target") ∧ ¬GTTParser.isContentLength (lit "target") := by
  decide

theorem from_name : isFlagName (lit "from") ∧ ¬GTTParser.isContentLength (lit "from") := by decide

theorem writeContent_method (headers : Headers) (content : Content) :
    isName (writeContent headers content).1 := by
  cases content <;> simp only [writeContent] <;> decide

theorem writeContent_headers {headers : Headers} {content : Content} (hc : content.Legal)
    (h : ∀ x ∈ headers.toList,
      isFlagName x.1 ∧ ¬GTTParser.isContentLength x.1 ∧ isFlagValue x.2) :
    ∀ x ∈ (writeContent headers content).2.1.toList,
      isFlagName x.1 ∧ ¬GTTParser.isContentLength x.1 ∧ isFlagValue x.2 := by
  have hint : ∀ n : Int32, isFlagValue (Text.fromInt n.toInt) := fun n =>
    GTTParser.fromInt_isFlagValue _
  cases content with
  | ping => exact h
  | pong => exact h
  | store connectionId key value =>
    exact headers_insert connectionid_name (hint _) <| headers_insert key_name hc.1 h
  | stored connectionId status =>
    exact headers_insert status_name (hint _) <| headers_insert connectionid_name (hint _) h
  | get connectionId key =>
    exact headers_insert connectionid_name (hint _) <| headers_insert key_name hc h
  | got connectionId status value =>
    exact headers_insert status_name (hint _) <| headers_insert connectionid_name (hint _) h
  | find connectionId count idToFind =>
    exact headers_insert target_name idToFind.print_isFlagValue <|
      headers_insert count_name (hint _) <| headers_insert connectionid_name (hint _) h
  | found connectionId status count foundPeers =>
    exact headers_insert status_name (hint _) <| headers_insert count_name (hint _) <|
      headers_insert connectionid_name (hint _) h

theorem valueOf_length (status : Int32) {value : ByteStr} (h : value.length < 2 ^ 63) :
    (valueOf status value).length < 2 ^ 63 := by
  unfold valueOf; split
  · exact h
  · decide

theorem writeContent_body (headers : Headers) {content : Content} (hc : content.Legal) :
    (writeContent headers content).2.2.length < 2 ^ 63 := by
  cases content with
  | store connectionId key value => exact hc.2
  | got connectionId status value => exact valueOf_length status hc
  | found connectionId status count foundPeers => exact valueOf_length status hc.2.2.2
  | _ => simp [writeContent]

theorem toGTTPacket_wellFormed {p : Packet} (h : p.content.Legal) :
    p.toGTTPacket.WellFormed where
  protocol := show isName (lit "DHT") by decide
  method := writeContent_method _ _
  headers := writeContent_headers h (headers_insert from_name p.from.print_isFlagValue (by simp))
  body := writeContent_body _ h

/-! ### What is read back -/

theorem header_eq {pkt : GTTPacket} {name : String} {v : ByteStr}
    (h : pkt.headers[lit name]? = some v) : header pkt name = .ok v := by
  simp [header, h]

/-- The peers of a FOUND as `count` counts them. -/
theorem ofNat_toInt_toNat {n : Nat} (h : n < 2 ^ 31) : (Int32.ofNat n).toInt.toNat = n := by
  rw [Int32.toInt_ofNat_of_lt (by omega)]; rfl

/-- A count that does not fit the `int` counts fewer. -/
theorem ofNat_toInt_toNat_le (n : Nat) : (Int32.ofNat n).toInt.toNat ≤ n := by
  rw [Int32.toInt_ofNat']
  simp only [Int.bmod, Int32.size]
  omega

theorem serialize_ne_nil (p : Peer) : p.serialize ≠ [] := by simp [Peer.serialize]

/-- Of a FOUND as many peers are read as its count says. -/
theorem readContent_found (inet : Inet) («from» : Id) (connectionId count : Int32)
    {foundPeers : List Peer} (hne : foundPeers ≠ []) (hp : ∀ p ∈ foundPeers, p.Legal) :
    let n := Int32.ofNat foundPeers.length
    readContent inet (toGTTPacket ⟨«from», .found connectionId 0 count foundPeers⟩) =
      .ok (.found connectionId 0 n (foundPeers.take n.toInt.toNat)) := by
  intro n
  have hbody : foundPeers.flatMap Peer.serialize ≠ [] := fun h => by
    obtain ⟨p, hm⟩ := List.exists_mem_of_ne_nil _ hne
    exact serialize_ne_nil p (List.flatMap_eq_nil_iff.mp h p hm)
  have h : readContent inet (toGTTPacket ⟨«from», .found connectionId 0 count foundPeers⟩) =
      if foundPeers.flatMap Peer.serialize = [] then .error .terminate
      else do
        let status ← int (Text.fromInt (0 : Int32).toInt)
        let connectionId ← int (Text.fromInt connectionId.toInt)
        let count ← int (Text.fromInt n.toInt)
        let peers ← readPeers inet count.toInt.toNat
          (valueOf status (foundPeers.flatMap Peer.serialize))
        return .found connectionId status count peers := rfl
  have hread := readPeers_serialize inet foundPeers hp n.toInt.toNat (ofNat_toInt_toNat_le _) []
  rw [List.append_nil] at hread
  rw [h, if_neg hbody, int_fromInt, int_fromInt, int_fromInt]
  simp only [bind, Except.bind, valueOf, if_true, hread, pure, Except.pure]

/-- What is read of what was written for a content. -/
theorem readContent_writeContent (inet : Inet) («from» : Id) {content : Content}
    (hc : content.Legal) (hn : content.peerCount < 2 ^ 31) :
    readContent inet (toGTTPacket ⟨«from», content⟩) = .ok content.carried := by
  cases content with
  | ping => rfl
  | pong => rfl
  | store connectionId key value =>
    have h : readContent inet (toGTTPacket ⟨«from», .store connectionId key value⟩) = (do
        return .store (← int (Text.fromInt connectionId.toInt)) key value) := rfl
    rw [h, int_fromInt]; rfl
  | stored connectionId status =>
    have h : readContent inet (toGTTPacket ⟨«from», .stored connectionId status⟩) = (do
        return .stored (← int (Text.fromInt connectionId.toInt))
          (← int (Text.fromInt status.toInt))) := rfl
    rw [h, int_fromInt, int_fromInt]; rfl
  | get connectionId key =>
    have h : readContent inet (toGTTPacket ⟨«from», .get connectionId key⟩) = (do
        return .get (← int (Text.fromInt connectionId.toInt)) key) := rfl
    rw [h, int_fromInt]; rfl
  | got connectionId status value =>
    have h : readContent inet (toGTTPacket ⟨«from», .got connectionId status value⟩) = (do
        let connectionId ← int (Text.fromInt connectionId.toInt)
        let read ← int (Text.fromInt status.toInt)
        return .got connectionId read (valueOf read (valueOf status value))) := rfl
    have hv : valueOf status (valueOf status value) = valueOf status value := by
      unfold valueOf; split <;> rfl
    rw [h, int_fromInt, int_fromInt]
    exact congrArg (fun v => Except.ok (Content.got connectionId status v)) hv
  | find connectionId count idToFind =>
    have h : readContent inet (toGTTPacket ⟨«from», .find connectionId count idToFind⟩) = (do
        return .find (← int (Text.fromInt connectionId.toInt))
          (← int (Text.fromInt count.toInt)) (Id.read idToFind.print).1) := rfl
    have hid : Id.read idToFind.print = (idToFind, []) := by
      simpa using Id.read_print idToFind []
    rw [h, int_fromInt, int_fromInt, hid]; rfl
  | found connectionId status count foundPeers =>
    obtain ⟨hne, rfl, hp, -⟩ := hc
    have hlen : (Int32.ofNat foundPeers.length).toInt.toNat = foundPeers.length :=
      ofNat_toInt_toNat hn
    rw [readContent_found inet «from» connectionId count hne hp, hlen, List.take_length]
    rfl

theorem toGTTPacket_from (p : Packet) :
    p.toGTTPacket.headers[lit "from"]? = some p.from.print := by
  obtain ⟨«from», content⟩ := p
  cases content <;> rfl

/-- The sender is read back, and what follows is as good as the content. -/
theorem ofGTT_eq (inet : Inet) (p : Packet) {content : Content}
    (h : readContent inet p.toGTTPacket = .ok content) :
    ofGTT inet p.toGTTPacket = .ok ⟨p.from, content⟩ := by
  have hfrom : header p.toGTTPacket "from" = .ok p.from.print := header_eq p.toGTTPacket_from
  have hid : Id.read p.from.print = (p.from, []) := by simpa using Id.read_print p.from []
  simp [ofGTT, hfrom, h, hid, bind, Except.bind, pure, Except.pure]

theorem getPacket_build {p : Packet} (hp : p.content.Legal) :
    GTTParser.getPacket GTTParser.rules (GTTParser.fresh.eat p.toGTTPacket.build) =
      (.ok (some p.toGTTPacket), GTTParser.fresh) := by
  have h := GTTParser.getPacket_build (toGTTPacket_wellFormed hp) []
  rw [List.append_nil] at h
  rw [GTTParser.fresh_eat, h]
  rfl

/-- A packet that is built, parsed and read is the packet that was sent. -/
theorem ofGTT_build {p : Packet} (hp : p.content.Legal) (hn : p.content.peerCount < 2 ^ 31)
    (inet : Inet) :
    GTTParser.getPacket GTTParser.rules (GTTParser.fresh.eat p.toGTTPacket.build) =
        (.ok (some p.toGTTPacket), GTTParser.fresh) ∧
      ofGTT inet p.toGTTPacket = .ok p.carried ∧
      ∀ connectionId status count foundPeers,
        p.carried.content = .found connectionId status count foundPeers →
          count.toInt = foundPeers.length := by
  refine ⟨getPacket_build hp, ofGTT_eq inet p (readContent_writeContent inet p.from hp hn), ?_⟩
  intro connectionId status count foundPeers h
  obtain ⟨«from», content⟩ := p
  cases content <;> cases h
  exact Int32.toInt_ofNat_of_lt hn

/-- A FOUND of one peer. -/
theorem ofGTT_build_found :
    let id : Id := ⟨List.replicate 32 7, by decide⟩
    let peer : Peer := ⟨id, lit "a b", ⟨lit "192.168.0.1", 4⟩, 4242⟩
    let p : Packet := ⟨id, .found (-3) 0 9 [peer]⟩
    GTTParser.getPacket GTTParser.rules (GTTParser.fresh.eat p.toGTTPacket.build) =
        (.ok (some p.toGTTPacket), GTTParser.fresh) ∧
      ofGTT .zero p.toGTTPacket = .ok p.carried ∧
      ∀ connectionId status count foundPeers,
        p.carried.content = .found connectionId status count foundPeers →
          count.toInt = foundPeers.length := by
  intro id peer p
  have hip : IsIPv4 (lit "192.168.0.1") := ⟨⟨192, 168, 0, 1⟩, by decide⟩
  have hpeer : peer.Legal := ⟨by decide, by decide, rfl, hip⟩
  have hlegal : p.content.Legal := ⟨by simp, rfl, by simpa using hpeer, by decide⟩
  exact ofGTT_build hlegal (by decide) .zero

/-- `2^31` peers are counted as `-2^31`: whatever they are, none of them is read back. -/
theorem ofGTT_overflow (inet : Inet) («from» : Id) (connectionId count : Int32)
    {foundPeers : List Peer} (hlen : foundPeers.length = 2147483648)
    (hp : ∀ p ∈ foundPeers, p.Legal) :
    ofGTT inet (toGTTPacket ⟨«from», .found connectionId 0 count foundPeers⟩) =
      .ok ⟨«from», .found connectionId 0 (-2147483648) []⟩ := by
  have hne : foundPeers ≠ [] := by rintro rfl; cases hlen
  have hcount : Int32.ofNat foundPeers.length = -2147483648 := by rw [hlen]; decide
  have hread := readContent_found inet «from» connectionId count hne hp
  rw [hcount] at hread
  exact ofGTT_eq inet _ hread

/-- A FOUND of `2^31` peers is legal and arrives, but without its peers. -/
theorem ofGTT_build_overflow :
    let id : Id := ⟨List.replicate 32 7, by decide⟩
    let peer : Peer := ⟨id, lit "a", ⟨lit "192.168.0.1", 4⟩, 4242⟩
    let p : Packet := ⟨id, .found 1 0 0 (List.replicate 2147483648 peer)⟩
    p.content.Legal ∧
      GTTParser.getPacket GTTParser.rules (GTTParser.fresh.eat p.toGTTPacket.build) =
        (.ok (some p.toGTTPacket), GTTParser.fresh) ∧
      ofGTT .zero p.toGTTPacket = .ok ⟨id, .found 1 0 (-2147483648) []⟩ ∧
      List.replicate 2147483648 peer ≠ [] := by
  intro id peer p
  have hip : IsIPv4 (lit "192.168.0.1") := ⟨⟨192, 168, 0, 1⟩, by decide⟩
  have hpeer : peer.Legal := ⟨by decide, by decide, rfl, hip⟩
  have hsize : peer.serialize.length = 98 := by decide
  have hne : List.replicate 2147483648 peer ≠ [] := by
    simp only [ne_eq, List.replicate_eq_nil_iff]; decide
  have hall : ∀ q ∈ List.replicate 2147483648 peer, q.Legal := fun q hq =>
    List.eq_of_mem_replicate hq ▸ hpeer
  have hlegal : p.content.Legal := by
    refine ⟨hne, rfl, hall, ?_⟩
    rw [List.length_flatMap, List.map_replicate, List.sum_replicate_nat, hsize]
    decide
  exact ⟨hlegal, getPacket_build hlegal, ofGTT_overflow .zero id 1 0 List.length_replicate hall,
    hne⟩

end Packet
end Epyx.DHT
