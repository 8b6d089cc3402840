import Epyx.DHT.Modest
import Epyx.DHT.Stack
import Mathlib.Data.List.Flatten

/-! What the nodes send can be carried by N2NP and the streams, so that hosts at a relay do what the
nodes of a network do. -/
namespace Epyx.DHT
open N2NP (NodeId)
open Lib

/-- A header costs its line. -/
theorem length_insert (headers : Headers) (key value : ByteStr) :
    ((headers.insert key value).toList.flatMap GTTPacket.headerLine).length ≤
      key.length + value.length + 4 + (headers.toList.flatMap GTTPacket.headerLine).length := by
  have hnodup : (headers.insert key value).toList.Nodup := by
    refine List.Pairwise.imp (fun {a b} hab heq => hab ?_) Std.ExtTreeMap.distinct_keys_toList
    rw [heq]
    exact Std.ReflCmp.compare_self
  have hsub : (headers.insert key value).toList ⊆ (key, value) :: headers.toList := fun x hx =>
    Lib.TreeMap.forall_toList_insert (P := (· ∈ (key, value) :: headers.toList)) (.head _)
      (fun y hy => .tail _ hy) x hx
  obtain ⟨l, hperm, hsublist⟩ := hnodup.subperm hsub
  have hline : (GTTPacket.headerLine (key, value)).length = key.length + value.length + 4 := by
    have hparts : (lit ": ").length = 2 ∧ crlf.length = 2 := ⟨rfl, rfl⟩
    simp only [GTTPacket.headerLine, List.length_append, hparts]
    omega
  calc ((headers.insert key value).toList.flatMap GTTPacket.headerLine).length
      = (l.flatMap GTTPacket.headerLine).length := (hperm.flatMap_right _).length_eq.symm
    _ ≤ (((key, value) :: headers.toList).flatMap GTTPacket.headerLine).length :=
      (hsublist.flatMap _).length_le
    _ = _ := by rw [List.flatMap_cons, List.length_append, hline]

theorem Int32.length_fromInt (n : Int32) : (Text.fromInt n.toInt).length ≤ 11 := by
  have hn : toInt32 n.toInt = n.toInt := by
    have hl := n.le_toInt
    have hu := n.toInt_lt
    unfold toInt32
    omega
  rw [← hn]
  exact N2NP.Packet.length_fromInt _

theorem Peer.length_serialize {p : Peer} (h : p.n2npId.Short) :
    p.serialize.length ≤ 2 ^ 20 + 80 := by
  have hid := p.id.print_counts.2.2
  have hlen := h.length
  rw [serialize, List.length_append, List.length_cons, hid]
  omega

theorem Peer.length_serializes {peers : List Peer} (h : ∀ p ∈ peers, p.n2npId.Short) :
    (peers.flatMap Peer.serialize).length ≤ peers.length * (2 ^ 20 + 80) := by
  induction peers with
  | nil => exact Nat.zero_le _
  | cons p peers ih =>
    have hp := length_serialize (h p (.head _))
    have hrest := ih fun q hq => h q (.tail _ hq)
    rw [List.flatMap_cons, List.length_append, List.length_cons, Nat.succ_mul]
    omega

namespace Packet

/-- The headers are short, whatever the content, and so are the values. -/
theorem length_writeContent {content : Content} (h : content.Modest)
    (hpeers : ∀ p ∈ content.peers, p.n2npId.Short) (headers : Headers) :
    (writeContent headers content).1.length ≤ 6 ∧
      ((writeContent headers content).2.1.toList.flatMap GTTPacket.headerLine).length ≤
        2 ^ 21 + (headers.toList.flatMap GTTPacket.headerLine).length ∧
      (writeContent headers content).2.2.length ≤ 2 ^ 29 := by
  have hnames : (lit "key").length = 3 ∧ (lit "connectionid").length = 12 ∧
    (lit "status").length = 6 ∧ (lit "count").length = 5 ∧ (lit "target").length = 6 :=
    ⟨rfl, rfl, rfl, rfl, rfl⟩
  -- a content inserts no more than three headers
  have htwo : ∀ k v k' v', (((headers.insert k v).insert k' v').toList.flatMap
      GTTPacket.headerLine).length ≤ k.length + v.length + 4 + (k'.length + v'.length + 4) +
        (headers.toList.flatMap GTTPacket.headerLine).length := fun k v k' v' => by
    have hfirst := length_insert headers k v
    have hnext := length_insert (headers.insert k v) k' v'
    omega
  have hthree : ∀ k v k' v' l w,
      ((((headers.insert k v).insert k' v').insert l w).toList.flatMap
        GTTPacket.headerLine).length ≤ k.length + v.length + 4 + (k'.length + v'.length + 4) +
          (l.length + w.length + 4) + (headers.toList.flatMap GTTPacket.headerLine).length :=
    fun k v k' v' l w => by
      have hfirst := htwo k v k' v'
      have hnext := length_insert ((headers.insert k v).insert k' v') l w
      omega
  have hvalue : ∀ (status : Int32) (body : ByteStr), body.length ≤ 2 ^ 29 →
      (valueOf status body).length ≤ 2 ^ 29 := fun status body hbody => by
    unfold valueOf
    split
    · exact hbody
    · exact Nat.zero_le _
  have hmethod : (writeContent headers content).1.length ≤ 6 := by
    cases content <;> exact Nat.le_of_ble_eq_true rfl
  cases content with
  | ping => exact ⟨hmethod, Nat.le_add_left _ _, Nat.zero_le _⟩
  | pong => exact ⟨hmethod, Nat.le_add_left _ _, Nat.zero_le _⟩
  | get connectionId key =>
    have hkey := IsKey.length h
    have hid := Int32.length_fromInt connectionId
    have hlines := htwo (lit "key") key (lit "connectionid") (Text.fromInt connectionId.toInt)
    exact ⟨hmethod, hlines.trans (by omega), Nat.zero_le _⟩
  | store connectionId key value =>
    have hkey := IsKey.length h.1
    have hid := Int32.length_fromInt connectionId
    have hlines := htwo (lit "key") key (lit "connectionid") (Text.fromInt connectionId.toInt)
    exact ⟨hmethod, hlines.trans (by omega), h.2⟩
  | stored connectionId status =>
    have hid := Int32.length_fromInt connectionId
    have hstatus := Int32.length_fromInt status
    have hlines := htwo (lit "connectionid") (Text.fromInt connectionId.toInt) (lit "status")
      (Text.fromInt status.toInt)
    exact ⟨hmethod, hlines.trans (by omega), Nat.zero_le _⟩
  | got connectionId status value =>
    have hid := Int32.length_fromInt connectionId
    have hstatus := Int32.length_fromInt status
    have hlines := htwo (lit "connectionid") (Text.fromInt connectionId.toInt) (lit "status")
      (Text.fromInt status.toInt)
    exact ⟨hmethod, hlines.trans (by omega), hvalue status value h⟩
  | find connectionId count idToFind =>
    have hid := Int32.length_fromInt connectionId
    have hcount := Int32.length_fromInt count
    have htarget := idToFind.print_counts.2.2
    have hlines := hthree (lit "connectionid") (Text.fromInt connectionId.toInt) (lit "count")
      (Text.fromInt count.toInt) (lit "target") idToFind.print
    exact ⟨hmethod, hlines.trans (by omega), Nat.zero_le _⟩
  | found connectionId status count foundPeers =>
    have hid := Int32.length_fromInt connectionId
    have hcount := Int32.length_fromInt (Int32.ofNat foundPeers.length)
    have hstatus := Int32.length_fromInt status
    have hlines := hthree (lit "connectionid") (Text.fromInt connectionId.toInt) (lit "count")
      (Text.fromInt (Int32.ofNat foundPeers.length).toInt) (lit "status")
      (Text.fromInt status.toInt)
    have hbody := Peer.length_serializes hpeers
    have hfive : foundPeers.length ≤ 5 := h.2.2
    have hsum := Nat.mul_le_mul_right (2 ^ 20 + 80) hfive
    exact ⟨hmethod, hlines.trans (by omega), hvalue status _ (hbody.trans (hsum.trans (by decide)))⟩

theorem length_build {pkt : Packet} (h : pkt.content.Modest)
    (hpeers : ∀ p ∈ pkt.content.peers, p.n2npId.Short) :
    pkt.toGTTPacket.build.length ≤ 2 ^ 30 := by
  obtain ⟨hmethod, hheaders, hbody⟩ := length_writeContent h hpeers
    ((∅ : Headers).insert (lit "from") pkt.from.print)
  have hfrom := length_insert ∅ (lit "from") pkt.from.print
  have hid := pkt.from.print_counts.2.2
  have hline := N2NP.Packet.length_contentLine (lt_of_le_of_lt hbody (by decide))
  have hnone : ((∅ : Headers).toList.flatMap GTTPacket.headerLine).length = 0 := rfl
  have hparts : (lit "DHT").length = 3 ∧ (lit " ").length = 1 ∧ crlf.length = 2 ∧
    (lit "from").length = 4 := ⟨rfl, rfl, rfl, rfl⟩
  show (lit "DHT" ++ lit " " ++ _ ++ crlf ++ _ ++ GTTPacket.contentLine _ ++ crlf ++ _).length ≤ _
  simp only [List.length_append, hparts]
  dsimp only [toGTTPacket]
  omega

end Packet

namespace Deployment
variable {ι : Type*} [DecidableEq ι] {D : Deployment ι} {log : Log ι}

/-- What the nodes send can be carried. -/
theorem carriable_of_run {s : ι → InternalNode}
    (hids : ∀ i, (D.n2npId i).Short ∧ 37 ∉ (D.n2npId i).name)
    (run : network.Run (fun _ log e => D.Delivers log e ∧ e.2.Mannerly)
      D.init s log) {i : ι} {dest : NodeId} {pkt : Packet} (hsent : (i, .send dest pkt) ∈ log) :
    pkt.Carriable dest := by
  obtain ⟨hmodest, hping⟩ := (modest_of_run run).1 _ hsent
  obtain ⟨hdest, hpeers⟩ :=
    (honest_of_run (run.mono fun _ _ _ h => ⟨h.1, h.2.tame⟩)).tells _ hsent
  have hshort : ∀ p ∈ pkt.content.peers, p.n2npId.Short ∧ 37 ∉ p.n2npId.name := fun p hp => by
    obtain ⟨j, rfl⟩ := hpeers p hp
    exact hids j
  have hsize := Packet.length_build hmodest fun p hp => (hshort p hp).1
  obtain ⟨«from», content⟩ := pkt
  refine ⟨?_, ?_, ?_, hsize⟩
  · by_cases hp : content = .ping
    · exact hping hp
    · obtain ⟨j, rfl⟩ := hdest hp
      exact (hids j).1
  · cases content with
    | get connectionId key => exact hmodest.text
    | store connectionId key value => exact ⟨hmodest.1.text, lt_of_le_of_lt hmodest.2 (by decide)⟩
    | got connectionId status value => exact lt_of_le_of_lt hmodest (by decide)
    | found connectionId status count foundPeers =>
      obtain ⟨hstatus, hne, hfive⟩ := hmodest
      have hbody := Peer.length_serializes fun p hp => (hshort p hp).1
      have hsum := Nat.mul_le_mul_right (2 ^ 20 + 80) hfive
      refine ⟨hne, hstatus, fun p hp => ?_, lt_of_le_of_lt (hbody.trans hsum) (by decide)⟩
      obtain ⟨hlegal, hpercent⟩ := hshort p hp
      exact ⟨hlegal.noAt, hpercent, hlegal.relay⟩
    | _ => trivial
  · cases content with
    | found connectionId status count foundPeers =>
      exact lt_of_le_of_lt hmodest.2.2 (by decide)
    | _ => exact Nat.two_pow_pos 31

end Deployment

namespace Stack
variable {ι : Type*} [DecidableEq ι] {D : Deployment ι} {s : Stack ι} {log : Log ι}

/-- A packet that is received has been sent by a node of the network. -/
theorem Works.mannerly {t : ι → InternalNode}
    (run : Deployment.network.Run (Works D fun _ _ e => e.2.Mannerly)
      D.init t log) :
    Deployment.network.Run (fun _ log e => D.Delivers log e ∧ e.2.Mannerly)
      D.init t log := by
  refine run.mono fun _ _ e he => ?_
  obtain ⟨i, e⟩ := e
  cases e with
  | receive pkt senderId now => exact ⟨he.1, trivial⟩
  | _ => exact ⟨he.1, he.2 rfl⟩

/-- With users who give what can be carried, the hosts send nothing else, so that they do what the
nodes of the network do; and no `eat` throws. -/
theorem carriable_of_mannerly {inet : Inet} {net : SendCalls}
    (hnet : N2NP.Whole net) (hids : ∀ i, (D.n2npId i).Short ∧ 37 ∉ (D.n2npId i).name)
    {s₀ : Stack ι} (hattached : Attached D s₀)
    (run : (machine inet net).Run
      (fun s log e => e.Allowed (fun _ _ e => e.2.Mannerly) s log) s₀ s log) :
    (∀ i dest pkt, (i, .send dest pkt) ∈ log → pkt.Carriable dest) ∧
      Deployment.network.Run (fun _ log e => D.Delivers log e ∧ e.2.Mannerly)
        D.init s.nodes log ∧
      ∀ i k, (s.readUp inet net i k).1 = none ∧
        ∀ times, (s.readDown inet net i k times).1 = none := by
  have hshort : ∀ i, (D.n2npId i).Short := fun i => (hids i).1
  have hboth : Deployment.network.Run (Works D fun _ _ e => e.2.Mannerly)
      D.init s.nodes log ∧ Follows D log s := by
    induction run with
    | start => exact ⟨hattached.nodes ▸ .start, hattached.follows⟩
    | step run allowed taken ih =>
      obtain ⟨hrun, hfollows⟩ := ih
      obtain ⟨hnext, hnew⟩ := hfollows.step hnet hshort hrun allowed taken
      -- what the step sends can be carried, as the nodes of the network send it
      exact ⟨hnext, hnew fun i dest pkt hsent =>
        Deployment.carriable_of_run hids (Works.mannerly hnext) (List.mem_append_right _ hsent)⟩
  obtain ⟨hrun, hfollows⟩ := hboth
  exact ⟨fun i dest pkt => Deployment.carriable_of_run hids (Works.mannerly hrun),
    Works.mannerly hrun, hfollows.eats inet hnet hshort⟩

/-- The only user pings the other host. -/
def pings : Event Bool → Bool
  | .act _ (.sendPing dest) => dest == Deployment.pair.n2npId false
  | .act _ _ => false
  | _ => true

theorem carriable_of_mannerly_pair :
    ∃ s log, (machine Inet.zero fun _ n => .ok n).Run
        (fun s log e => e.Allowed (fun _ _ e => e.2.Mannerly) s log) pair s log ∧
      (true, .send (Deployment.pair.n2npId false) ⟨Deployment.pair.id true, .ping⟩) ∈ log ∧
      ∀ i dest pkt, (i, .send dest pkt) ∈ log → pkt.Carriable dest := by
  have h : ((machine Inet.zero fun _ n => .ok n).exec (fun _ _ e => pings e)
      (pair, []) pinged).map Prod.snd =
      some [(true, .send (Deployment.pair.n2npId false) ⟨Deployment.pair.id true, .ping⟩)] := by
    decide +kernel
  obtain ⟨⟨s, log⟩, hrun, hlog⟩ := Option.map_eq_some_iff.mp h
  have run : (machine Inet.zero fun _ n => .ok n).Run
      (fun s log e => e.Allowed (fun _ _ e => e.2.Mannerly) s log) pair s log := by
    refine (Machine.Run.exec .start hrun).mono fun s log e he => ?_
    cases e with
    | act i e =>
      cases e with
      | sendPing dest =>
        obtain rfl := eq_of_beq he
        exact pair_short false
      | _ => cases he
    | _ => trivial
  have hids : ∀ b, (Deployment.pair.n2npId b).Short ∧ 37 ∉ (Deployment.pair.n2npId b).name :=
    fun b => ⟨pair_short b, by cases b <;> decide⟩
  refine ⟨s, log, run, ?_, (carriable_of_mannerly N2NP.whole_ok hids pair_attached run).1⟩
  rw [show log = _ from hlog]
  exact .head _

end Stack
end Epyx.DHT
