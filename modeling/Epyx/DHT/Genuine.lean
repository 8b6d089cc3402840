import Epyx.DHT.FindCount
import Epyx.DHT.Network
import Epyx.DHT.Pointers
import Mathlib.Data.Fintype.Card

/-! What the nodes of a network know of each other: whatever is lost, late or doubled, every peer
in a table, in a FOUND and in a search is a node of the network, at its own address. -/
namespace Epyx.DHT
open N2NP (NodeId)
open Lib

namespace InternalNode
variable {log : List Output} {n : InternalNode}

/-- The table is that of a network of one node, the one that is seen. -/
theorem Tidy.seenPeer (h : Tidy n) (hout : n.out = []) (peerId : Id) (n2npId : NodeId) (now : Int) :
    Tidy (n.seenPeer peerId n2npId now).1 ∧
      (n.seenPeer peerId n2npId now).2 < (n.seenPeer peerId n2npId now).1.objects.length := by
  have hlater := (n.kbucket.seenPeer_later n.objects peerId n2npId now).length
  let only : Deployment Unit :=
    ⟨fun _ => peerId, fun _ => n2npId, fun _ => 0, fun _ _ _ => rfl, fun _ _ _ => rfl⟩
  obtain ⟨htable, ⟨o, ho, -⟩, -⟩ := KBucket.seenPeer_names only h.table () now
  refine ⟨⟨htable, fun m hm => (h.messages m hm).later hlater,
    fun m hm => (h.timeouts m hm).later hlater, fun o ho => ?_⟩, (List.getElem?_eq_some_iff.mp ho).1⟩
  rw [show (n.seenPeer peerId n2npId now).1.out = n.out from rfl, hout] at ho
  cases ho

theorem Holds.dispatch (h : Holds log n) {sender : SPtr} {answer : Answer}
    (hsender : sender < n.objects.length) (hanswer : n.objects.Has answer.peers) :
    Holds log (n.dispatchToProcessActor sender answer) := by
  unfold dispatchToProcessActor
  split
  · refine h.post fun p hp => ?_
    rcases List.mem_cons.mp hp with rfl | hp
    · exact hsender
    · exact hanswer p hp
  · exact h

theorem Holds.processPacket (h : Holds log n) (hout : n.out = []) (pkt : Packet)
    (senderId : NodeId) (now : Int) : Holds log (n.processPacket pkt senderId now) := by
  have hlater := n.kbucket.seenPeer_later n.objects pkt.from senderId now
  obtain ⟨htidy, hsender⟩ := h.tidy.seenPeer hout pkt.from senderId now
  have hseen : Holds log (n.seenPeer pkt.from senderId now).1 :=
    h.congr htidy rfl rfl hlater fun _ => rfl
  have hmail : ∀ m : Message, m.peers = [(n.seenPeer pkt.from senderId now).2] →
      (n.seenPeer pkt.from senderId now).1.objects.Has m.peers := fun m hm p hp => by
    rw [hm, List.mem_singleton] at hp
    rw [hp]
    exact hsender
  unfold InternalNode.processPacket
  cases pkt.content with
  | ping => exact hseen.post (hmail _ rfl)
  | pong => exact hseen
  | get connectionId key => exact hseen.post (hmail _ rfl)
  | store connectionId key value => exact hseen.post (hmail _ rfl)
  | find connectionId count idToFind => exact hseen.post (hmail _ rfl)
  | got connectionId status value => exact hseen.dispatch hsender nofun
  | stored connectionId status => exact hseen.dispatch hsender nofun
  | found connectionId status count foundPeers =>
    have happend := Peers.Later.append (n.seenPeer pkt.from senderId now).1.objects
      (foundPeers.map fun p => ⟨p, 0⟩)
    have hread : Holds log ((n.seenPeer pkt.from senderId now).1.readPeers foundPeers).1 := by
      refine hseen.congr ⟨hseen.tidy.table.later happend.length,
        fun m hm => (hseen.tidy.messages m hm).later happend.length,
        fun m hm => (hseen.tidy.timeouts m hm).later happend.length, fun o ho => ?_⟩ rfl rfl happend
        fun _ => rfl
      rw [show ((n.seenPeer pkt.from senderId now).1.readPeers foundPeers).1.out = n.out from rfl,
        hout] at ho
      cases ho
    refine hread.dispatch (Nat.lt_of_lt_of_le hsender happend.length) fun p hp => ?_
    have hrange := List.mem_range'_1.mp hp
    show p < (_ ++ foundPeers.map fun p => (⟨p, 0⟩ : SharedPeer)).length
    rw [List.length_append, List.length_map]
    exact hrange.2

/-- A user's callback finds in the vector of peers what it is shown. -/
def Event.Tame : Event → Prop
  | .setValue _ _ _ edit => ∀ peers, edit peers ⊆ peers
  | _ => True

theorem Holds.handle {n' : InternalNode} (h : Holds log n)
    (hout : n.out = []) {e : Event} (he : e.Tame) (hn : n.handle e = some n') :
    Holds log n' := by
  cases e with
  | receive pkt senderId now => cases hn; exact h.processPacket hout pkt senderId now
  | work k keyId =>
    obtain ⟨m, hm, hn⟩ := Option.bind_eq_some_iff.mp hn
    have htaken : Holds log { n with messages := n.messages.eraseIdx k } :=
      h.congr ⟨h.tidy.table, fun m hm => h.tidy.messages m (List.mem_of_mem_eraseIdx hm),
        h.tidy.timeouts, h.tidy.out⟩ rfl rfl (.refl _) fun _ => rfl
    exact htaken.treat (h.tidy.messages m (List.mem_of_getElem? hm)) hn
  | expire k =>
    obtain ⟨m, hm, rfl⟩ := Option.map_eq_some_iff.mp hn
    have htaken : Holds log { n with timeouts := n.timeouts.eraseIdx k } :=
      h.congr ⟨h.tidy.table, h.tidy.messages,
        fun m hm => h.tidy.timeouts m (List.mem_of_mem_eraseIdx hm), h.tidy.out⟩ rfl rfl (.refl _)
        fun _ => rfl
    exact htaken.post (h.tidy.timeouts m (List.mem_of_getElem? hm))
  | sendPing dest => cases hn; exact h.emit (.inl rfl) fun _ => rfl
  | findClosest count idToFind => exact h.findClosest hn
  | getValue key keyId => exact (h.add (.getter (.new key)) rfl).findClosest hn
  | setValue key value keyId edit =>
    exact (h.add (.setter (.new key value (.user edit))) ⟨rfl, he⟩).findClosest hn

/-- Only a packet writes to the table and makes objects. -/
theorem handle_sameTable {n' : InternalNode} {e : Event}
    (he : ∀ pkt senderId now, e ≠ .receive pkt senderId now)
    (h : n.handle e = some n') : SameTable n n' := by
  cases e with
  | receive pkt senderId now => exact absurd rfl (he pkt senderId now)
  | work k keyId =>
    obtain ⟨m, -, hn'⟩ := Option.bind_eq_some_iff.mp h
    have htaken : SameTable n { n with messages := n.messages.eraseIdx k } := ⟨rfl, rfl⟩
    exact htaken.trans (treat_sameTable hn')
  | expire k =>
    obtain ⟨m, -, rfl⟩ := Option.map_eq_some_iff.mp h
    exact ⟨rfl, rfl⟩
  | sendPing dest => cases h; exact ⟨rfl, rfl⟩
  | findClosest count idToFind => exact (SameTable.refl n).findClosest h
  | getValue key keyId => exact (SameTable.add n _).findClosest h
  | setValue key value keyId edit => exact (SameTable.add n _).findClosest h

/-- A packet adds the peers it tells of to the objects, once its sender is seen. -/
theorem processPacket_table (n : InternalNode) (pkt : Packet) (senderId : NodeId) (now : Int) :
    (n.processPacket pkt senderId now).kbucket = (n.seenPeer pkt.from senderId now).1.kbucket ∧
      (n.processPacket pkt senderId now).objects = (n.seenPeer pkt.from senderId now).1.objects ++
        pkt.content.peers.map fun p => ⟨p, 0⟩ := by
  have hd : ∀ (n : InternalNode) (sender : SPtr) (answer : Answer),
      (n.dispatchToProcessActor sender answer).kbucket = n.kbucket ∧
        (n.dispatchToProcessActor sender answer).objects = n.objects := fun n sender answer => by
    unfold dispatchToProcessActor
    split <;> exact ⟨rfl, rfl⟩
  unfold processPacket
  cases pkt.content with
  | found connectionId status count foundPeers => exact hd _ _ _
  | got connectionId status value =>
    obtain ⟨hkbucket, hobjects⟩ := hd (n.seenPeer pkt.from senderId now).1
      (n.seenPeer pkt.from senderId now).2 (.got connectionId status value)
    exact ⟨hkbucket, hobjects.trans (List.append_nil _).symm⟩
  | stored connectionId status =>
    obtain ⟨hkbucket, hobjects⟩ := hd (n.seenPeer pkt.from senderId now).1
      (n.seenPeer pkt.from senderId now).2 (.stored connectionId status)
    exact ⟨hkbucket, hobjects.trans (List.append_nil _).symm⟩
  | _ => exact ⟨rfl, (List.append_nil _).symm⟩

/-- Objects are not lost. -/
theorem handle_length {n' : InternalNode} {e : Event}
    (h : n.handle e = some n') : n.objects.length ≤ n'.objects.length := by
  by_cases hreceive : ∃ pkt senderId now, e = .receive pkt senderId now
  · obtain ⟨pkt, senderId, now, rfl⟩ := hreceive
    cases h
    rw [(processPacket_table n pkt senderId now).2, List.length_append]
    exact Nat.le_add_right_of_le (n.kbucket.seenPeer_later n.objects pkt.from senderId now).length
  · have hsame := handle_sameTable (fun pkt senderId now heq => hreceive ⟨pkt, senderId, now, heq⟩) h
    rw [hsame.objects]

end InternalNode

namespace KBucket

/-- What is seen is the only new entry of the table, and what it says of itself the only news. -/
theorem seenPeer_news (k : KBucket) (objects : Peers) (peerId : Id) (n2npId : NodeId) (now : Int) :
    (∀ p ∈ (k.seenPeer objects peerId n2npId now).1.buckets.flatten,
      p ∈ k.buckets.flatten ∨ p = (k.seenPeer objects peerId n2npId now).2.2) ∧
    ∀ o ∈ (k.seenPeer objects peerId n2npId now).2.1,
      o ∈ objects ∨ o.toPeer = ⟨peerId, n2npId⟩ := by
  unfold seenPeer
  dsimp only
  split
  · refine ⟨fun q hq => ?_, fun o ho => ?_⟩
    · rcases mem_flatten_set hq with hq | hq
      · exact .inl hq
      · rcases List.mem_append.mp hq with hq | hq
        · exact .inl (mem_flatten_of_getD (List.mem_of_mem_eraseP hq))
        · exact .inr (List.mem_singleton.mp hq)
    · rcases List.mem_or_eq_of_mem_set ho with ho | rfl
      · exact .inl ho
      · exact .inr rfl
  · refine ⟨fun q hq => ?_, fun o ho => ?_⟩
    · rcases mem_flatten_set hq with hq | hq
      · exact .inl hq
      · have hroom : ∀ q ∈ (makeRoom objects now (k.buckets.getD
            (Distance.between k.ownId peerId).firstActiveBit [])).2, q ∈ k.buckets.flatten :=
          fun q hq => mem_flatten_of_getD ((makeRoom_sublist _ _ _).subset hq)
        split at hq
        · rcases List.mem_append.mp hq with hq | hq
          · exact .inl (hroom q hq)
          · exact .inr (List.mem_singleton.mp hq)
        · exact .inl (hroom q hq)
    · rcases List.mem_append.mp ho with ho | ho
      · exact .inl ho
      · rw [List.mem_singleton.mp ho]
        exact .inr rfl

end KBucket

/-! ### The network -/

open InternalNode

namespace Deployment
variable {ι : Type*} (D : Deployment ι)

/-- The node `j` has sent something to the node `i`. -/
def Contacted (log : Log ι) (j i : ι) : Prop := ∃ pkt, (j, .send (D.n2npId i) pkt) ∈ log

/-- A packet goes to a node, unless a user has it ping some address, and it tells of nodes. -/
def Tells : Output → Prop
  | .send dest pkt => (pkt.content ≠ .ping → ∃ i, dest = D.n2npId i) ∧
      ∀ p ∈ pkt.content.peers, ∃ j, p = D.peer j
  | _ => True

/-- What the node `i` knows of peers is true of them, and its table has those that have sent
something to it. -/
structure Genuine (log : Log ι) (i : ι) (n : InternalNode) : Prop where
  objects : ∀ o ∈ n.objects, ∃ j, o.toPeer = D.peer j
  table : ∀ p ∈ n.kbucket.buckets.flatten, ∃ j, D.Names n.objects p j ∧ D.Contacted log j i

variable {D} {log log' : Log ι} {i : ι} {n n' : InternalNode}

theorem Genuine.mono (h : D.Genuine log i n) (hl : log ⊆ log') : D.Genuine log' i n := by
  refine ⟨h.objects, fun p hp => ?_⟩
  obtain ⟨j, hj, pkt, hpkt⟩ := h.table p hp
  exact ⟨j, hj, pkt, hl hpkt⟩

theorem Genuine.sameTable (h : D.Genuine log i n) (hsame : SameTable n n') :
    D.Genuine log i n' := by
  refine ⟨fun o ho => h.objects o (hsame.objects ▸ ho), fun p hp => ?_⟩
  rw [hsame.objects]
  exact h.table p (hsame.kbucket ▸ hp)

/-- Where every object is that of a node every pointer is. -/
theorem Genuine.names (h : D.Genuine log i n) {p : SPtr} (hp : p < n.objects.length) :
    ∃ j, D.Names n.objects p j := by
  obtain ⟨j, hj⟩ := h.objects _ (List.getElem_mem hp)
  exact ⟨j, _, List.getElem?_eq_getElem hp, hj⟩

theorem Genuine.tells (h : D.Genuine log i n) {o : Output} (ho : o.Fits n.objects) :
    D.Tells o := by
  cases o with
  | send dest pkt =>
    rcases ho with hping | ⟨⟨o, hmem, rfl⟩, hpeers⟩
    · refine ⟨fun hne => absurd hping hne, ?_⟩
      rw [hping]
      exact nofun
    · refine ⟨fun _ => ?_, fun p hp => ?_⟩
      · obtain ⟨j, hj⟩ := h.objects o hmem
        exact ⟨j, congrArg Peer.n2npId hj⟩
      · obtain ⟨o, hmem, rfl⟩ := hpeers p hp
        exact h.objects o hmem
  | _ => trivial

/-- A packet of the node `j` comes in, which tells of nodes. -/
theorem Genuine.processPacket (h : D.Genuine log i n) (htidy : Tidy n) {j : ι} {p : Packet}
    (hsent : (j, .send (D.n2npId i) p) ∈ log) (hfrom : p.from = D.id j)
    (htells : ∀ q ∈ p.content.peers, ∃ l, q = D.peer l) (now : Int) :
    D.Genuine log i (n.processPacket p.carried (D.n2npId j) now) := by
  obtain ⟨hkbucket, hobjects⟩ := processPacket_table n p.carried (D.n2npId j) now
  have hcarried : p.carried.content.peers = p.content.peers := by
    obtain ⟨id, content⟩ := p
    cases content <;> rfl
  rw [show p.carried.from = D.id j from hfrom] at hkbucket hobjects
  rw [hcarried] at hobjects
  obtain ⟨htable, hnews⟩ := n.kbucket.seenPeer_news n.objects (D.id j) (D.n2npId j) now
  obtain ⟨-, hseen, hnames⟩ := KBucket.seenPeer_names D htidy.table j now
  refine ⟨fun o ho => ?_, fun q hq => ?_⟩
  · rw [hobjects] at ho
    rcases List.mem_append.mp ho with ho | ho
    · rcases hnews o ho with ho | ho
      · exact h.objects o ho
      · exact ⟨j, ho⟩
    · obtain ⟨q, hq, rfl⟩ := List.mem_map.mp ho
      exact htells q hq
  · rw [hkbucket] at hq
    rw [hobjects]
    rcases htable q hq with hq | rfl
    · obtain ⟨l, hl, hcontacted⟩ := h.table q hq
      exact ⟨l, (hnames q l hl).append _, hcontacted⟩
    · exact ⟨j, hseen.append _, p, hsent⟩

theorem Genuine.handle (h : D.Genuine log i n) (htidy : Tidy n)
    (hlog : ∀ x ∈ log, D.Tells x.2) (hfrom : ∀ j dest p, (j, .send dest p) ∈ log → p.from = D.id j)
    {e : Event} (he : D.Delivers log (i, e)) (hn : n.handle e = some n') :
    D.Genuine log i n' := by
  by_cases hreceive : ∃ pkt senderId now, e = .receive pkt senderId now
  · obtain ⟨pkt, senderId, now, rfl⟩ := hreceive
    obtain ⟨j, p, hsent, rfl, rfl⟩ := he
    cases hn
    exact h.processPacket htidy hsent (hfrom _ _ _ hsent) (hlog _ hsent).2 now
  · refine h.sameTable (handle_sameTable (fun pkt senderId now heq => hreceive ?_) hn)
    exact ⟨pkt, senderId, now, heq⟩

theorem from_of_grounded (h : Grounded D.Justified log) {j : ι} {dest : NodeId} {p : Packet}
    (hsent : (j, .send dest p) ∈ log) : p.from = D.id j := by
  obtain ⟨l₁, l₂, rfl⟩ := List.append_of_mem hsent
  exact (h l₁ _ l₂ rfl).1

/-- What is true of a network at all times. -/
structure Honest (D : Deployment ι) [DecidableEq ι] (log : Log ι) (s : ι → InternalNode) : Prop where
  holds : ∀ i, Holds (Machine.logOf i log) (s i)
  out : ∀ i, (s i).out = []
  genuine : ∀ i, D.Genuine log i (s i)
  tells : ∀ x ∈ log, D.Tells x.2
  calls : ∀ i a cb, (i, .call a cb) ∈ log → (s i).objects.Has cb.peers

/-- What is delivered was sent, and users find in a vector of peers what they are shown. -/
def Fair (D : Deployment ι) (log : Log ι) (e : ι × InternalNode.Event) : Prop :=
  D.Delivers log e ∧ e.2.Tame

def fair (D : Deployment ι) (log : Log ι) (e : ι × InternalNode.Event) : Bool :=
  D.delivers log e && match e.2 with
    | .setValue _ _ _ _ => false
    | _ => true

theorem fair_sound {e : ι × InternalNode.Event} (h : D.fair log e) : D.Fair log e := by
  obtain ⟨hdelivers, htame⟩ := Bool.and_eq_true_iff.mp h
  refine ⟨D.delivers_sound hdelivers, ?_⟩
  obtain ⟨i, e⟩ := e
  cases e with
  | setValue key value keyId edit => cases htame
  | _ => trivial

variable [DecidableEq ι]

/-- One node takes a step. -/
theorem Honest.step {s : ι → InternalNode} (h : Honest D log s)
    (hlog : Grounded D.Justified log) {e : InternalNode.Event} (he : D.Fair log (i, e))
    (hn : (s i).handle e = some n') :
    Honest D (log ++ n'.out.map (Prod.mk i)) (Function.update s i { n' with out := [] }) := by
  have hholds := (h.holds i).handle (h.out i) he.2 hn
  have hgenuine := (h.genuine i).handle (h.holds i).tidy h.tells
    (fun j dest p hsent => from_of_grounded hlog hsent) he.1 hn
  have hsub : log ⊆ log ++ n'.out.map (Prod.mk i) := List.subset_append_left _ _
  refine ⟨fun j => ?_, fun j => ?_, fun j => ?_, fun x hx => ?_, fun j a cb hcall => ?_⟩
  · rw [Machine.logOf_append, Machine.logOf_map]
    by_cases hj : j = i
    · subst hj
      rw [Function.update_self, if_pos rfl]
      refine ⟨⟨hholds.tidy.table, hholds.tidy.messages, hholds.tidy.timeouts, nofun⟩,
        hholds.placed, ?_, ?_, ?_⟩
      · simpa using hholds.actors
      · simpa using hholds.unmade
      · simpa using hholds.bound
    · rw [Function.update_of_ne hj, if_neg (Ne.symm hj), List.append_nil]
      exact h.holds j
  · by_cases hj : j = i
    · rw [hj, Function.update_self]
    · rw [Function.update_of_ne hj]
      exact h.out j
  · by_cases hj : j = i
    · subst hj
      rw [Function.update_self]
      exact (hgenuine.mono hsub).sameTable ⟨rfl, rfl⟩
    · rw [Function.update_of_ne hj]
      exact (h.genuine j).mono hsub
  · rcases List.mem_append.mp hx with hx | hx
    · exact h.tells x hx
    · obtain ⟨o, ho, rfl⟩ := List.mem_map.mp hx
      exact hgenuine.tells (hholds.tidy.out o ho)
  · by_cases hj : j = i
    · subst hj
      rw [Function.update_self]
      rcases List.mem_append.mp hcall with hcall | hcall
      · have hlater : (s j).objects.length ≤ n'.objects.length := handle_length hn
        exact (h.calls j a cb hcall).later hlater
      · obtain ⟨o, ho, heq⟩ := List.mem_map.mp hcall
        cases heq
        exact hholds.tidy.out _ ho
    · rw [Function.update_of_ne hj]
      rcases List.mem_append.mp hcall with hcall | hcall
      · exact h.calls j a cb hcall
      · obtain ⟨o, -, heq⟩ := List.mem_map.mp hcall
        exact absurd (congrArg Prod.fst heq).symm hj

theorem honest_of_run {s : ι → InternalNode}
    (run : network.Run (fun _ log e => D.Fair log e) D.init s log) :
    Honest D log s := by
  induction run with
  | start =>
    have hempty : ∀ i, (D.init i).kbucket.buckets.flatten = [] := fun i =>
      List.flatten_eq_nil_iff.mpr fun b hb => List.eq_of_mem_replicate hb
    refine ⟨fun i => ⟨⟨?_, nofun, nofun, nofun⟩, placed_new _ _ _, ?_, fun _ _ => rfl,
      fun _ => Nat.zero_le _⟩, fun _ => rfl, fun i => ⟨nofun, ?_⟩, nofun, nofun⟩
    · rw [hempty]
      exact nofun
    · intro a p hp
      simp [init, InternalNode.new] at hp
    · rw [hempty]
      exact nofun
  | @step s s' log out e run allowed taken ih =>
    obtain ⟨i, e⟩ := e
    obtain ⟨t, o, ht, rfl, rfl⟩ := Machine.family_step taken
    obtain ⟨n', hn, heq⟩ := Option.map_eq_some_iff.mp ht
    cases heq
    exact ih.step (sound_of_run (run.mono fun _ _ _ h => h.1)).1 allowed hn

/-- The node `false` has been pinged, and searches for its own id: it asks the other node, and then
itself, since the answer tells of it. -/
def searchItself : List (Bool × InternalNode.Event) :=
  let id := pair.id
  let n2npId := pair.n2npId
  [(true, .sendPing (n2npId false)), (false, .receive ⟨id true, .ping⟩ (n2npId true) 0),
    (false, .findClosest 1 (id false)),
    (true, .receive ⟨id false, .find 0 5 (id false)⟩ (n2npId false) 1), (true, .work 0 .zero),
    (false, .receive ⟨id true, .found 0 0 1 [pair.peer false]⟩ (n2npId true) 2),
    (false, .work 1 .zero), (false, .receive ⟨id false, .find 1 5 (id false)⟩ (n2npId false) 3),
    (false, .work 1 .zero),
    (false, .receive ⟨id false, .found 1 0 2 [pair.peer true, pair.peer false]⟩ (n2npId false) 4),
    (false, .work 1 .zero)]

/-- Whatever the network does to the packets, every peer a node holds, in its table, in its mail
and in its searches, is a node at its own address, and those in the table have sent something to
it; nodes write to nodes and tell of nodes, and users are shown nodes. -/
theorem peers_genuine {s : ι → InternalNode}
    (run : network.Run (fun _ log e => D.Fair log e) D.init s log) :
    (∀ i, ∀ p ∈ (s i).kbucket.buckets.flatten, ∃ j,
      D.Names (s i).objects p j ∧ D.Contacted log j i) ∧
    (∀ i, ∀ m ∈ (s i).messages ++ (s i).timeouts, ∀ p ∈ m.peers, ∃ j,
      D.Names (s i).objects p j) ∧
    (∀ i (a : ActorId) (p : ProcessActor) f, (s i).actors[a]? = some p → p.role = .finder f →
      ∀ x ∈ f.shortlist ++ f.foundPeers, ∃ j, D.Names (s i).objects x.2 j) ∧
    (∀ j dest pkt, (j, .send dest pkt) ∈ log → pkt.from = D.id j ∧
      (pkt.content ≠ .ping → ∃ i, dest = D.n2npId i) ∧
      ∀ p ∈ pkt.content.peers, ∃ l, p = D.peer l) ∧
    ∀ i a cb, (i, .call a cb) ∈ log → ∀ p ∈ cb.peers, ∃ j, D.Names (s i).objects p j := by
  have h := honest_of_run run
  have hsound := (sound_of_run (run.mono fun _ _ _ h => h.1)).1
  refine ⟨fun i => (h.genuine i).table, fun i m hm p hp => ?_, fun i a p f hp hf x hx => ?_,
    fun j dest pkt hsent => ⟨from_of_grounded hsound hsent, h.tells _ hsent⟩,
    fun i a cb hcall p hp => (h.genuine i).names (h.calls i a cb hcall p hp)⟩
  · rcases List.mem_append.mp hm with hm | hm
    · exact (h.genuine i).names ((h.holds i).tidy.messages m hm p hp)
    · exact (h.genuine i).names ((h.holds i).tidy.timeouts m hm p hp)
  · have hfits := (h.holds i).actors a p hp
    rw [hf] at hfits
    obtain ⟨target, count, notes, htracks, -⟩ := hfits
    rcases List.mem_append.mp hx with hx | hx
    · exact (h.genuine i).names (htracks.shortlist_has x.2 (List.mem_map_of_mem hx))
    · exact (h.genuine i).names (htracks.foundPeers_has x.2 (List.mem_map_of_mem hx))

theorem peers_genuine_search :
    ∃ s log, network.Run (fun _ log e => pair.Fair log e) pair.init s log ∧
      (false, .call 5 (.onFound [1])) ∈ log ∧ ∃ j, pair.Names (s false).objects 1 j := by
  have h : (network.exec (fun _ log e => pair.fair log e) (pair.init, [])
      searchItself).map (fun r => r.2.getLast?) =
      some (some (false, .call 5 (.onFound [1]))) := by
    decide +kernel
  obtain ⟨⟨s, log⟩, hrun, hlog⟩ := Option.map_eq_some_iff.mp h
  have run := (Machine.Run.exec .start hrun).mono fun _ _ _ => fair_sound
  have hcall := List.mem_of_getLast? hlog
  exact ⟨s, log, run, hcall, (peers_genuine run).2.2.2.2 _ _ _ hcall 1 (.head _)⟩

/-- A search sends no more FINDs than there are nodes. -/
theorem finds_le_card [Fintype ι] {s : ι → InternalNode}
    (run : network.Run (fun _ log e => D.Fair log e) D.init s log) (i : ι)
    (a : ActorId) : findsOf a (Machine.logOf i log) ≤ Fintype.card ι := by
  have h := honest_of_run run
  have hbound := (h.holds i).bound a
  rw [h.out i, List.append_nil] at hbound
  refine hbound.trans ?_
  rw [← Finset.card_univ, ← Finset.card_image_of_injective _ D.id_injective]
  refine Finset.card_le_card fun id hid => ?_
  obtain ⟨o, ho, rfl⟩ := List.mem_map.mp (List.mem_toFinset.mp hid)
  obtain ⟨j, hj⟩ := (h.genuine i).objects o ho
  exact Finset.mem_image.mpr ⟨j, Finset.mem_univ j, (congrArg Peer.id hj).symm⟩

theorem finds_le_card_search :
    ∃ s log, network.Run (fun _ log e => pair.Fair log e) pair.init s log ∧
      findsOf 5 (Machine.logOf false log) = 2 ∧
      findsOf 5 (Machine.logOf false log) ≤ Fintype.card Bool := by
  have h : (network.exec (fun _ log e => pair.fair log e) (pair.init, [])
      searchItself).map (fun r => findsOf 5 (Machine.logOf false r.2)) = some 2 := by
    decide +kernel
  obtain ⟨⟨s, log⟩, hrun, hlog⟩ := Option.map_eq_some_iff.mp h
  have run := (Machine.Run.exec .start hrun).mono fun _ _ _ => fair_sound
  exact ⟨s, log, run, hlog, finds_le_card run false 5⟩

end Deployment
end Epyx.DHT
