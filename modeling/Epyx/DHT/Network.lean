import Epyx.DHT.ConnectionIds
import Epyx.DHT.Handlers
import Epyx.DHT.Wire

/-! A network of DHT nodes. A packet can be lost, come late, come twice and overtake others, but
nobody makes one up, and what is read of it is what was written (`Packet.ofGTT_eq`). -/
namespace Epyx.DHT
open N2NP (NodeId)
open Lib

/-- The nodes of a network. An id is that of one node, and so is an address. -/
structure Deployment (ι : Type*) where
  id : ι → Id
  n2npId : ι → NodeId
  /-- what stands in the counter of the connection ids at the start -/
  start : ι → Int64
  id_injective : Function.Injective id
  n2npId_injective : Function.Injective n2npId

/-- What the nodes have put out, in the order of time. -/
abbrev Log (ι : Type*) := List (ι × Output)

/-- The node `j` has asked for the key under the id, as a packet carries it. -/
def Asked {ι : Type*} (log : Log ι) (j : ι) (connectionId : Int32) (key : ByteStr) : Prop :=
  ∃ a c, (j, .query a c (.get key)) ∈ log ∧ c.toInt32 = connectionId

/-- Some node has processed a STORE of the value under the key. -/
def Stored {ι : Type*} (log : Log ι) (key value : ByteStr) : Prop :=
  ∃ j, (j, .stored key value) ∈ log

/-- The value was stored under the key the node `j` has asked for under the id. -/
def Answers {ι : Type*} (log : Log ι) (j : ι) (connectionId : Int32) (value : ByteStr) : Prop :=
  ∃ key, Asked log j connectionId key ∧ Stored log key value

/-- The actor `a` of the node `j` has asked for the key under an id that the value answers. -/
def Earned {ι : Type*} (log : Log ι) (j : ι) (a : ActorId) (key value : ByteStr) : Prop :=
  ∃ c d, (j, .query a c (.get key)) ∈ log ∧ d.toInt64 = c ∧ Answers log j d value

namespace Deployment
variable {ι : Type*} (D : Deployment ι)

def peer (i : ι) : Peer := ⟨D.id i, D.n2npId i⟩

def init (i : ι) : InternalNode := .new (D.id i) (D.n2npId i) (D.start i)

/-- A packet is received by the node it was sent to, from the node that has sent it. -/
def Delivers (log : Log ι) : ι × InternalNode.Event → Prop
  | (i, .receive pkt senderId _) =>
    ∃ j p, (j, .send (D.n2npId i) p) ∈ log ∧ pkt = p.carried ∧ senderId = D.n2npId j
  | _ => True

/-- The counters stay within `int`: the ids fit into the packets. -/
def CountersFit [DecidableEq ι] (log : Log ι) : Prop :=
  ∀ i, -2 ^ 31 ≤ (D.start i).toInt ∧
    (D.start i).toInt + (issued (Machine.logOf i log)).length ≤ 2 ^ 31

/-- A GET goes out because somebody asks; a GOT with a value goes to somebody who has asked for
the key of that value. -/
def SoundContent (log : Log ι) (j : ι) (dest : NodeId) : Content → Prop
  | .get connectionId key => Asked log j connectionId key
  | .got connectionId status value =>
    status = 0 → ∃ i, dest = D.n2npId i ∧ Answers log i connectionId value
  | _ => True

/-- Why the node `j` puts this out, after what the log says. -/
def Justified (log : Log ι) : ι × Output → Prop
  | (j, .send dest pkt) => pkt.from = D.id j ∧ D.SoundContent log j dest pkt.content
  | (j, .call a (.onGot key value)) => Earned log j a key value
  | _ => True

/-- The object is one the routing table has made for the node `j`. -/
def Names (objects : Peers) (p : SPtr) (j : ι) : Prop :=
  ∃ o, objects[p]? = some o ∧ o.toPeer = D.peer j

/-- A GET in the mail was asked for by its sender, and a GOT answers what the node has asked. -/
def SoundMessage (log : Log ι) (i : ι) (objects : Peers) : Message → Prop
  | .get sender connectionId key => ∃ j, D.Names objects sender j ∧ Asked log j connectionId key
  | .process _ (.receive _ (.got connectionId status value)) =>
    status = 0 → Answers log i connectionId value
  | _ => True

end Deployment

/-- Every id a getter has was given to it for a GET of its key. -/
def SoundActor {ι : Type*} (log : Log ι) (i : ι) (a : ActorId) (p : ProcessActor) : Prop :=
  ∀ key, p.role.key = some key → ∀ c ∈ p.queries, (i, .query a c (.get key)) ∈ log

/-- What is true of the node `i` after what the log says, as long as all nodes run this code. -/
structure Sound {ι : Type*} (D : Deployment ι) (log : Log ι) (i : ι) (n : InternalNode) :
    Prop where
  grounded : Grounded D.Justified log
  id : n.id = D.id i
  buckets : ∀ p ∈ n.kbucket.buckets.flatten, p < n.objects.length
  storage : ∀ key value, n.storage[key]? = some value → Stored log key value
  actors : ∀ a p, n.actors[a]? = some p → SoundActor log i a p
  messages : ∀ m ∈ n.messages, D.SoundMessage log i n.objects m
  timeouts : ∀ m ∈ n.timeouts, D.SoundMessage log i n.objects m

/-! ### What was true stays true -/

section Mono
variable {ι : Type*} {D : Deployment ι} {log log' : Log ι}

theorem Asked.mono {j : ι} {c : Int32} {key : ByteStr} (h : Asked log j c key)
    (hl : log ⊆ log') : Asked log' j c key := by
  obtain ⟨a, d, hq, hd⟩ := h
  exact ⟨a, d, hl hq, hd⟩

theorem Stored.mono {key value : ByteStr} (h : Stored log key value) (hl : log ⊆ log') :
    Stored log' key value := by
  obtain ⟨j, hj⟩ := h
  exact ⟨j, hl hj⟩

theorem Answers.mono {j : ι} {c : Int32} {value : ByteStr} (h : Answers log j c value)
    (hl : log ⊆ log') : Answers log' j c value := by
  obtain ⟨key, ha, hs⟩ := h
  exact ⟨key, ha.mono hl, hs.mono hl⟩

theorem Earned.mono {j : ι} {a : ActorId} {key value : ByteStr} (h : Earned log j a key value)
    (hl : log ⊆ log') : Earned log' j a key value := by
  obtain ⟨c, d, hq, hd, ha⟩ := h
  exact ⟨c, d, hl hq, hd, ha.mono hl⟩

theorem SoundActor.mono {i : ι} {a : ActorId} {p : ProcessActor} (h : SoundActor log i a p)
    (hl : log ⊆ log') : SoundActor log' i a p :=
  fun key hk c hc => hl (h key hk c hc)

/-- The table may write to an object, as long as it stays that of the same node. -/
theorem Deployment.SoundMessage.mono {i : ι} {objects objects' : Peers} {m : Message}
    (h : D.SoundMessage log i objects m) (hl : log ⊆ log')
    (ho : ∀ p j, D.Names objects p j → D.Names objects' p j) :
    D.SoundMessage log' i objects' m := by
  cases m with
  | get sender connectionId key =>
    obtain ⟨j, hj, ha⟩ := h
    exact ⟨j, ho _ _ hj, ha.mono hl⟩
  | process a m =>
    cases m with
    | receive peer answer =>
      cases answer with
      | got connectionId status value => exact fun hs => (h hs).mono hl
      | _ => trivial
    | _ => trivial
  | _ => trivial

/-- The steps of the other nodes change nothing for a node. -/
theorem Sound.mono {i : ι} {n : InternalNode} (h : Sound D log i n) (hl : log ⊆ log')
    (hg : Grounded D.Justified log') : Sound D log' i n where
  grounded := hg
  id := h.id
  buckets := h.buckets
  storage key value hs := (h.storage key value hs).mono hl
  actors a p hp := (h.actors a p hp).mono hl
  messages m hm := (h.messages m hm).mono hl fun _ _ hn => hn
  timeouts m hm := (h.timeouts m hm).mono hl fun _ _ hn => hn

end Mono

/-! ### The routing table -/

namespace Deployment
variable {ι : Type*} {D : Deployment ι}

theorem Names.deref {objects : Peers} {p : SPtr} {j : ι} (h : D.Names objects p j) :
    (objects.deref p).toPeer = D.peer j := by
  obtain ⟨o, ho, hj⟩ := h
  rw [Peers.deref, List.getD_eq_getElem?_getD, ho, Option.getD_some, hj]

theorem Names.append {objects : Peers} {p : SPtr} {j : ι} (h : D.Names objects p j)
    (more : Peers) : D.Names (objects ++ more) p j := by
  obtain ⟨o, ho, hj⟩ := h
  exact ⟨o, List.getElem?_append_left (List.getElem?_eq_some_iff.mp ho).1 ▸ ho, hj⟩

/-- Writing to an object what its node says of itself. -/
theorem Names.set {objects : Peers} {p q : SPtr} {j l : ι} (h : D.Names objects q l)
    (hj : (objects.deref p).id = D.id j) (now : Int) :
    D.Names (objects.set p ⟨D.peer j, now⟩) q l := by
  by_cases hpq : p = q
  · subst hpq
    have hl : l = j := D.id_injective (by rw [← hj, h.deref]; rfl)
    obtain ⟨o, ho, -⟩ := h
    exact ⟨_, by rw [List.getElem?_set_self (List.getElem?_eq_some_iff.mp ho).1], by rw [hl]⟩
  · obtain ⟨o, ho, hl⟩ := h
    exact ⟨o, by rw [List.getElem?_set_ne hpq, ho], hl⟩

end Deployment

namespace KBucket

theorem mem_flatten_set {buckets : List (List SPtr)} {i : Nat} {peers : List SPtr} {p : SPtr}
    (h : p ∈ (buckets.set i peers).flatten) : p ∈ buckets.flatten ∨ p ∈ peers := by
  obtain ⟨b, hb, hp⟩ := List.mem_flatten.mp h
  rcases List.mem_or_eq_of_mem_set hb with hb | rfl
  · exact .inl (List.mem_flatten.mpr ⟨b, hb, hp⟩)
  · exact .inr hp

theorem mem_flatten_of_getD {buckets : List (List SPtr)} {i : Nat} {p : SPtr}
    (h : p ∈ buckets.getD i []) : p ∈ buckets.flatten := by
  rw [List.getD_eq_getElem?_getD] at h
  cases hb : buckets[i]? with
  | none => simp [hb] at h
  | some b => exact List.mem_flatten.mpr ⟨b, List.mem_of_getElem? hb, by simpa [hb] using h⟩

/-- The table keeps to the objects there are, the object of a sender says who that is, and the
others say what they said. -/
theorem seenPeer_names {ι : Type*} (D : Deployment ι) {k : KBucket} {objects : Peers}
    (hk : ∀ p ∈ k.buckets.flatten, p < objects.length) (j : ι) (now : Int) :
    (∀ p ∈ (k.seenPeer objects (D.id j) (D.n2npId j) now).1.buckets.flatten,
      p < (k.seenPeer objects (D.id j) (D.n2npId j) now).2.1.length) ∧
    D.Names (k.seenPeer objects (D.id j) (D.n2npId j) now).2.1
      (k.seenPeer objects (D.id j) (D.n2npId j) now).2.2 j ∧
    ∀ p l, D.Names objects p l →
      D.Names (k.seenPeer objects (D.id j) (D.n2npId j) now).2.1 p l := by
  unfold seenPeer
  dsimp only
  split
  · rename_i p hp
    have hid : (objects.deref p).id = D.id j := by simpa using List.find?_some hp
    have hmem := List.mem_of_find?_eq_some hp
    have hlt := hk p (mem_flatten_of_getD hmem)
    refine ⟨fun q hq => ?_, ⟨_, List.getElem?_set_self hlt, rfl⟩, fun q l hq => hq.set hid now⟩
    rw [List.length_set]
    rcases mem_flatten_set hq with hq | hq
    · exact hk q hq
    · rcases List.mem_append.mp hq with hq | hq
      · exact hk q (mem_flatten_of_getD (List.mem_of_mem_eraseP hq))
      · rw [List.mem_singleton.mp hq]
        exact hlt
  · refine ⟨fun q hq => ?_, ⟨_, List.getElem?_concat_length, rfl⟩, fun q l hq => hq.append _⟩
    have hroom : ∀ q ∈ (makeRoom objects now (k.buckets.getD
        (Distance.between k.ownId (D.id j)).firstActiveBit [])).2, q < objects.length := fun q hq =>
      hk q (mem_flatten_of_getD ((makeRoom_sublist _ _ _).subset hq))
    rw [List.length_append, List.length_singleton]
    rcases mem_flatten_set hq with hq | hq
    · exact Nat.lt_succ_of_lt (hk q hq)
    · split at hq
      · rcases List.mem_append.mp hq with hq | hq
        · exact Nat.lt_succ_of_lt (hroom q hq)
        · rw [List.mem_singleton.mp hq]
          exact Nat.lt_succ_self _
      · exact Nat.lt_succ_of_lt (hroom q hq)

end KBucket

/-! ### The operations of a node -/

namespace InternalNode
variable {ι : Type*} {D : Deployment ι} {log : Log ι} {i : ι}

/-- The log with what the node `i` has put out in the step that is under way. -/
def view (n : InternalNode) (log : Log ι) (i : ι) : Log ι := log ++ n.out.map (Prod.mk i)

theorem view_emit (n : InternalNode) (log : Log ι) (i : ι) (o : Output) :
    (n.emit o).view log i = n.view log i ++ [(i, o)] := by
  simp [view, emit]

theorem view_subset_emit (n : InternalNode) (log : Log ι) (i : ι) (o : Output) :
    n.view log i ⊆ (n.emit o).view log i := by
  rw [view_emit]
  exact List.subset_append_left _ _

theorem mem_view_emit (n : InternalNode) (log : Log ι) (i : ι) (o : Output) :
    (i, o) ∈ (n.emit o).view log i := by
  rw [view_emit]
  exact List.mem_append_right _ (List.mem_singleton_self _)

end InternalNode

open InternalNode

section Operations
variable {ι : Type*} {D : Deployment ι} {log : Log ι} {i : ι} {n : InternalNode}

theorem Sound.emit (h : Sound D (n.view log i) i n) {o : Output}
    (ho : D.Justified (n.view log i) (i, o)) : Sound D ((n.emit o).view log i) i (n.emit o) := by
  have hg : Grounded D.Justified ((n.emit o).view log i) := by
    rw [view_emit]
    exact h.grounded.concat ho
  have hm := h.mono (n.view_subset_emit log i o) hg
  exact ⟨hm.grounded, hm.id, hm.buckets, hm.storage, hm.actors, hm.messages, hm.timeouts⟩

theorem Sound.post (h : Sound D (n.view log i) i n) {m : Message}
    (hm : D.SoundMessage (n.view log i) i n.objects m) :
    Sound D ((n.post m).view log i) i (n.post m) := by
  refine ⟨h.grounded, h.id, h.buckets, h.storage, h.actors, fun m' hm' => ?_, h.timeouts⟩
  rcases List.mem_append.mp hm' with hm' | hm'
  · exact h.messages m' hm'
  · rw [List.mem_singleton.mp hm']
    exact hm

theorem Sound.arm (h : Sound D (n.view log i) i n) {m : Message}
    (hm : D.SoundMessage (n.view log i) i n.objects m) :
    Sound D ((n.arm m).view log i) i (n.arm m) := by
  refine ⟨h.grounded, h.id, h.buckets, h.storage, h.actors, h.messages, fun m' hm' => ?_⟩
  rcases List.mem_append.mp hm' with hm' | hm'
  · exact h.timeouts m' hm'
  · rw [List.mem_singleton.mp hm']
    exact hm

/-- The registry of the connection ids does not matter: an answer that comes to the wrong actor is
one the actor does not know the id of. -/
theorem Sound.registry (h : Sound D (n.view log i) i n) (r : Std.ExtTreeMap Int64 ActorId)
    (c : Int64) : Sound D ({ n with processActors := r, processActorsCount := c }.view log i) i
      { n with processActors := r, processActorsCount := c } :=
  ⟨h.grounded, h.id, h.buckets, h.storage, h.actors, h.messages, h.timeouts⟩

theorem Sound.unregisterConnectionId (h : Sound D (n.view log i) i n) (c : Int64) :
    Sound D ((n.unregisterConnectionId c).view log i) i (n.unregisterConnectionId c) :=
  h.registry _ _

theorem Sound.send (h : Sound D (n.view log i) i n) {content : Content} {dest : SPtr}
    (hc : D.SoundContent (n.view log i) i (n.objects.deref dest).n2npId content) :
    Sound D ((n.send content dest).view log i) i (n.send content dest) :=
  h.emit ⟨h.id, hc⟩

/-- An actor that asks for something else than its key would spoil it. -/
theorem Sound.sendQuery (h : Sound D (n.view log i) i n) {a : ActorId} {p : ProcessActor}
    (hp : SoundActor (n.view log i) i a p) (peer : SPtr) {query : Query}
    (hq : ∀ key, p.role.key = some key → query = .get key) :
    Sound D ((n.sendQuery a p peer query).1.view log i) i (n.sendQuery a p peer query).1 ∧
      SoundActor ((n.sendQuery a p peer query).1.view log i) i a
        (n.sendQuery a p peer query).2 ∧
      n.view log i ⊆ (n.sendQuery a p peer query).1.view log i := by
  let c := n.processActorsCount
  let n₁ := n.registerNewConnectionId a
  let n₂ := n₁.emit (.query a c query)
  let n₃ := n₂.send (query.content c.toInt32) peer
  have h₁ : Sound D (n₁.view log i) i n₁ := h.registry _ _
  have h₂ : Sound D (n₂.view log i) i n₂ := h₁.emit trivial
  have hmem : (i, .query a c query) ∈ n₂.view log i := n₁.mem_view_emit log i _
  have hc : D.SoundContent (n₂.view log i) i (n₂.objects.deref peer).n2npId
      (query.content c.toInt32) := by
    cases query with
    | get key => exact ⟨a, c, hmem, rfl⟩
    | _ => trivial
  have h₃ : Sound D (n₃.view log i) i n₃ := h₂.send hc
  have h₂₃ : n₂.view log i ⊆ n₃.view log i := n₂.view_subset_emit log i _
  have h₁₂ : n.view log i ⊆ n₂.view log i := n₁.view_subset_emit log i _
  refine ⟨h₃.arm trivial, fun key hk d hd => ?_, fun x hx => h₂₃ (h₁₂ hx)⟩
  rcases Std.ExtTreeMap.mem_insert.mp hd with hd | hd
  · obtain rfl : c = d := by simpa using hd
    rw [← hq key hk]
    exact h₂₃ hmem
  · exact h₂₃ (h₁₂ (hp key hk d hd))

theorem Sound.perform {s : InternalNode × ProcessActor} {a : ActorId} {got : ByteStr → Prop}
    (h : Sound D (s.1.view log i) i s.1) (hp : SoundActor (s.1.view log i) i a s.2) {x : Action}
    (hx : x.Fits s.2.role.key got)
    (hgot : ∀ key value, s.2.role.key = some key → got value →
      Earned (s.1.view log i) i a key value) :
    Sound D ((perform a s x).1.view log i) i (perform a s x).1 ∧
      SoundActor ((perform a s x).1.view log i) i a (perform a s x).2 ∧
      s.1.view log i ⊆ (perform a s x).1.view log i ∧
      (perform a s x).2.role.key = s.2.role.key := by
  cases x with
  | sendQuery peer query =>
    obtain ⟨h₁, h₂, h₃⟩ := h.sendQuery hp peer hx
    exact ⟨h₁, h₂, h₃, rfl⟩
  | post actor message =>
    refine ⟨h.post ?_, hp, fun _ hy => hy, rfl⟩
    cases message with
    | receive peer answer => exact hx.elim
    | _ => trivial
  | timeout message =>
    obtain ⟨key, rfl⟩ := hx
    exact ⟨h.arm trivial, hp, fun _ hy => hy, rfl⟩
  | call callback =>
    have hsub := s.1.view_subset_emit log i (.call a callback)
    refine ⟨h.emit ?_, hp.mono hsub, hsub, rfl⟩
    cases callback with
    | onGot key value => exact hgot key value hx.1 hx.2
    | _ => trivial
  | kill => exact ⟨h.post trivial, hp, fun _ hy => hy, rfl⟩

/-- A handler that keeps the key of its actor keeps everything else as well. -/
theorem Sound.run (h : Sound D (n.view log i) i n) {a : ActorId} {p : ProcessActor}
    (hp : SoundActor (n.view log i) i a p) {got : ByteStr → Prop} {r : Role × List Action}
    (hr : p.role.Keeps got r)
    (hgot : ∀ key value, p.role.key = some key → got value → Earned (n.view log i) i a key value) :
    Sound D ((n.run a p r).view log i) i (n.run a p r) := by
  have hfold : ∀ (xs : List Action) (s : InternalNode × ProcessActor),
      Sound D (s.1.view log i) i s.1 → SoundActor (s.1.view log i) i a s.2 →
      (∀ x ∈ xs, x.Fits s.2.role.key got) →
      (∀ key value, s.2.role.key = some key → got value →
        Earned (s.1.view log i) i a key value) →
      Sound D ((xs.foldl (InternalNode.perform a) s).1.view log i) i
          (xs.foldl (InternalNode.perform a) s).1 ∧
        SoundActor ((xs.foldl (InternalNode.perform a) s).1.view log i) i a
          (xs.foldl (InternalNode.perform a) s).2 := by
    intro xs
    induction xs with
    | nil => exact fun s hs hsp _ _ => ⟨hs, hsp⟩
    | cons x xs ih =>
      intro s hs hsp hx hg
      obtain ⟨h₁, h₂, hsub, hk⟩ := hs.perform hsp (hx x (List.mem_cons_self ..)) hg
      refine ih _ h₁ h₂ (fun y hy => ?_) fun key value hkey hv => ?_
      · rw [hk]
        exact hx y (List.mem_cons_of_mem x hy)
      · exact (hg key value (hk ▸ hkey) hv).mono hsub
  obtain ⟨h₁, h₂⟩ := hfold r.2 (n, { p with role := r.1 }) h
    (fun key hk c hc => hp key (hr.1 ▸ hk) c hc)
    (fun x hx => by simpa only [hr.1] using hr.2 x hx)
    (fun key value hk hv => hgot key value (hr.1 ▸ hk) hv)
  refine ⟨h₁.grounded, h₁.id, h₁.buckets, h₁.storage, fun b q hq => ?_, h₁.messages, h₁.timeouts⟩
  rcases Lib.TreeMap.of_getElem?_insert hq with ⟨rfl, rfl⟩ | ⟨-, hq⟩
  · exact h₂
  · exact h₁.actors b q hq

theorem Sound.run_silent (h : Sound D (n.view log i) i n) {a : ActorId} {p : ProcessActor}
    (hp : SoundActor (n.view log i) i a p) {r : Role × List Action}
    (hr : p.role.Keeps (fun _ => False) r) :
    Sound D ((n.run a p r).view log i) i (n.run a p r) :=
  h.run hp hr fun _ _ _ hv => hv.elim

theorem SoundActor.settle {a : ActorId} {p : ProcessActor} (hp : SoundActor log i a p) {c : Int64}
    (hc : c ∈ p.queries) : SoundActor log i a { p with queries := p.queries.insert c false } := by
  intro key hk d hd
  rcases Std.ExtTreeMap.mem_insert.mp hd with hd | hd
  · obtain rfl : c = d := by simpa using hd
    exact hp key hk c hc
  · exact hp key hk d hd

/-- The actor gets an answer for an id it has: whatever it calls back was stored for that id. -/
theorem Sound.treatReceive (h : Sound D (n.view log i) i n) {a : ActorId} {p : ProcessActor}
    (hp : SoundActor (n.view log i) i a p) {peer : SPtr} {answer : Answer}
    (hm : D.SoundMessage (n.view log i) i n.objects (.process a (.receive peer answer))) :
    Sound D ((n.treatReceive a p answer).view log i) i (n.treatReceive a p answer) := by
  unfold InternalNode.treatReceive
  dsimp only
  split
  · rename_i hc
    let c := (answerId answer).toInt64
    let n₁ := (n.unregisterConnectionId c).emit (.onNewAnswer a c answer)
    have hsub : n.view log i ⊆ n₁.view log i :=
      (n.unregisterConnectionId c).view_subset_emit log i _
    have h₁ : Sound D (n₁.view log i) i n₁ := (h.unregisterConnectionId c).emit trivial
    have hmem : c ∈ p.queries :=
      Std.ExtTreeMap.mem_iff_isSome_getElem?.mpr (by rw [hc]; rfl)
    refine h₁.run ((hp.settle hmem).mono hsub) (p.role.onNewAnswer_keeps n₁.objects answer)
      fun key value hk hv => ?_
    obtain ⟨d, rfl⟩ := hv
    exact ⟨c, d, hsub (hp key hk c hmem), rfl, (hm rfl).mono hsub⟩
  · exact h

theorem Sound.treatTimeout (h : Sound D (n.view log i) i n) {a : ActorId} {p : ProcessActor}
    (hp : SoundActor (n.view log i) i a p) (c : Int64) :
    Sound D ((n.treatTimeout a p c).view log i) i (n.treatTimeout a p c) := by
  unfold InternalNode.treatTimeout
  dsimp only
  split
  · rename_i hc
    let n₁ := (n.unregisterConnectionId c).emit (.onAnswerTimeout a c)
    have hsub : n.view log i ⊆ n₁.view log i :=
      (n.unregisterConnectionId c).view_subset_emit log i _
    have h₁ : Sound D (n₁.view log i) i n₁ := (h.unregisterConnectionId c).emit trivial
    have hmem : c ∈ p.queries := Std.ExtTreeMap.mem_iff_isSome_getElem?.mpr hc
    exact h₁.run_silent ((hp.settle hmem).mono hsub) (p.role.onAnswerTimeout_keeps n₁.objects)
  · exact h

theorem Sound.treatProcess (h : Sound D (n.view log i) i n) {a : ActorId} {m : ProcessMessage}
    (hm : D.SoundMessage (n.view log i) i n.objects (.process a m)) :
    Sound D ((n.treatProcess a m).view log i) i (n.treatProcess a m) := by
  unfold InternalNode.treatProcess
  cases hp : n.actors[a]? with
  | none => exact h
  | some p =>
    have hsp := h.actors a p hp
    dsimp only
    split
    · cases m with
      | receive peer answer => exact h.treatReceive hsp hm
      | processTimeout c => exact h.treatTimeout hsp c
      | _ => exact h.run_silent hsp (p.role.treat_keeps n.objects n.id _)
    · obtain ⟨r, hr⟩ := foldl_unregister p.queries.keys n
      rw [InternalNode.destroy, hr]
      refine ⟨h.grounded, h.id, h.buckets, h.storage, fun b q hq => ?_, h.messages, h.timeouts⟩
      exact h.actors b q (Lib.TreeMap.of_getElem?_erase hq).2

theorem soundActor_new (log : Log ι) (i : ι) (a : ActorId) (role : Role) :
    SoundActor log i a ⟨true, ∅, role⟩ :=
  fun _ _ _ hc => absurd hc Std.ExtTreeMap.not_mem_empty

theorem Sound.add (h : Sound D (n.view log i) i n) (role : Role) :
    Sound D ((n.add role).view log i) i (n.add role) := by
  refine Sound.arm (n := { n with actorCount := _, actors := _ }) ?_ trivial
  refine ⟨h.grounded, h.id, h.buckets, h.storage, fun b q hq => ?_, h.messages, h.timeouts⟩
  rcases Lib.TreeMap.of_getElem?_insert hq with ⟨-, rfl⟩ | ⟨-, hq⟩
  · exact soundActor_new _ i b role
  · exact h.actors b q hq

theorem Sound.findClosest {n' : InternalNode} (h : Sound D (n.view log i) i n)
    {cb : FindCallback} {count : Int} {idToFind : Id}
    (hn : n.findClosest cb count idToFind = some n') : Sound D (n'.view log i) i n' := by
  obtain ⟨nearest, -, rfl⟩ := Option.map_eq_some_iff.mp hn
  refine (h.add _).run_silent (soundActor_new _ i _ _) ⟨rfl, fun x hx => ?_⟩
  exact FinderActor.sendQueries_searches n.objects _ _ x hx _

theorem Sound.storageSet (h : Sound D (n.view log i) i n) {key value : ByteStr}
    (hs : Stored (n.view log i) key value) :
    Sound D ((n.storageSet key value).view log i) i (n.storageSet key value) := by
  have hins : ∀ k v, (n.storage.insert key value)[k]? = some v → Stored (n.view log i) k v := by
    intro k v hv
    rcases Lib.TreeMap.of_getElem?_insert hv with ⟨rfl, rfl⟩ | ⟨-, hv⟩
    · exact hs
    · exact h.storage k v hv
  have h₁ : Sound D ({ n with storage := n.storage.insert key value }.view log i) i
      { n with storage := n.storage.insert key value } :=
    ⟨h.grounded, h.id, h.buckets, hins, h.actors, h.messages, h.timeouts⟩
  unfold InternalNode.storageSet
  dsimp only
  split
  · exact h₁.post trivial
  · exact h₁

theorem Sound.treatGet (h : Sound D (n.view log i) i n) {peer : SPtr} {c : Int32}
    {key : ByteStr} (hm : D.SoundMessage (n.view log i) i n.objects (.get peer c key)) :
    Sound D ((n.treatGet peer c key).view log i) i (n.treatGet peer c key) := by
  unfold InternalNode.treatGet
  split
  · rename_i value hv
    obtain ⟨j, hj, ha⟩ := hm
    exact h.send fun _ => ⟨j, congrArg Peer.n2npId hj.deref, key, ha, h.storage key value hv⟩
  · exact h.send fun h10 => absurd h10 (by decide)

theorem Sound.treat {keyId : Id} {n' : InternalNode}
    (h : Sound D (n.view log i) i n) {m : Message}
    (hm : D.SoundMessage (n.view log i) i n.objects m) (hn : n.treat keyId m = some n') :
    Sound D (n'.view log i) i n' := by
  cases m with
  | ping sender => cases hn; exact h.send trivial
  | get sender c key => cases hn; exact h.treatGet hm
  | store sender c key value =>
    cases hn
    have h₁ : Sound D ((n.emit (.stored key value)).view log i) i (n.emit (.stored key value)) :=
      h.emit trivial
    have h₂ := h₁.storageSet ⟨i, n.mem_view_emit log i _⟩
    exact h₂.send trivial
  | find sender c count idToFind =>
    obtain ⟨nearest, -, rfl⟩ := Option.map_eq_some_iff.mp hn
    exact h.send trivial
  | newKey key => cases hn; exact h.arm trivial
  | replicate key =>
    simp only [InternalNode.treat, treatReplicate] at hn
    split at hn
    · exact (h.add _).findClosest hn
    · cases hn; exact h
  | process a m => cases hn; exact h.treatProcess hm

theorem Sound.dispatch (h : Sound D (n.view log i) i n) {sender : SPtr} {answer : Answer}
    (hm : ∀ a, D.SoundMessage (n.view log i) i n.objects (.process a (.receive sender answer))) :
    Sound D ((n.dispatchToProcessActor sender answer).view log i) i
      (n.dispatchToProcessActor sender answer) := by
  unfold dispatchToProcessActor
  split
  · exact h.post (hm _)
  · exact h

/-- What the table does when the node `j` is seen. -/
theorem Sound.seenPeer (h : Sound D (n.view log i) i n) (j : ι) (now : Int) :
    Sound D ((n.seenPeer (D.id j) (D.n2npId j) now).1.view log i) i
        (n.seenPeer (D.id j) (D.n2npId j) now).1 ∧
      D.Names (n.seenPeer (D.id j) (D.n2npId j) now).1.objects
        (n.seenPeer (D.id j) (D.n2npId j) now).2 j := by
  obtain ⟨hb, hj, hnames⟩ := KBucket.seenPeer_names D h.buckets j now
  exact ⟨⟨h.grounded, h.id, hb, h.storage, h.actors,
    fun m hm => (h.messages m hm).mono (fun _ hx => hx) hnames,
    fun m hm => (h.timeouts m hm).mono (fun _ hx => hx) hnames⟩, hj⟩

theorem Sound.readPeers (h : Sound D (n.view log i) i n) (foundPeers : List Peer) :
    Sound D ((n.readPeers foundPeers).1.view log i) i (n.readPeers foundPeers).1 := by
  have hnames : ∀ p j, D.Names n.objects p j → D.Names (n.readPeers foundPeers).1.objects p j :=
    fun p j hp => hp.append _
  refine ⟨h.grounded, h.id, fun p hp => ?_, h.storage, h.actors,
    fun m hm => (h.messages m hm).mono (fun _ hx => hx) hnames,
    fun m hm => (h.timeouts m hm).mono (fun _ hx => hx) hnames⟩
  show p < (n.objects ++ _).length
  rw [List.length_append]
  exact Nat.lt_add_right _ (h.buckets p hp)

/-- A packet that some node has sent to this one is taken in. -/
theorem Sound.processPacket (h : Sound D (n.view log i) i n) {j : ι} {p : Packet}
    (hp : (j, .send (D.n2npId i) p) ∈ n.view log i) (now : Int) :
    Sound D ((n.processPacket p.carried (D.n2npId j) now).view log i) i
      (n.processPacket p.carried (D.n2npId j) now) := by
  obtain ⟨l₁, l₂, hl⟩ := List.append_of_mem hp
  have hsub : l₁ ⊆ n.view log i := by
    rw [hl]
    exact List.subset_append_left _ _
  obtain ⟨hfrom, hcontent⟩ := h.grounded _ _ _ hl
  have hcf : p.carried.from = D.id j := hfrom
  obtain ⟨hs, hnames⟩ := h.seenPeer j now
  unfold InternalNode.processPacket
  rw [hcf]
  cases hc : p.content with
  | ping => simp only [Packet.carried, Content.carried, hc]; exact hs.post trivial
  | pong => simp only [Packet.carried, Content.carried, hc]; exact hs
  | get c key =>
    simp only [Packet.carried, Content.carried, hc]
    rw [hc] at hcontent
    exact hs.post ⟨j, hnames, hcontent.mono hsub⟩
  | store c key value => simp only [Packet.carried, Content.carried, hc]; exact hs.post trivial
  | stored c status =>
    simp only [Packet.carried, Content.carried, hc]
    exact hs.dispatch fun _ => trivial
  | got c status value =>
    simp only [Packet.carried, Content.carried, hc]
    rw [hc] at hcontent
    refine hs.dispatch fun a h0 => ?_
    obtain ⟨l, hl, ha⟩ := hcontent h0
    obtain rfl := D.n2npId_injective hl
    rw [Packet.valueOf, if_pos h0]
    exact ha.mono hsub
  | find c count idToFind => simp only [Packet.carried, Content.carried, hc]; exact hs.post trivial
  | found c status count foundPeers =>
    simp only [Packet.carried, Content.carried, hc]
    exact (hs.readPeers foundPeers).dispatch fun _ => trivial

theorem Sound.handle {n' : InternalNode}
    (h : Sound D (n.view log i) i n) {e : Event} (he : D.Delivers log (i, e))
    (hn : n.handle e = some n') : Sound D (n'.view log i) i n' := by
  cases e with
  | receive pkt senderId now =>
    obtain ⟨j, p, hp, rfl, rfl⟩ := he
    cases hn
    exact h.processPacket (List.mem_append_left _ hp) now
  | work k keyId =>
    obtain ⟨m, hm, hn⟩ := Option.bind_eq_some_iff.mp hn
    have h₁ : Sound D ({ n with messages := n.messages.eraseIdx k }.view log i) i
        { n with messages := n.messages.eraseIdx k } :=
      ⟨h.grounded, h.id, h.buckets, h.storage, h.actors,
        fun m hm => h.messages m (List.mem_of_mem_eraseIdx hm), h.timeouts⟩
    exact h₁.treat (h.messages m (List.mem_of_getElem? hm)) hn
  | expire k =>
    obtain ⟨m, hm, rfl⟩ := Option.map_eq_some_iff.mp hn
    have h₁ : Sound D ({ n with timeouts := n.timeouts.eraseIdx k }.view log i) i
        { n with timeouts := n.timeouts.eraseIdx k } :=
      ⟨h.grounded, h.id, h.buckets, h.storage, h.actors, h.messages,
        fun m hm => h.timeouts m (List.mem_of_mem_eraseIdx hm)⟩
    exact h₁.post (h.timeouts m (List.mem_of_getElem? hm))
  | sendPing dest => cases hn; exact h.emit ⟨h.id, trivial⟩
  | findClosest count idToFind => exact h.findClosest hn
  | getValue key keyId => exact (h.add _).findClosest hn
  | setValue key value keyId edit => exact (h.add _).findClosest hn

end Operations

/-! ### Runs -/

namespace Deployment
variable {ι : Type*} (D : Deployment ι)

def delivers (log : Log ι) : ι × InternalNode.Event → Bool
  | (i, .receive pkt senderId _) => log.any fun
    | (j, .send dest p) => dest = D.n2npId i ∧ pkt = p.carried ∧ senderId = D.n2npId j
    | _ => false
  | _ => true

theorem delivers_sound {log : Log ι} {e : ι × InternalNode.Event} (h : D.delivers log e) :
    D.Delivers log e := by
  obtain ⟨i, e⟩ := e
  cases e with
  | receive pkt senderId now =>
    obtain ⟨⟨j, o⟩, hmem, ho⟩ := List.any_eq_true.mp h
    cases o with
    | send dest p =>
      obtain ⟨rfl, hp, hs⟩ := of_decide_eq_true ho
      exact ⟨j, p, hmem, hp, hs⟩
    | _ => cases ho
  | _ => trivial

variable [DecidableEq ι]

/-- The network: each step is one of one node. -/
def network :
    Machine (ι → InternalNode) (ι × InternalNode.Event) (ι × Output) :=
  Machine.family fun _ => machine

variable {D}

theorem sound_of_run {s : ι → InternalNode} {log : Log ι}
    (run : network.Run (fun _ log e => D.Delivers log e) D.init s log) :
    Grounded D.Justified log ∧ ∀ i, Sound D log i (s i) ∧ (s i).out = [] := by
  refine run.invariant (P := fun s log =>
    Grounded D.Justified log ∧ ∀ i, Sound D log i (s i) ∧ (s i).out = []) ?_ ?_
  · refine ⟨.nil _, fun i => ⟨⟨.nil _, rfl, ?_, ?_, ?_, ?_, ?_⟩, rfl⟩⟩
    · intro p hp
      obtain ⟨b, hb, hp⟩ := List.mem_flatten.mp hp
      rw [List.eq_of_mem_replicate hb] at hp
      cases hp
    · intro key value hs
      simp [init, InternalNode.new] at hs
    · intro a p hp
      simp [init, InternalNode.new] at hp
    · intro m hm
      cases hm
    · intro m hm
      cases hm
  · rintro s log ⟨i, e⟩ s' out ⟨hg, hs⟩ he taken
    obtain ⟨t, o, ht, rfl, rfl⟩ := Machine.family_step taken
    obtain ⟨n, hn, heq⟩ := Option.map_eq_some_iff.mp ht
    cases heq
    have hi : Sound D ((s i).view log i) i (s i) := by
      simpa [view, (hs i).2] using (hs i).1
    have h := hi.handle he hn
    refine ⟨h.grounded, fun j => ?_⟩
    by_cases hj : j = i
    · subst hj
      rw [Function.update_self]
      exact ⟨⟨h.grounded, h.id, h.buckets, h.storage, h.actors, h.messages, h.timeouts⟩, rfl⟩
    · rw [Function.update_of_ne hj]
      exact ⟨(hs j).1.mono (List.subset_append_left _ _) h.grounded, (hs j).2⟩

/-- A node gives no id to two queries, and the packets carry its ids as they are. -/
theorem ids_of_run {s : ι → InternalNode} {log : Log ι}
    (run : network.Run (fun _ log e => D.Delivers log e) D.init s log)
    (hfit : D.CountersFit log) (i : ι) :
    (issued (Machine.logOf i log)).Nodup ∧
      ∀ c ∈ issued (Machine.logOf i log), c.toInt32.toInt64 = c := by
  obtain ⟨hl, hu⟩ := hfit i
  have heq := issued_eq (Machine.Run.member run i)
  refine ⟨heq ▸ nodup_idsFrom _ (by omega), fun c hc => ?_⟩
  exact toInt32_toInt64_of_mem_idsFrom hl hu (heq ▸ hc)

/-- A value is called back for a key only if some node has stored it under that key before. -/
theorem onGot_stored {s : ι → InternalNode} {log : Log ι}
    (run : network.Run (fun _ log e => D.Delivers log e) D.init s log)
    (hfit : D.CountersFit log) {i : ι} {a : ActorId} {key value : ByteStr} {l₁ l₂ : Log ι}
    (hlog : log = l₁ ++ (i, .call a (.onGot key value)) :: l₂) : Stored l₁ key value := by
  obtain ⟨hnodup, hint⟩ := ids_of_run run hfit i
  obtain ⟨c, d, hc, rfl, key', ⟨a', c', hc', rfl⟩, hstored⟩ :=
    (sound_of_run run).1 l₁ _ l₂ hlog
  have hsub : l₁ ⊆ log := by
    rw [hlog]
    exact List.subset_append_left _ _
  have hq := Machine.mem_logOf.mpr (hsub hc)
  have hq' := Machine.mem_logOf.mpr (hsub hc')
  -- the answer carries the id of the query it answers, and that query asks for `key`
  rw [hint c' (List.mem_filterMap.mpr ⟨_, hq', rfl⟩)] at hq
  have hkey : key = key' := Query.get.inj (query_unique hnodup hq hq')
  rw [hkey]
  exact hstored

def pair : Deployment Bool where
  id b := (Peer.numbered (if b then 2 else 1)).id
  n2npId b := (Peer.numbered (if b then 2 else 1)).n2npId
  start _ := 0
  id_injective a b := by cases a <;> cases b <;> decide
  n2npId_injective a b := by cases a <;> cases b <;> decide

/-- The node `false` learns of the other one, stores a value there and gets it back. The searches
that come first time out. -/
def storeAndGet : List (Bool × InternalNode.Event) :=
  let id := pair.id
  let n2npId := pair.n2npId
  let key := lit "k"
  let value := lit "v"
  [(true, .sendPing (n2npId false)), (false, .receive ⟨id true, .ping⟩ (n2npId true) 0),
    (false, .setValue key value .zero fun peers => peers), (false, .expire 2),
    (false, .work 1 .zero), (false, .work 1 .zero),
    (true, .receive ⟨id false, .store 1 key value⟩ (n2npId false) 1),
    (true, .work 0 .zero), (false, .getValue key .zero), (false, .expire 5), (false, .work 2 .zero),
    (false, .work 2 .zero), (true, .receive ⟨id false, .get 3 key⟩ (n2npId false) 2),
    (true, .work 1 .zero), (false, .receive ⟨id true, .got 3 0 value⟩ (n2npId true) 3), (false, .work 3 .zero)]

theorem onGot_stored_pair :
    ∃ s log l₁, network.Run (fun _ log e => pair.Delivers log e) pair.init s log ∧
      pair.CountersFit log ∧ log = l₁ ++ [(false, .call 7 (.onGot (lit "k") (lit "v")))] ∧
      Stored l₁ (lit "k") (lit "v") := by
  have h : (network.exec (fun _ log e => pair.delivers log e)
      (pair.init, []) storeAndGet).map (fun r => (r.2.getLast?,
        (issued (Machine.logOf false r.2)).length, (issued (Machine.logOf true r.2)).length)) =
      some (some (false, .call 7 (.onGot (lit "k") (lit "v"))), 4, 0) := by
    decide +kernel
  obtain ⟨⟨s, log⟩, hrun, hlog⟩ := Option.map_eq_some_iff.mp h
  have run := (Machine.Run.exec .start hrun).mono fun _ _ _ => pair.delivers_sound
  obtain ⟨hlast, hfalse, htrue⟩ : _ ∧ _ ∧ _ := by simpa using hlog
  obtain ⟨l₁, rfl⟩ := List.getLast?_eq_some_iff.mp hlast
  have hfit : pair.CountersFit (l₁ ++ [(false, .call 7 (.onGot (lit "k") (lit "v")))]) := by
    rintro (_ | _)
    · rw [hfalse]; decide
    · rw [htrue]; decide
  exact ⟨s, _, l₁, run, hfit, rfl, onGot_stored run hfit rfl⟩

end Deployment
end Epyx.DHT
