import Epyx.DHT.Genuine
import Epyx.DHT.Operations
import Epyx.N2NP.Delivery

/-! With users who give keys that are header values and values that are not too long, the nodes send
nothing else, and whoever answers a FIND knows somebody. -/
namespace Epyx.DHT
open N2NP (NodeId)
open Lib

structure IsKey (key : ByteStr) : Prop where
  text : isFlagValue key
  length : key.length ≤ 2 ^ 20

def IsValue (value : ByteStr) : Prop := value.length ≤ 2 ^ 29

def Query.Modest : Query → Prop
  | .find count _ => count = FIND_NB_NODE_REQUESTED
  | .get key => IsKey key
  | .store key value => IsKey key ∧ IsValue value

/-- A FOUND tells of somebody, and of no more peers than a FIND asks for. -/
def Content.Modest : Content → Prop
  | .find _ count _ => count = FIND_NB_NODE_REQUESTED
  | .get _ key => IsKey key
  | .store _ key value => IsKey key ∧ IsValue value
  | .got _ _ value => IsValue value
  | .found _ status _ foundPeers => status = 0 ∧ foundPeers ≠ [] ∧ foundPeers.length ≤ 5
  | _ => True

def Output.Modest : Output → Prop
  | .send dest pkt => pkt.content.Modest ∧ (pkt.content = .ping → dest.Short)
  | _ => True

/-- Whoever has got a FIND knows somebody. -/
def Message.Modest (k : KBucket) : Message → Prop
  | .find _ _ count _ => count = FIND_NB_NODE_REQUESTED ∧ k.buckets.flatten ≠ []
  | .store _ _ key value => IsKey key ∧ IsValue value
  | _ => True

def Action.Modest : Action → Prop
  | .sendQuery _ query => query.Modest
  | .timeout message => ∃ key, message = .replicate key
  | _ => True

namespace Role

def Modest (r : Role) : Prop := ∀ key query, r.question = some (key, query) → query.Modest

variable {p : Role} {r : Role × List Action}

theorem sendQueries_asks {objects : Peers} {f : FinderActor} {peers : List SPtr} {peer : SPtr}
    {query : Query} (h : .sendQuery peer query ∈ (f.sendQueries objects peers).2) :
    query.Modest := by
  induction peers generalizing f with
  | nil => cases h
  | cons p peers ih =>
    rcases List.mem_append.mp h with h | h
    · cases List.mem_singleton.mp h
      rfl
    · exact ih h

theorem onResponse_asks {objects : Peers} {f : FinderActor} {peer : SPtr} {query : Query}
    (h : .sendQuery peer query ∈ (f.onResponse objects).2) : query.Modest := by
  rcases FinderActor.onResponse_cases objects f with ⟨x, -, heq⟩ | ⟨-, heq⟩ | heq
  · rw [heq] at h
    cases List.mem_singleton.mp h
    rfl
  · rw [heq] at h
    rcases List.mem_pair.mp h with h | h
    · cases hf : f.callback <;> rw [hf] at h <;> cases h
    · cases h
  · rw [heq] at h
    cases h

/-- What a handler asks is a FIND, or what the operation is about. -/
theorem Handler.asks (h : p.Handler r) (hp : p.Modest) {peer : SPtr} {query : Query}
    (hx : .sendQuery peer query ∈ r.2) : query.Modest := by
  have hstill : ∀ {xs : List Action}, (∀ x ∈ xs, x.still) → .sendQuery peer query ∉ xs :=
    fun hxs hmem => by cases hxs _ hmem
  cases h with
  | answer objects answer =>
    by_cases hq : p.question = none
    · cases p with
      | finder f =>
        simp only [Role.onNewAnswer, Search.onNewAnswer_eq, Prod.map_snd, id] at hx
        exact onResponse_asks hx
      | _ => cases hq
    · exact absurd hx (hstill (onNewAnswer_takes hq objects answer).still)
  | answerTimeout objects =>
    by_cases hq : p.question = none
    · cases p with
      | finder f => exact onResponse_asks (f := f) hx
      | _ => cases hq
    · exact absurd hx (hstill (onAnswerTimeout_takes hq objects).still)
  | message objects self m =>
    by_cases hm : ∃ peers, m = .findSuccess peers
    · obtain ⟨peers, rfl⟩ := hm
      cases p with
      | finder f => cases hx
      | getter g =>
        obtain ⟨x, -, heq⟩ := List.mem_map.mp hx
        cases heq
        exact hp _ _ rfl
      | setter s =>
        rcases List.mem_append.mp hx with hx | hx
        · cases hs : s.callback <;> rw [hs] at hx <;> simp [SetCallback.onFoundPeers] at hx
        · obtain ⟨x, -, heq⟩ := List.mem_map.mp hx
          cases heq
          exact hp _ _ rfl
    · by_cases hq : p.question = none
      · cases p with
        | finder f =>
          cases m with
          | timeout =>
            rcases List.mem_pair.mp hx with hx | hx
            · cases hf : f.callback <;> rw [hf] at hx <;> cases hx
            · cases hx
          | _ => cases hx
        | _ => cases hq
      · exact absurd hx (hstill (treat_still hq objects self fun peers heq => hm ⟨peers, heq⟩).2)
  | start objects f nearest => exact sendQueries_asks hx

/-- A handler only sets a timer for a replication. -/
theorem Handler.timer (h : p.Handler r) {m : Message} (hx : .timeout m ∈ r.2) :
    ∃ key, m = .replicate key := by
  cases h with
  | answer objects answer => exact (onNewAnswer_keeps objects answer p).2 _ hx
  | answerTimeout objects =>
    have hkeeps : p.Keeps (fun _ => True) (p.onAnswerTimeout objects) :=
      onAnswerTimeout_keeps objects p
    exact hkeeps.2 _ hx
  | message objects self m =>
    have hkeeps : p.Keeps (fun _ => True) (p.treat objects self m) := treat_keeps objects self m p
    exact hkeeps.2 _ hx
  | start objects f nearest =>
    exact FinderActor.sendQueries_searches objects _ _ _ hx fun _ => True

theorem Handler.modest (h : p.Handler r) (hp : p.Modest) :
    r.1.Modest ∧ ∀ x ∈ r.2, x.Modest := by
  refine ⟨fun key query hq => hp key query (h.operation.1 ▸ hq), fun x hx => ?_⟩
  cases x with
  | sendQuery peer query => exact h.asks hp hx
  | timeout m => exact h.timer hx
  | _ => trivial

end Role

/-! ### One node -/

namespace KBucket

/-- Whoever sees a peer knows somebody. -/
theorem seenPeer_ne_nil {own : Id} {k : KBucket} {objects : Peers} (h : AllFiled own k objects)
    (peerId : Id) (n2npId : NodeId) (now : Int) :
    (k.seenPeer objects peerId n2npId now).1.buckets.flatten ≠ [] := by
  have hset : ∀ (i : Nat) (peers : List SPtr), i < k.buckets.length → peers ≠ [] →
      (k.buckets.set i peers).flatten ≠ [] := fun i peers hi hne hnil => by
    have hmem : peers ∈ k.buckets.set i peers := by
      refine List.mem_iff_getElem.mpr ⟨i, by rwa [List.length_set], ?_⟩
      exact List.getElem_set_self _
    exact hne (List.flatten_eq_nil_iff.mp hnil peers hmem)
  have hi : (Distance.between k.ownId peerId).firstActiveBit < k.buckets.length := by
    rw [h.size]
    exact Distance.firstActiveBit_lt _
  unfold seenPeer
  dsimp only
  split
  · exact hset _ _ hi (List.append_ne_nil_of_right_ne_nil _ (List.cons_ne_nil _ _))
  · refine hset _ _ hi ?_
    split
    · exact List.append_ne_nil_of_right_ne_nil _ (List.cons_ne_nil _ _)
    · rename_i hroom
      -- a bucket without room is a full one
      unfold makeRoom at hroom ⊢
      split at hroom
      · exact absurd rfl hroom
      · rename_i hfull
        rw [if_neg hfull]
        cases hp : k.buckets.getD (Distance.between k.ownId peerId).firstActiveBit [] with
        | nil => rw [hp] at hfull; exact absurd (by decide) hfull
        | cons front rest =>
          rw [hp] at hroom
          dsimp only at hroom ⊢
          split at hroom
          · exact absurd rfl hroom
          · rename_i hold
            rw [if_neg hold]
            exact List.cons_ne_nil _ _

end KBucket

namespace InternalNode

structure Modest (n : InternalNode) : Prop where
  filed : Filed n
  storage : ∀ (key value : ByteStr), n.storage[key]? = some value → IsKey key ∧ IsValue value
  actors : ∀ (a : ActorId) (p : ProcessActor), n.actors[a]? = some p → p.role.Modest
  messages : ∀ m ∈ n.messages, m.Modest n.kbucket
  timeouts : ∀ m ∈ n.timeouts, m.Modest n.kbucket
  out : ∀ o ∈ n.out, o.Modest

variable {n : InternalNode}

theorem Modest.emit (h : Modest n) {o : Output} (ho : o.Modest) : Modest (n.emit o) := by
  refine ⟨h.filed, h.storage, h.actors, h.messages, h.timeouts, fun x hx => ?_⟩
  rcases List.mem_append.mp hx with hx | hx
  · exact h.out x hx
  · rw [List.mem_singleton.mp hx]
    exact ho

theorem Modest.post (h : Modest n) {m : Message} (hm : m.Modest n.kbucket) :
    Modest (n.post m) := by
  refine ⟨h.filed, h.storage, h.actors, fun x hx => ?_, h.timeouts, h.out⟩
  rcases List.mem_append.mp hx with hx | hx
  · exact h.messages x hx
  · rw [List.mem_singleton.mp hx]
    exact hm

theorem Modest.arm (h : Modest n) {m : Message} (hm : m.Modest n.kbucket) : Modest (n.arm m) := by
  refine ⟨h.filed, h.storage, h.actors, h.messages, fun x hx => ?_, h.out⟩
  rcases List.mem_append.mp hx with hx | hx
  · exact h.timeouts x hx
  · rw [List.mem_singleton.mp hx]
    exact hm

/-- The registry and the counter do not matter. -/
theorem Modest.registry (h : Modest n) (count : Int64) (r : Std.ExtTreeMap Int64 ActorId) :
    Modest { n with processActorsCount := count, processActors := r } :=
  ⟨h.filed, h.storage, h.actors, h.messages, h.timeouts, h.out⟩

/-- An answer that is awaited, or its timeout. -/
theorem Modest.settle (h : Modest n) (c : Int64) {o : Output} (ho : o.Modest) :
    Modest ((n.unregisterConnectionId c).emit o) :=
  (h.registry n.processActorsCount (n.processActors.erase c)).emit ho

theorem Modest.send (h : Modest n) (content : Content) (dest : SPtr) (hc : content.Modest)
    (hping : content ≠ .ping) : Modest (n.send content dest) :=
  h.emit ⟨hc, fun hp => absurd hp hping⟩

theorem Modest.sendQuery (h : Modest n) (a : ActorId) (p : ProcessActor) (peer : SPtr)
    {query : Query} (hq : query.Modest) : Modest (n.sendQuery a p peer query).1 := by
  have hasked := (h.registry (n.processActorsCount + 1)
    (n.processActors.insert n.processActorsCount a)).emit
      (o := .query a n.processActorsCount query) trivial
  have hsent := hasked.send (query.content n.processActorsCount.toInt32) peer
    (by cases query <;> exact hq) (by cases query <;> exact Content.noConfusion)
  exact hsent.arm trivial

theorem Modest.perform {s : InternalNode × ProcessActor} (h : Modest s.1) (a : ActorId)
    {x : Action} (hx : x.Modest) :
    Modest (perform a s x).1 ∧ (perform a s x).2.role = s.2.role := by
  cases x with
  | sendQuery peer query => exact ⟨h.sendQuery a s.2 peer hx, rfl⟩
  | post actor message => exact ⟨h.post trivial, rfl⟩
  | timeout message =>
    obtain ⟨key, rfl⟩ := hx
    exact ⟨h.arm trivial, rfl⟩
  | call callback => exact ⟨h.emit trivial, rfl⟩
  | kill => exact ⟨h.post trivial, rfl⟩

theorem Modest.insert (h : Modest n) (a : ActorId) {p : ProcessActor} (hp : p.role.Modest) :
    Modest { n with actors := n.actors.insert a p } := by
  refine ⟨h.filed, h.storage, fun b q hq => ?_, h.messages, h.timeouts, h.out⟩
  rcases Lib.TreeMap.of_getElem?_insert hq with ⟨-, rfl⟩ | ⟨-, hq⟩
  · exact hp
  · exact h.actors b q hq

theorem Modest.run (h : Modest n) (a : ActorId) (p : ProcessActor) {r : Role × List Action}
    (hr : r.1.Modest ∧ ∀ x ∈ r.2, x.Modest) : Modest (n.run a p r) := by
  have hfold : ∀ (xs : List Action) (s : InternalNode × ProcessActor), Modest s.1 →
      (∀ x ∈ xs, x.Modest) → Modest (xs.foldl (InternalNode.perform a) s).1 ∧
        (xs.foldl (InternalNode.perform a) s).2.role = s.2.role := by
    intro xs
    induction xs with
    | nil => exact fun s hs _ => ⟨hs, rfl⟩
    | cons x xs ih =>
      intro s hs hxs
      obtain ⟨hnext, hrole⟩ := hs.perform a (hxs x (.head _))
      obtain ⟨hend, hlast⟩ := ih (InternalNode.perform a s x) hnext fun y hy => hxs y (.tail _ hy)
      exact ⟨hend, hlast.trans hrole⟩
  obtain ⟨hend, hrole⟩ := hfold r.2 (n, { p with role := r.1 }) h hr.2
  refine hend.insert a ?_
  rw [hrole]
  exact hr.1

theorem Modest.treatProcess (h : Modest n) (a : ActorId) (m : ProcessMessage) :
    Modest (n.treatProcess a m) := by
  unfold InternalNode.treatProcess
  split
  · exact h
  · rename_i p hp
    have hrole := h.actors a p hp
    split
    · cases m with
      | receive peer answer =>
        dsimp only
        unfold treatReceive
        dsimp only
        split
        · have hsettled := h.settle (answerId answer).toInt64
            (o := .onNewAnswer a (answerId answer).toInt64 answer) trivial
          exact hsettled.run a _ ((Role.Handler.answer _ answer p.role).modest hrole)
        · exact h
      | processTimeout pNumber =>
        dsimp only
        unfold treatTimeout
        dsimp only
        split
        · have hsettled := h.settle pNumber (o := .onAnswerTimeout a pNumber) trivial
          exact hsettled.run a _ ((Role.Handler.answerTimeout _ p.role).modest hrole)
        · exact h
      | _ => exact h.run a p ((Role.Handler.message _ _ _ p.role).modest hrole)
    · obtain ⟨r, hr⟩ := foldl_unregister p.queries.keys n
      rw [destroy, hr]
      refine ⟨h.filed, h.storage, fun b q hq => ?_, h.messages, h.timeouts, h.out⟩
      exact h.actors b q (Lib.TreeMap.of_getElem?_erase hq).2

theorem Modest.add (h : Modest n) {role : Role} (hr : role.Modest) : Modest (n.add role) := by
  have hinsert := h.insert n.actorCount (p := ⟨true, ∅, role⟩) hr
  have hcount : Modest { n with
      actorCount := n.actorCount + 1
      actors := n.actors.insert n.actorCount ⟨true, ∅, role⟩ } :=
    ⟨hinsert.filed, hinsert.storage, hinsert.actors, hinsert.messages, hinsert.timeouts,
      hinsert.out⟩
  exact hcount.arm trivial

theorem Modest.findClosest {n' : InternalNode} (h : Modest n) {cb : FindCallback} {count : Int}
    {idToFind : Id} (hn : n.findClosest cb count idToFind = some n') : Modest n' := by
  obtain ⟨nearest, -, rfl⟩ := Option.map_eq_some_iff.mp hn
  have hfinder : ∀ f : FinderActor, (Role.finder f).Modest := fun f key query hq => by cases hq
  exact (h.add (hfinder _)).run _ _ ((Role.Handler.start _ _ nearest).modest (hfinder _))

theorem Modest.getValue {keyId : Id} {n' : InternalNode} (h : Modest n)
    {key : ByteStr} (hk : IsKey key) (hn : n.getValue keyId key = some n') :
    Modest n' := by
  refine Modest.findClosest (h.add fun k query hq => ?_) hn
  cases hq
  exact hk

theorem Modest.setValue {keyId : Id} {n' : InternalNode} (h : Modest n)
    {cb : SetCallback} {key value : ByteStr} (hk : IsKey key) (hv : IsValue value)
    (hn : n.setValue keyId cb key value = some n') : Modest n' := by
  refine Modest.findClosest (h.add fun k query hq => ?_) hn
  cases hq
  exact ⟨hk, hv⟩

theorem Modest.storageSet (h : Modest n) {key value : ByteStr} (hk : IsKey key)
    (hv : IsValue value) : Modest (n.storageSet key value) := by
  have hset : Modest { n with storage := n.storage.insert key value } := by
    refine ⟨h.filed, fun k v hkv => ?_, h.actors, h.messages, h.timeouts, h.out⟩
    rcases Lib.TreeMap.of_getElem?_insert hkv with ⟨rfl, rfl⟩ | ⟨-, hkv⟩
    · exact ⟨hk, hv⟩
    · exact h.storage k v hkv
  unfold InternalNode.storageSet
  dsimp only
  split
  · exact hset.post trivial
  · exact hset

theorem Modest.treat {keyId : Id} {n' : InternalNode} {m : Message}
    (h : Modest n) (hm : m.Modest n.kbucket) (hn : n.treat keyId m = some n') :
    Modest n' := by
  cases m with
  | ping sender => cases hn; exact h.send .pong sender trivial Content.noConfusion
  | get sender connectionId key =>
    cases hn
    unfold treatGet
    split
    · rename_i value hvalue
      exact h.send (.got connectionId 0 value) sender (h.storage key value hvalue).2
        Content.noConfusion
    · exact h.send (.got connectionId 1 []) sender (Nat.zero_le _) Content.noConfusion
  | store sender connectionId key value =>
    cases hn
    have hstored := (h.emit (o := .stored key value) trivial).storageSet hm.1 hm.2
    exact hstored.send (.stored connectionId 0) sender trivial Content.noConfusion
  | find sender connectionId count idToFind =>
    obtain ⟨hcount, hknown⟩ := hm
    obtain ⟨nearest, hnearest, heq⟩ := Option.map_eq_some_iff.mp hn
    obtain ⟨found, hfound, hlength⟩ := KBucket.AllFiled.findNearestNodes_length h.filed idToFind
      (n := count.toInt) (by rw [hcount]; decide)
    rw [hnearest] at hfound
    cases hfound
    have hfive : toU64 count.toInt = 5 := by rw [hcount]; decide
    have hpos := List.length_pos_iff.mpr hknown
    rw [hfive] at hlength
    cases heq
    refine h.send (.found connectionId 0 0 _) sender ⟨rfl, fun hnil => ?_, ?_⟩
      Content.noConfusion
    · rw [List.map_eq_nil_iff.mp hnil, List.length_nil] at hlength
      omega
    · rw [List.length_map]
      omega
  | newKey key => cases hn; exact h.arm trivial
  | replicate key =>
    simp only [InternalNode.treat, treatReplicate] at hn
    split at hn
    · rename_i value hvalue
      obtain ⟨hk, hv⟩ := h.storage key value hvalue
      exact h.setValue hk hv hn
    · cases hn; exact h
  | process a m => cases hn; exact h.treatProcess a m

/-- A user gives what can be carried, and finds in a vector of peers what it is shown. -/
def Event.Mannerly : Event → Prop
  | .sendPing dest => dest.Short
  | .getValue key _ => IsKey key
  | .setValue key value _ edit => IsKey key ∧ IsValue value ∧ ∀ peers, edit peers ⊆ peers
  | _ => True

theorem Event.Mannerly.tame {e : Event} (he : e.Mannerly) : e.Tame := by
  cases e with
  | setValue key value keyId edit => exact he.2.2
  | _ => trivial

/-- Somebody is in the table from then on. -/
theorem Modest.table (h : Modest n) {k : KBucket} {objects : Peers}
    (hfiled : KBucket.AllFiled k.ownId k objects) (hk : k.buckets.flatten ≠ []) :
    Modest { n with kbucket := k, objects := objects } := by
  have hlater : ∀ {m : Message}, m.Modest n.kbucket → m.Modest k := fun {m} hm => by
    cases m with
    | find sender connectionId count idToFind => exact ⟨hm.1, hk⟩
    | store sender connectionId key value => exact hm
    | _ => trivial
  exact ⟨hfiled, h.storage, h.actors, fun m hm => hlater (h.messages m hm),
    fun m hm => hlater (h.timeouts m hm), h.out⟩

theorem Modest.dispatch (h : Modest n) (sender : SPtr) (answer : Answer) :
    Modest (n.dispatchToProcessActor sender answer) := by
  unfold dispatchToProcessActor
  split
  · exact h.post trivial
  · exact h

theorem Modest.processPacket (h : Modest n) {pkt : Packet} (hpkt : pkt.content.Modest)
    (senderId : NodeId) (now : Int) : Modest (n.processPacket pkt senderId now) := by
  have hfiled : Filed (n.seenPeer pkt.from senderId now).1 := by
    have hseen := KBucket.AllFiled.seenPeer h.filed ⟨pkt.from, senderId, now⟩
    have hown := hseen.ownId
    unfold Filed
    exact hown ▸ hseen
  have hknown : (n.seenPeer pkt.from senderId now).1.kbucket.buckets.flatten ≠ [] :=
    KBucket.seenPeer_ne_nil h.filed pkt.from senderId now
  have hseen : Modest (n.seenPeer pkt.from senderId now).1 := h.table hfiled hknown
  unfold InternalNode.processPacket
  cases hcontent : pkt.content with
  | ping => exact hseen.post trivial
  | pong => exact hseen
  | get connectionId key => exact hseen.post trivial
  | store connectionId key value =>
    rw [hcontent] at hpkt
    exact hseen.post hpkt
  | find connectionId count idToFind =>
    rw [hcontent] at hpkt
    exact hseen.post ⟨hpkt, hknown⟩
  | got connectionId status value => exact hseen.dispatch _ _
  | stored connectionId status => exact hseen.dispatch _ _
  | found connectionId status count foundPeers =>
    exact (hseen.table (KBucket.AllFiled.append hfiled _) hknown).dispatch _ _

theorem Modest.handle {n' : InternalNode} (h : Modest n) {e : Event}
    (hreceive : ∀ pkt senderId now, e = .receive pkt senderId now → pkt.content.Modest)
    (he : e.Mannerly) (hn : n.handle e = some n') : Modest n' := by
  cases e with
  | receive pkt senderId now =>
    cases hn
    exact h.processPacket (hreceive pkt senderId now rfl) senderId now
  | work k keyId =>
    obtain ⟨m, hm, hn⟩ := Option.bind_eq_some_iff.mp hn
    have htaken : Modest { n with messages := n.messages.eraseIdx k } :=
      ⟨h.filed, h.storage, h.actors, fun m hm => h.messages m (List.mem_of_mem_eraseIdx hm),
        h.timeouts, h.out⟩
    exact htaken.treat (h.messages m (List.mem_of_getElem? hm)) hn
  | expire k =>
    obtain ⟨m, hm, rfl⟩ := Option.map_eq_some_iff.mp hn
    have htaken : Modest { n with timeouts := n.timeouts.eraseIdx k } :=
      ⟨h.filed, h.storage, h.actors, h.messages,
        fun m hm => h.timeouts m (List.mem_of_mem_eraseIdx hm), h.out⟩
    exact htaken.post (h.timeouts m (List.mem_of_getElem? hm))
  | sendPing dest => cases hn; exact h.emit ⟨trivial, fun _ => he⟩
  | findClosest count idToFind => exact h.findClosest hn
  | getValue key keyId => exact h.getValue he hn
  | setValue key value keyId edit => exact h.setValue he.1 he.2.1 hn

theorem modest_new (id : Id) (n2npId : NodeId) (counter : Int64) :
    Modest (.new id n2npId counter) := by
  have hempty : ∀ (key value : ByteStr),
      ¬ (InternalNode.new id n2npId counter).storage[key]? = some value := fun key value => by
    simp [InternalNode.new]
  have hnone : ∀ (a : ActorId) (p : ProcessActor),
      ¬ (InternalNode.new id n2npId counter).actors[a]? = some p := fun a p => by
    simp [InternalNode.new]
  exact ⟨KBucket.AllFiled.new id, fun key value h => absurd h (hempty key value),
    fun a p h => absurd h (hnone a p), List.forall_mem_nil _, List.forall_mem_nil _,
    List.forall_mem_nil _⟩

end InternalNode

/-! ### The runs -/

theorem Content.Modest.carried {c : Content} (h : c.Modest) : c.carried.Modest := by
  cases c with
  | got connectionId status value =>
    show IsValue (Packet.valueOf status value)
    unfold Packet.valueOf
    split
    · exact h
    · exact Nat.zero_le _
  | _ => exact h

namespace Deployment
variable {ι : Type*} [DecidableEq ι] {D : Deployment ι} {log : Log ι}

/-- What was sent is such that whoever gets it sends such things too. -/
theorem modest_of_run {s : ι → InternalNode}
    (run : network.Run (fun _ log e => D.Delivers log e ∧ e.2.Mannerly)
      D.init s log) :
    (∀ x ∈ log, x.2.Modest) ∧ ∀ i, InternalNode.Modest (s i) ∧ (s i).out = [] := by
  refine run.invariant (P := fun s log =>
    (∀ x ∈ log, x.2.Modest) ∧ ∀ i, InternalNode.Modest (s i) ∧ (s i).out = []) ?_ ?_
  · exact ⟨nofun, fun i => ⟨InternalNode.modest_new _ _ _, rfl⟩⟩
  · rintro s log ⟨i, e⟩ s' out ⟨hlog, hs⟩ ⟨hdelivers, hmannerly⟩ taken
    obtain ⟨t, o, ht, rfl, rfl⟩ := Machine.family_step taken
    obtain ⟨n, hn, heq⟩ := Option.map_eq_some_iff.mp ht
    cases heq
    have hreceive : ∀ pkt senderId now, e = .receive pkt senderId now → pkt.content.Modest :=
      fun pkt senderId now heq => by
        subst heq
        obtain ⟨j, p, hsent, rfl, -⟩ := hdelivers
        exact (hlog _ hsent).1.carried
    have h := (hs i).1.handle hreceive hmannerly hn
    refine ⟨fun x hx => ?_, fun j => ?_⟩
    · rcases List.mem_append.mp hx with hx | hx
      · exact hlog x hx
      · obtain ⟨y, hy, rfl⟩ := List.mem_map.mp hx
        exact h.out y hy
    · by_cases hj : j = i
      · subst hj
        rw [Function.update_self]
        exact ⟨⟨h.filed, h.storage, h.actors, h.messages, h.timeouts, nofun⟩, rfl⟩
      · rw [Function.update_of_ne hj]
        exact hs j

end Deployment
end Epyx.DHT
