import Epyx.DHT.Genuine

/-! What a node does with the requests of others: the static actors answer each one at once when the
worker takes it, and a GET with what was stored last. -/
namespace Epyx.DHT
open N2NP (NodeId)
open Lib

/-- What the static actors are asked. -/
inductive Request where
  | ping
  | get (connectionId : Int32)
  | store (connectionId : Int32)
  | find (connectionId : Int32)
  deriving DecidableEq, Repr

def Content.request : Content → Option Request
  | .ping => some .ping
  | .get connectionId _ => some (.get connectionId)
  | .store connectionId _ _ => some (.store connectionId)
  | .find connectionId _ _ => some (.find connectionId)
  | _ => none

/-- The request a packet answers. -/
def Content.answers : Content → Option Request
  | .pong => some .ping
  | .got connectionId _ _ => some (.get connectionId)
  | .stored connectionId _ => some (.store connectionId)
  | .found connectionId _ _ _ => some (.find connectionId)
  | _ => none

/-- The request that waits, and the peer it comes from. -/
def Message.request : Message → Option (SPtr × Request)
  | .ping sender => some (sender, .ping)
  | .get sender connectionId _ => some (sender, .get connectionId)
  | .store sender connectionId _ _ => some (sender, .store connectionId)
  | .find sender connectionId _ _ => some (sender, .find connectionId)
  | _ => none

/-- What goes out because of a request. -/
def Output.serves : Output → Bool
  | .send _ pkt => pkt.content.answers.isSome
  | .stored _ _ => true
  | _ => false

/-- The value that was stored last under the key. -/
def lastStored (log : List Output) (key : ByteStr) : Option ByteStr :=
  log.reverse.findSome? fun
    | .stored k value => if k = key then some value else none
    | _ => none

theorem lastStored_append (log out : List Output) (key : ByteStr) :
    lastStored (log ++ out) key = (lastStored out key).or (lastStored log key) := by
  simp [lastStored, List.findSome?_append]

theorem lastStored_quiet {out : List Output} (h : ∀ o ∈ out, o.serves = false) (key : ByteStr) :
    lastStored out key = none := by
  refine List.findSome?_eq_none_iff.mpr fun o ho => ?_
  have hserves := h o (List.mem_reverse.mp ho)
  cases o with
  | stored k value => cases hserves
  | _ => rfl

theorem FinderActor.start_fits (objects : Peers) (f : FinderActor) (nearest : List SPtr) :
    ∀ x ∈ (f.start objects nearest).2, x.Fits none fun _ => False := fun x hx =>
  sendQueries_searches objects _ _ x hx _

namespace InternalNode

/-- Nothing is done for a request: the mail of the actors grows by no request, and what goes out
answers none. -/
structure Plain (n n' : InternalNode) : Prop where
  id : n'.id = n.id
  storage : n'.storage = n.storage
  messages : ∃ ms, n'.messages = n.messages ++ ms ∧ ∀ m ∈ ms, m.request = none
  timeouts : ∃ ms, n'.timeouts = n.timeouts ++ ms ∧ ∀ m ∈ ms, m.request = none
  out : ∃ os, n'.out = n.out ++ os ∧ ∀ o ∈ os, o.serves = false

variable {n n' n'' : InternalNode}

theorem Plain.refl (n : InternalNode) : Plain n n :=
  ⟨rfl, rfl, ⟨[], by simp⟩, ⟨[], by simp⟩, ⟨[], by simp⟩⟩

/-- What grows twice by what has a property grows by what has it. -/
theorem grow_trans {α : Type*} {P : α → Prop} {l₁ l₂ l₃ : List α}
    (h : ∃ xs, l₂ = l₁ ++ xs ∧ ∀ x ∈ xs, P x) (h' : ∃ xs, l₃ = l₂ ++ xs ∧ ∀ x ∈ xs, P x) :
    ∃ xs, l₃ = l₁ ++ xs ∧ ∀ x ∈ xs, P x := by
  obtain ⟨xs, rfl, hxs⟩ := h
  obtain ⟨ys, rfl, hys⟩ := h'
  refine ⟨xs ++ ys, List.append_assoc .., fun x hx => ?_⟩
  rcases List.mem_append.mp hx with hx | hx
  · exact hxs x hx
  · exact hys x hx

theorem Plain.trans (h : Plain n n') (h' : Plain n' n'') : Plain n n'' :=
  ⟨h'.id.trans h.id, h'.storage.trans h.storage, grow_trans h.messages h'.messages,
    grow_trans h.timeouts h'.timeouts, grow_trans h.out h'.out⟩

theorem Plain.silent (hid : n'.id = n.id) (hstorage : n'.storage = n.storage)
    (hmessages : n'.messages = n.messages) (htimeouts : n'.timeouts = n.timeouts)
    (hout : n'.out = n.out) : Plain n n' :=
  ⟨hid, hstorage, ⟨[], by simp [hmessages]⟩, ⟨[], by simp [htimeouts]⟩, ⟨[], by simp [hout]⟩⟩

theorem Plain.emit (n : InternalNode) {o : Output} (ho : o.serves = false) : Plain n (n.emit o) :=
  ⟨rfl, rfl, ⟨[], by simp [InternalNode.emit]⟩, ⟨[], by simp [InternalNode.emit]⟩,
    ⟨[o], rfl, by simpa using ho⟩⟩

theorem Plain.post (n : InternalNode) {m : Message} (hm : m.request = none) : Plain n (n.post m) :=
  ⟨rfl, rfl, ⟨[m], rfl, by simpa using hm⟩, ⟨[], by simp [InternalNode.post]⟩,
    ⟨[], by simp [InternalNode.post]⟩⟩

theorem Plain.arm (n : InternalNode) {m : Message} (hm : m.request = none) : Plain n (n.arm m) :=
  ⟨rfl, rfl, ⟨[], by simp [InternalNode.arm]⟩, ⟨[m], rfl, by simpa using hm⟩,
    ⟨[], by simp [InternalNode.arm]⟩⟩

theorem Plain.sendQuery (n : InternalNode) (a : ActorId) (p : ProcessActor) (peer : SPtr)
    (query : Query) : Plain n (n.sendQuery a p peer query).1 := by
  have hregistered : Plain n (n.registerNewConnectionId a) := .silent rfl rfl rfl rfl rfl
  have hnone : (query.content n.processActorsCount.toInt32).answers = none := by
    cases query <;> rfl
  refine ((hregistered.trans (.emit _ rfl)).trans (.emit _ ?_)).trans (.arm _ rfl)
  simp [Output.serves, hnone]

theorem Plain.perform (a : ActorId) (s : InternalNode × ProcessActor) {x : Action}
    {key : Option ByteStr} {got : ByteStr → Prop} (hx : x.Fits key got) :
    Plain s.1 (perform a s x).1 := by
  cases x with
  | sendQuery peer query => exact .sendQuery _ _ _ _ _
  | post actor message => exact .post _ rfl
  | timeout message =>
    obtain ⟨k, rfl⟩ := hx
    exact .arm _ rfl
  | call callback => exact .emit _ rfl
  | kill => exact .post _ rfl

theorem Plain.run (h : Plain n n') (a : ActorId) (p : ProcessActor) {r : Role × List Action}
    {key : Option ByteStr} {got : ByteStr → Prop} (hr : ∀ x ∈ r.2, x.Fits key got) :
    Plain n (n'.run a p r) := by
  have hfold : ∀ (xs : List Action) (s : InternalNode × ProcessActor),
      (∀ x ∈ xs, x.Fits key got) → Plain s.1 (xs.foldl (InternalNode.perform a) s).1 := by
    intro xs
    induction xs with
    | nil => exact fun s _ => .refl _
    | cons x xs ih =>
      intro s hxs
      have hx := Plain.perform a s (hxs x (List.mem_cons_self ..))
      exact hx.trans (ih _ fun y hy => hxs y (.tail _ hy))
  exact (h.trans (hfold r.2 (n', { p with role := r.1 }) hr)).trans (.silent rfl rfl rfl rfl rfl)

theorem treatProcess_plain (n : InternalNode) (a : ActorId) (m : ProcessMessage) :
    Plain n (n.treatProcess a m) := by
  have hsettle : ∀ (c : Int64) (o : Output), o.serves = false →
      Plain n ((n.unregisterConnectionId c).emit o) := fun c o ho => by
    have hunregistered : Plain n (n.unregisterConnectionId c) := .silent rfl rfl rfl rfl rfl
    exact hunregistered.trans (.emit _ ho)
  have hmessage : ∀ (p : ProcessActor) (m : ProcessMessage),
      Plain n (n.run a p (p.role.treat n.objects n.id m)) := fun p m => by
    have hkeeps : p.role.Keeps (fun _ => False) (p.role.treat n.objects n.id m) :=
      p.role.treat_keeps n.objects n.id m
    exact (Plain.refl n).run a p hkeeps.2
  unfold treatProcess
  split
  · exact .refl n
  · rename_i p hp
    split
    · cases m with
      | receive peer answer =>
        dsimp only
        unfold treatReceive
        dsimp only
        split
        · exact (hsettle _ _ rfl).run _ _ (p.role.onNewAnswer_keeps _ _).2
        · exact .refl n
      | processTimeout pNumber =>
        dsimp only
        unfold treatTimeout
        split
        · have hkeeps : p.role.Keeps (fun _ => False) (p.role.onAnswerTimeout n.objects) :=
            p.role.onAnswerTimeout_keeps n.objects
          exact (hsettle _ _ rfl).run _ _ hkeeps.2
        · exact .refl n
      | _ => exact hmessage p _
    · obtain ⟨r, hr⟩ := foldl_unregister p.queries.keys n
      rw [destroy, hr]
      exact .silent rfl rfl rfl rfl rfl

theorem add_plain (n : InternalNode) (role : Role) : Plain n (n.add role) := by
  have hadded : Plain n { n with
      actorCount := n.actorCount + 1
      actors := n.actors.insert n.actorCount ⟨true, ∅, role⟩ } := .silent rfl rfl rfl rfl rfl
  exact hadded.trans (.arm _ rfl)

theorem findClosest_plain {cb : FindCallback} {count : Int} {idToFind : Id}
    (h : n.findClosest cb count idToFind = some n') : Plain n n' := by
  obtain ⟨nearest, -, rfl⟩ := Option.map_eq_some_iff.mp h
  exact (add_plain n _).run _ _ (FinderActor.start_fits n.objects _ nearest)

/-- A message that is no request. -/
theorem treat_plain {keyId : Id} {m : Message} (hm : m.request = none)
    (h : n.treat keyId m = some n') : Plain n n' := by
  cases m with
  | newKey key => cases h; exact .arm _ rfl
  | replicate key =>
    simp only [InternalNode.treat, treatReplicate] at h
    split at h
    · exact (add_plain n _).trans (findClosest_plain h)
    · cases h; exact .refl n
  | process a m => cases h; exact treatProcess_plain n a m
  | _ => cases hm

/-- A request is answered to the peer it comes from, at the address that is known by now. -/
structure Served (n n' : InternalNode) (sender : SPtr) (request : Request) : Prop where
  messages : ∃ ms, n'.messages = n.messages ++ ms ∧ ∀ m ∈ ms, m.request = none
  timeouts : n'.timeouts = n.timeouts
  out : ∃ os content,
    n'.out = n.out ++ os ++ [.send (n.objects.deref sender).n2npId ⟨n.id, content⟩] ∧
    content.answers = some request ∧ ∀ o ∈ os, ∃ key value, o = .stored key value

/-- What a STORE leaves behind. -/
theorem treatStore_eq (n : InternalNode) (peer : SPtr) (connectionId : Int32)
    (key value : ByteStr) :
    ∃ ms, n.treatStore peer connectionId key value =
        { n with
          storage := n.storage.insert key value
          messages := n.messages ++ ms
          out := n.out ++ [.stored key value] ++
            [.send (n.objects.deref peer).n2npId ⟨n.id, .stored connectionId 0⟩] } ∧
      ∀ m ∈ ms, m.request = none := by
  unfold treatStore storageSet
  dsimp only
  split
  · exact ⟨[.newKey key], rfl, by simp [Message.request]⟩
  · refine ⟨[], ?_, nofun⟩
    rw [List.append_nil]
    rfl

theorem treat_served {keyId : Id} {m : Message} {sender : SPtr} {request : Request}
    (hm : m.request = some (sender, request)) (h : n.treat keyId m = some n') :
    Served n n' sender request := by
  have hsend : ∀ content : Content, content.answers = some request →
      Served n (n.send content sender) sender request := fun content hcontent =>
    ⟨⟨[], by simp [InternalNode.send, InternalNode.emit]⟩, rfl,
      ⟨[], content, by simp [InternalNode.send, InternalNode.emit], hcontent, nofun⟩⟩
  cases m with
  | ping peer => cases hm; cases h; exact hsend _ rfl
  | get peer connectionId key =>
    cases hm
    cases h
    unfold treatGet
    split
    · exact hsend _ rfl
    · exact hsend _ rfl
  | store peer connectionId key value =>
    cases hm
    cases h
    obtain ⟨ms, hstore, hms⟩ := n.treatStore_eq sender connectionId key value
    rw [hstore]
    exact ⟨⟨ms, rfl, hms⟩, rfl, ⟨[.stored key value], .stored connectionId 0, rfl, rfl, by simp⟩⟩
  | find peer connectionId count idToFind =>
    cases hm
    obtain ⟨nearest, -, rfl⟩ := Option.map_eq_some_iff.mp h
    exact hsend _ rfl
  | _ => cases hm

/-! ### The storage -/

/-- What a message does to the storage: a STORE writes to it, and says so first. -/
theorem treat_storage {keyId : Id} {m : Message}
    (h : n.treat keyId m = some n') (key : ByteStr) : ∃ os, n'.out = n.out ++ os ∧
      n'.storage[key]? = (lastStored os key).or n.storage[key]? := by
  have hplain : ∀ {n' : InternalNode}, Plain n n' → ∃ os, n'.out = n.out ++ os ∧
      n'.storage[key]? = (lastStored os key).or n.storage[key]? := fun hn => by
    obtain ⟨os, hout, hos⟩ := hn.out
    exact ⟨os, hout, by rw [lastStored_quiet hos, Option.none_or, hn.storage]⟩
  have hsend : ∀ (content : Content) (sender : SPtr), ∃ os,
      (n.send content sender).out = n.out ++ os ∧
      (n.send content sender).storage[key]? = (lastStored os key).or n.storage[key]? :=
    fun content sender => ⟨[_], rfl, rfl⟩
  cases m with
  | ping peer => cases h; exact hsend _ _
  | get peer connectionId k =>
    cases h
    unfold treatGet
    split
    · exact hsend _ _
    · exact hsend _ _
  | store peer connectionId k value =>
    cases h
    obtain ⟨ms, hstore, -⟩ := n.treatStore_eq peer connectionId k value
    rw [hstore]
    refine ⟨_, List.append_assoc .., ?_⟩
    rw [Std.ExtTreeMap.getElem?_insert]
    by_cases hk : k = key
    · simp [lastStored, hk]
    · simp [lastStored, hk]
  | find peer connectionId count idToFind =>
    obtain ⟨nearest, -, rfl⟩ := Option.map_eq_some_iff.mp h
    exact hsend _ _
  | newKey k => exact hplain (treat_plain rfl h)
  | replicate k => exact hplain (treat_plain rfl h)
  | process a pm => exact hplain (treat_plain rfl h)

/-- The storage has what was stored last. -/
def Remembers (log : List Output) (n : InternalNode) : Prop :=
  ∀ key : ByteStr, n.storage[key]? = lastStored (log ++ n.out) key

theorem Remembers.of_plain {log : List Output} (h : Remembers log n) (hp : Plain n n') :
    Remembers log n' := by
  intro key
  obtain ⟨os, hout, hos⟩ := hp.out
  rw [hp.storage, hout, ← List.append_assoc, lastStored_append, lastStored_quiet hos,
    Option.none_or]
  exact h key

theorem processPacket_storage (n : InternalNode) (pkt : Packet) (senderId : NodeId) (now : Int) :
    (n.processPacket pkt senderId now).storage = n.storage ∧
      (n.processPacket pkt senderId now).out = n.out ∧
      (n.processPacket pkt senderId now).timeouts = n.timeouts := by
  have hd : ∀ (n : InternalNode) (sender : SPtr) (answer : Answer),
      (n.dispatchToProcessActor sender answer).storage = n.storage ∧
        (n.dispatchToProcessActor sender answer).out = n.out ∧
        (n.dispatchToProcessActor sender answer).timeouts = n.timeouts := fun n sender answer => by
    unfold dispatchToProcessActor
    split <;> exact ⟨rfl, rfl, rfl⟩
  unfold processPacket
  cases pkt.content with
  | got connectionId status value => exact hd _ _ _
  | stored connectionId status => exact hd _ _ _
  | found connectionId status count foundPeers => exact hd _ _ _
  | _ => exact ⟨rfl, rfl, rfl⟩

theorem Remembers.handle {log : List Output} (h : Remembers log n)
    {e : Event} (hn : n.handle e = some n') : Remembers log n' := by
  cases e with
  | receive pkt senderId now =>
    cases hn
    obtain ⟨hstorage, hout, -⟩ := n.processPacket_storage pkt senderId now
    intro key
    rw [hstorage, hout]
    exact h key
  | work k keyId =>
    obtain ⟨m, -, hn⟩ := Option.bind_eq_some_iff.mp hn
    intro key
    obtain ⟨os, hout, hstorage⟩ := treat_storage hn key
    rw [hstorage, hout, ← List.append_assoc, lastStored_append]
    exact congrArg _ (h key)
  | expire k =>
    obtain ⟨m, -, rfl⟩ := Option.map_eq_some_iff.mp hn
    exact h
  | sendPing dest => cases hn; exact h.of_plain (.emit _ rfl)
  | findClosest count idToFind => exact h.of_plain (findClosest_plain hn)
  | getValue key keyId => exact h.of_plain ((add_plain n _).trans (findClosest_plain hn))
  | setValue key value keyId edit => exact h.of_plain ((add_plain n _).trans (findClosest_plain hn))

/-- In every run the storage is a register for each key: it has what was stored last, a GET is
answered with that, or with the status 1 where nothing was, and a STORE is answered once it is
done. -/
theorem storage_last {id : Id} {n2npId : NodeId} {start : Int64}
    {ok : InternalNode → List Output → Event → Prop} {log : List Output}
    (run : machine.Run ok (.new id n2npId start) n log) :
    (∀ key : ByteStr, n.storage[key]? = lastStored log key) ∧
    (∀ (k : Nat) keyId sender connectionId key,
      n.messages[k]? = some (.get sender connectionId key) →
      machine.step n (.work k keyId) = some ({ n with messages := n.messages.eraseIdx k },
        [.send (n.objects.deref sender).n2npId ⟨n.id, match lastStored log key with
          | some value => .got connectionId 0 value
          | none => .got connectionId 1 []⟩])) ∧
    ∀ (k : Nat) keyId sender connectionId key value,
      n.messages[k]? = some (.store sender connectionId key value) →
      ∃ n', machine.step n (.work k keyId) = some (n', [.stored key value,
        .send (n.objects.deref sender).n2npId ⟨n.id, .stored connectionId 0⟩]) := by
  have hrun : n.out = [] ∧ Remembers log n := by
    refine run.invariant (P := fun n log => n.out = [] ∧ Remembers log n) ⟨rfl, fun key => ?_⟩ ?_
    · simp [InternalNode.new, lastStored]
    · intro n log e n' out h _ taken
      obtain ⟨n₁, hn₁, heq⟩ := Option.map_eq_some_iff.mp taken
      cases heq
      refine ⟨rfl, fun key => ?_⟩
      rw [List.append_nil]
      exact h.2.handle hn₁ key
  obtain ⟨hout, hlast⟩ := hrun
  have hstorage : ∀ key : ByteStr, n.storage[key]? = lastStored log key := fun key => by
    have hkey := hlast key
    rwa [hout, List.append_nil] at hkey
  refine ⟨hstorage, fun k keyId sender connectionId key hm => ?_,
    fun k keyId sender connectionId key value hm => ?_⟩
  · simp only [machine, InternalNode.handle, hm, Option.bind_some, InternalNode.treat,
      Option.map_some, treatGet, hstorage key]
    cases lastStored log key with
    | none => simp [InternalNode.send, InternalNode.emit, hout]
    | some value => simp [InternalNode.send, InternalNode.emit, hout]
  · obtain ⟨ms, hstore, -⟩ := treatStore_eq { n with messages := n.messages.eraseIdx k } sender
      connectionId key value
    simp only [machine, InternalNode.handle, hm, Option.bind_some, InternalNode.treat,
      Option.map_some]
    rw [hstore]
    exact ⟨_, by simp [hout]; rfl⟩

/-- A value is stored and asked for. -/
theorem storage_last_stored :
    ∃ n log, machine.Run (fun _ _ _ => true)
        (.new (Peer.numbered 7).id (Peer.numbered 7).n2npId 0) n log ∧
      lastStored log (lit "k") = some (lit "v") ∧ n.storage[lit "k"]? = lastStored log (lit "k") := by
  have h : (machine.exec (fun _ _ _ => true)
      (.new (Peer.numbered 7).id (Peer.numbered 7).n2npId 0, [])
      [.receive ⟨(Peer.numbered 2).id, .store 1 (lit "k") (lit "v")⟩ (Peer.numbered 2).n2npId 0,
        .work 0 .zero, .receive ⟨(Peer.numbered 2).id, .get 2 (lit "k")⟩ (Peer.numbered 2).n2npId 1,
        .work 1 .zero]).map (fun r => lastStored r.2 (lit "k")) = some (some (lit "v")) := by
    decide +kernel
  obtain ⟨⟨n, log⟩, hrun, hlog⟩ := Option.map_eq_some_iff.mp h
  have run := Machine.Run.exec .start hrun
  exact ⟨n, log, run, hlog, (storage_last run).1 _⟩

/-! ### The requests that wait -/

/-- No timer is a request. -/
def Unasked (n : InternalNode) : Prop := ∀ m ∈ n.timeouts, m.request = none

theorem Unasked.of_plain (h : Unasked n) (hp : Plain n n') : Unasked n' := by
  obtain ⟨ms, hms, hnone⟩ := hp.timeouts
  intro m hm
  rw [hms] at hm
  rcases List.mem_append.mp hm with hm | hm
  · exact h m hm
  · exact hnone m hm

theorem Unasked.handle (h : Unasked n) {e : Event}
    (hn : n.handle e = some n') : Unasked n' := by
  cases e with
  | receive pkt senderId now =>
    cases hn
    unfold Unasked
    rw [(n.processPacket_storage pkt senderId now).2.2]
    exact h
  | work k keyId =>
    obtain ⟨m, -, hn⟩ := Option.bind_eq_some_iff.mp hn
    cases hr : m.request with
    | none => exact Unasked.of_plain (n := { n with messages := n.messages.eraseIdx k }) h (treat_plain hr hn)
    | some r =>
      have hserved := treat_served hr hn
      unfold Unasked
      rw [hserved.timeouts]
      exact h
  | expire k =>
    obtain ⟨m, -, rfl⟩ := Option.map_eq_some_iff.mp hn
    exact fun m hm => h m (List.mem_of_mem_eraseIdx hm)
  | sendPing dest => cases hn; exact h
  | findClosest count idToFind => exact h.of_plain (findClosest_plain hn)
  | getValue key keyId => exact h.of_plain ((add_plain n _).trans (findClosest_plain hn))
  | setValue key value keyId edit => exact h.of_plain ((add_plain n _).trans (findClosest_plain hn))

/-- The request waits for an answer to the peer with the id. -/
def waits (objects : Peers) (id : Id) (request : Request) (m : Message) : Bool :=
  match m.request with
  | some (sender, r) => (objects.deref sender).id = id ∧ r = request
  | none => false

theorem waits_of_none {objects : Peers} {id : Id} {request : Request} {m : Message}
    (hm : m.request = none) : waits objects id request m = false := by simp [waits, hm]

theorem waits_of_some {objects : Peers} {id : Id} {request : Request} {m : Message} {sender : SPtr}
    {r : Request} (hm : m.request = some (sender, r)) :
    waits objects id request m = decide ((objects.deref sender).id = id ∧ r = request) := by
  simp [waits, hm]

theorem Message.sender_lt {objects : Peers} {m : Message} (h : objects.Has m.peers) {sender : SPtr}
    {r : Request} (hm : m.request = some (sender, r)) : sender < objects.length := by
  refine h sender ?_
  cases m with
  | ping peer => cases hm; exact .head _
  | get peer connectionId key => cases hm; exact .head _
  | store peer connectionId key value => cases hm; exact .head _
  | find peer connectionId count idToFind => cases hm; exact .head _
  | _ => cases hm

/-- Objects that come later do not change whom a message is from. -/
theorem waits_later {objects later : Peers} (hlater : objects.Later later) {m : Message}
    (hm : objects.Has m.peers) (id : Id) (request : Request) :
    waits later id request m = waits objects id request m := by
  cases hr : m.request with
  | none => rw [waits_of_none hr, waits_of_none hr]
  | some r =>
    obtain ⟨sender, r⟩ := r
    rw [waits_of_some hr, waits_of_some hr, hlater.id sender (Message.sender_lt hm hr)]

/-- What a packet that is received adds to the requests. -/
theorem processPacket_messages (n : InternalNode) (pkt : Packet) (senderId : NodeId) (now : Int) :
    ∃ ms, (n.processPacket pkt senderId now).messages = n.messages ++ ms ∧
      (pkt.content.request = none → ∀ m ∈ ms, m.request = none) ∧
      ∀ r, pkt.content.request = some r →
        ∃ m, ms = [m] ∧ m.request = some ((n.seenPeer pkt.from senderId now).2, r) := by
  have hd : ∀ (n : InternalNode) (sender : SPtr) (answer : Answer),
      ∃ ms, (n.dispatchToProcessActor sender answer).messages = n.messages ++ ms ∧
        ∀ m ∈ ms, m.request = none := fun n sender answer => by
    unfold dispatchToProcessActor
    split
    · exact ⟨[_], rfl, by simp [Message.request]⟩
    · exact ⟨[], by simp⟩
  unfold processPacket
  cases pkt.content with
  | ping => exact ⟨[_], rfl, nofun, fun r hr => by cases hr; exact ⟨_, rfl, rfl⟩⟩
  | get connectionId key =>
    exact ⟨[_], rfl, nofun, fun r hr => by cases hr; exact ⟨_, rfl, rfl⟩⟩
  | store connectionId key value =>
    exact ⟨[_], rfl, nofun, fun r hr => by cases hr; exact ⟨_, rfl, rfl⟩⟩
  | find connectionId count idToFind =>
    exact ⟨[_], rfl, nofun, fun r hr => by cases hr; exact ⟨_, rfl, rfl⟩⟩
  | pong => exact ⟨[], (List.append_nil _).symm, nofun, nofun⟩
  | got connectionId status value =>
    obtain ⟨ms, hms, hnone⟩ := hd (n.seenPeer pkt.from senderId now).1
      (n.seenPeer pkt.from senderId now).2 (.got connectionId status value)
    exact ⟨ms, hms, fun _ => hnone, nofun⟩
  | stored connectionId status =>
    obtain ⟨ms, hms, hnone⟩ := hd (n.seenPeer pkt.from senderId now).1
      (n.seenPeer pkt.from senderId now).2 (.stored connectionId status)
    exact ⟨ms, hms, fun _ => hnone, nofun⟩
  | found connectionId status count foundPeers =>
    obtain ⟨ms, hms, hnone⟩ := hd ((n.seenPeer pkt.from senderId now).1.readPeers foundPeers).1
      (n.seenPeer pkt.from senderId now).2
      (.found connectionId status count ((n.seenPeer pkt.from senderId now).1.readPeers
        foundPeers).2)
    exact ⟨ms, hms, fun _ => hnone, nofun⟩

end InternalNode

/-! ### The network -/

open InternalNode

namespace Deployment
variable {ι : Type*} (D : Deployment ι)

/-- The answers to such a request of the node `j`. -/
def replies (j : ι) (request : Request) (out : List Output) : Nat :=
  out.countP fun
    | .send dest pkt => dest = D.n2npId j ∧ pkt.content.answers = some request
    | _ => false

/-- Whether a request of the node `j` comes in. -/
def arrives (j : ι) (request : Request) : InternalNode.Event → Nat
  | .receive pkt senderId _ =>
    if senderId = D.n2npId j ∧ pkt.content.request = some request then 1 else 0
  | _ => 0

/-- The requests of the node `j` that wait in the mail of a node. -/
def waiting (j : ι) (request : Request) (n : InternalNode) : Nat :=
  n.messages.countP (waits n.objects (D.id j) request)

variable {D} {log : Log ι} {i : ι} {n n' : InternalNode}

theorem replies_append (j : ι) (request : Request) (out out' : List Output) :
    D.replies j request (out ++ out') = D.replies j request out + D.replies j request out' :=
  List.countP_append

theorem replies_quiet {out : List Output} (h : ∀ o ∈ out, o.serves = false) (j : ι)
    (request : Request) : D.replies j request out = 0 := by
  refine List.countP_eq_zero.mpr fun o ho => ?_
  have hserves := h o ho
  cases o with
  | send dest pkt =>
    have hnone : pkt.content.answers = none := by
      simpa [Output.serves] using hserves
    simp [hnone]
  | _ => simp

theorem replies_stored {out : List Output} (h : ∀ o ∈ out, ∃ key value, o = .stored key value)
    (j : ι) (request : Request) : D.replies j request out = 0 := by
  refine List.countP_eq_zero.mpr fun o ho => ?_
  obtain ⟨key, value, rfl⟩ := h o ho
  simp

theorem waiting_append {ms : List Message} (hmessages : n'.messages = n.messages ++ ms)
    (hobjects : n'.objects = n.objects) (hms : ∀ m ∈ ms, m.request = none) (j : ι)
    (request : Request) : D.waiting j request n' = D.waiting j request n := by
  have hzero : ms.countP (waits n.objects (D.id j) request) = 0 :=
    List.countP_eq_zero.mpr fun m hm => by simp [waits_of_none (hms m hm)]
  rw [waiting, hmessages, hobjects, List.countP_append, hzero, Nat.add_zero, waiting]

/-- A step in which nobody is served. -/
theorem waiting_plain (hp : Plain n n') (hobjects : n'.objects = n.objects) (hout : n.out = [])
    (j : ι) (request : Request) :
    D.waiting j request n' + D.replies j request n'.out = D.waiting j request n := by
  obtain ⟨ms, hms, hnone⟩ := hp.messages
  obtain ⟨os, hos, hquiet⟩ := hp.out
  rw [waiting_append hms hobjects hnone, hos, hout, List.nil_append, replies_quiet hquiet,
    Nat.add_zero]

/-- A message is taken: if it is a request it is answered to the node it is from. -/
theorem Genuine.waiting_work {keyId : Id} (h : D.Genuine log i n) (htidy : Tidy n)
    (hout : n.out = []) {k : Nat} (hn : n.handle (.work k keyId) = some n') (j : ι)
    (request : Request) :
    D.waiting j request n' + D.replies j request n'.out = D.waiting j request n := by
  obtain ⟨m, hm, hn⟩ := Option.bind_eq_some_iff.mp hn
  have hobjects : n'.objects = n.objects := (treat_sameTable hn).objects
  obtain ⟨hk, hget⟩ := List.getElem?_eq_some_iff.mp hm
  have htaken : n.messages.countP (waits n.objects (D.id j) request) =
      (n.messages.eraseIdx k).countP (waits n.objects (D.id j) request) +
        if waits n.objects (D.id j) request m then 1 else 0 := by
    rw [← hget, (List.getElem_cons_eraseIdx_perm hk).symm.countP_eq, List.countP_cons]
  cases hr : m.request with
  | none =>
    have hplain := waiting_plain (D := D) (treat_plain hr hn) hobjects hout j request
    rw [hplain, waiting, waiting, htaken, waits_of_none hr]
    simp
  | some r =>
    obtain ⟨sender, r⟩ := r
    have hserved := treat_served hr hn
    obtain ⟨ms, hms, hnone⟩ := hserved.messages
    obtain ⟨os, content, hos, hanswers, hstored⟩ := hserved.out
    have hlt := Message.sender_lt (htidy.messages m (List.mem_of_getElem? hm)) hr
    obtain ⟨l, hl⟩ := h.names hlt
    have hid : (n.objects.deref sender).id = D.id l := congrArg Peer.id hl.deref
    have haddress : (n.objects.deref sender).n2npId = D.n2npId l := congrArg Peer.n2npId hl.deref
    have hsame : D.n2npId l = D.n2npId j ↔ D.id l = D.id j :=
      ⟨fun he => congrArg D.id (D.n2npId_injective he),
        fun he => congrArg D.n2npId (D.id_injective he)⟩
    have hreply : D.replies j request n'.out = if waits n.objects (D.id j) request m then 1 else 0 := by
      rw [hos, replies_append, replies_append, replies_stored hstored,
        show ({ n with messages := n.messages.eraseIdx k } : InternalNode).out = [] from hout,
        waits_of_some hr, hid]
      simp [replies, haddress, hanswers, hsame]
    rw [hreply, waiting_append (n := { n with messages := n.messages.eraseIdx k }) hms hobjects hnone,
      waiting, waiting, htaken]

/-- A packet of the node `l` comes in. -/
theorem waiting_receive (htidy : Tidy n) (hout : n.out = [])
    {pkt : Packet} {l : ι} (hfrom : pkt.from = D.id l) (now : Int) (j : ι) (request : Request) :
    D.waiting j request (n.processPacket pkt (D.n2npId l) now) +
        D.replies j request (n.processPacket pkt (D.n2npId l) now).out =
      D.waiting j request n + D.arrives j request (.receive pkt (D.n2npId l) now) := by
  obtain ⟨ms, hms, hnone, hsome⟩ := n.processPacket_messages pkt (D.n2npId l) now
  have hobjects := (processPacket_table n pkt (D.n2npId l) now).2
  have hlater : n.objects.Later (n.processPacket pkt (D.n2npId l) now).objects := by
    rw [hobjects]
    exact (n.kbucket.seenPeer_later n.objects pkt.from (D.n2npId l) now).trans (.append _ _)
  have hold : n.messages.countP
      (waits (n.processPacket pkt (D.n2npId l) now).objects (D.id j) request) =
      D.waiting j request n :=
    List.countP_congr fun m hm => by rw [waits_later hlater (htidy.messages m hm)]
  rw [(n.processPacket_storage pkt (D.n2npId l) now).2.1, hout, waiting, hms, List.countP_append,
    hold]
  show D.waiting j request n + ms.countP _ + 0 = _
  rw [Nat.add_zero]
  congr 1
  cases hr : pkt.content.request with
  | none =>
    have hzero : ms.countP (waits (n.processPacket pkt (D.n2npId l) now).objects (D.id j) request) =
        0 := List.countP_eq_zero.mpr fun m hm => by simp [waits_of_none (hnone hr m hm)]
    rw [hzero]
    simp [arrives, hr]
  | some r =>
    obtain ⟨m, rfl, hm⟩ := hsome r hr
    have hsender : ((n.processPacket pkt (D.n2npId l) now).objects.deref
        (n.seenPeer pkt.from (D.n2npId l) now).2).id = D.id l := by
      have hnames := (KBucket.seenPeer_names D htidy.table l now).2.1
      rw [hobjects, hfrom]
      exact congrArg Peer.id (hnames.append _).deref
    have hsame : D.id l = D.id j ↔ D.n2npId l = D.n2npId j :=
      ⟨fun he => congrArg D.n2npId (D.id_injective he),
        fun he => congrArg D.id (D.n2npId_injective he)⟩
    rw [List.countP_singleton, waits_of_some hm, hsender, arrives, hr]
    simp [hsame]

/-- The requests that wait are those that came and were not answered. -/
theorem Genuine.waiting_handle (h : D.Genuine log i n)
    (htidy : Tidy n) (hunasked : Unasked n) (hout : n.out = [])
    (hfrom : ∀ j dest p, (j, .send dest p) ∈ log → p.from = D.id j) {e : InternalNode.Event}
    (he : D.Delivers log (i, e)) (hn : n.handle e = some n') (j : ι)
    (request : Request) :
    D.waiting j request n' + D.replies j request n'.out =
      D.waiting j request n + D.arrives j request e := by
  cases e with
  | receive pkt senderId now =>
    obtain ⟨l, p, hsent, rfl, rfl⟩ := he
    cases hn
    have hcarried : p.carried.from = D.id l := hfrom l _ p hsent
    exact waiting_receive htidy hout hcarried now j request
  | work k keyId => exact h.waiting_work htidy hout hn j request
  | expire k =>
    obtain ⟨m, hm, rfl⟩ := Option.map_eq_some_iff.mp hn
    have hnone := hunasked m (List.mem_of_getElem? hm)
    have hposted : (({ n with timeouts := n.timeouts.eraseIdx k } : InternalNode).post m).messages =
        n.messages ++ [m] := rfl
    rw [waiting_append hposted rfl (by simpa using hnone)]
    show _ + D.replies j request n.out = _
    rw [hout]
    rfl
  | sendPing dest => cases hn; exact waiting_plain (.emit _ rfl) rfl hout j request
  | findClosest count idToFind =>
    exact waiting_plain (findClosest_plain hn) ((SameTable.refl n).findClosest hn).objects hout j
      request
  | getValue key keyId =>
    exact waiting_plain ((add_plain n _).trans (findClosest_plain hn))
      ((SameTable.add n _).findClosest hn).objects hout j request
  | setValue key value keyId edit =>
    exact waiting_plain ((add_plain n _).trans (findClosest_plain hn))
      ((SameTable.add n _).findClosest hn).objects hout j request

variable [DecidableEq ι]

/-- What the node `i` has received and put out, of a log of both. -/
def receivedBy (D : Deployment ι) (i j : ι) (request : Request)
    (log : List (ι × InternalNode.Event ⊕ ι × Output)) : Nat :=
  log.countP fun
    | .inl (k, .receive pkt senderId _) =>
      k = i ∧ senderId = D.n2npId j ∧ pkt.content.request = some request
    | _ => false

def repliedBy (D : Deployment ι) (i j : ι) (request : Request)
    (log : List (ι × InternalNode.Event ⊕ ι × Output)) : Nat :=
  log.countP fun
    | .inr (k, .send dest pkt) => k = i ∧ dest = D.n2npId j ∧ pkt.content.answers = some request
    | _ => false

theorem receivedBy_step (i j k : ι) (request : Request)
    (log : List (ι × InternalNode.Event ⊕ ι × Output)) (e : InternalNode.Event)
    (out : List (ι × Output)) :
    D.receivedBy i j request (log ++ .inl (k, e) :: out.map .inr) =
      D.receivedBy i j request log + if k = i then D.arrives j request e else 0 := by
  have hout : (out.map Sum.inr).countP (fun x : ι × InternalNode.Event ⊕ ι × Output => match x with
      | .inl (k, .receive pkt senderId _) =>
        decide (k = i ∧ senderId = D.n2npId j ∧ pkt.content.request = some request)
      | _ => false) = 0 :=
    List.countP_eq_zero.mpr fun x hx => by
      obtain ⟨o, -, rfl⟩ := List.mem_map.mp hx
      simp
  rw [receivedBy, List.countP_append, List.countP_cons, hout, Nat.zero_add]
  congr 1
  by_cases hk : k = i
  · cases e <;> simp [arrives, hk]
  · cases e <;> simp [hk]

theorem repliedBy_step (i j k : ι) (request : Request)
    (log : List (ι × InternalNode.Event ⊕ ι × Output)) (e : InternalNode.Event)
    (out : List Output) :
    D.repliedBy i j request (log ++ .inl (k, e) :: (out.map (Prod.mk k)).map .inr) =
      D.repliedBy i j request log + if k = i then D.replies j request out else 0 := by
  rw [repliedBy, List.countP_append, List.countP_cons_of_neg (by simp), List.countP_map,
    List.countP_map]
  congr 1
  by_cases hk : k = i
  · rw [if_pos hk, replies]
    refine List.countP_congr fun o _ => ?_
    cases o <;> simp [hk]
  · rw [if_neg hk]
    refine List.countP_eq_zero.mpr fun o _ => ?_
    cases o <;> simp [hk]

/-- Every request is answered once, to the node that has sent it, and nothing else is: what a node
has received of another node is what it has answered it and what waits in its mail. -/
theorem received_eq_replied {s : ι → InternalNode}
    {log : List (ι × InternalNode.Event ⊕ ι × Output)}
    (run : network.traced.Run
      (fun _ log e => D.Fair (Machine.outputs log) e) D.init s log) (i j : ι) (request : Request) :
    D.receivedBy i j request log = D.repliedBy i j request log + D.waiting j request (s i) := by
  have h : (∀ i, Unasked (s i)) ∧
      D.receivedBy i j request log = D.repliedBy i j request log + D.waiting j request (s i) := by
    induction run with
    | start => exact ⟨fun i => nofun, rfl⟩
    | @step s s' log out e run allowed taken ih =>
      obtain ⟨k, e⟩ := e
      obtain ⟨⟨t, o⟩, ht, heq⟩ := Option.map_eq_some_iff.mp taken
      cases heq
      obtain ⟨n', out, hstep, rfl, rfl⟩ := Machine.family_step ht
      obtain ⟨n₁, hn, heq⟩ := Option.map_eq_some_iff.mp hstep
      cases heq
      have hrun : network.Run (fun _ log e => D.Fair log e) D.init s
          (Machine.outputs log) := run.untraced
      have hhonest := honest_of_run hrun
      have hsound := (sound_of_run (hrun.mono fun _ _ _ h => h.1)).1
      obtain ⟨hunasked, hcount⟩ := ih
      refine ⟨fun l => ?_, ?_⟩
      · dsimp only
        by_cases hl : l = k
        · subst hl
          rw [Function.update_self]
          have hafter : Unasked n₁ := (hunasked l).handle hn
          exact hafter
        · rw [Function.update_of_ne hl]
          exact hunasked l
      · dsimp only
        rw [receivedBy_step, repliedBy_step, hcount]
        by_cases hk : k = i
        · subst hk
          have hstep := (hhonest.genuine k).waiting_handle (hhonest.holds k).tidy (hunasked k)
            (hhonest.out k) (fun j dest p hsent => from_of_grounded hsound hsent) allowed.1 hn j
            request
          rw [Function.update_self, if_pos rfl, if_pos rfl]
          show _ = _ + _ + D.waiting j request n₁
          omega
        · rw [Function.update_of_ne (Ne.symm hk), if_neg hk, if_neg hk]
          omega
  exact h.2

/-- The FIND of the node `false` is answered; the one it sends itself waits. -/
theorem received_eq_replied_search :
    ∃ s log, network.traced.Run
        (fun _ log e => pair.Fair (Machine.outputs log) e) pair.init s log ∧
      pair.repliedBy true false (.find 0) log = 1 ∧ pair.waiting false (.find 1) (s false) = 1 ∧
      pair.receivedBy true false (.find 0) log =
        pair.repliedBy true false (.find 0) log + pair.waiting false (.find 0) (s true) := by
  have h : (network.traced.exec
      (fun _ log e => pair.fair (Machine.outputs log) e) (pair.init, [])
      (searchItself.take 8)).map (fun r => (pair.repliedBy true false (.find 0) r.2,
        pair.waiting false (.find 1) (r.1 false))) = some (1, 1) := by
    decide +kernel
  obtain ⟨⟨s, log⟩, hrun, hlog⟩ := Option.map_eq_some_iff.mp h
  have run := (Machine.Run.exec .start hrun).mono fun _ _ _ => fair_sound
  obtain ⟨hreplied, hwaiting⟩ := Prod.mk.inj hlog
  exact ⟨s, log, run, hreplied, hwaiting, received_eq_replied run true false (.find 0)⟩

end Deployment
end Epyx.DHT
