import Epyx.DHT.InternalNode
import Epyx.Lib.TreeMap
import Mathlib.Logic.Relation

/-! What the steps of a node are made of, as far as its process actors go. -/
namespace Epyx.DHT
open Std (ExtTreeMap)

/-- An output that concerns no process actor. -/
def Output.aside : Output → Bool
  | .send _ _ | .stored _ _ => true
  | _ => false

theorem Output.filterMap_aside {α : Type*} {f : Output → Option α} {out : List Output}
    (h : ∀ o ∈ out, o.aside) (hsend : ∀ dest pkt, f (.send dest pkt) = none)
    (hstored : ∀ key value, f (.stored key value) = none) : out.filterMap f = [] := by
  refine List.filterMap_eq_nil_iff.mpr fun o ho => ?_
  have ha := h o ho
  cases o with
  | send dest pkt => exact hsend dest pkt
  | stored key value => exact hstored key value
  | _ => cases ha

/-- What a handler of a process actor makes of the actor, and what it does. -/
inductive Role.Handler : Role → Role × List Action → Prop
  | answer (objects : Peers) (answer : Answer) (r : Role) :
      Handler r (r.onNewAnswer objects answer)
  | answerTimeout (objects : Peers) (r : Role) : Handler r (r.onAnswerTimeout objects)
  | message (objects : Peers) (self : Id) (m : ProcessMessage) (r : Role) :
      Handler r (r.treat objects self m)
  | start (objects : Peers) (f : FinderActor) (nearest : List SPtr) :
      Handler (.finder f) (.finder (f.start objects nearest).1, (f.start objects nearest).2)

namespace InternalNode

/-- The process actors and their registry stay as they are. -/
structure Aside (n n' : InternalNode) : Prop where
  actorCount : n'.actorCount = n.actorCount
  actors : n'.actors = n.actors
  processActorsCount : n'.processActorsCount = n.processActorsCount
  processActors : n'.processActors = n.processActors
  out : ∃ out, n'.out = n.out ++ out ∧ ∀ o ∈ out, o.aside

/-- The parts of a step: the manager adds an actor, has it handle a message or an answer, or
deletes it. -/
inductive Part (n : InternalNode) : InternalNode → Prop
  | aside {n' : InternalNode} (h : Aside n n') : Part n n'
  | add (role : Role) : Part n (n.add role)
  | handler {a : ActorId} {p : ProcessActor} {r : Role × List Action}
      (found : n.actors[a]? = some p) (alive : p.alive) (h : p.role.Handler r) :
      Part n (n.run a p r)
  | settle {a : ActorId} {p : ProcessActor} {c : Int64} {o : Output} {r : Role × List Action}
      (found : n.actors[a]? = some p) (alive : p.alive) (asked : p.queries[c]? ≠ none)
      (settles : (∃ answer, o = .onNewAnswer a c answer) ∨ o = .onAnswerTimeout a c)
      (h : p.role.Handler r) :
      Part n (((n.unregisterConnectionId c).emit o).run a
        { p with queries := p.queries.insert c false } r)
  | destroy {a : ActorId} {p : ProcessActor} (found : n.actors[a]? = some p)
      (dead : p.alive = false) : Part n (n.destroy a p)

abbrev Parts : InternalNode → InternalNode → Prop := Relation.ReflTransGen Part

theorem Aside.silent {n n' : InternalNode} (hcount : n'.actorCount = n.actorCount)
    (hactors : n'.actors = n.actors) (hids : n'.processActorsCount = n.processActorsCount)
    (hregistry : n'.processActors = n.processActors) (hout : n'.out = n.out) : Aside n n' :=
  ⟨hcount, hactors, hids, hregistry, [], by simpa using hout, nofun⟩

theorem Aside.refl (n : InternalNode) : Aside n n := .silent rfl rfl rfl rfl rfl

theorem Aside.emit {n n' : InternalNode} (h : Aside n n') {o : Output} (ho : o.aside) :
    Aside n (n'.emit o) := by
  obtain ⟨out, hout, hall⟩ := h.out
  refine ⟨h.actorCount, h.actors, h.processActorsCount, h.processActors, out ++ [o], ?_, ?_⟩
  · simp [InternalNode.emit, hout]
  · intro x hx
    rcases List.mem_append.mp hx with hx | hx
    · exact hall x hx
    · rw [List.mem_singleton.mp hx]
      exact ho

theorem Aside.send {n n' : InternalNode} (h : Aside n n') (content : Content) (dest : SPtr) :
    Aside n (n'.send content dest) := h.emit rfl

theorem treatReceive_parts {n : InternalNode} {a : ActorId} {p : ProcessActor}
    (hp : n.actors[a]? = some p) (ha : p.alive) (answer : Answer) :
    Parts n (n.treatReceive a p answer) := by
  unfold treatReceive
  dsimp only
  split
  · rename_i hc
    exact .single (.settle hp ha (by simp [hc]) (.inl ⟨answer, rfl⟩) (.answer _ answer _))
  · exact .refl

theorem treatTimeout_parts {n : InternalNode} {a : ActorId} {p : ProcessActor}
    (hp : n.actors[a]? = some p) (ha : p.alive) (pNumber : Int64) :
    Parts n (n.treatTimeout a p pNumber) := by
  unfold treatTimeout
  split
  · rename_i hc
    exact .single (.settle hp ha (Option.isSome_iff_ne_none.mp hc) (.inr rfl) (.answerTimeout _ _))
  · exact .refl

theorem treatProcess_parts (n : InternalNode) (a : ActorId) (m : ProcessMessage) :
    Parts n (n.treatProcess a m) := by
  unfold treatProcess
  split
  · exact .refl
  · rename_i p hp
    split
    · rename_i ha
      cases m with
      | receive peer answer => exact treatReceive_parts hp ha answer
      | processTimeout pNumber => exact treatTimeout_parts hp ha pNumber
      | _ => exact .single (.handler hp ha (.message _ _ _ _))
    · rename_i ha
      exact .single (.destroy hp (Bool.eq_false_iff.mpr ha))

theorem findClosest_parts {n n' : InternalNode} {cb : FindCallback} {count : Int} {idToFind : Id}
    (h : n.findClosest cb count idToFind = some n') : Parts n n' := by
  obtain ⟨nearest, -, rfl⟩ := Option.map_eq_some_iff.mp h
  exact .tail (.single (.add _))
    (.handler (by simp [InternalNode.add, arm]) rfl (.start _ _ nearest))

theorem processPacket_aside (n : InternalNode) (pkt : Packet) (senderId : N2NP.NodeId) (now : Int) :
    Aside n (n.processPacket pkt senderId now) := by
  have hd : ∀ n' : InternalNode, Aside n n' → ∀ sender answer,
      Aside n (n'.dispatchToProcessActor sender answer) := fun n' h sender answer => by
    unfold dispatchToProcessActor
    split
    · exact ⟨h.actorCount, h.actors, h.processActorsCount, h.processActors, h.out⟩
    · exact h
  have hs : Aside n (n.seenPeer pkt.from senderId now).1 := .silent rfl rfl rfl rfl rfl
  unfold processPacket
  cases pkt.content with
  | got connectionId status value => exact hd _ hs _ _
  | stored connectionId status => exact hd _ hs _ _
  | found connectionId status count foundPeers =>
    exact hd ((n.seenPeer pkt.from senderId now).1.readPeers foundPeers).1
      (.silent rfl rfl rfl rfl rfl) _ _
  | pong => exact hs
  | _ => exact .silent rfl rfl rfl rfl rfl

/-! What everything besides the handlers of process actors keeps, and these handlers keep, is kept
by a step. -/

section Rule
variable {P : InternalNode → Prop}
  (aside : ∀ {n n'}, P n → Aside n n' → P n') (add : ∀ {n} role, P n → P (n.add role))
  (findClosest : ∀ {n n' cb count idToFind}, P n → n.findClosest cb count idToFind = some n' → P n')

include aside add findClosest in
theorem treat_rule {n n' : InternalNode} {keyId : Id} {m : Message} (hn : P n)
    (process : ∀ a pm, m = .process a pm → P (n.treatProcess a pm))
    (h : n.treat keyId m = some n') : P n' := by
  cases m with
  | ping sender => cases h; exact aside hn ((Aside.refl n).send .pong sender)
  | get sender connectionId key =>
    cases h
    unfold treatGet
    split <;> exact aside hn ((Aside.refl n).send _ _)
  | store sender connectionId key value =>
    cases h
    have he : Aside n (n.emit (.stored key value)) := (Aside.refl n).emit rfl
    have hs : Aside n ((n.emit (.stored key value)).storageSet key value) := by
      unfold storageSet
      dsimp only
      split
      · exact ⟨he.actorCount, he.actors, he.processActorsCount, he.processActors, he.out⟩
      · exact ⟨he.actorCount, he.actors, he.processActorsCount, he.processActors, he.out⟩
    exact aside hn (hs.send _ _)
  | find sender connectionId count idToFind =>
    obtain ⟨nearest, -, rfl⟩ := Option.map_eq_some_iff.mp h
    exact aside hn ((Aside.refl n).send _ _)
  | newKey key => cases h; exact aside hn (.silent rfl rfl rfl rfl rfl)
  | replicate key =>
    simp only [InternalNode.treat, treatReplicate] at h
    split at h
    · exact findClosest (add _ hn) h
    · cases h; exact hn
  | process a m => cases h; exact process a m rfl

include aside add findClosest in
theorem handle_rule {n n' : InternalNode} {e : Event} (hn : P n)
    (process : ∀ k keyId a pm, e = .work k keyId → n.messages[k]? = some (.process a pm) →
      P { n with messages := n.messages.eraseIdx k } →
      P ({ n with messages := n.messages.eraseIdx k }.treatProcess a pm))
    (h : n.handle e = some n') : P n' := by
  cases e with
  | receive pkt senderId now => cases h; exact aside hn (processPacket_aside n pkt senderId now)
  | work k keyId =>
    obtain ⟨m, hm, hn'⟩ := Option.bind_eq_some_iff.mp h
    have ht : P { n with messages := n.messages.eraseIdx k } :=
      aside hn (.silent rfl rfl rfl rfl rfl)
    exact treat_rule aside add findClosest ht
      (fun a pm he => process k keyId a pm rfl (he ▸ hm) ht) hn'
  | expire k =>
    obtain ⟨m, -, rfl⟩ := Option.map_eq_some_iff.mp h
    exact aside hn (.silent rfl rfl rfl rfl rfl)
  | sendPing dest => cases h; exact aside hn ((Aside.refl n).emit rfl)
  | findClosest count idToFind => exact findClosest hn h
  | getValue key keyId => exact findClosest (add _ hn) h
  | setValue key value keyId edit => exact findClosest (add _ hn) h

end Rule

theorem handle_parts {n n' : InternalNode} {e : Event}
    (h : n.handle e = some n') : Parts n n' :=
  handle_rule (P := Parts n) (fun hn ha => hn.tail (.aside ha)) (fun role hn => hn.tail (.add role))
    (fun hn hf => .trans hn (findClosest_parts hf)) .refl
    (fun _ _ a pm _ _ hn => .trans hn (treatProcess_parts _ a pm)) h

/-- A handler changes the entry of its own actor, and no id of an actor. -/
theorem run_frame (n : InternalNode) (a : ActorId) (p : ProcessActor) (r : Role × List Action) :
    (∃ q, (n.run a p r).actors = n.actors.insert a q) ∧
      (n.run a p r).actorCount = n.actorCount := by
  have hfold : ∀ (xs : List Action) (s : InternalNode × ProcessActor),
      (xs.foldl (perform a) s).1.actors = s.1.actors ∧
        (xs.foldl (perform a) s).1.actorCount = s.1.actorCount := by
    intro xs
    induction xs with
    | nil => exact fun s => ⟨rfl, rfl⟩
    | cons x xs ih =>
      intro s
      obtain ⟨hactors, hcount⟩ := ih (perform a s x)
      rw [List.foldl_cons, hactors, hcount]
      cases x <;> exact ⟨rfl, rfl⟩
  obtain ⟨hactors, hcount⟩ := hfold r.2 (n, { p with role := r.1 })
  exact ⟨⟨_, by rw [run, hactors]⟩, hcount⟩

/-- The ids of the actors come from the counter. -/
def Placed (n : InternalNode) : Prop := ∀ a p, n.actors[a]? = some p → a < n.actorCount

theorem Placed.run {n : InternalNode} (h : Placed n) {a : ActorId} (ha : a < n.actorCount)
    (p : ProcessActor) (r : Role × List Action) : Placed (n.run a p r) := by
  obtain ⟨⟨q, hactors⟩, hcount⟩ := run_frame n a p r
  intro b q' hb
  rw [hactors] at hb
  rw [hcount]
  rcases Lib.TreeMap.of_getElem?_insert hb with ⟨rfl, -⟩ | ⟨-, hb⟩
  · exact ha
  · exact h b q' hb

theorem Part.placed {n n' : InternalNode} (h : Part n n') (hn : Placed n) : Placed n' := by
  cases h with
  | aside h =>
    intro a p hp
    rw [h.actors] at hp
    rw [h.actorCount]
    exact hn a p hp
  | add role =>
    intro a p hp
    rcases Lib.TreeMap.of_getElem?_insert hp with ⟨rfl, -⟩ | ⟨-, hp⟩
    · exact Nat.lt_succ_self _
    · exact Nat.lt_succ_of_lt (hn a p hp)
  | handler hp ha h => exact hn.run (hn _ _ hp) _ _
  | settle hp ha hc ho h =>
    exact Placed.run (n := (n.unregisterConnectionId _).emit _) hn (hn _ _ hp) _ _
  | @destroy a p hp ha =>
    obtain ⟨r, hr⟩ := foldl_unregister p.queries.keys n
    intro b q hb
    rw [InternalNode.destroy, hr] at hb ⊢
    exact hn b q (Lib.TreeMap.of_getElem?_erase hb).2

theorem placed_new (id : Id) (n2npId : N2NP.NodeId) (count : Int64) :
    Placed (.new id n2npId count) := fun a p hp => by simp [InternalNode.new] at hp

theorem Parts.keep {P : InternalNode → Prop} (part : ∀ n n', P n → Part n n' → P n')
    {n n' : InternalNode} (h : Parts n n') (hn : P n) : P n' := by
  induction h with
  | refl => exact hn
  | tail _ h ih => exact part _ _ ih h

theorem handle_placed {n n' : InternalNode} {e : Event}
    (hn : Placed n) (h : n.handle e = some n') : Placed n' :=
  (handle_parts h).keep (fun _ _ hp part => part.placed hp) hn

/-- What the parts of steps keep holds in every state of a run, with the log. What a step has put
out counts as said already, and goes into the log when the step is over. -/
theorem run_parts {ok : InternalNode → List Output → Event → Prop}
    {P : List Output → InternalNode → Prop}
    (part : ∀ log n n', P log n → Part n n' → P log n')
    (commit : ∀ log n, P log n → P (log ++ n.out) { n with out := [] })
    {n₀ n : InternalNode} {log : List Output} (log₀ : List Output) (start : P log₀ n₀)
    (run : machine.Run ok n₀ n log) : P (log₀ ++ log) n := by
  refine run.invariant (P := fun n log => P (log₀ ++ log) n) (by simpa using start) ?_
  intro n log e n' out h _ taken
  obtain ⟨n₁, hn₁, heq⟩ := Option.map_eq_some_iff.mp taken
  cases heq
  rw [← List.append_assoc]
  exact commit _ _ ((handle_parts hn₁).keep (part (log₀ ++ log)) h)

/-- Between two steps nothing is left to be put out. -/
theorem run_out {ok : InternalNode → List Output → Event → Prop}
    {n₀ n : InternalNode} {log : List Output} (h₀ : n₀.out = [])
    (run : machine.Run ok n₀ n log) : n.out = [] := by
  refine run.invariant (P := fun n _ => n.out = []) h₀ ?_
  intro n log e n' out _ _ taken
  obtain ⟨n₁, -, heq⟩ := Option.map_eq_some_iff.mp taken
  cases heq
  rfl

end InternalNode
end Epyx.DHT
