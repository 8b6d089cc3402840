import Epyx.DHT.Asking
import Epyx.DHT.Ending
import Epyx.DHT.Queries

/-! A search finds the nearest node of the whole network: whoever it has asked and heard from is the
nearest one or tells of somebody nearer, who is asked in turn. -/
namespace Epyx.DHT
open Lib
open Std (ExtTreeMap)

/-- A table that is asked for no peers finds none. -/
theorem KBucket.one_le_of_found {k : KBucket} {objects : Peers} {target : Id} {count : Int}
    {nearest : List SPtr} (h : k.findNearestNodes objects target count = some nearest)
    (hne : nearest ≠ []) : 1 ≤ toU64 count := by
  by_contra hlt
  have hzero : toU64 count = 0 := by omega
  cases hp : k.buckets.flatten with
  | nil =>
    rw [findNearestNodes, hp] at h
    cases h
    exact hne rfl
  | cons p peers =>
    rw [findNearestNodes, hp, hzero] at h
    cases h

/-- The result of a search, as it goes to a user or to an actor. -/
def Action.found : Action → Option (List SPtr)
  | .call (.onFound result) => some result
  | .post _ (.findSuccess peers) => some peers
  | _ => none

namespace FinderActor

/-- Everybody in the shortlist was asked, and nobody is left who could answer. -/
structure Done (f : FinderActor) : Prop where
  pendingRequests : f.pendingRequests = 0
  contacted : ∀ x ∈ f.shortlist, x.1 ∈ f.contactedPeers

/-- An answer or a timeout: one more peer is asked, or the search is over, or it waits. -/
theorem onResponse_cases (objects : Peers) (f : FinderActor) :
    (∃ x ∈ f.shortlist, onResponse objects f =
      sendFindQueryTo objects { f with pendingRequests := f.pendingRequests - 1 } x.2) ∨
    (Done { f with pendingRequests := f.pendingRequests - 1 } ∧ onResponse objects f =
      ({ f with pendingRequests := f.pendingRequests - 1 },
        [f.callback.onFound f.foundPeers, .kill])) ∨
    onResponse objects f = ({ f with pendingRequests := f.pendingRequests - 1 }, []) := by
  unfold onResponse
  dsimp only
  split
  · rename_i r hr
    obtain ⟨x, hx, rfl⟩ := Option.map_eq_some_iff.mp hr
    exact .inl ⟨x, List.mem_of_find?_eq_some hx, rfl⟩
  · rename_i hnone
    have hall : ∀ x ∈ f.shortlist, x.1 ∈ f.contactedPeers := fun x hx => by
      have := List.find?_eq_none.mp (Option.map_eq_none_iff.mp hnone) x hx
      simpa using this
    split
    · rename_i hzero
      exact .inr (.inl ⟨⟨hzero, hall⟩, rfl⟩)
    · exact .inr (.inr rfl)

theorem onFound_found (cb : FindCallback) (result : ClosestQueue) :
    (cb.onFound result).found = some (result.map Prod.snd) := by
  cases cb <;> rfl

theorem onError_found (cb : FindCallback) : cb.onError.found = none := by
  cases cb <;> rfl

/-- Only a search that is done has found something. -/
theorem onResponse_found {objects : Peers} {f : FinderActor} {x : Action} {result : List SPtr}
    (hx : x ∈ (onResponse objects f).2) (hfound : x.found = some result) :
    Done (onResponse objects f).1 ∧
      x = (onResponse objects f).1.callback.onFound (onResponse objects f).1.foundPeers ∧
      result = (onResponse objects f).1.foundPeers.map Prod.snd := by
  rcases onResponse_cases objects f with ⟨y, -, heq⟩ | ⟨hdone, heq⟩ | heq
  · rw [heq] at hx
    rw [List.mem_singleton.mp hx] at hfound
    cases hfound
  · rw [heq] at hx ⊢
    rcases List.mem_pair.mp hx with rfl | rfl
    · rw [onFound_found] at hfound
      exact ⟨hdone, rfl, (Option.some.inj hfound).symm⟩
    · cases hfound
  · rw [heq] at hx
    cases hx

theorem sendQueries_found {objects : Peers} {f : FinderActor} {peers : List SPtr} {x : Action}
    (hx : x ∈ (sendQueries objects f peers).2) : x.found = none := by
  induction peers generalizing f with
  | nil => cases hx
  | cons p peers ih =>
    rcases List.mem_append.mp hx with hx | hx
    · rw [List.mem_singleton.mp hx]
      rfl
    · exact ih hx

end FinderActor

/-- Nothing is found. -/
def Unfound (xs : List Action) : Prop := ∀ x ∈ xs, x.found = none

theorem GetterActor.onNewAnswer_unfound (g : GetterActor) (answer : Answer) :
    Unfound (g.onNewAnswer answer).2 ∧ Unfound g.onGetResponse.2 := by
  have hresponse : Unfound g.onGetResponse.2 := by
    unfold onGetResponse
    dsimp only
    split
    · simp [Unfound, timeout, Action.found]
    · simp [Unfound]
  refine ⟨?_, hresponse⟩
  cases answer with
  | got connectionId status value =>
    unfold onNewAnswer
    dsimp only
    split
    · simp [Unfound, Action.found]
    · exact hresponse
  | _ => exact hresponse

theorem SetCallback.unfound (cb : SetCallback) (objects : Peers) (self : Id) (peers : List SPtr) :
    Unfound (cb.onFoundPeers objects self peers).2.2 ∧ Unfound cb.onSet ∧ Unfound cb.onError := by
  cases cb with
  | user edit => simp [Unfound, onFoundPeers, onSet, onError, Action.found]
  | replicater isHandlingKey key =>
    cases isHandlingKey with
    | true => simp [Unfound, onFoundPeers, onSet, onError, Action.found]
    | false => simp [Unfound, onFoundPeers, onSet, onError]

theorem SetterActor.timeout_unfound (s : SetterActor) : Unfound s.timeout.2 := by
  intro x hx
  rcases List.mem_append.mp hx with hx | hx
  · exact (s.callback.unfound [] .zero []).2.2 x hx
  · rw [List.mem_singleton.mp hx]
    rfl

theorem SetterActor.onSetReceive_unfound (s : SetterActor) : Unfound s.onSetReceive.2 := by
  unfold onSetReceive
  dsimp only
  split
  · split
    · intro x hx
      rcases List.mem_append.mp hx with hx | hx
      · exact (s.callback.unfound [] .zero []).2.1 x hx
      · rw [List.mem_singleton.mp hx]
        rfl
    · exact timeout_unfound _
  · exact nofun

theorem SetterActor.onNewAnswer_unfound (s : SetterActor) (answer : Answer) :
    Unfound (s.onNewAnswer answer).2 := by
  cases answer with
  | stored connectionId status =>
    unfold onNewAnswer
    dsimp only
    split
    · exact onSetReceive_unfound _
    · exact onSetReceive_unfound _
  | _ => exact onSetReceive_unfound _

/-- Only a finder finds something, at its end. -/
theorem Role.Handler.found {p : Role} {r : Role × List Action} (h : p.Handler r) {x : Action}
    {result : List SPtr} (hx : x ∈ r.2) (hfound : x.found = some result) :
    ∃ f, r.1 = .finder f ∧ f.Done ∧ x = f.callback.onFound f.foundPeers ∧
      result = f.foundPeers.map Prod.snd := by
  have hnone : ∀ {xs : List Action}, Unfound xs → x ∉ xs := fun hxs hmem => by
    rw [hxs x hmem] at hfound
    cases hfound
  cases h with
  | answer objects answer =>
    cases p with
    | finder f =>
      simp only [Role.onNewAnswer, Search.onNewAnswer_eq] at hx ⊢
      exact ⟨_, rfl, FinderActor.onResponse_found hx hfound⟩
    | getter g => exact absurd hx (hnone (g.onNewAnswer_unfound answer).1)
    | setter s => exact absurd hx (hnone (s.onNewAnswer_unfound answer))
  | answerTimeout objects =>
    cases p with
    | finder f => exact ⟨_, rfl, FinderActor.onResponse_found (f := f) hx hfound⟩
    | getter g => exact absurd hx (hnone (g.onNewAnswer_unfound (.stored 0 0)).2)
    | setter s => exact absurd hx (hnone (SetterActor.onSetReceive_unfound _))
  | message objects self m =>
    cases p with
    | finder f =>
      cases m with
      | timeout =>
        rcases List.mem_pair.mp hx with rfl | rfl
        · rw [FinderActor.onError_found] at hfound
          cases hfound
        · cases hfound
      | _ => cases hx
    | getter g =>
      have htimeout : Unfound g.timeout.2 := by simp [Unfound, GetterActor.timeout, Action.found]
      cases m with
      | timeout | findFailure => exact absurd hx (hnone htimeout)
      | findSuccess peers =>
        refine absurd hx (hnone fun y hy => ?_)
        obtain ⟨q, -, rfl⟩ := List.mem_map.mp hy
        rfl
      | _ => cases hx
    | setter s =>
      cases m with
      | timeout | findFailure => exact absurd hx (hnone s.timeout_unfound)
      | findSuccess peers =>
        refine absurd hx (hnone fun y hy => ?_)
        rcases List.mem_append.mp hy with hy | hy
        · exact (s.callback.unfound objects self peers).1 y hy
        · obtain ⟨q, -, rfl⟩ := List.mem_map.mp hy
          rfl
      | _ => cases hx
  | start objects f nearest =>
    rw [FinderActor.sendQueries_found hx] at hfound
    cases hfound

namespace Deployment
variable {ι : Type*} (D : Deployment ι)
open InternalNode FinderActor

/-- What a search of the node `i` has been offered so far, whom it has asked, and what it waits
for. -/
structure Seeks (log : List Output) (objects : Peers) (i : ι) (a : ActorId) (offered : List SPtr)
    (f : FinderActor) : Prop where
  sound : f.Sound objects f.requestedId (toU64 f.countToFind) offered
  finds : ∀ c query, .query a c query ∈ log → query = .find FIND_NB_NODE_REQUESTED f.requestedId
  contacted : ∀ d ∈ f.contactedPeers, ∃ c j, d = Distance.between f.requestedId (D.id j) ∧
    .query a c (.find FIND_NB_NODE_REQUESTED f.requestedId) ∈ log ∧
    .send (D.n2npId j) ⟨D.id i, .find c.toInt32 FIND_NB_NODE_REQUESTED f.requestedId⟩ ∈ log
  heard : ∀ c answer, .onNewAnswer a c answer ∈ log → answer.offered ⊆ offered
  pending : f.pendingRequests = (asksOf a log).length - (hearsOf a log).length
  begun : asksOf a log ≠ [] → 1 ≤ toU64 f.countToFind ∧ offered ≠ []

variable {D} {log out : List Output} {objects objects' : Peers} {i : ι} {a : ActorId}
  {offered : List SPtr} {f : FinderActor}

/-- What other actors do does not matter. -/
theorem Seeks.silent (h : D.Seeks log objects i a offered f) (hout : ∀ o ∈ out, o.actor ≠ some a) :
    D.Seeks (log ++ out) objects i a offered f := by
  have hasks : asksOf a (log ++ out) = asksOf a log := by
    rw [asksOf_append, asksOf_silent hout, List.append_nil]
  have hhears : hearsOf a (log ++ out) = hearsOf a log := by
    rw [hearsOf_append, hearsOf_silent hout, List.append_nil]
  refine ⟨h.sound, fun c query hmem => ?_, fun d hd => ?_, fun c answer hmem => ?_, ?_, ?_⟩
  · exact h.finds c query ((List.mem_append.mp hmem).resolve_right fun hmem => hout _ hmem rfl)
  · obtain ⟨c, j, hdist, hquery, hsend⟩ := h.contacted d hd
    exact ⟨c, j, hdist, List.mem_append_left _ hquery, List.mem_append_left _ hsend⟩
  · exact h.heard c answer ((List.mem_append.mp hmem).resolve_right fun hmem => hout _ hmem rfl)
  · rw [hasks, hhears]
    exact h.pending
  · rw [hasks]
    exact h.begun

theorem Seeks.later (h : D.Seeks log objects i a offered f) (hlater : objects.Later objects') :
    D.Seeks log objects' i a offered f := by
  have hsound := h.sound
  exact ⟨⟨hsound.requestedId, hsound.countToFind,
    fun p hp => Nat.lt_of_lt_of_le (hsound.valid p hp) hlater.length,
    hsound.foundPeers.later hlater hsound.valid, hsound.shortlist.later hlater hsound.valid⟩,
    h.finds, h.contacted, h.heard, h.pending, h.begun⟩

/-- Somebody of the shortlist is asked. -/
theorem Seeks.ask (h : D.Seeks log objects i a offered f)
    (hgenuine : ∀ o ∈ objects, ∃ j, o.toPeer = D.peer j) {p : SPtr}
    (hp : p ∈ f.shortlist.map Prod.snd) (hcount : 1 ≤ toU64 f.countToFind) (c : Int64) :
    D.Seeks (log ++ [.query a c (.find FIND_NB_NODE_REQUESTED f.requestedId),
        .send (objects.deref p).n2npId
          ⟨D.id i, .find c.toInt32 FIND_NB_NODE_REQUESTED f.requestedId⟩])
      objects i a offered (sendFindQueryTo objects f p).1 := by
  obtain ⟨x, hx, rfl⟩ := List.mem_map.mp hp
  have hmem := (h.sound.shortlist.entry x hx).1
  have hvalid := h.sound.valid _ hmem
  obtain ⟨j, hj⟩ := hgenuine _ (Peers.mem_of_lt hvalid)
  have hid : (objects.deref x.2).id = D.id j := congrArg Peer.id hj
  have haddress : (objects.deref x.2).n2npId = D.n2npId j := congrArg Peer.n2npId hj
  rw [haddress]
  refine ⟨h.sound.contact _ _, fun d query hd => ?_, fun d hd => ?_, fun d answer hd => ?_, ?_, ?_⟩
  · rcases List.mem_append.mp hd with hd | hd
    · exact h.finds d query hd
    · rcases List.mem_pair.mp hd with hd | hd
      · cases hd
        rfl
      · cases hd
  · rcases List.mem_cons.mp hd with rfl | hd
    · exact ⟨c, j, congrArg (Distance.between f.requestedId) hid, List.mem_append_right _ (.head _),
        List.mem_append_right _ (.tail _ (.head _))⟩
    · obtain ⟨e, l, hdist, hquery, hsend⟩ := h.contacted d hd
      exact ⟨e, l, hdist, List.mem_append_left _ hquery, List.mem_append_left _ hsend⟩
  · exact h.heard d answer ((List.mem_append.mp hd).resolve_right (by simp))
  · rw [asksOf_append, hearsOf_append]
    have hpending := h.pending
    simp only [sendFindQueryTo, asksOf, hearsOf, List.length_append, List.filterMap_cons,
      List.filterMap_nil, if_true, List.length_singleton, List.append_nil] at hpending ⊢
    omega
  · exact fun _ => ⟨hcount, List.ne_nil_of_mem hmem⟩

/-- Peers are offered. -/
theorem Seeks.offer (h : D.Seeks log objects i a offered f) {peers : List SPtr}
    (hpeers : objects.Has peers) :
    D.Seeks log objects i a (offered ++ peers) (addPeers objects f peers) := by
  obtain ⟨short, found, heq⟩ := addPeers_frame objects f peers
  have hsound := h.sound.addPeers hpeers
  rw [heq] at hsound ⊢
  refine ⟨hsound, h.finds, h.contacted, fun c answer hc => ?_, h.pending, fun hne => ?_⟩
  · exact List.subset_append_of_subset_left _ (h.heard c answer hc)
  · exact ⟨(h.begun hne).1, fun hnil => (h.begun hne).2 (List.append_eq_nil_iff.mp hnil).1⟩

/-- An answer comes in, which has been offered what it offers. -/
theorem Seeks.answer (h : D.Seeks log objects i a offered f) {answer : Answer} {c : Int64}
    (hoffered : answer.offered ⊆ offered) :
    D.Seeks (log ++ [.onNewAnswer a c answer]) objects i a offered
      { f with pendingRequests := f.pendingRequests - 1 } := by
  have hasks : asksOf a (log ++ [.onNewAnswer a c answer]) = asksOf a log := by
    rw [asksOf_append]
    exact List.append_nil _
  refine ⟨h.sound.contact f.contactedPeers _, fun d query hd => ?_, fun d hd => ?_,
    fun d answer' hd => ?_, ?_, ?_⟩
  · exact h.finds d query ((List.mem_append.mp hd).resolve_right (by simp))
  · obtain ⟨e, l, hdist, hquery, hsend⟩ := h.contacted d hd
    exact ⟨e, l, hdist, List.mem_append_left _ hquery, List.mem_append_left _ hsend⟩
  · rcases List.mem_append.mp hd with hd | hd
    · exact h.heard d answer' hd
    · cases List.mem_singleton.mp hd
      exact hoffered
  · rw [hasks, hearsOf_append]
    have hpending := h.pending
    simp only [hearsOf, List.length_append, List.filterMap_cons, List.filterMap_nil, if_true,
      List.length_singleton] at hpending ⊢
    omega
  · rw [hasks]
    exact h.begun

/-- An answer is taken in. -/
theorem Seeks.onResponse (h : D.Seeks log objects i a offered
      { f with pendingRequests := f.pendingRequests - 1 })
    (hgenuine : ∀ o ∈ objects, ∃ j, o.toPeer = D.peer j) (hbegun : asksOf a log ≠ []) (c : Int64) :
    D.Seeks (log ++ acted objects (D.id i) a c (FinderActor.onResponse objects f).2) objects i a
      offered (FinderActor.onResponse objects f).1 := by
  rcases onResponse_cases objects f with ⟨x, hx, heq⟩ | ⟨-, heq⟩ | heq
  · rw [heq]
    exact h.ask hgenuine (List.mem_map_of_mem hx) (h.begun hbegun).1 c
  · rw [heq]
    refine h.silent fun o ho heq => ?_
    have hnone := acted_aside (fun peer query hmem => ?_) ho
    · rw [hnone] at heq
      cases heq
    · cases hcallback : f.callback <;> simp [hcallback, FindCallback.onFound] at hmem
  · rw [heq]
    exact h.silent (List.forall_mem_nil _)

/-- The search begins, and asks everybody in the shortlist. -/
theorem Seeks.sendQueries (h : D.Seeks log objects i a offered f)
    (hgenuine : ∀ o ∈ objects, ∃ j, o.toPeer = D.peer j) {peers : List SPtr}
    (hpeers : peers ⊆ f.shortlist.map Prod.snd)
    (hcount : peers ≠ [] → 1 ≤ toU64 f.countToFind) (c : Int64) :
    D.Seeks (log ++ acted objects (D.id i) a c (FinderActor.sendQueries objects f peers).2) objects
      i a offered (FinderActor.sendQueries objects f peers).1 := by
  induction peers generalizing f log c with
  | nil => exact h.silent (List.forall_mem_nil _)
  | cons p peers ih =>
    have hask := h.ask hgenuine (hpeers (.head _)) (hcount (List.cons_ne_nil _ _)) c
    have hrest := ih hask (fun q hq => hpeers (.tail _ hq))
      (fun _ => hcount (List.cons_ne_nil _ _)) (c + 1)
    rw [List.append_assoc] at hrest
    exact hrest

/-- A search that begins now. -/
theorem Seeks.new (hsilent : ∀ o ∈ log, o.actor ≠ some a) (objects : Peers) (i : ι) (target : Id)
    (count : Int) (cb : FindCallback) :
    D.Seeks log objects i a [] (.new target count cb) := by
  refine ⟨.new objects target cb, fun c query hc => ?_, nofun, fun c answer hc => ?_, ?_, ?_⟩
  · exact absurd rfl (hsilent _ hc)
  · exact absurd rfl (hsilent _ hc)
  · rw [asksOf_silent hsilent, hearsOf_silent hsilent]
    rfl
  · rw [asksOf_silent hsilent]
    exact fun hne => absurd rfl hne

/-- The search starts, with the nearest nodes the table has found. -/
theorem Seeks.start (hsilent : ∀ o ∈ log, o.actor ≠ some a)
    (hgenuine : ∀ o ∈ objects, ∃ j, o.toPeer = D.peer j) (target : Id) {count : Int}
    (cb : FindCallback) {nearest : List SPtr} (hnearest : objects.Has nearest)
    (hcount : nearest ≠ [] → 1 ≤ toU64 count) (c : Int64) :
    D.Seeks (log ++ acted objects (D.id i) a c
        ((FinderActor.new target count cb).start objects nearest).2)
      objects i a nearest ((FinderActor.new target count cb).start objects nearest).1 := by
  have h := (Seeks.new (D := D) hsilent objects i target count cb).offer hnearest
  obtain ⟨short, found, heq⟩ := addPeers_frame objects (.new target count cb) nearest
  refine h.sendQueries hgenuine (List.Subset.refl _) (fun hne => ?_) c
  have hcountToFind : (addPeers objects (.new target count cb) nearest).countToFind = count := by
    rw [heq]
    rfl
  rw [hcountToFind]
  refine hcount fun hnil => hne (List.map_eq_nil_iff.mpr ?_)
  refine List.eq_nil_iff_forall_not_mem.mpr fun x hx => ?_
  have hmem := (h.sound.shortlist.entry x hx).1
  rw [hnil] at hmem
  cases hmem

/-! ### The searches of a node -/

/-- What the actors of the node `i` have asked and heard, and its searches. -/
structure Searched (D : Deployment ι) (log : List Output) (i : ι) (n : InternalNode) : Prop where
  fresh : ∀ a, n.actorCount ≤ a → ∀ o ∈ log, o.actor ≠ some a
  talks : ∀ a p, n.actors[a]? = some p → Patient a log → Talks log a p
  seeks : ∀ a p f, n.actors[a]? = some p → p.role = .finder f → Patient a log →
    ∃ offered, D.Seeks log n.objects i a offered f

variable {n n' : InternalNode}

theorem Searched.quiet (h : D.Searched log i n) (hquiet : Unnoticed n n')
    (hout : n'.out = n.out ++ out) : D.Searched (log ++ out) i n' := by
  have hsilent : ∀ a, ∀ o ∈ out, o.actor ≠ some a := fun a o ho => by
    rw [hquiet.aside.actor hout ho]
    exact nofun
  refine ⟨fun a ha o ho => ?_, fun a p hp hpatient => ?_, fun a p f hp hf hpatient => ?_⟩
  · rw [hquiet.aside.actorCount] at ha
    exact (List.mem_append.mp ho).elim (h.fresh a ha o) (hsilent a o)
  · rw [hquiet.aside.actors] at hp
    exact (h.talks a p hp hpatient.left).silent (hsilent a)
  · rw [hquiet.aside.actors] at hp
    obtain ⟨offered, hseeks⟩ := h.seeks a p f hp hf hpatient.left
    exact ⟨offered, (hseeks.later hquiet.later).silent (hsilent a)⟩

theorem Searched.add (h : D.Searched log i n) {role : Role}
    (hrole : ∀ f, role = .finder f → ∃ target count cb, f = .new target count cb) :
    D.Searched log i (n.add role) := by
  have hnew := h.fresh n.actorCount (Nat.le_refl _)
  refine ⟨fun a ha => h.fresh a (Nat.le_of_succ_le ha), fun a p hp hpatient => ?_,
    fun a p f hp hf hpatient => ?_⟩
  · rcases TreeMap.of_getElem?_insert hp with ⟨rfl, rfl⟩ | ⟨-, hp⟩
    · refine ⟨fun c hc => by simp at hc, ?_, ?_⟩
      · rw [hearsOf_silent hnew]
        exact List.nil_subset _
      · rw [hearsOf_silent hnew]
        exact .nil
    · exact h.talks a p hp hpatient
  · rcases TreeMap.of_getElem?_insert hp with ⟨rfl, rfl⟩ | ⟨-, hp⟩
    · obtain ⟨target, count, cb, rfl⟩ := hrole f hf
      exact ⟨[], .new hnew n.objects i target count cb⟩
    · exact h.seeks a p f hp hf hpatient

/-- The actor `a` does something. -/
theorem Searched.acts (h : D.Searched log i n) {q : ProcessActor}
    (hactors : n'.actors = n.actors.insert a q) (hcount : n'.actorCount = n.actorCount)
    (hobjects : n'.objects = n.objects) (ha : a < n.actorCount)
    (hout : ∀ o ∈ out, o.actor = none ∨ o.actor = some a)
    (htalks : Patient a (log ++ out) → Talks (log ++ out) a q)
    (hseeks : ∀ f, q.role = .finder f → Patient a (log ++ out) →
      ∃ offered, D.Seeks (log ++ out) n.objects i a offered f) : D.Searched (log ++ out) i n' := by
  have hother : ∀ b, b ≠ a → ∀ o ∈ out, o.actor ≠ some b := fun b hb o ho heq => by
    rcases hout o ho with hnone | hsome
    · rw [hnone] at heq
      cases heq
    · rw [hsome] at heq
      exact hb (Option.some.inj heq).symm
  refine ⟨fun b hb o ho => ?_, fun b p hp hpatient => ?_, fun b p f hp hf hpatient => ?_⟩
  · rw [hcount] at hb
    exact (List.mem_append.mp ho).elim (h.fresh b hb o)
      (hother b (Nat.ne_of_gt (Nat.lt_of_lt_of_le ha hb)) o)
  · rw [hactors] at hp
    rcases TreeMap.of_getElem?_insert hp with ⟨rfl, rfl⟩ | ⟨hne, hp⟩
    · exact htalks hpatient
    · exact (h.talks b p hp hpatient.left).silent (hother b (Ne.symm hne))
  · rw [hactors] at hp
    rw [hobjects]
    rcases TreeMap.of_getElem?_insert hp with ⟨rfl, rfl⟩ | ⟨hne, hp⟩
    · exact hseeks f hf hpatient
    · obtain ⟨offered, hseeks⟩ := h.seeks b p f hp hf hpatient.left
      exact ⟨offered, hseeks.silent (hother b (Ne.symm hne))⟩

theorem Searched.findClosest (h : D.Searched log i n) (hid : n.id = D.id i)
    (htable : n.objects.Has n.kbucket.buckets.flatten)
    (hgenuine : ∀ o ∈ n.objects, ∃ j, o.toPeer = D.peer j) {cb : FindCallback} {count : Int}
    {target : Id} (hn : n.findClosest cb count target = some n') (hout : n'.out = n.out ++ out)
    (hnodup : (issued (log ++ out)).Nodup) : D.Searched (log ++ out) i n' := by
  obtain ⟨nearest, hnearest, hran⟩ := findClosest_ran hn
  have hadded : D.Searched log i (n.add (.finder (.new target count cb))) :=
    h.add fun f hf => ⟨target, count, cb, (Role.finder.inj hf).symm⟩
  have hself : (n.add (.finder (.new target count cb))).actors[n.actorCount]? =
      some ⟨true, ∅, .finder (.new target count cb)⟩ := by
    simp [InternalNode.add, arm]
  have hacted := hran.out
  rw [hout] at hacted
  obtain rfl := List.append_cancel_left hacted
  obtain ⟨q, hactors, hbecame⟩ := hran.actors
  refine hadded.acts hactors hran.actorCount hran.objects (Nat.lt_succ_self _)
    (fun o ho => acted_actor ho) (fun hpatient => ?_) fun f hf hpatient => ?_
  · exact (hadded.talks _ _ hself hpatient.left).acted hbecame _ _ hnodup
  · rw [hbecame.role] at hf
    cases hf
    have hhas : n.objects.Has nearest := fun p hp =>
      htable p (KBucket.findNearestNodes_subset hnearest hp)
    have hcount : nearest ≠ [] → 1 ≤ toU64 count := fun hne =>
      KBucket.one_le_of_found hnearest hne
    have hstart := Seeks.start (D := D) (i := i) (h.fresh n.actorCount (Nat.le_refl _)) hgenuine
      target cb hhas hcount n.processActorsCount
    rw [← hid] at hstart
    exact ⟨nearest, hstart⟩

theorem Searched.turn (h : D.Searched log i n) (hplaced : Placed n) (hid : n.id = D.id i)
    (hgenuine : ∀ o ∈ n.objects, ∃ j, o.toPeer = D.peer j) {m : ProcessMessage}
    (hpeers : n.objects.Has m.peers) {p₀ p : ProcessActor} {r : Role × List Action}
    {said : List Output} (hp : n.actors[a]? = some p₀) (htreats : Treats n a p₀ m p r said)
    (hacted : Acted n n' a p r said) (hout : n'.out = n.out ++ out)
    (hnodup : (issued (log ++ out)).Nodup) : D.Searched (log ++ out) i n' := by
  have heq := hacted.out
  rw [hout] at heq
  obtain rfl := List.append_cancel_left heq
  obtain ⟨q, hactors, hbecame⟩ := hacted.actors
  have hsaid : ∀ o ∈ said, o.actor = some a := by
    cases htreats <;> simp [Output.actor]
  rw [← List.append_assoc] at hnodup ⊢
  refine List.append_assoc log said _ ▸ h.acts hactors hacted.actorCount hacted.objects
    (hplaced a p₀ hp) (fun o ho => ?_) (fun hpatient => ?_) fun f hf hpatient => ?_
  · rcases List.mem_append.mp ho with ho | ho
    · exact .inr (hsaid o ho)
    · exact acted_actor ho
  · rw [← List.append_assoc] at hpatient ⊢
    exact ((h.talks a p₀ hp hpatient.left.left).said htreats hpatient.left).acted hbecame _ _ hnodup
  · rw [← List.append_assoc] at hpatient ⊢
    rw [hbecame.role] at hf
    cases htreats with
    | answer peer answer pending =>
      cases hrole : p₀.role with
      | finder f₀ =>
        obtain ⟨offered, hseeks⟩ := h.seeks a p₀ f₀ hp hrole hpatient.left.left
        have hasked := ((h.talks a p₀ hp hpatient.left.left).waits _ pending).1
        have hbegun : asksOf a (log ++ [.onNewAnswer a (answerId answer).toInt64 answer]) ≠ [] := by
          rw [asksOf_append]
          exact List.append_ne_nil_of_left_ne_nil (List.ne_nil_of_mem hasked) _
        have hanswer := (hseeks.offer fun q hq => hpeers q (List.mem_cons_of_mem _
          (answer.offered_subset hq))).answer (c := (answerId answer).toInt64)
          (List.subset_append_right _ _)
        have hresponse := hanswer.onResponse hgenuine hbegun n.processActorsCount
        rw [hrole] at hf
        rw [Role.onNewAnswer, Search.onNewAnswer_eq] at hf ⊢
        cases hf
        rw [hid]
        exact ⟨_, hresponse⟩
      | getter g => rw [hrole] at hf; cases hf
      | setter s => rw [hrole] at hf; cases hf
    | timeout c asked => exact absurd (List.mem_append_right _ (.head _)) (hpatient.left c)
    | other m receive timeout =>
      rw [List.append_nil]
      cases hrole : p₀.role with
      | finder f₀ =>
        obtain ⟨offered, hseeks⟩ := h.seeks a p₀ f₀ hp hrole hpatient.left.left
        rw [hrole] at hf
        refine ⟨offered, ?_⟩
        cases m with
        | timeout =>
          cases hf
          refine hseeks.silent fun o ho heq => ?_
          have hnone := acted_aside (fun peer query hmem => ?_) ho
          · rw [hnone] at heq
            cases heq
          · cases hcallback : f.callback <;>
              simp [hcallback, FindCallback.onError, Role.treat, FinderActor.timeout] at hmem
        | _ => cases hf; exact hseeks.silent (List.forall_mem_nil _)
      | getter g => rw [hrole] at hf; cases m <;> cases hf
      | setter s => rw [hrole] at hf; cases m <;> cases hf

/-- Nobody notices that an actor is deleted. -/
theorem Searched.destroy (h : D.Searched log i n) (p : ProcessActor) :
    D.Searched log i (n.destroy a p) := by
  obtain ⟨r, hr⟩ := foldl_unregister p.queries.keys n
  rw [InternalNode.destroy, hr]
  exact ⟨h.fresh, fun b q hq => h.talks b q (TreeMap.of_getElem?_erase hq).2,
    fun b q f hq => h.seeks b q f (TreeMap.of_getElem?_erase hq).2⟩

theorem Searched.idle (h : D.Searched log i n) (hout : n.out = []) :
    D.Searched (log ++ n.out) i n := by
  have hlog : log ++ n.out = log := by rw [hout, List.append_nil]
  rw [hlog]
  exact h

theorem Searched.handle (h : D.Searched log i n) (hplaced : Placed n)
    (hout : n.out = []) (hid : n.id = D.id i) (htidy : Tidy n)
    (htimers : ∀ m ∈ n.timeouts, m.isTimer) {e : InternalNode.Event}
    (hn : n.handle e = some n') (hgenuine : ∀ o ∈ n'.objects, ∃ j, o.toPeer = D.peer j)
    (hnodup : (issued (log ++ n'.out)).Nodup) : D.Searched (log ++ n'.out) i n' := by
  have htable : n.objects.Has n.kbucket.buckets.flatten := htidy.table
  cases handle_happens htimers hn with
  | quiet hquiet => exact h.quiet hquiet (by rw [hout]; rfl)
  | search count target hn =>
    obtain ⟨nearest, -, hran⟩ := findClosest_ran hn
    have hobjects : n'.objects = n.objects := hran.objects
    rw [hobjects] at hgenuine
    exact h.findClosest hid htable hgenuine hn (by rw [hout]; rfl) hnodup
  | @operation _ ms n' h₀ role key keyId hrole hn =>
    obtain ⟨nearest, -, hran⟩ := findClosest_ran hn
    have hobjects : n'.objects = n.objects := hran.objects
    rw [hobjects] at hgenuine
    have hadded : D.Searched log i (({ n with messages := ms } : InternalNode).add role) := by
      have hquiet : D.Searched log i { n with messages := ms } := ⟨h.fresh, h.talks, h.seeks⟩
      refine hquiet.add fun f hf => ?_
      subst hf
      cases hrole
    exact hadded.findClosest hid htable hgenuine hn (by rw [InternalNode.add, arm, hout]; rfl) hnodup
  | @turn k keyId a m hm =>
    have htaken : D.Searched log i { n with messages := n.messages.eraseIdx k } :=
      ⟨h.fresh, h.talks, h.seeks⟩
    rcases InternalNode.treatProcess_cases { n with messages := n.messages.eraseIdx k } a m with
      heq | ⟨p, -, -, heq⟩ | ⟨p₀, p, r, said, hp, -, htreats, hacted⟩
    · rw [heq]
      exact htaken.idle hout
    · obtain ⟨r, hr⟩ := foldl_unregister p.queries.keys { n with messages := n.messages.eraseIdx k }
      rw [heq]
      exact (htaken.destroy p).idle (by rw [InternalNode.destroy, hr]; exact hout)
    · have hobjects := hacted.objects
      rw [hobjects] at hgenuine
      exact htaken.turn hplaced hid hgenuine
        (htidy.messages _ (List.mem_of_getElem? hm)) hp htreats hacted (by rw [hout]; rfl) hnodup

/-! ### What a search finds -/

/-- Whom a search has heard from that is done leads to nobody nearer than the nearest one it was
offered, so that one is the nearest of all; and it was found. -/
theorem Seeks.nearest [DecidableEq ι] {s : ι → InternalNode}
    {log : Log ι} (run : network.Run D.Settled D.init s log)
    (hfit : D.CountersFit log) {p : ProcessActor}
    (h : D.Seeks (Machine.logOf i log) (s i).objects i a offered f)
    (htalks : Talks (Machine.logOf i log) a p) (hdone : f.Done)
    (hbegun : asksOf a (Machine.logOf i log) ≠ []) :
    ∃ j, D.Nearest f.requestedId j ∧
      ∃ x ∈ f.foundPeers, ((s i).objects.deref x.2).id = D.id j := by
  obtain ⟨hcount, hne⟩ := h.begun hbegun
  obtain ⟨p₀, hp₀⟩ := List.exists_mem_of_ne_nil _ hne
  let S := (offered.map ((s i).objects.distance f.requestedId)).toFinset
  have hS : S.Nonempty := ⟨_, List.mem_toFinset.mpr (List.mem_map_of_mem hp₀)⟩
  have hmin := S.min'_mem hS
  -- the nearest one is in the shortlist, so it was asked
  obtain ⟨d, hd, hle⟩ := h.sound.shortlist.least.exists_le (by decide) hmin
  obtain rfl : d = S.min' hS := Nat.le_antisymm hle (S.min'_le d (h.sound.shortlist.least.subset hd))
  obtain ⟨x, hx, hdist⟩ := KBucket.mem_distances.mp hd
  obtain ⟨c, j, hj, hquery, hsend⟩ := h.contacted x.1 (hdone.contacted x hx)
  have hgap : D.gap f.requestedId j = S.min' hS := by
    rw [← hdist, hj]
    rfl
  -- it has answered
  have hpending := h.pending
  rw [hdone.pendingRequests] at hpending
  have hheard := htalks.all (by omega) (mem_asksOf.mpr ⟨_, hquery⟩)
  obtain ⟨answer, hanswer⟩ := mem_hearsOf.mp hheard
  have hmeans := answer_means run hfit (Machine.mem_logOf.mp hanswer) (Machine.mem_logOf.mp hquery)
    (Machine.mem_logOf.mp hsend)
  have hleads := hmeans (by decide)
  have hnearest : D.Nearest f.requestedId j := by
    refine hleads.resolve_right ?_
    rintro ⟨id, hid, hlt⟩
    obtain ⟨q, hq, rfl⟩ := List.mem_map.mp hid
    have hmem : (s i).objects.distance f.requestedId q ∈ S :=
      List.mem_toFinset.mpr (List.mem_map_of_mem (h.heard c answer hanswer hq))
    have hge := S.min'_le _ hmem
    rw [hgap] at hlt
    exact Nat.lt_irrefl _ (Nat.lt_of_lt_of_le hlt hge)
  -- and it was found
  obtain ⟨d, hd, hle⟩ := h.sound.foundPeers.least.exists_le hcount hmin
  obtain rfl : d = S.min' hS := Nat.le_antisymm hle (S.min'_le d (h.sound.foundPeers.least.subset hd))
  obtain ⟨y, hy, hydist⟩ := KBucket.mem_distances.mp hd
  refine ⟨j, hnearest, y, hy, ?_⟩
  rw [← hgap, (h.sound.foundPeers.entry y hy).2] at hydist
  exact Distance.between_inj (Id.toNat_inj hydist)

end Deployment

namespace InternalNode
variable {n n' : InternalNode} {a : ActorId}

theorem Treats.handler {m : ProcessMessage} {p₀ p : ProcessActor} {r : Role × List Action}
    {said : List Output} (h : Treats n a p₀ m p r said) : p₀.role.Handler r := by
  cases h with
  | answer peer answer pending => exact .answer _ answer _
  | timeout c asked => exact .answerTimeout _ _
  | other m receive timeout => exact .message _ _ m _

/-- The actor has been told something and has found this at that. -/
structure Finds (n : InternalNode) (a : ActorId) (x : Action) : Prop where
  finder : ∃ p f, n.actors[a]? = some p ∧ p.role = .finder f ∧ f.Done ∧
    x = f.callback.onFound f.foundPeers
  told : ∃ c, .onAnswerTimeout a c ∈ n.out ∨ ∃ answer, .onNewAnswer a c answer ∈ n.out

theorem acted_call {objects : Peers} {id : Id} {a b : ActorId} {c : Int64} {xs : List Action}
    {cb : Callback} (h : .call b cb ∈ acted objects id a c xs) : b = a ∧ .call cb ∈ xs := by
  induction xs generalizing c with
  | nil => cases h
  | cons x xs ih =>
    cases x with
    | sendQuery peer query =>
      obtain ⟨hb, hcall⟩ := ih ((List.mem_cons.mp ((List.mem_cons.mp h).resolve_left nofun)).resolve_left
        nofun)
      exact ⟨hb, .tail _ hcall⟩
    | call callback =>
      rcases List.mem_cons.mp h with heq | h
      · cases heq
        exact ⟨rfl, .head _⟩
      · obtain ⟨hb, hcall⟩ := ih h
        exact ⟨hb, .tail _ hcall⟩
    | _ =>
      obtain ⟨hb, hcall⟩ := ih h
      exact ⟨hb, .tail _ hcall⟩

/-- What is found in a turn is what the actor has found. -/
theorem turn_finds {m : ProcessMessage} {p₀ p : ProcessActor} {r : Role × List Action}
    {said : List Output} (htreats : Treats n a p₀ m p r said) (hacted : Acted n n' a p r said)
    {x : Action} {result : List SPtr} (hx : x ∈ r.2) (hfound : x.found = some result) :
    n'.Finds a x := by
  obtain ⟨f, hf, hdone, heq, -⟩ := htreats.handler.found hx hfound
  obtain ⟨q, hactors, hbecame⟩ := hacted.actors
  refine ⟨⟨q, f, ?_, hbecame.role.trans hf, hdone, heq⟩, ?_⟩
  · rw [hactors, ExtTreeMap.getElem?_insert_self]
  · rw [hacted.out]
    cases htreats with
    | answer peer answer pending =>
      exact ⟨_, .inr ⟨answer, List.mem_append_right _ (.head _)⟩⟩
    | timeout c asked => exact ⟨c, .inl (List.mem_append_right _ (.head _))⟩
    | other m receive timeout =>
      exfalso
      cases hrole : p₀.role with
      | finder f₀ =>
        rw [hrole] at hx
        cases m with
        | timeout =>
          rcases List.mem_pair.mp hx with rfl | rfl
          · rw [FinderActor.onError_found] at hfound
            cases hfound
          · cases hfound
        | _ => cases hx
      | getter g => rw [hrole] at hf; cases m <;> cases hf
      | setter s => rw [hrole] at hf; cases m <;> cases hf

theorem turn_shows {m : ProcessMessage} {p₀ p : ProcessActor} {r : Role × List Action}
    {said : List Output} (htreats : Treats n a p₀ m p r said) (hacted : Acted n n' a p r said) :
    (∀ b result, .call b (.onFound result) ∈ n'.out → .call b (.onFound result) ∈ n.out ∨
      n'.Finds b (.call (.onFound result))) ∧
    ∀ b peers, .process b (.findSuccess peers) ∈ n'.messages →
      .process b (.findSuccess peers) ∈ n.messages ∨ n'.Finds a (.post b (.findSuccess peers)) := by
  refine ⟨fun b result hmem => ?_, fun b peers hmem => ?_⟩
  · rw [hacted.out] at hmem
    rcases List.mem_append.mp hmem with hmem | hmem
    · exact .inl hmem
    · rcases List.mem_append.mp hmem with hsaid | hmem
      · cases htreats with
        | other m receive timeout => cases hsaid
        | _ => cases List.mem_singleton.mp hsaid
      · obtain ⟨rfl, hx⟩ := acted_call hmem
        exact .inr (turn_finds htreats hacted hx rfl)
  · rw [hacted.messages] at hmem
    rcases List.mem_append.mp hmem with hmem | hmem
    · exact .inl hmem
    · obtain ⟨x, hx, heq⟩ := List.mem_filterMap.mp hmem
      cases x with
      | post b m => cases heq; exact .inr (turn_finds htreats hacted hx rfl)
      | _ => cases heq

theorem mem_results {b : ActorId} {peers : List SPtr} :
    .findSuccess peers ∈ n.results b ↔ .process b (.findSuccess peers) ∈ n.messages := by
  constructor
  · intro h
    obtain ⟨m, hm, heq⟩ := List.mem_filterMap.mp h
    unfold Message.result at heq
    split at heq
    · split at heq
      · rename_i hb
        cases heq
        exact hb ▸ hm
      · cases heq
    · split at heq
      · cases heq
      · cases heq
    · cases heq
  · intro h
    exact List.mem_filterMap.mpr ⟨_, h, by simp [Message.result]⟩

theorem findClosest_unfound {cb : FindCallback} {count : Int} {target : Id}
    (hn : n.findClosest cb count target = some n') :
    (∀ result, .call a (.onFound result) ∈ n'.out → .call a (.onFound result) ∈ n.out) ∧
    ∀ b peers, .process b (.findSuccess peers) ∈ n'.messages →
      .process b (.findSuccess peers) ∈ n.messages := by
  obtain ⟨nearest, -, hran⟩ := findClosest_ran hn
  refine ⟨fun result hmem => ?_, fun b peers hmem => ?_⟩
  · rw [hran.out] at hmem
    refine (List.mem_append.mp hmem).resolve_right fun hmem => ?_
    cases FinderActor.sendQueries_found (acted_call hmem).2
  · rw [hran.messages] at hmem
    refine (List.mem_append.mp hmem).resolve_right fun hmem => ?_
    obtain ⟨x, hx, heq⟩ := List.mem_filterMap.mp hmem
    have hnone := FinderActor.sendQueries_found hx
    cases x with
    | post b m => cases heq; cases hnone
    | _ => cases heq

/-- Who asks or is told is alive, or new. -/
theorem handle_actor {e : Event} (hout : n.out = [])
    (htimers : ∀ m ∈ n.timeouts, m.isTimer) (hn : n.handle e = some n') {o : Output}
    (ho : o ∈ n'.out) (ha : o.actor = some a) :
    (∃ p, n.actors[a]? = some p ∧ p.alive) ∨ n.actorCount ≤ a := by
  have hold : o ∉ n.out := by
    rw [hout]
    exact List.not_mem_nil
  cases handle_happens htimers hn with
  | quiet hquiet =>
    obtain ⟨out, hout', haside⟩ := hquiet.aside.out
    rw [hout'] at ho
    have hmem := haside o ((List.mem_append.mp ho).resolve_left hold)
    cases o with
    | send dest pkt => cases ha
    | stored key value => cases ha
    | _ => cases hmem
  | search count target hn =>
    obtain ⟨nearest, -, hran⟩ := findClosest_ran hn
    rw [hran.out] at ho
    rcases acted_actor ((List.mem_append.mp ho).resolve_left hold) with hnone | hsome
    · rw [hnone] at ha
      cases ha
    · rw [hsome] at ha
      exact .inr (Nat.le_of_eq (Option.some.inj ha))
  | @operation _ ms n' h₀ role key keyId hrole hn =>
    obtain ⟨nearest, -, hran⟩ := findClosest_ran hn
    rw [hran.out] at ho
    rcases acted_actor ((List.mem_append.mp ho).resolve_left hold) with hnone | hsome
    · rw [hnone] at ha
      cases ha
    · rw [hsome] at ha
      exact .inr (Option.some.inj ha ▸ Nat.le_succ _)
  | @turn k keyId b m hm =>
    rcases InternalNode.treatProcess_cases { n with messages := n.messages.eraseIdx k } b m with
      heq | ⟨p, -, -, heq⟩ | ⟨p₀, p, r, said, hp, halive, htreats, hacted⟩
    · rw [heq] at ho
      exact absurd ho hold
    · obtain ⟨r, hr⟩ := foldl_unregister p.queries.keys { n with messages := n.messages.eraseIdx k }
      rw [heq, InternalNode.destroy, hr] at ho
      exact absurd ho hold
    · rw [hacted.out] at ho
      have hb : o.actor = some b := by
        rcases List.mem_append.mp ((List.mem_append.mp ho).resolve_left hold) with hsaid | hmem
        · cases htreats with
          | other m receive timeout => cases hsaid
          | _ =>
            rw [List.mem_singleton.mp hsaid]
            rfl
        · refine (acted_actor hmem).resolve_left fun hnone => ?_
          rw [hnone] at ha
          cases ha
      rw [hb] at ha
      cases ha
      exact .inl ⟨p₀, hp, halive⟩

/-- What is shown to a user or posted to an actor as found was found in that step. -/
theorem handle_finds {e : Event} (hout : n.out = [])
    (htimers : ∀ m ∈ n.timeouts, m.isTimer) (hn : n.handle e = some n') :
    (∀ a result, .call a (.onFound result) ∈ n'.out → n'.Finds a (.call (.onFound result))) ∧
    ∀ b peers, .process b (.findSuccess peers) ∈ n'.messages →
      .process b (.findSuccess peers) ∈ n.messages ∨
        ∃ a, n'.Finds a (.post b (.findSuccess peers)) := by
  cases handle_happens htimers hn with
  | quiet hquiet =>
    refine ⟨fun a result hmem => ?_, fun b peers hmem => .inl ?_⟩
    · obtain ⟨out, hout', haside⟩ := hquiet.aside.out
      rw [hout', hout, List.nil_append] at hmem
      cases haside _ hmem
    · rw [← mem_results, hquiet.results] at hmem
      exact mem_results.mp hmem
  | search count target hn =>
    refine ⟨fun a result hmem => ?_, fun b peers hmem => .inl ((findClosest_unfound (a := 0) hn).2 b
      peers hmem)⟩
    have hold := (findClosest_unfound hn).1 result hmem
    rw [hout] at hold
    cases hold
  | @operation _ ms n' h₀ role key keyId hrole hn =>
    refine ⟨fun a result hmem => ?_, fun b peers hmem => .inl ?_⟩
    · have hold : .call a (.onFound result) ∈ n.out := (findClosest_unfound hn).1 result hmem
      rw [hout] at hold
      cases hold
    · have hold : .process b (.findSuccess peers) ∈ ms :=
        (findClosest_unfound (a := 0) hn).2 b peers hmem
      have hresult : .findSuccess peers ∈ ({ n with messages := ms } : InternalNode).results b :=
        mem_results.mpr hold
      rw [h₀.results] at hresult
      exact mem_results.mp hresult
  | @turn k keyId a m hm =>
    rcases InternalNode.treatProcess_cases { n with messages := n.messages.eraseIdx k } a m with
      heq | ⟨p, -, -, heq⟩ | ⟨p₀, p, r, said, -, -, htreats, hacted⟩
    · rw [heq]
      refine ⟨fun b result hmem => ?_, fun b peers hmem => .inl (List.mem_of_mem_eraseIdx hmem)⟩
      have hold : .call b (.onFound result) ∈ n.out := hmem
      rw [hout] at hold
      cases hold
    · obtain ⟨r, hr⟩ := foldl_unregister p.queries.keys { n with messages := n.messages.eraseIdx k }
      rw [heq, InternalNode.destroy, hr]
      refine ⟨fun b result hmem => ?_, fun b peers hmem => .inl (List.mem_of_mem_eraseIdx hmem)⟩
      have hold : .call b (.onFound result) ∈ n.out := hmem
      rw [hout] at hold
      cases hold
    · obtain ⟨hcalls, hmail⟩ := turn_shows htreats hacted
      refine ⟨fun b result hmem => (hcalls b result hmem).resolve_left fun hold => ?_,
        fun b peers hmem => (hmail b peers hmem).imp List.mem_of_mem_eraseIdx fun h => ⟨a, h⟩⟩
      have hold' : .call b (.onFound result) ∈ n.out := hold
      rw [hout] at hold'
      cases hold'

theorem handle_later {e : Event}
    (hn : n.handle e = some n') : n.objects.Later n'.objects := by
  by_cases hreceive : ∃ pkt senderId now, e = .receive pkt senderId now
  · obtain ⟨pkt, senderId, now, rfl⟩ := hreceive
    cases hn
    exact (Unnoticed.receive n pkt senderId now).later
  · rw [(handle_sameTable (fun pkt senderId now heq => hreceive ⟨pkt, senderId, now, heq⟩) hn).objects]
    exact .refl _

end InternalNode

namespace Deployment
variable {ι : Type*} {D : Deployment ι} {log : Log ι} {i : ι} {a : ActorId}
  {s : ι → InternalNode}
open InternalNode

/-- All the actor has asked for is one id, and the nearest node to it is among the peers. -/
def Located (D : Deployment ι) (log : Log ι) (objects : Peers) (i : ι) (a : ActorId)
    (peers : List SPtr) : Prop :=
  ∃ target j, (∀ c query, (i, .query a c query) ∈ log → query = .find FIND_NB_NODE_REQUESTED target) ∧
    D.Nearest target j ∧ ∃ p ∈ peers, p < objects.length ∧ (objects.deref p).id = D.id j

theorem Located.later {out : Log ι} {objects later : Peers} {peers : List SPtr}
    (h : D.Located log objects i a peers) (hlater : objects.Later later)
    (hout : ∀ o, (i, o) ∈ out → o.actor ≠ some a) : D.Located (log ++ out) later i a peers := by
  obtain ⟨target, j, hfinds, hnearest, p, hp, hvalid, hid⟩ := h
  refine ⟨target, j, fun c query hq => ?_, hnearest, p, hp,
    Nat.lt_of_lt_of_le hvalid hlater.length, (hlater.id p hvalid).trans hid⟩
  exact hfinds c query ((List.mem_append.mp hq).resolve_right fun hq => hout _ hq rfl)

variable [DecidableEq ι]

theorem CountersFit.left {out : Log ι} (h : D.CountersFit (log ++ out)) : D.CountersFit log :=
  fun i => by
    have hi := h i
    rw [Machine.logOf_append, issued_append, List.length_append] at hi
    omega

theorem searched_of_run (run : network.Run D.Settled D.init s log)
    (hfit : D.CountersFit log) (i : ι) : D.Searched (Machine.logOf i log) i (s i) := by
  induction run with
  | start =>
    refine ⟨fun a _ o ho => absurd ho List.not_mem_nil, fun a p hp => ?_, fun a p f hp => ?_⟩
    · simp [init, InternalNode.new] at hp
    · simp [init, InternalNode.new] at hp
  | @step s s' log out e run allowed taken ih =>
    have hrun' := run.step allowed taken
    obtain ⟨i', e⟩ := e
    obtain ⟨t, o, ht, rfl, rfl⟩ := Machine.family_step taken
    obtain ⟨n', hn, heq⟩ := Option.map_eq_some_iff.mp ht
    cases heq
    have hbefore := ih hfit.left
    by_cases hi : i = i'
    · subst hi
      have hfair : network.Run (fun _ log e => D.Fair log e) D.init s log :=
        run.mono fun _ _ _ h => h.1
      have hhonest := honest_of_run hfair
      have hhonest' := honest_of_run (hrun'.mono fun _ _ _ h => h.1)
      have hgenuine := (hhonest'.genuine i).objects
      have hnodup := (ids_of_run (hrun'.mono fun _ _ _ h => h.1.1) hfit i).1
      rw [Function.update_self] at hgenuine ⊢
      rw [Machine.logOf_append, Machine.logOf_map, if_pos rfl] at hnodup ⊢
      have hafter := hbefore.handle (hhonest.holds i).placed (hhonest.out i)
        ((sound_of_run (run.mono fun _ _ _ h => h.1.1)).2 i).1.id (hhonest.holds i).tidy
        ((spoken_of_run run).came i).timers hn hgenuine hnodup
      exact ⟨hafter.fresh, hafter.talks, hafter.seeks⟩
    · rw [Function.update_of_ne hi, Machine.logOf_append, Machine.logOf_map, if_neg (Ne.symm hi),
        List.append_nil]
      exact hbefore

/-- What a search finds has the nearest node among it. -/
theorem located_of_finds (run : network.Run D.Settled D.init s log)
    (hfit : D.CountersFit log) {x : Action} {peers : List SPtr}
    (hfinder : ∃ p f, (s i).actors[a]? = some p ∧ p.role = .finder f ∧ f.Done ∧
      x = f.callback.onFound f.foundPeers) (hx : x.found = some peers)
    (htold : ∃ c answer, (i, .onNewAnswer a c answer) ∈ log)
    (hpatient : Patient a (Machine.logOf i log)) : D.Located log (s i).objects i a peers := by
  have h := searched_of_run run hfit i
  obtain ⟨p, f, hp, hf, hdone, rfl⟩ := hfinder
  obtain ⟨offered, hseeks⟩ := h.seeks a p f hp hf hpatient
  have htalks := h.talks a p hp hpatient
  obtain ⟨c, answer, htold⟩ := htold
  have hasked := htalks.asked (mem_hearsOf.mpr ⟨answer, Machine.mem_logOf.mpr htold⟩)
  obtain ⟨j, hnearest, y, hy, hid⟩ := hseeks.nearest run hfit htalks hdone
    (List.ne_nil_of_mem hasked)
  rw [FinderActor.onFound_found] at hx
  cases hx
  exact ⟨f.requestedId, j, fun c query hq => hseeks.finds c query (Machine.mem_logOf.mpr hq),
    hnearest, y.2, List.mem_map_of_mem hy, hseeks.sound.valid _ (hseeks.sound.foundPeers.entry y hy).1,
    hid⟩

/-- Packets may be lost, come late, come twice and overtake each other, but when a search calls
`onFound`, none of its questions having been given up, then no node of the whole network is nearer
than one it has found. Whoever takes a FIND has to know somebody in the bucket of each node. -/
theorem lookup_nearest (run : network.Run D.Settled D.init s log)
    (hfit : D.CountersFit log) {result : List SPtr} (hcall : (i, .call a (.onFound result)) ∈ log)
    (hpatient : ∀ c, (i, .onAnswerTimeout a c) ∉ log) :
    (∃ c query, (i, .query a c query) ∈ log) ∧ D.Located log (s i).objects i a result := by
  induction run with
  | start => cases hcall
  | @step s s' log out e run allowed taken ih =>
    have hrun' := run.step allowed taken
    obtain ⟨i', e⟩ := e
    obtain ⟨t, o, ht, rfl, rfl⟩ := Machine.family_step taken
    obtain ⟨n', hn, heq⟩ := Option.map_eq_some_iff.mp ht
    cases heq
    have hfair : network.Run (fun _ log e => D.Fair log e) D.init s log :=
      run.mono fun _ _ _ h => h.1
    rcases List.mem_append.mp hcall with hcalled | hcalled
    · have hbefore := fun c hc => hpatient c (List.mem_append_left _ hc)
      obtain ⟨⟨c, query, hquery⟩, hlocated⟩ := ih hfit.left hcalled hbefore
      refine ⟨⟨c, query, List.mem_append_left _ hquery⟩, ?_⟩
      by_cases hi : i = i'
      · subst hi
        rw [Function.update_self]
        have hlater : (s i).objects.Later n'.objects := handle_later hn
        refine hlocated.later hlater fun o ho ha => ?_
        obtain ⟨o', ho', heq⟩ := List.mem_map.mp ho
        cases heq
        -- the actor is dead since it has called back
        have hended := ended_of_run (Machine.Run.member run i)
        have hout := (honest_of_run hfair).out i
        have hmem : .onFound result ∈ callsOf a (Machine.logOf i log ++ (s i).out) := by
          rw [hout, List.append_nil]
          exact List.mem_filterMap.mpr ⟨_, Machine.mem_logOf.mpr hcalled, by simp⟩
        rcases handle_actor hout ((spoken_of_run run).came i).timers hn ho' ha with
          ⟨p, hp, halive⟩ | hnew
        · cases hended.live a p hp halive _ hmem
        · cases hended.unmade a hnew _ hmem
      · rw [Function.update_of_ne hi]
        refine hlocated.later (.refl _) fun o ho => ?_
        obtain ⟨o', -, heq⟩ := List.mem_map.mp ho
        exact absurd (congrArg Prod.fst heq).symm hi
    · obtain ⟨o, ho, heq⟩ := List.mem_map.mp hcalled
      cases heq
      have hfinds := (handle_finds ((honest_of_run hfair).out i) ((spoken_of_run run).came i).timers
        hn).1 a result ho
      have htold : ∃ c answer, (i, .onNewAnswer a c answer) ∈ log ++ n'.out.map (Prod.mk i) := by
        obtain ⟨c, htimeout | ⟨answer, hanswer⟩⟩ := hfinds.told
        · exact absurd (List.mem_append_right _ (List.mem_map_of_mem htimeout)) (hpatient c)
        · exact ⟨c, answer, List.mem_append_right _ (List.mem_map_of_mem hanswer)⟩
      have hquiet : Patient a (Machine.logOf i (log ++ n'.out.map (Prod.mk i))) := fun c hc =>
        hpatient c (Machine.mem_logOf.mp hc)
      obtain ⟨p, f, hp, hf, hdone, hx⟩ := hfinds.finder
      have hfinder : ∃ p f, (Function.update s i { n' with out := [] } i).actors[a]? = some p ∧
          p.role = .finder f ∧ f.Done ∧
          .call (.onFound result) = f.callback.onFound f.foundPeers := by
        rw [Function.update_self]
        exact ⟨p, f, hp, hf, hdone, hx⟩
      refine ⟨?_, located_of_finds hrun' hfit hfinder rfl htold hquiet⟩
      obtain ⟨c, answer, hanswer⟩ := htold
      have hp' : (Function.update s i { n' with out := [] } i).actors[a]? = some p := by
        rw [Function.update_self]
        exact hp
      have htalks := (searched_of_run hrun' hfit i).talks a p hp' hquiet
      obtain ⟨query, hquery⟩ := mem_asksOf.mp
        (htalks.asked (mem_hearsOf.mpr ⟨answer, Machine.mem_logOf.mpr hanswer⟩))
      exact ⟨c, query, Machine.mem_logOf.mp hquery⟩

def trio : Deployment (Fin 3) where
  id i := (Peer.numbered ([1, 4, 5].getD i 0)).id
  n2npId i := (Peer.numbered ([1, 4, 5].getD i 0)).n2npId
  start _ := 0
  id_injective := by decide
  n2npId_injective := by decide

/-- The node `j` knows the node `k`, and the node `i` knows `j` only. It searches for the id of `k`;
`j` tells it of that one and of itself, and it asks both. -/
def searchTrio (i j k : Fin 3) : List (Fin 3 × InternalNode.Event) :=
  let id := trio.id
  let n2npId := trio.n2npId
  let peer := trio.peer
  [(k, .sendPing (n2npId j)), (j, .receive ⟨id k, .ping⟩ (n2npId k) 0), (j, .work 0 .zero),
    (k, .receive ⟨id j, .pong⟩ (n2npId j) 1), (j, .sendPing (n2npId i)),
    (i, .receive ⟨id j, .ping⟩ (n2npId j) 2), (i, .findClosest 1 (id k)),
    (j, .receive ⟨id i, .find 0 5 (id k)⟩ (n2npId i) 3), (j, .work 0 .zero),
    (i, .receive ⟨id j, .found 0 0 2 [peer i, peer k]⟩ (n2npId j) 4), (i, .work 1 .zero),
    (i, .receive ⟨id i, .find 1 5 (id k)⟩ (n2npId i) 5), (i, .work 1 .zero),
    (i, .receive ⟨id i, .found 1 0 2 [peer i, peer j]⟩ (n2npId i) 6), (i, .work 1 .zero),
    (k, .receive ⟨id i, .find 2 5 (id k)⟩ (n2npId i) 7), (k, .work 0 .zero),
    (i, .receive ⟨id k, .found 2 0 2 [peer i, peer j]⟩ (n2npId k) 8), (i, .work 1 .zero)]

theorem lookup_nearest_trio :
    ∃ s log, network.Run trio.Settled trio.init s log ∧ trio.CountersFit log ∧
      (0, .call 5 (.onFound [2])) ∈ log ∧ (∀ c, (0, .onAnswerTimeout 5 c) ∉ log) ∧
      (∃ c query, (0, .query 5 c query) ∈ log) ∧ trio.Located log (s 0).objects 0 5 [2] := by
  have h : (network.exec (fun s log e => trio.fair log e && trio.ready s e)
      (trio.init, []) (searchTrio 0 1 2)).map (fun r => (r.2.getLast?,
        (List.finRange 3).map fun i => (issued (Machine.logOf i r.2)).length,
        r.2.any fun x => x.2 matches .onAnswerTimeout _ _)) =
      some (some (0, .call 5 (.onFound [2])), [3, 0, 0], false) := by
    decide +kernel
  obtain ⟨⟨s, log⟩, hrun, hlog⟩ := Option.map_eq_some_iff.mp h
  have run := (Machine.Run.exec .start hrun).mono fun _ _ _ => settled_sound
  obtain ⟨hlast, hissued, hany⟩ : _ ∧ _ ∧ _ := by simpa only [Prod.mk.injEq] using hlog
  have hcall := List.mem_of_getLast? hlast
  have hfit : trio.CountersFit log := by
    intro i
    have hlength : (issued (Machine.logOf i log)).length ≤ 3 := by
      have hmem := List.mem_map_of_mem (f := fun i => (issued (Machine.logOf i log)).length)
        (List.mem_finRange i)
      rw [hissued] at hmem
      have hall : ∀ m ∈ [3, 0, 0], m ≤ 3 := by decide
      exact hall _ hmem
    have hstart : (trio.start i).toInt = 0 := rfl
    omega
  have hpatient : ∀ c, (0, .onAnswerTimeout 5 c) ∉ log := fun c hc => by
    have hfalse := List.any_eq_false.mp hany _ hc
    exact hfalse rfl
  exact ⟨s, log, run, hfit, hcall, hpatient, lookup_nearest run hfit hcall hpatient⟩

end Deployment
end Epyx.DHT
