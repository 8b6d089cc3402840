import Epyx.DHT.Lookup

/-! The operations that spawn a search: a get or a set gets one result at most, asks all peers of it,
and is over when the last one has answered. -/
namespace Epyx.DHT
open Lib
open Std (ExtTreeMap)

/-! ### Roles -/

namespace Role

/-- The key of an operation, and what it asks the peers that were found. -/
def question : Role → Option (ByteStr × Query)
  | .finder _ => none
  | .getter g => some (g.key, .get g.key)
  | .setter s => some (s.key, .store s.key s.value)

def pendingRequests : Role → Int
  | .finder f => f.pendingRequests
  | .getter g => g.pendingRequests
  | .setter s => s.pendingRequests

/-- The user of a set leaves the vector of peers as it is. -/
def Whole : Role → Prop
  | .setter s => ∀ edit, s.callback = .user edit → ∀ peers, edit peers = peers
  | _ => True

end Role

namespace FinderActor

/-- A search is for one id, so many nodes and one callback. -/
structure Same (f f' : FinderActor) : Prop where
  callback : f'.callback = f.callback
  countToFind : f'.countToFind = f.countToFind
  requestedId : f'.requestedId = f.requestedId

theorem addPeers_same (objects : Peers) (f : FinderActor) (peers : List SPtr) :
    Same f (addPeers objects f peers) := by
  obtain ⟨short, found, heq⟩ := addPeers_frame objects f peers
  rw [heq]
  exact ⟨rfl, rfl, rfl⟩

theorem onResponse_same (objects : Peers) (f : FinderActor) : Same f (onResponse objects f).1 := by
  rcases onResponse_cases objects f with ⟨x, -, heq⟩ | ⟨-, heq⟩ | heq
  · rw [heq]
    exact ⟨rfl, rfl, rfl⟩
  · rw [heq]
    exact ⟨rfl, rfl, rfl⟩
  · rw [heq]
    exact ⟨rfl, rfl, rfl⟩

theorem sendQueries_same (objects : Peers) (f : FinderActor) (peers : List SPtr) :
    Same f (sendQueries objects f peers).1 := by
  induction peers generalizing f with
  | nil => exact ⟨rfl, rfl, rfl⟩
  | cons p peers ih =>
    have hrest := ih (sendFindQueryTo objects f p).1
    exact ⟨hrest.callback, hrest.countToFind, hrest.requestedId⟩

theorem Same.trans {f g h : FinderActor} (hfg : Same f g) (hgh : Same g h) : Same f h :=
  ⟨hgh.callback.trans hfg.callback, hgh.countToFind.trans hfg.countToFind,
    hgh.requestedId.trans hfg.requestedId⟩

/-- A search tells its parent how it has ended, if it has one, and nothing else. -/
theorem onResponse_posts {objects : Peers} {f : FinderActor} {b : ActorId} {m : ProcessMessage}
    (hx : .post b m ∈ (onResponse objects f).2) :
    f.callback = .search b ∧ (onResponse objects f).2 = [.post b m, .kill] := by
  rcases onResponse_cases objects f with ⟨x, -, heq⟩ | ⟨-, heq⟩ | heq
  · rw [heq] at hx
    cases List.mem_singleton.mp hx
  · rw [heq] at hx ⊢
    cases hcallback : f.callback with
    | user => simp [hcallback, FindCallback.onFound] at hx
    | search parent =>
      simp only [hcallback, FindCallback.onFound, List.mem_cons, List.not_mem_nil, or_false,
        Action.post.injEq, reduceCtorEq] at hx
      obtain ⟨rfl, rfl⟩ := hx
      exact ⟨rfl, rfl⟩
  · rw [heq] at hx
    cases hx

theorem timeout_posts {f : FinderActor} {b : ActorId} {m : ProcessMessage}
    (hx : .post b m ∈ f.timeout.2) :
    f.callback = .search b ∧ f.timeout.2 = [.post b m, .kill] ∧ m = .findFailure := by
  unfold timeout at hx ⊢
  cases hcallback : f.callback with
  | user => simp [hcallback, FindCallback.onError] at hx
  | search parent =>
    simp only [hcallback, FindCallback.onError, List.mem_cons, List.not_mem_nil, or_false,
      Action.post.injEq, reduceCtorEq] at hx
    obtain ⟨rfl, rfl⟩ := hx
    exact ⟨rfl, rfl, rfl⟩

theorem sendQueries_post {objects : Peers} {f : FinderActor} {peers : List SPtr} {b : ActorId}
    {m : ProcessMessage} : .post b m ∉ (sendQueries objects f peers).2 := by
  induction peers generalizing f with
  | nil => exact List.not_mem_nil
  | cons p peers ih =>
    refine fun hx => ?_
    rcases List.mem_append.mp hx with hx | hx
    · cases List.mem_singleton.mp hx
    · exact ih hx

end FinderActor

/-- The action asks nobody and tells no actor. -/
def Action.still : Action → Bool
  | .sendQuery _ _ | .post _ _ => false
  | _ => true

namespace Role

/-- A get has got its value. -/
def Lucky (answer : Answer) : Role → Prop
  | .getter _ => ∃ c value, answer = .got c 0 value
  | _ => False

/-- An operation takes an answer: it has one less to wait for; with the last one it is over. -/
structure Takes (r : Role) (answer : Answer) (s : Role × List Action) : Prop where
  question : s.1.question = r.question
  whole : r.Whole → s.1.Whole
  still : ∀ x ∈ s.2, x.still
  goes : .kill ∉ s.2 → s.1.pendingRequests = r.pendingRequests - 1 ∧ ¬ r.Lucky answer
  set : .call .onSet ∈ s.2 → s.2 = [.call .onSet, .kill] ∧ r.pendingRequests = 1 ∧
    ∃ key value, r.question = some (key, .store key value)
  getError : .call .onGetError ∈ s.2 → s.2 = [.call .onGetError, .kill] ∧
    r.pendingRequests = 1 ∧ (∃ key, r.question = some (key, .get key)) ∧ ¬ r.Lucky answer

/-- More answers have to come. -/
theorem Takes.wait {r r' : Role} {answer : Answer} (hquestion : r'.question = r.question)
    (hwhole : r.Whole → r'.Whole) (hpending : r'.pendingRequests = r.pendingRequests - 1)
    (hunlucky : ¬ r.Lucky answer) : r.Takes answer (r', []) :=
  ⟨hquestion, hwhole, List.forall_mem_nil _, fun _ => ⟨hpending, hunlucky⟩,
    fun h => absurd h List.not_mem_nil, fun h => absurd h List.not_mem_nil⟩

theorem onGetResponse_takes (g : GetterActor) {answer : Answer}
    (hunlucky : ¬ (Role.getter g).Lucky answer) :
    (Role.getter g).Takes answer (g.onGetResponse.map .getter id) := by
  unfold GetterActor.onGetResponse
  dsimp only
  split
  · rename_i hzero
    refine ⟨rfl, fun _ => trivial, by simp [GetterActor.timeout, Action.still], fun hkill => ?_,
      fun hset => ?_, fun _ => ⟨rfl, ?_, ⟨g.key, rfl⟩, hunlucky⟩⟩
    · exact absurd (.tail _ (.head _)) hkill
    · simp [GetterActor.timeout] at hset
    · show g.pendingRequests = 1
      omega
  · exact .wait (r := .getter g) rfl id rfl hunlucky

theorem onSet_cases (cb : SetCallback) : cb.onSet = [.call .onSet] ∨ cb.onSet = [] ∨
    ∃ key, cb.onSet = [.timeout (.replicate key)] := by
  cases cb with
  | user edit => exact .inl rfl
  | replicater isHandlingKey key =>
    cases isHandlingKey with
    | true => exact .inr (.inr ⟨key, rfl⟩)
    | false => exact .inr (.inl rfl)

theorem timeout_cases (s : SetterActor) :
    s.timeout.2 = [.call .onSetError, .kill] ∨ s.timeout.2 = [.kill] := by
  unfold SetterActor.timeout
  cases s.callback with
  | user edit => exact .inl rfl
  | replicater isHandlingKey key => exact .inr rfl

theorem onSetReceive_takes (s : SetterActor) (answer : Answer) :
    (Role.setter s).Takes answer (s.onSetReceive.map .setter id) := by
  unfold SetterActor.onSetReceive
  dsimp only
  split
  · rename_i hzero
    have hpending : s.pendingRequests = 1 := by omega
    split
    · rcases onSet_cases s.callback with hset | hset | ⟨key, hset⟩
      · rw [hset]
        exact ⟨rfl, id, by simp [Action.still], fun hkill => absurd (.tail _ (.head _)) hkill,
          fun _ => ⟨rfl, hpending, s.key, s.value, rfl⟩, by simp⟩
      · rw [hset]
        exact ⟨rfl, id, by simp [Action.still], fun hkill => absurd (.head _) hkill, by simp,
          by simp⟩
      · rw [hset]
        exact ⟨rfl, id, by simp [Action.still], fun hkill => absurd (.tail _ (.head _)) hkill,
          by simp, by simp⟩
    · have hkilled : .kill ∈ (SetterActor.timeout { s with
          pendingRequests := s.pendingRequests - 1 }).2 := List.mem_append_right _ (.head _)
      refine ⟨rfl, id, fun x hx => ?_, fun hkill => absurd hkilled hkill, fun hset => ?_,
        fun herror => ?_⟩
      · rcases timeout_cases { s with pendingRequests := s.pendingRequests - 1 } with heq | heq
        · rw [Prod.map_snd, id, heq] at hx
          rcases List.mem_pair.mp hx with rfl | rfl <;> rfl
        · rw [Prod.map_snd, id, heq] at hx
          rw [List.mem_singleton.mp hx]
          rfl
      · rcases timeout_cases { s with pendingRequests := s.pendingRequests - 1 } with heq | heq <;>
          simp [heq] at hset
      · rcases timeout_cases { s with pendingRequests := s.pendingRequests - 1 } with heq | heq <;>
          simp [heq] at herror
  · exact .wait (r := .setter s) rfl id rfl id

theorem onNewAnswer_takes {r : Role} (hr : r.question ≠ none) (objects : Peers) (answer : Answer) :
    r.Takes answer (r.onNewAnswer objects answer) := by
  cases r with
  | finder f => exact absurd rfl hr
  | getter g =>
    cases answer with
    | got c status value =>
      unfold Role.onNewAnswer GetterActor.onNewAnswer
      dsimp only
      split
      · refine ⟨rfl, fun _ => trivial, by simp [Action.still], fun hkill => ?_, by simp, by simp⟩
        exact absurd (.tail _ (.head _)) hkill
      · rename_i hstatus
        refine onGetResponse_takes g ?_
        rintro ⟨d, v, heq⟩
        cases heq
        exact hstatus rfl
    | stored c status => exact onGetResponse_takes g fun ⟨d, v, heq⟩ => by cases heq
    | found c status count peers => exact onGetResponse_takes g fun ⟨d, v, heq⟩ => by cases heq
  | setter s =>
    have herror : (Role.setter s).Takes answer
        ((SetterActor.onSetReceive { s with nErrors := s.nErrors + 1 }).map .setter id) := by
      obtain ⟨hquestion, hwhole, hstill, hgoes, hset, hget⟩ :=
        onSetReceive_takes { s with nErrors := s.nErrors + 1 } answer
      exact ⟨hquestion, hwhole, hstill, hgoes, hset, hget⟩
    cases answer with
    | stored c status =>
      unfold Role.onNewAnswer SetterActor.onNewAnswer
      dsimp only
      split
      · exact herror
      · exact onSetReceive_takes s _
    | _ => exact herror

/-- An operation takes the peers that were found, and asks all of them. -/
structure Begins (r : Role) (query : Query) (peers : List SPtr) (s : Role × List Action) : Prop where
  question : s.1.question = r.question
  whole : r.Whole → s.1.Whole
  pending : s.1.pendingRequests = peers.length
  actions : ∃ pre, s.2 = pre ++ peers.map (.sendQuery · query) ∧
    ∀ x ∈ pre, ∃ ps, x = .call (.onFoundPeers ps)

theorem toInt32_length {peers : List SPtr} (h : peers.length ≤ 10) :
    toInt32 peers.length = peers.length := by
  unfold toInt32
  split <;> omega

theorem treat_begins {r : Role} {key : ByteStr} {query : Query}
    (hr : r.question = some (key, query)) (hwhole : r.Whole) (objects : Peers) (self : Id)
    {peers : List SPtr} (hlength : peers.length ≤ 10) :
    r.Begins query peers (r.treat objects self (.findSuccess peers)) := by
  cases r with
  | finder f => cases hr
  | getter g =>
    cases hr
    have htreat : (Role.getter g).treat objects self (.findSuccess peers) =
        (.getter { g with pendingRequests := toInt32 peers.length }, peers.map g.ask) := rfl
    rw [htreat, toInt32_length hlength]
    exact ⟨rfl, fun _ => trivial, rfl, [], rfl, nofun⟩
  | setter s =>
    cases hr
    have htreat : (Role.setter s).treat objects self (.findSuccess peers) =
        (.setter { s with
            callback := (s.callback.onFoundPeers objects self peers).1
            pendingRequests := toInt32 (s.callback.onFoundPeers objects self peers).2.1.length },
          (s.callback.onFoundPeers objects self peers).2.2 ++
            (s.callback.onFoundPeers objects self peers).2.1.map s.ask) := rfl
    cases hcb : s.callback with
    | user edit =>
      have hedit := hwhole edit hcb peers
      rw [htreat, hcb]
      simp only [SetCallback.onFoundPeers, hedit, toInt32_length hlength]
      refine ⟨rfl, fun _ edit' heq => ?_, rfl, [.call (.onFoundPeers peers)], rfl, by simp⟩
      cases heq
      exact hwhole edit hcb
    | replicater isHandlingKey key =>
      rw [htreat, hcb]
      simp only [SetCallback.onFoundPeers, toInt32_length hlength]
      exact ⟨rfl, fun _ edit' heq => (by cases heq), rfl, [], rfl, nofun⟩

end Role
namespace Role

theorem onAnswerTimeout_takes {r : Role} (hr : r.question ≠ none) (objects : Peers) :
    r.Takes (.stored 0 0) (r.onAnswerTimeout objects) := by
  cases r with
  | finder f => exact absurd rfl hr
  | getter g => exact onGetResponse_takes g fun ⟨c, value, heq⟩ => by cases heq
  | setter s =>
    obtain ⟨hquestion, hwhole, hstill, hgoes, hset, hget⟩ :=
      onSetReceive_takes { s with nErrors := s.nErrors + 1 } (.stored 0 0)
    exact ⟨hquestion, hwhole, hstill, hgoes, hset, hget⟩

/-- What a message other than the peers that were found does to an operation. -/
theorem treat_still {r : Role} (hr : r.question ≠ none) (objects : Peers) (self : Id)
    {m : ProcessMessage} (hm : ∀ peers, m ≠ .findSuccess peers) :
    (r.treat objects self m).1 = r ∧ ∀ x ∈ (r.treat objects self m).2, x.still := by
  have hget : ∀ g : GetterActor, ∀ x ∈ g.timeout.2, x.still = true := fun g x hx => by
    rcases List.mem_pair.mp hx with rfl | rfl <;> rfl
  have hset : ∀ s : SetterActor, ∀ x ∈ s.timeout.2, x.still = true := fun s x hx => by
    rcases timeout_cases s with heq | heq
    · rw [heq] at hx
      rcases List.mem_pair.mp hx with rfl | rfl <;> rfl
    · rw [heq] at hx
      rw [List.mem_singleton.mp hx]
      rfl
  cases r with
  | finder f => exact absurd rfl hr
  | getter g =>
    cases m with
    | findSuccess peers => exact absurd rfl (hm peers)
    | timeout | findFailure => exact ⟨rfl, hget g⟩
    | _ => exact ⟨rfl, nofun⟩
  | setter s =>
    cases m with
    | findSuccess peers => exact absurd rfl (hm peers)
    | timeout | findFailure => exact ⟨rfl, hset s⟩
    | _ => exact ⟨rfl, nofun⟩

theorem onFoundPeers_callback {cb : SetCallback} {edit : List SPtr → List SPtr} (objects : Peers)
    (self : Id) (peers : List SPtr) (h : (cb.onFoundPeers objects self peers).1 = .user edit) :
    cb = .user edit := by
  cases cb with
  | user edit' => cases h; rfl
  | replicater isHandlingKey key => cases h

theorem treat_getter (g : GetterActor) (objects : Peers) (self : Id) (peers : List SPtr) :
    ∃ pending, ((Role.getter g).treat objects self (.findSuccess peers)).1 =
      .getter { g with pendingRequests := pending } := ⟨_, rfl⟩

variable {p : Role} {r : Role × List Action}

/-- Handlers leave an operation the operation it is. -/
theorem Handler.operation (h : p.Handler r) :
    r.1.question = p.question ∧ (p.Whole → r.1.Whole) := by
  cases h with
  | answer objects answer =>
    by_cases hp : p.question = none
    · cases p with
      | finder f => exact ⟨rfl, fun _ => trivial⟩
      | _ => cases hp
    · have htakes := onNewAnswer_takes hp objects answer
      exact ⟨htakes.question, htakes.whole⟩
  | answerTimeout objects =>
    by_cases hp : p.question = none
    · cases p with
      | finder f => exact ⟨rfl, fun _ => trivial⟩
      | _ => cases hp
    · have htakes := onAnswerTimeout_takes hp objects
      exact ⟨htakes.question, htakes.whole⟩
  | message objects self m =>
    by_cases hp : p.question = none
    · cases p with
      | finder f => cases m <;> exact ⟨rfl, fun _ => trivial⟩
      | _ => cases hp
    · by_cases hm : ∃ peers, m = .findSuccess peers
      · obtain ⟨peers, rfl⟩ := hm
        cases p with
        | finder f => exact absurd rfl hp
        | getter g =>
          obtain ⟨pending, htreat⟩ := treat_getter g objects self peers
          rw [htreat]
          exact ⟨rfl, fun _ => trivial⟩
        | setter s =>
          have htreat : ((Role.setter s).treat objects self (.findSuccess peers)).1 =
              .setter { s with
                callback := (s.callback.onFoundPeers objects self peers).1
                pendingRequests :=
                  toInt32 (s.callback.onFoundPeers objects self peers).2.1.length } := rfl
          rw [htreat]
          generalize toInt32 (s.callback.onFoundPeers objects self peers).2.1.length = pending
          exact ⟨rfl, fun hwhole edit heq => hwhole edit
            (onFoundPeers_callback objects self peers heq)⟩
      · rw [(treat_still hp objects self fun peers heq => hm ⟨peers, heq⟩).1]
        exact ⟨rfl, id⟩
  | start objects f nearest => exact ⟨rfl, fun _ => trivial⟩

/-- Handlers leave a search the search it is. -/
theorem Handler.finder {f : FinderActor} (h : (Role.finder f).Handler r) :
    ∃ f', r.1 = .finder f' ∧ f.Same f' := by
  cases h with
  | answer objects answer =>
    rw [Role.onNewAnswer, Search.onNewAnswer_eq]
    exact ⟨_, rfl, (FinderActor.addPeers_same ..).trans (FinderActor.onResponse_same ..)⟩
  | answerTimeout objects => exact ⟨_, rfl, FinderActor.onResponse_same objects f⟩
  | message objects self m => cases m <;> exact ⟨_, rfl, rfl, rfl, rfl⟩
  | start objects f nearest =>
    exact ⟨_, rfl, (FinderActor.addPeers_same ..).trans (FinderActor.sendQueries_same ..)⟩

/-- Only a search tells an actor something: its parent, and at its end. -/
theorem Handler.posts (h : p.Handler r) {b : ActorId} {m : ProcessMessage}
    (hx : .post b m ∈ r.2) :
    ∃ f, p = .finder f ∧ f.callback = .search b ∧ r.2 = [.post b m, .kill] := by
  have hnone : ∀ {xs : List Action}, (∀ x ∈ xs, x.still) → .post b m ∉ xs := fun hxs hmem => by
    cases hxs _ hmem
  cases h with
  | answer objects answer =>
    by_cases hp : p.question = none
    · cases p with
      | finder f =>
        simp only [Role.onNewAnswer, Search.onNewAnswer_eq, Prod.map_snd, id] at hx ⊢
        obtain ⟨hcallback, heq⟩ := FinderActor.onResponse_posts hx
        exact ⟨f, rfl, (FinderActor.addPeers_callback objects f _).symm.trans hcallback, heq⟩
      | _ => cases hp
    · exact absurd hx (hnone (onNewAnswer_takes hp objects answer).still)
  | answerTimeout objects =>
    by_cases hp : p.question = none
    · cases p with
      | finder f => exact ⟨f, rfl, FinderActor.onResponse_posts (f := f) hx⟩
      | _ => cases hp
    · exact absurd hx (hnone (onAnswerTimeout_takes hp objects).still)
  | message objects self m' =>
    by_cases hp : p.question = none
    · cases p with
      | finder f =>
        cases m' with
        | timeout =>
          obtain ⟨hcallback, heq, -⟩ := FinderActor.timeout_posts (f := f) hx
          exact ⟨f, rfl, hcallback, heq⟩
        | _ => cases hx
      | _ => cases hp
    · by_cases hm : ∃ peers, m' = .findSuccess peers
      · obtain ⟨peers, rfl⟩ := hm
        cases p with
        | finder f => exact absurd rfl hp
        | getter g =>
          obtain ⟨q, -, heq⟩ := List.mem_map.mp hx
          cases heq
        | setter s =>
          rcases List.mem_append.mp hx with hx | hx
          · cases hcb : s.callback <;> simp [hcb, SetCallback.onFoundPeers] at hx
          · obtain ⟨q, -, heq⟩ := List.mem_map.mp hx
            cases heq
      · exact absurd hx (hnone (treat_still hp objects self fun peers heq => hm ⟨peers, heq⟩).2)
  | start objects f nearest => exact absurd hx FinderActor.sendQueries_post

end Role

namespace InternalNode
variable {n n' : InternalNode} {a : ActorId}

/-- An operation asks nobody but the peers that were found. -/
theorem Treats.asks {m : ProcessMessage} {p₀ p : ProcessActor} {r : Role × List Action}
    {said : List Output} (h : Treats n a p₀ m p r said) (hq : p₀.role.question ≠ none) :
    (∃ peers, m = .findSuccess peers) ∨ ∀ x ∈ r.2, x.still := by
  cases h with
  | answer peer answer pending => exact .inr (Role.onNewAnswer_takes hq _ answer).still
  | timeout c asked => exact .inr (Role.onAnswerTimeout_takes hq _).still
  | other m receive timeout =>
    by_cases hm : ∃ peers, m = .findSuccess peers
    · exact .inl hm
    · exact .inr (Role.treat_still hq _ _ fun peers heq => hm ⟨peers, heq⟩).2

theorem results_posted {b : ActorId} {xs : List Action}
    (hmessages : n'.messages = n.messages ++ posted a xs) (hxs : ∀ b m, .post b m ∉ xs) :
    n'.results b = n.results b := by
  refine results_append hmessages (fun m hm c => ?_) b
  obtain ⟨x, hx, heq⟩ := List.mem_filterMap.mp hm
  cases x with
  | post d m => exact absurd hx (hxs d m)
  | kill => cases heq; rfl
  | _ => cases heq

/-- A search tells its parent the result. -/
theorem results_post {b : ActorId} {m : ProcessMessage}
    (hmessages : n'.messages = n.messages ++ posted a [.post b m, .kill]) :
    (∃ ms, n'.results b = n.results b ++ ms ∧ ms.length ≤ 1 ∧ ∀ m' ∈ ms, m' = m) ∧
      ∀ c, c ≠ b → n'.results c = n.results c := by
  have happend : ∀ c, n'.results c =
      n.results c ++ [Message.process b m, .process a .empty].filterMap (Message.result c) := by
    intro c
    rw [results, hmessages, List.filterMap_append]
    rfl
  refine ⟨⟨_, happend b, ?_, ?_⟩, fun c hc => ?_⟩
  · cases m with
    | findSuccess peers => simp [Message.result]
    | findFailure => simp [Message.result]
    | _ => exact Nat.zero_le 1
  · cases m with
    | findSuccess peers => simp [Message.result]
    | findFailure => simp [Message.result]
    | _ => exact List.forall_mem_nil _
  · rw [happend]
    cases m <;> simp [Message.result, Ne.symm hc]

/-- A message is taken out of the mail. -/
theorem results_take {k : Nat} {m : Message} (hm : n.messages[k]? = some m) (b : ActorId) :
    ∃ l₁ l₂, n.results b = l₁ ++ (m.result b).toList ++ l₂ ∧
      InternalNode.results { n with messages := n.messages.eraseIdx k } b = l₁ ++ l₂ := by
  obtain ⟨hk, hget⟩ := List.getElem?_eq_some_iff.mp hm
  have hsplit : n.messages = n.messages.take k ++ [m] ++ n.messages.drop (k + 1) := by
    conv_lhs => rw [← List.take_append_drop k n.messages, List.drop_eq_getElem_cons hk, hget]
    simp
  refine ⟨(n.messages.take k).filterMap (Message.result b),
    (n.messages.drop (k + 1)).filterMap (Message.result b), ?_, ?_⟩
  · conv_lhs => rw [results, hsplit]
    rw [List.filterMap_append, List.filterMap_append]
    cases hr : m.result b <;> simp [hr]
  · rw [results, List.eraseIdx_eq_take_drop_succ, List.filterMap_append]

theorem given_still {c : Int64} {xs : List Action} (h : ∀ x ∈ xs, x.still) : given c xs = [] := by
  induction xs with
  | nil => rfl
  | cons x xs ih =>
    have hrest := ih fun y hy => h y (.tail _ hy)
    cases x with
    | sendQuery peer query => cases h _ (.head _)
    | _ => exact hrest

/-! ### Parents and their searches -/

/-- A search that was spawned belongs to the operation with the number before, and tells it one
result, before which the operation has asked nobody. -/
structure Linked (named : ByteStr → Id → Prop) (log : List Output) (n : InternalNode) : Prop where
  whole : ∀ (a : ActorId) (p : ProcessActor), n.actors[a]? = some p → p.role.Whole
  finders : ∀ (b : ActorId) (p : ProcessActor) (f : FinderActor) (a : ActorId),
    n.actors[b]? = some p → p.role = .finder f → f.callback = .search a →
    b = a + 1 ∧ f.countToFind = 10 ∧ ∀ q : ProcessActor, n.actors[a]? = some q →
      ∃ key query, q.role.question = some (key, query) ∧ named key f.requestedId
  results : ∀ a, n.results a ≠ [] → a < n.actorCount ∧ asksOf a log = [] ∧
    (n.results a).length = 1 ∧ ∀ q : ProcessActor, n.actors[a]? = some q → q.role.question ≠ none
  searching : ∀ (a : ActorId) (p : ProcessActor) (f : FinderActor), n.actors[a + 1]? = some p →
    p.alive = true → p.role = .finder f → f.callback = .search a → n.results a = [] ∧ asksOf a log = []

variable {named : ByteStr → Id → Prop} {log out : List Output}

theorem asksOf_eq {b : ActorId} (hout : ∀ o ∈ out, o.actor ≠ some b) :
    asksOf b (log ++ out) = asksOf b log := by
  rw [asksOf_append, asksOf_silent hout, List.append_nil]

theorem Linked.quiet (h : Linked named log n) (hquiet : Unnoticed n n')
    (hout : n'.out = n.out ++ out) : Linked named (log ++ out) n' := by
  have hsilent : ∀ b, asksOf b (log ++ out) = asksOf b log := fun b => asksOf_eq fun o ho => by
    rw [hquiet.aside.actor hout ho]
    exact nofun
  refine ⟨?_, ?_, fun a => ?_, fun a p f => ?_⟩
  · rw [hquiet.aside.actors]
    exact h.whole
  · rw [hquiet.aside.actors]
    exact h.finders
  · rw [hquiet.results, hsilent, hquiet.aside.actorCount, hquiet.aside.actors]
    exact h.results a
  · rw [hquiet.results, hsilent, hquiet.aside.actors]
    exact h.searching a p f

/-- An actor is added: an operation, a search of a user, or the search of an operation that is
about to begin. -/
theorem Linked.add (h : Linked named log n) (hplaced : Placed n) {role : Role}
    (hwhole : role.Whole) (hfinder : ∀ f a, role = .finder f → f.callback = .search a →
      n.actorCount = a + 1 ∧ f.countToFind = 10 ∧ (∀ q : ProcessActor, n.actors[a]? = some q →
        ∃ key query, q.role.question = some (key, query) ∧ named key f.requestedId) ∧
      n.results a = [] ∧ asksOf a log = []) : Linked named log (n.add role) := by
  have hold : ∀ {b : ActorId} {p : ProcessActor}, (n.add role).actors[b]? = some p →
      b = n.actorCount ∧ p = ⟨true, ∅, role⟩ ∨ n.actors[b]? = some p := by
    intro b p hp
    rcases TreeMap.of_getElem?_insert hp with ⟨rfl, rfl⟩ | ⟨-, hp⟩
    · exact .inl ⟨rfl, rfl⟩
    · exact .inr hp
  refine ⟨fun b p hp => ?_, fun b p f a hp hf hsearch => ?_, fun a hne => ?_,
    fun a p f hp halive hf hsearch => ?_⟩
  · rcases hold hp with ⟨rfl, rfl⟩ | hp
    · exact hwhole
    · exact h.whole b p hp
  · rcases hold hp with ⟨rfl, rfl⟩ | hp
    · obtain ⟨heq, hcount, hparent, -⟩ := hfinder f a hf hsearch
      refine ⟨heq, hcount, fun q hq => ?_⟩
      rcases hold hq with ⟨hlt, -⟩ | hq
      · exact absurd (hlt.trans heq) (Nat.ne_of_lt (Nat.lt_succ_self a))
      · exact hparent q hq
    · obtain ⟨rfl, hcount, hparent⟩ := h.finders b p f a hp hf hsearch
      have hlt := hplaced _ _ hp
      refine ⟨rfl, hcount, fun q hq => ?_⟩
      rcases hold hq with ⟨heq, -⟩ | hq
      · exact absurd heq (Nat.ne_of_lt (Nat.lt_of_succ_lt hlt))
      · exact hparent q hq
  · obtain ⟨hlt, hnone, hlength, hparent⟩ := h.results a hne
    refine ⟨Nat.lt_succ_of_lt hlt, hnone, hlength, fun q hq => ?_⟩
    rcases hold hq with ⟨heq, -⟩ | hq
    · exact absurd heq (Nat.ne_of_lt hlt)
    · exact hparent q hq
  · rcases hold hp with ⟨heq, rfl⟩ | hp
    · exact (hfinder f a hf hsearch).2.2.2
    · exact h.searching a p f hp halive hf hsearch

/-- The actor `a` does something. An operation asks when the search it has spawned is over and its
result is taken. -/
theorem Linked.acts (h : Linked named log n) (hplaced : Placed n) {p₀ p q : ProcessActor}
    {r : Role × List Action} {c : Int64} (hp₀ : n.actors[a]? = some p₀) (halive : p₀.alive = true)
    (hr : p₀.role.Handler r) (hbecame : Became c p q r)
    (hactors : n'.actors = n.actors.insert a q) (hcount : n'.actorCount = n.actorCount)
    (hmessages : n'.messages = n.messages ++ posted a r.2)
    (hout : ∀ o ∈ out, o.actor = none ∨ o.actor = some a)
    (hasks : p₀.role.question ≠ none → asksOf a (log ++ out) = asksOf a log ∨
      n.results a = [] ∧ ∀ (p : ProcessActor) (f : FinderActor), n.actors[a + 1]? = some p →
        p.alive = true → p.role = .finder f → f.callback ≠ .search a) :
    Linked named (log ++ out) n' := by
  obtain ⟨hquestion, hwhole⟩ := hr.operation
  have hother : ∀ b, b ≠ a → asksOf b (log ++ out) = asksOf b log := fun b hb =>
    asksOf_eq fun o ho => by
      rcases hout o ho with hnone | hsome
      · rw [hnone]
        exact nofun
      · rw [hsome]
        exact fun heq => hb (Option.some.inj heq).symm
  have hold : ∀ {b : ActorId} {p : ProcessActor}, n'.actors[b]? = some p →
      b = a ∧ p = q ∨ b ≠ a ∧ n.actors[b]? = some p := by
    intro b p hp
    rw [hactors] at hp
    rcases TreeMap.of_getElem?_insert hp with ⟨rfl, rfl⟩ | ⟨hne, hp⟩
    · exact .inl ⟨rfl, rfl⟩
    · exact .inr ⟨Ne.symm hne, hp⟩
  -- as an operation, an actor stays what it is
  have hkept : ∀ {b : ActorId} {p : ProcessActor}, n'.actors[b]? = some p →
      ∃ p', n.actors[b]? = some p' ∧ p.role.question = p'.role.question := by
    intro b p hp
    rcases hold hp with ⟨rfl, rfl⟩ | ⟨-, hp⟩
    · exact ⟨p₀, hp₀, by rw [hbecame.role, hquestion]⟩
    · exact ⟨p, hp, rfl⟩
  have hfinder : ∀ {f : FinderActor}, q.role = .finder f →
      ∃ f₀, p₀.role = .finder f₀ ∧ f₀.Same f := by
    intro f hf
    rw [hbecame.role] at hf
    cases hrole : p₀.role with
    | finder f₀ =>
      rw [hrole] at hr
      obtain ⟨f', hf', hsame⟩ := hr.finder
      rw [hf'] at hf
      cases hf
      exact ⟨f₀, rfl, hsame⟩
    | getter g => rw [hf, hrole] at hquestion; cases hquestion
    | setter s => rw [hf, hrole] at hquestion; cases hquestion
  have hmail : (∀ b m, .post b m ∉ r.2) ∨ ∃ f b m, p₀.role = .finder f ∧
      f.callback = .search b ∧ r.2 = [.post b m, .kill] := by
    by_cases hpost : ∃ b m, .post b m ∈ r.2
    · obtain ⟨b, m, hx⟩ := hpost
      obtain ⟨f, hf, hcallback, heq⟩ := hr.posts hx
      exact .inr ⟨f, b, m, hf, hcallback, heq⟩
    · exact .inl fun b m hx => hpost ⟨b, m, hx⟩
  refine ⟨fun b p hp => ?_, fun b p f a' hp hf hsearch => ?_, fun a' hne => ?_,
    fun a' p f hp halive' hf hsearch => ?_⟩
  · rcases hold hp with ⟨rfl, rfl⟩ | ⟨-, hp⟩
    · rw [hbecame.role]
      exact hwhole (h.whole b p₀ hp₀)
    · exact h.whole b p hp
  · have hparents : ∀ {f₀ : FinderActor}, (∀ q : ProcessActor, n.actors[a']? = some q →
        ∃ key query, q.role.question = some (key, query) ∧ named key f₀.requestedId) →
        ∀ q : ProcessActor, n'.actors[a']? = some q →
          ∃ key query, q.role.question = some (key, query) ∧ named key f₀.requestedId := by
      intro f₀ hall q' hq'
      obtain ⟨q'', hq'', hsame⟩ := hkept hq'
      rw [hsame]
      exact hall q'' hq''
    rcases hold hp with ⟨rfl, rfl⟩ | ⟨-, hp⟩
    · obtain ⟨f₀, hf₀, hsame⟩ := hfinder hf
      rw [hsame.callback] at hsearch
      obtain ⟨heq, hten, hparent⟩ := h.finders b p₀ f₀ a' hp₀ hf₀ hsearch
      rw [hsame.countToFind, hsame.requestedId]
      exact ⟨heq, hten, hparents hparent⟩
    · obtain ⟨heq, hten, hparent⟩ := h.finders b p f a' hp hf hsearch
      exact ⟨heq, hten, hparents hparent⟩
  · rcases hmail with hnone | ⟨f, b, m, hf, hsearch, heq⟩
    · rw [results_posted hmessages hnone] at hne ⊢
      obtain ⟨hlt, hasked, hlength, hparent⟩ := h.results a' hne
      refine ⟨hcount ▸ hlt, ?_, hlength, fun q' hq' => ?_⟩
      · by_cases ha : a' = a
        · subst ha
          rcases hasks (hparent p₀ hp₀) with hsame | ⟨hempty, -⟩
          · rw [hsame, hasked]
          · exact absurd hempty hne
        · rw [hother a' ha, hasked]
      · obtain ⟨q'', hq'', hsame⟩ := hkept hq'
        rw [hsame]
        exact hparent q'' hq''
    · obtain ⟨rfl, -, hparent⟩ := h.finders a p₀ f b hp₀ hf hsearch
      obtain ⟨hempty, hasked⟩ := h.searching b p₀ f hp₀ halive hf hsearch
      have hlt := hplaced _ _ hp₀
      rw [heq] at hmessages
      obtain ⟨⟨ms, hresults, hlength, -⟩, hsame⟩ := results_post hmessages
      by_cases hb : a' = b
      · subst hb
        rw [hresults, hempty, List.nil_append] at hne ⊢
        have hpos := List.length_pos_iff.mpr hne
        refine ⟨hcount ▸ Nat.lt_of_succ_lt hlt, ?_, by omega, fun q' hq' => ?_⟩
        · rw [hother a' (Nat.ne_of_lt (Nat.lt_succ_self a')), hasked]
        · obtain ⟨q'', hq'', hsame⟩ := hkept hq'
          obtain ⟨key, query, hkey, -⟩ := hparent q'' hq''
          rw [hsame, hkey]
          exact nofun
      · rw [hsame a' hb] at hne ⊢
        obtain ⟨hlt, hasked', hlength, hparent⟩ := h.results a' hne
        refine ⟨hcount ▸ hlt, ?_, hlength, fun q' hq' => ?_⟩
        · by_cases ha : a' = b + 1
          · subst ha
            exact absurd (by rw [hf]; rfl) (hparent p₀ hp₀)
          · rw [hother a' ha, hasked']
        · obtain ⟨q'', hq'', hsame⟩ := hkept hq'
          rw [hsame]
          exact hparent q'' hq''
  · have hresults : n'.results a' = n.results a' := by
      rcases hmail with hnone | ⟨f', b, m, hf', hsearch', heq⟩
      · exact results_posted hmessages hnone
      · obtain ⟨rfl, -, -⟩ := h.finders a p₀ f' b hp₀ hf' hsearch'
        rw [heq] at hmessages
        refine (results_post hmessages).2 a' fun hb => ?_
        subst hb
        rcases hold hp with ⟨-, rfl⟩ | ⟨hne, -⟩
        · have hkill := (hbecame.alive.mp halive').2
          rw [heq] at hkill
          exact hkill (.tail _ (.head _))
        · exact hne rfl
    rw [hresults]
    rcases hold hp with ⟨rfl, rfl⟩ | ⟨hne, hp⟩
    · obtain ⟨f₀, hf₀, hsame⟩ := hfinder hf
      rw [hsame.callback] at hsearch
      rw [hother a' (Nat.ne_of_lt (Nat.lt_succ_self a'))]
      exact h.searching a' p₀ f₀ hp₀ halive hf₀ hsearch
    · obtain ⟨hempty, hasked⟩ := h.searching a' p f hp halive' hf hsearch
      refine ⟨hempty, ?_⟩
      by_cases ha : a' = a
      · subst ha
        obtain ⟨key, query, hkey, -⟩ := (h.finders _ p f a' hp hf hsearch).2.2 p₀ hp₀
        rcases hasks (by rw [hkey]; exact nofun) with hsame | ⟨-, hover⟩
        · rw [hsame, hasked]
        · exact absurd hsearch (hover p f hp halive' hf)
      · rw [hother a' ha, hasked]

theorem Linked.take (h : Linked named log n) {k : Nat} {m : Message}
    (hm : n.messages[k]? = some m) :
    Linked named log { n with messages := n.messages.eraseIdx k } := by
  refine ⟨h.whole, h.finders, fun a hne => ?_, fun a p f hp halive hf hsearch => ?_⟩
  · obtain ⟨l₁, l₂, hbefore, hafter⟩ := results_take hm a
    rw [hafter] at hne ⊢
    obtain ⟨hlt, hasked, hlength, hparent⟩ := h.results a (by
      rw [hbefore]
      intro hnil
      obtain ⟨hl₁, hl₂⟩ := List.append_eq_nil_iff.mp hnil
      exact hne (List.append_eq_nil_iff.mpr ⟨(List.append_eq_nil_iff.mp hl₁).1, hl₂⟩))
    refine ⟨hlt, hasked, ?_, hparent⟩
    have hpos := List.length_pos_iff.mpr hne
    rw [hbefore, List.length_append, List.length_append] at hlength
    rw [List.length_append] at hpos ⊢
    omega
  · obtain ⟨l₁, l₂, hbefore, hafter⟩ := results_take hm a
    obtain ⟨hempty, hasked⟩ := h.searching a p f hp halive hf hsearch
    rw [hbefore] at hempty
    obtain ⟨hl₁, hl₂⟩ := List.append_eq_nil_iff.mp hempty
    refine ⟨?_, hasked⟩
    rw [hafter, (List.append_eq_nil_iff.mp hl₁).1, hl₂]
    rfl

theorem Linked.destroy (h : Linked named log n) (p : ProcessActor) :
    Linked named log (n.destroy a p) := by
  obtain ⟨r, hr⟩ := foldl_unregister p.queries.keys n
  rw [InternalNode.destroy, hr]
  refine ⟨fun b q hq => h.whole b q (TreeMap.of_getElem?_erase hq).2, fun b q f c hq hf hsearch => ?_,
    fun b hne => ?_, fun b q f hq => h.searching b q f (TreeMap.of_getElem?_erase hq).2⟩
  · obtain ⟨heq, hten, hparent⟩ := h.finders b q f c (TreeMap.of_getElem?_erase hq).2 hf hsearch
    exact ⟨heq, hten, fun q' hq' => hparent q' (TreeMap.of_getElem?_erase hq').2⟩
  · obtain ⟨hlt, hasked, hlength, hparent⟩ := h.results b hne
    exact ⟨hlt, hasked, hlength, fun q hq => hparent q (TreeMap.of_getElem?_erase hq).2⟩

theorem Linked.findClosest (h : Linked named log n) (hplaced : Placed n) {cb : FindCallback}
    {count : Int} {target : Id} (hcb : ∀ a, cb = .search a →
      n.actorCount = a + 1 ∧ count = 10 ∧ (∀ q : ProcessActor, n.actors[a]? = some q →
        ∃ key query, q.role.question = some (key, query) ∧ named key target) ∧
      n.results a = [] ∧ asksOf a log = [])
    (hn : n.findClosest cb count target = some n') (hout : n'.out = n.out ++ out) :
    Linked named (log ++ out) n' := by
  obtain ⟨nearest, -, hran⟩ := findClosest_ran hn
  have hself : (n.add (.finder (.new target count cb))).actors[n.actorCount]? =
      some ⟨true, ∅, .finder (.new target count cb)⟩ := by
    simp [InternalNode.add, arm]
  have hadded : Linked named log (n.add (.finder (.new target count cb))) :=
    h.add hplaced trivial fun f a hf hsearch => by
      cases hf
      exact hcb a hsearch
  have hplaced' : Placed (n.add (.finder (.new target count cb))) :=
    Part.placed (.add _) hplaced
  have hacted := hran.out
  rw [hout] at hacted
  obtain rfl := List.append_cancel_left hacted
  obtain ⟨q, hactors, hbecame⟩ := hran.actors
  exact hadded.acts hplaced' hself rfl (.start _ _ nearest) hbecame hactors hran.actorCount
    hran.messages (fun o ho => acted_actor ho) fun hquestion => absurd rfl hquestion

theorem Linked.turn (h : Linked named log n) (hplaced : Placed n) {m : ProcessMessage}
    {p₀ p : ProcessActor} {r : Role × List Action} {said : List Output}
    (hp : n.actors[a]? = some p₀) (halive : p₀.alive = true) (htreats : Treats n a p₀ m p r said)
    (hacted : Acted n n' a p r said) (hout : n'.out = n.out ++ out)
    (htaken : (∃ peers, m = .findSuccess peers) → n.results a = [] ∧
      ∀ (p : ProcessActor) (f : FinderActor), n.actors[a + 1]? = some p → p.alive = true →
        p.role = .finder f → f.callback ≠ .search a) : Linked named (log ++ out) n' := by
  have heq := hacted.out
  rw [hout] at heq
  obtain rfl := List.append_cancel_left heq
  obtain ⟨q, hactors, hbecame⟩ := hacted.actors
  have hsaid : ∀ o ∈ said, o.actor = some a := by
    cases htreats <;> simp [Output.actor]
  have hquiet : asksOf a said = [] := by
    cases htreats <;> rfl
  refine h.acts hplaced hp halive htreats.handler hbecame hactors hacted.actorCount
    hacted.messages (fun o ho => ?_) fun hquestion => ?_
  · rcases List.mem_append.mp ho with ho | ho
    · exact .inr (hsaid o ho)
    · exact acted_actor ho
  · rcases htreats.asks hquestion with hm | hstill
    · exact .inr (htaken hm)
    · left
      rw [asksOf_append, asksOf_append, hquiet, asksOf_acted, given_still hstill,
        List.append_nil, List.append_nil]

/-- The user who sets a value stores it at the peers that were found. -/
def Event.Whole : Event → Prop
  | .setValue _ _ _ edit => ∀ peers, edit peers = peers
  | _ => True

/-- What `idForString` gives for a key in this step is an id it may give for it. -/
def Event.Names (named : ByteStr → Id → Prop) (n : InternalNode) : Event → Prop
  | .work k keyId => ∀ key, n.messages[k]? = some (.replicate key) → named key keyId
  | .getValue key keyId => named key keyId
  | .setValue key _ keyId _ => named key keyId
  | _ => True

section Starts
variable {key : ByteStr} {keyId : Id} {e : Event} {role : Role}

theorem Starts.pendingRequests (h : Starts n key keyId e role) : role.pendingRequests = 0 := by
  cases h <;> rfl

theorem Starts.question (h : Starts n key keyId e role) :
    ∃ query, role.question = some (key, query) := by
  cases h <;> exact ⟨_, rfl⟩

theorem Starts.whole (h : Starts n key keyId e role) (he : e.Whole) : role.Whole := by
  cases h with
  | getValue => trivial
  | setValue value edit =>
    intro edit' heq
    cases heq
    exact he
  | replicate value hm => exact fun edit heq => by cases heq

theorem Starts.names (h : Starts n key keyId e role) (he : e.Names named n) : named key keyId := by
  cases h with
  | getValue => exact he
  | setValue value edit => exact he
  | replicate value hm => exact he key hm

end Starts

theorem Linked.handle (h : Linked named log n) (hplaced : Placed n) (hout : n.out = [])
    (htimers : ∀ m ∈ n.timeouts, m.isTimer)
    (hfresh : ∀ a, n.actorCount ≤ a → ∀ o ∈ log, o.actor ≠ some a) {e : Event}
    (hwhole : e.Whole) (hnames : e.Names named n)
    (hn : n.handle e = some n') : Linked named (log ++ n'.out) n' := by
  have hidle : ∀ n'' : InternalNode, Linked named log n'' → n''.out = [] →
      Linked named (log ++ n''.out) n'' := fun n'' h hnil => by
    have hlog : log ++ n''.out = log := by rw [hnil, List.append_nil]
    rw [hlog]
    exact h
  cases handle_happens htimers hn with
  | quiet hquiet => exact h.quiet hquiet (by rw [hout]; rfl)
  | search count target hn => exact h.findClosest hplaced (fun a ha => by cases ha) hn (by rw [hout]; rfl)
  | @operation _ ms n' h₀ role key keyId hrole hn =>
    have hempty : n.results n.actorCount = [] := by
      by_contra hne
      exact Nat.lt_irrefl _ (h.results _ hne).1
    have hquiet : Linked named log { n with messages := ms } := by
      have hquiet := h.quiet h₀ (List.append_nil _).symm
      rwa [List.append_nil] at hquiet
    have hplaced₀ : Placed ({ n with messages := ms } : InternalNode) := hplaced
    obtain ⟨query, hquestion⟩ := hrole.question
    have hadded : Linked named log (InternalNode.add { n with messages := ms } role) :=
      hquiet.add hplaced₀ (hrole.whole hwhole) fun f a hf => by
        rw [hf] at hquestion
        cases hquestion
    refine hadded.findClosest (Part.placed (.add role) hplaced₀) (fun a ha => ?_) hn
      (by rw [InternalNode.add, arm, hout]; rfl)
    cases ha
    refine ⟨rfl, rfl, fun q hq => ?_, ?_, asksOf_silent (hfresh _ (Nat.le_refl _))⟩
    · rcases TreeMap.of_getElem?_insert hq with ⟨-, rfl⟩ | ⟨hne, -⟩
      · exact ⟨key, query, hquestion, hrole.names hnames⟩
      · exact absurd rfl hne
    · exact (h₀.results _).trans hempty
  | @turn k keyId a m hm =>
    have htaken := h.take hm
    rcases InternalNode.treatProcess_cases { n with messages := n.messages.eraseIdx k } a m with
      heq | ⟨p, -, -, heq⟩ | ⟨p₀, p, r, said, hp, halive, htreats, hacted⟩
    · rw [heq]
      exact hidle _ htaken hout
    · obtain ⟨r, hr⟩ := foldl_unregister p.queries.keys { n with messages := n.messages.eraseIdx k }
      rw [heq]
      exact hidle _ (htaken.destroy p) (by rw [InternalNode.destroy, hr]; exact hout)
    · refine htaken.turn hplaced hp halive htreats hacted (by rw [hout]; rfl) fun hfound => ?_
      obtain ⟨peers, rfl⟩ := hfound
      obtain ⟨l₁, l₂, hbefore, hafter⟩ := results_take hm a
      have hresult : (Message.process a (.findSuccess peers)).result a =
          some (.findSuccess peers) := by simp [Message.result]
      rw [hresult] at hbefore
      have hne : n.results a ≠ [] := by
        rw [hbefore]
        simp
      obtain ⟨-, -, hlength, -⟩ := h.results a hne
      refine ⟨?_, fun p' f hp' halive' hf hsearch => hne (h.searching a p' f hp' halive' hf hsearch).1⟩
      rw [hbefore] at hlength
      simp only [Option.toList_some, List.length_append, List.length_singleton] at hlength
      rw [hafter]
      exact List.append_eq_nil_iff.mpr ⟨List.length_eq_zero_iff.mp (by omega),
        List.length_eq_zero_iff.mp (by omega)⟩

end InternalNode
end Epyx.DHT
