import Epyx.DHT.Queries
import Epyx.DHT.Steps

/-! The pointers to peers a node holds: each is that of an object, in its table, in its mail and in
its actors; and a search asks no more peers than the node has ids of. -/
namespace Epyx.DHT
open Lib

/-! ### Pointers -/

def Answer.peers : Answer → List SPtr
  | .found _ _ _ foundPeers => foundPeers
  | _ => []

theorem Answer.offered_subset (answer : Answer) : answer.offered ⊆ answer.peers := by
  cases answer with
  | found connectionId status count foundPeers =>
    unfold Answer.offered
    dsimp only
    split
    · exact List.Subset.refl _
    · exact List.nil_subset _
  | _ => exact List.Subset.refl _

def ProcessMessage.peers : ProcessMessage → List SPtr
  | .receive peer answer => peer :: answer.peers
  | .findSuccess peers => peers
  | _ => []

def Message.peers : Message → List SPtr
  | .ping sender | .get sender _ _ | .store sender _ _ _ | .find sender _ _ _ => [sender]
  | .process _ message => message.peers
  | _ => []

def Callback.peers : Callback → List SPtr
  | .onFound result => result
  | .onFoundPeers peers => peers
  | _ => []

def Action.peers : Action → List SPtr
  | .sendQuery peer _ => [peer]
  | .post _ message => message.peers
  | .timeout message => message.peers
  | .call callback => callback.peers
  | .kill => []

/-- The pointers are those of objects. -/
def Peers.Has (objects : Peers) (peers : List SPtr) : Prop := ∀ p ∈ peers, p < objects.length

theorem Peers.Has.later {objects later : Peers} {peers : List SPtr} (h : objects.Has peers)
    (hlater : objects.length ≤ later.length) : later.Has peers :=
  fun p hp => Nat.lt_of_lt_of_le (h p hp) hlater

theorem Peers.mem_of_lt {objects : Peers} {p : SPtr} (h : p < objects.length) :
    objects.deref p ∈ objects := by
  rw [Peers.deref, List.getD_eq_getElem?_getD, List.getElem?_eq_getElem h, Option.getD_some]
  exact List.getElem_mem h

/-- The ids a node knows of. -/
def Peers.known (objects : Peers) : Finset Id := (objects.map (·.id)).toFinset

theorem Peers.Later.refl (objects : Peers) : objects.Later objects :=
  ⟨Nat.le_refl _, fun _ _ => rfl⟩

theorem Peers.Later.trans {objects later last : Peers} (h : objects.Later later)
    (h' : later.Later last) : objects.Later last :=
  ⟨h.length.trans h'.length, fun p hp =>
    (h'.id p (Nat.lt_of_lt_of_le hp h.length)).trans (h.id p hp)⟩

theorem Peers.mem_known {objects : Peers} {p : SPtr} (h : p < objects.length) :
    (objects.deref p).id ∈ objects.known :=
  List.mem_toFinset.mpr (List.mem_map_of_mem (Peers.mem_of_lt h))

theorem Peers.Later.known {objects later : Peers} (h : objects.Later later) :
    objects.known ⊆ later.known := by
  intro id hid
  obtain ⟨o, ho, rfl⟩ := List.mem_map.mp (List.mem_toFinset.mp hid)
  obtain ⟨p, hp, rfl⟩ := List.mem_iff_getElem.mp ho
  have hderef : objects.deref p = objects[p] := by
    rw [Peers.deref, List.getD_eq_getElem?_getD, List.getElem?_eq_getElem hp, Option.getD_some]
  rw [← hderef, ← h.id p hp]
  exact Peers.mem_known (Nat.lt_of_lt_of_le hp h.length)

namespace KBucket

theorem consider_subset {objects : Peers} {id : Id} {k : Nat}
    {closest result : List (Distance × SPtr)} {p : SPtr}
    (h : consider objects id k closest p = some result) {x : Distance × SPtr} (hx : x ∈ result) :
    x ∈ closest ∨ x.2 = p := by
  have hjoin : ∀ left : List (Distance × SPtr), left ⊆ closest →
      x ∈ (if left.length < k then enqueue (entry objects id p) left else left) →
      x ∈ closest ∨ x.2 = p := fun left hleft hx => by
    split at hx
    · rcases List.mem_cons.mp ((enqueue_perm _ _).subset hx) with rfl | hx
      · exact .inr rfl
      · exact .inl (hleft hx)
    · exact .inl (hleft hx)
  unfold consider at h
  dsimp only at h
  split at h
  · cases closest with
    | nil => cases h
    | cons farthest rest =>
      cases h
      refine hjoin _ ?_ hx
      split
      · exact List.subset_cons_self farthest rest
      · exact List.Subset.refl _
  · cases h
    exact hjoin _ (List.Subset.refl _) hx

/-- The nodes that are found are in the table. -/
theorem findNearestNodes_subset {k : KBucket} {objects : Peers} {id : Id} {count : Int}
    {nearest : List SPtr} (h : k.findNearestNodes objects id count = some nearest) {p : SPtr}
    (hp : p ∈ nearest) : p ∈ k.buckets.flatten := by
  have hfold : ∀ (peers : List SPtr) (closest result : List (Distance × SPtr)),
      peers.foldlM (consider objects id (toU64 count)) closest = some result →
      ∀ x ∈ result, x ∈ closest ∨ x.2 ∈ peers := by
    intro peers
    induction peers with
    | nil =>
      intro closest result hr x hx
      cases hr
      exact .inl hx
    | cons q peers ih =>
      intro closest result hr x hx
      obtain ⟨closest', hc, hr⟩ := Option.bind_eq_some_iff.mp hr
      rcases ih closest' result hr x hx with hx | hx
      · rcases consider_subset hc hx with hx | rfl
        · exact .inl hx
        · exact .inr (.head _)
      · exact .inr (.tail _ hx)
  obtain ⟨result, hr, rfl⟩ := Option.map_eq_some_iff.mp h
  obtain ⟨x, hx, rfl⟩ := List.mem_map.mp hp
  exact (hfold _ _ _ hr x hx).resolve_left (List.not_mem_nil)

end KBucket

/-! ### Actors -/

def Action.isFind : Action → Bool
  | .sendQuery _ (.find _ _) => true
  | _ => false

/-- The callback shows its user a vector, and finds in it what it has shown. -/
def SetCallback.Tame : SetCallback → Prop
  | .user edit => ∀ peers, edit peers ⊆ peers
  | .replicater _ _ => True

/-- An actor that has sent so many FINDs. -/
def Role.Fits (objects : Peers) (finds : Nat) : Role → Prop
  | .finder f => ∃ target count log, f.Tracks objects target count log ∧
      (Note.askedIds log).length = finds
  | .getter _ => finds = 0
  | .setter s => finds = 0 ∧ s.callback.Tame

/-- What a handler makes of an actor that has sent so many FINDs before. -/
structure Role.Handled (objects : Peers) (finds : Nat) (s : Role × List Action) : Prop where
  fits : s.1.Fits objects (finds + s.2.countP Action.isFind)
  actions : ∀ x ∈ s.2, objects.Has x.peers

namespace FinderActor
variable {objects : Peers} {target : Id} {count : Nat} {f : FinderActor} {log : List Note}

theorem Tracks.shortlist_has (h : Tracks objects target count f log) :
    objects.Has (f.shortlist.map Prod.snd) := by
  obtain ⟨peers, hsound, -⟩ := h.sound
  intro p hp
  obtain ⟨x, hx, rfl⟩ := List.mem_map.mp hp
  exact hsound.valid _ (hsound.shortlist.entry x hx).1

theorem Tracks.foundPeers_has (h : Tracks objects target count f log) :
    objects.Has (f.foundPeers.map Prod.snd) := by
  obtain ⟨peers, hsound, -⟩ := h.sound
  intro p hp
  obtain ⟨x, hx, rfl⟩ := List.mem_map.mp hp
  exact hsound.valid _ (hsound.foundPeers.entry x hx).1

/-- No id is asked twice, and each one asked is that of a peer that was offered. -/
theorem Tracks.asked_le (h : Tracks objects target count f log) :
    (Note.askedIds log).length ≤ objects.known.card := by
  obtain ⟨peers, hsound, hids⟩ := h.sound
  rw [← List.toFinset_card_of_nodup h.once]
  refine Finset.card_le_card fun id hid => ?_
  have hoffered := h.offered (List.mem_toFinset.mp hid)
  rw [← hids] at hoffered
  obtain ⟨p, hp, rfl⟩ := List.mem_map.mp hoffered
  exact Peers.mem_known (hsound.valid p hp)

/-- Each FIND is in the notes. -/
theorem length_askedIds_notes (objects : Peers) (r : FinderActor × List Action) :
    (Note.askedIds (notes objects r)).length = r.2.countP Action.isFind := by
  obtain ⟨f, xs⟩ := r
  induction xs with
  | nil => rfl
  | cons x xs ih =>
    have hx : notes objects (f, x :: xs) = (note objects f x).toList ++ notes objects (f, xs) := by
      cases hn : note objects f x <;> simp [notes, hn]
    rw [hx, Note.askedIds_append, List.length_append, ih, List.countP_cons, Nat.add_comm]
    congr 1
    cases x with
    | sendQuery peer query => cases query <;> rfl
    | post actor message => cases message <;> rfl
    | call callback => cases callback <;> rfl
    | _ => rfl

theorem handled_of_tracks {r : FinderActor × List Action} {before : List Note}
    (h : Tracks objects target count r.1 (before ++ notes objects r))
    (hr : ∀ x ∈ r.2, objects.Has x.peers) :
    Role.Handled objects (Note.askedIds before).length (r.map .finder id) := by
  refine ⟨⟨target, count, _, h, ?_⟩, hr⟩
  rw [Note.askedIds_append, List.length_append, length_askedIds_notes]
  rfl

theorem onFound_has (cb : FindCallback) {result : ClosestQueue}
    (h : objects.Has (result.map Prod.snd)) : objects.Has (cb.onFound result).peers := by
  cases cb <;> exact h

theorem onError_has (cb : FindCallback) : objects.Has cb.onError.peers := by
  cases cb <;> exact nofun

theorem Tracks.onResponse_has (h : Tracks objects target count f log) :
    ∀ x ∈ (FinderActor.onResponse objects f).2, objects.Has x.peers := by
  unfold FinderActor.onResponse
  dsimp only
  split
  · rename_i r hr
    obtain ⟨y, hy, rfl⟩ := Option.map_eq_some_iff.mp hr
    intro x hx p hp
    rw [List.mem_singleton.mp hx] at hp
    rw [List.mem_singleton.mp hp]
    exact h.shortlist_has _ (List.mem_map_of_mem (List.mem_of_find?_eq_some hy))
  · split
    · intro x hx
      rcases List.mem_pair.mp hx with rfl | rfl
      · exact onFound_has _ h.foundPeers_has
      · exact nofun
    · exact nofun

theorem sendQueries_has (f : FinderActor) {peers : List SPtr} (h : objects.Has peers) :
    ∀ x ∈ (FinderActor.sendQueries objects f peers).2, objects.Has x.peers := by
  induction peers generalizing f with
  | nil => exact nofun
  | cons p peers ih =>
    intro x hx
    rcases List.mem_append.mp hx with hx | hx
    · rw [List.mem_singleton.mp hx]
      intro q hq
      rw [List.mem_singleton.mp hq]
      exact h p (List.mem_cons_self ..)
    · exact ih _ (fun q hq => h q (.tail _ hq)) x hx

end FinderActor

namespace Role
variable {objects : Peers} {finds : Nat} {r : Role}

/-- A getter and a setter send no FIND. -/
theorem Handled.of_quiet {s : Role × List Action} (hfits : s.1.Fits objects finds)
    (hquiet : ∀ x ∈ s.2, x.isFind = false) (hs : ∀ x ∈ s.2, objects.Has x.peers) :
    Handled objects finds s := by
  have hzero : s.2.countP Action.isFind = 0 :=
    List.countP_eq_zero.mpr fun x hx => by simp [hquiet x hx]
  exact ⟨by rwa [hzero], hs⟩

theorem Handled.nothing (h : r.Fits objects finds) : Handled objects finds (r, []) :=
  .of_quiet h nofun nofun

end Role

namespace GetterActor
variable {objects : Peers}

theorem timeout_handled (g : GetterActor) : Role.Handled objects 0 (g.timeout.map .getter id) :=
  .of_quiet rfl (by simp [timeout, Action.isFind]) (by simp [timeout, Peers.Has, Action.peers,
    Callback.peers])

theorem onGetResponse_handled (g : GetterActor) :
    Role.Handled objects 0 (g.onGetResponse.map .getter id) := by
  unfold onGetResponse
  dsimp only
  split
  · exact timeout_handled _
  · exact .of_quiet rfl nofun nofun

theorem onNewAnswer_handled (g : GetterActor) (answer : Answer) :
    Role.Handled objects 0 ((g.onNewAnswer answer).map .getter id) := by
  cases answer with
  | got connectionId status value =>
    rw [onNewAnswer]
    split
    · exact .of_quiet rfl (by simp [Action.isFind]) (by simp [Peers.Has, Action.peers,
        Callback.peers])
    · exact onGetResponse_handled g
  | _ => exact onGetResponse_handled g

theorem treatFindSuccess_handled (g : GetterActor) {peers : List SPtr} (h : objects.Has peers) :
    Role.Handled objects 0 ((g.treatFindSuccess peers).map .getter id) := by
  refine .of_quiet rfl (fun x hx => ?_) fun x hx => ?_
  · obtain ⟨p, -, rfl⟩ := List.mem_map.mp hx
    rfl
  · obtain ⟨p, hp, rfl⟩ := List.mem_map.mp hx
    intro q hq
    rw [List.mem_singleton.mp hq]
    exact h p hp

end GetterActor

namespace SetterActor
variable {objects : Peers}

theorem timeout_handled {s : SetterActor} (h : s.callback.Tame) :
    Role.Handled objects 0 (s.timeout.map .setter id) := by
  unfold timeout
  cases hc : s.callback with
  | user edit =>
    exact .of_quiet ⟨rfl, h⟩ (by simp [SetCallback.onError, Action.isFind])
      (by simp [SetCallback.onError, Peers.Has, Action.peers, Callback.peers])
  | replicater isHandlingKey key =>
    exact .of_quiet ⟨rfl, h⟩ (by simp [SetCallback.onError, Action.isFind])
      (by simp [SetCallback.onError, Peers.Has, Action.peers])

theorem onSetReceive_handled {s : SetterActor} (h : s.callback.Tame) :
    Role.Handled objects 0 (s.onSetReceive.map .setter id) := by
  unfold onSetReceive
  dsimp only
  split
  · split
    · cases hc : s.callback with
      | user edit =>
        rw [hc] at h
        exact .of_quiet ⟨rfl, h⟩ (by simp [SetCallback.onSet, Action.isFind])
          (by simp [SetCallback.onSet, Peers.Has, Action.peers, Callback.peers])
      | replicater isHandlingKey key =>
        rw [hc] at h
        cases isHandlingKey with
        | true =>
          exact .of_quiet ⟨rfl, h⟩ (by simp [SetCallback.onSet, Action.isFind])
            (by simp [SetCallback.onSet, Peers.Has, Action.peers, Message.peers])
        | false =>
          exact .of_quiet ⟨rfl, h⟩ (by simp [SetCallback.onSet, Action.isFind])
            (by simp [SetCallback.onSet, Peers.Has, Action.peers])
    · exact timeout_handled h
  · exact .of_quiet ⟨rfl, h⟩ nofun nofun

theorem onNewAnswer_handled {s : SetterActor} (h : s.callback.Tame) (answer : Answer) :
    Role.Handled objects 0 ((s.onNewAnswer answer).map .setter id) := by
  cases answer with
  | stored connectionId status =>
    rw [onNewAnswer]
    split
    · exact onSetReceive_handled h
    · exact onSetReceive_handled h
  | _ => exact onSetReceive_handled h

/-- The setter asks the peers its callback has left in the vector. -/
theorem treatFindSuccess_handled {s : SetterActor} (h : s.callback.Tame) (self : Id)
    {peers : List SPtr} (hp : objects.Has peers) :
    Role.Handled objects 0 ((s.treatFindSuccess objects self peers).map .setter id) := by
  have hasks : ∀ left : List SPtr, objects.Has left → ∀ x ∈ left.map s.ask,
      x.isFind = false ∧ objects.Has x.peers := fun left hleft x hx => by
    obtain ⟨p, hp, rfl⟩ := List.mem_map.mp hx
    refine ⟨rfl, fun q hq => ?_⟩
    rw [List.mem_singleton.mp hq]
    exact hleft p hp
  cases hc : s.callback with
  | user edit =>
    rw [hc] at h
    have hleft := hasks (edit peers) fun p hp' => hp p (h peers hp')
    have hx : ∀ x ∈ (s.treatFindSuccess objects self peers).2,
        x.isFind = false ∧ objects.Has x.peers := fun x hx => by
      rw [treatFindSuccess, hc] at hx
      rcases List.mem_cons.mp hx with rfl | hx
      · exact ⟨rfl, hp⟩
      · exact hleft x hx
    refine .of_quiet ⟨rfl, ?_⟩ (fun x hx' => (hx x hx').1) fun x hx' => (hx x hx').2
    show (s.callback.onFoundPeers objects self peers).1.Tame
    rw [hc]
    exact h
  | replicater isHandlingKey key =>
    have hx : ∀ x ∈ (s.treatFindSuccess objects self peers).2,
        x.isFind = false ∧ objects.Has x.peers := fun x hx => by
      rw [treatFindSuccess, hc] at hx
      exact hasks peers hp x hx
    refine .of_quiet ⟨rfl, ?_⟩ (fun x hx' => (hx x hx').1) fun x hx' => (hx x hx').2
    show (s.callback.onFoundPeers objects self peers).1.Tame
    rw [hc]
    trivial

end SetterActor

namespace Role
variable {objects : Peers} {finds : Nat} {r : Role}

theorem Fits.later (h : r.Fits objects finds) {later : Peers} (hlater : objects.Later later) :
    r.Fits later finds := by
  cases r with
  | finder f =>
    obtain ⟨target, count, log, htracks, hfinds⟩ := h
    exact ⟨target, count, log, htracks.later hlater, hfinds⟩
  | getter g => exact h
  | setter s => exact h

theorem Fits.le_card (h : r.Fits objects finds) : finds ≤ objects.known.card := by
  cases r with
  | finder f =>
    obtain ⟨target, count, log, htracks, rfl⟩ := h
    exact htracks.asked_le
  | getter g => exact h ▸ Nat.zero_le _
  | setter s => exact h.1 ▸ Nat.zero_le _

theorem Fits.onNewAnswer (h : r.Fits objects finds) {answer : Answer}
    (hanswer : objects.Has answer.peers) :
    Handled objects finds (r.onNewAnswer objects answer) := by
  cases r with
  | finder f =>
    obtain ⟨target, count, log, htracks, rfl⟩ := h
    have hoffer := htracks.offer fun p hp => hanswer p (Answer.offered_subset answer hp)
    have hsame : (Note.askedIds (log ++ (objects.ids answer.offered).map .offered)).length =
        (Note.askedIds log).length := by
      rw [Note.askedIds_append, Note.askedIds_map, List.append_nil]
    rw [← hsame]
    show Handled objects _ ((f.onNewAnswer objects answer).map .finder id)
    rw [Search.onNewAnswer_eq]
    exact FinderActor.handled_of_tracks hoffer.onResponse hoffer.onResponse_has
  | getter g => cases h; exact g.onNewAnswer_handled answer
  | setter s =>
    obtain ⟨rfl, htame⟩ := h
    exact SetterActor.onNewAnswer_handled htame answer

theorem Fits.onAnswerTimeout (h : r.Fits objects finds) :
    Handled objects finds (r.onAnswerTimeout objects) := by
  cases r with
  | finder f =>
    obtain ⟨target, count, log, htracks, rfl⟩ := h
    exact FinderActor.handled_of_tracks htracks.onResponse htracks.onResponse_has
  | getter g => cases h; exact g.onGetResponse_handled
  | setter s =>
    obtain ⟨rfl, htame⟩ := h
    exact SetterActor.onSetReceive_handled htame

theorem Fits.treat (h : r.Fits objects finds) (self : Id) {message : ProcessMessage}
    (hm : objects.Has message.peers) : Handled objects finds (r.treat objects self message) := by
  cases r with
  | finder f =>
    cases message with
    | timeout =>
      have hquiet : ∀ x ∈ f.timeout.2, x.isFind = false := fun x hx => by
        rcases List.mem_pair.mp hx with rfl | rfl
        · cases f.callback <;> rfl
        · rfl
      refine .of_quiet h hquiet fun x hx => ?_
      rcases List.mem_pair.mp hx with rfl | rfl
      · exact FinderActor.onError_has _
      · exact nofun
    | _ => exact .nothing h
  | getter g =>
    cases h
    cases message with
    | timeout | findFailure => exact g.timeout_handled
    | findSuccess peers => exact g.treatFindSuccess_handled hm
    | _ => exact .nothing rfl
  | setter s =>
    obtain ⟨rfl, htame⟩ := h
    cases message with
    | timeout | findFailure => exact SetterActor.timeout_handled htame
    | findSuccess peers => exact SetterActor.treatFindSuccess_handled htame self hm
    | _ => exact .nothing ⟨rfl, htame⟩

/-- The start of a search, of which nothing was asked yet. -/
theorem handled_start (idToFind : Id) (count : Int) (cb : FindCallback) {nearest : List SPtr}
    (h : objects.Has nearest) :
    Handled objects 0
      (((FinderActor.new idToFind count cb).start objects nearest).map .finder id) := by
  have hoffer := (FinderActor.Tracks.new objects idToFind count cb).offer h
  obtain ⟨peers, hsound, -⟩ := hoffer.sound
  have hnone : Note.askedIds ([] ++ (objects.ids nearest).map Note.offered) = [] :=
    Note.askedIds_map _
  have hstart := hoffer.sendQueries (List.Subset.refl _) hsound.shortlist.holds.nodup
    fun id _ hid => by
      rw [hnone] at hid
      cases hid
  have hhandled := FinderActor.handled_of_tracks hstart
    (FinderActor.sendQueries_has _ hoffer.shortlist_has)
  rwa [hnone] at hhandled

end Role

/-! ### The node -/

/-- The peers a packet tells of. -/
def Content.peers : Content → List Peer
  | .found _ _ _ foundPeers => foundPeers
  | _ => []

/-- What goes out goes to a peer and tells of peers, unless a user has it ping some address. -/
def Output.Fits (objects : Peers) : Output → Prop
  | .send dest pkt => pkt.content = .ping ∨
      (∃ o ∈ objects, dest = o.n2npId) ∧ ∀ p ∈ pkt.content.peers, ∃ o ∈ objects, o.toPeer = p
  | .call _ callback => objects.Has callback.peers
  | _ => True

/-- The FINDs of the actor `a`. -/
def findsOf (a : ActorId) (log : List Output) : Nat :=
  log.countP fun
    | .query actor _ (.find _ _) => actor = a
    | _ => false

theorem findsOf_append (a : ActorId) (log out : List Output) :
    findsOf a (log ++ out) = findsOf a log + findsOf a out := List.countP_append

namespace InternalNode

/-- Every pointer the node holds is that of an object. -/
structure Tidy (n : InternalNode) : Prop where
  table : n.objects.Has n.kbucket.buckets.flatten
  messages : ∀ m ∈ n.messages, n.objects.Has m.peers
  timeouts : ∀ m ∈ n.timeouts, n.objects.Has m.peers
  out : ∀ o ∈ n.out, o.Fits n.objects

variable {n : InternalNode}

theorem Tidy.emit (h : Tidy n) {o : Output} (ho : o.Fits n.objects) : Tidy (n.emit o) := by
  refine ⟨h.table, h.messages, h.timeouts, fun x hx => ?_⟩
  rcases List.mem_append.mp hx with hx | hx
  · exact h.out x hx
  · rw [List.mem_singleton.mp hx]
    exact ho

theorem Tidy.post (h : Tidy n) {m : Message} (hm : n.objects.Has m.peers) : Tidy (n.post m) := by
  refine ⟨h.table, fun x hx => ?_, h.timeouts, h.out⟩
  rcases List.mem_append.mp hx with hx | hx
  · exact h.messages x hx
  · rw [List.mem_singleton.mp hx]
    exact hm

theorem Tidy.arm (h : Tidy n) {m : Message} (hm : n.objects.Has m.peers) : Tidy (n.arm m) := by
  refine ⟨h.table, h.messages, fun x hx => ?_, h.out⟩
  rcases List.mem_append.mp hx with hx | hx
  · exact h.timeouts x hx
  · rw [List.mem_singleton.mp hx]
    exact hm

theorem Tidy.send (h : Tidy n) (content : Content) {dest : SPtr} (hdest : dest < n.objects.length)
    (hpeers : ∀ p ∈ content.peers, ∃ o ∈ n.objects, o.toPeer = p) : Tidy (n.send content dest) :=
  h.emit (.inr ⟨⟨_, Peers.mem_of_lt hdest, rfl⟩, hpeers⟩)

theorem Tidy.sendQuery (h : Tidy n) (a : ActorId) (p : ProcessActor) {peer : SPtr}
    (hpeer : peer < n.objects.length) (query : Query) : Tidy (n.sendQuery a p peer query).1 := by
  have hregistered : Tidy (n.registerNewConnectionId a) :=
    ⟨h.table, h.messages, h.timeouts, h.out⟩
  have hnone : (query.content n.processActorsCount.toInt32).peers = [] := by
    cases query <;> rfl
  have hsent := (hregistered.emit (o := .query a n.processActorsCount query) trivial).send
    (query.content n.processActorsCount.toInt32) hpeer (by simp [hnone])
  exact hsent.arm nofun

theorem Tidy.perform {s : InternalNode × ProcessActor} (h : Tidy s.1) (a : ActorId) {x : Action}
    (hx : s.1.objects.Has x.peers) :
    Tidy (perform a s x).1 ∧ (perform a s x).1.objects = s.1.objects ∧
      (perform a s x).2.role = s.2.role := by
  cases x with
  | sendQuery peer query =>
    exact ⟨h.sendQuery a s.2 (hx peer (List.mem_singleton_self peer)) query, rfl, rfl⟩
  | post actor message => exact ⟨h.post hx, rfl, rfl⟩
  | timeout message => exact ⟨h.arm hx, rfl, rfl⟩
  | call callback => exact ⟨h.emit hx, rfl, rfl⟩
  | kill => exact ⟨h.post nofun, rfl, rfl⟩

/-- A handler uses pointers of objects; what it makes of its actor is there afterwards. -/
theorem Tidy.run (h : Tidy n) (a : ActorId) (p : ProcessActor) {r : Role × List Action}
    (hr : ∀ x ∈ r.2, n.objects.Has x.peers) :
    Tidy (n.run a p r) ∧ (n.run a p r).objects = n.objects ∧
      ∃ q, (n.run a p r).actors = n.actors.insert a q ∧ q.role = r.1 := by
  have hfold : ∀ (xs : List Action) (s : InternalNode × ProcessActor), Tidy s.1 →
      (∀ x ∈ xs, s.1.objects.Has x.peers) →
      Tidy (xs.foldl (InternalNode.perform a) s).1 ∧
        (xs.foldl (InternalNode.perform a) s).1.objects = s.1.objects ∧
        (xs.foldl (InternalNode.perform a) s).2.role = s.2.role := by
    intro xs
    induction xs with
    | nil => exact fun s hs _ => ⟨hs, rfl, rfl⟩
    | cons x xs ih =>
      intro s hs hxs
      obtain ⟨hx, hobjects, hrole⟩ := hs.perform a (hxs x (List.mem_cons_self ..))
      obtain ⟨hall, hobjects', hrole'⟩ := ih (InternalNode.perform a s x) hx fun y hy => by
        rw [hobjects]
        exact hxs y (.tail _ hy)
      exact ⟨hall, hobjects'.trans hobjects, hrole'.trans hrole⟩
  have hactors : ∀ (xs : List Action) (s : InternalNode × ProcessActor),
      (xs.foldl (InternalNode.perform a) s).1.actors = s.1.actors := by
    intro xs
    induction xs with
    | nil => exact fun s => rfl
    | cons x xs ih =>
      intro s
      rw [List.foldl_cons, ih]
      cases x <;> rfl
  obtain ⟨hall, hobjects, hrole⟩ := hfold r.2 (n, { p with role := r.1 }) h hr
  refine ⟨⟨hall.table, hall.messages, hall.timeouts, hall.out⟩, hobjects, _, ?_, hrole⟩
  rw [InternalNode.run, hactors]

/-- The FINDs of a handler are those of its actor. -/
theorem run_findsOf (n : InternalNode) (a b : ActorId) (p : ProcessActor)
    (r : Role × List Action) :
    findsOf b (n.run a p r).out =
      findsOf b n.out + if b = a then r.2.countP Action.isFind else 0 := by
  have hfold : ∀ (xs : List Action) (s : InternalNode × ProcessActor),
      findsOf b (xs.foldl (InternalNode.perform a) s).1.out =
        findsOf b s.1.out + if b = a then xs.countP Action.isFind else 0 := by
    intro xs
    induction xs with
    | nil => simp
    | cons x xs ih =>
      intro s
      have hx : findsOf b (InternalNode.perform a s x).1.out =
          findsOf b s.1.out + if b = a ∧ x.isFind then 1 else 0 := by
        cases x with
        | sendQuery peer query =>
          rw [show (InternalNode.perform a s (.sendQuery peer query)).1.out =
            s.1.out ++ [.query a _ query] ++ [.send _ _] from rfl, findsOf_append, findsOf_append]
          cases query <;> simp [findsOf, Action.isFind, eq_comm]
        | _ => simp [InternalNode.perform, InternalNode.post, InternalNode.arm, InternalNode.emit,
            findsOf, Action.isFind]
      rw [List.foldl_cons, ih, hx, List.countP_cons]
      by_cases hb : b = a
      · simp only [hb, true_and, if_true]
        omega
      · simp [hb]
  exact hfold r.2 _

/-- The pointers are in order, and an actor has sent as many FINDs as its search says it has, which
are no more than the ids the node knows. -/
structure Holds (log : List Output) (n : InternalNode) : Prop where
  tidy : Tidy n
  placed : Placed n
  actors : ∀ a (p : ProcessActor), n.actors[a]? = some p →
    p.role.Fits n.objects (findsOf a (log ++ n.out))
  unmade : ∀ a, n.actorCount ≤ a → findsOf a (log ++ n.out) = 0
  bound : ∀ a, findsOf a (log ++ n.out) ≤ n.objects.known.card

variable {log : List Output}

/-- A step that is none of an actor. -/
theorem Holds.congr (h : Holds log n) {n' : InternalNode} (htidy : Tidy n')
    (hactors : n'.actors = n.actors) (hcount : n'.actorCount = n.actorCount)
    (hlater : n.objects.Later n'.objects)
    (hfinds : ∀ a, findsOf a n'.out = findsOf a n.out) : Holds log n' := by
  have hall : ∀ a, findsOf a (log ++ n'.out) = findsOf a (log ++ n.out) := fun a => by
    rw [findsOf_append, findsOf_append, hfinds]
  refine ⟨htidy, fun a p hp => ?_, fun a p hp => ?_, fun a ha => ?_, fun a => ?_⟩
  · rw [hcount]
    exact h.placed a p (hactors ▸ hp)
  · rw [hall]
    exact (h.actors a p (hactors ▸ hp)).later hlater
  · rw [hall]
    exact h.unmade a (hcount ▸ ha)
  · rw [hall]
    exact (h.bound a).trans (Finset.card_le_card hlater.known)

theorem Holds.emit (h : Holds log n) {o : Output} (ho : o.Fits n.objects)
    (hfind : ∀ a, findsOf a [o] = 0) : Holds log (n.emit o) :=
  h.congr (h.tidy.emit ho) rfl rfl (.refl _) fun a => by
    rw [show (n.emit o).out = n.out ++ [o] from rfl, findsOf_append, hfind, Nat.add_zero]

theorem Holds.post (h : Holds log n) {m : Message} (hm : n.objects.Has m.peers) :
    Holds log (n.post m) :=
  h.congr (h.tidy.post hm) rfl rfl (.refl _) fun _ => rfl

theorem Holds.arm (h : Holds log n) {m : Message} (hm : n.objects.Has m.peers) :
    Holds log (n.arm m) :=
  h.congr (h.tidy.arm hm) rfl rfl (.refl _) fun _ => rfl

theorem Holds.send (h : Holds log n) {content : Content} {dest : SPtr}
    (hdest : dest < n.objects.length)
    (hpeers : ∀ p ∈ content.peers, ∃ o ∈ n.objects, o.toPeer = p) :
    Holds log (n.send content dest) :=
  h.emit (.inr ⟨⟨_, Peers.mem_of_lt hdest, rfl⟩, hpeers⟩) fun _ => rfl

/-- A handler of an actor that has sent as many FINDs as the log says. -/
theorem Holds.run (h : Holds log n) {a : ActorId} {p : ProcessActor} (hp : n.actors[a]? = some p)
    (p' : ProcessActor) {r : Role × List Action}
    (hr : Role.Handled n.objects (findsOf a (log ++ n.out)) r) : Holds log (n.run a p' r) := by
  obtain ⟨htidy, hobjects, q, hactors, hrole⟩ := h.tidy.run a p' hr.actions
  have hcount := (run_frame n a p' r).2
  have hfinds : ∀ b, findsOf b (log ++ (n.run a p' r).out) =
      findsOf b (log ++ n.out) + if b = a then r.2.countP Action.isFind else 0 := fun b => by
    rw [findsOf_append, run_findsOf, findsOf_append, Nat.add_assoc]
  have hlt := h.placed a p hp
  refine ⟨htidy, h.placed.run hlt p' r, fun b q' hq' => ?_, fun b hb => ?_, fun b => ?_⟩
  · rw [hactors] at hq'
    rw [hfinds, hobjects]
    rcases Lib.TreeMap.of_getElem?_insert hq' with ⟨rfl, rfl⟩ | ⟨hb, hq'⟩
    · rw [if_pos rfl, hrole]
      exact hr.fits
    · rw [if_neg (Ne.symm hb), Nat.add_zero]
      exact h.actors b q' hq'
  · rw [hcount] at hb
    have hne : b ≠ a := fun he => absurd hlt (Nat.not_lt.mpr (he ▸ hb))
    rw [hfinds, if_neg hne, Nat.add_zero]
    exact h.unmade b hb
  · rw [hfinds, hobjects]
    by_cases hb : b = a
    · subst hb
      rw [if_pos rfl]
      exact hr.fits.le_card
    · rw [if_neg hb, Nat.add_zero]
      exact h.bound b

theorem Holds.settle (h : Holds log n) (c : Int64) {o : Output}
    (ho : ∀ objects, o.Fits objects) (hfind : ∀ a, findsOf a [o] = 0) :
    Holds log ((n.unregisterConnectionId c).emit o) := by
  have hunregistered : Holds log (n.unregisterConnectionId c) :=
    h.congr ⟨h.tidy.table, h.tidy.messages, h.tidy.timeouts, h.tidy.out⟩ rfl rfl (.refl _)
      fun _ => rfl
  exact hunregistered.emit (ho _) hfind

theorem Holds.treatReceive (h : Holds log n) {a : ActorId} {p : ProcessActor}
    (hp : n.actors[a]? = some p) {answer : Answer} (hanswer : n.objects.Has answer.peers) :
    Holds log (n.treatReceive a p answer) := by
  unfold InternalNode.treatReceive
  dsimp only
  split
  · have hsettled := h.settle (answerId answer).toInt64
      (o := .onNewAnswer a (answerId answer).toInt64 answer) (fun _ => trivial) fun _ => rfl
    exact hsettled.run hp _ ((hsettled.actors a p hp).onNewAnswer hanswer)
  · exact h

theorem Holds.treatTimeout (h : Holds log n) {a : ActorId} {p : ProcessActor}
    (hp : n.actors[a]? = some p) (c : Int64) : Holds log (n.treatTimeout a p c) := by
  unfold InternalNode.treatTimeout
  split
  · have hsettled := h.settle c (o := .onAnswerTimeout a c) (fun _ => trivial) fun _ => rfl
    exact hsettled.run hp _ (hsettled.actors a p hp).onAnswerTimeout
  · exact h

theorem Holds.destroy (h : Holds log n) (a : ActorId) (p : ProcessActor) :
    Holds log (n.destroy a p) := by
  obtain ⟨reg, hreg⟩ := foldl_unregister p.queries.keys n
  rw [InternalNode.destroy, hreg]
  refine ⟨⟨h.tidy.table, h.tidy.messages, h.tidy.timeouts, h.tidy.out⟩, fun b q hq => ?_,
    fun b q hq => ?_, h.unmade, h.bound⟩
  · exact h.placed b q (Lib.TreeMap.of_getElem?_erase hq).2
  · exact h.actors b q (Lib.TreeMap.of_getElem?_erase hq).2

theorem Holds.treatProcess (h : Holds log n) (a : ActorId) {m : ProcessMessage}
    (hm : n.objects.Has m.peers) : Holds log (n.treatProcess a m) := by
  unfold InternalNode.treatProcess
  split
  · exact h
  · rename_i p hp
    split
    · cases m with
      | receive peer answer => exact h.treatReceive hp fun q hq => hm q (.tail _ hq)
      | processTimeout c => exact h.treatTimeout hp c
      | _ => exact h.run hp p ((h.actors a p hp).treat n.id hm)
    · exact h.destroy a p

theorem Holds.add (h : Holds log n) (role : Role) (hrole : role.Fits n.objects 0) :
    Holds log (n.add role) := by
  have htidy : Tidy { n with
      actorCount := n.actorCount + 1
      actors := n.actors.insert n.actorCount ⟨true, ∅, role⟩ } :=
    ⟨h.tidy.table, h.tidy.messages, h.tidy.timeouts, h.tidy.out⟩
  refine ⟨htidy.arm nofun, Part.placed (.add role) h.placed, fun a p hp => ?_,
    fun a ha => h.unmade a (Nat.le_of_succ_le ha), h.bound⟩
  rcases Lib.TreeMap.of_getElem?_insert hp with ⟨rfl, rfl⟩ | ⟨-, hp⟩
  · show role.Fits n.objects (findsOf n.actorCount (log ++ n.out))
    rw [h.unmade _ (Nat.le_refl _)]
    exact hrole
  · exact h.actors a p hp

theorem Holds.findClosest (h : Holds log n) {n' : InternalNode} {cb : FindCallback} {count : Int}
    {idToFind : Id} (hn : n.findClosest cb count idToFind = some n') : Holds log n' := by
  obtain ⟨nearest, hnearest, rfl⟩ := Option.map_eq_some_iff.mp hn
  have hhas : n.objects.Has nearest := fun p hp =>
    h.tidy.table p (KBucket.findNearestNodes_subset hnearest hp)
  have hadd := h.add (.finder (.new idToFind count cb))
    ⟨idToFind, _, [], .new n.objects idToFind count cb, rfl⟩
  have hzero : findsOf n.actorCount (log ++ (n.add (.finder (.new idToFind count cb))).out) = 0 :=
    h.unmade _ (Nat.le_refl _)
  refine hadd.run (p := ⟨true, ∅, .finder (.new idToFind count cb)⟩) ?_ _ ?_
  · simp [InternalNode.add, InternalNode.arm]
  · rw [hzero]
    exact Role.handled_start idToFind count cb hhas

theorem Holds.storageSet (h : Holds log n) (key value : ByteStr) :
    Holds log (n.storageSet key value) := by
  have hset : Holds log { n with storage := n.storage.insert key value } :=
    h.congr ⟨h.tidy.table, h.tidy.messages, h.tidy.timeouts, h.tidy.out⟩ rfl rfl (.refl _)
      fun _ => rfl
  unfold InternalNode.storageSet
  dsimp only
  split
  · exact hset.post nofun
  · exact hset

theorem Holds.treat {keyId : Id} {n' : InternalNode} (h : Holds log n)
    {m : Message} (hm : n.objects.Has m.peers) (hn : n.treat keyId m = some n') :
    Holds log n' := by
  cases m with
  | ping sender => cases hn; exact h.send (hm sender (.head _)) nofun
  | get sender connectionId key =>
    cases hn
    unfold InternalNode.treatGet
    split
    · exact h.send (hm sender (.head _)) nofun
    · exact h.send (hm sender (.head _)) nofun
  | store sender connectionId key value =>
    cases hn
    have hemit := h.emit (o := .stored key value) trivial fun _ => rfl
    have hobjects : ((n.emit (.stored key value)).storageSet key value).objects = n.objects := by
      unfold InternalNode.storageSet
      dsimp only
      split <;> rfl
    refine (hemit.storageSet key value).send ?_ nofun
    rw [hobjects]
    exact hm sender (.head _)
  | find sender connectionId count idToFind =>
    obtain ⟨nearest, hnearest, rfl⟩ := Option.map_eq_some_iff.mp hn
    refine h.send (hm sender (.head _)) fun p hp => ?_
    obtain ⟨q, hq, rfl⟩ := List.mem_map.mp hp
    have hlt := h.tidy.table q (KBucket.findNearestNodes_subset hnearest hq)
    exact ⟨_, Peers.mem_of_lt hlt, rfl⟩
  | newKey key => cases hn; exact h.arm nofun
  | replicate key =>
    simp only [InternalNode.treat, treatReplicate] at hn
    split at hn
    · exact (h.add (.setter (.new _ _ (.replicater false _))) ⟨rfl, trivial⟩).findClosest hn
    · cases hn; exact h
  | process a m => cases hn; exact h.treatProcess a hm

end InternalNode
end Epyx.DHT
