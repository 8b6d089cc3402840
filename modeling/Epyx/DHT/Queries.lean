import Epyx.DHT.Search

/-! The queries of a `FinderActor`: whom it asks, and whom it has asked when it is done. -/
namespace Epyx.DHT
open Lib

/-- Of some ids, the nearest `k` to a target, each once. -/
structure NearestIds (target : Id) (k : Nat) (offered held : List Id) : Prop where
  nodup : held.Nodup
  length : held.length = min k offered.toFinset.card
  subset : held ⊆ offered
  nearest : ∀ a ∈ held, ∀ b ∈ offered, b ∉ held →
    (Distance.between target a).toNat < (Distance.between target b).toNat

theorem HoldsNearest.ids {objects : Peers} {target : Id} {k : Nat} {offered held : List SPtr}
    (h : HoldsNearest objects target k offered held) :
    NearestIds target k (objects.ids offered) (objects.ids held) := by
  refine ⟨h.nodup, ?_, fun id hid => ?_, fun a ha b hb hout => ?_⟩
  · rw [Peers.ids, List.length_map]
    exact h.length
  · obtain ⟨p, hp, rfl⟩ := List.mem_map.mp hid
    exact List.mem_map_of_mem (h.subset hp)
  · obtain ⟨p, hp, rfl⟩ := List.mem_map.mp ha
    obtain ⟨q, hq, rfl⟩ := List.mem_map.mp hb
    exact h.nearest p hp q hq hout

/-- What a search is offered and what it does, by the ids of the peers. -/
inductive Note where
  | offered (id : Id)
  /-- a FIND is sent -/
  | find (id : Id)
  /-- `onFound` is called while these are in the shortlist -/
  | found (shortlist : List Id)
  deriving DecidableEq, Repr

namespace Note

def offeredId : Note → Option Id
  | .offered id => some id
  | _ => none

def askedId : Note → Option Id
  | .find id => some id
  | _ => none

/-- The ids that were offered. -/
def offeredIds (log : List Note) : List Id := log.filterMap offeredId

/-- The ids a FIND was sent to, one for each FIND. -/
def askedIds (log : List Note) : List Id := log.filterMap askedId

theorem offeredIds_append (l₁ l₂ : List Note) :
    offeredIds (l₁ ++ l₂) = offeredIds l₁ ++ offeredIds l₂ := List.filterMap_append

theorem askedIds_append (l₁ l₂ : List Note) :
    askedIds (l₁ ++ l₂) = askedIds l₁ ++ askedIds l₂ := List.filterMap_append

theorem offeredIds_map (ids : List Id) : offeredIds (ids.map .offered) = ids := by
  simp [offeredIds, List.filterMap_map, Function.comp_def, offeredId]

theorem askedIds_map (ids : List Id) : askedIds (ids.map .offered) = [] := by
  simp [askedIds, List.filterMap_map, Function.comp_def, askedId]

/-- What has to have come before a note: when `onFound` is called, the shortlist has the nearest of
all ids, and all of it was asked. -/
def Due (target : Id) (log : List Note) : Note → Prop
  | .found shortlist =>
    NearestIds target FIND_PARALLEL_QUERIES (offeredIds log) shortlist ∧
      ∀ id ∈ shortlist, id ∈ askedIds log
  | _ => True

end Note

namespace FinderActor

/-- What a thing a finder does says to the log. -/
def note (objects : Peers) (f : FinderActor) : Action → Option Note
  | .sendQuery peer (.find _ _) => some (.find (objects.deref peer).id)
  | .call (.onFound _) | .post _ (.findSuccess _) =>
    some (.found (objects.ids (f.shortlist.map Prod.snd)))
  | _ => none

def notes (objects : Peers) (r : FinderActor × List Action) : List Note :=
  r.2.filterMap (note objects r.1)

/-- What a finder was offered and has done so far. -/
structure Tracks (objects : Peers) (target : Id) (count : Nat) (f : FinderActor)
    (log : List Note) : Prop where
  sound : ∃ peers, f.Sound objects target count peers ∧ objects.ids peers = Note.offeredIds log
  contacted : ∀ id, Distance.between target id ∈ f.contactedPeers ↔ id ∈ Note.askedIds log
  once : (Note.askedIds log).Nodup
  offered : Note.askedIds log ⊆ Note.offeredIds log
  due : Grounded (Note.Due target) log

variable {objects : Peers} {target : Id} {count : Nat} {f : FinderActor} {log : List Note}

theorem Tracks.new (objects : Peers) (target : Id) (count : Int) (cb : FindCallback) :
    Tracks objects target (toU64 count) (.new target count cb) [] :=
  ⟨⟨[], .new objects target cb, rfl⟩, fun id => by simp [FinderActor.new, Note.askedIds], .nil,
    List.Subset.refl _, .nil _⟩

theorem Tracks.later (h : Tracks objects target count f log) {later : Peers}
    (hlater : Peers.Later objects later) : Tracks later target count f log := by
  obtain ⟨peers, hsound, hids⟩ := h.sound
  refine ⟨⟨peers, ⟨hsound.requestedId, hsound.countToFind, ?_, ?_, ?_⟩, ?_⟩, h.contacted, h.once,
    h.offered, h.due⟩
  · exact fun p hp => Nat.lt_of_lt_of_le (hsound.valid p hp) hlater.length
  · exact hsound.foundPeers.later hlater hsound.valid
  · exact hsound.shortlist.later hlater hsound.valid
  · rw [← hids]
    exact List.map_congr_left fun p hp => hlater.id p (hsound.valid p hp)

/-- The number of pending requests is not in the log. -/
theorem Tracks.pending (h : Tracks objects target count f log) (n : Int) :
    Tracks objects target count { f with pendingRequests := n } log := by
  obtain ⟨peers, hsound, hids⟩ := h.sound
  exact ⟨⟨peers, hsound.contact f.contactedPeers n, hids⟩, h.contacted, h.once, h.offered, h.due⟩

theorem addPeers_contacted (objects : Peers) (f : FinderActor) (peers : List SPtr) :
    (addPeers objects f peers).contactedPeers = f.contactedPeers := by
  induction peers generalizing f with
  | nil => rfl
  | cons p peers ih =>
    obtain ⟨short, hf⟩ := addToShortList_frame objects f p
    obtain ⟨found, hg⟩ := addToFoundPeers_frame objects { f with shortlist := short } p
    have hstep := ih (addToFoundPeers objects (addToShortList objects f p) p)
    rw [hf, hg] at hstep
    rw [addPeers, List.foldl_cons, hf, hg]
    exact hstep

/-- Peers are offered. -/
theorem Tracks.offer (h : Tracks objects target count f log) {peers : List SPtr}
    (hpeers : ∀ p ∈ peers, p < objects.length) :
    Tracks objects target count (addPeers objects f peers)
      (log ++ (objects.ids peers).map .offered) := by
  obtain ⟨before, hsound, hids⟩ := h.sound
  have hasked : Note.askedIds (log ++ (objects.ids peers).map .offered) = Note.askedIds log := by
    rw [Note.askedIds_append, Note.askedIds_map, List.append_nil]
  have hoffered : Note.offeredIds (log ++ (objects.ids peers).map .offered) =
      Note.offeredIds log ++ objects.ids peers := by
    rw [Note.offeredIds_append, Note.offeredIds_map]
  refine ⟨⟨before ++ peers, hsound.addPeers hpeers, ?_⟩, fun id => ?_, ?_, ?_, ?_⟩
  · rw [hoffered, ← hids, Peers.ids, List.map_append]
    rfl
  · rw [addPeers_contacted, hasked]
    exact h.contacted id
  · rw [hasked]
    exact h.once
  · rw [hasked, hoffered]
    exact List.Subset.trans h.offered (List.subset_append_left _ _)
  · refine h.due.append fun o ho l => ?_
    obtain ⟨id, -, rfl⟩ := List.mem_map.mp ho
    trivial

/-- A peer of the shortlist is asked that was not asked before. -/
theorem Tracks.ask (h : Tracks objects target count f log) {p : SPtr}
    (hp : p ∈ f.shortlist.map Prod.snd) (hnew : (objects.deref p).id ∉ Note.askedIds log) :
    Tracks objects target count (sendFindQueryTo objects f p).1
      (log ++ [.find (objects.deref p).id]) := by
  obtain ⟨peers, hsound, hids⟩ := h.sound
  have hasked : Note.askedIds (log ++ [.find (objects.deref p).id]) =
      Note.askedIds log ++ [(objects.deref p).id] := Note.askedIds_append _ _
  have hoffered : Note.offeredIds (log ++ [.find (objects.deref p).id]) = Note.offeredIds log := by
    rw [Note.offeredIds_append]
    exact List.append_nil _
  refine ⟨⟨peers, hsound.contact _ _, hids.trans hoffered.symm⟩, fun id => ?_, ?_, ?_, ?_⟩
  · rw [hasked, List.mem_append, List.mem_singleton, ← h.contacted, ← hsound.requestedId]
    change _ ∈ _ :: f.contactedPeers ↔ _
    rw [List.mem_cons, or_comm]
    exact or_congr_right ⟨fun he => Distance.between_inj he, fun he => by rw [he]⟩
  · rw [hasked]
    refine List.nodup_append.mpr ⟨h.once, List.nodup_singleton _, fun a ha b hb hab => hnew ?_⟩
    rw [← List.mem_singleton.mp hb, ← hab]
    exact ha
  · rw [hasked, hoffered]
    refine List.append_subset.mpr ⟨h.offered, fun id hid => ?_⟩
    obtain ⟨x, hx, rfl⟩ := List.mem_map.mp hp
    rw [List.mem_singleton.mp hid, ← hids]
    exact List.mem_map_of_mem (hsound.shortlist.entry x hx).1
  · exact h.due.concat trivial

/-- `onFound` is called when all of the shortlist was asked. -/
theorem Tracks.done (h : Tracks objects target count f log)
    (hall : ∀ x ∈ f.shortlist, x.1 ∈ f.contactedPeers) :
    Tracks objects target count f
      (log ++ [.found (objects.ids (f.shortlist.map Prod.snd))]) := by
  obtain ⟨peers, hsound, hids⟩ := h.sound
  have hoffered : Note.offeredIds (log ++ [.found (objects.ids (f.shortlist.map Prod.snd))]) =
      Note.offeredIds log := by
    rw [Note.offeredIds_append]
    exact List.append_nil _
  have hasked : Note.askedIds (log ++ [.found (objects.ids (f.shortlist.map Prod.snd))]) =
      Note.askedIds log := by
    rw [Note.askedIds_append]
    exact List.append_nil _
  refine ⟨⟨peers, hsound, hids.trans hoffered.symm⟩, fun id => ?_, ?_, ?_, h.due.concat ⟨?_, ?_⟩⟩
  · rw [hasked]
    exact h.contacted id
  · rw [hasked]
    exact h.once
  · rw [hasked, hoffered]
    exact h.offered
  · rw [← hids]
    exact hsound.shortlist.holds.ids
  · intro id hid
    obtain ⟨p, hp, rfl⟩ := List.mem_map.mp hid
    obtain ⟨x, hx, rfl⟩ := List.mem_map.mp hp
    rw [← h.contacted, ← (hsound.shortlist.entry x hx).2]
    exact hall x hx

/-- An answer or a timeout: one more peer of the shortlist is asked, or there is none left to be
asked. -/
theorem Tracks.onResponse (h : Tracks objects target count f log) :
    Tracks objects target count (onResponse objects f).1
      (log ++ notes objects (onResponse objects f)) := by
  obtain ⟨peers, hsound, -⟩ := h.sound
  have hp := h.pending (f.pendingRequests - 1)
  unfold FinderActor.onResponse
  dsimp only
  split
  · rename_i r hr
    obtain ⟨x, hx, rfl⟩ := Option.map_eq_some_iff.mp hr
    have hmem := List.mem_of_find?_eq_some hx
    have hnew : x.1 ∉ f.contactedPeers := by simpa using List.find?_some hx
    refine hp.ask (List.mem_map_of_mem hmem) fun hasked => hnew ?_
    rw [(hsound.shortlist.entry x hmem).2]
    exact (h.contacted _).mpr hasked
  · rename_i hnone
    have hall : ∀ x ∈ f.shortlist, x.1 ∈ f.contactedPeers := fun x hx => by
      have := List.find?_eq_none.mp (Option.map_eq_none_iff.mp hnone) x hx
      simpa using this
    split
    · rw [show notes objects _ = [.found (objects.ids (f.shortlist.map Prod.snd))] by
        cases f.callback <;> simp [notes, note, FindCallback.onFound]]
      exact hp.done hall
    · rw [show notes objects _ = [] from rfl, List.append_nil]
      exact hp

/-- The queries a search starts with. -/
theorem Tracks.sendQueries (h : Tracks objects target count f log) {peers : List SPtr}
    (hpeers : peers ⊆ f.shortlist.map Prod.snd) (honce : (objects.ids peers).Nodup)
    (hnew : ∀ id ∈ objects.ids peers, id ∉ Note.askedIds log) :
    Tracks objects target count (sendQueries objects f peers).1
      (log ++ notes objects (sendQueries objects f peers)) := by
  induction peers generalizing f log with
  | nil =>
    rw [show notes objects (FinderActor.sendQueries objects f []) = [] from rfl, List.append_nil]
    exact h
  | cons p peers ih =>
    obtain ⟨hp, honce⟩ := List.nodup_cons.mp honce
    have hask := h.ask (hpeers (List.mem_cons_self ..)) (hnew _ (List.mem_cons_self ..))
    have hrest := ih hask (fun q hq => hpeers (.tail _ hq)) honce fun id hid hasked => by
      rw [Note.askedIds_append, List.mem_append] at hasked
      rcases hasked with hasked | hasked
      · exact hnew id (.tail _ hid) hasked
      · have he : id = (objects.deref p).id := List.mem_singleton.mp hasked
        rw [he] at hid
        exact hp hid
    rw [List.append_assoc] at hrest
    exact hrest

end FinderActor

namespace Search
open FinderActor (notes Tracks)

/-- What the finder does when something happens. -/
def acts (s : Search) : Event → FinderActor × List Action
  | .start nearest => s.finder.start s.objects nearest
  | .answer answer => s.finder.onNewAnswer s.objects answer
  | .answerTimeout => s.finder.onAnswerTimeout s.objects
  | .timeout => s.finder.timeout
  | .seen _ _ _ | .read _ => (s.finder, [])

theorem handle_finder (s : Search) (e : Event) : (s.handle e).finder = (s.acts e).1 := by
  cases e <;> rfl

/-- The search again, with a log of what is offered to it and what it does. -/
def queries : Lib.Machine Search Event Note where
  step s e :=
    some (s.handle e, (s.objects.ids e.offered).map .offered ++ notes s.objects (s.acts e))

def Event.isStart : Event → Bool
  | .start _ => true
  | _ => false

/-- The pointers that are offered are those of peers, and a search starts before all else. -/
def Begins (s : Search) (log : List Note) (e : Event) : Prop :=
  (∀ p ∈ e.offered, p < s.objects.length) ∧ (e.isStart → log = [])

instance (s : Search) (log : List Note) (e : Event) : Decidable (Begins s log e) :=
  inferInstanceAs (Decidable (_ ∧ _))

/-- The peers of an answer are offered first, if there are any. -/
theorem onNewAnswer_eq (objects : Peers) (f : FinderActor) (answer : Answer) :
    f.onNewAnswer objects answer =
      FinderActor.onResponse objects (FinderActor.addPeers objects f answer.offered) := by
  cases answer with
  | found connectionId status n foundPeers =>
    unfold FinderActor.onNewAnswer Answer.offered
    dsimp only
    split <;> rfl
  | _ => rfl

variable {target : Id} {count : Nat} {s : Search} {log : List Note}

theorem Tracks.handle (h : Tracks s.objects target count s.finder log) {e : Event}
    (he : Begins s log e) :
    Tracks (s.handle e).objects target count (s.handle e).finder
      (log ++ ((s.objects.ids e.offered).map .offered ++ notes s.objects (s.acts e))) := by
  rw [← List.append_assoc]
  cases e with
  | seen peerId n2npId now =>
    simp only [Event.offered, acts, notes, Peers.ids, List.map_nil, List.filterMap_nil,
      List.append_nil]
    exact h.later (s.kbucket.seenPeer_later s.objects peerId n2npId now)
  | read foundPeers =>
    simp only [Event.offered, acts, notes, Peers.ids, List.map_nil, List.filterMap_nil,
      List.append_nil]
    exact h.later (.append _ _)
  | start nearest =>
    obtain rfl := he.2 rfl
    have hoffer := h.offer he.1
    obtain ⟨peers, hsound, -⟩ := hoffer.sound
    refine hoffer.sendQueries (List.Subset.refl _) hsound.shortlist.holds.nodup fun id _ hid => ?_
    rw [List.nil_append, Note.askedIds_map] at hid
    cases hid
  | answer answer =>
    have hpeers : ∀ p ∈ answer.offered, p < s.objects.length := he.1
    have hoffer := h.offer hpeers
    rw [handle_finder]
    simp only [acts, Event.offered, onNewAnswer_eq]
    exact hoffer.onResponse
  | answerTimeout =>
    simp only [Event.offered, Peers.ids, List.map_nil, List.append_nil]
    exact h.onResponse
  | timeout =>
    have hnone : notes s.objects (s.acts .timeout) = [] := by
      unfold acts FinderActor.timeout notes
      cases s.finder.callback <;> rfl
    rw [hnone]
    simp only [Event.offered, Peers.ids, List.map_nil, List.append_nil]
    exact h

/-- However its answers and timeouts come, a search sends no id a second FIND, so there are no more
FINDs than ids that were offered to it; and when it calls `onFound`, all of its shortlist, which are
the nearest of these ids, was sent one. -/
theorem run_asks_once {target : Id} {count : Int} {kbucket : KBucket} {objects : Peers}
    {cb : FindCallback} {s : Search} {log : List Note}
    (run : queries.Run Begins ⟨kbucket, objects, .new target count cb⟩ s log) :
    (Note.askedIds log).Nodup ∧
    (Note.askedIds log).length ≤ (Note.offeredIds log).toFinset.card ∧
    ∀ l₁ shortlist l₂, log = l₁ ++ .found shortlist :: l₂ →
      NearestIds target 3 (Note.offeredIds l₁) shortlist ∧
        ∀ id ∈ shortlist, id ∈ Note.askedIds l₁ := by
  have h : Tracks s.objects target (toU64 count) s.finder log := by
    refine run.invariant (P := fun s log => Tracks s.objects target (toU64 count) s.finder log)
      (.new objects target count cb) ?_
    intro s log e s' out h he taken
    cases taken
    exact Tracks.handle h he
  refine ⟨h.once, ?_, fun l₁ shortlist l₂ hlog => h.due l₁ _ l₂ hlog⟩
  rw [← List.toFinset_card_of_nodup h.once]
  exact Finset.card_le_card fun id hid =>
    List.mem_toFinset.mpr (h.offered (List.mem_toFinset.mp hid))

/-- A search starts with one peer, which answers with another one and with itself. -/
theorem run_asks_once_two :
    let objects : Peers := [4, 3].map fun k => ⟨Peer.numbered k, 0⟩
    let p := (Peer.numbered 4).id
    let q := (Peer.numbered 3).id
    let log : List Note :=
      [.offered p, .find p, .offered q, .offered p, .find q, .found [p, q]]
    ∃ s, queries.Run Begins ⟨.new .zero, objects, .new .zero 1 .user⟩ s log ∧
      (Note.askedIds log).Nodup ∧
      (Note.askedIds log).length ≤ (Note.offeredIds log).toFinset.card ∧
      ∀ id ∈ [p, q], id ∈ Note.askedIds (log.take 5) := by
  intro objects p q log
  have h : (queries.exec (fun s log e => decide (Begins s log e))
      (⟨.new .zero, objects, .new .zero 1 .user⟩, [])
      [.start [0], .answer (.found 0 0 2 [1, 0]), .answerTimeout]).map Prod.snd = some log := by
    decide +kernel
  obtain ⟨⟨s, log'⟩, hrun, rfl⟩ := Option.map_eq_some_iff.mp h
  have run := (Machine.Run.exec .start hrun).of_decide
  obtain ⟨honce, hcard, hfound⟩ := run_asks_once run
  exact ⟨s, run, honce, hcard, (hfound _ [p, q] [] rfl).2⟩

end Search
end Epyx.DHT
