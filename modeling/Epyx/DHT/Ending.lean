import Epyx.DHT.Callbacks
import Epyx.DHT.Requests

/-! The operations a user starts: each is over, with one callback that says how, or its timer is set
and ends it. -/
namespace Epyx.DHT
open Lib
open Std (ExtTreeMap)

/-- The actor works for a user. -/
def Role.ForUser : Role → Prop
  | .finder f => f.callback = .user
  | .getter _ => True
  | .setter s => ∃ edit, s.callback = .user edit

/-- A handler of an actor that works for a user: it goes on doing so, and calls the user back before
it kills itself. -/
structure Role.Reports (s : Role × List Action) : Prop where
  forUser : s.1.ForUser
  kill : .kill ∈ s.2 → ∃ cb, .call cb ∈ s.2 ∧ cb.terminal

/-- A handler that does nothing. -/
theorem Role.ForUser.idle {r : Role} (h : r.ForUser) : Role.Reports (r, []) :=
  ⟨h, fun hkill => absurd hkill List.not_mem_nil⟩

namespace FinderActor
variable {f : FinderActor}

theorem onResponse_reports (objects : Peers) (h : f.callback = .user) :
    Role.Reports ((onResponse objects f).map .finder id) := by
  unfold onResponse
  dsimp only
  split
  · rename_i r hr
    obtain ⟨x, -, rfl⟩ := Option.map_eq_some_iff.mp hr
    exact ⟨h, fun hkill => by simp [sendFindQueryTo] at hkill⟩
  · split
    · exact ⟨h, fun _ => ⟨.onFound (f.foundPeers.map Prod.snd), by simp [h, FindCallback.onFound],
        rfl⟩⟩
    · exact Role.ForUser.idle (r := .finder _) h

/-- Only the two lists change when peers are offered. -/
theorem addPeers_frame (objects : Peers) (f : FinderActor) (peers : List SPtr) :
    ∃ short found, addPeers objects f peers =
      { f with shortlist := short, foundPeers := found } := by
  induction peers generalizing f with
  | nil => exact ⟨_, _, rfl⟩
  | cons p peers ih =>
    obtain ⟨short, hf⟩ := addToShortList_frame objects f p
    obtain ⟨found, hg⟩ := addToFoundPeers_frame objects { f with shortlist := short } p
    obtain ⟨short', found', heq⟩ := ih (addToFoundPeers objects (addToShortList objects f p) p)
    rw [addPeers, List.foldl_cons]
    rw [addPeers] at heq
    rw [heq, hf, hg]
    exact ⟨short', found', rfl⟩

theorem addPeers_callback (objects : Peers) (f : FinderActor) (peers : List SPtr) :
    (addPeers objects f peers).callback = f.callback := by
  obtain ⟨short, found, heq⟩ := addPeers_frame objects f peers
  rw [heq]

theorem sendQueries_callback (objects : Peers) (f : FinderActor) (peers : List SPtr) :
    (sendQueries objects f peers).1.callback = f.callback ∧
      .kill ∉ (sendQueries objects f peers).2 := by
  induction peers generalizing f with
  | nil => exact ⟨rfl, nofun⟩
  | cons p peers ih =>
    obtain ⟨hcallback, hkill⟩ := ih (sendFindQueryTo objects f p).1
    refine ⟨hcallback, fun h => ?_⟩
    rcases List.mem_append.mp h with h | h
    · simp [sendFindQueryTo] at h
    · exact hkill h

end FinderActor

namespace GetterActor

theorem onGetResponse_reports (g : GetterActor) :
    Role.Reports (g.onGetResponse.map .getter id) := by
  unfold onGetResponse
  dsimp only
  split
  · exact ⟨trivial, fun _ => ⟨.onGetError, by simp [timeout], rfl⟩⟩
  · exact Role.ForUser.idle (r := .getter _) trivial

theorem onNewAnswer_reports (g : GetterActor) (answer : Answer) :
    Role.Reports ((g.onNewAnswer answer).map .getter id) := by
  cases answer with
  | got connectionId status value =>
    rw [onNewAnswer]
    split
    · exact ⟨trivial, fun _ => ⟨.onGot g.key value, by simp, rfl⟩⟩
    · exact onGetResponse_reports g
  | _ => exact onGetResponse_reports g

end GetterActor

namespace SetterActor
variable {s : SetterActor}

theorem timeout_reports (h : ∃ edit, s.callback = .user edit) :
    Role.Reports (s.timeout.map .setter id) := by
  obtain ⟨edit, hedit⟩ := h
  exact ⟨⟨edit, hedit⟩, fun _ => ⟨.onSetError, by simp [timeout, hedit, SetCallback.onError], rfl⟩⟩

theorem onSetReceive_reports (h : ∃ edit, s.callback = .user edit) :
    Role.Reports (s.onSetReceive.map .setter id) := by
  unfold onSetReceive
  dsimp only
  split
  · split
    · obtain ⟨edit, hedit⟩ := h
      exact ⟨⟨edit, hedit⟩, fun _ => ⟨.onSet, by simp [hedit, SetCallback.onSet], rfl⟩⟩
    · exact timeout_reports h
  · exact Role.ForUser.idle (r := .setter _) h

theorem onNewAnswer_reports (h : ∃ edit, s.callback = .user edit) (answer : Answer) :
    Role.Reports ((s.onNewAnswer answer).map .setter id) := by
  cases answer with
  | stored connectionId status =>
    rw [onNewAnswer]
    split
    · exact onSetReceive_reports h
    · exact onSetReceive_reports h
  | _ => exact onSetReceive_reports h

theorem treatFindSuccess_reports (objects : Peers) (self : Id) (peers : List SPtr)
    (h : ∃ edit, s.callback = .user edit) :
    Role.Reports ((s.treatFindSuccess objects self peers).map .setter id) := by
  obtain ⟨edit, hedit⟩ := h
  refine ⟨⟨edit, ?_⟩, fun hkill => ?_⟩
  · show (s.callback.onFoundPeers objects self peers).1 = _
    rw [hedit]
    rfl
  · change _ ∈ (s.callback.onFoundPeers objects self peers).2.2 ++ _ at hkill
    rw [hedit] at hkill
    simp [SetCallback.onFoundPeers, ask] at hkill

end SetterActor

namespace Role
variable {r : Role}

theorem ForUser.onNewAnswer (h : r.ForUser) (objects : Peers) (answer : Answer) :
    Reports (r.onNewAnswer objects answer) := by
  cases r with
  | finder f =>
    show Reports ((f.onNewAnswer objects answer).map .finder id)
    rw [Search.onNewAnswer_eq]
    exact FinderActor.onResponse_reports objects ((FinderActor.addPeers_callback ..).trans h)
  | getter g => exact g.onNewAnswer_reports answer
  | setter s => exact SetterActor.onNewAnswer_reports h answer

theorem ForUser.onAnswerTimeout (h : r.ForUser) (objects : Peers) :
    Reports (r.onAnswerTimeout objects) := by
  cases r with
  | finder f => exact FinderActor.onResponse_reports objects h
  | getter g => exact g.onGetResponse_reports
  | setter s => exact SetterActor.onSetReceive_reports h

theorem ForUser.treat (h : r.ForUser) (objects : Peers) (self : Id) (message : ProcessMessage) :
    Reports (r.treat objects self message) := by
  cases r with
  | finder f =>
    cases message with
    | timeout =>
      have hcallback : f.callback = .user := h
      refine ⟨h, fun _ => ⟨.onFindError, ?_, rfl⟩⟩
      show _ ∈ f.timeout.2
      simp [FinderActor.timeout, hcallback, FindCallback.onError]
    | _ => exact h.idle
  | getter g =>
    cases message with
    | timeout | findFailure => exact ⟨trivial, fun _ => ⟨.onGetError, .head _, rfl⟩⟩
    | findSuccess peers =>
      refine ⟨trivial, fun hkill => ?_⟩
      obtain ⟨p, -, hp⟩ := List.mem_map.mp hkill
      cases hp
    | _ => exact h.idle
  | setter s =>
    cases message with
    | timeout | findFailure => exact SetterActor.timeout_reports h
    | findSuccess peers => exact SetterActor.treatFindSuccess_reports objects self peers h
    | _ => exact h.idle

/-- The timer of an actor ends it. -/
theorem treat_timeout_kill (r : Role) (objects : Peers) (self : Id) :
    .kill ∈ (r.treat objects self .timeout).2 := by
  cases r with
  | finder f => exact .tail _ (.head _)
  | getter g => exact .tail _ (.head _)
  | setter s => exact List.mem_append_right _ (.head _)

end Role

namespace InternalNode
variable {n n' : InternalNode} {a : ActorId}

/-- A handler changes the entry of its own actor, which lives on unless it kills itself. -/
theorem run_actor (n : InternalNode) (a : ActorId) (p : ProcessActor) (r : Role × List Action) :
    ∃ q, (n.run a p r).actors = n.actors.insert a q ∧ q.role = r.1 ∧
      (.kill ∉ r.2 → q.alive = p.alive) := by
  have hfold : ∀ (xs : List Action) (s : InternalNode × ProcessActor),
      (xs.foldl (perform a) s).1.actors = s.1.actors ∧
        (xs.foldl (perform a) s).2.role = s.2.role ∧
        (.kill ∉ xs → (xs.foldl (perform a) s).2.alive = s.2.alive) := by
    intro xs
    induction xs with
    | nil => exact fun s => ⟨rfl, rfl, fun _ => rfl⟩
    | cons x xs ih =>
      intro s
      obtain ⟨hactors, hrole, halive⟩ := ih (perform a s x)
      rw [List.foldl_cons]
      refine ⟨hactors.trans ?_, hrole.trans ?_, fun hkill => ?_⟩
      · cases x <;> rfl
      · cases x <;> rfl
      · obtain ⟨hx, hxs⟩ := not_or.mp (mt List.mem_cons.mpr hkill)
        refine (halive hxs).trans ?_
        cases x with
        | kill => exact absurd rfl hx
        | _ => rfl
  obtain ⟨hactors, hrole, halive⟩ := hfold r.2 (n, { p with role := r.1 })
  exact ⟨_, by rw [run, hactors], hrole, halive⟩

/-- The mail of the actors grows. -/
structure Grows (n n' : InternalNode) : Prop where
  messages : n.messages ⊆ n'.messages
  timeouts : n.timeouts ⊆ n'.timeouts

theorem Plain.grows (h : Plain n n') : Grows n n' := by
  obtain ⟨ms, hms, -⟩ := h.messages
  obtain ⟨ts, hts, -⟩ := h.timeouts
  refine ⟨?_, ?_⟩
  · rw [hms]
    exact List.subset_append_left _ _
  · rw [hts]
    exact List.subset_append_left _ _

theorem treat_grows {keyId : Id} {m : Message} (h : n.treat keyId m = some n') : Grows n n' := by
  cases hr : m.request with
  | none => exact (treat_plain hr h).grows
  | some r =>
    have hserved := treat_served hr h
    obtain ⟨ms, hms, -⟩ := hserved.messages
    refine ⟨?_, ?_⟩
    · rw [hms]
      exact List.subset_append_left _ _
    · rw [hserved.timeouts]
      exact List.Subset.refl _

/-- The user has been told how the operation ended. -/
def Told (a : ActorId) (log : List Output) : Prop := ∃ cb ∈ callsOf a log, cb.terminal

/-- The actor is alive, works for a user, and its timer is set or in the mail. -/
structure Going (n : InternalNode) (a : ActorId) : Prop where
  actor : ∃ p, n.actors[a]? = some p ∧ p.alive ∧ p.role.ForUser
  timer : .process a .timeout ∈ n.timeouts ∨ .process a .timeout ∈ n.messages

theorem Going.grow (h : Going n a) (hgrows : Grows n n')
    (hactor : n'.actors[a]? = n.actors[a]?) : Going n' a := by
  refine ⟨?_, h.timer.imp (fun ht => hgrows.timeouts ht) fun ht => hgrows.messages ht⟩
  rw [hactor]
  exact h.actor

/-- A handler of the actor: it goes on, or it tells its user. -/
theorem run_reports {p : ProcessActor} (hp : p.alive) {r : Role × List Action}
    (hr : Role.Reports r)
    (htimer : .kill ∉ r.2 → .process a .timeout ∈ (n.run a p r).timeouts ∨
      .process a .timeout ∈ (n.run a p r).messages) :
    Going (n.run a p r) a ∨ Told a (n.run a p r).out := by
  obtain ⟨q, hactors, hrole, halive⟩ := n.run_actor a p r
  by_cases hkill : .kill ∈ r.2
  · obtain ⟨cb, hcb, hterminal⟩ := hr.kill hkill
    refine .inr ⟨cb, ?_, hterminal⟩
    rw [run_calls, if_pos rfl]
    exact List.mem_append_right _ (List.mem_filterMap.mpr ⟨_, hcb, rfl⟩)
  · refine .inl ⟨⟨q, ?_, ?_, ?_⟩, htimer hkill⟩
    · rw [hactors, ExtTreeMap.getElem?_insert_self]
    · rw [halive hkill]
      exact hp
    · rw [hrole]
      exact hr.forUser

/-- A message for the actor is handled; the timer is the last one. -/
theorem treatProcess_reports {p : ProcessActor} (hactor : n.actors[a]? = some p) (hp : p.alive)
    (hrole : p.role.ForUser) {m : ProcessMessage}
    (htimer : m ≠ .timeout → .process a .timeout ∈ n.timeouts ∨ .process a .timeout ∈ n.messages) :
    Going (n.treatProcess a m) a ∨ Told a (n.treatProcess a m).out := by
  have hgrows := (treatProcess_plain n a m).grows
  have hlater : m ≠ .timeout → .process a .timeout ∈ (n.treatProcess a m).timeouts ∨
      .process a .timeout ∈ (n.treatProcess a m).messages := fun hm =>
    (htimer hm).imp (fun ht => hgrows.timeouts ht) fun ht => hgrows.messages ht
  have hstay : m ≠ .timeout → Going n a := fun hm => ⟨⟨p, hactor, hp, hrole⟩, htimer hm⟩
  unfold treatProcess at hlater ⊢
  simp only [hactor, hp, if_true] at hlater ⊢
  cases m with
  | receive peer answer =>
    simp only [treatReceive] at hlater ⊢
    split
    · rename_i hc
      rw [if_pos hc] at hlater
      exact run_reports (p := ⟨p.alive, p.queries.insert _ false, p.role⟩) hp
        (hrole.onNewAnswer _ _) fun _ => hlater nofun
    · exact .inl (hstay nofun)
  | processTimeout pNumber =>
    simp only [treatTimeout] at hlater ⊢
    split
    · rename_i hc
      rw [if_pos hc] at hlater
      exact run_reports (p := ⟨p.alive, p.queries.insert _ false, p.role⟩) hp
        (hrole.onAnswerTimeout _) fun _ => hlater nofun
    · exact .inl (hstay nofun)
  | timeout =>
    exact run_reports hp (hrole.treat _ _ _) fun hkill =>
      absurd (p.role.treat_timeout_kill _ _) hkill
  | findSuccess peers => exact run_reports hp (hrole.treat _ _ _) fun _ => hlater nofun
  | findFailure => exact run_reports hp (hrole.treat _ _ _) fun _ => hlater nofun
  | empty => exact run_reports hp (hrole.treat _ _ _) fun _ => hlater nofun

/-- The timer has the user told. -/
theorem timeout_told {p : ProcessActor} (hactor : n.actors[a]? = some p) (hp : p.alive)
    (hrole : p.role.ForUser) : Told a (n.treatProcess a .timeout).out := by
  obtain ⟨cb, hcb, hterminal⟩ :=
    (hrole.treat n.objects n.id .timeout).kill (p.role.treat_timeout_kill _ _)
  refine ⟨cb, ?_, hterminal⟩
  simp only [treatProcess, hactor, hp, if_true]
  rw [run_calls, if_pos rfl]
  exact List.mem_append_right _ (List.mem_filterMap.mpr ⟨_, hcb, rfl⟩)

/-- What happens to the other actors leaves an actor as it is. -/
theorem treatProcess_other {b : ActorId} (hb : b ≠ a) (m : ProcessMessage) :
    (n.treatProcess b m).actors[a]? = n.actors[a]? := by
  have hrun : ∀ (n' : InternalNode) (p : ProcessActor) (r : Role × List Action),
      n'.actors = n.actors → (n'.run b p r).actors[a]? = n.actors[a]? := fun n' p r hn' => by
    obtain ⟨q, hactors, -⟩ := n'.run_actor b p r
    rw [hactors, hn', Std.ExtTreeMap.getElem?_insert]
    simp [hb]
  unfold treatProcess
  split
  · rfl
  · rename_i p hp
    split
    · cases m with
      | receive peer answer =>
        dsimp only
        unfold treatReceive
        dsimp only
        split
        · exact hrun _ _ _ rfl
        · rfl
      | processTimeout pNumber =>
        dsimp only
        unfold treatTimeout
        split
        · exact hrun _ _ _ rfl
        · rfl
      | _ => exact hrun _ _ _ rfl
    · obtain ⟨r, hr⟩ := foldl_unregister p.queries.keys n
      rw [destroy, hr, Std.ExtTreeMap.getElem?_erase]
      simp [hb]

theorem add_other (ha : a < n.actorCount) (role : Role) :
    (n.add role).actors[a]? = n.actors[a]? := by
  show (n.actors.insert n.actorCount _)[a]? = _
  rw [Std.ExtTreeMap.getElem?_insert]
  simp [Nat.ne_of_gt ha]

theorem findClosest_other (ha : a < n.actorCount) {cb : FindCallback} {count : Int} {idToFind : Id}
    (h : n.findClosest cb count idToFind = some n') : n'.actors[a]? = n.actors[a]? := by
  obtain ⟨nearest, -, rfl⟩ := Option.map_eq_some_iff.mp h
  dsimp only
  obtain ⟨q, hactors, -⟩ := (n.add (.finder (.new idToFind count cb))).run_actor n.actorCount
    ⟨true, ∅, .finder (.new idToFind count cb)⟩
    (.finder ((FinderActor.new idToFind count cb).start n.objects nearest).1,
      ((FinderActor.new idToFind count cb).start n.objects nearest).2)
  rw [hactors, Std.ExtTreeMap.getElem?_insert, add_other ha]
  simp [Nat.ne_of_gt ha]

theorem treat_other (ha : a < n.actorCount) {keyId : Id} {m : Message}
    (hm : ∀ pm, m ≠ .process a pm) (h : n.treat keyId m = some n') :
    n'.actors[a]? = n.actors[a]? := by
  cases m with
  | ping sender => cases h; rfl
  | get sender connectionId key =>
    cases h
    unfold treatGet
    split <;> rfl
  | store sender connectionId key value =>
    cases h
    obtain ⟨ms, hstore, -⟩ := n.treatStore_eq sender connectionId key value
    rw [hstore]
  | find sender connectionId count idToFind =>
    obtain ⟨nearest, -, rfl⟩ := Option.map_eq_some_iff.mp h
    rfl
  | newKey key => cases h; rfl
  | replicate key =>
    simp only [InternalNode.treat, treatReplicate] at h
    split at h
    · exact (findClosest_other (Nat.lt_succ_of_lt ha) h).trans (add_other ha _)
    · cases h; rfl
  | process b pm =>
    cases h
    exact treatProcess_other (fun hb => hm pm (by rw [hb])) pm

/-- An actor that works for a user goes on, or tells its user. -/
theorem Going.handle (h : Going n a) (hplaced : Placed n) {e : Event}
    (hn : n.handle e = some n') : Going n' a ∨ Told a n'.out := by
  obtain ⟨p, hp, halive, huser⟩ := h.actor
  have ha := hplaced a p hp
  cases e with
  | receive pkt senderId now =>
    cases hn
    obtain ⟨ms, hms, -⟩ := n.processPacket_messages pkt senderId now
    have haside := processPacket_aside n pkt senderId now
    refine .inl (h.grow ⟨?_, ?_⟩ (by rw [haside.actors]))
    · rw [hms]
      exact List.subset_append_left _ _
    · rw [(n.processPacket_storage pkt senderId now).2.2]
      exact List.Subset.refl _
  | work k keyId =>
    obtain ⟨m, hm, hn⟩ := Option.bind_eq_some_iff.mp hn
    -- every message but the one that is taken stays
    have hstay : m ≠ .process a .timeout → .process a .timeout ∈ n.timeouts ∨
        .process a .timeout ∈ n.messages.eraseIdx k := fun hne => by
      refine h.timer.imp_right fun ht => ?_
      rw [List.mem_eraseIdx_iff_getElem?]
      obtain ⟨j, hj⟩ := List.mem_iff_getElem?.mp ht
      refine ⟨j, fun hjk => hne ?_, hj⟩
      rw [hjk, hm] at hj
      exact Option.some.inj hj
    by_cases hpm : ∃ pm, m = .process a pm
    · obtain ⟨pm, rfl⟩ := hpm
      cases hn
      refine treatProcess_reports (n := { n with messages := n.messages.eraseIdx k }) hp halive
        huser fun hne => hstay fun he => hne ?_
      exact (Message.process.inj he).2
    · have hother := treat_other (n := { n with messages := n.messages.eraseIdx k }) ha
        (fun pm he => hpm ⟨pm, he⟩) hn
      have htaken : Going { n with messages := n.messages.eraseIdx k } a :=
        ⟨⟨p, hp, halive, huser⟩, hstay fun he => hpm ⟨_, he⟩⟩
      exact .inl (htaken.grow (treat_grows hn) hother)
  | expire k =>
    obtain ⟨m, hm, rfl⟩ := Option.map_eq_some_iff.mp hn
    refine .inl ⟨⟨p, hp, halive, huser⟩, ?_⟩
    by_cases hme : m = .process a .timeout
    · exact .inr (List.mem_append_right _ (by simp [hme]))
    · refine h.timer.imp (fun ht => ?_) fun ht => List.mem_append_left _ ht
      show _ ∈ n.timeouts.eraseIdx k
      rw [List.mem_eraseIdx_iff_getElem?]
      obtain ⟨j, hj⟩ := List.mem_iff_getElem?.mp ht
      refine ⟨j, fun hjk => hme ?_, hj⟩
      rw [hjk, hm] at hj
      exact Option.some.inj hj
  | sendPing dest => cases hn; exact .inl (h.grow ⟨List.Subset.refl _, List.Subset.refl _⟩ rfl)
  | findClosest count idToFind =>
    exact .inl (h.grow (findClosest_plain hn).grows (findClosest_other ha hn))
  | getValue key keyId =>
    have hplain := (add_plain n _).trans (findClosest_plain hn)
    exact .inl (h.grow hplain.grows
      ((findClosest_other (Nat.lt_succ_of_lt ha) hn).trans (add_other ha _)))
  | setValue key value keyId edit =>
    have hplain := (add_plain n _).trans (findClosest_plain hn)
    exact .inl (h.grow hplain.grows
      ((findClosest_other (Nat.lt_succ_of_lt ha) hn).trans (add_other ha _)))

/-- A user starts an operation. -/
def Event.operation : Event → Bool
  | .findClosest _ _ | .getValue _ _ | .setValue _ _ _ _ => true
  | _ => false

theorem Going.add {role : Role} (h : role.ForUser) (n : InternalNode) :
    Going (n.add role) n.actorCount := by
  refine ⟨⟨⟨true, ∅, role⟩, ?_, rfl, h⟩, .inl (List.mem_append_right _ (.head _))⟩
  show (n.actors.insert n.actorCount _)[n.actorCount]? = _
  rw [ExtTreeMap.getElem?_insert_self]

theorem findClosest_grows {cb : FindCallback} {count : Int} {idToFind : Id}
    (h : n.findClosest cb count idToFind = some n') :
    Grows (n.add (.finder (.new idToFind count cb))) n' := by
  obtain ⟨nearest, -, rfl⟩ := Option.map_eq_some_iff.mp h
  exact ((Plain.refl _).run _ _ (FinderActor.start_fits n.objects _ nearest)).grows

theorem Going.start {e : Event} (he : e.operation) (hn : n.handle e = some n') :
    Going n' n.actorCount := by
  have hspawn : ∀ {role : Role}, role.ForUser → ∀ {cb : FindCallback} {count : Int} {idToFind : Id},
      (n.add role).findClosest cb count idToFind = some n' → Going n' n.actorCount :=
    fun hrole _ _ _ hn => (Going.add hrole n).grow (findClosest_plain hn).grows
      (findClosest_other (Nat.lt_succ_self _) hn)
  cases e with
  | findClosest count idToFind =>
    have huser : (Role.finder (.new idToFind count .user)).ForUser := rfl
    have htimer := (Going.add huser n).timer
    have hgrows := findClosest_grows hn
    obtain ⟨nearest, -, rfl⟩ := Option.map_eq_some_iff.mp hn
    obtain ⟨hcallback, hkill⟩ := FinderActor.sendQueries_callback n.objects
      (FinderActor.addPeers n.objects (.new idToFind count .user) nearest)
      ((FinderActor.addPeers n.objects (.new idToFind count .user) nearest).shortlist.map Prod.snd)
    obtain ⟨q, hactors, hrole, halive⟩ := (n.add (.finder (.new idToFind count .user))).run_actor
      n.actorCount ⟨true, ∅, .finder (.new idToFind count .user)⟩
      (.finder ((FinderActor.new idToFind count .user).start n.objects nearest).1,
        ((FinderActor.new idToFind count .user).start n.objects nearest).2)
    refine ⟨⟨q, ?_, halive hkill, ?_⟩, ?_⟩
    · dsimp only
      rw [hactors, ExtTreeMap.getElem?_insert_self]
    · rw [hrole]
      exact hcallback.trans (FinderActor.addPeers_callback ..)
    · exact htimer.imp (fun ht => hgrows.timeouts ht) fun ht => hgrows.messages ht
  | getValue key keyId =>
    have huser : (Role.getter (.new key)).ForUser := trivial
    exact hspawn huser hn
  | setValue key value keyId edit =>
    have huser : (Role.setter (.new key value (.user edit))).ForUser := ⟨edit, rfl⟩
    exact hspawn huser hn
  | _ => cases he

theorem told_append {log out : List Output} (h : Told a log ∨ Told a out) : Told a (log ++ out) := by
  unfold Told
  rw [callsOf_append]
  rcases h with ⟨cb, hcb, hterminal⟩ | ⟨cb, hcb, hterminal⟩
  · exact ⟨cb, List.mem_append_left _ hcb, hterminal⟩
  · exact ⟨cb, List.mem_append_right _ hcb, hterminal⟩

/-- In every run an operation that has been started goes on, or its user has been told. -/
theorem Going.run {ok : InternalNode → List Output → Event → Prop} {log : List Output}
    (h : Going n a) (hplaced : Placed n) (hout : n.out = [])
    (run : machine.Run ok n n' log) : Going n' a ∨ Told a log := by
  have hall : (Placed n' ∧ n'.out = []) ∧ (Going n' a ∨ Told a log) := by
    refine run.invariant (P := fun n' log => (Placed n' ∧ n'.out = []) ∧ (Going n' a ∨ Told a log))
      ⟨⟨hplaced, hout⟩, .inl h⟩ ?_
    intro s log e s' out hs _ taken
    obtain ⟨⟨hplaced, hout⟩, hs⟩ := hs
    obtain ⟨n₁, hn₁, heq⟩ := Option.map_eq_some_iff.mp taken
    cases heq
    have hplaced₁ : Placed n₁ := handle_placed hplaced hn₁
    refine ⟨⟨hplaced₁, rfl⟩, ?_⟩
    rcases hs with hs | hs
    · exact (hs.handle hplaced hn₁).imp (fun h => ⟨h.actor, h.timer⟩) fun h => told_append (.inr h)
    · exact .inr (told_append (.inl hs))
  exact hall.2

/-- A run in which a worker takes the message `m`. -/
def Taking (m : Message) (ok : InternalNode → List Output → Event → Prop) (n n' : InternalNode)
    (log : List Output) : Prop :=
  ∃ s log₁ k keyId s' out log₂, machine.Run ok n s log₁ ∧ s.messages[k]? = some m ∧
    machine.step s (.work k keyId) = some (s', out) ∧ machine.Run ok s' n' log₂ ∧
    log = log₁ ++ out ++ log₂

theorem Taking.run {m : Message} {ok : InternalNode → List Output → Event → Prop}
    {log : List Output} (h : Taking m ok n n' log) :
    machine.Run (fun _ _ _ => True) n n' log := by
  obtain ⟨s, log₁, k, keyId, s', out, log₂, run₁, -, hstep, run₂, rfl⟩ := h
  exact (run₁.free.step trivial hstep).append run₂

/-- Whenever the timer of an operation is taken, the user has been told. -/
theorem Going.taking {ok : InternalNode → List Output → Event → Prop} {log : List Output}
    (h : Going n a) (hplaced : Placed n) (hout : n.out = [])
    (taking : Taking (.process a .timeout) ok n n' log) : Told a log := by
  obtain ⟨s, log₁, k, keyId, s', out, log₂, run₁, hk, hstep, -, rfl⟩ := taking
  rcases h.run hplaced hout run₁ with hgoing | htold
  · obtain ⟨p, hp, halive, huser⟩ := hgoing.actor
    simp only [machine, InternalNode.handle, hk, Option.bind_some, InternalNode.treat,
      Option.map_some, Option.some.injEq, Prod.mk.injEq] at hstep
    have htold : Told a out := hstep.2 ▸
      timeout_told (n := { s with messages := s.messages.eraseIdx k }) hp halive huser
    exact told_append (.inl (told_append (.inr htold)))
  · exact told_append (.inl (told_append (.inl htold)))

theorem ended_of_run {id : Id} {n2npId : N2NP.NodeId} {start : Int64}
    {ok : InternalNode → List Output → Event → Prop} {log : List Output}
    (run : machine.Run ok (.new id n2npId start) n log) : Ended log n := by
  refine run_parts (P := Ended) (fun _ _ _ h hp => h.part hp) (fun log n h => ?_) [] ?_ run
  · exact ⟨h.placed, fun a => by simpa using h.last a, fun a p => by simpa using h.live a p,
      fun a => by simpa using h.unmade a⟩
  · exact ⟨placed_new _ _ _, nofun, nofun, nofun⟩

/-- Who has been told has been told once. -/
theorem told_once {id : Id} {n2npId : N2NP.NodeId} {start : Int64}
    {ok : InternalNode → List Output → Event → Prop} {log : List Output}
    (run : machine.Run ok (.new id n2npId start) n log) (htold : Told a log) :
    (callsOf a log).countP Callback.terminal = 1 := by
  have hlast := (ended_of_run run).last a
  rw [run_out rfl run, List.append_nil] at hlast
  obtain ⟨cb, hcb, hterminal⟩ := htold
  rcases List.eq_nil_or_concat (callsOf a log) with hnil | ⟨xs, x, hxs⟩
  · rw [hnil] at hcb
    cases hcb
  · rw [hxs, List.concat_eq_append] at hcb hlast ⊢
    rw [List.dropLast_concat] at hlast
    have hzero : xs.countP Callback.terminal = 0 :=
      List.countP_eq_zero.mpr fun y hy => by simp [hlast y hy]
    have hx : cb = x := by
      rcases List.mem_append.mp hcb with hcb | hcb
      · rw [hlast cb hcb] at hterminal
        cases hterminal
      · exact List.mem_singleton.mp hcb
    rw [List.countP_append, hzero, ← hx]
    simp [hterminal]

/-- An operation that a user has started, at any time in any run. In every run that goes on from
there, with packets or without any, its user has been told once how it ended as soon as a worker
has taken the TIMEOUT of its actor; and as long as the user has not been told, that TIMEOUT is set
or in the mail. A step is a handler that runs to its end: the runs are those in which no workers
wait for each other (`ActorManager.State.Deadlock`). -/
theorem operation_ends {id : Id} {n2npId : N2NP.NodeId} {start : Int64}
    {ok ok' : InternalNode → List Output → Event → Prop} {log out log' : List Output} {e : Event}
    {s : InternalNode} (run : machine.Run ok (.new id n2npId start) n log)
    (he : e.operation) (started : machine.step n e = some (s, out)) :
    (Taking (.process n.actorCount .timeout) ok' s n' log' →
      (callsOf n.actorCount (log ++ out ++ log')).countP Callback.terminal = 1) ∧
    (machine.Run ok' s n' log' →
      (callsOf n.actorCount (log ++ out ++ log')).countP Callback.terminal = 1 ∨
      (callsOf n.actorCount (log ++ out ++ log')).countP Callback.terminal = 0 ∧
        (.process n.actorCount .timeout ∈ n'.timeouts ∨
          .process n.actorCount .timeout ∈ n'.messages)) := by
  have hstarted := run.free.step trivial started
  obtain ⟨s, hs, heq⟩ := Option.map_eq_some_iff.mp started
  cases heq
  have hplaced : Placed n := by
    refine run.invariant (P := fun n _ => Placed n) (placed_new _ _ _) ?_
    intro n log e n' out hn _ taken
    obtain ⟨n₁, hn₁, heq⟩ := Option.map_eq_some_iff.mp taken
    cases heq
    have hplaced : Placed n₁ := handle_placed hn hn₁
    exact hplaced
  have hstart : Going s n.actorCount := Going.start he hs
  have hplaced' : Placed s := handle_placed hplaced hs
  have hgoing : Going { s with out := [] } n.actorCount := ⟨hstart.actor, hstart.timer⟩
  constructor
  · intro taking
    have htold : Told n.actorCount log' := hgoing.taking hplaced' rfl taking
    exact told_once (hstarted.append taking.run) (told_append (.inr htold))
  · intro run'
    by_cases htold : Told n.actorCount (log ++ s.out ++ log')
    · exact .inl (told_once (hstarted.append run') htold)
    · have hgoes : Going n' n.actorCount :=
        (hgoing.run hplaced' rfl run').resolve_right fun h => htold (told_append (.inr h))
      exact .inr ⟨List.countP_eq_zero.mpr fun cb hcb hterminal => htold ⟨cb, hcb, hterminal⟩,
        hgoes.timer⟩

/-- A GET of a node that knows nobody. -/
theorem operation_ends_get :
    ∃ s out n' log',
      machine.step (.new (Peer.numbered 7).id (Peer.numbered 7).n2npId 0)
        (.getValue (lit "k") .zero) = some (s, out) ∧
      Taking (.process 5 .timeout) (fun _ _ _ => true) s n' log' ∧
      callsOf 5 ([] ++ out ++ log') = [.onGetError] ∧
      (callsOf 5 ([] ++ out ++ log')).countP Callback.terminal = 1 ∧
      ((callsOf 5 ([] ++ out ++ log')).countP Callback.terminal = 1 ∨
        (callsOf 5 ([] ++ out ++ log')).countP Callback.terminal = 0 ∧
          (.process 5 .timeout ∈ n'.timeouts ∨ .process 5 .timeout ∈ n'.messages)) := by
  have h : ((machine.step (.new (Peer.numbered 7).id (Peer.numbered 7).n2npId 0)
      (.getValue (lit "k") .zero)).bind fun r =>
      (machine.exec (fun _ _ _ => true) (r.1, []) [.expire 0]).bind fun t =>
        (machine.step t.1 (.work 0 .zero)).map fun u =>
          (t.1.messages[0]?, callsOf 5 ([] ++ r.2 ++ (t.2 ++ u.2 ++ [])))) =
        some (some (.process 5 .timeout), [.onGetError]) := by
    decide +kernel
  obtain ⟨⟨s, out⟩, hstep, h⟩ := Option.bind_eq_some_iff.mp h
  obtain ⟨⟨t, log₁⟩, hexec, h⟩ := Option.bind_eq_some_iff.mp h
  obtain ⟨⟨n', out'⟩, hwork, heq⟩ := Option.map_eq_some_iff.mp h
  obtain ⟨hmessage, hcalls⟩ := Prod.mk.inj heq
  have taking : Taking (.process 5 .timeout) (fun _ _ _ => true) s n' (log₁ ++ out' ++ []) :=
    ⟨t, log₁, 0, .zero, n', out', [], Machine.Run.exec .start hexec, hmessage, hwork, .start, rfl⟩
  have run : machine.Run (fun _ _ _ => true)
      (.new (Peer.numbered 7).id (Peer.numbered 7).n2npId 0)
      (.new (Peer.numbered 7).id (Peer.numbered 7).n2npId 0) [] := .start
  exact ⟨s, out, n', _, hstep, taking, hcalls, (operation_ends run rfl hstep).1 taking,
    (operation_ends run rfl hstep).2 taking.run⟩

end InternalNode
end Epyx.DHT
