import Epyx.DHT.Publish

/-! A value that was set is there: a get that asks after a set has called `onSet` does not call
`onGetError`. -/
namespace Epyx.DHT
open Lib
open Std (ExtTreeMap)
open InternalNode

/-- A search calls back for itself only. -/
theorem Role.Handler.finder_call {f : FinderActor} {r : Role × List Action}
    (h : (Role.finder f).Handler r) {cb : Callback} (hx : .call cb ∈ r.2) :
    (∃ result, cb = .onFound result) ∨ cb = .onFindError := by
  have hresponse : ∀ (objects : Peers) (f : FinderActor),
      .call cb ∈ (FinderActor.onResponse objects f).2 → ∃ result, cb = .onFound result := by
    intro objects f hx
    rcases FinderActor.onResponse_cases objects f with ⟨y, -, heq⟩ | ⟨-, heq⟩ | heq
    · rw [heq] at hx
      cases List.mem_singleton.mp hx
    · rw [heq] at hx
      refine (List.mem_pair.mp hx).elim (fun hcall => ?_) nofun
      cases hcb : f.callback with
      | user => rw [hcb] at hcall; cases hcall; exact ⟨_, rfl⟩
      | search parent => rw [hcb] at hcall; cases hcall
    · rw [heq] at hx
      cases hx
  cases h with
  | answer objects answer =>
    rw [Role.onNewAnswer, Search.onNewAnswer_eq] at hx
    exact .inl (hresponse _ _ hx)
  | answerTimeout objects => exact .inl (hresponse _ _ hx)
  | message objects self m =>
    cases m with
    | timeout =>
      refine (List.mem_pair.mp hx).elim (fun hcall => ?_) nofun
      cases hcb : f.callback with
      | user => rw [hcb] at hcall; cases hcall; exact .inr rfl
      | search parent => rw [hcb] at hcall; cases hcall
    | _ => cases hx
  | start objects f nearest => exact absurd hx (FinderActor.sendQueries_quiet objects _ _ cb)

namespace Deployment
variable {ι : Type*} {D : Deployment ι} {named : ByteStr → Id → Prop} {W : ActorId → Prop}
  {log : List Output} {i : ι} {a : ActorId} {n n' : InternalNode}

/-- An operation that is watched calls back at the last answer it waits for. -/
theorem Serving.call (h : D.Serving named W log i n)
    (hwhole : ∀ (a : ActorId) (p : ProcessActor), n.actors[a]? = some p → p.role.Whole)
    (hout : n.out = []) (htimers : ∀ m ∈ n.timeouts, m.isTimer) {e : InternalNode.Event}
    (hquick : Unhurried W n e) (hn : n.handle e = some n') (ha : W a) {cb : Callback}
    (hcb : cb = .onSet ∨ cb = .onGetError) (hcall : .call a cb ∈ n'.out) :
    ∃ p c answer key query, n.actors[a]? = some p ∧ p.alive = true ∧
      p.role.question = some (key, query) ∧ p.role.pendingRequests = 1 ∧
      p.queries[c]? = some true ∧ n'.out = [.onNewAnswer a c answer, .call a cb] ∧
      (cb = .onSet → ∃ value, query = .store key value) ∧
      (cb = .onGetError → query = .get key ∧ ¬ p.role.Lucky answer) := by
  have hold : .call a cb ∉ n.out := by
    rw [hout]
    exact List.not_mem_nil
  have hstarts : ∀ {n₀ n' : InternalNode} {cb' : FindCallback} {count : Int} {target : Id},
      n₀.findClosest cb' count target = some n' → .call a cb ∉ n₀.out → .call a cb ∉ n'.out := by
    intro n₀ n' cb' count target hn hnot hmem
    obtain ⟨nearest, -, hran⟩ := findClosest_ran hn
    rw [hran.out] at hmem
    exact FinderActor.sendQueries_quiet _ _ _ cb
      (acted_call ((List.mem_append.mp hmem).resolve_left hnot)).2
  cases handle_happens htimers hn with
  | quiet hquiet =>
    obtain ⟨out, hout', haside⟩ := hquiet.aside.out
    rw [hout'] at hcall
    cases haside _ ((List.mem_append.mp hcall).resolve_left hold)
  | search count target hn => exact absurd hcall (hstarts hn hold)
  | @operation _ ms n' h₀ role key keyId hrole hn => exact absurd hcall (hstarts hn hold)
  | @turn k keyId b m hm =>
    rcases InternalNode.treatProcess_cases { n with messages := n.messages.eraseIdx k } b m with
      heq | ⟨p, -, -, heq⟩ | ⟨p, p', r, said, hp, halive, htreats, hacted⟩
    · rw [heq] at hcall
      exact absurd hcall hold
    · obtain ⟨r, hr⟩ := foldl_unregister p.queries.keys { n with messages := n.messages.eraseIdx k }
      rw [heq, InternalNode.destroy, hr] at hcall
      exact absurd hcall hold
    · have hx : b = a ∧ .call cb ∈ r.2 := by
        rw [hacted.out] at hcall
        rcases List.mem_append.mp ((List.mem_append.mp hcall).resolve_left hold) with hsaid | hmem
        · cases htreats with
          | other m receive timeout => cases hsaid
          | _ => cases List.mem_singleton.mp hsaid
        · obtain ⟨heq, hx⟩ := acted_call hmem
          exact ⟨heq.symm, hx⟩
      obtain ⟨rfl, hx⟩ := hx
      obtain ⟨hnotime, hnotimer⟩ := hquick b m p hm hp halive (.inl ha)
      have hquestion : ∃ key query, p.role.question = some (key, query) := by
        cases hrole : p.role with
        | finder f =>
          have hhandler := htreats.handler
          rw [hrole] at hhandler
          rcases hhandler.finder_call hx with ⟨result, rfl⟩ | rfl <;> simp at hcb
        | getter g => exact ⟨_, _, rfl⟩
        | setter s => exact ⟨_, _, rfl⟩
      obtain ⟨key, query, hquestion⟩ := hquestion
      have hsome : p.role.question ≠ none := by simp [hquestion]
      cases htreats with
      | answer peer answer pending =>
        have htakes := Role.onNewAnswer_takes hsome n.objects answer
        rcases hcb with rfl | rfl
        · obtain ⟨hactions, hpending, key', value, hstore⟩ := htakes.set hx
          rw [hquestion] at hstore
          cases hstore
          refine ⟨p, (answerId answer).toInt64, answer, key, _, hp, halive, hquestion, hpending,
            pending, hacted.out.trans ?_, fun _ => ⟨value, rfl⟩, fun h => by cases h⟩
          rw [hactions, show ({ n with messages := n.messages.eraseIdx k } : InternalNode).out = []
            from hout]
          rfl
        · obtain ⟨hactions, hpending, ⟨key', hget⟩, hunlucky⟩ := htakes.getError hx
          rw [hquestion] at hget
          cases hget
          refine ⟨p, (answerId answer).toInt64, answer, key, _, hp, halive, hquestion, hpending,
            pending, hacted.out.trans ?_, (fun h => by cases h), fun _ => ⟨rfl, hunlucky⟩⟩
          rw [hactions, show ({ n with messages := n.messages.eraseIdx k } : InternalNode).out = []
            from hout]
          rfl
      | timeout c asked => exact absurd rfl (hnotimer c)
      | other m receive timeout =>
        exfalso
        have hresult : ∃ peers, m = .findSuccess peers ∧ peers.length ≤ 10 := by
          cases m with
          | empty => cases hrole : p.role <;> (rw [hrole] at hx; cases hx)
          | timeout => exact absurd rfl hnotime
          | processTimeout c => exact absurd rfl (timeout c)
          | receive peer answer => exact absurd rfl (receive peer answer)
          | findSuccess peers =>
            have hmem : .findSuccess peers ∈ n.results b :=
              List.mem_filterMap.mpr ⟨_, List.mem_of_getElem? hm, by simp [Message.result]⟩
            obtain ⟨peers', heq, hlength, -⟩ := h.results b ha _ hmem
            exact ⟨peers', heq, hlength⟩
          | findFailure =>
            have hmem : .findFailure ∈ n.results b :=
              List.mem_filterMap.mpr ⟨_, List.mem_of_getElem? hm, by simp [Message.result]⟩
            obtain ⟨peers', heq, -⟩ := h.results b ha _ hmem
            cases heq
        obtain ⟨peers, rfl, hlength⟩ := hresult
        obtain ⟨pre, hactions, hpre⟩ :=
          (Role.treat_begins hquestion (hwhole b p hp) n.objects n.id hlength).actions
        have hx' : .call cb ∈ pre ++ peers.map (.sendQuery · query) := hactions ▸ hx
        rcases List.mem_append.mp hx' with hmem | hmem
        · obtain ⟨ps, heq⟩ := hpre _ hmem
          cases heq
          simp at hcb
        · obtain ⟨q, -, heq⟩ := List.mem_map.mp hmem
          cases heq

/-! ### Runs -/

variable (D) in
/-- The network is settled, the timers of the operations that are watched do not go off, and
`idForString` gives for a key one of the ids it may give for it. -/
structure Timely (W : ι → ActorId → Prop) (named : ByteStr → Id → Prop) (s : ι → InternalNode)
    (log : Log ι) (e : ι × InternalNode.Event) : Prop where
  settled : D.Settled s log e
  unhurried : Unhurried (W e.1) (s e.1) e.2
  whole : e.2.Whole
  names : e.2.Names named (s e.1)

variable [DecidableEq ι] {V : ι → ActorId → Prop} {s : ι → InternalNode} {l : Log ι}

theorem network_step {s : ι → InternalNode} {e : InternalNode.Event}
    (hn : (s i).handle e = some n') : network.step s (i, e) =
      some (Function.update s i { n' with out := [] }, n'.out.map (Prod.mk i)) := by
  show (((s i).handle e).map _).map _ = _
  rw [hn]
  rfl

/-- What a search has found in a run. -/
theorem finder_of_run (run : network.Run D.Settled D.init s l)
    (hfit : D.CountersFit l) {p : ProcessActor} {f : FinderActor} (hp : (s i).actors[a]? = some p)
    (hf : p.role = .finder f) (hdone : f.Done) {c : Int64} {answer : Answer}
    (htold : (i, .onNewAnswer a c answer) ∈ l) (hpatient : Patient a (Machine.logOf i l)) :
    D.Finder (s i) a (f.callback.onFound f.foundPeers) (f.foundPeers.map Prod.snd) := by
  have h := searched_of_run run hfit i
  obtain ⟨offered, hseeks⟩ := h.seeks a p f hp hf hpatient
  have htalks := h.talks a p hp hpatient
  have hasked := htalks.asked (mem_hearsOf.mpr ⟨answer, Machine.mem_logOf.mpr htold⟩)
  obtain ⟨j, hnearest, y, hy, hid⟩ := hseeks.nearest run hfit htalks hdone
    (List.ne_nil_of_mem hasked)
  refine ⟨p, f, j, hp, hf, rfl, ?_, hnearest, y.2, List.mem_map_of_mem hy,
    hseeks.sound.valid _ (hseeks.sound.foundPeers.entry y hy).1, hid⟩
  rw [List.length_map, ← hseeks.sound.foundPeers.card, hseeks.sound.foundPeers.least.card]
  exact Nat.min_le_left _ _

/-- What is true of the operations of the node `i` that are watched. -/
theorem serving_of_run (run : network.Run (D.Timely V named) D.init s l)
    (hfit : D.CountersFit l) (i : ι) :
    Linked named (Machine.logOf i l) (s i) ∧
      D.Serving named (V i) (Machine.logOf i l) i (s i) := by
  induction run with
  | start =>
    refine ⟨⟨fun a p hp => ?_, fun b p f a hp => ?_, fun a h => absurd rfl h,
      fun a p f hp => ?_⟩, ⟨fun a ha => ⟨nofun, nofun⟩, nofun, fun a p key query hp => ?_⟩⟩ <;>
      simp [init, InternalNode.new] at hp
  | @step s s' log out e run allowed taken ih =>
    have hrun' := (run.step allowed taken).mono fun _ _ _ h => h.settled
    have hrun := run.mono fun _ _ _ (h : D.Timely V named _ _ _) => h.settled
    obtain ⟨i', e⟩ := e
    obtain ⟨t, o, ht, rfl, rfl⟩ := Machine.family_step taken
    obtain ⟨n', hn, heq⟩ := Option.map_eq_some_iff.mp ht
    cases heq
    obtain ⟨hlinked, hserving⟩ := ih hfit.left
    by_cases hi : i = i'
    · subst hi
      have hhonest := honest_of_run (hrun.mono fun _ _ _ h => h.1)
      have htimers := ((spoken_of_run hrun).came i).timers
      have hsearched := searched_of_run hrun hfit.left i
      have hgenuine := ((honest_of_run (hrun'.mono fun _ _ _ h => h.1)).genuine i).objects
      have hid := ((sound_of_run (hrun.mono fun _ _ _ h => h.1.1)).2 i).1.id
      have hlinked' := hlinked.handle (hhonest.holds i).placed (hhonest.out i) htimers
        hsearched.fresh allowed.whole allowed.names hn
      rw [Function.update_self] at hgenuine
      have hserving' := hserving.handle hlinked hsearched (hhonest.holds i).placed (hhonest.out i)
        htimers hid allowed.whole allowed.names allowed.unhurried hn hgenuine
        fun a x peers hfinds hx hpatient => by
          obtain ⟨p, f, hp, hf, hdone, rfl⟩ := hfinds.finder
          obtain ⟨c, htimeout | ⟨answer, hanswer⟩⟩ := hfinds.told
          · exact absurd (List.mem_append_right _ htimeout) (hpatient c)
          · have hlog : Machine.logOf i (log ++ n'.out.map (Prod.mk i)) =
                Machine.logOf i log ++ n'.out := by
              rw [Machine.logOf_append, Machine.logOf_map, if_pos rfl]
            have htold : (i, .onNewAnswer a c answer) ∈ log ++ n'.out.map (Prod.mk i) :=
              List.mem_append_right _ (List.mem_map_of_mem hanswer)
            have hp' : (Function.update s i { n' with out := [] } i).actors[a]? = some p := by
              rw [Function.update_self]
              exact hp
            rw [FinderActor.onFound_found] at hx
            cases hx
            have hfinder := finder_of_run hrun' hfit hp' hf hdone htold (by rw [hlog]; exact hpatient)
            rw [Function.update_self] at hfinder
            exact hfinder
      rw [Function.update_self, Machine.logOf_append, Machine.logOf_map, if_pos rfl]
      exact ⟨⟨hlinked'.whole, hlinked'.finders, hlinked'.results, hlinked'.searching⟩,
        ⟨hserving'.patient, hserving'.results, hserving'.serves⟩⟩
    · rw [Function.update_of_ne hi, Machine.logOf_append, Machine.logOf_map, if_neg (Ne.symm hi),
        List.append_nil]
      exact ⟨hlinked, hserving⟩

/-- Whom an operation has asked when it calls back, and what the nearest node has answered. -/
theorem answered_of_call {s : ι → InternalNode} {e : InternalNode.Event}
    (run : network.Run (D.Timely V named) D.init s l) (allowed : D.Timely V named s l (i, e))
    (hn : (s i).handle e = some n')
    (hfit : D.CountersFit (l ++ n'.out.map (Prod.mk i))) (ha : V i a) {cb : Callback}
    (hcb : cb = .onSet ∨ cb = .onGetError) (hcall : .call a cb ∈ n'.out) :
    ∃ c d answer answer' key query j, n'.out = [.onNewAnswer a d answer', .call a cb] ∧
      answerId answer = c.toInt32 ∧ (i, .query a c query) ∈ l ∧ D.Closest named key j ∧
      D.Means (l ++ n'.out.map (Prod.mk i)) n'.objects i j query answer ∧
      (cb = .onSet → ∃ value, query = .store key value) ∧
      (cb = .onGetError → query = .get key ∧ ∀ c value, answer ≠ .got c 0 value) := by
  have hrun := run.mono fun _ _ _ (h : D.Timely V named _ _ _) => h.settled
  have hrun' : network.Run D.Settled D.init
      (Function.update s i { n' with out := [] }) (l ++ n'.out.map (Prod.mk i)) :=
    hrun.step allowed.settled (network_step hn)
  obtain ⟨hlinked, hserving⟩ := serving_of_run run hfit.left i
  have hout := (honest_of_run (hrun.mono fun _ _ _ h => h.1)).out i
  have htimers := ((spoken_of_run hrun).came i).timers
  obtain ⟨p, d, answer', key, query, hp, halive, hquestion, hpending, hwaits, hout', hset,
    hget⟩ := hserving.call hlinked.whole hout htimers allowed.unhurried hn ha hcb hcall
  have hserves := hserving.serves a p key query hp halive hquestion ha
  have hlog : Machine.logOf i (l ++ n'.out.map (Prod.mk i)) = Machine.logOf i l ++ n'.out := by
    rw [Machine.logOf_append, Machine.logOf_map, if_pos rfl]
  -- the answer is the last one
  have hasks : asksOf a (Machine.logOf i l ++ n'.out) = asksOf a (Machine.logOf i l) := by
    rw [asksOf_append, hout']
    exact List.append_nil _
  have hhears : hearsOf a (Machine.logOf i l ++ n'.out) = hearsOf a (Machine.logOf i l) ++ [d] := by
    rw [hearsOf_append, hout']
    simp [hearsOf]
  have hpatient := (hserving.patient a ha).1
  have htalks := (searched_of_run hrun hfit.left i).talks a p hp hpatient
  obtain ⟨hasked, hnew⟩ := htalks.waits d hwaits
  have hcount := hserves.pending
  rw [hpending] at hcount
  have hall : asksOf a (Machine.logOf i l) ⊆ hearsOf a (Machine.logOf i l) ++ [d] := by
    have honce : (hearsOf a (Machine.logOf i l) ++ [d]).Nodup :=
      List.nodup_append.mpr ⟨htalks.once, List.nodup_singleton _, fun x hx y hy hxy =>
        hnew (List.mem_singleton.mp hy ▸ hxy ▸ hx)⟩
    have hsubset : hearsOf a (Machine.logOf i l) ++ [d] ⊆ asksOf a (Machine.logOf i l) :=
      List.append_subset.mpr ⟨htalks.asked, List.cons_subset.mpr ⟨hasked, List.nil_subset _⟩⟩
    refine ((honce.subperm hsubset).perm_of_length_le ?_).symm.subset
    rw [List.length_append, List.length_singleton]
    omega
  -- and so the nearest node has answered
  obtain ⟨c, j, hnearest, hquery, hsend⟩ := hserves.nearest (List.ne_nil_of_mem hasked)
  have hheard : c ∈ hearsOf a (Machine.logOf i (l ++ n'.out.map (Prod.mk i))) := by
    rw [hlog, hhears]
    exact hall (mem_asksOf.mpr ⟨query, hquery⟩)
  obtain ⟨answer, hanswer⟩ := mem_hearsOf.mp hheard
  have hsub : l ⊆ l ++ n'.out.map (Prod.mk i) := List.subset_append_left _ _
  have hmeans := answer_means hrun' hfit (Machine.mem_logOf.mp hanswer)
    (hsub (Machine.mem_logOf.mp hquery)) (hsub (Machine.mem_logOf.mp hsend))
  rw [Function.update_self] at hmeans
  have hc := ((spoken_of_run hrun').heard i a c answer (Machine.mem_logOf.mp hanswer)).1
  refine ⟨c, d, answer, answer', key, query, j, hout', by rw [hc, Int32.toInt32_toInt64],
    Machine.mem_logOf.mp hquery, hnearest, hmeans, hset, fun heq => ?_⟩
  obtain ⟨rfl, hunlucky⟩ := hget heq
  refine ⟨rfl, ?_⟩
  rintro c' value rfl
  have hlucky : p.role.Lucky (.got c' 0 value) := by
    cases hrole : p.role with
    | finder f => rw [hrole] at hquestion; cases hquestion
    | getter g => exact ⟨c', value, rfl⟩
    | setter s => rw [hrole] at hquestion; cases hquestion
  rw [hlog] at hanswer
  rcases List.mem_append.mp hanswer with hbefore | hlast
  · exact hserves.unlucky c _ hbefore hlucky
  · rw [hout'] at hlast
    rcases List.mem_pair.mp hlast with heq' | heq'
    · cases heq'
      exact hunlucky hlucky
    · cases heq'

/-- Why the node `i` says that a value was set. -/
def Confirmed (D : Deployment ι) (named : ByteStr → Id → Prop) (V : ι → ActorId → Prop)
    (log : Log ι) : ι × Output → Prop
  | (i, .call a .onSet) => V i a → ∃ c key value j, (i, .query a c (.store key value)) ∈ log ∧
    D.Closest named key j ∧ (j, .stored key value) ∈ log
  | _ => True

/-- When an operation that is watched calls `onSet`, the nearest node to the key has the value. -/
theorem confirmed_of_run (run : network.Run (D.Timely V named) D.init s l)
    (hfit : D.CountersFit l) : Grounded (D.Confirmed named V) l := by
  induction run with
  | start => exact .nil _
  | @step s s' log out e run allowed taken ih =>
    obtain ⟨i, e⟩ := e
    obtain ⟨t, o, ht, rfl, rfl⟩ := Machine.family_step taken
    obtain ⟨n', hn, heq⟩ := Option.map_eq_some_iff.mp ht
    cases heq
    by_cases hcall : ∃ a, V i a ∧ .call a .onSet ∈ n'.out
    · obtain ⟨a, ha, hcall⟩ := hcall
      obtain ⟨c, d, answer, answer', key, query, j, hout, -, hquery, hnearest, hmeans, hset, -⟩ :=
        answered_of_call run allowed hn hfit ha (.inl rfl) hcall
      obtain ⟨value, rfl⟩ := hset rfl
      rw [hout] at hmeans ⊢
      rw [List.map_cons, List.map_singleton, List.append_cons]
      refine ((ih hfit.left).concat (by trivial)).concat fun _ =>
        ⟨c, key, value, j, List.mem_append_left _ hquery, hnearest, ?_⟩
      cases answer with
      | stored c' status =>
        have hstored : (j, .stored key value) ∈ log ++ _ := hmeans
        exact List.mem_append_left _ ((List.mem_append.mp hstored).resolve_right (by simp))
      | _ => cases hmeans
    · refine (ih hfit.left).append fun x hx l => ?_
      obtain ⟨o, ho, rfl⟩ := List.mem_map.mp hx
      cases o with
      | call a cb =>
        cases cb with
        | onSet => exact fun ha => absurd ⟨a, ha, ho⟩ hcall
        | _ => trivial
      | _ => trivial

/-- When an operation that is watched calls `onGetError`, nothing was stored at the nearest node to
the key before it was asked. -/
theorem denied_of_run (run : network.Run (D.Timely V named) D.init s l)
    (hfit : D.CountersFit l) (ha : V i a) (hcall : (i, .call a .onGetError) ∈ l) :
    ∃ key c j, (i, .query a c (.get key)) ∈ l ∧ D.Closest named key j ∧
      ∃ l', l' <+: l ∧ D.Sent l' i j (.get c.toInt32 key) ∧
        lastStored (Machine.logOf j l') key = none := by
  induction run with
  | start => cases hcall
  | @step s s' log out e run allowed taken ih =>
    obtain ⟨i', e⟩ := e
    obtain ⟨t, o, ht, rfl, rfl⟩ := Machine.family_step taken
    obtain ⟨n', hn, heq⟩ := Option.map_eq_some_iff.mp ht
    cases heq
    rcases List.mem_append.mp hcall with hcalled | hcalled
    · obtain ⟨key, c, j, hquery, hnearest, l', hprefix, hl'⟩ := ih hfit.left hcalled
      exact ⟨key, c, j, List.mem_append_left _ hquery, hnearest, l',
        hprefix.trans (List.prefix_append _ _), hl'⟩
    · obtain ⟨o, ho, heq⟩ := List.mem_map.mp hcalled
      cases heq
      obtain ⟨c, d, answer, answer', key, query, j, -, hc, hquery, hnearest, hmeans, -, hget⟩ :=
        answered_of_call run allowed hn hfit ha (.inr rfl) ho
      obtain ⟨rfl, hne⟩ := hget rfl
      refine ⟨key, c, j, List.mem_append_left _ hquery, hnearest, ?_⟩
      cases answer with
      | got c' status value =>
        obtain hzero | ⟨l', hprefix, hsent, hnone⟩ := hmeans
        · exact absurd (congrArg (Answer.got c' · value) hzero) (hne c' value)
        · obtain rfl : c' = c.toInt32 := hc
          exact ⟨l', hprefix, hsent, hnone⟩
      | _ => cases hmeans

/-- Once an operation has called `onSet` the nearest node to the key has stored the value, and no
later operation calls `onGetError`: packets may be lost, come late, come twice and overtake each
other, but that node is asked for the value. `idForString` has to give the key one id only. -/
theorem set_then_got (run : network.Run (D.Timely V named) D.init s l)
    (hfit : D.CountersFit l) {l₁ l₂ : Log ι} (hl : l = l₁ ++ l₂) {i₀ i₁ : ι} {a₀ a₁ : ActorId}
    (ha₀ : V i₀ a₀) (ha₁ : V i₁ a₁) {key value : ByteStr}
    (hkey : ∀ id id', named key id → named key id' → id = id')
    (hasks₀ : ∀ c query, (i₀, .query a₀ c query) ∈ l → query = .store key value)
    (hasks₁ : ∀ c query, (i₁, .query a₁ c query) ∈ l → query = .get key)
    (hset : (i₀, .call a₀ .onSet) ∈ l₁) (hlater : ∀ c query, (i₁, .query a₁ c query) ∉ l₁) :
    (∃ j, D.Closest named key j ∧ (j, .stored key value) ∈ l₁) ∧
      (i₁, .call a₁ .onGetError) ∉ l := by
  have hfree : network.Run (fun _ log e => D.Delivers log e) D.init s l :=
    run.mono fun _ _ _ h => h.settled.1.1
  -- the value was stored at the nearest node
  have hconfirmed : Grounded (D.Confirmed named V) l₁ := by
    have hall := confirmed_of_run run hfit
    rw [hl] at hall
    exact hall.left
  obtain ⟨k₁, k₂, rfl⟩ := List.append_of_mem hset
  obtain ⟨c, key', value', j, hstore, hnearest, hstored⟩ := hconfirmed k₁ _ k₂ rfl ha₀
  have hstore' : (i₀, .query a₀ c (.store key' value')) ∈ l := by
    rw [hl, List.append_assoc]
    exact List.mem_append_left _ hstore
  cases hasks₀ c _ hstore'
  refine ⟨⟨j, hnearest, List.mem_append_left _ hstored⟩, fun hcall => ?_⟩
  -- and nothing was when it was asked
  obtain ⟨key', d, j', hquery, hnearest', l', hprefix, hsent, hnone⟩ :=
    denied_of_run run hfit ha₁ hcall
  cases hasks₁ d _ hquery
  obtain rfl : j = j' := by
    obtain ⟨target, htarget, hnearest⟩ := hnearest
    obtain ⟨target', htarget', hnearest'⟩ := hnearest'
    obtain rfl : target = target' := hkey target target' htarget htarget'
    have hgap : D.gap target j = D.gap target j' := Nat.le_antisymm (hnearest j') (hnearest' j)
    exact D.id_injective (Distance.between_inj (Id.toNat_inj hgap))
  -- so it was asked before the set was over
  obtain ⟨k, k', hk⟩ := List.append_of_mem hsent
  obtain ⟨m, hm⟩ := hprefix
  have hgrounded : Grounded D.Justified (l' ++ m) := hm ▸ (sound_of_run hfree).1
  obtain ⟨-, a, c', hasked, hc'⟩ := hgrounded.left k _ k' hk
  have hasked' : (i₁, .query a c' (.get key)) ∈ l' := by
    rw [hk]
    exact List.mem_append_left _ hasked
  have hprefix' : l' <+: l := ⟨m, hm⟩
  obtain ⟨hnodup, hint⟩ := ids_of_run hfree hfit i₁
  have hmem := Machine.mem_logOf.mpr (hprefix'.subset hasked')
  obtain rfl : c' = d := by
    rw [← hint c' (List.mem_filterMap.mpr ⟨_, hmem, rfl⟩), hc',
      hint d (List.mem_filterMap.mpr ⟨_, Machine.mem_logOf.mpr hquery, rfl⟩)]
  cases eq_of_nodup_filterMap hnodup hmem (Machine.mem_logOf.mpr hquery) rfl rfl
  rcases List.prefix_or_prefix_of_prefix ⟨l₂, hl.symm⟩ hprefix' with hp | hp
  · have hmem := Machine.mem_logOf.mpr (hp.subset (List.mem_append_left _ hstored))
    have hsome := List.findSome?_eq_none_iff.mp hnone _ (List.mem_reverse.mpr hmem)
    simp at hsome
  · exact hlater c' _ (hp.subset hasked')

/-- The node acts on a timer. -/
def hurried (n : InternalNode) : InternalNode.Event → Bool
  | .work k _ =>
    match n.messages[k]? with
    | some (.process _ .timeout) => true
    | some (.process _ (.processTimeout _)) => true
    | _ => false
  | _ => false

theorem timely_sound [Fintype ι] {s : ι → InternalNode} {e : ι × InternalNode.Event}
    (he : e.2.Tame ∧ e.2.Whole ∧ ∀ n, e.2.Names named n)
    (h : D.delivers l e && D.ready s e && !hurried (s e.1) e.2) : D.Timely V named s l e := by
  obtain ⟨hsettled, hquick⟩ := Bool.and_eq_true_iff.mp h
  obtain ⟨hdelivers, hready⟩ := Bool.and_eq_true_iff.mp hsettled
  obtain ⟨htame, hwhole, hnames⟩ := he
  refine ⟨⟨⟨D.delivers_sound hdelivers, htame⟩, ready_sound hready⟩, ?_, hwhole, hnames _⟩
  obtain ⟨i, e⟩ := e
  cases e with
  | work k keyId =>
    intro a m p hm hp halive hwatched
    constructor
    · rintro rfl
      simp [hurried, hm] at hquick
    · rintro c rfl
      simp [hurried, hm] at hquick
  | _ => trivial

/-- All the actor asks for. -/
def asksOnly (log : Log ι) (i : ι) (a : ActorId) (query : Query) : Bool :=
  log.all fun x => x.1 ≠ i || match x.2 with
    | .query b _ q => b ≠ a || q = query
    | _ => true

theorem asksOnly_sound {query : Query} (h : asksOnly l i a query) :
    ∀ c q, (i, .query a c q) ∈ l → q = query := fun c q hmem => by
  have hq := List.all_eq_true.mp h _ hmem
  simpa using hq

/-- The node `false` stores a value at both nodes, and then the other one gets it. -/
def setAndGet (key value : ByteStr) : List (Bool × InternalNode.Event) :=
  let id := pair.id
  let n2npId := pair.n2npId
  let peers := [pair.peer true, pair.peer false]
  [(true, .sendPing (n2npId false)), (false, .receive ⟨id true, .ping⟩ (n2npId true) 0),
    (false, .work 0 .zero), (true, .receive ⟨id false, .pong⟩ (n2npId false) 1),
    (false, .setValue key value .zero fun peers => peers),
    (true, .receive ⟨id false, .find 0 5 .zero⟩ (n2npId false) 2), (true, .work 0 .zero),
    (false, .receive ⟨id true, .found 0 0 1 [pair.peer false]⟩ (n2npId true) 3),
    (false, .work 0 .zero), (false, .receive ⟨id false, .find 1 5 .zero⟩ (n2npId false) 4), (false, .work 0 .zero),
    (false, .receive ⟨id false, .found 1 0 2 peers⟩ (n2npId false) 5), (false, .work 0 .zero),
    (false, .work 0 .zero), (false, .work 0 .zero),
    (true, .receive ⟨id false, .store 2 key value⟩ (n2npId false) 6), (true, .work 0 .zero),
    (false, .receive ⟨id false, .store 3 key value⟩ (n2npId false) 7), (false, .work 0 .zero),
    (false, .receive ⟨id false, .stored 3 0⟩ (n2npId false) 8), (false, .work 0 .zero),
    (false, .receive ⟨id true, .stored 2 0⟩ (n2npId true) 9), (false, .work 0 .zero),
    (false, .work 0 .zero), (true, .getValue key .zero),
    (false, .receive ⟨id true, .find 0 5 .zero⟩ (n2npId true) 10), (false, .work 1 .zero),
    (true, .receive ⟨id false, .found 0 0 2 peers⟩ (n2npId false) 11), (true, .work 1 .zero),
    (true, .receive ⟨id true, .find 1 5 .zero⟩ (n2npId true) 12), (true, .work 1 .zero),
    (true, .receive ⟨id true, .found 1 0 2 peers⟩ (n2npId true) 13), (true, .work 1 .zero),
    (true, .work 1 .zero), (false, .receive ⟨id true, .get 3 key⟩ (n2npId true) 14),
    (false, .work 1 .zero), (true, .receive ⟨id false, .got 3 0 value⟩ (n2npId false) 15), (true, .work 2 .zero)]

theorem set_then_got_pair :
    ∃ s l l₁ l₂, network.Run (pair.Timely (fun _ a => a = 5) fun _ id => id = .zero) pair.init s l ∧
      pair.CountersFit l ∧ l = l₁ ++ l₂ ∧
      (∀ c query, (false, .query 5 c query) ∈ l → query = .store [1] [2]) ∧
      (∀ c query, (true, .query 5 c query) ∈ l → query = .get [1]) ∧
      (false, .call 5 .onSet) ∈ l₁ ∧ (∀ c query, (true, .query 5 c query) ∉ l₁) ∧
      (∃ j, pair.Closest (fun _ id => id = .zero) [1] j ∧ (j, .stored [1] [2]) ∈ l₁) ∧
      (true, .call 5 .onGetError) ∉ l := by
  have h : (network.exec (fun s l e => pair.delivers l e && pair.ready s e &&
      !hurried (s e.1) e.2) (pair.init, []) (setAndGet [1] [2])).map (fun r =>
        ([false, true].map fun i => (issued (Machine.logOf i r.2)).length,
          asksOnly r.2 false 5 (.store [1] [2]), asksOnly r.2 true 5 (.get [1]),
          (r.2.take 22).any fun x => x = (false, .call 5 .onSet),
          (r.2.take 22).any fun x => x.1 && x.2.actor = some 5)) =
      some ([4, 4], true, true, true, false) := by
    decide +kernel
  obtain ⟨⟨s, l⟩, hrun, hlog⟩ := Option.map_eq_some_iff.mp h
  obtain ⟨hissued, hstores, hgets, hset, hlater⟩ : _ ∧ _ ∧ _ ∧ _ ∧ _ := by
    simpa only [Prod.mk.injEq] using hlog
  have hevents : ∀ e ∈ setAndGet [1] [2], e.2.Tame ∧ e.2.Whole ∧
      ∀ n, e.2.Names (fun _ id => id = .zero) n := by
    simp [setAndGet, Event.Tame, Event.Whole, Event.Names]
  have run : network.Run (pair.Timely (fun _ a => a = 5) fun _ id => id = .zero) pair.init s l :=
    Machine.Run.exec_of .start (fun e he s l h => timely_sound (hevents e he) h) hrun
  have hfit : pair.CountersFit l := by
    intro i
    have hstart : (pair.start i).toInt = 0 := rfl
    cases i <;> simp at hissued <;> omega
  have hset' : (false, .call 5 .onSet) ∈ l.take 22 := by
    obtain ⟨x, hx, heq⟩ := List.any_eq_true.mp hset
    exact of_decide_eq_true heq ▸ hx
  have hlater' : ∀ c query, (true, .query 5 c query) ∉ l.take 22 := fun c query hmem => by
    have hq := List.any_eq_false.mp hlater _ hmem
    simp [Output.actor] at hq
  exact ⟨s, l, l.take 22, l.drop 22, run, hfit, (List.take_append_drop 22 l).symm,
    asksOnly_sound hstores, asksOnly_sound hgets, hset', hlater',
    set_then_got run hfit (List.take_append_drop 22 l).symm rfl rfl
      (fun _ _ h h' => h.trans h'.symm) (asksOnly_sound hstores) (asksOnly_sound hgets) hset'
      hlater'⟩

end Deployment
end Epyx.DHT
