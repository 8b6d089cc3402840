import Epyx.DHT.Settled
import Epyx.DHT.Steps
import Epyx.Lib.Registry
import Epyx.Lib.TreeMap

/-! The connection ids in `processActors` are those that are pending in the maps of the process
actors. -/
namespace Epyx.DHT
open Lib
open Std (ExtTreeMap)

/-- The id `sendQuery` has returned, and the actor it was given to. -/
def Output.given : Output → Option (Int64 × ActorId)
  | .query a c _ => some (c, a)
  | _ => none

/-- The id `onNewAnswer` or `onAnswerTimeout` was called for. -/
def Output.settledId : Output → Option Int64
  | .onNewAnswer _ c _ | .onAnswerTimeout _ c => some c
  | _ => none

theorem map_fst_given (log : List Output) :
    (log.filterMap Output.given).map Prod.fst = issued log := by
  rw [issued, List.map_filterMap]
  congr 1
  funext o
  cases o <;> rfl

namespace InternalNode

/-- Whether the actor has the id in its map, and whether it is pending there. -/
def asked (n : InternalNode) (a : ActorId) (c : Int64) : Option Bool :=
  n.actors[a]?.bind fun p => p.queries[c]?

/-- The registry of a node and the maps of its process actors. -/
def registryOf (log : List Output) (n : InternalNode) : Registry ActorId Int64 where
  entry c := n.processActors[c]?
  book := n.asked
  given := (log ++ n.out).filterMap Output.given
  settled := (log ++ n.out).filterMap Output.settledId

/-- The node with the actor that a handler has. -/
def putBack (a : ActorId) (s : InternalNode × ProcessActor) : InternalNode :=
  { s.1 with actors := s.1.actors.insert a s.2 }

theorem asked_putBack (a b : ActorId) (s : InternalNode × ProcessActor) (c : Int64) :
    (putBack a s).asked b c = if b = a then s.2.queries[c]? else s.1.asked b c := by
  by_cases hb : b = a
  · simp [asked, putBack, hb]
  · simp [asked, putBack, hb, ExtTreeMap.getElem?_insert, Ne.symm hb]

theorem registryOf_congr {n n' : InternalNode} (log : List Output)
    (hentry : n'.processActors = n.processActors) (hasked : ∀ a c, n'.asked a c = n.asked a c)
    (hgiven : n'.out.filterMap Output.given = n.out.filterMap Output.given)
    (hsettled : n'.out.filterMap Output.settledId = n.out.filterMap Output.settledId) :
    registryOf log n' = registryOf log n := by
  have hbook : n'.asked = n.asked := funext fun a => funext (hasked a)
  simp [registryOf, hentry, hbook, hgiven, hsettled]

theorem registryOf_aside {n n' : InternalNode} (h : Aside n n') (log : List Output) :
    registryOf log n' = registryOf log n := by
  obtain ⟨out, hout, hall⟩ := h.out
  have hgiven : out.filterMap Output.given = [] :=
    Output.filterMap_aside hall (fun _ _ => rfl) fun _ _ => rfl
  have hsettled : out.filterMap Output.settledId = [] :=
    Output.filterMap_aside hall (fun _ _ => rfl) fun _ _ => rfl
  refine registryOf_congr log h.processActors (fun a c => by rw [asked, h.actors, asked]) ?_ ?_
  · simp [hout, hgiven]
  · simp [hout, hsettled]

/-- A handler has the actor with the map that the manager had. -/
theorem registryOf_putBack {n : InternalNode} {a : ActorId} {p q : ProcessActor}
    (hp : n.actors[a]? = some p) (hq : q.queries = p.queries) (log : List Output) :
    registryOf log (putBack a (n, q)) = registryOf log n := by
  refine registryOf_congr log rfl (fun b c => ?_) rfl rfl
  rw [asked_putBack]
  split
  · rename_i hb
    simp [asked, hb, hp, hq]
  · rfl

theorem registryOf_sendQuery (log : List Output) (a : ActorId) (s : InternalNode × ProcessActor)
    (peer : SPtr) (query : Query) :
    registryOf log (putBack a (s.1.sendQuery a s.2 peer query)) =
      (registryOf log (putBack a s)).give a s.1.processActorsCount := by
  let c := s.1.processActorsCount
  have hentry := TreeMap.getElem?_insert_eq_update s.1.processActors c a
  have hbook : (putBack a (s.1.sendQuery a s.2 peer query)).asked =
      ((registryOf log (putBack a s)).give a c).book := funext fun b => funext fun d => by
    have hin : ({ s.2 with queries := s.2.queries.insert c true } : ProcessActor).queries[d]? =
        if d = c then some true else s.2.queries[d]? :=
      (congrFun (TreeMap.getElem?_insert_eq_update _ c true) d).trans (Function.update_apply ..)
    rw [Registry.give_book]
    refine (asked_putBack a b _ d).trans ?_
    show _ = if b = a ∧ d = c then some true else (putBack a s).asked b d
    rw [asked_putBack]
    by_cases hb : b = a
    · rw [if_pos hb, if_pos hb]
      exact hin.trans (by simp [hb])
    · simp only [hb, if_false, false_and]
      rfl
  have hgiven : (log ++ (putBack a (s.1.sendQuery a s.2 peer query)).out).filterMap Output.given =
      (log ++ s.1.out).filterMap Output.given ++ [(c, a)] := by
    simp [putBack, sendQuery, send, InternalNode.emit, arm, registerNewConnectionId, Output.given,
      c]
  have hsettled : (log ++ (putBack a (s.1.sendQuery a s.2 peer query)).out).filterMap
      Output.settledId = (log ++ s.1.out).filterMap Output.settledId := by
    simp [putBack, sendQuery, send, InternalNode.emit, arm, registerNewConnectionId,
      Output.settledId]
  exact Registry.ext hentry hbook hgiven hsettled

theorem perform_moves (log : List Output) (a : ActorId) (s : InternalNode × ProcessActor)
    (x : Action) :
    Registry.Moves (registryOf log (putBack a s)) (registryOf log (putBack a (perform a s x))) := by
  cases x with
  | sendQuery peer query =>
    rw [perform, registryOf_sendQuery]
    exact .single (.give a _)
  | post actor message => exact .refl
  | timeout message => exact .refl
  | call callback =>
    have heq : registryOf log (putBack a (perform a s (.call callback))) =
        registryOf log (putBack a s) := registryOf_congr log rfl (fun _ _ => rfl)
      (by simp [putBack, perform, InternalNode.emit, Output.given])
      (by simp [putBack, perform, InternalNode.emit, Output.settledId])
    rw [heq]
  | kill =>
    have heq : registryOf log (putBack a (perform a s .kill)) = registryOf log (putBack a s) :=
      registryOf_congr log rfl (fun b c => by rw [asked_putBack, asked_putBack]; rfl) rfl rfl
    rw [heq]

theorem run_moves (log : List Output) (n : InternalNode) (a : ActorId) (p : ProcessActor)
    (r : Role × List Action) :
    Registry.Moves (registryOf log (putBack a (n, { p with role := r.1 })))
      (registryOf log (n.run a p r)) := by
  have hfold : ∀ (xs : List Action) (s : InternalNode × ProcessActor),
      Registry.Moves (registryOf log (putBack a s))
        (registryOf log (putBack a (xs.foldl (perform a) s))) := by
    intro xs
    induction xs with
    | nil => exact fun s => .refl
    | cons x xs ih => exact fun s => (perform_moves log a s x).trans (ih _)
  exact hfold r.2 _

theorem registryOf_settle {n : InternalNode} {a : ActorId} {p q : ProcessActor} {c : Int64}
    {o : Output} (hp : n.actors[a]? = some p)
    (ho : (∃ answer, o = .onNewAnswer a c answer) ∨ o = .onAnswerTimeout a c)
    (hq : q.queries = p.queries.insert c false) (log : List Output) :
    registryOf log (putBack a ((n.unregisterConnectionId c).emit o, q)) =
      (registryOf log n).settle a c := by
  have hentry := TreeMap.getElem?_erase_eq_update n.processActors c
  have hbook : (putBack a ((n.unregisterConnectionId c).emit o, q)).asked =
      ((registryOf log n).settle a c).book := funext fun b => funext fun d => by
    rw [Registry.settle_book, asked_putBack, hq]
    show _ = if b = a ∧ d = c then some false else n.asked b d
    by_cases hb : b = a
    · rw [if_pos hb, ExtTreeMap.getElem?_insert]
      by_cases hd : d = c
      · simp [hb, hd]
      · simp [hb, hd, Ne.symm hd, asked, hp]
    · simp only [hb, if_false, false_and]
      rfl
  have hgiven : o.given = none := by
    rcases ho with ⟨answer, rfl⟩ | rfl <;> rfl
  have hsettled : o.settledId = some c := by
    rcases ho with ⟨answer, rfl⟩ | rfl <;> rfl
  have hout : log ++ (putBack a ((n.unregisterConnectionId c).emit o, q)).out =
      (log ++ n.out) ++ [o] := by
    simp [putBack, InternalNode.emit, unregisterConnectionId]
  refine Registry.ext hentry hbook ?_ ?_
  · show (log ++ _).filterMap Output.given = (log ++ n.out).filterMap Output.given
    rw [hout, List.filterMap_append, List.filterMap_cons, hgiven]
    exact List.append_nil _
  · show (log ++ _).filterMap Output.settledId = (log ++ n.out).filterMap Output.settledId ++ [c]
    rw [hout, List.filterMap_append, List.filterMap_cons, hsettled]
    rfl

theorem registryOf_destroy {n : InternalNode} {a : ActorId} {p : ProcessActor}
    (hp : n.actors[a]? = some p) (log : List Output) :
    registryOf log (n.destroy a p) = (registryOf log n).abandon a := by
  have herase : ∀ (ids : List Int64) (n : InternalNode) (c : Int64),
      (ids.foldl unregisterConnectionId n).processActors[c]? =
        if c ∈ ids then none else n.processActors[c]? := by
    intro ids
    induction ids with
    | nil => exact fun n c => by simp
    | cons d ids ih =>
      intro n c
      rw [List.foldl_cons, ih, unregisterConnectionId, ExtTreeMap.getElem?_erase]
      by_cases hd : c = d
      · simp [hd]
      · simp [hd, Ne.symm hd]
  have hentry : (fun c => (n.destroy a p).processActors[c]?) =
      ((registryOf log n).abandon a).entry := funext fun c => by
    rw [destroy, herase]
    simp [Registry.abandon, registryOf, asked, hp, ExtTreeMap.mem_keys]
  obtain ⟨r, hr⟩ := foldl_unregister p.queries.keys n
  have hactors : (n.destroy a p).actors = n.actors.erase a := by rw [destroy, hr]
  have hout : (n.destroy a p).out = n.out := by rw [destroy, hr]
  have hbook : (n.destroy a p).asked = ((registryOf log n).abandon a).book :=
    funext fun b => funext fun c => by
      rw [asked, hactors, ExtTreeMap.getElem?_erase]
      by_cases hb : b = a
      · simp [hb, Registry.abandon]
      · simp [hb, Ne.symm hb, Registry.abandon, registryOf, asked]
  refine Registry.ext hentry hbook ?_ ?_
  · rw [registryOf, hout]
    rfl
  · rw [registryOf, hout]
    rfl

theorem part_moves {n n' : InternalNode} (h : Part n n') (hn : Placed n) (log : List Output) :
    Registry.Moves (registryOf log n) (registryOf log n') := by
  cases h with
  | aside h => rw [registryOf_aside h]
  | add role =>
    have hnone : n.actors[n.actorCount]? = none := by
      refine Option.eq_none_iff_forall_ne_some.mpr fun p hp => ?_
      exact Nat.lt_irrefl _ (hn _ p hp)
    have heq : registryOf log (n.add role) = registryOf log n := by
      refine registryOf_congr log rfl (fun a c => ?_) rfl rfl
      refine (asked_putBack n.actorCount a (n, ⟨true, ∅, role⟩) c).trans ?_
      split
      · rename_i ha
        simp [asked, ha, hnone]
      · rfl
    rw [heq]
  | @handler a p r hp ha h =>
    have heq := registryOf_putBack hp (q := { p with role := r.1 }) rfl log
    exact heq ▸ run_moves log n a p r
  | @settle a p c o r hp ha hc ho h =>
    have heq := registryOf_settle hp ho
      (q := { p with queries := p.queries.insert c false, role := r.1 }) rfl log
    have hrun := run_moves log ((n.unregisterConnectionId c).emit o) a
      { p with queries := p.queries.insert c false } r
    rw [heq] at hrun
    refine .trans (.single (.settle a c ?_)) hrun
    simpa [registryOf, asked, hp] using hc
  | destroy hp ha =>
    rw [registryOf_destroy hp]
    exact .single (.abandon _)

theorem run_registry {ok : InternalNode → List Output → Event → Prop}
    {n₀ n : InternalNode} (log₀ : List Output) {log : List Output} (hn : Placed n₀)
    (run : machine.Run ok n₀ n log) :
    Placed n ∧ Registry.Moves (registryOf log₀ n₀) (registryOf (log₀ ++ log) n) := by
  refine run_parts (P := fun log n => Placed n ∧
    Registry.Moves (registryOf log₀ n₀) (registryOf log n)) ?_ ?_ log₀ ⟨hn, .refl⟩ run
  · rintro log n n' ⟨hp, hm⟩ h
    exact ⟨h.placed hp, hm.trans (part_moves h hp log)⟩
  · rintro log n ⟨hp, hm⟩
    have hbook : ({ n with out := [] } : InternalNode).asked = n.asked := rfl
    have heq : registryOf (log ++ n.out) { n with out := [] } = registryOf log n := by
      simp [registryOf, hbook]
    exact ⟨hp, heq ▸ hm⟩

/-- As long as the counter has not come round no id has been given out twice. -/
theorem registry_unique {id : Id} {n2npId : N2NP.NodeId}
    {start : Int64} {ok : InternalNode → List Output → Event → Prop} {n : InternalNode}
    {log : List Output} (run : machine.Run ok (.new id n2npId start) n log)
    (hout : n.out = []) (hlog : (issued log).length ≤ 2 ^ 64) : (registryOf log n).Unique := by
  rw [Registry.Unique, registryOf, hout, List.append_nil, map_fst_given, issued_eq run]
  exact nodup_idsFrom start hlog

theorem registry_of_run {id : Id} {n2npId : N2NP.NodeId}
    {start : Int64} {ok : InternalNode → List Output → Event → Prop} {n : InternalNode}
    {log : List Output} (run : machine.Run ok (.new id n2npId start) n log)
    (hlog : (issued log).length ≤ 2 ^ 64) :
    Placed n ∧ (registryOf log n).InStep ∧ (registryOf log n).Unique := by
  obtain ⟨hn, hmoves⟩ := run_registry [] (placed_new id n2npId start) run
  have hunique := registry_unique run (run_out rfl run) hlog
  have hstart : (registryOf [] (.new id n2npId start)).InStep :=
    ⟨fun c a => by simp [registryOf, asked, new], fun a c => by simp [registryOf, asked, new],
      by simp [registryOf, new]⟩
  exact ⟨hn, hstart.moves hmoves hunique, hunique⟩

/-- `processActors` has exactly the ids that are pending in the maps of the actors that have not
been destroyed; an id that was settled, or given to an actor that has been destroyed, is not in it
and is never registered again. -/
theorem registered_iff_pending {id : Id} {n2npId : N2NP.NodeId}
    {start : Int64} {ok : InternalNode → List Output → Event → Prop} {n : InternalNode}
    {log : List Output} (run : machine.Run ok (.new id n2npId start) n log)
    (hlog : (issued log).length ≤ 2 ^ 64) :
    (∀ (c : Int64) (a : ActorId), n.processActors[c]? = some a ↔
      ∃ p : ProcessActor, n.actors[a]? = some p ∧ p.queries[c]? = some true) ∧
    (n.actors = ∅ → n.processActors = ∅) ∧
    ∀ (a : ActorId) (c : Int64), ((∃ answer, .onNewAnswer a c answer ∈ log) ∨
        .onAnswerTimeout a c ∈ log ∨ (∃ query, .query a c query ∈ log) ∧ n.actors[a]? = none) →
      ∀ ok' n' log', machine.Run ok' n n' log' →
        (issued (log ++ log')).length ≤ 2 ^ 64 → n'.processActors[c]? = none := by
  obtain ⟨hn, hstep, hunique⟩ := registry_of_run run hlog
  refine ⟨fun c a => ?_, fun hempty => ?_, fun a c hc ok' n' log' run' hlog' => ?_⟩
  · rw [← Option.bind_eq_some_iff]
    exact hstep.exact c a
  · refine ExtTreeMap.ext_getElem? fun c => ?_
    rw [ExtTreeMap.getElem?_empty]
    refine Option.eq_none_iff_forall_ne_some.mpr fun a ha => ?_
    have hpending := (hstep.exact c a).mp ha
    simp [registryOf, asked, hempty] at hpending
  · have hgone : (registryOf log n).Gone c := by
      rcases hc with ⟨answer, hc⟩ | hc | ⟨⟨query, hc⟩, hnone⟩
      · refine hstep.settled c (List.mem_filterMap.mpr ⟨_, List.mem_append_left _ hc, rfl⟩)
      · refine hstep.settled c (List.mem_filterMap.mpr ⟨_, List.mem_append_left _ hc, rfl⟩)
      · have hgiven : (c, a) ∈ (registryOf log n).given :=
          List.mem_filterMap.mpr ⟨_, List.mem_append_left _ hc, rfl⟩
        refine ⟨List.mem_map.mpr ⟨_, hgiven, rfl⟩, ?_⟩
        refine Option.eq_none_iff_forall_ne_some.mpr fun b hb => ?_
        -- only the actor the id was given to could have it in its map, and that one has gone
        have hpending := (hstep.exact c b).mp hb
        obtain rfl := hunique.owner (hstep.given b c (by simp [hpending])) hgiven
        simp [registryOf, asked, hnone] at hpending
    have hwhole := run.free.append run'
    have hunique' := registry_unique hwhole (run_out (run_out rfl run) run') hlog'
    exact (hgone.moves (run_registry log hn run').2 hunique').2

/-- One of two queries was answered, and is not registered any more; the other one is. -/
theorem registered_iff_pending_answered :
    ∃ n log, machine.Run (fun _ _ _ => true)
        (.new (Peer.numbered 7).id (Peer.numbered 7).n2npId 0) n log ∧
      n.processActors[(0 : Int64)]? = none ∧ n.processActors[(1 : Int64)]? = some 5 ∧
      (n.processActors[(1 : Int64)]? = some 5 ↔
        ∃ p : ProcessActor, n.actors[(5 : ActorId)]? = some p ∧
          p.queries[(1 : Int64)]? = some true) := by
  have h : (machine.exec (fun _ _ _ => true)
      (.new (Peer.numbered 7).id (Peer.numbered 7).n2npId 0, []) answered).map
        (fun r => (r.1.processActors[(0 : Int64)]?, r.1.processActors[(1 : Int64)]?,
          (issued r.2).length)) = some (none, some 5, 2) := by
    decide +kernel
  obtain ⟨⟨n, log⟩, hrun, heq⟩ := Option.map_eq_some_iff.mp h
  obtain ⟨h0, h1, hlog⟩ : _ ∧ _ ∧ _ := by simpa only [Prod.mk.injEq] using heq
  have run := Machine.Run.exec .start hrun
  exact ⟨n, log, run, h0, h1, (registered_iff_pending run (by rw [hlog]; decide)).1 1 5⟩

end InternalNode
end Epyx.DHT
