import Epyx.DHT.Requests

/-! What a handler of a process actor does to its node, in full: what it puts out, whom it writes to,
and what it makes of its actor. -/
namespace Epyx.DHT
open Lib
open Std (ExtTreeMap)

/-- A message that comes from a timer. -/
def Message.isTimer : Message → Bool
  | .process _ (.processTimeout _) | .process _ .timeout | .replicate _ => true
  | _ => false

namespace InternalNode

/-- What the actions of the actor `a` put out; the counter of the ids goes on from `c`. -/
def acted (objects : Peers) (id : Id) (a : ActorId) : Int64 → List Action → List Output
  | _, [] => []
  | c, .sendQuery peer query :: xs =>
    .query a c query :: .send (objects.deref peer).n2npId ⟨id, query.content c.toInt32⟩ ::
      acted objects id a (c + 1) xs
  | c, .call callback :: xs => .call a callback :: acted objects id a c xs
  | c, _ :: xs => acted objects id a c xs

/-- The mail the actions of the actor `a` send. -/
def posted (a : ActorId) (xs : List Action) : List Message :=
  xs.filterMap fun
    | .post b m => some (.process b m)
    | .kill => some (.process a .empty)
    | _ => none

/-- The ids the actions obtain. -/
def given (c : Int64) : List Action → List Int64
  | [] => []
  | .sendQuery _ _ :: xs => c :: given (c + 1) xs
  | _ :: xs => given c xs

/-- What the actor is after its actions. -/
structure Became (c : Int64) (p q : ProcessActor) (r : Role × List Action) : Prop where
  role : q.role = r.1
  alive : q.alive = true ↔ p.alive = true ∧ .kill ∉ r.2
  queries : ∀ d, q.queries[d]? = if d ∈ given c r.2 then some true else p.queries[d]?

/-- A handler of the actor `a` has done what it does. -/
structure Ran (n n' : InternalNode) (a : ActorId) (p : ProcessActor) (r : Role × List Action) :
    Prop where
  actors : ∃ q, n'.actors = n.actors.insert a q ∧ Became n.processActorsCount p q r
  out : n'.out = n.out ++ acted n.objects n.id a n.processActorsCount r.2
  messages : n'.messages = n.messages ++ posted a r.2
  timeouts : ∃ ms, n'.timeouts = n.timeouts ++ ms ∧
    ∀ m ∈ ms, m.isTimer ∨ .timeout m ∈ r.2
  actorCount : n'.actorCount = n.actorCount
  id : n'.id = n.id
  objects : n'.objects = n.objects
  kbucket : n'.kbucket = n.kbucket

/-- The same for the actions one after the other, while the handler has the actor. -/
structure Performs (s t : InternalNode × ProcessActor) (a : ActorId) (xs : List Action) : Prop where
  actors : t.1.actors = s.1.actors
  role : t.2.role = s.2.role
  alive : t.2.alive = true ↔ s.2.alive = true ∧ .kill ∉ xs
  queries : ∀ d, t.2.queries[d]? =
    if d ∈ given s.1.processActorsCount xs then some true else s.2.queries[d]?
  out : t.1.out = s.1.out ++ acted s.1.objects s.1.id a s.1.processActorsCount xs
  messages : t.1.messages = s.1.messages ++ posted a xs
  timeouts : ∃ ms, t.1.timeouts = s.1.timeouts ++ ms ∧ ∀ m ∈ ms, m.isTimer ∨ .timeout m ∈ xs
  actorCount : t.1.actorCount = s.1.actorCount
  id : t.1.id = s.1.id
  objects : t.1.objects = s.1.objects
  kbucket : t.1.kbucket = s.1.kbucket

theorem performs (a : ActorId) (xs : List Action) (s : InternalNode × ProcessActor) :
    Performs s (xs.foldl (perform a) s) a xs := by
  induction xs generalizing s with
  | nil =>
    exact ⟨rfl, rfl, by simp, by simp [given], by simp [acted], by simp [posted], ⟨[], by simp⟩,
      rfl, rfl, rfl, rfl⟩
  | cons x xs ih =>
    obtain ⟨hactors, hrole, halive, hqueries, hout, hmessages, ⟨ms, htimeouts, hms⟩, hcount, hid,
      hobjects, hkbucket⟩ := ih (perform a s x)
    rw [List.foldl_cons]
    have htail : ∀ m ∈ ms, m.isTimer = true ∨ .timeout m ∈ x :: xs := fun m hm =>
      (hms m hm).imp_right fun h => .tail _ h
    cases x with
    | sendQuery peer query =>
      refine ⟨hactors, hrole, halive.trans (by simp [perform, sendQuery]), fun d => ?_, ?_,
        hmessages, ⟨.process a (.processTimeout s.1.processActorsCount) :: ms, ?_, ?_⟩, hcount, hid,
        hobjects, hkbucket⟩
      · rw [hqueries]
        show (if d ∈ given (s.1.processActorsCount + 1) xs then some true
          else (s.2.queries.insert s.1.processActorsCount true)[d]?) = _
        rw [ExtTreeMap.getElem?_insert]
        by_cases hd : d ∈ given (s.1.processActorsCount + 1) xs
        · simp [given, hd]
        · by_cases hc : s.1.processActorsCount = d
          · simp [given, hc]
          · simp [given, hd, hc, Ne.symm hc]
      · rw [hout]
        simp [perform, sendQuery, send, arm, registerNewConnectionId, InternalNode.emit, acted]
      · rw [htimeouts]
        simp [perform, sendQuery, send, arm, registerNewConnectionId, InternalNode.emit]
      · intro m hm
        rcases List.mem_cons.mp hm with rfl | hm
        · exact .inl rfl
        · exact htail m hm
    | post b m =>
      refine ⟨hactors, hrole, halive.trans (by simp [perform]), hqueries, hout, ?_,
        ⟨ms, htimeouts, htail⟩, hcount, hid, hobjects, hkbucket⟩
      rw [hmessages]
      simp [perform, InternalNode.post, posted]
    | timeout m =>
      refine ⟨hactors, hrole, halive.trans (by simp [perform]), hqueries, hout, hmessages,
        ⟨m :: ms, ?_, ?_⟩, hcount, hid, hobjects, hkbucket⟩
      · rw [htimeouts]
        simp [perform, arm]
      · intro m' hm'
        rcases List.mem_cons.mp hm' with rfl | hm'
        · exact .inr (.head _)
        · exact htail m' hm'
    | call callback =>
      refine ⟨hactors, hrole, halive.trans (by simp [perform]), hqueries, ?_, hmessages,
        ⟨ms, htimeouts, htail⟩, hcount, hid, hobjects, hkbucket⟩
      rw [hout]
      simp [perform, InternalNode.emit, acted]
    | kill =>
      refine ⟨hactors, hrole, halive.trans (by simp [perform]), hqueries, hout, ?_,
        ⟨ms, htimeouts, htail⟩, hcount, hid, hobjects, hkbucket⟩
      rw [hmessages]
      simp [perform, InternalNode.post, posted]

theorem run_ran (n : InternalNode) (a : ActorId) (p : ProcessActor) (r : Role × List Action) :
    Ran n (n.run a p r) a p r := by
  have h := performs a r.2 (n, { p with role := r.1 })
  exact ⟨⟨_, by rw [run, h.actors], h.role, h.alive, h.queries⟩, h.out, h.messages, h.timeouts,
    h.actorCount, h.id, h.objects, h.kbucket⟩

/-- A process actor that is alive takes a message: the actor, what its handler makes of it, and what
is said before. -/
inductive Treats (n : InternalNode) (a : ActorId) (p : ProcessActor) :
    ProcessMessage → ProcessActor → Role × List Action → List Output → Prop
  | answer (peer : SPtr) (answer : Answer)
      (pending : p.queries[(answerId answer).toInt64]? = some true) :
      Treats n a p (.receive peer answer)
        { p with queries := p.queries.insert (answerId answer).toInt64 false }
        (p.role.onNewAnswer n.objects answer) [.onNewAnswer a (answerId answer).toInt64 answer]
  | timeout (c : Int64) (asked : p.queries[c]?.isSome) :
      Treats n a p (.processTimeout c) { p with queries := p.queries.insert c false }
        (p.role.onAnswerTimeout n.objects) [.onAnswerTimeout a c]
  | other (m : ProcessMessage) (receive : ∀ peer answer, m ≠ .receive peer answer)
      (timeout : ∀ c, m ≠ .processTimeout c) :
      Treats n a p m p (p.role.treat n.objects n.id m) []

/-- The handler has done what it does. -/
structure Acted (n n' : InternalNode) (a : ActorId) (p : ProcessActor) (r : Role × List Action)
    (said : List Output) : Prop where
  actors : ∃ q, n'.actors = n.actors.insert a q ∧ Became n.processActorsCount p q r
  out : n'.out = n.out ++ (said ++ acted n.objects n.id a n.processActorsCount r.2)
  messages : n'.messages = n.messages ++ posted a r.2
  timeouts : ∃ ms, n'.timeouts = n.timeouts ++ ms ∧ ∀ m ∈ ms, m.isTimer ∨ .timeout m ∈ r.2
  actorCount : n'.actorCount = n.actorCount
  objects : n'.objects = n.objects

/-- A message to a process actor: there is no such actor or the message is stale, or the manager
deletes the actor, or it takes the message. -/
theorem treatProcess_cases (n : InternalNode) (a : ActorId) (m : ProcessMessage) :
    n.treatProcess a m = n ∨
    (∃ p, n.actors[a]? = some p ∧ p.alive = false ∧ n.treatProcess a m = n.destroy a p) ∨
    ∃ p₀ p r said, n.actors[a]? = some p₀ ∧ p₀.alive = true ∧ Treats n a p₀ m p r said ∧
      Acted n (n.treatProcess a m) a p r said := by
  unfold treatProcess
  cases hp : n.actors[a]? with
  | none => exact .inl rfl
  | some p =>
    cases halive : p.alive with
    | false => exact .inr (.inl ⟨p, rfl, halive, by simp [halive]⟩)
    | true =>
      simp only [halive, if_true]
      have hacted : ∀ (c : Int64) (o : Output) (q : ProcessActor) (r : Role × List Action),
          Acted n (((n.unregisterConnectionId c).emit o).run a q r) a q r [o] := fun c o q r => by
        have h := run_ran ((n.unregisterConnectionId c).emit o) a q r
        exact ⟨h.actors, h.out.trans (List.append_assoc ..), h.messages, h.timeouts, h.actorCount,
          h.objects⟩
      have htold : (∀ peer answer, m ≠ .receive peer answer) → (∀ c, m ≠ .processTimeout c) →
          ∃ p₀ q r said, some p = some p₀ ∧ p₀.alive = true ∧ Treats n a p₀ m q r said ∧
            Acted n (n.run a p (p.role.treat n.objects n.id m)) a q r said := fun h₁ h₂ => by
        have h := run_ran n a p (p.role.treat n.objects n.id m)
        exact ⟨p, p, _, [], rfl, halive, .other m h₁ h₂, h.actors, h.out, h.messages, h.timeouts,
          h.actorCount, h.objects⟩
      cases m with
      | receive peer answer =>
        simp only [treatReceive]
        split
        · rename_i hpending
          exact .inr (.inr ⟨p, _, _, _, rfl, halive, .answer peer answer hpending, hacted _ _ _ _⟩)
        · exact .inl rfl
      | processTimeout c =>
        simp only [treatTimeout]
        split
        · rename_i hasked
          exact .inr (.inr ⟨p, _, _, _, rfl, halive, .timeout c hasked, hacted _ _ _ _⟩)
        · exact .inl rfl
      | timeout => exact .inr (.inr (htold nofun nofun))
      | findSuccess peers => exact .inr (.inr (htold nofun nofun))
      | findFailure => exact .inr (.inr (htold nofun nofun))
      | empty => exact .inr (.inr (htold nofun nofun))

theorem findClosest_ran {n n' : InternalNode} {cb : FindCallback} {count : Int} {idToFind : Id}
    (h : n.findClosest cb count idToFind = some n') :
    ∃ nearest, n.kbucket.findNearestNodes n.objects idToFind count = some nearest ∧
      Ran (n.add (.finder (.new idToFind count cb))) n' n.actorCount
        ⟨true, ∅, .finder (.new idToFind count cb)⟩
        (.finder ((FinderActor.new idToFind count cb).start n.objects nearest).1,
          ((FinderActor.new idToFind count cb).start n.objects nearest).2) := by
  obtain ⟨nearest, hnearest, rfl⟩ := Option.map_eq_some_iff.mp h
  exact ⟨nearest, hnearest, run_ran _ _ _ _⟩

end InternalNode
end Epyx.DHT
