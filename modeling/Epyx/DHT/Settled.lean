import Epyx.DHT.ConnectionIds

/-! How often a query is settled. An answer settles it only while it is pending; its timeout, which
nothing cancels, settles it whatever came before. -/
namespace Epyx.DHT
open Lib
open Std (ExtTreeMap)

namespace Output

/-- `sendQuery` of the actor `a` returned `c`. -/
def obtains (a : ActorId) (c : Int64) : Output → Bool
  | .query actor id _ => actor = a ∧ id = c
  | _ => false

/-- `onNewAnswer` or `onAnswerTimeout` of the actor `a` was called for `c`. -/
def settles (a : ActorId) (c : Int64) : Output → Bool
  | .onNewAnswer actor id _ | .onAnswerTimeout actor id => actor = a ∧ id = c
  | _ => false

end Output

/-- How often the actor `a` has obtained the id `c`. -/
def obtained (a : ActorId) (c : Int64) (log : List Output) : Nat := log.countP (Output.obtains a c)

def settled (a : ActorId) (c : Int64) (log : List Output) : Nat := log.countP (Output.settles a c)

/-- One if the query is pending. -/
def pending (queries : ExtTreeMap Int64 Bool) (c : Int64) : Nat :=
  if queries[c]? = some true then 1 else 0

theorem pending_insert (queries : ExtTreeMap Int64 Bool) (c d : Int64) (b : Bool) :
    pending (queries.insert d b) c = if d = c then b.toNat else pending queries c := by
  unfold pending
  rw [ExtTreeMap.getElem?_insert]
  by_cases h : d = c
  · subst h; cases b <;> simp
  · simp [h]

theorem pending_empty (c : Int64) : pending ∅ c = 0 := by simp [pending]

namespace InternalNode

def pendingOf (n : InternalNode) (a : ActorId) (c : Int64) : Nat :=
  match n.actors[a]? with
  | some p => pending p.queries c
  | none => 0

/-- Every id an actor has obtained pays for one settlement, as long as it is pending for one to
come. `log` is what the node has put out before the step that is under way. -/
def Balanced (log : List Output) (n : InternalNode) : Prop :=
  ∀ a c, settled a c (log ++ n.out) + n.pendingOf a c ≤ obtained a c (log ++ n.out)

/-- The same while a handler of the actor `a` has the actor. -/
structure BalancedIn (log : List Output) (a : ActorId) (n : InternalNode) (p : ProcessActor) :
    Prop where
  others : ∀ b c, b ≠ a → settled b c (log ++ n.out) + n.pendingOf b c ≤
    obtained b c (log ++ n.out)
  self : ∀ c, settled a c (log ++ n.out) + pending p.queries c ≤ obtained a c (log ++ n.out)

/-- An output that says nothing about queries. -/
def Quiet (o : Output) : Prop := ∀ a c, o.obtains a c = false ∧ o.settles a c = false

theorem obtained_emit (log : List Output) (n : InternalNode) (o : Output) (a : ActorId)
    (c : Int64) : obtained a c (log ++ (n.emit o).out) =
      obtained a c (log ++ n.out) + (o.obtains a c).toNat := by
  cases h : o.obtains a c <;> simp [obtained, emit, List.countP_append, h, Nat.add_assoc]

theorem settled_emit (log : List Output) (n : InternalNode) (o : Output) (a : ActorId)
    (c : Int64) : settled a c (log ++ (n.emit o).out) =
      settled a c (log ++ n.out) + (o.settles a c).toNat := by
  cases h : o.settles a c <;> simp [settled, emit, List.countP_append, h, Nat.add_assoc]

theorem BalancedIn.emit {log : List Output} {a : ActorId} {n : InternalNode} {p : ProcessActor}
    (h : BalancedIn log a n p) {o : Output} (ho : Quiet o) : BalancedIn log a (n.emit o) p := by
  constructor
  · intro b c hb
    rw [settled_emit, obtained_emit, (ho b c).1, (ho b c).2]
    exact h.others b c hb
  · intro c
    rw [settled_emit, obtained_emit, (ho a c).1, (ho a c).2]
    exact h.self c

theorem quiet_send (dest : N2NP.NodeId) (pkt : Packet) : Quiet (.send dest pkt) := fun _ _ =>
  ⟨rfl, rfl⟩

theorem quiet_call (a : ActorId) (callback : Callback) : Quiet (.call a callback) := fun _ _ =>
  ⟨rfl, rfl⟩

theorem BalancedIn.sendQuery {log : List Output} {a : ActorId} {n : InternalNode}
    {p : ProcessActor} (h : BalancedIn log a n p) (peer : SPtr) (query : Query) :
    BalancedIn log a (n.sendQuery a p peer query).1 (n.sendQuery a p peer query).2 := by
  let o : Output := .query a n.processActorsCount query
  have hn : BalancedIn log a ((n.registerNewConnectionId a).emit o)
      { p with queries := p.queries.insert n.processActorsCount true } := by
    constructor
    · intro b c hb
      have hob : o.obtains b c = false := by simp [o, Output.obtains, Ne.symm hb]
      rw [settled_emit, obtained_emit, hob]
      exact h.others b c hb
    · intro c
      have hs := h.self c
      rw [settled_emit, obtained_emit, pending_insert]
      show settled a c (log ++ n.out) + _ + _ ≤ obtained a c (log ++ n.out) + _
      by_cases hc : n.processActorsCount = c
      · simp [o, Output.obtains, Output.settles, hc]; omega
      · simp [o, Output.obtains, Output.settles, hc]; omega
  exact ⟨(hn.emit (quiet_send _ _)).others, (hn.emit (quiet_send _ _)).self⟩

theorem BalancedIn.perform {log : List Output} {a : ActorId} {s : InternalNode × ProcessActor}
    (h : BalancedIn log a s.1 s.2) (x : Action) :
    BalancedIn log a (perform a s x).1 (perform a s x).2 := by
  cases x with
  | sendQuery peer query => exact h.sendQuery peer query
  | post actor message => exact ⟨h.others, h.self⟩
  | timeout message => exact ⟨h.others, h.self⟩
  | call callback => exact h.emit (quiet_call a callback)
  | kill => exact ⟨h.others, h.self⟩

theorem BalancedIn.run {log : List Output} {a : ActorId} {n : InternalNode} {p : ProcessActor}
    (h : BalancedIn log a n p) (r : Role × List Action) : Balanced log (n.run a p r) := by
  have hfold : ∀ (xs : List Action) (s : InternalNode × ProcessActor),
      BalancedIn log a s.1 s.2 →
        BalancedIn log a (xs.foldl (InternalNode.perform a) s).1
          (xs.foldl (InternalNode.perform a) s).2 := by
    intro xs
    induction xs with
    | nil => exact fun s hs => hs
    | cons x xs ih => exact fun s hs => ih _ (hs.perform x)
  have hs := hfold r.2 (n, { p with role := r.1 }) ⟨h.others, h.self⟩
  intro b c
  by_cases hb : b = a
  · subst hb
    simpa [InternalNode.run, pendingOf, ExtTreeMap.getElem?_insert] using hs.self c
  · have hab : ¬a = b := fun h => hb h.symm
    simpa [InternalNode.run, pendingOf, ExtTreeMap.getElem?_insert, hab] using hs.others b c hb

theorem Balanced.actor {log : List Output} {n : InternalNode} (h : Balanced log n) {a : ActorId}
    {p : ProcessActor} (hp : n.actors[a]? = some p) : BalancedIn log a n p := by
  refine ⟨fun b c _ => h b c, fun c => ?_⟩
  simpa [pendingOf, hp] using h a c

/-- A settlement is paid for by a query that was pending and is not any more. -/
theorem Balanced.settle {log : List Output} {n : InternalNode} (h : Balanced log n) {a : ActorId}
    {p : ProcessActor} (hp : n.actors[a]? = some p) {c : Int64} (hc : p.queries[c]? = some true)
    {o : Output} (ho : ∀ b d, o.obtains b d = false ∧ o.settles b d = decide (a = b ∧ c = d)) :
    BalancedIn log a ((n.unregisterConnectionId c).emit o)
      { p with queries := p.queries.insert c false } := by
  have hout : (n.unregisterConnectionId c).out = n.out := rfl
  have hin := h.actor hp
  constructor
  · intro b d hb
    have hpend : ((n.unregisterConnectionId c).emit o).pendingOf b d = n.pendingOf b d := rfl
    rw [settled_emit, obtained_emit, (ho b d).1, (ho b d).2, hout, hpend]
    simpa [Ne.symm hb] using hin.others b d hb
  · intro d
    have hs := hin.self d
    rw [settled_emit, obtained_emit, (ho a d).1, (ho a d).2, hout, pending_insert]
    by_cases hd : c = d
    · subst hd
      simpa [pending, hc] using hs
    · simpa [hd] using hs

theorem Balanced.treatReceive {log : List Output} {n : InternalNode} (h : Balanced log n)
    {a : ActorId} {p : ProcessActor} (hp : n.actors[a]? = some p) (answer : Answer) :
    Balanced log (n.treatReceive a p answer) := by
  unfold InternalNode.treatReceive
  dsimp only
  split
  · rename_i hc
    exact (h.settle hp hc fun b d => ⟨rfl, rfl⟩).run _
  · exact h

theorem Balanced.treatTimeout {log : List Output} {n : InternalNode} (h : Balanced log n)
    {a : ActorId} {p : ProcessActor} (hp : n.actors[a]? = some p) {c : Int64}
    (hc : p.queries[c]? ≠ some false) : Balanced log (n.treatTimeout a p c) := by
  unfold InternalNode.treatTimeout
  split
  · rename_i hs
    obtain ⟨b, hb⟩ := Option.isSome_iff_exists.mp hs
    cases b with
    | false => exact absurd hb hc
    | true => exact (h.settle hp hb fun b d => ⟨rfl, rfl⟩).run _
  · exact h

theorem Balanced.destroy {log : List Output} {n : InternalNode} (h : Balanced log n)
    (a : ActorId) (p : ProcessActor) : Balanced log (n.destroy a p) := by
  obtain ⟨r, hr⟩ := foldl_unregister p.queries.keys n
  intro b c
  have hb := h b c
  simp only [InternalNode.destroy, hr, pendingOf, ExtTreeMap.getElem?_erase] at hb ⊢
  split
  · rename_i q hq
    split at hq
    · cases hq
    · simpa [hq] using hb
  · omega

/-- The worker does not take the timeout of a query that has been settled. -/
def timeoutPending (n : InternalNode) : Event → Bool
  | .work k _ =>
    match n.messages[k]? with
    | some (.process a (.processTimeout c)) =>
      match n.actors[a]? with
      | some p => !(p.alive && p.queries[c]? == some false)
      | none => true
    | _ => true
  | _ => true

theorem timeoutPending_work {n : InternalNode} {k : Nat} {keyId : Id}
    (h : n.timeoutPending (.work k keyId)) {a : ActorId} {c : Int64} {p : ProcessActor}
    (hm : n.messages[k]? = some (.process a (.processTimeout c))) (hp : n.actors[a]? = some p)
    (ha : p.alive) : p.queries[c]? ≠ some false := by
  simpa [timeoutPending, hm, hp, ha] using h

theorem Balanced.treatProcess {log : List Output} {n : InternalNode} (h : Balanced log n)
    (a : ActorId) (m : ProcessMessage) (hm : ∀ c p, m = .processTimeout c →
      n.actors[a]? = some p → p.alive → p.queries[c]? ≠ some false) :
    Balanced log (n.treatProcess a m) := by
  unfold InternalNode.treatProcess
  cases hp : n.actors[a]? with
  | none => exact h
  | some p =>
    dsimp only
    by_cases ha : p.alive
    · rw [if_pos ha]
      cases m with
      | receive peer answer => exact h.treatReceive hp answer
      | processTimeout c => exact h.treatTimeout hp (hm c p rfl hp ha)
      | _ => exact (h.actor hp).run _
    · rw [if_neg ha]
      exact h.destroy a p

theorem Balanced.add {log : List Output} {n : InternalNode} (h : Balanced log n) (role : Role) :
    Balanced log (n.add role) := by
  intro b c
  have hb := h b c
  by_cases hn : n.actorCount = b
  · simp only [InternalNode.add, arm, pendingOf, ExtTreeMap.getElem?_insert, hn, Std.compare_self,
      if_true, pending_empty]
    omega
  · simpa [InternalNode.add, arm, pendingOf, ExtTreeMap.getElem?_insert, hn] using hb

theorem Balanced.findClosest {log : List Output} {n n' : InternalNode} (h : Balanced log n)
    {cb : FindCallback} {count : Int} {idToFind : Id}
    (hn : n.findClosest cb count idToFind = some n') : Balanced log n' := by
  obtain ⟨nearest, -, rfl⟩ := Option.map_eq_some_iff.mp hn
  refine ((h.add _).actor ?_).run _
  simp [InternalNode.add, arm]

theorem Balanced.aside {log : List Output} {n n' : InternalNode} (h : Balanced log n)
    (ha : Aside n n') : Balanced log n' := by
  obtain ⟨out, hout, haside⟩ := ha.out
  have hs : ∀ b d, settled b d out = 0 := fun b d => List.countP_eq_zero.mpr fun o ho => by
    have h := haside o ho
    cases o <;> first | exact Bool.false_ne_true | cases h
  intro b d
  have hb := h b d
  have hpend : n'.pendingOf b d = n.pendingOf b d := by rw [pendingOf, pendingOf, ha.actors]
  have hle : obtained b d (log ++ n.out) ≤ obtained b d (log ++ n'.out) := by
    rw [hout, ← List.append_assoc]
    exact (List.sublist_append_left _ _).countP_le
  have heq : settled b d (log ++ n'.out) = settled b d (log ++ n.out) := by
    rw [hout, ← List.append_assoc, settled, List.countP_append, ← settled, ← settled, hs]
    rfl
  omega

theorem Balanced.handle {log : List Output} {n n' : InternalNode}
    (h : Balanced log n) {e : Event} (he : n.timeoutPending e)
    (hn : n.handle e = some n') : Balanced log n' := by
  refine handle_rule (P := Balanced log) (fun h ha => h.aside ha) (fun role h => h.add role)
    (fun h hf => h.findClosest hf) h (fun k keyId a m hk hm ht => ?_) hn
  subst hk
  exact ht.treatProcess a m fun c p hc => timeoutPending_work he (hc ▸ hm)

/-- As long as no timeout is handled for a query that is not pending any more, no id is settled
more often than it was obtained. -/
theorem settled_le_obtained {id : Id} {n2npId : N2NP.NodeId}
    {processActorsCount : Int64} {n : InternalNode} {log : List Output}
    (run : machine.Run (fun n _ e => n.timeoutPending e)
      (.new id n2npId processActorsCount) n log) (a : ActorId) (c : Int64) :
    settled a c log ≤ obtained a c log := by
  have h : Balanced log n ∧ n.out = [] := by
    refine run.invariant (P := fun n log => Balanced log n ∧ n.out = []) ?_ ?_
    · exact ⟨fun b d => by simp [new, pendingOf, settled], rfl⟩
    · rintro n log e n' out ⟨hb, -⟩ he hn
      obtain ⟨n₁, hn₁, heq⟩ := Option.map_eq_some_iff.mp hn
      cases heq
      refine ⟨fun b d => ?_, rfl⟩
      simpa [pendingOf] using hb.handle he hn₁ b d
  have hac := h.1 a c
  rw [h.2, List.append_nil] at hac
  omega

theorem obtained_le_one {id : Id} {n2npId : N2NP.NodeId}
    {start : Int64} {ok : InternalNode → List Output → Event → Prop} {n : InternalNode}
    {log : List Output} (run : machine.Run ok (.new id n2npId start) n log)
    (hlog : (issued log).length ≤ 2 ^ 64) (a : ActorId) (c : Int64) : obtained a c log ≤ 1 := by
  have hnodup : (issued log).Nodup := by
    rw [issued_eq run]
    exact nodup_idsFrom start hlog
  have hle : obtained a c log ≤ (issued log).count c := by
    rw [List.count, issued, List.countP_filterMap]
    refine List.countP_mono_left fun o _ ho => ?_
    cases o with
    | query actor id query =>
      have hc : id = c := by simp_all [Output.obtains]
      simp [Output.issued, hc]
    | _ => cases ho
  exact hle.trans (List.nodup_iff_count_le_one.mp hnodup c)

/-- Each id is settled at most once in every run in which no timeout is handled for a query that
is not pending any more. -/
theorem settled_once {id : Id} {n2npId : N2NP.NodeId}
    {processActorsCount : Int64} {n : InternalNode} {log : List Output}
    (run : machine.Run (fun n _ e => n.timeoutPending e)
      (.new id n2npId processActorsCount) n log) (a : ActorId) (c : Int64) :
    settled a c log ≤ obtained a c log ∧
      ((issued log).length ≤ 2 ^ 64 → obtained a c log ≤ 1) :=
  ⟨settled_le_obtained run a c, fun hlog => obtained_le_one run hlog a c⟩

/-- A node learns of two peers and asks both for an id; one answers, and its answer is handled. -/
def answered : List Event :=
  let p := Peer.numbered 1
  let q := Peer.numbered 2
  [.receive ⟨p.id, .ping⟩ p.n2npId 0, .receive ⟨q.id, .ping⟩ q.n2npId 0,
    .findClosest 2 .zero, .receive ⟨p.id, .found 0 0 1 [p]⟩ p.n2npId 1, .work 2 .zero]

/-- Then the query to the other peer times out. -/
theorem settled_once_timeout :
    ∃ n log, machine.Run (fun n _ e => n.timeoutPending e)
        (.new (Peer.numbered 7).id (Peer.numbered 7).n2npId 0) n log ∧ settled 5 1 log = 1 ∧
      settled 5 1 log ≤ obtained 5 1 log ∧
        ((issued log).length ≤ 2 ^ 64 → obtained 5 1 log ≤ 1) := by
  have h : (machine.exec (fun n _ e => n.timeoutPending e)
      (.new (Peer.numbered 7).id (Peer.numbered 7).n2npId 0, [])
      (answered ++ [.expire 2, .work 2 .zero])).map
        (fun r => settled 5 1 r.2) = some 1 := by
    decide +kernel
  obtain ⟨⟨n, log⟩, hrun, hlog⟩ := Option.map_eq_some_iff.mp h
  have run := Machine.Run.exec .start hrun
  exact ⟨n, log, run, hlog, settled_once run 5 1⟩

/-- Or the timeout of the query that was answered is handled as well. -/
theorem settled_twice :
    ∃ n log, machine.Run (fun _ _ _ => True)
        (.new (Peer.numbered 7).id (Peer.numbered 7).n2npId 0) n log ∧
      obtained 5 0 log = 1 ∧ settled 5 0 log = 2 := by
  have h : (machine.exec (fun _ _ _ => true)
      (.new (Peer.numbered 7).id (Peer.numbered 7).n2npId 0, [])
      (answered ++ [.expire 1, .work 2 .zero])).map
        (fun r => (obtained 5 0 r.2, settled 5 0 r.2)) = some (1, 2) := by
    decide +kernel
  obtain ⟨⟨n, log⟩, hrun, hlog⟩ := Option.map_eq_some_iff.mp h
  exact ⟨n, log, (Machine.Run.exec .start hrun).free,
    congrArg Prod.fst hlog, congrArg Prod.snd hlog⟩

end InternalNode
end Epyx.DHT
