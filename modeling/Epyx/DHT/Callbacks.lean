import Epyx.DHT.Settled
import Epyx.DHT.Steps

/-! The callbacks of the user: the one that ends an operation is the last one, whatever messages
are still on their way to its actor. -/
namespace Epyx.DHT
open Lib
open Std (ExtTreeMap)

/-- The callback tells the user how the operation ended. -/
def Callback.terminal : Callback → Bool
  | .onFoundPeers _ => false
  | _ => true

/-- The callbacks that were called for the actor `a`, in their order. -/
def callsOf (a : ActorId) (log : List Output) : List Callback :=
  log.filterMap fun
    | .call actor cb => if actor = a then some cb else none
    | _ => none

@[simp] theorem callsOf_append (a : ActorId) (log out : List Output) :
    callsOf a (log ++ out) = callsOf a log ++ callsOf a out := List.filterMap_append

def Action.callback : Action → Option Callback
  | .call cb => some cb
  | _ => none

/-- What a handler does has no end of the operation in it, or is that end: the callback, and then
the actor kills itself. -/
def Closes (xs : List Action) : Prop :=
  (∀ cb, .call cb ∈ xs → cb.terminal = false) ∨ ∃ cb, xs = [.call cb, .kill]

theorem Closes.quiet {xs : List Action} (h : ∀ cb, .call cb ∉ xs) : Closes xs :=
  .inl fun cb hcb => absurd hcb (h cb)

namespace FinderActor

theorem sendFindQueryTo_closes (objects : Peers) (f : FinderActor) (p : SPtr) :
    Closes (sendFindQueryTo objects f p).2 := .quiet fun cb h => by simp [sendFindQueryTo] at h

theorem timeout_closes (f : FinderActor) : Closes f.timeout.2 := by
  unfold timeout
  cases f.callback with
  | user => exact .inr ⟨_, rfl⟩
  | search parent => exact .quiet fun cb h => by simp [FindCallback.onError] at h

theorem onResponse_closes (objects : Peers) (f : FinderActor) :
    Closes (onResponse objects f).2 := by
  unfold onResponse
  dsimp only
  split
  · rename_i r hr
    obtain ⟨x, -, rfl⟩ := Option.map_eq_some_iff.mp hr
    exact sendFindQueryTo_closes objects _ _
  · split
    · cases f.callback with
      | user => exact .inr ⟨_, rfl⟩
      | search parent => exact .quiet fun cb h => by simp [FindCallback.onFound] at h
    · exact .quiet fun cb h => by simp at h

theorem onNewAnswer_closes (objects : Peers) (f : FinderActor) (answer : Answer) :
    Closes (f.onNewAnswer objects answer).2 := by
  cases answer <;> exact onResponse_closes objects _

theorem sendQueries_quiet (objects : Peers) (f : FinderActor) (ps : List SPtr) (cb : Callback) :
    .call cb ∉ (sendQueries objects f ps).2 := by
  induction ps generalizing f with
  | nil => simp [sendQueries]
  | cons p ps ih => simpa [sendQueries, sendFindQueryTo] using ih _

end FinderActor

namespace GetterActor

theorem timeout_closes (g : GetterActor) : Closes g.timeout.2 := .inr ⟨_, rfl⟩

theorem onGetResponse_closes (g : GetterActor) : Closes g.onGetResponse.2 := by
  unfold onGetResponse
  dsimp only
  split
  · exact timeout_closes _
  · exact .quiet fun cb h => by simp at h

theorem onNewAnswer_closes (g : GetterActor) (answer : Answer) :
    Closes (g.onNewAnswer answer).2 := by
  cases answer with
  | got connectionId status value =>
    rw [onNewAnswer]
    split
    · exact .inr ⟨_, rfl⟩
    · exact onGetResponse_closes g
  | _ => exact onGetResponse_closes g

theorem treatFindSuccess_closes (g : GetterActor) (peers : List SPtr) :
    Closes (g.treatFindSuccess peers).2 := .quiet fun cb h => by
  simp [treatFindSuccess, ask] at h

end GetterActor

namespace SetterActor

theorem timeout_closes (s : SetterActor) : Closes s.timeout.2 := by
  unfold timeout
  cases s.callback with
  | user edit => exact .inr ⟨_, rfl⟩
  | replicater isHandlingKey key => exact .quiet fun cb h => by simp [SetCallback.onError] at h

theorem onSetReceive_closes (s : SetterActor) : Closes s.onSetReceive.2 := by
  unfold onSetReceive
  dsimp only
  split
  · split
    · cases s.callback with
      | user edit => exact .inr ⟨_, rfl⟩
      | replicater isHandlingKey key =>
        refine .quiet fun cb h => ?_
        cases isHandlingKey <;> simp [SetCallback.onSet] at h
    · exact timeout_closes _
  · exact .quiet fun cb h => by simp at h

theorem onNewAnswer_closes (s : SetterActor) (answer : Answer) :
    Closes (s.onNewAnswer answer).2 := by
  cases answer with
  | stored connectionId status =>
    rw [onNewAnswer]
    split <;> exact onSetReceive_closes _
  | _ => exact onSetReceive_closes _

theorem treatFindSuccess_closes (objects : Peers) (self : Id) (s : SetterActor)
    (peers : List SPtr) : Closes (s.treatFindSuccess objects self peers).2 := by
  refine .inl fun cb h => ?_
  rcases List.mem_append.mp h with h | h
  · cases hc : s.callback with
    | user edit =>
      rw [hc, SetCallback.onFoundPeers, List.mem_singleton] at h
      cases h
      rfl
    | replicater isHandlingKey key => simp [hc, SetCallback.onFoundPeers] at h
  · simp [ask] at h

end SetterActor

theorem Role.Handler.closes {r : Role} {s : Role × List Action} (h : r.Handler s) : Closes s.2 := by
  cases h with
  | answer objects answer =>
    cases r with
    | finder f => exact f.onNewAnswer_closes objects answer
    | getter g => exact g.onNewAnswer_closes answer
    | setter s => exact s.onNewAnswer_closes answer
  | answerTimeout objects =>
    cases r with
    | finder f => exact FinderActor.onResponse_closes objects f
    | getter g => exact g.onGetResponse_closes
    | setter s => exact SetterActor.onSetReceive_closes _
  | message objects self m =>
    have hnone : Closes [] := .quiet fun cb h => by simp at h
    cases r with
    | finder f =>
      cases m with
      | timeout => exact f.timeout_closes
      | _ => exact hnone
    | getter g =>
      cases m with
      | timeout | findFailure => exact g.timeout_closes
      | findSuccess peers => exact g.treatFindSuccess_closes peers
      | _ => exact hnone
    | setter s =>
      cases m with
      | timeout | findFailure => exact s.timeout_closes
      | findSuccess peers => exact s.treatFindSuccess_closes objects self peers
      | _ => exact hnone
  | start objects f nearest => exact .quiet (FinderActor.sendQueries_quiet objects _ _)

namespace InternalNode

theorem run_calls (n : InternalNode) (a b : ActorId) (p : ProcessActor) (r : Role × List Action) :
    callsOf b (n.run a p r).out =
      callsOf b n.out ++ if b = a then r.2.filterMap Action.callback else [] := by
  have hfold : ∀ (xs : List Action) (s : InternalNode × ProcessActor),
      callsOf b (xs.foldl (perform a) s).1.out =
        callsOf b s.1.out ++ if b = a then xs.filterMap Action.callback else [] := by
    intro xs
    induction xs with
    | nil => simp
    | cons x xs ih =>
      intro s
      rw [List.foldl_cons, ih]
      cases x with
      | call cb =>
        by_cases hb : b = a
        · simp [perform, InternalNode.emit, callsOf, Action.callback, hb]
        · simp [perform, InternalNode.emit, callsOf, hb, Ne.symm hb]
      | sendQuery peer query =>
        simp [perform, sendQuery, send, arm, registerNewConnectionId, InternalNode.emit, callsOf,
          Action.callback, List.filterMap_cons]
      | _ => simp [perform, post, arm, Action.callback, List.filterMap_cons]
  exact hfold r.2 _

/-- A handler that kills its actor leaves it dead. -/
theorem run_kill {n : InternalNode} {a : ActorId} {p q : ProcessActor} {r : Role × List Action}
    (hk : .kill ∈ r.2) (hq : (n.run a p r).actors[a]? = some q) : q.alive = false := by
  have hstays : ∀ (xs : List Action) (s : InternalNode × ProcessActor), s.2.alive = false →
      (xs.foldl (perform a) s).2.alive = false := by
    intro xs
    induction xs with
    | nil => exact fun s hs => hs
    | cons x xs ih =>
      refine fun s hs => ih _ ?_
      cases x <;> first | exact hs | rfl
  have hfold : ∀ (xs : List Action) (s : InternalNode × ProcessActor), .kill ∈ xs →
      (xs.foldl (perform a) s).2.alive = false := by
    intro xs
    induction xs with
    | nil => exact fun s hs => nomatch hs
    | cons x xs ih =>
      intro s hs
      rcases List.mem_cons.mp hs with rfl | hs
      · exact hstays xs _ rfl
      · exact ih _ hs
  rw [run, ExtTreeMap.getElem?_insert_self] at hq
  cases hq
  exact hfold r.2 _ hk

/-- No callback but the last one is terminal, and behind a terminal one the actor is dead. -/
structure Ended (log : List Output) (n : InternalNode) : Prop where
  placed : Placed n
  last : ∀ a, ∀ cb ∈ (callsOf a (log ++ n.out)).dropLast, cb.terminal = false
  live : ∀ a p, n.actors[a]? = some p → p.alive →
    ∀ cb ∈ callsOf a (log ++ n.out), cb.terminal = false
  unmade : ∀ a, n.actorCount ≤ a → ∀ cb ∈ callsOf a (log ++ n.out), cb.terminal = false

theorem Ended.congr {log : List Output} {n n' : InternalNode} (h : Ended log n)
    (hactors : n'.actors = n.actors) (hcount : n'.actorCount = n.actorCount)
    (hcalls : ∀ a, callsOf a n'.out = callsOf a n.out) : Ended log n' := by
  have hall : ∀ a, callsOf a (log ++ n'.out) = callsOf a (log ++ n.out) := fun a => by
    rw [callsOf_append, callsOf_append, hcalls]
  refine ⟨fun a p hp => ?_, fun a => ?_, fun a p hp ha => ?_, fun a ha => ?_⟩
  · rw [hcount]
    exact h.placed a p (hactors ▸ hp)
  · rw [hall]
    exact h.last a
  · rw [hall]
    exact h.live a p (hactors ▸ hp) ha
  · rw [hall]
    exact h.unmade a (hcount ▸ ha)

/-- Either nothing terminal is called, or it is the only call and the actor is dead now. -/
theorem closes_calls {n : InternalNode} {a : ActorId} {p q : ProcessActor}
    {r : Role × List Action} (hr : Closes r.2) (hq : (n.run a p r).actors[a]? = some q) :
    (∀ cb ∈ r.2.filterMap Action.callback, cb.terminal = false) ∨
      ∃ cb, r.2.filterMap Action.callback = [cb] ∧ q.alive = false := by
  rcases hr with hr | ⟨cb, hr⟩
  · refine .inl fun cb hcb => ?_
    obtain ⟨x, hx, hxcb⟩ := List.mem_filterMap.mp hcb
    cases x with
    | call cb' =>
      cases hxcb
      exact hr cb hx
    | _ => cases hxcb
  · have hkill : .kill ∈ r.2 := by simp [hr]
    exact .inr ⟨cb, by rw [hr]; rfl, run_kill hkill hq⟩

theorem Ended.run {log : List Output} {n : InternalNode} (h : Ended log n) {a : ActorId}
    {p : ProcessActor} (hp : n.actors[a]? = some p) (ha : p.alive) (p' : ProcessActor)
    {r : Role × List Action} (hr : Closes r.2) : Ended log (n.run a p' r) := by
  obtain ⟨⟨q, hactors⟩, hcount⟩ := run_frame n a p' r
  have hcalls : ∀ b, callsOf b (log ++ (n.run a p' r).out) =
      callsOf b (log ++ n.out) ++ if b = a then r.2.filterMap Action.callback else [] := fun b => by
    rw [callsOf_append, run_calls, callsOf_append, List.append_assoc]
  have hlt := h.placed a p hp
  have hself := h.live a p hp ha
  have hq : (n.run a p' r).actors[a]? = some q := by
    rw [hactors, ExtTreeMap.getElem?_insert_self]
  have hkind := closes_calls hr hq
  refine ⟨h.placed.run hlt p' r, fun b cb hcb => ?_, fun b q' hq' ha' cb hcb => ?_,
    fun b hb cb hcb => ?_⟩
  · rw [hcalls] at hcb
    by_cases hb : b = a
    · subst hb
      rw [if_pos rfl] at hcb
      rcases hkind with hkind | ⟨cb', hkind, -⟩
      · rcases List.mem_append.mp (List.dropLast_subset _ hcb) with hcb | hcb
        · exact hself cb hcb
        · exact hkind cb hcb
      · rw [hkind, List.dropLast_concat] at hcb
        exact hself cb hcb
    · rw [if_neg hb, List.append_nil] at hcb
      exact h.last b cb hcb
  · rw [hactors] at hq'
    rw [hcalls] at hcb
    rcases Lib.TreeMap.of_getElem?_insert hq' with ⟨rfl, rfl⟩ | ⟨hb, hq'⟩
    · rw [if_pos rfl] at hcb
      rcases hkind with hkind | ⟨-, -, hdead⟩
      · rcases List.mem_append.mp hcb with hcb | hcb
        · exact hself cb hcb
        · exact hkind cb hcb
      · rw [hdead] at ha'
        cases ha'
    · rw [if_neg (Ne.symm hb), List.append_nil] at hcb
      exact h.live b q' hq' ha' cb hcb
  · rw [hcount] at hb
    have hne : b ≠ a := fun he => absurd hlt (Nat.not_lt.mpr (he ▸ hb))
    rw [hcalls, if_neg hne, List.append_nil] at hcb
    exact h.unmade b hb cb hcb

theorem Ended.part {log : List Output} {n n' : InternalNode} (h : Ended log n) (hp : Part n n') :
    Ended log n' := by
  cases hp with
  | aside ha =>
    obtain ⟨out, hout, hall⟩ := ha.out
    refine h.congr ha.actors ha.actorCount fun a => ?_
    have hnone : callsOf a out = [] :=
      Output.filterMap_aside hall (fun _ _ => rfl) fun _ _ => rfl
    rw [hout, callsOf_append, hnone, List.append_nil]
  | add role =>
    refine ⟨Part.placed (.add role) h.placed, h.last, fun a p hp ha => ?_, fun a ha => ?_⟩
    · rcases Lib.TreeMap.of_getElem?_insert hp with ⟨rfl, -⟩ | ⟨-, hp⟩
      · exact h.unmade _ (Nat.le_refl _)
      · exact h.live a p hp ha
    · exact h.unmade a (Nat.le_of_succ_le ha)
  | handler hp ha hr => exact h.run hp ha _ hr.closes
  | @settle a p c o r hp ha hc ho hr =>
    have hcalls : ∀ b, callsOf b ((n.unregisterConnectionId c).emit o).out = callsOf b n.out :=
      fun b => by
        have hno : callsOf b [o] = [] := by
          rcases ho with ⟨answer, rfl⟩ | rfl <;> rfl
        simp [InternalNode.emit, unregisterConnectionId, hno]
    have hsettled : Ended _ ((n.unregisterConnectionId c).emit o) := h.congr rfl rfl hcalls
    exact hsettled.run hp ha _ hr.closes
  | @destroy a p hp ha =>
    have hplaced := Part.placed (.destroy hp ha) h.placed
    obtain ⟨reg, hreg⟩ := foldl_unregister p.queries.keys n
    rw [InternalNode.destroy, hreg] at hplaced ⊢
    refine ⟨hplaced, h.last, fun b q hq => ?_, h.unmade⟩
    exact h.live b q (Lib.TreeMap.of_getElem?_erase hq).2

/-- For each actor at most one terminal callback is called, and none after it. -/
theorem terminal_once {id : Id} {n2npId : N2NP.NodeId} {start : Int64}
    {ok : InternalNode → List Output → Event → Prop} {n : InternalNode} {log : List Output}
    (run : machine.Run ok (.new id n2npId start) n log) (a : ActorId) :
    (callsOf a log).countP Callback.terminal ≤ 1 ∧
      ∀ xs cb ys, callsOf a log = xs ++ cb :: ys → cb.terminal → ys = [] := by
  have h : Ended log n := by
    refine run_parts (P := Ended) (fun _ _ _ h hp => h.part hp) (fun log n h => ?_) [] ?_ run
    · exact ⟨h.placed, fun a => by simpa using h.last a, fun a p => by simpa using h.live a p,
        fun a => by simpa using h.unmade a⟩
    · exact ⟨fun a p hp => by simp [new] at hp, nofun, nofun, nofun⟩
  have hlast := h.last a
  rw [run_out rfl run, List.append_nil] at hlast
  refine ⟨?_, fun xs cb ys hcalls hcb => ?_⟩
  · rcases List.eq_nil_or_concat (callsOf a log) with hnil | ⟨xs, cb, hxs⟩
    · simp [hnil]
    · rw [hxs, List.concat_eq_append, List.dropLast_concat] at hlast
      have hzero : xs.countP Callback.terminal = 0 :=
        List.countP_eq_zero.mpr fun x hx => by simp [hlast x hx]
      rw [hxs, List.concat_eq_append, List.countP_append, hzero, Nat.zero_add]
      exact List.countP_le_length
  · rcases List.eq_nil_or_concat ys with hnil | ⟨zs, z, rfl⟩
    · exact hnil
    · have hmem : cb ∈ (callsOf a log).dropLast := by
        rw [hcalls, List.concat_eq_append, ← List.cons_append, ← List.append_assoc,
          List.dropLast_concat]
        simp
      rw [hlast cb hmem] at hcb
      cases hcb

/-- The search of `answered` is given up when its time is over; the other answer comes too late. -/
theorem terminal_once_late :
    ∃ n log, machine.Run (fun _ _ _ => true)
        (.new (Peer.numbered 7).id (Peer.numbered 7).n2npId 0) n log ∧
      callsOf 5 log = [.onFindError] ∧ (callsOf 5 log).countP Callback.terminal ≤ 1 ∧
      ∀ xs cb ys, callsOf 5 log = xs ++ cb :: ys → cb.terminal → ys = [] := by
  have h : (machine.exec (fun _ _ _ => true)
      (.new (Peer.numbered 7).id (Peer.numbered 7).n2npId 0, [])
      (answered ++ [.expire 0, .work 2 .zero,
        .receive ⟨(Peer.numbered 2).id, .found 1 0 0 []⟩ (Peer.numbered 2).n2npId 2,
        .work 3 .zero])).map
        (fun r => callsOf 5 r.2) = some [.onFindError] := by
    decide +kernel
  obtain ⟨⟨n, log⟩, hrun, hcalls⟩ := Option.map_eq_some_iff.mp h
  have run := Machine.Run.exec .start hrun
  exact ⟨n, log, run, hcalls, terminal_once run 5⟩

end InternalNode
end Epyx.DHT
