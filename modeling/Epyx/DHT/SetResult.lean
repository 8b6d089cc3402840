import Epyx.DHT.InternalNode

/-! When a `SetterActor` that has asked its peers calls `onSet`: it counts the errors, and not what
went well. -/
namespace Epyx.DHT
open Lib
open Std (ExtTreeMap)

/-- How the queries of a setter end, and what it reports to its callback. -/
inductive Report where
  | answered (id : Int64) (answer : Answer)
  | timedOut (id : Int64)
  | onSet
  | onError
  deriving DecidableEq, Repr

namespace Report

/-- A query has come to an end. -/
def isEnd : Report → Bool
  | .answered _ _ | .timedOut _ => true
  | .onSet | .onError => false

/-- `pkt->method != M_STORED || pkt->status != 0` -/
def failed : Answer → Bool
  | .stored _ status => status ≠ 0
  | _ => true

/-- A query has not come to a good end. -/
def isError : Report → Bool
  | .answered _ answer => failed answer
  | .timedOut _ => true
  | .onSet | .onError => false

def ends (log : List Report) : Nat := log.countP isEnd

def errors (log : List Report) : Nat := log.countP isError

theorem ends_append (l₁ l₂ : List Report) : ends (l₁ ++ l₂) = ends l₁ + ends l₂ :=
  List.countP_append

theorem errors_append (l₁ l₂ : List Report) : errors (l₁ ++ l₂) = errors l₁ + errors l₂ :=
  List.countP_append

/-- With fewer errors than queries that have ended, one peer has stored the value. -/
theorem exists_stored {log : List Report} (h : errors log < ends log) :
    ∃ id connectionId, .answered id (.stored connectionId 0) ∈ log := by
  by_contra hnone
  refine absurd (List.countP_mono_left fun o ho hend => ?_) (Nat.not_le.mpr h)
  cases o with
  | answered id answer =>
    cases answer with
    | stored connectionId status =>
      refine decide_eq_true fun hstatus => hnone ⟨id, connectionId, ?_⟩
      rwa [hstatus] at ho
    | _ => rfl
  | timedOut id => rfl
  | onSet => cases hend
  | onError => cases hend

/-- What has to have come before a call of `onSet`: all that were asked have ended, fewer than
three of them badly. -/
def Due (asked : Int) (log : List Report) : Report → Prop
  | .onSet => (ends log : Int) = asked ∧ (errors log : Int) < SET_ERROR_THRESHOLD ∧ 0 < ends log
  | _ => True

end Report

namespace SetterActor

/-- What `onSetReceive` reports, by the counters it leaves. -/
def reports (s : SetterActor) : List Report :=
  if s.pendingRequests = 0 then
    if s.nErrors < SET_ERROR_THRESHOLD then [.onSet] else [.onError]
  else []

/-- The calls a report stands for. -/
def calls (s : SetterActor) : Report → List Action
  | .onSet => s.callback.onSet ++ [.kill]
  | .onError => s.callback.onError ++ [.kill]
  | _ => []

theorem onSetReceive_calls (s : SetterActor) :
    s.onSetReceive.2 = (reports s.onSetReceive.1).flatMap s.calls := by
  unfold onSetReceive reports
  dsimp only
  by_cases h0 : s.pendingRequests - 1 = 0
  · by_cases h3 : s.nErrors < SET_ERROR_THRESHOLD
    · simp [h0, h3, calls]
    · simp [h0, h3, calls, SetterActor.timeout]
  · simp [h0]

theorem reports_cases (s : SetterActor) :
    s.reports = [] ∨ s.reports = [.onError] ∨
      s.reports = [.onSet] ∧ s.pendingRequests = 0 ∧ s.nErrors < SET_ERROR_THRESHOLD := by
  unfold reports
  by_cases h0 : s.pendingRequests = 0
  · by_cases h3 : s.nErrors < SET_ERROR_THRESHOLD
    · exact .inr (.inr ⟨by rw [if_pos h0, if_pos h3], h0, h3⟩)
    · exact .inr (.inl (by rw [if_pos h0, if_neg h3]))
  · exact .inl (if_neg h0)

theorem onSetReceive_counts (s : SetterActor) :
    s.onSetReceive.1.pendingRequests = s.pendingRequests - 1 ∧
      s.onSetReceive.1.nErrors = s.nErrors := by
  unfold onSetReceive
  dsimp only
  split
  · split <;> exact ⟨rfl, rfl⟩
  · exact ⟨rfl, rfl⟩

theorem onNewAnswer_eq (s : SetterActor) (answer : Answer) :
    s.onNewAnswer answer =
      onSetReceive { s with nErrors := s.nErrors + (Report.failed answer).toNat } := by
  cases answer with
  | stored connectionId status =>
    by_cases h : status = 0
    · simp [SetterActor.onNewAnswer, Report.failed, h]
    · simp [SetterActor.onNewAnswer, Report.failed, h]
  | _ => rfl

end SetterActor

/-- A setter that has asked its peers, with its queries. -/
structure Setting where
  setter : SetterActor
  queries : ExtTreeMap Int64 Bool
  alive : Bool

namespace Setting

/-- The ids `registerNewConnectionId` gives, from the counter on. -/
def connectionIds (counter : Int64) : Nat → List Int64
  | 0 => []
  | n + 1 => counter :: connectionIds (counter + 1) n

/-- `queries[connectionId] = true`, for one id after the other. -/
def register (queries : ExtTreeMap Int64 Bool) (ids : List Int64) : ExtTreeMap Int64 Bool :=
  ids.foldl (fun queries id => queries.insert id true) queries

/-- The peers that are asked: those of the find phase, as the callback has left them. -/
def askedPeers (objects : Peers) (self : Id) (cb : SetCallback) (peers : List SPtr) : List SPtr :=
  (cb.onFoundPeers objects self peers).2.1

/-- A new setter behind `treat("find success")`. -/
def asks (objects : Peers) (self : Id) (key value : ByteStr) (cb : SetCallback) (counter : Int64)
    (peers : List SPtr) : Setting where
  setter := (SetterActor.treatFindSuccess objects self (.new key value cb) peers).1
  queries := register ∅ (connectionIds counter (askedPeers objects self cb peers).length)
  alive := true

/-- The messages that reach it then. -/
inductive Event where
  | receive (peer : SPtr) (answer : Answer)
  | processTimeout (pNumber : Int64)
  | timeout

/-- A query of the setter ends. -/
def settle (s : Setting) (id : Int64) (r : SetterActor × List Action) : Setting :=
  ⟨r.1, s.queries.insert id false, s.alive && decide (.kill ∉ r.2)⟩

/-- `ProcessActor::treat` and `ProcessActor::timeout`, for a setter. A dead one hears nothing. -/
def handle (s : Setting) : Event → Setting × List Report
  | .receive _ answer =>
    let id := (InternalNode.answerId answer).toInt64
    if s.alive ∧ s.queries[id]? = some true then
      let r := s.setter.onNewAnswer answer
      (s.settle id r, .answered id answer :: r.1.reports)
    else (s, [])
  | .processTimeout id =>
    if s.alive ∧ s.queries[id]?.isSome then
      let r := s.setter.onAnswerTimeout
      (s.settle id r, .timedOut id :: r.1.reports)
    else (s, [])
  | .timeout => if s.alive then ({ s with alive := false }, [.onError]) else (s, [])

def machine : Lib.Machine Setting Event Report where
  step s e := some (s.handle e)

/-- The counters of a setter, by what it has reported. -/
structure Counted (asked : Int) (ids : List Int64) (s : Setting) (log : List Report) : Prop where
  pending : s.setter.pendingRequests = asked - Report.ends log
  errors : s.setter.nErrors = Report.errors log
  keys : ∀ id, s.queries[id]? ≠ none → id ∈ ids
  answered : ∀ id answer, .answered id answer ∈ log → id ∈ ids
  due : Grounded (Report.Due asked) log

variable {asked : Int} {ids : List Int64} {s : Setting} {log : List Report}

/-- A query of the setter has ended, well or badly. -/
theorem Counted.ended (h : Counted asked ids s log) {id : Int64} (hid : id ∈ ids) {o : Report}
    (hend : o.isEnd) (hanswered : ∀ c answer, o = .answered c answer → c = id)
    {r : SetterActor × List Action}
    (hr : r = SetterActor.onSetReceive
      { s.setter with nErrors := s.setter.nErrors + o.isError.toNat }) :
    Counted asked ids (s.settle id r) (log ++ [o]) := by
  obtain ⟨hpending, hnErrors⟩ := SetterActor.onSetReceive_counts
    { s.setter with nErrors := s.setter.nErrors + o.isError.toNat }
  rw [← hr] at hpending hnErrors
  dsimp only at hpending hnErrors
  have hends : Report.ends (log ++ [o]) = Report.ends log + 1 := by
    rw [Report.ends_append]
    simp [Report.ends, hend]
  have herrors : Report.errors (log ++ [o]) = Report.errors log + o.isError.toNat := by
    rw [Report.errors_append]
    cases he : o.isError <;> simp [Report.errors, he]
  have hp := h.pending
  have he := h.errors
  refine ⟨?_, ?_, fun c hc => ?_, fun c answer hc => ?_, h.due.concat ?_⟩
  · change r.1.pendingRequests = _
    omega
  · change r.1.nErrors = _
    omega
  · change (s.queries.insert id false)[c]? ≠ none at hc
    rw [ExtTreeMap.getElem?_insert] at hc
    split at hc
    · rename_i heq
      rwa [← Std.LawfulEqCmp.eq_of_compare heq]
    · exact h.keys c hc
  · rcases List.mem_append.mp hc with hc | hc
    · exact h.answered c answer hc
    · rw [hanswered c answer (List.mem_singleton.mp hc).symm]
      exact hid
  · cases o with
    | onSet => cases hend
    | _ => trivial

/-- What the setter reports then is no end of a query, and its success is due. -/
theorem Counted.reported (h : Counted asked ids s log) (hends : 0 < Report.ends log) :
    Counted asked ids s (log ++ s.setter.reports) := by
  have hp := h.pending
  have he := h.errors
  rcases s.setter.reports_cases with hrep | hrep | ⟨hrep, h0, h3⟩
  · rwa [hrep, List.append_nil]
  · rw [hrep]
    refine ⟨?_, ?_, h.keys, fun c answer hc => ?_, h.due.concat trivial⟩
    · rwa [Report.ends_append]
    · rwa [Report.errors_append]
    · exact h.answered c answer (by simpa using hc)
  · rw [hrep]
    refine ⟨?_, ?_, h.keys, fun c answer hc => ?_, h.due.concat ⟨?_, ?_, hends⟩⟩
    · rwa [Report.ends_append]
    · rwa [Report.errors_append]
    · exact h.answered c answer (by simpa using hc)
    · omega
    · omega

theorem Counted.settle (h : Counted asked ids s log) {id : Int64} (hid : id ∈ ids) {o : Report}
    (hend : o.isEnd) (hanswered : ∀ c answer, o = .answered c answer → c = id)
    {r : SetterActor × List Action}
    (hr : r = SetterActor.onSetReceive
      { s.setter with nErrors := s.setter.nErrors + o.isError.toNat }) :
    Counted asked ids (s.settle id r) (log ++ o :: r.1.reports) := by
  have hends : 0 < Report.ends (log ++ [o]) := by
    rw [Report.ends_append]
    simp [Report.ends, hend]
  have hreported := (h.ended hid hend hanswered hr).reported hends
  rwa [List.append_assoc, List.singleton_append] at hreported

theorem Counted.handle (h : Counted asked ids s log) (e : Event) :
    Counted asked ids (s.handle e).1 (log ++ (s.handle e).2) := by
  have hstay : Counted asked ids s (log ++ []) := by
    rw [List.append_nil]
    exact h
  cases e with
  | receive peer answer =>
    unfold Setting.handle
    dsimp only
    split
    · rename_i hlive
      refine h.settle (h.keys _ ?_) rfl ?_ (s.setter.onNewAnswer_eq answer)
      · rw [hlive.2]
        simp
      · intro c a ha
        cases ha
        rfl
    · exact hstay
  | processTimeout id =>
    unfold Setting.handle
    dsimp only
    split
    · rename_i hlive
      refine h.settle (h.keys id ?_) rfl (fun c a ha => by cases ha) rfl
      exact Option.isSome_iff_ne_none.mp hlive.2
    · exact hstay
  | timeout =>
    unfold Setting.handle
    dsimp only
    split
    · refine ⟨?_, ?_, h.keys, fun c answer hc => ?_, h.due.concat trivial⟩
      · rw [Report.ends_append]
        exact h.pending
      · rw [Report.errors_append]
        exact h.errors
      · exact h.answered c answer (by simpa using hc)
    · exact hstay

theorem Counted.of_run {s₀ : Setting} (h : Counted asked ids s₀ [])
    (run : machine.Run (fun _ _ _ => True) s₀ s log) : Counted asked ids s log := by
  refine run.invariant h ?_
  intro s log e s' out h _ taken
  have hs : s.handle e = (s', out) := Option.some.inj taken
  have hnext := h.handle e
  rwa [hs] at hnext

theorem register_getElem? (ids : List Int64) (queries : ExtTreeMap Int64 Bool) (id : Int64) :
    (register queries ids)[id]? = if id ∈ ids then some true else queries[id]? := by
  induction ids generalizing queries with
  | nil => simp [register]
  | cons c ids ih =>
    have hstep := ih (queries.insert c true)
    rw [register, List.foldl_cons, ← register, hstep, ExtTreeMap.getElem?_insert]
    by_cases hmem : id ∈ ids
    · simp [hmem]
    · by_cases hc : c = id
      · simp [hc]
      · simp [hmem, hc, Ne.symm hc]

theorem mem_connectionIds_head (counter : Int64) {n : Nat} (h : 0 < n) :
    counter ∈ connectionIds counter n := by
  cases n with
  | zero => cases h
  | succ n => exact List.mem_cons_self ..

theorem mem_connectionIds_next (counter : Int64) {n : Nat} (h : 1 < n) :
    counter + 1 ∈ connectionIds counter n := by
  cases n with
  | zero => cases h
  | succ n => exact .tail _ (mem_connectionIds_head _ (Nat.lt_of_succ_lt_succ h))

/-- A query that times out while the setter waits for more than it. -/
theorem handle_waits {id : Int64} (ha : s.alive) (hq : s.queries[id]?.isSome)
    (hp : s.setter.pendingRequests ≠ 1) :
    s.handle (.processTimeout id) =
      (⟨{ s.setter with
          pendingRequests := s.setter.pendingRequests - 1, nErrors := s.setter.nErrors + 1 },
        s.queries.insert id false, true⟩, [.timedOut id]) := by
  have h0 : s.setter.pendingRequests - 1 ≠ 0 := by omega
  simp [handle, ha, hq, settle, SetterActor.onAnswerTimeout, SetterActor.onSetReceive,
    SetterActor.reports, h0]

/-- The last query times out, and there were not many errors. -/
theorem handle_last {id : Int64} (ha : s.alive) (hq : s.queries[id]?.isSome)
    (hp : s.setter.pendingRequests = 1) (he : s.setter.nErrors + 1 < SET_ERROR_THRESHOLD) :
    (s.handle (.processTimeout id)).2 = [.timedOut id, .onSet] := by
  simp [handle, ha, hq, SetterActor.onAnswerTimeout, SetterActor.onSetReceive,
    SetterActor.reports, hp, he]

/-- A run that comes to its last query, which times out. -/
theorem run_last {s₀ : Setting} (run : machine.Run (fun _ _ _ => True) s₀ s log) {id : Int64}
    (ha : s.alive) (hq : s.queries[id]?.isSome) (hp : s.setter.pendingRequests = 1)
    (he : s.setter.nErrors + 1 < SET_ERROR_THRESHOLD) :
    ∃ t, machine.Run (fun _ _ _ => True) s₀ t (log ++ [.timedOut id, .onSet]) := by
  have taken : machine.step s (.processTimeout id) =
      some ((s.handle (.processTimeout id)).1, [.timedOut id, .onSet]) :=
    congrArg some (Prod.ext rfl (handle_last ha hq hp he))
  exact ⟨_, run.step trivial taken⟩

section
variable (objects : Peers) (self : Id) (key value : ByteStr) (cb : SetCallback) (counter : Int64)
  (peers : List SPtr)

theorem asks_pending : (asks objects self key value cb counter peers).setter.pendingRequests =
    toInt32 (askedPeers objects self cb peers).length := by
  simp only [asks, SetterActor.treatFindSuccess, askedPeers, SetterActor.new]

theorem asks_query {id : Int64}
    (h : id ∈ connectionIds counter (askedPeers objects self cb peers).length) :
    (asks objects self key value cb counter peers).queries[id]?.isSome := by
  rw [asks, register_getElem?, if_pos h]
  rfl

theorem Counted.asks : Counted (toInt32 (askedPeers objects self cb peers).length)
    (connectionIds counter (askedPeers objects self cb peers).length)
    (asks objects self key value cb counter peers) [] := by
  refine ⟨?_, rfl, fun id hid => ?_, nofun, .nil _⟩
  · rw [asks_pending]
    exact (Int.sub_zero _).symm
  · rw [Setting.asks, register_getElem?] at hid
    by_contra hnot
    simp [hnot] at hid

theorem asks_errors : (asks objects self key value cb counter peers).setter.nErrors = 0 := rfl

/-- The only query times out. -/
theorem run_one (h : toInt32 (askedPeers objects self cb peers).length = 1) :
    ∃ s, machine.Run (fun _ _ _ => True) (Setting.asks objects self key value cb counter peers) s
      [.timedOut counter, .onSet] := by
  have hlen : 0 < (askedPeers objects self cb peers).length := by
    unfold toInt32 at h
    omega
  refine run_last .start rfl
    (asks_query objects self key value cb counter peers (mem_connectionIds_head counter hlen)) ?_ ?_
  · rw [asks_pending, h]
  · rw [asks_errors]
    decide

/-- Both queries time out. -/
theorem run_two (h : toInt32 (askedPeers objects self cb peers).length = 2) :
    ∃ s, machine.Run (fun _ _ _ => True) (Setting.asks objects self key value cb counter peers) s
      [.timedOut counter, .timedOut (counter + 1), .onSet] := by
  have hlen : 1 < (askedPeers objects self cb peers).length := by
    unfold toInt32 at h
    omega
  have hfirst := handle_waits (s := Setting.asks objects self key value cb counter peers) rfl
    (asks_query objects self key value cb counter peers
      (mem_connectionIds_head counter (Nat.lt_of_succ_lt hlen)))
    (by rw [asks_pending, h]; decide)
  have hrun : machine.Run (fun _ _ _ => True) (Setting.asks objects self key value cb counter peers)
      _ ([] ++ [.timedOut counter]) :=
    .step (e := .processTimeout counter) .start trivial (congrArg some hfirst)
  refine run_last hrun rfl ?_ ?_ ?_
  · change ((Setting.asks objects self key value cb counter peers).queries.insert
      counter false)[counter + 1]?.isSome
    rw [ExtTreeMap.getElem?_insert]
    split
    · rfl
    · exact asks_query objects self key value cb counter peers (mem_connectionIds_next counter hlen)
  · dsimp only
    rw [asks_pending, h]
    decide
  · dsimp only
    rw [asks_errors]
    decide

/-- However the queries of a setter end, it calls `onSet` only after a peer has stored the value:
just when the number of peers it has asked, as an `int`, is neither one nor two. -/
theorem onSet_stored_iff :
    (∀ s log, machine.Run (fun _ _ _ => True) (Setting.asks objects self key value cb counter peers)
        s log → .onSet ∈ log →
      ∃ id ∈ connectionIds counter (askedPeers objects self cb peers).length, ∃ connectionId,
        .answered id (.stored connectionId 0) ∈ log) ↔
    toInt32 (askedPeers objects self cb peers).length ≠ 1 ∧
      toInt32 (askedPeers objects self cb peers).length ≠ 2 := by
  constructor
  · intro h
    constructor
    · intro hone
      obtain ⟨s, run⟩ := run_one objects self key value cb counter peers hone
      obtain ⟨id, -, connectionId, hmem⟩ := h s _ run (by simp)
      simp at hmem
    · intro htwo
      obtain ⟨s, run⟩ := run_two objects self key value cb counter peers htwo
      obtain ⟨id, -, connectionId, hmem⟩ := h s _ run (by simp)
      simp at hmem
  · rintro ⟨hone, htwo⟩ s log run hset
    have hcounted := (Counted.asks objects self key value cb counter peers).of_run run
    obtain ⟨l₁, l₂, rfl⟩ := List.append_of_mem hset
    obtain ⟨hends, herrors, hpos⟩ := hcounted.due l₁ _ l₂ rfl
    -- at least three queries have ended, and at most two of them badly
    have hlt : Report.errors l₁ < Report.ends l₁ := by
      have hthree : (Report.errors l₁ : Int) < 3 := herrors
      generalize toInt32 (askedPeers objects self cb peers).length = asked at hends hone htwo
      omega
    obtain ⟨id, connectionId, hmem⟩ := Report.exists_stored hlt
    exact ⟨id, hcounted.answered id _ (List.mem_append_left _ hmem), connectionId,
      List.mem_append_left _ hmem⟩

end

/-- A setter that has found one peer calls `onSet` when that one has not answered. -/
theorem onSet_unstored :
    ∃ s, machine.Run (fun _ _ _ => True)
        (Setting.asks [⟨Peer.numbered 1, 0⟩] .zero (lit "k") (lit "v") (.user id) 0 [0]) s
        [.timedOut 0, .onSet] ∧
      ¬∃ id connectionId, Report.answered id (.stored connectionId 0) ∈
        [Report.timedOut 0, .onSet] := by
  obtain ⟨s, run⟩ := run_one [⟨Peer.numbered 1, 0⟩] .zero (lit "k") (lit "v") (.user id) 0 [0]
    (by decide +kernel)
  exact ⟨s, run, by simp⟩

/-! The setter of a node is such a one. -/

/-- Its entry among the actors. -/
def toActor (s : Setting) : ProcessActor := ⟨s.alive, s.queries, .setter s.setter⟩

def Event.message : Event → ProcessMessage
  | .receive peer answer => .receive peer answer
  | .processTimeout pNumber => .processTimeout pNumber
  | .timeout => .timeout

/-- The actor after some actions without a query. -/
theorem perform_quiet (a : ActorId) (xs : List Action) (s : InternalNode × ProcessActor)
    (h : ∀ peer query, .sendQuery peer query ∉ xs) :
    (xs.foldl (InternalNode.perform a) s).2 =
      { s.2 with alive := s.2.alive && decide (.kill ∉ xs) } := by
  induction xs generalizing s with
  | nil => simp
  | cons x xs ih =>
    have hrest := ih (InternalNode.perform a s x) fun peer query hmem =>
      h peer query (List.mem_cons_of_mem _ hmem)
    rw [List.foldl_cons, hrest]
    cases x with
    | sendQuery peer query => exact absurd (List.mem_cons_self ..) (h peer query)
    | kill => simp [InternalNode.perform]
    | _ => simp [InternalNode.perform]

/-- The actor after its queries. -/
theorem perform_asks (a : ActorId) (s : SetterActor) (peers : List SPtr)
    (t : InternalNode × ProcessActor) :
    ((peers.map s.ask).foldl (InternalNode.perform a) t).2 =
      { t.2 with
        queries := register t.2.queries (connectionIds t.1.processActorsCount peers.length) } := by
  induction peers generalizing t with
  | nil => rfl
  | cons p peers ih =>
    rw [List.map_cons, List.foldl_cons, ih]
    rfl

theorem run_actor (n : InternalNode) (a : ActorId) (p : ProcessActor) (r : Role × List Action) :
    (n.run a p r).actors[a]? =
      some (r.2.foldl (InternalNode.perform a) (n, { p with role := r.1 })).2 := by
  rw [InternalNode.run]
  exact ExtTreeMap.getElem?_insert_self

/-- What a response does has no query in it. -/
theorem onSetReceive_quiet (s : SetterActor) (peer : SPtr) (query : Query) :
    .sendQuery peer query ∉ s.onSetReceive.2 := by
  rw [SetterActor.onSetReceive_calls]
  intro hmem
  obtain ⟨o, -, ho⟩ := List.mem_flatMap.mp hmem
  cases o with
  | onSet =>
    cases hcb : s.callback with
    | user edit => simp [SetterActor.calls, SetCallback.onSet, hcb] at ho
    | replicater isHandlingKey key =>
      cases isHandlingKey <;> simp [SetterActor.calls, SetCallback.onSet, hcb] at ho
  | onError =>
    cases hcb : s.callback with
    | user edit => simp [SetterActor.calls, SetCallback.onError, hcb] at ho
    | replicater isHandlingKey key => simp [SetterActor.calls, SetCallback.onError, hcb] at ho
  | _ => cases ho

/-- The result of the search reaches a new setter of a node. -/
theorem treatProcess_asks {n : InternalNode} {a : ActorId} {key value : ByteStr} {cb : SetCallback}
    (h : n.actors[a]? = some ⟨true, ∅, .setter (.new key value cb)⟩) (peers : List SPtr) :
    (n.treatProcess a (.findSuccess peers)).actors[a]? =
      some (Setting.asks n.objects n.id key value cb n.processActorsCount peers).toActor := by
  unfold InternalNode.treatProcess
  rw [h]
  change (n.run a _ (Role.setter _, _)).actors[a]? = _
  rw [run_actor]
  change some ((_ ++ List.map _ _).foldl (InternalNode.perform a) _).2 = _
  rw [List.foldl_append, perform_asks]
  cases cb with
  | user edit => rfl
  | replicater isHandlingKey key => rfl

/-- A message reaches it later. -/
theorem treatProcess_handle {n : InternalNode} {a : ActorId} {s : Setting}
    (h : n.actors[a]? = some s.toActor) (ha : s.alive) (e : Event) :
    (n.treatProcess a e.message).actors[a]? = some (s.handle e).1.toActor := by
  unfold InternalNode.treatProcess
  rw [h]
  dsimp only [toActor]
  rw [if_pos ha]
  cases e with
  | receive peer answer =>
    dsimp only [Event.message, InternalNode.treatReceive, Setting.handle]
    by_cases hq : s.queries[(InternalNode.answerId answer).toInt64]? = some true
    · rw [if_pos hq, if_pos ⟨ha, hq⟩, run_actor, perform_quiet]
      · rfl
      · change ∀ peer query, .sendQuery peer query ∉ (s.setter.onNewAnswer answer).2
        rw [s.setter.onNewAnswer_eq answer]
        exact onSetReceive_quiet _
    · rw [if_neg hq, if_neg fun hboth => hq hboth.2]
      exact h
  | processTimeout id =>
    dsimp only [Event.message, InternalNode.treatTimeout, Setting.handle]
    by_cases hq : s.queries[id]?.isSome
    · rw [if_pos hq, if_pos ⟨ha, hq⟩, run_actor, perform_quiet]
      · rfl
      · exact onSetReceive_quiet _
    · rw [if_neg hq, if_neg fun hboth => hq hboth.2]
      exact h
  | timeout =>
    dsimp only [Event.message, Setting.handle]
    rw [if_pos ha]
    change (n.run a _ (Role.setter _, s.setter.timeout.2)).actors[a]? = _
    rw [run_actor, perform_quiet]
    · simp [SetterActor.timeout]
    · intro peer query hmem
      cases hcb : s.setter.callback <;>
        simp [SetterActor.timeout, SetCallback.onError, hcb] at hmem

end Setting
end Epyx.DHT
