import Epyx.DHT.Steps

/-! The SETs that replicate a key (`dht/replicater-actor.cpp`), and what the handlers of
`dht/setter-actor.cpp` make of them. -/
namespace Epyx.DHT
open InternalNode (answerId)

/-- The key whose replication the message goes on with: "new key", or the timer "replicate". -/
def Message.renewed : Message → Option ByteStr
  | .newKey key | .replicate key => some key
  | _ => none

/-- A replication SET, as far as its callback and its end go. -/
structure Replica where
  key : ByteStr
  isHandlingKey : Bool
  pendingRequests : Int
  nErrors : Int
  deriving DecidableEq, Repr

def Role.replica : Role → Option Replica
  | .setter ⟨.replicater isHandlingKey key, _, _, pendingRequests, nErrors⟩ =>
    some ⟨key, isHandlingKey, pendingRequests, nErrors⟩
  | _ => none

/-- An actor that was killed replicates nothing. -/
def ProcessActor.replica (p : ProcessActor) : Option Replica :=
  if p.alive then p.role.replica else none

/-- A timer that an action starts. -/
def Action.renewed : Action → Option ByteStr
  | .timeout message => message.renewed
  | _ => none

/-- What is left of the SET of an actor when it has done what its handler said. -/
def after (r : Role × List Action) : Option Replica := if .kill ∈ r.2 then none else r.1.replica

namespace Replica

/-- The last request is over, and too many have failed. -/
def Exhausted (r : Replica) (errors : Int) : Prop :=
  r.pendingRequests = 1 ∧ SET_ERROR_THRESHOLD ≤ r.nErrors + errors

instance (r : Replica) (errors : Int) : Decidable (r.Exhausted errors) :=
  inferInstanceAs (Decidable (_ ∧ _))

/-- What an answer adds to the errors of a SET. -/
def answerErrors : Answer → Int
  | .stored _ status => if status = 0 then 0 else 1
  | _ => 1

/-- What can become of a SET in a step: whether the node was among the peers its find phase has
returned, whether the SET ends in an error, what is left of it, and the timers it starts. -/
inductive Next (r : Replica) : Option Bool → Bool → Option Replica → List ByteStr → Prop
  | ignore : Next r none false (some r) []
  | receive (errors : Int) (h : r.pendingRequests ≠ 1) :
      Next r none false
        (some ⟨r.key, r.isHandlingKey, r.pendingRequests - 1, r.nErrors + errors⟩) []
  | found (self : Bool) (count : Int) :
      Next r (some self) false (some ⟨r.key, r.isHandlingKey || self, count, r.nErrors⟩) []
  | renew (last : r.pendingRequests = 1) (h : r.isHandlingKey = true) :
      Next r none false none [r.key]
  | leave (last : r.pendingRequests = 1) (h : r.isHandlingKey = false) : Next r none false none []
  | fail : Next r none true none []

end Replica

/-- The message makes the replication SET of the actor end in an error. -/
def ProcessActor.fails (p : ProcessActor) (r : Replica) : ProcessMessage → Bool
  | .timeout | .findFailure => true
  | .receive _ answer =>
    p.queries[(answerId answer).toInt64]? = some true ∧ r.Exhausted (Replica.answerErrors answer)
  | .processTimeout pNumber => p.queries[pNumber]?.isSome ∧ r.Exhausted 1
  | _ => false

theorem Role.eq_setter {role : Role} {r : Replica} (h : role.replica = some r) :
    ∃ key value, role = .setter
      ⟨.replicater r.isHandlingKey r.key, key, value, r.pendingRequests, r.nErrors⟩ := by
  cases role with
  | setter s =>
    obtain ⟨callback, key, value, pendingRequests, nErrors⟩ := s
    cases callback with
    | user edit => cases h
    | replicater isHandlingKey k =>
      cases h
      exact ⟨key, value, rfl⟩
  | _ => cases h

/-! ### The handlers -/

/-- A handler that concerns no replication. -/
def Silent (r : Role × List Action) : Prop :=
  r.1.replica = none ∧ ∀ x ∈ r.2, x.renewed = none

theorem Silent.after {r : Role × List Action} (h : Silent r) : after r = none := by
  unfold DHT.after
  rw [h.1, ite_self]

theorem Silent.timers {r : Role × List Action} (h : Silent r) : r.2.filterMap Action.renewed = [] :=
  List.filterMap_eq_nil_iff.mpr h.2

theorem FinderActor.onResponse_silent (objects : Peers) (f : FinderActor) :
    ∀ x ∈ (f.onResponse objects).2, x.renewed = none := by
  have hfound : ∀ (cb : FindCallback) (found : ClosestQueue), (cb.onFound found).renewed = none :=
    fun cb found => by cases cb <;> rfl
  unfold onResponse
  dsimp only
  split
  · rename_i r hr
    obtain ⟨x, -, rfl⟩ := Option.map_eq_some_iff.mp hr
    exact List.forall_mem_singleton.mpr rfl
  · split
    · exact List.forall_mem_cons.mpr ⟨hfound _ _, List.forall_mem_singleton.mpr rfl⟩
    · exact List.forall_mem_nil _

theorem FinderActor.sendQueries_silent (objects : Peers) (f : FinderActor) (peers : List SPtr) :
    ∀ x ∈ (f.sendQueries objects peers).2, x.renewed = none := by
  induction peers generalizing f with
  | nil => exact List.forall_mem_nil _
  | cons p ps ih => exact List.forall_mem_append.mpr ⟨List.forall_mem_singleton.mpr rfl, ih _⟩

theorem GetterActor.onGetResponse_silent (g : GetterActor) :
    ∀ x ∈ g.onGetResponse.2, x.renewed = none := by
  unfold onGetResponse timeout
  dsimp only
  split <;> simp [Action.renewed]

theorem GetterActor.onNewAnswer_silent (g : GetterActor) (answer : Answer) :
    ∀ x ∈ (g.onNewAnswer answer).2, x.renewed = none := by
  cases answer with
  | got connectionId status value =>
    unfold onNewAnswer
    dsimp only
    split
    · simp [Action.renewed]
    · exact g.onGetResponse_silent
  | _ => exact g.onGetResponse_silent

theorem GetterActor.treat_silent (objects : Peers) (self : Id) (m : ProcessMessage)
    (g : GetterActor) : ∀ x ∈ ((Role.getter g).treat objects self m).2, x.renewed = none := by
  cases m with
  | findSuccess peers => simp [Role.treat, treatFindSuccess, ask, Action.renewed]
  | _ => simp [Role.treat, timeout, Action.renewed]

theorem SetterActor.eq_user {s : SetterActor} (h : (Role.setter s).replica = none) :
    ∃ edit, s.callback = .user edit := by
  obtain ⟨callback, key, value, pendingRequests, nErrors⟩ := s
  cases callback with
  | user edit => exact ⟨edit, rfl⟩
  | replicater isHandlingKey k => cases h

/-- The callback of a user starts no timer. -/
theorem SetterActor.onSetReceive_silent {s : SetterActor} {edit : List SPtr → List SPtr}
    (h : s.callback = .user edit) : Silent (s.onSetReceive.map .setter id) := by
  obtain ⟨callback, key, value, pendingRequests, nErrors⟩ := s
  obtain rfl := h
  unfold onSetReceive timeout
  dsimp only
  split
  · split <;> exact ⟨rfl, by simp [SetCallback.onSet, SetCallback.onError, Action.renewed]⟩
  · exact ⟨rfl, List.forall_mem_nil _⟩

theorem SetterActor.onNewAnswer_silent {s : SetterActor} {edit : List SPtr → List SPtr}
    (h : s.callback = .user edit) (answer : Answer) :
    Silent ((s.onNewAnswer answer).map .setter id) := by
  cases answer with
  | stored connectionId status =>
    unfold onNewAnswer
    dsimp only
    split
    · exact onSetReceive_silent h
    · exact onSetReceive_silent h
  | _ => exact onSetReceive_silent h

theorem SetterActor.treat_silent {s : SetterActor} {edit : List SPtr → List SPtr}
    (h : s.callback = .user edit) (objects : Peers) (self : Id) (m : ProcessMessage) :
    Silent ((Role.setter s).treat objects self m) := by
  obtain ⟨callback, key, value, pendingRequests, nErrors⟩ := s
  obtain rfl := h
  refine ⟨by cases m <;> rfl, ?_⟩
  cases m with
  | findSuccess peers =>
    simp [Role.treat, treatFindSuccess, SetCallback.onFoundPeers, ask, Action.renewed]
  | _ => simp [Role.treat, timeout, SetCallback.onError, Action.renewed]

/-- An actor that does not replicate does not come to. -/
theorem Role.Handler.silent {role : Role} {r : Role × List Action} (h : role.Handler r)
    (hrole : role.replica = none) : Silent r := by
  cases h with
  | answer objects answer =>
    cases role with
    | finder f =>
      refine ⟨rfl, ?_⟩
      cases answer <;> exact FinderActor.onResponse_silent _ _
    | getter g => exact ⟨rfl, g.onNewAnswer_silent answer⟩
    | setter s =>
      obtain ⟨edit, hs⟩ := SetterActor.eq_user hrole
      exact SetterActor.onNewAnswer_silent hs answer
  | answerTimeout objects =>
    cases role with
    | finder f => exact ⟨rfl, FinderActor.onResponse_silent _ _⟩
    | getter g => exact ⟨rfl, g.onGetResponse_silent⟩
    | setter s =>
      obtain ⟨edit, hs⟩ := SetterActor.eq_user hrole
      exact SetterActor.onSetReceive_silent (s := { s with nErrors := s.nErrors + 1 }) hs
  | message objects self m =>
    cases role with
    | finder f =>
      have herror : ∀ cb : FindCallback, cb.onError.renewed = none := fun cb => by
        cases cb <;> rfl
      cases m with
      | timeout =>
        exact ⟨rfl, List.forall_mem_cons.mpr ⟨herror _, List.forall_mem_singleton.mpr rfl⟩⟩
      | _ => exact ⟨rfl, List.forall_mem_nil _⟩
    | getter g =>
      refine ⟨?_, g.treat_silent objects self m⟩
      cases m <;> rfl
    | setter s =>
      obtain ⟨edit, hs⟩ := SetterActor.eq_user hrole
      exact SetterActor.treat_silent hs objects self m
  | start objects f nearest => exact ⟨rfl, FinderActor.sendQueries_silent _ _ _⟩

/-! The handlers of a SET that replicates. -/

/-- What a handler makes of a SET. -/
def Replica.Yields (r : Replica) (found : Option Bool) (failed : Bool) (x : Role × List Action) :
    Prop := r.Next found failed (after x) (x.2.filterMap Action.renewed)

namespace SetterActor

theorem timeout_yields {s : SetterActor} {r : Replica} (h : (Role.setter s).replica = some r) :
    r.Yields none true (s.timeout.map .setter id) := by
  obtain ⟨key, value, he⟩ := Role.eq_setter h
  cases he
  exact .fail

theorem onSetReceive_yields (r : Replica) (key value : ByteStr) (errors : Int) :
    r.Yields none (decide (r.Exhausted errors)) ((onSetReceive
      ⟨.replicater r.isHandlingKey r.key, key, value, r.pendingRequests, r.nErrors + errors⟩).map
        .setter id) := by
  unfold onSetReceive
  dsimp only
  by_cases hlast : r.pendingRequests = 1
  · rw [if_pos (by omega)]
    by_cases herrors : r.nErrors + errors < SET_ERROR_THRESHOLD
    · have hgo : ¬r.Exhausted errors := fun h => absurd h.2 (by omega)
      rw [if_pos herrors, decide_eq_false hgo]
      cases hkey : r.isHandlingKey with
      | true => exact .renew hlast hkey
      | false => exact .leave hlast hkey
    · have hend : r.Exhausted errors := ⟨hlast, by omega⟩
      rw [if_neg herrors, decide_eq_true hend]
      exact .fail
  · have hgo : ¬r.Exhausted errors := fun h => hlast h.1
    rw [if_neg (by omega), decide_eq_false hgo]
    exact .receive errors hlast

theorem onAnswerTimeout_yields {s : SetterActor} {r : Replica}
    (h : (Role.setter s).replica = some r) :
    r.Yields none (decide (r.Exhausted 1)) (s.onAnswerTimeout.map .setter id) := by
  obtain ⟨key, value, he⟩ := Role.eq_setter h
  cases he
  exact onSetReceive_yields r key value 1

theorem onNewAnswer_yields {s : SetterActor} {r : Replica} (h : (Role.setter s).replica = some r)
    (answer : Answer) :
    r.Yields none (decide (r.Exhausted (Replica.answerErrors answer)))
      ((s.onNewAnswer answer).map .setter id) := by
  obtain ⟨key, value, he⟩ := Role.eq_setter h
  cases he
  cases answer with
  | stored connectionId status =>
    by_cases hstatus : status = 0
    · have h0 := onSetReceive_yields r key value 0
      rw [Int.add_zero] at h0
      simpa [onNewAnswer, Replica.answerErrors, hstatus] using h0
    · simpa [onNewAnswer, Replica.answerErrors, hstatus] using onSetReceive_yields r key value 1
  | _ => exact onSetReceive_yields r key value 1

theorem treatFindSuccess_yields {s : SetterActor} {r : Replica}
    (h : (Role.setter s).replica = some r) (objects : Peers) (self : Id) (peers : List SPtr) :
    r.Yields (some (peers.any fun p => (objects.deref p).id = self)) false
      ((s.treatFindSuccess objects self peers).map .setter id) := by
  obtain ⟨key, value, he⟩ := Role.eq_setter h
  cases he
  have hnone : ∀ s : SetterActor, Action.renewed ∘ s.ask = fun _ => none := fun s => rfl
  have hfound := Replica.Next.found (r := r)
    (peers.any fun p => (objects.deref p).id = self) (toInt32 peers.length)
  simpa [Replica.Yields, after, treatFindSuccess, SetCallback.onFoundPeers, hnone, ask,
    Role.replica] using hfound

end SetterActor

end Epyx.DHT
