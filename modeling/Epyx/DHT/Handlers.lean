import Epyx.DHT.Actors

/-! What the handlers of the process actors can do, as far as keys and values go. -/
namespace Epyx.DHT

/-- The key a getter is after. -/
def Role.key : Role → Option ByteStr
  | .getter g => some g.key
  | _ => none

/-- A getter asks for its key only, and a value is only called back for an answer. The other
actors never do that. -/
def Action.Fits (key : Option ByteStr) (got : ByteStr → Prop) : Action → Prop
  | .sendQuery _ query => ∀ k, key = some k → query = .get k
  | .post _ (.receive _ _) => False
  | .timeout message => ∃ k, message = .replicate k
  | .call (.onGot k value) => key = some k ∧ got value
  | _ => True

/-- The handler leaves the key as it is. -/
def Role.Keeps (r : Role) (got : ByteStr → Prop) (s : Role × List Action) : Prop :=
  s.1.key = r.key ∧ ∀ x ∈ s.2, x.Fits r.key got

namespace FinderActor

/-- The finder's actions, none of which has to do with values. -/
def Searches (xs : List Action) : Prop := ∀ x ∈ xs, ∀ got, x.Fits none got

theorem onFound_fits (cb : FindCallback) (result : ClosestQueue) (got : ByteStr → Prop) :
    (cb.onFound result).Fits none got := by
  cases cb <;> trivial

theorem onError_fits (cb : FindCallback) (got : ByteStr → Prop) : cb.onError.Fits none got := by
  cases cb <;> trivial

theorem sendFindQueryTo_searches (objects : Peers) (f : FinderActor) (p : SPtr) :
    Searches (sendFindQueryTo objects f p).2 := by
  simp [Searches, sendFindQueryTo, Action.Fits]

theorem onResponse_searches (objects : Peers) (f : FinderActor) :
    Searches (onResponse objects f).2 := by
  unfold onResponse
  dsimp only
  split
  · rename_i r hr
    obtain ⟨x, -, rfl⟩ := Option.map_eq_some_iff.mp hr
    exact sendFindQueryTo_searches objects _ _
  · split
    · intro x hx got
      rcases List.mem_pair.mp hx with rfl | rfl
      · exact onFound_fits _ _ got
      · trivial
    · simp [Searches]

theorem onNewAnswer_searches (objects : Peers) (f : FinderActor) (answer : Answer) :
    Searches (f.onNewAnswer objects answer).2 := by
  cases answer <;> exact onResponse_searches objects _

theorem timeout_searches (f : FinderActor) : Searches f.timeout.2 := by
  intro x hx got
  rcases List.mem_pair.mp hx with rfl | rfl
  · exact onError_fits _ got
  · trivial

theorem sendQueries_searches (objects : Peers) (f : FinderActor) (ps : List SPtr) :
    Searches (sendQueries objects f ps).2 := by
  induction ps generalizing f with
  | nil => simp [Searches, sendQueries]
  | cons p ps ih =>
    intro x hx
    rcases List.mem_append.mp hx with h | h
    · exact sendFindQueryTo_searches objects f p x h
    · exact ih _ x h

end FinderActor

namespace SetterActor

/-- The setter's actions, none of which calls a value back. -/
def Stores (s : SetterActor × List Action) : Prop := ∀ x ∈ s.2, ∀ got, x.Fits none got

theorem treatFindSuccess_stores (objects : Peers) (self : Id) (s : SetterActor)
    (peers : List SPtr) : Stores (s.treatFindSuccess objects self peers) := by
  intro x hx got
  rcases List.mem_append.mp hx with h | h
  · cases hc : s.callback with
    | user edit =>
      rw [hc, SetCallback.onFoundPeers, List.mem_singleton] at h
      subst h
      trivial
    | replicater isHandlingKey key => simp [hc, SetCallback.onFoundPeers] at h
  · obtain ⟨p, -, rfl⟩ := List.mem_map.mp h
    simp [ask, Action.Fits]

theorem timeout_stores (s : SetterActor) : Stores s.timeout := by
  intro x hx got
  rcases List.mem_append.mp hx with h | h
  · cases hc : s.callback with
    | user edit =>
      rw [hc, SetCallback.onError, List.mem_singleton] at h
      subst h
      trivial
    | replicater isHandlingKey key => simp [hc, SetCallback.onError] at h
  · rw [List.mem_singleton.mp h]
    trivial

theorem onSetReceive_stores (s : SetterActor) : Stores s.onSetReceive := by
  unfold onSetReceive
  dsimp only
  split
  · split
    · intro x hx got
      rcases List.mem_append.mp hx with h | h
      · cases hc : s.callback with
        | user edit =>
          rw [hc, SetCallback.onSet, List.mem_singleton] at h
          subst h
          trivial
        | replicater isHandlingKey key =>
          rw [hc, SetCallback.onSet] at h
          split at h
          · rw [List.mem_singleton.mp h]
            exact ⟨key, rfl⟩
          · cases h
      · rw [List.mem_singleton.mp h]
        trivial
    · exact timeout_stores _
  · simp [Stores]

theorem onNewAnswer_stores (s : SetterActor) (answer : Answer) : Stores (s.onNewAnswer answer) := by
  cases answer with
  | stored connectionId status =>
    rw [onNewAnswer]
    split <;> exact onSetReceive_stores _
  | _ => exact onSetReceive_stores _

end SetterActor

namespace GetterActor
variable {got : ByteStr → Prop}

/-- The getter keeps its key, asks for nothing else, and calls back what it got. -/
def Gets (g : GetterActor) (got : ByteStr → Prop) (s : GetterActor × List Action) : Prop :=
  s.1.key = g.key ∧ ∀ x ∈ s.2, x.Fits (some g.key) got

theorem treatFindSuccess_gets (g : GetterActor) (peers : List SPtr) :
    g.Gets got (g.treatFindSuccess peers) := by
  cases g with
  | mk key pendingRequests =>
    refine ⟨rfl, fun x hx => ?_⟩
    obtain ⟨p, -, rfl⟩ := List.mem_map.mp hx
    simp [ask, Action.Fits]

theorem timeout_gets (g : GetterActor) : g.Gets got g.timeout := by
  simp [Gets, timeout, Action.Fits]

theorem onGetResponse_gets (g : GetterActor) : g.Gets got g.onGetResponse := by
  unfold onGetResponse
  dsimp only
  split
  · exact timeout_gets { g with pendingRequests := g.pendingRequests - 1 }
  · simp [Gets]

theorem onNewAnswer_gets (g : GetterActor) (answer : Answer) :
    g.Gets (fun value => ∃ c, answer = .got c 0 value) (g.onNewAnswer answer) := by
  cases answer with
  | got connectionId status value =>
    rw [onNewAnswer]
    split
    · rename_i hs
      simp [Gets, Action.Fits, hs]
    · exact onGetResponse_gets g
  | _ => exact onGetResponse_gets g

end GetterActor

namespace Role
variable {got : ByteStr → Prop}

theorem keeps_finder {f : FinderActor} {s : FinderActor × List Action}
    (h : FinderActor.Searches s.2) : (Role.finder f).Keeps got (s.map .finder id) :=
  ⟨rfl, fun x hx => h x hx got⟩

theorem keeps_getter {g : GetterActor} {s : GetterActor × List Action} (h : g.Gets got s) :
    (Role.getter g).Keeps got (s.map .getter id) :=
  ⟨congrArg some h.1, h.2⟩

theorem keeps_setter {s : SetterActor} {t : SetterActor × List Action}
    (h : SetterActor.Stores t) : (Role.setter s).Keeps got (t.map .setter id) :=
  ⟨rfl, fun x hx => h x hx got⟩

theorem keeps_nothing (r : Role) : r.Keeps got (r, []) := ⟨rfl, by simp⟩

theorem onNewAnswer_keeps (objects : Peers) (answer : Answer) (r : Role) :
    r.Keeps (fun value => ∃ c, answer = .got c 0 value) (r.onNewAnswer objects answer) := by
  cases r with
  | finder f => exact keeps_finder (f.onNewAnswer_searches objects answer)
  | getter g => exact keeps_getter (g.onNewAnswer_gets answer)
  | setter s => exact keeps_setter (s.onNewAnswer_stores answer)

theorem onAnswerTimeout_keeps (objects : Peers) (r : Role) :
    r.Keeps got (r.onAnswerTimeout objects) := by
  cases r with
  | finder f => exact keeps_finder (FinderActor.onResponse_searches objects f)
  | getter g => exact keeps_getter g.onGetResponse_gets
  | setter s => exact keeps_setter (SetterActor.onSetReceive_stores _)

theorem treat_keeps (objects : Peers) (self : Id) (message : ProcessMessage) (r : Role) :
    r.Keeps got (r.treat objects self message) := by
  cases r with
  | finder f =>
    cases message with
    | timeout => exact keeps_finder f.timeout_searches
    | _ => exact keeps_nothing _
  | getter g =>
    cases message with
    | timeout | findFailure => exact keeps_getter g.timeout_gets
    | findSuccess peers => exact keeps_getter (g.treatFindSuccess_gets peers)
    | _ => exact keeps_nothing _
  | setter s =>
    cases message with
    | timeout | findFailure => exact keeps_setter s.timeout_stores
    | findSuccess peers => exact keeps_setter (s.treatFindSuccess_stores objects self peers)
    | _ => exact keeps_nothing _

end Role
end Epyx.DHT
