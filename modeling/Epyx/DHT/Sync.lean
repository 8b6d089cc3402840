import Epyx.Core.Text
import Epyx.Lib.Machine

/-! `Node::getValueSync` and `Node::setValueSync` of `dht/node.cpp`: the thread that calls, and the
thread that runs the callback, one access to shared data at a time. -/
namespace Epyx.DHT
open Lib

/-- What a callback writes for an outcome, one assignment after the other, before it notifies. -/
structure SyncCallback (μ ω : Type*) where
  writes : ω → List (μ → μ)

/-- The variables of `getValueSync`; `got` is not initialised. -/
structure GetVars where
  got : Option Bool
  result : ByteStr
  deriving DecidableEq, Repr

/-- `NodeSyncGetCallback`: `onGot` of a result, or `onError`. -/
def NodeSyncGetCallback : SyncCallback GetVars (Option ByteStr) where
  writes
    | some result => [fun v => { v with got := some true }, fun v => { v with result := result }]
    | none => [fun v => { v with got := some false }]

/-- `NodeSyncSetCallback`: `onSet`, or `onError`. The variable `set` is not initialised. -/
def NodeSyncSetCallback : SyncCallback (Option Bool) Bool where
  writes done := [fun _ => some done]

namespace SyncCallback

/-- Where the calling thread is. -/
inductive Caller (μ : Type*) where
  | start
  /-- the node has the callback, and the thread is about to wait -/
  | called
  /-- is blocked in `cond.wait` -/
  | waiting
  | woken
  | returned (vars : μ)
  deriving DecidableEq, Repr

/-- Where the callback is. -/
inductive Progress (μ ω : Type*) where
  | absent
  | pending
  | running (outcome : ω) (left : List (μ → μ))
  /-- has notified -/
  | finished (outcome : ω)

/-- The assignments are made, and the callback has still to notify. -/
def Progress.notifies {μ ω : Type*} : Progress μ ω → Bool
  | .running _ [] => true
  | _ => false

/-- The outcome that was notified. -/
def Progress.outcome {μ ω : Type*} : Progress μ ω → Option ω
  | .finished outcome => some outcome
  | _ => none

theorem Progress.finished_of_outcome {μ ω : Type*} {p : Progress μ ω} {o : ω}
    (h : p.outcome = some o) : p = .finished o := by
  cases p with
  | finished outcome =>
    cases h
    rfl
  | _ => cases h

structure State (μ ω : Type*) where
  vars : μ
  caller : Caller μ
  callback : Progress μ ω

inductive Event (ω : Type*) where
  | call
  | wait
  /-- the waiting thread wakes up by itself -/
  | wake
  | ret
  /-- the node runs the callback -/
  | run (outcome : ω)
  /-- the callback goes on -/
  | go
  deriving DecidableEq, Repr

namespace State
variable {μ ω : Type*}

def start (vars : μ) : State μ ω := ⟨vars, .start, .absent⟩

/-- A notification is lost when the thread does not wait. -/
def notify (s : State μ ω) : State μ ω :=
  match s.caller with
  | .waiting => { s with caller := .woken }
  | _ => s

end State

variable {μ ω : Type*} (c : SyncCallback μ ω)

def step (s : State μ ω) : Event ω → Option (State μ ω × List μ)
  | .call =>
    match s.caller with
    | .start => some ({ s with caller := .called, callback := .pending }, [])
    | _ => none
  | .wait =>
    match s.caller with
    | .called => some ({ s with caller := .waiting }, [])
    | _ => none
  | .wake =>
    match s.caller with
    | .waiting => some ({ s with caller := .woken }, [])
    | _ => none
  | .ret =>
    match s.caller with
    | .woken => some ({ s with caller := .returned s.vars }, [s.vars])
    | _ => none
  | .run outcome =>
    match s.callback with
    | .pending => some ({ s with callback := .running outcome (c.writes outcome) }, [])
    | _ => none
  | .go =>
    match s.callback with
    | .running outcome (w :: left) =>
      some ({ s with vars := w s.vars, callback := .running outcome left }, [])
    | .running outcome [] => some ({ s with callback := .finished outcome }.notify, [])
    | _ => none

/-- Its log is what the call returns. -/
def machine : Machine (State μ ω) (Event ω) μ where
  step := c.step

/-- What the variables are when the callback has made all its assignments. -/
def recorded (vars : μ) (outcome : ω) : μ := (c.writes outcome).foldl (fun v w => w v) vars

/-- The call returns only after the callback, and what it has recorded; and it is not left waiting
when the callback is over. -/
def Sound (vars : μ) (s : State μ ω) : Prop :=
  (∀ v, s.caller = .returned v →
    ∃ outcome, s.callback = .finished outcome ∧ v = c.recorded vars outcome) ∧
  ∀ outcome, s.callback = .finished outcome → s.caller ≠ .called ∧ s.caller ≠ .waiting

/-- The callback notifies while the thread waits, and the thread does not wake up by itself. -/
def Timely (s : State μ ω) (e : Event ω) : Prop :=
  e ≠ .wake ∧ (s.callback.notifies → e = .go → s.caller = .waiting)

instance [DecidableEq μ] [DecidableEq ω] (s : State μ ω) (e : Event ω) : Decidable (Timely s e) :=
  inferInstanceAs (Decidable (_ ∧ _))

/-- What holds while all is timely. -/
inductive Joint (vars : μ) : State μ ω → Prop
  | start : Joint vars (.start vars)
  | pending {caller : Caller μ} (h : caller = .called ∨ caller = .waiting) :
      Joint vars ⟨vars, caller, .pending⟩
  | running {v : μ} {caller : Caller μ} {outcome : ω} {left : List (μ → μ)}
      (h : caller = .called ∨ caller = .waiting)
      (hv : left.foldl (fun v w => w v) v = c.recorded vars outcome) :
      Joint vars ⟨v, caller, .running outcome left⟩
  | finished {caller : Caller μ} {outcome : ω}
      (h : caller = .woken ∨ caller = .returned (c.recorded vars outcome)) :
      Joint vars ⟨c.recorded vars outcome, caller, .finished outcome⟩

variable {c} {vars : μ}

theorem Joint.sound {s : State μ ω} (h : c.Joint vars s) : c.Sound vars s := by
  cases h with
  | start => simp [Sound, State.start]
  | pending h => rcases h with rfl | rfl <;> simp [Sound]
  | running h hv => rcases h with rfl | rfl <;> simp [Sound]
  | finished h => rcases h with rfl | rfl <;> simp [Sound]

theorem Joint.step {s s' : State μ ω} {e : Event ω} {out : List μ} (h : c.Joint vars s)
    (ht : Timely s e) (hs : c.step s e = some (s', out)) : c.Joint vars s' := by
  cases e with
  | call =>
    cases h with
    | start =>
      cases hs
      exact .pending (.inl rfl)
    | pending h => rcases h with rfl | rfl <;> cases hs
    | running h hv => rcases h with rfl | rfl <;> cases hs
    | finished h => rcases h with rfl | rfl <;> cases hs
  | wait =>
    cases h with
    | start => cases hs
    | pending h =>
      rcases h with rfl | rfl
      · cases hs
        exact .pending (.inr rfl)
      · cases hs
    | running h hv =>
      rcases h with rfl | rfl
      · cases hs
        exact .running (.inr rfl) hv
      · cases hs
    | finished h => rcases h with rfl | rfl <;> cases hs
  | wake => exact absurd rfl ht.1
  | ret =>
    cases h with
    | start => cases hs
    | pending h => rcases h with rfl | rfl <;> cases hs
    | running h hv => rcases h with rfl | rfl <;> cases hs
    | finished h =>
      rcases h with rfl | rfl
      · cases hs
        exact .finished (.inr rfl)
      · cases hs
  | run outcome =>
    cases h with
    | pending h =>
      cases hs
      exact .running h rfl
    | _ => cases hs
  | go =>
    cases h with
    | @running v caller outcome left h hv =>
      cases left with
      | nil =>
        obtain rfl : caller = .waiting := ht.2 rfl rfl
        cases hs
        obtain rfl : v = c.recorded vars outcome := hv
        exact .finished (.inl rfl)
      | cons w left =>
        cases hs
        exact .running h hv
    | _ => cases hs

theorem joint_of_run {s : State μ ω} {log : List μ}
    (run : c.machine.Run (fun s _ e => Timely s e) (.start vars) s log) : c.Joint vars s := by
  refine run.invariant (P := fun s _ => c.Joint vars s) .start ?_
  exact fun s log e s' out h ht taken => h.step ht taken

/-- A wake-up before the callback is over lets the call return too early. -/
theorem Joint.wake {s s' : State μ ω} {out : List μ} (h : c.Joint vars s)
    (hs : c.step s .wake = some (s', out)) :
    ∃ s'' out', c.step s' .ret = some (s'', out') ∧ ¬c.Sound vars s'' := by
  cases h with
  | start => cases hs
  | pending h =>
    rcases h with rfl | rfl
    · cases hs
    · cases hs
      exact ⟨_, _, rfl, by simp [Sound]⟩
  | running h hv =>
    rcases h with rfl | rfl
    · cases hs
    · cases hs
      exact ⟨_, _, rfl, by simp [Sound]⟩
  | finished h => rcases h with rfl | rfl <;> cases hs

/-- A notification before the wait is lost. -/
theorem Joint.lost {s s' : State μ ω} {out : List μ} (h : c.Joint vars s)
    (hn : s.callback.notifies) (hw : s.caller ≠ .waiting) (hs : c.step s .go = some (s', out)) :
    ¬c.Sound vars s' := by
  cases h with
  | @running v caller outcome left h hv =>
    obtain rfl := h.resolve_right hw
    cases left with
    | nil =>
      cases hs
      simp [Sound, State.notify]
    | cons w left => cases hn
  | _ => cases hn

/-- A step that is not timely lets the call hang, or return too early. -/
theorem Joint.untimely {s s' : State μ ω} {e : Event ω} {out : List μ} (h : c.Joint vars s)
    (ht : ¬Timely s e) (hs : c.step s e = some (s', out)) :
    ¬c.Sound vars s' ∨ ∃ s'' out', c.step s' .ret = some (s'', out') ∧ ¬c.Sound vars s'' := by
  by_cases hwake : e = .wake
  · subst hwake
    exact .inr (h.wake hs)
  · obtain ⟨hn, rfl, hw⟩ : s.callback.notifies ∧ e = .go ∧ s.caller ≠ .waiting := by
      simpa [Timely, hwake] using ht
    exact .inl (h.lost hn hw hs)

/-- In all timely runs the call is sound, and a step that is not timely spoils it. -/
def SoundWhenTimely (c : SyncCallback μ ω) (vars : μ) : Prop :=
  ∀ s log, c.machine.Run (fun s _ e => Timely s e) (.start vars) s log →
    c.Sound vars s ∧ ∀ e s' out, ¬Timely s e → c.step s e = some (s', out) →
      ¬c.Sound vars s' ∨ ∃ s'' out', c.step s' .ret = some (s'', out') ∧ ¬c.Sound vars s''

theorem soundWhenTimely (c : SyncCallback μ ω) (vars : μ) : c.SoundWhenTimely vars := by
  intro s log run
  have h := joint_of_run run
  exact ⟨h.sound, fun e s' out => h.untimely⟩

end SyncCallback

/-- What a call returns that is sound: a flag that is set, and the value that was found. -/
theorem NodeSyncGetCallback.recorded_eq (vars : GetVars) (outcome : Option ByteStr) :
    NodeSyncGetCallback.recorded vars outcome =
      ⟨some outcome.isSome, outcome.getD vars.result⟩ := by
  cases outcome <;> rfl

open SyncCallback

/-- `getValueSync` and `setValueSync` return what their callbacks record, and are not left waiting,
in every run in which the callback notifies while the thread waits and the thread does not wake up
by itself. Any other step lets the call hang, or return too early. -/
theorem getValueSync_setValueSync (result : ByteStr) :
    (NodeSyncGetCallback.SoundWhenTimely ⟨none, result⟩ ∧
      ∀ outcome, NodeSyncGetCallback.recorded ⟨none, result⟩ outcome =
        ⟨some outcome.isSome, outcome.getD result⟩) ∧
    NodeSyncSetCallback.SoundWhenTimely none ∧
      ∀ done, NodeSyncSetCallback.recorded none done = some done :=
  ⟨⟨soundWhenTimely _ _, NodeSyncGetCallback.recorded_eq _⟩, soundWhenTimely _ _,
    fun _ => rfl⟩

/-- A value is found while the thread waits. -/
theorem getValueSync_setValueSync_found :
    ∃ s log, NodeSyncGetCallback.machine.Run (fun s _ e => Timely s e) (.start ⟨none, []⟩) s log ∧
      s.caller = .returned ⟨some true, lit "value"⟩ ∧
      NodeSyncGetCallback.Sound ⟨none, []⟩ s := by
  have h : (NodeSyncGetCallback.machine.exec (fun s _ e => Timely s e) (.start ⟨none, []⟩, [])
      [.call, .wait, .run (some (lit "value")), .go, .go, .go, .ret]).map (fun r => r.1.caller) =
      some (.returned ⟨some true, lit "value"⟩) := by decide +kernel
  obtain ⟨⟨s, log⟩, hexec, hs⟩ := Option.map_eq_some_iff.mp h
  have run := (Machine.Run.exec .start hexec).of_decide
  exact ⟨s, log, run, hs, ((getValueSync_setValueSync []).1.1 s log run).1⟩

/-- A search that fails before the thread waits leaves it waiting for ever; a thread that wakes up
by itself returns a flag that was never set. -/
theorem getValueSync_hangs :
    (∃ s log, NodeSyncGetCallback.machine.Run (fun _ _ _ => True) (.start ⟨none, []⟩) s log ∧
      s.caller = .waiting ∧ s.callback.outcome = some none ∧
      ¬NodeSyncGetCallback.Sound ⟨none, []⟩ s) ∧
    ∃ s log, NodeSyncSetCallback.machine.Run (fun _ _ _ => True) (.start none) s log ∧
      s.caller = .returned none ∧ s.callback.outcome = none ∧
      ¬NodeSyncSetCallback.Sound none s := by
  constructor
  · have h : (NodeSyncGetCallback.machine.exec (fun _ _ _ => true) (.start ⟨none, []⟩, [])
        [.call, .run none, .go, .go, .wait]).map
          (fun r => (r.1.caller, r.1.callback.outcome)) = some (.waiting, some none) := by
      decide +kernel
    obtain ⟨⟨s, log⟩, hexec, hs⟩ := Option.map_eq_some_iff.mp h
    obtain ⟨hcaller, hout⟩ := Prod.mk.inj hs
    refine ⟨s, log, (Machine.Run.exec .start hexec).free, hcaller, hout, fun hsound => ?_⟩
    exact (hsound.2 none (Progress.finished_of_outcome hout)).2 hcaller
  · have h : (NodeSyncSetCallback.machine.exec (fun _ _ _ => true) (.start none, [])
        [.call, .wait, .wake, .ret]).map
          (fun r => (r.1.caller, r.1.callback.outcome)) = some (.returned none, none) := by
      decide +kernel
    obtain ⟨⟨s, log⟩, hexec, hs⟩ := Option.map_eq_some_iff.mp h
    obtain ⟨hcaller, hout⟩ := Prod.mk.inj hs
    refine ⟨s, log, (Machine.Run.exec .start hexec).free, hcaller, hout, fun hsound => ?_⟩
    obtain ⟨outcome, hfin, -⟩ := hsound.1 none hcaller
    rw [hfin] at hout
    cases hout

end Epyx.DHT
