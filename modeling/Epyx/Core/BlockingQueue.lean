import Epyx.Lib.Machine
import Mathlib.Data.Fintype.Basic

/-! `core/blocking-queue-detail.h`: a queue and the threads that use it, one access to shared data
at a time. -/
namespace Epyx.BlockingQueue
open Lib

/-- What a consumer has called. -/
inductive Take where
  | pop
  | flush
  deriving DecidableEq, Repr

/-- Where a thread is in a call. -/
inductive Phase (α : Type*) where
  | idle
  /-- a consumer waits for the mutex -/
  | locking (k : Take)
  /-- has the mutex, at the test of the loop -/
  | testing (k : Take)
  /-- has the mutex, and has found the queue open and empty -/
  | deciding (k : Take)
  /-- is blocked in `cond.wait`, or waits for the mutex again -/
  | waiting (k : Take)
  /-- has the mutex, and the loop is over -/
  | taking (k : Take)
  /-- `push` has found the queue open -/
  | pushing (e : α)
  | notifying
  /-- `close` has still to notify -/
  | closing
  deriving DecidableEq, Repr

/-- What a thread may do besides going on. -/
inductive Move (τ α : Type*) where
  | take (k : Take)
  | push (e : α)
  | close
  | next
  /-- `notify_one` wakes a thread -/
  | notify (u : τ)
  /-- the thread wakes up by itself -/
  | wake
  deriving DecidableEq, Repr

/-- What the calls return. -/
inductive Out (τ α : Type*) where
  | popped (t : τ) (result : Option α)
  | flushed (t : τ) (result : Option (List α))
  | pushed (t : τ) (done : Bool)
  | closed (t : τ)
  deriving DecidableEq, Repr

/-- A queue and its threads; `cond` has those that are blocked in `cond.wait`. -/
structure State (τ α : Type*) where
  fifo : List α
  opened : Bool
  mutex : Option τ
  cond : List τ
  phase : τ → Phase α

namespace State
variable {τ α : Type*}

def new : State τ α := ⟨[], true, none, [], fun _ => .idle⟩

variable [DecidableEq τ]

@[simp] def setPhase (s : State τ α) (t : τ) (p : Phase α) : State τ α :=
  { s with phase := Function.update s.phase t p }

/-- The end of `pop` and of `flush`; both give the mutex back. -/
def finish (s : State τ α) (t : τ) : Take → State τ α × List (Out τ α)
  | .pop =>
    ({ s with fifo := s.fifo.tail, mutex := none }.setPhase t .idle, [.popped t s.fifo.head?])
  | .flush =>
    ({ s with fifo := [], mutex := none }.setPhase t .idle,
      [.flushed t (if s.fifo = [] then none else some s.fifo)])

/-- A thread goes on. -/
def next [DecidableEq α] (s : State τ α) (t : τ) : Phase α → Option (State τ α × List (Out τ α))
  | .idle => none
  | .locking k =>
    if s.mutex.isNone then some ({ s with mutex := some t }.setPhase t (.testing k), []) else none
  | .testing k =>
    some (s.setPhase t (if s.opened ∧ s.fifo = [] then .deciding k else .taking k), [])
  | .deciding k => some ({ s with mutex := none, cond := t :: s.cond }.setPhase t (.waiting k), [])
  | .waiting k =>
    if t ∉ s.cond ∧ s.mutex.isNone then
      some ({ s with mutex := some t }.setPhase t (.testing k), [])
    else none
  | .taking k => some (s.finish t k)
  | .pushing e =>
    if s.mutex.isNone then some ({ s with fifo := s.fifo ++ [e] }.setPhase t .notifying, [])
    else none
  | .notifying => if s.cond = [] then some (s.setPhase t .idle, [.pushed t true]) else none
  | .closing => some ({ s with cond := [] }.setPhase t .idle, [.closed t])

def step [DecidableEq α] (s : State τ α) (t : τ) : Move τ α → Option (State τ α × List (Out τ α))
  | .take k => if s.phase t = .idle then some (s.setPhase t (.locking k), []) else none
  | .push e =>
    if s.phase t = .idle then
      if s.opened then some (s.setPhase t (.pushing e), []) else some (s, [.pushed t false])
    else none
  | .close =>
    if s.phase t = .idle then some ({ s with opened := false }.setPhase t .closing, []) else none
  | .next => s.next t (s.phase t)
  | .notify u =>
    if s.phase t = .notifying ∧ u ∈ s.cond then
      some ({ s with cond := s.cond.erase u }.setPhase t .idle, [.pushed t true])
    else none
  | .wake =>
    match s.phase t with
    | .waiting k =>
      if t ∈ s.cond then
        some ({ s with cond := s.cond.erase t }.setPhase t (.waiting k), [])
      else none
    | _ => none

def machine [DecidableEq α] : Machine (State τ α) (τ × Move τ α) (Out τ α) where
  step s e := s.step e.1 e.2

end State

/-- The thread has found the queue open and empty, and will wait. -/
def Phase.decided {α : Type*} : Phase α → Bool
  | .deciding _ => true
  | _ => false

/-- The thread is going to notify others. -/
def Phase.notifies {α : Type*} : Phase α → Bool
  | .pushing _ | .notifying | .closing => true
  | _ => false

namespace State
variable {τ α : Type*}

/-- A queue was closed, a consumer waits or has decided to, and nobody is going to notify it. -/
def Stranded (s : State τ α) (log : List (Out τ α)) : Prop :=
  s.opened = false ∧ (∃ t, .closed t ∈ log) ∧ (∃ t, t ∈ s.cond ∨ (s.phase t).decided) ∧
    ∀ t, (s.phase t).notifies = false

/-- `close` notifies while no consumer is between its test and its wait. -/
def Heard (s : State τ α) (e : τ × Move τ α) : Prop :=
  s.phase e.1 = .closing → ∀ u, (s.phase u).decided = false

/-- The queue is closed, and no consumer waits or will. -/
structure Quiet (s : State τ α) : Prop where
  opened : s.opened = false
  cond : s.cond = []
  decided : ∀ u, (s.phase u).decided = false

/-- Where `close` has still to notify the queue is closed already. -/
def Closing (s : State τ α) : Prop := ∀ t, s.phase t = .closing → s.opened = false

variable [DecidableEq τ]

/-- What a step of a thread is, as far as closing and waiting go. -/
inductive Effect (s : State τ α) (t : τ) (s' : State τ α) (out : List (Out τ α)) : Prop
  | aside {p : Phase α} (phase : s'.phase = Function.update s.phase t p)
      (decided : p.decided = false) (closing : p ≠ .closing) (opened : s'.opened = s.opened)
      (cond : s'.cond ⊆ s.cond) (silent : ∀ u, .closed u ∉ out)
  | decide (k : Take) (h : s.opened) (eq : s' = s.setPhase t (.deciding k)) (silent : out = [])
  | wait {k : Take} (h : s.phase t = .deciding k)
      (eq : s' = { s with mutex := none, cond := t :: s.cond }.setPhase t (.waiting k))
      (silent : out = [])
  | close (eq : s' = { s with opened := false }.setPhase t .closing) (silent : out = [])
  | closed (h : s.phase t = .closing) (eq : s' = { s with cond := [] }.setPhase t .idle)
      (said : out = [.closed t])

theorem finish_effect (s : State τ α) (t : τ) (k : Take) :
    Effect s t (s.finish t k).1 (s.finish t k).2 := by
  cases k with
  | pop => exact .aside rfl rfl (by simp) rfl (List.Subset.refl _) (by simp [finish])
  | flush => exact .aside rfl rfl (by simp) rfl (List.Subset.refl _) (by simp [finish])

theorem decided_update {phase : τ → Phase α} (h : ∀ u, (phase u).decided = false) {t : τ}
    {p : Phase α} (hp : p.decided = false) (u : τ) :
    (Function.update phase t p u).decided = false := by
  by_cases hu : u = t
  · rw [hu, Function.update_self, hp]
  · rw [Function.update_of_ne hu, h u]

theorem closing_update {phase : τ → Phase α} {t u : τ} {p : Phase α} (hp : p ≠ .closing)
    (h : Function.update phase t p u = .closing) : phase u = .closing := by
  by_cases hu : u = t
  · rw [hu, Function.update_self] at h
    exact absurd h hp
  · rwa [Function.update_of_ne hu] at h

theorem Effect.closing {s s' : State τ α} {t : τ} {out : List (Out τ α)} (h : Effect s t s' out)
    (hc : s.Closing) : s'.Closing := by
  cases h with
  | aside phase decided closing opened cond silent =>
    intro u hu
    rw [phase] at hu
    rw [opened]
    exact hc u (closing_update closing hu)
  | decide k h eq silent =>
    subst eq
    exact fun u hu => hc u (closing_update (by simp) hu)
  | wait h eq silent =>
    subst eq
    exact fun u hu => hc u (closing_update (by simp) hu)
  | close eq silent =>
    subst eq
    exact fun _ _ => rfl
  | closed h eq said =>
    subst eq
    exact fun u hu => hc u (closing_update (by simp) hu)

/-- A closed queue stays quiet. -/
theorem Effect.quiet {s s' : State τ α} {t : τ} {out : List (Out τ α)} (h : Effect s t s' out)
    (hq : s.Quiet) : s'.Quiet := by
  cases h with
  | aside phase decided closing opened cond silent =>
    refine ⟨opened.trans hq.opened, ?_, ?_⟩
    · rw [hq.cond] at cond
      exact List.subset_nil.mp cond
    · rw [phase]
      exact decided_update hq.decided decided
  | decide k h eq silent => simp [hq.opened] at h
  | wait h eq silent =>
    have hdec := hq.decided t
    rw [h] at hdec
    cases hdec
  | close eq silent =>
    subst eq
    exact ⟨rfl, hq.cond, decided_update hq.decided rfl⟩
  | closed h eq said =>
    subst eq
    exact ⟨hq.opened, rfl, decided_update hq.decided rfl⟩

/-- A `close` that is heard by all makes the queue quiet. -/
theorem Effect.close_quiet {s s' : State τ α} {t : τ} {out : List (Out τ α)}
    (h : Effect s t s' out) (hc : s.Closing)
    (heard : s.phase t = .closing → ∀ u, (s.phase u).decided = false) {u : τ}
    (hu : .closed u ∈ out) : s'.Quiet := by
  cases h with
  | aside phase decided closing opened cond silent => exact absurd hu (silent u)
  | closed h eq said =>
    subst eq
    exact ⟨hc t h, rfl, decided_update (heard h) rfl⟩
  | _ =>
    subst_vars
    cases hu

variable [DecidableEq α]

theorem next_effect {s s' : State τ α} {t : τ} {p : Phase α} {out : List (Out τ α)}
    (hp : s.phase t = p) (hs : s.next t p = some (s', out)) : Effect s t s' out := by
  cases p with
  | idle => cases hs
  | locking k =>
    obtain ⟨-, hs⟩ := Option.ite_none_right_eq_some.mp hs
    cases hs
    exact .aside rfl rfl (by simp) rfl (List.Subset.refl _) (by simp)
  | testing k =>
    rw [State.next] at hs
    split at hs
    · rename_i htest
      cases hs
      exact .decide k htest.1 rfl rfl
    · cases hs
      exact .aside rfl rfl (by simp) rfl (List.Subset.refl _) (by simp)
  | deciding k =>
    cases hs
    exact .wait hp rfl rfl
  | waiting k =>
    obtain ⟨-, hs⟩ := Option.ite_none_right_eq_some.mp hs
    cases hs
    exact .aside rfl rfl (by simp) rfl (List.Subset.refl _) (by simp)
  | taking k =>
    rw [State.next, Option.some.injEq] at hs
    have heff := s.finish_effect t k
    rwa [hs] at heff
  | pushing e =>
    obtain ⟨-, hs⟩ := Option.ite_none_right_eq_some.mp hs
    cases hs
    exact .aside rfl rfl (by simp) rfl (List.Subset.refl _) (by simp)
  | notifying =>
    obtain ⟨-, hs⟩ := Option.ite_none_right_eq_some.mp hs
    cases hs
    exact .aside rfl rfl (by simp) rfl (List.Subset.refl _) (by simp)
  | closing =>
    cases hs
    exact .closed hp rfl rfl

theorem step_effect {s s' : State τ α} {t : τ} {m : Move τ α} {out : List (Out τ α)}
    (hs : s.step t m = some (s', out)) : Effect s t s' out := by
  cases m with
  | take k =>
    obtain ⟨-, hs⟩ := Option.ite_none_right_eq_some.mp hs
    cases hs
    exact .aside rfl rfl (by simp) rfl (List.Subset.refl _) (by simp)
  | push e =>
    obtain ⟨hidle, hs⟩ := Option.ite_none_right_eq_some.mp hs
    split at hs
    · cases hs
      exact .aside rfl rfl (by simp) rfl (List.Subset.refl _) (by simp)
    · cases hs
      have hphase : s.phase = Function.update s.phase t .idle := by
        rw [← hidle, Function.update_eq_self]
      exact .aside hphase rfl (by simp) rfl (List.Subset.refl _) (by simp)
  | close =>
    obtain ⟨-, hs⟩ := Option.ite_none_right_eq_some.mp hs
    cases hs
    exact .close rfl rfl
  | next => exact next_effect rfl hs
  | notify u =>
    obtain ⟨-, hs⟩ := Option.ite_none_right_eq_some.mp hs
    cases hs
    exact .aside rfl rfl (by simp) rfl List.erase_subset (by simp)
  | wake =>
    rw [State.step] at hs
    split at hs
    · obtain ⟨-, hs⟩ := Option.ite_none_right_eq_some.mp hs
      cases hs
      exact .aside rfl rfl (by simp) rfl List.erase_subset (by simp)
    · cases hs

/-- The queue is quiet once a `close` that was heard is over. -/
theorem quiet_of_run {s : State τ α} {log : List (Out τ α)}
    (run : machine.Run (fun s _ e => s.Heard e) .new s log) :
    s.Closing ∧ ((∃ t, .closed t ∈ log) → s.Quiet) := by
  refine run.invariant (P := fun s log => s.Closing ∧ ((∃ t, .closed t ∈ log) → s.Quiet))
    ⟨by simp [Closing, new], by simp⟩ ?_
  intro s log e s' out h heard taken
  obtain ⟨hclosing, hquiet⟩ := h
  have heff := step_effect taken
  refine ⟨heff.closing hclosing, fun hclosed => ?_⟩
  obtain ⟨u, hu⟩ := hclosed
  rcases List.mem_append.mp hu with hu | hu
  · exact heff.quiet (hquiet ⟨u, hu⟩)
  · exact heff.close_quiet hclosing heard hu

theorem closing_of_run {s : State τ α} {log : List (Out τ α)}
    (run : machine.Run (fun _ _ _ => True) .new s log) : s.Closing := by
  refine run.invariant (P := fun s _ => s.Closing) (by simp [Closing, new]) ?_
  exact fun s log e s' out hclosing _ taken => (step_effect taken).closing hclosing

/-- In every run in which each `close` notifies while no consumer is between its test and its wait,
no consumer waits or will wait once a `close` is over; and a `close` that notifies while one is
there leaves it behind, unless somebody else is going to notify. -/
theorem quiet_of_heard :
    (∀ (s : State τ α) log, machine.Run (fun s _ e => s.Heard e) .new s log →
      ¬s.Stranded log ∧ ((∃ t, .closed t ∈ log) → s.Quiet)) ∧
    ∀ (s : State τ α) log (t : τ) s' out, machine.Run (fun _ _ _ => True) .new s log →
      ¬s.Heard (t, .next) → machine.step s (t, .next) = some (s', out) →
      (∀ u ≠ t, (s.phase u).notifies = false) → s'.Stranded (log ++ out) := by
  refine ⟨fun s log run => ?_, fun s log t s' out run hheard taken hnot => ?_⟩
  · have hquiet := (quiet_of_run run).2
    refine ⟨fun hstranded => ?_, hquiet⟩
    obtain ⟨-, hclosed, ⟨t, ht⟩, -⟩ := hstranded
    have hq := hquiet hclosed
    rcases ht with ht | ht
    · simp [hq.cond] at ht
    · simp [hq.decided t] at ht
  · obtain ⟨ht, u, hu⟩ : s.phase t = .closing ∧ ∃ u, (s.phase u).decided = true := by
      simpa [Heard] using hheard
    have hopened := closing_of_run run t ht
    have hne : u ≠ t := fun he => by
      rw [he, ht] at hu
      cases hu
    simp only [machine, step, ht, next, Option.some.injEq, Prod.mk.injEq] at taken
    obtain ⟨rfl, rfl⟩ := taken
    refine ⟨hopened, ⟨t, by simp⟩, ⟨u, .inr ?_⟩, fun v => ?_⟩
    · exact (congrArg Phase.decided (Function.update_of_ne hne _ _)).trans hu
    · by_cases hv : v = t
      · simp [hv, Phase.notifies]
      · exact (congrArg Phase.notifies (Function.update_of_ne hv _ _)).trans (hnot v hv)

instance [Fintype τ] (s : State τ α) (e : τ × Move τ α) : Decidable (s.Heard e) :=
  inferInstanceAs (Decidable (_ → ∀ _, _ = false))

/-- The thread `false` is blocked in `pop` when the thread `true` closes the queue. -/
theorem quiet_of_heard_pop :
    ∃ (s : State Bool Nat) (log : List (Out Bool Nat)),
      machine.Run (fun s _ e => s.Heard e) .new s log ∧
      log = [.closed true, .popped false none] ∧
      ¬s.Stranded log ∧ s.Quiet := by
  have h : (machine.exec (fun (s : State Bool Nat) _ e => s.Heard e) (.new, [])
      [(false, .take .pop), (false, .next), (false, .next), (false, .next), (true, .close),
        (true, .next), (false, .next), (false, .next), (false, .next)]).map Prod.snd =
      some [.closed true, .popped false none] := by decide +kernel
  obtain ⟨⟨s, log⟩, hexec, hlog⟩ := Option.map_eq_some_iff.mp h
  have run := (Machine.Run.exec .start hexec).of_decide
  obtain ⟨hstranded, hquiet⟩ := quiet_of_heard.1 s log run
  exact ⟨s, log, run, hlog, hstranded, hquiet ⟨true, by simp [show log = _ from hlog]⟩⟩

/-- The thread `false` is between its test and its wait when the thread `true` notifies. -/
theorem stranded_by_close :
    ∃ (s : State Bool Nat) (log : List (Out Bool Nat)),
      machine.Run (fun _ _ _ => True) .new s log ∧ s.Stranded log ∧
      s.phase false = .waiting .pop ∧ s.cond = [false] := by
  have h : (machine.exec (fun (_ : State Bool Nat) _ _ => true) (.new, [])
      [(false, .take .pop), (false, .next), (false, .next), (true, .close), (true, .next),
        (false, .next)]).map
        (fun r => (r.2, r.1.opened, r.1.cond, r.1.phase false, r.1.phase true)) =
      some ([.closed true], false, [false], .waiting .pop, .idle) := by decide +kernel
  obtain ⟨⟨s, log⟩, hexec, heq⟩ := Option.map_eq_some_iff.mp h
  obtain ⟨hlog, hopened, hcond, hfalse, htrue⟩ : log = [.closed true] ∧ s.opened = false ∧
      s.cond = [false] ∧ s.phase false = .waiting .pop ∧ s.phase true = .idle := by
    simpa only [Prod.mk.injEq, Option.some.injEq] using heq
  refine ⟨s, log, (Machine.Run.exec .start hexec).free,
    ⟨hopened, ⟨true, by simp [hlog]⟩, ⟨false, .inl (by simp [hcond])⟩, fun t => ?_⟩, hfalse, hcond⟩
  cases t with
  | false => rw [hfalse]; rfl
  | true => rw [htrue]; rfl

end State
end Epyx.BlockingQueue
