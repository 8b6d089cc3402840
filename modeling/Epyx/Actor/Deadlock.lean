import Epyx.Actor.Locks
import Mathlib.Data.Fintype.Basic

/-! The deadlock of `ActorWorkers::treat`. A worker takes the lock of an actor while it has
`actorsLock`, and the handler that has the lock of the actor may want `actorsLock` for an `add`. -/
namespace Epyx.ActorManager

/-- The thread waits for `actorsLock` in `add` or `kill`. -/
def Thread.waitsForActors (th : Thread) : Prop :=
  (∃ p i, th.call = some (.adding p i)) ∨ ∃ i, th.call = some (.killing i)

namespace State
variable {τ : Type*}

/-- A worker has `actorsLock` and waits for the lock of an actor whose handler, on another worker,
waits for `actorsLock`. -/
def Deadlock (s : State τ) : Prop :=
  ∃ t u m m' p, s.actorsLock = some t ∧ (s.thread t).job = .waiting m p ∧
    (s.thread u).job = .running m' p ∧ (s.heap p).mutex = some u ∧ (s.thread u).waitsForActors

/-- The handlers of the messages that count as quiet neither add nor kill actors, and no worker
goes to wait for an actor while another handler of it is running. -/
def Allowed (quiet : Msg → Bool) (s : State τ) : τ × Event → Prop
  | (t, .add) | (t, .kill _) => ∀ m p, (s.thread t).job = .running m p → quiet m = false
  | (t, .next) => ∀ m p, s.thread t = ⟨.locking m, none⟩ → s.actors[m.id]? = some p →
    ∀ u m', (s.thread u).job = .running m' p → quiet m'
  | _ => True

/-- What keeps the deadlock away: a handler that waits for `actorsLock` is not quiet, and a worker
that waits for an actor waits for a quiet handler. -/
structure Calm (quiet : Msg → Bool) (s : State τ) : Prop where
  noisy : ∀ t m p, (s.thread t).job = .running m p → (s.thread t).waitsForActors →
    quiet m = false
  contended : ∀ t u m m' p, (s.thread t).job = .waiting m p → (s.thread u).job = .running m' p →
    quiet m'

variable {quiet : Msg → Bool}

theorem Calm.not_deadlock {s : State τ} (h : Calm quiet s) : ¬Deadlock s := by
  rintro ⟨t, u, m, m', p, -, ht, hu, -, hw⟩
  have hq := h.contended t u m m' p ht hu
  rw [h.noisy u m' p hu hw] at hq
  cases hq

variable [DecidableEq τ]

theorem Calm.update {s s' : State τ} (h : Calm quiet s) {t : τ} {th : Thread}
    (hthread : s'.thread = Function.update s.thread t th)
    (hnoisy : ∀ m p, th.job = .running m p → th.waitsForActors → quiet m = false)
    (hwait : ∀ m p, th.job = .waiting m p → ∀ u m', (s.thread u).job = .running m' p → quiet m')
    (hrun : ∀ m' p, th.job = .running m' p → ∀ u m, u ≠ t → (s.thread u).job = .waiting m p →
      quiet m') : Calm quiet s' := by
  constructor
  · intro u m p hj hw
    rw [hthread] at hj hw
    by_cases hu : u = t
    · rw [hu, Function.update_self] at hj hw
      exact hnoisy m p hj hw
    · rw [Function.update_of_ne hu] at hj hw
      exact h.noisy u m p hj hw
  · intro u v m m' p hj hr
    rw [hthread] at hj hr
    by_cases hu : u = t
    · rw [hu, Function.update_self] at hj
      by_cases hv : v = t
      · rw [hv, Function.update_self, hj] at hr
        cases hr
      · rw [Function.update_of_ne hv] at hr
        exact hwait m p hj v m' hr
    · rw [Function.update_of_ne hu] at hj
      by_cases hv : v = t
      · rw [hv, Function.update_self] at hr
        exact hrun m' p hr u m hu hj
      · rw [Function.update_of_ne hv] at hr
        exact h.contended u v m m' p hj hr

theorem Calm.setCall {s s' : State τ} (h : Calm quiet s) {t : τ} {c : Option Call}
    (hthread : s'.thread = Function.update s.thread t { s.thread t with call := c })
    (hnoisy : ∀ m p, (s.thread t).job = .running m p →
      Thread.waitsForActors ⟨(s.thread t).job, c⟩ → quiet m = false) : Calm quiet s' :=
  h.update hthread hnoisy (fun m p hj u m' hr => h.contended t u m m' p hj hr)
    fun m' p hr u m _ hj => h.contended u t m m' p hj hr

theorem Calm.endCall {s s' : State τ} (h : Calm quiet s) {t : τ} {c : Option Call}
    (hthread : s'.thread = Function.update s.thread t { s.thread t with call := c })
    (hc : ¬Thread.waitsForActors ⟨(s.thread t).job, c⟩) : Calm quiet s' :=
  h.setCall hthread fun _ _ _ hw => absurd hw hc

/-- A step to where the worker neither waits for an actor nor runs a handler. -/
theorem Calm.setJob {s s' : State τ} (h : Calm quiet s) {t : τ} {th : Thread}
    (hthread : s'.thread = Function.update s.thread t th) (hwait : ∀ m p, th.job ≠ .waiting m p)
    (hrun : ∀ m p, th.job ≠ .running m p) : Calm quiet s' :=
  h.update hthread (fun m p hj => absurd hj (hrun m p)) (fun m p hj => absurd hj (hwait m p))
    fun m p hj => absurd hj (hrun m p)

theorem Calm.step {s s' : State τ} {t : τ} {e : Event} {out : List Out} (h : Calm quiet s)
    (hl : Locks s) (he : Allowed quiet s (t, e)) (hs : Step s t e s' out) : Calm quiet s' := by
  cases hs with
  | add hc => exact h.setCall rfl fun m p hj _ => he m p hj
  | kill i hc => exact h.setCall rfl fun m p hj _ => he m p hj
  | post i hc => exact ⟨h.noisy, h.contended⟩
  | take m k ht hm => exact h.setJob rfl (by simp) (by simp)
  | selfKill m p ht => exact h.endCall rfl (by simp [Thread.waitsForActors])
  | ret m p ht => exact h.setJob rfl (by simp) (by simp)
  | adding p i ht free => exact h.endCall rfl (by simp [Thread.waitsForActors])
  | inserting p i ht => exact h.endCall rfl (by simp [Thread.waitsForActors])
  | killNone i ht hi => exact h.endCall rfl (by simp [Thread.waitsForActors])
  | killing i p ht free hi => exact h.endCall rfl (by simp [Thread.waitsForActors])
  | marking i p ht => exact h.endCall rfl (by simp [Thread.waitsForActors])
  | poking i ht => exact h.endCall rfl (by simp [Thread.waitsForActors])
  | lockNone m ht hi => exact h.setJob rfl (by simp) (by simp)
  | locking m p ht free hi =>
    refine h.update (setJob_thread ht _) (by simp) (fun m' q hj u m'' hr => ?_) (by simp)
    cases hj
    exact he m p ht hi u m'' hr
  | waiting m p ht free => exact h.setJob rfl (by simp) (by simp)
  | alive m p ht ha =>
    refine h.update (setJob_thread ht _) (fun _ _ _ hw => ?_) (fun _ _ => nofun)
      fun m' q _ u m'' hu hj => ?_
    · simp [Thread.waitsForActors] at hw
    · -- two workers would have `actorsLock`
      have h1 := (hl.actors t).mp (by rw [ht]; rfl)
      have h2 := (hl.actors u).mp (by simp [Thread.holdsActors, hj, Job.holdsActors])
      rw [h1] at h2
      exact absurd (Option.some.inj h2).symm hu
  | dead m p ht ha => exact h.setJob rfl (by simp) (by simp)
  | deleting i p ht => exact h.setJob rfl (by simp) (by simp)
  | erasing i ht => exact h.setJob rfl (by simp) (by simp)

def allows [Fintype τ] (quiet : Msg → Bool) (s : State τ) : τ × Event → Bool
  | (t, .add) | (t, .kill _) =>
    match (s.thread t).job with
    | .running m _ => !quiet m
    | _ => true
  | (t, .next) =>
    match s.thread t with
    | ⟨.locking m, none⟩ => decide (∀ u, (match (s.thread u).job with
      | .running m' p => s.actors[m.id]? ≠ some p || quiet m'
      | _ => true) = true)
    | _ => true
  | _ => true

omit [DecidableEq τ] in
theorem allows_sound [Fintype τ] {s : State τ} {e : τ × Event} (h : allows quiet s e) :
    Allowed quiet s e := by
  have hcall : ∀ t, (match (s.thread t).job with | .running m _ => !quiet m | _ => true) = true →
      ∀ m p, (s.thread t).job = .running m p → quiet m = false := fun t h m p hj => by
    simpa [hj] using h
  obtain ⟨t, e⟩ := e
  cases e with
  | add => exact hcall t h
  | kill i => exact hcall t h
  | next =>
    intro m p ht hp u m' hu
    simp only [allows, ht, decide_eq_true_eq] at h
    simpa [hu, hp] using h u
  | _ => trivial

end State

open State
variable {τ : Type*} [DecidableEq τ]

/-- Workers never end up waiting for each other as long as no worker goes to wait for an actor
while a handler of it is running that may add or kill actors. -/
theorem no_deadlock {quiet : Msg → Bool} {s : State τ} {log : List Out}
    (run : (machine τ).Run (fun s _ e => Allowed quiet s e) .new s log) : ¬Deadlock s := by
  have h : Locks s ∧ Calm quiet s := by
    refine run.invariant (P := fun s _ => Locks s ∧ Calm quiet s) ⟨locks_new, ?_⟩ ?_
    · exact ⟨fun _ _ _ => nofun, fun _ _ _ _ _ => nofun⟩
    · rintro s log ⟨t, e⟩ s' out ⟨hl, hc⟩ he taken
      exact ⟨hl.step (step_cases taken), hc.step hl he (step_cases taken)⟩
  exact h.2.not_deadlock

/-- The user adds an actor and posts two messages to it, and two workers take one each. -/
def twoMessages : List (Fin 3 × Event) :=
  [(0, .add), (0, .next), (0, .next), (0, .post 0), (0, .post 0), (1, .take 0), (1, .next),
    (1, .next), (1, .next), (2, .take 0)]

/-- The second worker waits for a handler that adds nothing. -/
theorem no_deadlock_quiet :
    ∃ s log, (machine (Fin 3)).Run
        (fun s _ e => Allowed (fun m => m.serial = 0) s e) .new s log ∧
      (s.thread 2).job = .waiting ⟨1, 0, false⟩ 0 ∧ ¬Deadlock s := by
  have h : ((machine (Fin 3)).exec (fun s _ e => allows (fun m => m.serial = 0) s e) (.new, [])
      (twoMessages ++ [(2, .next)])).map (fun r => (r.1.thread 2).job) =
        some (.waiting ⟨1, 0, false⟩ 0) := by
    decide +kernel
  obtain ⟨⟨s, log⟩, hrun, hjob⟩ := Option.map_eq_some_iff.mp h
  have run := (Lib.Machine.Run.exec .start hrun).mono fun _ _ _ => allows_sound
  exact ⟨s, log, run, hjob, no_deadlock run⟩

/-- The second worker takes `actorsLock` and waits for the actor, and then the first handler adds
an actor: neither of the two goes on. -/
theorem deadlock_add :
    ∃ s log, (machine (Fin 3)).Run (fun _ _ _ => True) .new s log ∧ Deadlock s ∧
      (machine (Fin 3)).step s (1, .next) = none ∧ (machine (Fin 3)).step s (2, .next) = none := by
  have h : ((machine (Fin 3)).exec (fun _ _ _ => true) (.new, [])
      (twoMessages ++ [(2, .next), (1, .add)])).map (fun r => (r.1.actorsLock, (r.1.heap 0).mutex,
        r.1.thread 1, r.1.thread 2)) =
        some (some 2, some 1, ⟨.running ⟨0, 0, false⟩ 0, some (.adding 1 1)⟩,
          ⟨.waiting ⟨1, 0, false⟩ 0, none⟩) := by
    decide +kernel
  obtain ⟨⟨s, log⟩, hrun, heq⟩ := Option.map_eq_some_iff.mp h
  obtain ⟨hlock, hmutex, h1, h2⟩ : _ ∧ _ ∧ _ ∧ _ := by simpa using heq
  refine ⟨s, log, (Lib.Machine.Run.exec .start hrun).mono fun _ _ _ _ => trivial, ?_, ?_, ?_⟩
  · exact ⟨2, 1, _, _, 0, hlock, by rw [h2], by rw [h1], hmutex,
      .inl ⟨1, 1, by rw [h1]⟩⟩
  · simp [machine, State.step, h1, nextCall, hlock]
  · simp [machine, State.step, h2, nextJob, hmutex]

end Epyx.ActorManager
