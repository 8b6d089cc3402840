import Epyx.Actor.Manager

/-! What a step of a thread can do, and who holds which lock. -/
namespace Epyx.ActorManager

namespace State
variable {τ : Type*} [DecidableEq τ]

/-- What a step of the thread `t` can be, where the thread was, and what becomes of the manager. -/
inductive Step (s : State τ) (t : τ) : Event → State τ → List Out → Prop
  | add (h : (s.thread t).canCall) : Step s t .add (s.beginAdd t) []
  | kill (i : UInt32) (h : (s.thread t).canCall) :
      Step s t (.kill i) (s.setCall t (some (.killing i))) []
  | post (i : UInt32) (h : (s.thread t).canCall) :
      Step s t (.post i) (s.push i false) [.posted ⟨s.posted, i, false⟩]
  | take (m : Msg) (k : Nat) (h : s.thread t = ⟨.idle, none⟩) (hm : s.messages[k]? = some m) :
      Step s t (.take k) ({ s with messages := s.messages.eraseIdx k }.setJob t (.locking m)) []
  | selfKill (m : Msg) (p : Ptr) (h : s.thread t = ⟨.running m p, none⟩) :
      Step s t .selfKill ((s.setActor p { s.heap p with alive := false }).setCall t
        (some (.poking (s.heap p).id))) []
  | ret (m : Msg) (p : Ptr) (h : s.thread t = ⟨.running m p, none⟩) :
      Step s t .ret ((s.setActor p { s.heap p with mutex := none }).setJob t .idle) [.returned m p]
  | adding (p : Ptr) (i : UInt32) (h : (s.thread t).call = some (.adding p i))
      (free : s.actorsLock = none) :
      Step s t .next ({ s with actorsLock := some t }.setCall t (some (.inserting p i))) []
  | inserting (p : Ptr) (i : UInt32) (h : (s.thread t).call = some (.inserting p i)) :
      Step s t .next
        ({ s with actors := s.actors.insert i p, actorsLock := none }.setCall t none) []
  | killNone (i : UInt32) (h : (s.thread t).call = some (.killing i))
      (hi : s.actors[i]? = none) : Step s t .next (s.setCall t none) []
  | killing (i : UInt32) (p : Ptr) (h : (s.thread t).call = some (.killing i))
      (free : s.actorsLock = none) (hi : s.actors[i]? = some p) :
      Step s t .next ({ s with actorsLock := some t }.setCall t (some (.marking i p))) []
  | marking (i : UInt32) (p : Ptr) (h : (s.thread t).call = some (.marking i p)) :
      Step s t .next
        ({ s.setActor p { s.heap p with alive := false } with actorsLock := none }.setCall t
          (some (.poking i))) []
  | poking (i : UInt32) (h : (s.thread t).call = some (.poking i)) :
      Step s t .next ((s.push i true).setCall t none) [.posted ⟨s.posted, i, true⟩]
  | lockNone (m : Msg) (h : s.thread t = ⟨.locking m, none⟩) (hi : s.actors[m.id]? = none) :
      Step s t .next (s.setJob t .idle) [.refused m]
  | locking (m : Msg) (p : Ptr) (h : s.thread t = ⟨.locking m, none⟩)
      (free : s.actorsLock = none) (hi : s.actors[m.id]? = some p) :
      Step s t .next ({ s with actorsLock := some t }.setJob t (.waiting m p)) []
  | waiting (m : Msg) (p : Ptr) (h : s.thread t = ⟨.waiting m p, none⟩)
      (free : (s.heap p).mutex = none) :
      Step s t .next ((s.setActor p { s.heap p with mutex := some t }).setJob t (.checking m p)) []
  | alive (m : Msg) (p : Ptr) (h : s.thread t = ⟨.checking m p, none⟩) (ha : (s.heap p).alive) :
      Step s t .next ({ s with actorsLock := none }.setJob t (.running m p)) [.run m p]
  | dead (m : Msg) (p : Ptr) (h : s.thread t = ⟨.checking m p, none⟩)
      (ha : (s.heap p).alive = false) :
      Step s t .next ((s.setActor p { s.heap p with mutex := none }).setJob t (.deleting m.id p))
        [.refused m]
  | deleting (i : UInt32) (p : Ptr) (h : s.thread t = ⟨.deleting i p, none⟩) :
      Step s t .next ((s.setActor p { s.heap p with deleted := true }).setJob t (.erasing i))
        [.deleted p]
  | erasing (i : UInt32) (h : s.thread t = ⟨.erasing i, none⟩) :
      Step s t .next ({ s with actors := s.actors.erase i, actorsLock := none }.setJob t .idle) []

theorem nextCall_cases {s s' : State τ} {t : τ} {c : Call} {out : List Out}
    (hc : (s.thread t).call = some c) (h : s.nextCall t c = some (s', out)) :
    Step s t .next s' out := by
  cases c with
  | adding p i =>
    simp only [nextCall, Option.isNone_iff_eq_none, Option.ite_none_right_eq_some] at h
    obtain ⟨free, h⟩ := h
    cases h
    exact .adding p i hc free
  | inserting p i => cases h; exact .inserting p i hc
  | killing i =>
    simp only [nextCall, Option.isNone_iff_eq_none, Option.ite_none_right_eq_some] at h
    obtain ⟨free, h⟩ := h
    split at h
    · cases h
      exact .killNone i hc ‹_›
    · cases h
      exact .killing i _ hc free ‹_›
  | marking i p => cases h; exact .marking i p hc
  | poking i => cases h; exact .poking i hc

theorem nextJob_cases {s s' : State τ} {t : τ} {j : Job} {out : List Out}
    (hj : s.thread t = ⟨j, none⟩) (h : s.nextJob t j = some (s', out)) : Step s t .next s' out := by
  cases j with
  | idle => cases h
  | locking m =>
    simp only [nextJob, Option.isNone_iff_eq_none, Option.ite_none_right_eq_some] at h
    obtain ⟨free, h⟩ := h
    split at h
    · cases h
      exact .lockNone m hj ‹_›
    · cases h
      exact .locking m _ hj free ‹_›
  | waiting m p =>
    simp only [nextJob, Option.isNone_iff_eq_none, Option.ite_none_right_eq_some] at h
    obtain ⟨free, h⟩ := h
    cases h
    exact .waiting m p hj free
  | checking m p =>
    simp only [nextJob] at h
    split at h
    · rename_i ha
      cases h
      exact .alive m p hj ha
    · rename_i ha
      cases h
      exact .dead m p hj (Bool.eq_false_iff.mpr ha)
  | running m p => cases h
  | deleting i p => cases h; exact .deleting i p hj
  | erasing i => cases h; exact .erasing i hj

theorem step_cases {s s' : State τ} {t : τ} {e : Event} {out : List Out}
    (h : s.step t e = some (s', out)) : Step s t e s' out := by
  cases e with
  | add =>
    obtain ⟨hc, h⟩ := Option.ite_none_right_eq_some.mp h
    cases h
    exact .add hc
  | kill i =>
    obtain ⟨hc, h⟩ := Option.ite_none_right_eq_some.mp h
    cases h
    exact .kill i hc
  | post i =>
    obtain ⟨hc, h⟩ := Option.ite_none_right_eq_some.mp h
    cases h
    exact .post i hc
  | take k =>
    obtain ⟨hidle, h⟩ := Option.ite_none_right_eq_some.mp h
    obtain ⟨m, hm, heq⟩ := Option.map_eq_some_iff.mp h
    cases heq
    exact .take m k hidle hm
  | selfKill =>
    simp only [step] at h
    split at h
    · cases h
      exact .selfKill _ _ ‹_›
    · cases h
  | ret =>
    simp only [step] at h
    split at h
    · cases h
      exact .ret _ _ ‹_›
    · cases h
  | next =>
    simp only [step] at h
    split at h
    · exact nextCall_cases ‹_› h
    · exact nextJob_cases (by cases ht : s.thread t; simp_all) h

end State

/-! ### Locks -/

/-- `treat` has `actorsLock` here. -/
def Job.holdsActors : Job → Bool
  | .waiting _ _ | .checking _ _ | .deleting _ _ | .erasing _ => true
  | _ => false

def Call.holdsActors : Call → Bool
  | .inserting _ _ | .marking _ _ => true
  | _ => false

def Thread.holdsActors (th : Thread) : Bool :=
  th.job.holdsActors || th.call.any Call.holdsActors

/-- The actor whose lock `treat` has here. -/
def Job.locked : Job → Option Ptr
  | .checking _ p | .running _ p => some p
  | _ => none

def Job.atRest : Job → Bool
  | .idle | .running _ _ => true
  | _ => false

theorem Job.holdsActors_of_atRest {j : Job} (h : j.atRest) : j.holdsActors = false := by
  cases j <;> first | rfl | cases h

theorem Thread.canCall_iff (th : Thread) : th.canCall ↔ th.job.atRest ∧ th.call = none := by
  obtain ⟨j, c⟩ := th
  cases j <;> cases c <;> simp [canCall, Job.atRest]

namespace State

section
variable {τ : Type*}

/-- Who is where its code has a lock is who has the lock, and calls are made from where they can
be made. -/
structure Locks (s : State τ) : Prop where
  actors : ∀ t, (s.thread t).holdsActors ↔ s.actorsLock = some t
  mutex : ∀ t p, (s.thread t).job.locked = some p ↔ (s.heap p).mutex = some t
  call : ∀ t, (s.thread t).call ≠ none → (s.thread t).job.atRest

theorem locks_new : Locks (new : State τ) :=
  ⟨fun _ => by simp [new, Thread.holdsActors, Job.holdsActors],
    fun _ _ => by simp [new, Job.locked], fun _ h => absurd rfl h⟩

theorem Locks.lock_ne {s : State τ} (h : Locks s) {t : τ} (ht : (s.thread t).holdsActors = false) :
    s.actorsLock ≠ some t := fun hl => by
  simpa [ht] using (h.actors t).mpr hl

theorem Locks.canCall {s : State τ} (h : Locks s) {t : τ} (hc : (s.thread t).canCall) :
    (s.thread t).job.atRest ∧ s.actorsLock ≠ some t := by
  obtain ⟨hrest, hnone⟩ := (Thread.canCall_iff _).mp hc
  exact ⟨hrest, h.lock_ne (by simp [Thread.holdsActors, hnone, Job.holdsActors_of_atRest hrest])⟩

/-- Who is at rest has `actorsLock` only where its call has it. -/
theorem Locks.rest {s : State τ} (h : Locks s) {t : τ} {c : Call}
    (ht : (s.thread t).call = some c) :
    (s.thread t).job.atRest ∧ (s.thread t).holdsActors = c.holdsActors := by
  have hrest := h.call t (by simp [ht])
  exact ⟨hrest, by simp [Thread.holdsActors, Job.holdsActors_of_atRest hrest, ht]⟩

theorem Locks.release {s : State τ} (h : Locks s) {t : τ} (ht : (s.thread t).holdsActors) (u : τ)
    (hu : u ≠ t) : (none : Option τ) = some u ↔ s.actorsLock = some u := by
  rw [(h.actors t).mp ht]
  simp [Ne.symm hu]

theorem mutex_setActor (s : State τ) {p : Ptr} {a : Actor τ} (ha : a.mutex = (s.heap p).mutex)
    (q : Ptr) : ((s.setActor p a).heap q).mutex = (s.heap q).mutex := by
  by_cases hq : q = p
  · subst hq
    simpa using ha
  · simp [Function.update_of_ne hq]

/-- Who has the lock of an actor gives it back. -/
theorem Locks.unlock {s : State τ} (h : Locks s) {t : τ} {p : Ptr} {a : Actor τ}
    (ht : (s.thread t).job.locked = some p) (ha : a.mutex = none) (q : Ptr) :
    ((s.setActor p a).heap q).mutex ≠ some t ∧
      ∀ u, u ≠ t → (((s.setActor p a).heap q).mutex = some u ↔ (s.heap q).mutex = some u) := by
  by_cases hq : q = p
  · subst hq
    simp [ha, (h.mutex t q).mp ht, eq_comm]
  · have hm := h.mutex t q
    rw [ht] at hm
    simp [Function.update_of_ne hq, ← hm, Ne.symm hq]

end

variable {τ : Type*} [DecidableEq τ]

/-- A step of the thread `t` takes and gives back locks for itself only. -/
theorem Locks.update {s s' : State τ} (h : Locks s) {t : τ} {th : Thread}
    (hthread : s'.thread = Function.update s.thread t th)
    (hactors : th.holdsActors ↔ s'.actorsLock = some t)
    (hothers : ∀ u, u ≠ t → (s'.actorsLock = some u ↔ s.actorsLock = some u))
    (hmutex : ∀ p, th.job.locked = some p ↔ (s'.heap p).mutex = some t)
    (hmutexes : ∀ p u, u ≠ t → ((s'.heap p).mutex = some u ↔ (s.heap p).mutex = some u))
    (hcall : th.call ≠ none → th.job.atRest) : Locks s' := by
  have hall := Function.forall_update_iff s.thread (a := t) (b := th)
  refine ⟨?_, ?_, ?_⟩
  · rw [hthread]
    refine (hall fun u x => x.holdsActors ↔ s'.actorsLock = some u).mpr ⟨hactors, fun u hu => ?_⟩
    rw [hothers u hu]
    exact h.actors u
  · rw [hthread]
    refine (hall fun u x => ∀ p, x.job.locked = some p ↔ (s'.heap p).mutex = some u).mpr
      ⟨hmutex, fun u hu p => ?_⟩
    rw [hmutexes p u hu]
    exact h.mutex u p
  · rw [hthread]
    exact (hall fun _ x => x.call ≠ none → x.job.atRest).mpr ⟨hcall, fun u _ => h.call u⟩

theorem Locks.setCall {s s' : State τ} (h : Locks s) {t : τ} {c : Option Call}
    (hrest : (s.thread t).job.atRest)
    (hthread : s'.thread = Function.update s.thread t { s.thread t with call := c })
    (hmutex : ∀ p, (s'.heap p).mutex = (s.heap p).mutex)
    (hactors : c.any Call.holdsActors ↔ s'.actorsLock = some t)
    (hothers : ∀ u, u ≠ t → (s'.actorsLock = some u ↔ s.actorsLock = some u)) : Locks s' := by
  refine h.update hthread ?_ hothers (fun p => ?_) (fun p u _ => ?_) fun _ => hrest
  · rw [Thread.holdsActors, Job.holdsActors_of_atRest hrest, Bool.false_or]
    exact hactors
  · rw [hmutex]
    exact h.mutex t p
  · rw [hmutex]

theorem Locks.setJob {s s' : State τ} (h : Locks s) {t : τ} {j' : Job}
    (hthread : s'.thread = Function.update s.thread t ⟨j', none⟩)
    (hactors : j'.holdsActors ↔ s'.actorsLock = some t)
    (hothers : ∀ u, u ≠ t → (s'.actorsLock = some u ↔ s.actorsLock = some u))
    (hmutex : ∀ p, j'.locked = some p ↔ (s'.heap p).mutex = some t)
    (hmutexes : ∀ p u, u ≠ t → ((s'.heap p).mutex = some u ↔ (s.heap p).mutex = some u)) :
    Locks s' := by
  refine h.update hthread ?_ hothers hmutex hmutexes fun hc => absurd rfl hc
  simpa [Thread.holdsActors] using hactors

theorem setJob_thread {s : State τ} {t : τ} {j : Job} (ht : s.thread t = ⟨j, none⟩) (j' : Job) :
    (s.setJob t j').thread = Function.update s.thread t ⟨j', none⟩ := by
  rw [setJob, ht]
  rfl

theorem Locks.step {s s' : State τ} {t : τ} {e : Event} {out : List Out} (h : Locks s)
    (hs : Step s t e s' out) : Locks s' := by
  cases hs with
  | add hc =>
    obtain ⟨hrest, hne⟩ := h.canCall hc
    refine h.setCall hrest rfl (mutex_setActor s rfl) ?_ fun _ _ => Iff.rfl
    simpa [Call.holdsActors, beginAdd] using hne
  | kill i hc =>
    obtain ⟨hrest, hne⟩ := h.canCall hc
    refine h.setCall hrest rfl (fun p => rfl) ?_ fun _ _ => Iff.rfl
    simpa [Call.holdsActors] using hne
  | post i hc => exact ⟨h.actors, h.mutex, h.call⟩
  | take m k ht hm =>
    have hne := h.lock_ne (t := t) (by rw [ht]; rfl)
    refine h.setJob (setJob_thread ht (.locking m)) ?_ (fun _ _ => Iff.rfl) (fun p => ?_)
      fun _ _ _ => Iff.rfl
    · simpa [Job.holdsActors] using hne
    · simpa [ht, Job.locked] using h.mutex t p
  | selfKill m p ht =>
    have hne := h.lock_ne (t := t) (by rw [ht]; rfl)
    refine h.setCall (by rw [ht]; rfl) rfl (mutex_setActor s rfl) ?_ fun _ _ => Iff.rfl
    simpa [Call.holdsActors] using hne
  | ret m p ht =>
    have hne := h.lock_ne (t := t) (by rw [ht]; rfl)
    have hm := h.unlock (t := t) (p := p) (a := { s.heap p with mutex := none })
      (by rw [ht]; rfl) rfl
    refine h.setJob (setJob_thread ht .idle) ?_ (fun _ _ => Iff.rfl) (fun q => ?_)
      fun q => (hm q).2
    · simpa [Job.holdsActors] using hne
    · exact iff_of_false (by simp [Job.locked]) (hm q).1
  | adding p i ht free =>
    obtain ⟨hrest, -⟩ := h.rest ht
    refine h.setCall hrest rfl (fun p => rfl) ?_ fun u hu => ?_
    · simp [Call.holdsActors]
    · simp [free, Ne.symm hu]
  | inserting p i ht =>
    obtain ⟨hrest, hl⟩ := h.rest ht
    refine h.setCall hrest rfl (fun p => rfl) ?_ fun u hu => h.release hl u hu
    simp
  | killNone i ht hi =>
    obtain ⟨hrest, hl⟩ := h.rest ht
    have hne := h.lock_ne hl
    refine h.setCall hrest rfl (fun p => rfl) ?_ fun _ _ => Iff.rfl
    simpa using hne
  | killing i p ht free hi =>
    obtain ⟨hrest, -⟩ := h.rest ht
    refine h.setCall hrest rfl (fun p => rfl) ?_ fun u hu => ?_
    · simp [Call.holdsActors]
    · simp [free, Ne.symm hu]
  | marking i p ht =>
    obtain ⟨hrest, hl⟩ := h.rest ht
    refine h.setCall hrest rfl (mutex_setActor s rfl) ?_ fun u hu => h.release hl u hu
    simp [Call.holdsActors]
  | poking i ht =>
    obtain ⟨hrest, hl⟩ := h.rest ht
    have hne := h.lock_ne hl
    refine h.setCall hrest rfl (fun p => rfl) ?_ fun _ _ => Iff.rfl
    simpa using hne
  | lockNone m ht hi =>
    have hne := h.lock_ne (t := t) (by rw [ht]; rfl)
    refine h.setJob (setJob_thread ht .idle) ?_ (fun _ _ => Iff.rfl) (fun p => ?_)
      fun _ _ _ => Iff.rfl
    · simpa [Job.holdsActors] using hne
    · simpa [ht, Job.locked] using h.mutex t p
  | locking m p ht free hi =>
    refine h.setJob (setJob_thread ht (.waiting m p)) ?_ (fun u hu => ?_) (fun q => ?_)
      fun _ _ _ => Iff.rfl
    · simp [Job.holdsActors]
    · simp [free, Ne.symm hu]
    · simpa [ht, Job.locked] using h.mutex t q
  | waiting m p ht free =>
    have hl := (h.actors t).mp (by rw [ht]; rfl)
    refine h.setJob (setJob_thread ht (.checking m p)) ?_ (fun _ _ => Iff.rfl) (fun q => ?_)
      fun q u hu => ?_
    · simpa [Job.holdsActors] using hl
    · by_cases hpq : q = p
      · simp [hpq, Job.locked]
      · simpa [Function.update_of_ne hpq, Job.locked, Ne.symm hpq, ht] using h.mutex t q
    · by_cases hpq : q = p
      · simp [hpq, free, Ne.symm hu]
      · simp [Function.update_of_ne hpq]
  | alive m p ht ha =>
    refine h.setJob (setJob_thread ht (.running m p)) ?_ (h.release (by rw [ht]; rfl))
      (fun q => ?_) fun _ _ _ => Iff.rfl
    · simp [Job.holdsActors]
    · simpa [ht, Job.locked] using h.mutex t q
  | dead m p ht ha =>
    have hl := (h.actors t).mp (by rw [ht]; rfl)
    have hm := h.unlock (t := t) (p := p) (a := { s.heap p with mutex := none })
      (by rw [ht]; rfl) rfl
    refine h.setJob (setJob_thread ht (.deleting m.id p)) ?_ (fun _ _ => Iff.rfl) (fun q => ?_)
      fun q => (hm q).2
    · simpa [Job.holdsActors] using hl
    · exact iff_of_false (by simp [Job.locked]) (hm q).1
  | deleting i p ht =>
    have hl := (h.actors t).mp (by rw [ht]; rfl)
    have hm := mutex_setActor s (p := p) (a := { s.heap p with deleted := true }) rfl
    refine h.setJob (setJob_thread ht (.erasing i)) ?_ (fun _ _ => Iff.rfl) (fun q => ?_)
      fun q u _ => ?_
    · simpa [Job.holdsActors] using hl
    · have hq := h.mutex t q
      rw [ht, ← hm q] at hq
      exact hq
    · rw [← hm q]
      rfl
  | erasing i ht =>
    refine h.setJob (setJob_thread ht .idle) ?_ (h.release (by rw [ht]; rfl))
      (fun q => ?_) fun _ _ _ => Iff.rfl
    · simp [Job.holdsActors]
    · simpa [ht, Job.locked] using h.mutex t q

theorem locks_of_run {ok : State τ → List Out → τ × Event → Prop} {s : State τ} {log : List Out}
    (run : (machine τ).Run ok .new s log) : Locks s :=
  run.invariant (P := fun s _ => Locks s) locks_new fun _ _ _ _ _ h _ taken =>
    h.step (step_cases taken)

end State
end Epyx.ActorManager
