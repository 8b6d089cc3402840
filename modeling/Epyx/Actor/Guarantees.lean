import Epyx.Actor.Objects
import Epyx.Lib.Ledger
import Mathlib.Data.List.Pairwise

/-! What the manager guarantees for the messages and the actors it is given. -/
namespace Epyx.ActorManager
open Lib (Ledger)

/-- The message a worker has taken and has not decided on. -/
def Job.holding : Job → Option Msg
  | .locking m | .waiting m _ | .checking m _ => some m
  | _ => none

def Thread.hand (th : Thread) : Option Nat := th.job.holding.map Msg.serial

/-- The number of a message that was run or refused. -/
def Out.settled : Out → Option Nat
  | .run m _ | .refused m => some m.serial
  | _ => none

def Out.ran : Out → Option Nat
  | .run m _ => some m.serial
  | _ => none

def Out.deletes : Out → Option Ptr
  | .deleted p => some p
  | _ => none

/-- The thread has a pointer to the actor. -/
def Thread.refers (th : Thread) (p : Ptr) : Prop :=
  (∃ m, th.job = .waiting m p) ∨ (∃ m, th.job = .checking m p) ∨ (∃ m, th.job = .running m p) ∨
    (∃ i, th.job = .deleting i p) ∨ (∃ i, th.call = some (.marking i p)) ∨ th.adds p

namespace State
variable {τ : Type*}

def ledger (s : State τ) (log : List Out) : Ledger τ where
  queue := s.messages.map Msg.serial
  hand := Thread.hand ∘ s.thread
  done := log.filterMap Out.settled
  next := s.posted

/-- The message waits in the queue, or a worker has it. -/
def UnderWay (s : State τ) (m : Msg) : Prop :=
  m ∈ s.messages ∨ ∃ t, (s.thread t).job.holding = some m

/-- What the log says of the messages and of the actors. -/
structure Mail (s : State τ) (log : List Out) : Prop where
  posted : ∀ m, s.UnderWay m → .posted m ∈ log
  /-- an empty message is there because its actor was killed -/
  empty : ∀ m, s.UnderWay m → m.empty → s.Dead m.id
  run : ∀ m p, .run m p ∈ log →
    .posted m ∈ log ∧ m.empty = false ∧ p < s.made ∧ UInt32.ofNat p = m.id
  deleted : ∀ p, .deleted p ∈ log → p < s.made ∧ (s.heap p).deleted
  once : (log.filterMap Out.deletes).Nodup

variable [DecidableEq τ]

theorem Step.grows {s s' : State τ} {t : τ} {e : Event} {out : List Out} (h : Step s t e s' out) :
    s.made ≤ s'.made ∧ ∀ p < s.made, ((s.heap p).deleted → (s'.heap p).deleted) ∧
      ((s.heap p).alive = false → (s'.heap p).alive = false) := by
  cases h with
  | add hc =>
    refine ⟨Nat.le_succ _, fun p hp => ?_⟩
    simp [beginAdd, Function.update_of_ne (Nat.ne_of_lt hp)]
  | selfKill m q _ | ret m q _ | marking i q _ | waiting m q _ _ | dead m q _ _ | deleting i q _ =>
    refine ⟨Nat.le_refl _, fun p hp => ?_⟩
    by_cases hpq : p = q
    · simp [hpq]
    · simp [Function.update_of_ne hpq]
  | _ => exact ⟨Nat.le_refl _, fun p hp => ⟨fun h => h, fun h => h⟩⟩

theorem Step.dead_mono {s s' : State τ} {t : τ} {e : Event} {out : List Out}
    (h : Step s t e s' out) {i : UInt32} (hi : s.Dead i) : s'.Dead i := by
  obtain ⟨p, hp, hid, ha⟩ := hi
  exact ⟨p, Nat.lt_of_lt_of_le hp h.grows.1, hid, (h.grows.2 p hp).2 ha⟩

theorem ledger_same {s s' : State τ} {t : τ} {th : Thread} {out log : List Out}
    (hthread : s'.thread = Function.update s.thread t th)
    (hhold : th.job.holding = (s.thread t).job.holding) (hmessages : s'.messages = s.messages)
    (hposted : s'.posted = s.posted) (hout : out.filterMap Out.settled = []) :
    s'.ledger (log ++ out) = s.ledger log := by
  have hhand : Thread.hand ∘ s'.thread = Thread.hand ∘ s.thread := by
    rw [hthread, Function.comp_update, Thread.hand, hhold]
    exact Function.update_eq_self t (Thread.hand ∘ s.thread)
  simp [ledger, hhand, hmessages, hposted, hout]

theorem ledger_settle {s s' : State τ} {t : τ} {th : Thread} {out log : List Out} {m : Msg}
    (hthread : s'.thread = Function.update s.thread t th) (hhold : th.job.holding = none)
    (hmessages : s'.messages = s.messages) (hposted : s'.posted = s.posted)
    (hout : out.filterMap Out.settled = [m.serial]) :
    s'.ledger (log ++ out) = (s.ledger log).settle t m.serial := by
  simp [ledger, Ledger.settle, hthread, Function.comp_update, Thread.hand, hhold, hmessages,
    hposted, hout]

/-- Other workers keep what they have, and a message moves by one place. -/
theorem Step.ledger {s s' : State τ} {t : τ} {e : Event} {out : List Out}
    (h : Step s t e s' out) (log : List Out) :
    s'.ledger (log ++ out) = s.ledger log ∨ s'.ledger (log ++ out) = (s.ledger log).issue ∨
      (∃ k m, s.messages[k]? = some m ∧
        s'.ledger (log ++ out) = (s.ledger log).take t k m.serial) ∨
      ∃ m, (s.thread t).job.holding = some m ∧
        s'.ledger (log ++ out) = (s.ledger log).settle t m.serial := by
  cases h with
  | post i hc => exact .inr (.inl (by simp [State.ledger, Ledger.issue, Out.settled]))
  | poking i ht =>
    have hhand : Function.update (Thread.hand ∘ s.thread) t
        (Thread.hand ⟨(s.thread t).job, none⟩) = Thread.hand ∘ s.thread :=
      Function.update_eq_self t (Thread.hand ∘ s.thread)
    exact .inr (.inl (by
      simp [State.ledger, Ledger.issue, Out.settled, Function.comp_update, hhand]))
  | take m k ht hm =>
    refine .inr (.inr (.inl ⟨k, m, hm, ?_⟩))
    simp [State.ledger, Ledger.take, Function.comp_update, Thread.hand, Job.holding,
      List.eraseIdx_map]
  | lockNone m ht hi =>
    exact .inr (.inr (.inr ⟨m, by rw [ht]; rfl,
      ledger_settle (setJob_thread ht .idle) rfl rfl rfl rfl⟩))
  | alive m p ht ha =>
    exact .inr (.inr (.inr ⟨m, by rw [ht]; rfl,
      ledger_settle (setJob_thread ht (.running m p)) rfl rfl rfl rfl⟩))
  | dead m p ht ha =>
    exact .inr (.inr (.inr ⟨m, by rw [ht]; rfl,
      ledger_settle (setJob_thread ht (.deleting m.id p)) rfl rfl rfl rfl⟩))
  | ret m p ht =>
    exact .inl (ledger_same (setJob_thread ht .idle) (by rw [ht]; rfl) rfl rfl rfl)
  | locking m p ht free hi =>
    exact .inl (ledger_same (setJob_thread ht (.waiting m p)) (by rw [ht]; rfl) rfl rfl rfl)
  | waiting m p ht free =>
    exact .inl (ledger_same (setJob_thread ht (.checking m p)) (by rw [ht]; rfl) rfl rfl rfl)
  | deleting i p ht =>
    exact .inl (ledger_same (setJob_thread ht (.erasing i)) (by rw [ht]; rfl) rfl rfl rfl)
  | erasing i ht =>
    exact .inl (ledger_same (setJob_thread ht .idle) (by rw [ht]; rfl) rfl rfl rfl)
  | _ => exact .inl (ledger_same rfl rfl rfl rfl rfl)

theorem Step.sound {s s' : State τ} {t : τ} {e : Event} {out log : List Out}
    (h : Step s t e s' out) (hl : (s.ledger log).Sound) : (s'.ledger (log ++ out)).Sound := by
  rcases h.ledger log with heq | heq | ⟨k, m, hm, heq⟩ | ⟨m, hm, heq⟩
  · exact heq ▸ hl
  · exact heq ▸ hl.issue
  · rw [heq]
    exact hl.take (by simp [State.ledger, hm])
  · rw [heq]
    exact hl.settle (by simp [State.ledger, Thread.hand, hm])

/-- A message that is under way was so before, or it has just been posted; an empty one is posted
to an actor that has been killed. -/
theorem Step.underWay {s s' : State τ} {t : τ} {e : Event} {out : List Out} {m : Msg}
    (h : Step s t e s' out) (hobj : Objects s) (hm : s'.UnderWay m) :
    s.UnderWay m ∨ .posted m ∈ out ∧ (m.empty → s.Dead m.id) := by
  -- most steps leave the queue alone, and nobody gets a message that he did not have
  have hmove : ∀ {th : Thread}, s'.messages = s.messages →
      s'.thread = Function.update s.thread t th →
      (∀ m', th.job.holding = some m' → (s.thread t).job.holding = some m') → s.UnderWay m :=
    fun {th} hmessages hthread hhold => by
      rcases hm with hm | ⟨u, hu⟩
      · exact .inl (hmessages ▸ hm)
      · rw [hthread, Function.update_apply] at hu
        split at hu
        · exact .inr ⟨t, hhold m hu⟩
        · exact .inr ⟨u, hu⟩
  have hpush : ∀ {i : UInt32} {b : Bool} {th : Thread},
      s'.messages = s.messages ++ [⟨s.posted, i, b⟩] →
      s'.thread = Function.update s.thread t th → th.job = (s.thread t).job →
      s.UnderWay m ∨ m = ⟨s.posted, i, b⟩ := fun {i b th} hmessages hthread hjob => by
    rcases hm with hm | ⟨u, hu⟩
    · rw [hmessages, List.mem_append, List.mem_singleton] at hm
      exact hm.imp_left .inl
    · rw [hthread, Function.update_apply] at hu
      split at hu
      · exact .inl (.inr ⟨t, hjob ▸ hu⟩)
      · exact .inl (.inr ⟨u, hu⟩)
  cases h with
  | post i hc =>
    refine (hpush rfl (Function.update_eq_self t s.thread).symm rfl).imp_right ?_
    rintro rfl
    exact ⟨List.mem_singleton_self _, fun h => nomatch h⟩
  | poking i ht =>
    refine (hpush rfl rfl rfl).imp_right ?_
    rintro rfl
    exact ⟨List.mem_singleton_self _, fun _ => hobj.call t _ ht⟩
  | take m' k ht hk =>
    rcases hm with hm | ⟨u, hu⟩
    · exact .inl (.inl (List.mem_of_mem_eraseIdx hm))
    · by_cases hut : u = t
      · simp only [setJob, setThread, hut, Function.update_self, Job.holding] at hu
        exact .inl (.inl (Option.some.inj hu ▸ List.mem_of_getElem? hk))
      · simp only [setJob, setThread, Function.update_of_ne hut] at hu
        exact .inl (.inr ⟨u, hu⟩)
  | lockNone m' ht hi => exact .inl (hmove rfl (setJob_thread ht .idle) fun _ h => nomatch h)
  | alive m' p ht ha => exact .inl (hmove rfl (setJob_thread ht _) fun _ h => nomatch h)
  | dead m' p ht ha => exact .inl (hmove rfl (setJob_thread ht _) fun _ h => nomatch h)
  | ret m' p ht => exact .inl (hmove rfl (setJob_thread ht .idle) fun _ h => nomatch h)
  | locking m' p ht free hi =>
    exact .inl (hmove rfl (setJob_thread ht (.waiting m' p)) fun _ h => by rw [ht]; exact h)
  | waiting m' p ht free =>
    exact .inl (hmove rfl (setJob_thread ht (.checking m' p)) fun _ h => by rw [ht]; exact h)
  | deleting i p ht => exact .inl (hmove rfl (setJob_thread ht _) fun _ h => nomatch h)
  | erasing i ht => exact .inl (hmove rfl (setJob_thread ht .idle) fun _ h => nomatch h)
  | _ => exact .inl (hmove rfl rfl fun _ h => h)

theorem Step.run {s s' : State τ} {t : τ} {e : Event} {out : List Out} {m : Msg} {p : Ptr}
    (h : Step s t e s' out) (hm : .run m p ∈ out) :
    (s.thread t).job = .checking m p ∧ (s.heap p).alive := by
  cases h with
  | alive m' p' ht ha =>
    cases List.mem_singleton.mp hm
    exact ⟨by rw [ht], ha⟩
  | _ => simp at hm

theorem Step.deletes {s s' : State τ} {t : τ} {e : Event} {out : List Out}
    (h : Step s t e s' out) :
    out.filterMap Out.deletes = [] ∨ ∃ i p, s.thread t = ⟨.deleting i p, none⟩ ∧
      out = [.deleted p] ∧ (s'.heap p).deleted ∧ s'.made = s.made := by
  cases h with
  | deleting i p ht => exact .inr ⟨i, p, ht, rfl, by simp, rfl⟩
  | _ => exact .inl rfl

theorem Mail.step {s s' : State τ} {t : τ} {e : Event} {out log : List Out} (h : Mail s log)
    (hobj : Objects s) (hmade : s'.made ≤ 2 ^ 32) (hs : Step s t e s' out) :
    Mail s' (log ++ out) := by
  obtain ⟨hmono, hgrow⟩ := hs.grows
  refine ⟨fun m hm => ?_, fun m hm he => ?_, fun m p hm => ?_, fun p hp => ?_, ?_⟩
  · rcases hs.underWay hobj hm with hm | ⟨hm, -⟩
    · exact List.mem_append_left _ (h.posted m hm)
    · exact List.mem_append_right _ hm
  · rcases hs.underWay hobj hm with hm | ⟨-, hm⟩
    · exact hs.dead_mono (h.empty m hm he)
    · exact hs.dead_mono (hm he)
  · rcases List.mem_append.mp hm with hm | hm
    · obtain ⟨hposted, he, hp, hid⟩ := h.run m p hm
      exact ⟨List.mem_append_left _ hposted, he, Nat.lt_of_lt_of_le hp hmono, hid⟩
    · obtain ⟨hj, ha⟩ := hs.run hm
      have hway : s.UnderWay m := .inr ⟨t, by rw [hj]; rfl⟩
      have hjob := hobj.job t
      rw [hj] at hjob
      obtain ⟨hp, hid⟩ := hobj.map _ p hjob.1
      refine ⟨List.mem_append_left _ (h.posted m hway), ?_, Nat.lt_of_lt_of_le hp hmono, hid⟩
      -- an empty message is for an actor that has been killed, and that is this one
      cases he : m.empty with
      | false => rfl
      | true =>
        obtain ⟨q, hq, hqid, hqa⟩ := h.empty m hway he
        have hqp := ofNat_inj (Nat.le_trans hmono hmade) hq hp (hqid.trans hid.symm)
        rw [hqp, ha] at hqa
        cases hqa
  · rcases List.mem_append.mp hp with hp | hp
    · obtain ⟨hlt, hd⟩ := h.deleted p hp
      exact ⟨Nat.lt_of_lt_of_le hlt hmono, (hgrow p hlt).1 hd⟩
    · rcases hs.deletes with hnone | ⟨i, q, ht, rfl, hd, heq⟩
      · have hin : p ∈ out.filterMap Out.deletes := List.mem_filterMap.mpr ⟨_, hp, rfl⟩
        rw [hnone] at hin
        cases hin
      · cases List.mem_singleton.mp hp
        have hjob := hobj.job t
        rw [ht] at hjob
        exact ⟨heq ▸ (hobj.map i p hjob.1).1, hd⟩
  · rw [List.filterMap_append]
    rcases hs.deletes with hnone | ⟨i, q, ht, rfl, -, -⟩
    · rw [hnone, List.append_nil]
      exact h.once
    · have hjob := hobj.job t
      rw [ht] at hjob
      refine List.nodup_append.mpr ⟨h.once, List.nodup_singleton q, fun a ha b hb hab => ?_⟩
      rw [hab, List.mem_singleton.mp hb] at ha
      obtain ⟨o, ho, hoq⟩ := List.mem_filterMap.mp ha
      cases o with
      | deleted q' =>
        cases hoq
        exact absurd (h.deleted q ho).2 (by simp [hjob.2.1])
      | _ => cases hoq

omit [DecidableEq τ] in
/-- Whom a thread has a pointer to has not been deleted. -/
theorem Objects.refers {s : State τ} (h : Objects s) {t : τ} {p : Ptr}
    (hp : (s.thread t).refers p) : (s.heap p).deleted = false := by
  have hjob := h.job t
  have hcall := h.call t
  rcases hp with ⟨m, hp⟩ | ⟨m, hp⟩ | ⟨m, hp⟩ | ⟨i, hp⟩ | ⟨i, hp⟩ | ⟨i, hp | hp⟩
  · rw [hp] at hjob
    exact hjob.2
  · rw [hp] at hjob
    exact hjob.2
  · rw [hp] at hjob
    exact hjob.2.2
  · rw [hp] at hjob
    exact hjob.2.1
  · exact (hcall _ hp).2
  · exact (hcall _ hp).2.2.1
  · exact (hcall _ hp).2.2.1

omit [DecidableEq τ] in
/-- Nobody else has a pointer to the actor that a worker deletes. -/
theorem Objects.unreferenced {s : State τ} (h : Objects s) (hl : Locks s) {t u : τ} {i : UInt32}
    {p : Ptr} (ht : (s.thread t).job = .deleting i p) (hu : u ≠ t) : ¬(s.thread u).refers p := by
  have hjob := h.job t
  rw [ht] at hjob
  obtain ⟨hi, -, hm⟩ := hjob
  obtain ⟨hfree, hcall⟩ := hl.others (t := t) (by simp [Thread.holdsActors, ht, Job.holdsActors]) hu
  rintro (⟨m, hp⟩ | ⟨m, hp⟩ | ⟨m, hp⟩ | ⟨j, hp⟩ | ⟨j, hp⟩ | ⟨j, hp | hp⟩)
  · simp [hp, Job.holdsActors] at hfree
  · simp [hp, Job.holdsActors] at hfree
  · -- who runs a handler has the lock of the actor
    have hmu := (hl.mutex u p).mp (by rw [hp]; rfl)
    rw [hm] at hmu
    cases hmu
  · simp [hp, Job.holdsActors] at hfree
  · exact absurd (hcall _ hp) (by simp [Call.holdsActors])
  · -- who adds an actor has not put it into the map
    obtain ⟨-, hid, -, hnone⟩ := h.call u _ hp
    rw [← hid, (h.map i p hi).2, hi] at hnone
    cases hnone
  · exact absurd (hcall _ hp) (by simp [Call.holdsActors])

/-- What the manager guarantees: in a state, with the log of the run that has led to it. -/
structure Guarantees (s : State τ) (log : List Out) : Prop where
  /-- no message is run twice -/
  once : (log.filterMap Out.ran).Nodup
  /-- what is run was posted to the actor it is run on, and is not the empty message of a kill -/
  posted : ∀ m p, .run m p ∈ log →
    .posted m ∈ log ∧ m.empty = false ∧ p < s.made ∧ (s.heap p).id = m.id
  only : ∀ p < s.made, ∀ q < s.made, (s.heap p).id = (s.heap q).id → p = q
  alone : ∀ t u m n p, (s.thread t).job = .running m p → (s.thread u).job = .running n p → t = u
  /-- who finds no actor, or a dead one, refuses the message -/
  absent : ∀ t m, s.thread t = ⟨.locking m, none⟩ → s.actors[m.id]? = none →
    ∀ s' out, s.step t .next = some (s', out) → out = [.refused m]
  dead : ∀ t m p, s.thread t = ⟨.checking m p, none⟩ → (s.heap p).alive = false →
    ∀ s' out, s.step t .next = some (s', out) → out = [.refused m]
  refused : ∀ m, .refused m ∈ log → ∀ p, .run m p ∉ log
  deleted : (log.filterMap Out.deletes).Nodup
  /-- an actor is deleted while nobody else has a pointer to it, and nobody gets one any more -/
  unreferenced : ∀ t i p, (s.thread t).job = .deleting i p → ∀ u, u ≠ t → ¬(s.thread u).refers p
  gone : ∀ p, .deleted p ∈ log → ∀ t, ¬(s.thread t).refers p

omit [DecidableEq τ] in
theorem ran_nodup {log : List Out} (h : (log.filterMap Out.settled).Nodup) :
    (log.filterMap Out.ran).Nodup := by
  have hran : ∀ {o : Out} {n}, o.ran = some n → o.settled = some n := fun {o n} ho => by
    cases o with
    | run m p => exact ho
    | _ => cases ho
  refine List.pairwise_filterMap.mpr ((List.pairwise_filterMap.mp h).imp ?_)
  intro a b hab n hn m hm
  exact hab n (hran hn) m (hran hm)

/-- What the manager keeps to from one step to the next. -/
structure Kept (s : State τ) (log : List Out) : Prop where
  locks : Locks s
  objects : Objects s
  ledger : (s.ledger log).Sound
  mail : Mail s log

omit [DecidableEq τ] in
theorem kept_new : Kept (new : State τ) [] := by
  refine ⟨locks_new, ?_, ?_, ?_⟩
  · exact ⟨rfl, by simp [new], fun _ _ => rfl, by simp [new], by simp [new], fun _ => trivial,
      by simp [new], by simp [new, Thread.adds]⟩
  · refine ⟨List.nodup_nil, ?_, ?_, ?_, ?_⟩ <;>
      simp [ledger, new, Thread.hand, Job.holding]
  · have hway : ∀ m, ¬(new : State τ).UnderWay m := fun m h => by
      rcases h with h | ⟨t, h⟩
      · cases h
      · cases h
    exact ⟨fun m h => absurd h (hway m), fun m h => absurd h (hway m), by simp, by simp,
      List.nodup_nil⟩

theorem Kept.step {s s' : State τ} {t : τ} {e : Event} {out log : List Out} (h : Kept s log)
    (hmade : s'.made ≤ 2 ^ 32) (hs : Step s t e s' out) : Kept s' (log ++ out) :=
  ⟨h.locks.step hs, h.objects.step h.locks hmade hs, hs.sound h.ledger,
    h.mail.step h.objects hmade hs⟩

theorem Kept.facts {s : State τ} {log : List Out} (h : Kept s log)
    (hmade : s.made ≤ 2 ^ 32) : Guarantees s log := by
  have hsettled : (log.filterMap Out.settled).Nodup := (List.nodup_append.mp h.ledger.nodup).2.1
  refine ⟨ran_nodup hsettled, fun m p hm => ?_, fun p hp q hq hpq => ?_,
    fun t u m n p ht hu => ?_, fun t m ht hi s' out hs => ?_, fun t m p ht ha s' out hs => ?_,
    fun m hm p hp => ?_, h.mail.once, fun t i p ht u hu => h.objects.unreferenced h.locks ht hu,
    fun p hp t ht => ?_⟩
  · obtain ⟨hposted, he, hp, hid⟩ := h.mail.run m p hm
    exact ⟨hposted, he, hp, (h.objects.id p hp).trans hid⟩
  · rw [h.objects.id p hp, h.objects.id q hq] at hpq
    exact ofNat_inj hmade hp hq hpq
  · have hmt := (h.locks.mutex t p).mp (by rw [ht]; rfl)
    have hmu := (h.locks.mutex u p).mp (by rw [hu]; rfl)
    exact Option.some.inj (hmt.symm.trans hmu)
  · simp only [State.step, ht, nextJob, hi, Option.ite_none_right_eq_some, Option.some.injEq,
      Prod.mk.injEq] at hs
    exact hs.2.2.symm
  · simp only [State.step, ht, nextJob, ha, Bool.false_eq_true, if_false, Option.some.injEq,
      Prod.mk.injEq] at hs
    exact hs.2.symm
  · have heq := Lib.eq_of_nodup_filterMap hsettled hm hp rfl rfl
    cases heq
  · have hd := h.objects.refers ht
    rw [(h.mail.deleted p hp).2] at hd
    cases hd

end State

open State
variable {τ : Type*} [DecidableEq τ]

/-- As long as the counter of the ids has not come round. -/
theorem guarantees {ok : State τ → List Out → τ × Event → Prop} {s : State τ} {log : List Out}
    (run : (machine τ).Run ok .new s log) (hmade : s.made ≤ 2 ^ 32) : Guarantees s log := by
  have h := run.invariant (P := fun s log => s.made ≤ 2 ^ 32 → Kept s log) (fun _ => kept_new) <| by
    rintro s log ⟨t, e⟩ s' out h - taken hmade
    have hs := step_cases taken
    exact (h (Nat.le_trans hs.grows.1 hmade)).step hmade hs
  exact (h hmade).facts hmade

/-- The user adds an actor, posts a message to it and kills it. -/
def postAndKill : List Event :=
  [.add, .next, .next, .post 0, .kill 0, .next, .next, .next]

/-- A worker takes a message and deletes the actor it finds dead. -/
def refuseAndDelete : List Event :=
  [.take 0, .next, .next, .next, .next, .next]

/-- Behind a kill nothing is run, and the actor is deleted once. -/
theorem guarantees_kill :
    ∃ s log, (machine (Fin 3)).Run (fun _ _ _ => True) .new s log ∧
      log = [.posted ⟨0, 0, false⟩, .posted ⟨1, 0, true⟩, .refused ⟨0, 0, false⟩, .deleted 0,
        .refused ⟨1, 0, true⟩] ∧ Guarantees s log := by
  have h : ((machine (Fin 3)).exec (fun _ _ _ => true) (.new, [])
      (postAndKill.map (0, ·) ++ refuseAndDelete.map (1, ·) ++ [(2, .take 0), (2, .next)])).map
        (fun r => (r.1.made, r.2)) =
        some (1, [.posted ⟨0, 0, false⟩, .posted ⟨1, 0, true⟩, .refused ⟨0, 0, false⟩, .deleted 0,
          .refused ⟨1, 0, true⟩]) := by
    decide +kernel
  obtain ⟨⟨s, log⟩, hrun, heq⟩ := Option.map_eq_some_iff.mp h
  obtain ⟨hmade, hlog⟩ := Prod.mk.inj heq
  have run := (Lib.Machine.Run.exec .start hrun).free
  exact ⟨s, log, run, hlog, guarantees run (by rw [show s.made = 1 from hmade]; decide)⟩

/-- One more actor is added; it is found by the value the counter had. -/
theorem add_run {s : State τ} {log : List Out} {t : τ}
    (run : (machine τ).Run (fun _ _ _ => True) .new s log) (hlock : s.actorsLock = none)
    (ht : s.thread t = ⟨.idle, none⟩) (hm : ∀ p, (s.heap p).mutex = none) :
    ∃ s', (machine τ).Run (fun _ _ _ => True) .new s' log ∧ s'.actorsLock = none ∧
      s'.thread = s.thread ∧ (∀ p, (s'.heap p).mutex = none) ∧ s'.messages = s.messages ∧
      s'.actorCount = s.actorCount + 1 ∧
      ∃ p, s'.actors[s.actorCount]? = some p ∧ (s'.heap p).alive := by
  have hself : Function.update s.thread t ⟨.idle, none⟩ = s.thread := by
    rw [← ht, Function.update_eq_self]
  let s₁ := s.beginAdd t
  let s₂ := { s₁ with actorsLock := some t }.setCall t (some (.inserting s.made s.actorCount))
  let s₃ := { s₂ with
    actors := s₂.actors.insert s.actorCount s.made, actorsLock := none }.setCall t none
  have h₁ : (machine τ).step s (t, .add) = some (s₁, []) := by
    simp [machine, State.step, ht, Thread.canCall, s₁]
  have h₂ : (machine τ).step s₁ (t, .next) = some (s₂, []) := by
    simp [machine, State.step, s₁, s₂, beginAdd, nextCall, hlock]
  have h₃ : (machine τ).step s₂ (t, .next) = some (s₃, []) := by
    simp [machine, State.step, s₂, s₃, nextCall]
  have run₃ := ((run.step trivial h₁).step trivial h₂).step trivial h₃
  simp only [List.append_nil] at run₃
  refine ⟨s₃, run₃, rfl, ?_, fun p => ?_, rfl, rfl, s.made, ?_, ?_⟩
  · simp [s₃, s₂, s₁, beginAdd, ht, hself]
  · by_cases hp : p = s.made
    · simp [s₃, s₂, s₁, beginAdd, hp, hm]
    · simp [s₃, s₂, s₁, beginAdd, Function.update_of_ne hp, hm]
  · simp [s₃]
  · simp [s₃, s₂, s₁, beginAdd]

theorem adds_run {s : State τ} {log : List Out} {t : τ} (n : Nat)
    (run : (machine τ).Run (fun _ _ _ => True) .new s log) (hlock : s.actorsLock = none)
    (ht : s.thread t = ⟨.idle, none⟩) (hm : ∀ p, (s.heap p).mutex = none) :
    ∃ s', (machine τ).Run (fun _ _ _ => True) .new s' log ∧ s'.actorsLock = none ∧
      s'.thread = s.thread ∧ (∀ p, (s'.heap p).mutex = none) ∧ s'.messages = s.messages ∧
      s'.actorCount = s.actorCount + UInt32.ofNat n := by
  induction n with
  | zero => exact ⟨s, run, hlock, rfl, hm, rfl, by simp⟩
  | succ n ih =>
    obtain ⟨s', run', hlock', hthread', hm', hmessages', hcount'⟩ := ih
    obtain ⟨s'', run'', hlock'', hthread'', hm'', hmessages'', hcount'', -⟩ :=
      add_run run' hlock' (t := t) (by rw [hthread', ht]) hm'
    refine ⟨s'', run'', hlock'', hthread''.trans hthread', hm'', hmessages''.trans hmessages', ?_⟩
    rw [hcount'', hcount', UInt32.ofNat_add, ← UInt32.add_assoc]
    rfl

/-- After an actor was killed and deleted the counter comes round, and the empty message of the
kill is run on the actor that has the id now. -/
theorem empty_run :
    ∃ s log m p, (machine (Fin 3)).Run (fun _ _ _ => True) .new s log ∧
      .run m p ∈ log ∧ m.empty = true := by
  have h : ((machine (Fin 3)).exec (fun _ _ _ => true) (.new, [])
      (postAndKill.map (0, ·) ++ refuseAndDelete.map (1, ·))).map (fun r => (r.1.actorsLock,
        r.1.actorCount, r.1.messages, r.1.thread 0, r.1.thread 1, r.1.thread 2)) =
        some (none, 1, [⟨1, 0, true⟩], ⟨.idle, none⟩, ⟨.idle, none⟩, ⟨.idle, none⟩) := by
    decide +kernel
  obtain ⟨⟨s, log⟩, hrun, heq⟩ := Option.map_eq_some_iff.mp h
  obtain ⟨hlock, hcount, hmessages, h0, h1, h2⟩ : _ ∧ _ ∧ _ ∧ _ ∧ _ ∧ _ := by simpa using heq
  have run := (Lib.Machine.Run.exec .start hrun).free
  have hidle : ∀ u, s.thread u = ⟨.idle, none⟩ := by
    simp [Fin.forall_fin_succ, h0, h1, h2]
  have hm : ∀ p, (s.heap p).mutex = none := fun p => by
    refine Option.eq_none_iff_forall_ne_some.mpr fun u hu => ?_
    have hl := ((locks_of_run run).mutex u p).mpr hu
    rw [hidle u] at hl
    cases hl
  -- the counter comes round, and the next actor has the id of the first one
  obtain ⟨s', run', hlock', hthread', hm', hmessages', hcount'⟩ :=
    adds_run (2 ^ 32 - 1) run hlock (hidle 0) hm
  obtain ⟨s'', run'', hlock'', hthread'', hm'', hmessages'', -, p, hp, ha⟩ :=
    add_run run' hlock' (t := 0) (by rw [hthread', hidle]) hm'
  have hzero : s'.actorCount = 0 := by
    rw [hcount', hcount]
    rfl
  rw [hzero] at hp
  have hworker : s''.thread 1 = ⟨.idle, none⟩ := by rw [hthread'', hthread', hidle]
  -- a worker takes the empty message
  let m : Msg := ⟨1, 0, true⟩
  let s₁ := { s'' with messages := [] }.setJob 1 (.locking m)
  let s₂ := { s₁ with actorsLock := some 1 }.setJob 1 (.waiting m p)
  let s₃ := (s₂.setActor p { s₂.heap p with mutex := some 1 }).setJob 1 (.checking m p)
  let s₄ := { s₃ with actorsLock := none }.setJob 1 (.running m p)
  have e₁ : (machine (Fin 3)).step s'' (1, .take 0) = some (s₁, []) := by
    simp [machine, State.step, hworker, hmessages'', hmessages', hmessages, s₁, m]
  have e₂ : (machine (Fin 3)).step s₁ (1, .next) = some (s₂, []) := by
    simp [machine, State.step, s₁, s₂, m, hworker, nextJob, hlock'', hp]
  have e₃ : (machine (Fin 3)).step s₂ (1, .next) = some (s₃, []) := by
    simp [machine, State.step, s₁, s₂, s₃, hworker, nextJob, hm'']
  have e₄ : (machine (Fin 3)).step s₃ (1, .next) = some (s₄, [.run m p]) := by
    simp [machine, State.step, s₁, s₂, s₃, s₄, hworker, nextJob, ha]
  exact ⟨s₄, _, m, p, (((run''.step trivial e₁).step trivial e₂).step trivial e₃).step trivial e₄,
    by simp, rfl⟩

end Epyx.ActorManager
