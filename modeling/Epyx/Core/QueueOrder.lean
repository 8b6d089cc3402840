import Epyx.Core.BlockingQueue

/-! All methods of `core/blocking-queue-detail.h` together: `pop`, `flush`, their timed and their
best-effort forms, `push`, `close`, `size` and `empty`. Whatever the threads do, the queue is a
queue. -/
namespace Epyx.BlockingQueue
open Lib

/-- What a thread does. -/
inductive Call (τ α : Type*) where
  /-- it goes on, or calls `pop()`, `flush()`, `push` or `close` -/
  | move (m : Move τ α)
  /-- `pop(msec)` or `flush(msec)` -/
  | timed (k : Take)
  /-- `wait_for` returns `timeout` -/
  | timeout
  /-- `tryPop` or `tryFlush`, and whether `try_lock` gets the mutex -/
  | tryTake (k : Take) (locked : Bool)
  | size
  | empty
  deriving DecidableEq, Repr

/-- What is seen of the queue. -/
inductive Note (τ α : Type*) where
  /-- `push_back`, inside of `push` -/
  | inserted (t : τ) (e : α)
  /-- `close` has written `opened` -/
  | closing (t : τ)
  /-- a call returns; `patient` is one that waits without a limit -/
  | returned (patient : Bool) (o : Out τ α)
  | size (t : τ) (n : Nat)
  | empty (t : τ) (b : Bool)
  deriving DecidableEq, Repr

/-- A queue, and which threads wait with a limit. -/
structure Timed (τ α : Type*) where
  queue : State τ α
  timed : τ → Bool

/-- A null pointer. -/
def nothing {τ α : Type*} (t : τ) : Take → Out τ α
  | .pop => .popped t none
  | .flush => .flushed t none

namespace Timed
variable {τ α : Type*}

def new : Timed τ α := ⟨.new, fun _ => false⟩

/-- What a move says besides what it returns. -/
def said (s : Timed τ α) (t : τ) : Move τ α → List (Note τ α)
  | .next =>
    match s.queue.phase t with
    | .pushing e => [.inserted t e]
    | _ => []
  | .close => [.closing t]
  | _ => []

variable [DecidableEq τ] [DecidableEq α]

/-- `pop(msec)` does not test again once it is woken. -/
def woken (s : Timed τ α) (t : τ) : Move τ α → Bool
  | .next => s.timed t && s.queue.phase t = .waiting .pop
  | _ => false

def move (s : Timed τ α) (t : τ) (m : Move τ α) : Option (Timed τ α × List (Note τ α)) :=
  (s.queue.step t m).map fun r =>
    (⟨if s.woken t m then r.1.setPhase t (.taking .pop) else r.1,
      match m with
      | .take _ => Function.update s.timed t false
      | _ => s.timed⟩,
      s.said t m ++ r.2.map (.returned !s.timed t))

def step (s : Timed τ α) (t : τ) : Call τ α → Option (Timed τ α × List (Note τ α))
  | .move m => s.move t m
  | .timed k =>
    (s.queue.step t (.take k)).map fun r => (⟨r.1, Function.update s.timed t true⟩, [])
  | .timeout =>
    match s.queue.phase t with
    | .waiting k =>
      if s.timed t ∧ s.queue.mutex.isNone then
        some (⟨{ s.queue with cond := s.queue.cond.erase t }.setPhase t .idle, s.timed⟩,
          [.returned false (nothing t k)])
      else none
    | _ => none
  | .tryTake k locked =>
    if s.queue.phase t = .idle then
      if locked then
        if s.queue.mutex.isNone then
          some (⟨(s.queue.finish t k).1, s.timed⟩, (s.queue.finish t k).2.map (.returned false))
        else none
      else some (s, [.returned false (nothing t k)])
    else none
  | .size =>
    if s.queue.phase t = .idle ∧ s.queue.mutex.isNone then
      some (s, [.size t s.queue.fifo.length])
    else none
  | .empty =>
    if s.queue.phase t = .idle ∧ s.queue.mutex.isNone then
      some (s, [.empty t (s.queue.fifo = [])])
    else none

def machine : Machine (Timed τ α) (τ × Call τ α) (Note τ α) where
  step s e := s.step e.1 e.2

/-- What a step of a thread is, with what is seen of it. -/
inductive Does (s : Timed τ α) (t : τ) : Timed τ α → List (Note τ α) → Prop
  | call {p : Phase α} {timed : τ → Bool} (idle : s.queue.phase t = .idle)
      (calls : (∃ k, p = .locking k) ∨ ∃ e, p = .pushing e)
      (others : ∀ u, u ≠ t → timed u = s.timed u) :
      Does s t ⟨s.queue.setPhase t p, timed⟩ []
  | refuse {b : Bool} (idle : s.queue.phase t = .idle) (closed : s.queue.opened = false) :
      Does s t s [.returned b (.pushed t false)]
  | close (idle : s.queue.phase t = .idle) :
      Does s t ⟨{ s.queue with opened := false }.setPhase t .closing, s.timed⟩ [.closing t]
  | lock {p : Phase α} {k : Take}
      (asleep : s.queue.phase t = .locking k ∨ s.queue.phase t = .waiting k)
      (free : s.queue.mutex = none) (next : p = .testing k ∨ s.timed t ∧ p = .taking k) :
      Does s t ⟨{ s.queue with mutex := some t }.setPhase t p, s.timed⟩ []
  | test {p : Phase α} {k : Take} (tests : s.queue.phase t = .testing k)
      (next : p = .deciding k ∨ p = .taking k ∧ (s.queue.opened = false ∨ s.queue.fifo ≠ [])) :
      Does s t ⟨s.queue.setPhase t p, s.timed⟩ []
  | wait {k : Take} (decides : s.queue.phase t = .deciding k) :
      Does s t ⟨{ s.queue with mutex := none, cond := t :: s.queue.cond }.setPhase t (.waiting k),
        s.timed⟩ []
  | finish {k : Take} (takes : s.queue.phase t = .taking k) :
      Does s t ⟨(s.queue.finish t k).1, s.timed⟩
        ((s.queue.finish t k).2.map (.returned !s.timed t))
  | insert {e : α} (pushes : s.queue.phase t = .pushing e) (free : s.queue.mutex = none) :
      Does s t ⟨{ s.queue with fifo := s.queue.fifo ++ [e] }.setPhase t .notifying, s.timed⟩
        [.inserted t e]
  | notified {cond : List τ} {b : Bool} (notifies : s.queue.phase t = .notifying) :
      Does s t ⟨{ s.queue with cond := cond }.setPhase t .idle, s.timed⟩
        [.returned b (.pushed t true)]
  | closed {b : Bool} (closes : s.queue.phase t = .closing) :
      Does s t ⟨{ s.queue with cond := [] }.setPhase t .idle, s.timed⟩ [.returned b (.closed t)]
  | wake {k : Take} {cond : List τ} (waits : s.queue.phase t = .waiting k) :
      Does s t ⟨{ s.queue with cond := cond }.setPhase t (.waiting k), s.timed⟩ []
  | timeout {k : Take} {cond : List τ} (waits : s.queue.phase t = .waiting k) :
      Does s t ⟨{ s.queue with cond := cond }.setPhase t .idle, s.timed⟩
        [.returned false (nothing t k)]
  | tried {k : Take} (idle : s.queue.phase t = .idle) (free : s.queue.mutex = none) :
      Does s t ⟨(s.queue.finish t k).1, s.timed⟩ ((s.queue.finish t k).2.map (.returned false))
  | failed {k : Take} (idle : s.queue.phase t = .idle) : Does s t s [.returned false (nothing t k)]
  | size : Does s t s [.size t s.queue.fifo.length]
  | empty : Does s t s [.empty t (s.queue.fifo = [])]

theorem move_next {s s' : Timed τ α} {t : τ} {notes : List (Note τ α)}
    (hs : s.move t .next = some (s', notes)) : Does s t s' notes := by
  obtain ⟨⟨q, out⟩, hq, heq⟩ := Option.map_eq_some_iff.mp hs
  cases heq
  rw [State.step] at hq
  cases hp : s.queue.phase t with
  | idle =>
    rw [hp] at hq
    cases hq
  | locking k =>
    rw [hp] at hq
    obtain ⟨hfree, hq⟩ := Option.ite_none_right_eq_some.mp hq
    cases hq
    have hlock := Does.lock (s := s) (p := .testing k) (.inl hp) (Option.isNone_iff_eq_none.mp hfree)
      (.inl rfl)
    simpa [said, woken, hp] using hlock
  | testing k =>
    rw [hp, State.next] at hq
    split at hq
    · rename_i htest
      cases hq
      have htest := Does.test (s := s) (p := .deciding k) hp (.inl rfl)
      simpa [said, woken, hp] using htest
    · rename_i htest
      cases hq
      have hready : s.queue.opened = false ∨ s.queue.fifo ≠ [] := by
        by_cases ho : s.queue.opened
        · exact .inr fun hnil => htest ⟨ho, hnil⟩
        · exact .inl (Bool.eq_false_iff.mpr ho)
      have htest := Does.test (s := s) (p := .taking k) hp (.inr ⟨rfl, hready⟩)
      simpa [said, woken, hp] using htest
  | deciding k =>
    rw [hp] at hq
    cases hq
    simpa [said, woken, hp] using Does.wait (s := s) hp
  | waiting k =>
    rw [hp] at hq
    obtain ⟨hfree, hq⟩ := Option.ite_none_right_eq_some.mp hq
    cases hq
    by_cases hwoken : s.timed t ∧ k = .pop
    · obtain ⟨htimed, rfl⟩ := hwoken
      have hlock := Does.lock (s := s) (p := .taking .pop) (.inr hp)
        (Option.isNone_iff_eq_none.mp hfree.2) (.inr ⟨htimed, rfl⟩)
      simpa [said, woken, hp, htimed] using hlock
    · have hlock := Does.lock (s := s) (p := .testing k) (.inr hp)
        (Option.isNone_iff_eq_none.mp hfree.2) (.inl rfl)
      simpa [said, woken, hp, hwoken] using hlock
  | taking k =>
    rw [hp, State.next, Option.some.injEq] at hq
    have hfinish := Does.finish (s := s) hp
    rw [hq] at hfinish
    simpa [said, woken, hp] using hfinish
  | pushing e =>
    rw [hp] at hq
    obtain ⟨hfree, hq⟩ := Option.ite_none_right_eq_some.mp hq
    cases hq
    have hinsert := Does.insert (s := s) hp (Option.isNone_iff_eq_none.mp hfree)
    simpa [said, woken, hp] using hinsert
  | notifying =>
    rw [hp] at hq
    obtain ⟨hcond, hq⟩ := Option.ite_none_right_eq_some.mp hq
    cases hq
    have hnotified : Does s t ⟨{ s.queue with cond := s.queue.cond }.setPhase t .idle, s.timed⟩
        [.returned (!s.timed t) (.pushed t true)] := .notified hp
    simpa [said, woken, hp] using hnotified
  | closing =>
    rw [hp] at hq
    cases hq
    simpa [said, woken, hp] using Does.closed (s := s) (b := !s.timed t) hp

theorem step_does {s s' : Timed τ α} {t : τ} {c : Call τ α} {notes : List (Note τ α)}
    (hs : s.step t c = some (s', notes)) : Does s t s' notes := by
  cases c with
  | move m =>
    cases m with
    | next => exact move_next hs
    | take k =>
      obtain ⟨⟨q, out⟩, hq, heq⟩ := Option.map_eq_some_iff.mp hs
      cases heq
      obtain ⟨hidle, hq⟩ := Option.ite_none_right_eq_some.mp hq
      cases hq
      exact .call hidle (.inl ⟨k, rfl⟩) fun u hu => Function.update_of_ne hu _ _
    | push e =>
      obtain ⟨⟨q, out⟩, hq, heq⟩ := Option.map_eq_some_iff.mp hs
      cases heq
      obtain ⟨hidle, hq⟩ := Option.ite_none_right_eq_some.mp hq
      split at hq
      · cases hq
        exact .call hidle (.inr ⟨e, rfl⟩) fun u _ => rfl
      · rename_i hclosed
        cases hq
        exact .refuse hidle (Bool.eq_false_iff.mpr hclosed)
    | close =>
      obtain ⟨⟨q, out⟩, hq, heq⟩ := Option.map_eq_some_iff.mp hs
      cases heq
      obtain ⟨hidle, hq⟩ := Option.ite_none_right_eq_some.mp hq
      cases hq
      exact .close hidle
    | notify u =>
      obtain ⟨⟨q, out⟩, hq, heq⟩ := Option.map_eq_some_iff.mp hs
      cases heq
      obtain ⟨⟨hnotifies, -⟩, hq⟩ := Option.ite_none_right_eq_some.mp hq
      cases hq
      exact .notified hnotifies
    | wake =>
      obtain ⟨⟨q, out⟩, hq, heq⟩ := Option.map_eq_some_iff.mp hs
      cases heq
      rw [State.step] at hq
      split at hq
      · rename_i k hwaits
        obtain ⟨-, hq⟩ := Option.ite_none_right_eq_some.mp hq
        cases hq
        exact .wake hwaits
      · cases hq
  | timed k =>
    obtain ⟨⟨q, out⟩, hq, heq⟩ := Option.map_eq_some_iff.mp hs
    cases heq
    obtain ⟨hidle, hq⟩ := Option.ite_none_right_eq_some.mp hq
    cases hq
    exact .call hidle (.inl ⟨k, rfl⟩) fun u hu => Function.update_of_ne hu _ _
  | timeout =>
    rw [step] at hs
    split at hs
    · rename_i k hwaits
      obtain ⟨-, hs⟩ := Option.ite_none_right_eq_some.mp hs
      cases hs
      exact .timeout hwaits
    · cases hs
  | tryTake k locked =>
    obtain ⟨hidle, hs⟩ := Option.ite_none_right_eq_some.mp hs
    split at hs
    · obtain ⟨hfree, hs⟩ := Option.ite_none_right_eq_some.mp hs
      cases hs
      exact .tried hidle (Option.isNone_iff_eq_none.mp hfree)
    · cases hs
      exact .failed hidle
  | size =>
    obtain ⟨-, hs⟩ := Option.ite_none_right_eq_some.mp hs
    cases hs
    exact .size
  | empty =>
    obtain ⟨-, hs⟩ := Option.ite_none_right_eq_some.mp hs
    cases hs
    exact .empty

end Timed

/-! ### What is put in and what comes out -/

/-- The thread has the mutex. -/
def Phase.holds {α : Type*} : Phase α → Bool
  | .testing _ | .deciding _ | .taking _ => true
  | _ => false

/-- `push` has put its element in and has not returned yet. -/
def Phase.owes {α : Type*} : Phase α → Nat
  | .notifying => 1
  | _ => 0

/-- The elements a call returns. -/
def Out.elements {τ α : Type*} : Out τ α → List α
  | .popped _ (some e) => [e]
  | .flushed _ (some es) => es
  | _ => []

namespace Note
variable {τ α : Type*}

def putIn : Note τ α → Option α
  | .inserted _ e => some e
  | _ => none

def takenOut : Note τ α → List α
  | .returned _ o => o.elements
  | _ => []

/-- What was put into the queue, in its order. -/
def allIn (log : List (Note τ α)) : List α := log.filterMap putIn

/-- What the calls have returned, in their order. -/
def allOut (log : List (Note τ α)) : List α := log.flatMap takenOut

theorem allIn_append (log notes : List (Note τ α)) :
    allIn (log ++ notes) = allIn log ++ allIn notes := List.filterMap_append

theorem allOut_append (log notes : List (Note τ α)) :
    allOut (log ++ notes) = allOut log ++ allOut notes := List.flatMap_append

theorem allIn_returned (b : Bool) (out : List (Out τ α)) :
    allIn (out.map (.returned b)) = [] := by
  simp [allIn, putIn, List.filterMap_map, Function.comp_def]

theorem allOut_returned (b : Bool) (out : List (Out τ α)) :
    allOut (out.map (.returned b)) = out.flatMap Out.elements := by
  simp [allOut, takenOut, List.flatMap_map]

/-- What has to have come before a note. A call that waits without a limit gives up on a closed
queue only, when all that was put in has been returned; `push` gives up on a closed queue too;
`size` and `empty` tell how much was put in and not yet taken. -/
def Due (log : List (Note τ α)) : Note τ α → Prop
  | .returned true (.popped _ none) | .returned true (.flushed _ none) =>
    (∃ u, .closing u ∈ log) ∧ allIn log = allOut log
  | .returned _ (.pushed _ false) => ∃ u, .closing u ∈ log
  | .size _ n => (allIn log).length = (allOut log).length + n
  | .empty _ b => b ↔ (allIn log).length = (allOut log).length
  | _ => True

variable [DecidableEq τ]

/-- The elements that the thread has put in. -/
def insertions (t : τ) (log : List (Note τ α)) : Nat :=
  log.countP fun
    | .inserted u _ => u = t
    | _ => false

/-- Its calls of `push` that have returned true. -/
def pushes (t : τ) (log : List (Note τ α)) : Nat :=
  log.countP fun
    | .returned _ (.pushed u true) => u = t
    | _ => false

end Note

namespace State
variable {τ α : Type*} [DecidableEq τ]

/-- What a consumer takes it returns. -/
theorem finish_elements (s : State τ α) (t : τ) (k : Take) :
    s.fifo = (s.finish t k).2.flatMap Out.elements ++ (s.finish t k).1.fifo := by
  cases k with
  | pop => cases hf : s.fifo <;> simp [finish, Out.elements, hf]
  | flush => by_cases hf : s.fifo = [] <;> simp [finish, Out.elements, hf]

end State

/-! ### What a step keeps -/

namespace Timed
variable {τ α : Type*}

/-- Who has the mutex is the one that `mutex` names. -/
def Exclusive (s : Timed τ α) : Prop := ∀ t, (s.queue.phase t).holds → s.queue.mutex = some t

/-- A consumer that waits without a limit has found the queue closed, or something in it. -/
def Ready (s : Timed τ α) : Prop :=
  ∀ t k, s.queue.phase t = .taking k → s.timed t = false →
    s.queue.opened = false ∨ s.queue.fifo ≠ []

variable [DecidableEq τ]

theorem exclusive_update {phase : τ → Phase α} {mutex mutex' : Option τ} {t : τ} {p : Phase α}
    (h : ∀ u, (phase u).holds → mutex = some u) (self : p.holds → mutex' = some t)
    (others : ∀ u, u ≠ t → mutex = some u → mutex' = some u) (u : τ)
    (hu : (Function.update phase t p u).holds) : mutex' = some u := by
  by_cases hut : u = t
  · subst hut
    rw [Function.update_self] at hu
    exact self hu
  · rw [Function.update_of_ne hut] at hu
    exact others u hut (h u hu)

theorem ready_update {s : Timed τ α} (hready : s.Ready) (hmutex : s.Exclusive) {timed : τ → Bool}
    {t : τ} {p : Phase α} {R : Prop} (self : ∀ k, p = .taking k → timed t = false → R)
    (same : ∀ u, u ≠ t → timed u = s.timed u)
    (others : ∀ u, u ≠ t → s.queue.mutex = some u →
      s.queue.opened = false ∨ s.queue.fifo ≠ [] → R) (u : τ) (k : Take)
    (hu : Function.update s.queue.phase t p u = .taking k) (htimed : timed u = false) : R := by
  by_cases hut : u = t
  · subst hut
    rw [Function.update_self] at hu
    exact self k hu htimed
  · rw [Function.update_of_ne hut] at hu
    rw [same u hut] at htimed
    exact others u hut (hmutex u (by rw [hu]; rfl)) (hready u k hu htimed)

variable {s s' : Timed τ α} {t : τ} {notes : List (Note τ α)}

theorem Does.order (h : Does s t s' notes) :
    s.queue.fifo ++ Note.allIn notes = Note.allOut notes ++ s'.queue.fifo := by
  cases h with
  | finish takes =>
    rw [Note.allIn_returned, Note.allOut_returned, List.append_nil]
    exact s.queue.finish_elements t _
  | tried idle free =>
    rw [Note.allIn_returned, Note.allOut_returned, List.append_nil]
    exact s.queue.finish_elements t _
  | @timeout k cond waits => cases k <;> exact List.append_nil _
  | @failed k idle => cases k <;> exact List.append_nil _
  | insert pushes free => rfl
  | _ => exact List.append_nil _

theorem Does.opened (h : Does s t s' notes) (hclosed : s'.queue.opened = false) :
    s.queue.opened = false ∨ .closing t ∈ notes := by
  cases h with
  | close idle => exact .inr (.head _)
  | @finish k takes => cases k <;> exact .inl hclosed
  | @tried k idle free => cases k <;> exact .inl hclosed
  | _ => exact .inl hclosed

/-- The mutex of a call that has taken its elements is free again. -/
theorem finish_free (s : Timed τ α) (t : τ) (k : Take) :
    (s.queue.finish t k).1.mutex = none ∧
      (s.queue.finish t k).1.phase = Function.update s.queue.phase t .idle := by
  cases k <;> exact ⟨rfl, rfl⟩

theorem Does.exclusive (h : Does s t s' notes) (hs : s.Exclusive) : s'.Exclusive := by
  have hholder : (s.queue.phase t).holds → ∀ u, u ≠ t → s.queue.mutex ≠ some u :=
    fun ht u hu hmutex => hu (Option.some.inj (hmutex.symm.trans (hs t ht)))
  have haside : ∀ (p : Phase α) {q : State τ α} {timed : τ → Bool},
      q.phase = Function.update s.queue.phase t p → p.holds = false → q.mutex = s.queue.mutex →
      Exclusive ⟨q, timed⟩ := by
    intro p q timed hphase hp hmutex u hu
    rw [show (Timed.mk q timed).queue.phase = _ from hphase] at hu
    rw [show (Timed.mk q timed).queue.mutex = _ from hmutex]
    exact exclusive_update hs (fun h => by rw [hp] at h; cases h) (fun _ _ hu => hu) u hu
  cases h with
  | call idle calls others =>
    rcases calls with ⟨k, rfl⟩ | ⟨e, rfl⟩
    · exact haside (.locking k) rfl rfl rfl
    · exact haside (.pushing e) rfl rfl rfl
  | refuse idle closed => exact hs
  | close idle => exact haside .closing rfl rfl rfl
  | lock asleep free next =>
    refine exclusive_update hs (fun _ => rfl) fun u _ hu => ?_
    rw [free] at hu
    cases hu
  | test tests next =>
    exact exclusive_update hs (fun _ => hs t (by rw [tests]; rfl)) fun _ _ hu => hu
  | wait decides =>
    exact exclusive_update hs (fun h => by cases h)
      fun u hut hu => absurd hu (hholder (by rw [decides]; rfl) u hut)
  | @finish k takes =>
    obtain ⟨hmutex, hphase⟩ := finish_free s t k
    intro u hu
    dsimp only at hu ⊢
    rw [hphase] at hu
    rw [hmutex]
    exact exclusive_update hs (fun h => by cases h)
      (fun u hut hu => absurd hu (hholder (by rw [takes]; rfl) u hut)) u hu
  | insert pushes free => exact haside .notifying rfl rfl rfl
  | notified notifies => exact haside .idle rfl rfl rfl
  | closed closes => exact haside .idle rfl rfl rfl
  | @wake k cond waits => exact haside (.waiting k) rfl rfl rfl
  | timeout waits => exact haside .idle rfl rfl rfl
  | @tried k idle free =>
    obtain ⟨hmutex, hphase⟩ := finish_free s t k
    exact haside .idle hphase rfl (hmutex.trans free.symm)
  | failed idle => exact hs
  | size => exact hs
  | empty => exact hs

theorem Does.ready (h : Does s t s' notes) (hs : s.Exclusive) (hr : s.Ready) : s'.Ready := by
  have haside : ∀ (p : Phase α) {q : State τ α} {timed : τ → Bool},
      q.phase = Function.update s.queue.phase t p → (∀ k, p ≠ .taking k) →
      (s.queue.opened = false → q.opened = false) → q.fifo = s.queue.fifo →
      (∀ u, u ≠ t → timed u = s.timed u) → Ready ⟨q, timed⟩ := by
    intro p q timed hphase hp hopened hfifo htimed u k hu
    rw [show (Timed.mk q timed).queue.phase = _ from hphase] at hu
    rw [show (Timed.mk q timed).queue.fifo = _ from hfifo]
    exact ready_update hr hs (fun k hk => absurd hk (hp k)) htimed
      (fun _ _ _ h => h.imp_left hopened) u k hu
  have hself : ∀ u, u ≠ t → s.timed u = s.timed u := fun _ _ => rfl
  cases h with
  | call idle calls others =>
    rcases calls with ⟨k, rfl⟩ | ⟨e, rfl⟩
    · exact haside (.locking k) rfl nofun id rfl others
    · exact haside (.pushing e) rfl nofun id rfl others
  | refuse idle closed => exact hr
  | close idle => exact haside .closing rfl nofun (fun _ => rfl) rfl hself
  | @lock p k asleep free next =>
    refine ready_update hr hs (fun k hk htimed => ?_) hself fun _ _ _ h => h
    rcases next with rfl | ⟨ht, -⟩
    · cases hk
    · rw [ht] at htimed
      cases htimed
  | @test p k tests next =>
    refine ready_update hr hs (fun k hk _ => ?_) hself fun _ _ _ h => h
    rcases next with rfl | ⟨-, hready⟩
    · cases hk
    · exact hready
  | @wait k decides => exact haside (.waiting k) rfl nofun id rfl hself
  | @finish k takes =>
    obtain ⟨-, hphase⟩ := finish_free s t k
    intro u j hu
    dsimp only at hu
    rw [hphase] at hu
    -- nobody else has the mutex
    refine ready_update hr hs nofun hself (fun u hut hu _ => ?_) u j hu
    have ht := hs t (by rw [takes]; rfl)
    exact absurd (Option.some.inj (hu.symm.trans ht)) hut
  | insert pushes free =>
    refine ready_update hr hs nofun hself fun u _ hu _ => ?_
    rw [free] at hu
    cases hu
  | notified notifies => exact haside .idle rfl nofun id rfl hself
  | closed closes => exact haside .idle rfl nofun id rfl hself
  | @wake k cond waits => exact haside (.waiting k) rfl nofun id rfl hself
  | timeout waits => exact haside .idle rfl nofun id rfl hself
  | @tried k idle free =>
    obtain ⟨-, hphase⟩ := finish_free s t k
    intro u j hu
    dsimp only at hu
    rw [hphase] at hu
    refine ready_update hr hs nofun hself (fun u _ hu _ => ?_) u j hu
    rw [free] at hu
    cases hu
  | failed idle => exact hr
  | size => exact hr
  | empty => exact hr

theorem finish_pushes (s : State τ α) (b : Bool) (t u : τ) (k : Take) :
    Note.insertions u ((s.finish t k).2.map (.returned b)) = 0 ∧
      Note.pushes u ((s.finish t k).2.map (.returned b)) = 0 := by
  cases k <;> exact ⟨rfl, rfl⟩

/-- Each element is put in by one call of `push`, which returns true. -/
theorem Does.pushes (h : Does s t s' notes) (u : τ) :
    Note.insertions u notes + (s.queue.phase u).owes =
      Note.pushes u notes + (s'.queue.phase u).owes := by
  have haside : ∀ {p q : Phase α}, s.queue.phase t = p → p.owes = q.owes →
      (s.queue.phase u).owes = (Function.update s.queue.phase t q u).owes := by
    intro p q hp hq
    by_cases hu : u = t
    · rw [hu, Function.update_self, hp, hq]
    · rw [Function.update_of_ne hu]
  cases h with
  | @call p timed idle calls others =>
    rcases calls with ⟨k, rfl⟩ | ⟨e, rfl⟩
    · exact congrArg (0 + ·) (haside idle rfl)
    · exact congrArg (0 + ·) (haside idle rfl)
  | refuse idle closed => rfl
  | close idle => exact congrArg (0 + ·) (haside idle rfl)
  | @lock p k asleep free next =>
    have hp : p.owes = 0 := by
      rcases next with rfl | ⟨-, rfl⟩
      · rfl
      · rfl
    rcases asleep with hasleep | hasleep
    · exact congrArg (0 + ·) (haside hasleep hp.symm)
    · exact congrArg (0 + ·) (haside hasleep hp.symm)
  | @test p k tests next =>
    have hp : p.owes = 0 := by
      rcases next with rfl | ⟨rfl, -⟩
      · rfl
      · rfl
    exact congrArg (0 + ·) (haside tests hp.symm)
  | wait decides => exact congrArg (0 + ·) (haside decides rfl)
  | @finish k takes =>
    obtain ⟨hinsertions, hpushes⟩ := finish_pushes s.queue (!s.timed t) t u k
    rw [hinsertions, hpushes, (finish_free s t k).2]
    exact congrArg (0 + ·) (haside takes rfl)
  | insert pushes free =>
    by_cases hu : u = t
    · subst hu
      simp [Note.insertions, Note.pushes, pushes, Phase.owes]
    · simp [Note.insertions, Note.pushes, hu, Ne.symm hu]
  | notified notifies =>
    by_cases hu : u = t
    · subst hu
      simp [Note.insertions, Note.pushes, notifies, Phase.owes]
    · simp [Note.insertions, Note.pushes, hu, Ne.symm hu]
  | closed closes => exact congrArg (0 + ·) (haside closes rfl)
  | wake waits => exact congrArg (0 + ·) (haside waits rfl)
  | @timeout k cond waits => cases k <;> exact congrArg (0 + ·) (haside waits rfl)
  | @tried k idle free =>
    obtain ⟨hinsertions, hpushes⟩ := finish_pushes s.queue false t u k
    rw [hinsertions, hpushes, (finish_free s t k).2]
    exact congrArg (0 + ·) (haside idle rfl)
  | @failed k idle => cases k <;> rfl
  | size => rfl
  | empty => rfl

/-- What is true of a queue and of what was seen of it. -/
structure Sound (s : Timed τ α) (log : List (Note τ α)) : Prop where
  order : Note.allIn log = Note.allOut log ++ s.queue.fifo
  closed : s.queue.opened = false → ∃ u, .closing u ∈ log
  exclusive : s.Exclusive
  ready : s.Ready
  pushes : ∀ u, Note.insertions u log = Note.pushes u log + (s.queue.phase u).owes
  due : Grounded Note.Due log

/-- A step is seen once at most, and what is seen has its reason. -/
theorem Sound.due_notes {log : List (Note τ α)} (h : Sound s log) (hdoes : Does s t s' notes) :
    notes = [] ∨ ∃ o, notes = [o] ∧ Note.Due log o := by
  cases hdoes with
  | @refuse b idle closed => exact .inr ⟨_, rfl, by cases b <;> exact h.closed closed⟩
  | close idle => exact .inr ⟨_, rfl, trivial⟩
  | @finish k takes =>
    have hnull : s.timed t = false → s.queue.fifo = [] →
        (∃ u, .closing u ∈ log) ∧ Note.allIn log = Note.allOut log := fun htimed hfifo => by
      refine ⟨h.closed ((h.ready t k takes htimed).resolve_right fun hne => hne hfifo), ?_⟩
      rw [h.order, hfifo, List.append_nil]
    cases k with
    | pop =>
      refine .inr ⟨_, rfl, ?_⟩
      cases htimed : s.timed t with
      | true => trivial
      | false =>
        cases hfifo : s.queue.fifo with
        | nil => exact hnull htimed hfifo
        | cons e es => trivial
    | flush =>
      refine .inr ⟨_, rfl, ?_⟩
      cases htimed : s.timed t with
      | true => trivial
      | false =>
        by_cases hfifo : s.queue.fifo = []
        · rw [if_pos hfifo]
          exact hnull htimed hfifo
        · rw [if_neg hfifo]
          trivial
  | insert pushes free => exact .inr ⟨_, rfl, trivial⟩
  | notified notifies => exact .inr ⟨_, rfl, by cases ‹Bool› <;> trivial⟩
  | closed closes => exact .inr ⟨_, rfl, by cases ‹Bool› <;> trivial⟩
  | @timeout k cond waits => cases k <;> exact .inr ⟨_, rfl, trivial⟩
  | @tried k idle free => cases k <;> exact .inr ⟨_, rfl, trivial⟩
  | @failed k idle => cases k <;> exact .inr ⟨_, rfl, trivial⟩
  | size =>
    refine .inr ⟨_, rfl, ?_⟩
    show _ = _
    rw [h.order, List.length_append]
  | empty =>
    refine .inr ⟨_, rfl, ?_⟩
    show _ ↔ _
    rw [h.order, List.length_append]
    simp
  | _ => exact .inl rfl

theorem Sound.step {log : List (Note τ α)} (h : Sound s log) (hdoes : Does s t s' notes) :
    Sound s' (log ++ notes) := by
  refine ⟨?_, fun hclosed => ?_, hdoes.exclusive h.exclusive, hdoes.ready h.exclusive h.ready,
    fun u => ?_, ?_⟩
  · rw [Note.allIn_append, Note.allOut_append, h.order, List.append_assoc, hdoes.order,
      List.append_assoc]
  · rcases hdoes.opened hclosed with hopened | hmem
    · obtain ⟨u, hu⟩ := h.closed hopened
      exact ⟨u, List.mem_append_left _ hu⟩
    · exact ⟨t, List.mem_append_right _ hmem⟩
  · have hstep := hdoes.pushes u
    have hlog := h.pushes u
    simp only [Note.insertions, Note.pushes, List.countP_append] at hstep hlog ⊢
    omega
  · rcases h.due_notes hdoes with rfl | ⟨o, rfl, ho⟩
    · rw [List.append_nil]
      exact h.due
    · exact h.due.concat ho

variable [DecidableEq α]

/-- In every run the queue is first in first out: what was put in is what the calls have returned,
in the order of their returns, and then what is in the queue. Each `push` that returns true has put
its element in once, and no other one has. A `push` fails, and a call that waits without a limit
gives up, only once a `close` has begun, and the latter only when all that was put in has been
returned; `size` and `empty` tell the truth. -/
theorem first_in_first_out {s : Timed τ α} {log : List (Note τ α)}
    {ok : Timed τ α → List (Note τ α) → τ × Call τ α → Prop}
    (run : machine.Run ok .new s log) :
    Note.allIn log = Note.allOut log ++ s.queue.fifo ∧
    (∀ u, Note.insertions u log = Note.pushes u log + (s.queue.phase u).owes) ∧
    ∀ l₁ o l₂, log = l₁ ++ o :: l₂ → Note.Due l₁ o := by
  have h : Sound s log := by
    have hidle : Exclusive (new : Timed τ α) := fun t h => by cases h
    have hready : Ready (new : Timed τ α) := fun t k h => by cases h
    have hopen : (new : Timed τ α).queue.opened = false →
        ∃ u, Note.closing u ∈ ([] : List (Note τ α)) := fun h => by cases h
    refine run.invariant (P := Sound) ⟨rfl, hopen, hidle, hready, fun _ => rfl, .nil _⟩ ?_
    intro s log e s' notes h _ taken
    exact h.step (step_does taken)
  exact ⟨h.order, h.pushes, h.due⟩

/-- The thread `true` pushes twice and closes; `false` calls `pop(msec)`, `tryFlush` and `pop`. -/
theorem first_in_first_out_two :
    ∃ (s : Timed Bool Nat) (log : List (Note Bool Nat)),
      machine.Run (fun _ _ _ => true) .new s log ∧
      Note.allOut log = [1, 2] ∧ log.getLast? = some (.returned true (.popped false none)) ∧
      Note.allIn log = Note.allOut log ++ s.queue.fifo := by
  have h : (machine.exec (fun (_ : Timed Bool Nat) _ _ => true) (.new, [])
      [(true, .move (.push 1)), (true, .move .next), (true, .move .next),
        (true, .move (.push 2)), (true, .move .next), (true, .move .next),
        (false, .timed .pop), (false, .move .next), (false, .move .next), (false, .move .next),
        (true, .move .close), (true, .move .next), (false, .tryTake .flush true),
        (false, .move (.take .pop)), (false, .move .next), (false, .move .next),
        (false, .move .next)]).map (fun r => (Note.allOut r.2, r.2.getLast?)) =
      some ([1, 2], some (.returned true (.popped false none))) := by decide +kernel
  obtain ⟨⟨s, log⟩, hexec, hlog⟩ := Option.map_eq_some_iff.mp h
  have run := Machine.Run.exec .start hexec
  obtain ⟨hout, hlast⟩ := Prod.mk.inj hlog
  exact ⟨s, log, run, hout, hlast, (first_in_first_out run).1⟩

end Timed
end Epyx.BlockingQueue
