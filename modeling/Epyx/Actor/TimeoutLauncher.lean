import Epyx.Core.Timeout
import Epyx.Lib.Machine
import Epyx.Lib.PriorityQueue

/-! The timeouts of `core/actor-manager.cpp`: a thread that waits for new entries as long as the
earliest deadline is away, and posts what is due. -/
namespace Epyx
open Lib

structure TimeoutEntry (μ : Type*) where
  time : Timeout
  id : Int
  method : μ
  deriving DecidableEq, Repr

variable {μ : Type*}

/-- `ActorTimeoutComparator`. Entries with one deadline come before each other. -/
def ActorTimeoutComparator (a b : TimeoutEntry μ) : Bool := !a.time.lt b.time

def TimeoutEntry.deadline (e : TimeoutEntry μ) : Int := e.time.deadline

/-- The priority queue of the entries, in whatever order it keeps them. -/
abbrev Timeouts (μ : Type*) := PriorityQueue (TimeoutEntry μ) TimeoutEntry.deadline

theorem comparator_compares :
    Heap.Compares (fun e : TimeoutEntry μ => OrderDual.toDual e.deadline)
      ActorTimeoutComparator where
  le {a b} h := by
    have hlt : ¬a.time.deadline < b.time.deadline := by
      rw [← Timeout.lt_iff]
      simpa [ActorTimeoutComparator] using h
    exact OrderDual.toDual_le_toDual.mpr (not_lt.mp hlt)
  ge {a b} h := by
    have hlt : a.time.deadline < b.time.deadline := by
      rw [← Timeout.lt_iff]
      simpa [ActorTimeoutComparator] using h
    exact OrderDual.toDual_le_toDual.mpr (le_of_lt hlt)

/-- The queue as a binary heap. -/
def Timeouts.heap : Timeouts μ := .ofHeap ActorTimeoutComparator comparator_compares

/-- Where the thread is in `TimeoutLauncher::run`. -/
inductive LauncherPhase where
  /-- at the start of the loop -/
  | choosing
  /-- in `incoming.pop()` or `incoming.pop(msec)` -/
  | popping (msec : Option Int)
  /-- in the `wait_for` of `incoming.pop(msec)` -/
  | blocked
  | draining
  /-- the drain has ended; the loop condition comes next -/
  | drained
  | stopped
  deriving DecidableEq, Repr

/-- A `TimeoutLauncher`; `clock` is what its thread has read last. -/
structure TimeoutLauncher (Q : Timeouts μ) where
  timeouts : Q.Heap
  incoming : List (TimeoutEntry μ)
  opened : Bool
  phase : LauncherPhase
  clock : TimeVal

namespace TimeoutLauncher

def epsilon : Int := 2

/-- The argument of `incoming.pop`, a sum of `int`s; none where the heap is empty. -/
def wait (Q : Timeouts μ) (timeouts : Q.Heap) (now : TimeVal) : Option Int :=
  (Q.top timeouts).map fun e => toInt32 (e.time.remainingMsec now + epsilon)

inductive Event (μ : Type*) where
  | addTimeout (t : Timeout) (id : Int) (method : μ)
  | close
  /-- `timeouts.empty()` and, where it is not, the clock of `remainingMsec` -/
  | choose (now : TimeVal)
  /-- the test at the start of a `pop`, and its end where it does not wait -/
  | pop
  /-- the end of `wait_for` -/
  | wake (timeout : Bool)
  /-- the condition of the drain, with the clock of `hasExpired` -/
  | test (now : TimeVal)
  | loop

inductive Out (μ : Type*) where
  | added (e : TimeoutEntry μ)
  | waits (msec : Int)
  | took (e : Option (TimeoutEntry μ))
  | posted (e : TimeoutEntry μ) (now : TimeVal)
  | drained
  deriving DecidableEq

variable {Q : Timeouts μ}

/-- `run` is entered with an empty heap and an empty queue. -/
def new (Q : Timeouts μ) (clock : TimeVal) : TimeoutLauncher Q :=
  ⟨Q.empty, [], true, .choosing, clock⟩

/-- `pop` gives the front of the queue, if there is one, and that is pushed. -/
def take (s : TimeoutLauncher Q) : TimeoutLauncher Q × List (Out μ) :=
  match s.incoming with
  | [] => ({ s with phase := .draining }, [.took none])
  | e :: rest =>
    ({ s with timeouts := Q.push s.timeouts e, incoming := rest, phase := .draining },
      [.took (some e)])

def step (s : TimeoutLauncher Q) : Event μ → Option (TimeoutLauncher Q × List (Out μ))
  | .addTimeout t id method =>
    if s.opened then
      some ({ s with incoming := s.incoming ++ [⟨t, id, method⟩] }, [.added ⟨t, id, method⟩])
    else some (s, [])
  | .close => some ({ s with opened := false }, [])
  | .choose now =>
    if s.phase = .choosing then
      match wait Q s.timeouts now with
      | none => some ({ s with phase := .popping none }, [])
      | some msec => some ({ s with phase := .popping (some msec), clock := now }, [.waits msec])
    else none
  | .pop =>
    match s.phase with
    | .popping none => if s.opened ∧ s.incoming = [] then none else some s.take
    | .popping (some _) =>
      if s.opened ∧ s.incoming = [] then some ({ s with phase := .blocked }, [])
      else some s.take
    | _ => none
  | .wake timeout =>
    if s.phase = .blocked then
      if timeout then some ({ s with phase := .draining }, [.took none]) else some s.take
    else none
  | .test now =>
    if s.phase = .draining then
      match Q.top s.timeouts with
      | none => some ({ s with phase := .drained }, [.drained])
      | some e =>
        if e.time.hasExpired now then
          some ({ s with timeouts := Q.pop s.timeouts, clock := now }, [.posted e now])
        else some ({ s with phase := .drained, clock := now }, [.drained])
    else none
  | .loop =>
    if s.phase = .drained then
      some ({ s with phase := if s.opened then .choosing else .stopped }, [])
    else none

def machine (Q : Timeouts μ) : Machine (TimeoutLauncher Q) (Event μ) (Out μ) := ⟨step⟩

/-! ### The wait -/

theorem wait_eq (Q : Timeouts μ) {q : Q.Heap} {e : TimeoutEntry μ} (he : e ∈ Q.entries q)
    (hmin : ∀ y ∈ Q.entries q, e.deadline ≤ y.deadline) (now : TimeVal) :
    wait Q q now = some (toInt32 (e.time.remainingMsec now + epsilon)) := by
  cases htop : Q.top q with
  | none =>
    rw [Q.entries_of_top htop] at he
    cases he
  | some x =>
    have hdeadline : x.time.deadline = e.time.deadline :=
      le_antisymm (Q.top_le htop e he) (hmin x (Q.top_mem htop))
    have hmsec : x.time.remainingMsec now = e.time.remainingMsec now := by
      simp only [Timeout.remainingMsec, Timeout.remainingTimeval_eq, Timeout.left, hdeadline]
    rw [wait, htop, Option.map_some, hmsec]

/-- The wait is the whole milliseconds that are left to the earliest deadline and epsilon exactly
when it is an `int` and, of the microseconds left in the last second, the last three digits are
the same number as the first three. -/
theorem wait_eq_iff (Q : Timeouts μ) {q : Q.Heap} {e : TimeoutEntry μ} (he : e ∈ Q.entries q)
    (hmin : ∀ y ∈ Q.entries q, e.deadline ≤ y.deadline) (now : TimeVal) :
    wait Q q now = some (e.time.left now / 1000 + epsilon) ↔
      e.time.left now / 1000 + epsilon < 2 ^ 31 ∧
        e.time.left now % 1000000 % 1000 = e.time.left now % 1000000 / 1000 := by
  have hleft : 0 ≤ e.time.left now := le_max_right _ _
  rw [wait_eq Q he hmin, Option.some.injEq]
  simp only [Timeout.remainingMsec, Timeout.remainingTimeval_eq, TimeVal.ofMicros, epsilon,
    toInt32_toInt32_add, toInt32_eq_iff, InInt]
  generalize e.time.left now = left at hleft ⊢
  have hwhole : left / 1000 = left / 1000000 * 1000 + left % 1000000 / 1000 := by omega
  have husec : (((left % 1000000).toNat % 1000 : Nat) : Int) = left % 1000000 % 1000 := by omega
  have hlow : 0 ≤ left % 1000000 % 1000 ∧ left % 1000000 % 1000 < 1000 := by omega
  have hhigh : 0 ≤ left % 1000000 / 1000 ∧ left % 1000000 / 1000 < 1000 := by omega
  have hsec : 0 ≤ left / 1000000 * 1000 := by omega
  rw [hwhole, husec]
  generalize left % 1000000 % 1000 = low at hlow ⊢
  generalize left % 1000000 / 1000 = high at hhigh ⊢
  generalize left / 1000000 * 1000 = sec at hsec ⊢
  omega

/-- A wait of that length ends once the deadline is over, and at most epsilon after it. -/
theorem wait_ends (t : Timeout) {now : TimeVal} (h : now.micros ≤ t.deadline) :
    t.deadline < now.micros + 1000 * (t.left now / 1000 + epsilon) ∧
      now.micros + 1000 * (t.left now / 1000 + epsilon) ≤ t.deadline + 1000 * epsilon := by
  unfold Timeout.left epsilon
  omega

def entry (sec : Int) (usec : Fin 1000000) : TimeoutEntry Nat := ⟨⟨⟨sec, usec, usec.2⟩⟩, 1, 0⟩

/-- A deadline 1.001001 seconds away. -/
theorem wait_eq_iff_entry :
    wait Timeouts.heap (Timeouts.heap.push Timeouts.heap.empty (entry 1 1001)) ⟨0, 0, by decide⟩ =
      some 1003 :=
  (wait_eq_iff Timeouts.heap (e := entry 1 1001) (by decide +kernel) (by decide +kernel)
    ⟨0, 0, by decide⟩).mpr (by decide)

/-- Half a second before the deadline the wait is two milliseconds. -/
theorem wait_short :
    let q := Timeouts.heap.push Timeouts.heap.empty (entry 0 500000)
    let now : TimeVal := ⟨0, 0, by decide⟩
    entry 0 500000 ∈ Timeouts.heap.entries q ∧
    (∀ y ∈ Timeouts.heap.entries q, (entry 0 500000).deadline ≤ y.deadline) ∧
    wait Timeouts.heap q now = some 2 ∧ (entry 0 500000).time.left now / 1000 + epsilon = 502 := by
  decide +kernel

/-! ### The drain -/

def Out.addition : Out μ → Option (TimeoutEntry μ)
  | .added e => some e
  | _ => none

def Out.posting : Out μ → Option (TimeoutEntry μ)
  | .posted e _ => some e
  | _ => none

/-- The entries `addTimeout` has pushed, in this order. -/
def added (log : List (Out μ)) : List (TimeoutEntry μ) := log.filterMap Out.addition

/-- The entries that were posted, in this order. -/
def posted (log : List (Out μ)) : List (TimeoutEntry μ) := log.filterMap Out.posting

/-- Nothing was taken from the queue meanwhile: what was posted, was in one drain. -/
def OneDrain (log : List (Out μ)) : Prop := ∀ e, .took e ∉ log

/-- The entries of a log by deadline, and none that is still in the heap before them. -/
def Ordered (Q : Timeouts μ) (q : Q.Heap) (log : List (Out μ)) : Prop :=
  (posted log).Pairwise (fun a b => a.deadline ≤ b.deadline) ∧
    ∀ a ∈ posted log, ∀ b ∈ Q.entries q, a.deadline ≤ b.deadline

/-- What is known of a launcher and its log. -/
structure Sound (Q : Timeouts μ) (s : TimeoutLauncher Q) (log : List (Out μ)) : Prop where
  /-- an entry is in one place at a time -/
  kept : (added log).Perm (posted log ++ Q.entries s.timeouts ++ s.incoming)
  due : ∀ e now, .posted e now ∈ log → e.time.hasExpired now
  ordered : ∀ l₁ mid, log = l₁ ++ mid → OneDrain mid → Ordered Q s.timeouts mid
  drained : s.phase = .drained → ∀ e ∈ Q.entries s.timeouts, ¬e.time.hasExpired s.clock

theorem posted_append (l₁ l₂ : List (Out μ)) : posted (l₁ ++ l₂) = posted l₁ ++ posted l₂ :=
  List.filterMap_append

theorem added_append (l₁ l₂ : List (Out μ)) : added (l₁ ++ l₂) = added l₁ ++ added l₂ :=
  List.filterMap_append

theorem OneDrain.left {l₁ l₂ : List (Out μ)} (h : OneDrain (l₁ ++ l₂)) : OneDrain l₁ :=
  fun e he => h e (List.mem_append_left _ he)

theorem Ordered.of_nil {q : Q.Heap} {log : List (Out μ)} (h : posted log = []) :
    Ordered Q q log := by
  simp [Ordered, h]

/-- The parts at the end of a log that goes on: what comes new alone, or all of it behind what was
there. -/
theorem ordered_append {q q' : Q.Heap} {log out : List (Out μ)}
    (h : ∀ l₁ mid, log = l₁ ++ mid → OneDrain mid → Ordered Q q mid) (hout : posted out = [])
    (hmid : ∀ mid, OneDrain (mid ++ out) → Ordered Q q mid → Ordered Q q' (mid ++ out)) :
    ∀ l₁ mid, log ++ out = l₁ ++ mid → OneDrain mid → Ordered Q q' mid := by
  intro l₁ mid heq hone
  rcases List.append_eq_append_iff.mp heq with ⟨l, rfl, rfl⟩ | ⟨l, rfl, rfl⟩
  · rw [posted_append, List.append_eq_nil_iff] at hout
    exact .of_nil hout.2
  · exact hmid l hone (h l₁ l rfl hone.left)

/-- A step that leaves the heap and the queue as they are. -/
theorem Sound.quiet {s s' : TimeoutLauncher Q} {log out : List (Out μ)} (h : Sound Q s log)
    (hheap : s'.timeouts = s.timeouts) (hqueue : s'.incoming = s.incoming)
    (hadded : added out = []) (hposted : posted out = [])
    (hdrained : s'.phase = .drained →
      ∀ e ∈ Q.entries s.timeouts, ¬e.time.hasExpired s'.clock) : Sound Q s' (log ++ out) := by
  refine ⟨?_, fun e now he => ?_, ?_, fun hphase => ?_⟩
  · rw [added_append, posted_append, hadded, hposted, hheap, hqueue, List.append_nil,
      List.append_nil]
    exact h.kept
  · refine h.due e now ((List.mem_append.mp he).resolve_right fun hnew => ?_)
    have hmem : e ∈ posted out := List.mem_filterMap.mpr ⟨_, hnew, rfl⟩
    rw [hposted] at hmem
    cases hmem
  · refine ordered_append h.ordered hposted fun mid _ hmid => ?_
    rwa [Ordered, hheap, posted_append, hposted, List.append_nil]
  · rw [hheap]
    exact hdrained hphase

theorem Sound.take_eq {s s' : TimeoutLauncher Q} {log out : List (Out μ)} (h : Sound Q s log)
    (taken : s.take = (s', out)) : Sound Q s' (log ++ out) := by
  unfold TimeoutLauncher.take at taken
  split at taken
  · cases taken
    exact h.quiet rfl rfl rfl rfl fun hphase => by cases hphase
  · rename_i e rest hqueue
    cases taken
    refine ⟨?_, fun x now hx => ?_, ?_, fun hphase => by cases hphase⟩
    · have hkept := h.kept
      have hadded : added [Out.took (some e)] = [] := rfl
      have hposted : posted [Out.took (some e)] = [] := rfl
      rw [hqueue] at hkept
      rw [added_append, posted_append, hadded, hposted, List.append_nil, List.append_nil]
      have hpush := (Q.entries_push s.timeouts e).symm
      have hmove : (posted log ++ Q.entries s.timeouts ++ e :: rest).Perm
          (posted log ++ (e :: Q.entries s.timeouts) ++ rest) := by
        rw [List.append_assoc, List.append_assoc]
        exact (List.perm_middle).append_left _
      exact hkept.trans (hmove.trans ((hpush.append_left _).append_right _))
    · exact h.due x now (by simpa using hx)
    · refine ordered_append h.ordered rfl fun mid hone _ => ?_
      exact absurd (List.mem_append_right mid (List.mem_singleton_self _)) (hone (some e))

theorem Sound.post {s s' : TimeoutLauncher Q} {log : List (Out μ)} (h : Sound Q s log)
    {e : TimeoutEntry μ} {now : TimeVal} (htop : Q.top s.timeouts = some e)
    (hexp : e.time.hasExpired now) (hheap : s'.timeouts = Q.pop s.timeouts)
    (hqueue : s'.incoming = s.incoming) (hphase : s'.phase ≠ .drained) :
    Sound Q s' (log ++ [.posted e now]) := by
  refine ⟨?_, fun x t hx => ?_, fun l₁ mid heq hone => ?_, fun hd => absurd hd hphase⟩
  · have hpop : (posted log ++ Q.entries s.timeouts).Perm
        (posted log ++ [e] ++ Q.entries (Q.pop s.timeouts)) := by
      rw [List.append_assoc]
      exact (Q.entries_pop htop).append_left _
    have hadded : added [Out.posted e now] = [] := rfl
    have hposted : posted [Out.posted e now] = [e] := rfl
    rw [added_append, posted_append, hadded, hposted, List.append_nil, hheap, hqueue]
    exact h.kept.trans (hpop.append_right _)
  · rcases List.mem_append.mp hx with hx | hx
    · exact h.due x t hx
    · cases List.mem_singleton.mp hx
      exact hexp
  · rcases List.eq_nil_or_concat mid with rfl | ⟨mid, o, rfl⟩
    · exact .of_nil rfl
    rw [List.concat_eq_append, ← List.append_assoc] at heq
    obtain ⟨rfl, ho⟩ := List.append_inj' heq rfl
    cases ho
    rw [List.concat_eq_append] at hone ⊢
    obtain ⟨hsorted, hbefore⟩ := h.ordered l₁ mid rfl hone.left
    have hposted : posted (mid ++ [.posted e now]) = posted mid ++ [e] := posted_append _ _
    have hmin := Q.top_le htop
    rw [Ordered, hposted, hheap]
    refine ⟨List.pairwise_append.mpr ⟨hsorted, List.pairwise_singleton _ _, ?_⟩, ?_⟩
    · intro a ha b hb
      cases List.mem_singleton.mp hb
      exact hbefore a ha e (Q.top_mem htop)
    · intro a ha b hb
      have hb := Q.mem_of_pop htop hb
      rcases List.mem_append.mp ha with ha | ha
      · exact hbefore a ha b hb
      · cases List.mem_singleton.mp ha
        exact hmin b hb

theorem Sound.step {s s' : TimeoutLauncher Q} {log out : List (Out μ)} {e : Event μ}
    (h : Sound Q s log) (taken : s.step e = some (s', out)) : Sound Q s' (log ++ out) := by
  cases e with
  | addTimeout t id method =>
    rw [TimeoutLauncher.step] at taken
    split at taken
    · cases taken
      refine ⟨?_, fun x now hx => h.due x now (by simpa using hx), ?_, h.drained⟩
      · have hadded : added [Out.added ⟨t, id, method⟩] = [⟨t, id, method⟩] := rfl
        have hposted : posted [Out.added ⟨t, id, method⟩] = [] := rfl
        rw [added_append, posted_append, hadded, hposted, List.append_nil, ← List.append_assoc]
        exact h.kept.append_right _
      · refine ordered_append h.ordered rfl fun mid _ hmid => ?_
        have hposted : posted [Out.added ⟨t, id, method⟩] = [] := rfl
        rwa [Ordered, posted_append, hposted, List.append_nil]
    · cases taken
      exact h.quiet rfl rfl rfl rfl h.drained
  | close =>
    cases taken
    exact h.quiet rfl rfl rfl rfl h.drained
  | choose now =>
    obtain ⟨-, taken⟩ := Option.ite_none_right_eq_some.mp taken
    split at taken <;> cases taken <;> exact h.quiet rfl rfl rfl rfl fun hd => by cases hd
  | pop =>
    rw [TimeoutLauncher.step] at taken
    split at taken
    · obtain ⟨-, taken⟩ := Option.ite_none_left_eq_some.mp taken
      exact h.take_eq (Option.some.inj taken)
    · split at taken
      · cases taken
        exact h.quiet rfl rfl rfl rfl fun hd => by cases hd
      · exact h.take_eq (Option.some.inj taken)
    · cases taken
  | wake timeout =>
    obtain ⟨-, taken⟩ := Option.ite_none_right_eq_some.mp taken
    split at taken
    · cases taken
      exact h.quiet rfl rfl rfl rfl fun hd => by cases hd
    · exact h.take_eq (Option.some.inj taken)
  | test now =>
    obtain ⟨hphase, taken⟩ := Option.ite_none_right_eq_some.mp taken
    split at taken
    · rename_i htop
      cases taken
      refine h.quiet rfl rfl rfl rfl fun _ e he => ?_
      rw [Q.entries_of_top htop] at he
      cases he
    · rename_i x htop
      split at taken
      · rename_i hexp
        cases taken
        exact h.post htop hexp rfl rfl (by simp [hphase])
      · rename_i hexp
        cases taken
        refine h.quiet rfl rfl rfl rfl fun _ e he hlate => hexp ?_
        rw [Timeout.hasExpired_iff] at hlate ⊢
        exact (Q.top_le htop e he).trans_lt hlate
  | loop =>
    obtain ⟨-, taken⟩ := Option.ite_none_right_eq_some.mp taken
    cases taken
    refine h.quiet rfl rfl rfl rfl fun hd => ?_
    split at hd <;> cases hd

theorem sound_of_run {clock : TimeVal} {ok : TimeoutLauncher Q → List (Out μ) → Event μ → Prop}
    {s : TimeoutLauncher Q} {log : List (Out μ)} (run : (machine Q).Run ok (new Q clock) s log) :
    Sound Q s log := by
  refine run.invariant ⟨?_, by simp, fun l₁ mid heq _ => ?_, fun hd => by cases hd⟩
    fun s log e s' out h _ taken => h.step taken
  · simp [added, posted, new, Q.entries_empty]
  · obtain ⟨-, rfl⟩ := List.append_eq_nil_iff.mp heq.symm
    exact .of_nil rfl

theorem take_out (s : TimeoutLauncher Q) : s.take.2.length = 1 := by
  unfold take
  split <;> rfl

/-- A step puts out one record at most. -/
theorem step_out {s s' : TimeoutLauncher Q} {out : List (Out μ)} {e : Event μ}
    (taken : s.step e = some (s', out)) : out.length ≤ 1 := by
  have htake : ∀ {r}, some s.take = some r → r.2.length ≤ 1 := fun h => by
    cases h
    exact s.take_out.le
  unfold TimeoutLauncher.step at taken
  split at taken
  · split at taken <;> cases taken <;> simp
  · cases taken
    simp
  · obtain ⟨-, taken⟩ := Option.ite_none_right_eq_some.mp taken
    split at taken <;> cases taken <;> simp
  · split at taken
    · exact htake (Option.ite_none_left_eq_some.mp taken).2
    · split at taken
      · cases taken
        simp
      · exact htake taken
    · cases taken
  · obtain ⟨-, taken⟩ := Option.ite_none_right_eq_some.mp taken
    split at taken
    · cases taken
      simp
    · exact htake taken
  · obtain ⟨-, taken⟩ := Option.ite_none_right_eq_some.mp taken
    split at taken
    · cases taken
      simp
    · split at taken <;> cases taken <;> simp
  · obtain ⟨-, taken⟩ := Option.ite_none_right_eq_some.mp taken
    cases taken
    simp

/-- What is posted in one drain, at any time of a run, comes by deadline. -/
theorem pairwise_of_run {clock : TimeVal}
    {ok : TimeoutLauncher Q → List (Out μ) → Event μ → Prop} {s : TimeoutLauncher Q}
    {log : List (Out μ)} (run : (machine Q).Run ok (new Q clock) s log) {l₁ mid l₂ : List (Out μ)}
    (hlog : log = l₁ ++ mid ++ l₂) (hone : OneDrain mid) :
    (posted mid).Pairwise fun a b => a.deadline ≤ b.deadline := by
  induction run generalizing l₂ with
  | start =>
    obtain ⟨hnil, -⟩ := List.append_eq_nil_iff.mp hlog.symm
    obtain ⟨-, rfl⟩ := List.append_eq_nil_iff.mp hnil
    exact .nil
  | @step s s' log out e run allowed taken ih =>
    have hsound := (sound_of_run run).step taken
    rcases List.eq_nil_or_concat l₂ with rfl | ⟨l₃, o, rfl⟩
    · rw [List.append_nil] at hlog
      exact (hsound.ordered l₁ mid hlog hone).1
    · have hout := step_out taken
      match out, hout with
      | [], _ => exact ih ((List.append_nil _).symm.trans hlog)
      | [o'], _ =>
        rw [List.concat_eq_append, ← List.append_assoc] at hlog
        exact ih (List.append_inj' hlog rfl).1

/-- The time of the clock at an event. -/
def Event.now : Event μ → Option TimeVal
  | .choose now | .test now => some now
  | _ => none

/-- The clock does not go back. -/
def Forward (s : TimeoutLauncher Q) (_ : List (Out μ)) (e : Event μ) : Prop :=
  ∀ now ∈ e.now, s.clock.micros ≤ now.micros

instance (s : TimeoutLauncher Q) (log : List (Out μ)) (e : Event μ) :
    Decidable (Forward s log e) := inferInstanceAs (Decidable (∀ now ∈ e.now, _))

/-- In every run, each entry that was added is posted, in the heap or in the queue, once; none is
posted at or before its deadline; what one drain posts comes by deadline; and when a drain has
ended, no entry of the heap had expired when the clock was read last. -/
theorem posts_of_run {clock : TimeVal} {s : TimeoutLauncher Q} {log : List (Out μ)}
    (run : (machine Q).Run Forward (new Q clock) s log) :
    (added log).Perm (posted log ++ Q.entries s.timeouts ++ s.incoming) ∧
    (∀ e now, .posted e now ∈ log → e.deadline < now.micros) ∧
    (∀ l₁ mid l₂, log = l₁ ++ mid ++ l₂ → OneDrain mid →
      (posted mid).Pairwise fun a b => a.deadline ≤ b.deadline) ∧
    (s.phase = .drained → ∀ e ∈ Q.entries s.timeouts, ¬e.time.hasExpired s.clock) := by
  have h := sound_of_run run
  exact ⟨h.kept, fun e now he => (e.time.hasExpired_iff now).mp (h.due e now he),
    fun l₁ mid l₂ => pairwise_of_run run, h.drained⟩

/-- Two timeouts with one deadline and an earlier one, which is added after them. -/
theorem posts_of_run_three :
    ∃ (s : TimeoutLauncher (@Timeouts.heap Nat)) (log : List (Out Nat)),
      (machine Timeouts.heap).Run Forward (new Timeouts.heap ⟨0, 0, by decide⟩) s log ∧
      (posted log).map TimeoutEntry.id = [7, 8, 9] ∧ s.phase = .drained ∧
      (added log).Perm (posted log ++ Timeouts.heap.entries s.timeouts ++ s.incoming) := by
  have h : ((machine Timeouts.heap).exec
      (fun (s : TimeoutLauncher (@Timeouts.heap Nat)) log e => Forward s log e)
      (new Timeouts.heap ⟨0, 0, by decide⟩, [])
      [.choose ⟨0, 0, by decide⟩, .addTimeout ⟨⟨2, 0, by decide⟩⟩ 8 0, .pop,
        .test ⟨0, 5, by decide⟩, .loop, .choose ⟨0, 6, by decide⟩, .pop,
        .addTimeout ⟨⟨2, 0, by decide⟩⟩ 9 0, .wake false, .test ⟨0, 7, by decide⟩, .loop,
        .choose ⟨0, 8, by decide⟩, .addTimeout ⟨⟨1, 0, by decide⟩⟩ 7 0, .pop,
        .test ⟨3, 0, by decide⟩, .test ⟨3, 0, by decide⟩, .test ⟨3, 1, by decide⟩,
        .test ⟨3, 2, by decide⟩]).map
        (fun r => ((posted r.2).map TimeoutEntry.id, r.1.phase)) =
      some ([7, 8, 9], .drained) := by decide +kernel
  obtain ⟨⟨s, log⟩, hexec, heq⟩ := Option.map_eq_some_iff.mp h
  obtain ⟨hposted, hphase⟩ : (posted log).map TimeoutEntry.id = [7, 8, 9] ∧ s.phase = .drained := by
    simpa only [Prod.mk.injEq] using heq
  have run := (Machine.Run.exec .start hexec).of_decide
  exact ⟨s, log, run, hposted, hphase, (posts_of_run run).1⟩

end TimeoutLauncher
end Epyx
