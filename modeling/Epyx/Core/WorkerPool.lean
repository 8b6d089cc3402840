import Epyx.Lib.Machine
import Mathlib.Data.List.Sort

/-! `core/worker-pool-detail.h`: a pool of workers, one thread that resizes it, and the threads that
post to it. -/
namespace Epyx.WorkerPool
open Lib

/-- A worker. It has exited when its thread has left the loop and handed in its id. -/
structure Worker where
  id : Int32
  running : Bool
  exited : Bool
  deriving DecidableEq, Repr

/-- Where the call of `setNumWorkers` is. -/
inductive Call where
  /-- there is none; the number of workers that was asked for last -/
  | idle (last : Nat)
  /-- the number of workers was compared with `n`, and was more -/
  | compared (n : Nat) (more : Bool)
  | removing (n left : Nat)
  | adding (n left : Nat)
  deriving DecidableEq, Repr

/-- A pool. `workers` is in the order of the ids; `found` has the ids that calls of `bookKeep` have
taken from `workers_to_destroy`, and `joining` counts the workers they have taken from the map. -/
structure State where
  lastId : Int32
  worker_count : Int
  workers : List Worker
  workers_to_destroy : List Int32
  found : List Int32
  joining : Nat
  call : Call
  deriving DecidableEq, Repr

inductive Event where
  | setNumWorkers (n : Nat)
  /-- `setNumWorkers` goes on -/
  | next
  /-- a worker that was told to stop leaves its loop -/
  | exit (id : Int32)
  /-- a `post` makes `bookKeep` look for an id -/
  | tryPop
  | erase (id : Int32)
  | join
  deriving DecidableEq, Repr

namespace State

/-- `WorkerPool::WorkerPool`, which has still to add its workers. -/
def new (num_workers : Nat) : State :=
  ⟨0, 0, [], [], [], 0, .adding num_workers num_workers⟩

/-- The workers that were started and not told to stop. -/
def running (s : State) : Nat := s.workers.countP (·.running)

/-- `addWorker`. A worker whose id is in use would be replaced and its thread, which nobody has
joined, end the program. -/
def addWorker (s : State) : Option State :=
  if s.lastId ∈ s.workers.map (·.id) then none
  else
    some { s with
      lastId := s.lastId + 1
      workers := s.workers.orderedInsert (fun a b => a.id ≤ b.id) ⟨s.lastId, true, false⟩
      worker_count := s.worker_count + 1 }

/-- The first running worker is told to stop. -/
def tellStop : List Worker → List Worker
  | [] => []
  | w :: ws => if w.running then { w with running := false } :: ws else w :: tellStop ws

def removeWorker (s : State) : State := { s with workers := tellStop s.workers }

/-- `setNumWorkers`, after it has read `worker_count` for the first time. -/
def next (s : State) : Call → Option State
  | .idle _ => none
  | .compared n more =>
    if more then some { s with call := .removing n (s.worker_count - n).toNat }
    else some { s with call := .adding n (n - s.worker_count).toNat }
  | .removing n 0 | .adding n 0 => some { s with call := .idle n }
  | .removing n (left + 1) => some { s.removeWorker with call := .removing n left }
  | .adding n (left + 1) => s.addWorker.map ({ · with call := .adding n left })

def markExited (id : Int32) (w : Worker) : Worker :=
  if w.id = id then { w with exited := true } else w

def step (s : State) : Event → Option State
  | .setNumWorkers n =>
    match s.call with
    | .idle _ => some { s with call := .compared n (n < s.worker_count) }
    | _ => none
  | .next => s.next s.call
  | .exit id =>
    match s.workers.find? (·.id = id) with
    | some w =>
      if w.running ∨ w.exited then none
      else
        some { s with
          workers := s.workers.map (markExited id)
          workers_to_destroy := s.workers_to_destroy ++ [id] }
    | none => none
  | .tryPop =>
    match s.workers_to_destroy with
    | [] => some s
    | id :: ids => some { s with workers_to_destroy := ids, found := s.found ++ [id] }
  | .erase id =>
    if id ∈ s.found then
      match s.workers.find? (·.id = id) with
      | some w =>
        some { s with
          workers := s.workers.erase w
          found := s.found.erase id
          joining := s.joining + 1 }
      | none => some { s with found := s.found.erase id }
    else none
  | .join =>
    match s.joining with
    | 0 => none
    | joining + 1 => some { s with joining, worker_count := s.worker_count - 1 }

def machine : Machine State Event Empty where
  step s e := (s.step e).map fun s => (s, [])

/-- `setNumWorkers` is called with `0`, or while no worker that was told to stop is still
counted. -/
def Settled (s : State) : Event → Prop
  | .setNumWorkers n => s.worker_count = s.running ∨ n = 0
  | _ => True

instance (s : State) : (e : Event) → Decidable (s.Settled e)
  | .setNumWorkers _ => inferInstanceAs (Decidable (_ ∨ _))
  | .next | .exit _ | .tryPop | .erase _ | .join => inferInstanceAs (Decidable True)

/-- The ids that were handed in and have not led to a worker yet. -/
def claimed (s : State) : List Int32 := s.workers_to_destroy ++ s.found

/-- What holds of a pool, whatever happens to it. -/
structure Sound (s : State) : Prop where
  ids : (s.workers.map (·.id)).Nodup
  stopped : ∀ w ∈ s.workers, w.exited → w.running = false
  count : s.worker_count = s.workers.length + s.joining
  nodup : s.claimed.Nodup
  claimed : ∀ id ∈ s.claimed, ∃ w ∈ s.workers, w.id = id ∧ w.exited

/-! ### The lists of workers -/

theorem map_id_tellStop (ws : List Worker) : (tellStop ws).map (·.id) = ws.map (·.id) := by
  induction ws with
  | nil => rfl
  | cons w ws ih =>
    rw [tellStop]
    split
    · rfl
    · rw [List.map_cons, ih, List.map_cons]

theorem countP_tellStop (ws : List Worker) :
    (tellStop ws).countP (·.running) = ws.countP (·.running) - 1 := by
  induction ws with
  | nil => rfl
  | cons w ws ih =>
    rw [tellStop]
    split
    · rename_i hw
      simp [hw]
    · rename_i hw
      simp [hw, ih]

theorem mem_tellStop {ws : List Worker} {w : Worker} (h : w ∈ tellStop ws) :
    w ∈ ws ∨ w.running = false := by
  induction ws with
  | nil => cases h
  | cons x xs ih =>
    rw [tellStop] at h
    split at h
    · rcases List.mem_cons.mp h with rfl | h
      · exact .inr rfl
      · exact .inl (.tail x h)
    · rcases List.mem_cons.mp h with rfl | h
      · exact .inl (List.mem_cons_self ..)
      · exact (ih h).imp_left (.tail x)

theorem mem_tellStop_of_stopped {ws : List Worker} {w : Worker} (h : w ∈ ws)
    (hw : w.running = false) : w ∈ tellStop ws := by
  induction ws with
  | nil => cases h
  | cons x xs ih =>
    rw [tellStop]
    rcases List.mem_cons.mp h with rfl | h
    · simp [hw]
    · split
      · exact .tail _ h
      · exact .tail _ (ih h)

@[simp] theorem markExited_id (id : Int32) (w : Worker) : (markExited id w).id = w.id := by
  unfold markExited
  split <;> rfl

@[simp] theorem markExited_running (id : Int32) (w : Worker) :
    (markExited id w).running = w.running := by
  unfold markExited
  split <;> rfl

theorem markExited_exited {id : Int32} {w : Worker} :
    (markExited id w).exited ↔ w.id = id ∨ w.exited := by
  unfold markExited
  split
  · rename_i hid
    simp [hid]
  · rename_i hid
    simp [hid]

theorem countP_markExited (id : Int32) (ws : List Worker) :
    (ws.map (markExited id)).countP (·.running) = ws.countP (·.running) := by
  rw [List.countP_map]
  exact List.countP_congr fun w _ => by simp

variable {s s' : State}

/-! ### What is kept by all steps -/

theorem Sound.new (num_workers : Nat) : Sound (.new num_workers) := by
  constructor <;> simp [State.new, State.claimed]

theorem Sound.eq_of_id (h : Sound s) {w w' : Worker} (hw : w ∈ s.workers) (hw' : w' ∈ s.workers)
    (hid : w.id = w'.id) : w = w' :=
  List.inj_on_of_nodup_map h.ids hw hw' hid

theorem Sound.removeWorker (h : Sound s) : Sound s.removeWorker := by
  refine ⟨?_, fun w hw he => ?_, ?_, h.nodup, fun id hid => ?_⟩
  · show ((tellStop s.workers).map (·.id)).Nodup
    rw [map_id_tellStop]
    exact h.ids
  · exact (mem_tellStop hw).elim (fun hw => h.stopped w hw he) fun hw => hw
  · have hlen := congrArg List.length (map_id_tellStop s.workers)
    rw [List.length_map, List.length_map] at hlen
    show s.worker_count = (tellStop s.workers).length + s.joining
    rw [hlen, h.count]
  · obtain ⟨w, hw, hwid, he⟩ := h.claimed id hid
    exact ⟨w, mem_tellStop_of_stopped hw (h.stopped w hw he), hwid, he⟩

theorem Sound.addWorker (h : Sound s) (hs : s.addWorker = some s') : Sound s' := by
  obtain ⟨hfresh, hs⟩ := Option.ite_none_left_eq_some.mp hs
  cases hs
  have hperm := List.perm_orderedInsert (fun a b : Worker => a.id ≤ b.id)
    ⟨s.lastId, true, false⟩ s.workers
  refine ⟨?_, fun w hw he => ?_, ?_, h.nodup, fun id hid => ?_⟩
  · rw [(hperm.map _).nodup_iff, List.map_cons, List.nodup_cons]
    exact ⟨hfresh, h.ids⟩
  · rcases List.mem_cons.mp (hperm.subset hw) with rfl | hw
    · cases he
    · exact h.stopped w hw he
  · have hlen := hperm.length_eq
    have hcount := h.count
    rw [List.length_cons] at hlen
    dsimp only
    omega
  · obtain ⟨w, hw, hwid, he⟩ := h.claimed id hid
    exact ⟨w, hperm.symm.subset (.tail _ hw), hwid, he⟩

theorem running_addWorker (hs : s.addWorker = some s') : s'.running = s.running + 1 := by
  obtain ⟨-, hs⟩ := Option.ite_none_left_eq_some.mp hs
  cases hs
  have hperm := List.perm_orderedInsert (fun a b : Worker => a.id ≤ b.id)
    ⟨s.lastId, true, false⟩ s.workers
  exact (hperm.countP_eq _).trans (List.countP_cons_of_pos rfl)

theorem running_removeWorker (s : State) : s.removeWorker.running = s.running - 1 :=
  countP_tellStop s.workers

/-- The call has no part in it. -/
theorem Sound.setCall (h : Sound s) (call : Call) : Sound { s with call := call } :=
  ⟨h.ids, h.stopped, h.count, h.nodup, h.claimed⟩

theorem Sound.next (h : Sound s) {call : Call} (hs : s.next call = some s') : Sound s' := by
  cases call with
  | idle last => cases hs
  | compared n more =>
    cases more with
    | false => cases hs; exact h.setCall _
    | true => cases hs; exact h.setCall _
  | removing n left =>
    cases left with
    | zero => cases hs; exact h.setCall _
    | succ left => cases hs; exact h.removeWorker.setCall _
  | adding n left =>
    cases left with
    | zero => cases hs; exact h.setCall _
    | succ left =>
      obtain ⟨t, ht, rfl⟩ := Option.map_eq_some_iff.mp hs
      exact (h.addWorker ht).setCall _

/-- What the workers and the posts do leaves the running workers alone, and the call. A worker is
only taken off the count when more workers are counted than run. -/
structure Aside (s s' : State) : Prop where
  call : s'.call = s.call
  running : s'.running = s.running
  count : s.worker_count ≤ s.running → s'.worker_count = s.worker_count

theorem Sound.exit (h : Sound s) {id : Int32} (hs : s.step (.exit id) = some s') :
    Sound s' ∧ Aside s s' := by
  simp only [step] at hs
  split at hs
  · rename_i w hw
    obtain ⟨hnot, hs⟩ := Option.ite_none_left_eq_some.mp hs
    cases hs
    have hmem := List.mem_of_find?_eq_some hw
    obtain rfl : w.id = id := by simpa using List.find?_some hw
    obtain ⟨hrun, hexit⟩ : w.running = false ∧ w.exited = false := by simpa [not_or] using hnot
    have hfresh : w.id ∉ s.claimed := fun hc => by
      obtain ⟨w', hw', hid, he⟩ := h.claimed _ hc
      rw [h.eq_of_id hw' hmem hid, hexit] at he
      cases he
    have hperm : (s.workers_to_destroy ++ [w.id] ++ s.found).Perm (w.id :: s.claimed) := by
      rw [List.append_assoc]
      exact List.perm_middle
    refine ⟨⟨?_, fun v hv he => ?_, ?_, ?_, fun id hid => ?_⟩, rfl,
      countP_markExited w.id s.workers, fun _ => rfl⟩
    · simpa [List.map_map, Function.comp_def] using h.ids
    · obtain ⟨x, hx, rfl⟩ := List.mem_map.mp hv
      rw [markExited_running]
      rcases markExited_exited.mp he with hid | he
      · rw [h.eq_of_id hx hmem hid, hrun]
      · exact h.stopped x hx he
    · simpa using h.count
    · exact hperm.nodup_iff.mpr (List.nodup_cons.mpr ⟨hfresh, h.nodup⟩)
    · rcases List.mem_cons.mp (hperm.subset hid) with rfl | hid
      · exact ⟨_, List.mem_map_of_mem hmem, by simp, markExited_exited.mpr (.inl rfl)⟩
      · obtain ⟨v, hv, hvid, he⟩ := h.claimed id hid
        exact ⟨_, List.mem_map_of_mem hv, by simpa using hvid, markExited_exited.mpr (.inr he)⟩
  · cases hs

theorem Sound.tryPop (h : Sound s) (hs : s.step .tryPop = some s') : Sound s' ∧ Aside s s' := by
  simp only [step] at hs
  split at hs
  · cases hs
    exact ⟨h, rfl, rfl, fun _ => rfl⟩
  · rename_i id ids hids
    cases hs
    have hperm : (ids ++ (s.found ++ [id])).Perm s.claimed := by
      rw [State.claimed, hids, ← List.append_assoc]
      exact List.perm_append_singleton id _
    exact ⟨⟨h.ids, h.stopped, h.count, hperm.nodup_iff.mpr h.nodup,
      fun i hi => h.claimed i (hperm.subset hi)⟩, rfl, rfl, fun _ => rfl⟩

theorem Sound.erase (h : Sound s) {id : Int32} (hs : s.step (.erase id) = some s') :
    Sound s' ∧ Aside s s' := by
  simp only [step] at hs
  obtain ⟨hfound, hs⟩ := Option.ite_none_right_eq_some.mp hs
  obtain ⟨w, hw, rfl, he⟩ := h.claimed id (List.mem_append_right _ hfound)
  have hfind : s.workers.find? (fun v => decide (v.id = w.id)) = some w := by
    cases hf : s.workers.find? (fun v => decide (v.id = w.id)) with
    | none => simpa using List.find?_eq_none.mp hf w hw
    | some v =>
      have hv : v.id = w.id := by simpa using List.find?_some hf
      rw [h.eq_of_id (List.mem_of_find?_eq_some hf) hw hv]
  rw [hfind] at hs
  cases hs
  have hperm : s.claimed.Perm (w.id :: (s.workers_to_destroy ++ s.found.erase w.id)) :=
    ((List.perm_cons_erase hfound).append_left _).trans List.perm_middle
  obtain ⟨hout, hnodup⟩ := List.nodup_cons.mp (hperm.nodup_iff.mp h.nodup)
  have hlen := List.length_erase_of_mem hw
  have hpos := List.length_pos_of_mem hw
  have hcount := h.count
  refine ⟨⟨h.ids.sublist ((List.erase_sublist ..).map _),
    fun v hv => h.stopped v (List.mem_of_mem_erase hv), ?_, hnodup, fun i hi => ?_⟩, rfl, ?_,
    fun _ => rfl⟩
  · dsimp only
    omega
  · obtain ⟨v, hv, rfl, hve⟩ := h.claimed i (hperm.symm.subset (.tail _ hi))
    refine ⟨v, (List.mem_erase_of_ne fun hvw => hout ?_).mpr hv, rfl, hve⟩
    subst hvw
    exact hi
  · have hcountP := (List.perm_cons_erase hw).countP_eq (·.running)
    rw [List.countP_cons_of_neg (by simp [h.stopped w hw he])] at hcountP
    exact hcountP.symm

theorem running_le (s : State) : s.running ≤ s.workers.length := List.countP_le_length

theorem Sound.join (h : Sound s) (hs : s.step .join = some s') : Sound s' ∧ Aside s s' := by
  simp only [step] at hs
  split at hs
  · cases hs
  · rename_i joining hj
    cases hs
    have hcount := h.count
    have hle := s.running_le
    refine ⟨⟨h.ids, h.stopped, ?_, h.nodup, h.claimed⟩, rfl, rfl, fun hc => ?_⟩
    · dsimp only
      omega
    · omega

theorem Sound.aside (h : Sound s) {e : Event} (hs : s.step e = some s') (hnext : e ≠ .next)
    (hset : ∀ n, e ≠ .setNumWorkers n) : Sound s' ∧ Aside s s' := by
  cases e with
  | setNumWorkers n => exact absurd rfl (hset n)
  | next => exact absurd rfl hnext
  | exit id => exact h.exit hs
  | tryPop => exact h.tryPop hs
  | erase id => exact h.erase hs
  | join => exact h.join hs

theorem Sound.step (h : Sound s) {e : Event} (hs : s.step e = some s') : Sound s' := by
  by_cases hnext : e = .next
  · subst hnext
    exact h.next hs
  · by_cases hset : ∃ n, e = .setNumWorkers n
    · obtain ⟨n, rfl⟩ := hset
      simp only [State.step] at hs
      split at hs
      · cases hs
        exact h.setCall _
      · cases hs
    · exact (h.aside hs hnext fun n he => hset ⟨n, he⟩).1

/-! ### Calls that reach their number -/

/-- The call will end with as many running workers as it was asked for. -/
def OnCourse (s : State) : Prop :=
  match s.call with
  | .idle n => s.running = n
  | .compared n more =>
    n = 0 ∧ more ∨ s.worker_count = s.running ∧ (more ↔ n < s.worker_count)
  | .removing n left => s.running = n + left ∨ n = 0 ∧ s.running ≤ left
  | .adding n left => s.running + left = n

theorem Aside.onCourse (h : Aside s s') (hc : OnCourse s) : OnCourse s' := by
  unfold OnCourse at hc ⊢
  rw [h.call, h.running]
  cases hcall : s.call with
  | compared n more =>
    rw [hcall] at hc
    dsimp only at hc ⊢
    refine hc.imp_right fun hcount => ?_
    rwa [h.count (le_of_eq hcount.1)]
  | _ =>
    rw [hcall] at hc
    exact hc

theorem Sound.count_ge (h : Sound s) : (s.running : Int) ≤ s.worker_count := by
  have hcount := h.count
  have hle := s.running_le
  omega

theorem Sound.onCourse_setNumWorkers (h : Sound s) {n : Nat}
    (hn : s.worker_count = s.running ∨ n = 0) (hs : s.step (.setNumWorkers n) = some s') :
    OnCourse s' := by
  have hge := h.count_ge
  simp only [State.step] at hs
  split at hs
  · cases hs
    show n = 0 ∧ decide ((n : Int) < s.worker_count) = true ∨
      s.worker_count = s.running ∧
        (decide ((n : Int) < s.worker_count) = true ↔ (n : Int) < s.worker_count)
    rw [decide_eq_true_iff]
    omega
  · cases hs

theorem Sound.onCourse_next (h : Sound s) (hc : OnCourse s) (hs : s.step .next = some s') :
    OnCourse s' := by
  have hge := h.count_ge
  unfold OnCourse at hc
  simp only [State.step] at hs
  cases hcall : s.call with
  | idle last => rw [hcall] at hs; cases hs
  | compared n more =>
    rw [hcall] at hs hc
    dsimp only at hc
    cases more with
    | false =>
      cases hs
      show s.running + (n - s.worker_count).toNat = n
      simp only [Bool.false_eq_true, and_false, false_iff, false_or] at hc
      omega
    | true =>
      cases hs
      show s.running = n + (s.worker_count - n).toNat ∨
        n = 0 ∧ s.running ≤ (s.worker_count - n).toNat
      simp only [and_true, true_iff] at hc
      omega
  | removing n left =>
    rw [hcall] at hs hc
    dsimp only at hc
    cases left with
    | zero =>
      cases hs
      show s.running = n
      omega
    | succ left =>
      cases hs
      show s.removeWorker.running = n + left ∨ n = 0 ∧ s.removeWorker.running ≤ left
      rw [running_removeWorker]
      omega
  | adding n left =>
    rw [hcall] at hs hc
    dsimp only at hc
    cases left with
    | zero =>
      cases hs
      exact hc
    | succ left =>
      obtain ⟨t, ht, rfl⟩ := Option.map_eq_some_iff.mp hs
      show t.running + left = n
      rw [running_addWorker ht]
      omega

theorem Sound.onCourse_step (h : Sound s) (hc : OnCourse s) {e : Event} (he : s.Settled e)
    (hs : s.step e = some s') : OnCourse s' := by
  cases e with
  | setNumWorkers n => exact h.onCourse_setNumWorkers he hs
  | next => exact h.onCourse_next hc hs
  | _ => exact (h.aside hs (by simp) (by simp)).2.onCourse hc

theorem onCourse_of_run {num_workers : Nat} {log : List Empty}
    (run : machine.Run (fun s _ e => s.Settled e) (.new num_workers) s log) :
    Sound s ∧ OnCourse s := by
  refine run.invariant (P := fun s _ => Sound s ∧ OnCourse s)
    ⟨.new num_workers, by simp [OnCourse, State.new, running]⟩ ?_
  intro s log e s' out h he taken
  obtain ⟨t, hs, ht⟩ := Option.map_eq_some_iff.mp taken
  cases ht
  exact ⟨h.1.step hs, h.1.onCourse_step h.2 he hs⟩

theorem sound_of_run {num_workers : Nat} {log : List Empty}
    (run : machine.Run (fun _ _ _ => True) (.new num_workers) s log) : Sound s := by
  refine run.invariant (P := fun s _ => Sound s) (.new num_workers) ?_
  intro s log e s' out h _ taken
  obtain ⟨t, hs, ht⟩ := Option.map_eq_some_iff.mp taken
  cases ht
  exact h.step hs

/-! ### Where other calls end -/

/-- The number of running workers a call leads to, once it has read the count. -/
def Heading (s : State) (r : Nat) : Prop :=
  match s.call with
  | .idle _ => s.running = r
  | .compared _ _ => False
  | .removing _ left => s.running - left = r
  | .adding _ left => s.running + left = r

/-- A call is under way. -/
def Busy (s : State) : Bool :=
  match s.call with
  | .idle _ => false
  | _ => true

theorem Sound.heading_step (h : Sound s) {r : Nat} (hr : s.Heading r) (hb : s.Busy) {e : Event}
    (hs : s.step e = some s') : s'.Heading r := by
  unfold Heading at hr
  by_cases hnext : e = .next
  · subst hnext
    simp only [State.step] at hs
    cases hcall : s.call with
    | idle last => rw [hcall] at hs; cases hs
    | compared n more => rw [hcall] at hr; cases hr
    | removing n left =>
      rw [hcall] at hs hr
      cases left with
      | zero => cases hs; exact hr
      | succ left =>
        cases hs
        show s.removeWorker.running - left = r
        rw [running_removeWorker, ← hr]
        omega
    | adding n left =>
      rw [hcall] at hs hr
      cases left with
      | zero => cases hs; exact hr
      | succ left =>
        obtain ⟨t, ht, rfl⟩ := Option.map_eq_some_iff.mp hs
        show t.running + left = r
        rw [running_addWorker ht, ← hr]
        omega
  · have hset : ∀ n, e ≠ .setNumWorkers n := fun n he => by
      subst he
      simp only [State.step] at hs
      split at hs
      · rename_i last hcall
        simp [Busy, hcall] at hb
      · cases hs
    have ha := (h.aside hs hnext hset).2
    unfold Heading
    rwa [ha.call, ha.running]

theorem Sound.heading_of_run (h : Sound s) {r : Nat} (hr : s.Heading r) {log : List Empty}
    (run : machine.Run (fun s _ _ => s.Busy) s s' log) : Sound s' ∧ s'.Heading r := by
  refine run.invariant (P := fun s _ => Sound s ∧ s.Heading r) ⟨h, hr⟩ ?_
  intro s log e s' out h hb taken
  obtain ⟨t, hs, ht⟩ := Option.map_eq_some_iff.mp taken
  cases ht
  exact ⟨h.1.step hs, h.1.heading_step h.2 hb hs⟩

/-- A call that reads the count twice in the same state leads to the number it was asked for if
and only if all counted workers run, or it was asked for none. -/
theorem Sound.heading_read (h : Sound s) {n : Nat} {s₁ s₂ : State}
    (h₁ : s.step (.setNumWorkers n) = some s₁) (h₂ : s₁.step .next = some s₂) :
    ∃ r, s₂.Heading r ∧ (r = n ↔ s.worker_count = s.running ∨ n = 0) := by
  have hge := h.count_ge
  simp only [State.step] at h₁
  split at h₁
  · cases h₁
    by_cases hmore : (n : Int) < s.worker_count
    · simp only [State.step, State.next, hmore, decide_true, if_true, Option.some.injEq] at h₂
      subst h₂
      refine ⟨s.running - (s.worker_count - n).toNat, rfl, ?_⟩
      omega
    · simp only [State.step, State.next, hmore, decide_false, Bool.false_eq_true, if_false,
        Option.some.injEq] at h₂
      subst h₂
      refine ⟨s.running + (n - s.worker_count).toNat, rfl, ?_⟩
      omega
  · cases h₁

/-- In every run in which no worker that was told to stop is still counted when `setNumWorkers` is
called for more than none, each call leaves as many running workers as it was asked for. Of the
calls that are not interrupted between their two looks at the count only these do. -/
theorem running_of_settled (num_workers : Nat) :
    (∀ s log, machine.Run (fun s _ e => s.Settled e) (.new num_workers) s log →
      ∀ n, s.call = .idle n → s.running = n) ∧
    ∀ s log n s₁ s₂ s₃ log', machine.Run (fun _ _ _ => True) (.new num_workers) s log →
      s.step (.setNumWorkers n) = some s₁ → s₁.step .next = some s₂ →
      machine.Run (fun s _ _ => s.Busy) s₂ s₃ log' → s₃.call = .idle n →
      (s₃.running = n ↔ s.Settled (.setNumWorkers n)) := by
  refine ⟨fun s log run n hn => ?_, fun s log n s₁ s₂ s₃ log' run h₁ h₂ run' hn => ?_⟩
  · have hc := (onCourse_of_run run).2
    unfold OnCourse at hc
    rwa [hn] at hc
  · have h := sound_of_run run
    obtain ⟨r, hr, hiff⟩ := h.heading_read h₁ h₂
    have hr' := ((h.step h₁).step h₂ |>.heading_of_run hr run').2
    unfold Heading at hr'
    rw [hn] at hr'
    rw [hr']
    exact hiff

/-- Four workers are wanted, then two: two are told to stop. -/
theorem running_of_settled_two :
    ∃ s log, machine.Run (fun s _ e => s.Settled e) (.new 4) s log ∧
      s.call = .idle 2 ∧ s.worker_count = 4 ∧ s.running = 2 := by
  have h : (machine.exec (fun s _ e => s.Settled e) (.new 4, [])
      [.next, .next, .next, .next, .next, .setNumWorkers 2, .next, .next, .exit 0, .next,
        .next]).map (fun r => (r.1.call, r.1.worker_count)) = some (.idle 2, 4) := by
    decide +kernel
  obtain ⟨⟨s, log⟩, hexec, hs⟩ := Option.map_eq_some_iff.mp h
  obtain ⟨hcall, hcount⟩ := Prod.mk.inj hs
  have run := (Machine.Run.exec .start hexec).of_decide
  exact ⟨s, log, run, hcall, hcount, (running_of_settled 4).1 s log run 2 hcall⟩

/-- Six workers are wanted, then three, then three again: none is left. -/
theorem stopped_twice :
    ∃ s log, machine.Run (fun _ _ _ => True) (.new 6) s log ∧
      s.call = .idle 3 ∧ s.worker_count = 6 ∧ s.running = 0 := by
  have h : (machine.exec (fun _ _ _ => true) (.new 6, [])
      (List.replicate 7 .next ++ .setNumWorkers 3 :: List.replicate 5 .next ++
        .setNumWorkers 3 :: List.replicate 5 .next)).map
          (fun r => (r.1.call, r.1.worker_count, r.1.running)) = some (.idle 3, 6, 0) := by
    decide +kernel
  obtain ⟨⟨s, log⟩, hexec, hs⟩ := Option.map_eq_some_iff.mp h
  obtain ⟨hcall, hrest⟩ := Prod.mk.inj hs
  obtain ⟨hcount, hrunning⟩ := Prod.mk.inj hrest
  exact ⟨s, log, (Machine.Run.exec .start hexec).free, hcall, hcount, hrunning⟩

end State
end Epyx.WorkerPool
