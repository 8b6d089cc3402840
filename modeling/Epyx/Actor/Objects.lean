import Epyx.Actor.Locks
import Epyx.Lib.TreeMap

/-! Who refers to which actor, and when an actor is deleted. An actor is found by an id of 32 bits,
so all this holds until the counter of the ids comes round. -/
namespace Epyx.ActorManager

/-- Until the counter comes round two actors have two ids. -/
theorem ofNat_inj {p q n : Nat} (hn : n ≤ 2 ^ 32) (hp : p < n) (hq : q < n)
    (h : UInt32.ofNat p = UInt32.ofNat q) : p = q := by
  have hnat := congrArg UInt32.toNat h
  rwa [UInt32.toNat_ofNat_of_lt' (by change p < 2 ^ 32; omega),
    UInt32.toNat_ofNat_of_lt' (by change q < 2 ^ 32; omega)] at hnat

def Thread.adds (th : Thread) (p : Ptr) : Prop :=
  ∃ i, th.call = some (.adding p i) ∨ th.call = some (.inserting p i)

namespace State
variable {τ : Type*}

/-- The actor with the id has been killed. -/
def Dead (s : State τ) (i : UInt32) : Prop :=
  ∃ p < s.made, UInt32.ofNat p = i ∧ (s.heap p).alive = false

/-- What a worker knows of the actor it refers to. -/
def JobOk (s : State τ) : Job → Prop
  | .waiting m p | .checking m p => s.actors[m.id]? = some p ∧ (s.heap p).deleted = false
  | .running m p => p < s.made ∧ UInt32.ofNat p = m.id ∧ (s.heap p).deleted = false
  | .deleting i p =>
    s.actors[i]? = some p ∧ (s.heap p).deleted = false ∧ (s.heap p).mutex = none
  | _ => True

def CallOk (s : State τ) : Call → Prop
  | .adding p i | .inserting p i =>
    p < s.made ∧ UInt32.ofNat p = i ∧ (s.heap p).deleted = false ∧ s.actors[i]? = none
  | .marking i p => s.actors[i]? = some p ∧ (s.heap p).deleted = false
  | .poking i => s.Dead i
  | .killing _ => True

/-- The ids of the actors are the numbers they were added as, the map finds no actor that is
deleted unless it is about to be erased, and the threads know what they refer to. -/
structure Objects (s : State τ) : Prop where
  count : s.actorCount = UInt32.ofNat s.made
  id : ∀ p < s.made, (s.heap p).id = UInt32.ofNat p
  unmade : ∀ p, s.made ≤ p → (s.heap p).deleted = false
  map : ∀ i p, s.actors[i]? = some p → p < s.made ∧ UInt32.ofNat p = i
  live : ∀ i p, s.actors[i]? = some p → (s.heap p).deleted → ∃ t, (s.thread t).job = .erasing i
  job : ∀ t, s.JobOk (s.thread t).job
  call : ∀ t c, (s.thread t).call = some c → s.CallOk c
  adds : ∀ t u p, Thread.adds (s.thread t) p → Thread.adds (s.thread u) p → t = u

/-- What a step may do to the actors without disturbing who refers to them. -/
structure Mild (s s' : State τ) : Prop where
  actors : s'.actors = s.actors
  made : s.made ≤ s'.made
  deleted : ∀ p, (s'.heap p).deleted = (s.heap p).deleted
  mutex : ∀ u i p, (s.thread u).job = .deleting i p → (s.heap p).mutex = none →
    (s'.heap p).mutex = none
  alive : ∀ p < s.made, (s.heap p).alive = false → (s'.heap p).alive = false

theorem Mild.dead {s s' : State τ} (h : Mild s s') {i : UInt32} (hi : s.Dead i) : s'.Dead i := by
  obtain ⟨p, hp, hid, ha⟩ := hi
  exact ⟨p, Nat.lt_of_lt_of_le hp h.made, hid, h.alive p hp ha⟩

theorem Mild.job {s s' : State τ} (h : Mild s s') (u : τ) (hj : s.JobOk (s.thread u).job) :
    s'.JobOk (s.thread u).job := by
  cases hu : (s.thread u).job with
  | waiting m p => simpa only [hu, JobOk, h.actors, h.deleted] using hj
  | checking m p => simpa only [hu, JobOk, h.actors, h.deleted] using hj
  | running m p =>
    rw [hu] at hj
    obtain ⟨hp, hid, hd⟩ := hj
    exact ⟨Nat.lt_of_lt_of_le hp h.made, hid, by rw [h.deleted, hd]⟩
  | deleting i p =>
    rw [hu] at hj
    obtain ⟨ha, hd, hm⟩ := hj
    exact ⟨by rw [h.actors, ha], by rw [h.deleted, hd], h.mutex u i p hu hm⟩
  | _ => trivial

theorem Mild.call {s s' : State τ} (h : Mild s s') {c : Call} (hc : s.CallOk c) :
    s'.CallOk c := by
  cases c with
  | adding p i | inserting p i =>
    obtain ⟨hp, hid, hd, ha⟩ := hc
    exact ⟨Nat.lt_of_lt_of_le hp h.made, hid, by rw [h.deleted, hd], by rw [h.actors, ha]⟩
  | marking i p => simpa only [CallOk, h.actors, h.deleted] using hc
  | poking i => exact h.dead hc
  | killing i => trivial

variable [DecidableEq τ]

omit [DecidableEq τ] in
theorem Mild.of_heap {s s' : State τ} (hactors : s'.actors = s.actors) (hmade : s'.made = s.made)
    (hheap : s'.heap = s.heap) : Mild s s' :=
  ⟨hactors, Nat.le_of_eq hmade.symm, fun _ => by rw [hheap], fun _ _ _ _ hm => by rw [hheap, hm],
    fun _ _ ha => by rw [hheap, ha]⟩

omit [DecidableEq τ] in
/-- An actor is killed, or its lock is taken or given back. -/
theorem Mild.of_actor {s s' : State τ} {p : Ptr} {a : Actor τ} (hactors : s'.actors = s.actors)
    (hmade : s'.made = s.made) (hheap : s'.heap = Function.update s.heap p a)
    (hdeleted : a.deleted = (s.heap p).deleted)
    (hmutex : (∃ u i, (s.thread u).job = .deleting i p) → (s.heap p).mutex = none →
      a.mutex = none)
    (halive : (s.heap p).alive = false → a.alive = false) : Mild s s' := by
  refine ⟨hactors, Nat.le_of_eq hmade.symm, fun q => ?_, fun u i q hu hm => ?_, fun q _ ha => ?_⟩
  · rw [hheap, Function.update_apply]
    split <;> simp_all
  · rw [hheap, Function.update_apply]
    split
    · rename_i hq
      subst hq
      exact hmutex ⟨u, i, hu⟩ hm
    · exact hm
  · rw [hheap, Function.update_apply]
    split <;> simp_all

/-- A mild step of the thread `t`, which knows what it refers to. -/
theorem Objects.mild {s s' : State τ} (h : Objects s) (hs : Mild s s') {t : τ} {th : Thread}
    (hthread : s'.thread = Function.update s.thread t th) (hmade : s'.made = s.made)
    (hcount : s'.actorCount = s.actorCount) (hid : ∀ p, (s'.heap p).id = (s.heap p).id)
    (herasing : ∀ i, (s.thread t).job ≠ .erasing i) (hjob : s'.JobOk th.job)
    (hcall : ∀ c, th.call = some c → s'.CallOk c)
    (hadds : ∀ p, Thread.adds th p → Thread.adds (s.thread t) p) : Objects s' := by
  refine ⟨by rw [hcount, hmade, h.count], ?_, ?_, ?_, ?_, ?_, ?_, ?_⟩
  · intro p hp
    rw [hid, h.id p (hmade ▸ hp)]
  · intro p hp
    rw [hs.deleted, h.unmade p (hmade ▸ hp)]
  · intro i p hi
    rw [hmade]
    exact h.map i p (hs.actors ▸ hi)
  · intro i p hi hd
    rw [hs.deleted] at hd
    obtain ⟨u, hu⟩ := h.live i p (hs.actors ▸ hi) hd
    have hne : u ≠ t := by
      rintro rfl
      exact herasing i hu
    exact ⟨u, by rw [hthread, Function.update_of_ne hne, hu]⟩
  · rw [hthread]
    exact (Function.forall_update_iff s.thread fun _ x => s'.JobOk x.job).mpr
      ⟨hjob, fun u _ => hs.job u (h.job u)⟩
  · rw [hthread]
    exact (Function.forall_update_iff s.thread fun _ x => ∀ c, x.call = some c → s'.CallOk c).mpr
      ⟨hcall, fun u _ c hc => hs.call (h.call u c hc)⟩
  · have hold : ∀ u p, Thread.adds (s'.thread u) p → Thread.adds (s.thread u) p := fun u p hu => by
      by_cases he : u = t
      · rw [hthread, he, Function.update_self] at hu
        exact he ▸ hadds p hu
      · rwa [hthread, Function.update_of_ne he] at hu
    intro u v p hu hv
    exact h.adds u v p (hold u p hu) (hold v p hv)

omit [DecidableEq τ] in
/-- A worker without `actorsLock` only depends on the actor it runs a handler of. -/
theorem JobOk.free {s s' : State τ} {j : Job} (h : s.JobOk j) (hfree : j.holdsActors = false)
    (hmade : s'.made = s.made) (hdeleted : ∀ m p, j = .running m p →
      (s'.heap p).deleted = (s.heap p).deleted) : s'.JobOk j := by
  cases j with
  | running m p =>
    obtain ⟨hp, hid, hd⟩ := h
    exact ⟨hmade ▸ hp, hid, by rw [hdeleted m p rfl, hd]⟩
  | idle | locking m => trivial
  | _ => cases hfree

omit [DecidableEq τ] in
/-- A caller without `actorsLock` only depends on the actor it adds. -/
theorem CallOk.free {s s' : State τ} {c : Call} (h : s.CallOk c) (hfree : c.holdsActors = false)
    (hmade : s'.made = s.made) (halive : ∀ p, (s'.heap p).alive = (s.heap p).alive)
    (hadding : ∀ p i, c = .adding p i → (s'.heap p).deleted = (s.heap p).deleted ∧
      s'.actors[i]? = none) : s'.CallOk c := by
  cases c with
  | adding p i =>
    obtain ⟨hp, hid, hd, -⟩ := h
    exact ⟨hmade ▸ hp, hid, by rw [(hadding p i rfl).1, hd], (hadding p i rfl).2⟩
  | poking i =>
    obtain ⟨p, hp, hid, ha⟩ := h
    exact ⟨p, hmade ▸ hp, hid, by rw [halive, ha]⟩
  | killing i => trivial
  | _ => cases hfree

omit [DecidableEq τ] in
/-- While `t` has `actorsLock` nobody else has it. -/
theorem Locks.others {s : State τ} (h : Locks s) {t u : τ} (ht : (s.thread t).holdsActors)
    (hu : u ≠ t) : (s.thread u).job.holdsActors = false ∧
      ∀ c, (s.thread u).call = some c → c.holdsActors = false := by
  have hfree : (s.thread u).holdsActors = false := by
    cases hl : (s.thread u).holdsActors with
    | false => rfl
    | true =>
      have h1 := (h.actors t).mp ht
      rw [(h.actors u).mp hl] at h1
      exact absurd (Option.some.inj h1) hu
  rw [Thread.holdsActors, Bool.or_eq_false_iff] at hfree
  exact ⟨hfree.1, fun c hc => by simpa [hc] using hfree.2⟩

theorem mild_beginAdd (s : State τ) (t : τ) : Mild s (s.beginAdd t) := by
  refine ⟨rfl, Nat.le_succ _, fun p => ?_, fun u i p _ hm => ?_, fun p hp ha => ?_⟩
  · by_cases hp : p = s.made
    · simp [beginAdd, hp]
    · simp [beginAdd, Function.update_of_ne hp]
  · by_cases hp : p = s.made
    · simpa [beginAdd, hp] using hp ▸ hm
    · simpa [beginAdd, Function.update_of_ne hp] using hm
  · simpa [beginAdd, Function.update_of_ne (Nat.ne_of_lt hp)] using ha

theorem beginAdd_thread (s : State τ) (t : τ) : (s.beginAdd t).thread =
    Function.update s.thread t ⟨(s.thread t).job, some (.adding s.made s.actorCount)⟩ := rfl

theorem beginAdd_id (s : State τ) (t : τ) (p : Ptr) : ((s.beginAdd t).heap p).id =
    if p = s.made then s.actorCount else (s.heap p).id := by
  by_cases hp : p = s.made
  · simp [beginAdd, hp]
  · simp [beginAdd, hp]

omit [DecidableEq τ] in
theorem Objects.adds_lt {s : State τ} (h : Objects s) {u : τ} {p : Ptr}
    (hu : Thread.adds (s.thread u) p) : p < s.made := by
  obtain ⟨i, hi | hi⟩ := hu
  · exact (h.call u _ hi).1
  · exact (h.call u _ hi).1

omit [DecidableEq τ] in
/-- The next id is that of no actor. -/
theorem Objects.fresh {s : State τ} (h : Objects s) (hmade : s.made < 2 ^ 32) :
    s.actors[s.actorCount]? = none := by
  cases hi : s.actors[s.actorCount]? with
  | none => rfl
  | some q =>
    obtain ⟨hq, hid⟩ := h.map _ q hi
    rw [h.count] at hid
    have hqm := ofNat_inj (n := s.made + 1) hmade (Nat.lt_succ_of_lt hq) (Nat.lt_succ_self _) hid
    exact absurd hqm (Nat.ne_of_lt hq)

theorem Objects.add {s : State τ} (h : Objects s) (t : τ)
    (hmade : s.made < 2 ^ 32) : Objects (s.beginAdd t) := by
  have hmild := mild_beginAdd s t
  have hself : ∀ p, Thread.adds ((s.beginAdd t).thread t) p → p = s.made := fun p hp => by
    obtain ⟨i, hi⟩ := hp
    simp [beginAdd] at hi
    exact hi.1.symm
  have hother : ∀ u, u ≠ t → (s.beginAdd t).thread u = s.thread u := fun u hu => by
    rw [beginAdd_thread, Function.update_of_ne hu]
  refine ⟨?_, fun p hp => ?_, fun p hp => ?_, fun i p hi => ?_, fun i p hi hd => ?_, ?_, ?_,
    fun u v p hu hv => ?_⟩
  · show s.actorCount + 1 = UInt32.ofNat (s.made + 1)
    rw [h.count, UInt32.ofNat_add]
    rfl
  · rw [beginAdd_id]
    split
    · rename_i hpm
      rw [hpm, h.count]
    · rename_i hpm
      exact h.id p (Nat.lt_of_le_of_ne (Nat.le_of_lt_succ hp) hpm)
  · rw [hmild.deleted]
    exact h.unmade p (Nat.le_of_succ_le hp)
  · exact ⟨Nat.lt_succ_of_lt (h.map i p hi).1, (h.map i p hi).2⟩
  · rw [hmild.deleted] at hd
    obtain ⟨u, hu⟩ := h.live i p hi hd
    refine ⟨u, ?_⟩
    by_cases he : u = t
    · subst he
      simpa [beginAdd] using hu
    · rw [hother u he, hu]
  · rw [beginAdd_thread]
    exact (Function.forall_update_iff s.thread fun _ x => (s.beginAdd t).JobOk x.job).mpr
      ⟨hmild.job t (h.job t), fun u _ => hmild.job u (h.job u)⟩
  · rw [beginAdd_thread]
    refine (Function.forall_update_iff s.thread fun _ x =>
      ∀ c, x.call = some c → (s.beginAdd t).CallOk c).mpr
        ⟨fun c hc => ?_, fun u _ c hc => hmild.call (h.call u c hc)⟩
    cases hc
    refine ⟨Nat.lt_succ_self _, h.count.symm, ?_, h.fresh hmade⟩
    rw [hmild.deleted]
    exact h.unmade _ (Nat.le_refl _)
  · by_cases he : u = t
    · by_cases hve : v = t
      · rw [he, hve]
      · rw [hother v hve] at hv
        exact absurd (hself p (he ▸ hu)) (Nat.ne_of_lt (h.adds_lt hv))
    · rw [hother u he] at hu
      by_cases hve : v = t
      · exact absurd (hself p (hve ▸ hv)) (Nat.ne_of_lt (h.adds_lt hu))
      · rw [hother v hve] at hv
        exact h.adds u v p hu hv

/-- A step of the holder of `actorsLock` that changes the map or deletes an actor. -/
theorem Objects.holder {s s' : State τ} (h : Objects s) (hl : Locks s) {t : τ} {th : Thread}
    (ht : (s.thread t).holdsActors) (hthread : s'.thread = Function.update s.thread t th)
    (hmade : s'.made = s.made) (hcount : s'.actorCount = s.actorCount)
    (hid : ∀ p, (s'.heap p).id = (s.heap p).id)
    (halive : ∀ p, (s'.heap p).alive = (s.heap p).alive)
    (hmap : ∀ i p, s'.actors[i]? = some p → p < s.made ∧ UInt32.ofNat p = i)
    (hunmade : ∀ p, s.made ≤ p → (s'.heap p).deleted = false)
    (hlive : ∀ i p, s'.actors[i]? = some p → (s'.heap p).deleted →
      ∃ u, (s'.thread u).job = .erasing i)
    (hjob : s'.JobOk th.job) (hcall : ∀ c, th.call = some c → s'.CallOk c)
    (hadds : ∀ p, ¬Thread.adds th p)
    (hrunning : ∀ u m p, u ≠ t → (s.thread u).job = .running m p →
      (s'.heap p).deleted = (s.heap p).deleted)
    (hadding : ∀ u p i, u ≠ t → (s.thread u).call = some (.adding p i) →
      (s'.heap p).deleted = (s.heap p).deleted ∧ s'.actors[i]? = none) : Objects s' := by
  have hself : s'.thread t = th := by rw [hthread, Function.update_self]
  have hother : ∀ u, u ≠ t → s'.thread u = s.thread u := fun u hu => by
    rw [hthread, Function.update_of_ne hu]
  refine ⟨by rw [hcount, hmade, h.count], fun p hp => ?_, fun p hp => hunmade p (hmade ▸ hp),
    fun i p hi => hmade ▸ hmap i p hi, hlive, ?_, ?_, fun u v p hu hv => ?_⟩
  · rw [hid, h.id p (hmade ▸ hp)]
  · rw [hthread]
    refine (Function.forall_update_iff s.thread fun _ x => s'.JobOk x.job).mpr
      ⟨hjob, fun u hu => ?_⟩
    exact (h.job u).free (hl.others ht hu).1 hmade fun m p hj => hrunning u m p hu hj
  · rw [hthread]
    refine (Function.forall_update_iff s.thread fun _ x => ∀ c, x.call = some c → s'.CallOk c).mpr
      ⟨hcall, fun u hu c hc => ?_⟩
    exact (h.call u c hc).free ((hl.others ht hu).2 c hc) hmade halive
      fun p i he => hadding u p i hu (he ▸ hc)
  · have hne : ∀ w, Thread.adds (s'.thread w) p → w ≠ t := fun w hw he => by
      rw [he, hself] at hw
      exact hadds p hw
    have hu' := hne u hu
    have hv' := hne v hv
    rw [hother u hu'] at hu
    rw [hother v hv'] at hv
    exact h.adds u v p hu hv

theorem Objects.inserting {s : State τ} (h : Objects s) (hl : Locks s) (hmade : s.made ≤ 2 ^ 32)
    {t : τ} {p : Ptr} {i : UInt32} (ht : (s.thread t).call = some (.inserting p i)) :
    Objects ({ s with actors := s.actors.insert i p, actorsLock := none }.setCall t none) := by
  obtain ⟨hrest, hhold⟩ := hl.rest ht
  obtain ⟨hp, hid, hd, hnone⟩ := h.call t _ ht
  have hnot : ∀ j, (s.thread t).job ≠ .erasing j := fun j hj => by
    rw [hj] at hrest
    cases hrest
  refine h.holder hl hhold rfl rfl rfl (fun _ => rfl) (fun _ => rfl) (fun j q hq => ?_) h.unmade
    (fun j q hq hdel => ?_) (h.job t |>.free (Job.holdsActors_of_atRest hrest) rfl fun _ _ _ => rfl)
    (fun c hc => nomatch hc) (fun q hq => ?_) (fun _ _ _ _ _ => rfl) fun u q j hu hq => ⟨rfl, ?_⟩
  · rcases Lib.TreeMap.of_getElem?_insert hq with ⟨rfl, rfl⟩ | ⟨-, hq⟩
    · exact ⟨hp, hid⟩
    · exact h.map j q hq
  · rcases Lib.TreeMap.of_getElem?_insert hq with ⟨-, rfl⟩ | ⟨-, hq⟩
    · exact absurd hdel (by simp [hd])
    · obtain ⟨u, hu⟩ := h.live j q hq hdel
      have hut : u ≠ t := by
        rintro rfl
        exact hnot j hu
      exact ⟨u, by simp [Function.update_of_ne hut, hu]⟩
  · obtain ⟨j, hj | hj⟩ := hq <;> cases hj
  · obtain ⟨hq', hid', -, hnone'⟩ := h.call u _ hq
    have hne : i ≠ j := by
      rintro rfl
      have hqp := ofNat_inj hmade hp hq' (hid.trans hid'.symm)
      exact hu (h.adds u t p ⟨i, .inl (hqp ▸ hq)⟩ ⟨i, .inr ht⟩)
    simpa [Std.ExtTreeMap.getElem?_insert, hne] using hnone'

theorem Objects.deleting {s : State τ} (h : Objects s) (hl : Locks s) {t : τ} {p : Ptr}
    {i : UInt32} (ht : s.thread t = ⟨.deleting i p, none⟩) :
    Objects ((s.setActor p { s.heap p with deleted := true }).setJob t (.erasing i)) := by
  have hjob := h.job t
  rw [ht] at hjob
  obtain ⟨hi, hd, hm⟩ := hjob
  obtain ⟨hp, hid⟩ := h.map i p hi
  have hheap : ∀ q, q ≠ p →
      ((s.setActor p { s.heap p with deleted := true }).setJob t (.erasing i)).heap q =
        s.heap q := fun q hq => by simp [Function.update_of_ne hq]
  refine h.holder hl (by rw [ht]; rfl) (setJob_thread ht (.erasing i)) rfl rfl (fun q => ?_)
    (fun q => ?_) h.map (fun q hq => ?_) (fun j q hj hdel => ?_) trivial (fun c hc => nomatch hc)
    (fun q hq => ?_) (fun u m q hu hq => ?_) fun u q j hu hq => ?_
  · by_cases hqp : q = p
    · simp [hqp]
    · rw [hheap q hqp]
  · by_cases hqp : q = p
    · simp [hqp]
    · rw [hheap q hqp]
  · rw [hheap q (Nat.ne_of_gt (Nat.lt_of_lt_of_le hp hq))]
    exact h.unmade q hq
  · by_cases hqp : q = p
    · have hij : j = i := by rw [← (h.map j q hj).2, hqp, hid]
      exact ⟨t, by simp [hij]⟩
    · rw [hheap q hqp] at hdel
      obtain ⟨u, hu⟩ := h.live j q hj hdel
      have hut : u ≠ t := by
        rintro rfl
        rw [ht] at hu
        cases hu
      exact ⟨u, by simp [Function.update_of_ne hut, hu]⟩
  · obtain ⟨j, hj | hj⟩ := hq <;> cases hj
  · have hqp : q ≠ p := by
      rintro rfl
      have hmu := (hl.mutex u q).mp (by rw [hq]; rfl)
      rw [hm] at hmu
      cases hmu
    rw [hheap q hqp]
  · obtain ⟨-, hid', -, hnone⟩ := h.call u _ hq
    have hqp : q ≠ p := by
      rintro rfl
      rw [← hid', hid, hi] at hnone
      cases hnone
    exact ⟨by rw [hheap q hqp], hnone⟩

theorem Objects.erasing {s : State τ} (h : Objects s) (hl : Locks s) {t : τ} {i : UInt32}
    (ht : s.thread t = ⟨.erasing i, none⟩) :
    Objects ({ s with actors := s.actors.erase i, actorsLock := none }.setJob t .idle) := by
  have herase : ∀ {j q}, (s.actors.erase i)[j]? = some q → i ≠ j ∧ s.actors[j]? = some q :=
    Lib.TreeMap.of_getElem?_erase
  refine h.holder hl (by rw [ht]; rfl) (setJob_thread ht .idle) rfl rfl (fun _ => rfl)
    (fun _ => rfl) (fun j q hq => h.map j q (herase hq).2) h.unmade (fun j q hq hdel => ?_) trivial
    (fun c hc => nomatch hc) (fun q hq => ?_) (fun _ _ _ _ _ => rfl) fun u q j hu hq => ⟨rfl, ?_⟩
  · obtain ⟨hij, hq⟩ := herase hq
    obtain ⟨u, hu⟩ := h.live j q hq hdel
    have hut : u ≠ t := by
      rintro rfl
      rw [ht] at hu
      exact hij (Job.erasing.inj hu)
    exact ⟨u, by simp [Function.update_of_ne hut, hu]⟩
  · obtain ⟨j, hj | hj⟩ := hq <;> cases hj
  · obtain ⟨-, -, -, hnone⟩ := h.call u _ hq
    simp [Std.ExtTreeMap.getElem?_erase, hnone]

theorem Objects.setCall {s s' : State τ} (h : Objects s) (hs : Mild s s') {t : τ} {c : Option Call}
    (hthread : s'.thread = Function.update s.thread t { s.thread t with call := c })
    (hmade : s'.made = s.made) (hcount : s'.actorCount = s.actorCount)
    (hid : ∀ p, (s'.heap p).id = (s.heap p).id) (hrest : (s.thread t).job.atRest)
    (hcall : ∀ d, c = some d → s'.CallOk d)
    (hadds : ∀ p, Thread.adds ⟨(s.thread t).job, c⟩ p → Thread.adds (s.thread t) p) :
    Objects s' := by
  refine h.mild hs hthread hmade hcount hid (fun i hi => ?_) (hs.job t (h.job t)) hcall hadds
  rw [hi] at hrest
  cases hrest

theorem Objects.setJob {s s' : State τ} (h : Objects s) (hs : Mild s s') {t : τ} {j j' : Job}
    (ht : s.thread t = ⟨j, none⟩) (hthread : s'.thread = Function.update s.thread t ⟨j', none⟩)
    (hmade : s'.made = s.made) (hcount : s'.actorCount = s.actorCount)
    (hid : ∀ p, (s'.heap p).id = (s.heap p).id) (herasing : ∀ i, j ≠ .erasing i)
    (hjob : s'.JobOk j') : Objects s' := by
  refine h.mild hs hthread hmade hcount hid (fun i => ?_) hjob (fun c hc => nomatch hc)
    fun p ⟨i, hp⟩ => ?_
  · rw [ht]
    exact herasing i
  · rcases hp with hp | hp <;> cases hp

omit [DecidableEq τ] in
/-- What is found while nobody has `actorsLock` is not deleted. -/
theorem Objects.found {s : State τ} (h : Objects s) (hl : Locks s) (free : s.actorsLock = none)
    {i : UInt32} {p : Ptr} (hi : s.actors[i]? = some p) : (s.heap p).deleted = false := by
  cases hd : (s.heap p).deleted with
  | false => rfl
  | true =>
    obtain ⟨u, hu⟩ := h.live i p hi hd
    have hlock := (hl.actors u).mp (by simp [Thread.holdsActors, hu, Job.holdsActors])
    rw [free] at hlock
    cases hlock

theorem Objects.step {s s' : State τ} {t : τ} {e : Event} {out : List Out} (h : Objects s)
    (hl : Locks s) (hmade : s'.made ≤ 2 ^ 32) (hs : Step s t e s' out) : Objects s' := by
  have hjob := h.job t
  have hcall := h.call t
  have hid : ∀ {p : Ptr} {a : Actor τ}, a.id = (s.heap p).id →
      ∀ q, (Function.update s.heap p a q).id = (s.heap q).id := fun {p a} ha q => by
    rw [Function.update_apply]
    split <;> simp_all
  cases hs with
  | add hc => exact h.add t hmade
  | kill i hc =>
    exact h.setCall (.of_heap rfl rfl rfl) rfl rfl rfl (fun _ => rfl)
      ((Thread.canCall_iff _).mp hc).1 (fun d hd => by cases hd; trivial)
      fun p hp => by simp [Thread.adds] at hp
  | post i hc => exact ⟨h.count, h.id, h.unmade, h.map, h.live, h.job, h.call, h.adds⟩
  | take m k ht hm =>
    exact h.setJob (.of_heap rfl rfl rfl) ht (setJob_thread ht (.locking m)) rfl rfl
      (fun _ => rfl) (by simp) trivial
  | selfKill m p ht =>
    rw [ht] at hjob
    refine h.setCall (.of_actor rfl rfl rfl rfl (fun _ hm => hm) fun _ => rfl) rfl rfl rfl
      (hid rfl) (by rw [ht]; rfl) (fun d hd => ?_)
      fun p hp => by simp [Thread.adds] at hp
    cases hd
    exact ⟨p, hjob.1, (h.id p hjob.1).symm, by simp⟩
  | ret m p ht =>
    exact h.setJob (.of_actor rfl rfl rfl rfl (fun _ _ => rfl) fun ha => ha) ht
      (setJob_thread ht .idle) rfl rfl (hid rfl) (by simp) trivial
  | adding p i ht free =>
    refine h.setCall (.of_heap rfl rfl rfl) rfl rfl rfl (fun _ => rfl) (hl.rest ht).1
      (fun d hd => by cases hd; exact hcall _ ht) fun q hq => ?_
    obtain ⟨j, hj | hj⟩ := hq
    · cases hj
    · cases hj
      exact ⟨i, .inl ht⟩
  | inserting p i ht => exact h.inserting hl hmade ht
  | killNone i ht hi =>
    exact h.setCall (.of_heap rfl rfl rfl) rfl rfl rfl (fun _ => rfl) (hl.rest ht).1
      (by simp)
      fun p hp => by simp [Thread.adds] at hp
  | killing i p ht free hi =>
    refine h.setCall (.of_heap rfl rfl rfl) rfl rfl rfl (fun _ => rfl) (hl.rest ht).1
      (fun d hd => ?_) fun p hp => by simp [Thread.adds] at hp
    cases hd
    exact ⟨hi, h.found hl free hi⟩
  | marking i p ht =>
    obtain ⟨hi, hd⟩ := hcall _ ht
    obtain ⟨hp, hpi⟩ := h.map i p hi
    refine h.setCall (.of_actor rfl rfl rfl rfl (fun _ hm => hm) fun _ => rfl) rfl rfl rfl
      (hid rfl) (hl.rest ht).1 (fun d hd => ?_) fun p hp => by simp [Thread.adds] at hp
    cases hd
    exact ⟨p, hp, hpi, by simp⟩
  | poking i ht =>
    exact h.setCall (.of_heap rfl rfl rfl) rfl rfl rfl (fun _ => rfl) (hl.rest ht).1
      (by simp)
      fun p hp => by simp [Thread.adds] at hp
  | lockNone m ht hi =>
    exact h.setJob (.of_heap rfl rfl rfl) ht (setJob_thread ht .idle) rfl rfl (fun _ => rfl)
      (by simp) trivial
  | locking m p ht free hi =>
    exact h.setJob (.of_heap rfl rfl rfl) ht (setJob_thread ht (.waiting m p)) rfl rfl
      (fun _ => rfl) (by simp) ⟨hi, h.found hl free hi⟩
  | waiting m p ht free =>
    rw [ht] at hjob
    -- who deletes the actor has `actorsLock`, and so has who waits for the actor
    have hdel : ¬∃ u i, (s.thread u).job = .deleting i p := by
      rintro ⟨u, i, hu⟩
      have hut : u ≠ t := by
        rintro rfl
        rw [ht] at hu
        cases hu
      have hfree := (hl.others (t := t) (by rw [ht]; rfl) hut).1
      rw [hu] at hfree
      cases hfree
    refine h.setJob (.of_actor rfl rfl rfl rfl (fun hu => absurd hu hdel) fun ha => ha) ht
      (setJob_thread ht (.checking m p)) rfl rfl (hid rfl) (by simp) ?_
    exact ⟨hjob.1, by simpa using hjob.2⟩
  | alive m p ht ha =>
    rw [ht] at hjob
    obtain ⟨hp, hmid⟩ := h.map _ p hjob.1
    exact h.setJob (.of_heap rfl rfl rfl) ht (setJob_thread ht (.running m p)) rfl rfl
      (fun _ => rfl) (by simp) ⟨hp, hmid, hjob.2⟩
  | dead m p ht ha =>
    rw [ht] at hjob
    refine h.setJob (.of_actor rfl rfl rfl rfl (fun _ _ => rfl) fun ha => ha) ht
      (setJob_thread ht (.deleting m.id p)) rfl rfl (hid rfl) (by simp) ?_
    exact ⟨hjob.1, by simpa using hjob.2, by simp⟩
  | deleting i p ht => exact h.deleting hl ht
  | erasing i ht => exact h.erasing hl ht

end State
end Epyx.ActorManager
