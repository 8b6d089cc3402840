import Epyx.Lib.Custody
import Epyx.Lib.Machine
import Epyx.Lib.TreeMap
import Mathlib.Algebra.Group.Nat.Defs
import Std.Data.ExtTreeMap

/-! `net/netselect.cpp`: the thread that selects, the workers that read, and the threads that add
and kill readers, one locked section at a time. -/
namespace Epyx.NetSelect
open Lib
open Std (ExtTreeMap)

structure NetSelectReaderInfo (ρ : Type*) where
  reader : ρ
  alive : Bool
  inQueue : Bool
  deriving DecidableEq, Repr

/-- Where a worker is in `Workers::treat`. -/
inductive Job (ρ : Type*) where
  | idle
  | taken (id : Int32)
  /-- in `read` -/
  | reading (id : Int32) (reader : ρ)
  /-- `read` has returned -/
  | finishing (id : Int32) (result : Bool)
  deriving DecidableEq, Repr

/-- Where the thread is in `run`. -/
inductive Scan where
  | collecting
  | selecting (rfds : List Int)
  /-- has the mutex -/
  | scanning (rfds : List Int) (left closedList : List Int32)
  | closing (closedList : List Int32)
  deriving DecidableEq, Repr

/-- A `NetSelect` and its threads. `owned` has the readers whose owner is set, with the ids that
they were given; those of `inserting` are not in the map yet. -/
structure State (τ ρ : Type*) where
  lastId : Int32
  readers : ExtTreeMap Int32 (NetSelectReaderInfo ρ)
  owned : List (Int32 × ρ)
  inserting : List (Int32 × ρ)
  messages : List Int32
  scan : Scan
  job : τ → Job ρ

/-- What the threads do. What `getFileDescriptor` returns is up to the readers. -/
inductive Event (τ ρ : Type*) where
  /-- `add`, up to the lock -/
  | add (reader : ρ)
  /-- the rest of `add` -/
  | insert (id : Int32) (reader : ρ)
  | kill (id : Int32)
  /-- `run` goes on: it collects the descriptors, returns from `select` with those that are ready,
  looks at one reader more, or kills a closed one -/
  | collect (fd : ρ → Int)
  | select (ready : List Int)
  | scan (fd : ρ → Int)
  | close
  /-- a worker goes on -/
  | take (t : τ)
  | get (t : τ)
  | read (t : τ) (result : Bool)
  | finish (t : τ)

namespace State
variable {τ ρ : Type*}

def new : State τ ρ := ⟨1, ∅, [], [], [], .collecting, fun _ => .idle⟩

/-- The map is locked by a scan only; all other locked sections are one step. -/
def unlocked (s : State τ ρ) : Bool :=
  match s.scan with
  | .scanning _ _ _ => false
  | _ => true

/-- The descriptors of the readers that have nothing in the queue. -/
def rfds (s : State τ ρ) (fd : ρ → Int) : List Int :=
  s.readers.toList.filterMap fun x =>
    if x.2.alive ∧ ¬x.2.inQueue ∧ fd x.2.reader ≥ 0 then some (fd x.2.reader) else none

/-- One turn of the second loop of `run`. -/
def look (s : State τ ρ) (fd : ρ → Int) (rfds : List Int) (left closedList : List Int32)
    (id : Int32) : State τ ρ :=
  match s.readers[id]? with
  | some nsri =>
    if nsri.alive then
      if fd nsri.reader ≥ 0 then
        if ¬nsri.inQueue ∧ fd nsri.reader ∈ rfds then
          { s with
            readers := s.readers.insert id { nsri with inQueue := true }
            messages := s.messages ++ [id]
            scan := .scanning rfds left closedList }
        else { s with scan := .scanning rfds left closedList }
      else { s with scan := .scanning rfds left (closedList ++ [id]) }
    else { s with scan := .scanning rfds left closedList }
  | none => { s with scan := .scanning rfds left closedList }

/-- `get` -/
def get (s : State τ ρ) (id : Int32) : Option ρ :=
  s.readers[id]?.bind fun nsri => if nsri.alive then some nsri.reader else none

/-- The end of `Workers::treat`: `kill`, or the flag is taken back. -/
def release (s : State τ ρ) (id : Int32) (result : Bool) : State τ ρ :=
  { s with
    readers :=
      if result then s.readers.modify id ({ · with inQueue := false }) else s.readers.erase id }

variable [DecidableEq τ]

def setJob (s : State τ ρ) (t : τ) (j : Job ρ) : State τ ρ :=
  { s with job := Function.update s.job t j }

variable [DecidableEq ρ]

def step (s : State τ ρ) : Event τ ρ → Option (State τ ρ)
  | .add reader =>
    -- the owner of a reader is set once
    if reader ∈ s.owned.map Prod.snd then none
    else
      some { s with
        lastId := s.lastId + 1
        owned := s.owned ++ [(s.lastId, reader)]
        inserting := s.inserting ++ [(s.lastId, reader)] }
  | .insert id reader =>
    if s.unlocked ∧ (id, reader) ∈ s.inserting then
      some { s with
        readers := s.readers.insert id ⟨reader, true, false⟩
        inserting := s.inserting.erase (id, reader) }
    else none
  | .kill id => if s.unlocked then some { s with readers := s.readers.erase id } else none
  | .collect fd =>
    match s.scan with
    | .collecting => some { s with scan := .selecting (s.rfds fd) }
    | _ => none
  | .select ready =>
    match s.scan with
    | .selecting rfds =>
      if ready ⊆ rfds then some { s with scan := .scanning ready s.readers.keys [] } else none
    | _ => none
  | .scan fd =>
    match s.scan with
    | .scanning _ [] closedList => some { s with scan := .closing closedList }
    | .scanning rfds (id :: left) closedList => some (s.look fd rfds left closedList id)
    | _ => none
  | .close =>
    match s.scan with
    | .closing [] => some { s with scan := .collecting }
    | .closing (id :: closedList) =>
      some { s with readers := s.readers.erase id, scan := .closing closedList }
    | _ => none
  | .take t =>
    match s.job t, s.messages with
    | .idle, id :: messages => some ({ s with messages := messages }.setJob t (.taken id))
    | _, _ => none
  | .get t =>
    match s.job t with
    | .taken id =>
      if s.unlocked then
        match s.get id with
        | some reader => some (s.setJob t (.reading id reader))
        | none => some (s.setJob t .idle)
      else none
    | _ => none
  | .read t result =>
    match s.job t with
    | .reading id _ => some (s.setJob t (.finishing id result))
    | _ => none
  | .finish t =>
    match s.job t with
    | .finishing id result =>
      if s.unlocked then some ((s.release id result).setJob t .idle) else none
    | _ => none

def machine : Machine (State τ ρ) (Event τ ρ) Empty where
  step s e := (s.step e).map fun s => (s, [])

end State

/-- The id a worker has taken and has not finished with. -/
def Job.id {ρ : Type*} : Job ρ → Option Int32
  | .idle => none
  | .taken id | .reading id _ | .finishing id _ => some id

namespace State
variable {τ ρ : Type*}

/-- The ids in the queue and in the hands of the workers. -/
def custody (s : State τ ρ) : Custody τ Int32 := ⟨s.messages, fun t => (s.job t).id⟩

/-- Each id is in the queue or with a worker once; its reader, if it is still there, is marked; and
no reader is read by two workers. -/
structure Exclusive (s : State τ ρ) : Prop where
  custody : s.custody.Sound
  inQueue : ∀ id nsri, s.custody.Present id → s.readers[id]? = some nsri → nsri.inQueue
  read : ∀ t u id id' reader, s.job t = .reading id reader → s.job u = .reading id' reader → t = u

/-- The ids come from the counter, and a reader has one. -/
structure Issued (s : State τ ρ) : Prop where
  lastId : s.lastId = Int32.ofNat (s.owned.length + 1)
  ids : s.owned.map Prod.fst = (List.range s.owned.length).map fun k => Int32.ofNat (k + 1)
  readers : (s.owned.map Prod.snd).Nodup
  inserting : s.inserting ⊆ s.owned
  once : s.inserting.Nodup

/-- An id is used for the reader it was given to, once that one is in the map. -/
structure Placed (s : State τ ρ) : Prop where
  registered : ∀ id nsri, s.readers[id]? = some nsri →
    (id, nsri.reader) ∈ s.owned ∧ (id, nsri.reader) ∉ s.inserting
  present : ∀ id, s.custody.Present id →
    ∃ reader, (id, reader) ∈ s.owned ∧ (id, reader) ∉ s.inserting
  reading : ∀ t id reader, s.job t = .reading id reader → (id, reader) ∈ s.owned

/-- Ids are told apart until the counter comes round. -/
theorem Issued.ids_nodup {s : State τ ρ} (h : Issued s) (hb : s.owned.length ≤ 2 ^ 32) :
    (s.owned.map Prod.fst).Nodup := by
  rw [h.ids]
  refine List.nodup_range.map_on fun a ha b hb' hab => ?_
  rw [List.mem_range] at ha hb'
  have hu := congrArg (UInt32.toNat ∘ Int32.toUInt32) hab
  simp only [Function.comp_apply, Int32.toUInt32_ofNat', UInt32.toNat_ofNat'] at hu
  omega

theorem get_some {s : State τ ρ} {id : Int32} {reader : ρ} (h : s.get id = some reader) :
    ∃ nsri, s.readers[id]? = some nsri ∧ nsri.reader = reader := by
  obtain ⟨nsri, hn, hr⟩ := Option.bind_eq_some_iff.mp h
  obtain ⟨-, hr⟩ := Option.ite_none_right_eq_some.mp hr
  cases hr
  exact ⟨nsri, hn, rfl⟩

theorem getElem?_release {s : State τ ρ} {id id' : Int32} {result : Bool}
    {nsri : NetSelectReaderInfo ρ} (h : (s.release id result).readers[id']? = some nsri) :
    ∃ old, s.readers[id']? = some old ∧ old.reader = nsri.reader ∧ (id' ≠ id → old = nsri) := by
  cases result with
  | false =>
    exact ⟨nsri, (TreeMap.of_getElem?_erase h).2, rfl, fun _ => rfl⟩
  | true =>
    have he : (s.readers.modify id ({ · with inQueue := false }))[id']? = some nsri := h
    rw [ExtTreeMap.getElem?_modify] at he
    split at he
    · rename_i hid
      obtain rfl : id = id' := by simpa using hid
      obtain ⟨old, hold, rfl⟩ := Option.map_eq_some_iff.mp he
      exact ⟨old, hold, rfl, fun hne => absurd rfl hne⟩
    · exact ⟨nsri, he, rfl, fun _ => rfl⟩

/-- Each id is in one place, and marked as long as its reader is there. -/
structure Marked (s : State τ ρ) : Prop where
  custody : s.custody.Sound
  inQueue : ∀ id nsri, s.custody.Present id → s.readers[id]? = some nsri → nsri.inQueue

theorem Marked.exclusive {s : State τ ρ} (h : Marked s) (hi : Issued s) (hp : Placed s) :
    Exclusive s := by
  refine ⟨h.custody, h.inQueue, fun t u id id' reader ht hu => ?_⟩
  have heq := List.inj_on_of_nodup_map hi.readers (hp.reading t id reader ht)
    (hp.reading u id' reader hu) rfl
  cases heq
  exact h.custody.inj t u id (congrArg Job.id ht) (congrArg Job.id hu)

theorem issued_new : Issued (new : State τ ρ) :=
  ⟨rfl, rfl, .nil, List.Subset.refl _, .nil⟩

theorem placed_new : Placed (new : State τ ρ) :=
  ⟨by simp [new], by simp [new, Custody.Present, custody, Job.id], by simp [new]⟩

theorem marked_new : Marked (new : State τ ρ) :=
  ⟨⟨.nil, by simp [new, custody], by simp [new, custody, Job.id]⟩, by simp [new]⟩

variable [DecidableEq τ]

theorem custody_setJob (s : State τ ρ) (t : τ) (j : Job ρ) :
    (s.setJob t j).custody = ⟨s.messages, Function.update s.custody.hand t j.id⟩ := by
  have hhand : (fun u => (Function.update s.job t j u).id) =
      Function.update s.custody.hand t j.id :=
    Function.comp_update Job.id s.job t j
  exact congrArg (Custody.mk s.messages) hhand

/-- The worker keeps the id. -/
theorem custody_keep {s : State τ ρ} {t : τ} {j : Job ρ} (h : (s.job t).id = j.id) :
    (s.setJob t j).custody = s.custody := by
  rw [custody_setJob, ← h]
  exact congrArg (Custody.mk s.messages) (Function.update_eq_self t s.custody.hand)

theorem job_setJob {s : State τ ρ} {t u : τ} {j : Job ρ} {id : Int32} {reader : ρ}
    (h : (s.setJob t j).job u = .reading id reader) :
    s.job u = .reading id reader ∨ j = .reading id reader := by
  by_cases hu : u = t
  · subst hu
    exact .inr (by simpa [setJob] using h)
  · exact .inl (by simpa [setJob, Function.update_of_ne hu] using h)

/-- A worker takes an id, goes on with it or is done with it. -/
theorem Placed.setJob {s : State τ ρ} (h : Placed s) {messages : List Int32} {t : τ} {j : Job ρ}
    (hp : ∀ id, (({ s with messages := messages }.setJob t j).custody).Present id →
      s.custody.Present id)
    (hj : ∀ id reader, j = .reading id reader → (id, reader) ∈ s.owned) :
    Placed ({ s with messages := messages }.setJob t j) := by
  refine ⟨h.registered, fun id hpres => h.present id (hp id hpres), fun u id r hu => ?_⟩
  rcases job_setJob hu with hu | hu
  · exact h.reading u id r hu
  · exact hj id r hu

variable [DecidableEq ρ]

/-- What a step can be. -/
inductive Step (s : State τ ρ) : State τ ρ → Prop
  | add (reader : ρ) (h : reader ∉ s.owned.map Prod.snd) :
      Step s { s with
        lastId := s.lastId + 1
        owned := s.owned ++ [(s.lastId, reader)]
        inserting := s.inserting ++ [(s.lastId, reader)] }
  | insert {id : Int32} {reader : ρ} (h : (id, reader) ∈ s.inserting) :
      Step s { s with
        readers := s.readers.insert id ⟨reader, true, false⟩
        inserting := s.inserting.erase (id, reader) }
  | erase (id : Int32) (scan : Scan) :
      Step s { s with readers := s.readers.erase id, scan := scan }
  | scan (scan : Scan) : Step s { s with scan := scan }
  | post {id : Int32} {nsri : NetSelectReaderInfo ρ} (scan : Scan)
      (h : s.readers[id]? = some nsri) (hq : nsri.inQueue = false) :
      Step s { s with
        readers := s.readers.insert id { nsri with inQueue := true }
        messages := s.messages ++ [id]
        scan := scan }
  | take {t : τ} {id : Int32} {messages : List Int32} (ht : s.job t = .idle)
      (h : s.messages = id :: messages) :
      Step s ({ s with messages := messages }.setJob t (.taken id))
  | get {t : τ} {id : Int32} {reader : ρ} (ht : s.job t = .taken id) (h : s.get id = some reader) :
      Step s (s.setJob t (.reading id reader))
  | gone {t : τ} {id : Int32} (ht : s.job t = .taken id) : Step s (s.setJob t .idle)
  | read {t : τ} {id : Int32} {reader : ρ} (result : Bool) (ht : s.job t = .reading id reader) :
      Step s (s.setJob t (.finishing id result))
  | finish {t : τ} {id : Int32} {result : Bool} (ht : s.job t = .finishing id result) :
      Step s ((s.release id result).setJob t .idle)

theorem look_step (s : State τ ρ) (fd : ρ → Int) (rfds : List Int) (left closedList : List Int32)
    (id : Int32) : Step s (s.look fd rfds left closedList id) := by
  unfold look
  split
  · rename_i nsri h
    split
    · split
      · split
        · rename_i hq
          exact .post _ h (by simpa using hq.1)
        · exact .scan _
      · exact .scan _
    · exact .scan _
  · exact .scan _

theorem step_cases {s s' : State τ ρ} {e : Event τ ρ} (hs : s.step e = some s') : Step s s' := by
  cases e with
  | add reader =>
    obtain ⟨h, hs⟩ := Option.ite_none_left_eq_some.mp hs
    cases hs
    exact .add reader h
  | insert id reader =>
    obtain ⟨h, hs⟩ := Option.ite_none_right_eq_some.mp hs
    cases hs
    exact .insert h.2
  | kill id =>
    obtain ⟨-, hs⟩ := Option.ite_none_right_eq_some.mp hs
    cases hs
    exact .erase id s.scan
  | collect fd =>
    simp only [step] at hs
    split at hs
    · cases hs
      exact .scan _
    · cases hs
  | select ready =>
    simp only [step] at hs
    split at hs
    · obtain ⟨-, hs⟩ := Option.ite_none_right_eq_some.mp hs
      cases hs
      exact .scan _
    · cases hs
  | scan fd =>
    simp only [step] at hs
    split at hs
    · cases hs
      exact .scan _
    · cases hs
      exact look_step ..
    · cases hs
  | close =>
    simp only [step] at hs
    split at hs
    · cases hs
      exact .scan _
    · cases hs
      exact .erase _ _
    · cases hs
  | take t =>
    simp only [step] at hs
    split at hs
    · rename_i ht hm
      cases hs
      exact .take ht hm
    · cases hs
  | get t =>
    simp only [step] at hs
    split at hs
    · rename_i id ht
      obtain ⟨-, hs⟩ := Option.ite_none_right_eq_some.mp hs
      split at hs
      · rename_i reader h
        cases hs
        exact .get ht h
      · cases hs
        exact .gone ht
    · cases hs
  | read t result =>
    simp only [step] at hs
    split at hs
    · rename_i ht
      cases hs
      exact .read result ht
    · cases hs
  | finish t =>
    simp only [step] at hs
    split at hs
    · rename_i ht
      obtain ⟨-, hs⟩ := Option.ite_none_right_eq_some.mp hs
      cases hs
      exact .finish ht
    · cases hs

theorem Issued.step {s s' : State τ ρ} (h : Issued s) (hs : Step s s') : Issued s' := by
  cases hs with
  | add reader hr =>
    refine ⟨?_, ?_, ?_, ?_, ?_⟩
    · show s.lastId + 1 = _
      rw [h.lastId, List.length_append, List.length_singleton]
      exact (Int32.ofNat_add (s.owned.length + 1) 1).symm
    · show (s.owned ++ [(s.lastId, reader)]).map Prod.fst = _
      rw [List.map_append, h.ids, List.length_append, List.length_singleton, List.range_succ,
        List.map_append, h.lastId]
      rfl
    · show ((s.owned ++ [(s.lastId, reader)]).map Prod.snd).Nodup
      rw [List.map_append]
      refine List.nodup_append.mpr ⟨h.readers, List.nodup_singleton reader, ?_⟩
      intro a ha b hb hab
      rw [hab, List.mem_singleton.mp hb] at ha
      exact hr ha
    · exact List.append_subset.mpr ⟨fun x hx => List.mem_append_left _ (h.inserting hx),
        List.subset_append_right ..⟩
    · refine List.nodup_append.mpr ⟨h.once, List.nodup_singleton _, ?_⟩
      intro a ha b hb hab
      rw [hab, List.mem_singleton.mp hb] at ha
      exact hr (List.mem_map_of_mem (h.inserting ha))
  | insert hin =>
    exact ⟨h.lastId, h.ids, h.readers, fun x hx => h.inserting (List.mem_of_mem_erase hx),
      h.once.erase _⟩
  | _ => exact ⟨h.lastId, h.ids, h.readers, h.inserting, h.once⟩

theorem Placed.step {s s' : State τ ρ} (h : Placed s) (hi : Issued s) (hs : Step s s') :
    Placed s' := by
  cases hs with
  | add reader hr =>
    -- the new pair is none of the old ones
    have hnew : ∀ {id : Int32} {r : ρ}, (id, r) ∈ s.owned → (id, r) ∉ s.inserting →
        (id, r) ∈ s.owned ++ [(s.lastId, reader)] ∧
          (id, r) ∉ s.inserting ++ [(s.lastId, reader)] := by
      intro id r ho hins
      refine ⟨List.mem_append_left _ ho, fun hmem => ?_⟩
      rcases List.mem_append.mp hmem with hmem | hmem
      · exact hins hmem
      · cases List.mem_singleton.mp hmem
        exact hr (List.mem_map_of_mem ho)
    refine ⟨fun id nsri hn => ?_, fun id hp => ?_, fun t id r ht => ?_⟩
    · exact hnew (h.registered id nsri hn).1 (h.registered id nsri hn).2
    · obtain ⟨r, ho, hins⟩ := h.present id hp
      exact ⟨r, hnew ho hins⟩
    · exact List.mem_append_left _ (h.reading t id r ht)
  | @insert id reader hin =>
    refine ⟨fun id' nsri hn => ?_, fun id' hp => ?_, h.reading⟩
    · rcases TreeMap.of_getElem?_insert hn with ⟨rfl, rfl⟩ | ⟨-, hn⟩
      · exact ⟨hi.inserting hin, fun hmem => (hi.once.mem_erase_iff.mp hmem).1 rfl⟩
      · obtain ⟨ho, hins⟩ := h.registered id' nsri hn
        exact ⟨ho, fun hmem => hins (List.mem_of_mem_erase hmem)⟩
    · obtain ⟨r, ho, hins⟩ := h.present id' hp
      exact ⟨r, ho, fun hmem => hins (List.mem_of_mem_erase hmem)⟩
  | erase id scan =>
    exact ⟨fun id' nsri hn => h.registered id' nsri (TreeMap.of_getElem?_erase hn).2, h.present,
      h.reading⟩
  | scan scan => exact ⟨h.registered, h.present, h.reading⟩
  | @post id nsri scan hn hq =>
    refine ⟨fun id' nsri' hn' => ?_, fun id' hp => ?_, h.reading⟩
    · rcases TreeMap.of_getElem?_insert hn' with ⟨rfl, rfl⟩ | ⟨-, hn'⟩
      · exact h.registered id nsri hn
      · exact h.registered id' nsri' hn'
    · rcases Custody.present_put (c := s.custody) hp with hp | rfl
      · exact h.present id' hp
      · exact ⟨_, h.registered id' nsri hn⟩
  | @take t id messages ht hm =>
    refine h.setJob (fun id' hp => ?_) (by simp)
    rw [custody_setJob] at hp
    exact Custody.present_take (c := s.custody) (.of_eq hm) hp
  | @get t id reader ht hg =>
    obtain ⟨nsri, hn, rfl⟩ := get_some hg
    have hkeep := custody_keep (j := .reading id nsri.reader) (by rw [ht]; rfl)
    refine h.setJob (fun id' hp => hkeep ▸ hp) fun id' r hj => ?_
    cases hj
    exact (h.registered id nsri hn).1
  | @gone t id ht =>
    refine h.setJob (fun id' hp => ?_) (by simp)
    rw [custody_setJob] at hp
    exact Custody.present_of_drop (c := s.custody) hp
  | @read t id reader result ht =>
    have hkeep := custody_keep (j := .finishing id result) (by rw [ht]; rfl)
    exact h.setJob (fun id' hp => hkeep ▸ hp) (by simp)
  | @finish t id result ht =>
    refine ⟨fun id' nsri hn => ?_, fun id' hp => ?_, fun u id' r hu => ?_⟩
    · obtain ⟨old, hold, hr, -⟩ := getElem?_release hn
      rw [← hr]
      exact h.registered id' old hold
    · rw [custody_setJob] at hp
      exact h.present id' (Custody.present_of_drop (c := s.custody) hp)
    · rcases job_setJob hu with hu | hu
      · exact h.reading u id' r hu
      · cases hu

theorem Marked.step {s s' : State τ ρ} (h : Marked s) (hi : Issued s) (hp : Placed s)
    (hb : s.owned.length ≤ 2 ^ 32) (hs : Step s s') : Marked s' := by
  cases hs with
  | add reader hr => exact ⟨h.custody, h.inQueue⟩
  | @insert id reader hin =>
    refine ⟨h.custody, fun id' nsri hpres hn => ?_⟩
    rcases TreeMap.of_getElem?_insert hn with ⟨rfl, -⟩ | ⟨-, hn⟩
    · -- an id is not in use before its reader is in the map
      obtain ⟨r, ho, hins⟩ := hp.present id hpres
      have heq := List.inj_on_of_nodup_map (hi.ids_nodup hb) ho (hi.inserting hin) rfl
      rw [heq] at hins
      exact absurd hin hins
    · exact h.inQueue id' nsri hpres hn
  | erase id scan =>
    exact ⟨h.custody, fun id' nsri hpres hn =>
      h.inQueue id' nsri hpres (TreeMap.of_getElem?_erase hn).2⟩
  | scan scan => exact ⟨h.custody, h.inQueue⟩
  | @post id nsri scan hn hq =>
    have habsent : ¬s.custody.Present id := fun hpres => by
      have hmark := h.inQueue id nsri hpres hn
      rw [hq] at hmark
      cases hmark
    refine ⟨h.custody.put habsent, fun id' nsri' hpres hn' => ?_⟩
    rcases TreeMap.of_getElem?_insert hn' with ⟨-, rfl⟩ | ⟨hid, hn'⟩
    · rfl
    · rcases Custody.present_put (c := s.custody) hpres with hpres | rfl
      · exact h.inQueue id' nsri' hpres hn'
      · exact absurd rfl hid
  | @take t id messages ht hm =>
    refine ⟨?_, fun id' nsri hpres hn => ?_⟩
    · rw [custody_setJob]
      exact h.custody.take (.of_eq hm)
    · rw [custody_setJob] at hpres
      exact h.inQueue id' nsri (Custody.present_take (c := s.custody) (.of_eq hm) hpres) hn
  | @get t id reader ht hg =>
    have hkeep := custody_keep (j := .reading id reader) (by rw [ht]; rfl)
    exact ⟨hkeep ▸ h.custody, fun id' nsri hpres hn => h.inQueue id' nsri (hkeep ▸ hpres) hn⟩
  | @gone t id ht =>
    refine ⟨?_, fun id' nsri hpres hn => ?_⟩
    · rw [custody_setJob]
      exact h.custody.drop
    · rw [custody_setJob] at hpres
      exact h.inQueue id' nsri (Custody.present_of_drop (c := s.custody) hpres) hn
  | @read t id reader result ht =>
    have hkeep := custody_keep (j := .finishing id result) (by rw [ht]; rfl)
    exact ⟨hkeep ▸ h.custody, fun id' nsri hpres hn => h.inQueue id' nsri (hkeep ▸ hpres) hn⟩
  | @finish t id result ht =>
    have hhand : s.custody.hand t = some id := congrArg Job.id ht
    refine ⟨?_, fun id' nsri hpres hn => ?_⟩
    · rw [custody_setJob]
      exact h.custody.drop
    · -- the mark of no other id is taken back
      rw [custody_setJob] at hpres
      obtain ⟨old, hold, -, heq⟩ := getElem?_release hn
      rw [← heq (h.custody.ne_of_drop hhand hpres)]
      exact h.inQueue id' old (Custody.present_of_drop (c := s.custody) hpres) hold

theorem Step.owned_le {s s' : State τ ρ} (hs : Step s s') : s.owned.length ≤ s'.owned.length := by
  cases hs with
  | add reader hr => simp
  | _ => exact Nat.le_refl _

/-- As long as the counter of the ids has not come round: each id is in the queue or with one
worker, its reader is marked as long as it is there, and no reader is read by two workers. -/
theorem exclusive_of_run {s : State τ ρ} {log : List Empty}
    (run : machine.Run (fun _ _ _ => True) .new s log) (hb : s.owned.length ≤ 2 ^ 32) :
    s.Exclusive := by
  have h := run.invariant
    (P := fun s _ => Issued s ∧ Placed s ∧ (s.owned.length ≤ 2 ^ 32 → Marked s))
    ⟨issued_new, placed_new, fun _ => marked_new⟩ <| by
    intro s log e s' out h _ taken
    obtain ⟨t, ht, heq⟩ := Option.map_eq_some_iff.mp taken
    cases heq
    obtain ⟨hi, hp, hm⟩ := h
    have hs := step_cases ht
    refine ⟨hi.step hs, hp.step hi hs, fun hb => ?_⟩
    have hb := Nat.le_trans hs.owned_le hb
    exact (hm hb).step hi hp hb hs
  exact (h.2.2 hb).exclusive h.1 h.2.1

/-- A reader has data, and is read by one of two workers. -/
theorem exclusive_of_run_read :
    ∃ (s : State Bool Nat) (log : List Empty), machine.Run (fun _ _ _ => True) .new s log ∧
      s.owned.length = 1 ∧ s.job true = .reading 1 0 ∧ s.Exclusive := by
  have h : (machine.exec (fun (_ : State Bool Nat) _ _ => true) (.new, [])
      [.add 0, .insert 1 0, .collect fun _ => 3, .select [3], .scan fun _ => 3, .take true,
        .scan fun _ => 3, .get true]).map (fun r => (r.1.owned.length, r.1.job true)) =
      some (1, .reading 1 0) := by decide +kernel
  obtain ⟨⟨s, log⟩, hexec, heq⟩ := Option.map_eq_some_iff.mp h
  obtain ⟨howned, hjob⟩ := Prod.mk.inj heq
  have run := (Machine.Run.exec .start hexec).free
  exact ⟨s, log, run, howned, hjob, exclusive_of_run run (by rw [howned]; decide)⟩

/-- The id `1` is in the queue, and its reader was killed. -/
def leftBehind (lastId : Int32) (owned : List (Int32 × Nat)) : State Bool Nat :=
  ⟨lastId, ∅, owned, [], [1], .collecting, fun _ => .idle⟩

theorem leftBehind_run :
    ∃ log, machine.Run (fun _ _ _ => True) .new (leftBehind 2 [(1, 0)]) log := by
  have h : (machine.exec (fun (_ : State Bool Nat) _ _ => true) (.new, [])
      [.add 0, .insert 1 0, .collect fun _ => 3, .select [3], .scan fun _ => 3,
        .scan fun _ => 3, .close, .kill 1]).map (fun r => ((r.1.lastId, r.1.readers.isEmpty,
          r.1.owned, r.1.inserting), r.1.messages, r.1.scan, r.1.job false, r.1.job true)) =
      some ((2, true, [(1, 0)], []), [1], .collecting, .idle, .idle) := by rfl
  obtain ⟨⟨s, log⟩, hexec, heq⟩ := Option.map_eq_some_iff.mp h
  obtain ⟨lastId, readers, owned, inserting, messages, scan, job⟩ := s
  simp only [Prod.mk.injEq, ExtTreeMap.isEmpty_iff] at heq
  obtain ⟨⟨rfl, rfl, rfl, rfl⟩, rfl, rfl, hfalse, htrue⟩ := heq
  obtain rfl : job = fun _ => .idle := by
    funext t
    cases t
    · exact hfalse
    · exact htrue
  exact ⟨log, (Machine.Run.exec .start hexec).free⟩

/-- One more reader is added and killed. -/
theorem leftBehind_add {lastId : Int32} {owned : List (Int32 × Nat)} {log : List Empty}
    (run : machine.Run (fun _ _ _ => True) .new (leftBehind lastId owned) log)
    (howned : owned.map Prod.snd = List.range owned.length) :
    machine.Run (fun _ _ _ => True) .new
      (leftBehind (lastId + 1) (owned ++ [(lastId, owned.length)])) log := by
  have hfresh : owned.length ∉ owned.map Prod.snd := by simp [howned]
  have herase : ∀ x : NetSelectReaderInfo Nat,
      ((∅ : ExtTreeMap Int32 (NetSelectReaderInfo Nat)).insert lastId x).erase lastId = ∅ := by
    intro x
    refine ExtTreeMap.ext_getElem? fun k => ?_
    rw [ExtTreeMap.getElem?_erase, ExtTreeMap.getElem?_insert]
    split <;> simp
  let s₁ : State Bool Nat :=
    { leftBehind (lastId + 1) (owned ++ [(lastId, owned.length)]) with
      inserting := [(lastId, owned.length)] }
  let s₂ : State Bool Nat :=
    { leftBehind (lastId + 1) (owned ++ [(lastId, owned.length)]) with
      readers := ExtTreeMap.insert ∅ lastId ⟨owned.length, true, false⟩ }
  have e₁ : machine.step (leftBehind lastId owned) (.add owned.length) = some (s₁, []) := by
    exact congrArg (Option.map fun s => (s, [])) (if_neg hfresh)
  have e₂ : machine.step s₁ (.insert lastId owned.length) = some (s₂, []) := by
    simp [machine, step, leftBehind, unlocked, s₁, s₂]
  have e₃ : machine.step s₂ (.kill lastId) =
      some (leftBehind (lastId + 1) (owned ++ [(lastId, owned.length)]), []) := by
    simp [machine, step, leftBehind, unlocked, s₂, herase]
  have run₃ := ((run.step trivial e₁).step trivial e₂).step trivial e₃
  simpa only [List.append_nil] using run₃

theorem leftBehind_adds (n : Nat) :
    ∃ owned log, machine.Run (fun _ _ _ => True) .new (leftBehind (Int32.ofNat (n + 2)) owned) log ∧
      owned.map Prod.snd = List.range owned.length ∧ owned.length = n + 1 := by
  induction n with
  | zero =>
    obtain ⟨log, run⟩ := leftBehind_run
    exact ⟨[(1, 0)], log, run, rfl, rfl⟩
  | succ n ih =>
    obtain ⟨owned, log, run, howned, hlen⟩ := ih
    have run' := leftBehind_add run howned
    rw [show Int32.ofNat (n + 2) + 1 = Int32.ofNat (n + 1 + 2) from
      (Int32.ofNat_add (n + 2) 1).symm] at run'
    refine ⟨_, log, run', ?_, by simp [hlen]⟩
    rw [List.map_append, howned, List.length_append, List.length_singleton, List.range_succ]
    rfl

/-- When the counter has come round a new reader gets the id of an old one that is still in the
queue, and is read by two workers at once. -/
theorem read_twice :
    ∃ (s : State Bool Nat) (log : List Empty) (reader : Nat),
      machine.Run (fun _ _ _ => True) .new s log ∧
      s.job false = .reading 1 reader ∧ s.job true = .reading 1 reader ∧ ¬s.Exclusive := by
  obtain ⟨owned, log, run, howned, -⟩ := leftBehind_adds (2 ^ 32 - 1)
  have hone : Int32.ofNat (2 ^ 32 - 1 + 2) = 1 := by decide
  rw [hone] at run
  have hfresh : owned.length ∉ owned.map Prod.snd := by simp [howned]
  let s₁ : State Bool Nat :=
    { leftBehind 2 (owned ++ [(1, owned.length)]) with inserting := [(1, owned.length)] }
  let s₂ : State Bool Nat :=
    { leftBehind 2 (owned ++ [(1, owned.length)]) with
      readers := ExtTreeMap.insert ∅ 1 ⟨owned.length, true, false⟩ }
  have e₁ : machine.step (leftBehind 1 owned) (.add owned.length) = some (s₁, []) := by
    exact congrArg (Option.map fun s => (s, [])) (if_neg hfresh)
  have e₂ : machine.step s₁ (.insert 1 owned.length) = some (s₂, []) := by
    simp [machine, step, leftBehind, unlocked, s₁, s₂]
  have run₂ := (run.step trivial e₁).step trivial e₂
  have h : (machine.exec (fun _ _ _ => true) (s₂, log ++ [] ++ [])
      [.collect fun _ => 3, .select [3], .scan fun _ => 3, .scan fun _ => 3, .take false,
        .take true, .get false, .get true]).map (fun r => (r.1.job false, r.1.job true)) =
      some (.reading 1 owned.length, .reading 1 owned.length) := by rfl
  obtain ⟨⟨s, log'⟩, hexec, heq⟩ := Option.map_eq_some_iff.mp h
  obtain ⟨hfalse, htrue⟩ := Prod.mk.inj heq
  refine ⟨s, log', owned.length, (Machine.Run.exec (run₂.mono fun _ _ _ _ => rfl) hexec).free,
    hfalse, htrue, fun hex => ?_⟩
  exact Bool.false_ne_true (hex.read false true 1 1 owned.length hfalse htrue)

end State
end Epyx.NetSelect
