import Epyx.Lib.Machine
import Mathlib.Algebra.Group.Nat.Defs
import Std.Data.ExtTreeMap

/-! `core/actor-manager.cpp`, `core/actor-manager-detail.h` and `core/actor.cpp`: threads that call
the manager and workers that run the handlers of the actors, one access to shared data or one lock
at a time. -/
namespace Epyx.ActorManager
open Std (ExtTreeMap)

/-- `Actor*`: the place of the actor among those that were made. -/
abbrev Ptr := Nat

/-- A message in the queue: the id it was posted to, and whether it is the empty function. Each has
a number of its own. -/
structure Msg where
  serial : Nat
  id : UInt32
  empty : Bool
  deriving DecidableEq, Repr

/-- An actor, as far as the manager is concerned. -/
structure Actor (τ : Type*) where
  id : UInt32
  alive : Bool
  mutex : Option τ
  deleted : Bool

/-- Where a thread is in a call of `add` or `kill`. -/
inductive Call where
  /-- `add` has taken an id and waits for `actorsLock` -/
  | adding (p : Ptr) (i : UInt32)
  | inserting (p : Ptr) (i : UInt32)
  /-- `kill` waits for `actorsLock` -/
  | killing (i : UInt32)
  | marking (i : UInt32) (p : Ptr)
  /-- the empty message has still to be posted -/
  | poking (i : UInt32)
  deriving DecidableEq, Repr

/-- Where a thread is in `ActorWorkers::treat`. -/
inductive Job where
  | idle
  /-- waits for `actorsLock` -/
  | locking (m : Msg)
  /-- has `actorsLock` and waits for the lock of the actor it has found -/
  | waiting (m : Msg) (p : Ptr)
  | checking (m : Msg) (p : Ptr)
  | running (m : Msg) (p : Ptr)
  | deleting (i : UInt32) (p : Ptr)
  | erasing (i : UInt32)
  deriving DecidableEq, Repr

structure Thread where
  job : Job
  call : Option Call
  deriving DecidableEq, Repr

/-- A manager, its actors and the threads that use it. -/
structure State (τ : Type*) where
  actors : ExtTreeMap UInt32 Ptr
  actorsLock : Option τ
  actorCount : UInt32
  heap : Ptr → Actor τ
  made : Nat
  messages : List Msg
  posted : Nat
  thread : τ → Thread

/-- What a thread may do besides going on. -/
inductive Event where
  /-- calls of the user, or of a handler -/
  | add
  | kill (i : UInt32)
  | post (i : UInt32)
  /-- a worker takes a message -/
  | take (k : Nat)
  /-- a handler kills its own actor -/
  | selfKill
  | ret
  | next
  deriving DecidableEq, Repr

/-- What becomes of messages and actors. -/
inductive Out where
  | posted (m : Msg)
  | run (m : Msg) (p : Ptr)
  | refused (m : Msg)
  | returned (m : Msg) (p : Ptr)
  | deleted (p : Ptr)
  deriving DecidableEq, Repr

/-- Calls are made by threads that do nothing else, and by handlers. -/
def Thread.canCall (th : Thread) : Bool :=
  match th with
  | ⟨.idle, none⟩ | ⟨.running _ _, none⟩ => true
  | _ => false

namespace State
variable {τ : Type*}

def new : State τ where
  actors := ∅
  actorsLock := none
  actorCount := 0
  heap _ := ⟨0, false, none, false⟩
  made := 0
  messages := []
  posted := 0
  thread _ := ⟨.idle, none⟩

variable [DecidableEq τ]

@[simp] def setThread (s : State τ) (t : τ) (th : Thread) : State τ :=
  { s with thread := Function.update s.thread t th }

@[simp] def setJob (s : State τ) (t : τ) (j : Job) : State τ :=
  s.setThread t { s.thread t with job := j }

@[simp] def setCall (s : State τ) (t : τ) (c : Option Call) : State τ :=
  s.setThread t { s.thread t with call := c }

@[simp] def setActor (s : State τ) (p : Ptr) (a : Actor τ) : State τ :=
  { s with heap := Function.update s.heap p a }

/-- `WorkerPool::post` of a message to the actor `i`. -/
@[simp] def push (s : State τ) (i : UInt32) (empty : Bool) : State τ :=
  { s with messages := s.messages ++ [⟨s.posted, i, empty⟩], posted := s.posted + 1 }

/-- `ActorManager::add` of a new actor, up to the lock. -/
def beginAdd (s : State τ) (t : τ) : State τ :=
  { s with
    actorCount := s.actorCount + 1
    made := s.made + 1 }.setActor s.made { s.heap s.made with id := s.actorCount, alive := true }
    |>.setCall t (some (.adding s.made s.actorCount))

/-- `add` and `kill` go on. -/
def nextCall (s : State τ) (t : τ) : Call → Option (State τ × List Out)
  | .adding p i =>
    if s.actorsLock.isNone then
      some ({ s with actorsLock := some t }.setCall t (some (.inserting p i)), [])
    else none
  | .inserting p i =>
    some ({ s with actors := s.actors.insert i p, actorsLock := none }.setCall t none, [])
  | .killing i =>
    if s.actorsLock.isNone then
      match s.actors[i]? with
      | none => some (s.setCall t none, [])
      | some p => some ({ s with actorsLock := some t }.setCall t (some (.marking i p)), [])
    else none
  | .marking i p =>
    some ({ s.setActor p { s.heap p with alive := false } with actorsLock := none }.setCall t
      (some (.poking i)), [])
  | .poking i => some ((s.push i true).setCall t none, [.posted ⟨s.posted, i, true⟩])

/-- `ActorWorkers::treat` goes on. -/
def nextJob (s : State τ) (t : τ) : Job → Option (State τ × List Out)
  | .locking m =>
    if s.actorsLock.isNone then
      match s.actors[m.id]? with
      | none => some (s.setJob t .idle, [.refused m])
      | some p => some ({ s with actorsLock := some t }.setJob t (.waiting m p), [])
    else none
  | .waiting m p =>
    if (s.heap p).mutex.isNone then
      some ((s.setActor p { s.heap p with mutex := some t }).setJob t (.checking m p), [])
    else none
  | .checking m p =>
    if (s.heap p).alive then
      some ({ s with actorsLock := none }.setJob t (.running m p), [.run m p])
    else
      some ((s.setActor p { s.heap p with mutex := none }).setJob t (.deleting m.id p),
        [.refused m])
  | .deleting i p =>
    some ((s.setActor p { s.heap p with deleted := true }).setJob t (.erasing i), [.deleted p])
  | .erasing i =>
    some ({ s with actors := s.actors.erase i, actorsLock := none }.setJob t .idle, [])
  | .idle | .running _ _ => none

/-- What the thread `t` does at an event. -/
def step (s : State τ) (t : τ) : Event → Option (State τ × List Out)
  | .add => if (s.thread t).canCall then some (s.beginAdd t, []) else none
  | .kill i => if (s.thread t).canCall then some (s.setCall t (some (.killing i)), []) else none
  | .post i =>
    if (s.thread t).canCall then some (s.push i false, [.posted ⟨s.posted, i, false⟩]) else none
  | .take k =>
    if s.thread t = ⟨.idle, none⟩ then
      (s.messages[k]?).map fun m =>
        ({ s with messages := s.messages.eraseIdx k }.setJob t (.locking m), [])
    else none
  | .selfKill =>
    match s.thread t with
    | ⟨.running _ p, none⟩ =>
      some ((s.setActor p { s.heap p with alive := false }).setCall t
        (some (.poking (s.heap p).id)), [])
    | _ => none
  | .ret =>
    match s.thread t with
    | ⟨.running m p, none⟩ =>
      some ((s.setActor p { s.heap p with mutex := none }).setJob t .idle, [.returned m p])
    | _ => none
  | .next =>
    match (s.thread t).call with
    | some c => s.nextCall t c
    | none => s.nextJob t (s.thread t).job

end State

def machine (τ : Type*) [DecidableEq τ] : Lib.Machine (State τ) (τ × Event) Out where
  step s e := s.step e.1 e.2

end Epyx.ActorManager
