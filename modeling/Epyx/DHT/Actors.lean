import Epyx.DHT.KBucket
import Epyx.Lib.Heap

/-! The process actors of the DHT: `dht/finder-actor.cpp`, `dht/getter-actor.cpp` and
`dht/setter-actor.cpp`. A handler is a function of the actor: what it becomes, and what it does. -/
namespace Epyx.DHT
open Lib

/-- `ActorId`: the number the manager has given to an actor. -/
abbrev ActorId := Nat

/-- An answer, as `processPacket` dispatches it: the peers of a FOUND are objects by now. -/
inductive Answer where
  | got (connectionId status : Int32) (value : ByteStr)
  | stored (connectionId status : Int32)
  | found (connectionId status count : Int32) (foundPeers : List SPtr)
  deriving DecidableEq, Repr

/-- What a process actor asks its peers. -/
inductive Query where
  | find (count : Int32) (idToFind : Id)
  | get (key : ByteStr)
  | store (key value : ByteStr)
  deriving DecidableEq, Repr

/-- The messages of a process actor. The empty one makes the manager look at the actor once more. -/
inductive ProcessMessage where
  | receive (peer : SPtr) (answer : Answer)
  | processTimeout (pNumber : Int64)
  | timeout
  | findSuccess (peers : List SPtr)
  | findFailure
  | empty
  deriving DecidableEq, Repr

/-- The messages of the actors of a node. -/
inductive Message where
  | ping (sender : SPtr)
  | get (sender : SPtr) (connectionId : Int32) (key : ByteStr)
  | store (sender : SPtr) (connectionId : Int32) (key value : ByteStr)
  | find (sender : SPtr) (connectionId count : Int32) (idToFind : Id)
  | newKey (key : ByteStr)
  | replicate (key : ByteStr)
  | process (actor : ActorId) (message : ProcessMessage)
  deriving DecidableEq, Repr

/-- The calls of a user's callbacks. -/
inductive Callback where
  | onFound (result : List SPtr)
  | onFindError
  | onGot (key value : ByteStr)
  | onGetError
  | onFoundPeers (peers : List SPtr)
  | onSet
  | onSetError
  deriving DecidableEq, Repr

/-- What a handler of a process actor does besides changing the actor. -/
inductive Action where
  | sendQuery (peer : SPtr) (query : Query)
  | post (actor : ActorId) (message : ProcessMessage)
  | timeout (message : Message)
  | call (callback : Callback)
  | kill
  deriving DecidableEq, Repr

/-! ### The finder -/

/-- `FindCallback`: the user's, or that of the actor that has spawned the search. -/
inductive FindCallback where
  | user
  | search (parent : ActorId)
  deriving DecidableEq, Repr

abbrev ClosestQueue := List (Distance × SPtr)

structure FinderActor where
  foundPeers : ClosestQueue
  shortlist : ClosestQueue
  contactedPeers : List Distance
  countToFind : Int
  pendingRequests : Int
  requestedId : Id
  callback : FindCallback
  deriving DecidableEq, Repr

def FIND_NB_NODE_REQUESTED : Int32 := 5
def FIND_PARALLEL_QUERIES : Nat := 3

def FindCallback.onFound (result : ClosestQueue) : FindCallback → Action
  | .user => .call (.onFound (result.map Prod.snd))
  | .search parent => .post parent (.findSuccess (result.map Prod.snd))

def FindCallback.onError : FindCallback → Action
  | .user => .call .onFindError
  | .search parent => .post parent .findFailure

namespace FinderActor

def new (idToFind : Id) (count : Int) (cb : FindCallback) : FinderActor :=
  ⟨[], [], [], count, 0, idToFind, cb⟩

/-- `heap_comp` -/
def less (a b : Distance × SPtr) : Bool := a.1.lt b.1

def addToShortList (objects : Peers) (f : FinderActor) (p : SPtr) : FinderActor :=
  let dist := Distance.between f.requestedId (objects.deref p).id
  if f.shortlist.any (·.1 = dist) then f
  else
    let shortlist := Heap.push less f.shortlist (dist, p)
    { f with
      shortlist :=
        if shortlist.length > FIND_PARALLEL_QUERIES then Heap.pop less shortlist else shortlist }

def addToFoundPeers (objects : Peers) (f : FinderActor) (p : SPtr) : FinderActor :=
  let id := (objects.deref p).id
  if f.foundPeers.any fun x => (objects.deref x.2).id = id then f
  else
    let foundPeers := Heap.push less f.foundPeers (Distance.between f.requestedId id, p)
    { f with
      foundPeers :=
        if foundPeers.length > toU64 f.countToFind then Heap.pop less foundPeers else foundPeers }

def sendFindQueryTo (objects : Peers) (f : FinderActor) (p : SPtr) : FinderActor × List Action :=
  ({ f with
      contactedPeers :=
        Distance.between f.requestedId (objects.deref p).id :: f.contactedPeers
      pendingRequests := f.pendingRequests + 1 },
    [.sendQuery p (.find FIND_NB_NODE_REQUESTED f.requestedId)])

def sendNewQuery (objects : Peers) (f : FinderActor) : Option (FinderActor × List Action) :=
  (f.shortlist.find? fun x => x.1 ∉ f.contactedPeers).map fun x => sendFindQueryTo objects f x.2

def onResponse (objects : Peers) (f : FinderActor) : FinderActor × List Action :=
  let f := { f with pendingRequests := f.pendingRequests - 1 }
  match sendNewQuery objects f with
  | some r => r
  | none =>
    if f.pendingRequests = 0 then (f, [f.callback.onFound f.foundPeers, .kill]) else (f, [])

/-- The peers of a FOUND, or the nearest ones a search starts with. -/
def addPeers (objects : Peers) (f : FinderActor) (peers : List SPtr) : FinderActor :=
  peers.foldl (fun f p => addToFoundPeers objects (addToShortList objects f p) p) f

def onNewAnswer (objects : Peers) (f : FinderActor) : Answer → FinderActor × List Action
  | .found _ status count foundPeers =>
    onResponse objects (if status = 0 ∧ count > 0 then addPeers objects f foundPeers else f)
  | _ => onResponse objects f

def onAnswerTimeout (objects : Peers) (f : FinderActor) : FinderActor × List Action :=
  onResponse objects f

def timeout (f : FinderActor) : FinderActor × List Action := (f, [f.callback.onError, .kill])

/-- The queries a search starts with, one for each peer of the shortlist. -/
def sendQueries (objects : Peers) (f : FinderActor) : List SPtr → FinderActor × List Action
  | [] => (f, [])
  | p :: ps =>
    let r := sendFindQueryTo objects f p
    let t := sendQueries objects r.1 ps
    (t.1, r.2 ++ t.2)

/-- `FinderActor::start`, with the nearest nodes the routing table has found. -/
def start (objects : Peers) (f : FinderActor) (nearest : List SPtr) : FinderActor × List Action :=
  let f := addPeers objects f nearest
  sendQueries objects f (f.shortlist.map Prod.snd)

end FinderActor

/-! ### The getter -/

structure GetterActor where
  key : ByteStr
  pendingRequests : Int
  deriving DecidableEq, Repr

namespace GetterActor

/-- `GetterActor::GetterActor`. The number of requests is set before it is used. -/
def new (key : ByteStr) : GetterActor := ⟨key, 0⟩

def ask (g : GetterActor) (peer : SPtr) : Action := .sendQuery peer (.get g.key)

/-- `GetterActor::treat("find success")` -/
def treatFindSuccess (g : GetterActor) (peers : List SPtr) : GetterActor × List Action :=
  ({ g with pendingRequests := toInt32 peers.length }, peers.map g.ask)

/-- `GetterActor::timeout`, also `treat("find failure")` -/
def timeout (g : GetterActor) : GetterActor × List Action := (g, [.call .onGetError, .kill])

def onGetResponse (g : GetterActor) : GetterActor × List Action :=
  let g := { g with pendingRequests := g.pendingRequests - 1 }
  if g.pendingRequests = 0 then g.timeout else (g, [])

def onNewAnswer (g : GetterActor) : Answer → GetterActor × List Action
  | .got _ status value =>
    if status = 0 then (g, [.call (.onGot g.key value), .kill]) else g.onGetResponse
  | _ => g.onGetResponse

def onAnswerTimeout (g : GetterActor) : GetterActor × List Action := g.onGetResponse

end GetterActor

/-! ### The setter -/

/-- `SetCallback`: the user's, which may change the vector of peers it is shown, or that of the
replicater. -/
inductive SetCallback where
  | user (edit : List SPtr → List SPtr)
  | replicater (isHandlingKey : Bool) (key : ByteStr)

structure SetterActor where
  callback : SetCallback
  key : ByteStr
  value : ByteStr
  pendingRequests : Int
  nErrors : Int

def SET_ERROR_THRESHOLD : Int := 3

/-- `onFoundPeers` of the callback: the callback, the peers it leaves in the vector, and what it
does. The replicater looks for the node itself among them. -/
def SetCallback.onFoundPeers (objects : Peers) (self : Id) (peers : List SPtr) :
    SetCallback → SetCallback × List SPtr × List Action
  | .user edit => (.user edit, edit peers, [.call (.onFoundPeers peers)])
  | .replicater isHandlingKey key =>
    (.replicater (isHandlingKey || peers.any fun p => (objects.deref p).id = self) key, peers, [])

def SetCallback.onSet : SetCallback → List Action
  | .user _ => [.call .onSet]
  | .replicater isHandlingKey key => if isHandlingKey then [.timeout (.replicate key)] else []

def SetCallback.onError : SetCallback → List Action
  | .user _ => [.call .onSetError]
  | .replicater _ _ => []

namespace SetterActor

/-- `SetterActor::SetterActor`. The number of requests is set before it is used. -/
def new (key value : ByteStr) (cb : SetCallback) : SetterActor := ⟨cb, key, value, 0, 0⟩

def ask (s : SetterActor) (peer : SPtr) : Action := .sendQuery peer (.store s.key s.value)

/-- `SetterActor::treat("find success")` -/
def treatFindSuccess (objects : Peers) (self : Id) (s : SetterActor) (peers : List SPtr) :
    SetterActor × List Action :=
  let r := s.callback.onFoundPeers objects self peers
  ({ s with callback := r.1, pendingRequests := toInt32 r.2.1.length }, r.2.2 ++ r.2.1.map s.ask)

/-- `SetterActor::timeout`, also `treat("find failure")` -/
def timeout (s : SetterActor) : SetterActor × List Action := (s, s.callback.onError ++ [.kill])

def onSetReceive (s : SetterActor) : SetterActor × List Action :=
  let s := { s with pendingRequests := s.pendingRequests - 1 }
  if s.pendingRequests = 0 then
    if s.nErrors < SET_ERROR_THRESHOLD then (s, s.callback.onSet ++ [.kill]) else s.timeout
  else (s, [])

def onAnswerTimeout (s : SetterActor) : SetterActor × List Action :=
  onSetReceive { s with nErrors := s.nErrors + 1 }

def onNewAnswer (s : SetterActor) : Answer → SetterActor × List Action
  | .stored _ status =>
    if status ≠ 0 then onSetReceive { s with nErrors := s.nErrors + 1 } else s.onSetReceive
  | _ => onSetReceive { s with nErrors := s.nErrors + 1 }

end SetterActor

/-! ### Process actors -/

/-- The subclasses of `ProcessActor`. -/
inductive Role where
  | finder (f : FinderActor)
  | getter (g : GetterActor)
  | setter (s : SetterActor)

namespace Role

def onNewAnswer (objects : Peers) (answer : Answer) : Role → Role × List Action
  | .finder f => (f.onNewAnswer objects answer).map .finder id
  | .getter g => (g.onNewAnswer answer).map .getter id
  | .setter s => (s.onNewAnswer answer).map .setter id

def onAnswerTimeout (objects : Peers) : Role → Role × List Action
  | .finder f => (f.onAnswerTimeout objects).map .finder id
  | .getter g => g.onAnswerTimeout.map .getter id
  | .setter s => s.onAnswerTimeout.map .setter id

/-- The messages `ProcessActor` does not know of: the time the manager has given to the actor, and
the result of the search it has spawned. -/
def treat (objects : Peers) (self : Id) (message : ProcessMessage) : Role → Role × List Action
  | .finder f =>
    match message with
    | .timeout => f.timeout.map .finder id
    | _ => (.finder f, [])
  | .getter g =>
    match message with
    | .timeout | .findFailure => g.timeout.map .getter id
    | .findSuccess peers => (g.treatFindSuccess peers).map .getter id
    | _ => (.getter g, [])
  | .setter s =>
    match message with
    | .timeout | .findFailure => s.timeout.map .setter id
    | .findSuccess peers => (s.treatFindSuccess objects self peers).map .setter id
    | _ => (.setter s, [])

end Role
end Epyx.DHT
