import Epyx.DHT.Actors
import Epyx.Lib.Machine

/-! A DHT node: `dht/internal-node.cpp`, `dht/process-actor.cpp`, `dht/static-actors.cpp`,
`dht/replicater-actor.cpp` and `dht/storage.cpp`. The manager runs one handler after the other
here; the messages and the timeouts it holds are taken in any order. -/
namespace Epyx.DHT
open N2NP (NodeId)
open Std (ExtTreeMap)

/-- What a node does that others can see, its own records of what its actors went through
included. -/
inductive Output where
  | send (dest : NodeId) (pkt : Packet)
  | query (actor : ActorId) (id : Int64) (query : Query)
  | onNewAnswer (actor : ActorId) (id : Int64) (answer : Answer)
  | onAnswerTimeout (actor : ActorId) (id : Int64)
  | call (actor : ActorId) (callback : Callback)
  | stored (key value : ByteStr)
  deriving DecidableEq, Repr

structure ProcessActor where
  alive : Bool
  queries : ExtTreeMap Int64 Bool
  role : Role

structure InternalNode where
  id : Id
  n2npId : NodeId
  /-- the ids `ActorManager::add` has given out; its counter has 32 bits and comes round, so that a
  run stands for one with at most 2^32 adds, the five of the constructor among them -/
  actorCount : ActorId
  actors : ExtTreeMap ActorId ProcessActor
  processActorsCount : Int64
  processActors : ExtTreeMap Int64 ActorId
  objects : Peers
  kbucket : KBucket
  storage : ExtTreeMap ByteStr ByteStr
  messages : List Message
  timeouts : List Message
  /-- what the step that is under way has put out so far -/
  out : List Output

/-- The content of a packet that asks, with the id it is asked under. -/
def Query.content (connectionId : Int32) : Query → Content
  | .find count idToFind => .find connectionId count idToFind
  | .get key => .get connectionId key
  | .store key value => .store connectionId key value

namespace InternalNode

/-- `InternalNode::InternalNode`: the constructor adds five actors, and does not initialise the
counter of the connection ids. -/
def new (id : Id) (n2npId : NodeId) (processActorsCount : Int64) : InternalNode where
  id := id
  n2npId := n2npId
  actorCount := 5
  actors := ∅
  processActorsCount := processActorsCount
  processActors := ∅
  objects := []
  kbucket := .new id
  storage := ∅
  messages := []
  timeouts := []
  out := []

def emit (n : InternalNode) (o : Output) : InternalNode := { n with out := n.out ++ [o] }

def post (n : InternalNode) (m : Message) : InternalNode := { n with messages := n.messages ++ [m] }

/-- `ActorId::timeout` -/
def arm (n : InternalNode) (m : Message) : InternalNode := { n with timeouts := n.timeouts ++ [m] }

/-- `DHT::Node::send`: the N2NP id is the one the peer has now. -/
def send (n : InternalNode) (content : Content) (dest : SPtr) : InternalNode :=
  n.emit (.send (n.objects.deref dest).n2npId ⟨n.id, content⟩)

/-! ### Process actors -/

/-- `InternalNode::registerNewConnectionId`; the id that is returned is the old counter. -/
def registerNewConnectionId (n : InternalNode) (a : ActorId) : InternalNode :=
  { n with
    processActorsCount := n.processActorsCount + 1
    processActors := n.processActors.insert n.processActorsCount a }

def unregisterConnectionId (n : InternalNode) (id : Int64) : InternalNode :=
  { n with processActors := n.processActors.erase id }

/-- `ProcessActor::sendQuery`: the `int` of the packet takes the id, a `long`. -/
def sendQuery (n : InternalNode) (a : ActorId) (p : ProcessActor) (peer : SPtr) (query : Query) :
    InternalNode × ProcessActor :=
  let connectionId := n.processActorsCount
  let n := (n.registerNewConnectionId a).emit (.query a connectionId query)
  let n := n.send (query.content connectionId.toInt32) peer
  (n.arm (.process a (.processTimeout connectionId)),
    { p with queries := p.queries.insert connectionId true })

/-- One thing a handler of the actor `a` does. -/
def perform (a : ActorId) (s : InternalNode × ProcessActor) : Action → InternalNode × ProcessActor
  | .sendQuery peer query => s.1.sendQuery a s.2 peer query
  | .post actor message => (s.1.post (.process actor message), s.2)
  | .timeout message => (s.1.arm message, s.2)
  | .call callback => (s.1.emit (.call a callback), s.2)
  | .kill => (s.1.post (.process a .empty), { s.2 with alive := false })

/-- A handler of the actor `a` does what it does; the manager has the actor back. -/
def run (n : InternalNode) (a : ActorId) (p : ProcessActor) (r : Role × List Action) :
    InternalNode :=
  let s := r.2.foldl (perform a) (n, { p with role := r.1 })
  { s.1 with actors := s.1.actors.insert a s.2 }

/-- The id an answer carries. -/
def answerId : Answer → Int32
  | .got connectionId _ _ | .stored connectionId _ | .found connectionId _ _ _ => connectionId

/-- `ProcessActor::treat("process receive")` -/
def treatReceive (n : InternalNode) (a : ActorId) (p : ProcessActor) (answer : Answer) :
    InternalNode :=
  let id := (answerId answer).toInt64
  if p.queries[id]? = some true then
    let n := (n.unregisterConnectionId id).emit (.onNewAnswer a id answer)
    n.run a { p with queries := p.queries.insert id false } (p.role.onNewAnswer n.objects answer)
  else n

/-- `ProcessActor::timeout("process timeout")` -/
def treatTimeout (n : InternalNode) (a : ActorId) (p : ProcessActor) (pNumber : Int64) :
    InternalNode :=
  if p.queries[pNumber]?.isSome then
    let n := (n.unregisterConnectionId pNumber).emit (.onAnswerTimeout a pNumber)
    n.run a { p with queries := p.queries.insert pNumber false } (p.role.onAnswerTimeout n.objects)
  else n

/-- `delete actor`: `ProcessActor::~ProcessActor` -/
def destroy (n : InternalNode) (a : ActorId) (p : ProcessActor) : InternalNode :=
  { p.queries.keys.foldl unregisterConnectionId n with actors := n.actors.erase a }

/-- Only the registry changes when ids are unregistered. -/
theorem foldl_unregister (ids : List Int64) (n : InternalNode) :
    ∃ r, ids.foldl unregisterConnectionId n = { n with processActors := r } := by
  induction ids generalizing n with
  | nil => exact ⟨_, rfl⟩
  | cons id ids ih =>
    obtain ⟨r, hr⟩ := ih (n.unregisterConnectionId id)
    exact ⟨r, hr⟩

/-- `ActorWorkers::treat`, for a message to a process actor. -/
def treatProcess (n : InternalNode) (a : ActorId) (m : ProcessMessage) : InternalNode :=
  match n.actors[a]? with
  | none => n
  | some p =>
    if p.alive then
      match m with
      | .receive _ answer => n.treatReceive a p answer
      | .processTimeout pNumber => n.treatTimeout a p pNumber
      | m => n.run a p (p.role.treat n.objects n.id m)
    else n.destroy a p

/-! ### Operations -/

def add (n : InternalNode) (role : Role) : InternalNode :=
  { n with
    actorCount := n.actorCount + 1
    actors := n.actors.insert n.actorCount ⟨true, ∅, role⟩ }.arm (.process n.actorCount .timeout)

/-- `InternalNode::findClosest`, with the `start` of the actor it adds. -/
def findClosest (n : InternalNode) (cb : FindCallback) (count : Int) (idToFind : Id) :
    Option InternalNode :=
  let f := FinderActor.new idToFind count cb
  (n.kbucket.findNearestNodes n.objects idToFind count).map fun nearest =>
    let r := f.start n.objects nearest
    (n.add (.finder f)).run n.actorCount ⟨true, ∅, .finder f⟩ (.finder r.1, r.2)

def GET_REDUNDANCY : Int := 10
def SET_REDUNDANCY : Int := 10

/-! `idForString` reads a string that is gone by then, so what it makes of a key is no function of
the key: `keyId` is what it gives in the call. -/

/-- `InternalNode::getValue`, with the `start` of the actor it adds. -/
def getValue (keyId : Id) (n : InternalNode) (key : ByteStr) : Option InternalNode :=
  (n.add (.getter (.new key))).findClosest (.search n.actorCount) GET_REDUNDANCY keyId

/-- `InternalNode::setValue`, with the `start` of the actor it adds. -/
def setValue (keyId : Id) (n : InternalNode) (cb : SetCallback) (key value : ByteStr) :
    Option InternalNode :=
  (n.add (.setter (.new key value cb))).findClosest (.search n.actorCount) SET_REDUNDANCY keyId

/-! ### Static actors -/

/-- `GetActor::treat` -/
def treatGet (n : InternalNode) (peer : SPtr) (connectionId : Int32) (key : ByteStr) :
    InternalNode :=
  match n.storage[key]? with
  | some value => n.send (.got connectionId 0 value) peer
  | none => n.send (.got connectionId 1 []) peer

/-- `Storage::set` -/
def storageSet (n : InternalNode) (key value : ByteStr) : InternalNode :=
  let newKey := n.storage[key]? = none
  let n := { n with storage := n.storage.insert key value }
  if newKey then n.post (.newKey key) else n

/-- `StoreActor::treat` -/
def treatStore (n : InternalNode) (peer : SPtr) (connectionId : Int32) (key value : ByteStr) :
    InternalNode :=
  ((n.emit (.stored key value)).storageSet key value).send (.stored connectionId 0) peer

/-- `FindActor::treat`. The answer has no count of its own. -/
def treatFind (n : InternalNode) (peer : SPtr) (connectionId count : Int32) (idToFind : Id) :
    Option InternalNode :=
  (n.kbucket.findNearestNodes n.objects idToFind count.toInt).map fun nearest =>
    n.send (.found connectionId 0 0 (nearest.map fun p => (n.objects.deref p).toPeer)) peer

/-- `ReplicaterActor::timeout("replicate")` -/
def treatReplicate (keyId : Id) (n : InternalNode) (key : ByteStr) : Option InternalNode :=
  match n.storage[key]? with
  | some value => n.setValue keyId (.replicater false key) key value
  | none => some n

def treat (keyId : Id) (n : InternalNode) : Message → Option InternalNode
  | .ping sender => some (n.send .pong sender)
  | .get sender connectionId key => some (n.treatGet sender connectionId key)
  | .store sender connectionId key value => some (n.treatStore sender connectionId key value)
  | .find sender connectionId count idToFind => n.treatFind sender connectionId count idToFind
  | .newKey key => some (n.arm (.replicate key))
  | .replicate key => n.treatReplicate keyId key
  | .process actor message => some (n.treatProcess actor message)

/-! ### Packets -/

def dispatchToProcessActor (n : InternalNode) (sender : SPtr) (answer : Answer) : InternalNode :=
  match n.processActors[(answerId answer).toInt64]? with
  | some a => n.post (.process a (.receive sender answer))
  | none => n

/-- `KBucket::seenPeer`, on the table of the node. -/
def seenPeer (n : InternalNode) (peerId : Id) (n2npId : NodeId) (now : Int) : InternalNode × SPtr :=
  let r := n.kbucket.seenPeer n.objects peerId n2npId now
  ({ n with kbucket := r.1, objects := r.2.1 }, r.2.2)

/-- The peers of a FOUND become objects when the packet is read. -/
def readPeers (n : InternalNode) (foundPeers : List Peer) : InternalNode × List SPtr :=
  ({ n with objects := n.objects ++ foundPeers.map fun p => ⟨p, 0⟩ },
    List.range' n.objects.length foundPeers.length)

def processPacket (n : InternalNode) (pkt : Packet) (senderId : NodeId) (now : Int) :
    InternalNode :=
  let (n, sender) := n.seenPeer pkt.from senderId now
  match pkt.content with
  | .ping => n.post (.ping sender)
  | .pong => n
  | .get connectionId key => n.post (.get sender connectionId key)
  | .store connectionId key value => n.post (.store sender connectionId key value)
  | .find connectionId count idToFind => n.post (.find sender connectionId count idToFind)
  | .got connectionId status value =>
    n.dispatchToProcessActor sender (.got connectionId status value)
  | .stored connectionId status => n.dispatchToProcessActor sender (.stored connectionId status)
  | .found connectionId status count foundPeers =>
    let (n, peers) := n.readPeers foundPeers
    n.dispatchToProcessActor sender (.found connectionId status count peers)

/-! ### The node as a machine -/

/-- What can happen to a node. -/
inductive Event where
  /-- a packet is received -/
  | receive (pkt : Packet) (senderId : NodeId) (now : Int)
  /-- the worker takes a message; `keyId` matters for one to replicate a key -/
  | work (k : Nat) (keyId : Id)
  /-- a timeout expires -/
  | expire (k : Nat)
  /-- the user calls a method of `DHT::Node` -/
  | sendPing (dest : NodeId)
  | findClosest (count : Int) (idToFind : Id)
  | getValue (key : ByteStr) (keyId : Id)
  | setValue (key value : ByteStr) (keyId : Id) (edit : List SPtr → List SPtr)

def handle (n : InternalNode) : Event → Option InternalNode
  | .receive pkt senderId now => some (n.processPacket pkt senderId now)
  | .work k keyId =>
    n.messages[k]?.bind ({ n with messages := n.messages.eraseIdx k }.treat keyId)
  | .expire k => n.timeouts[k]?.map ({ n with timeouts := n.timeouts.eraseIdx k }.post ·)
  | .sendPing dest => some (n.emit (.send dest ⟨n.id, .ping⟩))
  | .findClosest count idToFind => n.findClosest .user count idToFind
  | .getValue key keyId => n.getValue keyId key
  | .setValue key value keyId edit => n.setValue keyId (.user edit) key value

def machine : Lib.Machine InternalNode Event Output where
  step n e := (n.handle e).map fun n' => ({ n' with out := [] }, n'.out)

end InternalNode
end Epyx.DHT
