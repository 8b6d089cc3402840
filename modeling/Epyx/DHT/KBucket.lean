import Epyx.DHT.Distance
import Epyx.DHT.Packet

/-! `dht/kbucket.cpp`: the routing table. Its peers are shared objects: whoever was given one sees
what the table writes to it later. -/
namespace Epyx.DHT
open N2NP (NodeId)

structure SharedPeer extends Peer where
  lastReceiveTime : Int
  deriving DecidableEq, Repr

/-- `Peer::SPtr`: the place of the object among those that were made. -/
abbrev SPtr := Nat

/-- `Peer::Peer()` -/
def SharedPeer.unset : SharedPeer := ⟨⟨.zero, .unset⟩, 0⟩

/-- The objects a node has made, by their pointers. -/
abbrev Peers := List SharedPeer

/-- `*p` -/
def Peers.deref (peers : Peers) (p : SPtr) : SharedPeer := peers.getD p .unset

/-- `std::vector<Bucket>` and the id it is built around. -/
structure KBucket where
  ownId : Id
  buckets : List (List SPtr)
  deriving DecidableEq, Repr

namespace KBucket

def NODES_PER_BUCKET : Nat := 20
def MAX_INACTIVE_PERIOD : Int := 15000

def new (self : Id) : KBucket := ⟨self, List.replicate 256 []⟩

/-- A full bucket gives up its oldest peer when that one has been silent for long. -/
def makeRoom (objects : Peers) (now : Int) (peers : List SPtr) : Bool × List SPtr :=
  if peers.length < NODES_PER_BUCKET then (true, peers)
  else
    match peers with
    | [] => (false, [])
    | front :: rest =>
      if now - (objects.deref front).lastReceiveTime > MAX_INACTIVE_PERIOD then (true, rest)
      else (false, front :: rest)

theorem makeRoom_sublist (objects : Peers) (now : Int) (peers : List SPtr) :
    (makeRoom objects now peers).2.Sublist peers := by
  unfold makeRoom
  split
  · exact .refl _
  · cases peers with
    | nil => exact .refl _
    | cons front rest =>
      dsimp only
      split
      · exact List.sublist_cons_self front rest
      · exact .refl _

/-- A bucket with room has less than the most it can have. -/
theorem makeRoom_lt {objects : Peers} {now : Int} {peers : List SPtr}
    (h : peers.length ≤ NODES_PER_BUCKET) (hroom : (makeRoom objects now peers).1) :
    (makeRoom objects now peers).2.length < NODES_PER_BUCKET := by
  unfold makeRoom at hroom ⊢
  split at hroom
  · rename_i hlt
    rwa [if_pos hlt]
  · rename_i hge
    rw [if_neg hge]
    cases peers with
    | nil => cases hroom
    | cons front rest =>
      dsimp only at hroom ⊢
      split at hroom
      · rename_i hold
        rw [if_pos hold]
        exact h
      · cases hroom

/-- `KBucket::seenPeer`, at the time `now`. -/
def seenPeer (k : KBucket) (objects : Peers) (peerId : Id) (n2npId : NodeId) (now : Int) :
    KBucket × Peers × SPtr :=
  let i := (Distance.between k.ownId peerId).firstActiveBit
  let peers := k.buckets.getD i []
  let seen : SharedPeer := ⟨⟨peerId, n2npId⟩, now⟩
  match peers.find? fun p => (objects.deref p).id = peerId with
  | some p =>
    ({ k with
        buckets := k.buckets.set i
          (peers.eraseP (fun p => (objects.deref p).id = peerId) ++ [p]) },
      objects.set p seen, p)
  | none =>
    let room := makeRoom objects now peers
    let newPeer := objects.length
    ({ k with buckets := k.buckets.set i (if room.1 then room.2 ++ [newPeer] else room.2) },
      objects ++ [seen], newPeer)

/-- `closest.push`: the queue is kept from the farthest to the nearest. -/
def enqueue (c : Distance × SPtr) : List (Distance × SPtr) → List (Distance × SPtr)
  | [] => [c]
  | x :: xs => if x.1.lt c.1 then c :: x :: xs else x :: enqueue c xs

/-- The body of the loop of `findNearestNodes`. `top()` of an empty queue is undefined. -/
def consider (objects : Peers) (id : Id) (n : Nat) (closest : List (Distance × SPtr)) (p : SPtr) :
    Option (List (Distance × SPtr)) := do
  let dist := Distance.between id (objects.deref p).id
  let closest ←
    if closest.length ≥ n then
      match closest with
      | [] => none
      | farthest :: rest => some (if dist.lt farthest.1 then rest else farthest :: rest)
    else some closest
  return if closest.length < n then enqueue (dist, p) closest else closest

/-- `KBucket::findNearestNodes`, into an empty vector. The number is compared as an
`unsigned long`. -/
def findNearestNodes (k : KBucket) (objects : Peers) (id : Id) (n : Int) : Option (List SPtr) :=
  (k.buckets.flatten.foldlM (consider objects id (toU64 n)) []).map (·.map Prod.snd)

end KBucket
end Epyx.DHT
