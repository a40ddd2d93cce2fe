import TomP2P.Core.RoundTripTime
import TomP2P.Foundation.TreeSet

/-!
# The Queue of a Search by Latency

The peers to ask are kept in a tree that is sorted by a comparator, of the `PeerStatistic` objects
that the peer map hands out. These are shared: when a round trip time comes in, the object changes
where it is in the tree. For a peer that the map does not know there is a new object each time it is
reported.

`UpdatableTreeSet` takes out what compares equal before it adds an element, as long as it finds any.
All lookups go by what the objects say now.

Objects are numbers here, and a heap says what they hold. A poll and the note that the peer was asked
are one step, as nothing comes in between.

## Main definitions

* `UpdatableTreeSet.add`, `UpdatableTreeSet.addAll`: Adding to the tree.
* `RoutingMechanism.mergeStatistics`: New peers are taken into the queue.
* `RoutingQueue`, `RoutingQueue.step`: The queue with the heap, and what happens to them.
-/

namespace TomP2P

namespace UpdatableTreeSet

variable {α : Type} (balance : Rebalancing α) (compare : α → α → Ordering)

/-- The loop that removes an element while there is one. It ends after as many steps as there are
    elements. -/
def removeWhile : Nat → TreeSet α → α → TreeSet α
  | 0, s, _ => s
  | n + 1, s, e => if s.contains compare e then removeWhile n (s.remove balance compare e) e else s

def add (s : TreeSet α) (e : α) : TreeSet α :=
  (removeWhile balance compare s.size s e).add balance compare e

/-- `addAll` of a set that is sorted in the same way. An empty set takes it as it is. -/
def addAll (s c : TreeSet α) : TreeSet α :=
  if s.size = 0 then
    if c.size = 0 then s else { root := .ofSorted c.toList, modCount := s.modCount + 1 }
  else c.toList.foldl (add balance compare) s

end UpdatableTreeSet

namespace RoutingMechanism

variable {α : Type} (balance : Rebalancing α) (compare : α → α → Ordering)

/-- `isNew`: the element would be the first. -/
def isNewStatistic (queueToAsk : TreeSet α) (item : α) : Bool :=
  if queueToAsk.contains compare item then false
  else queueToAsk.toList.head?.all fun first => compare first item ≠ .lt

/-- `merge`. The answer is whether a new peer comes before those in the queue. -/
def mergeStatistics (queueToAsk : TreeSet α) (newPeers : List α) (alreadyAsked : α → Bool) : Bool × TreeSet α :=
  let result := (newPeers.filter fun newPeer => !alreadyAsked newPeer).foldl (UpdatableTreeSet.add balance compare) {}
  match result.toList with
  | [] => (false, queueToAsk)
  | first :: _ =>
      (isNewStatistic compare queueToAsk first, UpdatableTreeSet.addAll balance compare queueToAsk result)

end RoutingMechanism

/-- What happens to a queue. -/
inductive QueueEvent
  | merge (newPeers : List Nat)
  | pollFirst
  | pollRandom (index : Nat)
  | addRTT (statistic : Nat) (rtt : RTT)
  deriving DecidableEq

/-- The queue of a search, with the statistics and the ids that count as asked, in their order. -/
structure RoutingQueue where
  statistics : Nat → RttStatistic
  queueToAsk : TreeSet Nat := {}
  alreadyAsked : List Number160 := []

namespace RoutingQueue

variable (location : Number160) (balance : Rebalancing Nat)

def peerId (s : RoutingQueue) (statistic : Nat) : Number160 := (s.statistics statistic).peerId

/-- The comparator, which looks at what the statistics hold. -/
def compare (s : RoutingQueue) (o1 o2 : Nat) : Ordering :=
  RTTPeerStatisticComparator.compare location (s.statistics o1) (s.statistics o2)

/-- The ids in the queue. -/
def ids (s : RoutingQueue) : List Number160 := s.queueToAsk.toList.map s.peerId

/-- The peers that were reported and not asked. -/
def notAsked (s : RoutingQueue) (newPeers : List Nat) : List Nat :=
  newPeers.filter fun newPeer => !s.alreadyAsked.contains (s.peerId newPeer)

/-- A peer that was polled counts as asked. -/
def ask (s : RoutingQueue) (statistic : Nat) (queueToAsk : TreeSet Nat) : RoutingQueue :=
  { s with queueToAsk := queueToAsk, alreadyAsked := s.alreadyAsked ++ [s.peerId statistic] }

def step (s : RoutingQueue) : QueueEvent → RoutingQueue
  | .merge newPeers =>
      { s with
        queueToAsk := (RoutingMechanism.mergeStatistics balance (s.compare location) s.queueToAsk newPeers
          fun newPeer => s.alreadyAsked.contains (s.peerId newPeer)).2 }
  | .pollFirst =>
      match s.queueToAsk.pollFirst balance with
      | none => s
      | some (first, queueToAsk) => s.ask first queueToAsk
  | .pollRandom index =>
      match s.queueToAsk.toList[index]? with
      | none => s
      | some retVal => s.ask retVal (s.queueToAsk.remove balance (s.compare location) retVal)
  | .addRTT statistic rtt =>
      { s with statistics := Function.update s.statistics statistic ((s.statistics statistic).addRTT rtt) }

end RoutingQueue

end TomP2P
