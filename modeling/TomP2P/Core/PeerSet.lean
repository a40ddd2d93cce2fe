import TomP2P.Core.PeerMap

/-!
# Sets of Peers Ordered by Distance

The sets that routing works with: peers in the order of their distance to a location.
The comparator looks at nothing but the distance, so that a set has at most one
address for each id.

A set that has a peer keeps the address it has (`PeerSet.add`), except for the queue of
peers to ask, which takes the new one (`PeerSet.update`).

## Main definitions

* `PeerSet`: Peers ordered by their distance to a location.
* `PeerSet.add`, `PeerSet.update`, `PeerSet.remove`: Changing a set.
* `PeerSet.pollFirst`, `PeerSet.pollAt`: Taking a peer out of it.
-/

namespace TomP2P

open PeerMap

/-- Peers in the order of their distance to a location. -/
structure PeerSet (location : Number160) where
  peers : NavMap Number160 PeerAddress
  /-- The order is that of the distance. -/
  keyed : ∀ e ∈ peers.entries, e.1 = distance location e.2.peerId

namespace PeerSet

variable {location : Number160}

def empty : PeerSet location := ⟨.empty, fun _ h => absurd h List.not_mem_nil⟩

/-- The peers, closest first. -/
def toList (s : PeerSet location) : List PeerAddress := s.peers.values

def ids (s : PeerSet location) : List Number160 := s.toList.map (·.peerId)

def size (s : PeerSet location) : Nat := s.peers.size

def contains (s : PeerSet location) (p : PeerAddress) : Bool := s.peers.contains (distance location p.peerId)

/-- A peer that is there already is replaced. -/
def update (s : PeerSet location) (p : PeerAddress) : PeerSet location where
  peers := s.peers.put (distance location p.peerId) p
  keyed := by
    intro e he
    rcases (NavMap.mem_put _ _ _ e).mp he with rfl | he
    · rfl
    · exact s.keyed e he.1

/-- A peer that is there already stays. -/
def add (s : PeerSet location) (p : PeerAddress) : PeerSet location :=
  if s.contains p then s else s.update p

def remove (s : PeerSet location) (p : PeerAddress) : PeerSet location where
  peers := s.peers.remove (distance location p.peerId)
  keyed := fun e he => s.keyed e (List.mem_filter.mp he).1

/-- The closest peer is taken out. -/
def pollFirst (s : PeerSet location) : Option (PeerAddress × PeerSet location) :=
  s.toList.head?.map fun p => (p, s.remove p)

/-- The peer at a random place is taken out. -/
def pollAt (s : PeerSet location) (pick : Nat) : Option (PeerAddress × PeerSet location) :=
  s.toList[pick % s.size]?.map fun p => (p, s.remove p)

end PeerSet

end TomP2P
