import TomP2P.Core.PeerMap
import TomP2P.Core.TrackerCaches

/-!
# A Tracker without a Peer

What a tracker does when a peer has left its map. Of each key for which both that peer and
the tracker itself are in the replication range, the announcements are pushed to another
peer: to the last one of those that are close to the location and closer than the peer that
left. If there is none, then asking for the last one is an error, and the keys that are
still to come are not looked at.

Who is in the replication range is decided with the peers that are in the map at the time,
and with the tracker.

## Main definitions

* `TrackerNeighbors`: What the storage knows of other peers.
* `TrackerNeighbors.isInReplicationRange`: The range of a location.
* `TrackerCaches.peerRemoved`: The reaction.
-/

namespace TomP2P

/-- What the storage was made with, and the peers that are in its map. -/
structure TrackerNeighbors where
  self : PeerAddress
  replicationFactor : Int
  /-- The id that the map was made with. -/
  peerMapSelf : Number160
  peerMapVerified : Nat → Bag
  /-- The exchange has been set. -/
  peerExchange : Bool := true

namespace TrackerNeighbors

open PeerMap

variable (n : TrackerNeighbors)

def closePeers (locationKey : Number160) : CloseSet :=
  PeerMap.closePeers n.peerMapSelf locationKey n.replicationFactor n.peerMapVerified

/-- The peers of a set that are closer to a location than a peer. -/
def headSet (locationKey : Number160) (peerAddress : PeerAddress) (set : CloseSet) : List PeerStatistic :=
  (set.entries.filter fun e => e.1 < distance locationKey peerAddress.peerId).map Prod.snd

def isInReplicationRange (locationKey : Number160) (peerAddress : PeerAddress) : Bool :=
  let tmp := addClose locationKey (n.closePeers locationKey) (.new 0 n.self)
  (headSet locationKey peerAddress tmp).length < n.replicationFactor

end TrackerNeighbors

/-- The announcements under a key are sent to a peer: the pairs that the `TrackerData` is
made of. -/
structure TrackerPush where
  remotePeer : PeerAddress
  key : Number320
  data : List (PeerAddress × Data)
  deriving DecidableEq

namespace TrackerCaches

variable {T : BitVec 32} (n : TrackerNeighbors) (now : Int) (remotePeer : PeerAddress)

/-- Both the peer that left and the tracker are in the range of the key. -/
def concerns (key : Number320) : Bool :=
  n.isInReplicationRange key.locationKey remotePeer && n.isInReplicationRange key.locationKey n.self

/-- The push for a key, and what is left under it. -/
def pushEntry (entry : Number320 × Announced T) : Except JavaException TrackerPush × Announced T :=
  match (TrackerNeighbors.headSet entry.1.locationKey remotePeer (n.closePeers entry.1.locationKey)).getLast? with
  | none => (.error .noSuchElement, entry.2)
  | some newResponsible =>
      let (values, announced) := entry.2.values now
      -- The values are read before the exchange is called.
      (if n.peerExchange then .ok ⟨newResponsible.peerAddress, entry.1, values⟩ else .error .nullPointer, announced)

/-- The loop over the keys: what was pushed, the map, and the exception that ended it. -/
def peerRemovedLoop : List (Number320 × Announced T) → List TrackerPush × Tracked T →
    List TrackerPush × Tracked T × Option JavaException
  | [], (pushes, map) => (pushes, map, none)
  | entry :: entries, (pushes, map) =>
      if concerns n remotePeer entry.1 then
        let (result, announced) := pushEntry n now remotePeer entry
        let map := map.setValue Number320.hashCode entry.1 announced
        match result with
        | .error e => (pushes, map, some e)
        | .ok push => peerRemovedLoop entries (pushes ++ [push], map)
      else peerRemovedLoop entries (pushes, map)

/-- A peer has left the map. -/
def peerRemoved (s : TrackerCaches T) : List TrackerPush × Option JavaException × TrackerCaches T :=
  let (entries, map) := s.dataMap.entrySet now
  let (pushes, map, exception) := peerRemovedLoop n now remotePeer entries ([], map)
  (pushes, exception, { s with dataMap := map })

end TrackerCaches

end TomP2P
