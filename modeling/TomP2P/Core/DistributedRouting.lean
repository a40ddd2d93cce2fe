import TomP2P.Core.ForkJoin
import TomP2P.Core.PeerSet

/-!
# Routing

How a peer finds the peers that are closest to a location. It asks peers it knows for
their neighbours, takes these into a queue, and asks the closest of the queue next, with
a number of requests in parallel. Every round waits for one success.

What a peer answers is taken for granted: the neighbours may be any peers, and the
sender may be any peer too. The neighbours of an answer stand for the peer statistics
that are found for them, which have the ids of the neighbours, in the order of a hash
set. There are no filters.

If there is no location the search goes for random peers: the first round takes its
peers from random places of the queue, and the location is then far away from the peer
that was asked last.

Which answers were evaluated is kept as history.

## Main definitions

* `NeighborResponse`: An answer.
* `RoutingMechanism`: The state of a search.
* `RoutingMechanism.merge`, `RoutingMechanism.evaluateSuccess`, `RoutingMechanism.evaluateFailed`:
  What comes of an answer.
* `DistributedRouting.routingRec`: The rounds.
* `DistributedRouting.routing`: The start of them.
-/

namespace TomP2P

open PeerMap

/-- The number of entries under a key and the hashes of all of them. -/
structure GlobalDigest where
  keyDigest : Option Number160
  contentDigest : Option Number160
  size : BitVec 32

/-- What a peer answers when it is asked for its neighbours. -/
structure NeighborResponse where
  sender : PeerAddress
  neighbors : List PeerAddress
  resultSize : Option (BitVec 32) := none
  keyDigest : Option Number160 := none
  contentDigest : Option Number160 := none

/-- When a search ends, and whether it is part of the bootstrap. -/
structure RoutingConfiguration where
  maxDirectHits : Int
  maxNoNewInfo : Int
  maxFailures : Int
  maxSuccess : Int
  parallel : Nat
  isBootstrap : Bool := false

/-- The peers that have the data, with what they have. -/
abbrev DirectHits := NavMap Number160 (PeerAddress × GlobalDigest)

/-- The result of a search. -/
structure FutureRouting (location : Number160) where
  directHits : DirectHits
  potentialHits : PeerSet location
  routingPath : PeerSet location
  isSuccess : Bool

/-- The state of a search for a location, or for random peers while there is none. -/
structure RoutingMechanism (location : Number160) where
  locationKey : Option Number160
  /-- Whether the round takes random peers. -/
  randomSearch : Bool
  isRoutingToOthers : Bool
  queueToAsk : PeerSet location
  alreadyAsked : PeerSet location
  directHits : DirectHits
  potentialHits : PeerSet location
  nrNoNewInfo : Int := 0
  nrFailures : Int := 0
  nrSuccess : Int := 0
  stopCreatingNewFutures : Bool := false
  futureRouting : Option (FutureRouting location) := none
  /-- The requests whose answers were evaluated. -/
  responses : List Nat := []

namespace RoutingMechanism

variable {location : Number160}

/-- The result is set once. The bootstrap has failed if nobody else was found. -/
def neighbors (c : RoutingConfiguration) (m : RoutingMechanism location) : RoutingMechanism location :=
  match m.futureRouting with
  | some _ => m
  | none =>
      let failed := c.isBootstrap && m.isRoutingToOthers && decide (m.potentialHits.size ≤ 1) &&
        decide (m.directHits.size = 0)
      { m with
        futureRouting := some
          { directHits := m.directHits
            potentialHits := m.potentialHits
            routingPath := m.alreadyAsked
            isSuccess := !failed } }

/-- A peer that has data is a hit, and what it has is kept with the address that is
    known. The answer is whether there are enough hits. -/
def evaluateDirectHits (location : Number160) (remotePeer : PeerAddress) (directHits : DirectHits)
    (digestBean : GlobalDigest) (maxDirectHits : Int) : Bool × DirectHits :=
  if 0 < digestBean.size.toInt then
    let d := distance location remotePeer.peerId
    let known := ((directHits.get d).map Prod.fst).getD remotePeer
    let directHits := directHits.put d (known, digestBean)
    (decide (maxDirectHits ≤ directHits.size), directHits)
  else (false, directHits)

/-- A peer would be the closest of the queue. -/
def isNew (queueToAsk : PeerSet location) (item : PeerAddress) : Bool :=
  if queueToAsk.contains item then false
  else (queueToAsk.peers.headMap (distance location item.peerId)).size = 0

/-- New peers are taken into the queue, unless they have been asked. The answer is
    whether one of them is closer than those in the queue. -/
def merge (queueToAsk : PeerSet location) (newPeers : List PeerAddress) (alreadyAsked : PeerSet location) :
    Bool × PeerSet location :=
  let result : PeerSet location :=
    (newPeers.filter fun newPeer => !alreadyAsked.contains newPeer).foldl PeerSet.update .empty
  match result.toList with
  | [] => (false, queueToAsk)
  | first :: _ => (isNew queueToAsk first, result.toList.foldl PeerSet.update queueToAsk)

/-- The answer is whether the search should stop, since too many answers in a row had
    nothing new. -/
def evaluateInformation (m : RoutingMechanism location) (newNeighbors : List PeerAddress) (maxNoNewInfo : Int) :
    Bool × RoutingMechanism location :=
  let merged := merge m.queueToAsk newNeighbors m.alreadyAsked
  let m := { m with queueToAsk := merged.2 }
  if merged.1 then (false, { m with nrNoNewInfo := 0 })
  else
    let m := { m with nrNoNewInfo := int (m.nrNoNewInfo + 1) }
    (decide (maxNoNewInfo ≤ m.nrNoNewInfo), m)

/-- An answer. The search ends at once if there are enough hits; otherwise, if it should
    stop, it ends when this was the last request. -/
def evaluateSuccess (c : RoutingConfiguration) (m : RoutingMechanism location) (remotePeer : PeerAddress)
    (digestBean : GlobalDigest) (newNeighbors : List PeerAddress) (last : Bool) : Bool × RoutingMechanism location :=
  let hits := evaluateDirectHits location remotePeer m.directHits digestBean c.maxDirectHits
  let m := { m with directHits := hits.2 }
  if hits.1 then (true, { m with stopCreatingNewFutures := true })
  else
    let m := { m with nrSuccess := int (m.nrSuccess + 1) }
    if c.maxSuccess < m.nrSuccess then (last, { m with stopCreatingNewFutures := true })
    else
      let information := m.evaluateInformation newNeighbors c.maxNoNewInfo
      if information.1 then (last, { information.2 with stopCreatingNewFutures := true })
      else (false, { information.2 with stopCreatingNewFutures := false })

/-- A round without success. -/
def evaluateFailed (c : RoutingConfiguration) (m : RoutingMechanism location) :
    Bool × RoutingMechanism location :=
  let m := { m with nrFailures := int (m.nrFailures + 1) }
  (decide (c.maxFailures < m.nrFailures), m)

end RoutingMechanism

namespace DistributedRouting

variable {location : Number160}

/-- The next peer of the queue, which has been asked from then on. -/
def pollNext (m : RoutingMechanism location) (pick : Nat) : Option (PeerAddress × RoutingMechanism location) :=
  if m.stopCreatingNewFutures then none
  else
    match (if m.randomSearch then m.queueToAsk.pollAt pick else m.queueToAsk.pollFirst) with
    | none => none
    | some (next, queueToAsk) =>
        let locationKey := if m.randomSearch then some (next.peerId.xor Number160.MAX_VALUE) else m.locationKey
        some (next, { m with
          queueToAsk := queueToAsk
          alreadyAsked := m.alreadyAsked.add next
          locationKey := locationKey })

/-- An answer is evaluated. -/
def evaluateResponse (c : RoutingConfiguration) (m : RoutingMechanism location) (active request : Nat)
    (lastResponse : NeighborResponse) : Bool × RoutingMechanism location :=
  let m := { m with
    potentialHits := m.potentialHits.add lastResponse.sender
    responses := m.responses ++ [request] }
  let digestBean : GlobalDigest :=
    { keyDigest := lastResponse.keyDigest
      contentDigest := lastResponse.contentDigest
      size := lastResponse.resultSize.getD 0 }
  m.evaluateSuccess c lastResponse.sender digestBean lastResponse.neighbors (active = 1)

/-- A round is evaluated. One that is a success has an answer, that of the last request
    that was evaluated. -/
def evaluateRound (c : RoutingConfiguration) (m : RoutingMechanism location) (active : Nat)
    (join : FutureForkJoin) (completed : List (FutureResponse PeerAddress NeighborResponse)) :
    Bool × RoutingMechanism location :=
  match join.isSuccess, join.forksCopy.getLast?, completed.getLast?.bind (·.answer) with
  | true, some request, some lastResponse => evaluateResponse c m active request lastResponse
  | _, _, _ =>
      let failed := m.evaluateFailed c
      (failed.1, { failed.2 with stopCreatingNewFutures := failed.1 })

/-- What comes of a round. -/
def operationComplete (c : RoutingConfiguration) (m : RoutingMechanism location) (active : Nat)
    (join : FutureForkJoin) (completed : List (FutureResponse PeerAddress NeighborResponse)) :
    Bool × RoutingMechanism location :=
  let evaluated := evaluateRound c m active join completed
  if evaluated.1 then (true, evaluated.2.neighbors c)
  else (false, { evaluated.2 with randomSearch := evaluated.2.locationKey.isNone })

/-- The rounds. -/
def routingRec (c : RoutingConfiguration) :
    Client (RoutingMechanism location) PeerAddress NeighborResponse where
  slots := fun _ => c.parallel
  next := pollNext
  enough := fun _ _ => 1
  idle := fun m => m.neighbors c
  react := operationComplete c
  cancels := true

/-- The location of a search for random peers is the peer itself. -/
def searchLocation (self : PeerAddress) (locationKey : Option Number160) : Number160 :=
  locationKey.getD self.peerId

/-- What the peer has itself makes it a hit. -/
def ownHits (location : Number160) (self : PeerAddress) (own : Option GlobalDigest) : DirectHits :=
  match own with
  | none => .empty
  | some digestBean =>
      if 0 < digestBean.size.toInt then NavMap.empty.put (distance location self.peerId) (self, digestBean)
      else .empty

/-- A search that starts with some peers. -/
def startRouting (self : PeerAddress) (locationKey : Option Number160) (own : Option GlobalDigest)
    (peerAddresses : List PeerAddress) : RoutingMechanism (searchLocation self locationKey) where
  locationKey := locationKey
  randomSearch := locationKey.isNone
  isRoutingToOthers := true
  queueToAsk := peerAddresses.foldl PeerSet.update .empty
  alreadyAsked := PeerSet.empty.add self
  directHits := ownHits (searchLocation self locationKey) self own
  potentialHits := PeerSet.empty.add self

/-- The start of a search, from some peers. `own` is what the peer has itself, if that
    counts. -/
def routing (c : RoutingConfiguration) (self : PeerAddress) (locationKey : Option Number160)
    (own : Option GlobalDigest) (peerAddresses : List PeerAddress) :
    Rounds (RoutingMechanism (searchLocation self locationKey)) PeerAddress NeighborResponse :=
  let m := startRouting self locationKey own peerAddresses
  let slots := List.replicate c.parallel none
  if c.maxDirectHits ≤ m.directHits.size then
    -- the result is told whether the search is random in place of its own parameters
    let m := { m with isRoutingToOthers := locationKey.isNone }
    { client := m.neighbors { c with isBootstrap := locationKey.isNone }, slots := slots, control := .ended }
  else
    match peerAddresses with
    | [] => { client := m.neighbors c, slots := slots, control := .ended }
    | [peer] => { client := { m with isRoutingToOthers := !peer.equals self }, slots := slots }
    | _ => { client := m, slots := slots }

end DistributedRouting

end TomP2P
