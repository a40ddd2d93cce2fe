import TomP2P.Core.PeerMap

/-!
# Round Trip Times

How long a peer takes to answer, as the routing table keeps it.

A request for neighbours has one `RTT`. It is recorded first hand for the peer that
responds, and then, by the listener of the request, for every neighbour that the peer
reports. For these it is an estimate. It is the same object all the time, so that what
is said of it is said wherever it was recorded. The objects are known by the number of
their request.

A statistic keeps the last five of them. The statistics are those of `PeerMap`; only
their caches are added here, each under the id of its peer. A statistic that leaves the
map takes its cache with it.

The call that starts the measurement is left to whoever sends the request.

## Main definitions

* `RTT`, `RTT.call`: A time, measured or estimated, and the calls that measure it.
* `CachedRtt`, `PeerStatistic.addRTT`: The cache of a statistic.
* `MeasuredMap`, `MeasuredMap.step`: A peer map with the caches, and the requests.
* `RttStatistic`: A peer with its last round trip times.
* `RttStatistic.getMeanRTT`, `RttStatistic.addRTT`: Their mean, and one more.
* `RTTPeerStatisticComparator.compare`: The comparator.
-/

namespace TomP2P

open Function

/-- A round trip time. -/
structure RTT where
  startMeasurementTimestamp : Int := -1
  rtt : Int := -1
  isUDP : Bool := true
  isEstimated : Bool := false
  deriving DecidableEq

namespace RTT

/-- The time in milliseconds. A time over TCP is divided by 3.5 and made an int. -/
def getRtt (r : RTT) : Int :=
  if r.isUDP then r.rtt else max (-2 ^ 31) (min (2 ^ 31 - 1) ((2 * r.rtt).tdiv 7))

def beginTimeMeasurement (r : RTT) (isUDP : Bool) (now : Int) : RTT :=
  if r.getRtt = -1 then { r with startMeasurementTimestamp := now, isUDP := isUDP } else r

def stopTimeMeasurement (r : RTT) (now : Int) : RTT :=
  if r.getRtt = -1 ∧ 0 < r.startMeasurementTimestamp then { r with rtt := now - r.startMeasurementTimestamp } else r

def setEstimated (r : RTT) : RTT := { r with isEstimated := true }

/-- The calls of a measurement. -/
inductive Call
  | beginTimeMeasurement (isUDP : Bool)
  | stopTimeMeasurement
  deriving DecidableEq

/-- What a call returns, and what it leaves. -/
def call (r : RTT) (now : Int) : Call → Bool × RTT
  | .beginTimeMeasurement isUDP => (decide (r.getRtt = -1), r.beginTimeMeasurement isUDP now)
  | .stopTimeMeasurement =>
      (decide (r.getRtt = -1 ∧ 0 < r.startMeasurementTimestamp), r.stopTimeMeasurement now)

/-- Calls, each with the time at which it is made, on a new object. -/
def measure (calls : List (Call × Int)) : RTT := calls.foldl (fun r e => (r.call e.2 e.1).2) {}

end RTT

/-- `add` of a queue of limited size. The oldest elements leave. -/
def FIFOCache.add {α : Type} (maxSize : Nat) (cache : List α) (e : α) : List α :=
  (cache ++ [e]).drop ((cache ++ [e]).length - maxSize)

/-- An `RTT` in the cache of a statistic. -/
structure CachedRtt where
  request : Nat
  /-- History: it was recorded first hand. -/
  firstHand : Bool
  deriving DecidableEq

/-- A response, or a part of it. -/
structure MeasuredResponse where
  sender : PeerAddress
  /-- `isOk` or `isNotOk` -/
  isOk : Bool
  isDone : Bool
  neighbors : List PeerAddress
  deriving DecidableEq

/-- A request for neighbours. -/
structure NeighborRequest where
  roundTripTime : RTT := {}
  /-- The sender of the response, and the neighbours that the listener has not come to. -/
  listener : Option (PeerAddress × List PeerAddress) := none
  /-- History: for which peers the time was recorded first hand. -/
  responders : List Number160 := []
  deriving DecidableEq

namespace PeerStatistic

def RTT_CACHE_SIZE : Nat := 5

/-- The first element is an estimate. -/
def containsEstimates (rtts : Nat → RTT) (rttCache : List CachedRtt) : Bool :=
  rttCache.head?.any fun e => (rtts e.request).isEstimated

/-- A measurement replaces estimates. An estimate is not added to measurements. -/
def addRTT (rtts : Nat → RTT) (rttCache : List CachedRtt) : Option CachedRtt → List CachedRtt
  | none => rttCache
  | some e =>
      let rtt := rtts e.request
      if 0 < rtt.getRtt then
        if containsEstimates rtts rttCache then
          FIFOCache.add RTT_CACHE_SIZE (if !rtt.isEstimated then [] else rttCache) e
        else if !rtt.isEstimated || rttCache.isEmpty then FIFOCache.add RTT_CACHE_SIZE rttCache e
        else rttCache
      else rttCache

end PeerStatistic

/-- A peer map, the caches of its statistics, and the requests. -/
structure MeasuredMap where
  peerMap : PeerMap
  rttVerified : Number160 → List CachedRtt := fun _ => []
  rttOverflow : Number160 → List CachedRtt := fun _ => []
  requests : Nat → NeighborRequest := fun _ => {}

/-- What can happen. A call without a round trip time is one of another RPC. -/
inductive RttEvent
  | start (request : Nat) (isUDP : Bool) (now : Int)
  | receive (request : Nat) (response : MeasuredResponse) (now : Int)
  /-- The listener reports the next neighbour. -/
  | report (request : Nat) (now : Int)
  | found (now : Int) (remotePeer : PeerAddress) (referrer : Option PeerAddress)
  | failed (now : Int) (remotePeer : PeerAddress) (reason : AbortCause)

namespace MeasuredMap

def rtts (s : MeasuredMap) (request : Nat) : RTT := (s.requests request).roundTripTime

def updateRequest (s : MeasuredMap) (request : Nat) (f : NeighborRequest → NeighborRequest) : MeasuredMap :=
  { s with requests := update s.requests request (f (s.requests request)) }

def setEstimated (s : MeasuredMap) (request : Nat) : MeasuredMap :=
  s.updateRequest request fun r => { r with roundTripTime := r.roundTripTime.setEstimated }

/-- Statistics that are not in the map any more are gone. -/
def collect (c : PeerMapConfiguration) (s : MeasuredMap) : MeasuredMap :=
  { s with
    rttVerified := fun id =>
      if (s.peerMap.peerMapVerified (PeerMap.bagOf c.self id)).contains id then s.rttVerified id else []
    rttOverflow := fun id =>
      if (s.peerMap.peerMapOverflow (PeerMap.bagOf c.self id)).contains id then s.rttOverflow id else [] }

/-! ### Finding a peer -/

/-- What `PeerMap.accept` does with a round trip time, for the peer map that it finds. -/
def acceptRtt (c : PeerMapConfiguration) (m : PeerMap) (s : MeasuredMap) (now : Int) (remotePeer : PeerAddress)
    (firstHand thirdHand direct : Bool) (roundTripTime : Option Nat) : MeasuredMap :=
  let id := remotePeer.peerId
  let bag := PeerMap.bagOf c.self id
  let rtt : Option CachedRtt := roundTripTime.map ({ request := ·, firstHand := firstHand })
  match PeerMap.updateExistingVerifiedPeerAddress (m.peerMapVerified bag) remotePeer firstHand now with
  | .error _ => s
  | .ok (some (_, updated)) =>
      if updated then
        { s with
          rttVerified := update s.rttVerified id (PeerStatistic.addRTT s.rtts (s.rttVerified id) rtt) }
      else s
  | .ok none =>
      if direct && decide (((m.peerMapVerified bag).size : Int) < (c.bagSizesVerified bag).toInt) then
        { s with rttVerified := update s.rttVerified id (PeerStatistic.addRTT s.rtts [] rtt) }
      else if firstHand then
        { s with
          rttOverflow := update s.rttOverflow id (PeerStatistic.addRTT s.rtts (s.rttOverflow id) rtt) }
      else if thirdHand then
        let s := roundTripTime.elim s s.setEstimated
        { s with
          rttOverflow := update s.rttOverflow id (PeerStatistic.addRTT s.rtts (s.rttOverflow id) rtt) }
      else s

/-- What `PeerMap.judge` does with a round trip time. -/
def judgeRtt (c : PeerMapConfiguration) (m : PeerMap) (s : MeasuredMap) (now : Int) (remotePeer : PeerAddress)
    (firstHand thirdHand direct : Bool) (roundTripTime : Option Nat) : MeasuredMap :=
  if remotePeer.peerId.isZero || c.self = remotePeer.peerId || PeerMap.reject c m remotePeer then s
  else if remotePeer.unreachable && !firstHand then s
  else
    let remotePeer := PeerAddress.With.apply remotePeer (.field (.unreachable false))
    let probablyDead := m.isPeerRemovedTemporarly now remotePeer.peerId
    if thirdHand && probablyDead.1 then s
    else acceptRtt c probablyDead.2 s now remotePeer firstHand thirdHand direct roundTripTime

/-- `peerFound` with a round trip time. -/
def peerFound (c : PeerMapConfiguration) (s : MeasuredMap) (now : Int) (remotePeer : PeerAddress)
    (referrer : Option PeerAddress) (roundTripTime : Option Nat) : MeasuredMap :=
  let firstHand := referrer.isNone
  let secondHand := PeerMap.reportsItself remotePeer referrer
  let thirdHand := !firstHand && !secondHand
  let direct := firstHand || (secondHand && !c.peerVerification)
  let m := if direct then s.peerMap.trust remotePeer.peerId else s.peerMap
  let s' := judgeRtt c m s now remotePeer firstHand thirdHand direct roundTripTime
  collect c { s' with peerMap := (PeerMap.peerFound c s.peerMap now remotePeer referrer).1 }

def peerFailed (c : PeerMapConfiguration) (s : MeasuredMap) (now : Int) (remotePeer : PeerAddress)
    (reason : AbortCause) : MeasuredMap :=
  collect c { s with peerMap := (PeerMap.peerFailed c s.peerMap now remotePeer reason).1 }

/-! ### Requests -/

/-- `channelRead0`: the response stops the time, which is recorded for its sender. The last
    part of the response calls the listener. -/
def receive (c : PeerMapConfiguration) (s : MeasuredMap) (request : Nat) (response : MeasuredResponse) (now : Int) :
    MeasuredMap :=
  let s := s.updateRequest request fun r => { r with roundTripTime := r.roundTripTime.stopTimeMeasurement now }
  let s :=
    if response.isOk then
      let s := s.updateRequest request fun r => { r with responders := response.sender.peerId :: r.responders }
      s.peerFound c now response.sender none (some request)
    else s
  if response.isDone then
    s.updateRequest request fun r =>
      { r with listener := some (response.sender, if response.isOk then response.neighbors else []) }
  else s

/-- The listener of `send` at one neighbour. -/
def report (c : PeerMapConfiguration) (s : MeasuredMap) (request : Nat) (sender neighbor : PeerAddress)
    (neighbors : List PeerAddress) (now : Int) : MeasuredMap :=
  let s := s.updateRequest request fun r => { r with listener := some (sender, neighbors) }
  (s.setEstimated request).peerFound c now neighbor (some sender) (some request)

def step (c : PeerMapConfiguration) (s : MeasuredMap) : RttEvent → Option MeasuredMap
  | .start request isUDP now => some (s.updateRequest request fun r =>
      { r with roundTripTime := r.roundTripTime.beginTimeMeasurement isUDP now })
  | .receive request response now =>
      if (s.requests request).listener.isNone then some (s.receive c request response now) else none
  | .report request now =>
      match (s.requests request).listener with
      | some (sender, neighbor :: neighbors) => some (s.report c request sender neighbor neighbors now)
      | _ => none
  | .found now remotePeer referrer => some (s.peerFound c now remotePeer referrer none)
  | .failed now remotePeer reason => some (s.peerFailed c now remotePeer reason)

/-- A new peer map. No request was made yet. -/
def Fresh (c : PeerMapConfiguration) (s : MeasuredMap) : Prop :=
  ∃ m, PeerMap.create c = .ok m ∧ s = { peerMap := m }

end MeasuredMap

/-! ### Sorting Peers by their Latency

The comparator that sorts the peers to ask by the bag they are in, seen from the key that is
looked for, and within a bag by how fast they answer.

The mean of the last round trip times is a `long`, and so is the sum it comes from. Without any
time it is minus one, and what is below zero counts as not available. Peers are equal if their
ids are, whatever their times.
-/

/-- What the comparator looks at. -/
structure RttStatistic where
  peerAddress : PeerAddress
  rttCache : List RTT := []
  deriving DecidableEq

namespace RttStatistic

def peerId (s : RttStatistic) : Number160 := s.peerAddress.peerId

/-- The sum of the times, a `long`. -/
def sumRTT (s : RttStatistic) : BitVec 64 :=
  s.rttCache.foldl (fun sum next => sum + BitVec.ofInt 64 next.getRtt) 0

def getMeanRTT (s : RttStatistic) : Int :=
  if s.rttCache.isEmpty then -1 else s.sumRTT.toInt.tdiv s.rttCache.length

def containsEstimates (s : RttStatistic) : Bool := s.rttCache.head?.any RTT.isEstimated

/-- A measurement replaces estimates. An estimate is not added to measurements. -/
def addRTT (s : RttStatistic) (rtt : RTT) : RttStatistic :=
  if 0 < rtt.getRtt then
    if s.containsEstimates then
      { s with rttCache :=
          FIFOCache.add PeerStatistic.RTT_CACHE_SIZE (if !rtt.isEstimated then [] else s.rttCache) rtt }
    else if !rtt.isEstimated || s.rttCache.isEmpty then
      { s with rttCache := FIFOCache.add PeerStatistic.RTT_CACHE_SIZE s.rttCache rtt }
    else s
  else s

end RttStatistic

namespace PeerMap

/-- Less if the first one is closer to the id. -/
def isKadCloser (id : Number160) (rn rn2 : PeerAddress) : Ordering :=
  (distance id rn.peerId).compareTo (distance id rn2.peerId)

/-- The same for the bags of the distances. -/
def classCloser (ln : Number160) (rn rn2 : PeerAddress) : Ordering :=
  compare (classMember ln rn.peerId) (classMember ln rn2.peerId)

end PeerMap

/-- `compare` of the comparator for a location. -/
def RTTPeerStatisticComparator.compare (location : Number160) (o1 o2 : RttStatistic) : Ordering :=
  if o1.peerAddress.equals o2.peerAddress then .eq
  else
    let firstComp := PeerMap.classCloser location o1.peerAddress o2.peerAddress
    if firstComp = .eq then
      if o1.getMeanRTT < 0 ∧ 0 ≤ o2.getMeanRTT then .gt
      else if 0 ≤ o1.getMeanRTT ∧ o2.getMeanRTT < 0 then .lt
      else if 0 ≤ o1.getMeanRTT ∧ 0 ≤ o2.getMeanRTT ∧ o1.getMeanRTT ≠ o2.getMeanRTT then
        Ord.compare o1.getMeanRTT o2.getMeanRTT
      else PeerMap.isKadCloser location o1.peerAddress o2.peerAddress
    else firstComp

end TomP2P
