import TomP2P.Core.AddressBuilder
import TomP2P.Core.CacheMap
import TomP2P.Foundation.NavMap

/-!
# The Peers a Peer Knows

The routing table of a peer: the peers it has verified and those it has not, in
bags by their XOR distance to the peer itself, and the peers it holds to be dead.

What is known of a peer depends on who told. First hand is an answer to a message
of our own, second hand is a message of the peer itself, third hand is a report by
another peer. Second hand counts as first hand unless the configuration asks for
verification.

There are three kinds of dead peers: those that are offline, those that shut down
and those that made an exception. Looking whether a peer is dead takes expired
entries out.

The bags are indexed by number, of which those below `Number160.BITS` are used.
Measured round trip times are left out, since nothing in the map depends on them,
and so are the listeners. The check that is repeated under the lock of a bag
cannot succeed without other threads.

## Main definitions

* `PeerStatistic`: A peer with what was observed of it.
* `PeerMapConfiguration`, `PeerMap`: The configuration and the state.
* `PeerMap.peerFound`, `PeerMap.peerFailed`: What changes it.
* `PeerMap.isPeerRemovedTemporarly`: Whether a peer is held to be dead.
* `PeerMap.closePeers`: The peers that are close to an id.
-/

namespace TomP2P

open Function

/-- A peer with what was observed of it. -/
structure PeerStatistic where
  peerId : Number160
  peerAddress : PeerAddress
  created : Int
  lastSeenOnline : Int := 0
  successfullyChecked : BitVec 32 := 0
  failed : BitVec 32 := 0
  numberOfResponses : BitVec 64 := 0
  deriving DecidableEq

namespace PeerStatistic

def new (now : Int) (peerAddress : PeerAddress) : PeerStatistic where
  peerId := peerAddress.peerId
  peerAddress := peerAddress
  created := now

/-- A successful check takes the failures back. -/
def check (s : PeerStatistic) (now : Int) : PeerStatistic :=
  { s with lastSeenOnline := now, failed := 0, successfullyChecked := s.successfullyChecked + 1 }

/-- One more failure. -/
def fail (s : PeerStatistic) : PeerStatistic := { s with failed := s.failed + 1 }

def increaseNumberOfResponses (s : PeerStatistic) : PeerStatistic :=
  { s with numberOfResponses := s.numberOfResponses + 1 }

/-- Only another address of the same peer is taken. -/
def setPeerAddress (s : PeerStatistic) (peerAddress : PeerAddress) : Except JavaException PeerStatistic :=
  if s.peerId ≠ peerAddress.peerId then
    .error (.illegalArgument "Can only update PeerAddress with the same peer ID.")
  else .ok { s with peerAddress := peerAddress }

end PeerStatistic

/-- Why contact to a peer failed. -/
inductive AbortCause
  | USER_ABORT
  | PEER_ERROR
  | PEER_ABORT
  | TIMEOUT
  | SHUTDOWN
  | PROBABLY_OFFLINE
  deriving DecidableEq

/-- The peers of one distance. -/
abbrev Bag := HashedMap Number160 PeerStatistic

/-- The peers that are held to be dead for one reason. -/
abbrev DeadPeers := ConcurrentCacheMap Number160 PeerAddress

structure PeerMap where
  peerMapVerified : Nat → Bag
  peerMapOverflow : Nat → Bag
  offlineMap : DeadPeers
  shutdownMap : DeadPeers
  exceptionMap : DeadPeers

/-- The configuration. The sizes are arrays with an entry for each bag, a filter
    looks at the map too. -/
structure PeerMapConfiguration where
  self : Number160
  bagSizesVerified : Nat → BitVec 32
  bagSizesOverflow : Nat → BitVec 32
  offlineTimeout : BitVec 32
  shutdownTimeout : BitVec 32
  exceptionTimeout : BitVec 32
  offlineCount : BitVec 32
  peerMapFilters : List (PeerAddress → PeerMap → Bool)
  peerVerification : Bool

namespace PeerMap

/-- The difference of two ids in bits, minus one. -/
def classMember (id1 id2 : Number160) : Int := ((id1.xor id2).bitLength : Int) - 1

/-- The bag of an id other than that of the peer itself. -/
def bagOf (self id : Number160) : Nat := (classMember self id).toNat

def totalNumberOfVerifiedBags (c : PeerMapConfiguration) : BitVec 32 :=
  (List.range Number160.BITS).foldl (fun sum i => sum + c.bagSizesVerified i) 0

/-- A hash map is not made with a negative capacity. -/
def initMap (bagSizes : Nat → BitVec 32) : Except JavaException Unit :=
  (List.range Number160.BITS).forM fun i =>
    let memAlloc := (bagSizes i).toInt.tdiv 8
    if memAlloc < 0 then .error (.illegalArgument ("Illegal initial capacity: " ++ toString memAlloc))
    else .ok ()

/-- A map without peers. -/
def fresh (c : PeerMapConfiguration) : PeerMap where
  peerMapVerified := fun _ => .empty
  peerMapOverflow := fun _ => .empty
  offlineMap := .create c.offlineTimeout.toInt (totalNumberOfVerifiedBags c).toInt
  shutdownMap := .create c.shutdownTimeout.toInt (totalNumberOfVerifiedBags c).toInt
  exceptionMap := .create c.exceptionTimeout.toInt (totalNumberOfVerifiedBags c).toInt

def create (c : PeerMapConfiguration) : Except JavaException PeerMap :=
  if c.self.isZero then .error (.illegalArgument "Zero or null are not a valid IDs")
  else
    match initMap c.bagSizesVerified with
    | .error e => .error e
    | .ok _ => .ok (fresh c)

/-! ### Dead peers -/

/-- The peer is held to be dead for one of the three reasons. The maps are looked
    at one after the other until one of them has the peer. -/
def isPeerRemovedTemporarly (m : PeerMap) (now : Int) (peerId : Number160) : Bool × PeerMap :=
  let offline := m.offlineMap.containsKey Number160.hashCode now peerId
  let m := { m with offlineMap := offline.2 }
  if offline.1 then (true, m)
  else
    let shutdown := m.shutdownMap.containsKey Number160.hashCode now peerId
    let m := { m with shutdownMap := shutdown.2 }
    if shutdown.1 then (true, m)
    else
      let exception := m.exceptionMap.containsKey Number160.hashCode now peerId
      (exception.1, { m with exceptionMap := exception.2 })

/-- The peer is not held to be offline or shut down any more. -/
def trust (m : PeerMap) (peerId : Number160) : PeerMap :=
  { m with
    offlineMap := m.offlineMap.remove Number160.hashCode peerId
    shutdownMap := m.shutdownMap.remove Number160.hashCode peerId }

/-! ### Finding a peer -/

def reject (c : PeerMapConfiguration) (m : PeerMap) (peerAddress : PeerAddress) : Bool :=
  c.peerMapFilters.any fun peerFilter => peerFilter peerAddress m

/-- What is known of a peer in a bag of verified peers is renewed at first hand.
    The answer is whether it was, and none if the peer is not there. -/
def updateExistingVerifiedPeerAddress (tmp : Bag) (peerAddress : PeerAddress) (firstHand : Bool)
    (now : Int) : Except JavaException (Option (Bag × Bool)) :=
  match tmp.get peerAddress.peerId with
  | none => .ok none
  | some old =>
      if firstHand then
        match old.setPeerAddress peerAddress with
        | .error e => .error e
        | .ok updated =>
            .ok (some (tmp.put peerAddress.peerId (updated.check now).increaseNumberOfResponses, true))
      else .ok (some (tmp, false))

/-- A verified peer leaves the overflow. -/
def insertVerified (m : PeerMap) (bag : Nat) (now : Int) (remotePeer : PeerAddress) : PeerMap :=
  { m with
    peerMapVerified := update m.peerMapVerified bag
      ((m.peerMapVerified bag).put remotePeer.peerId ((PeerStatistic.new now remotePeer).check now))
    peerMapOverflow := update m.peerMapOverflow bag
      ((m.peerMapOverflow bag).remove remotePeer.peerId) }

/-- What is known of the peer in the overflow, or a start of it. -/
def insertOverflow (c : PeerMapConfiguration) (m : PeerMap) (bag : Nat) (now : Int)
    (remotePeer : PeerAddress) (firstHand : Bool) : PeerMap :=
  let known := ((m.peerMapOverflow bag).get remotePeer.peerId).getD (PeerStatistic.new now remotePeer)
  let peerStatistic := if firstHand then known.check now else known
  { m with
    peerMapOverflow := update m.peerMapOverflow bag
      (CacheMap.put (c.bagSizesOverflow bag).toInt (m.peerMapOverflow bag) remotePeer.peerId
        peerStatistic) }

/-- A peer that is not rejected. `direct` is whether the peer may be verified. -/
def accept (c : PeerMapConfiguration) (m : PeerMap) (now : Int) (remotePeer : PeerAddress)
    (firstHand direct : Bool) : PeerMap × Except JavaException Bool :=
  let bag := bagOf c.self remotePeer.peerId
  match updateExistingVerifiedPeerAddress (m.peerMapVerified bag) remotePeer firstHand now with
  | .error e => (m, .error e)
  | .ok (some (tmp, updated)) =>
      ({ m with peerMapVerified := update m.peerMapVerified bag tmp }, .ok updated)
  | .ok none =>
      if direct && decide (((m.peerMapVerified bag).size : Int) < (c.bagSizesVerified bag).toInt) then
        (m.insertVerified bag now remotePeer, .ok true)
      else (m.insertOverflow c bag now remotePeer firstHand, .ok true)

/-- The peer itself is the one that told. -/
def reportsItself (remotePeer : PeerAddress) : Option PeerAddress → Bool
  | none => false
  | some referrer => remotePeer.equals referrer

/-- Whether a peer is rejected. A peer that is not reachable has answered us at
    first hand, so that it is not firewalled. -/
def judge (c : PeerMapConfiguration) (m : PeerMap) (now : Int) (remotePeer : PeerAddress)
    (firstHand thirdHand direct : Bool) : PeerMap × Except JavaException Bool :=
  if remotePeer.peerId.isZero || c.self = remotePeer.peerId || reject c m remotePeer then (m, .ok false)
  else if remotePeer.unreachable && !firstHand then (m, .ok false)
  else
    let remotePeer := PeerAddress.With.apply remotePeer (.field (.unreachable false))
    let probablyDead := m.isPeerRemovedTemporarly now remotePeer.peerId
    if thirdHand && probablyDead.1 then (probablyDead.2, .ok false)
    else accept c probablyDead.2 now remotePeer firstHand direct

/-- A peer is found: at first hand, or as the referrer tells. -/
def peerFound (c : PeerMapConfiguration) (m : PeerMap) (now : Int) (remotePeer : PeerAddress)
    (referrer : Option PeerAddress) : PeerMap × Except JavaException Bool :=
  let firstHand := referrer.isNone
  let secondHand := reportsItself remotePeer referrer
  let thirdHand := !firstHand && !secondHand
  let direct := firstHand || (secondHand && !c.peerVerification)
  -- what is first hand is always trusted
  judge c (if direct then m.trust remotePeer.peerId else m) now remotePeer firstHand thirdHand direct

/-! ### Failing to contact a peer -/

/-- One more failure of a peer that is in the bag. The answer is whether that
    makes it offline. -/
def updatePeerStatistic (remotePeer : PeerAddress) (tmp : Bag) (maxFail : BitVec 32) : Bool × Bag :=
  match tmp.get remotePeer.peerId with
  | none => (false, tmp)
  | some peerStatistic =>
      (decide (maxFail.toInt ≤ peerStatistic.fail.failed.toInt), tmp.put remotePeer.peerId peerStatistic.fail)

/-- The peer is held to be dead for this reason. -/
def bury (m : PeerMap) (now : Int) (remotePeer : PeerAddress) : AbortCause → PeerMap
  | .PROBABLY_OFFLINE =>
      { m with offlineMap := m.offlineMap.put Number160.hashCode now remotePeer.peerId remotePeer }
  | .SHUTDOWN =>
      { m with shutdownMap := m.shutdownMap.put Number160.hashCode now remotePeer.peerId remotePeer }
  | _ =>
      { m with exceptionMap := m.exceptionMap.put Number160.hashCode now remotePeer.peerId remotePeer }

/-- The peer leaves both maps. The answer is whether it was verified. -/
def removePeer (m : PeerMap) (bag : Nat) (peerId : Number160) : PeerMap × Bool :=
  ({ m with
     peerMapVerified := update m.peerMapVerified bag ((m.peerMapVerified bag).remove peerId)
     peerMapOverflow := update m.peerMapOverflow bag ((m.peerMapOverflow bag).remove peerId) },
   (m.peerMapVerified bag).contains peerId)

/-- A failure of a verified peer. -/
def countVerified (m : PeerMap) (c : PeerMapConfiguration) (remotePeer : PeerAddress) : Bool × PeerMap :=
  let bag := bagOf c.self remotePeer.peerId
  let counted := updatePeerStatistic remotePeer (m.peerMapVerified bag) c.offlineCount
  (counted.1, { m with peerMapVerified := update m.peerMapVerified bag counted.2 })

/-- A failure of a peer in the overflow. -/
def countOverflow (m : PeerMap) (c : PeerMapConfiguration) (remotePeer : PeerAddress) : Bool × PeerMap :=
  let bag := bagOf c.self remotePeer.peerId
  let counted := updatePeerStatistic remotePeer (m.peerMapOverflow bag) c.offlineCount
  (counted.1, { m with peerMapOverflow := update m.peerMapOverflow bag counted.2 })

/-- The peer is held to be dead and leaves the bags. -/
def forceFailed (m : PeerMap) (c : PeerMapConfiguration) (now : Int) (remotePeer : PeerAddress)
    (reason : AbortCause) : PeerMap × Bool :=
  (m.bury now remotePeer reason).removePeer (bagOf c.self remotePeer.peerId) remotePeer.peerId

/-- A timeout counts, anything else removes the peer at once. -/
def peerFailed (c : PeerMapConfiguration) (m : PeerMap) (now : Int) (remotePeer : PeerAddress)
    (reason : AbortCause) : PeerMap × Bool :=
  if remotePeer.peerId.isZero || c.self = remotePeer.peerId then (m, false)
  else if reason ≠ .TIMEOUT then m.forceFailed c now remotePeer reason
  else
    let verified := m.countVerified c remotePeer
    if verified.1 then verified.2.forceFailed c now remotePeer .PROBABLY_OFFLINE
    else
      let overflow := verified.2.countOverflow c remotePeer
      if overflow.1 then overflow.2.forceFailed c now remotePeer .PROBABLY_OFFLINE
      else (overflow.2, false)

/-! ### Looking for close peers -/

def distance (id1 id2 : Number160) : Number160 := id1.xor id2

/-- A set that is sorted by the distance to an id, by that distance. -/
abbrev CloseSet := NavMap Number160 PeerStatistic

/-- A peer at a distance that is there already is not added. -/
def addClose (other : Number160) (set : CloseSet) (peerStatistic : PeerStatistic) : CloseSet :=
  let d := distance other peerStatistic.peerAddress.peerId
  if set.contains d then set else set.put d peerStatistic

/-- Adds all peers of a bag. The answer is whether there are enough. -/
def fillSet (other : Number160) (atLeast : Int) (set : CloseSet) (tmp : Bag) : Bool × CloseSet :=
  let set := (tmp.entries.map Prod.snd).foldl (addClose other) set
  (decide (atLeast ≤ set.size), set)

/-- Adds bags until there are enough. -/
def fillUntil (other : Number160) (atLeast : Int) (peerMap : Nat → Bag) : List Nat → CloseSet → CloseSet
  | [], set => set
  | j :: js, set =>
      let filled := fillSet other atLeast set (peerMap j)
      if filled.1 then filled.2 else fillUntil other atLeast peerMap js filled.2

/-- Adds all bags. The answer is that of the last one. -/
def fillAll (other : Number160) (atLeast : Int) (peerMap : Nat → Bag) (is : List Nat)
    (start : Bool × CloseSet) : Bool × CloseSet :=
  is.foldl (fun filled i => fillSet other atLeast filled.2 (peerMap i)) start

/-- The peers close to `other`: from the bag of `other`, from those below it, from
    those above it, until there are enough. -/
def closePeers (self other : Number160) (atLeast : Int) (peerMap : Nat → Bag) : CloseSet :=
  let bag := classMember self other
  if bag = -1 then fillUntil other atLeast peerMap (List.range Number160.BITS) .empty
  else
    let bag := bag.toNat
    let first := fillSet other atLeast .empty (peerMap bag)
    if first.1 then first.2
    else
      let below := fillAll other atLeast peerMap (List.range bag) (false, first.2)
      if below.1 then below.2
      else
        (fillAll other atLeast peerMap (List.range' (bag + 1) (Number160.BITS - (bag + 1)))
          (false, below.2)).2

end PeerMap

end TomP2P
