import TomP2P.Core.PeerMap

/-!
# Which Peer to Check Next

Peers are checked from time to time. How often depends on how long a peer has been online: the
array of intervals, in seconds, has the one that is at least as long. A peer that was never
seen longer than a second is checked with the first interval.

The bags are gone through from the closest one on. A bag of too few verified peers makes its
unverified peers urgent, and then one of them comes first. Of each map it is the first peer in
need that is looked at.

All peers are looked at with the same clock. The maps are there only after `init`. What is
passed to `isUrgent` besides the size of the bag is for subclasses.

## Main definitions

* `PeerStatistic.onlineTime`: How long a peer has been online, as an `int`.
* `DefaultMaintenance.needMaintenance`: Whether a peer is to be checked.
* `DefaultMaintenance.nextForMaintenance`: The peer that is to be checked next.
-/

namespace TomP2P

/-- The time between the start of the statistic and the last sight, narrowed to an `int`. -/
def PeerStatistic.onlineTime (s : PeerStatistic) : BitVec 32 := BitVec.ofInt 32 (s.lastSeenOnline - s.created)

structure DefaultMaintenance where
  /-- The maps, which are null before `init`. -/
  peerMap : Option PeerMap
  peerUrgency : BitVec 32
  intervalSeconds : List Int

namespace DefaultMaintenance

def new (peerUrgency : BitVec 32) (intervalSeconds : List Int) : DefaultMaintenance where
  peerMap := none
  peerUrgency := peerUrgency
  intervalSeconds := intervalSeconds

def init (m : DefaultMaintenance) (peerMap : PeerMap) : DefaultMaintenance :=
  { m with peerMap := some peerMap }

/-- The interval for a peer that has been online for some seconds, if there are intervals. -/
def interval (intervalSeconds : List Int) (onlineSec : Int) : Option Int :=
  if onlineSec ≤ 0 then intervalSeconds.head?
  else
    match intervalSeconds.find? fun i => onlineSec ≤ i with
    | some i => some i
    | none => intervalSeconds.getLast?

/-- The peer is to be checked: it was not seen for longer than its interval. -/
def needMaintenance (peerStatistic : PeerStatistic) (intervalSeconds : List Int) (now : Int) :
    Except JavaException Bool :=
  let onlineSec := peerStatistic.onlineTime.toInt.tdiv 1000
  let timeSinceLastCheckMillis := now - peerStatistic.lastSeenOnline
  match interval intervalSeconds onlineSec with
  | some i => .ok (decide (i * 1000 < timeSinceLastCheckMillis))
  | none => .error .indexOutOfBounds

/-- The first of these peers that is to be checked. -/
def nextOf (intervalSeconds : List Int) (now : Int) :
    List PeerStatistic → Except JavaException (Option PeerStatistic)
  | [] => .ok none
  | s :: ss =>
      match needMaintenance s intervalSeconds now with
      | .error e => .error e
      | .ok true => .ok (some s)
      | .ok false => nextOf intervalSeconds now ss

def next (m : DefaultMaintenance) (now : Int) (map : Bag) : Except JavaException (Option PeerStatistic) :=
  nextOf m.intervalSeconds now (map.entries.map Prod.snd)

def isUrgent (m : DefaultMaintenance) (_bagIndex : Nat) (bagSize _peersBefore : Int) : Bool :=
  decide (bagSize < m.peerUrgency.toInt)

/-- The collection has the address. Addresses are equal if their ids are. -/
def contains (notInterestedAddresses : List PeerAddress) (peerAddress : PeerAddress) : Bool :=
  notInterestedAddresses.any fun a => peerAddress.equals a

/-- The peer of a map that is ready, unless it is not of interest. -/
def ready (m : DefaultMaintenance) (now : Int) (notInterestedAddresses : List PeerAddress) (map : Bag) :
    Except JavaException (Option PeerStatistic) :=
  match m.next now map with
  | .error e => .error e
  | .ok none => .ok none
  | .ok (some s) => .ok (if contains notInterestedAddresses s.peerAddress then none else some s)

/-- The loop over the bags from a bag on. -/
def nextFrom (m : DefaultMaintenance) (p : PeerMap) (now : Int) (notInterestedAddresses : List PeerAddress) :
    List Nat → Int → Except JavaException (Option PeerStatistic)
  | [], _ => .ok none
  | i :: is, peersBefore =>
      let mapVerified := p.peerMapVerified i
      let size : Int := mapVerified.size
      let urgent :=
        if m.isUrgent i size (peersBefore + size) then m.ready now notInterestedAddresses (p.peerMapOverflow i)
        else .ok none
      match urgent with
      | .error e => .error e
      | .ok (some s) => .ok (some s)
      | .ok none =>
          match m.ready now notInterestedAddresses mapVerified with
          | .error e => .error e
          | .ok (some s) => .ok (some s)
          | .ok none => nextFrom m p now notInterestedAddresses is (peersBefore + size)

/-- The peer that is to be checked next, if there is one. -/
def nextForMaintenance (m : DefaultMaintenance) (now : Int) (notInterestedAddresses : List PeerAddress) :
    Except JavaException (Option PeerStatistic) :=
  match m.peerMap with
  | none => .error (.illegalArgument "Did not initialize some of the maintenance maps.")
  | some p => nextFrom m p now notInterestedAddresses (List.range Number160.BITS) 0

end DefaultMaintenance

end TomP2P
