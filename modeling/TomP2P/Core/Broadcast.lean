import TomP2P.Core.PeerMap

/-!
# Structured Broadcast

A message for all peers, which the peers pass on along their bags. The initiator sends
it to a few peers of each bag. A peer that gets it from a peer in one of its bags sends
it to a few peers of each bag below that one, which are the peers that are closer to it
than the sender. A peer passes the message on once.

The number of hops is limited by the number of bags that have a peer.

All peers of the network are one state here. A message that was sent can be delivered
at any time after that and any number of times; which ones have been delivered is kept
as history, and so are the messages that were not known yet to their receiver. The peer
maps do not change, entries of the caches do not expire, and connections are always
made. The content of the message makes no difference.

## Main definitions

* `PeerMap.fromEachBag`, `PeerMap.nrFilledBags`: Peers of the bags.
* `BroadcastMessage`, `Broadcast`: A message and the state of all peers.
* `Broadcast.receive`: A peer receives a message.
* `Broadcast.start`, `Broadcast.deliver`: What can happen.
-/

namespace TomP2P

namespace PeerMap

/-- The addresses of a bag. -/
def addresses (bag : Bag) : List PeerAddress := bag.entries.map fun e => e.2.peerAddress

/-- All verified peers. -/
def all (peerMapVerified : Nat → Bag) : List PeerAddress :=
  (List.range Number160.BITS).flatMap fun i => addresses (peerMapVerified i)

/-- Some peers of each bag below `maxBucket`. -/
def fromEachBag (peerMapVerified : Nat → Bag) (nrNeighbors maxBucket : Int) : List PeerAddress :=
  if nrNeighbors < 0 then all peerMapVerified
  else
    (List.range Number160.BITS).flatMap fun (i : Nat) =>
      if maxBucket < i + 1 then [] else (addresses (peerMapVerified i)).take nrNeighbors.toNat

/-- The number of bags that have a peer. -/
def nrFilledBags (peerMapVerified : Nat → Bag) : Nat :=
  (List.range Number160.BITS).countP fun i => 0 < (peerMapVerified i).size

end PeerMap

/-- A message on its way. `bucketNr` is the bag that the sender and the receiver have
    each other in. -/
structure BroadcastMessage where
  messageKey : Number160
  sender : Number160
  receiver : Number160
  hopCount : Int
  bucketNr : Int
  deriving DecidableEq

/-- The caches of all peers and the messages. -/
structure Broadcast where
  /-- The messages that a peer has seen, by their keys. -/
  cache : Number160 → List Number160 := fun _ => []
  broadcastCounter : BitVec 32 := 0
  messageCounter : BitVec 32 := 0
  sent : List BroadcastMessage := []
  delivered : List Nat := []
  /-- The messages that were new to their receiver. -/
  passed : List BroadcastMessage := []

namespace Broadcast

/-- The redundancy. -/
def FROM_EACH_BAG : Int := 3

/-- The peer maps of all peers. -/
abbrev PeerMaps := Number160 → Nat → Bag

/-- The message was seen before. It is from then on. -/
def twiceSeen (s : Broadcast) (peer messageKey : Number160) : Bool × Broadcast :=
  if messageKey ∈ s.cache peer then (true, s)
  else (false, { s with cache := Function.update s.cache peer (messageKey :: s.cache peer) })

/-- A message is sent to some peers. -/
def doSend (s : Broadcast) (peer messageKey : Number160) (hopCounter : Int) (list : List PeerAddress) :
    Broadcast :=
  { s with
    messageCounter := s.messageCounter + BitVec.ofNat 32 list.length
    sent := s.sent ++ list.map fun peerAddress =>
      { messageKey := messageKey
        sender := peer
        receiver := peerAddress.peerId
        hopCount := int (hopCounter + 1)
        bucketNr := PeerMap.classMember peerAddress.peerId peer } }

/-- The initiator sends to all of its bags. -/
def firstPeer (maps : PeerMaps) (s : Broadcast) (m : BroadcastMessage) : Broadcast :=
  s.doSend m.receiver m.messageKey m.hopCount
    (PeerMap.fromEachBag (maps m.receiver) FROM_EACH_BAG Number160.BITS)

/-- Any other peer sends to the bags below that of the sender. -/
def otherPeer (maps : PeerMaps) (s : Broadcast) (m : BroadcastMessage) : Broadcast :=
  s.doSend m.receiver m.messageKey m.hopCount
    (PeerMap.fromEachBag (maps m.receiver) FROM_EACH_BAG m.bucketNr)

/-- A peer receives a message. -/
def receive (maps : PeerMaps) (s : Broadcast) (m : BroadcastMessage) : Broadcast :=
  let seen := s.twiceSeen m.receiver m.messageKey
  if seen.1 then seen.2
  else
    let s := { seen.2 with
      broadcastCounter := seen.2.broadcastCounter + 1
      passed := seen.2.passed ++ [m] }
    if m.hopCount < PeerMap.nrFilledBags (maps m.receiver) then
      if m.hopCount = 0 then s.firstPeer maps m else s.otherPeer maps m
    else s

/-- The message that the initiator gives to itself. -/
def first (initiator messageKey : Number160) : BroadcastMessage where
  messageKey := messageKey
  sender := initiator
  receiver := initiator
  hopCount := 0
  bucketNr := Number160.BITS

/-- A peer starts a broadcast. -/
def start (maps : PeerMaps) (s : Broadcast) (initiator messageKey : Number160) : Broadcast :=
  s.receive maps (first initiator messageKey)

/-- A message that was sent is delivered. -/
def deliver (maps : PeerMaps) (s : Broadcast) (i : Nat) : Option Broadcast :=
  match s.sent[i]? with
  | none => none
  | some m => some ({ s with delivered := i :: s.delivered }.receive maps m)

end Broadcast

end TomP2P
