import TomP2P.Core.BloomOperations
import TomP2P.Core.Message
import TomP2P.Core.TrackerCaches
import TomP2P.Foundation.Repeat
import Mathlib.Data.Stream.Defs

/-!
# Answers of a Tracker

What a tracker sends to a peer that asks for a key. Of the peers that match as many as fit
into a message are drawn at random. If that is less than there were, then the answer says so.

A peer that was drawn can be drawn again. One whose attachment is missing does not count
as drawn, so that the loop goes on for as long as it finds no others.

## Main definitions

* `TrackerPeers`: Peers with their attachments.
* `UtilsTracker.limit`: As many peers as fit.
* `TrackerRPC.respond`: The answer.
-/

namespace TomP2P

/-- Peers with their attachments, as they are handed around. An attachment may be missing. -/
structure TrackerPeers where
  peerAddresses : HashedMap PeerKey (PeerAddress × Option Data) := .empty
  couldProvideMoreData : Bool := false
  deriving DecidableEq

namespace TrackerPeers

def size (t : TrackerPeers) : Nat := t.peerAddresses.size

/-- A map keeps the address that was there first. -/
def putTo (peerAddresses : HashedMap PeerKey (PeerAddress × Option Data)) (remotePeer : PeerAddress)
    (attachment : Option Data) : HashedMap PeerKey (PeerAddress × Option Data) :=
  let key := ((peerAddresses.get remotePeer.key).map Prod.fst).getD remotePeer
  peerAddresses.put remotePeer.key (key, attachment)

def ofPairs (value : List (PeerAddress × Data)) : TrackerPeers where
  peerAddresses := value.foldl (fun peerAddresses pair => putTo peerAddresses pair.1 (some pair.2)) .empty

end TrackerPeers

/-- The next number of a `Random`, below a bound. -/
def nextInt (bound : Nat) : EStateM JavaException (Stream' Nat) Nat := fun random =>
  .ok (random.head % bound) random.tail

namespace UtilsTracker

/-- One pass of the loop. It starts with the counter and with what was drawn. -/
def limitPass (peers : TrackerPeers) (size : Int)
    (start : Int × HashedMap PeerKey (PeerAddress × Option Data)) :
    EStateM JavaException (Stream' Nat)
      ((Int × HashedMap PeerKey (PeerAddress × Option Data)) ⊕ HashedMap PeerKey (PeerAddress × Option Data)) := do
  let (i, retVal) := start
  let keys := peers.peerAddresses.entries.map fun entry => (entry.1, entry.2.1)
  if i < size ∧ ¬ keys.isEmpty then
    match keys[← nextInt keys.length]? with
    | none => throw .indexOutOfBounds
    | some (key, address) =>
        match (peers.peerAddresses.get key).bind Prod.snd with
        | some value => return .inl (i + 1, retVal.put key (address, some value))
        | none =>
            -- not there anymore: the counter is taken back before it goes on
            return .inl (i - 1 + 1, retVal)
  else return .inr retVal

/-- Draws peers. The loop makes at most `fuel` passes. -/
def limit (fuel : Nat) (peers : TrackerPeers) (size : Int) :
    EStateM JavaException (Stream' Nat) (Option TrackerPeers) :=
  if size < 0 then throw (.illegalArgument s!"Illegal initial capacity: {size}")
  else do
    let retVal ← Effect.whileUpTo (limitPass peers size) fuel (0, .empty)
    return retVal.map fun retVal => ⟨retVal, peers.size > size⟩

end UtilsTracker

structure TrackerResponse where
  type : Message.Type
  trackerData : TrackerPeers
  deriving DecidableEq

namespace TrackerRPC

open UtilsTracker

def MAX_MSG_SIZE_UDP : Int := 35

/-- The peers that are sent, and whether they are all there are. -/
def respond (fuel : Nat) (maxSize : Int) (meshPeers : TrackerPeers) :
    EStateM JavaException (Stream' Nat) (Option TrackerResponse) := do
  let size := meshPeers.size
  let limited ← limit fuel meshPeers maxSize
  return limited.map fun meshPeers => ⟨if size > meshPeers.size then .PARTIALLY_OK else .OK, meshPeers⟩

end TrackerRPC

end TomP2P
