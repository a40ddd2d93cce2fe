import TomP2P.Core.AddressBuilder
import TomP2P.Core.Data

/-!
# The Storage of a Tracker

Who announced itself under a key. An announcement goes to one of two maps: to the
unverified one as long as the peer was not seen first hand, if the storage verifies its
peers, and else to the verified one, which is what others are given. Seeing a peer first
hand moves its announcements from the one to the other under all keys. A peer that failed
loses them, and it is turned away until it is seen again.

The maps forget an entry after a time. Here entries are lost by a step of its own, which
takes any of them; the operations themselves see the maps as they are.

## Main definitions

* `TrackerStorage`: The two maps, and the peers that are offline.
* `TrackerStorage.put`, `TrackerStorage.peerFound`, `TrackerStorage.peerFailed`: What
  changes them.
* `TrackerStorage.peers`: What others are given.
* `TrackerStorage.run`: A sequence of calls.
-/

namespace TomP2P

namespace TrackerStorage

/-- The announcements under a key by the id of the peer: its address and its attachment. -/
abbrev Announced := HashedMap Number160 (PeerAddress × Data)

abbrev Tracked := HashedMap Number320 Announced

end TrackerStorage

open TrackerStorage in
structure TrackerStorage where
  dataMapUnverified : Tracked := .empty
  dataMap : Tracked := .empty
  peerOffline : HashedMap Number160 Bool := .empty
  verifyPeersOnTracker : Bool

namespace TrackerStorage

def TRACKER_CACHE_SIZE : Nat := 1000

def findOld (key : Number320) (peerId : Number160) (dataMap : Tracked) : Option (PeerAddress × Data) :=
  match dataMap.get key with
  | none => none
  | some map => map.get peerId

/-- Adds to one of the maps. What is there already stays as it is. -/
def add (key : Number320) (peerAddress : PeerAddress) (map : Tracked) (attachment : Data) : Bool × Tracked :=
  match map.get key with
  | none => (true, map.put key (HashedMap.empty.put peerAddress.peerId (peerAddress, attachment)))
  | some map2 =>
      if TRACKER_CACHE_SIZE < map2.size then (false, map)
      else
        let trackerData := (map2.get peerAddress.peerId).getD (peerAddress, attachment)
        (true, map.put key (map2.put peerAddress.peerId trackerData))

/-- The stored value has a public key, and not the given one. -/
def refuses (oldData : Data) (publicKey : Option PublicKey) : Bool :=
  oldData.publicKey.isSome && decide (oldData.publicKey ≠ publicKey)

def addUnverified (s : TrackerStorage) (key : Number320) (peerAddress : PeerAddress) (attachment : Data) :
    Bool × TrackerStorage :=
  let (added, map) := add key peerAddress s.dataMapUnverified attachment
  (added, { s with dataMapUnverified := map })

def addVerified (s : TrackerStorage) (key : Number320) (peerAddress : PeerAddress) (attachment : Data) :
    Bool × TrackerStorage :=
  let (added, map) := add key peerAddress s.dataMap attachment
  (added, { s with dataMap := map })

/-- An announcement at time `now`. -/
def put (s : TrackerStorage) (now : BitVec 64) (key : Number320) (peerAddress : PeerAddress)
    (publicKey : Option PublicKey) (attachment : Option Data) : Bool × TrackerStorage :=
  if s.peerOffline.contains peerAddress.peerId then (false, s)
  else
    let attachment := (attachment.getD (Data.new [] now)).setPublicKey publicKey
    match findOld key peerAddress.peerId s.dataMapUnverified with
    | some (_, oldDataUnverified) =>
        if refuses oldDataUnverified publicKey then (false, s)
        else s.addUnverified key peerAddress attachment
    | none =>
        match findOld key peerAddress.peerId s.dataMap with
        | some (_, oldData) =>
            if refuses oldData publicKey then (false, s)
            else s.addVerified key peerAddress attachment
        | none =>
            if s.verifyPeersOnTracker then s.addUnverified key peerAddress attachment
            else s.addVerified key peerAddress attachment

/-- Takes a peer out of a map under every key, and a key out of it that has no peer left.
    Returns what was taken, and the map. -/
def removeFromMap (remotePeer : PeerAddress) (map : Tracked) : Tracked × Tracked :=
  let removed := map.filterMap fun _ announced =>
    (announced.get remotePeer.peerId).map fun oldPair => HashedMap.empty.put remotePeer.peerId oldPair
  let left := map.filterMap fun _ announced =>
    let announced := announced.remove remotePeer.peerId
    if announced.size = 0 then none else some announced
  (removed, left)

def peerFailed (s : TrackerStorage) (remotePeer : PeerAddress) : Bool × TrackerStorage :=
  let (removedUnverified, dataMapUnverified) := removeFromMap remotePeer s.dataMapUnverified
  let (removed, dataMap) := removeFromMap remotePeer s.dataMap
  (removed.size ≠ 0 || removedUnverified.size ≠ 0, { s with
    peerOffline := s.peerOffline.put remotePeer.peerId true
    dataMapUnverified := dataMapUnverified
    dataMap := dataMap })

/-- Adds what was taken out of the other map. -/
def addAll (removed : Tracked) (map : Tracked) : Tracked :=
  removed.entries.foldl (fun map entry =>
    entry.2.entries.foldl (fun map pair => (add entry.1 pair.2.1 map pair.2.2).2) map) map

/-- A peer was seen, first hand if there is no referrer. -/
def peerFound (s : TrackerStorage) (remotePeer : PeerAddress) (referrer : Option PeerAddress) :
    Bool × TrackerStorage :=
  if referrer.isNone then
    let (removed, dataMapUnverified) := removeFromMap remotePeer s.dataMapUnverified
    (true, { s with
      peerOffline := s.peerOffline.remove remotePeer.peerId
      dataMapUnverified := dataMapUnverified
      dataMap := addAll removed s.dataMap })
  else (true, s)

/-- What others are given. -/
def peers (s : TrackerStorage) (key : Number320) : Announced := (s.dataMap.get key).getD .empty

/-! ### Sequences of calls -/

/-- What of a map is still there. -/
structure Kept where
  announced : Number320 → Option (Number160 → Bool)

def Kept.of (kept : Kept) (map : Tracked) : Tracked :=
  map.filterMap fun key announced => (kept.announced key).map fun keep =>
    announced.filterMap fun peerId pair => if keep peerId then some pair else none

inductive Call
  | put (now : BitVec 64) (key : Number320) (peerAddress : PeerAddress) (publicKey : Option PublicKey)
      (attachment : Option Data)
  | peerFound (remotePeer : PeerAddress) (referrer : Option PeerAddress)
  | peerFailed (remotePeer : PeerAddress)
  /-- Time passes. -/
  | lapse (unverified verified : Kept) (offline : Number160 → Bool)

/-- What a call returns, and the storage after it. -/
def step (s : TrackerStorage) : Call → Bool × TrackerStorage
  | .put now key peerAddress publicKey attachment => s.put now key peerAddress publicKey attachment
  | .peerFound remotePeer referrer => s.peerFound remotePeer referrer
  | .peerFailed remotePeer => s.peerFailed remotePeer
  | .lapse unverified verified offline => (true, { s with
      dataMapUnverified := unverified.of s.dataMapUnverified
      dataMap := verified.of s.dataMap
      peerOffline := s.peerOffline.filterMap fun peerId offlineSince =>
        if offline peerId then some offlineSince else none })

/-- A new storage after a sequence of calls. -/
def run (verifyPeersOnTracker : Bool) (calls : List Call) : TrackerStorage :=
  calls.foldl (fun s call => (s.step call).2) ⟨.empty, .empty, .empty, verifyPeersOnTracker⟩

end TrackerStorage

end TomP2P
