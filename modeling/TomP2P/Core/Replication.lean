import TomP2P.Core.PeerMap
import TomP2P.Core.StorageRead

/-!
# Replication

Which peer is responsible for a location, and what happens when that changes.

With 0-root replication the closest peer is responsible. With n-root replication every
peer is that is in the replication range. The handlers react to data and to peers that
come and go. They update the index of the store, and they notify listeners, which
transfer the data. A listener answers with a future, which may be completed when it is
returned or at any time later. A peer that is not in the replication range anymore
drops the data of a location.

The locations of a peer are given out by the store as a view: the set of the index
itself. A handler that takes a location out of its view takes it out of the index. A
set that was dropped from the index is empty, and it does not come back, so a view of
it has nothing to show. A peer without locations has no set, and its view is another
list, which is always empty.

## Main definitions

* `Replication`: The settings.
* `Neighborhood`: What the handlers look up.
* `Replication.closest`, `Replication.isInReplicationRange`: The tests.
* `Replication.State`: The store and the futures.
* `Replication.dataInserted`, `Replication.dataRemoved`, `Replication.peerInserted`,
  `Replication.peerRemoved`, `Replication.complete`, `Replication.use`: The handlers.
* `Replication.Event`, `Replication.step`: What can happen.
* `Replication.rejectReplication`: The filters.
* `IndirectReplication.send`: Who gets which values.
-/

namespace TomP2P

namespace StorageMemory

/-- The locations a peer is responsible for. -/
def findContentForResponsiblePeerID (m : StorageMemory) (peerID : Number160) : Option (HashedSet Number160) :=
  m.responsibilityMapRev.get peerID

/-- Whether `updateResponsibilities` makes a difference, which it answers. -/
def hasChanged (m : StorageMemory) (locationKey peerId : Number160) : Bool :=
  match m.responsibilityMap.get locationKey with
  | none => true
  | some oldPeerID => oldPeerID ≠ peerId

/-- A location is taken out of a view. The set stays in the index if it is empty then. -/
def removeFromView (m : StorageMemory) (peerID locationKey : Number160) : StorageMemory :=
  match m.responsibilityMapRev.get peerID with
  | none => m
  | some contentIDs =>
      { m with responsibilityMapRev := m.responsibilityMapRev.put peerID (contentIDs.remove locationKey) }

end StorageMemory

/-- The settings that do not change. -/
structure Replication where
  selfAddress : PeerAddress
  nRootReplication : Bool := false
  keepData : Bool := false

/-- What a handler looks up when it is called. -/
structure Neighborhood where
  peerMapVerified : Nat → Bag
  replicationFactor : Int := 6
  rejectReplication : PeerAddress → Bool := fun _ => false
  /-- Somebody listens. -/
  isReplication : Bool := true

/-- What listeners are told. -/
inductive Notice
  | meResponsible (locationKey : Number160)
  | meResponsibleNew (locationKey : Number160) (newPeer : PeerAddress)
  | otherResponsible (locationKey : Number160) (other : PeerAddress)
  deriving DecidableEq

def Notice.locationKey : Notice → Number160
  | .meResponsible locationKey => locationKey
  | .meResponsibleNew locationKey _ => locationKey
  | .otherResponsible locationKey _ => locationKey

/-- The future of a notice. `completed` is whether it was successful, and with
    `removes` the location is dropped if it was. -/
structure Notified where
  notice : Notice
  removes : Bool
  completed : Option Bool
  deriving DecidableEq

namespace Replication

/-- The store and the futures of all notices. -/
structure State where
  store : StorageMemory := {}
  futures : List Notified := []

/-- The futures that are completed when they are returned, by what they are for. -/
abbrev Answers := Notice → Option Bool

variable (r : Replication) (n : Neighborhood) (answers : Answers)

/-- The peers that are close to a location, and this one. -/
def closeSet (locationKey : Number160) (atLeast : Int) : PeerMap.CloseSet :=
  PeerMap.addClose locationKey
    (PeerMap.closePeers r.selfAddress.peerId locationKey atLeast n.peerMapVerified) (.new 0 r.selfAddress)

/-- The closest peer that is allowed, or the closest one if there is none. -/
def closest (locationKey : Number160) : PeerAddress :=
  let tmp := (r.closeSet n locationKey 1).entries.map fun e => e.2.peerAddress
  ((tmp.find? fun peerAddress => !n.rejectReplication peerAddress).or tmp.head?).getD r.selfAddress

/-- There are not too many peers that are closer. -/
def isInReplicationRange (locationKey : Number160) (peerAddress : PeerAddress) : Bool :=
  if n.rejectReplication peerAddress then false
  else
    let tmp := r.closeSet n locationKey n.replicationFactor
    let headSet := tmp.entries.filter fun e => e.1 < PeerMap.distance locationKey peerAddress.peerId
    headSet.length < n.replicationFactor

def removeResponsibility (s : State) (locationKey : Number160) : State :=
  { s with store := Effect.after (StorageLayer.removeResponsibility locationKey r.keepData) s.store }

/-- Listeners are notified. A future that is completed already calls back at once. -/
def notify (s : State) (notice : Notice) (removes : Bool) : State :=
  let completed := answers notice
  let s := { s with futures := s.futures ++ [{ notice := notice, removes := removes, completed := completed }] }
  if removes && completed = some true then r.removeResponsibility s notice.locationKey else s

/-- A notice if the responsibility for a location has changed. -/
def updateAndNotify (s : State) (locationKey peerId : Number160) (notice : Notice) : State :=
  let updated := { s with store := s.store.updateResponsibilities locationKey peerId }
  if s.store.hasChanged locationKey peerId then r.notify answers updated notice false else updated

def dataRemoved (s : State) (locationKey : Number160) : State :=
  if n.isReplication then r.removeResponsibility s locationKey else s

def dataInserted (s : State) (locationKey : Number160) : State :=
  let self := r.selfAddress.peerId
  if !n.isReplication then s
  else if !r.nRootReplication then
    let closest := r.closest n locationKey
    if closest.peerId = self then
      r.updateAndNotify answers s locationKey closest.peerId (.meResponsible locationKey)
    else
      r.updateAndNotify answers s locationKey closest.peerId (.otherResponsible locationKey closest)
  else if r.isInReplicationRange n locationKey r.selfAddress then
    r.updateAndNotify answers s locationKey self (.meResponsible locationKey)
  else
    r.notify answers s (.otherResponsible locationKey (r.closest n locationKey)) true

/-- A peer was inserted, and this peer is responsible for a location. -/
def peerInsertedAt (peerAddress : PeerAddress) (s : State) (locationKey : Number160) : State :=
  let self := r.selfAddress.peerId
  if !r.nRootReplication then
    let closest := r.closest n locationKey
    if closest.peerId ≠ self then
      if r.isInReplicationRange n locationKey r.selfAddress then
        r.updateAndNotify answers s locationKey closest.peerId (.otherResponsible locationKey closest)
      else
        -- The transfer has just been started.
        let s := r.notify answers s (.otherResponsible locationKey closest) false
        r.removeResponsibility s locationKey
    else if r.isInReplicationRange n locationKey peerAddress then
      let updated := { s with store := s.store.updateResponsibilities locationKey self }
      if s.store.hasChanged locationKey self then r.notify answers updated (.meResponsible locationKey) false
      else r.notify answers updated (.meResponsibleNew locationKey peerAddress) false
    else s
  else if r.isInReplicationRange n locationKey peerAddress then
    if r.isInReplicationRange n locationKey r.selfAddress then
      r.notify answers s (.meResponsibleNew locationKey peerAddress) false
    else
      r.notify answers s (.otherResponsible locationKey peerAddress) true
  else if !r.isInReplicationRange n locationKey r.selfAddress then
    r.notify answers s (.otherResponsible locationKey (r.closest n locationKey)) true
  else s

/-- The locations of a view. -/
def locations (s : State) (peerID : Number160) : List Number160 :=
  match s.store.findContentForResponsiblePeerID peerID with
  | none => []
  | some contentIDs => contentIDs.elems

def peerInserted (s : State) (peerAddress : PeerAddress) (verified : Bool) : State :=
  if !n.isReplication || !verified then s
  else (locations s r.selfAddress.peerId).foldl (r.peerInsertedAt n answers peerAddress) s

/-- A peer was removed that was responsible for a location. The view of the own
    locations comes along, and it shows something while its set is in the index. -/
def peerRemovedAt (acc : State × Bool) (locationKey : Number160) : State × Bool :=
  let self := r.selfAddress.peerId
  let closest := r.closest n locationKey
  let changed := acc.1.store.hasChanged locationKey closest.peerId
  let notice :=
    if closest.peerId = self then Notice.meResponsible locationKey else .otherResponsible locationKey closest
  let s := r.updateAndNotify answers acc.1 locationKey closest.peerId notice
  let live := acc.2 && (s.store.findContentForResponsiblePeerID self).isSome
  if changed && live then ({ s with store := s.store.removeFromView self locationKey }, live) else (s, live)

/-- The own locations that the peer was in the range of need enough copies. -/
def restore (peerAddress : PeerAddress) (s : State) (locationKey : Number160) : State :=
  if r.isInReplicationRange n locationKey peerAddress then r.notify answers s (.meResponsible locationKey) false
  else s

def peerRemoved (s : State) (peerAddress : PeerAddress) : State :=
  let self := r.selfAddress.peerId
  if !n.isReplication then s
  else if !r.nRootReplication then
    let live := (s.store.findContentForResponsiblePeerID self).isSome
    let loop := (locations s peerAddress.peerId).foldl (r.peerRemovedAt n answers) (s, live)
    (if loop.2 then locations loop.1 self else []).foldl (r.restore n answers peerAddress) loop.1
  else
    (locations s self).foldl (r.restore n answers peerAddress) s

/-- A future is completed. -/
def complete (s : State) (i : Nat) (success : Bool) : State :=
  match s.futures[i]? with
  | none => s
  | some f =>
      if f.completed.isSome then s
      else
        let s := { s with futures := s.futures.set i { f with completed := some success } }
        if f.removes && success then r.removeResponsibility s f.notice.locationKey else s

/-- The store is used by others. Values and claims come and go, and the responsibility
    for some locations expires. -/
def use (s : State) (values : StorageMemory) (expired : List Number160) : State :=
  let store := { values with
    responsibilityMap := s.store.responsibilityMap
    responsibilityMapRev := s.store.responsibilityMapRev }
  { s with store := expired.foldl StorageMemory.removeResponsibility store }

/-- What can happen. -/
inductive Event
  | dataInserted (n : Neighborhood) (answers : Answers) (locationKey : Number160)
  | dataRemoved (n : Neighborhood) (locationKey : Number160)
  | peerInserted (n : Neighborhood) (answers : Answers) (peerAddress : PeerAddress) (verified : Bool)
  | peerRemoved (n : Neighborhood) (answers : Answers) (peerAddress : PeerAddress)
  | complete (i : Nat) (success : Bool)
  | use (values : StorageMemory) (expired : List Number160)

def step (s : State) : Event → State
  | .dataInserted n answers locationKey => r.dataInserted n answers s locationKey
  | .dataRemoved n locationKey => r.dataRemoved n s locationKey
  | .peerInserted n answers peerAddress verified => r.peerInserted n answers s peerAddress verified
  | .peerRemoved n answers peerAddress => r.peerRemoved n answers s peerAddress
  | .complete i success => r.complete s i success
  | .use values expired => use s values expired

end Replication

/-! ### Indirect Replication

How the peer that is responsible for a location makes sure that there are enough
replicas of it.

The peer asks its map for at least one peer less than the replication factor, since it
has a replica itself. It goes through them by their distance, leaves out those that a
filter rejects, and sends the values of the location to each of the others. It stops
when the counter is equal to the number it asked for.
-/

/-- A filter, by the peers it rejects. -/
abbrev ReplicationFilter := PeerAddress → Bool

def Replication.rejectReplication (filters : List ReplicationFilter) (address : PeerAddress) : Bool :=
  filters.any fun filter => filter address

namespace IndirectReplication

/-- The values that a peer is sent. -/
abbrev Transfer := PeerAddress × NavMap Number640 Data

/-- The values of a location. -/
def dataMap (m : StorageMemory) (locationKey : Number160) : Except JavaException (NavMap Number640 Data) :=
  StorageLayer.getRange m ⟨locationKey, Number160.ZERO, Number160.ZERO, Number160.ZERO⟩
    ⟨locationKey, Number160.MAX_VALUE, Number160.MAX_VALUE, Number160.MAX_VALUE⟩ (-1) true

/-- The loop over the close peers. The counter goes up before it is compared. -/
def sendLoop (rejectReplication : PeerAddress → Bool) (m : StorageMemory) (locationKey : Number160)
    (replicationFactor : Int) : List PeerStatistic → Int → Except JavaException (List Transfer)
  | [], _ => .ok []
  | peerStatistic :: sortedSet, count =>
      if rejectReplication peerStatistic.peerAddress then
        sendLoop rejectReplication m locationKey replicationFactor sortedSet count
      else do
        let count := int (count + 1)
        let dataMap ← dataMap m locationKey
        if count = replicationFactor then return [(peerStatistic.peerAddress, dataMap)]
        else
          let retVal ← sendLoop rejectReplication m locationKey replicationFactor sortedSet count
          return (peerStatistic.peerAddress, dataMap) :: retVal

/-- The values of a location for the replicas. -/
def send (r : Replication) (n : Neighborhood) (m : StorageMemory) (locationKey : Number160) :
    Except JavaException (List Transfer) :=
  let replicationFactor := int (n.replicationFactor - 1)
  let sortedSet := PeerMap.closePeers r.selfAddress.peerId locationKey replicationFactor n.peerMapVerified
  if replicationFactor < 0 then .error (.illegalArgument ("Illegal Capacity: " ++ toString replicationFactor))
  else sendLoop n.rejectReplication m locationKey replicationFactor sortedSet.values 0

end IndirectReplication

end TomP2P
