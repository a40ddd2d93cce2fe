import TomP2P.Core.Replication
import TomP2P.Foundation.Repeat
import Mathlib.Data.Stream.Defs

/-!
# Requests that Change Values

What a peer does with a request to remove values: those of a collection of keys, those
of a range of keys, or those of a domain. The response has the values or the status of
each key.

A replication that listens is told the location of each key that was removed.

## Main definitions

* `ReplicaM`: Programs over the store of a peer with replication.
* `ReplicationListener.indirectReplication`: The replication that listens.
* `RemoveMessage`, `RemoveResponse`: The request and the response.
* `StorageRPC.handleRemove`: The request is handled.
* `DataRemoved`: A listener.
* `Removing`: The store and the lists.
* `StorageRPC.Recorded.handleRemove`: The request is handled.
* `StorageRPC.addPass`: One attempt of the loop, and the number drawn after it.
* `StorageRPC.doAdd`: A value is added.
-/

namespace TomP2P

/-- A program over the store and the replication of a peer. -/
abbrev ReplicaM := EStateM JavaException Replication.State

/-- A program over the store alone. -/
def onStore {α : Type} (program : StoreM α) : ReplicaM α := fun s =>
  match program s.store with
  | .ok a store => .ok a { s with store := store }
  | .error e store => .error e { s with store := store }

/-- A replication that is told what happens to the data. -/
structure ReplicationListener where
  replication : Replication
  neighborhood : Neighborhood
  answers : Replication.Answers := fun _ => none

namespace ReplicationListener

/-- The indirect replication of a peer with its defaults. -/
def indirectReplication (selfAddress : PeerAddress) (peerMapVerified : Nat → Bag) (answers : Replication.Answers) :
    ReplicationListener where
  replication := { selfAddress := selfAddress, nRootReplication := false, keepData := false }
  neighborhood := { peerMapVerified := peerMapVerified, replicationFactor := 6 }
  answers := answers

def dataRemoved (replicationListener : Option ReplicationListener) (locationKey : Number160) : ReplicaM Unit :=
  match replicationListener with
  | none => pure ()
  | some l => modify fun s => l.replication.dataRemoved l.neighborhood s locationKey

def dataInserted (replicationListener : Option ReplicationListener) (locationKey : Number160) : ReplicaM Unit :=
  match replicationListener with
  | none => pure ()
  | some l => modify fun s => l.replication.dataInserted l.neighborhood l.answers s locationKey

end ReplicationListener

/-- A request to remove values. With `returnNr` the collection is a range. -/
structure RemoveMessage where
  locationKey : Option Number160 := none
  domainKey : Option Number160 := none
  keys : Option (List Number640) := none
  publicKey : Option PublicKey := none
  returnNr : Option (BitVec 32) := none

inductive RemoveResponse
  | dataMap (result1 : NavMap Number640 (Option Data))
  | keyMapByte (result2 : NavMap Number640 Wire.Byte)

namespace StorageRPC

variable (sl : StorageLayer) (replicationListener : Option ReplicationListener)

def notifyRemoveResponsibility (locationKey : Number160) (status : PutStatus) : ReplicaM Unit :=
  if status = .OK then ReplicationListener.dataRemoved replicationListener locationKey else pure ()

/-- One key of a collection. -/
def removeAndNotify (publicKey : Option PublicKey) (sendBackResults : Bool) (key : Number640) :
    ReplicaM (Option Data × PutStatus) := do
  let data ← onStore (sl.remove key publicKey sendBackResults)
  notifyRemoveResponsibility replicationListener key.locationKey data.2
  return data

/-- The values that were removed. All their locations are notified. -/
def answerData (result1 : NavMap Number640 (Option Data)) : ReplicaM RemoveResponse := do
  result1.entries.forM fun entry => notifyRemoveResponsibility replicationListener entry.1.locationKey .OK
  return .dataMap result1

/-- The status of each key. The locations of those that were removed are notified. -/
def answerStatus (result2 : NavMap Number640 Wire.Byte) : ReplicaM RemoveResponse := do
  result2.entries.forM fun entry =>
    if entry.2 = PutStatus.OK.ordinal then
      notifyRemoveResponsibility replicationListener entry.1.locationKey .OK
    else pure ()
  return .keyMapByte result2

def removeCollection (keys : List Number640) (publicKey : Option PublicKey) (sendBackResults : Bool) :
    ReplicaM RemoveResponse :=
  if sendBackResults then do
    let result1 ← keys.foldlM (fun (result1 : NavMap Number640 (Option Data)) key => do
      let data ← removeAndNotify sl replicationListener publicKey sendBackResults key
      return if data.1.isSome then result1.put key data.1 else result1) .empty
    answerData replicationListener result1
  else do
    let result2 ← keys.foldlM (fun (result2 : NavMap Number640 Wire.Byte) key => do
      let data ← removeAndNotify sl replicationListener publicKey sendBackResults key
      return result2.put key data.2.ordinal) .empty
    answerStatus replicationListener result2

def removeRange (fromKey toKey : Number640) (publicKey : Option PublicKey) (sendBackResults : Bool) :
    ReplicaM RemoveResponse :=
  if sendBackResults then do
    answerData replicationListener (← onStore (sl.removeReturnData fromKey toKey publicKey))
  else do
    answerStatus replicationListener (← onStore (sl.removeReturnStatus fromKey toKey publicKey))

def handleRemove (message : RemoveMessage) (sendBackResults : Bool) : ReplicaM RemoveResponse :=
  match message.keys with
  | some keys =>
      if message.returnNr.isNone then
        removeCollection sl replicationListener keys message.publicKey sendBackResults
      else
        match keys with
        | fromKey :: toKey :: _ =>
            removeRange sl replicationListener fromKey toKey message.publicKey sendBackResults
        | _ => throw .noSuchElement
  | none =>
      match message.locationKey, message.domainKey with
      | some locationKey, some domainKey =>
          removeRange sl replicationListener ⟨locationKey, domainKey, .ZERO, .ZERO⟩
            ⟨locationKey, domainKey, .MAX_VALUE, .MAX_VALUE⟩ message.publicKey sendBackResults
      | _, _ => throw (.illegalArgument "Either two keys or a key set are necessary")

end StorageRPC

namespace SyncRPC

/-- An entry of a synchronization that is to be removed. -/
def removeEntry (sl : StorageLayer) (replicationListener : Option ReplicationListener)
    (publicKey : Option PublicKey) (key : Number640) : ReplicaM Unit := do
  let result ← onStore (sl.remove key publicKey false)
  if result.2 = .OK then ReplicationListener.dataRemoved replicationListener key.locationKey else pure ()

end SyncRPC

/-! ### Requests to Remove Values, with What They Do Recorded

The handler for any listener, and with two lists beside the store: the
keys that the calls of the storage layer have taken out of it, and the locations that the
listener was told of.

What a listener does to the store is a parameter. The replication drops the values of the
location.
-/

/-- What a listener does to the store when it is told of a location. -/
abbrev DataRemoved := Number160 → StorageMemory → StorageMemory

/-- The store, the keys that were removed and the locations that were told. -/
structure Removing where
  store : StorageMemory
  removed : List Number640 := []
  told : List Number160 := []

abbrev RemovingM := EStateM JavaException Removing

/-- The keys of the first store that are not in the second. -/
def StorageMemory.goneIn (m m' : StorageMemory) : List Number640 :=
  m.dataMap.keys.filter fun k => !m'.contains k

namespace StorageRPC.Recorded

/-- A call of the storage layer. -/
def onStore {α : Type} (program : StoreM α) : RemovingM α := fun s =>
  match program s.store with
  | .ok a store => .ok a { s with store := store, removed := s.removed ++ s.store.goneIn store }
  | .error e store => .error e { s with store := store, removed := s.removed ++ s.store.goneIn store }

variable (sl : StorageLayer) (listener : DataRemoved)

def dataRemoved (locationKey : Number160) : RemovingM Unit :=
  modify fun s => { s with store := listener locationKey s.store, told := s.told ++ [locationKey] }

def notifyRemoveResponsibility (locationKey : Number160) (status : PutStatus) : RemovingM Unit :=
  if status = .OK then dataRemoved listener locationKey else pure ()

/-- One key of a collection. -/
def removeAndNotify (publicKey : Option PublicKey) (sendBackResults : Bool) (key : Number640) :
    RemovingM (Option Data × PutStatus) := do
  let data ← onStore (sl.remove key publicKey sendBackResults)
  notifyRemoveResponsibility listener key.locationKey data.2
  return data

def answerData (result1 : NavMap Number640 (Option Data)) : RemovingM RemoveResponse := do
  result1.entries.forM fun entry => notifyRemoveResponsibility listener entry.1.locationKey .OK
  return .dataMap result1

def answerStatus (result2 : NavMap Number640 Wire.Byte) : RemovingM RemoveResponse := do
  result2.entries.forM fun entry =>
    if entry.2 = PutStatus.OK.ordinal then
      notifyRemoveResponsibility listener entry.1.locationKey .OK
    else pure ()
  return .keyMapByte result2

def removeCollection (keys : List Number640) (publicKey : Option PublicKey) (sendBackResults : Bool) :
    RemovingM RemoveResponse :=
  if sendBackResults then do
    let result1 ← keys.foldlM (fun (result1 : NavMap Number640 (Option Data)) key => do
      let data ← removeAndNotify sl listener publicKey sendBackResults key
      return if data.1.isSome then result1.put key data.1 else result1) .empty
    answerData listener result1
  else do
    let result2 ← keys.foldlM (fun (result2 : NavMap Number640 Wire.Byte) key => do
      let data ← removeAndNotify sl listener publicKey sendBackResults key
      return result2.put key data.2.ordinal) .empty
    answerStatus listener result2

def removeRange (fromKey toKey : Number640) (publicKey : Option PublicKey) (sendBackResults : Bool) :
    RemovingM RemoveResponse :=
  if sendBackResults then do
    answerData listener (← onStore (sl.removeReturnData fromKey toKey publicKey))
  else do
    answerStatus listener (← onStore (sl.removeReturnStatus fromKey toKey publicKey))

def handleRemove (message : RemoveMessage) (sendBackResults : Bool) : RemovingM RemoveResponse :=
  match message.keys with
  | some keys =>
      if message.returnNr.isNone then
        removeCollection sl listener keys message.publicKey sendBackResults
      else
        match keys with
        | fromKey :: toKey :: _ =>
            removeRange sl listener fromKey toKey message.publicKey sendBackResults
        | _ => throw .noSuchElement
  | none =>
      match message.locationKey, message.domainKey with
      | some locationKey, some domainKey =>
          removeRange sl listener ⟨locationKey, domainKey, .ZERO, .ZERO⟩
            ⟨locationKey, domainKey, .MAX_VALUE, .MAX_VALUE⟩ message.publicKey sendBackResults
      | _, _ => throw (.illegalArgument "Either two keys or a key set are necessary")

end StorageRPC.Recorded

namespace RemoveResponse

/-- The response can be encoded. There is no encoding of a missing value. -/
def Encodable : RemoveResponse → Prop
  | .dataMap result1 => ∀ k, result1.get k ≠ some none
  | .keyMapByte _ => True

/-- The response has the value of the key, or says that it was removed. -/
def ListsRemoved (k : Number640) : RemoveResponse → Prop
  | .dataMap result1 => ∃ d, result1.get k = some (some d)
  | .keyMapByte result2 => result2.get k = some PutStatus.OK.ordinal

/-- The response has the key without a value, or says that it was refused. -/
def ListsRefused (k : Number640) : RemoveResponse → Prop
  | .dataMap result1 => result1.get k = some none
  | .keyMapByte result2 => result2.get k = some PutStatus.FAILED_SECURITY.ordinal

end RemoveResponse

/-! ### Adding to a List

How a peer stores a value that is added under a location and a domain without a content key
of its own. The content key is a random number, and the value is put only if nothing is
stored under its key, so that another number can be tried otherwise.
-/

namespace StorageRPC

variable (sl : StorageLayer)

/-- The entry's key with another content key. -/
def listKey (entry : Number640 × Data) (contentKey2 : Number160) : Number640 :=
  ⟨entry.1.locationKey, entry.1.domainKey, contentKey2, entry.1.versionKey⟩

/-- One attempt. The state of the loop is `contentKey2` with the random numbers that are
    left. -/
def addPass (key : Number640) (newData : Data) (publicKey : Option PublicKey)
    (protectDomain sendSelf : Bool) (RND : Number160 × Stream' Number160) :
    StoreM ((Number160 × Stream' Number160) ⊕ (PutStatus × Stream' Number160)) := do
  let status ← sl.put key newData publicKey true protectDomain sendSelf
  if status = .FAILED_NOT_ABSENT then
    -- The key was made from the first `contentKey2` before the loop and stays what it is.
    pure (.inl (RND.2.head, RND.2.tail))
  else
    pure (.inr (status, RND.2))

/-- Adds one entry, and hands back the random numbers that are left. The loop makes at most
    `fuel` attempts. -/
def doAdd (fuel : Nat) (protectDomain : Bool) (entry : Number640 × Data)
    (publicKey : Option PublicKey) (list sendSelf : Bool) (RND : Stream' Number160) :
    StoreM (Option (PutStatus × Stream' Number160)) :=
  if list then
    Effect.whileUpTo
      (addPass sl (listKey entry RND.head) entry.2 publicKey protectDomain sendSelf) fuel
      (RND.head, RND.tail)
  else
    (fun status => some (status, RND)) <$>
      sl.put entry.1 entry.2 publicKey false protectDomain sendSelf

end StorageRPC

end TomP2P
