import TomP2P.Core.StorageMemory
import TomP2P.Foundation.Effect

/-!
# The Storage Layer

The operations a peer offers on its store, with the protection of domains and
entries and the versioning of contents.

A write is checked before it is made, but the checks are not pure: a check that
grants a claim records the new owner at once, and a later check may still turn
the write down. The operations are therefore programs over the backend that
keep what they have written when they throw.

The two loops of the version computation carry a bound on their number of
iterations, since an entry leaves the map in every iteration that finds one.
The order in which a hash container hands out its elements is unspecified; the
contents touched by one call are visited here in the order of their first key.

## Main definitions

* `StorageLayer`: The protection settings and the version limit.
* `securityDomainCheck`, `securityEntryCheck`: The checks before a write.
* `putEntry`, `putAll`: Writing one key, and writing a map of them.
* `remove`, `removeReturnData`, `removeReturnStatus`: Removing.
* `updateMetaDomain`, `updateMetaEntry`, `putConfirm`: Changing what is stored.
* `checkTimeout`: Dropping what has expired.
* `StorageOp`, `StorageOp.run`: All operations as one type.
-/

namespace TomP2P

open Effect

inductive ProtectionEnable
  | ALL
  | NONE
  deriving DecidableEq

inductive ProtectionMode
  | NO_MASTER
  | MASTER_PUBLIC_KEY
  deriving DecidableEq

inductive PutStatus
  | OK
  | OK_PREPARED
  | OK_UNCHANGED
  | FAILED_NOT_ABSENT
  | FAILED_SECURITY
  | FAILED
  | VERSION_FORK
  | NOT_FOUND
  | DELETED
  deriving DecidableEq

/-- The byte a status is answered as. -/
def PutStatus.ordinal : PutStatus → Wire.Byte
  | .OK => 0
  | .OK_PREPARED => 1
  | .OK_UNCHANGED => 2
  | .FAILED_NOT_ABSENT => 3
  | .FAILED_SECURITY => 4
  | .FAILED => 5
  | .VERSION_FORK => 6
  | .NOT_FOUND => 7
  | .DELETED => 8

/-- The settings of a storage layer, with their defaults. -/
structure StorageLayer where
  protectionDomainMode : ProtectionMode := .MASTER_PUBLIC_KEY
  protectionDomainEnable : ProtectionEnable := .ALL
  protectionEntryMode : ProtectionMode := .MASTER_PUBLIC_KEY
  protectionEntryEnable : ProtectionEnable := .ALL
  removedDomains : List Number160 := []
  maxVersions : BitVec 32 := -1

/-- A program over the backend. -/
abbrev StoreM := EStateM JavaException StorageMemory

namespace StorageLayer

variable (sl : StorageLayer)

-- Protection

def isMine (key : Number160) (publicKey : PublicKey) : Except JavaException Bool :=
  match publicKey.getEncoded with
  | none => .error .nullPointer
  | some bytes => .ok (key = makeSHAHash bytes)

/-- The placeholder key has no encoding to hash, and there is no check for it
    here as there is in `foreceOverrideEntry`. -/
def foreceOverrideDomain (domainKey : Number160) :
    Option PublicKey → Except JavaException Bool
  | none => .ok false
  | some publicKey =>
      if sl.protectionDomainMode = .MASTER_PUBLIC_KEY then isMine domainKey publicKey
      else .ok false

def foreceOverrideEntry (entryKey : Number160) : Option PublicKey → Bool
  | none => false
  | some publicKey =>
      match publicKey.getEncoded with
      | none => false
      | some bytes =>
          sl.protectionEntryMode = .MASTER_PUBLIC_KEY && entryKey = makeSHAHash bytes

def canClaimDomain (m : StorageMemory) (key : Number320) (publicKey : Option PublicKey) :
    Except JavaException Bool :=
  match sl.foreceOverrideDomain key.domainKey publicKey with
  | .error e => .error e
  | .ok domainOverridableByMe =>
      .ok (!m.isDomainProtectedByOthers key publicKey || domainOverridableByMe)

def canClaimEntry (m : StorageMemory) (key : Number480) (publicKey : Option PublicKey) : Bool :=
  !m.isEntryProtectedByOthers key publicKey || sl.foreceOverrideEntry key.contentKey publicKey

def canProtectDomain (domainKey : Number160) (publicKey : Option PublicKey) :
    Except JavaException Bool :=
  if domainKey ∈ sl.removedDomains then .ok false
  else match sl.protectionDomainEnable with
    | .ALL => .ok true
    | .NONE => sl.foreceOverrideDomain domainKey publicKey

def canProtectEntry (contentKey : Number160) (publicKey : Option PublicKey) : Bool :=
  match sl.protectionEntryEnable with
  | .ALL => true
  | .NONE => sl.foreceOverrideEntry contentKey publicKey

/-- Whether the domain lets the message through. A granted claim is recorded. -/
def securityDomainCheck (key : Number320) (publicKey newPublicKey : Option PublicKey)
    (domainProtection : Bool) : StoreM Bool := do
  let m ← get
  if domainProtection then
    if ← Effect.ofExcept (sl.canClaimDomain m key publicKey) then
      if ← Effect.ofExcept (sl.canProtectDomain key.domainKey publicKey) then
        let m' ← Effect.ofExcept (m.protectDomain key newPublicKey)
        modify fun _ => m'
        pure true
      else
        pure true
    else
      pure false
  else
    pure (!m.isDomainProtectedByOthers key publicKey)

/-- Whether the entry lets the message through. A replicating peer cannot sign
    with the key of the author, so the key named by the value counts as well.
    A granted claim is recorded, for the key named by the value. -/
def securityEntryCheck (key : Number480) (publicKeyMessage publicKeyData : Option PublicKey)
    (entryProtection : Bool) : StoreM Bool := do
  let m ← get
  if entryProtection then
    if sl.canClaimEntry m key publicKeyMessage || sl.canClaimEntry m key publicKeyData then
      -- The domain key stands where the content key is expected.
      if sl.canProtectEntry key.domainKey publicKeyMessage then
        let m' ← Effect.ofExcept (m.protectEntry key publicKeyData)
        modify fun _ => m'
        pure true
      else
        pure true
    else
      pure false
  else
    pure (!m.isEntryProtectedByOthers key publicKeyMessage)

-- Versions

/-- Removes an entry and everything it is based on, first in first out. -/
def deletePredecessors (content : Number480) :
    Nat → List Number640 → NavMap Number640 Data → NavMap Number640 Data
  | 0, _, sortedMap => sortedMap
  | _ + 1, [], sortedMap => sortedMap
  | fuel + 1, key2 :: toRemove, sortedMap =>
      match sortedMap.get key2 with
      | none => deletePredecessors content fuel toRemove sortedMap
      | some version =>
          deletePredecessors content fuel
            (toRemove ++ version.basedOnSet.elems.map content.version) (sortedMap.remove key2)

/-- The number of based-on keys in a map, which bounds the iterations of
    `deletePredecessors` after the first. -/
def basedOnTotal (m : NavMap Number640 Data) : Nat :=
  (m.entries.map fun e => e.2.basedOnSet.size).sum

/-- Takes the last entry as a head and deletes its predecessors, until nothing
    is left. -/
def latestLoop (copy : Data → Data) :
    Nat → NavMap Number640 Data → NavMap Number640 Data → NavMap Number640 Data
  | 0, _, result => result
  | fuel + 1, input, result =>
      match input.lastEntry with
      | none => result
      | some (key, latest) =>
          latestLoop copy fuel
            (deletePredecessors key.locationAndDomainAndContentKey (basedOnTotal input + 1) [key]
              input)
            (result.put key (copy latest))

def getLatestInternal (input : NavMap Number640 Data) : NavMap Number640 Data :=
  latestLoop Data.duplicate input.size input .empty

def getLatestInternalOrig (input : NavMap Number640 Data) : NavMap Number640 Data :=
  latestLoop id input.size input .empty

/-- Copies entries in the given order until the limit is used up. A negative
    limit is none. -/
def filterCopyLoop (keep : Data → Bool) (copy : Data → Data) (limit : Int) :
    List (Number640 × Data) → Nat → NavMap Number640 Data → NavMap Number640 Data
  | [], _, retVal => retVal
  | entry :: rest, counter, retVal =>
      if keep entry.2 then
        if 0 ≤ limit ∧ limit ≤ counter then retVal
        else filterCopyLoop keep copy limit rest (counter + 1)
          (retVal.put entry.1 (copy entry.2))
      else filterCopyLoop keep copy limit rest counter retVal

def inDirection (tmp : NavMap Number640 Data) (ascending : Bool) : List (Number640 × Data) :=
  if ascending then tmp.entries else tmp.entries.reverse

def filterCopy (tmp : NavMap Number640 Data) (limit : Int) (ascending : Bool) :
    NavMap Number640 Data :=
  filterCopyLoop (fun d => !d.hasPrepareFlag) Data.duplicate limit (inDirection tmp ascending) 0
    .empty

def filterCopyOrig (tmp : NavMap Number640 Data) (limit : Int) (ascending filterPrepared : Bool) :
    NavMap Number640 Data :=
  filterCopyLoop (fun d => !filterPrepared || !d.hasPrepareFlag) id limit
    (inDirection tmp ascending) 0 .empty

-- Writing

/-- The time of the first version plus the limit is not after the time of the
    last one, as signed 64-bit numbers. -/
def tooOld (first last : Number640) : Bool :=
  (first.versionKey.timestamp + sl.maxVersions.signExtend 64).sle last.versionKey.timestamp

/-- Removes versions from the front of the list while they are too old. -/
def pruneVersions : List (Number640 × Data) → StorageMemory → StorageMemory
  | [], m => m
  | entry :: versions, m =>
      if sl.tooOld entry.1 ((entry :: versions).getLast (List.cons_ne_nil _ _)).1 then
        pruneVersions versions ((m.remove entry.1).removeTimeout entry.1)
      else m

/-- The key a value names. A message to ourselves does not pass the codecs, which
    put the message key where the value has none, so it is done here. -/
def dataKey (publicKey : Option PublicKey) (sendSelf : Bool) (newData : Data) :
    Option PublicKey :=
  if sendSelf && newData.publicKey.isNone then publicKey else newData.publicKey

/-- Why a value stored under the key already stops the write, if it does. -/
def blockedBy (m : StorageMemory) (putIfAbsent : Bool) (key : Number640) (newData : Data) :
    Option PutStatus :=
  match m.get key with
  | none => none
  | some oldDataGet =>
      if putIfAbsent then some .FAILED_NOT_ABSENT
      else if oldDataGet.isDeleted then some .DELETED
      else if !oldDataGet.basedOnSet.equals newData.basedOnSet then some .VERSION_FORK
      else none

/-- The checks and the write for one key. -/
def putEntry (publicKey : Option PublicKey) (putIfAbsent domainProtection sendSelf : Bool)
    (key : Number640) (newData : Data) : StoreM PutStatus := do
  if ← sl.securityDomainCheck key.locationAndDomainKey publicKey publicKey domainProtection then
    if ← sl.securityEntryCheck key.locationAndDomainAndContentKey publicKey
        (dataKey publicKey sendSelf newData) newData.isProtectedEntry then
      match blockedBy (← get) putIfAbsent key newData with
      | some status => pure status
      | none =>
          modify fun m => (m.put key newData).addTimeout key newData.expirationMillis
          pure (if newData.hasPrepareFlag then .OK_PREPARED else .OK)
    else
      pure .FAILED_SECURITY
  else
    pure .FAILED_SECURITY

def putLoop (publicKey : Option PublicKey) (putIfAbsent domainProtection sendSelf : Bool) :
    List (Number640 × Data) → NavMap Number640 PutStatus → StoreM (NavMap Number640 PutStatus)
  | [], retVal => pure retVal
  | entry :: rest, retVal => do
      let status ← sl.putEntry publicKey putIfAbsent domainProtection sendSelf entry.1 entry.2
      putLoop publicKey putIfAbsent domainProtection sendSelf rest (retVal.put entry.1 status)

/-- Marks the keys of this call that are among several heads. -/
def markForks (heads : NavMap Number640 Data) (retVal : NavMap Number640 PutStatus) :
    NavMap Number640 PutStatus :=
  if 1 < heads.size then
    heads.keys.foldl (fun r k => if r.contains k then r.put k .VERSION_FORK else r) retVal
  else retVal

/-- The fork check and the removal of old versions for the contents touched. -/
def versionLoop : List Number480 → NavMap Number640 PutStatus → StorageMemory →
    NavMap Number640 PutStatus × StorageMemory
  | [], retVal, m => (retVal, m)
  | key :: keysToCheck, retVal, m =>
      let heads := getLatestInternalOrig (filterCopyOrig (m.versions key) (-1) true false)
      versionLoop keysToCheck (markForks heads retVal)
        (if 0 < sl.maxVersions.toInt then sl.pruneVersions (m.versions key).entries m else m)

/-- The contents a call touches, whether or not its writes are let through. -/
def keysToCheck (dataMap : NavMap Number640 Data) : HashedSet Number480 :=
  HashedSet.ofList (dataMap.keys.map Number640.locationAndDomainAndContentKey)

def putAll (dataMap : NavMap Number640 Data) (publicKey : Option PublicKey)
    (putIfAbsent domainProtection sendSelf : Bool) : StoreM (NavMap Number640 PutStatus) := do
  let retVal ← sl.putLoop publicKey putIfAbsent domainProtection sendSelf dataMap.entries .empty
  let m ← get
  modify fun _ => (sl.versionLoop (keysToCheck dataMap).elems retVal m).2
  pure (sl.versionLoop (keysToCheck dataMap).elems retVal m).1

def put (key : Number640) (newData : Data) (publicKey : Option PublicKey)
    (putIfAbsent domainProtection sendSelf : Bool) : StoreM PutStatus :=
  (fun putStatus => (putStatus.get key).getD .FAILED) <$>
    sl.putAll (NavMap.empty.put key newData) publicKey putIfAbsent domainProtection sendSelf

-- Removing

def remove (key : Number640) (publicKey : Option PublicKey) (_returnData : Bool) :
    StoreM (Option Data × PutStatus) := do
  let m ← get
  if ← Effect.ofExcept (sl.canClaimDomain m key.locationAndDomainKey publicKey) then
    if sl.canClaimEntry m key.locationAndDomainAndContentKey publicKey then
      if m.contains key then
        modify fun m => (m.removeTimeout key).remove key
        pure (m.get key, .OK)
      else
        pure (none, .NOT_FOUND)
    else
      pure (none, .FAILED_SECURITY)
  else
    pure (none, .FAILED_SECURITY)

/-- One key of `removeReturnData`. The answer of a refused key is null. A key
    whose value names another author is passed over in silence. -/
def removeData (publicKey : Option PublicKey) (key : Number640)
    (result : NavMap Number640 (Option Data)) : StoreM (NavMap Number640 (Option Data)) := do
  let m ← get
  if ← Effect.ofExcept (sl.canClaimDomain m key.locationAndDomainKey publicKey) then
    if sl.canClaimEntry m key.locationAndDomainAndContentKey publicKey then
      match m.get key with
      | none => pure result
      | some toRemove =>
          if toRemove.publicKey.isNone || toRemove.publicKey = publicKey then
            modify fun m => (m.removeTimeout key).remove key
            pure (result.put key (some toRemove))
          else
            pure result
    else
      pure (result.put key none)
  else
    pure (result.put key none)

def removeReturnData (fromKey toKey : Number640) (publicKey : Option PublicKey) :
    StoreM (NavMap Number640 (Option Data)) := do
  let tmp ← Effect.ofExcept ((← get).subMap fromKey toKey)
  tmp.keys.foldlM (fun result key => sl.removeData publicKey key result) .empty

def removeReturnStatus (fromKey toKey : Number640) (publicKey : Option PublicKey) :
    StoreM (NavMap Number640 Wire.Byte) := do
  let tmp ← Effect.ofExcept ((← get).subMap fromKey toKey)
  tmp.keys.foldlM (fun result key =>
    (fun pair => result.put key pair.2.ordinal) <$> sl.remove key publicKey false) .empty

-- Changing what is stored

/-- Hands a domain over to a new owner. -/
def updateMetaDomain (locationAndDomainKey : Number320)
    (publicKey newPublicKey : Option PublicKey) : StoreM PutStatus := do
  if ← sl.securityDomainCheck locationAndDomainKey publicKey newPublicKey true then
    pure .OK
  else
    pure .FAILED_SECURITY

/-- Changes a stored value in place. Unlike `putEntry`, this asks the entry only
    and not the domain. -/
def amendEntry (change : Data → Data → Data) (publicKey : Option PublicKey) (key : Number640)
    (newData : Data) : StoreM PutStatus := do
  if ← sl.securityEntryCheck key.locationAndDomainAndContentKey publicKey newData.publicKey
      newData.isProtectedEntry then
    match (← get).get key with
    | none => pure .NOT_FOUND
    | some data =>
        let changed := change data newData
        modify fun m => (m.addTimeout key changed.expirationMillis).put key changed
        pure .OK
  else
    pure .FAILED_SECURITY

/-- The value after an update of its meta data. -/
def updatedMeta (data newData : Data) : Data :=
  let data := if newData.publicKey.isSome then data.setPublicKey newData.publicKey else data
  let data := if newData.isSigned then data.setSignature newData.signature else data
  (data.setValidFromMillis newData.validFromMillis).setTtlSeconds newData.ttlSeconds

def updateMetaEntry (publicKey : Option PublicKey) (key : Number640) (newData : Data) :
    StoreM PutStatus :=
  sl.amendEntry updatedMeta publicKey key newData

/-- The value after its confirmation. -/
def confirmed (data newData : Data) : Data :=
  ((data.setPrepareFlag false).setValidFromMillis newData.validFromMillis).setTtlSeconds
    newData.ttlSeconds

def putConfirm (publicKey : Option PublicKey) (key : Number640) (newData : Data) :
    StoreM PutStatus :=
  sl.amendEntry confirmed publicKey key newData

-- Maintenance

def minKey (locationKey : Number160) : Number640 :=
  ⟨locationKey, Number160.ZERO, Number160.ZERO, Number160.ZERO⟩

def maxKey (locationKey : Number160) : Number640 :=
  ⟨locationKey, Number160.MAX_VALUE, Number160.MAX_VALUE, Number160.MAX_VALUE⟩

def isEmpty (m : StorageMemory) (locationKey : Number160) : Bool :=
  (m.dataMap.subMap (minKey locationKey) (maxKey locationKey)).isEmpty

/-- Drops one key whose time has come, and the responsibility for its location
    with the last value there. -/
def expire (m : StorageMemory) (key : Number640) : StorageMemory :=
  let m' := (m.remove key).removeTimeout key
  if isEmpty m' key.locationKey then m'.removeResponsibility key.locationKey else m'

/-- Drops every key whose timeout lies in `[0, time)`. -/
def checkTimeout (time : Int) : StoreM Unit := do
  let toRemove ← Effect.ofExcept ((← get).subMapTimeout time)
  modify fun m => toRemove.foldl expire m

def removeResponsibility (locationKey : Number160) (keepData : Bool) : StoreM Unit := do
  if keepData then
    modify fun m => m.removeResponsibility locationKey
  else
    let removed ← Effect.ofExcept ((← get).removeRange (minKey locationKey) (maxKey locationKey))
    modify fun _ => (removed.1.keys.foldl StorageMemory.removeTimeout
      removed.2).removeResponsibility locationKey

end StorageLayer

/-- The operations that change the store. -/
inductive StorageOp
  | putAll (dataMap : NavMap Number640 Data) (publicKey : Option PublicKey)
      (putIfAbsent domainProtection sendSelf : Bool)
  | put (key : Number640) (newData : Data) (publicKey : Option PublicKey)
      (putIfAbsent domainProtection sendSelf : Bool)
  | remove (key : Number640) (publicKey : Option PublicKey) (returnData : Bool)
  | removeReturnData (fromKey toKey : Number640) (publicKey : Option PublicKey)
  | removeReturnStatus (fromKey toKey : Number640) (publicKey : Option PublicKey)
  | updateMetaDomain (locationAndDomainKey : Number320) (publicKey newPublicKey : Option PublicKey)
  | updateMetaEntry (publicKey : Option PublicKey) (key : Number640) (newData : Data)
  | putConfirm (publicKey : Option PublicKey) (key : Number640) (newData : Data)
  | checkTimeout (time : Int)
  | removeResponsibility (locationKey : Number160) (keepData : Bool)

/-- What an operation answers. -/
inductive StorageAnswer
  | puts (retVal : NavMap Number640 PutStatus)
  | status (status : PutStatus)
  | removed (pair : Option Data × PutStatus)
  | removedData (result : NavMap Number640 (Option Data))
  | removedStatus (result : NavMap Number640 Wire.Byte)
  | done

def StorageOp.run (sl : StorageLayer) : StorageOp → StoreM StorageAnswer
  | .putAll dataMap publicKey putIfAbsent domainProtection sendSelf =>
      .puts <$> sl.putAll dataMap publicKey putIfAbsent domainProtection sendSelf
  | .put key newData publicKey putIfAbsent domainProtection sendSelf =>
      .status <$> sl.put key newData publicKey putIfAbsent domainProtection sendSelf
  | .remove key publicKey returnData => .removed <$> sl.remove key publicKey returnData
  | .removeReturnData fromKey toKey publicKey =>
      .removedData <$> sl.removeReturnData fromKey toKey publicKey
  | .removeReturnStatus fromKey toKey publicKey =>
      .removedStatus <$> sl.removeReturnStatus fromKey toKey publicKey
  | .updateMetaDomain locationAndDomainKey publicKey newPublicKey =>
      .status <$> sl.updateMetaDomain locationAndDomainKey publicKey newPublicKey
  | .updateMetaEntry publicKey key newData => .status <$> sl.updateMetaEntry publicKey key newData
  | .putConfirm publicKey key newData => .status <$> sl.putConfirm publicKey key newData
  | .checkTimeout time => (fun _ => .done) <$> StorageLayer.checkTimeout time
  | .removeResponsibility locationKey keepData =>
      (fun _ => .done) <$> StorageLayer.removeResponsibility locationKey keepData

end TomP2P
