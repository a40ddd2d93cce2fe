import TomP2P.Core.StorageLayer

/-!
# Reading from the Storage Layer

The read operations of the storage layer. None of them changes the backend, so
they are functions of it; a range in the wrong order makes them throw.

A Bloom filter enters a read only through the answers of its `contains`, and is
given here by them. A digest is the map from keys to the versions they are
based on; its totals are computed from that map.

## Main definitions

* `StorageRead`: The read operations with their arguments.
* `StorageReply`: What they return.
* `StorageRead.answer`: Running a read on a backend.
-/

namespace TomP2P

/-- A Bloom filter, by the answers of its `contains`. -/
abbrev KeyFilter := Number160 → Bool

/-- The keys of a digest with the versions they are based on. -/
abbrev DigestInfo := NavMap Number640 (HashedSet Number160)

namespace StorageLayer

def getInternal (m : StorageMemory) (key : Number640) : Option Data :=
  match m.get key with
  | none => none
  | some data => if !data.hasPrepareFlag then some data else none

def get (m : StorageMemory) (key : Number640) : Option Data :=
  (getInternal m key).map Data.duplicate

def getRange (m : StorageMemory) (fromKey toKey : Number640) (limit : Int) (ascending : Bool) :
    Except JavaException (NavMap Number640 Data) := do
  let tmp ← m.subMap fromKey toKey
  return filterCopy tmp limit ascending

def getAll (m : StorageMemory) : NavMap Number640 Data := filterCopy m.dataMap (-1) true

def getLatestVersion (m : StorageMemory) (key : Number640) :
    Except JavaException (NavMap Number640 Data) := do
  let tmp ← m.subMap key.minVersionKey key.maxVersionKey
  return getLatestInternal (filterCopyOrig tmp (-1) true true)

/-- Whether an entry passes the three filters: each of them holds it in the one
    mode, none of them in the other. -/
def passes (contentKeyBloomFilter versionKeyBloomFilter contentBloomFilter : KeyFilter)
    (isBloomFilterAnd : Bool) (key : Number640) (data : Data) : Bool :=
  contentKeyBloomFilter key.contentKey == isBloomFilterAnd &&
    versionKeyBloomFilter key.versionKey == isBloomFilterAnd &&
    contentBloomFilter data.hash == isBloomFilterAnd

def getBloom (m : StorageMemory) (fromKey toKey : Number640)
    (contentKeyBloomFilter versionKeyBloomFilter contentBloomFilter : KeyFilter)
    (limit : Int) (ascending isBloomFilterAnd : Bool) :
    Except JavaException (NavMap Number640 Data) := do
  let tmp ← m.subMap fromKey toKey
  return (filterCopy tmp limit ascending).filter
    (passes contentKeyBloomFilter versionKeyBloomFilter contentBloomFilter isBloomFilterAnd)

/-- The entries of a map that enter a digest. -/
def digestOf (tmp : NavMap Number640 Data) (select : Number640 → Data → Bool) : DigestInfo :=
  tmp.entries.foldl (fun digestInfo entry =>
    if select entry.1 entry.2 && !entry.2.hasPrepareFlag then
      digestInfo.put entry.1 entry.2.basedOnSet
    else digestInfo) .empty

def digestRange (m : StorageMemory) (fromKey toKey : Number640) (limit : Int) (ascending : Bool) :
    Except JavaException DigestInfo := do
  let tmp ← m.subMap fromKey toKey
  return digestOf (filterCopyOrig tmp limit ascending true) fun _ _ => true

/-- A filter that is missing lets everything through in both modes. -/
def admits (filter : Option KeyFilter) (isBloomFilterAnd : Bool) (n : Number160) : Bool :=
  match filter with
  | none => true
  | some contains => contains n == isBloomFilterAnd

def digestBloom (m : StorageMemory) (locationAndDomainKey : Number320)
    (keyBloomFilter contentKeyBloomFilter : Option KeyFilter) (limit : Int)
    (ascending isBloomFilterAnd : Bool) : Except JavaException DigestInfo := do
  let tmp ← m.subMap
    ⟨locationAndDomainKey.locationKey, locationAndDomainKey.domainKey, Number160.ZERO,
      Number160.ZERO⟩
    ⟨locationAndDomainKey.locationKey, locationAndDomainKey.domainKey, Number160.MAX_VALUE,
      Number160.MAX_VALUE⟩
  return digestOf (filterCopyOrig tmp limit ascending true) fun key data =>
    admits keyBloomFilter isBloomFilterAnd key.contentKey &&
      admits contentKeyBloomFilter isBloomFilterAnd data.hash

def digestCollection (m : StorageMemory) (number640s : List Number640) : DigestInfo :=
  number640s.foldl (fun digestInfo number640 =>
    if m.contains number640 then
      match getInternal m number640 with
      | none => digestInfo
      | some data => digestInfo.put number640 data.basedOnSet
    else digestInfo) .empty

end StorageLayer

/-- The read operations. -/
inductive StorageRead
  | get (key : Number640)
  | getRange (fromKey toKey : Number640) (limit : Int) (ascending : Bool)
  | getBloom (fromKey toKey : Number640)
      (contentKeyBloomFilter versionKeyBloomFilter contentBloomFilter : KeyFilter)
      (limit : Int) (ascending isBloomFilterAnd : Bool)
  | getAll
  | getLatestVersion (key : Number640)
  | digestRange (fromKey toKey : Number640) (limit : Int) (ascending : Bool)
  | digestBloom (locationAndDomainKey : Number320)
      (keyBloomFilter contentKeyBloomFilter : Option KeyFilter) (limit : Int)
      (ascending isBloomFilterAnd : Bool)
  | digestCollection (number640s : List Number640)

/-- What a read returns. -/
inductive StorageReply
  | data (data : Option Data)
  | map (map : NavMap Number640 Data)
  | digest (digestInfo : DigestInfo)
  deriving DecidableEq

def StorageRead.answer (m : StorageMemory) : StorageRead → Except JavaException StorageReply
  | .get key => .ok (.data (StorageLayer.get m key))
  | .getRange fromKey toKey limit ascending =>
      .map <$> StorageLayer.getRange m fromKey toKey limit ascending
  | .getBloom fromKey toKey contentKeyBloomFilter versionKeyBloomFilter contentBloomFilter limit
      ascending isBloomFilterAnd =>
      .map <$> StorageLayer.getBloom m fromKey toKey contentKeyBloomFilter versionKeyBloomFilter
        contentBloomFilter limit ascending isBloomFilterAnd
  | .getAll => .ok (.map (StorageLayer.getAll m))
  | .getLatestVersion key => .map <$> StorageLayer.getLatestVersion m key
  | .digestRange fromKey toKey limit ascending =>
      .digest <$> StorageLayer.digestRange m fromKey toKey limit ascending
  | .digestBloom locationAndDomainKey keyBloomFilter contentKeyBloomFilter limit ascending
      isBloomFilterAnd =>
      .digest <$> StorageLayer.digestBloom m locationAndDomainKey keyBloomFilter
        contentKeyBloomFilter limit ascending isBloomFilterAnd
  | .digestCollection number640s => .ok (.digest (StorageLayer.digestCollection m number640s))

end TomP2P
