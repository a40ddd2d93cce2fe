import TomP2P.Core.Message
import TomP2P.Core.StorageRead

/-!
# Requests to Read Values

The requests that `StorageRPC` sends to read values or a digest of them, and what the
peer that stores the values makes of them.

A request names a range, a collection of keys, some contents of a domain, or a whole
domain. The last kind comes with Bloom filters, which the peer knows by their position
in the message. A request for the values always has three of them, with a filter that
stops nothing for one that is not set. A request for a digest has only those that are
set.

Messages arrive as they are sent. A Bloom filter is what the peer asks of it, which is not
the same for a filter without bits if the peer asks itself, since such a message is not
encoded. An answer in Bloom filters is described by the keys whose parts were added to them.

## Main definitions

* `TransmittedFilter`: A Bloom filter in a message.
* `GetBuilder`, `DigestBuilder`: What can be asked.
* `StorageRPC.get`, `StorageRPC.digest`: The requests.
* `StorageRPC.handleGet`, `StorageRPC.handleDigest`: The answers.
-/

namespace TomP2P

/-- A Bloom filter, as the peer has it that reads the message. -/
structure TransmittedFilter where
  contains : KeyFilter
  isFull : Bool

/-- All bits are set. -/
def FULL_FILTER : TransmittedFilter where
  contains := fun _ => true
  isFull := true

/-- A filter without bits. All of its bits are set as long as it stays in memory; the one that is
    read from a message has a word of them. -/
def EMPTY_FILTER (inMemory : Bool) : TransmittedFilter where
  contains := fun _ => false
  isFull := inMemory

/-- What is asked for. -/
structure SearchBuilder where
  fromKey : Option Number640 := none
  toKey : Option Number640 := none
  keys : Option (List Number640) := none
  locationKey : Option Number160 := none
  domainKey : Option Number160 := none
  versionKey : Number160 := Number160.ZERO
  contentKeys : Option (List Number160) := none
  /-- `contentKeyBloomFilter` of a `GetBuilder` -/
  keyBloomFilter : Option TransmittedFilter := none
  contentBloomFilter : Option TransmittedFilter := none
  returnNr : BitVec 32 := -1
  ascending : Bool := true
  bloomFilterAnd : Bool := true

structure GetBuilder extends SearchBuilder where
  versionKeyBloomFilter : Option TransmittedFilter := none

structure DigestBuilder extends SearchBuilder where
  returnBloomFilter : Bool := false
  returnMetaValues : Bool := false
  returnAllBloomFilter : Bool := false

/-- What the request for a digest wants to have. -/
inductive DigestCommand
  | DIGEST
  | DIGEST_BLOOMFILTER
  | DIGEST_META_VALUES
  | DIGEST_ALL_BLOOMFILTER
  deriving DecidableEq

/-- A request with its contents by type. -/
structure SearchMessage where
  type : Message.Type
  keys : List Number160 := []
  keyCollections : List (List Number640) := []
  bloomFilters : List TransmittedFilter := []
  integers : List (BitVec 32) := []

/-- What is sent back. -/
inductive SearchResponse
  /-- The values, or only what is known about them. -/
  | dataMap (result : NavMap Number640 Data) (convertMeta : Bool)
  | keyMap640Keys (digests : DigestInfo)
  /-- Bloom filters of the content and version keys, and of the contents if asked for. -/
  | bloomFilters (added : List Number640) (contents : Option (List Number160))

namespace SearchResponse

/-- The keys that a response is about. -/
def keys : SearchResponse → List Number640
  | .dataMap result _ => result.keys
  | .keyMap640Keys digests => digests.keys
  | .bloomFilters added _ => added

end SearchResponse

namespace StorageRPC

/-! ### Client -/

/-- The direction and the mode of the filters. -/
def searchType (ascending bloomFilterAnd : Bool) : Message.Type :=
  if ascending && bloomFilterAnd then .REQUEST_1
  else if !ascending && bloomFilterAnd then .REQUEST_2
  else if ascending && !bloomFilterAnd then .REQUEST_3
  else .REQUEST_4

/-- A request with the filters that are sent for a whole domain. -/
def searchMessage (b : SearchBuilder) (bloomFilters : List TransmittedFilter) : Except JavaException SearchMessage :=
  let type := searchType b.ascending b.bloomFilterAnd
  match b.fromKey, b.toKey with
  | some fromKey, some toKey => .ok { type := type, integers := [b.returnNr], keyCollections := [[fromKey, toKey]] }
  | _, _ =>
      match b.keys with
      | some keys => .ok { type := type, keyCollections := [keys] }
      | none =>
          match b.locationKey, b.domainKey with
          | some locationKey, some domainKey =>
              match b.contentKeys with
              | some contentKeys =>
                  .ok { type := type, keys := [locationKey, domainKey],
                        keyCollections := [contentKeys.map fun contentKey =>
                          ⟨locationKey, domainKey, contentKey, b.versionKey⟩] }
              | none =>
                  .ok { type := type, keys := [locationKey, domainKey], integers := [b.returnNr],
                        bloomFilters := bloomFilters }
          | _, _ => .error (.illegalArgument "Null not allowed in location or domain")

/-- The filter that stops nothing. -/
def noFilter (inMemory bloomFilterAnd : Bool) : TransmittedFilter :=
  if bloomFilterAnd then FULL_FILTER else EMPTY_FILTER inMemory

/-- The request for the values, as it arrives. It stays in memory if a peer asks itself. -/
def get (inMemory : Bool) (b : GetBuilder) : Except JavaException SearchMessage :=
  searchMessage b.toSearchBuilder
    [b.keyBloomFilter.getD (noFilter inMemory b.bloomFilterAnd),
      b.versionKeyBloomFilter.getD (noFilter inMemory b.bloomFilterAnd),
      b.contentBloomFilter.getD (noFilter inMemory b.bloomFilterAnd)]

def digestCommand (b : DigestBuilder) : DigestCommand :=
  if b.returnBloomFilter then .DIGEST_BLOOMFILTER
  else if b.returnMetaValues then .DIGEST_META_VALUES
  else if b.returnAllBloomFilter then .DIGEST_ALL_BLOOMFILTER
  else .DIGEST

def digest (b : DigestBuilder) : Except JavaException SearchMessage :=
  searchMessage b.toSearchBuilder (b.keyBloomFilter.toList ++ b.contentBloomFilter.toList)

/-! ### Server -/

def isAscending (message : SearchMessage) : Bool := message.type = .REQUEST_1 || message.type = .REQUEST_3

def isBloomFilterAnd (message : SearchMessage) : Bool := message.type = .REQUEST_1 || message.type = .REQUEST_2

/-- No limit if there is no number. -/
def limitOf (returnNr : Option (BitVec 32)) : Int := (returnNr.getD (-1)).toInt

/-- The keys of a domain. -/
def domainRange (locationKey domainKey : Option Number160) : Except JavaException (Number640 × Number640) :=
  match locationKey, domainKey with
  | none, _ => .error (.runtime "locationKey cannot be null")
  | some _, none => .error (.runtime "domainKey cannot be null")
  | some locationKey, some domainKey =>
      .ok (⟨locationKey, domainKey, .ZERO, .ZERO⟩, ⟨locationKey, domainKey, .MAX_VALUE, .MAX_VALUE⟩)

def getCollection (m : StorageMemory) (keys : List Number640) : NavMap Number640 Data :=
  keys.foldl (fun result key =>
    match StorageLayer.get m key with
    | some data => result.put key data
    | none => result) .empty

/-- The filters are looked at if there are three, and one of them is not full. -/
def doGet (m : StorageMemory) (message : SearchMessage) : Except JavaException (NavMap Number640 Data) :=
  let limit := limitOf message.integers[0]?
  let ascending := isAscending message
  match message.keyCollections[0]? with
  | some contentKeys =>
      if message.integers[0]?.isNone then .ok (getCollection m contentKeys)
      else
        match contentKeys with
        | min :: max :: _ => StorageLayer.getRange m min max limit ascending
        | _ => .error .noSuchElement
  | none => do
      let (min, max) ← domainRange message.keys[0]? message.keys[1]?
      match message.bloomFilters[0]?, message.bloomFilters[1]?, message.bloomFilters[2]? with
      | some contentKeyBloomFilter, some versionBloomFilter, some contentBloomFilter =>
          if !contentKeyBloomFilter.isFull || !versionBloomFilter.isFull || !contentBloomFilter.isFull then
            StorageLayer.getBloom m min max contentKeyBloomFilter.contains versionBloomFilter.contains
              contentBloomFilter.contains limit ascending (isBloomFilterAnd message)
          else StorageLayer.getRange m min max limit ascending
      | _, _, _ => StorageLayer.getRange m min max limit ascending

/-- The filters are looked at if there is one. The second one is that of the versions by
    its name, but `StorageLayer.digest` takes it for one of the contents. -/
def doDigest (m : StorageMemory) (message : SearchMessage) : Except JavaException DigestInfo :=
  let limit := limitOf message.integers[0]?
  let ascending := isAscending message
  match message.keyCollections[0]? with
  | some contentKeys =>
      if message.integers[0]?.isNone then .ok (StorageLayer.digestCollection m contentKeys)
      else
        match contentKeys with
        | min :: max :: _ => StorageLayer.digestRange m min max limit ascending
        | _ => .error .noSuchElement
  | none => do
      let (min, max) ← domainRange message.keys[0]? message.keys[1]?
      if message.bloomFilters[0]?.isSome || message.bloomFilters[1]?.isSome then
        StorageLayer.digestBloom m ⟨min.locationKey, min.domainKey⟩ (message.bloomFilters[0]?.map (·.contains))
          (message.bloomFilters[1]?.map (·.contains)) limit ascending (isBloomFilterAnd message)
      else StorageLayer.digestRange m min max limit ascending

def handleGet (m : StorageMemory) (message : SearchMessage) : Except JavaException SearchResponse :=
  (.dataMap · false) <$> doGet m message

def handleDigest (m : StorageMemory) (command : DigestCommand) (message : SearchMessage) :
    Except JavaException SearchResponse :=
  match command with
  | .DIGEST_META_VALUES => (.dataMap · true) <$> doGet m message
  | .DIGEST_ALL_BLOOMFILTER =>
      (fun result => .bloomFilters result.keys (some (result.values.map Data.hash))) <$> doGet m message
  | .DIGEST_BLOOMFILTER => (fun digestInfo => .bloomFilters digestInfo.keys none) <$> doDigest m message
  | .DIGEST => .keyMap640Keys <$> doDigest m message

end StorageRPC

end TomP2P
