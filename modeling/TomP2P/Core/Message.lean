import TomP2P.Core.Address
import TomP2P.Core.BloomFilter
import TomP2P.Core.Data
import TomP2P.Foundation.NavMap

/-!
# Messages

A message is a header and up to eight contents. The header lists the types of
the contents, in order, and the contents stand in one list per type; the two
types that carry a public key share a list. `Message.contentReferences` says for
each content which element of its list it is.

The setters come in one shape (`Message.set`): the type is entered in the
header, unless the header is known already because the message is being
received, and the content is added to its list.

## Main definitions

* `Content`, `Message.Type`: The types of contents and of messages.
* `NeighborSet`, `KeyCollection`, `DataMap`, `KeyMap640Keys`, `KeyMapByte`,
  `Buffer`, `TrackerData`: The composite contents.
* `Payload`: A content with its type.
* `Message`: A message, with its setters.
* `Message.restoreContentReferences`: The references of a message that is sent
  again.
* `Message.payload`: The content a reference stands for.
* `NeighborSet.stays`: The loop, with its answer for each neighbor.
* `NeighborSet.create`: The constructor.
-/

namespace TomP2P

open Wire

/-- The types of contents, in the order of their numbers. -/
inductive Content
  | EMPTY
  | KEY
  | MAP_KEY640_DATA
  | MAP_KEY640_KEYS
  | SET_KEY640
  | SET_NEIGHBORS
  | BYTE_BUFFER
  | LONG
  | INTEGER
  | PUBLIC_KEY_SIGNATURE
  | SET_TRACKER_DATA
  | BLOOM_FILTER
  | MAP_KEY640_BYTE
  | PUBLIC_KEY
  | PEER_SOCKET4
  | PEER_SOCKET6
  deriving DecidableEq

namespace Content

def values : List Content :=
  [EMPTY, KEY, MAP_KEY640_DATA, MAP_KEY640_KEYS, SET_KEY640, SET_NEIGHBORS, BYTE_BUFFER, LONG,
    INTEGER, PUBLIC_KEY_SIGNATURE, SET_TRACKER_DATA, BLOOM_FILTER, MAP_KEY640_BYTE, PUBLIC_KEY,
    PEER_SOCKET4, PEER_SOCKET6]

def ordinal (c : Content) : Nat := values.idxOf c

/-- The type with a number; every number of four bits has one. -/
def ofOrdinal (n : Nat) : Content := values.getD n EMPTY

theorem ofOrdinal_ordinal (c : Content) : ofOrdinal c.ordinal = c := by
  cases c <;> rfl

theorem ordinal_lt (c : Content) : c.ordinal < 16 := by
  cases c <;> decide

/-- Whether contents of this type stand in the list of public keys. -/
def isKey (c : Content) : Bool := c == PUBLIC_KEY_SIGNATURE || c == PUBLIC_KEY

end Content

/-- The types of messages, in the order of their numbers. -/
inductive Message.Type
  | REQUEST_1
  | REQUEST_2
  | REQUEST_3
  | REQUEST_4
  | REQUEST_5
  | REQUEST_FF_1
  | REQUEST_FF_2
  | OK
  | PARTIALLY_OK
  | NOT_FOUND
  | DENIED
  | UNKNOWN_ID
  | EXCEPTION
  | CANCEL
  | RESERVED1
  deriving DecidableEq

namespace Message.Type

def values : List Message.Type :=
  [REQUEST_1, REQUEST_2, REQUEST_3, REQUEST_4, REQUEST_5, REQUEST_FF_1, REQUEST_FF_2, OK,
    PARTIALLY_OK, NOT_FOUND, DENIED, UNKNOWN_ID, EXCEPTION, CANCEL, RESERVED1]

def ordinal (t : Message.Type) : Nat := values.idxOf t

theorem getElem?_ordinal (t : Message.Type) : values[t.ordinal]? = some t := by
  cases t <;> rfl

theorem ordinal_lt (t : Message.Type) : t.ordinal < 15 := by
  cases t <;> decide

def isRequest (t : Message.Type) : Bool :=
  t == REQUEST_1 || t == REQUEST_2 || t == REQUEST_3 || t == REQUEST_4 || t == REQUEST_5 ||
    t == REQUEST_FF_1 || t == REQUEST_FF_2

end Message.Type

/-! ### Composite contents -/

/-- A set of neighbors with the limit it was cut to. -/
structure NeighborSet where
  neighborLimit : Int
  neighbors : List PeerAddress
  deriving DecidableEq

namespace NeighborSet

/-- The loop over the neighbors: whether each of them stays. The size of each is computed from its
    flags, the sum of the sizes is an `int`, and the sizes of those that are taken out stay in it. -/
def stays (neighborLimit : Int) : Int → List PeerAddress → Except JavaException (List Bool)
  | _, [] => .ok []
  | serializedSize, neighbor :: neighbors => do
      let size ← neighbor.ownSize
      let serializedSize := int (serializedSize + size)
      let rest ← stays neighborLimit serializedSize neighbors
      return decide (serializedSize ≤ neighborLimit) :: rest

/-- A new set. There is no need to cut if there is no limit. -/
def create (neighborLimit : Int) (neighbors : List PeerAddress) : Except JavaException NeighborSet :=
  if neighborLimit ≥ 0 then do
    let marks ← stays neighborLimit 1 neighbors
    return ⟨neighborLimit, ((neighbors.zip marks).filter Prod.snd).map Prod.fst⟩
  else .ok ⟨neighborLimit, neighbors⟩

def add (s : NeighborSet) (a : PeerAddress) : NeighborSet := { s with neighbors := s.neighbors ++ [a] }

def size (s : NeighborSet) : Nat := s.neighbors.length

end NeighborSet

/-- A collection of keys, or of contents that share the rest of the key. -/
inductive KeyCollection
  | ofKeys (keys : List Number640)
  | ofConvert (locationKey domainKey versionKey : Number160) (keysConvert : List Number160)
  deriving DecidableEq

namespace KeyCollection

/-- The keys, completed if they are contents only. -/
def keys : KeyCollection → List Number640
  | .ofKeys keys => keys
  | .ofConvert l d v keysConvert => keysConvert.map fun c => ⟨l, d, c, v⟩

def size : KeyCollection → Nat
  | .ofKeys keys => keys.length
  | .ofConvert _ _ _ keysConvert => keysConvert.length

/-- Adds a complete key. -/
def add : KeyCollection → Number640 → KeyCollection
  | .ofKeys keys, k => .ofKeys (keys ++ [k])
  | .ofConvert l d v keysConvert, _ => .ofConvert l d v keysConvert

end KeyCollection

/-- Values under their keys, or under contents that share the rest of the key. -/
inductive DataMap.Entries
  | ofMap (dataMap : NavMap Number640 Data)
  | ofConvert (locationKey domainKey versionKey : Number160) (dataMapConvert : NavMap Number160 Data)
  deriving DecidableEq

/-- Values under their keys. If `convertMeta` is set only their headers are sent. -/
structure DataMap where
  entries : DataMap.Entries
  convertMeta : Bool := false
  deriving DecidableEq

namespace DataMap

/-- The values in the order of their keys, which are completed if they are
    contents only. -/
def pairs (m : DataMap) : List (Number640 × Data) :=
  match m.entries with
  | .ofMap dataMap => dataMap.entries
  | .ofConvert l d v dataMapConvert => dataMapConvert.entries.map fun e => (⟨l, d, e.1, v⟩, e.2)

def size (m : DataMap) : Nat :=
  match m.entries with
  | .ofMap dataMap => dataMap.size
  | .ofConvert _ _ _ dataMapConvert => dataMapConvert.size

/-- Puts a value under a complete key. -/
def put (m : DataMap) (k : Number640) (d : Data) : DataMap :=
  match m.entries with
  | .ofMap dataMap => { m with entries := .ofMap (dataMap.put k d) }
  | .ofConvert .. => m

def empty : DataMap := ⟨.ofMap .empty, false⟩

end DataMap

/-- Collections of keys under their keys. -/
structure KeyMap640Keys where
  keysMap : NavMap Number640 (List Number160)
  deriving DecidableEq

/-- Bytes under their keys. -/
structure KeyMapByte where
  keysMap : HashedMap Number640 Byte
  deriving DecidableEq

/-- Bytes with the length announced for them. -/
structure Buffer where
  buffer : Bytes
  length : BitVec 32
  deriving DecidableEq

/-- Values under the addresses of peers. The first address with a key stays. -/
structure TrackerData where
  peerAddresses : HashedMap PeerKey (PeerAddress × Data)
  deriving DecidableEq

namespace TrackerData

def empty : TrackerData := ⟨.empty⟩

def size (t : TrackerData) : Nat := t.peerAddresses.size

def put (t : TrackerData) (a : PeerAddress) (d : Data) : TrackerData :=
  let key := ((t.peerAddresses.get a.key).map Prod.fst).getD a
  ⟨t.peerAddresses.put a.key (key, d)⟩

end TrackerData

/-! ### Messages -/

/-- A content with its type. -/
inductive Payload
  | key (k : Number160)
  | dataMap (m : DataMap)
  | keyMap640Keys (m : KeyMap640Keys)
  | keyCollection (c : KeyCollection)
  | neighborsSet (s : NeighborSet)
  | buffer (b : Buffer)
  | longValue (x : BitVec 64)
  | intValue (x : BitVec 32)
  | publicKeyAndSign (k : PublicKey) (privateKey : Option PrivateKey)
  | trackerData (t : TrackerData)
  | bloomFilter (b : SimpleBloomFilter)
  | keyMapByte (m : KeyMapByte)
  | publicKey (k : PublicKey)
  | peerSocket4Address (a : PeerSocket4Address)
  | peerSocket6Address (a : PeerSocket6Address)
  deriving DecidableEq

namespace Payload

def content : Payload → Content
  | .key _ => .KEY
  | .dataMap _ => .MAP_KEY640_DATA
  | .keyMap640Keys _ => .MAP_KEY640_KEYS
  | .keyCollection _ => .SET_KEY640
  | .neighborsSet _ => .SET_NEIGHBORS
  | .buffer _ => .BYTE_BUFFER
  | .longValue _ => .LONG
  | .intValue _ => .INTEGER
  | .publicKeyAndSign .. => .PUBLIC_KEY_SIGNATURE
  | .trackerData _ => .SET_TRACKER_DATA
  | .bloomFilter _ => .BLOOM_FILTER
  | .keyMapByte _ => .MAP_KEY640_BYTE
  | .publicKey _ => .PUBLIC_KEY
  | .peerSocket4Address _ => .PEER_SOCKET4
  | .peerSocket6Address _ => .PEER_SOCKET6

end Payload

/-- Which element of the list of its type a content is. -/
structure MessageContentIndex where
  index : Nat
  content : Content
  deriving DecidableEq

/-- The address of a connection's end. -/
inductive InetSocketAddress
  | v4 (ip : BitVec 32) (port : Nat)
  | v6 (ip : IPv6) (port : Nat)
  deriving DecidableEq

/-- A message. Missing lists are empty ones; the sockets and the marks at the
    end are not transferred. -/
@[ext] structure Message where
  messageId : BitVec 32
  version : BitVec 32 := 0
  type : Option Message.Type := none
  command : Byte := 0
  sender : Option PeerAddress := none
  recipient : Option PeerAddress := none
  options : BitVec 32 := 0
  contentTypes : List (Option Content) := List.replicate 8 none
  contentReferences : List MessageContentIndex := []
  keyList : List Number160 := []
  dataMapList : List DataMap := []
  keyMap640KeysList : List KeyMap640Keys := []
  keyCollectionList : List KeyCollection := []
  neighborsList : List NeighborSet := []
  bufferList : List Buffer := []
  longList : List (BitVec 64) := []
  integerList : List (BitVec 32) := []
  trackerDataList : List TrackerData := []
  bloomFilterList : List SimpleBloomFilter := []
  keyMapByteList : List KeyMapByte := []
  publicKeyList : List PublicKey := []
  peerSocket4AddressList : List PeerSocket4Address := []
  peerSocket6AddressList : List PeerSocket6Address := []
  signatureEncode : Option SignatureCodec := none
  presetContentTypes : Bool := false
  privateKey : Option PrivateKey := none
  senderSocket : Option InetSocketAddress := none
  recipientSocket : Option InetSocketAddress := none
  udp : Bool := false
  done : Bool := false
  sign : Bool := false
  content : Bool := false
  verified : Bool := false
  deriving DecidableEq

namespace Message

def CONTENT_TYPE_LENGTH : Nat := 8

/-- The number of the element in its list and the types with a new one at the
    first free place. -/
def contentTypeLoop (contentType : Content) :
    List (Option Content) → Nat → Nat → Except JavaException (List (Option Content) × Nat)
  | [], _, _ => .error (.illegalState "Already set 8 content types.")
  | none :: ts, i, reference =>
      if contentType = .PUBLIC_KEY_SIGNATURE ∧ i ≠ 0 then
        .error (.illegalState "The public key needs to be the first to be set.")
      else .ok (some contentType :: ts, reference)
  | some t :: ts, i, reference =>
      let reference :=
        if t = contentType then reference + 1
        else if t.isKey && contentType.isKey then reference + 1
        else reference
      match contentTypeLoop contentType ts (i + 1) reference with
      | .error e => .error e
      | .ok (ts, reference) => .ok (some t :: ts, reference)

/-- Enters a type at the first free place of the header. -/
def contentType (m : Message) (contentType : Content) : Except JavaException Message :=
  match contentTypeLoop contentType m.contentTypes 0 0 with
  | .error e => .error e
  | .ok (contentTypes, reference) =>
      .ok { m with
        contentTypes := contentTypes
        contentReferences := m.contentReferences ++ [⟨reference, contentType⟩] }

/-- Adds a content to the list of its type. -/
def add (m : Message) : Payload → Message
  | .key k => { m with keyList := m.keyList ++ [k] }
  | .dataMap d => { m with dataMapList := m.dataMapList ++ [d] }
  | .keyMap640Keys k => { m with keyMap640KeysList := m.keyMap640KeysList ++ [k] }
  | .keyCollection c => { m with keyCollectionList := m.keyCollectionList ++ [c] }
  | .neighborsSet s => { m with neighborsList := m.neighborsList ++ [s] }
  | .buffer b => { m with bufferList := m.bufferList ++ [b] }
  | .longValue x => { m with longList := m.longList ++ [x] }
  | .intValue x => { m with integerList := m.integerList ++ [x] }
  | .publicKeyAndSign k privateKey =>
      { m with publicKeyList := m.publicKeyList ++ [k], privateKey := privateKey }
  | .trackerData t => { m with trackerDataList := m.trackerDataList ++ [t] }
  | .bloomFilter b => { m with bloomFilterList := m.bloomFilterList ++ [b] }
  | .keyMapByte k => { m with keyMapByteList := m.keyMapByteList ++ [k] }
  | .publicKey k => { m with publicKeyList := m.publicKeyList ++ [k] }
  | .peerSocket4Address a => { m with peerSocket4AddressList := m.peerSocket4AddressList ++ [a] }
  | .peerSocket6Address a => { m with peerSocket6AddressList := m.peerSocket6AddressList ++ [a] }

/-- The shape of the setters. -/
def set (m : Message) (p : Payload) : Except JavaException Message :=
  if m.presetContentTypes then .ok (m.add p)
  else
    match m.contentType p.content with
    | .error e => .error e
    | .ok m => .ok (m.add p)

/-- Adds contents one after the other. -/
def setAll (m : Message) : List Payload → Except JavaException Message
  | [] => .ok m
  | p :: ps =>
      match m.set p with
      | .error e => .error e
      | .ok m => m.setAll ps

/-- The index of the next content of a type, given that of each type met so far.
    A type of public keys that was not met goes on where the other one is. -/
def nextIndex (refs : HashedMap Content Nat) (contentType : Content) : Nat :=
  let index :=
    if contentType.isKey then
      match refs.get .PUBLIC_KEY_SIGNATURE with
      | some i1 => i1
      | none => (refs.get .PUBLIC_KEY).getD 0
    else 0
  (refs.get contentType).getD index

/-- The references to contents of these types, up to the first that is missing
    or `EMPTY`. -/
def restoreLoop : List (Option Content) → HashedMap Content Nat → List MessageContentIndex
  | [], _ => []
  | none :: _, _ => []
  | some contentType :: contentTypes, refs =>
      if contentType = .EMPTY then []
      else
        ⟨nextIndex refs contentType, contentType⟩ ::
          restoreLoop contentTypes (refs.put contentType (nextIndex refs contentType + 1))

/-- Adds the references the types stand for, for a message that is sent again. -/
def restoreContentReferences (m : Message) : Message :=
  { m with contentReferences := m.contentReferences ++ restoreLoop m.contentTypes .empty }

/-- The content a reference stands for. -/
def payload (m : Message) (next : MessageContentIndex) : Option Payload :=
  match next.content with
  | .EMPTY => none
  | .KEY => m.keyList[next.index]?.map .key
  | .MAP_KEY640_DATA => m.dataMapList[next.index]?.map .dataMap
  | .MAP_KEY640_KEYS => m.keyMap640KeysList[next.index]?.map .keyMap640Keys
  | .SET_KEY640 => m.keyCollectionList[next.index]?.map .keyCollection
  | .SET_NEIGHBORS => m.neighborsList[next.index]?.map .neighborsSet
  | .BYTE_BUFFER => m.bufferList[next.index]?.map .buffer
  | .LONG => m.longList[next.index]?.map .longValue
  | .INTEGER => m.integerList[next.index]?.map .intValue
  | .PUBLIC_KEY_SIGNATURE => m.publicKeyList[next.index]?.map (.publicKeyAndSign · m.privateKey)
  | .SET_TRACKER_DATA => m.trackerDataList[next.index]?.map .trackerData
  | .BLOOM_FILTER => m.bloomFilterList[next.index]?.map .bloomFilter
  | .MAP_KEY640_BYTE => m.keyMapByteList[next.index]?.map .keyMapByte
  | .PUBLIC_KEY => m.publicKeyList[next.index]?.map .publicKey
  | .PEER_SOCKET4 => m.peerSocket4AddressList[next.index]?.map .peerSocket4Address
  | .PEER_SOCKET6 => m.peerSocket6AddressList[next.index]?.map .peerSocket6Address

def publicKey (m : Message) (index : Nat) : Option PublicKey := m.publicKeyList[index]?

def isSign (m : Message) : Bool := m.sign || m.privateKey.isSome

def setHintSign (m : Message) : Message := { m with sign := true }

def hasContent (m : Message) : Bool := !m.contentReferences.isEmpty || m.content

def isRequest (m : Message) : Bool := m.type.any Message.Type.isRequest

def isStreaming (m : Message) : Bool := (0#32).slt (m.options &&& 2#32)

end Message

end TomP2P
