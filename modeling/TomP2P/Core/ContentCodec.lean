import TomP2P.Core.KeyMapCodec
import TomP2P.Core.TrackerDataCodec

/-!
# Contents on the Wire

How the contents of a message are written, and how those are read that may arrive in
parts: sets of neighbors, collections and maps of keys, maps of values, and buffers. Maps
of collections are in `Core.KeyMapCodec` and the data of trackers in
`Core.TrackerDataCodec`.

The number of elements comes first. The decoder keeps it with what it has collected, and
goes on from there when more bytes arrive. An element is read as soon as all of it is
there, a value of a map as soon as its header is there.

A value whose key is missing gets the key of a signed message. The decoder does that where
it reads a value from its header on, and not where it goes on with one.

## Main definitions

* `Collector.decode`: Collections whose elements are read in one piece.
* `NeighborSet.decode`, `KeyCollection.decode`, `KeyMapByte.decode`: Such collections.
* `DataMap.decode`: Maps of values.
* `Buffer.decode`: Buffers.
-/

namespace TomP2P

open Wire Reader

/-! ### Collections -/

/-- The number of elements, once it is known, and what was collected so far. -/
structure Collecting (C : Type) where
  size : BitVec 32 := -1#32
  collection : Option C := none
  deriving DecidableEq

/-- How the collections of a type are read: how many bytes the number of elements has, a
    new collection for that number, and the elements. -/
structure Collector (C E : Type) where
  width : Nat
  create : BitVec 32 → Except JavaException C
  count : C → Nat
  element : Reader JavaException (Collecting C) E
  add : C → E → C

namespace Collector

variable {C E : Type}

/-- An element for the collection. -/
def decodeNext (K : Collector C E) : Reader JavaException (Collecting C) Unit := do
  let e ← K.element
  modify fun s => { s with collection := s.collection.map fun c => K.add c e }

/-- The collection that was begun, or a new one. -/
def begun (K : Collector C E) (s : Collecting C) : Except JavaException C :=
  match s.collection with
  | some c => .ok c
  | none => K.create s.size

def decode (K : Collector C E) : Reader JavaException (Collecting C) C := do
  let s ← state
  if s.size = -1#32 then do
    need K.width
    let size ← field .indexOutOfBounds K.width 32
    modify fun s => { s with size }
  else pure ()
  let s ← state
  let collection ← lift (K.begun s)
  modify fun s => { s with collection := some collection }
  repeat_ K.decodeNext (s.size.toInt - K.count collection).toNat
  let s ← state
  modify fun _ => {}
  return s.collection.getD collection

end Collector

namespace NeighborSet

def collector : Collector NeighborSet PeerAddress where
  width := 1
  create _ := NeighborSet.create (-1) []
  count := size
  element := do
    need PeerAddress.HEADER_SIZE
    let header ← lookField 0 3 32
    need (PeerAddress.size header)
    PeerAddress.decode
  add := add

def decode : Reader JavaException (Collecting NeighborSet) NeighborSet := collector.decode

def encode (neighborSet : NeighborSet) : Except JavaException Bytes := do
  let neighbors ← encodeAll PeerAddress.encode neighborSet.neighbors
  return writeByte (BitVec.ofNat 32 neighborSet.size) ++ neighbors

end NeighborSet

namespace KeyCollection

/-- A new list with room for so many elements. -/
def newArrayList (initialCapacity : BitVec 32) : Except JavaException KeyCollection :=
  if initialCapacity.toInt < 0 then
    .error (.illegalArgument ("Illegal Capacity: " ++ toString initialCapacity.toInt))
  else .ok (.ofKeys [])

def collector : Collector KeyCollection Number640 where
  width := 4
  create := newArrayList
  count := size
  element := do
    need KeyMap640Keys.META
    Number640.decode
  add := add

def decode : Reader JavaException (Collecting KeyCollection) KeyCollection := collector.decode

def encode (keys : KeyCollection) : Bytes :=
  writeInt (BitVec.ofNat 32 keys.size) ++ keys.keys.flatMap Number640.encode

end KeyCollection

namespace KeyMapByte

def size (m : KeyMapByte) : Nat := m.keysMap.size

def put (m : KeyMapByte) (key : Number640) (value : Byte) : KeyMapByte := ⟨m.keysMap.put key value⟩

/-- A new map with room for twice as many entries. -/
def newHashMap (keyMapByteSize : BitVec 32) : Except JavaException KeyMapByte :=
  if (2 * keyMapByteSize).toInt < 0 then
    .error (.illegalArgument ("Illegal initial capacity: " ++ toString (2 * keyMapByteSize).toInt))
  else .ok ⟨.empty⟩

def collector : Collector KeyMapByte (Number640 × Byte) where
  width := 4
  create := newHashMap
  count := size
  element := do
    need (KeyMap640Keys.META + 1)
    let key ← Number640.decode
    let value ← KeyMap640Keys.readByte
    return (key, value)
  add m entry := m.put entry.1 entry.2

def decode : Reader JavaException (Collecting KeyMapByte) KeyMapByte := collector.decode

def encodeEntry (entry : Number640 × Byte) : Bytes := entry.1.encode ++ toBE 1 entry.2.toNat

def encode (keysMap : KeyMapByte) : Bytes :=
  writeInt (BitVec.ofNat 32 keysMap.size) ++ keysMap.keysMap.entries.flatMap encodeEntry

end KeyMapByte

/-! ### Maps of values -/

namespace DataMap

def encodeEntry (f : SignatureFactory) (isConvertMeta isReply : Bool) (messagePrivateKey : Option PrivateKey)
    (now : BitVec 64) (entry : Number640 × Data) : Except JavaException Bytes := do
  let value ← entry.2.encodeData f isConvertMeta isReply messagePrivateKey now
  return entry.1.encode ++ value

/-- The encoding in a message, which is a reply or not. -/
def encode (f : SignatureFactory) (isReply : Bool) (messagePrivateKey : Option PrivateKey) (now : BitVec 64)
    (dataMap : DataMap) : Except JavaException Bytes := do
  let entries ← encodeAll (encodeEntry f dataMap.convertMeta isReply messagePrivateKey now) dataMap.pairs
  return writeInt (BitVec.ofNat 32 dataMap.size) ++ entries

/-- The number of entries, once it is known, the entries so far, and the key and the value
    of the one that is being received. -/
structure Decoding where
  mapSize : BitVec 32 := -1#32
  dataMap : Option DataMap := none
  data : Option Data := none
  key : Option Number640 := none
  deriving DecidableEq

/-- Stores what has arrived of a value. -/
def store (key : Number640) (data : Data) (s : Decoding) : Decoding :=
  { s with
    dataMap := s.dataMap.map fun m => m.put key data
    data := some data }

/-- A value whose key is missing gets the key of a signed message, if it is to have one. -/
def inheritPublicKey (message : TrackerData.Signer) (data : Data) : Data :=
  if message.isSign && message.publicKey.isSome && data.hasPublicKey && Data.keyMissing data.publicKey then
    data.setPublicKey message.publicKey
  else data

/-- The payload and the signature of the current value. -/
def decodeCurrent (f : SignatureFactory) (message : TrackerData.Signer) (key : Number640) (data : Data) :
    Reader JavaException Decoding Unit :=
  zoom (fun _ => data) (store key) (Data.decodeRest f message.publicKey)

/-- The current entry is complete. -/
def finishEntry : Reader JavaException Decoding Unit := modify fun s => { s with data := none, key := none }

/-- The key that was read, or the next one. -/
def decodeKey : Reader JavaException Decoding Number640 := do
  let s ← state
  match s.key with
  | some key => pure key
  | none => do
      need KeyMap640Keys.META
      let key ← Number640.decode
      modify fun s => { s with key := some key }
      return key

/-- An entry, received at time `now`, which is stored as soon as the header of its value is
    there. -/
def decodeEntry (f : SignatureFactory) (message : TrackerData.Signer) (now : BitVec 64) :
    Reader JavaException Decoding Unit := do
  let key ← decodeKey
  let data ← Data.decodeHeader f now
  modify (store key data)
  decodeCurrent f message key data
  modify fun s =>
    match s.data with
    | some data => store key (inheritPublicKey message data) s
    | none => s
  finishEntry

/-- The entry that was begun in an earlier call. -/
def resume (f : SignatureFactory) (message : TrackerData.Signer) : Reader JavaException Decoding Unit := do
  let s ← state
  match s.data, s.key with
  | some data, some key => do
      decodeCurrent f message key data
      finishEntry
  | _, _ => pure ()

def decode (f : SignatureFactory) (message : TrackerData.Signer) (now : BitVec 64) :
    Reader JavaException Decoding DataMap := do
  let s ← state
  if s.mapSize = -1#32 then do
    need 4
    let mapSize ← readInt
    modify fun s => { s with mapSize }
  else pure ()
  modify fun s => { s with dataMap := some (s.dataMap.getD .empty) }
  resume f message
  let s ← state
  repeat_ (decodeEntry f message now) (s.mapSize.toInt - (s.dataMap.getD .empty).size).toNat
  let s ← state
  modify fun s => { s with mapSize := -1#32, dataMap := none }
  return s.dataMap.getD .empty

end DataMap

/-! ### Buffers -/

namespace Buffer

def encode (b : Buffer) : Bytes := writeInt b.length ++ b.buffer

/-- The announced length, once it is known, and the buffer once it was made. -/
structure Decoding where
  bufferSize : BitVec 32 := -1#32
  buffer : Option Bytes := none
  deriving DecidableEq

/-- Moves as many bytes to the buffer as were announced. There is no way to move a negative
    number of them. -/
def transfer : Reader JavaException Decoding Buffer := do
  let s ← state
  modify fun s => { s with buffer := some (s.buffer.getD []) }
  if s.bufferSize.toInt < 0 then throw (.illegalArgument "minWritableBytes")
  let bytes ← read .indexOutOfBounds s.bufferSize.toInt.toNat
  modify fun _ => {}
  return ⟨s.buffer.getD [] ++ bytes, s.bufferSize⟩

def decode : Reader JavaException Decoding Buffer := do
  let s ← state
  if s.bufferSize = -1#32 then do
    need 4
    let bufferSize ← readInt
    modify fun s => { s with bufferSize }
  else pure ()
  let s ← state
  need s.bufferSize.toInt.toNat
  transfer

end Buffer

end TomP2P
