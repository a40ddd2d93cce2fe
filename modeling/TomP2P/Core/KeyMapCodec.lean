import TomP2P.Core.Message

/-!
# Digest Maps on the Wire

The contents of type `MAP_KEY640_KEYS`: a sorted map from keys to the keys that an entry
is based on. On the wire it is the number of entries, and for each entry the key, one
byte with the number of keys it is based on, and these.

The decoder keeps the number of entries and the map read so far from one buffer to the
next. For an entry it looks the byte up in front of the whole entry and waits for as
many keys as it says; then it reads the key, the byte and the keys, into a set.

## Main definitions

* `KeyMap640Keys.encode`: The encoding.
* `KeyMap640Keys.Decoding`: What the decoder keeps.
* `KeyMap640Keys.decode`: The decoder.
-/

namespace TomP2P

open Wire Reader

namespace KeyMap640Keys

/-- The length of a key. -/
def META : Nat := Number160.BYTE_ARRAY_SIZE + Number160.BYTE_ARRAY_SIZE + Number160.BYTE_ARRAY_SIZE +
  Number160.BYTE_ARRAY_SIZE

def size (m : KeyMap640Keys) : Nat := m.keysMap.size

def empty : KeyMap640Keys := ⟨.empty⟩

def put (m : KeyMap640Keys) (key : Number640) (value : List Number160) : KeyMap640Keys :=
  ⟨m.keysMap.put key value⟩

def encodeEntry (entry : Number640 × List Number160) : Bytes :=
  entry.1.encode ++ (writeByte (BitVec.ofNat 32 entry.2.length) ++ entry.2.flatMap Number160.encode)

def encode (keyMap640Keys : KeyMap640Keys) : Bytes :=
  writeInt (BitVec.ofNat 32 keyMap640Keys.size) ++ keyMap640Keys.keysMap.entries.flatMap encodeEntry

/-- A byte as a number with a sign. -/
def readByte {σ : Type} : Reader JavaException σ (BitVec 8) := field .indexOutOfBounds 1 8

/-- A new set with room for so many elements. -/
def newHashSet (initialCapacity : Int) : Except JavaException (HashedSet Number160) :=
  if initialCapacity < 0 then
    .error (.illegalArgument ("Illegal initial capacity: " ++ toString initialCapacity))
  else .ok .empty

/-- An entry, once it is there as a whole. -/
def decodeEntry {σ : Type} : Reader JavaException σ (Number640 × List Number160) := do
  need (META + 1)
  let size ← lookField META 1 32
  need (META + 1 + size.toNat * Number160.BYTE_ARRAY_SIZE)
  let key ← Number640.decode
  let numBasedOn ← readByte
  let value ← lift (newHashSet numBasedOn.toInt)
  let basedOnKeys ← each (fun _ => Number160.decode) (List.range numBasedOn.toInt.toNat)
  return (key, (basedOnKeys.foldl HashedSet.add value).elems)

/-- The number of entries, once it is known, and the entries read so far. -/
structure Decoding where
  keyMap640KeysSize : BitVec 32 := -1#32
  keyMap640Keys : Option KeyMap640Keys := none
  deriving DecidableEq

/-- An entry for the map. -/
def decodeNext : Reader JavaException Decoding Unit := do
  let entry ← decodeEntry
  modify fun s => { s with keyMap640Keys := s.keyMap640Keys.map fun m => m.put entry.1 entry.2 }

def decode : Reader JavaException Decoding KeyMap640Keys := do
  let s ← state
  if s.keyMap640KeysSize = -1#32 then do
    need 4
    let keyMap640KeysSize ← readInt
    modify fun s => { s with keyMap640KeysSize }
  else pure ()
  modify fun s => { s with keyMap640Keys := some (s.keyMap640Keys.getD .empty) }
  let s ← state
  repeat_ decodeNext (s.keyMap640KeysSize.toInt - (s.keyMap640Keys.getD .empty).size).toNat
  let s ← state
  modify fun _ => {}
  return s.keyMap640Keys.getD .empty

end KeyMap640Keys

end TomP2P
