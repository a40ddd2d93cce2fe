import TomP2P.Core.DataCodec
import TomP2P.Core.RSync
import TomP2P.Core.StorageRPC

/-!
# Synchronization

How a peer brings the values of a replica up to date with its own.

The peer asks with the hashes of its values, and the replica answers for each key: a
value with the first user flag says that the values are the same, one with the second
that there is none, and otherwise the answer has the checksums of what the replica
has. The peer then sends the values that are missing as they are and the other ones
as differences, which again are marked by the first user flag. A value with the second
one is to be removed. The replica reports the keys that were stored.

All values pass through their codec. What else is in a message arrives as it is.

## Main definitions

* `SyncUtils.encodeInstructions`, `SyncUtils.decodeInstructions`: Differences in a buffer.
* `SyncUtils.encodeChecksum`, `SyncUtils.decodeChecksums`: Checksums in a buffer.
* `SyncRPC.handleInfo`, `SyncRPC.handleSync`: The replica.
* `SyncBuilder.synchronize`: The whole exchange.
* `SyncUtils.writeInstructions`: The instructions, with the size that is returned.
* `SyncUtils.whileReadable`: Reads until the buffer is empty.
* `SyncUtils.readInstructions`, `SyncUtils.readChecksums`: What is read, and what is left.
-/

namespace TomP2P

open Wire Effect

/-- Bytes from the front of a buffer, and what is left. -/
def readBytes (buf : Bytes) (length : Nat) : Except JavaException (Bytes × Bytes) :=
  if buf.length < length then .error .indexOutOfBounds else .ok (buf.take length, buf.drop length)

namespace RArray

/-- A buffer that was received has no length. -/
def length : RArray → Int
  | .array _ _ length => length
  | .dataBuffer _ => -1

def transferTo : RArray → Except JavaException Bytes
  | .array bytes offset length => if length = 0 then .ok [] else readRange bytes offset length
  | .dataBuffer bytes => .ok bytes

end RArray

namespace SyncUtils

/-- The first bit is that of a reference. Without it the number is the length of the literal. -/
def encodeInstruction : Instruction → Except JavaException Bytes
  | .reference reference =>
      if reference ≠ -1 then .ok (writeInt (BitVec.ofInt 32 reference ||| 0x80000000#32))
      else .error .nullPointer
  | .literal literal => do
      let bytes ← literal.transferTo
      return writeInt (BitVec.ofInt 32 literal.length) ++ bytes

def encodeInstructions (instructions : List Instruction) (versionKey hash : Number160) :
    Except JavaException Bytes := do
  let encoded ← instructions.mapM encodeInstruction
  return versionKey.encode ++ (hash.encode ++ encoded.flatten)

def decodeHeader (buf : Bytes) : Except JavaException (Number160 × Bytes) := do
  let (me, buf) ← readBytes buf Number160.BYTE_ARRAY_SIZE
  return (Number160.ofBytes me, buf)

/-- The instructions of a buffer, of which there may be so many. -/
def decodeInstructionsUpTo : Nat → Bytes → Except JavaException (List Instruction)
  | 0, _ => .ok []
  | fuel + 1, buf =>
      if buf = [] then .ok []
      else do
        let (field, buf) ← readBytes buf 4
        let header := BitVec.ofNat 32 (ofBE field)
        if header &&& 0x80000000#32 ≠ 0 then
          let result ← decodeInstructionsUpTo fuel buf
          return .reference (header &&& 0x7fffffff#32).toInt :: result
        else
          let remaining := min header.toNat buf.length
          let result ← decodeInstructionsUpTo fuel (buf.drop remaining)
          return .literal (.dataBuffer (buf.take remaining)) :: result

/-- Each instruction has at least one byte. -/
def decodeInstructions (buf : Bytes) : Except JavaException (List Instruction) :=
  decodeInstructionsUpTo buf.length buf

def encodeChecksum (checksums : List Checksum) (versionKey hash : Number160) : Bytes :=
  versionKey.encode ++ (hash.encode ++
    checksums.flatMap fun checksum => writeInt checksum.weakChecksum ++ checksum.strongChecksum)

/-- The checksums of a buffer, of which there may be so many. -/
def decodeChecksumsUpTo : Nat → Bytes → Except JavaException (List Checksum)
  | 0, _ => .ok []
  | fuel + 1, buf =>
      if buf = [] then .ok []
      else do
        let (weak, buf) ← readBytes buf 4
        let (me, buf) ← readBytes buf 16
        let result ← decodeChecksumsUpTo fuel buf
        return ⟨BitVec.ofNat 32 (ofBE weak), me⟩ :: result

def decodeChecksums (buf : Bytes) : Except JavaException (List Checksum) :=
  decodeChecksumsUpTo buf.length buf

end SyncUtils

/-- The synchronization at the replica, with the time of its clock. -/
structure SyncRPC where
  blockSize : Int := 700
  storageLayer : StorageLayer := {}
  replicationListener : Option ReplicationListener := none
  now : BitVec 64 := 0

namespace SyncRPC

variable (rpc : SyncRPC)

/-- The values are the same. -/
def noSyncRequired : Data := { Data.new [] rpc.now with flag1 := true }

/-- There is no value. -/
def copyRequired : Data := { Data.new [] rpc.now with flag2 := true }

/-- The checksums of a value that is stored under a key. -/
def syncRequired (key : Number640) (data : Data) : Except JavaException Data := do
  let checksums ← RSync.checksums data.buffer rpc.blockSize
  return Data.new (SyncUtils.encodeChecksum checksums key.versionKey data.hash) rpc.now

/-- The answer for a key. There is none unless there is one hash. -/
def infoEntry (m : StorageMemory) (isSyncFromOldVersion : Bool) (key : Number640) (hashes : List Number160) :
    Except JavaException (Option Data) :=
  match hashes with
  | [hash] =>
      match StorageLayer.get m key with
      | some data =>
          if hash = data.hash then .ok (some rpc.noSyncRequired) else some <$> rpc.syncRequired key data
      | none =>
          if isSyncFromOldVersion then do
            let versions ← StorageLayer.getRange m key.minVersionKey key.maxVersionKey 1 false
            match versions.lastEntry with
            | none => .error .nullPointer
            | some latest => some <$> rpc.syncRequired latest.1 latest.2
          else .ok (some rpc.copyRequired)
  | _ => .ok none

/-- A handler that throws does not answer. -/
def handleInfo (m : StorageMemory) (isSyncFromOldVersion : Bool) (keysMap : NavMap Number640 (List Number160)) :
    Option (NavMap Number640 Data) :=
  keysMap.filterMapM fun key hashes => (rpc.infoEntry m isSyncFromOldVersion key hashes).toOption

/-- A value is stored. The answer says whether the key is reported. -/
def storeEntry (publicKey : Option PublicKey) (key : Number640) (data : Data) : ReplicaM Bool := do
  let status ← onStore (rpc.storageLayer.put key data publicKey false false false)
  if status = .OK then
    ReplicationListener.dataInserted rpc.replicationListener key.locationKey
    return true
  else return false

/-- A difference. It is left out if the old value is no longer there. -/
def patchEntry (publicKey : Option PublicKey) (key : Number640) (data : Data) : ReplicaM Bool := do
  let (versionKey, buf) ← Effect.ofExcept (SyncUtils.decodeHeader data.buffer)
  let (hash, buf) ← Effect.ofExcept (SyncUtils.decodeHeader buf)
  let instructions ← Effect.ofExcept (SyncUtils.decodeInstructions buf)
  match StorageLayer.get (← get).store (key.locationAndDomainAndContentKey.version versionKey) with
  | none => return false
  | some dataOld =>
      if dataOld.hash ≠ hash then return false
      else do
        let reconstructedValue ← Effect.ofExcept (RSync.reconstruct dataOld.buffer instructions rpc.blockSize)
        rpc.storeEntry publicKey key (Data.new reconstructedValue rpc.now)

def syncEntry (publicKey : Option PublicKey) (key : Number640) (data : Data) : ReplicaM Bool :=
  if data.flag2 then do
    removeEntry rpc.storageLayer rpc.replicationListener publicKey key
    return false
  else if 0 < data.length.toInt then
    if data.flag1 then rpc.patchEntry publicKey key data else rpc.storeEntry publicKey key data
  else return false

def handleSync (publicKey : Option PublicKey) (dataMap : NavMap Number640 Data) : ReplicaM (List Number640) :=
  dataMap.entries.foldlM (fun (retVal : List Number640) entry => do
    let stored ← rpc.syncEntry publicKey entry.1 entry.2
    return if stored then retVal ++ [entry.1] else retVal) []

end SyncRPC

/-- The synchronization at the peer that starts it, with the keys its messages are
    signed with, if they are. -/
structure SyncBuilder where
  blockSize : Int := 700
  keys : List Number640
  syncFromOldVersion : Bool := false
  publicKey : Option PublicKey := none
  privateKey : Option PrivateKey := none
  now : BitVec 64 := 0

namespace SyncBuilder

variable (f : SignatureFactory) (builder : SyncBuilder)

/-- The hashes of the values. All of them have to be there. -/
def dataMapHash (m : StorageMemory) : Option (NavMap Number640 (List Number160)) :=
  builder.keys.foldlM (fun (dataMapHash : NavMap Number640 (List Number160)) key =>
    (StorageLayer.get m key).map fun data => dataMapHash.put key [data.hash]) .empty

/-- The difference of a value to the one the checksums are of. -/
def diff (data2 data : Data) : Option Data := do
  let (versionKey, buffer) ← (SyncUtils.decodeHeader data.buffer).toOption
  let (hash, buffer) ← (SyncUtils.decodeHeader buffer).toOption
  let checksums ← (SyncUtils.decodeChecksums buffer).toOption
  let instructions ← RSync.instructions (data2.buffer.length + 1) data2.buffer checksums builder.blockSize
  let abuf ← (do SyncUtils.encodeInstructions (← instructions) versionKey hash).toOption
  return { Data.new abuf builder.now with flag1 := true }

/-- What is sent for a key after the answer of the replica, and whether there is
    something to send. -/
def respond (m : StorageMemory) (retVal : NavMap Number640 Data × Bool) (entry : Number640 × Data) :
    Option (NavMap Number640 Data × Bool) :=
  if entry.2.length = 0 then
    if entry.2.flag1 then some (retVal.1, false)
    else if entry.2.flag2 then (StorageLayer.get m entry.1).map fun data2 => (retVal.1.put entry.1 data2, true)
    else some retVal
  else do
    let data2 ← StorageLayer.get m entry.1
    let data1 ← builder.diff data2 entry.2
    return (retVal.1.put entry.1 data1, true)

/-- The values for the replica. The last key says whether they are sent at all. -/
def respondAll (m : StorageMemory) (dataMap : NavMap Number640 Data) : Option (NavMap Number640 Data × Bool) :=
  dataMap.entries.foldlM (builder.respond m) (.empty, false)

/-- A value in a message. There is no value if it cannot be written, or if it is not
    read back by exactly its bytes. -/
def transfer (isReply : Bool) (privateKey : Option PrivateKey) (publicKey : Option PublicKey)
    (written received : BitVec 64) (d : Data) : Option Data := do
  let bytes ← (d.encodeData f false isReply privateKey written).toOption
  match (Data.receive f publicKey received).run none bytes with
  | .done () (some e) [] => some e
  | _ => none

/-- The exchange, with what the replica reports. There is no result if one of the
    parties throws or if a message does not arrive. -/
def synchronize (rpc : SyncRPC) (sender : StorageMemory) (replica : Replication.State) :
    Option (List Number640 × Replication.State) := do
  let dataMapHash ← builder.dataMapHash sender
  let info ← rpc.handleInfo replica.store builder.syncFromOldVersion dataMapHash
  let response ← info.filterMapM fun _ d => some <$> transfer f true none none rpc.now builder.now d
  let (dataMap, syncMessageRequired) ← builder.respondAll sender response
  if syncMessageRequired then
    let request ← dataMap.filterMapM fun _ d =>
      some <$> transfer f false builder.privateKey builder.publicKey builder.now rpc.now d
    match rpc.handleSync builder.publicKey request replica with
    | .ok retVal replica' => some (retVal, replica')
    | .error _ _ => none
  else some ([], replica)

end SyncBuilder

/-! ### Buffers of the Synchronization

The loops over the buffers of the synchronization, with the indices the buffer keeps.

`SyncUtils.encodeInstructions` has the bytes that are written, and the
decoders there have what is read. The source also returns how many bytes the
instructions took, in an `int` that is counted along, and it leaves the buffer where
the reading stopped. Both are kept here: a writer has the buffer so far, a reader
hands on what is left.
-/

namespace SyncUtils

/-- One instruction, behind what was written. -/
def writeInstruction (written : Int × Bytes) (instruction : Instruction) : Except JavaException (Int × Bytes) := do
  let bytes ← encodeInstruction instruction
  let size := int (written.1 + 4)
  match instruction with
  | .reference _ => return (size, written.2 ++ bytes)
  | .literal literal => return (int (size + literal.length), written.2 ++ bytes)

/-- The instructions behind the two keys, and their size, which leaves out the keys. -/
def writeInstructions (instructions : List Instruction) (versionKey hash : Number160) (buf : Bytes) :
    Except JavaException (Int × Bytes) :=
  instructions.foldlM writeInstruction (0, buf ++ versionKey.encode ++ hash.encode)

/-- The two keys in front, and what is left. -/
def decodeHeaders (buf : Bytes) : Except JavaException (Number160 × Number160 × Bytes) := do
  let (versionKey, buf) ← decodeHeader buf
  let (hash, buf) ← decodeHeader buf
  return (versionKey, hash, buf)

/-- Reads as long as there is something to read, at most so many times. -/
def whileReadable {α : Type} (next : Bytes → Except JavaException (α × Bytes)) :
    Nat → Bytes → Except JavaException (List α × Bytes)
  | 0, buf => .ok ([], buf)
  | fuel + 1, buf =>
      if buf = [] then .ok ([], buf)
      else do
        let (a, buf) ← next buf
        let (result, buf) ← whileReadable next fuel buf
        return (a :: result, buf)

/-- A literal ends with the buffer if it is announced to be longer. -/
def decodeInstruction (buf : Bytes) : Except JavaException (Instruction × Bytes) := do
  let (field, buf) ← readBytes buf 4
  let header := BitVec.ofNat 32 (ofBE field)
  if header &&& 0x80000000#32 ≠ 0 then
    return (.reference (header &&& 0x7fffffff#32).toInt, buf)
  else
    let remaining := min header.toNat buf.length
    return (.literal (.dataBuffer (buf.take remaining)), buf.drop remaining)

def decodeChecksum (buf : Bytes) : Except JavaException (Checksum × Bytes) := do
  let (weak, buf) ← readBytes buf 4
  let (me, buf) ← readBytes buf 16
  return (⟨BitVec.ofNat 32 (ofBE weak), me⟩, buf)

def readInstructions (buf : Bytes) : Except JavaException (List Instruction × Bytes) :=
  whileReadable decodeInstruction buf.length buf

def readChecksums (buf : Bytes) : Except JavaException (List Checksum × Bytes) :=
  whileReadable decodeChecksum buf.length buf

end SyncUtils

end TomP2P
