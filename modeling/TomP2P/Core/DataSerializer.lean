import TomP2P.Core.DataCodec
import TomP2P.Foundation.NavMap

/-!
# Values on Disk

How a value is stored. A value of at most 10 KB is written into the map of the database.
A larger one goes to a file whose name is the hash of its payload, and the map has the
hash.

Both formats are put together in a scratch buffer: the header is written to it and copied
to the output, the payload is copied from the value, and then the signature is written to
the same buffer and copied. What is copied is what can be read of the buffer. For the map
the header is skipped in between. For the file it is not.

A file is opened for reading and writing, which leaves what it holds: writing starts at
its front, and what stands behind the bytes written stays.

## Main definitions

* `Scratch`: The buffer.
* `Directory`: The files, by the hash in their name.
* `DataSerializer.serialize`, `DataSerializer.deserialize`: Writing and reading a value.
* `StorageDisk`: The database, with `put`, `get` and `remove`.
-/

namespace TomP2P

open Wire

/-- A buffer that is written at its end and read from an index on. -/
structure Scratch where
  bytes : Bytes := []
  readerIndex : Nat := 0

namespace Scratch

def writerIndex (acb : Scratch) : Nat := acb.bytes.length

def write (acb : Scratch) (b : Bytes) : Scratch := { acb with bytes := acb.bytes ++ b }

def skipBytes (acb : Scratch) (length : Nat) : Scratch := { acb with readerIndex := acb.readerIndex + length }

/-- What can be read. -/
def nioBuffers (acb : Scratch) : Bytes := acb.bytes.drop acb.readerIndex

end Scratch

/-- The files of a directory, by the hash in their name. -/
abbrev Directory := HashedMap Number160 Bytes

namespace Directory

/-- The file with bytes written at a position. -/
def writeAt (file : Bytes) (position : Nat) (b : Bytes) : Bytes :=
  file.take position ++ (b ++ file.drop (position + b.length))

/-- A file as it is opened, made if it is not there. -/
def openFile (path : Directory) (hash : Number160) : Bytes := (path.get hash).getD []

end Directory

namespace DataSerializer

/-- Why a value cannot be read. -/
inductive Failure
  | io (message : String)
  | endOfFile
  | fileNotFound (hash : Number160)
  | java (e : JavaException)
  deriving DecidableEq

def MAX_SIZE : Int := 10 * 1024

def serializeMapDB (f : SignatureFactory) (value : Data) : Except JavaException Bytes := do
  let acb : Scratch := {}
  let header ← value.encodeHeader f
  let acb := acb.write header
  let out := acb.nioBuffers
  let acb := acb.skipBytes acb.writerIndex
  let out := out ++ value.buffer
  let signature ← value.encodeDone f none
  let acb := acb.write (Data.signatureField signature)
  return out ++ acb.nioBuffers

/-- Writes one after the other into a file, from its front on. -/
def writeFile (file : Bytes) : Nat → List Bytes → Bytes
  | _, [] => file
  | position, b :: bs => writeFile (Directory.writeAt file position b) (position + b.length) bs

def serializeFile (f : SignatureFactory) (path : Directory) (value : Data) :
    Except JavaException (Bytes × Directory) := do
  let hash := value.hash
  let file := path.openFile hash
  let acb : Scratch := {}
  let header ← value.encodeHeader f
  let acb := acb.write header
  let first := acb.nioBuffers
  let signature ← value.encodeDone f none
  let acb := acb.write (Data.signatureField signature)
  let rest := acb.nioBuffers
  return (hash.encode, path.put hash (writeFile file 0 [first, value.buffer, rest]))

/-- What is written for a value into the map, and the files after it. -/
def serialize (f : SignatureFactory) (path : Directory) (value : Data) :
    Except JavaException (Bytes × Directory) :=
  if MAX_SIZE < value.length.toInt then do
    let (out, path) ← serializeFile f path value
    return (1#8 :: out, path)
  else do
    let out ← serializeMapDB f value
    return (0#8 :: out, path)

/-- A header is tried with one more byte until it is complete. -/
def readHeader (f : SignatureFactory) (now : BitVec 64) (buf : Bytes) : Bytes → Except Failure (Data × Bytes)
  | [] => .error .endOfFile
  | b :: input =>
      match (Data.decodeHeader f now).run () (buf ++ [b]) with
      | .done data _ _ => .ok (data, input)
      | .wait _ r => readHeader f now r input
      | .fail e _ _ => .error (.java e)

/-- The next bytes of the input. -/
def readFully (input : Bytes) (n : Nat) : Except Failure (Bytes × Bytes) :=
  if input.length < n then .error .endOfFile else .ok (input.take n, input.drop n)

/-- The value after a part of it was read; a part that is missing is not accepted. -/
def complete (message : String) : Outcome JavaException Data Unit → Except Failure Data
  | .done _ data _ => .ok data
  | .wait _ _ => .error (.io message)
  | .fail e _ _ => .error (.java e)

def deserializeMapDB (f : SignatureFactory) (now : BitVec 64) (input : Bytes) :
    Except Failure (Data × Bytes) := do
  let (data, input) ← readHeader f now [] input
  let (me, input) ← readFully input data.length.toNat
  let data ← complete "data could not be read" (Data.decodeBuffer.run data me)
  let (me, input) ← if data.isSigned then readFully input f.signatureSize else .ok ([], input)
  let data ← complete "signature could not be read" ((Data.decodeDone f none).run data me)
  return (data, input)

/-- The value after a part of it was read, and what follows; a part may be missing. -/
def anyway : Outcome JavaException Data Unit → Except Failure (Data × Bytes)
  | .done _ data r => .ok (data, r)
  | .wait data r => .ok (data, r)
  | .fail e _ _ => .error (.java e)

def deserializeFile (f : SignatureFactory) (path : Directory) (now : BitVec 64) (input : Bytes) :
    Except Failure (Data × Bytes) := do
  let (me, input) ← readFully input Number160.BYTE_ARRAY_SIZE
  let hash := Number160.ofBytes me
  match path.get hash with
  | none => .error (.fileNotFound hash)
  | some buf =>
      match (Data.decodeHeader f now).run () buf with
      | .wait _ _ => .error (.java .nullPointer)
      | .fail e _ _ => .error (.java e)
      | .done data _ buf => do
          let (data, buf) ← anyway (Data.decodeBuffer.run data buf)
          let (data, _) ← anyway ((Data.decodeDone f none).run data buf)
          return (data, input)

/-- The value in the next bytes of the map, read at time `now`, and what follows them. -/
def deserialize (f : SignatureFactory) (path : Directory) (now : BitVec 64) :
    Bytes → Except Failure (Data × Bytes)
  | [] => .error .endOfFile
  | header :: input =>
      if header = 1 then deserializeFile f path now input
      else if header = 0 then deserializeMapDB f now input
      else .error (.io ("unexpected header: " ++ toString header.toInt))

end DataSerializer

/-! ### The database -/

/-- The database: a map of the bytes that were written, and the directory. -/
structure StorageDisk where
  dataMap : NavMap Number640 Bytes := .empty
  path : Directory := .empty

namespace StorageDisk

open DataSerializer

/-- The value of a key, read at time `now`. -/
def get (f : SignatureFactory) (now : BitVec 64) (m : StorageDisk) (key : Number640) :
    Except Failure (Option Data) :=
  match m.dataMap.get key with
  | none => .ok none
  | some out =>
      match deserialize f m.path now out with
      | .ok (data, _) => .ok (some data)
      | .error e => .error e

def put (f : SignatureFactory) (m : StorageDisk) (key : Number640) (value : Data) :
    Except JavaException StorageDisk := do
  let (out, path) ← serialize f m.path value
  return ⟨m.dataMap.put key out, path⟩

/-- A file stays when its key is removed. -/
def remove (m : StorageDisk) (key : Number640) : StorageDisk := { m with dataMap := m.dataMap.remove key }

/-- A change of the database. -/
inductive Op
  | put (key : Number640) (value : Data)
  | remove (key : Number640)

def Op.key : Op → Number640
  | .put key _ => key
  | .remove key => key

def apply (f : SignatureFactory) (m : StorageDisk) : Op → Except JavaException StorageDisk
  | .put key value => m.put f key value
  | .remove key => .ok (m.remove key)

/-- The database after a sequence of changes. -/
def run (f : SignatureFactory) (ops : List Op) : Except JavaException StorageDisk := ops.foldlM (apply f) {}

end StorageDisk

end TomP2P
