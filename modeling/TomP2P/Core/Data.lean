import TomP2P.Core.Number
import TomP2P.Core.Signature
import TomP2P.Foundation.Hashed

/-!
# Stored Values

The values of the distributed hash table: a payload with flags, a time to live,
the versions it is based on, and the key and signature of its author.

The setters keep some of the flags in step with the fields they announce, and
not others: `publicKey` and `ttlSeconds` raise theirs, `signature` does not.
Expiration is counted in the 64-bit arithmetic of the source, so a time to live
far enough in the future wraps.

## Main definitions

* `Data`: A value with its header fields.
* `Data.expirationMillis`: The time from which the value is expired.
* `Data.duplicate`: The copy handed to readers.
-/

namespace TomP2P

open Wire

/-- Whether the length field has 8 or 32 bits. -/
inductive Data.Type
  | SMALL
  | LARGE
  deriving DecidableEq

/-- A stored value. The fields that never leave the object (its cached hash, its
    signature factory and the meta mark) are left out. -/
@[ext] structure Data where
  type : Data.Type
  length : BitVec 32
  /-- The payload received so far. -/
  buffer : Bytes
  basedOnFlag : Bool := false
  signed : Bool := false
  flag1 : Bool := false
  ttl : Bool := false
  flag2 : Bool := false
  protectedEntry : Bool := false
  publicKeyFlag : Bool := false
  prepareFlag : Bool := false
  signature : Option SignatureCodec := none
  ttlSeconds : BitVec 32 := -1
  basedOnSet : HashedSet Number160 := .empty
  publicKey : Option PublicKey := none
  privateKey : Option PrivateKey := none
  validFromMillis : BitVec 64
  deriving DecidableEq

namespace Data

def MAX_BYTE_SIZE : Int := 256

def typeOfLength (length : BitVec 32) : Data.Type :=
  if length.toInt < MAX_BYTE_SIZE then .SMALL else .LARGE

/-- A new value with its payload, created at time `now`. -/
def new (buffer : Bytes) (now : BitVec 64) : Data where
  type := typeOfLength (BitVec.ofNat 32 buffer.length)
  length := BitVec.ofNat 32 buffer.length
  buffer := buffer
  validFromMillis := now

def isProtectedEntry (d : Data) : Bool := d.protectedEntry

def isSigned (d : Data) : Bool := d.signed

def hasPrepareFlag (d : Data) : Bool := d.prepareFlag

def hasPublicKey (d : Data) : Bool := d.publicKeyFlag

/-- A value with both user flags is a tombstone. -/
def isDeleted (d : Data) : Bool := d.flag1 && d.flag2

def setPublicKey (d : Data) (publicKey : Option PublicKey) : Data :=
  { d with publicKeyFlag := true, publicKey := publicKey }

def setSignature (d : Data) (signature : Option SignatureCodec) : Data :=
  { d with signature := signature }

def setTtlSeconds (d : Data) (ttlSeconds : BitVec 32) : Data :=
  { d with ttlSeconds := ttlSeconds, ttl := true }

def setValidFromMillis (d : Data) (validFromMillis : BitVec 64) : Data :=
  { d with validFromMillis := validFromMillis }

def setPrepareFlag (d : Data) (prepareFlag : Bool) : Data :=
  { d with prepareFlag := prepareFlag }

/-- The time from which the value is expired, the largest `long` if it has no
    positive time to live. -/
def expirationMillis (d : Data) : Int :=
  if d.ttlSeconds.toInt ≤ 0 then 2 ^ 63 - 1
  else (d.validFromMillis + d.ttlSeconds.signExtend 64 * 1000).toInt

/-- The copy handed to readers: all fields, with the type set from the length. -/
def duplicate (d : Data) : Data := { d with type := typeOfLength d.length }

/-- The hash of the payload. -/
def hash (d : Data) : Number160 := makeSHAHash d.buffer

end Data

end TomP2P
