import TomP2P.Core.DataCodec

/-!
# Making Values

The public ways to make a value and to change it.

Every setter sets the fields it is named after and some of the flags that go
with them. A setter may also throw. Most throw before they change anything;
`signNow` does not, it has marked the value as signed before the private key is
used. A setter therefore gives a value in any case, and an exception beside it.

## Main definitions

* `Data.Constructor`, `Data.Constructor.new`: The constructors.
* `Data.Setter`, `Data.Setter.apply`: The setters.
* `Data.built`: The value after a sequence of setters.
* `Data.Reachable`: The values a program can come to hold.
-/

namespace TomP2P

open Wire

namespace Data

/-- The constructors. The others fix arguments of these: the length of the
    buffer, offset 0, or the empty array. -/
inductive Constructor
  | buffer (buffer : Bytes) (length : BitVec 32)
  | header (header length : BitVec 32)
  | array (buffer : Bytes) (offset length : BitVec 32)

/-- A part of an array. An empty array has none, whatever is asked for. -/
def wrappedBuffer (buffer : Bytes) (offset length : BitVec 32) : Except JavaException Bytes :=
  if buffer = [] ∨ length = 0 then .ok []
  else if offset.toInt < 0 ∨ length.toInt < 0 ∨ buffer.length < offset.toInt + length.toInt then
    .error .indexOutOfBounds
  else .ok ((buffer.drop offset.toNat).take length.toNat)

/-- The new value, created at time `now`. -/
def Constructor.new (c : Constructor) (now : BitVec 64) : Except JavaException Data :=
  match c with
  | .buffer b len =>
      .ok { type := typeOfLength len, length := len, buffer := b, validFromMillis := now }
  | .header h len => ofHeader h len now
  | .array b offset len => do
      let wrapped ← wrappedBuffer b offset len
      return { type := typeOfLength len, length := len, buffer := wrapped, validFromMillis := now }

structure KeyPair where
  privateKey : Option PrivateKey
  publicKey : Option PublicKey

inductive Setter
  | signNow (keyPair : KeyPair) (prot : Bool)
  | signNowWith (privateKey : Option PrivateKey) (prot : Bool)
  | protectEntry
  | protectEntryWith (privateKey : Option PrivateKey)
  | protectEntryPair (keyPair : KeyPair)
  | sign
  | signWith (privateKey : Option PrivateKey)
  | signPair (keyPair : KeyPair)
  | signed (value : Bool)
  | publicKeyFlag (value : Bool)
  | publicKey (key : Option PublicKey)
  | signature (value : Option SignatureCodec)
  | addBasedOn (key : Number160)
  | ttlSeconds (value : BitVec 32)
  | validFromMillis (value : BitVec 64)
  | flag1 (value : Bool)
  | flag2 (value : Bool)
  | deleted (value : Bool)
  | prepareFlag (value : Bool)
  | duplicate
  | duplicateMeta

/-- Signs at once, unless there is a signature. Without a private key the value
    is left marked as signed. -/
def setSignedNow (f : SignatureFactory) (d : Data) (privateKey : Option PrivateKey)
    (publicKey : Option PublicKey) (protectedEntry : Bool) : Data × Option JavaException :=
  if d.signature.isNone then
    match privateKey with
    | none => ({ d with signed := true }, some (.invalidKey "No installed provider supports this key: (null)"))
    | some k =>
        ({ d with
            signed := true
            signature := some (f.sign k d.buffer)
            publicKey := publicKey
            publicKeyFlag := true
            protectedEntry := protectedEntry }, none)
  else (d, none)

def setSigned (d : Data) (signed : Bool) : Data :=
  { d with signed := signed, publicKeyFlag := signed }

def setProtected (d : Data) : Data :=
  { d with signed := true, publicKeyFlag := true, protectedEntry := true }

def bothFlags : JavaException :=
  .illegalArgument "Cannot set both flags. This means that data is deleted."

def flagAlreadySet : JavaException :=
  .illegalArgument "Cannot set deleted, because one flag is already set."

def setFlag1 (d : Data) (flag1 : Bool) : Data × Option JavaException :=
  if flag1 && d.flag2 then (d, some bothFlags) else ({ d with flag1 := flag1 }, none)

def setFlag2 (d : Data) (flag2 : Bool) : Data × Option JavaException :=
  if flag2 && d.flag1 then (d, some bothFlags) else ({ d with flag2 := flag2 }, none)

def setDeleted (d : Data) (deleted : Bool) : Data × Option JavaException :=
  if d.flag1 || d.flag2 then (d, some flagAlreadySet)
  else ({ d with flag1 := deleted, flag2 := deleted }, none)

def addBasedOn (d : Data) (basedOn : Number160) : Data :=
  { d with basedOnSet := d.basedOnSet.add basedOn, basedOnFlag := true }

/-- The value a setter leaves, and what it throws. -/
def Setter.apply (f : SignatureFactory) (s : Setter) (d : Data) : Data × Option JavaException :=
  match s with
  | .signNow pair prot => d.setSignedNow f pair.privateKey pair.publicKey prot
  | .signNowWith k prot => d.setSignedNow f k d.publicKey prot
  | .protectEntry => (d.setProtected, none)
  | .protectEntryWith k => ({ d.setProtected with privateKey := k }, none)
  | .protectEntryPair pair =>
      ({ d.setProtected with privateKey := pair.privateKey, publicKey := pair.publicKey }, none)
  | .sign => (d.setSigned true, none)
  | .signWith k => ({ d.setSigned true with privateKey := k }, none)
  | .signPair pair =>
      ({ d.setSigned true with privateKey := pair.privateKey, publicKey := pair.publicKey }, none)
  | .signed value => (d.setSigned value, none)
  | .publicKeyFlag value => ({ d with publicKeyFlag := value }, none)
  | .publicKey k => (d.setPublicKey k, none)
  | .signature value => (d.setSignature value, none)
  | .addBasedOn key => (d.addBasedOn key, none)
  | .ttlSeconds value => (d.setTtlSeconds value, none)
  | .validFromMillis value => (d.setValidFromMillis value, none)
  | .flag1 value => d.setFlag1 value
  | .flag2 value => d.setFlag2 value
  | .deleted value => d.setDeleted value
  | .prepareFlag value => (d.setPrepareFlag value, none)
  | .duplicate => (d.duplicate, none)
  | .duplicateMeta => (d.duplicateMeta, none)

/-- The value after a sequence of setters, whether or not some of them threw. -/
def built (f : SignatureFactory) (d : Data) (setters : List Setter) : Data :=
  setters.foldl (fun d s => (s.apply f d).1) d

/-- The values a program can come to hold: those it makes or receives, changed
    by setters. -/
inductive Reachable (f : SignatureFactory) : Data → Prop
  | made (c : Constructor) (now : BitVec 64) (d : Data) (h : c.new now = .ok d) : Reachable f d
  | received (now : BitVec 64) (b r : Bytes) (d : Data)
      (h : (decodeHeader f now).run () b = .done d () r) : Reachable f d
  | fed (d : Data) (k : Option PublicKey) (b r : Bytes) (e : Data)
      (h : ((decodeRest f k).run d b = .done () e r ∨ (decodeRest f k).run d b = .wait e r)) :
      Reachable f d → Reachable f e
  | set (d : Data) (s : Setter) : Reachable f d → Reachable f (s.apply f d).1

end Data

end TomP2P
