import TomP2P.Core.Data
import TomP2P.Core.Fields
import TomP2P.Foundation.Effect

/-!
# Values on the Wire

How a value is written and read: a byte of flags, the length, whichever of the
time to live, the predecessors and the public key the flags announce, then the
payload and, for a signed value, the signature.

The header is read in one piece: nothing of it is consumed before all of it is
there. The payload is taken as it comes, and the signature in one piece again,
so a value that is being received is in one of three stages, and the value itself
(the payload received so far) records which.

Three of the flags share two bits, so only some of their combinations can be
written: `Data.header_bits` is what the header says of each of them.

## Main definitions

* `Data.encode`: Writing a value, signing it on the way if it has to be.
* `Data.decodeHeader`, `Data.decodeBuffer`, `Data.decodeDone`: The three stages
  of reading.
* `Data.receive`: The three stages one after the other, over several calls.
* `Data.filter`, `Data.encodeData`: What is sent instead of a value.

## Theorems

* `Data.header_bits`: What a header says of the flags it was written with.
-/

namespace TomP2P

open Wire Reader

namespace Data

def Type.ordinal : Data.Type → BitVec 32
  | .SMALL => 0#32
  | .LARGE => 1#32

/-! ### The byte of flags -/

def typeOf (header : BitVec 32) : Data.Type :=
  if header &&& 0x1#32 = 0#32 then .SMALL else .LARGE

def hasPrepareFlagBit (header : BitVec 32) : Bool := (0#32).slt (header &&& 0x02#32)

def isFlag1 (header : BitVec 32) : Bool := (0#32).slt (header &&& 0x04#32)

def isFlag2 (header : BitVec 32) : Bool := (0#32).slt (header &&& 0x08#32)

def hasTTL (header : BitVec 32) : Bool := (0#32).slt (header &&& 0x10#32)

def hasPublicKeyBits (header : BitVec 32) : Bool := (0#32).slt (header.sshiftRight 5 &&& 0x3#32)

def isSignedBits (header : BitVec 32) : Bool := (1#32).slt (header.sshiftRight 5 &&& 0x3#32)

def isProtectedEntryBits (header : BitVec 32) : Bool := (2#32).slt (header.sshiftRight 5 &&& 0x3#32)

def hasBasedOn (header : BitVec 32) : Bool := (0#32).slt (header &&& 0x80#32)

/-- The three flags that share two bits. -/
def ownerBits (signed publicKeyFlag protectedEntry : Bool) : BitVec 32 :=
  if signed && publicKeyFlag && protectedEntry then 0x60#32
  else if signed && publicKeyFlag then 0x40#32
  else if publicKeyFlag then 0x20#32
  else 0#32

/-- The byte of flags. -/
def header (d : Data) : BitVec 32 :=
  d.type.ordinal ||| flag d.prepareFlag 0x02#32 ||| flag d.flag1 0x04#32 ||| flag d.flag2 0x08#32 |||
    flag d.ttl 0x10#32 ||| ownerBits d.signed d.publicKeyFlag d.protectedEntry |||
    flag d.basedOnFlag 0x80#32

theorem flags_roundtrip :
    ∀ (t : Data.Type) (prepare flag1 flag2 ttl signed key prot basedOn : Bool),
      let h := t.ordinal ||| flag prepare 0x02#32 ||| flag flag1 0x04#32 ||| flag flag2 0x08#32 |||
        flag ttl 0x10#32 ||| ownerBits signed key prot ||| flag basedOn 0x80#32
      typeOf h = t ∧ hasPrepareFlagBit h = prepare ∧ isFlag1 h = flag1 ∧ isFlag2 h = flag2 ∧
        hasTTL h = ttl ∧ isSignedBits h = (signed && key) ∧ hasPublicKeyBits h = key ∧
        isProtectedEntryBits h = (signed && key && prot) ∧ hasBasedOn h = basedOn ∧
        h.toNat < 2 ^ 8 := by
  intro t prepare flag1 flag2 ttl signed key prot basedOn
  cases t <;> cases prepare <;> cases flag1 <;> cases flag2 <;> cases ttl <;> cases basedOn <;>
    revert signed key prot <;> decide

/-- A value is announced as signed only with its key, and as protected only if
    signed; the other flags are announced as they are. -/
theorem header_bits (d : Data) :
    typeOf d.header = d.type ∧ hasPrepareFlagBit d.header = d.prepareFlag ∧
      isFlag1 d.header = d.flag1 ∧ isFlag2 d.header = d.flag2 ∧ hasTTL d.header = d.ttl ∧
      isSignedBits d.header = (d.signed && d.publicKeyFlag) ∧
      hasPublicKeyBits d.header = d.publicKeyFlag ∧
      isProtectedEntryBits d.header = (d.signed && d.publicKeyFlag && d.protectedEntry) ∧
      hasBasedOn d.header = d.basedOnFlag ∧ d.header.toNat < 2 ^ 8 :=
  flags_roundtrip d.type d.prepareFlag d.flag1 d.flag2 d.ttl d.signed d.publicKeyFlag
    d.protectedEntry d.basedOnFlag

/-! ### Writing -/

def lengthField (d : Data) : Bytes :=
  match d.type with
  | .SMALL => writeByte d.length
  | .LARGE => writeInt d.length

def ttlField (d : Data) : Bytes := if d.ttl then writeInt d.ttlSeconds else []

/-- The predecessors behind their number, of which one is subtracted. -/
def basedOnField (d : Data) : Bytes :=
  if d.basedOnFlag then
    writeByte (BitVec.ofNat 32 d.basedOnSet.size - 1) ++ d.basedOnSet.elems.flatMap Number160.encode
  else []

/-- The public key; a value without one announces a key of length zero. -/
def keyField (f : SignatureFactory) (d : Data) : Except JavaException Bytes :=
  if d.publicKeyFlag then
    match d.publicKey with
    | none => .ok (toBE 2 0)
    | some k => f.encodePublicKey (some k)
  else .ok []

def encodeHeader (f : SignatureFactory) (d : Data) : Except JavaException Bytes := do
  let key ← d.keyField f
  return writeByte d.header ++ (d.lengthField ++ (d.ttlField ++ (d.basedOnField ++ key)))

/-- The signature a signed value is written with: its own, or one made on the
    way with the private key of the value or else of the message. -/
def encodeDone (f : SignatureFactory) (d : Data) (messagePrivateKey : Option PrivateKey) :
    Except JavaException (Option SignatureCodec) :=
  if d.signed then
    match d.signature, d.privateKey, messagePrivateKey with
    | some s, _, _ => .ok (some s)
    | none, some k, _ => .ok (some (f.sign k d.buffer))
    | none, none, some k => .ok (some (f.sign k d.buffer))
    | none, none, none => .error (.illegalArgument "A private key is required to sign.")
  else .ok none

def signatureField : Option SignatureCodec → Bytes
  | none => []
  | some s => s.wire

def encode (f : SignatureFactory) (d : Data) (messagePrivateKey : Option PrivateKey) :
    Except JavaException Bytes := do
  let header ← d.encodeHeader f
  let signature ← d.encodeDone f messagePrivateKey
  return header ++ (d.buffer ++ signatureField signature)

/-- The value without its payload. -/
def duplicateMeta (d : Data) : Data :=
  { d with type := .SMALL, length := 0, buffer := [] }

/-- What is sent instead of a value: its header only if `isConvertMeta` is set,
    and in a reply with the time to live that is left at time `now`. -/
def filter (d : Data) (isConvertMeta isReply : Bool) (now : BitVec 64) : Data :=
  let copyData := if isConvertMeta then d.duplicateMeta else d
  if isReply then
    let ttl := ((BitVec.ofInt 64 copyData.expirationMillis - now).sdiv 1000).setWidth 32
    copyData.setTtlSeconds (if ttl.slt 0 then 0 else ttl)
  else copyData

/-- Writes a value into a message, which is a reply or not. -/
def encodeData (f : SignatureFactory) (d : Data) (isConvertMeta isReply : Bool)
    (messagePrivateKey : Option PrivateKey) (now : BitVec 64) : Except JavaException Bytes :=
  (d.filter isConvertMeta isReply now).encode f messagePrivateKey

/-! ### Reading the header -/

/-- The keys in a byte string, 20 bytes each. -/
def keysOf : Nat → Bytes → List Number160
  | 0, _ => []
  | n + 1, b =>
      Number160.ofBytes b :: keysOf n (b.drop Number160.BYTE_ARRAY_SIZE)

/-- A new value with the flags of a header and without its payload. -/
def ofHeader (header length : BitVec 32) (now : BitVec 64) : Except JavaException Data :=
  if typeOf header = .SMALL ∧ 255 < length.toInt then .error (.illegalArgument "Type is not small")
  else if typeOf header = .LARGE ∧ length.toInt ≤ 255 then
    .error (.illegalArgument "Type is not large")
  else if length.toInt < 0 then .error (.illegalArgument "initialCapacity")
  else .ok {
    type := typeOf header
    length := length
    buffer := []
    basedOnFlag := hasBasedOn header
    signed := isSignedBits header
    flag1 := isFlag1 header
    ttl := hasTTL header
    flag2 := isFlag2 header
    protectedEntry := isProtectedEntryBits header
    publicKeyFlag := hasPublicKeyBits header
    prepareFlag := hasPrepareFlagBit header
    validFromMillis := now }

section Header

variable {σ : Type}

/-- The length and the index behind it. -/
def lookLength (header : BitVec 32) : Reader JavaException σ (BitVec 32 × Nat) :=
  match typeOf header with
  | .SMALL => do
      let length ← lookField 1 1 32
      return (length, 2)
  | .LARGE => do
      need 5
      let length ← lookField 1 4 32
      return (length, 5)

/-- The time to live, if the header announces one, and the index behind it. -/
def lookTTL (header : BitVec 32) (indexTTL : Nat) : Reader JavaException σ (BitVec 32 × Nat) :=
  if hasTTL header then do
    need (indexTTL + 4)
    let ttl ← lookField indexTTL 4 32
    return (ttl, indexTTL + 4)
  else return (-1, indexTTL)

/-- The predecessors, if the header announces any, and the index behind them. -/
def lookBasedOn (header : BitVec 32) (indexBasedOnNr : Nat) :
    Reader JavaException σ (HashedSet Number160 × Nat) :=
  if hasBasedOn header then do
    need (indexBasedOnNr + 1)
    let nr ← lookField indexBasedOnNr 1 32
    let numBasedOn := nr.toNat + 1
    need (indexBasedOnNr + 1 + numBasedOn * 20)
    let keys ← look (indexBasedOnNr + 1) (numBasedOn * 20)
    return (HashedSet.ofList (keysOf numBasedOn keys), indexBasedOnNr + 1 + numBasedOn * 20)
  else return (HashedSet.empty, indexBasedOnNr)

/-- Waits for the public key, if the header announces one. -/
def lookPublicKey (header : BitVec 32) (indexPublicKeySize : Nat) : Reader JavaException σ Unit :=
  if hasPublicKeyBits header then do
    need (indexPublicKeySize + 2)
    let publicKeySize ← lookField indexPublicKeySize 2 32
    need (indexPublicKeySize + 2 + publicKeySize.toNat)
  else return ()

/-- The part of a header in front of the public key. -/
structure Front where
  header : BitVec 32
  length : BitVec 32
  ttl : BitVec 32
  basedOn : HashedSet Number160
  indexPublicKeySize : Nat

/-- Looks at the whole header without consuming it. -/
def lookHeader : Reader JavaException σ Front := do
  need 2
  let header ← lookField 0 1 32
  let (length, indexTTL) ← lookLength header
  let (ttl, indexBasedOnNr) ← lookTTL header indexTTL
  let (basedOn, indexPublicKeySize) ← lookBasedOn header indexBasedOnNr
  lookPublicKey header indexPublicKeySize
  return ⟨header, length, ttl, basedOn, indexPublicKeySize⟩

/-- Reads the public key, if the header announces one. -/
def readPublicKey (f : SignatureFactory) (header : BitVec 32) :
    Reader JavaException σ (Option PublicKey) :=
  if hasPublicKeyBits header then f.decodePublicKey else pure none

/-- Reads the header of a value that is received at time `now`. -/
def decodeHeader (f : SignatureFactory) (now : BitVec 64) : Reader JavaException σ Data := do
  let front ← lookHeader
  let _ ← read .indexOutOfBounds front.indexPublicKeySize
  let publicKey ← readPublicKey f front.header
  let data ← lift (ofHeader front.header front.length now)
  return { data with ttlSeconds := front.ttl, basedOnSet := front.basedOn, publicKey := publicKey }

end Header

/-! ### Reading the payload and the signature -/

/-- The value with more of its payload. -/
def append (d : Data) (b : Bytes) : Data := { d with buffer := d.buffer ++ b }

/-- Takes as much of the payload as there is. -/
def decodeBuffer : Reader JavaException Data Unit := do
  let d ← state
  let buf ← Reader.buffer
  let remaining := d.length.toInt - d.buffer.length
  if remaining < 0 then throw (.illegalArgument "minWritableBytes")
  let bytes ← read .indexOutOfBounds (min remaining.toNat buf.length)
  modify fun d => d.append bytes
  if (d.buffer.length + bytes.length : Int) = d.length.toInt then return () else wait

/-- Whether a key is missing or the placeholder. -/
def keyMissing (k : Option PublicKey) : Bool := k == none || k == some .EMPTY_PUBLIC_KEY

/-- A value whose key is missing gets the key of the message, if there is one. -/
def adoptKey (publicKey : Option PublicKey) (d : Data) : Data :=
  if !keyMissing publicKey && keyMissing d.publicKey then { d with publicKey := publicKey } else d

/-- Takes the signature of a signed value. The key is adopted before the
    signature is there. -/
def readSignature (f : SignatureFactory) (publicKey : Option PublicKey) :
    Reader JavaException Data Unit := do
  modify (adoptKey publicKey)
  need f.signatureSize
  let wire ← read .indexOutOfBounds f.signatureSize
  modify fun d => { d with signature := some ⟨wire⟩ }

def decodeDone (f : SignatureFactory) (publicKey : Option PublicKey) :
    Reader JavaException Data Unit := do
  let d ← state
  if d.signed then readSignature f publicKey else return ()

/-- Reads what follows the header. -/
def decodeRest (f : SignatureFactory) (publicKey : Option PublicKey) :
    Reader JavaException Data Unit := do
  decodeBuffer
  decodeDone f publicKey

/-- The value that is being received: the one kept from an earlier call, or a new
    one if its header is there. -/
def started (f : SignatureFactory) (now : BitVec 64) :
    Option Data → Reader JavaException (Option Data) Data
  | none => decodeHeader f now
  | some d => pure d

/-- Receives a value, which is kept between the calls as far as it has arrived. -/
def receive (f : SignatureFactory) (publicKey : Option PublicKey) (now : BitVec 64) :
    Reader JavaException (Option Data) Unit := do
  let current ← state
  let d ← started f now current
  zoom (fun _ => d) (fun e _ => some e) (decodeRest f publicKey)

end Data

end TomP2P
