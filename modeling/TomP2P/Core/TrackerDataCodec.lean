import TomP2P.Core.DataCodec
import TomP2P.Core.Message

/-!
# Tracker Data on the Wire

The contents of type `SET_TRACKER_DATA`: values under the addresses of peers. On the
wire it is one byte with the number of entries, and for each entry the address and the
value.

The decoder keeps the number of entries, the map, and the entry whose value it is
receiving. That value stands in the map already, so what arrives of it is stored there.
In front of an address it looks four bytes up, takes them for the header of the address
and waits for as many bytes as an address with this header has. In a signed message the
value gets the key of the message before its payload is read.

## Main definitions

* `TrackerData.encodeParts`, `TrackerData.encode`: The encoding.
* `TrackerData.Decoding`: What the decoder keeps.
* `TrackerData.decodeEntry`, `TrackerData.decode`: The decoder.
* `Data.equals`: When two values are equal.
-/

namespace TomP2P

open Wire Reader

/-- The times to live and the public keys of two values are not compared. -/
def Data.equals (d e : Data) : Bool :=
  if e.signed != d.signed || e.basedOnFlag != d.basedOnFlag || e.protectedEntry != d.protectedEntry ||
      e.publicKeyFlag != d.publicKeyFlag || d.flag1 != e.flag1 || d.flag2 != e.flag2 ||
      d.prepareFlag != e.prepareFlag then false
  else if e.type != d.type || e.length != d.length then false
  else d.basedOnSet.equals e.basedOnSet && d.signature == e.signature && e.buffer == d.buffer

namespace TrackerData

/-- The bytes of each entry: of the address, and of the value. -/
def encodeParts (f : SignatureFactory) (isReply : Bool) (messagePrivateKey : Option PrivateKey)
    (now : BitVec 64) : List (PeerKey × PeerAddress × Data) → Except JavaException (List (Bytes × Bytes))
  | [] => .ok []
  | (_, address, value) :: entries => do
      let v ← address.encode
      let data := value.duplicate
      let w ← data.encodeData f false isReply messagePrivateKey now
      let parts ← encodeParts f isReply messagePrivateKey now entries
      return (v, w) :: parts

/-- All entries, one after the other. -/
def flatten (parts : List (Bytes × Bytes)) : Bytes := parts.flatMap fun part => part.1 ++ part.2

/-- The encoding in a message, which is a reply or not. -/
def encode (f : SignatureFactory) (isReply : Bool) (messagePrivateKey : Option PrivateKey) (now : BitVec 64)
    (trackerData : TrackerData) : Except JavaException Bytes := do
  let parts ← encodeParts f isReply messagePrivateKey now trackerData.peerAddresses.entries
  return writeByte (BitVec.ofNat 32 trackerData.size) ++ flatten parts

/-- The number of entries, once it is known, the entries so far, and the one whose value
    is not complete. -/
structure Decoding where
  trackerDataSize : BitVec 32 := -1#32
  trackerData : Option TrackerData := none
  currentTrackerData : Option (PeerAddress × Data) := none
  deriving DecidableEq

/-- Stores what has arrived of a value. -/
def store (pa : PeerAddress) (data : Data) (s : Decoding) : Decoding :=
  { s with
    trackerData := s.trackerData.map fun m => m.put pa data
    currentTrackerData := some (pa, data) }

/-- The part of a message that the decoder asks for. -/
structure Signer where
  isSign : Bool
  publicKey : Option PublicKey

/-- In a signed message the key of the message is the key of each value. -/
def Signer.keyed (message : Signer) (data : Data) : Data :=
  if message.isSign then data.setPublicKey message.publicKey else data

/-- The payload and the signature of the current value. -/
def decodeCurrent (f : SignatureFactory) (message : Signer) (pa : PeerAddress) (data : Data) :
    Reader JavaException Decoding Unit := do
  zoom (fun _ => data) (store pa) (Data.decodeRest f message.publicKey)
  modify fun s => { s with currentTrackerData := none }

/-- A value, received at time `now`, which is stored as soon as its header is there. -/
def decodeValue (f : SignatureFactory) (message : Signer) (now : BitVec 64) (pa : PeerAddress) :
    Reader JavaException Decoding Unit := do
  let data ← Data.decodeHeader f now
  modify (store pa (message.keyed data))
  decodeCurrent f message pa (message.keyed data)

/-- An entry. Its address is consumed even if the header of its value is not there. -/
def decodeEntry (f : SignatureFactory) (message : Signer) (now : BitVec 64) :
    Reader JavaException Decoding Unit := do
  need 4
  let header ← lookField 0 4 32
  need (PeerAddress.size header)
  let pa ← PeerAddress.decode
  decodeValue f message now pa

def decode (f : SignatureFactory) (message : Signer) (now : BitVec 64) :
    Reader JavaException Decoding TrackerData := do
  let s ← state
  if s.trackerDataSize = -1#32 then do
    need 1
    let trackerDataSize ← readUnsignedByte
    modify fun s => { s with trackerDataSize }
  else pure ()
  modify fun s => { s with trackerData := some (s.trackerData.getD .empty) }
  match s.currentTrackerData with
  | some (pa, data) => decodeCurrent f message pa data
  | none => pure ()
  let s ← state
  repeat_ (decodeEntry f message now) (s.trackerDataSize.toInt - (s.trackerData.getD .empty).size).toNat
  let s ← state
  modify fun _ => {}
  return s.trackerData.getD .empty

end TrackerData

end TomP2P
