import TomP2P.Core.ContentCodec
import TomP2P.Core.Header

/-!
# Reading Messages

The decoder reads a message from a buffer that grows. It is called whenever bytes have
arrived, reads as far as it can, and says whether the message is complete. In between it
keeps the message with the contents read so far, the types of the contents that are to
come, and what was read of the content it is at.

The bytes of a signed message go to the signature with the call that reads them, under the
first key of the message. A call that throws is one that has finished.

Before the next message the decoder is reset, with some exceptions: the key of a value, and
what was read of a map of bytes or of the data of a tracker.

## Main definitions

* `Signature`: A signature that is being verified.
* `Decoder`: The state of the decoder.
* `Decoder.decodeContent`, `Decoder.decodePayload`: Contents.
* `Decoder.verifySignature`: What becomes of the bytes of a call.
* `Decoder.decode`: A call.
* `Decoder.prepareFinish`: The reset.
-/

namespace TomP2P

open Wire Reader

/-- A signature that is being verified: the key, and the bytes so far. -/
structure Signature where
  publicKey : PublicKey
  bytes : Bytes
  deriving DecidableEq

namespace Signature

/-- Keys without an encoding are none of any algorithm. -/
def initVerify (f : SignatureFactory) : Option PublicKey → Except JavaException Signature
  | none => .error (.invalidKey "No installed provider supports this key: (null)")
  | some .EMPTY_PUBLIC_KEY =>
      .error (.invalidKey "No installed provider supports this key: net.tomp2p.p2p.PeerBuilder$1")
  | some (.encoded bytes) => do
      f.initVerify bytes
      return ⟨.encoded bytes, []⟩

def update (s : Signature) (bytes : Bytes) : Signature := { s with bytes := s.bytes ++ bytes }

end Signature

/-- A new signature with the first bytes. -/
def SignatureFactory.update (f : SignatureFactory) (receivedPublicKey : Option PublicKey) (bytes : Bytes) :
    Except JavaException Signature := do
  let s ← Signature.initVerify f receivedPublicKey
  return s.update bytes

/-- Where messages come from. -/
structure Channel where
  recipient : InetSocketAddress
  sender : InetSocketAddress
  udp : Bool := false
  deriving DecidableEq

/-- The message that is being read, the types of its contents that are to come, and what was
    read of the content the decoder is at. -/
structure Decoder where
  contentTypes : List Content := []
  message : Message
  headerDone : Bool := false
  signature : Option Signature := none
  neighborSet : Collecting NeighborSet := {}
  keyCollection : Collecting KeyCollection := {}
  dataMap : DataMap.Decoding := {}
  keyMap640Keys : KeyMap640Keys.Decoding := {}
  keyMapByte : Collecting KeyMapByte := {}
  buffer : Buffer.Decoding := {}
  trackerData : TrackerData.Decoding := {}
  deriving DecidableEq

namespace Decoder

/-- A new decoder. The id of a new message is drawn by chance. -/
def new (messageId : BitVec 32) : Decoder where
  message := { messageId }

/-- What the values of a message are told of it. -/
def signer (d : Decoder) : TrackerData.Signer := ⟨d.message.isSign, d.message.publicKey 0⟩

/-! ### The header -/

/-- The types up to the first that is `EMPTY`. -/
def queued (contentTypes : List (Option Content)) : List Content :=
  (contentTypes.map fun c => c.getD .EMPTY).takeWhile (· ≠ .EMPTY)

def decodeHeader (ch : Channel) : Reader JavaException Decoder Unit := do
  need MessageHeaderCodec.HEADER_SIZE_MIN
  rewind (zoom Decoder.message (fun message d => { d with message })
    (MessageHeaderCodec.decodeHeader ch.recipient ch.sender))
  modify fun d =>
    let contents := queued d.message.contentTypes
    { d with
      headerDone := true
      contentTypes := d.contentTypes ++ contents
      message := { d.message with
        presetContentTypes := true
        sign := d.message.sign || contents.contains .PUBLIC_KEY_SIGNATURE
        udp := ch.udp } }

/-! ### The contents -/

/-- A public key, which must not be empty if it is the one to verify with. -/
def decodePublicKey (f : SignatureFactory) (content : Content) : Reader JavaException Decoder Payload := do
  let receivedPublicKey ← f.decodePublicKey
  if content = .PUBLIC_KEY_SIGNATURE ∧ receivedPublicKey = some .EMPTY_PUBLIC_KEY then
    throw (.invalidKey "The public key cannot be empty.")
  match receivedPublicKey with
  | none => wait
  | some k => return .publicKey k

def decodeBloomFilter : Reader JavaException Decoder Payload := do
  need 2
  let size ← lookField 0 2 32
  need size.toNat
  .bloomFilter <$> SimpleBloomFilter.decode

/-- A content of this type, received at time `now`. None of type `EMPTY` is ever to come. -/
def decodeContent (f : SignatureFactory) (now : BitVec 64) (content : Content) :
    Reader JavaException Decoder Payload :=
  match content with
  | .EMPTY => wait
  | .INTEGER => do
      need 4
      .intValue <$> readInt
  | .LONG => do
      need 8
      .longValue <$> readLong
  | .KEY => do
      need Number160.BYTE_ARRAY_SIZE
      .key <$> Number160.decode
  | .BLOOM_FILTER => decodeBloomFilter
  | .SET_NEIGHBORS =>
      .neighborsSet <$> zoom Decoder.neighborSet (fun s d => { d with neighborSet := s }) NeighborSet.decode
  | .PEER_SOCKET4 => do
      need PeerSocket4Address.SIZE
      .peerSocket4Address <$> PeerSocket4Address.decode false
  | .PEER_SOCKET6 => do
      need PeerSocket6Address.SIZE
      .peerSocket6Address <$> PeerSocket6Address.decode false
  | .SET_KEY640 =>
      .keyCollection <$> zoom Decoder.keyCollection (fun s d => { d with keyCollection := s }) KeyCollection.decode
  | .MAP_KEY640_DATA => do
      let d ← state
      .dataMap <$> zoom Decoder.dataMap (fun s d => { d with dataMap := s }) (DataMap.decode f d.signer now)
  | .MAP_KEY640_KEYS =>
      .keyMap640Keys <$> zoom Decoder.keyMap640Keys (fun s d => { d with keyMap640Keys := s }) KeyMap640Keys.decode
  | .MAP_KEY640_BYTE =>
      .keyMapByte <$> zoom Decoder.keyMapByte (fun s d => { d with keyMapByte := s }) KeyMapByte.decode
  | .BYTE_BUFFER => .buffer <$> zoom Decoder.buffer (fun s d => { d with buffer := s }) Buffer.decode
  | .SET_TRACKER_DATA => do
      let d ← state
      .trackerData <$> zoom Decoder.trackerData (fun s d => { d with trackerData := s })
        (TrackerData.decode f d.signer now)
  | .PUBLIC_KEY => decodePublicKey f .PUBLIC_KEY
  | .PUBLIC_KEY_SIGNATURE => decodePublicKey f .PUBLIC_KEY_SIGNATURE

/-- Reads the contents of these types into the message. -/
def decodeContents (f : SignatureFactory) (now : BitVec 64) : List Content → Reader JavaException Decoder Unit
  | [] => pure ()
  | content :: contentTypes => do
      let p ← decodeContent f now content
      let d ← state
      let message ← lift (d.message.set p)
      modify fun d => { d with message, contentTypes }
      decodeContents f now contentTypes

/-- The signature behind the contents of a signed message. -/
def decodeReceivedSignature (f : SignatureFactory) : Reader JavaException Decoder Unit := do
  need f.signatureSize
  let wire ← read .indexOutOfBounds f.signatureSize
  modify fun d => { d with message := { d.message with signatureEncode := some ⟨wire⟩ } }

def decodePayload (f : SignatureFactory) (now : BitVec 64) : Reader JavaException Decoder Unit := do
  let d ← state
  if d.message.hasContent then do
    decodeContents f now d.contentTypes
    let d ← state
    if d.message.isSign then decodeReceivedSignature f else pure ()
  else pure ()

/-! ### The signature -/

/-- The signature with more bytes. The first ones need the key of the message. -/
def feed (f : SignatureFactory) (d : Decoder) (bytes : Bytes) : Except JavaException Signature :=
  match d.signature with
  | none => f.update (d.message.publicKey 0) bytes
  | some s => .ok (s.update bytes)

/-- Whether the signature that was received is that of the bytes. -/
def verify (f : SignatureFactory) (s : Signature) (m : Message) : Except JavaException Message :=
  match m.signatureEncode with
  | none => .error .nullPointer
  | some receivedSignature => do
      let valid ← f.verify s.publicKey s.bytes receivedSignature
      return if valid then { m with verified := true } else m

/-- What becomes of the bytes that were read in a call. Those of the signature itself are
    left out, and with them it is verified. What is thrown comes with the decoder it leaves. -/
def verifySignature (f : SignatureFactory) (d : Decoder) (bytes : Bytes) (donePayload : Bool) :
    Except (JavaException × Decoder) Decoder :=
  if d.message.isSign && !bytes.isEmpty then
    let length := if donePayload then bytes.length - f.signatureSize else bytes.length
    match feed f d (bytes.take length) with
    | .error e => .error (e, d)
    | .ok s =>
        let d := { d with signature := some s }
        if donePayload then
          match verify f s d.message with
          | .error e => .error (e, d)
          | .ok message => .ok { d with message }
        else .ok d
  else .ok d

/-! ### Calls -/

/-- What a call comes to: whether it has finished, what it has thrown, the decoder, and the
    bytes that were not read. -/
structure Decoded where
  finished : Bool
  exception : Option JavaException := none
  decoder : Decoder
  rest : Bytes
  deriving DecidableEq

/-- The end of a call that began with the bytes `buf`. -/
def close (f : SignatureFactory) (buf : Bytes) (donePayload : Bool) (d : Decoder) (rest : Bytes) : Decoded :=
  match verifySignature f d (buf.take (buf.length - rest.length)) donePayload with
  | .ok d => ⟨donePayload, none, d, rest⟩
  | .error (e, d) => ⟨true, some e, d, rest⟩

/-- The header, unless it was read before. -/
def started (ch : Channel) (d : Decoder) (buf : Bytes) : Outcome JavaException Decoder Unit :=
  if d.headerDone then .done () d buf else (decodeHeader ch).run d buf

/-- A call at time `now`. -/
def decode (f : SignatureFactory) (ch : Channel) (now : BitVec 64) (d : Decoder) (buf : Bytes) : Decoded :=
  match started ch d buf with
  | .wait d rest => ⟨false, none, d, rest⟩
  | .fail e d rest => ⟨true, some e, d, rest⟩
  | .done _ d rest =>
      match (decodePayload f now).run d rest with
      | .wait d rest => close f buf false d rest
      | .fail e d rest => ⟨true, some e, d, rest⟩
      | .done _ d rest => close f buf true d rest

/-- Hands the message out, and gets ready for the next one. -/
def prepareFinish (messageId : BitVec 32) (d : Decoder) : Message × Decoder :=
  ({ d.message with done := true },
    { d with
      message := { messageId }
      contentTypes := []
      headerDone := false
      neighborSet := {}
      keyCollection := {}
      dataMap := { key := d.dataMap.key }
      keyMap640Keys := {}
      buffer := {}
      signature := none })

end Decoder

end TomP2P
