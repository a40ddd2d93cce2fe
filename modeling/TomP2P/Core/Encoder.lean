import TomP2P.Core.ContentCodec
import TomP2P.Core.Header

/-!
# Writing Messages

A message is written as its header, its contents in the order of its references, and for a
signed message the signature over all of these. A relay passes on the signature it has
received, everybody else signs.

The references are used up on the way, and a signed message is marked as such when its key
is written.

## Main definitions

* `Encoder.encodeContent`: A content.
* `Encoder.write`: A message.
-/

namespace TomP2P

open Wire

/-- A private key is needed to sign. -/
def SignatureFactory.signWith (f : SignatureFactory) (privateKey : Option PrivateKey) (bytes : Bytes) :
    Except JavaException SignatureCodec :=
  match privateKey with
  | some k => .ok (f.sign k bytes)
  | none => .error (.invalidKey "No installed provider supports this key: (null)")

namespace Encoder

/-- A content of the message, written at time `now`. -/
def encodeContent (f : SignatureFactory) (now : BitVec 64) (m : Message) : Payload → Except JavaException Bytes
  | .key k => .ok k.encode
  | .intValue x => .ok (writeInt x)
  | .longValue x => .ok (writeLong x)
  | .neighborsSet s => s.encode
  | .peerSocket4Address a => a.encode false
  | .peerSocket6Address a => a.encode false
  | .bloomFilter b => b.encode
  | .keyCollection c => .ok c.encode
  | .dataMap d => d.encode f (!m.isRequest) m.privateKey now
  | .keyMap640Keys k => .ok k.encode
  | .keyMapByte k => .ok k.encode
  | .buffer b => .ok b.encode
  | .trackerData t => t.encode f (!m.isRequest) m.privateKey now
  | .publicKeyAndSign k _ => f.encodePublicKey (some k)
  | .publicKey k => f.encodePublicKey (some k)

/-- The content a reference stands for. One that is missing is dereferenced. -/
def content (m : Message) (next : MessageContentIndex) : Except JavaException Payload :=
  if next.content = .EMPTY then .error (.runtime "Unknown type: EMPTY")
  else
    match m.payload next with
    | some p => .ok p
    | none => .error .nullPointer

/-- Writes the contents with these references, and uses the references up. -/
def loop (f : SignatureFactory) (now : BitVec 64) :
    List MessageContentIndex → Message → Except JavaException (Bytes × Message)
  | [], m => .ok ([], { m with contentReferences := [] })
  | next :: contentReferences, m => do
      let m := if next.content = .PUBLIC_KEY_SIGNATURE then m.setHintSign else m
      let p ← content m next
      let v ← encodeContent f now m p
      let (w, m) ← loop f now contentReferences m
      return (v ++ w, m)

/-- The signature that is passed on, or a new one. -/
def signature (f : SignatureFactory) (m : Message) (signatureCodec : Option SignatureCodec) (bytes : Bytes) :
    Except JavaException SignatureCodec :=
  match signatureCodec with
  | some s => .ok s
  | none => f.signWith m.privateKey bytes

/-- Writes a message, and leaves it without references. -/
def write (f : SignatureFactory) (now : BitVec 64) (m : Message) (signatureCodec : Option SignatureCodec) :
    Except JavaException (Bytes × Message) := do
  let header ← MessageHeaderCodec.encodeHeader m
  let (contents, m) ← loop f now m.contentReferences m
  if m.isSign then do
    let s ← signature f m signatureCodec (header ++ contents)
    return (header ++ contents ++ s.wire, m)
  else return (header ++ contents, m)

end Encoder

end TomP2P
