import TomP2P.Foundation.Reader

/-!
# Keys and Signatures

The cryptographic objects a message or a stored value carries, and the factory
that makes and checks them.

A public key is known by its encoding. The one exception is the placeholder
`EMPTY_PUBLIC_KEY`, which has none: hashing or encoding it dereferences null.
The algorithms themselves are parameters of `SignatureFactory`, with what they
throw for keys and signatures that are none of theirs. What the codecs rely on is that the keys they meet are read back from their encodings
(`SignatureFactory.IsKey`) and that signatures have the size the factory
announces (`SignatureFactory.Lawful`).

## Main definitions

* `JavaException`: What the modelled code throws.
* `PublicKey`, `PrivateKey`, `SignatureCodec`: Keys and signatures.
* `SignatureFactory`: The algorithms.
* `SignatureFactory.encodePublicKey`, `SignatureFactory.decodePublicKey`: A key
  with its length field.

## Theorems

* `SignatureFactory.parses_decodePublicKey`: Reading back a written key.
* `SignatureFactory.decodePublicKey_part`: Nothing happens on a part of a key.
-/

namespace TomP2P

open Wire Reader Outcome List

/-- What the modelled code throws. -/
inductive JavaException
  | nullPointer
  | illegalArgument (message : String)
  | illegalState (message : String)
  | indexOutOfBounds
  | negativeArraySize
  | noSuchElement
  | invalidKey (message : String)
  | signature (message : String)
  | runtime (message : String)
  deriving DecidableEq

/-- A public key: the placeholder without an encoding, or a key known by its
    encoding. -/
inductive PublicKey
  | EMPTY_PUBLIC_KEY
  | encoded (bytes : Bytes)
  deriving DecidableEq

def PublicKey.getEncoded : PublicKey → Option Bytes
  | .EMPTY_PUBLIC_KEY => none
  | .encoded bytes => some bytes

/-- A private key, known by its encoding. -/
structure PrivateKey where
  bytes : Bytes
  deriving DecidableEq

/-- A signature, as it stands on the wire. -/
structure SignatureCodec where
  wire : Bytes
  deriving DecidableEq

/-- The signature algorithm of a peer. -/
structure SignatureFactory where
  /-- The key an encoding stands for; none if the key specification is wrong. -/
  generatePublic : Bytes → Option PublicKey
  sign : PrivateKey → Bytes → SignatureCodec
  /-- Begins with the key of this encoding, which throws if the algorithm does not support it. -/
  initVerify : Bytes → Except JavaException Unit
  /-- Whether the signature is that of the bytes. A signature that is not properly encoded throws. -/
  verify : PublicKey → Bytes → SignatureCodec → Except JavaException Bool
  signatureSize : Nat

namespace SignatureFactory

/-- Signatures have the size the factory announces. -/
structure Lawful (f : SignatureFactory) : Prop where
  sign_size : ∀ k bytes, (f.sign k bytes).wire.length = f.signatureSize

/-- The bytes are the encoding of a key of the factory, one whose length fits
    the 16-bit length field. -/
structure IsKey (f : SignatureFactory) (data : Bytes) : Prop where
  ne_nil : data ≠ []
  length_lt : data.length < 2 ^ 16
  generatePublic_eq : f.generatePublic data = some (.encoded data)

/-- A key is written with a length field of 16 bits. A key that is missing or
    has no encoding is dereferenced all the same. -/
def encodePublicKey (_f : SignatureFactory) : Option PublicKey → Except JavaException Bytes
  | none => .error .nullPointer
  | some k =>
      match k.getEncoded with
      | none => .error .nullPointer
      | some data => .ok (toBE 2 data.length ++ data)

/-- Reads a key with its length field. Nothing is consumed while the key is
    incomplete; a key with a wrong specification is consumed and gives none. -/
def decodePublicKey {σ : Type} (f : SignatureFactory) : Reader JavaException σ (Option PublicKey) := do
  let buf ← buffer
  if buf.length < 2 then return none
  let len := ofBE (buf.take 2)
  if buf.length - 2 < len then return none
  let _ ← read .indexOutOfBounds 2
  if len = 0 then return some .EMPTY_PUBLIC_KEY
  let me ← read .indexOutOfBounds len
  return f.generatePublic me

/-- The cases of a run. -/
theorem run_decodePublicKey {σ : Type} (f : SignatureFactory) (s : σ) (b : Bytes) :
    f.decodePublicKey.run s b =
      if b.length < 2 ∨ b.length - 2 < ofBE (b.take 2) then .done none s b
      else if ofBE (b.take 2) = 0 then .done (some .EMPTY_PUBLIC_KEY) s (b.drop 2)
      else .done (f.generatePublic ((b.drop 2).take (ofBE (b.take 2)))) s
        ((b.drop 2).drop (ofBE (b.take 2))) := by
  unfold decodePublicKey
  rw [run_bind, run_buffer, andThen_done]
  by_cases h2 : b.length < 2
  · rw [if_pos h2, if_pos (.inl h2), run_pure]
  · by_cases hlen : b.length - 2 < ofBE (b.take 2)
    · rw [if_neg h2, if_pos (Or.inr hlen), if_pos hlen, run_pure]
    · have hrest : ¬ (b.drop 2).length < ofBE (b.take 2) := by
        rw [length_drop]
        exact hlen
      rw [if_neg h2, if_neg (not_or.mpr ⟨h2, hlen⟩), if_neg hlen, run_bind, run_read, if_neg h2,
        andThen_done]
      by_cases h0 : ofBE (b.take 2) = 0
      · rw [if_pos h0, if_pos h0, run_pure]
      · rw [if_neg h0, if_neg h0, run_bind, run_read, if_neg hrest, andThen_done, run_pure]

theorem encodePublicKey_ok {f : SignatureFactory} {k : Option PublicKey} {v : Bytes}
    (h : f.encodePublicKey k = .ok v) :
    ∃ data, k = some (.encoded data) ∧ v = toBE 2 data.length ++ data := by
  cases k with
  | none => cases h
  | some k =>
      cases k with
      | EMPTY_PUBLIC_KEY => cases h
      | encoded data => exact ⟨data, rfl, (Except.ok.inj h).symm⟩

/-- A key that is not complete is not touched. -/
theorem decodePublicKey_part {σ : Type} (f : SignatureFactory) (data b c : Bytes) (s : σ)
    (hlen : data.length < 2 ^ 16) (hc : c ≠ []) (h : toBE 2 data.length ++ data = b ++ c) :
    f.decodePublicKey.run s b = .done none s b := by
  have hpos : 0 < c.length := length_pos_of_ne_nil hc
  have hall : 2 + data.length = b.length + c.length := by
    have hsum := congrArg List.length h
    rwa [length_append, length_append, length_toBE] at hsum
  rw [run_decodePublicKey, if_pos]
  by_cases h2 : b.length < 2
  · exact .inl h2
  · have htake : b.take 2 = toBE 2 data.length := by
      have hb : (b ++ c).take 2 = b.take 2 := take_append_of_le_length (Nat.not_lt.mp h2)
      rw [← hb, ← h, take_left' (length_toBE 2 data.length)]
    rw [htake, ofBE_toBE_of_lt 2 data.length hlen]
    omega

/-- A complete key is read back. -/
theorem parses_decodePublicKey {σ : Type} (f : SignatureFactory) (data : Bytes) (h : f.IsKey data) :
    Parses (decodePublicKey (σ := σ) f) (toBE 2 data.length ++ data) (some (.encoded data)) := by
  intro s rest
  have hpos : 0 < data.length := length_pos_of_ne_nil h.ne_nil
  have htake : (toBE 2 data.length ++ data ++ rest).take 2 = toBE 2 data.length := by
    rw [append_assoc]
    exact take_left' (length_toBE 2 data.length)
  have hdrop : (toBE 2 data.length ++ data ++ rest).drop 2 = data ++ rest := by
    rw [append_assoc]
    exact drop_left' (length_toBE 2 data.length)
  have hval : ofBE (toBE 2 data.length) = data.length := ofBE_toBE_of_lt 2 _ h.length_lt
  have hlong : ¬ ((toBE 2 data.length ++ data ++ rest).length < 2 ∨
      (toBE 2 data.length ++ data ++ rest).length - 2 < data.length) := by
    simp only [length_append, length_toBE]
    omega
  rw [run_decodePublicKey, htake, hdrop, hval, if_neg hlong, if_neg (by omega),
    take_left' rfl, drop_left' rfl, h.generatePublic_eq]

/-- A key of length zero is the placeholder. -/
theorem parses_decodePublicKey_empty {σ : Type} (f : SignatureFactory) :
    Parses (decodePublicKey (σ := σ) f) (toBE 2 0) (some .EMPTY_PUBLIC_KEY) := by
  intro s rest
  have htake : (toBE 2 0 ++ rest).take 2 = toBE 2 0 := take_left' rfl
  have hdrop : (toBE 2 0 ++ rest).drop 2 = rest := drop_left' rfl
  have hval : ofBE (toBE 2 0) = 0 := by decide
  have hlong : ¬ ((toBE 2 0 ++ rest).length < 2 ∨ (toBE 2 0 ++ rest).length - 2 < 0) := by
    simp only [length_append, length_toBE]
    omega
  rw [run_decodePublicKey, htake, hdrop, hval, if_neg hlong, if_pos rfl]

/-- A factory for runs on fixed values: its signatures are 40 zeros. -/
def zeros : SignatureFactory where
  generatePublic data := some (.encoded data)
  sign _ _ := ⟨List.replicate 40 0⟩
  initVerify _ := .ok ()
  verify _ _ signature := .ok (signature == ⟨List.replicate 40 0⟩)
  signatureSize := 40

theorem zeros_lawful : zeros.Lawful := ⟨fun _ _ => length_replicate⟩

end SignatureFactory

end TomP2P
