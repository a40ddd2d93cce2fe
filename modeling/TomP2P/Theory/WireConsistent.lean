import TomP2P.Theory.DataConsistency

/-!
# Values Whose Flags Say What They Hold

A value is wire-consistent if its flags, lengths and numbers agree with its fields, so
that its encoding announces what follows. It is the condition under which a value that is
written is the value that is read, and it includes that a value has a signature if it is
marked as signed, and only then: a missing signature is made on the way out, and then the
two differ in it.

## Main definitions

* `Data.WireConsistent`: The condition.

## Theorems

* `Data.WireConsistent.encode_eq`: The parts of the encoding.
* `Data.WireConsistent.received_eq`: What the header gives.
-/

namespace TomP2P

open Wire Reader

namespace Data

/-- The flags, lengths and numbers of a value agree with its fields. -/
structure WireConsistent (f : SignatureFactory) (d : Data) : Prop where
  kept : d.Kept
  signable : d.Signable f
  length_eq : d.length.toInt = d.buffer.length
  signed_key : d.signed = true → d.publicKeyFlag = true
  protected_signed : d.protectedEntry = true → d.signed = true
  basedOn_pos : d.basedOnFlag = true → 0 < d.basedOnSet.size
  basedOn_le : d.basedOnFlag = true → d.basedOnSet.size ≤ 256
  signature : d.signature.isSome = d.signed

namespace WireConsistent

variable {f : SignatureFactory} {d : Data}

theorem headerFits (h : d.WireConsistent f) : d.HeaderFits f :=
  headerFits_of h.kept h.signable h.signed_key h.protected_signed fun hb => ⟨h.basedOn_pos hb, h.basedOn_le hb⟩

theorem announcedLength_eq (h : d.WireConsistent f) : d.announcedLength = d.length := by
  refine h.kept.announcedLength_eq ?_
  rw [h.length_eq]
  exact Int.natCast_nonneg _

/-- The copy has the type already. -/
theorem duplicate_eq (h : d.WireConsistent f) : d.duplicate = d := by
  rw [duplicate, ← h.kept.type_eq]

theorem encodeDone_eq (h : d.WireConsistent f) (mk : Option PrivateKey) :
    d.encodeDone f mk = .ok d.signature := by
  have hsome := h.signature
  unfold encodeDone
  cases hs : d.signed with
  | false =>
      rw [hs, Option.isSome_eq_false_iff, Option.isNone_iff_eq_none] at hsome
      rw [hsome]
      rfl
  | true =>
      rw [hs, Option.isSome_iff_exists] at hsome
      obtain ⟨s, hsig⟩ := hsome
      simp only [hsig, if_true]

theorem length_signature (h : d.WireConsistent f) :
    (signatureField d.signature).length = if d.signed then f.signatureSize else 0 :=
  (encodeDone_ok h.signable (h.encodeDone_eq none)).2

/-- What was written for a signature is the signature. -/
theorem signature_eq (h : d.WireConsistent f) :
    (if d.signed then some ⟨signatureField d.signature⟩ else none) = d.signature := by
  have hsome := h.signature
  cases hsig : d.signature with
  | none | some s =>
      rw [hsig] at hsome
      rw [← hsome]
      rfl

/-- The encoding is the header, the payload and the signature. -/
theorem encode_eq (h : d.WireConsistent f) {mk : Option PrivateKey} {v : Bytes} (hv : d.encode f mk = .ok v) :
    ∃ header, d.encodeHeader f = .ok header ∧ v = header ++ (d.buffer ++ signatureField d.signature) := by
  obtain ⟨header, sig, hheader, hsig, rfl⟩ := encode_ok hv
  rw [h.encodeDone_eq] at hsig
  cases hsig
  exact ⟨header, hheader, rfl⟩

/-- The header gives the value without payload and signature, and with the key as it is
    announced. -/
theorem received_eq (h : d.WireConsistent f) (now : BitVec 64) :
    d.received now = { d with
      buffer := []
      publicKey := d.wireKey
      signature := none
      privateKey := none
      validFromMillis := now } := by
  rw [received, h.announcedLength_eq, h.kept.announcedTTL_eq, h.kept.announcedBasedOn_eq]

/-- A value is consistent from the start. -/
theorem new (hf : f.Lawful) {buffer : Bytes} (hlength : buffer.length < 2 ^ 31) (now : BitVec 64) :
    (Data.new buffer now).WireConsistent f where
  kept := ⟨rfl, fun _ => rfl, fun _ => rfl⟩
  signable := ⟨hf, (fun _ hk => by cases hk), fun _ hs => by cases hs⟩
  length_eq := by
    change (BitVec.ofNat 32 buffer.length).toInt = buffer.length
    rw [BitVec.toInt_eq_toNat_of_lt] <;> rw [BitVec.toNat_ofNat] <;> omega
  signed_key hs := by cases hs
  protected_signed hp := by cases hp
  basedOn_pos hb := by cases hb
  basedOn_le hb := by cases hb
  signature := rfl

/-- A time to live does not change anything else. -/
theorem setTtlSeconds (h : d.WireConsistent f) (ttlSeconds : BitVec 32) :
    (d.setTtlSeconds ttlSeconds).WireConsistent f where
  kept := ⟨h.kept.type_eq, (fun hf => by cases hf), h.kept.basedOn_unset⟩
  signable := ⟨h.signable.lawful, h.signable.key, h.signable.signature_size⟩
  length_eq := h.length_eq
  signed_key := h.signed_key
  protected_signed := h.protected_signed
  basedOn_pos := h.basedOn_pos
  basedOn_le := h.basedOn_le
  signature := h.signature

end WireConsistent

end Data

end TomP2P
