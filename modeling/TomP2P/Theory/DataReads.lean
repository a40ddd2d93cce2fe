import TomP2P.Core.DataCodec

/-!
# Reading Back a Value

What is read from the bytes a value was written with.

The header is read back if the fields agree that its flags announce together
(`Data.HeaderFits`): the flags that share bits are nested, the number of
predecessors fits its byte, and the public key is one the factory can read. The
length is not among them. A small value announces the low byte of its length
whatever the length is, and `Data.received` is what the header gives then.

The rest is read back if payload and signature have the sizes that were
announced. Neither the header nor the rest mind where the bytes are cut
(`Data.idle_decodeHeader`, `Data.reads_decodeRest`).

## Main definitions

* `Data.HeaderFits`: The fields a header announces agree.
* `Data.received`: The value a header gives.
* `Data.completed`: The value with its payload and its signature.

## Theorems

* `Data.parses_decodeHeader`, `Data.idle_decodeHeader`: The header is read back,
  in one piece.
* `Data.reads_decodeRest`: The payload is read as it comes, the signature in one
  piece.
-/

namespace TomP2P

open Wire Reader Outcome List

namespace Data

/-! ### Reading back a header -/

/-- The fields a header announces agree: the type with the length, the three
    flags that share bits with one another, the number of predecessors with its
    byte, and the public key with the factory. -/
structure HeaderFits (f : SignatureFactory) (d : Data) : Prop where
  large : d.type = .LARGE → 255 < d.length.toInt
  signed_key : d.signed = true → d.publicKeyFlag = true
  protected_signed : d.protectedEntry = true → d.signed = true
  basedOn_pos : d.basedOnFlag = true → 0 < d.basedOnSet.size
  basedOn_le : d.basedOnFlag = true → d.basedOnSet.size ≤ 256
  key : ∀ data, d.publicKey = some (.encoded data) → f.IsKey data

/-- The length as it arrives: of a small value only the low byte is written. -/
def announcedLength (d : Data) : BitVec 32 :=
  match d.type with
  | .SMALL => BitVec.ofNat 32 (d.length.toNat % 256)
  | .LARGE => d.length

def announcedTTL (d : Data) : BitVec 32 := if d.ttl then d.ttlSeconds else -1

def announcedBasedOn (d : Data) : HashedSet Number160 :=
  if d.basedOnFlag then d.basedOnSet else .empty

/-- The key as it arrives: a missing one as the placeholder. -/
def wireKey (d : Data) : Option PublicKey :=
  if d.publicKeyFlag then some (d.publicKey.getD .EMPTY_PUBLIC_KEY) else none

/-- The value its header gives at time `now`. -/
def received (d : Data) (now : BitVec 64) : Data :=
  { d with
    length := d.announcedLength
    buffer := []
    ttlSeconds := d.announcedTTL
    basedOnSet := d.announcedBasedOn
    publicKey := d.wireKey
    signature := none
    privateKey := none
    validFromMillis := now }

variable {σ : Type} {f : SignatureFactory} {d : Data}

/-- The flags are read back if the three that share bits are nested. -/
theorem header_flags (h : d.HeaderFits f) :
    typeOf d.header = d.type ∧ hasPrepareFlagBit d.header = d.prepareFlag ∧
      isFlag1 d.header = d.flag1 ∧ isFlag2 d.header = d.flag2 ∧ hasTTL d.header = d.ttl ∧
      isSignedBits d.header = d.signed ∧ hasPublicKeyBits d.header = d.publicKeyFlag ∧
      isProtectedEntryBits d.header = d.protectedEntry ∧ hasBasedOn d.header = d.basedOnFlag := by
  obtain ⟨htype, hprepare, hflag1, hflag2, httl, hsigned, hkey, hprot, hbased, _⟩ := header_bits d
  have hs : (d.signed && d.publicKeyFlag) = d.signed :=
    Bool.and_eq_left_iff_imp.mpr h.signed_key
  have hp : (d.signed && d.publicKeyFlag && d.protectedEntry) = d.protectedEntry := by
    rw [hs]
    exact Bool.and_eq_right_iff_imp.mpr h.protected_signed
  exact ⟨htype, hprepare, hflag1, hflag2, httl, hsigned.trans hs, hkey, hprot.trans hp, hbased⟩

/-- The type tells whether the announced length fits a byte. -/
theorem type_bounds (h : d.HeaderFits f) :
    (d.type = .SMALL ∧ 0 ≤ d.announcedLength.toInt ∧ d.announcedLength.toInt ≤ 255) ∨
      (d.type = .LARGE ∧ 255 < d.announcedLength.toInt) := by
  rw [announcedLength]
  cases ht : d.type with
  | SMALL =>
      have hval : (BitVec.ofNat 32 (d.length.toNat % 256)).toInt = (d.length.toNat % 256 : Nat) := by
        rw [BitVec.toInt_eq_toNat_of_lt] <;> rw [BitVec.toNat_ofNat] <;> omega
      refine .inl ⟨rfl, ?_⟩
      simp only [hval]
      omega
  | LARGE => exact .inr ⟨rfl, h.large ht⟩

theorem ofHeader_header (h : d.HeaderFits f) (now : BitVec 64) :
    ofHeader d.header d.announcedLength now =
      .ok { d.received now with ttlSeconds := -1, basedOnSet := .empty, publicKey := none } := by
  obtain ⟨htype, hprepare, hflag1, hflag2, httl, hsigned, hkey, hprot, hbased⟩ := header_flags h
  have hsmall : ¬ (typeOf d.header = .SMALL ∧ 255 < d.announcedLength.toInt) := by
    rw [htype]
    rcases type_bounds h with ⟨ht, _, hle⟩ | ⟨ht, hlt⟩
    · omega
    · simp [ht]
  have hlarge : ¬ (typeOf d.header = .LARGE ∧ d.announcedLength.toInt ≤ 255) := by
    rw [htype]
    rcases type_bounds h with ⟨ht, _, hle⟩ | ⟨ht, hlt⟩
    · simp [ht]
    · omega
  have hneg : ¬ d.announcedLength.toInt < 0 := by
    rcases type_bounds h with ⟨_, hpos, _⟩ | ⟨_, hlt⟩ <;> omega
  rw [ofHeader, if_neg hsmall, if_neg hlarge, if_neg hneg, htype, hprepare, hflag1, hflag2, httl,
    hsigned, hkey, hprot, hbased]
  rfl

/-- The length is written as it is announced. -/
theorem lengthField_eq (d : Data) :
    d.lengthField = toBE (match d.type with | .SMALL => 1 | .LARGE => 4) d.announcedLength.toNat := by
  rw [lengthField, announcedLength]
  cases d.type with
  | SMALL =>
      have hval : (BitVec.ofNat 32 (d.length.toNat % 256)).toNat = d.length.toNat % 256 := by
        rw [BitVec.toNat_ofNat]
        omega
      simp only [writeByte, hval]
      exact (toBE_mod 1 d.length.toNat 256 (dvd_refl _)).symm
  | LARGE => rfl

theorem looks_length (h : d.HeaderFits f) (u w : Bytes) (hu : u.length = 1) :
    Looks (lookLength (σ := σ) d.header) (u ++ (d.lengthField ++ w)) (1 + d.lengthField.length)
      (d.announcedLength, 1 + d.lengthField.length) := by
  rw [lookLength, (header_flags h).1, lengthField_eq]
  rcases type_bounds h with ⟨ht, hpos, hle⟩ | ⟨ht, hlt⟩
  · rw [ht]
    have hnat : d.announcedLength.toNat < 256 ^ 1 := by
      rw [BitVec.toInt_eq_toNat_cond] at hpos hle
      split at hpos <;> omega
    have hlook := Looks.lookField (ε := JavaException) (σ := σ) (n := 1) u w d.announcedLength hnat
    rw [hu] at hlook
    simp only [length_toBE]
    exact hlook.ret fun length => (length, 2)
  · rw [ht]
    have hlook := Looks.lookField (ε := JavaException) (σ := σ) (n := 4) u w d.announcedLength
      d.announcedLength.isLt
    rw [hu] at hlook
    simp only [length_toBE]
    have hneed : Looks (need 5 : Reader JavaException σ Unit)
        (u ++ (toBE 4 d.announcedLength.toNat ++ w)) 5 () := by
      refine Looks.need ?_
      simp only [length_append, length_toBE]
      omega
    exact hneed.seq (hlook.ret fun length => (length, 5))

theorem looks_ttl (h : d.HeaderFits f) (u w : Bytes) :
    ∃ j, (d.ttl = true → u.length + d.ttlField.length ≤ j) ∧
      Looks (lookTTL (σ := σ) d.header u.length) (u ++ (d.ttlField ++ w)) j
        (d.announcedTTL, u.length + d.ttlField.length) := by
  rw [lookTTL, (header_flags h).2.2.2.2.1, ttlField, announcedTTL]
  by_cases httl : d.ttl = true
  · simp only [if_pos httl]
    have hlook := Looks.lookField (ε := JavaException) (σ := σ) (n := 4) u w d.ttlSeconds
      d.ttlSeconds.isLt
    have hneed : Looks (need (u.length + 4) : Reader JavaException σ Unit)
        (u ++ (writeInt d.ttlSeconds ++ w)) (u.length + 4) () := by
      refine Looks.need ?_
      simp only [length_append, writeInt, length_toBE]
      omega
    refine ⟨_, ?_, hneed.seq (hlook.ret fun ttl => (ttl, u.length + 4))⟩
    intro _
    simp only [writeInt, length_toBE]
    omega
  · simp only [if_neg httl]
    exact ⟨0, fun ht => absurd ht httl, Looks.pure _ (-1, u.length)⟩

/-- The keys of a set are found where they were written. -/
theorem keysOf_encode (ks : List Number160) (r : Bytes) :
    keysOf ks.length (ks.flatMap Number160.encode ++ r) = ks := by
  induction ks with
  | nil => rfl
  | cons k ks ih =>
      rw [length_cons, keysOf, flatMap_cons, append_assoc,
        Number160.ofBytes_encode_append, drop_left' k.length_encode, ih]

theorem length_flatMap_encode (ks : List Number160) :
    (ks.flatMap Number160.encode).length = ks.length * 20 := by
  induction ks with
  | nil => rfl
  | cons k ks ih =>
      rw [flatMap_cons, length_append, ih, k.length_encode, length_cons,
        Number160.BYTE_ARRAY_SIZE]
      omega

theorem looks_basedOn (h : d.HeaderFits f) (u w : Bytes) :
    ∃ j, (d.basedOnFlag = true → u.length + d.basedOnField.length ≤ j) ∧
      Looks (lookBasedOn (σ := σ) d.header u.length) (u ++ (d.basedOnField ++ w)) j
        (d.announcedBasedOn, u.length + d.basedOnField.length) := by
  rw [lookBasedOn, (header_flags h).2.2.2.2.2.2.2.2, basedOnField, announcedBasedOn]
  by_cases hflag : d.basedOnFlag = true
  · simp only [if_pos hflag]
    have hpos := h.basedOn_pos hflag
    have hle := h.basedOn_le hflag
    -- The number written is the size less one, and fits its byte.
    have hnr : (BitVec.ofNat 32 d.basedOnSet.size - 1).toNat = d.basedOnSet.size - 1 := by
      rw [BitVec.toNat_sub, BitVec.toNat_ofNat]
      have h1 : (1 : BitVec 32).toNat = 1 := rfl
      rw [h1]
      omega
    have hkeys := length_flatMap_encode d.basedOnSet.elems
    have hlen : (writeByte (BitVec.ofNat 32 d.basedOnSet.size - 1)).length = 1 := length_toBE 1 _
    have hnum : (BitVec.ofNat 32 d.basedOnSet.size - 1).toNat + 1 = d.basedOnSet.elems.length := by
      rw [hnr]
      exact Nat.sub_add_cancel hpos
    have hfield := Looks.lookField (ε := JavaException) (σ := σ) (n := 1) u
      (d.basedOnSet.elems.flatMap Number160.encode ++ w) (BitVec.ofNat 32 d.basedOnSet.size - 1)
      (by rw [hnr]; omega)
    have hlook := Looks.lookAt (ε := JavaException) (σ := σ)
      (u ++ writeByte (BitVec.ofNat 32 d.basedOnSet.size - 1))
      (d.basedOnSet.elems.flatMap Number160.encode) w
    rw [length_append, hlen, hkeys] at hlook
    have hkeysOf : HashedSet.ofList (keysOf d.basedOnSet.elems.length
        (d.basedOnSet.elems.flatMap Number160.encode)) = d.basedOnSet := by
      have hall := keysOf_encode d.basedOnSet.elems []
      rw [append_nil] at hall
      rw [hall, HashedSet.ofList_elems]
    have hret := hlook.ret fun keys =>
      (HashedSet.ofList (keysOf d.basedOnSet.elems.length keys),
        u.length + 1 + d.basedOnSet.elems.length * 20)
    rw [hkeysOf] at hret
    simp only [append_assoc] at hret hfield ⊢
    have hneed (n : Nat) (hn : n ≤ u.length + 1 + d.basedOnSet.elems.length * 20) :
        Looks (need n : Reader JavaException σ Unit)
          (u ++ (writeByte (BitVec.ofNat 32 d.basedOnSet.size - 1) ++
            (d.basedOnSet.elems.flatMap Number160.encode ++ w))) n () := by
      refine Looks.need ?_
      simp only [length_append, hlen, hkeys]
      omega
    have hrest := (hneed (u.length + 1 + d.basedOnSet.elems.length * 20) (Nat.le_refl _)).seq hret
    have hindex : u.length + (writeByte (BitVec.ofNat 32 d.basedOnSet.size - 1) ++
        d.basedOnSet.elems.flatMap Number160.encode).length =
          u.length + 1 + d.basedOnSet.elems.length * 20 := by
      rw [length_append, hlen, hkeys, Nat.add_assoc]
    rw [hindex]
    rw [← hnum] at hrest ⊢
    refine ⟨_, ?_, (hneed (u.length + 1) (by omega)).seq (hfield.bind hrest)⟩
    intro _
    omega
  · simp only [if_neg hflag]
    exact ⟨0, fun ht => absurd ht hflag, Looks.pure _ (HashedSet.empty, u.length)⟩

/-- A key that is announced is written with its length and read back. -/
theorem keyField_ok (h : d.HeaderFits f) {key : Bytes} (hkey : d.keyField f = .ok key) :
    (d.publicKeyFlag = false ∧ key = [] ∧ d.wireKey = none) ∨
      (d.publicKeyFlag = true ∧ ∃ data, data.length < 2 ^ 16 ∧ key = toBE 2 data.length ++ data ∧
        Parses (f.decodePublicKey (σ := σ)) key d.wireKey) := by
  rw [keyField] at hkey
  rw [wireKey]
  by_cases hflag : d.publicKeyFlag = true
  · rw [if_pos hflag] at hkey ⊢
    refine .inr ⟨hflag, ?_⟩
    cases hk : d.publicKey with
    | none =>
        rw [hk] at hkey
        cases hkey
        exact ⟨[], by decide, rfl, f.parses_decodePublicKey_empty⟩
    | some k =>
        rw [hk] at hkey
        obtain ⟨data, hdata, rfl⟩ := SignatureFactory.encodePublicKey_ok hkey
        cases hdata
        have hisKey := h.key data hk
        exact ⟨data, hisKey.length_lt, rfl, f.parses_decodePublicKey data hisKey⟩
  · rw [if_neg hflag] at hkey ⊢
    cases hkey
    exact .inl ⟨Bool.eq_false_iff.mpr hflag, rfl, rfl⟩

theorem looks_publicKey (h : d.HeaderFits f) {key : Bytes} (hkey : d.keyField f = .ok key) (u : Bytes) :
    ∃ j, (d.publicKeyFlag = true → u.length + key.length ≤ j) ∧
      Looks (lookPublicKey (σ := σ) d.header u.length) (u ++ key) j () := by
  rw [lookPublicKey, (header_flags h).2.2.2.2.2.2.1]
  rcases keyField_ok (σ := σ) h hkey with ⟨hflag, rfl, _⟩ | ⟨hflag, data, hlen, rfl, _⟩
  · rw [hflag]
    exact ⟨0, (fun ht => by cases ht), Looks.pure _ ()⟩
  · rw [hflag]
    have hval : (BitVec.ofNat 32 data.length).toNat = data.length := by
      rw [BitVec.toNat_ofNat]
      omega
    have hfield := Looks.lookField (ε := JavaException) (σ := σ) (n := 2) u data
      (BitVec.ofNat 32 data.length) (by rw [hval]; exact hlen)
    have hneed (n : Nat) (hn : n ≤ u.length + 2 + data.length) :
        Looks (need n : Reader JavaException σ Unit) (u ++ (toBE 2 data.length ++ data)) n () := by
      refine Looks.need ?_
      simp only [length_append, length_toBE]
      omega
    rw [hval] at hfield
    refine ⟨_, ?_, (hneed (u.length + 2) (by omega)).seq (hfield.bind
      (hneed (u.length + 2 + (BitVec.ofNat 32 data.length).toNat) (by omega)))⟩
    intro _
    rw [length_append, length_toBE]
    omega

/-- The index of the public key in a header. -/
def keyIndex (d : Data) : Nat :=
  1 + d.lengthField.length + d.ttlField.length + d.basedOnField.length

/-- All of a header is looked at before any of it is consumed. -/
theorem looks_header (h : d.HeaderFits f) {key : Bytes} (hkey : d.keyField f = .ok key) :
    ∃ j, 1 + d.lengthField.length + d.ttlField.length + d.basedOnField.length + key.length ≤ j ∧
      Looks (lookHeader (σ := σ))
        (writeByte d.header ++ (d.lengthField ++ (d.ttlField ++ (d.basedOnField ++ key)))) j
        ⟨d.header, d.announcedLength, d.announcedTTL, d.announcedBasedOn, d.keyIndex⟩ := by
  have hh : (writeByte d.header).length = 1 := length_toBE 1 _
  have hheader := Looks.lookField (ε := JavaException) (σ := σ) (n := 1) []
    (d.lengthField ++ (d.ttlField ++ (d.basedOnField ++ key))) d.header
    (header_bits d).2.2.2.2.2.2.2.2.2
  have hlength := looks_length (σ := σ) h (writeByte d.header)
    (d.ttlField ++ (d.basedOnField ++ key)) hh
  obtain ⟨jttl, hjttl, httl⟩ := looks_ttl (σ := σ) h (writeByte d.header ++ d.lengthField)
    (d.basedOnField ++ key)
  obtain ⟨jbased, hjbased, hbased⟩ := looks_basedOn (σ := σ) h
    (writeByte d.header ++ d.lengthField ++ d.ttlField) key
  obtain ⟨jkey, hjkey, hpublic⟩ := looks_publicKey (σ := σ) h hkey
    (writeByte d.header ++ d.lengthField ++ d.ttlField ++ d.basedOnField)
  simp only [append_assoc, length_append, hh, ← Nat.add_assoc] at httl hbased hpublic
  simp only [length_append, hh] at hjttl hjbased hjkey
  have hneed : Looks (need 2 : Reader JavaException σ Unit)
      (writeByte d.header ++ (d.lengthField ++ (d.ttlField ++ (d.basedOnField ++ key)))) 2 () := by
    refine Looks.need ?_
    have hl : 1 ≤ d.lengthField.length := by
      rw [lengthField]
      cases d.type <;> simp only [writeByte, writeInt, length_toBE] <;> omega
    simp only [length_append, hh]
    omega
  refine ⟨_, ?_, hneed.seq (hheader.bind (hlength.bind (httl.bind (hbased.bind
    (hpublic.seq (Looks.pure _ _))))))⟩
  -- The last field that is present is waited for, and the absent ones are empty.
  have httl0 : d.ttl = false → d.ttlField.length = 0 := by
    intro hfalse
    rw [ttlField, hfalse]
    rfl
  have hbased0 : d.basedOnFlag = false → d.basedOnField.length = 0 := by
    intro hfalse
    rw [basedOnField, hfalse]
    rfl
  have hkey0 : d.publicKeyFlag = false → key.length = 0 := by
    intro hfalse
    rw [keyField, hfalse] at hkey
    cases hkey
    rfl
  cases ht : d.ttl <;> cases hb : d.basedOnFlag <;> cases hp : d.publicKeyFlag <;>
    simp only [ht, hb, hp, forall_const, Bool.false_eq_true, false_implies] at * <;> omega

theorem encodeHeader_ok {v : Bytes} (hv : d.encodeHeader f = .ok v) :
    ∃ key, d.keyField f = .ok key ∧
      v = writeByte d.header ++ (d.lengthField ++ (d.ttlField ++ (d.basedOnField ++ key))) := by
  obtain ⟨key, hkey, h⟩ := Effect.except_bind_ok hv
  exact ⟨key, hkey, (Except.ok.inj h).symm⟩

/-- A header is waited for as a whole. -/
theorem idle_decodeHeader (h : d.HeaderFits f) {v : Bytes} (hv : d.encodeHeader f = .ok v)
    (now : BitVec 64) (s : σ) : Idle (decodeHeader f now) s v := by
  obtain ⟨key, hkey, rfl⟩ := encodeHeader_ok hv
  obtain ⟨j, hj, hlook⟩ := looks_header (σ := σ) h hkey
  refine hlook.idle _ s ?_
  have hh : (writeByte d.header).length = 1 := length_toBE 1 _
  simp only [length_append, hh]
  omega

/-- A header is read back. -/
theorem parses_decodeHeader (h : d.HeaderFits f) {v : Bytes} (hv : d.encodeHeader f = .ok v)
    (now : BitVec 64) : Parses (decodeHeader (σ := σ) f now) v (d.received now) := by
  obtain ⟨key, hkey, rfl⟩ := encodeHeader_ok hv
  obtain ⟨j, _, hlook⟩ := looks_header (σ := σ) h hkey
  intro s rest
  have hfront : writeByte d.header ++ (d.lengthField ++ (d.ttlField ++ (d.basedOnField ++ key))) ++ rest =
      (writeByte d.header ++ (d.lengthField ++ (d.ttlField ++ d.basedOnField))) ++ (key ++ rest) := by
    simp only [append_assoc]
  have hindex : (writeByte d.header ++ (d.lengthField ++ (d.ttlField ++ d.basedOnField))).length =
      d.keyIndex := by
    have hh : (writeByte d.header).length = 1 := length_toBE 1 _
    simp only [length_append, hh, keyIndex]
    omega
  have hread := run_read_append (σ := σ) JavaException.indexOutOfBounds
    (writeByte d.header ++ (d.lengthField ++ (d.ttlField ++ d.basedOnField))) (key ++ rest) s
  rw [hindex] at hread
  have hpublic : (readPublicKey f d.header).run s (key ++ rest) = .done d.wireKey s rest := by
    rw [readPublicKey, (header_flags h).2.2.2.2.2.2.1]
    rcases keyField_ok (σ := σ) h hkey with ⟨hflag, rfl, hwire⟩ | ⟨hflag, _, _, _, hparses⟩
    · rw [hflag, hwire]
      rfl
    · rw [hflag]
      exact hparses s rest
  rw [decodeHeader, run_bind, hlook.full, andThen_done, run_bind, hfront, hread,
    andThen_done, run_bind, hpublic, andThen_done, run_bind, ofHeader_header h]
  rfl

/-! ### Reading back the payload and the signature -/

@[simp] theorem append_buffer (d : Data) (b : Bytes) : (d.append b).buffer = d.buffer ++ b := rfl

@[simp] theorem append_length (d : Data) (b : Bytes) : (d.append b).length = d.length := rfl

@[simp] theorem append_signed (d : Data) (b : Bytes) : (d.append b).signed = d.signed := rfl

theorem append_append (d : Data) (b c : Bytes) : (d.append b).append c = d.append (b ++ c) := by
  rw [append, append, append, append_assoc]

theorem append_nil (d : Data) : d.append [] = d := by
  rw [append, List.append_nil]

theorem run_decodeBuffer (b : Bytes) (h : (d.buffer.length : Int) ≤ d.length.toInt) :
    decodeBuffer.run d b =
      if (b.length : Int) < d.length.toInt - d.buffer.length then
        .wait (d.append b) []
      else
        .done () (d.append (b.take (d.length.toInt.toNat - d.buffer.length)))
          (b.drop (d.length.toInt.toNat - d.buffer.length)) := by
  have hrem : ¬ d.length.toInt - d.buffer.length < 0 := by omega
  rw [decodeBuffer, run_bind, run_state, andThen_done, run_bind, run_buffer,
    andThen_done]
  by_cases hlt : (b.length : Int) < d.length.toInt - d.buffer.length
  · have hmin : min (d.length.toInt - d.buffer.length).toNat b.length = b.length := by omega
    have hread := run_read_append (σ := Data) JavaException.indexOutOfBounds b [] d
    rw [List.append_nil] at hread
    simp only [if_neg hrem, hmin]
    rw [if_pos hlt, run_bind, hread, andThen_done, run_bind, run_modify,
      andThen_done, if_neg (by omega), run_wait]
  · have hmin : min (d.length.toInt - d.buffer.length).toNat b.length =
        d.length.toInt.toNat - d.buffer.length := by omega
    have hlen : ¬ b.length < d.length.toInt.toNat - d.buffer.length := by omega
    have htake : (b.take (d.length.toInt.toNat - d.buffer.length)).length =
        d.length.toInt.toNat - d.buffer.length := length_take_of_le (by omega)
    simp only [if_neg hrem, hmin]
    rw [if_neg hlt, run_bind, run_read, if_neg hlen, andThen_done, run_bind, run_modify,
      andThen_done, if_pos (by rw [htake]; omega), run_pure]

/-- Payload that was delivered on its own is as good as payload still in the
    buffer. -/
theorem run_decodeBuffer_append (b r : Bytes)
    (h : (d.buffer.length + b.length : Int) ≤ d.length.toInt) :
    decodeBuffer.run d (b ++ r) = decodeBuffer.run (d.append b) r := by
  have hle : (d.buffer.length : Int) ≤ d.length.toInt := by omega
  have hle' : ((d.append b).buffer.length : Int) ≤ (d.append b).length.toInt := by
    rw [append_buffer, append_length, length_append]
    omega
  rw [run_decodeBuffer (b ++ r) hle, run_decodeBuffer r hle']
  simp only [append_buffer, append_length, length_append, append_append]
  have hsub : d.length.toInt.toNat - d.buffer.length =
      b.length + (d.length.toInt.toNat - (d.buffer.length + b.length)) := by omega
  by_cases hlt : (r.length : Int) < d.length.toInt - (d.buffer.length + b.length)
  · rw [if_pos (by omega), if_pos (by omega)]
  · rw [if_neg (by omega), if_neg (by omega), hsub, take_length_add_append,
      drop_length_add_append]

/-- A complete payload needs nothing more. -/
theorem run_decodeBuffer_complete (b : Bytes) (h : d.length.toInt = d.buffer.length) :
    decodeBuffer.run d b = .done () d b := by
  have hzero : d.length.toInt.toNat - d.buffer.length = 0 := by omega
  rw [run_decodeBuffer b (by omega), if_neg (by omega), hzero, take_zero, append_nil,
    drop_zero]

theorem adoptKey_adoptKey (k : Option PublicKey) (d : Data) :
    adoptKey k (adoptKey k d) = adoptKey k d := by
  unfold adoptKey
  by_cases hk : (!keyMissing k && keyMissing d.publicKey) = true
  · have hhas : keyMissing k = false := by
      rw [Bool.and_eq_true, Bool.not_eq_true'] at hk
      exact hk.1
    have hnot : ¬ (!keyMissing k && keyMissing k) = true := by
      rw [hhas]
      decide
    rw [if_pos hk, if_neg hnot]
  · rw [if_neg hk, if_neg hk]

@[simp] theorem adoptKey_signed (k : Option PublicKey) (d : Data) :
    (adoptKey k d).signed = d.signed := by
  unfold adoptKey
  split <;> rfl

@[simp] theorem adoptKey_length (k : Option PublicKey) (d : Data) :
    (adoptKey k d).length = d.length := by
  unfold adoptKey
  split <;> rfl

@[simp] theorem adoptKey_buffer (k : Option PublicKey) (d : Data) :
    (adoptKey k d).buffer = d.buffer := by
  unfold adoptKey
  split <;> rfl

theorem run_decodeDone_unsigned (k : Option PublicKey) (b : Bytes) (h : d.signed = false) :
    (decodeDone f k).run d b = .done () d b := by
  rw [decodeDone, run_bind, run_state, andThen_done, h]
  rfl

theorem run_decodeDone_signed (k : Option PublicKey) (b : Bytes) (h : d.signed = true) :
    (decodeDone f k).run d b =
      if b.length < f.signatureSize then .wait (adoptKey k d) b
      else .done () { adoptKey k d with signature := some ⟨b.take f.signatureSize⟩ }
        (b.drop f.signatureSize) := by
  rw [decodeDone, run_bind, run_state, andThen_done, if_pos h, readSignature, run_bind,
    run_modify, andThen_done, run_bind, run_need]
  by_cases hlen : b.length < f.signatureSize
  · rw [if_pos hlen, if_pos hlen, andThen_wait]
  · rw [if_neg hlen, if_neg hlen, andThen_done, run_bind, run_read, if_neg hlen,
      andThen_done, run_modify]

/-- The value with all of its payload after the bytes `w` of its signature. -/
def close (d : Data) (k : Option PublicKey) (w : Bytes) : Data :=
  if d.signed then { adoptKey k d with signature := some ⟨w⟩ } else d

/-- The value after its rest, payload `p` and signature `w`, has arrived. -/
def completed (d : Data) (k : Option PublicKey) (p w : Bytes) : Data := (d.append p).close k w

/-- Behind the payload stands the signature, which is waited for as a whole. -/
theorem reads_signature (k : Option PublicKey) (w : Bytes) (hd : d.length.toInt = d.buffer.length)
    (hw : w.length = if d.signed then f.signatureSize else 0) :
    Reads (fun _ => True) (decodeRest f k) d w () (d.close k w) := by
  have hrest (e : Data) (he : e.length.toInt = e.buffer.length) (x : Bytes) :
      (decodeRest f k).run e x = (decodeDone f k).run e x := by
    rw [decodeRest, run_bind, run_decodeBuffer_complete x he, andThen_done]
  rw [close]
  cases hs : d.signed with
  | false =>
      rw [hs] at hw
      have hnil : w = [] := length_eq_zero_iff.mp hw
      subst hnil
      refine Reads.nil ?_
      intro r
      rw [hrest d hd, run_decodeDone_unsigned k r hs]
      rfl
  | true =>
      have hsize : w.length = f.signatureSize := by
        rw [hs] at hw
        exact hw
      refine ⟨?_, ?_⟩
      · intro r
        have hlong : ¬ (w ++ r).length < f.signatureSize := by
          rw [length_append]
          omega
        rw [hrest d hd, run_decodeDone_signed k _ hs, if_neg hlong, take_left' hsize,
          drop_left' hsize]
        rfl
      · intro b c hc hcut
        have hpos : 0 < c.length := length_pos_of_ne_nil hc
        have hlen : w.length = b.length + c.length := by rw [hcut, length_append]
        have hd' : (adoptKey k d).length.toInt = (adoptKey k d).buffer.length := by
          rw [adoptKey_length, adoptKey_buffer, hd]
        have hs' : (adoptKey k d).signed = true := by rw [adoptKey_signed, hs]
        refine ⟨adoptKey k d, b, ?_, ?_⟩
        · rw [hrest d hd, run_decodeDone_signed k b hs, if_pos (by omega)]
        · -- The key has been adopted, and adopting it again changes nothing.
          intro _ x
          rw [hrest d hd, hrest _ hd', run_decodeDone_signed k (b ++ x) hs,
            run_decodeDone_signed k (b ++ x) hs', adoptKey_adoptKey]

/-- The payload and the signature are read wherever they are cut. -/
theorem reads_decodeRest (k : Option PublicKey) (p w : Bytes)
    (hp : (d.buffer.length + p.length : Int) = d.length.toInt)
    (hw : w.length = if d.signed then f.signatureSize else 0) :
    Reads (fun _ => True) (decodeRest f k) d (p ++ w) () (d.completed k p w) := by
  have hstep (b r : Bytes) (hb : (d.buffer.length + b.length : Int) ≤ d.length.toInt) :
      (decodeRest f k).run d (b ++ r) = (decodeRest f k).run (d.append b) r := by
    rw [decodeRest, run_bind, run_bind, run_decodeBuffer_append b r hb]
  have hcomplete : (d.append p).length.toInt = (d.append p).buffer.length := by
    rw [append_length, append_buffer, length_append]
    omega
  refine Reads.step (fun r => hstep p r (by omega)) ?_ (reads_signature k w hcomplete hw)
  -- Inside the payload every byte is recorded.
  intro b c hc hcut
  have hpos : 0 < c.length := length_pos_of_ne_nil hc
  have hlen : p.length = b.length + c.length := by rw [hcut, length_append]
  refine ⟨d.append b, [], ?_, ?_⟩
  · rw [decodeRest, run_bind, run_decodeBuffer b (by omega), if_pos (by omega),
      andThen_wait]
  · intro _ x
    rw [nil_append, hstep b x (by omega)]

end Data

end TomP2P
