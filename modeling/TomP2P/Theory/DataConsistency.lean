import TomP2P.Core.DataSetters
import TomP2P.Theory.DataReads

/-!
# Consistent Values

Which values survive being written and read.

A value is written by what its flags announce, and the flags are set by setters
that do not look at one another. `Data.Consistent` lists what has to hold for
the bytes to be read back: a signed value announces its key, a protected one is
signed, the number of predecessors fits its byte, and the length that is written
is the length of the payload. For every value a program can come to hold this is
exactly when the written bytes are consumed and give back the same flags, key
and predecessors (`Data.readBack_iff_consistent`). The converse is read off the first byte:
whatever the bytes behind it are, the flags that come back are those it
announces (`Data.decodeHeader_done`).

## Main definitions

* `Data.Consistent`: The flags and lengths agree.
* `Data.ReadBack`: The bytes of a value are consumed and give back its state.
* `Data.Setter.Fits`, `Data.Constructor.Fits`: The calls that keep a value
  consistent.

## Theorems

* `Data.Reachable.kept`: What holds of every value a program can hold.
* `Data.decodeHeader_done`: What a header that was read says about its value.
* `Data.receive_pieces`: A consistent value is received in any pieces.
* `Data.readBack_iff_consistent`: Consistency is what it takes.
* `Data.built_consistent`: Calls that fit make consistent values.
-/

namespace TomP2P

open Wire Reader Effect Outcome SignatureFactory List

namespace Data

variable {σ : Type} {f : SignatureFactory} {d : Data}

/-! ### What a header says -/

theorem gives_lookTTL (header : BitVec 32) (i : Nat) :
    Gives (lookTTL (σ := σ) header i) fun x => hasTTL header = false → x.1 = -1 := by
  unfold lookTTL
  by_cases h : hasTTL header = true
  · rw [if_pos h]
    exact Gives.skip fun _ => Gives.skip fun _ => Gives.pure fun hfalse => by simp [h] at hfalse
  · rw [if_neg h]
    exact Gives.pure fun _ => rfl

theorem length_keysOf (n : Nat) (b : Bytes) : (keysOf n b).length = n := by
  induction n generalizing b with
  | zero => rfl
  | succ n ih => rw [keysOf, length_cons, ih]

/-- A header that announces predecessors comes with at least one and at most as
    many as fit the byte of their number. -/
theorem gives_lookBasedOn (header : BitVec 32) (i : Nat) :
    Gives (lookBasedOn (σ := σ) header i) fun x =>
      (hasBasedOn header = false → x.1 = .empty) ∧
        (hasBasedOn header = true → 0 < x.1.size ∧ x.1.size ≤ 256) := by
  unfold lookBasedOn
  by_cases h : hasBasedOn header = true
  · rw [if_pos h]
    refine Gives.skip fun _ => Gives.bind (P := fun nr => nr.toNat < 256) ?_ fun nr hnr =>
      Gives.skip fun _ => Gives.skip fun keys => Gives.pure ⟨fun hfalse => by simp [h] at hfalse, ?_⟩
    · -- The number is read from one byte.
      intro s b nr s' r hrun
      obtain ⟨v, s₁, r₁, hlook, hret⟩ := run_bind_done hrun
      cases hret
      rw [run_look] at hlook
      split at hlook
      · cases hlook
      · cases hlook
        have hlt := ofBE_lt ((b.drop i).take 1)
        have hone : ((b.drop i).take 1).length ≤ 1 := length_take_le _ _
        have hpow : 256 ^ ((b.drop i).take 1).length ≤ 256 ^ 1 := Nat.pow_le_pow_right (by omega) hone
        rw [BitVec.toNat_ofNat]
        omega
    · intro _
      have hlen := length_keysOf (nr.toNat + 1) keys
      have hne : keysOf (nr.toNat + 1) keys ≠ [] := by
        intro hnil
        rw [hnil] at hlen
        simp at hlen
      have hsize := HashedSet.size_ofList _ hne
      rw [hlen] at hsize
      exact ⟨hsize.1, Nat.le_trans hsize.2 hnr⟩
  · rw [if_neg h]
    exact Gives.pure ⟨fun _ => rfl, fun htrue => absurd htrue h⟩

/-- The part of a header in front of the key belongs to its first byte. -/
theorem lookHeader_done {s s' : σ} {b r : Bytes} {front : Front}
    (h : lookHeader.run s b = .done front s' r) :
    front.header = BitVec.ofNat 32 (ofBE (b.take 1)) ∧
      (hasTTL front.header = false → front.ttl = -1) ∧
      (hasBasedOn front.header = false → front.basedOn = .empty) ∧
      (hasBasedOn front.header = true → 0 < front.basedOn.size ∧ front.basedOn.size ≤ 256) := by
  unfold lookHeader at h
  obtain ⟨_, s₁, r₁, hneed, h⟩ := run_bind_done h
  obtain ⟨header, s₂, r₂, hheader, h⟩ := run_bind_done h
  obtain ⟨⟨length, indexTTL⟩, s₃, r₃, _, h⟩ := run_bind_done h
  obtain ⟨⟨ttl, indexBasedOnNr⟩, s₄, r₄, httl, h⟩ := run_bind_done h
  obtain ⟨⟨basedOn, indexPublicKeySize⟩, s₅, r₅, hbased, h⟩ := run_bind_done h
  obtain ⟨_, s₆, r₆, _, h⟩ := run_bind_done h
  cases h
  have hbuf : r₁ = b := by
    rw [run_need] at hneed
    split at hneed
    · cases hneed
    · cases hneed
      rfl
  have hfirst : header = BitVec.ofNat 32 (ofBE (b.take 1)) := by
    obtain ⟨v, s', r', hlook, hret⟩ := run_bind_done hheader
    cases hret
    rw [run_look, hbuf, drop_zero] at hlook
    split at hlook
    · cases hlook
    · cases hlook
      rfl
  exact ⟨hfirst, gives_lookTTL header indexTTL _ _ _ _ _ httl,
    gives_lookBasedOn header indexBasedOnNr _ _ _ _ _ hbased⟩

/-- The flags of a received value are those its first byte announces. -/
structure Announces (header : BitVec 32) (e : Data) : Prop where
  type : e.type = typeOfLength e.length
  ttl : e.ttl = hasTTL header
  signed : e.signed = isSignedBits header
  publicKeyFlag : e.publicKeyFlag = hasPublicKeyBits header
  protectedEntry : e.protectedEntry = isProtectedEntryBits header
  basedOnFlag : e.basedOnFlag = hasBasedOn header

/-- The constructor has compared the type with the length. -/
theorem typeOf_eq_typeOfLength {header length : BitVec 32}
    (hsmall : ¬ (typeOf header = .SMALL ∧ 255 < length.toInt))
    (hlarge : ¬ (typeOf header = .LARGE ∧ length.toInt ≤ 255)) :
    typeOf header = typeOfLength length := by
  rw [typeOfLength, MAX_BYTE_SIZE]
  cases ht : typeOf header with
  | SMALL =>
      simp only [ht, true_and] at hsmall
      rw [if_pos (by omega)]
  | LARGE =>
      simp only [ht, true_and] at hlarge
      rw [if_neg (by omega)]

theorem ofHeader_announces {header length : BitVec 32} {now : BitVec 64} {e : Data}
    (h : ofHeader header length now = .ok e) : Announces header e := by
  unfold ofHeader at h
  split at h
  · cases h
  rename_i hsmall
  split at h
  · cases h
  rename_i hlarge
  split at h
  · cases h
  cases h
  exact ⟨typeOf_eq_typeOfLength hsmall hlarge, rfl, rfl, rfl, rfl, rfl⟩

/-- A value whose header was read is a new one with the flags of its first byte. -/
theorem decodeHeader_parts {now : BitVec 64} {s s' : σ} {b r : Bytes} {e : Data}
    (h : (decodeHeader f now).run s b = .done e s' r) :
    ∃ front s₁ r₁ data publicKey, lookHeader.run s b = .done front s₁ r₁ ∧
      ofHeader front.header front.length now = .ok data ∧
      e = { data with ttlSeconds := front.ttl, basedOnSet := front.basedOn, publicKey := publicKey } := by
  unfold decodeHeader at h
  obtain ⟨front, s₁, r₁, hlook, h⟩ := run_bind_done h
  obtain ⟨_, s₂, r₂, _, h⟩ := run_bind_done h
  obtain ⟨publicKey, s₃, r₃, _, h⟩ := run_bind_done h
  obtain ⟨data, s₄, r₄, hlift, h⟩ := run_bind_done h
  cases h
  refine ⟨front, s₁, r₁, data, publicKey, hlook, ?_, rfl⟩
  cases hof : ofHeader front.header front.length now with
  | error e =>
      rw [hof] at hlift
      cases hlift
  | ok d =>
      rw [hof] at hlift
      cases hlift
      rfl

/-- What a header that was read says about its value. -/
theorem decodeHeader_done {now : BitVec 64} {s s' : σ} {b r : Bytes} {e : Data}
    (h : (decodeHeader f now).run s b = .done e s' r) :
    Announces (BitVec.ofNat 32 (ofBE (b.take 1))) e ∧ (e.ttl = false → e.ttlSeconds = -1) ∧
      (e.basedOnFlag = false → e.basedOnSet = .empty) ∧
      (e.basedOnFlag = true → 0 < e.basedOnSet.size ∧ e.basedOnSet.size ≤ 256) := by
  obtain ⟨front, s₁, r₁, data, publicKey, hlook, hnew, rfl⟩ := decodeHeader_parts h
  obtain ⟨hfirst, httl, hnone, hsome⟩ := lookHeader_done hlook
  have ha := ofHeader_announces hnew
  rw [← hfirst]
  refine ⟨⟨ha.type, ha.ttl, ha.signed, ha.publicKeyFlag, ha.protectedEntry, ha.basedOnFlag⟩, ?_, ?_, ?_⟩
  · intro hfalse
    exact httl (ha.ttl ▸ hfalse)
  · intro hfalse
    exact hnone (ha.basedOnFlag ▸ hfalse)
  · intro htrue
    exact hsome (ha.basedOnFlag ▸ htrue)

/-! ### What the rest leaves of a header -/

/-- A value without what arrives behind its header. -/
def front (d : Data) : Data := { d with buffer := [], publicKey := none, signature := none }

theorem keeps_decodeBuffer (d : Data) : Keeps (fun e => front e = front d) decodeBuffer := by
  unfold decodeBuffer
  refine Keeps.bind Keeps.state fun e => Keeps.bind Keeps.buffer fun b => ?_
  dsimp only
  split
  · exact Keeps.bind (Keeps.throw _) fun _ => Keeps.bind (Keeps.read _ _) fun bytes =>
      Keeps.bind (Keeps.modify fun _ hs => hs) fun _ => by split; exacts [Keeps.pure _, Keeps.wait]
  · exact Keeps.bind (Keeps.read _ _) fun bytes =>
      Keeps.bind (Keeps.modify fun _ hs => hs) fun _ => by split; exacts [Keeps.pure _, Keeps.wait]

theorem keeps_decodeDone (k : Option PublicKey) (d : Data) : Keeps (fun e => front e = front d) (decodeDone f k) := by
  have hadopt (e : Data) : front (adoptKey k e) = front e := by
    unfold adoptKey
    split <;> rfl
  unfold decodeDone readSignature
  refine Keeps.bind Keeps.state fun e => ?_
  split
  · exact Keeps.bind (Keeps.modify fun s hs => (hadopt s).trans hs) fun _ =>
      Keeps.bind (Keeps.need _) fun _ => Keeps.bind (Keeps.read _ _) fun _ =>
        Keeps.modify fun _ hs => hs
  · exact Keeps.pure _

theorem keeps_decodeRest (k : Option PublicKey) (d : Data) :
    Keeps (fun e => front e = front d) (decodeRest f k) :=
  Keeps.bind (keeps_decodeBuffer d) fun _ => keeps_decodeDone k d

/-! ### What holds of every value -/

/-- The type is that of the length, and what is not announced is not there. -/
structure Kept (d : Data) : Prop where
  type_eq : d.type = typeOfLength d.length
  ttl_unset : d.ttl = false → d.ttlSeconds = -1
  basedOn_unset : d.basedOnFlag = false → d.basedOnSet = .empty

/-- Only these fields matter. -/
theorem Kept.congr {e : Data} (h : d.Kept) (htype : e.type = d.type) (hlength : e.length = d.length)
    (httl : e.ttl = d.ttl) (hseconds : e.ttlSeconds = d.ttlSeconds)
    (hflag : e.basedOnFlag = d.basedOnFlag) (hset : e.basedOnSet = d.basedOnSet) : e.Kept := by
  refine ⟨?_, ?_, ?_⟩
  · rw [htype, hlength, h.type_eq]
  · rw [httl, hseconds]
    exact h.ttl_unset
  · rw [hflag, hset]
    exact h.basedOn_unset

/-- The fields of a header, as far as they are compared below. -/
theorem front_fields {e : Data} (h : front e = front d) :
    e.type = d.type ∧ e.length = d.length ∧ e.ttl = d.ttl ∧ e.ttlSeconds = d.ttlSeconds ∧
      e.basedOnFlag = d.basedOnFlag ∧ e.basedOnSet = d.basedOnSet ∧ e.signed = d.signed ∧
      e.protectedEntry = d.protectedEntry ∧ e.publicKeyFlag = d.publicKeyFlag := by
  simp only [front, Data.mk.injEq] at h
  simp only [h, and_self]

theorem Kept.of_front {e : Data} (h : d.Kept) (he : front e = front d) : e.Kept := by
  obtain ⟨htype, hlength, httl, hseconds, hflag, hset, _⟩ := front_fields he
  exact h.congr htype hlength httl hseconds hflag hset

theorem Constructor.new_kept {c : Constructor} {now : BitVec 64} (h : c.new now = .ok d) : d.Kept := by
  cases c with
  | buffer b len =>
      cases h
      exact ⟨rfl, fun _ => rfl, fun _ => rfl⟩
  | header header len =>
      have ha := ofHeader_announces h
      change ofHeader header len now = .ok d at h
      unfold ofHeader at h
      split at h
      · cases h
      split at h
      · cases h
      split at h
      · cases h
      cases h
      exact ⟨ha.type, fun _ => rfl, fun _ => rfl⟩
  | array b offset len =>
      obtain ⟨wrapped, _, hnew⟩ := except_bind_ok h
      cases hnew
      exact ⟨rfl, fun _ => rfl, fun _ => rfl⟩

theorem setSignedNow_kept (h : d.Kept) (k : Option PrivateKey) (pk : Option PublicKey) (prot : Bool) :
    (d.setSignedNow f k pk prot).1.Kept := by
  unfold setSignedNow
  split
  · cases k with
    | none | some k => exact ⟨h.type_eq, h.ttl_unset, h.basedOn_unset⟩
  · exact h

/-- The setters of the user flags change nothing else, whether they throw or
    not. -/
theorem setFlag1_eq (d : Data) (value : Bool) :
    ∃ a b, (d.setFlag1 value).1 = { d with flag1 := a, flag2 := b } := by
  unfold setFlag1
  split
  · exact ⟨d.flag1, d.flag2, rfl⟩
  · exact ⟨value, d.flag2, rfl⟩

theorem setFlag2_eq (d : Data) (value : Bool) :
    ∃ a b, (d.setFlag2 value).1 = { d with flag1 := a, flag2 := b } := by
  unfold setFlag2
  split
  · exact ⟨d.flag1, d.flag2, rfl⟩
  · exact ⟨d.flag1, value, rfl⟩

theorem setDeleted_eq (d : Data) (value : Bool) :
    ∃ a b, (d.setDeleted value).1 = { d with flag1 := a, flag2 := b } := by
  unfold setDeleted
  split
  · exact ⟨d.flag1, d.flag2, rfl⟩
  · exact ⟨value, value, rfl⟩

theorem Kept.flags (h : d.Kept) {e : Data} (he : ∃ a b, e = { d with flag1 := a, flag2 := b }) :
    e.Kept := by
  obtain ⟨a, b, rfl⟩ := he
  exact ⟨h.type_eq, h.ttl_unset, h.basedOn_unset⟩

theorem Setter.apply_kept (h : d.Kept) (s : Setter) : (s.apply f d).1.Kept := by
  cases s with
  | signNow pair prot | signNowWith k prot => exact setSignedNow_kept h _ _ _
  | addBasedOn key => exact ⟨h.type_eq, h.ttl_unset, fun hfalse => by cases hfalse⟩
  | ttlSeconds value => exact ⟨h.type_eq, (fun hfalse => by cases hfalse), h.basedOn_unset⟩
  | duplicate => exact ⟨rfl, h.ttl_unset, h.basedOn_unset⟩
  | duplicateMeta =>
      have hsmall : Data.Type.SMALL = typeOfLength 0#32 := by decide
      exact ⟨hsmall, h.ttl_unset, h.basedOn_unset⟩
  | flag1 value => exact h.flags (setFlag1_eq d value)
  | flag2 value => exact h.flags (setFlag2_eq d value)
  | deleted value => exact h.flags (setDeleted_eq d value)
  | _ => exact h.congr rfl rfl rfl rfl rfl rfl

theorem Reachable.kept (h : Reachable f d) : d.Kept := by
  induction h with
  | made c now d hnew => exact Constructor.new_kept hnew
  | received now b r d hrun =>
      obtain ⟨ha, httl, hbased, _⟩ := decodeHeader_done hrun
      exact ⟨ha.type, httl, hbased⟩
  | fed d k b r e hrun _ ih =>
      have hfront := keeps_decodeRest (f := f) k d d b rfl
      rcases hrun with hrun | hrun
      · rw [hrun] at hfront
        exact ih.of_front hfront
      · rw [hrun] at hfront
        exact ih.of_front hfront
  | set d s _ ih => exact Setter.apply_kept ih s

/-! ### Receiving a value -/

/-- The flags and lengths of a value agree. -/
structure Consistent (d : Data) : Prop where
  signed_key : d.signed = true → d.publicKeyFlag = true
  protected_signed : d.protectedEntry = true → d.signed = true
  basedOn_pos : d.basedOnFlag = true → 0 < d.basedOnSet.size
  basedOn_le : d.basedOnFlag = true → d.basedOnSet.size ≤ 256
  length_eq : d.announcedLength.toInt = d.buffer.length

/-- The keys and signatures a value carries are those of the factory. -/
structure Signable (f : SignatureFactory) (d : Data) : Prop where
  lawful : f.Lawful
  key : ∀ data, d.publicKey = some (.encoded data) → f.IsKey data
  signature_size : ∀ s, d.signature = some s → s.wire.length = f.signatureSize

theorem Kept.large (h : d.Kept) (ht : d.type = .LARGE) : 255 < d.length.toInt := by
  have htype := h.type_eq
  rw [ht, typeOfLength, MAX_BYTE_SIZE] at htype
  by_cases hlt : d.length.toInt < 256
  · rw [if_pos hlt] at htype
    cases htype
  · omega

/-- A length that is not negative is announced as it is. -/
theorem Kept.announcedLength_eq (h : d.Kept) (hpos : 0 ≤ d.length.toInt) :
    d.announcedLength = d.length := by
  rw [announcedLength]
  cases ht : d.type with
  | LARGE => rfl
  | SMALL =>
      have htype := h.type_eq
      rw [ht, typeOfLength, MAX_BYTE_SIZE] at htype
      have hlt : d.length.toInt < 256 := by
        by_contra hge
        rw [if_neg hge] at htype
        cases htype
      have hnat : d.length.toNat < 256 := by
        rw [BitVec.toInt_eq_toNat_cond] at hpos hlt
        split at hpos <;> omega
      simp only [Nat.mod_eq_of_lt hnat, BitVec.ofNat_toNat, BitVec.setWidth_eq]

theorem Kept.announcedBasedOn_eq (h : d.Kept) : d.announcedBasedOn = d.basedOnSet := by
  rw [announcedBasedOn]
  cases hb : d.basedOnFlag with
  | false => exact (h.basedOn_unset hb).symm
  | true => rfl

theorem Kept.announcedTTL_eq (h : d.Kept) : d.announcedTTL = d.ttlSeconds := by
  rw [announcedTTL]
  cases ht : d.ttl with
  | false => exact (h.ttl_unset ht).symm
  | true => rfl

theorem headerFits_of (hk : d.Kept) (hs : d.Signable f)
    (signed_key : d.signed = true → d.publicKeyFlag = true)
    (protected_signed : d.protectedEntry = true → d.signed = true)
    (based : d.basedOnFlag = true → 0 < d.basedOnSet.size ∧ d.basedOnSet.size ≤ 256) :
    d.HeaderFits f where
  large := hk.large
  signed_key := signed_key
  protected_signed := protected_signed
  basedOn_pos h := (based h).1
  basedOn_le h := (based h).2
  key := hs.key

theorem Consistent.headerFits (h : d.Consistent) (hk : d.Kept) (hs : d.Signable f) : d.HeaderFits f :=
  headerFits_of hk hs h.signed_key h.protected_signed fun hb => ⟨h.basedOn_pos hb, h.basedOn_le hb⟩

/-- A signed value is written with a signature of the announced size. -/
theorem encodeDone_ok {mk : Option PrivateKey} {sig : Option SignatureCodec} (hs : d.Signable f)
    (h : d.encodeDone f mk = .ok sig) :
    sig.isSome = d.signed ∧
      (signatureField sig).length = if d.signed then f.signatureSize else 0 := by
  unfold encodeDone at h
  cases hsigned : d.signed with
  | false =>
      rw [hsigned] at h
      cases h
      exact ⟨rfl, rfl⟩
  | true =>
      rw [hsigned] at h
      simp only [if_true] at h ⊢
      cases hsig : d.signature with
      | some s =>
          rw [hsig] at h
          cases h
          exact ⟨rfl, hs.signature_size s hsig⟩
      | none =>
          rw [hsig] at h
          cases hown : d.privateKey with
          | some k =>
              rw [hown] at h
              cases h
              exact ⟨rfl, hs.lawful.sign_size _ _⟩
          | none =>
              rw [hown] at h
              cases mk with
              | some k =>
                  cases h
                  exact ⟨rfl, hs.lawful.sign_size _ _⟩
              | none => cases h

theorem run_receive_some (k : Option PublicKey) (now : BitVec 64) (d : Data) (b : Bytes) :
    (receive f k now).run (some d) b = ((decodeRest f k).run d b).onState some := by
  unfold receive
  rw [run_bind, run_state, andThen_done, run_bind, started, run_pure, andThen_done,
    run_zoom]

theorem run_receive_none (k : Option PublicKey) (now : BitVec 64) (b : Bytes) :
    (receive f k now).run none b = ((decodeHeader f now).run none b).andThen fun d _ r =>
      ((decodeRest f k).run d r).onState some := by
  unfold receive
  rw [run_bind, run_state, andThen_done, run_bind, started]
  congr 1

/-- A value whose payload and signature have the announced sizes is received
    wherever its bytes are cut. -/
theorem reads_receive (h : d.HeaderFits f) {header : Bytes} (hh : d.encodeHeader f = .ok header)
    (k : Option PublicKey) (now : BitVec 64) (p w : Bytes)
    (hp : (p.length : Int) = d.announcedLength.toInt)
    (hw : w.length = if d.signed then f.signatureSize else 0) :
    Reads (fun _ => True) (receive f k now) none (header ++ (p ++ w)) ()
      (some ((d.received now).completed k p w)) := by
  have hparse := parses_decodeHeader (σ := Option Data) h hh now
  have hidle := idle_decodeHeader h hh now (none : Option Data)
  have hsize : ((d.received now).buffer.length + p.length : Int) = (d.received now).length.toInt := by
    change ((0 : Nat) + p.length : Int) = d.announcedLength.toInt
    omega
  have hrest := reads_decodeRest (f := f) (d := d.received now) k p w hsize hw
  have hstep : ∀ r, (receive f k now).run none (header ++ r) =
      (receive f k now).run (some (d.received now)) r := by
    intro r
    rw [run_receive_none, hparse none r, andThen_done, run_receive_some]
  refine Reads.step hstep ?_ (hrest.onState some (run_receive_some k now))
  -- The header is waited for as a whole.
  refine Idle.starves ?_
  intro b c hc hcut
  rw [run_receive_none, hidle b c hc hcut, andThen_wait]

/-- What is received of a consistent value: the key only as far as it is
    announced, and the signature it was written with. -/
def transferred (d : Data) (sig : Option SignatureCodec) (now : BitVec 64) : Data :=
  { d with publicKey := d.wireKey, signature := sig, privateKey := none, validFromMillis := now }

theorem completed_received (hk : d.Kept) (hlen : d.length.toInt = d.buffer.length)
    {sig : Option SignatureCodec} (hsig : sig.isSome = d.signed) (now : BitVec 64) :
    (d.received now).completed none d.buffer (signatureField sig) = d.transferred sig now := by
  have hlength := hk.announcedLength_eq (by omega)
  have httl := hk.announcedTTL_eq
  have hbased := hk.announcedBasedOn_eq
  have hadopt (e : Data) : adoptKey none e = e := rfl
  unfold completed close
  rw [hadopt, received, hlength, httl, hbased, transferred]
  cases hs : d.signed with
  | false =>
      rw [hs] at hsig
      cases sig with
      | none => rfl
      | some s => cases hsig
  | true =>
      rw [hs] at hsig
      cases sig with
      | none => cases hsig
      | some s => rfl

/-- A value whose flags and lengths agree is received whatever the pieces its
    bytes arrive in; its header is not touched before it is complete. -/
theorem receive_pieces (hd : Reachable f d) (hs : d.Signable f)
    (hlength : d.length.toInt = d.buffer.length)
    (hsigned : d.signed = true → d.publicKeyFlag = true)
    (hprotected : d.protectedEntry = true → d.signed = true)
    (hbasedOn : d.basedOnFlag = true → 1 ≤ d.basedOnSet.size ∧ d.basedOnSet.size ≤ 256)
    (mk : Option PrivateKey) (now : BitVec 64) {header : Bytes} {sig : Option SignatureCodec}
    (hheader : d.encodeHeader f = .ok header) (hdone : d.encodeDone f mk = .ok sig) :
    (∀ b c, c ≠ [] → header = b ++ c → ∀ s : σ, (decodeHeader f now).run s b = .wait s b) ∧
      ∀ pieces, pieces.flatten = header ++ (d.buffer ++ signatureField sig) →
        feed (receive f none now) none [] pieces = .done () (some (d.transferred sig now)) [] := by
  have hk := hd.kept
  have hfits := headerFits_of hk hs hsigned hprotected hbasedOn
  obtain ⟨hsome, hsize⟩ := encodeDone_ok hs hdone
  refine ⟨fun b c hc hcut s => idle_decodeHeader hfits hheader now s b c hc hcut, ?_⟩
  intro pieces hpieces
  have hreads := reads_receive hfits hheader none now d.buffer (signatureField sig)
    (by rw [hk.announcedLength_eq (by omega), hlength]) hsize
  rw [completed_received hk hlength hsome] at hreads
  refine hreads.feed ?_ pieces hpieces
  obtain ⟨key, _, rfl⟩ := encodeHeader_ok hheader
  simp [writeByte, toBE]

/-- A signed value with a time to live and a predecessor arrives in any pieces. -/
theorem receive_pieces_signed :
    let f := zeros
    let d := built f (Data.new [7#8, 8#8] 1000)
      [.ttlSeconds 5, .addBasedOn ⟨0, 0, 0, 0, 3⟩, .signWith (some ⟨[1#8]⟩)]
    ∃ header, d.encodeHeader f = .ok header ∧ ∃ sig, d.encodeDone f none = .ok sig ∧
      ∀ pieces, pieces.flatten = header ++ (d.buffer ++ signatureField sig) →
        feed (receive f none 2000) none [] pieces = .done () (some (d.transferred sig 2000)) [] := by
  intro f d
  have hd : Reachable f d :=
    .set _ _ (.set _ _ (.set _ _ (.made (.buffer [7#8, 8#8] 2) 1000 _ rfl)))
  have hs : Signable f d :=
    ⟨zeros_lawful, (fun _ h => by cases h), (fun _ h => by cases h)⟩
  refine ⟨_, rfl, _, rfl, ?_⟩
  exact (receive_pieces (σ := Unit) hd hs (by decide) (fun _ => rfl) (fun h => by cases h)
    (fun _ => by decide) none 2000 rfl rfl).2

/-- A key that is not announced is not written, and nothing is read back for it. -/
theorem key_without_flag_lost :
    let f := zeros
    let d := built f (Data.new [7#8] 1000) [.publicKey (some (.encoded [1#8])), .publicKeyFlag false]
    Reachable f d ∧ Signable f d ∧ d.length.toInt = d.buffer.length ∧
      (d.signed = true → d.publicKeyFlag = true) ∧ (d.protectedEntry = true → d.signed = true) ∧
      (d.basedOnFlag = true → 1 ≤ d.basedOnSet.size ∧ d.basedOnSet.size ≤ 256) ∧
      ∃ v, d.encode f none = .ok v ∧ ∃ e, (receive f none 2000).run none v = .done () (some e) [] ∧
        e.publicKey ≠ some (d.publicKey.getD .EMPTY_PUBLIC_KEY) := by
  intro f d
  have hd : Reachable f d := .set _ _ (.set _ _ (.made (.buffer [7#8] 1) 1000 _ rfl))
  have hkey : f.IsKey [1#8] := ⟨by decide, by decide, rfl⟩
  have hs : Signable f d := by
    refine ⟨zeros_lawful, ?_, (fun _ h => by cases h)⟩
    intro data h
    cases h
    exact hkey
  refine ⟨hd, hs, by decide, by decide, by decide, by decide, ?_⟩
  exact ⟨_, rfl, d.transferred none 2000, by decide +kernel, by decide⟩

/-! ### Exactly the consistent values are read back -/

/-- The written bytes are consumed and give back what the flags stand for. -/
def ReadBack (f : SignatureFactory) (d : Data) (now : BitVec 64) (v : Bytes) : Prop :=
  ∃ e, (receive f none now).run none v = .done () (some e) [] ∧
    e.signed = d.signed ∧ e.protectedEntry = d.protectedEntry ∧
    e.publicKeyFlag = d.publicKeyFlag ∧
    (d.publicKeyFlag = true → e.publicKey = some (d.publicKey.getD .EMPTY_PUBLIC_KEY)) ∧
    e.basedOnFlag = d.basedOnFlag ∧ e.basedOnSet.equals d.basedOnSet = true

theorem encode_ok {mk : Option PrivateKey} {v : Bytes} (h : d.encode f mk = .ok v) :
    ∃ header sig, d.encodeHeader f = .ok header ∧ d.encodeDone f mk = .ok sig ∧
      v = header ++ (d.buffer ++ signatureField sig) := by
  obtain ⟨header, hheader, h⟩ := except_bind_ok h
  obtain ⟨sig, hsig, h⟩ := except_bind_ok h
  exact ⟨header, sig, hheader, hsig, (Except.ok.inj h).symm⟩

/-- The first byte written is the header. -/
theorem first_encodeHeader {header : Bytes} (h : d.encodeHeader f = .ok header) (r : Bytes) :
    BitVec.ofNat 32 (ofBE ((header ++ r).take 1)) = d.header := by
  obtain ⟨key, _, rfl⟩ := encodeHeader_ok h
  have hlen : (writeByte d.header).length = 1 := length_toBE 1 _
  have hlt := (header_bits d).2.2.2.2.2.2.2.2.2
  rw [append_assoc, take_left' hlen, writeByte, ofBE_toBE_of_lt 1 d.header.toNat hlt,
    BitVec.ofNat_toNat, BitVec.setWidth_eq]

/-- A value that is received in full with all bytes has its payload and its signature of them. -/
theorem decodeRest_done {k : Option PublicKey} {e : Data} {b : Bytes} (h0 : d.buffer = []) (hpos : 0 ≤ d.length.toInt)
    (h : (decodeRest f k).run d b = .done () e []) :
    ∃ p w, b = p ++ w ∧ (p.length : Int) = d.length.toInt ∧
      w.length = (if d.signed then f.signatureSize else 0) ∧ e = d.completed k p w := by
  have hle : (d.buffer.length : Int) ≤ d.length.toInt := by
    rw [h0]
    exact hpos
  have hzero : d.buffer.length = 0 := by rw [h0]; rfl
  rw [decodeRest, run_bind, run_decodeBuffer b hle] at h
  by_cases hlt : (b.length : Int) < d.length.toInt - d.buffer.length
  · rw [if_pos hlt] at h
    cases h
  · rw [if_neg hlt, andThen_done, hzero, Nat.sub_zero] at h
    refine ⟨b.take d.length.toInt.toNat, b.drop d.length.toInt.toNat, (take_append_drop _ _).symm, ?_, ?_⟩
    · rw [length_take]
      omega
    cases hs : d.signed with
    | false =>
        rw [run_decodeDone_unsigned k _ (by rw [append_signed, hs])] at h
        injection h with _ he hrest
        refine ⟨by rw [hrest]; rfl, ?_⟩
        rw [completed, close, append_signed, hs, if_neg Bool.false_ne_true]
        exact he.symm
    | true =>
        rw [run_decodeDone_signed k _ (by rw [append_signed, hs])] at h
        by_cases hlong : (b.drop d.length.toInt.toNat).length < f.signatureSize
        · rw [if_pos hlong] at h
          cases h
        · rw [if_neg hlong] at h
          injection h with _ he hrest
          have hlen : (b.drop d.length.toInt.toNat).length = f.signatureSize := by
            have hsum := congrArg List.length hrest
            rw [length_drop, length_nil] at hsum
            omega
          have htake : (b.drop d.length.toInt.toNat).take f.signatureSize = b.drop d.length.toInt.toNat :=
            take_of_length_le (by omega)
          rw [htake] at he
          refine ⟨hlen, ?_⟩
          rw [completed, close, append_signed, hs, if_pos rfl]
          exact he.symm

/-- A value that has been received has its header and its rest. -/
theorem receive_done {k : Option PublicKey} {now : BitVec 64} {b r : Bytes} {e : Option Data}
    (h : (receive f k now).run none b = .done () e r) :
    ∃ d₀ s r₀ e₀, (decodeHeader f now).run (none : Option Data) b = .done d₀ s r₀ ∧
      (decodeRest f k).run d₀ r₀ = .done () e₀ r ∧ e = some e₀ ∧ front e₀ = front d₀ := by
  rw [run_receive_none] at h
  cases hhead : (decodeHeader f now).run (none : Option Data) b with
  | wait s r₀ | fail x s r₀ =>
      rw [hhead] at h
      cases h
  | done d₀ s r₀ =>
      rw [hhead, andThen_done] at h
      have hfront := keeps_decodeRest (f := f) k d₀ d₀ r₀ rfl
      cases hrest : (decodeRest f k).run d₀ r₀ with
      | wait e₀ r₁ | fail x e₀ r₁ =>
          rw [hrest] at h
          cases h
      | done u e₀ r₁ =>
          rw [hrest] at h hfront
          cases h
          exact ⟨d₀, s, r₀, e₀, rfl, hrest, rfl, hfront⟩

theorem ReadBack.consistent (hk : d.Kept) (hs : d.Signable f) {mk : Option PrivateKey}
    {now : BitVec 64} {v : Bytes} (hv : d.encode f mk = .ok v) (h : ReadBack f d now v) :
    d.Consistent := by
  obtain ⟨e, hrun, hsigned, hprot, _, _, hflag, hset⟩ := h
  obtain ⟨header, sig, hheader, hsig, rfl⟩ := encode_ok hv
  obtain ⟨d₀, s, r, e₀, hhead, hrest, he, hfront⟩ := receive_done hrun
  cases he
  obtain ⟨_, _, _, _, hflag₀, hset₀, hsigned₀, hprot₀, _⟩ := front_fields hfront
  obtain ⟨ha, _, _, hbased⟩ := decodeHeader_done hhead
  rw [first_encodeHeader hheader] at ha
  obtain ⟨_, _, _, _, _, hsignedBits, _, hprotBits, _, _⟩ := header_bits d
  -- What came back is what the first byte announces, so the flags were nested.
  have hnest : (d.signed && d.publicKeyFlag) = d.signed := by
    rw [← hsignedBits, ← ha.signed, ← hsigned₀, hsigned]
  have hnest' : (d.signed && d.publicKeyFlag && d.protectedEntry) = d.protectedEntry := by
    rw [← hprotBits, ← ha.protectedEntry, ← hprot₀, hprot]
  have hsignedKey := Bool.and_eq_left_iff_imp.mp hnest
  rw [hnest] at hnest'
  have hprotSigned := Bool.and_eq_right_iff_imp.mp hnest'
  -- The predecessors that came back are as many as their byte can count.
  have hcount : d.basedOnFlag = true → 0 < d.basedOnSet.size ∧ d.basedOnSet.size ≤ 256 := by
    intro hb
    rw [← HashedSet.size_eq_of_equals _ _ hset, hset₀]
    exact hbased (hflag₀ ▸ hflag.trans hb)
  have hfits := headerFits_of hk hs hsignedKey hprotSigned hcount
  -- The header is therefore read back, and the rest has the length it announces.
  have hparse := parses_decodeHeader (σ := Option Data) hfits hheader now none
    (d.buffer ++ signatureField sig)
  rw [hhead] at hparse
  cases hparse
  have hpos : 0 ≤ (d.received now).length.toInt := by
    rcases type_bounds hfits with ⟨_, hpos, _⟩ | ⟨_, hlt⟩
    · exact hpos
    · exact Int.le_of_lt (Int.lt_trans (by decide) hlt)
  obtain ⟨p, w, hsplit, hp, hw, _⟩ := decodeRest_done rfl hpos hrest
  have hlen := congrArg List.length hsplit
  rw [length_append, length_append, (encodeDone_ok hs hsig).2, hw] at hlen
  have hlen' : d.buffer.length = p.length := Nat.add_right_cancel hlen
  refine ⟨hsignedKey, hprotSigned, fun hb => (hcount hb).1, fun hb => (hcount hb).2, ?_⟩
  rw [hlen']
  exact hp.symm

theorem Consistent.readBack (hk : d.Kept) (hs : d.Signable f) {mk : Option PrivateKey}
    (now : BitVec 64) {v : Bytes} (hv : d.encode f mk = .ok v) (h : d.Consistent) :
    ReadBack f d now v := by
  obtain ⟨header, sig, hheader, hsig, rfl⟩ := encode_ok hv
  have hreads := reads_receive (h.headerFits hk hs) hheader none now d.buffer (signatureField sig)
    h.length_eq.symm (encodeDone_ok hs hsig).2
  have hrun := hreads.full []
  rw [List.append_nil] at hrun
  have hbased := hk.announcedBasedOn_eq
  have hequals : d.announcedBasedOn.equals d.basedOnSet = true := by
    rw [hbased]
    exact (HashedSet.equals_iff _ _).mpr fun _ => Iff.rfl
  have hkey : d.publicKeyFlag = true → d.wireKey = some (d.publicKey.getD .EMPTY_PUBLIC_KEY) := by
    intro hflag
    rw [wireKey, if_pos hflag]
  refine ⟨_, hrun, ?_⟩
  unfold completed close
  cases hs : ((d.received now).append d.buffer).signed with
  | true | false => exact ⟨rfl, rfl, rfl, hkey, rfl, hequals⟩

/-! ### Calls that keep a value consistent -/

/-- The length is that of the payload, and no predecessors are announced. -/
def Constructor.Fits : Constructor → Prop
  | .buffer b len => len.toInt = b.length
  | .header h len => len = 0 ∧ hasBasedOn h = false
  | .array b _ len => b ≠ [] ∨ len = 0

/-- No flag is lowered that another one rests on, and there is room for one more
    predecessor. -/
def Setter.Fits (d : Data) : Setter → Prop
  | .signed value => value = false → d.protectedEntry = false
  | .publicKeyFlag value => value = false → d.signed = false
  | .addBasedOn key => (d.basedOnSet.add key).size ≤ 256
  | .signNow pair _ => pair.privateKey = none → d.signature = none → d.publicKeyFlag = true
  | .signNowWith k _ => k = none → d.signature = none → d.publicKeyFlag = true
  | _ => True

/-- Every call fits the value it is made on. -/
def FitAll (f : SignatureFactory) : Data → List Setter → Prop
  | _, [] => True
  | d, s :: ss => s.Fits d ∧ FitAll f (s.apply f d).1 ss

theorem length_wrappedBuffer {b w : Bytes} {offset len : BitVec 32}
    (h : wrappedBuffer b offset len = .ok w) (hfits : b ≠ [] ∨ len = 0) :
    (w.length : Int) = len.toInt := by
  unfold wrappedBuffer at h
  by_cases hnone : b = [] ∨ len = 0
  · rw [if_pos hnone] at h
    cases h
    have hzero : len = 0 := by
      rcases hnone with hb | hl
      · rcases hfits with hne | hl
        · exact absurd hb hne
        · exact hl
      · exact hl
    rw [hzero]
    rfl
  · rw [if_neg hnone] at h
    split at h
    · cases h
    · rename_i hrange
      cases h
      have hoff : (offset.toNat : Int) = offset.toInt := by
        rw [BitVec.toInt_eq_toNat_cond] at hrange ⊢
        split <;> omega
      have hlen : (len.toNat : Int) = len.toInt := by
        have hnonneg : 0 ≤ len.toInt := by omega
        rw [BitVec.toInt_eq_toNat_cond] at hnonneg ⊢
        split at hnonneg <;> omega
      rw [length_take, length_drop]
      omega

/-- The flags a header constructor sets are nested. -/
theorem nested_bits (header : BitVec 32) :
    (isSignedBits header = true → hasPublicKeyBits header = true) ∧
      (isProtectedEntryBits header = true → isSignedBits header = true) := by
  have h0 : (0#32).toInt = 0 := by decide
  have h1 : (1#32).toInt = 1 := by decide
  have h2 : (2#32).toInt = 2 := by decide
  unfold isSignedBits hasPublicKeyBits isProtectedEntryBits
  simp only [BitVec.slt, decide_eq_true_eq, h0, h1, h2]
  omega

theorem Constructor.new_consistent {c : Constructor} {now : BitVec 64} (h : c.new now = .ok d)
    (hfits : c.Fits) : d.Consistent := by
  have hk := Constructor.new_kept h
  have hannounced (hlen : d.length.toInt = d.buffer.length) :
      d.announcedLength.toInt = d.buffer.length := by
    rw [hk.announcedLength_eq (by omega), hlen]
  cases c with
  | buffer b len =>
      cases h
      exact ⟨fun hf => (by cases hf), fun hf => (by cases hf), fun hf => (by cases hf),
        fun hf => (by cases hf), hannounced hfits⟩
  | header header len =>
      have ha := ofHeader_announces h
      obtain ⟨rfl, hnone⟩ := hfits
      have hflag : d.basedOnFlag = false := ha.basedOnFlag.trans hnone
      have hempty : d.length = 0 ∧ d.buffer = [] := by
        change ofHeader header 0 now = .ok d at h
        unfold ofHeader at h
        split at h
        · cases h
        split at h
        · cases h
        split at h
        · cases h
        cases h
        exact ⟨rfl, rfl⟩
      refine ⟨?_, ?_, ?_, ?_, hannounced (by rw [hempty.1, hempty.2]; rfl)⟩
      · rw [ha.signed, ha.publicKeyFlag]
        exact (nested_bits header).1
      · rw [ha.protectedEntry, ha.signed]
        exact (nested_bits header).2
      · simp [hflag]
      · simp [hflag]
  | array b offset len =>
      obtain ⟨wrapped, hwrap, hnew⟩ := except_bind_ok h
      cases hnew
      exact ⟨fun hf => (by cases hf), fun hf => (by cases hf), fun hf => (by cases hf),
        fun hf => (by cases hf), hannounced (length_wrappedBuffer hwrap hfits).symm⟩

theorem setSignedNow_consistent (h : d.Consistent) (k : Option PrivateKey) (pk : Option PublicKey)
    (prot : Bool) (hfits : k = none → d.signature = none → d.publicKeyFlag = true) :
    (d.setSignedNow f k pk prot).1.Consistent := by
  unfold setSignedNow
  by_cases hsig : d.signature = none
  · have hnone : d.signature.isNone = true := by
      rw [hsig]
      rfl
    rw [if_pos hnone]
    cases k with
    | none =>
        exact ⟨fun _ => hfits rfl hsig, fun _ => rfl, h.basedOn_pos, h.basedOn_le, h.length_eq⟩
    | some k => exact ⟨fun _ => rfl, fun _ => rfl, h.basedOn_pos, h.basedOn_le, h.length_eq⟩
  · have hsome : ¬ d.signature.isNone = true := by
      rwa [Option.isNone_iff_eq_none]
    rw [if_neg hsome]
    exact h

theorem Consistent.flags (h : d.Consistent) {e : Data}
    (he : ∃ a b, e = { d with flag1 := a, flag2 := b }) : e.Consistent := by
  obtain ⟨a, b, rfl⟩ := he
  exact ⟨h.signed_key, h.protected_signed, h.basedOn_pos, h.basedOn_le, h.length_eq⟩

theorem Setter.apply_consistent (h : d.Consistent) (hk : d.Kept) (s : Setter) (hfits : s.Fits d) :
    (s.apply f d).1.Consistent := by
  cases s with
  | signNow pair prot | signNowWith k prot => exact setSignedNow_consistent h _ _ _ hfits
  | signed value =>
      refine ⟨id, ?_, h.basedOn_pos, h.basedOn_le, h.length_eq⟩
      intro hprot
      cases value with
      | true => rfl
      | false =>
          have hnot : d.protectedEntry = false := hfits rfl
          exact absurd (hnot.symm.trans hprot) Bool.false_ne_true
  | publicKeyFlag value =>
      refine ⟨?_, h.protected_signed, h.basedOn_pos, h.basedOn_le, h.length_eq⟩
      intro hsigned
      cases value with
      | true => rfl
      | false =>
          have hnot : d.signed = false := hfits rfl
          exact absurd (hnot.symm.trans hsigned) Bool.false_ne_true
  | addBasedOn key =>
      exact ⟨h.signed_key, h.protected_signed, fun _ => (HashedSet.size_add _ key).2.2,
        fun _ => hfits, h.length_eq⟩
  | duplicate =>
      have hsame : d.duplicate = d := by
        unfold Data.duplicate
        rw [← hk.type_eq]
      change d.duplicate.Consistent
      rwa [hsame]
  | duplicateMeta =>
      have hzero : (BitVec.ofNat 32 ((0#32).toNat % 256)).toInt = 0 := by decide
      exact ⟨h.signed_key, h.protected_signed, h.basedOn_pos, h.basedOn_le, hzero⟩
  | publicKey k => exact ⟨fun _ => rfl, h.protected_signed, h.basedOn_pos, h.basedOn_le, h.length_eq⟩
  | protectEntry | protectEntryWith k | sign | signWith k | signPair pair =>
      exact ⟨fun _ => rfl, fun _ => rfl, h.basedOn_pos, h.basedOn_le, h.length_eq⟩
  | protectEntryPair pair =>
      exact ⟨fun _ => rfl, fun _ => rfl, h.basedOn_pos, h.basedOn_le, h.length_eq⟩
  | flag1 value => exact h.flags (setFlag1_eq d value)
  | flag2 value => exact h.flags (setFlag2_eq d value)
  | deleted value => exact h.flags (setDeleted_eq d value)
  | signature value | ttlSeconds value | validFromMillis value | prepareFlag value =>
      exact ⟨h.signed_key, h.protected_signed, h.basedOn_pos, h.basedOn_le, h.length_eq⟩

theorem built_kept (h : d.Kept) (ss : List Setter) : (built f d ss).Kept := by
  induction ss generalizing d with
  | nil => exact h
  | cons s ss ih => exact ih (Setter.apply_kept h s)

theorem built_consistent (h : d.Consistent) (hk : d.Kept) (ss : List Setter) (hfits : FitAll f d ss) :
    (built f d ss).Consistent := by
  induction ss generalizing d with
  | nil => exact h
  | cons s ss ih =>
      exact ih (Setter.apply_consistent h hk s hfits.1) (Setter.apply_kept hk s) hfits.2

/-- The bytes of a value are read back exactly if the value is consistent, and
    values made by calls that fit are. -/
theorem readBack_iff_consistent :
    (∀ d, Reachable f d → d.Signable f → ∀ mk now v, d.encode f mk = .ok v →
      (ReadBack f d now v ↔ d.Consistent)) ∧
    ∀ (c : Constructor) (made : BitVec 64) (d : Data) (ss : List Setter), c.new made = .ok d →
      c.Fits → FitAll f d ss → (built f d ss).Signable f → ∀ mk now v,
        (built f d ss).encode f mk = .ok v → ReadBack f (built f d ss) now v := by
  refine ⟨?_, ?_⟩
  · intro d hd hs mk now v hv
    exact ⟨fun h => h.consistent hd.kept hs hv, fun h => h.readBack hd.kept hs now hv⟩
  · intro c made d ss hnew hfits hall hs mk now v hv
    have hk := Constructor.new_kept hnew
    have hconsistent := built_consistent (Constructor.new_consistent hnew hfits) hk ss hall
    exact hconsistent.readBack (built_kept hk ss) hs now hv

/-- A value that is signed and has a predecessor is read back. -/
theorem readBack_signed :
    let f := zeros
    let d := built f (Data.new [7#8] 1000)
      [.addBasedOn ⟨0, 0, 0, 0, 3⟩, .signWith (some ⟨[1#8]⟩)]
    ∃ v, d.encode f none = .ok v ∧ ReadBack f d 2000 v := by
  intro f d
  have hs : Signable f d :=
    ⟨zeros_lawful, (fun _ h => by cases h), (fun _ h => by cases h)⟩
  have hfit : FitAll f (Data.new [7#8] 1000)
      [.addBasedOn ⟨0, 0, 0, 0, 3⟩, .signWith (some ⟨[1#8]⟩)] := by
    refine ⟨?_, trivial, trivial⟩
    change 1 ≤ 256
    omega
  exact ⟨_, rfl, readBack_iff_consistent.2 (.buffer [7#8] 1) 1000 (Data.new [7#8] 1000) _ rfl rfl hfit
    hs none 2000 _ rfl⟩

/-- A signed value whose key is no longer announced is written with a signature
    that its header does not announce. -/
theorem not_readBack_signed_without_key :
    let f := zeros
    let d := built f (Data.new [7#8] 1000) [.signWith (some ⟨[1#8]⟩), .publicKeyFlag false]
    Reachable f d ∧ Signable f d ∧ ∃ v, d.encode f none = .ok v ∧ ¬ ReadBack f d 2000 v := by
  intro f d
  have hd : Reachable f d := .set _ _ (.set _ _ (.made (.buffer [7#8] 1) 1000 _ rfl))
  have hs : Signable f d :=
    ⟨zeros_lawful, (fun _ h => by cases h), (fun _ h => by cases h)⟩
  obtain ⟨v, hv⟩ : ∃ v, d.encode f none = .ok v := ⟨_, rfl⟩
  refine ⟨hd, hs, v, hv, ?_⟩
  intro h
  have hkey : d.publicKeyFlag = true := (h.consistent hd.kept hs hv).signed_key rfl
  cases hkey

end Data

end TomP2P
