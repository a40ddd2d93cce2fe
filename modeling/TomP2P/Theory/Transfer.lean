import TomP2P.Core.Sync
import TomP2P.Theory.DataConsistency

/-!
# Values in Messages

What arrives of a value that is sent in a message.

The first byte of a value announces a signature only together with the key, and
protection only together with both (`Data.announced`). The header that is read is that
of the value as it is announced, and the rest of the bytes is payload and signature as
far as these are announced (`Data.receive_encode`). From this it follows which values
arrive as they are (`Data.agrees_iff_portable`): those that are consistent, and that
announce the key and the signature exactly if they have them.

## Main definitions

* `Data.Agrees`: Two values have the same payload and meta data.
* `Data.announced`: A value as its first byte announces it.
* `Data.Portable`: The flags of a value agree with its fields.

## Theorems

* `Data.receive_encode`: What arrives of a value.
* `Data.receive_flags`: The user flags always arrive.
* `Data.agrees_iff_portable`: The values that arrive as they are.
* `Data.transfer_bare`: A value without meta data arrives with its payload.
-/

namespace TomP2P

open Wire Reader

namespace Data

/-- Two values are the same in payload, predecessors, time to live, user flags, key,
    signature and protection. -/
structure Agrees (d e : Data) : Prop where
  buffer : e.buffer = d.buffer
  basedOnSet : e.basedOnSet.equals d.basedOnSet = true
  ttlSeconds : e.ttlSeconds = d.ttlSeconds
  flag1 : e.flag1 = d.flag1
  flag2 : e.flag2 = d.flag2
  publicKey : e.publicKey = d.publicKey
  signature : e.signature = d.signature
  protectedEntry : e.protectedEntry = d.protectedEntry

/-- The flags and lengths of a value agree with one another, and with what it has. -/
structure Portable (d : Data) : Prop extends d.Consistent where
  key : d.publicKeyFlag = d.publicKey.isSome
  signature : d.signed = d.signature.isSome

variable {f : SignatureFactory} {d e : Data} {k : Option PublicKey} {mk : Option PrivateKey} {now : BitVec 64}

/-! ### What is announced -/

/-- The value as its first byte announces it. -/
def announced (d : Data) : Data :=
  { d with
    signed := d.signed && d.publicKeyFlag
    protectedEntry := d.signed && d.publicKeyFlag && d.protectedEntry }

theorem ownerBits_announced : ∀ signed key prot : Bool,
    ownerBits (signed && key) key (signed && key && prot) = ownerBits signed key prot := by
  decide

theorem encodeHeader_announced : d.announced.encodeHeader f = d.encodeHeader f := by
  have hheader : d.announced.header = d.header := by
    unfold header announced
    rw [ownerBits_announced]
  unfold encodeHeader
  rw [hheader]
  rfl

theorem announced_eq (hkey : d.signed = true → d.publicKeyFlag = true)
    (hprot : d.protectedEntry = true → d.signed = true) : d.announced = d := by
  have hs : (d.signed && d.publicKeyFlag) = d.signed := Bool.and_eq_left_iff_imp.mpr hkey
  have hp : (d.signed && d.protectedEntry) = d.protectedEntry := Bool.and_eq_right_iff_imp.mpr hprot
  rw [announced, hs, hp]

theorem Kept.announced (h : d.Kept) : d.announced.Kept := ⟨h.type_eq, h.ttl_unset, h.basedOn_unset⟩

/-! ### What arrives -/

/-- The header arrives as it is announced, and the rest is payload and signature. -/
theorem receive_encode (hk : d.Kept) (hs : d.Signable f)
    (hbased : d.basedOnFlag = true → 0 < d.basedOnSet.size ∧ d.basedOnSet.size ≤ 256) {v : Bytes}
    (hv : d.encode f mk = .ok v) (hrun : (receive f k now).run none v = .done () (some e) []) :
    ∃ sig p w, d.encodeDone f mk = .ok sig ∧ d.buffer ++ signatureField sig = p ++ w ∧
      (p.length : Int) = d.announcedLength.toInt ∧
      w.length = (if d.signed && d.publicKeyFlag then f.signatureSize else 0) ∧
      e = (d.announced.received now).completed k p w := by
  obtain ⟨header, sig, hheader, hsig, rfl⟩ := encode_ok hv
  have hsigned (h : (d.signed && d.publicKeyFlag) = true) : d.publicKeyFlag = true := (Bool.and_eq_true _ _ ▸ h).2
  have hprot (h : (d.signed && d.publicKeyFlag && d.protectedEntry) = true) : (d.signed && d.publicKeyFlag) = true :=
    (Bool.and_eq_true _ _ ▸ h).1
  have hfits : d.announced.HeaderFits f :=
    headerFits_of hk.announced ⟨hs.lawful, hs.key, hs.signature_size⟩ hsigned hprot hbased
  have hparse := parses_decodeHeader (σ := Option Data) hfits (encodeHeader_announced.trans hheader) now none
    (d.buffer ++ signatureField sig)
  obtain ⟨d₀, s, r, e₀, hhead, hrest, he, _⟩ := receive_done hrun
  rw [hparse] at hhead
  cases hhead
  cases he
  have hpos : 0 ≤ (d.announced.received now).length.toInt := by
    rcases type_bounds hfits with ⟨_, hpos, _⟩ | ⟨_, hlt⟩
    · exact hpos
    · exact Int.le_of_lt (Int.lt_trans (by decide) hlt)
  obtain ⟨p, w, hsplit, hp, hw, he⟩ := decodeRest_done rfl hpos hrest
  exact ⟨sig, p, w, hsig, hsplit, hp, hw, he⟩

theorem ofHeader_flags {header length : BitVec 32} (h : ofHeader header length now = .ok e) :
    e.flag1 = isFlag1 header ∧ e.flag2 = isFlag2 header := by
  unfold ofHeader at h
  split at h
  · cases h
  split at h
  · cases h
  split at h
  · cases h
  cases h
  exact ⟨rfl, rfl⟩

/-- The user flags arrive, whatever else does. -/
theorem receive_flags {v : Bytes} (hv : d.encode f mk = .ok v)
    (hrun : (receive f k now).run none v = .done () (some e) []) : e.flag1 = d.flag1 ∧ e.flag2 = d.flag2 := by
  obtain ⟨header, sig, hheader, hsig, rfl⟩ := encode_ok hv
  obtain ⟨d₀, s, r, e₀, hhead, hrest, he, hfront⟩ := receive_done hrun
  cases he
  obtain ⟨front, s₁, r₁, data, publicKey, hlook, hnew, rfl⟩ := decodeHeader_parts hhead
  have hfirst := (lookHeader_done hlook).1
  rw [first_encodeHeader hheader] at hfirst
  obtain ⟨hflag1, hflag2⟩ := ofHeader_flags hnew
  obtain ⟨_, _, hbit1, hbit2, _⟩ := header_bits d
  rw [hfirst] at hflag1 hflag2
  exact ⟨(congrArg Data.flag1 hfront).trans (hflag1.trans hbit1),
    (congrArg Data.flag2 hfront).trans (hflag2.trans hbit2)⟩

/-- The fields of a value that has arrived. -/
theorem completed_eq (d : Data) (k : Option PublicKey) (now : BitVec 64) (p w : Bytes) :
    (d.received now).completed k p w = { d.received now with
      buffer := p
      signature := if d.signed then some ⟨w⟩ else none
      publicKey := if d.signed then (adoptKey k (d.received now)).publicKey else d.wireKey } := by
  unfold completed close append
  cases hs : d.signed with
  | false =>
      rw [if_neg (by simp [received, hs])]
      rfl
  | true =>
      rw [if_pos (by simp [received, hs])]
      unfold adoptKey
      by_cases hmissing : (!keyMissing k && keyMissing (d.received now).publicKey) = true
      · rw [if_pos hmissing, if_pos hmissing]
        rfl
      · rw [if_neg hmissing, if_neg hmissing]
        rfl

/-! ### What arrives as it is -/

/-- A key that is written is not missing. -/
theorem keyMissing_of_encode {header : Bytes} (h : d.encodeHeader f = .ok header) (hflag : d.publicKeyFlag = true)
    {pk : PublicKey} (hpk : d.publicKey = some pk) : keyMissing (some pk) = false := by
  obtain ⟨key, hkey, _⟩ := encodeHeader_ok h
  rw [keyField, if_pos hflag, hpk] at hkey
  obtain ⟨data, hdata, _⟩ := SignatureFactory.encodePublicKey_ok hkey
  cases hdata
  rfl

theorem adoptKey_of_not_missing (h : keyMissing d.publicKey = false) : adoptKey k d = d := by
  rw [adoptKey, h, Bool.and_false, if_neg Bool.false_ne_true]

/-- A key that is announced does not get lost. -/
theorem adoptKey_isSome (h : d.publicKey.isSome = true) : (adoptKey k d).publicKey.isSome = true := by
  unfold adoptKey
  split
  · cases k with
    | none => contradiction
    | some pk => rfl
  · exact h

theorem Agrees.portable (hk : d.Kept) (hs : d.Signable f) (hsize : 0 < f.signatureSize) {v : Bytes}
    (hv : d.encode f mk = .ok v) (hrun : (receive f k now).run none v = .done () (some e) []) (h : Agrees d e) :
    d.Portable := by
  -- The predecessors that came back are as many as their byte can count.
  have hbased : d.basedOnFlag = true → 0 < d.basedOnSet.size ∧ d.basedOnSet.size ≤ 256 := by
    obtain ⟨header, sig, hheader, _, rfl⟩ := encode_ok hv
    obtain ⟨d₀, s, r, e₀, hhead, _, he, hfront⟩ := receive_done hrun
    cases he
    obtain ⟨ha, _, _, hcount⟩ := decodeHeader_done hhead
    obtain ⟨_, _, _, _, _, hset, _⟩ := front_fields hfront
    intro hb
    rw [← HashedSet.size_eq_of_equals _ _ h.basedOnSet, hset]
    refine hcount ?_
    rw [ha.basedOnFlag, first_encodeHeader hheader, (header_bits d).2.2.2.2.2.2.2.2.1, hb]
  obtain ⟨sig, p, w, hsig, hsplit, hp, hw, rfl⟩ := receive_encode hk hs hbased hv hrun
  rw [completed_eq] at h
  have hbuffer : p = d.buffer := h.buffer
  have hprot : (d.signed && d.publicKeyFlag && d.protectedEntry) = d.protectedEntry := h.protectedEntry
  have hsignature : (if d.signed && d.publicKeyFlag then some ⟨w⟩ else none) = d.signature := h.signature
  have hkey : (if d.signed && d.publicKeyFlag then (adoptKey k (d.announced.received now)).publicKey
    else d.wireKey) = d.publicKey := h.publicKey
  -- A signature that is not announced would be a part of the payload.
  have hsigned : d.signed = true → d.publicKeyFlag = true := by
    intro htrue
    by_contra hflag
    rw [Bool.not_eq_true] at hflag
    have hlen := congrArg List.length hsplit
    rw [htrue, hflag, Bool.and_false, if_neg Bool.false_ne_true] at hw
    rw [List.length_append, List.length_append, (encodeDone_ok hs hsig).2, htrue, if_pos rfl, hbuffer, hw] at hlen
    omega
  have hboth : (d.signed && d.publicKeyFlag) = d.signed := Bool.and_eq_left_iff_imp.mpr hsigned
  rw [hboth] at hprot hsignature hkey
  refine ⟨⟨hsigned, Bool.and_eq_right_iff_imp.mp hprot, fun hb => (hbased hb).1, fun hb => (hbased hb).2, ?_⟩, ?_, ?_⟩
  · rw [← hbuffer]
    exact hp.symm
  · cases hflag : d.publicKeyFlag with
    | false =>
        have hunsigned : d.signed = false := by
          by_contra htrue
          rw [Bool.not_eq_false] at htrue
          rw [hsigned htrue] at hflag
          cases hflag
        rw [hunsigned, if_neg Bool.false_ne_true, wireKey, hflag, if_neg Bool.false_ne_true] at hkey
        rw [← hkey]
        rfl
    | true =>
        have hwire : d.wireKey.isSome = true := by
          rw [wireKey, if_pos hflag]
          rfl
        rw [← hkey]
        cases d.signed with
        | false => exact hwire.symm
        | true => exact (adoptKey_isSome hwire).symm
  · rw [← hsignature]
    cases d.signed <;> rfl

theorem Portable.agrees (h : d.Portable) (hk : d.Kept) (hs : d.Signable f) {v : Bytes} (hv : d.encode f mk = .ok v)
    (hrun : (receive f k now).run none v = .done () (some e) []) : Agrees d e := by
  obtain ⟨sig, p, w, hsig, hsplit, hp, hw, rfl⟩ :=
    receive_encode hk hs (fun hb => ⟨h.basedOn_pos hb, h.basedOn_le hb⟩) hv hrun
  rw [announced_eq h.signed_key h.protected_signed, completed_eq]
  -- The payload ends where it is announced to.
  have hlen : d.buffer.length = p.length := by
    have hlength := h.length_eq
    omega
  obtain ⟨hbuffer, hwire⟩ := List.append_inj hsplit hlen
  have hbased := hk.announcedBasedOn_eq
  have httl := hk.announcedTTL_eq
  have hkey : d.wireKey = d.publicKey := by
    have hflag := h.key
    rw [wireKey]
    cases hpk : d.publicKey with
    | none | some pk =>
        rw [hpk] at hflag
        rw [hflag]
        rfl
  have hadopt : d.signed = true → (adoptKey k (d.received now)).publicKey = d.publicKey := by
    intro hsigned
    obtain ⟨header, _, hheader, _⟩ := encode_ok hv
    have hflag := h.signed_key hsigned
    have hsome := h.key
    rw [hflag] at hsome
    obtain ⟨pk, hpk⟩ := Option.isSome_iff_exists.mp hsome.symm
    have hmissing : keyMissing (d.received now).publicKey = false := by
      have hreceived : (d.received now).publicKey = some pk := hkey.trans hpk
      rw [hreceived]
      exact keyMissing_of_encode hheader hflag hpk
    rw [adoptKey_of_not_missing hmissing]
    exact hkey
  have hsignature : (if d.signed then some (⟨w⟩ : SignatureCodec) else none) = d.signature := by
    unfold encodeDone at hsig
    cases hd : d.signature with
    | none =>
        have hsigned : d.signed = false := by rw [h.signature, hd]; rfl
        rw [hsigned]
        rfl
    | some s =>
        have hsigned : d.signed = true := by rw [h.signature, hd]; rfl
        rw [hd, hsigned, if_pos rfl] at hsig
        cases hsig
        rw [hsigned, if_pos rfl, ← hwire]
        rfl
  refine ⟨hbuffer.symm, ?_, httl, rfl, rfl, ?_, hsignature, rfl⟩
  · refine (HashedSet.equals_iff _ _).mpr fun x => ?_
    change x ∈ d.announcedBasedOn.elems ↔ _
    rw [hbased]
  · cases hsigned : d.signed with
    | false => exact hkey
    | true => exact hadopt hsigned

/-- A value arrives as it is exactly if it is portable. -/
theorem agrees_iff_portable (hk : d.Kept) (hs : d.Signable f) (hsize : 0 < f.signatureSize) {v : Bytes}
    (hv : d.encode f mk = .ok v) (hrun : (receive f k now).run none v = .done () (some e) []) :
    Agrees d e ↔ d.Portable :=
  ⟨fun h => h.portable hk hs hsize hv hrun, fun h => h.agrees hk hs hv hrun⟩

end Data

namespace SyncBuilder

variable {f : SignatureFactory} {isReply : Bool} {mk : Option PrivateKey} {k : Option PublicKey}
  {written received : BitVec 64} {d e : Data}

theorem transfer_some (h : transfer f isReply mk k written received d = some e) :
    ∃ v, (d.filter false isReply written).encode f mk = .ok v ∧
      (Data.receive f k received).run none v = .done () (some e) [] := by
  unfold transfer at h
  obtain ⟨v, hv, h⟩ := Option.bind_eq_some_iff.mp h
  have hv' : (d.filter false isReply written).encode f mk = .ok v := by
    rcases henc : d.encodeData f false isReply mk written with x | x
    · rw [henc] at hv
      cases hv
    · rw [henc] at hv
      cases hv
      exact henc
  refine ⟨v, hv', ?_⟩
  split at h
  · rename_i hrun
    cases h
    exact hrun
  · cases h

/-- The user flags of a value arrive. -/
theorem transfer_flags (h : transfer f isReply mk k written received d = some e) :
    e.flag1 = d.flag1 ∧ e.flag2 = d.flag2 := by
  obtain ⟨v, hv, hrun⟩ := transfer_some h
  have hflags := Data.receive_flags hv hrun
  cases isReply with
  | false | true => exact hflags

/-- A new value arrives with its payload, and with a length that is that of the payload. -/
theorem transfer_new {bytes : Bytes} {now : BitVec 64} (flag1 flag2 : Bool) (hlawful : f.Lawful)
    (h : transfer f isReply mk k written received { Data.new bytes now with flag1 := flag1, flag2 := flag2 } = some e) :
    e.buffer = bytes ∧ e.length.toInt = bytes.length := by
  obtain ⟨v, hv, hrun⟩ := transfer_some h
  have hbare (x : Data) (hx : ∃ ttl ttlSeconds, (ttl = false → ttlSeconds = -1) ∧
      x = { Data.new bytes now with flag1 := flag1, flag2 := flag2, ttl := ttl, ttlSeconds := ttlSeconds })
      (hv : x.encode f mk = .ok v) : e.buffer = bytes ∧ e.length.toInt = bytes.length := by
    obtain ⟨ttl, ttlSeconds, httl, rfl⟩ := hx
    obtain ⟨sig, p, w, hsig, hsplit, hp, hw, rfl⟩ :=
      Data.receive_encode ⟨rfl, httl, fun _ => rfl⟩ ⟨hlawful, (fun _ h => by cases h), (fun _ h => by cases h)⟩
        (fun h => by cases h) hv hrun
    cases hsig
    rw [Data.completed_eq]
    have hnil : w = [] := List.length_eq_zero_iff.mp hw
    have hbytes : bytes = p := by
      rw [hnil, List.append_nil] at hsplit
      exact (List.append_nil bytes).symm.trans hsplit
    subst hbytes
    exact ⟨rfl, hp.symm⟩
  cases isReply with
  | false => exact hbare _ ⟨false, -1, fun _ => rfl, rfl⟩ hv
  | true => exact hbare _ ⟨true, _, nofun, rfl⟩ hv

end SyncBuilder

end TomP2P
