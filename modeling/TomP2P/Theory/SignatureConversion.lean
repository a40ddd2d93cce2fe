import TomP2P.Core.DSASignatureCodec
import TomP2P.Foundation.Der

/-!
# Conversion of Signatures

A signature goes from a sequence of two integers to the wire and back. The way to the
wire takes every signature of numbers of 160 bits: the contents of such a number have at
most 21 bytes, and the byte in front of the last 20 is zero.

The way back writes the 20 bytes of each number as the contents of an integer. They
have the top bit of the number as their sign, so a number of 2^159 or more comes out
negative. A number below 2^151 has more leading zeros than its contents may have: the
value is right, but the contents are not the shortest.

## Main definitions

* `DSASignatureCodec.Converts`: The conversions of a pair of numbers give sequences of
  these two integers.

## Theorems

* `DSASignatureCodec.encode_eq_pair`: What is written for a signature.
* `DSASignatureCodec.ofEncoded_of_signature`: Every signature of two numbers is taken.
* `DSASignatureCodec.converts_iff`: The numbers that are converted.
-/

namespace TomP2P

open Wire Reader List

namespace Number160

theorem length_toByteArray (n : Number160) : n.toByteArray.length = 20 := by
  rw [toByteArray_eq, length_encode]
  rfl

theorem toByteArray_ne_nil (n : Number160) : n.toByteArray ≠ [] := by
  intro hnil
  have hlen := n.length_toByteArray
  rw [hnil] at hlen
  cases hlen

/-- The 20 bytes stand for the number if its top bit is not set. -/
theorem value_toByteArray (n : Number160) : Der.value n.toByteArray = n.toNat ↔ n.toNat < 2 ^ 159 := by
  have hiff := Der.value_eq_iff n.toByteArray n.toByteArray_ne_nil
  rw [n.length_toByteArray, toByteArray_eq, ofBE_encode, ← toByteArray_eq] at hiff
  rw [hiff]
  omega

/-- The 20 bytes are the shortest if one less does not do. -/
theorem shortest_toByteArray (n : Number160) (h : n.toNat < 2 ^ 159) :
    Der.Shortest n.toByteArray ↔ 2 ^ 151 ≤ n.toNat := by
  have hvalue : ofBE n.toByteArray = n.toNat := by rw [toByteArray_eq, ofBE_encode]
  have hlen := n.length_toByteArray
  match hbytes : n.toByteArray with
  | [] => exact absurd hbytes n.toByteArray_ne_nil
  | [_] =>
      rw [hbytes] at hlen
      cases hlen
  | a :: b :: bs =>
      have hrest : bs.length = 18 := by
        rw [hbytes, length_cons, length_cons] at hlen
        omega
      rw [hbytes] at hvalue
      have hiff := Der.shortest_iff a b bs
      rw [hvalue, hrest] at hiff
      rw [hiff (by omega)]
      omega

end Number160

namespace DSASignatureCodec

/-! ### What is written -/

/-- A signature is written as a sequence with 20 bytes for each number. -/
theorem encode_eq_pair (c : DSASignatureCodec) :
    c.encode = Der.pair c.number1.toByteArray c.number2.toByteArray := by
  have hinteger (n : Number160) : Der.tlv Der.INTEGER n.toByteArray = 0x02#8 :: 20#8 :: n.toByteArray := by
    rw [Der.tlv_short (by rw [n.length_toByteArray]; decide), n.length_toByteArray]
    rfl
  have hbody : (0x02#8 :: 20#8 :: c.number1.toByteArray ++ 0x02#8 :: 20#8 :: c.number2.toByteArray).length = 44 := by
    simp only [cons_append, length_cons, length_append, Number160.length_toByteArray]
  rw [Der.pair, hinteger, hinteger, Der.tlv_short (by rw [hbody]; decide), hbody]
  rfl

theorem length_encode (c : DSASignatureCodec) : c.encode.length = 46 := by
  simp only [encode, length_cons, length_append, Number160.length_toByteArray]

/-- The values written are the numbers if they have no top bit. -/
theorem ber_encode_iff (r s : Number160) :
    Der.Ber (encode ⟨r, s⟩) r.toNat s.toNat ↔ r.toNat < 2 ^ 159 ∧ s.toNat < 2 ^ 159 := by
  have hpair := encode_eq_pair ⟨r, s⟩
  have hlen := length_encode ⟨r, s⟩
  constructor
  · intro ⟨c, d, heq, _, _, hc, hd⟩
    rw [hpair] at heq hlen
    have hcontents := Der.pair_inj (by rw [hlen]; decide) heq
    rw [← hcontents.1] at hc
    rw [← hcontents.2] at hd
    exact ⟨r.value_toByteArray.mp hc, s.value_toByteArray.mp hd⟩
  · intro ⟨hr, hs⟩
    exact ⟨r.toByteArray, s.toByteArray, hpair, r.toByteArray_ne_nil, s.toByteArray_ne_nil,
      r.value_toByteArray.mpr hr, s.value_toByteArray.mpr hs⟩

/-- They are the shortest as well if the numbers fill their bytes. -/
theorem signature_encode_iff (r s : Number160) :
    Der.Signature (encode ⟨r, s⟩) r.toNat s.toNat ↔
      (2 ^ 151 ≤ r.toNat ∧ r.toNat < 2 ^ 159) ∧ 2 ^ 151 ≤ s.toNat ∧ s.toNat < 2 ^ 159 := by
  have hpair := encode_eq_pair ⟨r, s⟩
  have hlen := length_encode ⟨r, s⟩
  constructor
  · intro ⟨c, d, heq, hshortc, hshortd, hc, hd⟩
    rw [hpair] at heq hlen
    have hcontents := Der.pair_inj (by rw [hlen]; decide) heq
    rw [← hcontents.1] at hc hshortc
    rw [← hcontents.2] at hd hshortd
    have hr := r.value_toByteArray.mp hc
    have hs := s.value_toByteArray.mp hd
    exact ⟨⟨(r.shortest_toByteArray hr).mp hshortc, hr⟩, (s.shortest_toByteArray hs).mp hshortd, hs⟩
  · intro ⟨⟨hrlow, hr⟩, hslow, hs⟩
    exact ⟨r.toByteArray, s.toByteArray, hpair, (r.shortest_toByteArray hr).mpr hrlow,
      (s.shortest_toByteArray hs).mpr hslow, r.value_toByteArray.mpr hr, s.value_toByteArray.mpr hs⟩

/-! ### What is taken -/

theorem byteAt_append (u w : Bytes) (b : Byte) : byteAt (u ++ b :: w) u.length = .ok b := by
  rw [byteAt, getElem?_append_right (Nat.le_refl _), Nat.sub_self, getElem?_cons_zero]

theorem expect_append (tag : Byte) (u w : Bytes) : expect tag (u ++ tag :: w) u.length = .ok () := by
  rw [expect, byteAt_append]
  exact if_neg (fun hne => hne rfl)

theorem lengthAt_append (what : String) (u w : Bytes) (n : Nat) (h : n < 128) :
    lengthAt what (u ++ BitVec.ofNat 8 n :: w) u.length = .ok n := by
  have hnat : (BitVec.ofNat 8 n).toNat = n := by
    rw [BitVec.toNat_ofNat]
    omega
  have hint : ¬ (BitVec.ofNat 8 n).toInt < 0 := by
    rw [BitVec.toInt_eq_toNat_of_lt (by omega)]
    omega
  rw [lengthAt, byteAt_append]
  exact (if_neg hint).trans (congrArg Except.ok hnat)

/-- Contents of at most 21 bytes are the number they stand for. -/
theorem encodeNumber_append (u c w : Bytes) (n : Number160) (hlen : c.length ≤ 21)
    (hvalue : ofBE c = n.toNat) : encodeNumber (u ++ (c ++ w)) u.length c.length = .ok n := by
  have hnumber (u v w : Bytes) (hv : v.length ≤ 20) (hof : ofBE v = n.toNat) :
      number160 (u ++ (v ++ w)) u.length v.length = .ok n := by
    obtain ⟨n', hn', hval⟩ := Number160.toNat_ofByteArray u v w hv
    rw [number160, hn', Number160.toNat_injective (hval.trans hof)]
  rw [encodeNumber]
  by_cases hlong : 20 < c.length
  · match c with
    | a :: v =>
        have hv : v.length = 20 := by
          rw [length_cons] at hlen hlong
          omega
        -- a number of 160 bits leaves nothing for the first of 21 bytes
        have hzero : a = 0#8 := by
          have hbound := n.toNat_lt
          rw [← hvalue, ofBE, hv] at hbound
          have hpow : 2 ^ 160 = 1 * 256 ^ 20 := by decide
          rw [hpow] at hbound
          have hmul : a.toNat * 256 ^ 20 < 1 * 256 ^ 20 := Nat.lt_of_le_of_lt (Nat.le_add_right _ _) hbound
          have hnat : a.toNat = 0 := by
            have hone := Nat.lt_of_mul_lt_mul_right hmul
            omega
          exact BitVec.eq_of_toNat_eq hnat
        subst hzero
        have hof : ofBE v = n.toNat := by
          rw [← hvalue, ofBE]
          simp
        have hrest := hnumber (u ++ [0#8]) v w (Nat.le_of_eq hv) hof
        rw [append_assoc, singleton_append, length_append, length_singleton, hv]
          at hrest
        have hbias : checkBias (u ++ (0#8 :: v ++ w)) u.length 1 = .ok () := by
          rw [checkBias, cons_append, byteAt_append]
          rfl
        rw [if_pos hlong, length_cons, hv, hbias]
        exact hrest
  · rw [if_neg hlong]
    exact hnumber u c w (Nat.not_lt.mp hlong) hvalue

/-- Every signature of two numbers of 160 bits is taken for these numbers. -/
theorem ofEncoded_of_signature (bytes : Bytes) (r s : Number160)
    (h : Der.Signature bytes r.toNat s.toNat) : ofEncoded bytes = .ok ⟨r, s⟩ := by
  obtain ⟨c, d, rfl, hshortc, hshortd, hc, hd⟩ := h
  have hcontents (c : Bytes) (n : Number160) (hshort : Der.Shortest c) (hvalue : Der.value c = n.toNat) :
      ofBE c = n.toNat ∧ c.length ≤ 21 := by
    have hnonneg : 0 ≤ Der.value c := by omega
    have hof : ofBE c = n.toNat := by
      have heq := Der.value_of_nonneg hnonneg
      omega
    have hbound : ofBE c < 256 ^ 20 := by
      have hlt := n.toNat_lt
      omega
    exact ⟨hof, hshort.length_le hnonneg hbound⟩
  obtain ⟨hr, hlenc⟩ := hcontents c r hshortc hc
  obtain ⟨hs, hlend⟩ := hcontents d s hshortd hd
  have hbytes : Der.pair c d = 0x30#8 :: BitVec.ofNat 8 (c.length + d.length + 4) ::
      0x02#8 :: BitVec.ofNat 8 c.length :: (c ++ 0x02#8 :: BitVec.ofNat 8 d.length :: d) := by
    have hbody : (Der.tlv Der.INTEGER c ++ Der.tlv Der.INTEGER d).length = c.length + d.length + 4 := by
      rw [Der.tlv_short (by omega), Der.tlv_short (by omega)]
      simp only [length_append, length_cons]
      omega
    rw [Der.pair, Der.tlv_short (by rw [hbody]; omega), hbody, Der.tlv_short (by omega),
      Der.tlv_short (by omega)]
    rfl
  generalize hall : Der.pair c d = all at hbytes ⊢
  have hseq : expect 0x30#8 all 0 = .ok () := hbytes ▸ expect_append _ [] _
  have hseqLen : lengthAt "seq" all 1 = .ok (c.length + d.length + 4) :=
    hbytes ▸ lengthAt_append _ [_] _ _ (by omega)
  have hint1 : expect 0x02#8 all 2 = .ok () := hbytes ▸ expect_append _ [_, _] _
  have hintLen1 : lengthAt "int" all 3 = .ok c.length :=
    hbytes ▸ lengthAt_append _ [_, _, _] _ _ (by omega)
  have hnumber1 : encodeNumber all 4 c.length = .ok r :=
    hbytes ▸ encodeNumber_append [_, _, _, _] c _ r hlenc hr
  -- behind the contents of the first number
  have hsplit (k : Nat) (front back : Bytes) (hfront : front.length = k)
      (hrest : 0x02#8 :: BitVec.ofNat 8 d.length :: d = front ++ back) :
      ∃ u, all = u ++ back ∧ u.length = 4 + c.length + k := by
    refine ⟨0x30#8 :: BitVec.ofNat 8 (c.length + d.length + 4) :: 0x02#8 :: BitVec.ofNat 8 c.length ::
      (c ++ front), ?_, ?_⟩
    · rw [hbytes, hrest]
      simp only [cons_append, append_assoc]
    · simp only [length_cons, length_append, hfront]
      omega
  have hint2 : expect 0x02#8 all (4 + c.length) = .ok () := by
    obtain ⟨u, hu, hlen⟩ := hsplit 0 [] _ rfl rfl
    rw [hu, ← Nat.add_zero (4 + c.length), ← hlen]
    exact expect_append _ u _
  have hintLen2 : lengthAt "int" all (5 + c.length) = .ok d.length := by
    obtain ⟨u, hu, hlen⟩ := hsplit 1 [_] _ rfl rfl
    rw [hu, show 5 + c.length = u.length by omega]
    exact lengthAt_append _ u _ _ (by omega)
  have hnumber2 : encodeNumber all (6 + c.length) d.length = .ok s := by
    obtain ⟨u, hu, hlen⟩ := hsplit 2 [_, _] _ rfl rfl
    have hmatch := encodeNumber_append u d [] s hlend hs
    rw [append_nil] at hmatch
    rw [hu, show 6 + c.length = u.length by omega]
    exact hmatch
  simp only [ofEncoded, hseq, hseqLen, hint1, hintLen1, hnumber1, hint2, hintLen2, hnumber2, bind,
    Except.bind, pure, Except.pure]

/-! ### Both ways -/

/-- The conversions of a pair of numbers give sequences that denote it: read from the
    wire and encoded, and taken from a signature, written, read and encoded. -/
def Converts (Denotes : Bytes → Int → Int → Prop) (r s : Number160) : Prop :=
  (∀ rest, ∃ c, (ofBuffer (σ := Unit)).run () (r.encode ++ s.encode ++ rest) = .done c () rest ∧
    Denotes c.encode r.toNat s.toNat) ∧
  ∀ bytes, Der.Signature bytes r.toNat s.toNat → ∃ c c', ofEncoded bytes = .ok c ∧
    (ofBuffer (σ := Unit)).run () c.write = .done c' () [] ∧ Der.Ber c'.encode r.toNat s.toNat

/-- The bytes of two numbers are read as their signature. -/
theorem read_wire (r s : Number160) (rest : Bytes) :
    (ofBuffer (σ := Unit)).run () (r.encode ++ s.encode ++ rest) = .done ⟨r, s⟩ () rest := by
  have hparse := parses_ofBuffer (σ := Unit) ⟨r, s⟩ () rest
  rwa [write, Number160.toByteArray_eq, Number160.toByteArray_eq] at hparse

/-- What is converted is encoded right. -/
theorem Converts.encode {Denotes : Bytes → Int → Int → Prop} {r s : Number160} (h : Converts Denotes r s) :
    Denotes (DSASignatureCodec.encode ⟨r, s⟩) r.toNat s.toNat := by
  obtain ⟨c, hc, hdenotes⟩ := h.1 []
  rw [read_wire] at hc
  cases hc
  exact hdenotes

/-- A signature is converted if both its numbers have no top bit, to the shortest
    contents if they also need the 20 bytes. -/
theorem converts_iff (r s : Number160) :
    (Converts Der.Signature r s ↔
      (2 ^ 151 ≤ r.toNat ∧ r.toNat < 2 ^ 159) ∧ 2 ^ 151 ≤ s.toNat ∧ s.toNat < 2 ^ 159) ∧
    (Converts Der.Ber r s ↔ r.toNat < 2 ^ 159 ∧ s.toNat < 2 ^ 159) := by
  have hback (hber : Der.Ber (encode ⟨r, s⟩) r.toNat s.toNat) (bytes : Bytes)
      (hsig : Der.Signature bytes r.toNat s.toNat) : ∃ c c', ofEncoded bytes = .ok c ∧
      (ofBuffer (σ := Unit)).run () c.write = .done c' () [] ∧ Der.Ber c'.encode r.toNat s.toNat := by
    have hparse := parses_ofBuffer (σ := Unit) ⟨r, s⟩ () []
    rw [append_nil] at hparse
    exact ⟨⟨r, s⟩, ⟨r, s⟩, ofEncoded_of_signature bytes r s hsig, hparse, hber⟩
  constructor
  · rw [← signature_encode_iff]
    constructor
    · exact Converts.encode
    · intro hsig
      have hbounds := (signature_encode_iff r s).mp hsig
      exact ⟨fun rest => ⟨_, read_wire r s rest, hsig⟩,
        hback ((ber_encode_iff r s).mpr ⟨hbounds.1.2, hbounds.2.2⟩)⟩
  · rw [← ber_encode_iff]
    constructor
    · exact Converts.encode
    · intro hber
      exact ⟨fun rest => ⟨_, read_wire r s rest, hber⟩, hback hber⟩

/-- A first number of 2^159 comes out as its negation. -/
theorem not_converts_top : let r : Number160 := ⟨0x80000000#32, 0#32, 0#32, 0#32, 0#32⟩
    let s : Number160 := ⟨0x40000000#32, 0#32, 0#32, 0#32, 0#32⟩
    r.toNat = 2 ^ 159 ∧ Der.value r.toByteArray = -2 ^ 159 ∧
      ¬ Der.Signature (encode ⟨r, s⟩) r.toNat s.toNat ∧ ¬ Der.Ber (encode ⟨r, s⟩) r.toNat s.toNat ∧
      ¬ Converts Der.Signature r s ∧ ¬ Converts Der.Ber r s := by
  intro r s
  have hr : r.toNat = 2 ^ 159 := by decide
  have hsig : ¬ Der.Signature (encode ⟨r, s⟩) r.toNat s.toNat := by
    rw [signature_encode_iff, hr]
    omega
  have hber : ¬ Der.Ber (encode ⟨r, s⟩) r.toNat s.toNat := by
    rw [ber_encode_iff, hr]
    omega
  exact ⟨hr, by decide, hsig, hber, fun h => hsig h.encode, fun h => hber h.encode⟩

end DSASignatureCodec

end TomP2P
