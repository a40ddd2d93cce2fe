import TomP2P.Core.NumberConversions
import TomP2P.Foundation.WordDigits

/-!
# What a Key is Converted to Stands for its Number

A key is an unsigned number of 160 bits. Its strings and its bytes are read back, its order and
its equality are those of the number, and its length in bits is that of the number. So the
length of an XOR says how many bits two keys have in common in front.

The digits of a string are shifted out of the words when they are written and into the words
when they are read, so a string of at most 40 digits is read as the number of its digits, and
what is written are digits of the number, with zeros in front left out or not.

As a `long` a key should be its lower 64 bits, as it is made from a `long`. But the last word is
taken for the upper half, so it is only if its last two words are the same.

## Main definitions

* `Number160.values`: The digits of a string.
* `Number160.ActsAsNumber`: What is asked of two keys.
* `Number160.ActsAsLong`: What is asked of a `long` and a key.

## Theorems

* `Number160.ofString_eq`: What is read.
* `Number160.values_toString`: What is written.
* `Number160.actsAsNumber`: Keys are what their numbers are.
* `Number160.toNat_longValue`: The `long` of a key.
* `Number160.actsAsLong_iff`: When it is the one that is expected.
-/

namespace TomP2P

open Wire Reader List

namespace Number160

/-- The values of the digits. -/
def values (other : Char → Int) (tmp : List Char) : List Nat := tmp.map fun ch => (digit other ch).toNat % 16

/-! ### Reading -/

theorem words_modifyWord (n : Number160) (i : Nat) (f : BitVec 32 → BitVec 32) :
    (n.modifyWord i f).words = n.words.modify i f := by
  match i with
  | 0 | 1 | 2 | 3 | 4 => rfl
  | i + 5 => simp [modifyWord, words, modify_succ_cons]

/-- The lowest bits of a digit. -/
theorem and_mask (d : Int) (hd : 0 ≤ d) : BitVec.ofInt 32 d &&& 15#32 = BitVec.ofNat 32 (d.toNat % 16) := by
  have hnat : BitVec.ofInt 32 d = BitVec.ofNat 32 d.toNat := by
    rw [← BitVec.ofInt_natCast, Int.toNat_of_nonneg hd]
  rw [hnat]
  apply BitVec.eq_of_toNat_eq
  rw [BitVec.toNat_and, BitVec.toNat_ofNat, BitVec.toNat_ofNat, BitVec.toNat_ofNat]
  have hmask (x : Nat) : x &&& 15 = x % 16 := Nat.and_two_pow_sub_one_eq_mod x 4
  rw [Nat.mod_eq_of_lt (by omega : 15 < 2 ^ 32), hmask]
  omega

/-- All are digits. -/
def AllDigits (other : Char → Int) (tmp : List Char) : Prop := ∀ ch ∈ tmp, 0 ≤ digit other ch

theorem ofStringLoop_eq (other : Char → Int) (i : Nat) (tmp : List Char) (n : Number160) (h : AllDigits other tmp) :
    ∃ n', ofStringLoop other i tmp n = .ok n' ∧ n'.words = WordDigits.fill 4 8 i (values other tmp) n.words := by
  induction tmp generalizing i n with
  | nil => exact ⟨n, rfl, rfl⟩
  | cons ch tmp ih =>
      have hch := h ch mem_cons_self
      rcases ih (i + 1) (n.modifyWord (i >>> 3) fun val => val <<< 4 + (BitVec.ofInt 32 (digit other ch) &&& 15#32))
        fun c hc => h c (mem_cons_of_mem ch hc) with ⟨n', hloop, hwords⟩
      refine ⟨n', by rw [ofStringLoop, if_neg (by omega), hloop], ?_⟩
      rw [hwords, words_modifyWord, and_mask _ hch, Nat.shiftRight_eq_div_pow]
      rfl

theorem values_lt (other : Char → Int) (tmp : List Char) (d : Nat) (hd : d ∈ values other tmp) : d < 2 ^ 4 := by
  rcases mem_map.mp hd with ⟨ch, _, rfl⟩
  exact Nat.mod_lt _ (by omega)

/-- Up to 40 digits are read as the number they stand for. -/
theorem ofString_eq (other : Char → Int) (tmp : List Char) (hlength : tmp.length ≤ 40) (h : AllDigits other tmp) :
    ∃ n, ofString other ('0' :: 'x' :: tmp) = .ok n ∧ n.toNat = WordDigits.value 4 (values other tmp) := by
  rcases ofStringLoop_eq other (40 - tmp.length) tmp ZERO h with ⟨n, hloop, hwords⟩
  refine ⟨n, ?_, ?_⟩
  · have hshort : ¬ STRING_LENGTH < ('0' :: 'x' :: tmp).length := by
      simp only [STRING_LENGTH, length_cons]
      omega
    have hplace : STRING_LENGTH - ('0' :: 'x' :: tmp).length = 40 - tmp.length := by
      simp only [STRING_LENGTH, length_cons]
      omega
    have hfront : ['0', 'x'].isPrefixOf ('0' :: 'x' :: tmp) = true := isPrefixOf_iff_prefix.mpr ⟨tmp, rfl⟩
    rw [ofString, if_neg hshort, if_pos hfront, hplace]
    exact hloop
  · have hfill := WordDigits.value_fill 4 8 (w := 32) rfl (by omega) 5 (40 - tmp.length) (values other tmp)
      (values_lt other tmp) (by rw [values, length_map]; omega)
    rw [toNat_eq_value, hwords]
    exact hfill

/-! ### Writing -/

theorem digit_DIGITS (other : Char → Int) (d : Nat) (hd : d < 16) : digit other (DIGITS.getD d '0') = d := by
  match d, hd with
  | 0, _ | 1, _ | 2, _ | 3, _ | 4, _ | 5, _ | 6, _ | 7, _ => rfl
  | 8, _ | 9, _ | 10, _ | 11, _ | 12, _ | 13, _ | 14, _ | 15, _ => rfl
  | d + 16, hd => exact absurd hd (by omega)

theorem toHexLoop_eq (removeLeadingZero : Bool) (i : Nat) (integer : BitVec 32) (buf : List Char) :
    toHexLoop removeLeadingZero i integer buf =
      (WordDigits.shiftOut 4 removeLeadingZero i integer).map (DIGITS.getD · '0') ++ buf := by
  induction i generalizing integer buf with
  | zero => rfl
  | succ i ih =>
      have hmask : (integer &&& 15#32).toNat = integer.toNat % 2 ^ 4 := Nat.and_two_pow_sub_one_eq_mod integer.toNat 4
      rw [toHexLoop, WordDigits.shiftOut]
      split_ifs
      · rfl
      · rw [ih, hmask, map_append, append_assoc]
        rfl

theorem toStringLoop_eq (removeZero : Bool) (vals : List (BitVec 32)) :
    toStringLoop removeZero vals = (WordDigits.print 4 8 removeZero vals).map (DIGITS.getD · '0') := by
  induction vals generalizing removeZero with
  | nil => rfl
  | cons val vals ih =>
      have hstrip : (if removeZero && val != 0 then false else removeZero) = (removeZero && val == 0) := by
        rw [bne]
        cases removeZero <;> cases val == 0 <;> rfl
      rw [toStringLoop, toHex, toHexLoop_eq, ih, hstrip, WordDigits.print, map_append, append_nil]
      rfl

/-- What is written are digits, not more than are read, that stand for the number. -/
theorem values_toString (other : Char → Int) (n : Number160) (removeLeadingZero : Bool) :
    ∃ tmp, n.toString removeLeadingZero = '0' :: 'x' :: tmp ∧ tmp.length ≤ 40 ∧ AllDigits other tmp ∧
      WordDigits.value 4 (values other tmp) = n.toNat := by
  have hdigit (d : Nat) (hd : d ∈ WordDigits.print 4 8 removeLeadingZero n.words) :
      digit other (DIGITS.getD d '0') = d :=
    digit_DIGITS other d (WordDigits.lt_of_mem_print 4 8 removeLeadingZero n.words d hd)
  refine ⟨_, rfl, ?_, ?_, ?_⟩
  · rw [toStringLoop_eq, length_map]
    exact WordDigits.length_print_le 4 8 removeLeadingZero n.words
  · rw [toStringLoop_eq]
    intro ch hch
    rcases mem_map.mp hch with ⟨d, hd, rfl⟩
    rw [hdigit d hd]
    omega
  · have hvalues : values other (toStringLoop removeLeadingZero n.words) =
        WordDigits.print 4 8 removeLeadingZero n.words := by
      rw [values, toStringLoop_eq, map_map]
      refine map_congr_left (g := id) (fun d hd => ?_) |>.trans (map_id _)
      have hlt := WordDigits.lt_of_mem_print 4 8 removeLeadingZero n.words d hd
      rw [Function.comp_apply, hdigit d hd]
      exact Nat.mod_eq_of_lt hlt
    rw [hvalues, WordDigits.value_print 4 8 rfl, ← toNat_eq_value]

/-- Any string of a number is read as the number. -/
theorem ofString_toString (other : Char → Int) (n : Number160) (removeLeadingZero : Bool) :
    ofString other (n.toString removeLeadingZero) = .ok n := by
  rcases values_toString other n removeLeadingZero with ⟨tmp, htext, hlength, hdigits, hvalue⟩
  rcases ofString_eq other tmp hlength hdigits with ⟨n', hread, hn'⟩
  rw [htext, hread, toNat_injective (hn'.trans hvalue)]

/-! ### Words -/

/-! ### Bytes -/

/-- The bytes of a number, the most significant one first. -/
theorem encode_eq_toBE (n : Number160) : n.encode = toBE BYTE_ARRAY_SIZE n.toNat := by
  have hbytes := toBE_ofBE n.encode
  rw [length_encode, ofBE_encode] at hbytes
  exact hbytes.symm

/-- A number is read from its bytes, wherever they are in an array. -/
theorem decodeArray_encode (n : Number160) (u v : Bytes) :
    decodeArray (u ++ (n.encode ++ v)) u.length = .ok (n, u.length + BYTE_ARRAY_SIZE) := by
  have hlength := n.length_encode
  have hroom : u.length ≤ (u ++ (n.encode ++ v)).length := by
    rw [length_append]
    omega
  have hlong : ¬ (n.encode ++ v).length < BYTE_ARRAY_SIZE := by
    rw [length_append]
    omega
  have hbytes := ofBytes_encode_append n []
  rw [append_nil] at hbytes
  rw [decodeArray, fetch_eq _ _ _ _ hroom, drop_left' rfl, if_neg hlong, take_left' hlength,
    Effect.except_ok_bind, ofArrayLoop_eq _ hlength, hbytes]
  rfl

/-- A number is put into an array that has room for it, and read from there. -/
theorem decodeArray_encodeArray (n : Number160) (me : Bytes) (offset : Nat) (hroom : offset + BYTE_ARRAY_SIZE ≤ me.length) :
    n.encodeArray me offset = .ok (splice me offset n.encode, offset + BYTE_ARRAY_SIZE) ∧
      decodeArray (splice me offset n.encode) offset = .ok (n, offset + BYTE_ARRAY_SIZE) := by
  have hlength := n.length_encode
  have hstore := n.stores_encodeArray.fits me offset (by omega)
  have hfront : (me.take offset).length = offset := by
    rw [length_take]
    omega
  have hread := decodeArray_encode n (me.take offset) (me.drop (offset + n.encode.length))
  rw [hfront] at hread
  rw [hlength] at hstore
  exact ⟨hstore, hread⟩

/-! ### Order, equality and length -/

theorem equals_iff (n key : Number160) : n.equals key = true ↔ n = key := by
  simp only [equals, words, zip_cons_cons, zip_nil_right, all_cons, all_nil, Bool.and_true,
    Bool.and_eq_true, beq_iff_eq, Number160.ext_iff]
  grind

theorem bitLength_eq_size (n : Number160) : n.bitLength = n.toNat.size := by
  rw [bitLength_eq]
  split_ifs with hzero
  · rw [hzero, Nat.size_zero]
  · have hle : n.toNat.size ≤ n.toNat.log2 + 1 := Nat.size_le.mpr Nat.lt_log2_self
    have hlt : n.toNat.log2 < n.toNat.size := Nat.lt_size.mpr (Nat.log2_self_le hzero)
    omega

/-- What is asked of two keys as unsigned numbers: their strings and bytes are read back, and order,
    equality, length and distance are those of the numbers. -/
structure ActsAsNumber (other : Char → Int) (n m : Number160) : Prop where
  string : ∀ removeLeadingZero, ofString other (n.toString removeLeadingZero) = .ok n
  bytes : n.encode = toBE BYTE_ARRAY_SIZE n.toNat ∧ n.toByteArray = n.encode
  byteArray : ofByteArray n.toByteArray 0 n.toByteArray.length = .ok n
  array : ∀ me offset, offset + BYTE_ARRAY_SIZE ≤ me.length →
    n.encodeArray me offset = .ok (splice me offset n.encode, offset + BYTE_ARRAY_SIZE) ∧
      decodeArray (splice me offset n.encode) offset = .ok (n, offset + BYTE_ARRAY_SIZE)
  arrayAnywhere : ∀ u v, decodeArray (u ++ (n.encode ++ v)) u.length = .ok (n, u.length + BYTE_ARRAY_SIZE)
  buffer : Parses (decode (σ := Unit)) n.encode n
  compareTo : n.compareTo m = compare n.toNat m.toNat
  equals : n.equals m = true ↔ n.toNat = m.toNat
  compareTo_equals : n.compareTo m = .eq ↔ n.equals m = true
  bitLength_zero : n.bitLength = 0 ↔ n.toNat = 0
  bitLength_succ : ∀ p, n.bitLength = p + 1 ↔ n.toNat.testBit p = true ∧ ∀ q, p < q → n.toNat.testBit q = false
  commonPrefix : (n.xor m).bitLength ≤ BITS ∧
    IsGreatest {k | k ≤ BITS ∧ ∀ i < k, n.toNat.testBit (BITS - 1 - i) = m.toNat.testBit (BITS - 1 - i)}
      (BITS - (n.xor m).bitLength)

theorem actsAsNumber (other : Char → Int) (n m : Number160) : ActsAsNumber other n m where
  string := ofString_toString other n
  bytes := ⟨n.encode_eq_toBE, n.toByteArray_eq⟩
  byteArray := DSASignatureCodec.ofByteArray_toByteArray n
  array := n.decodeArray_encodeArray
  arrayAnywhere := n.decodeArray_encode
  buffer := parses_decode n
  compareTo := n.compareTo_eq m
  equals := (equals_iff n m).trans toNat_injective.eq_iff.symm
  compareTo_equals := by
    rw [compareTo_eq, compare_eq_iff_eq, equals_iff, toNat_injective.eq_iff]
  bitLength_zero := by rw [bitLength_eq_size, Nat.size_eq_zero]
  bitLength_succ p := by rw [bitLength_eq_size, WordDigits.size_eq_succ_iff]
  commonPrefix := by
    rw [bitLength_eq_size, toNat_xor]
    exact ⟨Nat.size_le.mpr (Nat.xor_lt_two_pow n.toNat_lt m.toNat_lt),
      WordDigits.isGreatest_commonPrefix BITS _ _ n.toNat_lt m.toNat_lt⟩

/-! ### Numbers of the language -/

/-- A `long` is read back from its key, and the `long` and the `int` of a key are its lower bits. -/
def ActsAsLong (x : BitVec 64) (n : Number160) : Prop :=
  (ofLong x).longValue = x ∧ n.longValue = BitVec.ofNat 64 n.toNat ∧ n.intValue = BitVec.ofNat 32 n.toNat

theorem toNat_longValue (n : Number160) : n.longValue.toNat = n.val4.toNat * 2 ^ 32 + n.val3.toNat := by
  have hupper := n.val4.isLt
  have hlower := n.val3.isLt
  rw [longValue, BitVec.toNat_add, BitVec.toNat_shiftLeft, BitVec.toNat_setWidth, BitVec.toNat_setWidth,
    Nat.shiftLeft_eq]
  omega

theorem intValue_eq (n : Number160) : n.intValue = BitVec.ofNat 32 n.toNat := by
  apply BitVec.eq_of_toNat_eq
  have hlast := n.val4.isLt
  rw [intValue, BitVec.toNat_ofNat, toNat]
  omega

/-- The words of a `long` are its halves. -/
theorem toNat_ofLong (x : BitVec 64) :
    (ofLong x).val3.toNat = x.toNat / 2 ^ 32 ∧ (ofLong x).val4.toNat = x.toNat % 2 ^ 32 := by
  have hlt := x.isLt
  refine ⟨?_, BitVec.toNat_setWidth ..⟩
  -- The sign does not reach the word that is kept.
  have hsign : (x.sshiftRight 32).setWidth 32 = (x >>> 32).setWidth 32 := by
    refine BitVec.eq_of_getLsbD_eq fun i hi => ?_
    simp [BitVec.getLsbD_sshiftRight, hi, show ¬ 64 ≤ i by omega, show 32 + i < 64 by omega]
  rw [ofLong, hsign, BitVec.toNat_setWidth, BitVec.toNat_ushiftRight, Nat.shiftRight_eq_div_pow]
  exact Nat.mod_eq_of_lt (by omega)

theorem longValue_eq_iff (n : Number160) : n.longValue = BitVec.ofNat 64 n.toNat ↔ n.val3 = n.val4 := by
  have hupper := n.val4.isLt
  have hlower := n.val3.isLt
  have hlow : n.toNat % 2 ^ 64 = n.val3.toNat * 2 ^ 32 + n.val4.toNat := by
    have hsplit : n.toNat = 2 ^ 64 * ((n.val0.toNat * 2 ^ 32 + n.val1.toNat) * 2 ^ 32 + n.val2.toNat) +
        (n.val3.toNat * 2 ^ 32 + n.val4.toNat) := by
      rw [toNat]
      omega
    rw [hsplit, Nat.mul_add_mod]
    exact Nat.mod_eq_of_lt (by omega)
  rw [← BitVec.toNat_inj, ← BitVec.toNat_inj, toNat_longValue, BitVec.toNat_ofNat, hlow]
  omega

/-- The `long` of a key is the one that is expected just if both halves are the same. -/
theorem actsAsLong_iff (x : BitVec 64) (n : Number160) :
    ActsAsLong x n ↔ x.extractLsb' 32 32 = x.extractLsb' 0 32 ∧ n.val3 = n.val4 := by
  have hx : (ofLong x).longValue = x ↔ x.extractLsb' 32 32 = x.extractLsb' 0 32 := by
    have hwords := toNat_ofLong x
    have hlt := x.isLt
    rw [← BitVec.toNat_inj, ← BitVec.toNat_inj, toNat_longValue, BitVec.extractLsb'_toNat, BitVec.extractLsb'_toNat,
      Nat.shiftRight_eq_div_pow, hwords.1, hwords.2]
    omega
  rw [ActsAsLong, hx, longValue_eq_iff, and_iff_left (intValue_eq n)]

/-- The `long` of one is the least number that has more than 32 bits. -/
theorem not_actsAsLong_one : (ofLong 1).longValue = 4294967296#64 ∧ ¬ ActsAsLong 1 (ofLong 1) := by
  refine ⟨by decide, ?_⟩
  rintro ⟨hlong, _⟩
  revert hlong
  decide

end Number160

end TomP2P
