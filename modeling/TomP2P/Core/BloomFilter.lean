import TomP2P.Core.Fields

/-!
# Bloom Filters

A Bloom filter as it travels: its size, the number of elements it was made for,
and its bits.

A bit set has no size of its own: it ends with its last bit that is set, and
that is how many bytes it is written with. The filter fills up the rest of its
size with zeros, so reading the bytes back gives the bits with more zeros behind
them, which are the same bit set (`BitSet.fromByteArray_toByteArray`). A set that
has a bit beyond the size of its filter cannot be written.

The number of hash functions follows from the two sizes and is left out.

## Main definitions

* `BitSet`: A bit set, up to its last set bit.
* `BitSet.toByteArray`, `BitSet.fromByteArray`: Bits in bytes.
* `SimpleBloomFilter`: A filter, with `encode` and `decode`.

## Theorems

* `BitSet.fromByteArray_toByteArray`: Bits are read back, zeros behind them or not.
* `SimpleBloomFilter.parses_decode`: A written filter is read back.
-/

namespace TomP2P

open Wire Reader List

/-- A set of numbers as bits. -/
@[ext] structure BitSet where
  bits : List Bool
  /-- The last bit is set. -/
  trimmed : bits.getLast? ≠ some false
  deriving DecidableEq

namespace BitSet

/-- The bits without the zeros at the end. -/
def trim : List Bool → List Bool
  | [] => []
  | b :: bs => if b = false ∧ trim bs = [] then [] else b :: trim bs

theorem trim_getLast? (bs : List Bool) : (trim bs).getLast? ≠ some false := by
  induction bs with
  | nil => simp [trim]
  | cons b bs ih =>
      rw [trim]
      by_cases h : b = false ∧ trim bs = []
      · rw [if_pos h]
        simp
      · rw [if_neg h]
        cases hbs : trim bs with
        | nil => simpa [hbs] using h
        | cons c cs => rwa [hbs] at ih

def ofBits (bs : List Bool) : BitSet := ⟨trim bs, trim_getLast? bs⟩

theorem trim_replicate (n : Nat) : trim (List.replicate n false) = [] := by
  induction n with
  | zero => rfl
  | succ n ih => rw [replicate_succ, trim, if_pos ⟨rfl, ih⟩]

/-- Zeros behind a trimmed list are what trimming removes. -/
theorem trim_append_replicate (bs : List Bool) (n : Nat) (h : bs.getLast? ≠ some false) :
    trim (bs ++ List.replicate n false) = bs := by
  induction bs with
  | nil => exact trim_replicate n
  | cons b bs ih =>
      have htail : bs.getLast? ≠ some false := by
        cases bs with
        | nil => simp
        | cons c cs => simpa using h
      have hkeep : ¬ (b = false ∧ bs = []) := by
        intro hb
        rw [hb.1, hb.2] at h
        exact h rfl
      rw [cons_append, trim, ih htail, if_neg hkeep]

/-- Eight bits in a byte, the first one in the highest place. -/
def packByte (bs : List Bool) : Byte :=
  let bit (i : Nat) : Byte := if bs.getD i false then 1#8 <<< (7 - i) else 0#8
  bit 0 ||| bit 1 ||| bit 2 ||| bit 3 ||| bit 4 ||| bit 5 ||| bit 6 ||| bit 7

def unpackByte (b : Byte) : List Bool :=
  [b.getLsbD 7, b.getLsbD 6, b.getLsbD 5, b.getLsbD 4, b.getLsbD 3, b.getLsbD 2, b.getLsbD 1,
    b.getLsbD 0]

theorem unpackByte_packByte_full :
    ∀ b0 b1 b2 b3 b4 b5 b6 b7 : Bool,
      unpackByte (packByte [b0, b1, b2, b3, b4, b5, b6, b7]) = [b0, b1, b2, b3, b4, b5, b6, b7] := by
  decide

/-- Missing bits are zeros. -/
theorem packByte_append_replicate (bs : List Bool) (n : Nat) :
    packByte (bs ++ List.replicate n false) = packByte bs := by
  have hget (i : Nat) : (bs ++ List.replicate n false).getD i false = bs.getD i false := by
    rw [getD_eq_getElem?_getD, getD_eq_getElem?_getD, getElem?_append]
    by_cases hi : i < bs.length
    · rw [if_pos hi]
    · rw [if_neg hi, getElem?_eq_none (Nat.not_lt.mp hi), getElem?_replicate]
      split <;> rfl
  simp only [packByte, hget]

theorem unpackByte_packByte (bs : List Bool) (h : bs.length ≤ 8) :
    unpackByte (packByte bs) = bs ++ List.replicate (8 - bs.length) false := by
  have hlen : (bs ++ List.replicate (8 - bs.length) false).length = 8 := by
    rw [length_append, length_replicate]
    omega
  rw [← packByte_append_replicate bs (8 - bs.length)]
  match bs ++ List.replicate (8 - bs.length) false, hlen with
  | [b0, b1, b2, b3, b4, b5, b6, b7], _ => exact unpackByte_packByte_full b0 b1 b2 b3 b4 b5 b6 b7

/-- The bits in `n` bytes. -/
def pack : Nat → List Bool → Bytes
  | 0, _ => []
  | n + 1, bs => packByte (bs.take 8) :: pack n (bs.drop 8)

@[simp] theorem length_pack (n : Nat) (bs : List Bool) : (pack n bs).length = n := by
  induction n generalizing bs with
  | zero => rfl
  | succ n ih => rw [pack, length_cons, ih]

theorem pack_nil (n : Nat) : pack n [] = List.replicate n 0#8 := by
  induction n with
  | zero => rfl
  | succ n ih =>
      rw [pack, take_nil, drop_nil, ih, replicate_succ]
      rfl

/-- More bytes than the bits fill are zeros. -/
theorem pack_add (n m : Nat) (bs : List Bool) (h : bs.length ≤ 8 * n) :
    pack (n + m) bs = pack n bs ++ List.replicate m 0#8 := by
  induction n generalizing bs with
  | zero =>
      have hnil : bs = [] := length_eq_zero_iff.mp (by omega)
      rw [hnil, Nat.zero_add, pack_nil]
      rfl
  | succ n ih =>
      rw [Nat.add_right_comm, pack, pack, ih, cons_append]
      rw [length_drop]
      omega

theorem flatMap_unpackByte_pack (n : Nat) (bs : List Bool) (h : bs.length ≤ 8 * n) :
    (pack n bs).flatMap unpackByte = bs ++ List.replicate (8 * n - bs.length) false := by
  induction n generalizing bs with
  | zero =>
      have hnil : bs = [] := length_eq_zero_iff.mp (by omega)
      rw [hnil]
      rfl
  | succ n ih =>
      have hdrop : (bs.drop 8).length ≤ 8 * n := by
        rw [length_drop]
        omega
      have htake : (bs.take 8).length ≤ 8 := length_take_le 8 bs
      rw [pack, flatMap_cons, unpackByte_packByte _ htake, ih _ hdrop]
      by_cases h8 : bs.length ≤ 8
      · rw [take_of_length_le h8, drop_of_length_le h8, nil_append,
          append_assoc, length_nil, replicate_append_replicate]
        congr 2
        omega
      · have hlen : (bs.take 8).length = 8 := length_take_of_le (by omega)
        rw [hlen, Nat.sub_self, replicate_zero, append_nil, ← append_assoc,
          take_append_drop, length_drop]
        congr 2
        omega

def toByteArray (s : BitSet) : Bytes := pack ((s.bits.length + 7) / 8) s.bits

def fromByteArray (bytes : Bytes) : BitSet := ofBits (bytes.flatMap unpackByte)

/-- Bits are read back from their bytes with any number of zeros behind them. -/
theorem fromByteArray_toByteArray (s : BitSet) (n : Nat) :
    fromByteArray (s.toByteArray ++ List.replicate n 0#8) = s := by
  have hlen : s.bits.length ≤ 8 * ((s.bits.length + 7) / 8) := by omega
  rw [fromByteArray, toByteArray, ← pack_add _ n s.bits hlen, ofBits]
  ext1
  simp only
  rw [flatMap_unpackByte_pack _ _ (by omega), trim_append_replicate _ _ s.trimmed]

end BitSet

/-- A Bloom filter of `byteArraySize` bytes. -/
structure SimpleBloomFilter where
  byteArraySize : Int
  expectedElements : BitVec 32
  bitSet : BitSet
  deriving DecidableEq

namespace SimpleBloomFilter

/-- The size of the length field and of the number of elements. -/
def SIZE_HEADER : Int := 6

/-- The size, the number of elements, and the bits filled up with zeros; there
    is no way to write a negative number of zeros. -/
def encode (b : SimpleBloomFilter) : Except JavaException Bytes :=
  let tmp := b.bitSet.toByteArray
  if b.byteArraySize - tmp.length < 0 then .error (.illegalArgument "minWritableBytes")
  else
    .ok (writeShort (BitVec.ofInt 32 (b.byteArraySize + SIZE_HEADER)) ++
      (writeInt b.expectedElements ++
        (tmp ++ List.replicate (b.byteArraySize - tmp.length).toNat 0#8)))

def readBits {σ : Type} (byteArraySize : Int) : Reader JavaException σ BitSet :=
  if 0 < byteArraySize then BitSet.fromByteArray <$> read .indexOutOfBounds byteArraySize.toNat
  else pure (BitSet.ofBits [])

def decode {σ : Type} : Reader JavaException σ SimpleBloomFilter := do
  let size ← readUnsignedShort
  let byteArraySize := (size.toNat : Int) - SIZE_HEADER
  let expectedElements ← readInt
  let bitSet ← readBits byteArraySize
  return ⟨byteArraySize, expectedElements, bitSet⟩

/-- The size fits the length field. -/
def WellFormed (b : SimpleBloomFilter) : Prop := b.byteArraySize + SIZE_HEADER < 2 ^ 16

/-- A filter that was written is read back. -/
theorem parses_decode {σ : Type} (b : SimpleBloomFilter) (v : Bytes) (hwf : b.WellFormed)
    (h : b.encode = .ok v) :
    Parses (decode (σ := σ)) v b ∧
      ∃ w, v = toBE 2 (b.byteArraySize + SIZE_HEADER).toNat ++ w ∧
        (v.length : Int) = b.byteArraySize + SIZE_HEADER := by
  simp only [encode] at h
  by_cases hneg : b.byteArraySize - b.bitSet.toByteArray.length < 0
  · rw [if_pos hneg] at h
    cases h
  · rw [if_neg hneg] at h
    cases h
    rw [WellFormed, SIZE_HEADER] at hwf
    have hsize : (BitVec.ofInt 32 (b.byteArraySize + SIZE_HEADER)).toNat =
        (b.byteArraySize + SIZE_HEADER).toNat := by
      rw [BitVec.toNat_ofInt, SIZE_HEADER]
      omega
    have hfit : (BitVec.ofInt 32 (b.byteArraySize + SIZE_HEADER)).toNat < 2 ^ 16 := by
      rw [hsize, SIZE_HEADER]
      omega
    have hback : ((BitVec.ofInt 32 (b.byteArraySize + SIZE_HEADER)).toNat : Int) - SIZE_HEADER =
        b.byteArraySize := by
      rw [hsize, SIZE_HEADER]
      omega
    have hlen : (b.bitSet.toByteArray ++
        List.replicate (b.byteArraySize - b.bitSet.toByteArray.length).toNat 0#8).length =
          b.byteArraySize.toNat := by
      rw [length_append, length_replicate]
      omega
    have hbits : Parses (readBits (σ := σ) b.byteArraySize) (b.bitSet.toByteArray ++
        List.replicate (b.byteArraySize - b.bitSet.toByteArray.length).toNat 0#8) b.bitSet := by
      rw [readBits]
      have hset := b.bitSet.fromByteArray_toByteArray
        (b.byteArraySize - b.bitSet.toByteArray.length).toNat
      by_cases hpos : 0 < b.byteArraySize
      · rw [if_pos hpos]
        have hread := Parses.read (σ := σ) JavaException.indexOutOfBounds (b.bitSet.toByteArray ++
          List.replicate (b.byteArraySize - b.bitSet.toByteArray.length).toNat 0#8)
        rw [hlen] at hread
        have hret := hread.ret BitSet.fromByteArray
        rwa [hset] at hret
      · have hnil : b.bitSet.toByteArray ++
            List.replicate (b.byteArraySize - b.bitSet.toByteArray.length).toNat 0#8 = [] :=
          length_eq_zero_iff.mp (by omega)
        rw [hnil] at hset
        have hempty : BitSet.ofBits [] = b.bitSet := hset
        rw [if_neg hpos, hnil, hempty]
        exact Parses.pure b.bitSet
    refine ⟨?_, _, by rw [← hsize]; rfl, ?_⟩
    · have hall := (parses_readUnsignedShort (σ := σ) _ hfit).bind
        (k := fun size => do
          let expectedElements ← readInt
          let bitSet ← readBits ((size.toNat : Int) - SIZE_HEADER)
          return (⟨(size.toNat : Int) - SIZE_HEADER, expectedElements, bitSet⟩ : SimpleBloomFilter))
        (w := writeInt b.expectedElements ++ (b.bitSet.toByteArray ++
          List.replicate (b.byteArraySize - b.bitSet.toByteArray.length).toNat 0#8)) (b := b)
      refine hall ?_
      rw [hback]
      exact (parses_readInt b.expectedElements).bind
        (hbits.ret fun bitSet => (⟨b.byteArraySize, b.expectedElements, bitSet⟩ : SimpleBloomFilter))
    · rw [length_append, length_append, hlen, writeShort, writeInt, length_toBE,
        length_toBE, SIZE_HEADER]
      omega

end SimpleBloomFilter

end TomP2P
