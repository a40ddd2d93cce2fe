import TomP2P.Core.Number
import TomP2P.Core.Signature

/-!
# Fields of the Wire Format

The numbers and keys a buffer is written with and read by. Numbers are of type
`int` or `long` and are written by their low bytes, so a field that is narrower
than its number gives back the number only if that fits.

## Main definitions

* `readInt`, `readLong`, `readUnsignedByte`, `readUnsignedShort`,
  `readUnsignedMedium`: Reading a number.
* `writeInt`, `writeLong`, `writeByte`, `writeShort`, `writeMedium`: Writing it.
* `Number160.encode`, `Number160.decode`, `Number640.encode`,
  `Number640.decode`: Keys.
* `flag`: The bits of a flag.

## Theorems

* `parses_readInt`, `parses_readLong`: Numbers are read back.
* `Number160.parses_decode`, `Number640.parses_decode`: Keys are read back.
-/

namespace TomP2P

open Wire Reader

section Fields

variable {σ : Type}

def readUnsignedByte : Reader JavaException σ (BitVec 32) := field .indexOutOfBounds 1 32

def readUnsignedShort : Reader JavaException σ (BitVec 32) := field .indexOutOfBounds 2 32

def readUnsignedMedium : Reader JavaException σ (BitVec 32) := field .indexOutOfBounds 3 32

def readInt : Reader JavaException σ (BitVec 32) := field .indexOutOfBounds 4 32

def readLong : Reader JavaException σ (BitVec 64) := field .indexOutOfBounds 8 64

def writeByte (x : BitVec 32) : Bytes := toBE 1 x.toNat

def writeShort (x : BitVec 32) : Bytes := toBE 2 x.toNat

def writeMedium (x : BitVec 32) : Bytes := toBE 3 x.toNat

def writeInt (x : BitVec 32) : Bytes := toBE 4 x.toNat

def writeLong (x : BitVec 64) : Bytes := toBE 8 x.toNat

theorem parses_readInt (x : BitVec 32) : Parses (readInt (σ := σ)) (writeInt x) x :=
  Parses.field _ x x.isLt

theorem parses_readLong (x : BitVec 64) : Parses (readLong (σ := σ)) (writeLong x) x :=
  Parses.field _ x x.isLt

theorem parses_readUnsignedShort (x : BitVec 32) (h : x.toNat < 2 ^ 16) :
    Parses (readUnsignedShort (σ := σ)) (writeShort x) x :=
  Parses.field _ x h

theorem parses_readUnsignedByte (x : BitVec 32) (h : x.toNat < 2 ^ 8) :
    Parses (readUnsignedByte (σ := σ)) (writeByte x) x :=
  Parses.field _ x h

theorem parses_readUnsignedMedium (x : BitVec 32) (h : x.toNat < 2 ^ 24) :
    Parses (readUnsignedMedium (σ := σ)) (writeMedium x) x :=
  Parses.field _ x h

end Fields

namespace Number160

def BYTE_ARRAY_SIZE : Nat := 20

def encode (n : Number160) : Bytes :=
  writeInt n.val0 ++ (writeInt n.val1 ++ (writeInt n.val2 ++ (writeInt n.val3 ++ writeInt n.val4)))

def decode {σ : Type} : Reader JavaException σ Number160 := do
  let val0 ← readInt
  let val1 ← readInt
  let val2 ← readInt
  let val3 ← readInt
  let val4 ← readInt
  return ⟨val0, val1, val2, val3, val4⟩

@[simp] theorem length_encode (n : Number160) : n.encode.length = BYTE_ARRAY_SIZE := by
  simp only [encode, writeInt, List.length_append, length_toBE, BYTE_ARRAY_SIZE]

theorem parses_decode {σ : Type} (n : Number160) : Parses (decode (σ := σ)) n.encode n :=
  (parses_readInt n.val0).bind <| (parses_readInt n.val1).bind <| (parses_readInt n.val2).bind <|
    (parses_readInt n.val3).bind <| (parses_readInt n.val4).ret fun val4 =>
      (⟨n.val0, n.val1, n.val2, n.val3, val4⟩ : Number160)

/-- The key in the first 20 bytes of a byte string. -/
def ofBytes (b : Bytes) : Number160 :=
  let word (i : Nat) : BitVec 32 := BitVec.ofNat 32 (ofBE ((b.drop (4 * i)).take 4))
  ⟨word 0, word 1, word 2, word 3, word 4⟩

theorem ofNat_ofBE_writeInt (x : BitVec 32) : BitVec.ofNat 32 (ofBE (writeInt x)) = x := by
  rw [writeInt, ofBE_toBE_of_lt 4 x.toNat x.isLt, BitVec.ofNat_toNat, BitVec.setWidth_eq]

theorem ofBytes_encode_append (n : Number160) (r : Bytes) : ofBytes (n.encode ++ r) = n := by
  have hlen (x : BitVec 32) : (writeInt x).length = 4 := length_toBE 4 x.toNat
  have hword (u w : Bytes) (x : BitVec 32) (i : Nat) (hu : u.length = 4 * i) :
      BitVec.ofNat 32 (ofBE (((u ++ (writeInt x ++ w)).drop (4 * i)).take 4)) = x := by
    rw [List.drop_left' hu, List.take_left' (hlen x), ofNat_ofBE_writeInt]
  have h0 := hword [] (writeInt n.val1 ++ (writeInt n.val2 ++ (writeInt n.val3 ++
    (writeInt n.val4 ++ r)))) n.val0 0 rfl
  have h1 := hword (writeInt n.val0) (writeInt n.val2 ++ (writeInt n.val3 ++ (writeInt n.val4 ++ r)))
    n.val1 1 (hlen _)
  have h2 := hword (writeInt n.val0 ++ writeInt n.val1) (writeInt n.val3 ++ (writeInt n.val4 ++ r))
    n.val2 2 (by simp only [List.length_append, hlen])
  have h3 := hword (writeInt n.val0 ++ writeInt n.val1 ++ writeInt n.val2) (writeInt n.val4 ++ r)
    n.val3 3 (by simp only [List.length_append, hlen])
  have h4 := hword (writeInt n.val0 ++ writeInt n.val1 ++ writeInt n.val2 ++ writeInt n.val3) r
    n.val4 4 (by simp only [List.length_append, hlen])
  simp only [List.append_assoc, List.nil_append] at h0 h1 h2 h3 h4
  simp only [ofBytes, encode, List.append_assoc, h0, h1, h2, h3, h4]

end Number160

namespace Number640

/-- The four parts of a key, one after the other. -/
def encode (k : Number640) : Bytes :=
  k.locationKey.encode ++ (k.domainKey.encode ++ (k.contentKey.encode ++ k.versionKey.encode))

def decode {σ : Type} : Reader JavaException σ Number640 := do
  let locationKey ← Number160.decode
  let domainKey ← Number160.decode
  let contentKey ← Number160.decode
  let versionKey ← Number160.decode
  return ⟨locationKey, domainKey, contentKey, versionKey⟩

@[simp] theorem length_encode (k : Number640) : k.encode.length = 80 := by
  simp only [encode, List.length_append, Number160.length_encode, Number160.BYTE_ARRAY_SIZE]

theorem parses_decode {σ : Type} (k : Number640) : Parses (decode (σ := σ)) k.encode k :=
  (Number160.parses_decode k.locationKey).bind <| (Number160.parses_decode k.domainKey).bind <|
    (Number160.parses_decode k.contentKey).bind <|
      (Number160.parses_decode k.versionKey).ret fun versionKey =>
        (⟨k.locationKey, k.domainKey, k.contentKey, versionKey⟩ : Number640)

end Number640

/-! ### Flags in a number -/

/-- The bits of a flag that is set. -/
def flag (b : Bool) (bits : BitVec 32) : BitVec 32 := if b then bits else 0#32

theorem flag_and (b : Bool) (bits m : BitVec 32) : flag b bits &&& m = flag b (bits &&& m) := by
  cases b with
  | true => rfl
  | false => exact BitVec.zero_and

@[simp] theorem flag_zero (b : Bool) : flag b 0#32 = 0#32 := by
  cases b <;> rfl

theorem flag_beq (b : Bool) (bits : BitVec 32) (h : bits ≠ 0#32) : (flag b bits == bits) = b := by
  cases b with
  | true => exact beq_self_eq_true bits
  | false => exact beq_eq_false_iff_ne.mpr h.symm

end TomP2P
