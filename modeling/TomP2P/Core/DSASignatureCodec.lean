import TomP2P.Core.AddressArray

/-!
# Signatures of DSA

A signature of DSA is a pair of numbers of 160 bits. The signature algorithm hands it
out and takes it as a sequence of two integers; on the wire it is two times 20 bytes.

From a sequence the two numbers are picked out byte by byte; bytes in front of the last
20 of a number have to be zero. The other way each number is put into 20 bytes, whatever
it is.

## Main definitions

* `Number160.ofByteArray`: The number in a part of an array.
* `DSASignatureCodec`: A signature.
* `DSASignatureCodec.ofEncoded`, `DSASignatureCodec.encode`: From and to a sequence of
  two integers.
* `DSASignatureCodec.ofBuffer`, `DSASignatureCodec.write`: From and to the wire.

## Theorems

* `Number160.toNat_ofByteArray`: The number is that of the bytes.
* `DSASignatureCodec.parses_ofBuffer`: A written signature is read back.
-/

namespace TomP2P

open Wire Reader List

namespace Number160

/-- The number in the bytes of an array from an offset on. -/
def ofByteArray (val : Bytes) (offset length : Nat) : Except JavaException Number160 :=
  if BYTE_ARRAY_SIZE < length then
    .error (.illegalArgument ("Can only deal with byte arrays of size smaller or equal to " ++
      toString BYTE_ARRAY_SIZE ++ ". Provided array has " ++ toString length ++ " length."))
  else do
    let bytes ← fetch .indexOutOfBounds length val offset
    return ofArrayLoop bytes length 0 ZERO

def toByteArray (n : Number160) : Bytes := n.words.flatMap wordBytes

theorem toByteArray_eq (n : Number160) : n.toByteArray = n.encode := by
  simp only [toByteArray, words, flatMap_cons, flatMap_nil, append_nil, wordBytes_eq,
    encode]

/-- The bytes in front of a part do not matter for it. -/
theorem ofArrayLoop_append (u v : Bytes) (i k : Nat) (n : Number160) (h : i ≤ v.length) :
    ofArrayLoop (u ++ v) (u.length + i) k n =
      ofArrayLoop (u ++ v) u.length (k + i) (ofArrayLoop v i k n) := by
  induction i generalizing k n with
  | zero => rfl
  | succ i ih =>
      have hbyte : unsignedAt 32 (u ++ v) (u.length + i) = unsignedAt 32 v i := by
        rw [unsignedAt, unsignedAt, getD_append_right _ _ _ _ (Nat.le_add_right _ _),
          Nat.add_sub_cancel_left]
      rw [← Nat.add_assoc, ofArrayLoop, ofArrayLoop, hbyte, ih _ _ (by omega)]
      congr 1
      omega

theorem orWord_zero (n : Number160) (i : Nat) : n.orWord i 0#32 = n := by
  unfold orWord
  split <;> simp

/-- Zeros in front add nothing. -/
theorem ofArrayLoop_zeros (v : Bytes) (m i k : Nat) (n : Number160) (h : i ≤ m) :
    ofArrayLoop (List.replicate m 0#8 ++ v) i k n = n := by
  induction i generalizing k n with
  | zero => rfl
  | succ i ih =>
      have hbyte : unsignedAt 32 (List.replicate m 0#8 ++ v) i = 0#32 := by
        rw [unsignedAt, getD_append _ _ _ _ (by rw [length_replicate]; omega),
          getD_replicate _ (by omega)]
        rfl
      rw [ofArrayLoop, hbyte, BitVec.zero_shiftLeft, orWord_zero, ih _ _ (by omega)]

theorem ofBE_encode (n : Number160) : ofBE n.encode = n.toNat := by
  have hword (x : BitVec 32) : ofBE (writeInt x) = x.toNat := ofBE_toBE_of_lt 4 x.toNat x.isLt
  have hlen (x : BitVec 32) : (writeInt x).length = 4 := length_toBE 4 x.toNat
  simp only [encode, ofBE_append, hword, length_append, hlen, toNat]
  omega

/-- Up to 20 bytes are the number they stand for. -/
theorem toNat_ofArrayLoop (v : Bytes) (h : v.length ≤ BYTE_ARRAY_SIZE) :
    (ofArrayLoop v v.length 0 ZERO).toNat = ofBE v := by
  have hlen : (List.replicate (BYTE_ARRAY_SIZE - v.length) 0#8 ++ v).length = BYTE_ARRAY_SIZE := by
    rw [length_append, length_replicate]
    omega
  have hall := ofArrayLoop_eq _ hlen
  have happ := ofArrayLoop_append (List.replicate (BYTE_ARRAY_SIZE - v.length) 0#8) v v.length 0 ZERO
    (Nat.le_refl _)
  have hsum : (List.replicate (BYTE_ARRAY_SIZE - v.length) 0#8).length + v.length = BYTE_ARRAY_SIZE := by
    rw [length_replicate]
    omega
  rw [hsum, ofArrayLoop_zeros v _ _ _ _ (Nat.le_of_eq length_replicate)] at happ
  have hzeros (m : Nat) : ofBE (List.replicate m 0#8) = 0 := by
    induction m with
    | zero => rfl
    | succ m ih =>
        rw [replicate_succ, ofBE, ih]
        simp
  rw [← happ, hall, ← ofBE_encode, encode_ofBytes _ hlen, ofBE_append, hzeros, Nat.zero_mul, Nat.zero_add]

/-- The number of a part of an array of at most 20 bytes. -/
theorem toNat_ofByteArray (u v w : Bytes) (h : v.length ≤ BYTE_ARRAY_SIZE) :
    ∃ n, ofByteArray (u ++ (v ++ w)) u.length v.length = .ok n ∧ n.toNat = ofBE v := by
  have hdrop : (u ++ (v ++ w)).drop u.length = v ++ w := drop_left' rfl
  have hlong : ¬ (v ++ w).length < v.length := by
    rw [length_append]
    omega
  refine ⟨ofArrayLoop v v.length 0 ZERO, ?_, toNat_ofArrayLoop v h⟩
  rw [ofByteArray, if_neg (Nat.not_lt.mpr h), fetch_eq _ _ _ _ (by rw [length_append]; omega),
    hdrop, if_neg hlong, take_left' rfl]
  rfl

end Number160

/-- A signature of DSA. -/
structure DSASignatureCodec where
  number1 : Number160
  number2 : Number160
  deriving DecidableEq

namespace DSASignatureCodec

/-- Why bytes are not taken for a signature: what they say, or where they end. -/
inductive Failure
  | io (message : String)
  | java (e : JavaException)
  deriving DecidableEq

/-! ### The sequence of two integers -/

def byteAt (encodedData : Bytes) (i : Nat) : Except Failure Byte :=
  match encodedData[i]? with
  | none => .error (.java .indexOutOfBounds)
  | some b => .ok b

/-- A tag stands where it is expected. -/
def expect (tag : Byte) (encodedData : Bytes) (i : Nat) : Except Failure Unit := do
  let b ← byteAt encodedData i
  if b ≠ tag then
    .error (.io ("expected sequence with value " ++ toString tag.toNat ++ ", but got " ++ toString b.toInt))
  else return ()

/-- A length of one byte. -/
def lengthAt (what : String) (encodedData : Bytes) (i : Nat) : Except Failure Nat := do
  let b ← byteAt encodedData i
  if b.toInt < 0 then
    .error (.io ("cannot handle " ++ what ++ " length > than 127, got " ++ toString b.toInt))
  else return b.toNat

/-- Bytes that do not fit are zero. -/
def checkBias (encodedData : Bytes) : Nat → Nat → Except Failure Unit
  | _, 0 => .ok ()
  | offset, bias + 1 => do
      let b ← byteAt encodedData offset
      if b ≠ 0 then .error (.io "we did not expect such a large number, it should be 160bit")
      else checkBias encodedData (offset + 1) bias

def number160 (encodedData : Bytes) (offset len : Nat) : Except Failure Number160 :=
  match Number160.ofByteArray encodedData offset len with
  | .error e => .error (.java e)
  | .ok n => .ok n

def encodeNumber (encodedData : Bytes) (offset len : Nat) : Except Failure Number160 :=
  if 20 < len then do
    checkBias encodedData offset (len - 20)
    number160 encodedData (offset + (len - 20)) 20
  else number160 encodedData offset len

/-- The signature in a sequence of two integers. -/
def ofEncoded (encodedData : Bytes) : Except Failure DSASignatureCodec := do
  expect 0x30#8 encodedData 0
  let _ ← lengthAt "seq" encodedData 1
  expect 0x02#8 encodedData 2
  let intLen1 ← lengthAt "int" encodedData 3
  let number1 ← encodeNumber encodedData 4 intLen1
  expect 0x02#8 encodedData (4 + intLen1)
  let intLen2 ← lengthAt "int" encodedData (5 + intLen1)
  let number2 ← encodeNumber encodedData (6 + intLen1) intLen2
  return ⟨number1, number2⟩

/-- The signature as a sequence of two integers of 20 bytes each. -/
def encode (c : DSASignatureCodec) : Bytes :=
  0x30#8 :: 44#8 :: 0x02#8 :: 20#8 :: (c.number1.toByteArray ++
    0x02#8 :: 20#8 :: c.number2.toByteArray)

/-! ### The wire -/

def write (c : DSASignatureCodec) : Bytes := c.number1.toByteArray ++ c.number2.toByteArray

/-- The signature in the next 40 bytes of a buffer. -/
def ofBuffer {σ : Type} : Reader JavaException σ DSASignatureCodec := do
  let me ← read .indexOutOfBounds Number160.BYTE_ARRAY_SIZE
  let number1 ← lift (Number160.ofByteArray me 0 me.length)
  let me ← read .indexOutOfBounds Number160.BYTE_ARRAY_SIZE
  let number2 ← lift (Number160.ofByteArray me 0 me.length)
  return ⟨number1, number2⟩

/-- A number is read back from its 20 bytes. -/
theorem ofByteArray_toByteArray (n : Number160) :
    Number160.ofByteArray n.toByteArray 0 n.toByteArray.length = .ok n := by
  have hlen : n.toByteArray.length = Number160.BYTE_ARRAY_SIZE := by
    rw [Number160.toByteArray_eq, Number160.length_encode]
  obtain ⟨n', hn', hval⟩ := Number160.toNat_ofByteArray [] n.toByteArray [] (Nat.le_of_eq hlen)
  have hsame : n' = n := by
    rw [Number160.toByteArray_eq, Number160.ofBE_encode] at hval
    exact Number160.toNat_injective hval
  rwa [nil_append, append_nil, hsame] at hn'

/-- A written signature is read back. -/
theorem parses_ofBuffer {σ : Type} (c : DSASignatureCodec) : Parses (ofBuffer (σ := σ)) c.write c := by
  have hbytes (n : Number160) : Parses (σ := σ)
      (read JavaException.indexOutOfBounds Number160.BYTE_ARRAY_SIZE) n.toByteArray n.toByteArray := by
    have hlen : n.toByteArray.length = Number160.BYTE_ARRAY_SIZE := by
      rw [Number160.toByteArray_eq, Number160.length_encode]
    rw [← hlen]
    exact Parses.read _ _
  have hnumber (n : Number160) : Parses (σ := σ)
      (lift (Number160.ofByteArray n.toByteArray 0 n.toByteArray.length) : Reader JavaException σ _)
      [] n := by
    intro s rest
    rw [ofByteArray_toByteArray, run_lift_ok, nil_append]
  have hfields : c.write = c.number1.toByteArray ++ ([] ++ (c.number2.toByteArray ++ [])) := by
    rw [write, append_nil, nil_append]
  rw [hfields]
  exact Parses.bind (hbytes c.number1) (Parses.bind (hnumber c.number1)
    (Parses.bind (hbytes c.number2) (Parses.ret (DSASignatureCodec.mk c.number1) (hnumber c.number2))))

end DSASignatureCodec

end TomP2P
