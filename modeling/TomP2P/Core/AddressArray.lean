import TomP2P.Core.Address
import TomP2P.Foundation.ByteArray

/-!
# Peer Addresses in Arrays

The second form of the address codec: an address is written to and read from an
array at an offset. The numbers are taken apart and put together by shifts, and
a key is put together from its last byte on.

The theorems say that this form is the first one: what is written is what the
buffer gets, and what is read is what would be read from a buffer with the same
bytes.

## Main definitions

* `shortToByteArray`, `mediumToByteArray`, `intToByteArray`,
  `longToByteArray`: Numbers into an array.
* `byteArrayToShort`, `byteArrayToMedium`, `byteArrayToInt`,
  `byteArrayToLong`: Numbers from an array.
* `PeerAddress.encodeArray`, `PeerAddress.decodeArray`: Addresses.

## Theorems

* `PeerAddress.storesAs_encodeArray`: Both forms write the same bytes.
* `PeerAddress.readsAt_decodeArray`: Both forms read the same address.
-/

namespace TomP2P

open Wire Reader Effect Outcome List

/-! ### Numbers -/

section Write

/-- The lowest eight bits, after a shift. -/
def byteFrom {w : Nat} (x : BitVec w) (shift : Nat) : Byte := (x >>> shift).setWidth 8

def shortToByteArray (value : BitVec 32) : Bytes → Nat → Except JavaException (Bytes × Nat) :=
  store .indexOutOfBounds [byteFrom value 8, byteFrom value 0]

def mediumToByteArray (value : BitVec 32) : Bytes → Nat → Except JavaException (Bytes × Nat) :=
  store .indexOutOfBounds [byteFrom value 16, byteFrom value 8, byteFrom value 0]

def intToByteArray (value : BitVec 32) : Bytes → Nat → Except JavaException (Bytes × Nat) :=
  store .indexOutOfBounds [byteFrom value 24, byteFrom value 16, byteFrom value 8, byteFrom value 0]

def longToByteArray (longHi longLo : BitVec 64) : Bytes → Nat → Except JavaException (Bytes × Nat) :=
  store .indexOutOfBounds
    [byteFrom longHi 56, byteFrom longHi 48, byteFrom longHi 40, byteFrom longHi 32,
      byteFrom longHi 24, byteFrom longHi 16, byteFrom longHi 8, byteFrom longHi 0,
      byteFrom longLo 56, byteFrom longLo 48, byteFrom longLo 40, byteFrom longLo 32,
      byteFrom longLo 24, byteFrom longLo 16, byteFrom longLo 8, byteFrom longLo 0]

theorem byteFrom_eq {w : Nat} (x : BitVec w) (k : Nat) :
    byteFrom x (8 * k) = BitVec.ofNat 8 (x.toNat / 256 ^ k) := by
  refine BitVec.eq_of_toNat_eq ?_
  rw [byteFrom, BitVec.toNat_setWidth, BitVec.toNat_ushiftRight, Nat.shiftRight_eq_div_pow,
    BitVec.toNat_ofNat, Nat.pow_mul]

/-- A field is the bytes of its number, from the highest shift down. -/
theorem toBE_eq_map {w : Nat} (x : BitVec w) (n : Nat) :
    toBE n x.toNat = (List.range n).reverse.map fun k => byteFrom x (8 * k) := by
  induction n with
  | zero => rfl
  | succ n ih =>
      rw [toBE, ih, range_succ, reverse_append, reverse_singleton, singleton_append,
        map_cons, byteFrom_eq]

theorem stores_shortToByteArray (x : BitVec 32) : Stores (shortToByteArray x) (writeShort x) := by
  rw [writeShort, toBE_eq_map]
  exact stores_store _ _

theorem stores_mediumToByteArray (x : BitVec 32) : Stores (mediumToByteArray x) (writeMedium x) := by
  rw [writeMedium, toBE_eq_map]
  exact stores_store _ _

theorem stores_intToByteArray (x : BitVec 32) : Stores (intToByteArray x) (writeInt x) := by
  rw [writeInt, toBE_eq_map]
  exact stores_store _ _

theorem stores_longToByteArray (hi lo : BitVec 64) :
    Stores (longToByteArray hi lo) (writeLong hi ++ writeLong lo) := by
  rw [writeLong, writeLong, toBE_eq_map, toBE_eq_map]
  exact stores_store _ _

end Write

section Read

/-- A byte of a byte string, without its sign. -/
def unsignedAt (w : Nat) (v : Bytes) (i : Nat) : BitVec w := (v.getD i 0).setWidth w

def byteArrayToShort (b : Bytes) (offset : Nat) : Except JavaException (BitVec 32) := do
  let v ← fetch .indexOutOfBounds 2 b offset
  return (unsignedAt 32 v 0 <<< 8) + unsignedAt 32 v 1

def byteArrayToMedium (b : Bytes) (offset : Nat) : Except JavaException (BitVec 32) := do
  let v ← fetch .indexOutOfBounds 3 b offset
  return (unsignedAt 32 v 0 <<< 16) + (unsignedAt 32 v 1 <<< 8) + unsignedAt 32 v 2

def byteArrayToInt (b : Bytes) (offset : Nat) : Except JavaException (BitVec 32) := do
  let v ← fetch .indexOutOfBounds 4 b offset
  return (unsignedAt 32 v 0 <<< 24) + (unsignedAt 32 v 1 <<< 16) + (unsignedAt 32 v 2 <<< 8) +
    unsignedAt 32 v 3

def byteArrayToLong (b : Bytes) (offset : Nat) : Except JavaException (BitVec 64) := do
  let v ← fetch .indexOutOfBounds 8 b offset
  return (unsignedAt 64 v 0 <<< 56) ||| (unsignedAt 64 v 1 <<< 48) ||| (unsignedAt 64 v 2 <<< 40) |||
    (unsignedAt 64 v 3 <<< 32) ||| (unsignedAt 64 v 4 <<< 24) ||| (unsignedAt 64 v 5 <<< 16) |||
    (unsignedAt 64 v 6 <<< 8) ||| unsignedAt 64 v 7

/-- A number read at an offset, and the offset behind it. -/
def advance {α : Type} (n : Nat) (g : Bytes → Nat → Except JavaException α) (b : Bytes)
    (offset : Nat) : Except JavaException (α × Nat) := do
  let x ← g b offset
  return (x, offset + n)

/-- One more byte at the end shifts what is there. -/
theorem ofNat_ofBE_snoc {w : Nat} (v : Bytes) (x : Byte) :
    BitVec.ofNat w (ofBE (v ++ [x])) = (BitVec.ofNat w (ofBE v) <<< 8) + x.setWidth w := by
  refine BitVec.eq_of_toNat_eq ?_
  rw [ofBE_append]
  simp [ofBE, BitVec.toNat_shiftLeft, Nat.shiftLeft_eq, Nat.add_mod, Nat.mul_mod]

/-- The new byte does not overlap with what is there. -/
theorem shiftLeft_add_eq_or {w : Nat} (a : BitVec w) (x : Byte) :
    (a <<< 8) + x.setWidth w = (a <<< 8) ||| x.setWidth w := by
  refine BitVec.add_eq_or_of_and_eq_zero _ _ (BitVec.eq_of_getLsbD_eq fun i hi => ?_)
  rw [BitVec.getLsbD_and, BitVec.getLsbD_shiftLeft, BitVec.getLsbD_setWidth, BitVec.getLsbD_zero]
  by_cases hlow : i < 8
  · simp [hlow]
  · rw [BitVec.getLsbD_of_ge x i (by omega), Bool.and_false, Bool.and_false]

theorem ofNat_ofBE_singleton {w : Nat} (x : Byte) : BitVec.ofNat w (ofBE [x]) = x.setWidth w := by
  rw [ofBE, ofBE, length_nil, pow_zero, Nat.mul_one, Nat.add_zero]
  exact BitVec.ofNat_toNat w x

theorem short_eq_ofBE (x y : Byte) :
    BitVec.ofNat 32 (ofBE [x, y]) = (x.setWidth 32 <<< 8) + y.setWidth 32 := by
  rw [show [x, y] = [x] ++ [y] from rfl, ofNat_ofBE_snoc, ofNat_ofBE_singleton]

theorem medium_eq_ofBE (x y z : Byte) :
    BitVec.ofNat 32 (ofBE [x, y, z]) =
      (x.setWidth 32 <<< 16) + (y.setWidth 32 <<< 8) + z.setWidth 32 := by
  rw [show [x, y, z] = [x, y] ++ [z] from rfl, ofNat_ofBE_snoc, short_eq_ofBE,
    BitVec.shiftLeft_add_distrib, ← BitVec.shiftLeft_add]

theorem int_eq_ofBE (x y z u : Byte) :
    BitVec.ofNat 32 (ofBE [x, y, z, u]) =
      (x.setWidth 32 <<< 24) + (y.setWidth 32 <<< 16) + (z.setWidth 32 <<< 8) + u.setWidth 32 := by
  rw [show [x, y, z, u] = [x, y, z] ++ [u] from rfl, ofNat_ofBE_snoc, medium_eq_ofBE]
  simp only [BitVec.shiftLeft_add_distrib, ← BitVec.shiftLeft_add]

/-- The same with `|` in the place of `+`. -/
theorem ofNat_ofBE_snoc_or {w : Nat} (v : Bytes) (x : Byte) :
    BitVec.ofNat w (ofBE (v ++ [x])) = (BitVec.ofNat w (ofBE v) <<< 8) ||| x.setWidth w := by
  rw [ofNat_ofBE_snoc, shiftLeft_add_eq_or]

theorem half_eq_ofBE {w : Nat} (a b c d : Byte) :
    BitVec.ofNat w (ofBE [a, b, c, d]) =
      (a.setWidth w <<< 24) ||| (b.setWidth w <<< 16) ||| (c.setWidth w <<< 8) ||| d.setWidth w := by
  rw [show [a, b, c, d] = [a] ++ [b] ++ [c] ++ [d] from rfl, ofNat_ofBE_snoc_or, ofNat_ofBE_snoc_or,
    ofNat_ofBE_snoc_or, ofNat_ofBE_singleton]
  simp only [BitVec.shiftLeft_or_distrib, ← BitVec.shiftLeft_add]

theorem long_eq_ofBE (a b c d e f g h : Byte) :
    BitVec.ofNat 64 (ofBE [a, b, c, d, e, f, g, h]) =
      (a.setWidth 64 <<< 56) ||| (b.setWidth 64 <<< 48) ||| (c.setWidth 64 <<< 40) |||
        (d.setWidth 64 <<< 32) ||| (e.setWidth 64 <<< 24) ||| (f.setWidth 64 <<< 16) |||
        (g.setWidth 64 <<< 8) ||| h.setWidth 64 := by
  rw [show [a, b, c, d, e, f, g, h] = [a, b, c, d] ++ [e] ++ [f] ++ [g] ++ [h] from rfl,
    ofNat_ofBE_snoc_or, ofNat_ofBE_snoc_or, ofNat_ofBE_snoc_or, ofNat_ofBE_snoc_or, half_eq_ofBE]
  simp only [BitVec.shiftLeft_or_distrib, ← BitVec.shiftLeft_add]

variable {σ : Type}

/-- A field whose value is put together from its bytes. -/
theorem readsAt_advance {w : Nat} (n : Nat) (value : Bytes → BitVec w)
    (h : ∀ v, v.length = n → value v = BitVec.ofNat w (ofBE v)) :
    ReadsAt (advance n fun b o => do
      let v ← fetch JavaException.indexOutOfBounds n b o
      return value v) (field JavaException.indexOutOfBounds n w : Reader JavaException σ (BitVec w)) := by
  intro s b o ho
  have hfield := readsAt_field (σ := σ) JavaException.indexOutOfBounds .indexOutOfBounds n w
    (fun _ _ => rfl) s b o ho
  have heq : advance n (fun b o => do
      let v ← fetch JavaException.indexOutOfBounds n b o
      return value v) b o = do
        let v ← fetch JavaException.indexOutOfBounds n b o
        return (BitVec.ofNat w (ofBE v), o + n) := by
    unfold advance
    simp only [fetch_eq JavaException.indexOutOfBounds n b o ho]
    by_cases hshort : (b.drop o).length < n
    · rw [if_pos hshort]
      rfl
    · rw [if_neg hshort]
      have hval := h ((b.drop o).take n) (length_take_of_le (by omega))
      simp only [except_ok_bind, hval]
      rfl
  rw [heq]
  exact hfield

theorem readsAt_short : ReadsAt (advance 2 byteArrayToShort) (readUnsignedShort (σ := σ)) := by
  refine readsAt_advance 2 _ fun v hv => ?_
  match v, hv with
  | [x, y], _ => exact (short_eq_ofBE x y).symm

theorem readsAt_medium : ReadsAt (advance 3 byteArrayToMedium) (readUnsignedMedium (σ := σ)) := by
  refine readsAt_advance 3 _ fun v hv => ?_
  match v, hv with
  | [x, y, z], _ => exact (medium_eq_ofBE x y z).symm

theorem readsAt_int : ReadsAt (advance 4 byteArrayToInt) (readInt (σ := σ)) := by
  refine readsAt_advance 4 _ fun v hv => ?_
  match v, hv with
  | [x, y, z, u], _ => exact (int_eq_ofBE x y z u).symm

theorem readsAt_long : ReadsAt (advance 8 byteArrayToLong) (readLong (σ := σ)) := by
  refine readsAt_advance 8 _ fun v hv => ?_
  match v, hv with
  | [a, b, c, d, e, f, g, h], _ => exact (long_eq_ofBE a b c d e f g h).symm

end Read

/-! ### Keys -/

namespace Number160

/-- Bits are added to one of the words. -/
def orWord (n : Number160) (i : Nat) (x : BitVec 32) : Number160 :=
  match i with
  | 0 => { n with val0 := n.val0 ||| x }
  | 1 => { n with val1 := n.val1 ||| x }
  | 2 => { n with val2 := n.val2 ||| x }
  | 3 => { n with val3 := n.val3 ||| x }
  | 4 => { n with val4 := n.val4 ||| x }
  | _ => n

/-- The number of the first bytes of a byte string, put together from the last
    byte on; `k` counts the bytes that have been used. -/
def ofArrayLoop (val : Bytes) : Nat → Nat → Number160 → Number160
  | 0, _, n => n
  | i + 1, k, n =>
      ofArrayLoop val i (k + 1)
        (n.orWord ((BYTE_ARRAY_SIZE - 1 - k) >>> 2) (unsignedAt 32 val i <<< ((k % 4) <<< 3)))

def decodeArray (me : Bytes) (offset : Nat) : Except JavaException (Number160 × Nat) := do
  let val ← fetch .indexOutOfBounds BYTE_ARRAY_SIZE me offset
  return (ofArrayLoop val BYTE_ARRAY_SIZE 0 ZERO, offset + BYTE_ARRAY_SIZE)

/-- The lowest eight bits after a shift that keeps the sign. -/
def signedByteFrom (x : BitVec 32) (shift : Nat) : Byte := (x.sshiftRight shift).setWidth 8

def wordBytes (x : BitVec 32) : Bytes :=
  [signedByteFrom x 24, signedByteFrom x 16, signedByteFrom x 8, signedByteFrom x 0]

def encodeArray (n : Number160) (me : Bytes) (offset : Nat) : Except JavaException (Bytes × Nat) :=
  if me.length < offset + BYTE_ARRAY_SIZE then .error (.runtime "array too small")
  else store .indexOutOfBounds
    (wordBytes n.val0 ++ (wordBytes n.val1 ++ (wordBytes n.val2 ++ (wordBytes n.val3 ++ wordBytes n.val4))))
    me offset

/-- The sign does not reach the byte that is kept. -/
theorem signedByteFrom_eq (x : BitVec 32) (k : Nat) (hk : k ≤ 24) : signedByteFrom x k = byteFrom x k := by
  refine BitVec.eq_of_getLsbD_eq fun i hi => ?_
  have hlt : k + i < 32 := by omega
  rw [signedByteFrom, byteFrom, BitVec.getLsbD_setWidth, BitVec.getLsbD_setWidth,
    BitVec.getLsbD_sshiftRight, BitVec.getLsbD_ushiftRight]
  simp [hlt, show ¬ 32 ≤ i by omega]

theorem wordBytes_eq (x : BitVec 32) : wordBytes x = writeInt x := by
  rw [wordBytes, signedByteFrom_eq x 24 (by omega), signedByteFrom_eq x 16 (by omega),
    signedByteFrom_eq x 8 (by omega), signedByteFrom_eq x 0 (by omega), writeInt, toBE_eq_map]
  rfl

theorem stores_encodeArray (n : Number160) : Stores n.encodeArray n.encode := by
  have hstore := stores_store JavaException.indexOutOfBounds n.encode
  have hlen := n.length_encode
  have heq (b : Bytes) (o : Nat) : n.encodeArray b o =
      if b.length < o + BYTE_ARRAY_SIZE then .error (.runtime "array too small")
      else store .indexOutOfBounds n.encode b o := by
    unfold encodeArray encode
    simp only [wordBytes_eq]
  refine ⟨?_, ?_⟩
  · intro b o hfits
    rw [heq, if_neg (by omega), hstore.fits b o hfits]
  · intro b o ho hshort
    rw [heq, if_pos (by omega)]
    exact ⟨_, rfl⟩

theorem or_reverse (a b c d : BitVec 32) : 0#32 ||| d ||| c ||| b ||| a = a ||| b ||| c ||| d := by
  rw [BitVec.zero_or]
  ac_rfl

theorem ofArrayLoop_eq (v : Bytes) (h : v.length = BYTE_ARRAY_SIZE) :
    ofArrayLoop v BYTE_ARRAY_SIZE 0 ZERO = ofBytes v := by
  have word (a b c d : Byte) :
      0#32 ||| d.setWidth 32 <<< 0 ||| c.setWidth 32 <<< 8 ||| b.setWidth 32 <<< 16 |||
        a.setWidth 32 <<< 24 = BitVec.ofNat 32 (ofBE [a, b, c, d]) := by
    rw [half_eq_ofBE, BitVec.shiftLeft_zero, or_reverse]
  match v, h with
  | [a0, a1, a2, a3, b0, b1, b2, b3, c0, c1, c2, c3, d0, d1, d2, d3, e0, e1, e2, e3], _ =>
      exact Number160.ext (word a0 a1 a2 a3) (word b0 b1 b2 b3) (word c0 c1 c2 c3)
        (word d0 d1 d2 d3) (word e0 e1 e2 e3)

theorem encode_ofBytes (v : Bytes) (h : v.length = BYTE_ARRAY_SIZE) : (ofBytes v).encode = v := by
  rw [BYTE_ARRAY_SIZE] at h
  have word (u : Bytes) (hu : u.length = 4) : writeInt (BitVec.ofNat 32 (ofBE u)) = u := by
    have hlt : ofBE u < 256 ^ u.length := ofBE_lt u
    rw [hu] at hlt
    rw [writeInt, BitVec.toNat_ofNat, Nat.mod_eq_of_lt (by omega), ← hu]
    exact toBE_ofBE u
  have part (i : Nat) (hi : i < 5) :
      writeInt (BitVec.ofNat 32 (ofBE ((v.drop (4 * i)).take 4))) = (v.drop (4 * i)).take 4 :=
    word _ (by rw [length_take, length_drop]; omega)
  have join (i : Nat) : (v.drop (4 * i)).take 4 ++ v.drop (4 * (i + 1)) = v.drop (4 * i) := by
    rw [Nat.mul_succ, ← drop_drop, take_append_drop]
  have hend : v.drop (4 * 5) = [] := drop_eq_nil_of_le (by omega)
  unfold ofBytes encode
  dsimp only
  rw [part 0 (by omega), part 1 (by omega), part 2 (by omega), part 3 (by omega), part 4 (by omega)]
  -- The parts follow each other up to the end.
  rw [← append_nil ((v.drop (4 * 4)).take 4), ← hend, join 4, join 3, join 2, join 1, join 0]
  rfl

theorem run_decode_short {σ : Type} (s : σ) (b : Bytes) (h : b.length < BYTE_ARRAY_SIZE) :
    ∃ r, (decode (σ := σ)).run s b = .fail .indexOutOfBounds s r := by
  have short (b : Bytes) (hb : b.length < 4) : (readInt (σ := σ)).run s b = .fail .indexOutOfBounds s b := by
    unfold readInt field
    rw [run_bind, run_read, if_pos hb, andThen_fail]
  have long (b : Bytes) (hb : ¬ b.length < 4) :
      ∃ x, (readInt (σ := σ)).run s b = .done x s (b.drop 4) := by
    unfold readInt field
    exact ⟨_, by rw [run_bind, run_read, if_neg hb, andThen_done, run_pure]⟩
  have next {β : Type} (k : BitVec 32 → Reader JavaException σ β) (b : Bytes)
      (hk : ∀ x, 4 ≤ b.length → ∃ r, (k x).run s (b.drop 4) = .fail .indexOutOfBounds s r) :
      ∃ r, (readInt >>= k).run s b = .fail .indexOutOfBounds s r := by
    rw [run_bind]
    by_cases hb : b.length < 4
    · exact ⟨b, by rw [short b hb, andThen_fail]⟩
    · obtain ⟨x, hx⟩ := long b hb
      obtain ⟨r, hr⟩ := hk x (by omega)
      exact ⟨r, by rw [hx, andThen_done, hr]⟩
  rw [BYTE_ARRAY_SIZE] at h
  -- Each word takes four bytes, and the fifth one is not there.
  refine next _ b fun _ h1 => next _ _ fun _ h2 => next _ _ fun _ h3 => next _ _ fun _ h4 =>
    next _ _ fun _ h5 => ?_
  simp only [length_drop] at h1 h2 h3 h4 h5
  omega

theorem readsAt_decodeArray {σ : Type} : ReadsAt decodeArray (decode (σ := σ)) := by
  intro s b o ho
  unfold decodeArray
  rw [fetch_eq JavaException.indexOutOfBounds BYTE_ARRAY_SIZE b o ho]
  by_cases hshort : (b.drop o).length < BYTE_ARRAY_SIZE
  · obtain ⟨r, hr⟩ := run_decode_short s (b.drop o) hshort
    exact .inr ⟨_, _, _, _, hr, by rw [if_pos hshort, except_error_bind]⟩
  · have hlen : ((b.drop o).take BYTE_ARRAY_SIZE).length = BYTE_ARRAY_SIZE :=
      length_take_of_le (by omega)
    have hparse := parses_decode (σ := σ) (ofBytes ((b.drop o).take BYTE_ARRAY_SIZE)) s
      ((b.drop o).drop BYTE_ARRAY_SIZE)
    rw [encode_ofBytes _ hlen, take_append_drop, drop_drop] at hparse
    refine .inl ⟨_, o + BYTE_ARRAY_SIZE, hparse, ?_, by omega, ?_⟩
    · rw [if_neg hshort, except_ok_bind, ofArrayLoop_eq _ hlen]
      rfl
    · rw [length_drop] at hshort
      omega

end Number160

/-! ### Sockets -/

/-- The three ports, one after the other. -/
def encodePortsArray (udpPort tcpPort udtPort : BitVec 32) (array : Bytes) (offset : Nat) :
    Except JavaException (Bytes × Nat) := do
  let (array, offset) ← shortToByteArray udpPort array offset
  let (array, offset) ← shortToByteArray tcpPort array offset
  shortToByteArray udtPort array offset

theorem stores_encodePortsArray (a b c : BitVec 32) :
    Stores (encodePortsArray a b c) (encodePorts a b c) :=
  (stores_shortToByteArray a).append
    ((stores_shortToByteArray b).append (stores_shortToByteArray c))

/-- The address of a socket is written unless it is skipped, and dereferenced if
    it is missing. -/
def encodeIpArray {A : Type} (skipAddress : Bool) (w : A → Bytes → Nat → Except JavaException (Bytes × Nat))
    (ip : Option A) (array : Bytes) (offset : Nat) : Except JavaException (Bytes × Nat) :=
  if skipAddress then .ok (array, offset)
  else
    match ip with
    | none => .error .nullPointer
    | some ip => w ip array offset

/-- The address of a socket is read unless it is skipped. -/
def decodeIpArray {A : Type} (skipAddress : Bool) (g : Bytes → Nat → Except JavaException (A × Nat))
    (array : Bytes) (offset : Nat) : Except JavaException (Option A × Nat) :=
  if skipAddress then .ok (none, offset)
  else do
    let (ip, offset) ← g array offset
    return (some ip, offset)

/-- A socket is written as its address and its ports. -/
theorem storesAs_socket {A : Type} {skip : Bool} {w : A → Bytes → Nat → Except JavaException (Bytes × Nat)}
    (enc : A → Bytes) {ip : Option A} {x : Except JavaException Bytes} {a b c : BitVec 32}
    (hw : ∀ ip, Stores (w ip) (enc ip))
    (hskip : skip = true → x = .ok (encodePorts a b c))
    (hnone : skip = false → ip = none → x = .error .nullPointer)
    (hsome : ∀ y, skip = false → ip = some y → x = .ok (enc y ++ encodePorts a b c)) :
    StoresAs (fun array offset => do
      let (array, offset) ← encodeIpArray skip w ip array offset
      encodePortsArray a b c array offset) x := by
  cases skip with
  | true =>
      rw [hskip rfl]
      exact Stores.nil.append (stores_encodePortsArray a b c)
  | false =>
      cases ip with
      | none =>
          rw [hnone rfl rfl]
          intro _ _ _
          exact ⟨_, rfl⟩
      | some y =>
          rw [hsome y rfl rfl]
          exact (hw y).append (stores_encodePortsArray a b c)

theorem readsAt_decodeIpArray {σ A : Type} (skip : Bool)
    {g : Bytes → Nat → Except JavaException (A × Nat)} {p : Reader JavaException σ A} (h : ReadsAt g p) :
    ReadsAt (decodeIpArray skip g) (decodeIp skip p) := by
  cases skip with
  | true => exact ReadsAt.pure none
  | false => exact h.map some

namespace PeerSocket4Address

def encodeArray (a : PeerSocket4Address) (skipAddress : Bool) (array : Bytes) (offset : Nat) :
    Except JavaException (Bytes × Nat) := do
  let (array, offset) ← encodeIpArray skipAddress intToByteArray a.ipv4 array offset
  encodePortsArray a.udpPort a.tcpPort a.udtPort array offset

def decodeArray (skipAddress : Bool) (array : Bytes) (offset : Nat) :
    Except JavaException (PeerSocket4Address × Nat) := do
  let (ipv4, offset) ← decodeIpArray skipAddress (advance 4 byteArrayToInt) array offset
  let (udpPort, offset) ← advance 2 byteArrayToShort array offset
  let (tcpPort, offset) ← advance 2 byteArrayToShort array offset
  let (udtPort, offset) ← advance 2 byteArrayToShort array offset
  return (⟨ipv4, udpPort, tcpPort, udtPort⟩, offset)

theorem storesAs_encodeArray (a : PeerSocket4Address) (skip : Bool) :
    StoresAs (a.encodeArray skip) (a.encode skip) := by
  refine storesAs_socket writeInt stores_intToByteArray ?_ ?_ ?_
  · intro h
    rw [encode, if_pos h]
  · intro h hip
    rw [encode, hip, h]
    rfl
  · intro y h hip
    rw [encode, hip, h]
    rfl

theorem readsAt_decodeArray {σ : Type} (skip : Bool) :
    ReadsAt (decodeArray skip) (decode (σ := σ) skip) :=
  (readsAt_decodeIpArray skip readsAt_int).bind fun _ => readsAt_short.bind fun _ =>
    readsAt_short.bind fun _ => readsAt_short.bind fun _ => ReadsAt.pure _

end PeerSocket4Address

namespace IPv6

def decodeArray (array : Bytes) (offset : Nat) : Except JavaException (IPv6 × Nat) := do
  let (hi, offset) ← advance 8 byteArrayToLong array offset
  let (lo, offset) ← advance 8 byteArrayToLong array offset
  return (⟨hi, lo⟩, offset)

theorem readsAt_decodeArray {σ : Type} : ReadsAt decodeArray (decode (σ := σ)) :=
  readsAt_long.bind fun _ => readsAt_long.bind fun _ => ReadsAt.pure _

end IPv6

namespace PeerSocket6Address

def encodeArray (a : PeerSocket6Address) (skipAddress : Bool) (array : Bytes) (offset : Nat) :
    Except JavaException (Bytes × Nat) := do
  let (array, offset) ←
    encodeIpArray skipAddress (fun ip => longToByteArray ip.highBits ip.lowBits) a.ipv6 array offset
  encodePortsArray a.udpPort a.tcpPort a.udtPort array offset

def decodeArray (skipAddress : Bool) (array : Bytes) (offset : Nat) :
    Except JavaException (PeerSocket6Address × Nat) := do
  let (ipv6, offset) ← decodeIpArray skipAddress IPv6.decodeArray array offset
  let (udpPort, offset) ← advance 2 byteArrayToShort array offset
  let (tcpPort, offset) ← advance 2 byteArrayToShort array offset
  let (udtPort, offset) ← advance 2 byteArrayToShort array offset
  return (⟨ipv6, udpPort, tcpPort, udtPort⟩, offset)

theorem storesAs_encodeArray (a : PeerSocket6Address) (skip : Bool) :
    StoresAs (a.encodeArray skip) (a.encode skip) := by
  refine storesAs_socket IPv6.encode
    (fun ip => stores_longToByteArray ip.highBits ip.lowBits) ?_ ?_ ?_
  · intro h
    rw [encode, if_pos h]
  · intro h hip
    rw [encode, hip, h]
    rfl
  · intro y h hip
    rw [encode, hip, h]
    rfl

theorem readsAt_decodeArray {σ : Type} (skip : Bool) :
    ReadsAt (decodeArray skip) (decode (σ := σ) skip) :=
  (readsAt_decodeIpArray skip IPv6.readsAt_decodeArray).bind fun _ => readsAt_short.bind fun _ =>
    readsAt_short.bind fun _ => readsAt_short.bind fun _ => ReadsAt.pure _

end PeerSocket6Address

namespace PeerSocketAddress

def encodeArray : PeerSocketAddress → Bytes → Nat → Except JavaException (Bytes × Nat)
  | .v4 a => a.encodeArray false
  | .v6 a => a.encodeArray false

def decodeArray (v6 : Bool) (array : Bytes) (offset : Nat) :
    Except JavaException (PeerSocketAddress × Nat) :=
  if v6 then do
    let (a, offset) ← PeerSocket6Address.decodeArray false array offset
    return (.v6 a, offset)
  else do
    let (a, offset) ← PeerSocket4Address.decodeArray false array offset
    return (.v4 a, offset)

theorem storesAs_encodeArray (a : PeerSocketAddress) : StoresAs a.encodeArray a.encode := by
  cases a with
  | v4 a | v6 a => exact a.storesAs_encodeArray false

theorem readsAt_decodeArray {σ : Type} (v6 : Bool) :
    ReadsAt (decodeArray v6) (decode (σ := σ) v6) := by
  cases v6 with
  | true => exact (PeerSocket6Address.readsAt_decodeArray false).map PeerSocketAddress.v6
  | false => exact (PeerSocket4Address.readsAt_decodeArray false).map PeerSocketAddress.v4

end PeerSocketAddress

/-! ### Addresses -/

namespace PeerAddress

def encodeSocketArray {A : Type} (announced : Bool)
    (w : A → Bytes → Nat → Except JavaException (Bytes × Nat)) (a : Option A) (array : Bytes)
    (offset : Nat) : Except JavaException (Bytes × Nat) :=
  if announced then
    match a with
    | none => .error .nullPointer
    | some a => w a array offset
  else .ok (array, offset)

def decodeSocketArray {A : Type} (announced : Bool) (g : Bytes → Nat → Except JavaException (A × Nat))
    (array : Bytes) (offset : Nat) : Except JavaException (Option A × Nat) :=
  if announced then do
    let (a, offset) ← g array offset
    return (some a, offset)
  else .ok (none, offset)

def encodeArray (a : PeerAddress) (array : Bytes) (offset : Nat) : Except JavaException (Bytes × Nat) := do
  let (array, offset) ← mediumToByteArray a.encodeHeader array offset
  let (array, offset) ← storeEach PeerSocketAddress.encodeArray a.relays array offset
  let (array, offset) ← encodeSocketArray a.ipv4Flag (·.encodeArray a.skipIPv4) a.ipv4Socket array offset
  let (array, offset) ←
    encodeSocketArray a.net4Internal (·.encodeArray false) a.ipInternalSocket array offset
  let (array, offset) ← encodeSocketArray a.ipv6Flag (·.encodeArray a.skipIPv6) a.ipv6Socket array offset
  a.peerId.encodeArray array offset

/-- Reads what follows the header. -/
def decodeArrayAfter (header : BitVec 32) (array : Bytes) (offset : Nat) :
    Except JavaException (PeerAddress × Nat) := do
  let f := Flags.decodeHeader header
  let (relays, offset) ← fetchEach PeerSocketAddress.decodeArray f.relayFamilies array offset
  let (ipv4Socket, offset) ←
    decodeSocketArray f.ipv4Flag (PeerSocket4Address.decodeArray f.skipIPv4) array offset
  let (ipInternalSocket, offset) ←
    decodeSocketArray f.net4Internal (PeerSocket4Address.decodeArray false) array offset
  let (ipv6Socket, offset) ←
    decodeSocketArray f.ipv6Flag (PeerSocket6Address.decodeArray f.skipIPv6) array offset
  let (peerId, offset) ← Number160.decodeArray array offset
  return ({ f with relays, ipv4Socket, ipInternalSocket, ipv6Socket, peerId, hashCode := peerId.hashCode },
    offset)

def decodeArray (array : Bytes) (offset : Nat) : Except JavaException (PeerAddress × Nat) := do
  let (header, offset) ← advance 3 byteArrayToMedium array offset
  decodeArrayAfter header array offset

theorem storesAs_encodeSocketArray {A : Type} {announced : Bool}
    {w : A → Bytes → Nat → Except JavaException (Bytes × Nat)} {enc : A → Except JavaException Bytes}
    (h : ∀ a, StoresAs (w a) (enc a)) (a : Option A) :
    StoresAs (encodeSocketArray announced w a) (encodeSocket announced enc a) := by
  cases announced with
  | false => exact Stores.nil
  | true =>
      cases a with
      | none =>
          intro _ _ _
          exact ⟨_, rfl⟩
      | some a => exact h a

theorem readsAt_decodeSocketArray {σ A : Type} {announced : Bool}
    {g : Bytes → Nat → Except JavaException (A × Nat)} {p : Reader JavaException σ A} (h : ReadsAt g p) :
    ReadsAt (decodeSocketArray announced g) (decodeSocket announced p) := by
  cases announced with
  | false => exact ReadsAt.pure none
  | true => exact h.map some

/-- Writes to a new array of the size the address announces. -/
def encodeNew (a : PeerAddress) : Except JavaException Bytes := do
  let size ← a.ownSize
  if size < 0 then throw .negativeArraySize
  let (array, _) ← a.encodeArray (List.replicate size.toNat 0) 0
  return array

/-- Both forms write the same bytes. -/
theorem storesAs_encodeArray (a : PeerAddress) : StoresAs a.encodeArray a.encode := by
  have hparts : a.encode = combine (.ok (writeMedium a.encodeHeader))
      (combine (encodeAll PeerSocketAddress.encode a.relays)
        (combine (encodeSocket a.ipv4Flag (·.encode a.skipIPv4) a.ipv4Socket)
          (combine (encodeSocket a.net4Internal (·.encode false) a.ipInternalSocket)
            (combine (encodeSocket a.ipv6Flag (·.encode a.skipIPv6) a.ipv6Socket)
              (.ok a.peerId.encode))))) := by
    unfold encode combine
    cases encodeAll PeerSocketAddress.encode a.relays with
    | error e => rfl
    | ok relays =>
        cases encodeSocket a.ipv4Flag (·.encode a.skipIPv4) a.ipv4Socket with
        | error e => rfl
        | ok ipv4 =>
            cases encodeSocket a.net4Internal (·.encode false) a.ipInternalSocket with
            | error e => rfl
            | ok internal =>
                cases encodeSocket a.ipv6Flag (·.encode a.skipIPv6) a.ipv6Socket <;> rfl
  rw [hparts]
  have hheader : StoresAs (mediumToByteArray a.encodeHeader) (.ok (writeMedium a.encodeHeader)) :=
    stores_mediumToByteArray a.encodeHeader
  have hid : StoresAs a.peerId.encodeArray (.ok a.peerId.encode) := a.peerId.stores_encodeArray
  exact hheader.combine <| (StoresAs.each PeerSocketAddress.storesAs_encodeArray a.relays).combine <|
    (storesAs_encodeSocketArray (fun s => s.storesAs_encodeArray a.skipIPv4) _).combine <|
    (storesAs_encodeSocketArray (fun s => s.storesAs_encodeArray false) _).combine <|
    (storesAs_encodeSocketArray (fun s => s.storesAs_encodeArray a.skipIPv6) _).combine hid

/-- Both forms read the same address. -/
theorem readsAt_decodeArray {σ : Type} : ReadsAt decodeArray (decode (σ := σ)) := by
  refine readsAt_medium.bind fun header => ?_
  exact (ReadsAt.each PeerSocketAddress.readsAt_decodeArray _).bind fun _ =>
    (readsAt_decodeSocketArray (PeerSocket4Address.readsAt_decodeArray _)).bind fun _ =>
    (readsAt_decodeSocketArray (PeerSocket4Address.readsAt_decodeArray _)).bind fun _ =>
    (readsAt_decodeSocketArray (PeerSocket6Address.readsAt_decodeArray _)).bind fun _ =>
    Number160.readsAt_decodeArray.bind fun _ => ReadsAt.pure _

end PeerAddress

end TomP2P
