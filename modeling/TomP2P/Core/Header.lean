import TomP2P.Core.Message

/-!
# Message Headers

The header of a message: version and type in one number, the id, the command,
the id of the recipient, the types of the contents four bits each, the options
and the address of the sender.

A header is at least `HEADER_SIZE_MIN` bytes long. The address at its end has no
fixed size, so the fields in front of it may be read, and set in the message,
before it turns out that the address is not complete. The caller gives the bytes
back; the fields stay set.

The IP of the sender is replaced by that of the connection. An address without a
socket of the connection's family is dereferenced there.

## Main definitions

* `MessageHeaderCodec.encodeHeader`, `MessageHeaderCodec.decodeHeader`: Writing
  and reading a header.
* `MessageHeaderCodec.encodeContentTypes`,
  `MessageHeaderCodec.decodeContentTypes`: Eight types in a number.

## Theorems

* `MessageHeaderCodec.decodeContentTypes_encodeContentTypes`: The types are read
  back, a missing one as `EMPTY`.
-/

namespace TomP2P

open Wire Reader List

namespace MessageHeaderCodec

def HEADER_SIZE_STATIC : Nat := 34

def HEADER_SIZE_MIN : Nat := HEADER_SIZE_STATIC + PeerAddress.MIN_SIZE_HEADER

/-! ### The types of the contents -/

/-- The number of the type at a place, zero if there is none. -/
def ordinalAt (contentTypes : List (Option Content)) (i : Nat) : BitVec 32 :=
  match contentTypes[i]? with
  | some (some c) => BitVec.ofNat 32 c.ordinal
  | _ => 0#32

def encodeContentTypes (contentTypes : List (Option Content)) : BitVec 32 :=
  (List.range (Message.CONTENT_TYPE_LENGTH / 2)).foldl (fun result i =>
    result ||| (ordinalAt contentTypes (i * 2) <<< (i * 8)) |||
      ((ordinalAt contentTypes (i * 2 + 1) <<< 4) <<< (i * 8))) 0#32

def decodeContentTypesLoop : Nat → BitVec 32 → List Content
  | 0, _ => []
  | n + 1, contentTypes =>
      Content.ofOrdinal (contentTypes &&& 0x0f#32).toNat ::
        decodeContentTypesLoop n (contentTypes >>> 4)

def decodeContentTypes (contentTypes : BitVec 32) : List Content :=
  decodeContentTypesLoop Message.CONTENT_TYPE_LENGTH contentTypes

/-! ### Headers -/

def encodeHeader (m : Message) : Except JavaException Bytes :=
  match m.type, m.recipient, m.sender with
  | some type, some recipient, some sender => do
      let senderBytes ← sender.encode
      return writeInt ((m.version <<< 4) ||| (BitVec.ofNat 32 type.ordinal &&& 0x0f#32)) ++
        (writeInt m.messageId ++ (toBE 1 m.command.toNat ++ (recipient.peerId.encode ++
          (writeInt (encodeContentTypes m.contentTypes) ++ (writeByte m.options ++ senderBytes)))))
  | _, _, _ => .error .nullPointer

/-- The type of a message with this number. -/
def typeOf (versionAndType : BitVec 32) : Except JavaException Message.Type :=
  match Message.Type.values[(versionAndType &&& 0x0f#32).toNat]? with
  | some type => .ok type
  | none => .error .indexOutOfBounds

/-- The IP of the sender is the one its connection has. -/
def seen (senderSocket : InetSocketAddress) (sender : PeerAddress) : Except JavaException PeerAddress :=
  match senderSocket with
  | .v4 ip _ =>
      match sender.ipv4Socket with
      | some psa4 => .ok { sender with ipv4Socket := some { psa4 with ipv4 := some ip } }
      | none => .error .nullPointer
  | .v6 ip _ =>
      match sender.ipv6Socket with
      | some psa6 => .ok { sender with ipv6Socket := some { psa6 with ipv6 := some ip } }
      | none => .error .nullPointer

/-- The fields in front of the address. -/
def decodeFields : Reader JavaException Message Unit := do
  let versionAndType ← readInt
  modify fun m => { m with version := versionAndType >>> 4 }
  let type ← lift (typeOf versionAndType)
  modify fun m => { m with type := some type }
  let messageId ← readInt
  modify fun m => { m with messageId }
  let command ← readUnsignedByte
  let recipientID ← Number160.decode
  modify fun m => { m with command := command.setWidth 8, recipient := some { peerId := recipientID } }
  let contentTypes ← readInt
  modify fun m => { m with
    content := contentTypes != 0#32
    sign := m.sign || (decodeContentTypes contentTypes).contains .PUBLIC_KEY_SIGNATURE
    contentTypes := (decodeContentTypes contentTypes).map some }
  let options ← readUnsignedByte
  modify fun m => { m with options }

/-- Reads a header into a message. Waits if the address is not complete, when the fields in
    front of it are set already. -/
def decodeHeader (recipientSocket senderSocket : InetSocketAddress) : Reader JavaException Message Unit := do
  decodeFields
  let header ← readUnsignedMedium
  need (PeerAddress.size header - PeerAddress.HEADER_SIZE)
  let sender ← PeerAddress.decodeAfter header
  let sender ← lift (seen senderSocket sender)
  modify fun m => { m with
    sender := some sender
    senderSocket := some senderSocket
    recipientSocket := some recipientSocket }

/-! ### Types in a number -/

/-- The number with these digits of four bits, lowest first. -/
def nibbles : List Nat → Nat
  | [] => 0
  | n :: ns => n + 16 * nibbles ns

theorem and_0f (x : BitVec 32) : (x &&& 0x0f#32).toNat = x.toNat % 16 := by
  rw [BitVec.toNat_and]
  exact Nat.and_two_pow_sub_one_eq_mod x.toNat 4

theorem decodeContentTypesLoop_nibbles (cs : List Content) (x : BitVec 32)
    (h : x.toNat = nibbles (cs.map Content.ordinal)) : decodeContentTypesLoop cs.length x = cs := by
  induction cs generalizing x with
  | nil => rfl
  | cons c cs ih =>
      have hc := c.ordinal_lt
      rw [map_cons, nibbles] at h
      have hlow : (x &&& 0x0f#32).toNat = c.ordinal := by
        rw [and_0f]
        omega
      have hhigh : (x >>> 4).toNat = nibbles (cs.map Content.ordinal) := by
        rw [BitVec.toNat_ushiftRight, Nat.shiftRight_eq_div_pow]
        omega
      rw [length_cons, decodeContentTypesLoop, hlow, Content.ofOrdinal_ordinal, ih _ hhigh]

/-- A digit above the others is added to them. -/
theorem or_shiftLeft (a n k : Nat) (ha : a < 2 ^ k) (hn : n < 16) (hk : k + 4 ≤ 32) :
    BitVec.ofNat 32 a ||| (BitVec.ofNat 32 n <<< k) = BitVec.ofNat 32 (a + n * 2 ^ k) := by
  have hsum : a + n * 2 ^ k < 2 ^ 32 := by
    have h1 : n * 2 ^ k ≤ 15 * 2 ^ k := Nat.mul_le_mul_right _ (by omega)
    have h2 : 2 ^ (k + 4) ≤ 2 ^ 32 := Nat.pow_le_pow_right (by decide) hk
    rw [Nat.pow_add] at h2
    omega
  apply BitVec.eq_of_toNat_eq
  rw [BitVec.toNat_or, BitVec.toNat_shiftLeft, BitVec.toNat_ofNat, BitVec.toNat_ofNat,
    BitVec.toNat_ofNat, Nat.mod_eq_of_lt hsum, Nat.mod_eq_of_lt (a := a) (by omega),
    Nat.mod_eq_of_lt (a := n) (by omega), Nat.shiftLeft_eq, Nat.mod_eq_of_lt (a := n * 2 ^ k) (by omega),
    Nat.or_comm, ← Nat.shiftLeft_eq, ← Nat.shiftLeft_add_eq_or_of_lt ha, Nat.add_comm]

/-! ### Types put into a number -/

theorem ordinalAt_eq (contentTypes : List (Option Content)) (i : Nat) (h : i < contentTypes.length) :
    ordinalAt contentTypes i = BitVec.ofNat 32 (contentTypes[i].getD .EMPTY).ordinal := by
  rw [ordinalAt, getElem?_eq_getElem h]
  cases contentTypes[i] <;> rfl

/-- Two more types above those that are there. -/
theorem or_pair (a lo hi i : Nat) (ha : a < 2 ^ (i * 8)) (hlo : lo < 16) (hhi : hi < 16) (hi4 : i < 4) :
    BitVec.ofNat 32 a ||| (BitVec.ofNat 32 lo <<< (i * 8)) ||| ((BitVec.ofNat 32 hi <<< 4) <<< (i * 8)) =
      BitVec.ofNat 32 (a + 2 ^ (i * 8) * (lo + 16 * hi)) := by
  have hpow : 2 ^ (i * 8 + 4) = 2 ^ (i * 8) * 16 := by rw [Nat.pow_add]
  have hlow : a + lo * 2 ^ (i * 8) < 2 ^ (i * 8 + 4) := by
    have hmul : lo * 2 ^ (i * 8) ≤ 15 * 2 ^ (i * 8) := Nat.mul_le_mul_right _ (by omega)
    omega
  rw [or_shiftLeft a lo (i * 8) ha hlo (by omega), ← BitVec.shiftLeft_add, Nat.add_comm 4 (i * 8),
    or_shiftLeft _ hi (i * 8 + 4) hlow hhi (by omega), hpow]
  congr 1
  ring

theorem nibbles_append (xs ys : List Nat) : nibbles (xs ++ ys) = nibbles xs + 16 ^ xs.length * nibbles ys := by
  induction xs with
  | nil => simp [nibbles]
  | cons x xs ih =>
      rw [cons_append, nibbles, nibbles, ih, length_cons, Nat.pow_succ]
      ring

theorem nibbles_lt (xs : List Nat) (h : ∀ x ∈ xs, x < 16) : nibbles xs < 16 ^ xs.length := by
  induction xs with
  | nil => decide
  | cons x xs ih =>
      have hx := h x mem_cons_self
      have hxs := ih fun y hy => h y (mem_cons_of_mem x hy)
      rw [nibbles, length_cons, Nat.pow_succ]
      omega

/-- The types as digits. -/
def ordinals (contentTypes : List (Option Content)) : List Nat := contentTypes.map fun t => (t.getD .EMPTY).ordinal

theorem ordinals_lt {contentTypes : List (Option Content)} : ∀ x ∈ ordinals contentTypes, x < 16 := by
  intro x hx
  rcases mem_map.mp hx with ⟨t, _, rfl⟩
  exact (t.getD .EMPTY).ordinal_lt

/-- Each pass adds two digits. -/
theorem encodeContentTypes_loop (contentTypes : List (Option Content)) (h : contentTypes.length = 8) (n : Nat) (hn : n ≤ 4) :
    (List.range n).foldl (fun result i =>
      result ||| (ordinalAt contentTypes (i * 2) <<< (i * 8)) |||
        ((ordinalAt contentTypes (i * 2 + 1) <<< 4) <<< (i * 8))) 0#32 =
      BitVec.ofNat 32 (nibbles ((ordinals contentTypes).take (2 * n))) := by
  induction n with
  | zero => rfl
  | succ n ih =>
      have hlo : n * 2 < contentTypes.length := by omega
      have hhi : n * 2 + 1 < contentTypes.length := by omega
      have hlen : (ordinals contentTypes).length = 8 := by rw [ordinals, length_map, h]
      have htake : ((ordinals contentTypes).take (2 * n)).length = 2 * n := length_take_of_le (by omega)
      have hlt := nibbles_lt ((ordinals contentTypes).take (2 * n)) fun x hx => ordinals_lt x (mem_of_mem_take hx)
      have hpow : 16 ^ (2 * n) = 2 ^ (n * 8) := by
        rw [show n * 8 = 4 * (2 * n) by omega, Nat.pow_mul 2 4]
      have hget (i : Nat) (hi : i < contentTypes.length) :
          (ordinals contentTypes)[i]? = some ((contentTypes[i].getD .EMPTY).ordinal) := by
        rw [ordinals, getElem?_map, getElem?_eq_getElem hi, Option.map_some]
      have hsplit : (ordinals contentTypes).take (2 * (n + 1)) = (ordinals contentTypes).take (2 * n) ++
          [
            (contentTypes[n * 2].getD .EMPTY).ordinal, (contentTypes[n * 2 + 1].getD .EMPTY).ordinal] := by
        rw [show 2 * (n + 1) = n * 2 + 1 + 1 by omega, take_add_one, take_add_one, hget _ hlo,
          hget _ hhi, Nat.mul_comm 2 n, append_assoc]
        rfl
      rw [htake, hpow] at hlt
      rw [range_succ, foldl_append, ih (by omega), foldl_cons, foldl_nil,
        ordinalAt_eq _ _ hlo, ordinalAt_eq _ _ hhi,
        or_pair _ _ _ n hlt (Content.ordinal_lt _) (Content.ordinal_lt _) (by omega), hsplit, nibbles_append, htake, hpow]
      rfl

/-- Eight types are the digits of their number. -/
theorem toNat_encodeContentTypes (contentTypes : List (Option Content)) (h : contentTypes.length = 8) :
    (encodeContentTypes contentTypes).toNat = nibbles (ordinals contentTypes) := by
  have hlen : (ordinals contentTypes).length = 8 := by rw [ordinals, length_map, h]
  have hlt := nibbles_lt (ordinals contentTypes) ordinals_lt
  have hloop := encodeContentTypes_loop contentTypes h 4 (Nat.le_refl 4)
  rw [take_of_length_le (by omega)] at hloop
  rw [hlen] at hlt
  rw [encodeContentTypes, Message.CONTENT_TYPE_LENGTH, hloop, BitVec.toNat_ofNat, Nat.mod_eq_of_lt (by omega)]

/-- The types are read back, a missing one as `EMPTY`. -/
theorem decodeContentTypes_encodeContentTypes (contentTypes : List (Option Content)) (h : contentTypes.length = 8) :
    decodeContentTypes (encodeContentTypes contentTypes) = contentTypes.map fun t => t.getD .EMPTY := by
  have hback := decodeContentTypesLoop_nibbles (contentTypes.map fun t => t.getD .EMPTY)
    (encodeContentTypes contentTypes) (by rw [toNat_encodeContentTypes _ h, ordinals, map_map]; rfl)
  rwa [length_map, h] at hback

theorem encodeContentTypes_ne_zero {contentTypes : List (Option Content)} (h : contentTypes.length = 8)
    {t : Option Content} (ht : t ∈ contentTypes) (hne : t.getD .EMPTY ≠ .EMPTY) : encodeContentTypes contentTypes ≠ 0#32 := by
  intro hzero
  have hback := decodeContentTypes_encodeContentTypes contentTypes h
  have hempty : decodeContentTypes 0#32 = List.replicate 8 .EMPTY := by decide
  rw [hzero, hempty] at hback
  have hmem : t.getD .EMPTY ∈ contentTypes.map fun t => t.getD .EMPTY :=
    mem_map_of_mem (f := fun t : Option Content => t.getD .EMPTY) ht
  rw [← hback] at hmem
  exact hne (eq_of_mem_replicate hmem)

end MessageHeaderCodec

end TomP2P
