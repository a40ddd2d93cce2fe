import TomP2P.Core.Fields
import TomP2P.Foundation.Effect

/-!
# Peer Addresses

What a peer is known by on the wire: its id, the sockets it can be reached at,
and the relays that stand in for it.

An address starts with three bytes of flags. They say which sockets follow and
which of the relays are IPv6, so the size of the whole can be computed from them
alone (`PeerAddress.Flags.size`) before the rest has arrived. A socket whose skip
flag is set travels without its IP, which the receiver takes from the
connection. Hole punching and slowness share one field, whose fourth value means
neither.

The fields of an address can be set one by one, so not every address says the
same in its flags and in its sockets. `PeerAddress.WellFormed` is what has to
agree for an address to arrive, and `PeerAddress.transferred` is what arrives.

## Main definitions

* `PeerSocket4Address`, `PeerSocket6Address`, `PeerSocketAddress`: Sockets.
* `PeerAddress.Flags`: The three bytes in front.
* `PeerAddress`: An address.
* `PeerAddress.key`: What a map knows an address by.
* `PeerAddress.encode`, `PeerAddress.decode`: Writing and reading.
* `PeerAddress.WellFormed`, `PeerAddress.transferred`: What arrives.

## Theorems

* `PeerAddress.Flags.decodeHeader_encodeHeader`: The flags are read back.
* `PeerAddress.parses_decode`: A written address is read back.
* `PeerAddress.length_encode_eq_size`: An address has the size its header
  announces.
-/

namespace TomP2P

open Wire Reader Effect

/-! ### Sockets -/

/-- An IPv6 address. -/
structure IPv6 where
  highBits : BitVec 64
  lowBits : BitVec 64
  deriving DecidableEq

namespace IPv6

def encode (ip : IPv6) : Bytes := writeLong ip.highBits ++ writeLong ip.lowBits

def decode {σ : Type} : Reader JavaException σ IPv6 := do
  let highBits ← readLong
  let lowBits ← readLong
  return ⟨highBits, lowBits⟩

theorem parses_decode {σ : Type} (ip : IPv6) : Parses (decode (σ := σ)) ip.encode ip :=
  (parses_readLong ip.highBits).bind <|
    (parses_readLong ip.lowBits).ret fun lowBits => (⟨ip.highBits, lowBits⟩ : IPv6)

end IPv6

/-- An IPv4 address with its ports. The address may be missing; the ports are
    of type `int`. -/
@[ext] structure PeerSocket4Address where
  ipv4 : Option (BitVec 32)
  udpPort : BitVec 32
  tcpPort : BitVec 32
  udtPort : BitVec 32
  deriving DecidableEq

/-- An IPv6 address with its ports. -/
@[ext] structure PeerSocket6Address where
  ipv6 : Option IPv6
  udpPort : BitVec 32
  tcpPort : BitVec 32
  udtPort : BitVec 32
  deriving DecidableEq

/-- A socket of either family. -/
inductive PeerSocketAddress
  | v4 (a : PeerSocket4Address)
  | v6 (a : PeerSocket6Address)
  deriving DecidableEq

/-- The size of the three ports. -/
def PeerSocketAddress.PORT_SIZE : Nat := 6

/-- The three ports, of which the low 16 bits are written. -/
def encodePorts (udpPort tcpPort udtPort : BitVec 32) : Bytes :=
  writeShort udpPort ++ (writeShort tcpPort ++ writeShort udtPort)

/-- The ports fit their fields. -/
def PortsFit (udpPort tcpPort udtPort : BitVec 32) : Prop :=
  udpPort.toNat < 2 ^ 16 ∧ tcpPort.toNat < 2 ^ 16 ∧ udtPort.toNat < 2 ^ 16

instance (a b c : BitVec 32) : Decidable (PortsFit a b c) :=
  inferInstanceAs (Decidable (_ ∧ _ ∧ _))

@[simp] theorem length_encodePorts (a b c : BitVec 32) :
    (encodePorts a b c).length = PeerSocketAddress.PORT_SIZE := by
  simp only [encodePorts, writeShort, List.length_append, length_toBE, PeerSocketAddress.PORT_SIZE]

/-- The address of a socket is read unless it is skipped. -/
def decodeIp {σ A : Type} (skipAddress : Bool) (p : Reader JavaException σ A) :
    Reader JavaException σ (Option A) :=
  if skipAddress then pure none else some <$> p

namespace PeerSocket4Address

def SIZE : Nat := PeerSocketAddress.PORT_SIZE + 4

def encode (a : PeerSocket4Address) (skipAddress : Bool) : Except JavaException Bytes :=
  if skipAddress then .ok (encodePorts a.udpPort a.tcpPort a.udtPort)
  else
    match a.ipv4 with
    | none => .error .nullPointer
    | some ip => .ok (writeInt ip ++ encodePorts a.udpPort a.tcpPort a.udtPort)

def decode {σ : Type} (skipAddress : Bool) : Reader JavaException σ PeerSocket4Address := do
  let ipv4 ← decodeIp skipAddress readInt
  let udpPort ← readUnsignedShort
  let tcpPort ← readUnsignedShort
  let udtPort ← readUnsignedShort
  return ⟨ipv4, udpPort, tcpPort, udtPort⟩

/-- The socket as it arrives: without its address if that was skipped. -/
def transferred (a : PeerSocket4Address) (skipAddress : Bool) : PeerSocket4Address :=
  if skipAddress then { a with ipv4 := none } else a

def WellFormed (a : PeerSocket4Address) : Prop := PortsFit a.udpPort a.tcpPort a.udtPort

instance (a : PeerSocket4Address) : Decidable a.WellFormed := inferInstanceAs (Decidable (PortsFit ..))

end PeerSocket4Address

namespace PeerSocket6Address

def SIZE : Nat := PeerSocketAddress.PORT_SIZE + 16

def encode (a : PeerSocket6Address) (skipAddress : Bool) : Except JavaException Bytes :=
  if skipAddress then .ok (encodePorts a.udpPort a.tcpPort a.udtPort)
  else
    match a.ipv6 with
    | none => .error .nullPointer
    | some ip => .ok (ip.encode ++ encodePorts a.udpPort a.tcpPort a.udtPort)

def decode {σ : Type} (skipAddress : Bool) : Reader JavaException σ PeerSocket6Address := do
  let ipv6 ← decodeIp skipAddress IPv6.decode
  let udpPort ← readUnsignedShort
  let tcpPort ← readUnsignedShort
  let udtPort ← readUnsignedShort
  return ⟨ipv6, udpPort, tcpPort, udtPort⟩

def transferred (a : PeerSocket6Address) (skipAddress : Bool) : PeerSocket6Address :=
  if skipAddress then { a with ipv6 := none } else a

def WellFormed (a : PeerSocket6Address) : Prop := PortsFit a.udpPort a.tcpPort a.udtPort

end PeerSocket6Address

/-- Ports that fit are read back, and `f` is applied to them. -/
theorem parses_ports {σ β : Type} {udpPort tcpPort udtPort : BitVec 32}
    (h : PortsFit udpPort tcpPort udtPort) (f : BitVec 32 → BitVec 32 → BitVec 32 → β) :
    Parses (σ := σ) (do
      let udpPort ← readUnsignedShort
      let tcpPort ← readUnsignedShort
      let udtPort ← readUnsignedShort
      return f udpPort tcpPort udtPort)
      (encodePorts udpPort tcpPort udtPort) (f udpPort tcpPort udtPort) :=
  (parses_readUnsignedShort udpPort h.1).bind <| (parses_readUnsignedShort tcpPort h.2.1).bind <|
    (parses_readUnsignedShort udtPort h.2.2).ret fun udtPort => f udpPort tcpPort udtPort

theorem PeerSocket4Address.parses_decode {σ : Type} (a : PeerSocket4Address) (skip : Bool)
    (v : Bytes) (hwf : a.WellFormed) (h : a.encode skip = .ok v) :
    Parses (decode (σ := σ) skip) v (a.transferred skip) := by
  cases skip with
  | true =>
      cases h
      exact (Parses.pure none).bind (parses_ports hwf fun x y z => (⟨none, x, y, z⟩ : PeerSocket4Address))
  | false =>
      rcases a with ⟨ipv4, udpPort, tcpPort, udtPort⟩
      cases ipv4 with
      | none => cases h
      | some ip =>
          cases h
          exact ((parses_readInt ip).ret some).bind
            (parses_ports hwf fun x y z => (⟨some ip, x, y, z⟩ : PeerSocket4Address))

theorem PeerSocket6Address.parses_decode {σ : Type} (a : PeerSocket6Address) (skip : Bool)
    (v : Bytes) (hwf : a.WellFormed) (h : a.encode skip = .ok v) :
    Parses (decode (σ := σ) skip) v (a.transferred skip) := by
  cases skip with
  | true =>
      cases h
      exact (Parses.pure none).bind (parses_ports hwf fun x y z => (⟨none, x, y, z⟩ : PeerSocket6Address))
  | false =>
      rcases a with ⟨ipv6, udpPort, tcpPort, udtPort⟩
      cases ipv6 with
      | none => cases h
      | some ip =>
          cases h
          exact (ip.parses_decode.ret some).bind
            (parses_ports hwf fun x y z => (⟨some ip, x, y, z⟩ : PeerSocket6Address))

theorem PeerSocket4Address.length_encode (a : PeerSocket4Address) (skip : Bool) (v : Bytes)
    (h : a.encode skip = .ok v) :
    v.length = if skip then PeerSocketAddress.PORT_SIZE else SIZE := by
  cases skip with
  | true =>
      cases h
      exact length_encodePorts _ _ _
  | false =>
      rcases a with ⟨ipv4, udpPort, tcpPort, udtPort⟩
      cases ipv4 with
      | none => cases h
      | some ip =>
          cases h
          rw [List.length_append, length_encodePorts, writeInt, length_toBE]
          rfl

theorem PeerSocket6Address.length_encode (a : PeerSocket6Address) (skip : Bool) (v : Bytes)
    (h : a.encode skip = .ok v) :
    v.length = if skip then PeerSocketAddress.PORT_SIZE else SIZE := by
  cases skip with
  | true =>
      cases h
      exact length_encodePorts _ _ _
  | false =>
      rcases a with ⟨ipv6, udpPort, tcpPort, udtPort⟩
      cases ipv6 with
      | none => cases h
      | some ip =>
          cases h
          rw [List.length_append, IPv6.encode, List.length_append, length_encodePorts, writeLong,
            writeLong, length_toBE, length_toBE]
          rfl

namespace PeerSocketAddress

def isV6 : PeerSocketAddress → Bool
  | .v4 _ => false
  | .v6 _ => true

/-- Whether the address is there. -/
def hasIp : PeerSocketAddress → Bool
  | .v4 a => a.ipv4.isSome
  | .v6 a => a.ipv6.isSome

def encode : PeerSocketAddress → Except JavaException Bytes
  | .v4 a => a.encode false
  | .v6 a => a.encode false

/-- Reads a socket of the family announced. -/
def decode {σ : Type} (v6 : Bool) : Reader JavaException σ PeerSocketAddress :=
  if v6 then .v6 <$> PeerSocket6Address.decode false
  else .v4 <$> PeerSocket4Address.decode false

def WellFormed : PeerSocketAddress → Prop
  | .v4 a => a.WellFormed
  | .v6 a => a.WellFormed

theorem parses_decode {σ : Type} (a : PeerSocketAddress) (v : Bytes) (hwf : a.WellFormed)
    (h : a.encode = .ok v) : Parses (decode (σ := σ) a.isV6) v a := by
  cases a with
  | v4 a => exact (a.parses_decode false v hwf h).ret PeerSocketAddress.v4
  | v6 a => exact (a.parses_decode false v hwf h).ret PeerSocketAddress.v6

theorem length_encode (a : PeerSocketAddress) (v : Bytes) (h : a.encode = .ok v) :
    v.length = if a.isV6 then PeerSocket6Address.SIZE else PeerSocket4Address.SIZE := by
  cases a with
  | v4 a | v6 a => exact a.length_encode false v h

end PeerSocketAddress

/-! ### Flags -/

/-- What the three bytes in front of an address say. The set of relay types is
    the number with its bits, and may be missing. -/
@[ext] structure PeerAddress.Flags where
  ipv4Flag : Bool := false
  ipv6Flag : Bool := false
  reachable4UDP : Bool := false
  reachable4TCP : Bool := false
  reachable4UDT : Bool := false
  reachable6UDP : Bool := false
  reachable6TCP : Bool := false
  reachable6UDT : Bool := false
  relaySize : BitVec 32 := 0
  holePunching : Bool := false
  slow : Bool := false
  unreachable : Bool := false
  net4Internal : Bool := false
  skipIPv4 : Bool := false
  skipIPv6 : Bool := false
  relayTypes : Option Nat := none
  deriving DecidableEq

namespace PeerAddress

def HEADER_SIZE : Nat := 3

def MIN_SIZE : Nat := HEADER_SIZE + Number160.BYTE_ARRAY_SIZE

def MIN_SIZE_HEADER : Nat := MIN_SIZE + 6

@[simp] def IPV4 : BitVec 32 := 0x1#32
@[simp] def IPV6 : BitVec 32 := 0x2#32
@[simp] def REACHABLE4_UDP : BitVec 32 := 0x4#32
@[simp] def REACHABLE4_TCP : BitVec 32 := 0x8#32
@[simp] def REACHABLE4_UDT : BitVec 32 := 0x10#32
@[simp] def REACHABLE6_UDP : BitVec 32 := 0x20#32
@[simp] def REACHABLE6_TCP : BitVec 32 := 0x40#32
@[simp] def REACHABLE6_UDT : BitVec 32 := 0x80#32
@[simp] def RELAY_SIZE_MASK : BitVec 32 := 0x700#32
@[simp] def HOLE_PUNCHING : BitVec 32 := 0x1000#32
@[simp] def SLOW : BitVec 32 := 0x800#32
@[simp] def RELAY_FLAGS_MASK : BitVec 32 := 0x1800#32
@[simp] def UNREACHABLE : BitVec 32 := 0x2000#32
@[simp] def NET4_INTERNAL : BitVec 32 := 0x4000#32
@[simp] def SKIP_IPV4 : BitVec 32 := 0x8000#32
@[simp] def SKIP_IPV6 : BitVec 32 := 0x10000#32
@[simp] def RELAY_TYPE_MASK : BitVec 32 := 0xfe0000#32

namespace Flags

/-- The set of relay types; a missing one is empty. -/
def types (f : Flags) : Nat := f.relayTypes.getD 0

/-- The set of relay types as a byte, zero if it does not fit one. -/
def relayTypesByte (f : Flags) : BitVec 8 :=
  if f.types < 2 ^ 8 then BitVec.ofNat 8 f.types else 0#8

def encodeHeader (f : Flags) : BitVec 32 :=
  flag f.ipv4Flag IPV4 ||| flag f.ipv6Flag IPV6 ||| flag f.reachable4UDP REACHABLE4_UDP |||
    flag f.reachable4TCP REACHABLE4_TCP ||| flag f.reachable4UDT REACHABLE4_UDT |||
    flag f.reachable6UDP REACHABLE6_UDP ||| flag f.reachable6TCP REACHABLE6_TCP |||
    flag f.reachable6UDT REACHABLE6_UDT ||| ((f.relaySize <<< 8) &&& RELAY_SIZE_MASK) |||
    flag f.holePunching HOLE_PUNCHING ||| flag f.slow SLOW ||| flag f.unreachable UNREACHABLE |||
    flag f.net4Internal NET4_INTERNAL ||| flag f.skipIPv4 SKIP_IPV4 ||| flag f.skipIPv6 SKIP_IPV6 |||
    ((f.relayTypesByte.signExtend 32 <<< 17) &&& RELAY_TYPE_MASK)

def decodeHeader (header : BitVec 32) : Flags where
  ipv4Flag := (header &&& IPV4) == IPV4
  ipv6Flag := (header &&& IPV6) == IPV6
  reachable4UDP := (header &&& REACHABLE4_UDP) == REACHABLE4_UDP
  reachable4TCP := (header &&& REACHABLE4_TCP) == REACHABLE4_TCP
  reachable4UDT := (header &&& REACHABLE4_UDT) == REACHABLE4_UDT
  reachable6UDP := (header &&& REACHABLE6_UDP) == REACHABLE6_UDP
  reachable6TCP := (header &&& REACHABLE6_TCP) == REACHABLE6_TCP
  reachable6UDT := (header &&& REACHABLE6_UDT) == REACHABLE6_UDT
  relaySize := (header &&& RELAY_SIZE_MASK) >>> 8
  holePunching := (header &&& RELAY_FLAGS_MASK) == HOLE_PUNCHING
  slow := (header &&& RELAY_FLAGS_MASK) == SLOW
  unreachable := (header &&& UNREACHABLE) == UNREACHABLE
  net4Internal := (header &&& NET4_INTERNAL) == NET4_INTERNAL
  skipIPv4 := (header &&& SKIP_IPV4) == SKIP_IPV4
  skipIPv6 := (header &&& SKIP_IPV6) == SKIP_IPV6
  relayTypes := some (((header &&& RELAY_TYPE_MASK) >>> 17).toNat % 2 ^ 8)

/-- Which of the relays are IPv6. -/
def relayFamilies (f : Flags) : List Bool :=
  (List.range f.relaySize.toInt.toNat).map f.types.testBit

def socketSize (v6 : Bool) : Nat := if v6 then PeerSocket6Address.SIZE else PeerSocket4Address.SIZE

/-- The size of an address with these flags and relays of these families. -/
def sizeWith (f : Flags) (families : List Bool) : Nat :=
  HEADER_SIZE + Number160.BYTE_ARRAY_SIZE + (families.map socketSize).sum +
    (if f.ipv4Flag then
      if f.skipIPv4 then PeerSocketAddress.PORT_SIZE else PeerSocket4Address.SIZE
    else 0) +
    (if f.net4Internal then PeerSocket4Address.SIZE else 0) +
    (if f.ipv6Flag then
      if f.skipIPv6 then PeerSocketAddress.PORT_SIZE else PeerSocket6Address.SIZE
    else 0)

/-- The size of an address with these flags, before it is cut to an `int`. -/
def size (f : Flags) : Nat := f.sizeWith f.relayFamilies

/-- A part of the header is the part of each flag. -/
theorem encodeHeader_and (f : Flags) (m : BitVec 32) :
    f.encodeHeader &&& m =
      flag f.ipv4Flag (IPV4 &&& m) ||| flag f.ipv6Flag (IPV6 &&& m) |||
        flag f.reachable4UDP (REACHABLE4_UDP &&& m) ||| flag f.reachable4TCP (REACHABLE4_TCP &&& m) |||
        flag f.reachable4UDT (REACHABLE4_UDT &&& m) ||| flag f.reachable6UDP (REACHABLE6_UDP &&& m) |||
        flag f.reachable6TCP (REACHABLE6_TCP &&& m) ||| flag f.reachable6UDT (REACHABLE6_UDT &&& m) |||
        ((f.relaySize <<< 8) &&& (RELAY_SIZE_MASK &&& m)) |||
        flag f.holePunching (HOLE_PUNCHING &&& m) ||| flag f.slow (SLOW &&& m) |||
        flag f.unreachable (UNREACHABLE &&& m) ||| flag f.net4Internal (NET4_INTERNAL &&& m) |||
        flag f.skipIPv4 (SKIP_IPV4 &&& m) ||| flag f.skipIPv6 (SKIP_IPV6 &&& m) |||
        ((f.relayTypesByte.signExtend 32 <<< 17) &&& (RELAY_TYPE_MASK &&& m)) := by
  simp only [encodeHeader, BitVec.and_or_distrib_right, flag_and, BitVec.and_assoc]

theorem flag_of_and {f : Flags} {b : Bool} {m : BitVec 32} (h : f.encodeHeader &&& m = flag b m)
    (hm : m ≠ 0#32) : ((f.encodeHeader &&& m) == m) = b := by
  rw [h, flag_beq b m hm]

theorem encodeHeader_and_flags (f : Flags) :
    f.encodeHeader &&& RELAY_FLAGS_MASK = flag f.holePunching HOLE_PUNCHING ||| flag f.slow SLOW := by
  rw [encodeHeader_and]
  simp

/-- Of the number of relays three bits are written. -/
theorem relaySize_bits (x : BitVec 32) :
    (x <<< 8 &&& RELAY_SIZE_MASK) >>> 8 = BitVec.ofNat 32 (x.toNat % 8) := by
  have hmask : ∀ i < 32, (RELAY_SIZE_MASK).getLsbD (8 + i) = (7#32).getLsbD i := by decide
  have hbits : (x <<< 8 &&& RELAY_SIZE_MASK) >>> 8 = x &&& 7#32 := by
    refine BitVec.eq_of_getLsbD_eq fun i hi => ?_
    rw [BitVec.getLsbD_ushiftRight, BitVec.getLsbD_and, BitVec.getLsbD_and, hmask i hi,
      BitVec.getLsbD_shiftLeft, Nat.add_sub_cancel_left]
    by_cases h3 : i < 3
    · simp [show 8 + i < 32 by omega]
    · have hzero : ∀ i < 32, ¬ i < 3 → (7#32).getLsbD i = false := by decide
      rw [hzero i hi h3, Bool.and_false, Bool.and_false]
  have hmod : x.toNat &&& 7 = x.toNat % 2 ^ 3 := Nat.and_two_pow_sub_one_eq_mod x.toNat 3
  refine BitVec.eq_of_toNat_eq ?_
  have hseven : (7#32).toNat = 7 := rfl
  rw [hbits, BitVec.toNat_and, hseven, hmod, BitVec.toNat_ofNat]
  omega

/-- Of the relay types seven bits are written. -/
theorem relayTypes_bits :
    ∀ n < 2 ^ 8, (((BitVec.ofNat 8 n).signExtend 32 <<< 17 &&& RELAY_TYPE_MASK) >>> 17).toNat % 2 ^ 8 =
      n % 2 ^ 7 := by
  decide +kernel

/-- The flags as they arrive: the number of relays and their types cut to their
    fields, and neither of the modes if both are set. -/
def transferred (f : Flags) : Flags :=
  { f with
    relaySize := BitVec.ofNat 32 (f.relaySize.toNat % 8)
    holePunching := f.holePunching && !f.slow
    slow := f.slow && !f.holePunching
    relayTypes := some (f.relayTypesByte.toNat % 2 ^ 7) }

theorem decodeHeader_encodeHeader (f : Flags) : decodeHeader f.encodeHeader = f.transferred := by
  have hsize : (f.encodeHeader &&& RELAY_SIZE_MASK) >>> 8 = f.transferred.relaySize := by
    have hand : f.encodeHeader &&& RELAY_SIZE_MASK = f.relaySize <<< 8 &&& RELAY_SIZE_MASK := by
      rw [encodeHeader_and]
      simp
    rw [hand, relaySize_bits]
    rfl
  have htypes : ((f.encodeHeader &&& RELAY_TYPE_MASK) >>> 17).toNat % 2 ^ 8 =
      f.relayTypesByte.toNat % 2 ^ 7 := by
    have hand : f.encodeHeader &&& RELAY_TYPE_MASK =
        f.relayTypesByte.signExtend 32 <<< 17 &&& RELAY_TYPE_MASK := by
      rw [encodeHeader_and]
      simp
    have hbits := relayTypes_bits f.relayTypesByte.toNat f.relayTypesByte.isLt
    rw [BitVec.ofNat_toNat, BitVec.setWidth_eq] at hbits
    rw [hand, hbits]
  have hmodes : ((f.encodeHeader &&& RELAY_FLAGS_MASK) == HOLE_PUNCHING) = (f.holePunching && !f.slow) ∧
      ((f.encodeHeader &&& RELAY_FLAGS_MASK) == SLOW) = (f.slow && !f.holePunching) := by
    rw [encodeHeader_and_flags]
    -- Both modes at once are the one value of the field that is read as neither.
    cases f.holePunching <;> cases f.slow <;> decide
  have hflag {b : Bool} {m : BitVec 32} (h : f.encodeHeader &&& m = flag b m) (hm : m ≠ 0#32) :
      ((f.encodeHeader &&& m) == m) = b := flag_of_and h hm
  refine Flags.ext ?_ ?_ ?_ ?_ ?_ ?_ ?_ ?_ hsize hmodes.1 hmodes.2 ?_ ?_ ?_ ?_ (congrArg some htypes)
  all_goals
    refine hflag ?_ (by decide)
    rw [encodeHeader_and]
    simp [transferred]

/-- The header fills its three bytes. -/
theorem encodeHeader_lt (f : Flags) : f.encodeHeader.toNat < 2 ^ 24 := by
  have hand : f.encodeHeader &&& 0xffffff#32 = f.encodeHeader := by
    rw [encodeHeader_and, encodeHeader]
    simp
  rw [← hand, BitVec.toNat_and]
  exact Nat.and_lt_two_pow _ (by decide)

end Flags

end PeerAddress

/-! ### Addresses -/

/-- The address of a peer. -/
@[ext] structure PeerAddress extends PeerAddress.Flags where
  ipInternalSocket : Option PeerSocket4Address := none
  ipInternalNetworkPrefix : BitVec 32 := 0
  ipv4Socket : Option PeerSocket4Address := none
  ipv6Socket : Option PeerSocket6Address := none
  peerId : Number160
  /-- The hash, which is stored and not computed. -/
  hashCode : BitVec 32 := 0
  relays : List PeerSocketAddress := []
  deriving DecidableEq

/-- What a hash map knows an address by: addresses are equal if their ids are, and are
    looked for under the hash that they carry. -/
structure PeerKey where
  hashCode : BitVec 32
  peerId : Number160
  deriving DecidableEq

namespace PeerAddress

def key (a : PeerAddress) : PeerKey := ⟨a.hashCode, a.peerId⟩

section Sockets

variable {σ A : Type}

/-- A socket that is announced is written, and dereferenced if it is missing. -/
def encodeSocket (announced : Bool) (enc : A → Except JavaException Bytes) (a : Option A) :
    Except JavaException Bytes :=
  if announced then
    match a with
    | none => .error .nullPointer
    | some a => enc a
  else .ok []

def decodeSocket (announced : Bool) (p : Reader JavaException σ A) : Reader JavaException σ (Option A) :=
  if announced then some <$> p else pure none

theorem parses_decodeSocket {enc : A → Except JavaException Bytes} {p : Reader JavaException σ A}
    {announced : Bool} {a : Option A} {v : Bytes} (out : A → A) (hflag : announced = a.isSome)
    (h : encodeSocket announced enc a = .ok v)
    (hp : ∀ x, a = some x → ∀ w, enc x = .ok w → Parses p w (out x)) :
    Parses (decodeSocket announced p) v (a.map out) := by
  subst hflag
  cases a with
  | none =>
      cases h
      exact Parses.pure none
  | some x => exact (hp x rfl v h).ret some

theorem length_encodeSocket {enc : A → Except JavaException Bytes} {announced : Bool} {a : Option A}
    {v : Bytes} {n : Nat} (h : encodeSocket announced enc a = .ok v)
    (hn : ∀ x w, enc x = .ok w → w.length = n) : v.length = if announced then n else 0 := by
  cases announced with
  | false =>
      cases h
      rfl
  | true =>
      cases a with
      | none => cases h
      | some x => exact hn x v h

end Sockets

def encode (a : PeerAddress) : Except JavaException Bytes := do
  let relays ← encodeAll PeerSocketAddress.encode a.relays
  let ipv4 ← encodeSocket a.ipv4Flag (·.encode a.skipIPv4) a.ipv4Socket
  let internal ← encodeSocket a.net4Internal (·.encode false) a.ipInternalSocket
  let ipv6 ← encodeSocket a.ipv6Flag (·.encode a.skipIPv6) a.ipv6Socket
  return writeMedium a.encodeHeader ++ (relays ++ (ipv4 ++ (internal ++ (ipv6 ++ a.peerId.encode))))

/-- Reads what follows the header. -/
def decodeAfter {σ : Type} (header : BitVec 32) : Reader JavaException σ PeerAddress := do
  let f := Flags.decodeHeader header
  let relays ← each PeerSocketAddress.decode f.relayFamilies
  let ipv4Socket ← decodeSocket f.ipv4Flag (PeerSocket4Address.decode f.skipIPv4)
  let ipInternalSocket ← decodeSocket f.net4Internal (PeerSocket4Address.decode false)
  let ipv6Socket ← decodeSocket f.ipv6Flag (PeerSocket6Address.decode f.skipIPv6)
  let peerId ← Number160.decode
  return { f with relays, ipv4Socket, ipInternalSocket, ipv6Socket, peerId, hashCode := peerId.hashCode }

def decode {σ : Type} : Reader JavaException σ PeerAddress := do
  let header ← readUnsignedMedium
  decodeAfter header

/-- The size of an address, an `int`. The relay types are dereferenced if there are
    relays. -/
def ownSize (a : PeerAddress) : Except JavaException Int :=
  if a.relayTypes = none ∧ 0 < a.relaySize.toInt then .error .nullPointer else .ok (int a.toFlags.size)

/-- The size of an address with this header, which has seven relays at most. -/
def size (header : BitVec 32) : Nat := (Flags.decodeHeader header).size

/-- The flags of an address, as they are written, say what it holds. -/
structure WellFormed (a : PeerAddress) : Prop where
  ipv4 : a.ipv4Flag = a.ipv4Socket.isSome
  internal : a.net4Internal = a.ipInternalSocket.isSome
  ipv6 : a.ipv6Flag = a.ipv6Socket.isSome
  families : a.toFlags.transferred.relayFamilies = a.relays.map PeerSocketAddress.isV6
  ipv4_ports : ∀ s, a.ipv4Socket = some s → s.WellFormed
  internal_ports : ∀ s, a.ipInternalSocket = some s → s.WellFormed
  ipv6_ports : ∀ s, a.ipv6Socket = some s → s.WellFormed
  relay_ports : ∀ s ∈ a.relays, s.WellFormed

/-- The address as it arrives: the network prefix stays behind, and so do the
    IPs of skipped sockets. The hash is computed anew. -/
def transferred (a : PeerAddress) : PeerAddress :=
  { a with
    toFlags := a.toFlags.transferred
    ipInternalNetworkPrefix := 0
    hashCode := a.peerId.hashCode
    ipv4Socket := a.ipv4Socket.map (·.transferred a.skipIPv4)
    ipv6Socket := a.ipv6Socket.map (·.transferred a.skipIPv6) }

/-- The parts of a written address. -/
theorem encode_eq_ok {a : PeerAddress} {v : Bytes} (h : a.encode = .ok v) :
    ∃ relays ipv4 internal ipv6,
      encodeAll PeerSocketAddress.encode a.relays = .ok relays ∧
      encodeSocket a.ipv4Flag (·.encode a.skipIPv4) a.ipv4Socket = .ok ipv4 ∧
      encodeSocket a.net4Internal (·.encode false) a.ipInternalSocket = .ok internal ∧
      encodeSocket a.ipv6Flag (·.encode a.skipIPv6) a.ipv6Socket = .ok ipv6 ∧
      v = writeMedium a.encodeHeader ++
        (relays ++ (ipv4 ++ (internal ++ (ipv6 ++ a.peerId.encode)))) := by
  obtain ⟨relays, h1, h⟩ := except_bind_ok h
  obtain ⟨ipv4, h2, h⟩ := except_bind_ok h
  obtain ⟨internal, h3, h⟩ := except_bind_ok h
  obtain ⟨ipv6, h4, h⟩ := except_bind_ok h
  exact ⟨relays, ipv4, internal, ipv6, h1, h2, h3, h4, (Except.ok.inj h).symm⟩

theorem parses_decodeAfter {σ : Type} (a : PeerAddress) (v : Bytes) (hwf : a.WellFormed)
    (h : a.encode = .ok v) :
    ∃ w, v = writeMedium a.encodeHeader ++ w ∧
      Parses (decodeAfter (σ := σ) a.encodeHeader) w a.transferred := by
  obtain ⟨relays, ipv4, internal, ipv6, hrelays, hipv4, hinternal, hipv6, rfl⟩ := encode_eq_ok h
  refine ⟨_, rfl, ?_⟩
  have hr : Parses (σ := σ) (each PeerSocketAddress.decode a.toFlags.transferred.relayFamilies)
      relays a.relays := by
    have hall := Parses.each (σ := σ) (p := PeerSocketAddress.decode) PeerSocketAddress.isV6 id a.relays
      relays hrelays fun s hs w hw => s.parses_decode w (hwf.relay_ports s hs) hw
    rwa [List.map_id, ← hwf.families] at hall
  have h4 := parses_decodeSocket (σ := σ) (p := PeerSocket4Address.decode a.skipIPv4)
    (·.transferred a.skipIPv4) hwf.ipv4 hipv4
    fun s hs w hw => s.parses_decode a.skipIPv4 w (hwf.ipv4_ports s hs) hw
  have hi := parses_decodeSocket (σ := σ) (p := PeerSocket4Address.decode false)
    (·.transferred false) hwf.internal hinternal
    fun s hs w hw => s.parses_decode false w (hwf.internal_ports s hs) hw
  have h6 := parses_decodeSocket (σ := σ) (p := PeerSocket6Address.decode a.skipIPv6)
    (·.transferred a.skipIPv6) hwf.ipv6 hipv6
    fun s hs w hw => s.parses_decode a.skipIPv6 w (hwf.ipv6_ports s hs) hw
  have hid : (fun s : PeerSocket4Address => s.transferred false) = id := rfl
  rw [hid, Option.map_id, id] at hi
  rw [decodeAfter]
  simp only [Flags.decodeHeader_encodeHeader]
  exact hr.bind <| h4.bind <| hi.bind <| h6.bind <|
    (Number160.parses_decode a.peerId).ret fun peerId =>
      ({ a.transferred with peerId, hashCode := peerId.hashCode } : PeerAddress)

/-- A written address is read back, up to what does not travel. -/
theorem parses_decode {σ : Type} (a : PeerAddress) (v : Bytes) (hwf : a.WellFormed)
    (h : a.encode = .ok v) : Parses (decode (σ := σ)) v a.transferred := by
  obtain ⟨w, rfl, hw⟩ := parses_decodeAfter a v hwf h
  exact (parses_readUnsignedMedium a.encodeHeader a.encodeHeader_lt).bind hw

/-- The size of an address follows from its flags and its relays. -/
theorem length_encode (a : PeerAddress) (v : Bytes) (h : a.encode = .ok v) :
    v.length = a.toFlags.sizeWith (a.relays.map PeerSocketAddress.isV6) := by
  obtain ⟨relays, ipv4, internal, ipv6, hrelays, hipv4, hinternal, hipv6, rfl⟩ := encode_eq_ok h
  have hr := length_encodeAll (fun s : PeerSocketAddress => Flags.socketSize s.isV6) a.relays relays
    hrelays fun s _ w hw => s.length_encode w hw
  have h4 := length_encodeSocket hipv4 fun s w hw => s.length_encode a.skipIPv4 w hw
  have hi := length_encodeSocket hinternal fun s w hw => s.length_encode false w hw
  have h6 := length_encodeSocket hipv6 fun s w hw => s.length_encode a.skipIPv6 w hw
  have hm : (writeMedium a.encodeHeader).length = HEADER_SIZE := length_toBE 3 _
  have hfam : (a.relays.map PeerSocketAddress.isV6).map Flags.socketSize =
      a.relays.map fun s => Flags.socketSize s.isV6 := by
    rw [List.map_map]
    rfl
  rw [Flags.sizeWith, hfam]
  simp only [List.length_append, hm, hr, h4, hi, h6, Number160.length_encode, Bool.false_eq_true,
    if_false]
  omega

/-- An address has the size its header announces. -/
theorem length_encode_eq_size (a : PeerAddress) (v : Bytes) (hwf : a.WellFormed) (h : a.encode = .ok v) :
    v.length = size a.encodeHeader := by
  rw [a.length_encode v h, size, Flags.decodeHeader_encodeHeader, Flags.size, hwf.families]
  rfl

end PeerAddress

end TomP2P
