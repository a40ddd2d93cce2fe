import TomP2P.Core.AddressArray

/-!
# Making Addresses

The ways an address comes into being other than by being read: the builder, and
the copies with one field changed.

The builder and the copies do not treat the sockets alike. The builder raises
the flag of a socket that is set, a copy with a socket does not. The builder
counts the relays and refuses the eighth one, a copy with relays takes any
number of them. Neither computes the hash: the builder leaves it at zero unless
it is set, and a copy keeps the hash of its original even if the id changes.

An address without an id is left out: it can be built, but neither written nor
compared.

## Main definitions

* `PeerAddress.Field`: A field that is set to a value.
* `PeerAddress.BuilderStep`, `PeerAddress.build`: The builder.
* `PeerAddress.With`, `PeerAddress.With.apply`: Copies.
* `PeerAddress.Origin`, `PeerAddress.Obtained`: Where an address comes from.
* `PeerAddress.equals`: Equality, which looks at the id only.
-/

namespace TomP2P

open Wire

namespace PeerAddress

/-- A field that the builder sets and a copy changes, to the value given and
    without looking at others. -/
inductive Field
  | ipInternalNetworkPrefix (value : BitVec 32)
  | ipv4Flag (value : Bool)
  | ipv6Flag (value : Bool)
  | reachable4UDP (value : Bool)
  | reachable4TCP (value : Bool)
  | reachable4UDT (value : Bool)
  | reachable6UDP (value : Bool)
  | reachable6TCP (value : Bool)
  | reachable6UDT (value : Bool)
  | peerId (value : Number160)
  | relaySize (value : BitVec 32)
  | slow (value : Bool)
  | holePunching (value : Bool)
  | unreachable (value : Bool)
  | net4Internal (value : Bool)
  | skipIPv4 (value : Bool)
  | skipIPv6 (value : Bool)
  | relayTypes (value : Option Nat)

def Field.set (a : PeerAddress) : Field → PeerAddress
  | .ipInternalNetworkPrefix value => { a with ipInternalNetworkPrefix := value }
  | .ipv4Flag value => { a with ipv4Flag := value }
  | .ipv6Flag value => { a with ipv6Flag := value }
  | .reachable4UDP value => { a with reachable4UDP := value }
  | .reachable4TCP value => { a with reachable4TCP := value }
  | .reachable4UDT value => { a with reachable4UDT := value }
  | .reachable6UDP value => { a with reachable6UDP := value }
  | .reachable6TCP value => { a with reachable6TCP := value }
  | .reachable6UDT value => { a with reachable6UDT := value }
  | .peerId value => { a with peerId := value }
  | .relaySize value => { a with relaySize := value }
  | .slow value => { a with slow := value }
  | .holePunching value => { a with holePunching := value }
  | .unreachable value => { a with unreachable := value }
  | .net4Internal value => { a with net4Internal := value }
  | .skipIPv4 value => { a with skipIPv4 := value }
  | .skipIPv6 value => { a with skipIPv6 := value }
  | .relayTypes value => { a with relayTypes := value }

/-! ### The builder -/

inductive BuilderStep
  | field (field : Field)
  | hashCode (value : BitVec 32)
  | relays (value : List PeerSocketAddress)
  | relay (relay : PeerSocketAddress)
  | relayAll (relays : List PeerSocketAddress)
  | ipv4Socket (value : Option PeerSocket4Address)
  | ipv6Socket (value : Option PeerSocket6Address)
  | ipInternalSocket (value : Option PeerSocket4Address)

/-- A set of bits with one of them set to a value. -/
def setBit (bits i : Nat) (value : Bool) : Nat :=
  if bits.testBit i = value then bits
  else if value then bits + 2 ^ i else bits - 2 ^ i

/-- One more relay, behind those there are. -/
def addRelay (a : PeerAddress) (relay : PeerSocketAddress) : Except JavaException PeerAddress :=
  if a.relaySize = 7 then .error (.illegalArgument "cannot have more than 7 relays")
  else if a.relaySize.toInt < 0 then .error .indexOutOfBounds
  else .ok { a with
    relayTypes := some (setBit a.types a.relaySize.toNat relay.isV6)
    relaySize := a.relaySize + 1
    relays := a.relays ++ [relay] }

/-- A socket that is set raises its flag. -/
def BuilderStep.apply (a : PeerAddress) : BuilderStep → Except JavaException PeerAddress
  | .field f => .ok (f.set a)
  | .hashCode value => .ok { a with hashCode := value }
  | .relays value => .ok { a with relays := value }
  | .relay r => a.addRelay r
  | .relayAll rs => rs.foldlM addRelay a
  | .ipv4Socket value => .ok { a with ipv4Flag := true, ipv4Socket := value }
  | .ipv6Socket value => .ok { a with ipv6Flag := true, ipv6Socket := value }
  | .ipInternalSocket value => .ok { a with net4Internal := true, ipInternalSocket := value }

/-- The address built with an id and further steps. -/
def build (peerId : Number160) (steps : List BuilderStep) : Except JavaException PeerAddress :=
  steps.foldlM BuilderStep.apply { peerId := peerId }

/-- An address with a socket. -/
def create (peerId : Number160) (socket : PeerSocketAddress) : Except JavaException PeerAddress :=
  match socket with
  | .v4 s => build peerId [.ipv4Socket (some s)]
  | .v6 s => build peerId [.ipv6Socket (some s)]

/-! ### Copies -/

inductive With
  | field (field : Field)
  | ipInternalSocket (value : Option PeerSocket4Address)
  | ipv4Socket (value : Option PeerSocket4Address)
  | ipv6Socket (value : Option PeerSocket6Address)
  | relays (value : List PeerSocketAddress)

/-- The bits that say which sockets are IPv6. -/
def typesOf : List PeerSocketAddress → Nat
  | [] => 0
  | r :: rs => (if r.isV6 then 1 else 0) + 2 * typesOf rs

/-- The flags of the sockets stay as they are, the number and the types of the
    relays are set. -/
def With.apply (a : PeerAddress) : With → PeerAddress
  | .field f => f.set a
  | .ipInternalSocket value => { a with ipInternalSocket := value }
  | .ipv4Socket value => { a with ipv4Socket := value }
  | .ipv6Socket value => { a with ipv6Socket := value }
  | .relays value =>
      { a with
        relays := value
        relaySize := BitVec.ofNat 32 value.length
        relayTypes := some (typesOf value) }

/-! ### Where an address comes from -/

/-- An address is built, with a hash or without, or read with an id. -/
inductive Origin
  | built (hash : Option (BitVec 32))
  | decoded (peerId : Number160)

/-- The hash an origin gives. -/
def Origin.hash : Origin → BitVec 32
  | .built hash => hash.getD 0
  | .decoded peerId => peerId.hashCode

/-- The hash that is set after a step. -/
def BuilderStep.hash (hash : Option (BitVec 32)) : BuilderStep → Option (BitVec 32)
  | .hashCode value => some value
  | _ => hash

/-- The hash the steps set last. -/
def hashOf (steps : List BuilderStep) : Option (BitVec 32) := steps.foldl BuilderStep.hash none

/-- The addresses the program can hold, each with its origin. A header is read
    apart from the rest where the rest may not have arrived. -/
inductive Obtained : PeerAddress → Origin → Prop
  | built {peerId : Number160} {steps : List BuilderStep} {a : PeerAddress}
      (h : build peerId steps = .ok a) : Obtained a (.built (hashOf steps))
  | decoded {v r : Bytes} {a : PeerAddress} (h : decode.run () v = .done a () r) :
      Obtained a (.decoded a.peerId)
  | decodedAfter {header : BitVec 32} {v r : Bytes} {a : PeerAddress}
      (h : (decodeAfter header).run () v = .done a () r) : Obtained a (.decoded a.peerId)
  | decodedArray {array : Bytes} {offset next : Nat} {a : PeerAddress}
      (h : decodeArray array offset = .ok (a, next)) : Obtained a (.decoded a.peerId)
  | copied {a : PeerAddress} {o : Origin} (h : Obtained a o) (w : With) : Obtained (With.apply a w) o

def equals (a b : PeerAddress) : Bool := decide (a.peerId = b.peerId)

end PeerAddress

end TomP2P
