import TomP2P.Core.PeerSet

/-!
# Filters of a Search

The peers that an answer reports go through filters before they are merged into the
queue. A filter sees the peer and all peers that were asked or are in the queue, and
may reject it.

The peers are gone over with an iterator that removes in place. It can remove the peer
it has gone to last, once. It does not stop at the first filter that rejects the peer,
so that each of them removes it.

## Main definitions

* `PeerMapFilter`: A filter.
* `PeerIPFilter`: Rejects a peer of a network that another peer is in.
* `RoutingMechanism.filterPeers`: The loop over the peers.
* `IPv4.maskWithNetworkMaskInv`, `IPv4.set`: The host part, and putting the parts
  together.
-/

namespace TomP2P

/-- A filter, by what it does before a peer is merged. It is told the other peers, and
    may throw. -/
structure PeerMapFilter where
  rejectPreRouting : PeerAddress → List PeerAddress → Except JavaException Bool

/-- The network of an address. A shift uses the lower five bits of its distance. -/
def IPv4.maskWithNetworkMask (bits networkMask : BitVec 32) : BitVec 32 :=
  if networkMask = 32 then bits
  else if networkMask = 0 then 0
  else bits &&& (0xFFFFFFFF#32 <<< ((32 - networkMask).toNat % 32))

/-- The network of an address, of which the upper half is enough for a short mask. -/
def IPv6.maskWithNetworkMask (ip : IPv6) (networkMask : BitVec 32) : IPv6 :=
  if networkMask = 128 then ip
  else if networkMask = 64 then ⟨ip.highBits, 0⟩
  else if 64 < networkMask.toInt then
    let remainingPrefixLength := networkMask - 64
    ⟨ip.highBits, ip.lowBits &&& (0xFFFFFFFFFFFFFFFF#64 <<< ((64 - remainingPrefixLength).toNat % 64))⟩
  else ⟨ip.highBits &&& (0xFFFFFFFFFFFFFFFF#64 <<< ((64 - networkMask).toNat % 64)), 0⟩

namespace PeerIPFilter

/-- One of the peers is in the network. An address that is missing is dereferenced. -/
def inNetwork {A S : Type} [DecidableEq A] (socket : PeerAddress → Option S) (ip : S → Option A) (mask : A → A)
    (address : Option A) : List PeerAddress → Except JavaException Bool
  | [] => .ok false
  | inMap :: all =>
      match socket inMap with
      | none => inNetwork socket ip mask address all
      | some ps =>
          match address, ip ps with
          | some a, some b => if mask a = mask b then .ok true else inNetwork socket ip mask address all
          | _, _ => .error .nullPointer

/-- A peer is rejected if another one is in the same network, by one of its
    addresses. -/
def new (mask4 mask6 : BitVec 32) : PeerMapFilter where
  rejectPreRouting peerAddress all := do
    let in4 ← match peerAddress.ipv4Socket with
      | none => .ok false
      | some ps =>
          inNetwork (·.ipv4Socket) (·.ipv4) (IPv4.maskWithNetworkMask · mask4) ps.ipv4 all
    if in4 then return true
    match peerAddress.ipv6Socket with
    | none => .ok false
    | some ps => inNetwork (·.ipv6Socket) (·.ipv6) (IPv6.maskWithNetworkMask · mask6) ps.ipv6 all

end PeerIPFilter

namespace RoutingMechanism

/-- The iterator removes the peer it has gone to last, if it has not been removed. -/
def iteratorRemove : Option PeerAddress → Except JavaException (Option PeerAddress)
  | some _ => .ok none
  | none => .error (.illegalState "")

/-- A filter looks at a peer. -/
def applyFilter (all : List PeerAddress) (newNeighbor : PeerAddress) (current : Option PeerAddress)
    (peerFilter : PeerMapFilter) : Except JavaException (Option PeerAddress) := do
  if ← peerFilter.rejectPreRouting newNeighbor all then iteratorRemove current else .ok current

/-- All filters look at a peer. What is left of it comes out. -/
def filterPeer (peerMapFilters : List PeerMapFilter) (all : List PeerAddress) (newNeighbor : PeerAddress) :
    Except JavaException (Option PeerAddress) :=
  peerMapFilters.foldlM (applyFilter all newNeighbor) (some newNeighbor)

/-- The loop over the peers. -/
def filterLoop (peerMapFilters : List PeerMapFilter) (all : List PeerAddress) :
    List PeerAddress → Except JavaException (List PeerAddress)
  | [] => .ok []
  | newNeighbor :: newNeighbors => do
      let current ← filterPeer peerMapFilters all newNeighbor
      let rest ← filterLoop peerMapFilters all newNeighbors
      return current.toList ++ rest

/-- The filters may be missing. -/
def filterPeers {location : Number160} (peerMapFilters : Option (List PeerMapFilter))
    (newNeighbors : List PeerAddress) (alreadyAsked queueToAsk : PeerSet location) :
    Except JavaException (List PeerAddress) :=
  match peerMapFilters with
  | none => .ok newNeighbors
  | some [] => .ok newNeighbors
  | some peerMapFilters => filterLoop peerMapFilters (alreadyAsked.toList ++ queueToAsk.toList) newNeighbors

end RoutingMechanism

/-! ### Subnets

An address has a network part, the leading bits, and a host part, the others. A peer
behind a router is reached from the inside at an address of the internal network with
the host part that is known from outside.

Masks are ones that are shifted. A shift uses the lower five bits of its distance, so
one by 32 does not shift at all. The network mask looks at this case before it shifts,
its inverse looks at the other end only.
-/

namespace IPv4

/-- The host part of an address. -/
def maskWithNetworkMaskInv (bits networkMask : BitVec 32) : BitVec 32 :=
  if networkMask = 0 then bits
  else bits &&& (0xFFFFFFFF#32 >>> (networkMask.toNat % 32))

def set (bits maskedAddress : BitVec 32) : BitVec 32 := bits ||| maskedAddress

end IPv4

end TomP2P
