import TomP2P.Core.PeerMapFilter

/-!
# When the Filters of a Search Work

A peer that one filter rejects is removed. A peer that two of them reject is removed a
second time, which the iterator does not allow, and the answer is not evaluated.

All filters look at every peer up to there, so the loop comes to its end exactly if each
of them returns and at most one rejects the peer (`filterFold_iff`). What is left then
are the peers that none of them rejects.

## Main definitions

* `PeerMapFilter.Returns`, `PeerMapFilter.rejects`: What a filter says of a peer.
* `PeerMapFilter.RejectedOnce`: At most one filter rejects a peer.

## Theorems

* `RoutingMechanism.filterPeers_iff`: The filters leave what they should exactly if none
  of the peers is rejected twice.
-/

namespace TomP2P

open Effect

namespace PeerMapFilter

/-- A filter does not throw. -/
def Returns (f : PeerMapFilter) (all : List PeerAddress) (p : PeerAddress) : Prop :=
  ∃ rejected, f.rejectPreRouting p all = .ok rejected

def rejects (f : PeerMapFilter) (all : List PeerAddress) (p : PeerAddress) : Bool :=
  match f.rejectPreRouting p all with
  | .ok rejected => rejected
  | .error _ => false

/-- All filters return, and at most one rejects the peer. -/
def RejectedOnce (filters : List PeerMapFilter) (all : List PeerAddress) (p : PeerAddress) : Prop :=
  (∀ f ∈ filters, f.Returns all p) ∧ filters.countP (·.rejects all p) ≤ 1

end PeerMapFilter

namespace RoutingMechanism

open PeerMapFilter

variable {filters : List PeerMapFilter} {all : List PeerAddress} {p : PeerAddress}

/-- The peers that no filter rejects. -/
def unrejected (filters : List PeerMapFilter) (all newNeighbors : List PeerAddress) : List PeerAddress :=
  newNeighbors.filter fun p => !filters.any (·.rejects all p)

theorem applyFilter_returns {f : PeerMapFilter} {rejected : Bool} (hf : f.rejectPreRouting p all = .ok rejected)
    (current : Option PeerAddress) :
    applyFilter all p current f = if rejected then iteratorRemove current else .ok current := by
  rw [applyFilter, hf]
  rfl

/-- One filter after the other. A peer that is gone cannot be removed. -/
theorem filterFold_iff (filters : List PeerMapFilter) (current kept : Option PeerAddress) :
    filters.foldlM (applyFilter all p) current = .ok kept ↔
      (∀ f ∈ filters, f.Returns all p) ∧
        filters.countP (·.rejects all p) ≤ (if current.isSome then 1 else 0) ∧
          kept = if filters.any (·.rejects all p) then none else current := by
  induction filters generalizing current with
  | nil =>
      rw [List.foldlM_nil]
      constructor
      · rintro ⟨⟩
        simp
      · rintro ⟨-, -, hkept⟩
        rw [hkept]
        rfl
  | cons f fs ih =>
      rw [List.foldlM_cons, List.forall_mem_cons, List.countP_cons, List.any_cons]
      cases hf : f.rejectPreRouting p all with
      | error e =>
          -- the filter throws
          have hno : ¬ f.Returns all p := fun ⟨rejected, h⟩ => by
            rw [hf] at h
            cases h
          rw [applyFilter, hf]
          exact iff_of_false nofun fun h => hno h.1.1
      | ok rejected =>
          have hrejects : f.rejects all p = rejected := by rw [rejects, hf]
          have hreturns : f.Returns all p := ⟨rejected, hf⟩
          rw [applyFilter_returns hf, hrejects, and_iff_right hreturns]
          cases rejected
          · -- the peer stays as it is
            rw [if_neg Bool.false_ne_true, except_ok_bind, ih]
            simp
          · rw [if_pos rfl]
            cases current with
            | none =>
                rw [iteratorRemove]
                exact iff_of_false nofun fun h => by simp at h
            | some q =>
                rw [iteratorRemove, except_ok_bind, ih]
                simp

theorem filterPeer_iff (filters : List PeerMapFilter) (kept : Option PeerAddress) :
    filterPeer filters all p = .ok kept ↔
      RejectedOnce filters all p ∧ kept = if filters.any (·.rejects all p) then none else some p := by
  rw [filterPeer, filterFold_iff, RejectedOnce, and_assoc]
  rfl

/-- The loop comes to its end if all peers are rejected once at most. -/
theorem filterLoop_iff (filters : List PeerMapFilter) (newNeighbors rest : List PeerAddress) :
    filterLoop filters all newNeighbors = .ok rest ↔
      (∀ p ∈ newNeighbors, RejectedOnce filters all p) ∧ rest = unrejected filters all newNeighbors := by
  induction newNeighbors generalizing rest with
  | nil =>
      constructor
      · rintro ⟨⟩
        exact ⟨fun p hp => absurd hp List.not_mem_nil, rfl⟩
      · rintro ⟨-, rfl⟩
        rfl
  | cons p ps ih =>
      rw [filterLoop, List.forall_mem_cons]
      constructor
      · intro h
        rcases except_bind_ok h with ⟨kept, hkept, h⟩
        rcases except_bind_ok h with ⟨rest', hrest, h⟩
        rcases (filterPeer_iff filters kept).mp hkept with ⟨hp, rfl⟩
        rcases (ih rest').mp hrest with ⟨hps, rfl⟩
        cases h
        refine ⟨⟨hp, hps⟩, ?_⟩
        unfold unrejected
        rw [List.filter_cons]
        cases filters.any (·.rejects all p) <;> rfl
      · rintro ⟨⟨hp, hps⟩, rfl⟩
        rw [(filterPeer_iff filters _).mpr ⟨hp, rfl⟩, except_ok_bind, (ih _).mpr ⟨hps, rfl⟩,
          except_ok_bind]
        unfold unrejected
        rw [List.filter_cons]
        cases filters.any (·.rejects all p) <;> rfl

/-- The filters leave the peers that none of them rejects exactly if each of them returns
    and none of the peers is rejected twice. -/
theorem filterPeers_iff {location : Number160} (peerMapFilters : Option (List PeerMapFilter))
    (newNeighbors : List PeerAddress) (alreadyAsked queueToAsk : PeerSet location) :
    filterPeers peerMapFilters newNeighbors alreadyAsked queueToAsk =
        .ok (unrejected (peerMapFilters.getD []) (alreadyAsked.toList ++ queueToAsk.toList) newNeighbors) ↔
      ∀ p ∈ newNeighbors,
        RejectedOnce (peerMapFilters.getD []) (alreadyAsked.toList ++ queueToAsk.toList) p := by
  have hnone (all : List PeerAddress) :
      (.ok newNeighbors : Except JavaException (List PeerAddress)) = .ok (unrejected [] all newNeighbors) ↔
        ∀ p ∈ newNeighbors, RejectedOnce [] all p := by
    refine iff_of_true ?_ fun p _ => ⟨fun f hf => absurd hf List.not_mem_nil, Nat.zero_le _⟩
    simp [unrejected]
  rcases peerMapFilters with _ | _ | ⟨f, fs⟩
  · exact hnone _
  · exact hnone _
  · change filterLoop (f :: fs) _ _ = _ ↔ _
    rw [filterLoop_iff]
    exact and_iff_left rfl

/-- A peer with an IPv4 address. -/
def peerAt (peerId : Number160) (ipv4 : BitVec 32) : PeerAddress where
  peerId := peerId
  ipv4Socket := some { ipv4 := some ipv4, udpPort := 7700, tcpPort := 7700, udtPort := 7700 }

/-- Filters for networks of two sizes. -/
def networkFilters : List PeerMapFilter := [PeerIPFilter.new 24 64, PeerIPFilter.new 16 48]

/-- A peer of the smaller network of the peer 10.0.0.1 is rejected twice. -/
theorem filterPeers_networkFilters :
    filterPeers (some networkFilters) [peerAt 9 0x0a000002] (PeerSet.empty.add (peerAt 1 0x0a000001) : PeerSet 8)
        .empty = .error (.illegalState "") ∧
      ¬ ∃ rest, filterPeers (some networkFilters) [peerAt 9 0x0a000002]
        (PeerSet.empty.add (peerAt 1 0x0a000001) : PeerSet 8) .empty = .ok rest := by
  have herror : filterPeers (some networkFilters) [peerAt 9 0x0a000002]
      (PeerSet.empty.add (peerAt 1 0x0a000001) : PeerSet 8) .empty = .error (.illegalState "") := by
    rfl
  refine ⟨herror, ?_⟩
  rintro ⟨rest, hrest⟩
  rw [herror] at hrest
  cases hrest

end RoutingMechanism

end TomP2P
