import TomP2P.Foundation.Nearest
import TomP2P.Theory.ClosePeers
import TomP2P.Theory.Digest
import TomP2P.Theory.LatestVersions

/-!
# The Selection of Replicas

Which peers are replicas of a location: those that are sent its values, and those in
the replication range.

Both look at the peers that `closePeers` returns, and not at the whole map. These are the
peers of the bags that were searched, and they are closer than all others
(`PeerMap.closePeers_part`). For the replication range that is enough: as many peers
were asked for as are counted, so that a peer with that many closer ones in the map
has as many in the set (`Replication.isInReplicationRange_iff`).

The peers that values are sent to are asked for before the filters are applied. If too
many of them are rejected there are others further away that are not looked for, and
less replicas are made than could be. With a replication factor of one no peer is to be
sent to, but the counter is compared after it has gone up, and all peers of a bag get
the values (`IndirectReplication.send_nearest_iff`).

## Theorems

* `PeerMap.closePeers_part`: What a search returns, as a part of the map.
* `Replication.isInReplicationRange_iff`: The replication range.
* `IndirectReplication.sendLoop_ok`: The peers that are sent to.
* `IndirectReplication.send_nearest_iff`: When they are the right ones.
-/

namespace TomP2P

open List

namespace PeerMap

/-- The addresses of some peers. -/
def addressesOf (ps : List PeerStatistic) : List PeerAddress := ps.map PeerStatistic.peerAddress

/-- The distance of an address to an id. -/
def addressDistance (other : Number160) (peerAddress : PeerAddress) : Number160 :=
  distance other peerAddress.peerId

/-- The set has the peers it holds, in another order. -/
theorem Holds.perm {other : Number160} {set : CloseSet} {ps : List PeerStatistic} (h : Holds other set ps) :
    set.values.Perm ps := by
  have hsize : set.values.length = ps.length := by
    rw [← h.size, NavMap.values, length_map]
    rfl
  have hsub := subperm_of_subset (Nearest.nodup_of_sorted h.sorted) fun p hp => (h.mem_values p).mp hp
  exact hsub.perm_of_length_le (Nat.le_of_eq hsize.symm)

variable {self : Number160} {peerMap : Nat → Bag}

/-- The peers that are found are those of some bags, sorted by the distance. The others are
    further away, and if there are others, enough have been found. -/
theorem closePeers_part (h : Placed self peerMap) (other : Number160) (atLeast : Int) :
    ∃ rest : List PeerAddress,
      let found := addressesOf (closePeers self other atLeast peerMap).values
      found.Pairwise (fun a b => addressDistance other a < addressDistance other b) ∧
        found.Perm (addressesOf (peersOf peerMap (searched self other atLeast peerMap))) ∧
        (addressesOf (peers peerMap)).Perm (found ++ rest) ∧ Nearest.Below (addressDistance other) found rest ∧
        (rest = [] ∨ atLeast ≤ found.length) := by
  rcases closePeers_visits h other atLeast with ⟨rest, hperm, hholds, hstop, hcloser⟩
  have hbound (i : Nat) (hi : i ∈ searched self other atLeast peerMap ++ rest) : i < Number160.BITS :=
    List.mem_range.mp (hperm.mem_iff.mp hi)
  have hfound := hholds.perm
  have hall : (peersOf peerMap (searched self other atLeast peerMap) ++ peersOf peerMap rest).Perm (peers peerMap) := by
    rw [← peersOf_append]
    exact hperm.flatMap_right _
  refine ⟨addressesOf (peersOf peerMap rest), ?_, hfound.map _, ?_, ?_, ?_⟩
  · exact pairwise_map.mpr hholds.sorted
  · unfold addressesOf
    rw [← map_append]
    exact ((hall.symm.trans (hfound.symm.append_right _)).map _)
  · intro a ha b hb
    rcases mem_map.mp ha with ⟨p, hp, rfl⟩
    rcases mem_map.mp hb with ⟨q, hq, rfl⟩
    rcases mem_peersOf h _ (fun k hk => hbound k (mem_append_left _ hk)) (hfound.mem_iff.mp hp) with ⟨i, hi, hpi⟩
    rcases mem_peersOf h rest (fun k hk => hbound k (mem_append_right _ hk)) hq with ⟨j, hj, hqj⟩
    exact hcloser i hi j hj _ _ hpi hqj
  · rcases hstop with rfl | henough
    · exact .inl rfl
    · refine .inr ?_
      rw [addressesOf, length_map, NavMap.values, length_map]
      exact henough

/-- No peer is in its own map. -/
theorem self_not_mem (h : Placed self peerMap) : ∀ p ∈ peers peerMap, p.peerAddress.peerId ≠ self := by
  intro p hp hself
  rcases mem_peersOf h _ (fun j hj => List.mem_range.mp hj) hp with ⟨j, _, hclass⟩
  rw [hself, (classMember_eq_neg_one_iff self self).mpr rfl] at hclass
  omega

end PeerMap

/-! ### The replication range -/

namespace Replication

open PeerMap

theorem rejectReplication_eq_false_iff (filters : List ReplicationFilter) (address : PeerAddress) :
    rejectReplication filters address = false ↔ ∀ filter ∈ filters, filter address = false := by
  simp only [rejectReplication, any_eq_false, Bool.not_eq_true]

-- The keys of the set are the distances of its peers.
theorem length_headSet {other x : Number160} {set : CloseSet} {ps : List PeerStatistic} (h : Holds other set ps) :
    (set.entries.filter fun e => e.1 < x).length =
      (Nearest.closer (addressDistance other) x (addressesOf ps)).length := by
  have hkey (e : Number160 × PeerStatistic) (he : e ∈ set.entries) : e.1 = addressDistance other e.2.peerAddress :=
    ((h.get e.1 e.2).mp ((NavMap.get_eq_some_iff set e.1 e.2).mpr he)).2
  have hperm := (h.perm.map PeerStatistic.peerAddress).filter fun a => addressDistance other a < x
  rw [Nearest.closer, addressesOf, ← hperm.length_eq, NavMap.values, map_map, filter_map, length_map]
  congr 1
  refine filter_congr ?_
  intro e he
  simp only [Function.comp_apply, hkey e he]

/-- A peer is in the replication range if no filter rejects it, and if fewer peers than the
    replication factor are closer to the location, of all that are known and this one. -/
theorem isInReplicationRange_iff (r : Replication) (n : Neighborhood) (filters : List ReplicationFilter)
    (locationKey : Number160) (peerAddress : PeerAddress) (h : Placed r.selfAddress.peerId n.peerMapVerified)
    (hf : 1 ≤ n.replicationFactor) :
    r.isInReplicationRange { n with rejectReplication := rejectReplication filters } locationKey peerAddress = true ↔
      (∀ filter ∈ filters, filter peerAddress = false) ∧
        (Nearest.closer (addressDistance locationKey) (addressDistance locationKey peerAddress)
          (addressesOf (peers n.peerMapVerified) ++ [r.selfAddress])).length < n.replicationFactor := by
  rw [← rejectReplication_eq_false_iff]
  unfold isInReplicationRange
  dsimp only
  by_cases hreject : rejectReplication filters peerAddress = true
  · rw [if_pos hreject, hreject]
    exact ⟨fun htrue => absurd htrue Bool.false_ne_true, fun hfalse => absurd hfalse.1.symm Bool.false_ne_true⟩
  · rw [if_neg hreject, Bool.not_eq_true] at *
    rcases Int.eq_ofNat_of_zero_le (show 0 ≤ n.replicationFactor by omega) with ⟨f, hfactor⟩
    rcases closePeers_visits h locationKey n.replicationFactor with ⟨_, hperm, hholds, _⟩
    rcases closePeers_part h locationKey n.replicationFactor with ⟨rest, _, hfound, hall, hbelow, henough⟩
    have hself (q : PeerStatistic) (hq : q ∈ peersOf n.peerMapVerified
        (searched r.selfAddress.peerId locationKey n.replicationFactor n.peerMapVerified)) :
        q.peerAddress.peerId ≠ (PeerStatistic.new 0 r.selfAddress).peerAddress.peerId := by
      refine self_not_mem h q ?_
      rcases mem_flatMap.mp hq with ⟨j, hj, hq⟩
      exact mem_flatMap.mpr ⟨j, hperm.mem_iff.mp (mem_append_left _ hj), hq⟩
    have hclose := hholds.addClose (PeerStatistic.new 0 r.selfAddress) hself
    -- What is counted is a part of the map, and this peer.
    have hcount : ((r.closeSet { n with rejectReplication := rejectReplication filters } locationKey
        n.replicationFactor).entries.filter fun e => e.1 < distance locationKey peerAddress.peerId).length =
        (Nearest.closer (addressDistance locationKey) (addressDistance locationKey peerAddress)
          (addressesOf (closePeers r.selfAddress.peerId locationKey n.replicationFactor n.peerMapVerified).values ++
            [r.selfAddress])).length := by
      rw [Nearest.length_closer_perm (hfound.append_right _)]
      have hset := length_headSet (x := addressDistance locationKey peerAddress) hclose
      rw [addressesOf, map_append] at hset
      exact hset
    have hcut := Nearest.length_closer_lt_iff hbelow (k := f) (henough.imp_right fun hle => by omega)
      (addressDistance locationKey peerAddress) [r.selfAddress]
    rw [decide_eq_true_iff, hcount, hreject, Nearest.length_closer_perm (hall.append_right _)]
    refine ⟨fun hlt => ⟨rfl, ?_⟩, fun hlt => ?_⟩
    · have hcut' := hcut.mp (by omega)
      omega
    · have hcut' := hcut.mpr (by omega)
      omega

/-- A peer with id 1 that knows three peers, with two replicas. -/
theorem isInReplicationRange_threePeers :
    ({ selfAddress := { peerId := 1 } } : Replication).isInReplicationRange
        { peerMapVerified := threePeers, replicationFactor := 2, rejectReplication := rejectReplication [] } 8
        { peerId := 12 } = true ↔
      (∀ filter ∈ ([] : List ReplicationFilter), filter { peerId := 12 } = false) ∧
        ((Nearest.closer (addressDistance 8) (addressDistance 8 { peerId := 12 })
          (addressesOf (peers threePeers) ++ [{ peerId := 1 }])).length : Int) < 2 :=
  isInReplicationRange_iff { selfAddress := { peerId := 1 } }
    { peerMapVerified := threePeers, replicationFactor := 2 } [] 8 { peerId := 12 } placed_threePeers (by decide)

end Replication

/-! ### The peers that are sent to -/

namespace IndirectReplication

open PeerMap

/-- The values of a location are those that can be read. -/
theorem dataMap_ok (m : StorageMemory) (locationKey : Number160) :
    ∃ d, dataMap m locationKey = .ok d ∧
      ∀ key, d.get key = if key.locationKey = locationKey then StorageLayer.get m key else none := by
  have hrange := (Number160.locations_iff locationKey
    ⟨locationKey, Number160.ZERO, Number160.ZERO, Number160.ZERO⟩).mpr rfl
  refine ⟨StorageLayer.filterCopy (m.dataMap.subMap
    ⟨locationKey, Number160.ZERO, Number160.ZERO, Number160.ZERO⟩
    ⟨locationKey, Number160.MAX_VALUE, Number160.MAX_VALUE, Number160.MAX_VALUE⟩) (-1) true, ?_, ?_⟩
  · rw [dataMap, StorageLayer.getRange, StorageMemory.subMap, if_neg (not_lt_of_ge hrange.2)]
    rfl
  · intro key
    rw [StorageLayer.get_filterCopy, StorageLayer.filterCopyOrig_eq, NavMap.get_filter, NavMap.get_subMap]
    by_cases hlocation : key.locationKey = locationKey
    · rw [if_pos ((Number160.locations_iff locationKey key).mpr hlocation), if_pos hlocation, StorageLayer.get,
        StorageLayer.getInternal, StorageMemory.get]
      rcases m.dataMap.get key with _ | data
      · rfl
      · cases hflag : data.hasPrepareFlag <;> simp [hflag]
    · rw [if_neg fun h => hlocation ((Number160.locations_iff locationKey key).mp h), if_neg hlocation]
      rfl

section Loop

variable {r : PeerAddress → Bool} {m : StorageMemory} {locationKey : Number160}
  {d : NavMap Number640 Data}

/-- The peers that are not rejected. -/
def accepted (rejectReplication : PeerAddress → Bool) (as : List PeerAddress) : List PeerAddress :=
  as.filter fun a => !rejectReplication a

/-- The loop stops after the peers it is to send to, if there is one at least. -/
theorem sendLoop_ok (hd : dataMap m locationKey = .ok d) {k : Nat} (hint : k < 2 ^ 31) (ps : List PeerStatistic)
    {count : Nat} (hcount : count < k) :
    sendLoop r m locationKey k ps count =
      .ok (((accepted r (addressesOf ps)).take (k - count)).map fun a => (a, d)) := by
  induction ps generalizing count with
  | nil => simp [sendLoop, accepted, addressesOf]
  | cons p ps ih =>
      rw [sendLoop, addressesOf, map_cons]
      by_cases hreject : r p.peerAddress = true
      · rw [if_pos hreject, ih hcount, accepted, accepted, filter_cons_of_neg (by simp [hreject])]
        rfl
      · have hnext : int ((count : Int) + 1) = (count + 1 : Nat) := by
          rw [int_eq (by omega) (by omega)]
          omega
        have htake : k - count = k - (count + 1) + 1 := by omega
        rw [if_neg hreject, hd, hnext, Effect.except_ok_bind, accepted,
          filter_cons_of_pos (by simp [hreject]), htake, take_succ_cons, map_cons]
        by_cases hlast : count + 1 = k
        · rw [if_pos (congrArg Nat.cast hlast), hlast, Nat.sub_self, take_zero]
          rfl
        · rw [if_neg (by omega), ih (by omega)]
          rfl

-- The counter is one or more when it is compared to zero, so that the loop does not stop
-- at the first peer that is not rejected.
theorem sendLoop_zero (hd : dataMap m locationKey = .ok d) (ps : List PeerStatistic) (count : Int) :
    ∃ transfers, sendLoop r m locationKey 0 ps count = .ok transfers ∧
      (transfers = [] ↔ accepted r (addressesOf ps) = []) := by
  induction ps generalizing count with
  | nil => exact ⟨[], rfl, fun _ => rfl, fun _ => rfl⟩
  | cons p ps ih =>
      rw [sendLoop, addressesOf, map_cons, accepted]
      by_cases hreject : r p.peerAddress = true
      · rw [if_pos hreject, filter_cons_of_neg (by simp [hreject])]
        exact ih count
      · rw [if_neg hreject, hd, filter_cons_of_pos (by simp [hreject]), Effect.except_ok_bind]
        by_cases hlast : int (count + 1) = 0
        · rw [if_pos hlast]
          exact ⟨_, rfl, by simp⟩
        · rcases ih (int (count + 1)) with ⟨transfers, hloop, _⟩
          rw [if_neg hlast, hloop]
          exact ⟨_, rfl, by simp⟩

end Loop

/-- The values of a location are sent to the nearest peers that no filter rejects, to one
    less than the replication factor or to all there are, and to each of them once. -/
def SendsToNearest (r : Replication) (n : Neighborhood) (m : StorageMemory) (locationKey : Number160) : Prop :=
  ∃ transfers, send r n m locationKey = .ok transfers ∧
    Nearest (addressDistance locationKey) (n.replicationFactor - 1).toNat
      (accepted n.rejectReplication (addressesOf (peers n.peerMapVerified))) (transfers.map Prod.fst) ∧
    ∀ t ∈ transfers, ∀ key, t.2.get key = if key.locationKey = locationKey then StorageLayer.get m key else none

/-- They are if the bags that are searched have enough peers that are not rejected, or, for
    a replication factor of one, none at all. -/
theorem send_nearest_iff (r : Replication) (n : Neighborhood) (filters : List ReplicationFilter) (m : StorageMemory)
    (locationKey : Number160) (h : Placed r.selfAddress.peerId n.peerMapVerified) (hf : 1 ≤ n.replicationFactor)
    (hint : n.replicationFactor < 2 ^ 31) :
    SendsToNearest r { n with rejectReplication := Replication.rejectReplication filters } m locationKey ↔
      let found := accepted (Replication.rejectReplication filters) (addressesOf (peersOf n.peerMapVerified
        (searched r.selfAddress.peerId locationKey (n.replicationFactor - 1) n.peerMapVerified)))
      let all := accepted (Replication.rejectReplication filters) (addressesOf (peers n.peerMapVerified))
      if n.replicationFactor = 1 then found = []
      else min (n.replicationFactor - 1) all.length ≤ found.length := by
  rcases Int.eq_ofNat_of_zero_le (show 0 ≤ n.replicationFactor - 1 by omega) with ⟨k, hk⟩
  rcases dataMap_ok m locationKey with ⟨d, hd, hget⟩
  rcases closePeers_part h locationKey k with ⟨rest, hsorted, hfound, hall, hbelow, _⟩
  have hcut : int (n.replicationFactor - 1) = k := by
    rw [int_eq (by omega) (by omega), hk]
  -- The filters leave the same peers of both lists.
  have haccepted : (accepted (Replication.rejectReplication filters)
      (addressesOf (closePeers r.selfAddress.peerId locationKey k n.peerMapVerified).values)).Perm
      (accepted (Replication.rejectReplication filters) (addressesOf (peersOf n.peerMapVerified
        (searched r.selfAddress.peerId locationKey k n.peerMapVerified)))) := hfound.filter _
  have hnearest := Nearest.nearest_take_iff (hsorted.filter fun a => !Replication.rejectReplication filters a)
    (hbelow.filter fun a => !Replication.rejectReplication filters a)
    ((hall.filter fun a => !Replication.rejectReplication filters a).trans (by rw [filter_append])) k
  dsimp only
  unfold SendsToNearest send
  dsimp only
  rw [hcut, hk, Int.toNat_natCast, if_neg (not_lt.mpr (Int.natCast_nonneg k))]
  by_cases hone : n.replicationFactor = 1
  · -- Nobody is to be sent to.
    have hzero : k = 0 := by omega
    subst hzero
    rcases sendLoop_zero (r := Replication.rejectReplication filters) hd
      (closePeers r.selfAddress.peerId locationKey 0 n.peerMapVerified).values 0 with ⟨transfers, hsend, hempty⟩
    have hnone : accepted (Replication.rejectReplication filters) (addressesOf
        (closePeers r.selfAddress.peerId locationKey 0 n.peerMapVerified).values) = [] ↔
        accepted (Replication.rejectReplication filters) (addressesOf (peersOf n.peerMapVerified
          (searched r.selfAddress.peerId locationKey 0 n.peerMapVerified))) = [] := by
      rw [Nat.cast_zero] at haccepted
      rw [← length_eq_zero_iff, ← length_eq_zero_iff, haccepted.length_eq]
    rw [if_pos hone, Nat.cast_zero, hsend, ← hnone, ← hempty]
    refine ⟨?_, ?_⟩
    · rintro ⟨transfers', heq, hselected, _⟩
      cases heq
      have hlength := hselected.length
      rw [Nat.zero_min, length_map] at hlength
      exact eq_nil_of_length_eq_zero hlength
    · rintro rfl
      refine ⟨[], rfl, ⟨nodup_nil, fun a ha => absurd ha not_mem_nil, ?_, fun a ha => ?_⟩, ?_⟩
      · rw [Nat.zero_min]
        rfl
      · exact absurd ha not_mem_nil
      · exact fun t ht => absurd ht not_mem_nil
  · have hsend := sendLoop_ok (r := Replication.rejectReplication filters) hd (show k < 2 ^ 31 by omega)
      (closePeers r.selfAddress.peerId locationKey k n.peerMapVerified).values (show 0 < k by omega)
    have hfirst (as : List PeerAddress) : (as.map fun a => (a, d)).map Prod.fst = as := by
      rw [map_map]
      exact map_id' as
    have hcast (x y : Nat) : min (k : Int) x ≤ y ↔ min k x ≤ y := by omega
    rw [Nat.cast_zero] at hsend
    rw [if_neg hone, ← haccepted.length_eq, hcast, hsend, Nat.sub_zero]
    -- What is sent to is a front of the sorted peers.
    refine Iff.trans ⟨?_, ?_⟩ hnearest
    · rintro ⟨transfers, heq, hselected, _⟩
      cases heq
      rw [hfirst] at hselected
      exact hselected
    · intro hselected
      refine ⟨_, rfl, ?_, ?_⟩
      · rw [hfirst]
        exact hselected
      · intro t ht
        rcases mem_map.mp ht with ⟨a, _, rfl⟩
        exact hget

/-- A filter that rejects the peer with id 9. -/
def rejectNine : ReplicationFilter := fun a => a.peerId = 9

/-- The peer next to the location is rejected, and no other one is looked for. -/
theorem not_sendsToNearest_rejected :
    ¬SendsToNearest { selfAddress := { peerId := 1 } }
      { peerMapVerified := threePeers, replicationFactor := 2,
        rejectReplication := Replication.rejectReplication [rejectNine] } {} 8 := by
  rintro ⟨transfers, hsend, hselected, _⟩
  have hnothing : send { selfAddress := { peerId := 1 } }
      { peerMapVerified := threePeers, replicationFactor := 2,
        rejectReplication := Replication.rejectReplication [rejectNine] } {} 8 = .ok [] := by rfl
  rw [hnothing] at hsend
  cases hsend
  have hcandidates : (accepted (Replication.rejectReplication [rejectNine])
      (addressesOf (peers threePeers))).length = 2 := by decide +kernel
  have hlength := hselected.length
  rw [hcandidates] at hlength
  cases hlength

/-- A filter that rejects the peer with id 4. -/
def rejectFour : ReplicationFilter := fun a => a.peerId = 4

/-- The peer at the location is rejected. The next one is known, and is sent the value. -/
theorem sendsToNearest_rejectFour :
    SendsToNearest { selfAddress := { peerId := 1 } }
      { peerMapVerified := threePeers, replicationFactor := 2,
        rejectReplication := Replication.rejectReplication [rejectFour] }
      (({} : StorageMemory).put ⟨4, 0, 0, 0⟩ (Data.new [7#8] 0)) 4 := by
  refine (send_nearest_iff { selfAddress := { peerId := 1 } }
    { peerMapVerified := threePeers, replicationFactor := 2 } [rejectFour] _ 4 placed_threePeers (by decide)
    (by decide)).mpr ?_
  decide +kernel

end IndirectReplication

end TomP2P
