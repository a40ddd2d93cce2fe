import TomP2P.Core.PeerSet
import TomP2P.Theory.ClosePeers

/-!
# What Sets of Peers Hold

A set of peers is known by its ids: since the distance to a location determines an id,
having a peer is having its id, and no id is there twice. The addresses may differ,
which is why the statements are about ids.

## Theorems

* `PeerSet.contains_iff`: A set has a peer if it has its id.
* `PeerSet.nodup_ids`: No id is there twice.
* `PeerSet.mem_ids_update`, `PeerSet.mem_ids_add`, `PeerSet.mem_ids_remove`: The ids after a change.
* `PeerSet.toList_pollFirst`, `PeerSet.mem_pollFirst`, `PeerSet.mem_pollAt`: The ids after taking a peer out.
-/

namespace TomP2P

open PeerMap List

namespace PeerSet

variable {location : Number160} {s t : PeerSet location} {p q : PeerAddress} {id : Number160}

theorem mem_toList : p ∈ s.toList ↔ (distance location p.peerId, p) ∈ s.peers.entries := by
  unfold toList NavMap.values
  rw [mem_map]
  constructor
  · rintro ⟨e, he, rfl⟩
    rw [← s.keyed e he]
    exact he
  · exact fun h => ⟨_, h, rfl⟩

theorem mem_ids : id ∈ s.ids ↔ ∃ p ∈ s.toList, p.peerId = id := by
  unfold ids
  exact mem_map

theorem mem_ids_of_mem (h : p ∈ s.toList) : p.peerId ∈ s.ids := mem_ids.mpr ⟨p, h, rfl⟩

theorem contains_iff : s.contains p = true ↔ p.peerId ∈ s.ids := by
  unfold contains
  rw [NavMap.contains_iff, mem_ids]
  constructor
  · rintro ⟨q, hq⟩
    have hmem := (NavMap.get_eq_some_iff _ _ _).mp hq
    have hid : q.peerId = p.peerId := (distance_injective location (s.keyed _ hmem)).symm
    exact ⟨q, mem_toList.mpr (by rw [hid]; exact hmem), hid⟩
  · rintro ⟨q, hq, hid⟩
    rw [← hid]
    exact ⟨q, (NavMap.get_eq_some_iff _ _ _).mpr (mem_toList.mp hq)⟩

/-- The distances of the ids are the keys. -/
theorem map_distance_ids (s : PeerSet location) : s.ids.map (distance location) = s.peers.keys := by
  unfold ids toList NavMap.values NavMap.keys
  rw [map_map, map_map]
  refine map_congr_left fun e he => ?_
  exact (s.keyed e he).symm

theorem nodup_ids (s : PeerSet location) : s.ids.Nodup := by
  have hkeys := s.peers.nodup_keys
  rw [← map_distance_ids] at hkeys
  exact List.Nodup.of_map _ hkeys

theorem mem_toList_update : q ∈ (s.update p).toList ↔ q = p ∨ q ∈ s.toList ∧ q.peerId ≠ p.peerId := by
  rw [mem_toList, update, NavMap.mem_put, mem_toList, Prod.mk.injEq]
  constructor
  · rintro (⟨_, h⟩ | ⟨h, hne⟩)
    · exact .inl h
    · exact .inr ⟨h, fun hid => hne (congrArg (distance location) hid)⟩
  · rintro (rfl | ⟨h, hne⟩)
    · exact .inl ⟨rfl, rfl⟩
    · exact .inr ⟨h, fun hd => hne (distance_injective location hd)⟩

theorem mem_ids_update : id ∈ (s.update p).ids ↔ id = p.peerId ∨ id ∈ s.ids := by
  rw [mem_ids, mem_ids]
  constructor
  · rintro ⟨q, hq, rfl⟩
    rcases mem_toList_update.mp hq with rfl | hq
    · exact .inl rfl
    · exact .inr ⟨q, hq.1, rfl⟩
  · rintro (rfl | ⟨q, hq, rfl⟩)
    · exact ⟨p, mem_toList_update.mpr (.inl rfl), rfl⟩
    · by_cases hid : q.peerId = p.peerId
      · exact ⟨p, mem_toList_update.mpr (.inl rfl), hid.symm⟩
      · exact ⟨q, mem_toList_update.mpr (.inr ⟨hq, hid⟩), rfl⟩

theorem mem_ids_add : id ∈ (s.add p).ids ↔ id = p.peerId ∨ id ∈ s.ids := by
  unfold add
  split
  · next hin =>
      refine ⟨.inr, ?_⟩
      rintro (rfl | h)
      · exact contains_iff.mp hin
      · exact h
  · exact mem_ids_update

theorem mem_toList_remove : q ∈ (s.remove p).toList ↔ q ∈ s.toList ∧ q.peerId ≠ p.peerId := by
  unfold remove NavMap.remove NavMap.filter
  rw [mem_toList, mem_filter, mem_toList, decide_eq_true_iff]
  exact and_congr_right fun _ => not_congr (distance_injective location).eq_iff

theorem mem_ids_remove : id ∈ (s.remove p).ids ↔ id ∈ s.ids ∧ id ≠ p.peerId := by
  rw [mem_ids, mem_ids]
  constructor
  · rintro ⟨q, hq, rfl⟩
    exact ⟨⟨q, (mem_toList_remove.mp hq).1, rfl⟩, (mem_toList_remove.mp hq).2⟩
  · rintro ⟨⟨q, hq, rfl⟩, hne⟩
    exact ⟨q, mem_toList_remove.mpr ⟨hq, hne⟩, rfl⟩

/-- The peers of a list are taken out. -/
theorem mem_toList_removeAll (ps : List PeerAddress) (s : PeerSet location) :
    q ∈ (ps.foldl remove s).toList ↔ q ∈ s.toList ∧ q.peerId ∉ ps.map (·.peerId) := by
  induction ps generalizing s with
  | nil => simp
  | cons p ps ih =>
      rw [foldl_cons, ih, mem_toList_remove, map_cons, mem_cons, not_or, and_assoc]

/-- The closest peer is the first one. -/
theorem toList_pollFirst (h : s.pollFirst = some (p, t)) : s.toList = p :: t.toList := by
  unfold pollFirst at h
  rcases s with ⟨⟨entries, sorted⟩, keyed⟩
  cases entries with
  | nil => cases h
  | cons e entries =>
      cases h
      have hkey : e.1 = distance location e.2.peerId := keyed e mem_cons_self
      have hrest : (e :: entries).filter (fun e' => decide (e'.1 ≠ distance location e.2.peerId)) = entries := by
        rw [← hkey, filter_cons_of_neg (by simp), filter_eq_self]
        intro e' he'
        exact decide_eq_true (ne_of_gt ((pairwise_cons.mp sorted).1 e' he'))
      unfold toList NavMap.values remove NavMap.remove NavMap.filter
      dsimp only
      rw [hrest]
      rfl

theorem toList_of_pollFirst_none (h : s.pollFirst = none) : s.toList = [] := by
  unfold pollFirst at h
  rw [Option.map_eq_none_iff, head?_eq_none_iff] at h
  exact h

theorem mem_pollFirst (h : s.pollFirst = some (p, t)) : p ∈ s.toList ∧ t = s.remove p := by
  unfold pollFirst at h
  obtain ⟨q, hq, heq⟩ := Option.map_eq_some_iff.mp h
  cases heq
  exact ⟨mem_of_head? hq, rfl⟩

/-- A peer that is taken out was there. -/
theorem mem_pollAt {pick : Nat} (h : s.pollAt pick = some (p, t)) :
    p ∈ s.toList ∧ t = s.remove p := by
  unfold pollAt at h
  obtain ⟨q, hq, heq⟩ := Option.map_eq_some_iff.mp h
  cases heq
  exact ⟨mem_of_getElem? hq, rfl⟩

end PeerSet

end TomP2P
