import TomP2P.Core.TrackerDeparture
import TomP2P.Theory.ClosePeers

/-!
# Departures

When a peer leaves, the announcements of every key that it was to keep should go to another
peer of the map. The tracker takes the last one of those that are closer to the location
than the peer that left, and there are none if that peer was the closest. Then it throws,
and the other keys get nothing.

So a departure is reacted to just where each of these keys has a peer in the map that is
closer to its location. That the search for close peers stops early does not matter, as
what it finds has the closest peer in it.

## Main definitions

* `TrackerCaches.concerned`: The keys to push, with what is announced.
* `TrackerCaches.ReactsToDeparture`: What is asked of the reaction.

## Theorems

* `TrackerCaches.exists_closer_iff`: When there is a peer to push to.
* `TrackerCaches.peerRemovedLoop_ok`, `TrackerCaches.ready_of_peerRemovedLoop`: The loop.
* `TrackerCaches.reactsToDeparture_iff`: When a tracker reacts.
* `TrackerCaches.peerRemoved_closest`: A departure that it does not react to.
-/

namespace TomP2P

open PeerMap

namespace TrackerNeighbors

variable {n : TrackerNeighbors} {locationKey : Number160} {remotePeer : PeerAddress}

/-- Close peers have their distances for keys. -/
theorem mem_headSet_closePeers (h : Placed n.peerMapSelf n.peerMapVerified) (p : PeerStatistic) :
    p ∈ headSet locationKey remotePeer (n.closePeers locationKey) ↔
      p ∈ (n.closePeers locationKey).values ∧ distanceTo locationKey p < distance locationKey remotePeer.peerId := by
  rcases closePeers_visits h locationKey n.replicationFactor with ⟨_, _, hholds, _⟩
  have hkey (e : Number160 × PeerStatistic) (he : e ∈ (n.closePeers locationKey).entries) :
      e.1 = distanceTo locationKey e.2 :=
    ((hholds.get e.1 e.2).mp ((NavMap.get_eq_some_iff _ e.1 e.2).mpr he)).2
  simp only [headSet, NavMap.values, List.mem_map, List.mem_filter, decide_eq_true_eq]
  constructor
  · rintro ⟨e, ⟨he, hlt⟩, rfl⟩
    rw [hkey e he] at hlt
    exact ⟨⟨e, he, rfl⟩, hlt⟩
  · rintro ⟨⟨e, he, rfl⟩, hlt⟩
    rw [← hkey e he] at hlt
    exact ⟨e, ⟨he, hlt⟩, rfl⟩

/-- What is not closer than itself is another peer. -/
theorem mem_peers_of_mem_headSet (h : Placed n.peerMapSelf n.peerMapVerified) {p : PeerStatistic}
    (hp : p ∈ headSet locationKey remotePeer (n.closePeers locationKey)) :
    p ∈ peers n.peerMapVerified ∧ p.peerAddress.peerId ≠ remotePeer.peerId := by
  rcases (mem_headSet_closePeers h p).mp hp with ⟨hvalue, hlt⟩
  refine ⟨(closePeers_closest _ _ _ _ h).2.1 p hvalue, ?_⟩
  intro hid
  rw [distanceTo, hid] at hlt
  exact lt_irrefl _ hlt

/-- There is a peer to push to if there is any in the map that is closer. -/
theorem exists_closer_iff (h : Placed n.peerMapSelf n.peerMapVerified) (hf : 1 ≤ n.replicationFactor) :
    headSet locationKey remotePeer (n.closePeers locationKey) ≠ [] ↔
      ∃ p ∈ peers n.peerMapVerified, distanceTo locationKey p < distance locationKey remotePeer.peerId := by
  rcases closePeers_closest n.peerMapSelf locationKey n.replicationFactor n.peerMapVerified h with
    ⟨_, hmem, henough, hclosest⟩
  constructor
  · intro hne
    rcases List.exists_mem_of_ne_nil _ hne with ⟨p, hp⟩
    have hp' := (mem_headSet_closePeers h p).mp hp
    exact ⟨p, hmem p hp'.1, hp'.2⟩
  · rintro ⟨p, hp, hlt⟩
    by_cases hin : p ∈ (n.closePeers locationKey).values
    · exact List.ne_nil_of_mem ((mem_headSet_closePeers h p).mpr ⟨hin, hlt⟩)
    · -- The search found at least one peer, and none of those it found is farther.
      have hpos : 0 < (n.closePeers locationKey).values.length := by
        have hpeers := List.length_pos_of_mem hp
        rw [closePeers]
        omega
      rcases List.exists_mem_of_length_pos hpos with ⟨q, hq⟩
      have hle := le_of_not_gt (hclosest p hp hin q hq)
      exact List.ne_nil_of_mem ((mem_headSet_closePeers h q).mpr ⟨hq, lt_of_le_of_lt hle hlt⟩)

end TrackerNeighbors

namespace TrackerCaches

open TrackerNeighbors

variable {T : BitVec 32} (n : TrackerNeighbors) (now : Int) (remotePeer : PeerAddress)

/-- The entries whose keys concern both, each with what is announced under it. -/
def concerned (entries : List (Number320 × Announced T)) : List (Number320 × List (PeerAddress × Data)) :=
  (entries.filter fun entry => concerns n remotePeer entry.1).map fun entry => (entry.1, (entry.2.values now).1)

/-- The push goes to a peer of the map, and not to the one that left. -/
def Reaches (push : TrackerPush) : Prop :=
  push.remotePeer.peerId ≠ remotePeer.peerId ∧
    ∃ p ∈ PeerMap.peers n.peerMapVerified, p.peerAddress = push.remotePeer

/-- No exception, and if there is another peer then everything that concerns both is pushed
    once to such a peer. -/
structure ReactsToDeparture (s : TrackerCaches T) : Prop where
  returns : (peerRemoved n now remotePeer s).2.1 = none
  pushes : (∃ p ∈ PeerMap.peers n.peerMapVerified, p.peerAddress.peerId ≠ remotePeer.peerId) →
    ((peerRemoved n now remotePeer s).1.map fun push => (push.key, push.data)) =
      concerned n now remotePeer (s.dataMap.entrySet now).1
  reaches : ∀ push ∈ (peerRemoved n now remotePeer s).1, Reaches n remotePeer push

/-- There is an exchange to push with, and a peer that is closer than the one that left. -/
def Ready (key : Number320) : Prop :=
  n.peerExchange = true ∧
    ∃ p ∈ PeerMap.peers n.peerMapVerified, distanceTo key.locationKey p < distance key.locationKey remotePeer.peerId

variable {n remotePeer}

theorem one_le_of_concerns {key : Number320} (h : concerns n remotePeer key = true) : 1 ≤ n.replicationFactor := by
  simp only [concerns, isInReplicationRange, Bool.and_eq_true, decide_eq_true_eq] at h
  omega

/-! ### One key -/

theorem pushEntry_ok (h : Placed n.peerMapSelf n.peerMapVerified) {entry : Number320 × Announced T}
    (hconcerns : concerns n remotePeer entry.1 = true) (hready : Ready n remotePeer entry.1) :
    ∃ push, (pushEntry n now remotePeer entry).1 = .ok push ∧ Reaches n remotePeer push ∧
      (push.key, push.data) = (entry.1, (entry.2.values now).1) := by
  have hne := (exists_closer_iff h (one_le_of_concerns hconcerns)).mpr hready.2
  rcases List.getLast?_isSome.mpr hne |> Option.isSome_iff_exists.mp with ⟨p, hp⟩
  have hmem := mem_peers_of_mem_headSet h (List.mem_of_getLast? hp)
  refine ⟨⟨p.peerAddress, entry.1, (entry.2.values now).1⟩, ?_, ⟨hmem.2, p, hmem.1, rfl⟩, rfl⟩
  simp [pushEntry, hp, hready.1]

theorem ready_of_pushEntry (h : Placed n.peerMapSelf n.peerMapVerified) {entry : Number320 × Announced T}
    (hconcerns : concerns n remotePeer entry.1 = true) {push : TrackerPush}
    (hok : (pushEntry n now remotePeer entry).1 = .ok push) : Ready n remotePeer entry.1 := by
  unfold pushEntry at hok
  cases hlast : (headSet entry.1.locationKey remotePeer (n.closePeers entry.1.locationKey)).getLast? with
  | none => simp [hlast] at hok
  | some p =>
      refine ⟨?_, (exists_closer_iff h (one_le_of_concerns hconcerns)).mp ?_⟩
      · by_contra hexchange
        simp [hlast, hexchange] at hok
      · exact List.ne_nil_of_mem (List.mem_of_getLast? hlast)

/-! ### All keys -/

/-- A loop over keys that all have a peer to push to. -/
theorem peerRemovedLoop_ok (h : Placed n.peerMapSelf n.peerMapVerified) (entries : List (Number320 × Announced T))
    (hready : ∀ entry ∈ entries, concerns n remotePeer entry.1 = true → Ready n remotePeer entry.1)
    (pushes : List TrackerPush) (map : Tracked T) :
    ∃ more, (peerRemovedLoop n now remotePeer entries (pushes, map)).1 = pushes ++ more ∧
      (peerRemovedLoop n now remotePeer entries (pushes, map)).2.2 = none ∧
      (more.map fun push => (push.key, push.data)) = concerned n now remotePeer entries ∧
      ∀ push ∈ more, Reaches n remotePeer push := by
  induction entries generalizing pushes map with
  | nil => exact ⟨[], by simp [peerRemovedLoop, concerned]⟩
  | cons entry entries ih =>
      have hrest (e : Number320 × Announced T) (he : e ∈ entries) := hready e (List.mem_cons_of_mem entry he)
      by_cases hconcerns : concerns n remotePeer entry.1 = true
      · rcases pushEntry_ok now h hconcerns (hready entry List.mem_cons_self hconcerns) with
          ⟨push, hok, hreaches, heq⟩
        rcases ih hrest (pushes ++ [push])
          (map.setValue Number320.hashCode entry.1 (pushEntry n now remotePeer entry).2) with
          ⟨more, hpushes, hnone, hmap, hall⟩
        refine ⟨push :: more, ?_, ?_, ?_, ?_⟩
        · simp [peerRemovedLoop, hconcerns, hok, hpushes]
        · simp [peerRemovedLoop, hconcerns, hok, hnone]
        · simp [concerned, hconcerns] at heq hmap ⊢
          exact ⟨heq, hmap⟩
        · simpa using ⟨hreaches, hall⟩
      · rcases ih hrest pushes map with ⟨more, hpushes, hnone, hmap, hall⟩
        refine ⟨more, ?_, ?_, ?_, hall⟩
        · simp [peerRemovedLoop, hconcerns, hpushes]
        · simp [peerRemovedLoop, hconcerns, hnone]
        · simp [concerned, hconcerns] at hmap ⊢
          exact hmap

/-- A loop that ends without an exception had a peer to push to for every key. -/
theorem ready_of_peerRemovedLoop (h : Placed n.peerMapSelf n.peerMapVerified)
    (entries : List (Number320 × Announced T)) (pushes : List TrackerPush) (map : Tracked T)
    (hnone : (peerRemovedLoop n now remotePeer entries (pushes, map)).2.2 = none) :
    ∀ entry ∈ entries, concerns n remotePeer entry.1 = true → Ready n remotePeer entry.1 := by
  induction entries generalizing pushes map with
  | nil => simp
  | cons entry entries ih =>
      by_cases hconcerns : concerns n remotePeer entry.1 = true
      · cases hpush : (pushEntry n now remotePeer entry).1 with
        | error e => simp [peerRemovedLoop, hconcerns, hpush] at hnone
        | ok push =>
            simp only [peerRemovedLoop, hconcerns, hpush, if_true] at hnone
            simpa using ⟨fun _ => ready_of_pushEntry now h hconcerns hpush, fun a b hab => ih _ _ hnone (a, b) hab⟩
      · simp only [peerRemovedLoop, hconcerns] at hnone
        simpa [hconcerns] using fun a b hab => ih _ _ hnone (a, b) hab

/-- A departure is reacted to if there is an exchange, and if no peer leaves that was the
    closest to one of the keys to push. -/
theorem reactsToDeparture_iff (n : TrackerNeighbors) (now : Int) (remotePeer : PeerAddress) (s : TrackerCaches T)
    (h : Placed n.peerMapSelf n.peerMapVerified) :
    ReactsToDeparture n now remotePeer s ↔
      ∀ entry ∈ (s.dataMap.entrySet now).1, concerns n remotePeer entry.1 = true → Ready n remotePeer entry.1 := by
  constructor
  · intro hreacts
    exact ready_of_peerRemovedLoop now h _ [] _ hreacts.returns
  · intro hready
    rcases peerRemovedLoop_ok now h (s.dataMap.entrySet now).1 hready [] (s.dataMap.entrySet now).2 with
      ⟨more, hpushes, hnone, hmap, hall⟩
    rw [List.nil_append] at hpushes
    refine ⟨hnone, fun _ => ?_, ?_⟩
    · exact (congrArg _ hpushes).trans hmap
    · intro push hpush
      exact hall push (hpushes ▸ hpush)

/-- The neighbors of a peer with id 1 that knows three peers. -/
def threeNeighbors : TrackerNeighbors where
  self := { peerId := 1 }
  replicationFactor := 2
  peerMapSelf := 1
  peerMapVerified := threePeers

/-- A peer is announced under one key. -/
def oneAnnounced : TrackerCaches 60 := ((create 60 false).put 0 ⟨8, .ZERO⟩ { peerId := 7 } none none).2

/-- A peer leaves, and of the others one is closer to the key. It is sent what is announced. -/
theorem reactsToDeparture_threeNeighbors :
    ReactsToDeparture threeNeighbors 1000 { peerId := 12 } oneAnnounced ∧
      (peerRemoved threeNeighbors 1000 { peerId := 12 } oneAnnounced).1.map TrackerPush.remotePeer =
        [{ peerId := 9 }] := by
  refine ⟨(reactsToDeparture_iff threeNeighbors 1000 { peerId := 12 } oneAnnounced placed_threePeers).mpr ?_, ?_⟩
  · unfold Ready
    decide +kernel
  · decide +kernel

/-- The closest peer leaves. There are others, but none of them is sent anything. -/
theorem peerRemoved_closest :
    Placed threeNeighbors.peerMapSelf threeNeighbors.peerMapVerified ∧
      (∃ p ∈ PeerMap.peers threeNeighbors.peerMapVerified, p.peerAddress.peerId ≠ 8) ∧
      concerned threeNeighbors 1000 { peerId := 8 } (oneAnnounced.dataMap.entrySet 1000).1 ≠ [] ∧
      (peerRemoved threeNeighbors 1000 { peerId := 8 } oneAnnounced).1 = [] ∧
      (peerRemoved threeNeighbors 1000 { peerId := 8 } oneAnnounced).2.1 = some .noSuchElement ∧
      ¬ ReactsToDeparture threeNeighbors 1000 { peerId := 8 } oneAnnounced := by
  have hthrows : (peerRemoved threeNeighbors 1000 { peerId := 8 } oneAnnounced).2.1 = some .noSuchElement := by
    decide +kernel
  refine ⟨placed_threePeers, by decide +kernel, ?_, by decide +kernel, hthrows, ?_⟩
  · intro hnil
    have hlength : (concerned threeNeighbors 1000 { peerId := 8 } (oneAnnounced.dataMap.entrySet 1000).1).length = 1 := by
      decide +kernel
    rw [hnil] at hlength
    simp at hlength
  · intro hreacts
    have hreturns := hreacts.returns
    rw [hthrows] at hreturns
    simp at hreturns

end TrackerCaches

end TomP2P
