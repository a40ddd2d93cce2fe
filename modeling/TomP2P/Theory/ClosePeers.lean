import TomP2P.Core.PeerMap

/-!
# The Closest Peers

A search by bags finds the closest peers.

The bags are sorted by the distance to the peer that keeps them, and the search
is for the peers that are close to another id. Seen from there, the peers in the
bag of that id come first, those in the bags below it come next, and those above
it come last, bag after bag (`closer_of_bag`). The search visits the bags in that
order, and it stops between two of the three groups only, or between any two bags
if the id is that of the peer itself.

The result is a set that is sorted by the distance. Peers of a map have different
ids and therefore different distances, so that no peer is lost to another one
(`Holds`).

## Main definitions

* `PeerMap.Placed`: Every peer is in the bag of its class.
* `PeerMap.searched`: The bags a search visits.
* `PeerMap.Holds`: A set holds these peers.

## Theorems

* `PeerMap.closer_of_bag`: The order of the bags seen from another id.
* `PeerMap.closePeers_visits`: Which bags a search visits.
* `PeerMap.closePeers_closest`: What a search returns.
-/

namespace TomP2P

open XorClass NavMap

namespace PeerMap

/-- Every peer is in the bag of its class, under its own id. -/
def Placed (self : Number160) (peerMap : Nat → Bag) : Prop :=
  ∀ j < Number160.BITS, ∀ e ∈ (peerMap j).entries,
    e.2.peerAddress.peerId = e.1 ∧ classMember self e.1 = j

/-- The peers of some bags. -/
def peersOf (peerMap : Nat → Bag) (js : List Nat) : List PeerStatistic :=
  js.flatMap fun j => (peerMap j).entries.map Prod.snd

/-- All peers. -/
def peers (peerMap : Nat → Bag) : List PeerStatistic := peersOf peerMap (List.range Number160.BITS)

/-- The first bags, until there are enough peers with those that were found before. -/
def searchedUntil (atLeast : Int) (peerMap : Nat → Bag) : List Nat → Nat → List Nat
  | [], _ => []
  | j :: js, found =>
      let found := found + (peersOf peerMap [j]).length
      if atLeast ≤ found then [j] else j :: searchedUntil atLeast peerMap js found

/-- The bags that a search visits, by the numbers of their peers. -/
def searched (self other : Number160) (atLeast : Int) (peerMap : Nat → Bag) : List Nat :=
  let bag := classMember self other
  if bag = -1 then searchedUntil atLeast peerMap (List.range Number160.BITS) 0
  else
    let bag := bag.toNat
    let below := [bag] ++ List.range bag
    if atLeast ≤ (peersOf peerMap [bag]).length then [bag]
    else if 0 < bag ∧ atLeast ≤ (peersOf peerMap below).length then below
    else below ++ List.range' (bag + 1) (Number160.BITS - (bag + 1))

/-- The distance of a peer to an id. -/
def distanceTo (other : Number160) (p : PeerStatistic) : Number160 :=
  distance other p.peerAddress.peerId

/-! ### Distances seen from another id -/

theorem classMember_eq_iff (self id : Number160) (j : Nat) :
    classMember self id = j ↔ InClass j (self.toNat ^^^ id.toNat) := by
  rw [classMember, Number160.bitLength_eq, Number160.toNat_xor]
  by_cases hzero : self.toNat ^^^ id.toNat = 0
  · rw [if_pos hzero, hzero]
    have hpos := Nat.two_pow_pos j
    refine ⟨fun h => by omega, ?_⟩
    intro h
    have hle := h.1
    omega
  · rw [if_neg hzero]
    refine ⟨?_, ?_⟩
    · intro h
      have hlog : (self.toNat ^^^ id.toNat).log2 = j := by omega
      exact hlog ▸ inClass_log2 hzero
    · intro h
      rw [h.log2_eq]
      omega

theorem classMember_eq_neg_one_iff (self id : Number160) : classMember self id = -1 ↔ self = id := by
  rw [classMember, Number160.bitLength_eq, Number160.toNat_xor]
  by_cases hzero : self.toNat ^^^ id.toNat = 0
  · rw [if_pos hzero]
    refine ⟨fun _ => Number160.toNat_injective (Nat.xor_eq_zero_iff.mp hzero), fun _ => rfl⟩
  · rw [if_neg hzero]
    refine ⟨fun h => by omega, ?_⟩
    rintro rfl
    exact absurd (Nat.xor_self _) hzero

theorem classMember_lt (self id : Number160) : classMember self id < Number160.BITS := by
  rw [classMember, Number160.bitLength_eq, Number160.toNat_xor]
  by_cases hzero : self.toNat ^^^ id.toNat = 0
  · rw [if_pos hzero]
    decide
  · rw [if_neg hzero]
    have hlog := (Nat.log2_lt hzero).mpr (Nat.xor_lt_two_pow self.toNat_lt id.toNat_lt)
    have hbits : Number160.BITS = 160 := rfl
    omega

/-- The class of an id other than that of the peer itself is the index of a bag. -/
theorem classMember_cases (self id : Number160) :
    classMember self id = -1 ∨ ∃ c < Number160.BITS, classMember self id = (c : Nat) := by
  have hlt := classMember_lt self id
  have hge : -1 ≤ classMember self id := by
    rw [classMember]
    omega
  rcases Int.eq_ofNat_of_zero_le (a := classMember self id + 1) (by omega) with ⟨n, hn⟩
  rcases n with _ | c
  · left
    omega
  · right
    exact ⟨c, by omega, by omega⟩

/-- The distance of two ids, measured by way of a third. -/
theorem xor_via (s t p : Nat) : t ^^^ p = (s ^^^ p) ^^^ (s ^^^ t) := by
  rw [Nat.xor_comm s p, Nat.xor_assoc, ← Nat.xor_assoc s s t, Nat.xor_self, Nat.zero_xor, Nat.xor_comm]

theorem lt_iff_toNat (a b : Number160) : a < b ↔ a.toNat < b.toNat := by
  rw [← not_le, ← not_le, Number160.le_iff]

/-- The order of the bags seen from an id of class `c`: its own bag, the bags
    below, the bags above in their order. -/
theorem closer_of_bag {self other p q : Number160} {c i j : Nat} (hc : classMember self other = c)
    (hp : classMember self p = i) (hq : classMember self q = j)
    (h : (i = c ∧ j ≠ c) ∨ (i ≤ c ∧ c < j)) : distance other p < distance other q := by
  rw [classMember_eq_iff] at hc hp hq
  rw [lt_iff_toNat, distance, distance, Number160.toNat_xor, Number160.toNat_xor,
    xor_via self.toNat other.toNat p.toNat, xor_via self.toNat other.toNat q.toNat]
  have hlow (hi : i ≤ c) : (self.toNat ^^^ p.toNat) ^^^ (self.toNat ^^^ other.toNat) < 2 ^ (c + 1) := by
    have hp' : self.toNat ^^^ p.toNat < 2 ^ (c + 1) :=
      lt_of_lt_of_le hp.2 (Nat.pow_le_pow_right (by omega) (by omega))
    exact Nat.xor_lt_two_pow hp' hc.2
  have habove (hj : c < j) : 2 ^ (c + 1) ≤ (self.toNat ^^^ q.toNat) ^^^ (self.toNat ^^^ other.toNat) :=
    le_trans (Nat.pow_le_pow_right (by omega) hj) (xor_of_gt hq hc.2 hj).1
  rcases h with ⟨rfl, hj⟩ | ⟨hi, hj⟩
  · rcases Nat.lt_or_gt_of_ne hj with hlt | hgt
    · -- a bag below moves up to the class of the id
      have hq' : self.toNat ^^^ q.toNat < 2 ^ i :=
        lt_of_lt_of_le hq.2 (Nat.pow_le_pow_right (by omega) hlt)
      exact lt_of_lt_of_le (xor_lt hp hc) (xor_of_lt hq' hc).1
    · exact lt_of_lt_of_le (hlow (Nat.le_refl i)) (habove hgt)
  · exact lt_of_lt_of_le (hlow hi) (habove hj)

/-- Seen from the peer itself, the bags are in order. -/
theorem closer_of_bag_self {self p q : Number160} {i j : Nat} (hp : classMember self p = i)
    (hq : classMember self q = j) (h : i < j) : distance self p < distance self q := by
  rw [classMember_eq_iff] at hp hq
  rw [lt_iff_toNat, distance, distance, Number160.toNat_xor, Number160.toNat_xor]
  exact lt_of_lt_of_le hp.2 (le_trans (Nat.pow_le_pow_right (by omega) h) hq.1)

theorem distance_injective (other : Number160) : Function.Injective (distance other) := by
  intro p q h
  have hnat := congrArg Number160.toNat h
  rw [distance, distance, Number160.toNat_xor, Number160.toNat_xor] at hnat
  exact Number160.toNat_injective (Nat.xor_right_injective hnat)

/-! ### What a set holds -/

/-- The set holds these peers and no others, by their distances. -/
structure Holds (other : Number160) (set : CloseSet) (ps : List PeerStatistic) : Prop where
  get : ∀ d p, set.get d = some p ↔ p ∈ ps ∧ d = distanceTo other p
  size : set.size = ps.length

variable {other : Number160} {set : CloseSet} {ps : List PeerStatistic}

theorem Holds.empty (other : Number160) : Holds other .empty [] where
  get d p := by simp
  size := rfl

/-- A peer with an id that is not there yet is added. -/
theorem Holds.addClose (h : Holds other set ps) (p : PeerStatistic)
    (hnew : ∀ q ∈ ps, q.peerAddress.peerId ≠ p.peerAddress.peerId) :
    Holds other (addClose other set p) (ps ++ [p]) := by
  have hno : set.contains (distanceTo other p) = false := by
    by_contra hin
    rw [Bool.not_eq_false, contains_iff] at hin
    obtain ⟨q, hq⟩ := hin
    obtain ⟨hmem, hd⟩ := (h.get _ _).mp hq
    exact hnew q hmem (distance_injective other hd).symm
  have hadd : PeerMap.addClose other set p = set.put (distanceTo other p) p := by
    unfold PeerMap.addClose
    exact if_neg (by rw [← distanceTo, hno]; exact Bool.false_ne_true)
  rw [hadd]
  refine ⟨?_, ?_⟩
  · intro d q
    rw [get_put, List.mem_append, List.mem_singleton]
    by_cases hd : d = distanceTo other p
    · rw [if_pos hd, Option.some.injEq]
      constructor
      · rintro rfl
        exact ⟨.inr rfl, hd⟩
      · rintro ⟨hq | rfl, hdq⟩
        · exact absurd (distance_injective other (hdq.symm.trans hd)) (hnew q hq)
        · rfl
    · rw [if_neg hd, h.get]
      constructor
      · rintro ⟨hq, hdq⟩
        exact ⟨.inl hq, hdq⟩
      · rintro ⟨hq | rfl, hdq⟩
        · exact ⟨hq, hdq⟩
        · exact absurd hdq hd
  · rw [size_put_of_not_contains _ _ _ hno, h.size, List.length_append, List.length_singleton]

theorem Holds.foldl (h : Holds other set ps) (qs : List PeerStatistic)
    (hnodup : ((ps ++ qs).map fun p => p.peerAddress.peerId).Nodup) :
    Holds other (qs.foldl (PeerMap.addClose other) set) (ps ++ qs) := by
  induction qs generalizing set ps with
  | nil =>
      rw [List.append_nil]
      exact h
  | cons q qs ih =>
      have hnew (p : PeerStatistic) (hp : p ∈ ps) : p.peerAddress.peerId ≠ q.peerAddress.peerId := by
        rw [List.map_append, List.nodup_append] at hnodup
        exact hnodup.2.2 _ (List.mem_map_of_mem hp) _ (List.mem_map_of_mem List.mem_cons_self)
      have hassoc : ps ++ q :: qs = ps ++ [q] ++ qs := by
        rw [List.append_assoc, List.singleton_append]
      rw [hassoc] at hnodup ⊢
      exact ih (h.addClose q hnew) hnodup

/-- What is in the set, sorted by the distance. -/
theorem Holds.sorted (h : Holds other set ps) :
    set.values.Pairwise fun p q => distanceTo other p < distanceTo other q := by
  have hkey (e : Number160 × PeerStatistic) (he : e ∈ set.entries) : e.1 = distanceTo other e.2 :=
    ((h.get e.1 e.2).mp ((get_eq_some_iff set e.1 e.2).mpr he)).2
  rw [NavMap.values, List.pairwise_map]
  refine set.sorted.imp_of_mem ?_
  intro a b ha hb hab
  rw [← hkey a ha, ← hkey b hb]
  exact hab

theorem Holds.mem_values (h : Holds other set ps) (p : PeerStatistic) : p ∈ set.values ↔ p ∈ ps := by
  rw [NavMap.values, List.mem_map]
  constructor
  · rintro ⟨⟨d, q⟩, hmem, rfl⟩
    exact ((h.get d q).mp ((get_eq_some_iff set d q).mpr hmem)).1
  · intro hp
    refine ⟨(distanceTo other p, p), ?_, rfl⟩
    exact (get_eq_some_iff set _ p).mp ((h.get _ p).mpr ⟨hp, rfl⟩)

/-! ### Visiting bags -/

variable {self : Number160} {peerMap : Nat → Bag}

theorem peersOf_append (peerMap : Nat → Bag) (js ks : List Nat) :
    peersOf peerMap (js ++ ks) = peersOf peerMap js ++ peersOf peerMap ks := List.flatMap_append

theorem peersOf_singleton (peerMap : Nat → Bag) (j : Nat) :
    peersOf peerMap [j] = (peerMap j).entries.map Prod.snd := List.flatMap_singleton _ _

theorem mem_peersOf (h : Placed self peerMap) (js : List Nat) (hjs : ∀ j ∈ js, j < Number160.BITS)
    {p : PeerStatistic} (hp : p ∈ peersOf peerMap js) :
    ∃ j ∈ js, classMember self p.peerAddress.peerId = j := by
  obtain ⟨j, hj, hp⟩ := List.mem_flatMap.mp hp
  obtain ⟨e, he, rfl⟩ := List.mem_map.mp hp
  have hplace := h j (hjs j hj) e he
  rw [hplace.1]
  exact ⟨j, hj, hplace.2⟩

/-- The ids of peers in different bags, or under different keys of a bag, differ. -/
theorem nodup_ids (h : Placed self peerMap) {js : List Nat} (hjs : ∀ j ∈ js, j < Number160.BITS)
    (hnodup : js.Nodup) : ((peersOf peerMap js).map fun p => p.peerAddress.peerId).Nodup := by
  induction js with
  | nil => exact List.nodup_nil
  | cons j js ih =>
      have hbag : ((peersOf peerMap [j]).map fun p => p.peerAddress.peerId) =
          (peerMap j).entries.map Prod.fst := by
        rw [peersOf_singleton, List.map_map]
        exact List.map_congr_left fun e he => (h j (hjs j List.mem_cons_self) e he).1
      have hrest (k : Nat) (hk : k ∈ js) : k < Number160.BITS := hjs k (List.mem_cons_of_mem j hk)
      rw [← List.singleton_append, peersOf_append, List.map_append]
      refine List.nodup_append.mpr ⟨?_, ih hrest (List.nodup_cons.mp hnodup).2, ?_⟩
      · rw [hbag]
        exact (peerMap j).nodup
      · intro a ha b hb heq
        obtain ⟨p, hp, rfl⟩ := List.mem_map.mp ha
        obtain ⟨q, hq, rfl⟩ := List.mem_map.mp hb
        obtain ⟨i, hi, hpi⟩ := mem_peersOf h [j]
          (fun k hk => List.mem_singleton.mp hk ▸ hjs j List.mem_cons_self) hp
        obtain ⟨k, hk, hqk⟩ := mem_peersOf h js hrest hq
        rw [heq, hqk] at hpi
        have hik : j = k := by
          rw [List.mem_singleton] at hi
          omega
        exact (List.nodup_cons.mp hnodup).1 (hik ▸ hk)

theorem fillSet_holds (h : Placed self peerMap) (atLeast : Int) (js : List Nat) (j : Nat)
    (hjs : ∀ i ∈ js ++ [j], i < Number160.BITS) (hnodup : (js ++ [j]).Nodup)
    (hset : Holds other set (peersOf peerMap js)) :
    Holds other (fillSet other atLeast set (peerMap j)).2 (peersOf peerMap (js ++ [j])) ∧
      ((fillSet other atLeast set (peerMap j)).1 = true ↔ atLeast ≤ (peersOf peerMap (js ++ [j])).length) := by
  have hids := nodup_ids h hjs hnodup
  have hholds : Holds other (fillSet other atLeast set (peerMap j)).2 (peersOf peerMap (js ++ [j])) := by
    rw [peersOf_append, peersOf_singleton] at hids ⊢
    exact hset.foldl _ hids
  refine ⟨hholds, ?_⟩
  rw [← hholds.size]
  exact decide_eq_true_iff

/-- A search that stops early has visited the first bags, and found enough. -/
theorem fillUntil_visits (h : Placed self peerMap) (atLeast : Int) (js ks : List Nat) (set : CloseSet)
    (hjs : ∀ i ∈ js ++ ks, i < Number160.BITS) (hnodup : (js ++ ks).Nodup)
    (hset : Holds other set (peersOf peerMap js)) :
    ∃ rest, ks = searchedUntil atLeast peerMap ks (peersOf peerMap js).length ++ rest ∧
      Holds other (fillUntil other atLeast peerMap ks set)
        (peersOf peerMap (js ++ searchedUntil atLeast peerMap ks (peersOf peerMap js).length)) ∧
      (rest = [] ∨ atLeast ≤ (fillUntil other atLeast peerMap ks set).size) := by
  induction ks generalizing js set with
  | nil =>
      refine ⟨[], rfl, ?_, .inl rfl⟩
      rw [searchedUntil, List.append_nil]
      exact hset
  | cons k ks ih =>
      have hassoc : js ++ k :: ks = js ++ [k] ++ ks := by
        rw [List.append_assoc, List.singleton_append]
      rw [hassoc] at hjs hnodup
      have hfill := fillSet_holds h atLeast js k (fun i hi => hjs i (List.mem_append_left _ hi))
        (List.Nodup.of_append_left hnodup) hset
      have hfound : (peersOf peerMap js).length + (peersOf peerMap [k]).length =
          (peersOf peerMap (js ++ [k])).length := by
        rw [peersOf_append, List.length_append]
      rw [fillUntil, searchedUntil, hfound]
      by_cases henough : (fillSet other atLeast set (peerMap k)).1 = true
      · rw [if_pos henough, if_pos (hfill.2.mp henough)]
        refine ⟨ks, rfl, hfill.1, .inr ?_⟩
        rw [hfill.1.size]
        exact hfill.2.mp henough
      · rcases ih (js ++ [k]) _ hjs hnodup hfill.1 with ⟨rest, heq, hholds, hstop⟩
        rw [if_neg henough, if_neg fun hle => henough (hfill.2.mpr hle)]
        refine ⟨rest, ?_, ?_, hstop⟩
        · rw [List.cons_append, ← heq]
        · rw [List.append_assoc, List.singleton_append] at hholds
          exact hholds

/-- A search that does not stop has visited all bags. -/
theorem fillAll_visits (h : Placed self peerMap) (atLeast : Int) (js ks : List Nat)
    (start : Bool × CloseSet) (hjs : ∀ i ∈ js ++ ks, i < Number160.BITS) (hnodup : (js ++ ks).Nodup)
    (hset : Holds other start.2 (peersOf peerMap js)) :
    Holds other (fillAll other atLeast peerMap ks start).2 (peersOf peerMap (js ++ ks)) ∧
      ((fillAll other atLeast peerMap ks start).1 = true ↔
        if ks = [] then start.1 = true else atLeast ≤ (peersOf peerMap (js ++ ks)).length) := by
  induction ks generalizing js start with
  | nil =>
      rw [List.append_nil]
      exact ⟨hset, Iff.rfl⟩
  | cons k ks ih =>
      have hassoc : js ++ k :: ks = js ++ [k] ++ ks := by
        rw [List.append_assoc, List.singleton_append]
      rw [hassoc] at hjs hnodup ⊢
      have hfill := fillSet_holds h atLeast js k (fun i hi => hjs i (List.mem_append_left _ hi))
        (List.Nodup.of_append_left hnodup) hset
      have hrest := ih (js ++ [k]) _ hjs hnodup hfill.1
      refine ⟨hrest.1, ?_⟩
      rw [if_neg (List.cons_ne_nil k ks)]
      refine hrest.2.trans ?_
      by_cases hnil : ks = []
      · rw [if_pos hnil, hnil, List.append_nil]
        exact hfill.2
      · rw [if_neg hnil]

theorem range_split {c n : Nat} (h : c < n) :
    List.range n = List.range c ++ c :: List.range' (c + 1) (n - (c + 1)) := by
  have hn : n = c + (1 + (n - (c + 1))) := by omega
  rw [List.range_eq_range', List.range_eq_range']
  conv_lhs => rw [hn]
  rw [← List.range'_append_1, Nat.zero_add, ← List.range'_append_1]
  rfl

/-- Every bag is visited or not. What was visited is closer than what was not, and
    if something was not, there is enough. -/
theorem closePeers_visits (h : Placed self peerMap) (other : Number160) (atLeast : Int) :
    ∃ rest : List Nat, (searched self other atLeast peerMap ++ rest).Perm (List.range Number160.BITS) ∧
      Holds other (closePeers self other atLeast peerMap) (peersOf peerMap (searched self other atLeast peerMap)) ∧
      (rest = [] ∨ atLeast ≤ (closePeers self other atLeast peerMap).size) ∧
      ∀ i ∈ searched self other atLeast peerMap, ∀ j ∈ rest, ∀ p q, classMember self p = i → classMember self q = j →
        distance other p < distance other q := by
  have hrange (i : Nat) (hi : i ∈ List.range Number160.BITS) : i < Number160.BITS := List.mem_range.mp hi
  rcases classMember_cases self other with hself | ⟨c, hc, hclass⟩
  · -- the bags are in order, so that any first ones will do
    have heq : closePeers self other atLeast peerMap =
        fillUntil other atLeast peerMap (List.range Number160.BITS) .empty := if_pos hself
    have hsearched : searched self other atLeast peerMap =
        searchedUntil atLeast peerMap (List.range Number160.BITS) 0 := if_pos hself
    have hnodup : ([] ++ List.range Number160.BITS).Nodup := by
      rw [List.nil_append]
      exact List.nodup_range
    rcases fillUntil_visits h atLeast [] (List.range Number160.BITS) .empty hrange hnodup (Holds.empty other) with
      ⟨rest, hsplit, hholds, hstop⟩
    change List.range Number160.BITS = searchedUntil atLeast peerMap (List.range Number160.BITS) 0 ++ rest at hsplit
    rw [heq, hsearched]
    refine ⟨rest, hsplit ▸ List.Perm.refl _, hholds, hstop, ?_⟩
    intro i hi j hj p q hp hq
    have hother : self = other := (classMember_eq_neg_one_iff self other).mp hself
    subst hother
    have hsorted : (searchedUntil atLeast peerMap (List.range Number160.BITS) 0 ++ rest).Pairwise (· < ·) := by
      rw [← hsplit]
      exact List.pairwise_lt_range
    exact closer_of_bag_self hp hq ((List.pairwise_append.mp hsorted).2.2 i hi j hj)
  · have hperm : (([c] ++ List.range c) ++ List.range' (c + 1) (Number160.BITS - (c + 1))).Perm
        (List.range Number160.BITS) := by
      rw [range_split hc, List.append_assoc, List.singleton_append]
      exact List.perm_middle.symm
    have hnodup := hperm.nodup_iff.mpr List.nodup_range
    have hall (i : Nat) (hi : i ∈ [c] ++ List.range c ++ List.range' (c + 1) (Number160.BITS - (c + 1))) :
        i < Number160.BITS := hrange i (hperm.mem_iff.mp hi)
    -- The bag of the id comes first, then the bags below it, and then those above.
    have hfirst := fillSet_holds h atLeast [] c (fun i hi => by
      rw [List.nil_append, List.mem_singleton] at hi
      exact hi ▸ hc) (List.nodup_singleton c) (Holds.empty other)
    rw [List.nil_append] at hfirst
    have hbelow := fillAll_visits h atLeast [c] (List.range c) (false, _)
      (fun i hi => hall i (List.mem_append_left _ hi)) (List.Nodup.of_append_left hnodup) hfirst.1
    have habove := fillAll_visits h atLeast _ _ (false, _) hall hnodup hbelow.1
    have hneg : ¬ classMember self other = -1 := by omega
    have hnat : (classMember self other).toNat = c := by omega
    have hrangec : List.range c = [] ↔ ¬ 0 < c := by
      rw [List.range_eq_nil]
      omega
    unfold closePeers searched
    dsimp only
    rw [if_neg hneg, if_neg hneg, hnat]
    by_cases henough : (fillSet other atLeast .empty (peerMap c)).1 = true
    · -- The bag of the id has enough.
      have hcount := hfirst.2.mp henough
      rw [if_pos henough, if_pos hcount]
      refine ⟨List.range c ++ List.range' (c + 1) (Number160.BITS - (c + 1)), ?_, hfirst.1, .inr ?_, ?_⟩
      · rw [← List.append_assoc]
        exact hperm
      · rw [hfirst.1.size]
        exact hcount
      · intro i hi j hj p q hp hq
        have hic : i = c := List.mem_singleton.mp hi
        refine closer_of_bag hclass hp hq (.inl ⟨hic, ?_⟩)
        rintro rfl
        rw [List.append_assoc] at hnodup
        exact (List.nodup_append.mp hnodup).2.2 i hi i (hic ▸ hj) rfl
    · rw [if_neg henough, if_neg fun hle => henough (hfirst.2.mpr hle)]
      by_cases henough' : (fillAll other atLeast peerMap (List.range c)
          (false, (fillSet other atLeast .empty (peerMap c)).2)).1 = true
      · -- there are bags below, or there was nothing to go on with
        have hflag := hbelow.2.mp henough'
        have hcount : 0 < c ∧ atLeast ≤ (peersOf peerMap ([c] ++ List.range c)).length := by
          by_cases hpos : 0 < c
          · rw [if_neg fun hnil => hrangec.mp hnil hpos] at hflag
            exact ⟨hpos, hflag⟩
          · rw [if_pos (hrangec.mpr hpos)] at hflag
            exact absurd hflag Bool.false_ne_true
        rw [if_pos henough', if_pos hcount]
        refine ⟨_, hperm, hbelow.1, .inr ?_, ?_⟩
        · rw [hbelow.1.size]
          exact hcount.2
        · intro i hi j hj p q hp hq
          refine closer_of_bag hclass hp hq (.inr ⟨?_, ?_⟩)
          · rcases List.mem_append.mp hi with hi | hi
            · exact Nat.le_of_eq (List.mem_singleton.mp hi)
            · exact Nat.le_of_lt (List.mem_range.mp hi)
          · exact (List.mem_range'_1.mp hj).1
      · have hcount : ¬(0 < c ∧ atLeast ≤ (peersOf peerMap ([c] ++ List.range c)).length) := by
          rintro ⟨hpos, hle⟩
          refine henough' (hbelow.2.mpr ?_)
          rw [if_neg fun hnil => hrangec.mp hnil hpos]
          exact hle
        rw [if_neg henough', if_neg hcount]
        -- All bags were visited.
        refine ⟨[], ?_, habove.1, .inl rfl, ?_⟩
        · rw [List.append_nil]
          exact hperm
        · intro i _ j hj
          exact (List.not_mem_nil hj).elim

/-- A search returns peers of the map, sorted by their distance, at least as many
    as asked for or all there are, and none that is left out is closer than one
    that is returned. -/
theorem closePeers_closest (self other : Number160) (atLeast : Int) (peerMap : Nat → Bag)
    (h : Placed self peerMap) :
    ((closePeers self other atLeast peerMap).values.Pairwise fun p q =>
      distanceTo other p < distanceTo other q) ∧
    (∀ p ∈ (closePeers self other atLeast peerMap).values, p ∈ peers peerMap) ∧
    min atLeast (peers peerMap).length ≤ (closePeers self other atLeast peerMap).values.length ∧
    ∀ p ∈ peers peerMap, p ∉ (closePeers self other atLeast peerMap).values →
      ∀ q ∈ (closePeers self other atLeast peerMap).values,
        ¬ distanceTo other p < distanceTo other q := by
  rcases closePeers_visits h other atLeast with ⟨rest, hperm, hholds, hstop, hcloser⟩
  generalize searched self other atLeast peerMap = visited at hperm hholds hcloser
  have hpeers : (peersOf peerMap (visited ++ rest)).Perm (peers peerMap) := hperm.flatMap_right _
  rw [peersOf_append] at hpeers
  have hbound (i : Nat) (hi : i ∈ visited ++ rest) : i < Number160.BITS :=
    List.mem_range.mp (hperm.mem_iff.mp hi)
  have hsize : (closePeers self other atLeast peerMap).values.length = (peersOf peerMap visited).length := by
    rw [← hholds.size, NavMap.values, List.length_map]
    rfl
  refine ⟨hholds.sorted, ?_, ?_, ?_⟩
  · intro p hp
    exact hpeers.mem_iff.mp (List.mem_append_left _ ((hholds.mem_values p).mp hp))
  · rw [hsize, ← hpeers.length_eq, List.length_append]
    rcases hstop with rfl | henough
    · exact min_le_right _ _
    · rw [hholds.size] at henough
      omega
  · intro p hp hnot q hq
    have hrest : p ∈ peersOf peerMap rest := by
      rcases List.mem_append.mp (hpeers.mem_iff.mpr hp) with hin | hin
      · exact absurd ((hholds.mem_values p).mpr hin) hnot
      · exact hin
    obtain ⟨i, hi, hqi⟩ := mem_peersOf h visited (fun k hk => hbound k (List.mem_append_left _ hk))
      ((hholds.mem_values q).mp hq)
    obtain ⟨j, hj, hpj⟩ := mem_peersOf h rest (fun k hk => hbound k (List.mem_append_right _ hk)) hrest
    exact not_lt_of_gt (hcloser i hi j hj _ _ hqi hpj)

/-- A peer with id 1 that knows three peers. -/
def threePeers (j : Nat) : Bag :=
  let peer (id : Number160) : PeerStatistic := PeerStatistic.new 0 { peerId := id }
  if j = 2 then (HashedMap.empty.put 5 (peer 5)).put 4 (peer 4)
  else if j = 3 then HashedMap.empty.put 9 (peer 9)
  else .empty

theorem placed_threePeers : Placed 1 threePeers := by
  intro j _ e he
  unfold threePeers at he
  split at he
  · next hj =>
      subst hj
      revert e
      decide
  · split at he
    · next hj =>
        subst hj
        revert e
        decide
    · exact (List.not_mem_nil he).elim

theorem closePeers_threePeers :
    Placed 1 threePeers ∧
      min (2 : Int) (peers threePeers).length ≤ (closePeers 1 8 2 threePeers).values.length :=
  ⟨placed_threePeers, (closePeers_closest 1 8 2 threePeers placed_threePeers).2.2.1⟩

end PeerMap

end TomP2P
