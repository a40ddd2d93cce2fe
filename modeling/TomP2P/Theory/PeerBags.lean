import TomP2P.Theory.ClosePeers

/-!
# What the Bags of a Peer Hold

The invariant of the routing table: every peer is in the bag of its class and
under its own id, no bag is larger than configured, no peer is verified and in the
overflow, and neither the peer itself nor the zero id is there.

A call works on one id and therefore in one pair of bags. What it does there is
one of a few things: renew what is known of a peer, insert it, move it to the
overflow, or remove it. Each of them keeps the invariant (`BagsOk.renewVerified`
and the following), and `peerFound` and `peerFailed` are made of them.

A bag whose configured size is negative is made all the same. It stays empty, but
being empty it is larger than configured.

## Main definitions

* `PeerMap.BagsOk`: The invariant.
* `PeerMap.Call`, `PeerMap.Reachable`: Sequences of calls.

## Theorems

* `PeerMap.bagsOk_peerFound`, `PeerMap.bagsOk_peerFailed`: What one call keeps.
* `PeerMap.Reachable.bagsOk`: What a sequence of calls keeps.
* `PeerMap.Reachable.bags`: The invariant spelled out.
-/

namespace TomP2P

open Function HashedMap

namespace PeerMap

/-- A peer that may be in the bag of this index: it is under its own id, in the
    bag of its class, and it is neither the peer itself nor without an id. -/
structure Belongs (c : PeerMapConfiguration) (j : Nat) (e : Number160 × PeerStatistic) : Prop where
  peerId : e.2.peerId = e.1
  peerAddress : e.2.peerAddress.peerId = e.1
  bag : classMember c.self e.1 = j
  ne_self : e.1 ≠ c.self
  ne_zero : e.1 ≠ Number160.ZERO

/-- A bag of verified peers and the bag of the overflow. A negative size is that
    of an empty bag. -/
structure PairOk (c : PeerMapConfiguration) (j : Nat) (v o : Bag) : Prop where
  verified : ∀ e ∈ v.entries, Belongs c j e
  overflow : ∀ e ∈ o.entries, Belongs c j e
  verified_size : (v.size : Int) ≤ max (c.bagSizesVerified j).toInt 0
  overflow_size : (o.size : Int) ≤ max (c.bagSizesOverflow j).toInt 0
  apart : ∀ id, v.contains id = true → ¬ o.contains id = true

/-- The invariant. -/
def BagsOk (c : PeerMapConfiguration) (m : PeerMap) : Prop :=
  ∀ j, PairOk c j (m.peerMapVerified j) (m.peerMapOverflow j)

/-! ### What is done to a pair of bags -/

namespace PairOk

variable {c : PeerMapConfiguration} {j : Nat} {v o : Bag} {id : Number160} {s : PeerStatistic}

theorem forall_put {P : Number160 × PeerStatistic → Prop} (h : ∀ e ∈ v.entries, P e) (hs : P (id, s)) :
    ∀ e ∈ (v.put id s).entries, P e := by
  intro e he
  rcases (mem_put _ _ _ _).mp he with rfl | ⟨he, _⟩
  · exact hs
  · exact h e he

theorem forall_remove {P : Number160 × PeerStatistic → Prop} (h : ∀ e ∈ v.entries, P e) :
    ∀ e ∈ (v.remove id).entries, P e := fun e he => h e ((mem_remove _ _ _).mp he).1

theorem contains_put {k : Number160} (h : (v.put id s).contains k = true) :
    k = id ∨ v.contains k = true := by
  obtain ⟨t, ht⟩ := (contains_iff _ _).mp h
  rcases (mem_put _ _ _ _).mp ht with heq | ⟨ht, _⟩
  · exact .inl (congrArg Prod.fst heq)
  · exact .inr ((contains_iff _ _).mpr ⟨t, ht⟩)

theorem contains_remove {k : Number160} (h : (v.remove id).contains k = true) :
    k ≠ id ∧ v.contains k = true := by
  obtain ⟨t, ht⟩ := (contains_iff _ _).mp h
  obtain ⟨ht, hne⟩ := (mem_remove _ _ _).mp ht
  exact ⟨hne, (contains_iff _ _).mpr ⟨t, ht⟩⟩

/-- What is known of a verified peer is renewed. -/
theorem renewVerified (h : PairOk c j v o) (hin : v.contains id = true) (hs : Belongs c j (id, s)) :
    PairOk c j (v.put id s) o where
  verified := forall_put h.verified hs
  overflow := h.overflow
  verified_size := by
    rw [size_put_of_contains _ _ _ hin]
    exact h.verified_size
  overflow_size := h.overflow_size
  apart k hk := by
    rcases contains_put hk with rfl | hk
    · exact h.apart k hin
    · exact h.apart k hk

/-- What is known of a peer in the overflow is renewed. -/
theorem renewOverflow (h : PairOk c j v o) (hin : o.contains id = true) (hs : Belongs c j (id, s)) :
    PairOk c j v (o.put id s) where
  verified := h.verified
  overflow := forall_put h.overflow hs
  verified_size := h.verified_size
  overflow_size := by
    rw [size_put_of_contains _ _ _ hin]
    exact h.overflow_size
  apart k hv hk := by
    rcases contains_put hk with rfl | hk
    · exact h.apart k hv hin
    · exact h.apart k hv hk

/-- A peer is inserted into a bag that has room, and leaves the overflow. -/
theorem insert (h : PairOk c j v o) (hin : ¬ v.contains id = true)
    (hroom : (v.size : Int) < (c.bagSizesVerified j).toInt) (hs : Belongs c j (id, s)) :
    PairOk c j (v.put id s) (o.remove id) where
  verified := forall_put h.verified hs
  overflow := forall_remove h.overflow
  verified_size := by
    rw [size_put_of_not_contains _ _ _ hin]
    omega
  overflow_size := by
    have hle := o.size_remove_le id
    have hold := h.overflow_size
    omega
  apart k hv hk := by
    obtain ⟨hne, hk⟩ := contains_remove hk
    exact h.apart k ((contains_put hv).resolve_left hne) hk

/-- A peer that is not verified goes to the overflow. -/
theorem putOverflow (h : PairOk c j v o) (hin : ¬ v.contains id = true) (hs : Belongs c j (id, s)) :
    PairOk c j v (CacheMap.put (c.bagSizesOverflow j).toInt o id s) where
  verified := h.verified
  overflow := by
    intro e he
    rcases CacheMap.mem_put he with rfl | ⟨he, _⟩
    · exact hs
    · exact h.overflow e he
  verified_size := h.verified_size
  overflow_size := CacheMap.size_put_le h.overflow_size id s
  apart k hv hk := by
    obtain ⟨t, ht⟩ := (contains_iff _ _).mp hk
    rcases CacheMap.mem_put ht with heq | ⟨ht, _⟩
    · cases heq
      exact hin hv
    · exact h.apart k hv ((contains_iff _ _).mpr ⟨t, ht⟩)

/-- A peer leaves both bags. -/
theorem remove (h : PairOk c j v o) : PairOk c j (v.remove id) (o.remove id) where
  verified := forall_remove h.verified
  overflow := forall_remove h.overflow
  verified_size := by
    have hle := v.size_remove_le id
    have hold := h.verified_size
    omega
  overflow_size := by
    have hle := o.size_remove_le id
    have hold := h.overflow_size
    omega
  apart k hv hk := h.apart k (contains_remove hv).2 (contains_remove hk).2

end PairOk

/-! ### What a call does -/

variable {c : PeerMapConfiguration} {m m' : PeerMap}

/-- One pair of bags changes. -/
theorem BagsOk.update (h : BagsOk c m) {i : Nat} {v o : Bag}
    (hv : m'.peerMapVerified = update m.peerMapVerified i v)
    (ho : m'.peerMapOverflow = update m.peerMapOverflow i o) (hpair : PairOk c i v o) :
    BagsOk c m' := by
  intro j
  rw [hv, ho]
  by_cases hj : j = i
  · subst hj
    rw [update_self, update_self]
    exact hpair
  · rw [update_of_ne hj, update_of_ne hj]
    exact h j

/-- The dead peers do not matter. -/
theorem BagsOk.congr (h : BagsOk c m) (hv : m'.peerMapVerified = m.peerMapVerified)
    (ho : m'.peerMapOverflow = m.peerMapOverflow) : BagsOk c m' := by
  intro j
  rw [hv, ho]
  exact h j

theorem bags_isPeerRemovedTemporarly (m : PeerMap) (now : Int) (id : Number160) :
    (m.isPeerRemovedTemporarly now id).2.peerMapVerified = m.peerMapVerified ∧
      (m.isPeerRemovedTemporarly now id).2.peerMapOverflow = m.peerMapOverflow := by
  unfold isPeerRemovedTemporarly
  dsimp only
  split
  · exact ⟨rfl, rfl⟩
  · split
    · exact ⟨rfl, rfl⟩
    · exact ⟨rfl, rfl⟩

theorem bags_bury (m : PeerMap) (now : Int) (p : PeerAddress) (reason : AbortCause) :
    (m.bury now p reason).peerMapVerified = m.peerMapVerified ∧
      (m.bury now p reason).peerMapOverflow = m.peerMapOverflow := by
  cases reason <;> exact ⟨rfl, rfl⟩

/-- The id of a call is one that may be stored. -/
structure Storable (c : PeerMapConfiguration) (id : Number160) : Prop where
  ne_zero : id ≠ Number160.ZERO
  ne_self : id ≠ c.self

/-- A statistic with the id belongs to the bag of the id. -/
theorem Storable.belongs {id : Number160} (h : Storable c id) {s : PeerStatistic} (hid : s.peerId = id)
    (haddr : s.peerAddress.peerId = id) : Belongs c (bagOf c.self id) (id, s) where
  peerId := hid
  peerAddress := haddr
  bag := by
    rcases classMember_cases c.self id with hself | ⟨j, _, hj⟩
    · exact absurd ((classMember_eq_neg_one_iff c.self id).mp hself).symm h.ne_self
    · rw [bagOf, hj, Int.toNat_natCast]
  ne_self := h.ne_self
  ne_zero := h.ne_zero

theorem Belongs.of_get {j : Nat} {bag : Bag} {id : Number160} {s : PeerStatistic}
    (h : ∀ e ∈ bag.entries, Belongs c j e) (hget : bag.get id = some s) : Belongs c j (id, s) :=
  h (id, s) ((get_eq_some_iff _ _ _).mp hget)

theorem contains_of_get {bag : Bag} {id : Number160} {s : PeerStatistic} (h : bag.get id = some s) :
    bag.contains id = true := by
  rw [HashedMap.contains, h]
  rfl

theorem not_contains_of_get {bag : Bag} {id : Number160} (h : bag.get id = none) :
    ¬ bag.contains id = true := by
  rw [HashedMap.contains, h]
  exact Bool.false_ne_true

theorem bagsOk_insertOverflow (h : BagsOk c m) {now : Int} {p : PeerAddress} {firstHand : Bool}
    (hp : Storable c p.peerId)
    (hin : ¬ (m.peerMapVerified (bagOf c.self p.peerId)).contains p.peerId = true) :
    BagsOk c (m.insertOverflow c (bagOf c.self p.peerId) now p firstHand) := by
  have hknown : ∀ s, s = ((m.peerMapOverflow (bagOf c.self p.peerId)).get p.peerId).getD
      (PeerStatistic.new now p) → s.peerId = p.peerId ∧ s.peerAddress.peerId = p.peerId := by
    rintro s rfl
    cases hget : (m.peerMapOverflow (bagOf c.self p.peerId)).get p.peerId with
    | none => exact ⟨rfl, rfl⟩
    | some s =>
        have hbelongs := Belongs.of_get (h _).overflow hget
        exact ⟨hbelongs.peerId, hbelongs.peerAddress⟩
  refine h.update (update_eq_self _ _).symm rfl ?_
  refine (h _).putOverflow hin ?_
  have hids := hknown _ rfl
  cases firstHand with
  | true | false => exact hp.belongs hids.1 hids.2

theorem bagsOk_accept (h : BagsOk c m) {now : Int} {p : PeerAddress} {firstHand direct : Bool}
    (hp : Storable c p.peerId) : BagsOk c (accept c m now p firstHand direct).1 := by
  unfold accept updateExistingVerifiedPeerAddress
  dsimp only
  cases hget : (m.peerMapVerified (bagOf c.self p.peerId)).get p.peerId with
  | none =>
      dsimp only
      have hin := not_contains_of_get hget
      split
      · next hroom =>
          rw [Bool.and_eq_true, decide_eq_true_eq] at hroom
          exact h.update rfl rfl ((h _).insert hin hroom.2 (hp.belongs rfl rfl))
      · exact bagsOk_insertOverflow h hp hin
  | some old =>
      dsimp only
      have hbelongs := Belongs.of_get (h _).verified hget
      cases firstHand with
      | false => exact h.congr (update_eq_self _ _) rfl
      | true =>
          rw [if_pos rfl, PeerStatistic.setPeerAddress, if_neg (not_not.mpr hbelongs.peerId)]
          refine h.update rfl (update_eq_self _ _).symm ?_
          exact (h _).renewVerified (contains_of_get hget) (hp.belongs hbelongs.peerId rfl)

theorem bagsOk_judge (h : BagsOk c m) (now : Int) (p : PeerAddress) (firstHand thirdHand direct : Bool) :
    BagsOk c (judge c m now p firstHand thirdHand direct).1 := by
  have hdead (id : Number160) : BagsOk c (m.isPeerRemovedTemporarly now id).2 :=
    h.congr (bags_isPeerRemovedTemporarly m now id).1 (bags_isPeerRemovedTemporarly m now id).2
  unfold judge
  dsimp only
  split
  · exact h
  · next hid =>
      rw [Bool.or_eq_true, Bool.or_eq_true, not_or, not_or, decide_eq_true_eq] at hid
      have hp : Storable c p.peerId :=
        ⟨fun hzero => hid.1.1 (decide_eq_true hzero), fun hself => hid.1.2 hself.symm⟩
      split
      · exact h
      · split
        · exact hdead _
        · exact bagsOk_accept (hdead _) hp

/-- Finding a peer keeps the invariant. -/
theorem bagsOk_peerFound (h : BagsOk c m) (now : Int) (p : PeerAddress) (referrer : Option PeerAddress) :
    BagsOk c (peerFound c m now p referrer).1 := by
  refine bagsOk_judge ?_ now p _ _ _
  split
  · exact h.congr rfl rfl
  · exact h

/-- A failure of a peer that is there is counted. -/
theorem updatePeerStatistic_cases (p : PeerAddress) (bag : Bag) (maxFail : BitVec 32) :
    (updatePeerStatistic p bag maxFail).2 = bag ∨
      ∃ s, bag.get p.peerId = some s ∧ (updatePeerStatistic p bag maxFail).2 = bag.put p.peerId s.fail := by
  unfold updatePeerStatistic
  cases hget : bag.get p.peerId with
  | none => exact .inl rfl
  | some s => exact .inr ⟨s, rfl, rfl⟩

theorem bagsOk_countVerified (h : BagsOk c m) (p : PeerAddress) : BagsOk c (m.countVerified c p).2 := by
  refine h.update rfl (update_eq_self _ _).symm ?_
  rcases updatePeerStatistic_cases p (m.peerMapVerified (bagOf c.self p.peerId)) c.offlineCount with
    hsame | ⟨s, hget, hput⟩
  · rw [hsame]
    exact h _
  · rw [hput]
    have hold := Belongs.of_get (h _).verified hget
    exact (h _).renewVerified (contains_of_get hget) ⟨hold.1, hold.2, hold.3, hold.4, hold.5⟩

theorem bagsOk_countOverflow (h : BagsOk c m) (p : PeerAddress) : BagsOk c (m.countOverflow c p).2 := by
  refine h.update (update_eq_self _ _).symm rfl ?_
  rcases updatePeerStatistic_cases p (m.peerMapOverflow (bagOf c.self p.peerId)) c.offlineCount with
    hsame | ⟨s, hget, hput⟩
  · rw [hsame]
    exact h _
  · rw [hput]
    have hold := Belongs.of_get (h _).overflow hget
    exact (h _).renewOverflow (contains_of_get hget) ⟨hold.1, hold.2, hold.3, hold.4, hold.5⟩

theorem bagsOk_forceFailed (h : BagsOk c m) (now : Int) (p : PeerAddress) (reason : AbortCause) :
    BagsOk c (m.forceFailed c now p reason).1 := by
  have hbury := h.congr (bags_bury m now p reason).1 (bags_bury m now p reason).2
  exact hbury.update rfl rfl (hbury _).remove

/-- A property that counting and burying keep is kept by a failure. -/
theorem peerFailed_induction {P : PeerMap → Prop} {now : Int} {p : PeerAddress} {reason : AbortCause}
    (h : P m) (hverified : ∀ m, P m → P (m.countVerified c p).2)
    (hoverflow : ∀ m, P m → P (m.countOverflow c p).2)
    (hforce : ∀ m cause, P m → P (m.forceFailed c now p cause).1) :
    P (peerFailed c m now p reason).1 := by
  unfold peerFailed
  dsimp only
  split
  · exact h
  · split
    · exact hforce m _ h
    · split
      · exact hforce _ _ (hverified m h)
      · split
        · exact hforce _ _ (hoverflow _ (hverified m h))
        · exact hoverflow _ (hverified m h)

/-- Failing to contact a peer keeps the invariant. -/
theorem bagsOk_peerFailed (h : BagsOk c m) (now : Int) (p : PeerAddress) (reason : AbortCause) :
    BagsOk c (peerFailed c m now p reason).1 :=
  peerFailed_induction h (fun _ h => bagsOk_countVerified h p) (fun _ h => bagsOk_countOverflow h p)
    fun _ cause h => bagsOk_forceFailed h now p cause

/-! ### Sequences of calls -/

/-- A call with the time it is made. -/
inductive Call
  | peerFound (now : Int) (remotePeer : PeerAddress) (referrer : Option PeerAddress)
  | peerFailed (now : Int) (remotePeer : PeerAddress) (reason : AbortCause)

def Call.apply (c : PeerMapConfiguration) (m : PeerMap) : Call → PeerMap
  | .peerFound now remotePeer referrer => (PeerMap.peerFound c m now remotePeer referrer).1
  | .peerFailed now remotePeer reason => (PeerMap.peerFailed c m now remotePeer reason).1

/-- The states after a sequence of calls on a new map. -/
inductive Reachable (c : PeerMapConfiguration) : PeerMap → Prop
  | create {m : PeerMap} (h : PeerMap.create c = .ok m) : Reachable c m
  | call {m : PeerMap} (h : Reachable c m) (call : Call) : Reachable c (call.apply c m)

theorem bagsOk_create (h : create c = .ok m) : BagsOk c m := by
  unfold create at h
  split at h
  · cases h
  · split at h
    · cases h
    · cases h
      intro j
      exact {
        verified := fun e he => (List.not_mem_nil he).elim
        overflow := fun e he => (List.not_mem_nil he).elim
        verified_size := le_max_right _ _
        overflow_size := le_max_right _ _
        apart := fun id hv => absurd hv Bool.false_ne_true }

theorem Reachable.bagsOk (h : Reachable c m) : BagsOk c m := by
  induction h with
  | create h => exact bagsOk_create h
  | call _ call ih =>
      cases call with
      | peerFound now p referrer => exact bagsOk_peerFound ih now p referrer
      | peerFailed now p reason => exact bagsOk_peerFailed ih now p reason

/-- In every state: every peer is in the bag of its class, under its own id, and
    it is neither the peer itself nor without an id. No bag is larger than
    configured, where a negative size counts as none. No peer is in both maps. -/
theorem Reachable.bags (h : Reachable c m) :
    (∀ j, ∀ e ∈ (m.peerMapVerified j).entries,
      classMember c.self e.1 = j ∧ e.2.peerAddress.peerId = e.1 ∧ e.1 ≠ c.self ∧ e.1 ≠ Number160.ZERO) ∧
    (∀ j, ∀ e ∈ (m.peerMapOverflow j).entries,
      classMember c.self e.1 = j ∧ e.2.peerAddress.peerId = e.1 ∧ e.1 ≠ c.self ∧ e.1 ≠ Number160.ZERO) ∧
    (∀ j, ((m.peerMapVerified j).size : Int) ≤ max (c.bagSizesVerified j).toInt 0) ∧
    (∀ j, ((m.peerMapOverflow j).size : Int) ≤ max (c.bagSizesOverflow j).toInt 0) ∧
    ∀ id i j, (m.peerMapVerified i).contains id = true → ¬ (m.peerMapOverflow j).contains id = true := by
  have hbags := h.bagsOk
  refine ⟨?_, ?_, fun j => (hbags j).verified_size, fun j => (hbags j).overflow_size, ?_⟩
  · intro j e he
    have hb := (hbags j).verified e he
    exact ⟨hb.bag, hb.peerAddress, hb.ne_self, hb.ne_zero⟩
  · intro j e he
    have hb := (hbags j).overflow e he
    exact ⟨hb.bag, hb.peerAddress, hb.ne_self, hb.ne_zero⟩
  · intro id i j hv ho
    obtain ⟨s, hs⟩ := (contains_iff _ _).mp hv
    obtain ⟨t, ht⟩ := (contains_iff _ _).mp ho
    -- the class of the id is the index of both bags
    have hi := ((hbags i).verified _ hs).bag
    have hj := ((hbags j).overflow _ ht).bag
    have hij : i = j := by
      rw [hi] at hj
      exact Int.ofNat.inj hj
    exact (hbags i).apart id hv (hij ▸ ho)

/-- A configuration with the same size for all bags. -/
def sized (size : BitVec 32) : PeerMapConfiguration where
  self := 1
  bagSizesVerified := fun _ => size
  bagSizesOverflow := fun _ => size
  offlineTimeout := 60
  shutdownTimeout := 20
  exceptionTimeout := 120
  offlineCount := 3
  peerMapFilters := []
  peerVerification := true

theorem create_sized (size : BitVec 32) (h : 0 ≤ size.toInt.tdiv 8) :
    create (sized size) = .ok (fresh (sized size)) := by
  have hinit : initMap (sized size).bagSizesVerified = .ok () := by
    unfold initMap
    dsimp only [sized]
    rw [if_neg (by omega)]
    induction List.range Number160.BITS with
    | nil => rfl
    | cons i is ih => exact ih
  unfold create
  rw [hinit]
  rfl

theorem bags_sized :
    ((((Call.peerFound 0 { peerId := 5 } none).apply (sized 8) (fresh (sized 8))).peerMapVerified 2).size :
      Int) ≤ max ((sized 8).bagSizesVerified 2).toInt 0 :=
  (Reachable.bags ((Reachable.create (create_sized 8 (by decide))).call
    (.peerFound 0 { peerId := 5 } none))).2.2.1 2

/-- An empty bag is larger than configured, if it is configured with a negative
    size. -/
theorem not_bags_sized_negative :
    ¬ ∀ c m, Reachable c m → ∀ j, ((m.peerMapVerified j).size : Int) ≤ (c.bagSizesVerified j).toInt := by
  intro h
  have hneg := h _ _ (Reachable.create (create_sized (-1) (by decide))) 0
  revert hneg
  decide

end PeerMap

end TomP2P
