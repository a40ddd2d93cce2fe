import Mathlib.Algebra.Order.BigOperators.Group.List
import Mathlib.Data.Finset.Card
import TomP2P.Core.Broadcast
import TomP2P.Theory.ClosePeers

/-!
# A Broadcast Reaches Every Peer

Every peer of a network gets a broadcast and passes it on once, in whatever order the
messages are delivered and however often.

The peers whose distance to each other is below a power of two are a subtree of the
trie of all ids. A peer may first hear of the message from close by and then cover only
a small subtree. The peer that hears of it first of all peers of a subtree hears of it
from outside, though, and so it covers the whole subtree: `Inv.leads` says that there is
such a peer for every subtree that has a peer that knows the message. It has sent the
message to the other half of the subtree if there is a peer in it, so going down the
trie all peers are found (`Inv.reaches`).

A message that has made some hops came down that many classes, and its receiver has
peers in all of them (`Honest.hops`). One more class below makes more filled bags than
there were hops, which is why the limit of the hops does not cut off anything
(`Honest.within`).

## Main definitions

* `Network`: Peers with peer maps that know a peer of each class there is.
* `Broadcast.Honest`: A message that a broadcast can lead to.
* `Broadcast.Inv`: What holds in every state.
* `Broadcast.Lossless`: Runs in which every message is delivered.

## Theorems

* `Broadcast.Honest.within`: The limit of the hops does not cut off anything.
* `Broadcast.Inv.receive`: Receiving a message keeps what holds.
* `Broadcast.Inv.reaches`: When all messages were delivered all peers know.
* `Broadcast.Lossless.reachesAll`: Every peer gets a broadcast and passes it on once.
-/

namespace TomP2P

open XorClass PeerMap Function List

/-- The distance of two ids, as a number. -/
def apart (x y : Number160) : Nat := x.toNat ^^^ y.toNat

theorem apart_self (x : Number160) : apart x x = 0 := Nat.xor_self _

theorem apart_comm (x y : Number160) : apart x y = apart y x := Nat.xor_comm _ _

theorem apart_lt (x y : Number160) : apart x y < 2 ^ Number160.BITS :=
  Nat.xor_lt_two_pow x.toNat_lt y.toNat_lt

/-- The distance by way of a third id. -/
theorem apart_via (x y z : Number160) : apart y z = apart x y ^^^ apart x z := by
  unfold apart
  rw [Nat.xor_comm x.toNat y.toNat, Nat.xor_assoc, ← Nat.xor_assoc x.toNat x.toNat, Nat.xor_self, Nat.zero_xor]

theorem eq_of_apart {x y : Number160} (h : apart x y < 2 ^ 0) : x = y :=
  Number160.toNat_injective (Nat.xor_eq_zero_iff.mp (Nat.lt_one_iff.mp h))

/-- Ids that are close to one id are close to each other. -/
theorem near_via {h : Nat} {x y z : Number160} (hy : apart x y < 2 ^ h) (hz : apart x z < 2 ^ h) :
    apart y z < 2 ^ h := by
  rw [apart_via x y z]
  exact Nat.xor_lt_two_pow hy hz

/-- Ids of one class are closer to each other. -/
theorem near_of_class {h : Nat} {x y z : Number160} (hy : InClass h (apart x y)) (hz : InClass h (apart x z)) :
    apart y z < 2 ^ h := by
  rw [apart_via x y z]
  exact xor_lt hy hz

/-- An id has the same class for ids that are close to each other. -/
theorem class_of_near {h : Nat} {x y z : Number160} (hy : apart x y < 2 ^ h) (hz : InClass h (apart x z)) :
    InClass h (apart y z) := by
  rw [apart_via x y z]
  exact xor_of_lt hy hz

theorem lt_of_inClass {d : Nat} {x y : Number160} (h : InClass d (apart x y)) : d < Number160.BITS := by
  by_contra hge
  have hle : 2 ^ Number160.BITS ≤ 2 ^ d := Nat.pow_le_pow_right (by omega) (by omega)
  have hlt := apart_lt x y
  have hclass := h.1
  omega

/-- Peers with peer maps: everybody in a bag is of its class and a peer, and a bag has
    somebody if there is a peer of its class. -/
structure Network where
  peers : Finset Number160
  maps : Broadcast.PeerMaps
  placed : ∀ x ∈ peers, Placed x (maps x)
  closed : ∀ x ∈ peers, ∀ j < Number160.BITS, ∀ e ∈ (maps x j).entries, e.1 ∈ peers
  filled : ∀ x ∈ peers, ∀ y ∈ peers, ∀ j < Number160.BITS, classMember x y = j → (maps x j).entries ≠ []

/-! ### Peers of the bags -/

section Bags

variable {peerMap : Nat → Bag} {p : PeerAddress} {b : Int}

theorem mem_fromEachBag (h : p ∈ fromEachBag peerMap Broadcast.FROM_EACH_BAG b) :
    ∃ j < Number160.BITS, (j : Int) < b ∧ p ∈ addresses (peerMap j) := by
  unfold fromEachBag at h
  rw [if_neg (by decide), mem_flatMap] at h
  obtain ⟨j, hj, hp⟩ := h
  split at hp
  · cases hp
  · exact ⟨j, mem_range.mp hj, by omega, mem_of_mem_take hp⟩

/-- A bag below the limit that has a peer contributes one. -/
theorem exists_mem_fromEachBag {j : Nat} (hj : j < Number160.BITS) (hb : (j : Int) < b)
    (h : (peerMap j).entries ≠ []) :
    ∃ p ∈ fromEachBag peerMap Broadcast.FROM_EACH_BAG b, p ∈ addresses (peerMap j) := by
  obtain ⟨e, es, heq⟩ := exists_cons_of_ne_nil h
  have haddresses : addresses (peerMap j) = e.2.peerAddress :: es.map fun e => e.2.peerAddress := by
    rw [addresses, heq, map_cons]
  refine ⟨e.2.peerAddress, ?_, by rw [haddresses]; exact mem_cons_self⟩
  unfold fromEachBag
  rw [if_neg (by decide), mem_flatMap]
  refine ⟨j, mem_range.mpr hj, ?_⟩
  rw [if_neg (by omega), haddresses]
  exact mem_cons_self

theorem length_fromEachBag (peerMap : Nat → Bag) (b : Int) :
    (fromEachBag peerMap Broadcast.FROM_EACH_BAG b).length ≤ 480 := by
  unfold fromEachBag
  rw [if_neg (by decide), length_flatMap]
  refine Nat.le_trans (sum_le_card_nsmul _ 3 ?_) ?_
  · intro n hn
    obtain ⟨j, -, rfl⟩ := mem_map.mp hn
    split
    · exact Nat.zero_le _
    · exact Nat.le_trans (length_take_le _ _) (by decide)
  · rw [length_map, length_range]
    decide

/-- Bags that have a peer are counted. -/
theorem card_le_nrFilledBags (classes : Finset Nat)
    (h : ∀ d ∈ classes, d < Number160.BITS ∧ (peerMap d).entries ≠ []) : classes.card ≤ nrFilledBags peerMap := by
  have hsub : classes ⊆ ((List.range Number160.BITS).filter fun i => 0 < (peerMap i).size).toFinset := by
    intro d hd
    rw [mem_toFinset, mem_filter, mem_range, decide_eq_true_iff]
    exact ⟨(h d hd).1, length_pos_of_ne_nil (h d hd).2⟩
  unfold nrFilledBags
  rw [countP_eq_length_filter]
  exact Nat.le_trans (Finset.card_le_card hsub) (toFinset_card_le _)

end Bags

namespace Broadcast

variable {net : Network} {key initiator : Number160} {s : Broadcast} {m : BroadcastMessage}

/-! ### Messages -/

/-- A message that a broadcast can lead to. It has come down as many classes as it made
    hops, and its receiver has peers in all of them. -/
structure Honest (net : Network) (key : Number160) (m : BroadcastMessage) : Prop where
  key : m.messageKey = key
  receiver : m.receiver ∈ net.peers
  bucket : 0 ≤ m.bucketNr ∧ m.bucketNr ≤ Number160.BITS
  root : m.hopCount = 0 → m.bucketNr = Number160.BITS
  hops : ∃ classes : Finset Nat, (classes.card : Int) = m.hopCount ∧
    ∀ d ∈ classes, m.bucketNr ≤ d ∧ ∃ z ∈ net.peers, InClass d (apart m.receiver z)

theorem honest_first (h : initiator ∈ net.peers) : Honest net key (first initiator key) where
  key := rfl
  receiver := h
  bucket := ⟨Int.natCast_nonneg _, le_refl _⟩
  root := fun _ => rfl
  hops := ⟨∅, rfl, nofun⟩

/-- A bag has a peer if there is one of its class. -/
theorem entries_ne_nil {x y : Number160} (hx : x ∈ net.peers) (hy : y ∈ net.peers) {d : Nat}
    (hd : InClass d (apart x y)) : d < Number160.BITS ∧ (net.maps x d).entries ≠ [] :=
  ⟨lt_of_inClass hd, net.filled x hx y hy d (lt_of_inClass hd) ((classMember_eq_iff x y d).mpr hd)⟩

/-- A message that has a peer to go to has not made too many hops. -/
theorem Honest.within (h : Honest net key m) {y : Number160} (hy : y ∈ net.peers) {d : Nat}
    (hd : (d : Int) < m.bucketNr) (hclass : InClass d (apart m.receiver y)) :
    m.hopCount < nrFilledBags (net.maps m.receiver) := by
  obtain ⟨classes, hcard, hclasses⟩ := h.hops
  have hnew : d ∉ classes := by
    intro hin
    have hle := (hclasses d hin).1
    omega
  have hfilled : (insert d classes).card ≤ nrFilledBags (net.maps m.receiver) := by
    refine card_le_nrFilledBags _ fun c hc => ?_
    rcases Finset.mem_insert.mp hc with rfl | hc
    · exact entries_ne_nil h.receiver hy hclass
    · obtain ⟨-, z, hz, hzclass⟩ := hclasses c hc
      exact entries_ne_nil h.receiver hz hzclass
  rw [Finset.card_insert_of_notMem hnew] at hfilled
  omega

theorem Honest.hopCount_lt (h : Honest net key m) : 0 ≤ m.hopCount ∧ m.hopCount ≤ Number160.BITS := by
  obtain ⟨classes, hcard, hclasses⟩ := h.hops
  have hsub : classes ⊆ Finset.range Number160.BITS := by
    intro d hd
    obtain ⟨-, z, -, hclass⟩ := hclasses d hd
    exact Finset.mem_range.mpr (lt_of_inClass hclass)
  have hle := Finset.card_le_card hsub
  rw [Finset.card_range] at hle
  omega

/-- The message that is passed on to a peer. -/
def passOn (m : BroadcastMessage) (peerAddress : PeerAddress) : BroadcastMessage where
  messageKey := m.messageKey
  sender := m.receiver
  receiver := peerAddress.peerId
  hopCount := int (m.hopCount + 1)
  bucketNr := classMember peerAddress.peerId m.receiver

/-- A peer of a bag. -/
theorem mem_addresses {x : Number160} (hx : x ∈ net.peers) {j : Nat} (hj : j < Number160.BITS) {p : PeerAddress}
    (hp : p ∈ addresses (net.maps x j)) : p.peerId ∈ net.peers ∧ InClass j (apart x p.peerId) := by
  obtain ⟨e, he, rfl⟩ := mem_map.mp hp
  obtain ⟨hid, hclass⟩ := net.placed x hx j hj e he
  rw [hid]
  exact ⟨net.closed x hx j hj e he, (classMember_eq_iff x e.1 j).mp hclass⟩

/-- What is passed on is honest again: one hop more, one class more. -/
theorem Honest.passOn (h : Honest net key m) {j : Nat} (hj : j < Number160.BITS) (hb : (j : Int) < m.bucketNr)
    {p : PeerAddress} (hp : p ∈ addresses (net.maps m.receiver j)) :
    Honest net key (passOn m p) ∧ (Broadcast.passOn m p).bucketNr = j := by
  obtain ⟨hpeer, hclass⟩ := mem_addresses h.receiver hj hp
  obtain ⟨hlow, hhigh⟩ := h.hopCount_lt
  have hbits : Number160.BITS = 160 := rfl
  have hhop : (Broadcast.passOn m p).hopCount = m.hopCount + 1 := int_eq (by omega) (by omega)
  have hbucket : (Broadcast.passOn m p).bucketNr = j := by
    refine (classMember_eq_iff _ _ _).mpr ?_
    have hclass' := hclass
    rw [apart_comm] at hclass'
    exact hclass'
  obtain ⟨classes, hcard, hclasses⟩ := h.hops
  refine ⟨⟨h.key, hpeer, by rw [hbucket]; omega, fun hzero => ?_, insert j classes, ?_, ?_⟩, hbucket⟩
  · rw [hhop] at hzero
    omega
  · have hnew : j ∉ classes := by
      intro hin
      have hle := (hclasses j hin).1
      omega
    rw [Finset.card_insert_of_notMem hnew, hhop]
    push_cast
    omega
  · intro d hd
    rw [hbucket]
    rcases Finset.mem_insert.mp hd with rfl | hd
    · refine ⟨le_refl _, m.receiver, h.receiver, ?_⟩
      have hclass' := hclass
      rw [apart_comm] at hclass'
      exact hclass'
    · obtain ⟨hle, z, hz, hzclass⟩ := hclasses d hd
      refine ⟨by omega, z, hz, class_of_near ?_ hzclass⟩
      exact lt_of_lt_of_le hclass.2 (Nat.pow_le_pow_right (by omega) (by omega))

/-! ### Receiving a message -/

theorem receive_seen {maps : PeerMaps} (h : m.messageKey ∈ s.cache m.receiver) : s.receive maps m = s := by
  unfold receive twiceSeen
  rw [if_pos h]
  rfl

/-- A message that is new is counted and passed on within the limit of the hops. -/
theorem receive_unseen {maps : PeerMaps} (h : m.messageKey ∉ s.cache m.receiver) :
    s.receive maps m =
      let s' := { s with
        cache := update s.cache m.receiver (m.messageKey :: s.cache m.receiver)
        broadcastCounter := s.broadcastCounter + 1
        passed := s.passed ++ [m] }
      if m.hopCount < nrFilledBags (maps m.receiver) then
        if m.hopCount = 0 then s'.firstPeer maps m else s'.otherPeer maps m
      else s' := by
  unfold receive twiceSeen
  rw [if_neg h]
  rfl

/-- A message that is new is passed on to some peers: to one of each class below its
    bag, if there are any. -/
theorem receive_new (hm : Honest net key m) (h : m.messageKey ∉ s.cache m.receiver) :
    ∃ list : List PeerAddress,
      s.receive net.maps m =
        { s with
          cache := update s.cache m.receiver (m.messageKey :: s.cache m.receiver)
          broadcastCounter := s.broadcastCounter + 1
          messageCounter := s.messageCounter + BitVec.ofNat 32 list.length
          sent := s.sent ++ list.map (passOn m)
          passed := s.passed ++ [m] } ∧
      list.length ≤ 480 ∧
      (∀ p ∈ list, ∃ j < Number160.BITS, (j : Int) < m.bucketNr ∧ p ∈ addresses (net.maps m.receiver j)) ∧
      ∀ d : Nat, (d : Int) < m.bucketNr → ∀ y ∈ net.peers, InClass d (apart m.receiver y) →
        ∃ p ∈ list, InClass d (apart m.receiver p.peerId) := by
  rw [receive_unseen h]
  dsimp only
  by_cases hhop : m.hopCount < nrFilledBags (net.maps m.receiver)
  · refine ⟨fromEachBag (net.maps m.receiver) FROM_EACH_BAG m.bucketNr, ?_, length_fromEachBag _ _,
      fun p hp => mem_fromEachBag hp, ?_⟩
    · rw [if_pos hhop]
      split
      · next hzero =>
          rw [firstPeer, hm.root hzero]
          rfl
      · rfl
    · intro d hd y hy hclass
      obtain ⟨hlt, hne⟩ := entries_ne_nil hm.receiver hy hclass
      obtain ⟨p, hp, hin⟩ := exists_mem_fromEachBag hlt hd hne
      exact ⟨p, hp, (mem_addresses hm.receiver hlt hin).2⟩
  · refine ⟨[], ?_, Nat.zero_le _, fun p hp => absurd hp not_mem_nil, ?_⟩
    · rw [if_neg hhop, map_nil, append_nil]
      simp
    · exact fun d hd y hy hclass => absurd (hm.within hy hd hclass) hhop

/-- The peers that know the message, in the order in which they got it. -/
def informed (s : Broadcast) : List Number160 := s.passed.map (·.receiver)

/-- What holds in every state of a broadcast, which began with the counters `counter` and
    `messages`. -/
structure Inv (net : Network) (key : Number160) (counter messages : BitVec 32) (s : Broadcast) : Prop where
  knows : ∀ x ∈ net.peers, key ∈ s.cache x ↔ x ∈ s.informed
  once : s.informed.Nodup
  passed : ∀ m ∈ s.passed, Honest net key m
  sent : ∀ m ∈ s.sent, Honest net key m ∧ m.sender ∈ s.informed ∧
    ∃ c : Nat, m.bucketNr = c ∧ InClass c (apart m.receiver m.sender)
  /-- A peer that has passed the message on has done so to all classes below. -/
  forwards : ∀ m ∈ s.passed, ∀ d : Nat, (d : Int) < m.bucketNr → ∀ y ∈ net.peers,
    InClass d (apart m.receiver y) → ∃ m' ∈ s.sent, InClass d (apart m.receiver m'.receiver)
  /-- In every subtree with a peer that knows the message one covers the subtree. -/
  leads : ∀ m ∈ s.passed, ∀ h ≤ Number160.BITS, ∃ m' ∈ s.passed,
    apart m'.receiver m.receiver < 2 ^ h ∧ (h : Int) ≤ m'.bucketNr
  heard : ∀ i ∈ s.delivered, ∃ m, s.sent[i]? = some m ∧ m.receiver ∈ s.informed
  counted : s.broadcastCounter = counter + BitVec.ofNat 32 s.informed.length
  sentCounted : s.messageCounter = messages + BitVec.ofNat 32 s.sent.length
  bounded : s.sent.length ≤ 480 * s.informed.length

variable {counter messages : BitVec 32}

/-- A new message. There has to be somebody who covers the subtrees of its receiver. -/
theorem Inv.receive_new (h : Inv net key counter messages s) (hm : Honest net key m)
    (hnew : m.messageKey ∉ s.cache m.receiver)
    (hleads : ∀ h ≤ Number160.BITS, ∃ m' ∈ s.passed ++ [m],
      apart m'.receiver m.receiver < 2 ^ h ∧ (h : Int) ≤ m'.bucketNr) :
    Inv net key counter messages (s.receive net.maps m) := by
  obtain ⟨list, heq, hlength, hlist, hall⟩ := Broadcast.receive_new hm hnew
  rw [hm.key] at hnew heq
  have hfresh : m.receiver ∉ s.informed := fun hin => hnew ((h.knows _ hm.receiver).mpr hin)
  have hinformed : (s.receive net.maps m).informed = s.informed ++ [m.receiver] := by
    rw [heq, informed, map_append]
    rfl
  have hlen : (s.receive net.maps m).informed.length = s.informed.length + 1 := by
    rw [hinformed, length_append, length_singleton]
  have hgrows (x : Number160) (hx : x ∈ s.informed) : x ∈ (s.receive net.maps m).informed := by
    rw [hinformed]
    exact mem_append_left _ hx
  have hsent : (s.receive net.maps m).sent = s.sent ++ list.map (passOn m) := by rw [heq]
  have hpassed : (s.receive net.maps m).passed = s.passed ++ [m] := by rw [heq]
  have hcases (x : BroadcastMessage) (hx : x ∈ (s.receive net.maps m).passed) : x ∈ s.passed ∨ x = m := by
    rw [hpassed, mem_append, mem_singleton] at hx
    exact hx
  -- The receiver is informed now, and what it passes on is sent.
  refine ⟨?_, ?_, ?_, ?_, ?_, ?_, ?_, ?_, ?_, ?_⟩
  · intro x hx
    rw [hinformed, mem_append, mem_singleton, heq]
    dsimp only
    by_cases hxm : x = m.receiver
    · subst hxm
      rw [update_self]
      exact ⟨fun _ => .inr rfl, fun _ => mem_cons_self⟩
    · rw [update_of_ne hxm, h.knows x hx]
      exact ⟨.inl, fun hor => hor.resolve_right hxm⟩
  · rw [hinformed, nodup_append]
    refine ⟨h.once, nodup_singleton _, fun x hx y hy hxy => hfresh ?_⟩
    rw [mem_singleton] at hy
    rw [← hy, ← hxy]
    exact hx
  · intro x hx
    rcases hcases x hx with hx | rfl
    · exact h.passed x hx
    · exact hm
  · intro x hx
    rw [hsent, mem_append] at hx
    rcases hx with hx | hx
    · obtain ⟨hhonest, hsender, hclass⟩ := h.sent x hx
      exact ⟨hhonest, hgrows _ hsender, hclass⟩
    · -- A message that is passed on goes to a peer of the subtree that it is to cover.
      obtain ⟨p, hp, rfl⟩ := mem_map.mp hx
      obtain ⟨j, hj, hb, hin⟩ := hlist p hp
      obtain ⟨hhonest, hbucket⟩ := hm.passOn hj hb hin
      refine ⟨hhonest, ?_, j, hbucket, ?_⟩
      · rw [hinformed]
        exact mem_append_right _ (mem_singleton_self _)
      · rw [apart_comm]
        exact (mem_addresses hm.receiver hj hin).2
  · intro x hx d hd y hy hclass
    rw [hsent]
    rcases hcases x hx with hx | rfl
    · obtain ⟨m', hm', hclass'⟩ := h.forwards x hx d hd y hy hclass
      exact ⟨m', mem_append_left _ hm', hclass'⟩
    · obtain ⟨p, hp, hclass'⟩ := hall d hd y hy hclass
      exact ⟨passOn x p, mem_append_right _ (mem_map_of_mem hp), hclass'⟩
  · intro x hx d hd
    rw [hpassed]
    rcases hcases x hx with hx | rfl
    · obtain ⟨m', hm', hnear⟩ := h.leads x hx d hd
      exact ⟨m', mem_append_left _ hm', hnear⟩
    · exact hleads d hd
  · intro i hi
    -- What was delivered is none of the new messages.
    have hi : i ∈ s.delivered := by
      rw [heq] at hi
      exact hi
    obtain ⟨m', hm', hknows⟩ := h.heard i hi
    refine ⟨m', ?_, hgrows _ hknows⟩
    rw [hsent, List.getElem?_append_left (List.getElem?_eq_some_iff.mp hm').1]
    exact hm'
  · rw [hlen, BitVec.ofNat_add, ← BitVec.add_assoc, ← h.counted, heq]
    rfl
  · rw [hsent, length_append, length_map, BitVec.ofNat_add, ← BitVec.add_assoc, ← h.sentCounted, heq]
  · have hbounded := h.bounded
    rw [hlen, hsent, length_append, length_map]
    omega

/-- The sender of a message is covered, and so is its receiver: by the same peer if
    the subtree has both, and by itself otherwise. -/
theorem Inv.receive (h : Inv net key counter messages s) (hm : m ∈ s.sent) :
    Inv net key counter messages (s.receive net.maps m) := by
  obtain ⟨hhonest, hsender, c, hc, hclass⟩ := h.sent m hm
  by_cases hseen : m.messageKey ∈ s.cache m.receiver
  · rw [receive_seen hseen]
    exact h
  · refine h.receive_new hhonest hseen fun d hd => ?_
    by_cases hdc : (d : Int) ≤ m.bucketNr
    · refine ⟨m, mem_append_right _ (mem_singleton_self _), ?_, hdc⟩
      rw [apart_self]
      exact Nat.two_pow_pos d
    · obtain ⟨m0, hm0, heq⟩ := mem_map.mp hsender
      obtain ⟨m', hm', hnear, hbucket⟩ := h.leads m0 hm0 d hd
      refine ⟨m', mem_append_left _ hm', ?_, hbucket⟩
      rw [heq] at hnear
      have hsame : apart m.sender m.receiver < 2 ^ d := by
        rw [apart_comm]
        exact lt_of_lt_of_le hclass.2 (Nat.pow_le_pow_right (by omega) (by omega))
      rw [apart_comm] at hnear
      exact near_via hnear hsame

/-! ### Runs -/

/-- What is delivered is history only. -/
theorem receive_delivered (maps : PeerMaps) (s : Broadcast) (m : BroadcastMessage) (delivered : List Nat) :
    { s with delivered := delivered }.receive maps m = { s.receive maps m with delivered := delivered } := by
  by_cases hseen : m.messageKey ∈ s.cache m.receiver
  · rw [receive_seen hseen]
    exact receive_seen hseen
  · rw [receive_unseen hseen]
    refine Eq.trans (receive_unseen hseen) ?_
    dsimp only
    split
    · split <;> rfl
    · rfl

/-- Nothing is taken back. -/
structure Grows (s s' : Broadcast) : Prop where
  sent : s.sent <+: s'.sent
  delivered : s.delivered ⊆ s'.delivered
  informed : s.informed ⊆ s'.informed

theorem Grows.refl (s : Broadcast) : Grows s s where
  sent := prefix_refl _
  delivered := List.Subset.refl _
  informed := List.Subset.refl _

theorem Grows.trans {s s' s'' : Broadcast} (h : Grows s s') (h' : Grows s' s'') : Grows s s'' where
  sent := h.sent.trans h'.sent
  delivered := List.Subset.trans h.delivered h'.delivered
  informed := List.Subset.trans h.informed h'.informed

theorem grows_receive (hm : Honest net key m) :
    (s.receive net.maps m).delivered = s.delivered ∧ Grows s (s.receive net.maps m) := by
  by_cases hseen : m.messageKey ∈ s.cache m.receiver
  · rw [receive_seen hseen]
    exact ⟨rfl, Grows.refl s⟩
  · obtain ⟨list, heq, -⟩ := Broadcast.receive_new hm hseen
    rw [heq]
    refine ⟨rfl, prefix_append _ _, List.Subset.refl _, ?_⟩
    rw [informed, informed, map_append]
    exact subset_append_left _ _

/-- The receiver of a message knows it then. -/
theorem Inv.mem_informed (h : Inv net key counter messages s) (hm : Honest net key m) :
    m.receiver ∈ (s.receive net.maps m).informed := by
  by_cases hseen : m.messageKey ∈ s.cache m.receiver
  · rw [receive_seen hseen]
    rw [hm.key] at hseen
    exact (h.knows _ hm.receiver).mp hseen
  · obtain ⟨list, heq, -⟩ := Broadcast.receive_new hm hseen
    rw [heq, informed, map_append]
    exact mem_append_right _ (mem_singleton_self _)

/-- A message that was sent is delivered. -/
theorem Inv.deliver (h : Inv net key counter messages s) {s' : Broadcast} {i : Nat}
    (heq : s.deliver net.maps i = some s') : Inv net key counter messages s' ∧ Grows s s' := by
  unfold Broadcast.deliver at heq
  split at heq
  · cases heq
  · next m hm =>
      have hmem : m ∈ s.sent := mem_of_getElem? hm
      have hhonest := (h.sent m hmem).1
      obtain ⟨hdelivered, hgrows⟩ := grows_receive (s := s) hhonest
      have hkeeps := h.receive hmem
      rw [receive_delivered, Option.some.injEq] at heq
      subst heq
      refine ⟨{ hkeeps with heard := ?_ }, hgrows.sent, subset_cons_self _ _, hgrows.informed⟩
      intro j hj
      rcases mem_cons.mp hj with rfl | hj
      · obtain ⟨rest, hrest⟩ := hgrows.sent
        refine ⟨m, ?_, h.mem_informed hhonest⟩
        dsimp only
        rw [← hrest, List.getElem?_append_left (List.getElem?_eq_some_iff.mp hm).1]
        exact hm
      · rw [← hdelivered] at hj
        exact hkeeps.heard j hj

/-- When all messages were delivered all peers know. Going down the trie to a peer,
    there is always somebody who knows and is in the same subtree. -/
theorem Inv.reaches (h : Inv net key counter messages s) (hall : ∀ i < s.sent.length, i ∈ s.delivered)
    {x y : Number160} (hx : x ∈ s.informed) (hy : y ∈ net.peers) : y ∈ s.informed := by
  have hnear : ∀ k ≤ Number160.BITS, ∃ z ∈ s.informed, apart z y < 2 ^ (Number160.BITS - k) := by
    intro k
    induction k with
    | zero => exact fun _ => ⟨x, hx, apart_lt x y⟩
    | succ k ih =>
        intro hk
        obtain ⟨z, hz, hzy⟩ := ih (by omega)
        obtain ⟨m, hm, rfl⟩ := mem_map.mp hz
        -- The peer that covers the subtree is there, or it has sent to the half of `y`.
        obtain ⟨d, hd⟩ : ∃ d, Number160.BITS - k = d + 1 := ⟨Number160.BITS - k - 1, by omega⟩
        have hpred : Number160.BITS - (k + 1) = d := by omega
        rw [hd] at hzy
        rw [hpred]
        obtain ⟨m', hm', hclose, hbucket⟩ := h.leads m hm (d + 1) (by omega)
        rw [apart_comm] at hclose
        have hm'y := near_via hclose hzy
        by_cases hlt : apart m'.receiver y < 2 ^ d
        · exact ⟨m'.receiver, mem_map_of_mem hm', hlt⟩
        · have hclass : InClass d (apart m'.receiver y) := ⟨by omega, hm'y⟩
          obtain ⟨m'', hm'', hclass'⟩ := h.forwards m' hm' d (by omega) y hy hclass
          obtain ⟨i, hi, hget⟩ := mem_iff_getElem.mp hm''
          obtain ⟨m0, hm0, hknows⟩ := h.heard i (hall i hi)
          rw [getElem?_eq_getElem hi, hget, Option.some.injEq] at hm0
          subst hm0
          exact ⟨m''.receiver, hknows, near_of_class hclass' hclass⟩
  obtain ⟨z, hz, hzy⟩ := hnear Number160.BITS (le_refl _)
  rw [Nat.sub_self] at hzy
  rw [← eq_of_apart hzy]
  exact hz

theorem Inv.informed_subset (h : Inv net key counter messages s) : ∀ x ∈ s.informed, x ∈ net.peers := by
  intro x hx
  obtain ⟨m, hm, rfl⟩ := mem_map.mp hx
  exact (h.passed m hm).receiver

theorem Inv.length_le (h : Inv net key counter messages s) : s.sent.length ≤ 480 * net.peers.card := by
  have hcard : s.informed.length ≤ net.peers.card := by
    rw [← toFinset_card_of_nodup h.once]
    exact Finset.card_le_card fun x hx => h.informed_subset x (mem_toFinset.mp hx)
  have hbounded := h.bounded
  omega

/-- A state before a broadcast. No peer has seen the message. -/
structure Fresh (net : Network) (key : Number160) (s : Broadcast) : Prop where
  cache : ∀ x ∈ net.peers, key ∉ s.cache x
  sent : s.sent = []
  delivered : s.delivered = []
  passed : s.passed = []

theorem Fresh.inv (h : Fresh net key s) : Inv net key s.broadcastCounter s.messageCounter s := by
  have hinformed : s.informed = [] := by rw [informed, h.passed, map_nil]
  refine ⟨?_, ?_, ?_, ?_, ?_, ?_, ?_, ?_, ?_, ?_⟩
  · intro x hx
    rw [hinformed]
    exact ⟨fun hin => absurd hin (h.cache x hx), fun hin => absurd hin not_mem_nil⟩
  · rw [hinformed]
    exact nodup_nil
  · rw [h.passed]
    exact fun m hm => absurd hm not_mem_nil
  · rw [h.sent]
    exact fun m hm => absurd hm not_mem_nil
  · rw [h.passed]
    exact fun m hm => absurd hm not_mem_nil
  · rw [h.passed]
    exact fun m hm => absurd hm not_mem_nil
  · rw [h.delivered]
    exact fun m hm => absurd hm not_mem_nil
  · simp [hinformed]
  · simp [h.sent]
  · simp [h.sent]

/-- The broadcast begins. The initiator covers everything. -/
theorem Fresh.start (h : Fresh net key s) (hi : initiator ∈ net.peers) :
    Inv net key s.broadcastCounter s.messageCounter (s.start net.maps initiator key) ∧
      initiator ∈ (s.start net.maps initiator key).informed := by
  refine ⟨h.inv.receive_new (honest_first hi) (h.cache _ hi) fun d hd => ?_, h.inv.mem_informed (honest_first hi)⟩
  refine ⟨first initiator key, mem_append_right _ (mem_singleton_self _), ?_, ?_⟩
  · rw [apart_self]
    exact Nat.two_pow_pos d
  · exact Int.ofNat_le.mpr hd

/-- A run in which every message is delivered at some time, and maybe again. -/
structure Lossless (net : Network) (s : Broadcast) (initiator key : Number160) (run : Nat → Broadcast) : Prop where
  zero : run 0 = s.start net.maps initiator key
  succ : ∀ n, run (n + 1) = run n ∨ ∃ i, (run n).deliver net.maps i = some (run (n + 1))
  delivered : ∀ n, ∀ i < (run n).sent.length, ∃ k, i ∈ (run k).delivered

section Lossless

variable {run : Nat → Broadcast}

/-- A step of a run. -/
theorem Lossless.step (h : Lossless net s initiator key run) {n : Nat}
    (hinv : Inv net key counter messages (run n)) :
    Inv net key counter messages (run (n + 1)) ∧ Grows (run n) (run (n + 1)) := by
  rcases h.succ n with heq | ⟨i, heq⟩
  · rw [heq]
    exact ⟨hinv, Grows.refl _⟩
  · exact hinv.deliver heq

theorem Lossless.inv (h : Lossless net s initiator key run) (hs : Fresh net key s) (hi : initiator ∈ net.peers)
    (n : Nat) : Inv net key s.broadcastCounter s.messageCounter (run n) := by
  induction n with
  | zero =>
      rw [h.zero]
      exact (hs.start hi).1
  | succ n ih => exact (h.step ih).1

/-- Messages stay sent and delivered, and peers do not forget. -/
theorem Lossless.mono (h : Lossless net s initiator key run) (hs : Fresh net key s) (hi : initiator ∈ net.peers)
    {n k : Nat} (hle : n ≤ k) : Grows (run n) (run k) := by
  induction k, hle using Nat.le_induction with
  | base => exact Grows.refl _
  | succ k _ ih => exact ih.trans (h.step (h.inv hs hi k)).2

/-- From some time on no message is sent anymore. -/
theorem Lossless.settles (h : Lossless net s initiator key run) (hs : Fresh net key s)
    (hi : initiator ∈ net.peers) : ∃ k, ∀ n, k ≤ n → (run n).sent = (run k).sent := by
  have hmax : ∃ k, ∀ n, (run n).sent.length ≤ (run k).sent.length := by
    by_contra hnone
    push Not at hnone
    -- There would be as many messages as one likes.
    have hmany : ∀ count, ∃ n, count ≤ (run n).sent.length := by
      intro count
      induction count with
      | zero => exact ⟨0, Nat.zero_le _⟩
      | succ count ih =>
          obtain ⟨n, hn⟩ := ih
          obtain ⟨k, hk⟩ := hnone n
          exact ⟨k, by omega⟩
    obtain ⟨n, hn⟩ := hmany (480 * net.peers.card + 1)
    have hle := (h.inv hs hi n).length_le
    omega
  obtain ⟨k, hk⟩ := hmax
  exact ⟨k, fun n hn => ((h.mono hs hi hn).sent.eq_of_length_le (hk n)).symm⟩

/-- From some time on a number of messages are delivered. -/
theorem Lossless.all_delivered (h : Lossless net s initiator key run) (hs : Fresh net key s)
    (hi : initiator ∈ net.peers) (count : Nat) (hsent : ∃ n, count ≤ (run n).sent.length) :
    ∃ k, ∀ n, k ≤ n → ∀ i < count, i ∈ (run n).delivered := by
  obtain ⟨n, hn⟩ := hsent
  induction count with
  | zero => exact ⟨0, fun n _ i hi => absurd hi (Nat.not_lt_zero i)⟩
  | succ count ih =>
      obtain ⟨k, hk⟩ := ih (by omega)
      obtain ⟨k', hk'⟩ := h.delivered n count (by omega)
      refine ⟨max k k', fun n' hn' i hlt => ?_⟩
      by_cases heq : i = count
      · subst heq
        exact (h.mono hs hi (by omega : k' ≤ n')).delivered hk'
      · exact hk n' (by omega) i (by omega)

/-- Every peer gets a broadcast and passes it on once, there are not infinitely many
    messages, and a message that has somewhere to go is within the limit of the hops. -/
theorem Lossless.reachesAll (hs : Fresh net key s) (hi : initiator ∈ net.peers)
    (h : Lossless net s initiator key run) :
    (∀ n, (run n).informed.Nodup ∧ (run n).sent.length ≤ 480 * net.peers.card) ∧
    (∀ n, ∀ m ∈ first initiator key :: (run n).sent, ∀ d : Nat, (d : Int) < m.bucketNr →
      (net.maps m.receiver d).entries ≠ [] → m.hopCount < nrFilledBags (net.maps m.receiver)) ∧
    ∃ k, ∀ n, k ≤ n →
      (run n).informed.Perm net.peers.toList ∧
      (run n).broadcastCounter = s.broadcastCounter + BitVec.ofNat 32 net.peers.card ∧
      (run n).sent = (run k).sent ∧
      (run n).messageCounter = s.messageCounter + BitVec.ofNat 32 (run n).sent.length := by
  refine ⟨fun n => ⟨(h.inv hs hi n).once, (h.inv hs hi n).length_le⟩, fun n m hm d hd hne => ?_, ?_⟩
  · have hhonest : Honest net key m := by
      rcases mem_cons.mp hm with rfl | hm
      · exact honest_first hi
      · exact ((h.inv hs hi n).sent m hm).1
    have hlt : d < Number160.BITS := by
      have hbucket := hhonest.bucket
      omega
    obtain ⟨e, es, heq⟩ := exists_cons_of_ne_nil hne
    have hmem : e ∈ (net.maps m.receiver d).entries := by
      rw [heq]
      exact mem_cons_self
    obtain ⟨-, hclass⟩ := net.placed _ hhonest.receiver d hlt e hmem
    exact hhonest.within (net.closed _ hhonest.receiver d hlt e hmem) hd ((classMember_eq_iff _ _ _).mp hclass)
  · obtain ⟨k, hk⟩ := h.settles hs hi
    obtain ⟨k', hk'⟩ := h.all_delivered hs hi (run k).sent.length ⟨k, le_refl _⟩
    refine ⟨max k k', fun n hn => ?_⟩
    have hinv := h.inv hs hi n
    have hsent : (run n).sent = (run k).sent := hk n (by omega)
    have hinitiator : initiator ∈ (run n).informed := by
      refine (h.mono hs hi (Nat.zero_le n)).informed ?_
      rw [h.zero]
      exact (hs.start hi).2
    have hperm : (run n).informed.Perm net.peers.toList := by
      refine (perm_ext_iff_of_nodup hinv.once net.peers.nodup_toList).mpr fun y => ?_
      rw [Finset.mem_toList]
      refine ⟨hinv.informed_subset y, fun hy => hinv.reaches ?_ hinitiator hy⟩
      intro i hlt
      rw [hsent] at hlt
      exact hk' n (by omega) i hlt
    refine ⟨hperm, ?_, ?_, hinv.sentCounted⟩
    · rw [hinv.counted, hperm.length_eq, Finset.length_toList]
    · rw [hsent, hk (max k k') (by omega)]

/-- The other one of two peers, in its bag. -/
def twoPeersMaps (x : Number160) (j : Nat) : Bag :=
  let other : Number160 := if x = 1 then 2 else 1
  if j = 1 then ⟨[(other, .new 0 { peerId := other })], nodup_singleton _⟩ else .empty

theorem mem_twoPeersMaps {x : Number160} {j : Nat} {e : Number160 × PeerStatistic}
    (h : e ∈ (twoPeersMaps x j).entries) :
    j = 1 ∧ e.1 = (if x = 1 then 2 else 1) ∧ e.2.peerAddress.peerId = e.1 := by
  unfold twoPeersMaps at h
  by_cases hj : j = 1
  · rw [if_pos hj, mem_singleton] at h
    subst h
    exact ⟨hj, rfl, rfl⟩
  · rw [if_neg hj] at h
    exact absurd h not_mem_nil

/-- Two peers that know each other. -/
def twoPeers : Network where
  peers := {1, 2}
  maps := twoPeersMaps
  placed := by
    intro x hx j _ e he
    obtain ⟨rfl, hother, hid⟩ := mem_twoPeersMaps he
    refine ⟨hid, ?_⟩
    rw [hother]
    rw [Finset.mem_insert, Finset.mem_singleton] at hx
    rcases hx with rfl | rfl <;> decide
  closed := by
    intro x _ j _ e he
    rw [(mem_twoPeersMaps he).2.1]
    split <;> decide
  filled := by
    intro x hx y hy j _ hclass
    have hj : j = 1 := by
      rw [Finset.mem_insert, Finset.mem_singleton] at hx hy
      rcases hx with rfl | rfl <;> rcases hy with rfl | rfl
      · exact absurd ((show classMember 1 1 = -1 by decide).symm.trans hclass) (by omega)
      · exact Int.ofNat_inj.mp (hclass.symm.trans (show classMember 1 2 = 1 by decide))
      · exact Int.ofNat_inj.mp (hclass.symm.trans (show classMember 2 1 = 1 by decide))
      · exact absurd ((show classMember 2 2 = -1 by decide).symm.trans hclass) (by omega)
    rw [hj]
    exact cons_ne_nil _ _

/-- Peer 1 broadcasts a message to peer 2. -/
def twoPeersRun (n : Nat) : Broadcast :=
  let started := start twoPeers.maps {} 1 7
  if n = 0 then started else (started.deliver twoPeers.maps 0).getD started

theorem lossless_twoPeersRun : Lossless twoPeers {} 1 7 twoPeersRun where
  zero := rfl
  succ := by
    intro n
    cases n with
    | zero => exact .inr ⟨0, rfl⟩
    | succ n => exact .inl rfl
  delivered := by
    have hone : ∀ n, (twoPeersRun n).sent.length = 1 := by
      intro n
      cases n with
      | zero => decide
      | succ n => exact (show (twoPeersRun 1).sent.length = 1 by decide)
    intro n i hi
    rw [hone n, Nat.lt_one_iff] at hi
    subst hi
    exact ⟨1, by decide⟩

theorem covers_twoPeers :
    ∃ k, ∀ n, k ≤ n → (twoPeersRun n).informed.Perm twoPeers.peers.toList ∧
      (twoPeersRun n).broadcastCounter = 0 + BitVec.ofNat 32 2 := by
  have hfresh : Fresh twoPeers 7 {} := ⟨fun _ _ => not_mem_nil, rfl, rfl, rfl⟩
  obtain ⟨-, -, k, hk⟩ := Lossless.reachesAll hfresh (by decide) lossless_twoPeersRun
  exact ⟨k, fun n hn => ⟨(hk n hn).1, (hk n hn).2.1⟩⟩

end Lossless

end Broadcast

end TomP2P
