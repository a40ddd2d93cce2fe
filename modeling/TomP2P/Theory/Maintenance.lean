import TomP2P.Core.Maintenance
import TomP2P.Theory.PeerBags
import Mathlib.Data.List.Basic

/-!
# Who is Overlooked by the Maintenance

A peer is eligible if it is in need of a check, is not among those that are not of interest,
and is verified or in the overflow of an urgent bag. The next peer to check should be an
eligible one of the lowest bag that has any.

The code looks at one peer of each map only, the first in need, and asks after that whether
it is of interest. While that peer is being checked, all others of the map are hidden behind
it. So the lowest bag with an eligible peer is found exactly if it shows one as the first in
need of one of its maps; otherwise a higher bag comes first, or nobody at all.

Without intervals there is no telling who is in need, and the first peer that is looked at
makes an exception.

## Main definitions

* `Eligible`: A peer that may be checked next.
* `OverlooksNobody`: The answer is an eligible peer of the lowest bag with one.
* `Shows`: A bag shows an eligible peer.
* `LowestShows`: What is asked of the content.

## Theorems

* `nextFrom_eq`: The answer as a search through the bags.
* `unpeopled_of_ok`: Without intervals only empty maps are passed.
* `overlooksNobody_iff`: When nobody is overlooked.
-/

namespace TomP2P

open List

namespace DefaultMaintenance

section Bags

variable (m : DefaultMaintenance) (p : PeerMap) (now : Int) (notInterestedAddresses : List PeerAddress)

def values (map : Bag) : List PeerStatistic := map.entries.map Prod.snd

def inNeed (s : PeerStatistic) : Bool := decide (needMaintenance s m.intervalSeconds now = .ok true)

def urgentBag (i : Nat) : Bool := decide (((p.peerMapVerified i).size : Int) < m.peerUrgency.toInt)

/-- A peer of the bag that may be checked next. -/
def Eligible (i : Nat) (s : PeerStatistic) : Prop :=
  m.inNeed now s = true ∧ contains notInterestedAddresses s.peerAddress = false ∧
    (s ∈ values (p.peerMapVerified i) ∨ m.urgentBag p i = true ∧ s ∈ values (p.peerMapOverflow i))

/-- An eligible peer of the lowest bag that has one, and null if no bag has. -/
def IsNext : Option PeerStatistic → Prop
  | none => ∀ i < Number160.BITS, ∀ s, ¬ m.Eligible p now notInterestedAddresses i s
  | some s =>
      ∃ i < Number160.BITS, m.Eligible p now notInterestedAddresses i s ∧
        ∀ j < i, ∀ t, ¬ m.Eligible p now notInterestedAddresses j t

def OverlooksNobody : Prop :=
  ∃ answer, (m.init p).nextForMaintenance now notInterestedAddresses = .ok answer ∧
    m.IsNext p now notInterestedAddresses answer

/-- The first peer of a map that is in need, if it is of interest. -/
def shown (map : Bag) : Option PeerStatistic :=
  ((values map).find? fun s => m.inNeed now s).filter fun s => !contains notInterestedAddresses s.peerAddress

/-- What a bag has to show. -/
def shownIn (i : Nat) : Option PeerStatistic :=
  (if m.urgentBag p i then m.shown now notInterestedAddresses (p.peerMapOverflow i) else none).or
    (m.shown now notInterestedAddresses (p.peerMapVerified i))

/-- The first peer in need of the verified ones is of interest, or, in an urgent bag, the first
    in need of the others. -/
def Shows (i : Nat) : Prop :=
  (∃ s, (values (p.peerMapVerified i)).find? (m.inNeed now) = some s ∧
      contains notInterestedAddresses s.peerAddress = false) ∨
    m.urgentBag p i = true ∧ ∃ s, (values (p.peerMapOverflow i)).find? (m.inNeed now) = some s ∧
      contains notInterestedAddresses s.peerAddress = false

/-- The maps of a bag that are looked at are empty. -/
def Unpeopled (i : Nat) : Prop :=
  values (p.peerMapVerified i) = [] ∧ (m.urgentBag p i = true → values (p.peerMapOverflow i) = [])

/-- There are intervals, unless no peer is looked at, and the lowest bag with an eligible peer
    shows one. -/
def LowestShows : Prop :=
  (m.intervalSeconds ≠ [] ∨ ∀ i < Number160.BITS, m.Unpeopled p i) ∧
    ∀ i < Number160.BITS, (∃ s, m.Eligible p now notInterestedAddresses i s) →
      (∀ j < i, ∀ t, ¬ m.Eligible p now notInterestedAddresses j t) → m.Shows p now notInterestedAddresses i

end Bags

variable {m : DefaultMaintenance} {p : PeerMap} {now : Int} {notInterestedAddresses : List PeerAddress}
variable {map : Bag} {i : Nat} {s : PeerStatistic}

/-! ### One map -/

theorem needMaintenance_ok (h : m.intervalSeconds ≠ []) (s : PeerStatistic) :
    needMaintenance s m.intervalSeconds now = .ok (m.inNeed now s) := by
  unfold inNeed needMaintenance
  cases hi : interval m.intervalSeconds (s.onlineTime.toInt.tdiv 1000) with
  | some i => simp only [hi, Except.ok.injEq, decide_eq_true_eq]
  | none =>
      -- An array with an entry has one for every time online.
      exfalso
      unfold interval at hi
      split at hi
      · exact h (head?_eq_none_iff.1 hi)
      · split at hi
        · cases hi
        · exact h (getLast?_eq_none_iff.1 hi)

theorem nextOf_eq (h : m.intervalSeconds ≠ []) (ss : List PeerStatistic) :
    nextOf m.intervalSeconds now ss = .ok (ss.find? (m.inNeed now)) := by
  induction ss with
  | nil => rfl
  | cons s ss ih =>
      rw [nextOf, needMaintenance_ok h, find?_cons]
      cases m.inNeed now s with
      | true => rfl
      | false => exact ih

theorem ready_eq (h : m.intervalSeconds ≠ [] ∨ values map = []) :
    m.ready now notInterestedAddresses map = .ok (m.shown now notInterestedAddresses map) := by
  have hnext : m.next now map = .ok ((values map).find? (m.inNeed now)) := by
    rcases h with hne | hempty
    · exact nextOf_eq hne _
    · unfold values at hempty
      rw [next, values, hempty]
      rfl
  rw [ready, hnext, shown]
  cases (values map).find? (m.inNeed now) with
  | none => rfl
  | some s =>
      cases hc : contains notInterestedAddresses s.peerAddress with
      | true | false => simp [Option.filter_some, hc]

/-- Without intervals only an empty map is passed. -/
theorem values_of_ready (h : m.intervalSeconds = []) {answer : Option PeerStatistic}
    (hready : m.ready now notInterestedAddresses map = .ok answer) : values map = [] ∧ answer = none := by
  rw [ready, next, ← values, h] at hready
  cases hvalues : values map with
  | nil =>
      rw [hvalues] at hready
      cases hready
      exact ⟨rfl, rfl⟩
  | cons s ss =>
      have hnone : ∀ sec, interval [] sec = none := by
        intro sec
        unfold interval
        split <;> rfl
      have hneed : needMaintenance s [] now = .error .indexOutOfBounds := by
        simp only [needMaintenance, hnone]
      rw [hvalues, nextOf, hneed] at hready
      cases hready

theorem shown_eq_some (h : m.shown now notInterestedAddresses map = some s) :
    s ∈ values map ∧ m.inNeed now s = true ∧ contains notInterestedAddresses s.peerAddress = false := by
  rw [shown, Option.filter_eq_some_iff] at h
  have hneed := find?_some h.1
  exact ⟨mem_of_find?_eq_some h.1, hneed, by simpa using h.2⟩

theorem shown_iff : (∃ s, m.shown now notInterestedAddresses map = some s) ↔
    ∃ s, (values map).find? (m.inNeed now) = some s ∧ contains notInterestedAddresses s.peerAddress = false := by
  simp [shown, Option.filter_eq_some_iff]

/-! ### The bags -/

theorem eligible_of_shownIn (h : m.shownIn p now notInterestedAddresses i = some s) :
    m.Eligible p now notInterestedAddresses i s := by
  rw [shownIn, Option.or_eq_some_iff] at h
  rcases h with h | ⟨-, h⟩
  · split at h
    · next hurgent =>
        obtain ⟨hmem, hneed, hinterest⟩ := shown_eq_some h
        exact ⟨hneed, hinterest, .inr ⟨hurgent, hmem⟩⟩
    · cases h
  · obtain ⟨hmem, hneed, hinterest⟩ := shown_eq_some h
    exact ⟨hneed, hinterest, .inl hmem⟩

theorem shows_iff : m.Shows p now notInterestedAddresses i ↔
    ∃ s, m.shownIn p now notInterestedAddresses i = some s := by
  rw [Shows, ← shown_iff, ← shown_iff, shownIn]
  cases m.urgentBag p i with
  | false => simp
  | true =>
      cases m.shown now notInterestedAddresses (p.peerMapOverflow i) with
      | some s => simp
      | none => simp

/-- The overflow of a bag, if the bag is urgent. -/
def readyUrgent (m : DefaultMaintenance) (p : PeerMap) (now : Int) (notInterestedAddresses : List PeerAddress)
    (i : Nat) : Except JavaException (Option PeerStatistic) :=
  if m.urgentBag p i then m.ready now notInterestedAddresses (p.peerMapOverflow i) else .ok none

theorem nextFrom_cons (is : List Nat) (peersBefore : Int) :
    m.nextFrom p now notInterestedAddresses (i :: is) peersBefore =
      match m.readyUrgent p now notInterestedAddresses i with
      | .error e => .error e
      | .ok (some s) => .ok (some s)
      | .ok none =>
          match m.ready now notInterestedAddresses (p.peerMapVerified i) with
          | .error e => .error e
          | .ok (some s) => .ok (some s)
          | .ok none =>
              m.nextFrom p now notInterestedAddresses is (peersBefore + (p.peerMapVerified i).size) := rfl

theorem readyUrgent_eq (h : m.intervalSeconds ≠ [] ∨ m.Unpeopled p i) :
    m.readyUrgent p now notInterestedAddresses i =
      .ok (if m.urgentBag p i then m.shown now notInterestedAddresses (p.peerMapOverflow i) else none) := by
  rw [readyUrgent]
  cases hbag : m.urgentBag p i with
  | false => rfl
  | true => exact ready_eq (h.imp_right fun hempty => hempty.2 hbag)

/-- The loop over the bags is a search for the first that has something to show. -/
theorem nextFrom_eq (is : List Nat) (peersBefore : Int)
    (h : m.intervalSeconds ≠ [] ∨ ∀ i ∈ is, m.Unpeopled p i) :
    m.nextFrom p now notInterestedAddresses is peersBefore =
      .ok (is.findSome? (m.shownIn p now notInterestedAddresses)) := by
  induction is generalizing peersBefore with
  | nil => rfl
  | cons i is ih =>
      have hrest : m.intervalSeconds ≠ [] ∨ ∀ i ∈ is, m.Unpeopled p i :=
        h.imp_right fun hall j hj => hall j (mem_cons_of_mem _ hj)
      have hverified : m.ready now notInterestedAddresses (p.peerMapVerified i) =
          .ok (m.shown now notInterestedAddresses (p.peerMapVerified i)) :=
        ready_eq (h.imp_right fun hall => (hall i mem_cons_self).1)
      rw [nextFrom_cons, readyUrgent_eq (h.imp_right fun hall => hall i mem_cons_self), hverified,
        findSome?_cons, shownIn]
      cases (if m.urgentBag p i then m.shown now notInterestedAddresses (p.peerMapOverflow i) else none) with
      | some s => rfl
      | none =>
          cases m.shown now notInterestedAddresses (p.peerMapVerified i) with
          | some s => rfl
          | none => exact ih _ hrest

theorem values_of_readyUrgent (h : m.intervalSeconds = []) {answer : Option PeerStatistic}
    (hready : m.readyUrgent p now notInterestedAddresses i = .ok answer) :
    (m.urgentBag p i = true → values (p.peerMapOverflow i) = []) ∧ answer = none := by
  rw [readyUrgent] at hready
  cases hbag : m.urgentBag p i with
  | false =>
      rw [hbag] at hready
      cases hready
      exact ⟨fun h => absurd h Bool.false_ne_true, rfl⟩
  | true =>
      rw [hbag] at hready
      obtain ⟨hempty, hanswer⟩ := values_of_ready h hready
      exact ⟨fun _ => hempty, hanswer⟩

/-- Without intervals, an answer means that the maps are empty. -/
theorem unpeopled_of_ok (hnil : m.intervalSeconds = []) (is : List Nat) (peersBefore : Int)
    {answer : Option PeerStatistic}
    (h : m.nextFrom p now notInterestedAddresses is peersBefore = .ok answer) : ∀ i ∈ is, m.Unpeopled p i := by
  induction is generalizing peersBefore with
  | nil => simp
  | cons i is ih =>
      rw [nextFrom_cons] at h
      cases hurgent : m.readyUrgent p now notInterestedAddresses i with
      | error e =>
          rw [hurgent] at h
          cases h
      | ok urgent =>
          obtain ⟨hoverflow, rfl⟩ := values_of_readyUrgent hnil hurgent
          rw [hurgent] at h
          cases hready : m.ready now notInterestedAddresses (p.peerMapVerified i) with
          | error e =>
              rw [hready] at h
              cases h
          | ok verified =>
              obtain ⟨hverified, rfl⟩ := values_of_ready hnil hready
              rw [hready] at h
              exact forall_mem_cons.2 ⟨⟨hverified, hoverflow⟩, ih _ h⟩

/-! ### The lowest bag -/

theorem findSome?_range {α : Type} (f : Nat → Option α) (n : Nat) :
    match (List.range n).findSome? f with
    | none => ∀ i < n, f i = none
    | some a => ∃ i < n, f i = some a ∧ ∀ j < i, f j = none := by
  induction n with
  | zero => simp
  | succ n ih =>
      rw [range_succ, findSome?_append]
      cases hfind : (List.range n).findSome? f with
      | some a =>
          rw [hfind] at ih
          obtain ⟨i, hi, hrest⟩ := ih
          exact ⟨i, Nat.lt_succ_of_lt hi, hrest⟩
      | none =>
          rw [hfind] at ih
          cases hn : f n with
          | some a =>
              simp only [findSome?_cons, hn, Option.none_or]
              exact ⟨n, Nat.lt_succ_self n, hn, ih⟩
          | none =>
              simp only [findSome?_cons, hn, findSome?_nil, Option.none_or]
              intro i hi
              rcases Nat.lt_succ_iff_lt_or_eq.1 hi with hlt | rfl
              · exact ih i hlt
              · exact hn

/-- Below a bag from which on nothing was shown there is nobody eligible, if the lowest bag that
    has somebody shows one. -/
theorem not_eligible_below
    (hshows : ∀ i < Number160.BITS, (∃ s, m.Eligible p now notInterestedAddresses i s) →
      (∀ j < i, ∀ t, ¬ m.Eligible p now notInterestedAddresses j t) → m.Shows p now notInterestedAddresses i)
    {n : Nat} (hn : n ≤ Number160.BITS) (hnone : ∀ i < n, m.shownIn p now notInterestedAddresses i = none) :
    ∀ i < n, ∀ s, ¬ m.Eligible p now notInterestedAddresses i s := by
  intro i
  induction i using Nat.strong_induction_on with
  | _ i ih =>
      intro hi s hs
      have hlowest : ∀ j < i, ∀ t, ¬ m.Eligible p now notInterestedAddresses j t :=
        fun j hj => ih j hj (Nat.lt_trans hj hi)
      obtain ⟨t, ht⟩ := shows_iff.1 (hshows i (Nat.lt_of_lt_of_le hi hn) ⟨s, hs⟩ hlowest)
      rw [hnone i hi] at ht
      cases ht

theorem isNext_of_shows
    (hshows : ∀ i < Number160.BITS, (∃ s, m.Eligible p now notInterestedAddresses i s) →
      (∀ j < i, ∀ t, ¬ m.Eligible p now notInterestedAddresses j t) → m.Shows p now notInterestedAddresses i) :
    m.IsNext p now notInterestedAddresses
      ((List.range Number160.BITS).findSome? (m.shownIn p now notInterestedAddresses)) := by
  have hsearch := findSome?_range (m.shownIn p now notInterestedAddresses) Number160.BITS
  cases hfind : (List.range Number160.BITS).findSome? (m.shownIn p now notInterestedAddresses) with
  | none =>
      rw [hfind] at hsearch
      exact not_eligible_below hshows le_rfl hsearch
  | some s =>
      rw [hfind] at hsearch
      obtain ⟨i, hi, hs, hbefore⟩ := hsearch
      exact ⟨i, hi, eligible_of_shownIn hs, not_eligible_below hshows hi.le hbefore⟩

/-- No peer is in two bags. -/
def Separate (p : PeerMap) : Prop :=
  ∀ i j s, (s ∈ values (p.peerMapVerified i) ∨ s ∈ values (p.peerMapOverflow i)) →
    (s ∈ values (p.peerMapVerified j) ∨ s ∈ values (p.peerMapOverflow j)) → i = j

theorem Eligible.mem (h : m.Eligible p now notInterestedAddresses i s) :
    s ∈ values (p.peerMapVerified i) ∨ s ∈ values (p.peerMapOverflow i) :=
  h.2.2.imp_right And.right

theorem shows_of_isNext (hseparate : Separate p)
    (hnext : m.IsNext p now notInterestedAddresses
      ((List.range Number160.BITS).findSome? (m.shownIn p now notInterestedAddresses)))
    (hi : i < Number160.BITS) (hs : m.Eligible p now notInterestedAddresses i s)
    (hlowest : ∀ j < i, ∀ t, ¬ m.Eligible p now notInterestedAddresses j t) :
    m.Shows p now notInterestedAddresses i := by
  have hsearch := findSome?_range (m.shownIn p now notInterestedAddresses) Number160.BITS
  cases hfind : (List.range Number160.BITS).findSome? (m.shownIn p now notInterestedAddresses) with
  | none =>
      rw [hfind] at hnext
      exact absurd hs (hnext i hi s)
  | some t =>
      rw [hfind] at hsearch hnext
      obtain ⟨j, -, hshown, -⟩ := hsearch
      obtain ⟨k, -, hk, hklowest⟩ := hnext
      -- What is shown is eligible in one bag only, which is then the lowest.
      have hjk : j = k := hseparate j k t (eligible_of_shownIn hshown).mem hk.mem
      have hik : i = k := by
        rcases Nat.lt_trichotomy i k with hlt | heq | hlt
        · exact absurd hs (hklowest i hlt s)
        · exact heq
        · exact absurd hk (hlowest k hlt t)
      rw [hik, ← hjk]
      exact shows_iff.2 ⟨t, hshown⟩

theorem nextForMaintenance_eq (h : m.intervalSeconds ≠ [] ∨ ∀ i < Number160.BITS, m.Unpeopled p i) :
    (m.init p).nextForMaintenance now notInterestedAddresses =
      .ok ((List.range Number160.BITS).findSome? (m.shownIn p now notInterestedAddresses)) := by
  have hrange : m.intervalSeconds ≠ [] ∨ ∀ i ∈ List.range Number160.BITS, m.Unpeopled p i :=
    h.imp_right fun hall i hi => hall i (mem_range.1 hi)
  exact nextFrom_eq (m := m.init p) _ 0 hrange

/-- Nobody is overlooked if the lowest bag with an eligible peer shows one, and in a peer map
    only then. -/
theorem overlooksNobody_iff (m : DefaultMaintenance) (p : PeerMap) (now : Int)
    (notInterestedAddresses : List PeerAddress) :
    (m.LowestShows p now notInterestedAddresses → m.OverlooksNobody p now notInterestedAddresses) ∧
      (Separate p → m.OverlooksNobody p now notInterestedAddresses →
        m.LowestShows p now notInterestedAddresses) := by
  constructor
  · rintro ⟨hpeople, hshows⟩
    exact ⟨_, nextForMaintenance_eq hpeople, isNext_of_shows hshows⟩
  · rintro hseparate ⟨answer, hanswer, hnext⟩
    have hpeople : m.intervalSeconds ≠ [] ∨ ∀ i < Number160.BITS, m.Unpeopled p i := by
      by_cases hnil : m.intervalSeconds = []
      · exact .inr fun i hi => unpeopled_of_ok (m := m.init p) hnil _ 0 hanswer i (mem_range.2 hi)
      · exact .inl hnil
    rw [nextForMaintenance_eq hpeople, Except.ok.injEq] at hanswer
    subst hanswer
    exact ⟨hpeople, fun i hi hs hlowest => shows_of_isNext hseparate hnext hi hs.choose_spec hlowest⟩

/-! ### Two peers in one bag -/

def peerOf (n : BitVec 32) : PeerStatistic := PeerStatistic.new 0 { peerId := ⟨0, 0, 0, 0, n⟩ }

/-- A map of two verified peers, which have the same distance to the peer with the id one. -/
def pair : PeerMap where
  peerMapVerified := fun i =>
    if i = 3 then (HashedMap.empty.put (peerOf 8).peerId (peerOf 8)).put (peerOf 9).peerId (peerOf 9)
    else .empty
  peerMapOverflow := fun _ => .empty
  offlineMap := .create 60 1
  shutdownMap := .create 60 1
  exceptionMap := .create 60 1

theorem values_pair (i : Nat) :
    values (pair.peerMapVerified i) = if i = 3 then [peerOf 8, peerOf 9] else [] := by
  by_cases hi : i = 3
  · rw [if_pos hi]
    subst hi
    decide
  · rw [if_neg hi, pair]
    simp only [if_neg hi]
    rfl

theorem mem_pair {i : Nat} {s : PeerStatistic}
    (h : s ∈ values (pair.peerMapVerified i) ∨ s ∈ values (pair.peerMapOverflow i)) : i = 3 := by
  rcases h with h | h
  · rw [values_pair] at h
    by_contra hi
    rw [if_neg hi] at h
    cases h
  · cases h

/-- If all are of interest, the first of the two is found. -/
theorem overlooksNobody_pair :
    (new 4 [2, 4]).OverlooksNobody pair 10000 [] ∧ (new 4 [2, 4]).LowestShows pair 10000 [] := by
  have h := overlooksNobody_iff (new 4 [2, 4]) pair 10000 []
  have hlowest : (new 4 [2, 4]).LowestShows pair 10000 [] := by
    refine ⟨.inl (by decide), ?_⟩
    rintro i - ⟨s, hs⟩ -
    rw [mem_pair hs.mem]
    exact .inl ⟨peerOf 8, by decide, by decide⟩
  have hfound := h.1 hlowest
  exact ⟨hfound, h.2 (fun i j s hi hj => (mem_pair hi).trans (mem_pair hj).symm) hfound⟩

/-- While the first of the two is being checked, the second is overlooked. -/
theorem not_overlooksNobody_pair :
    ¬ (new 4 [2, 4]).OverlooksNobody pair 10000 [(peerOf 8).peerAddress] := by
  rintro ⟨answer, hanswer, hnext⟩
  have hnone : ((new 4 [2, 4]).init pair).nextForMaintenance 10000 [(peerOf 8).peerAddress] = .ok none := by
    rw [nextForMaintenance_eq (.inl (by decide))]
    decide
  rw [hnone, Except.ok.injEq] at hanswer
  subst hanswer
  have heligible : (new 4 [2, 4]).Eligible pair 10000 [(peerOf 8).peerAddress] 3 (peerOf 9) :=
    ⟨by decide, by decide, .inl (by rw [values_pair]; simp)⟩
  exact hnext 3 (by decide) _ heligible

end DefaultMaintenance

end TomP2P
