import TomP2P.Core.RoundTripTime
import Mathlib.Algebra.Order.BigOperators.Group.List
import Mathlib.Data.Prod.Lex

/-!
# The Order of Peers by their Latency

The comparator goes through four criteria: the bag, whether a time is available, the mean of the
times, and the distance. A key holds the four one after the other, without a mean where none is
available, and comparing two peers is comparing their keys. Two keys are different if the ids
are, because the distances are, so on peers with different ids the comparator is a total order.

A peer that is there twice, with different times, is equal to itself but not in one place. That
is why the ids have to be different.

## Main definitions

* `Measured`: A mean is available.
* `Before`: What the comparator should put first.
* `key`: The criteria of a peer, in their order.

## Theorems

* `before_iff_key_lt`: The four criteria are the order of the keys.
* `compare_eq_lt_iff`: The comparator puts first what should be.
* `measured_iff`: When a mean is available.
* `compare_order`: The comparator is a total order.
-/

namespace TomP2P

namespace RttStatistic

/-- The mean of the times is available. -/
def Measured (s : RttStatistic) : Prop := 0 ≤ s.getMeanRTT

instance (s : RttStatistic) : Decidable s.Measured := inferInstanceAs (Decidable (0 ≤ s.getMeanRTT))

theorem sumRTT_eq (s : RttStatistic) : s.sumRTT = BitVec.ofInt 64 (s.rttCache.map RTT.getRtt).sum := by
  have hfold : ∀ (rtts : List RTT) (sum : Int),
      rtts.foldl (fun sum next => sum + BitVec.ofInt 64 next.getRtt) (BitVec.ofInt 64 sum) =
        BitVec.ofInt 64 (sum + (rtts.map RTT.getRtt).sum) := by
    intro rtts
    induction rtts with
    | nil => simp
    | cons r rtts ih =>
        intro sum
        rw [List.foldl_cons, ← BitVec.ofInt_add, ih, List.map_cons, List.sum_cons, Int.add_assoc]
  have hall := hfold s.rttCache 0
  rw [Int.zero_add] at hall
  exact hall

/-- With times that are positive, as those that are added are, and whose sum is a `long`, a mean is
    available as soon as there is a time. -/
theorem measured_iff (s : RttStatistic) (hpos : ∀ r ∈ s.rttCache, 0 < r.getRtt)
    (hsum : (s.rttCache.map RTT.getRtt).sum < 2 ^ 63) :
    (s.Measured ↔ s.rttCache ≠ []) ∧
      (s.rttCache ≠ [] → s.getMeanRTT = (s.rttCache.map RTT.getRtt).sum.tdiv s.rttCache.length) := by
  have hnonneg : 0 ≤ (s.rttCache.map RTT.getRtt).sum := by
    refine List.sum_nonneg ?_
    intro x hx
    obtain ⟨r, hr, rfl⟩ := List.mem_map.1 hx
    exact (hpos r hr).le
  have hexact : s.sumRTT.toInt = (s.rttCache.map RTT.getRtt).sum := by
    rw [sumRTT_eq, BitVec.toInt_ofInt, Int.bmod_def]
    omega
  unfold Measured getMeanRTT
  cases hcache : s.rttCache with
  | nil => simp
  | cons r rs =>
      rw [← hcache, if_neg (by simp [hcache]), hexact]
      refine ⟨?_, fun _ => rfl⟩
      exact ⟨fun _ => by simp [hcache], fun _ => Int.tdiv_nonneg hnonneg (Int.natCast_nonneg _)⟩

end RttStatistic

namespace RTTPeerStatisticComparator

open PeerMap

variable (location : Number160)

def bag (s : RttStatistic) : Int := classMember location s.peerId

def distanceTo (s : RttStatistic) : Number160 := distance location s.peerId

/-- What comes first: the closer bag, then what is measured, then the smaller mean, then the
    smaller distance. -/
def Before (a b : RttStatistic) : Prop :=
  bag location a < bag location b ∨ bag location a = bag location b ∧
    (a.Measured ∧ ¬ b.Measured ∨ (a.Measured ↔ b.Measured) ∧
      (a.Measured ∧ a.getMeanRTT < b.getMeanRTT ∨ (a.Measured → a.getMeanRTT = b.getMeanRTT) ∧
        distanceTo location a < distanceTo location b))

instance (a b : RttStatistic) : Decidable (Before location a b) := by
  unfold Before
  infer_instance

/-- The criteria in their order. -/
def key (s : RttStatistic) : Int ×ₗ Bool ×ₗ Int ×ₗ Number160 :=
  toLex (bag location s, toLex (!decide s.Measured, toLex (if s.Measured then s.getMeanRTT else -1, distanceTo location s)))

variable {location} {a b c : RttStatistic}

theorem before_iff_key_lt : Before location a b ↔ key location a < key location b := by
  unfold Before key
  simp only [Prod.Lex.toLex_lt_toLex]
  by_cases ha : a.Measured
  · by_cases hb : b.Measured
    · simp [ha, hb]
    · simp [ha, hb]
  · by_cases hb : b.Measured
    · simp [ha, hb]
    · simp [ha, hb]

theorem distanceTo_inj (h : distanceTo location a = distanceTo location b) : a.peerId = b.peerId := by
  have hnat := congrArg Number160.toNat h
  unfold distanceTo distance at hnat
  rw [Number160.toNat_xor, Number160.toNat_xor] at hnat
  exact Number160.toNat_injective (Nat.xor_right_injective hnat)

/-- Different ids have different keys. -/
theorem key_inj (h : key location a = key location b) : a.peerId = b.peerId := by
  have hdistance : distanceTo location a = distanceTo location b :=
    congrArg (fun x => (ofLex (ofLex (ofLex x).2).2).2) h
  exact distanceTo_inj hdistance

theorem compare_of_peerId (h : a.peerId = b.peerId) : RTTPeerStatisticComparator.compare location a b = .eq := by
  have hequals : a.peerAddress.equals b.peerAddress = true := decide_eq_true h
  rw [RTTPeerStatisticComparator.compare, if_pos hequals]

theorem isKadCloser_eq (h : distanceTo location a ≠ distanceTo location b) :
    isKadCloser location a.peerAddress b.peerAddress =
      if distanceTo location a < distanceTo location b then .lt else .gt := by
  have hlt : distanceTo location a < distanceTo location b ↔
      (distanceTo location a).compareTo (distanceTo location b) = .lt := Iff.rfl
  have hcloser : isKadCloser location a.peerAddress b.peerAddress =
      (distanceTo location a).compareTo (distanceTo location b) := rfl
  rw [hcloser]
  cases hcompare : (distanceTo location a).compareTo (distanceTo location b) with
  | lt => rw [if_pos (hlt.2 hcompare)]
  | gt => rw [if_neg (by rw [hlt, hcompare]; decide)]
  | eq =>
      rw [Number160.compareTo_eq, compare_eq_iff_eq] at hcompare
      exact absurd (Number160.toNat_injective hcompare) h

/-- In one bag, what is measured comes first, then the smaller mean, then the smaller distance. -/
theorem compare_of_bag_eq (h : a.peerId ≠ b.peerId) (hbag : bag location a = bag location b) :
    RTTPeerStatisticComparator.compare location a b = if Before location a b then .lt else .gt := by
  have hequals : ¬ a.peerAddress.equals b.peerAddress = true := fun heq => h (of_decide_eq_true heq)
  have hdistance : distanceTo location a ≠ distanceTo location b := fun heq => h (distanceTo_inj heq)
  have hclass : classCloser location a.peerAddress b.peerAddress = .eq := compare_eq_iff_eq.2 hbag
  rw [RTTPeerStatisticComparator.compare, if_neg hequals]
  simp only [hclass, if_true, isKadCloser_eq hdistance, Before, hbag, lt_irrefl, false_or, true_and]
  by_cases ha : a.Measured
  · by_cases hb : b.Measured
    · have hna : ¬ a.getMeanRTT < 0 := not_lt.2 ha
      have hnb : ¬ b.getMeanRTT < 0 := not_lt.2 hb
      have ha' : 0 ≤ a.getMeanRTT := ha
      have hb' : 0 ≤ b.getMeanRTT := hb
      rcases lt_trichotomy a.getMeanRTT b.getMeanRTT with hlt | heq | hgt
      · simp [ha, hb, hna, hnb, ha', hb', hlt, hlt.ne, compare_lt_iff_lt.2 hlt]
      · simp [ha, hb, hnb, hb', heq]
      · simp [ha, hb, hna, hnb, ha', hb', hgt.ne', hgt.le, compare_gt_iff_gt.2 hgt]
    · have hnb : b.getMeanRTT < 0 := not_le.1 hb
      have ha' : 0 ≤ a.getMeanRTT := ha
      simp [ha, hb, hnb, ha', not_le.2 hnb]
  · have hna : a.getMeanRTT < 0 := not_le.1 ha
    by_cases hb : b.Measured
    · have hb' : 0 ≤ b.getMeanRTT := hb
      simp [ha, hb, hna, hb']
    · have hnb : b.getMeanRTT < 0 := not_le.1 hb
      simp [ha, hb, not_le.2 hna, not_le.2 hnb]

/-- Comparing two peers is comparing their keys. -/
theorem compare_eq (h : a.peerId ≠ b.peerId) :
    RTTPeerStatisticComparator.compare location a b = if Before location a b then .lt else .gt := by
  have hequals : ¬ a.peerAddress.equals b.peerAddress = true := fun heq => h (of_decide_eq_true heq)
  rcases lt_trichotomy (bag location a) (bag location b) with hlt | heq | hgt
  · have hclass : classCloser location a.peerAddress b.peerAddress = .lt := compare_lt_iff_lt.2 hlt
    have hbefore : Before location a b := .inl hlt
    rw [RTTPeerStatisticComparator.compare, if_neg hequals, if_pos hbefore]
    simp [hclass]
  · exact compare_of_bag_eq h heq
  · have hclass : classCloser location a.peerAddress b.peerAddress = .gt := compare_gt_iff_gt.2 hgt
    have hnot : ¬ Before location a b := by
      rintro (hlt | ⟨heq, -⟩)
      · exact absurd hlt hgt.not_gt
      · exact absurd heq hgt.ne'
    rw [RTTPeerStatisticComparator.compare, if_neg hequals, if_neg hnot]
    simp [hclass]

/-- The comparator puts first what should be. -/
theorem compare_eq_lt_iff (h : a.peerId = b.peerId → a = b) :
    RTTPeerStatisticComparator.compare location a b = .lt ↔ Before location a b := by
  by_cases hid : a.peerId = b.peerId
  · rw [compare_of_peerId hid, h hid, before_iff_key_lt]
    simp
  · rw [compare_eq hid]
    simp

theorem compare_eq_gt_iff (h : a.peerId = b.peerId → a = b) :
    RTTPeerStatisticComparator.compare location a b = .gt ↔ Before location b a := by
  by_cases hid : a.peerId = b.peerId
  · rw [compare_of_peerId hid, h hid, before_iff_key_lt]
    simp
  · have hkey : key location a ≠ key location b := fun heq => hid (key_inj heq)
    have hnot : Before location b a ↔ ¬ Before location a b := by
      rw [before_iff_key_lt, before_iff_key_lt, not_lt]
      exact ⟨le_of_lt, fun hle => lt_of_le_of_ne hle hkey.symm⟩
    rw [compare_eq hid, hnot]
    simp

theorem compare_eq_eq_iff : RTTPeerStatisticComparator.compare location a b = .eq ↔ a.peerId = b.peerId := by
  constructor
  · intro heq
    by_contra hid
    rw [compare_eq hid] at heq
    split at heq <;> cases heq
  · exact compare_of_peerId

/-- On peers with different ids the comparator is a total order: it is antisymmetric, transitive,
    zero for one peer only, and goes through the four criteria. A mean is available if there is a
    time, provided that the times are positive and their sum is a `long`. -/
theorem compare_order (location : Number160) (peers : Set RttStatistic)
    (hpeers : ∀ a ∈ peers, ∀ b ∈ peers, a.peerId = b.peerId → a = b) :
    (∀ a ∈ peers, ∀ b ∈ peers, RTTPeerStatisticComparator.compare location a b =
        (RTTPeerStatisticComparator.compare location b a).swap) ∧
      (∀ a ∈ peers, ∀ b ∈ peers, ∀ c ∈ peers, RTTPeerStatisticComparator.compare location a b ≠ .gt →
        RTTPeerStatisticComparator.compare location b c ≠ .gt →
          RTTPeerStatisticComparator.compare location a c ≠ .gt) ∧
      (∀ a ∈ peers, ∀ b ∈ peers, RTTPeerStatisticComparator.compare location a b = .eq ↔ a.peerId = b.peerId) ∧
      (∀ a ∈ peers, ∀ b ∈ peers,
        RTTPeerStatisticComparator.compare location a b = .lt ↔ Before location a b) ∧
      ∀ s ∈ peers, (∀ r ∈ s.rttCache, 0 < r.getRtt) → (s.rttCache.map RTT.getRtt).sum < 2 ^ 63 →
        (s.Measured ↔ s.rttCache ≠ []) := by
  refine ⟨?_, ?_, fun a _ b _ => compare_eq_eq_iff, ?_, ?_⟩
  · intro a ha b hb
    have hab := hpeers a ha b hb
    have hba := hpeers b hb a ha
    cases h : RTTPeerStatisticComparator.compare location b a with
    | lt => exact (compare_eq_gt_iff hab).2 ((compare_eq_lt_iff hba).1 h)
    | gt => exact (compare_eq_lt_iff hab).2 ((compare_eq_gt_iff hba).1 h)
    | eq => exact compare_of_peerId (compare_eq_eq_iff.1 h).symm
  · intro a ha b hb c hc hab hbc
    rw [Ne, compare_eq_gt_iff (hpeers a ha b hb), before_iff_key_lt, not_lt] at hab
    rw [Ne, compare_eq_gt_iff (hpeers b hb c hc), before_iff_key_lt, not_lt] at hbc
    rw [Ne, compare_eq_gt_iff (hpeers a ha c hc), before_iff_key_lt, not_lt]
    exact le_trans hab hbc
  · intro a ha b hb
    exact compare_eq_lt_iff (hpeers a ha b hb)
  · intro s _ hpos hsum
    exact (s.measured_iff hpos hsum).1

/-- Two peers in one bag, of which one was measured. -/
theorem compare_order_pair :
    let a : RttStatistic := ⟨{ peerId := ⟨0, 0, 0, 0, 4⟩ }, []⟩
    let b : RttStatistic := ⟨{ peerId := ⟨0, 0, 0, 0, 5⟩ }, [{ rtt := 20 }]⟩
    RTTPeerStatisticComparator.compare 0 b a = .lt ∧ b.Measured ∧
      RTTPeerStatisticComparator.compare 0 a b = .gt := by
  intro a b
  have hne : a.peerId ≠ b.peerId := by decide
  have hpeers : ∀ x ∈ ({a, b} : Set RttStatistic), ∀ y ∈ ({a, b} : Set RttStatistic), x.peerId = y.peerId → x = y := by
    intro x hx y hy hid
    rcases hx with rfl | rfl
    · rcases hy with rfl | rfl
      · rfl
      · exact absurd hid hne
    · rcases hy with rfl | rfl
      · exact absurd hid.symm hne
      · rfl
  obtain ⟨hswap, -, -, hbefore, hmeasured⟩ := compare_order 0 {a, b} hpeers
  have hb : b.Measured := (hmeasured b (.inr rfl) (by decide) (by decide)).2 (by decide)
  have hlt : RTTPeerStatisticComparator.compare 0 b a = .lt := by
    refine (hbefore b (.inr rfl) a (.inl rfl)).2 (.inr ⟨by decide, .inl ⟨hb, by decide⟩⟩)
  refine ⟨hlt, hb, ?_⟩
  rw [hswap a (.inl rfl) b (.inr rfl), hlt]
  rfl

end RTTPeerStatisticComparator

end TomP2P
