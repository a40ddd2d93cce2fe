import TomP2P.Core.Maintenance
import Mathlib.Order.Bounds.Basic

/-!
# How Often a Peer is Checked

The interval for a peer is the smallest that is at least as long as the peer has been online,
and the largest if there is none. So the longer a peer has been online, the less often it is
checked.

The code has the time online as an `int`. After 24.8 days the number turns negative and the
peer is checked as if it had just come, after 49.7 days it starts at zero. This does no harm
as long as the number, in seconds, is still beyond the same intervals: those that are below
the time online, of which the largest interval does not count. With the usual intervals, of
which the last but one is half a minute, a peer is checked too often while the number is
negative and for the first half minute after that.

## Main definitions

* `IsInterval`: The interval that is meant for a time online.
* `ChecksInTime`: A peer is checked with the interval that is meant for it.
* `SameIntervals`: The narrowed time online is beyond the same intervals.

## Theorems

* `IsInterval.mono`: The longer a time online, the longer its interval.
* `isInterval_interval`: The code finds the interval for the number of seconds it has.
* `checksInTime_iff`: When a peer is checked in time.
-/

namespace TomP2P

open List

namespace DefaultMaintenance

/-- The time a peer has been online, in whole seconds. -/
def onlineSeconds (s : PeerStatistic) : Int := (s.lastSeenOnline - s.created).tdiv 1000

/-- The same as the code has it. -/
def narrowedSeconds (s : PeerStatistic) : Int := s.onlineTime.toInt.tdiv 1000

/-- The smallest interval that is at least this long, or the largest if there is none. -/
def IsInterval (xs : List Int) (sec i : Int) : Prop :=
  IsLeast {x | x ∈ xs ∧ sec ≤ x} i ∨ (∀ x ∈ xs, x < sec) ∧ IsGreatest {x | x ∈ xs} i

/-- At any time, the peer is to be checked exactly if it was last seen longer ago than its
    interval. -/
def ChecksInTime (xs : List Int) (s : PeerStatistic) : Prop :=
  ∀ now, ∃ i, IsInterval xs (onlineSeconds s) i ∧
    needMaintenance s xs now = .ok (decide (i * 1000 < now - s.lastSeenOnline))

/-- There are intervals, and those below the time online are below the narrowed one too. The
    largest does not count. -/
def SameIntervals (xs : List Int) (s : PeerStatistic) : Prop :=
  xs ≠ [] ∧ ∀ x ∈ xs, ∀ y ∈ xs, x < y → x < onlineSeconds s → 0 < narrowedSeconds s ∧ x < narrowedSeconds s

/-- When the two have not been seen for the same time, then the first is to be checked if the
    second is. -/
def ChecksAsOften (xs : List Int) (s s' : PeerStatistic) : Prop :=
  ∀ now now', now - s.lastSeenOnline = now' - s'.lastSeenOnline →
    needMaintenance s' xs now' = .ok true → needMaintenance s xs now = .ok true

section Intervals

variable {xs : List Int} {sec sec' i i' : Int}

theorem IsInterval.mem (h : IsInterval xs sec i) : i ∈ xs := by
  rcases h with h | ⟨-, h⟩
  · exact h.1.1
  · exact h.1

/-- The longer a time online, the longer its interval. -/
theorem IsInterval.mono (hle : sec ≤ sec') (h : IsInterval xs sec i) (h' : IsInterval xs sec' i') : i ≤ i' := by
  rcases h' with hleast | ⟨-, hgreatest⟩
  · rcases h with h | ⟨hbelow, -⟩
    · exact h.2 ⟨hleast.1.1, le_trans hle hleast.1.2⟩
    · -- All intervals are below the shorter time, but not below the longer one.
      have hlt := hbelow i' hleast.1.1
      have hge := hleast.1.2
      omega
  · exact hgreatest.2 h.mem

theorem IsInterval.unique (h : IsInterval xs sec i) (h' : IsInterval xs sec i') : i = i' :=
  le_antisymm (h.mono le_rfl h') (h'.mono le_rfl h)

/-- The first of some sorted numbers with a property is the least one. -/
theorem isLeast_find? {p : Int → Bool} (hxs : xs.Pairwise (· ≤ ·)) (h : xs.find? p = some i) :
    IsLeast {x | x ∈ xs ∧ p x = true} i := by
  obtain ⟨hp, before, after, rfl, hbefore⟩ := find?_eq_some_iff_append.1 h
  refine ⟨⟨by simp, hp⟩, ?_⟩
  rintro x ⟨hx, hpx⟩
  have hafter := (pairwise_cons.1 (pairwise_append.1 hxs).2.1).1
  simp only [mem_append, mem_cons] at hx
  rcases hx with hx | rfl | hx
  · have hno := hbefore x hx
    simp only [hpx, Bool.not_true, Bool.false_eq_true] at hno
  · exact le_rfl
  · exact hafter x hx

theorem isGreatest_getLast? (hxs : xs.Pairwise (· ≤ ·)) (h : xs.getLast? = some i) : IsGreatest {x | x ∈ xs} i := by
  obtain ⟨before, rfl⟩ := getLast?_eq_some_iff.1 h
  refine ⟨by simp, ?_⟩
  intro x hx
  simp only [Set.mem_ofPred_eq, mem_append, mem_singleton] at hx
  rcases hx with hx | rfl
  · exact (pairwise_append.1 hxs).2.2 x hx i (by simp)
  · exact le_rfl

/-- With a second or more online the code finds the interval. -/
theorem isInterval_interval (hxs : xs.Pairwise (· ≤ ·)) (hsec : 0 < sec) (h : interval xs sec = some i) :
    IsInterval xs sec i := by
  rw [interval, if_neg (not_le.2 hsec)] at h
  cases hfind : xs.find? fun x => decide (sec ≤ x) with
  | some x =>
      rw [hfind] at h
      cases h
      refine .inl ?_
      simpa only [decide_eq_true_eq] using isLeast_find? hxs hfind
  | none =>
      rw [hfind] at h
      refine .inr ⟨?_, isGreatest_getLast? hxs h⟩
      intro x hx
      have hno := find?_eq_none.1 hfind x hx
      simpa only [decide_eq_true_eq, not_le] using hno

/-- With less than a second the code takes the least interval there is. -/
theorem interval_le (hxs : xs.Pairwise (· ≤ ·)) (hsec : sec ≤ 0) (h : interval xs sec = some i) :
    ∀ x ∈ xs, i ≤ x := by
  rw [interval, if_pos hsec] at h
  cases xs with
  | nil => cases h
  | cons y ys =>
      cases h
      intro x hx
      rcases mem_cons.1 hx with rfl | hx
      · exact le_rfl
      · exact (pairwise_cons.1 hxs).1 x hx

theorem interval_mem (h : interval xs sec = some i) : i ∈ xs := by
  unfold interval at h
  split at h
  · exact mem_of_mem_head? h
  · split at h
    · next x hfind =>
        cases h
        exact mem_of_find?_eq_some hfind
    · exact mem_of_getLast? h

theorem interval_isSome (hne : xs ≠ []) (sec : Int) : ∃ i, interval xs sec = some i := by
  unfold interval
  split
  · exact ⟨xs.head hne, head?_eq_some_head hne⟩
  · split
    · next x hfind => exact ⟨x, rfl⟩
    · exact ⟨xs.getLast hne, getLast?_eq_some_getLast hne⟩

end Intervals

section Peers

variable {xs : List Int} {s s' : PeerStatistic} {i : Int}

theorem narrowedSeconds_le (hs : s.created ≤ s.lastSeenOnline) : narrowedSeconds s ≤ onlineSeconds s := by
  refine Int.tdiv_le_tdiv (by decide) ?_
  rw [PeerStatistic.onlineTime, BitVec.toInt_ofInt, Int.bmod_def]
  omega

theorem needMaintenance_eq (h : interval xs (narrowedSeconds s) = some i) (now : Int) :
    needMaintenance s xs now = .ok (decide (i * 1000 < now - s.lastSeenOnline)) := by
  unfold narrowedSeconds at h
  simp only [needMaintenance, h]

/-- An interval that is below the time online but not below the narrowed one is the largest. -/
theorem SameIntervals.largest (h : SameIntervals xs s) (hmem : i ∈ xs) (hlt : i < onlineSeconds s)
    (hnot : ¬ (0 < narrowedSeconds s ∧ i < narrowedSeconds s)) : IsInterval xs (onlineSeconds s) i := by
  have hle : ∀ y ∈ xs, y ≤ i := by
    intro y hy
    by_contra hgt
    exact hnot (h.2 i hmem y hy (not_le.1 hgt) hlt)
  exact .inr ⟨fun x hx => lt_of_le_of_lt (hle x hx) hlt, hmem, fun x hx => hle x hx⟩

/-- Beyond the same intervals, the interval for the narrowed time is that for the time online. -/
theorem SameIntervals.isInterval (hxs : xs.Pairwise (· ≤ ·)) (hs : s.created ≤ s.lastSeenOnline)
    (h : SameIntervals xs s) (hi : interval xs (narrowedSeconds s) = some i) :
    IsInterval xs (onlineSeconds s) i := by
  have hmem := interval_mem hi
  have hle := narrowedSeconds_le hs
  by_cases hpos : 0 < narrowedSeconds s
  · rcases isInterval_interval hxs hpos hi with hleast | ⟨hbelow, hgreatest⟩
    · by_cases hge : onlineSeconds s ≤ i
      · exact .inl ⟨⟨hmem, hge⟩, fun x hx => hleast.2 ⟨hx.1, le_trans hle hx.2⟩⟩
      · refine h.largest hmem (not_le.1 hge) ?_
        rintro ⟨-, hlt⟩
        exact absurd hleast.1.2 (not_le.2 hlt)
    · exact .inr ⟨fun x hx => lt_of_lt_of_le (hbelow x hx) hle, hgreatest⟩
  · have hmin := interval_le hxs (not_lt.1 hpos) hi
    by_cases hge : onlineSeconds s ≤ i
    · exact .inl ⟨⟨hmem, hge⟩, fun x hx => hmin x hx.1⟩
    · exact h.largest hmem (not_le.1 hge) fun hand => hpos hand.1

theorem SameIntervals.checksInTime (hxs : xs.Pairwise (· ≤ ·)) (hs : s.created ≤ s.lastSeenOnline)
    (h : SameIntervals xs s) : ChecksInTime xs s := by
  intro now
  obtain ⟨i, hi⟩ := interval_isSome h.1 (narrowedSeconds s)
  exact ⟨i, h.isInterval hxs hs hi, needMaintenance_eq hi now⟩

/-- A peer that is checked in time is checked with its interval: a moment between two intervals
    would tell them apart. -/
theorem ChecksInTime.isInterval (h : ChecksInTime xs s) (hi : interval xs (narrowedSeconds s) = some i) :
    IsInterval xs (onlineSeconds s) i := by
  obtain ⟨j, hj, -⟩ := h 0
  have hsame : ∀ d : Int, i * 1000 < d ↔ j * 1000 < d := by
    intro d
    obtain ⟨k, hk, hneed⟩ := h (d + s.lastSeenOnline)
    rw [needMaintenance_eq hi, Int.add_sub_cancel, hk.unique hj] at hneed
    simpa only [Except.ok.injEq, decide_eq_decide] using hneed
  have hij := hsame (i * 1000 + 1)
  have hji := hsame (j * 1000 + 1)
  have heq : i = j := by omega
  exact heq ▸ hj

theorem ChecksInTime.ne_nil (h : ChecksInTime xs s) : xs ≠ [] := by
  obtain ⟨i, hi, -⟩ := h 0
  exact ne_nil_of_mem hi.mem

theorem ChecksInTime.sameIntervals (hxs : xs.Pairwise (· ≤ ·)) (h : ChecksInTime xs s) : SameIntervals xs s := by
  refine ⟨h.ne_nil, ?_⟩
  intro x hx y hy hxy hlt
  obtain ⟨i, hi⟩ := interval_isSome h.ne_nil (narrowedSeconds s)
  by_contra hnot
  -- The code takes an interval that is not longer than `x`.
  have hix : i ≤ x := by
    by_cases hpos : 0 < narrowedSeconds s
    · have hge : narrowedSeconds s ≤ x := not_lt.1 fun hxn => hnot ⟨hpos, hxn⟩
      rcases isInterval_interval hxs hpos hi with hleast | ⟨hbelow, -⟩
      · exact hleast.2 ⟨hx, hge⟩
      · exact absurd (hbelow x hx) (not_lt.2 hge)
    · exact interval_le hxs (not_lt.1 hpos) hi x hx
  rcases h.isInterval hi with hleast | ⟨-, hgreatest⟩
  · have hge := hleast.1.2
    omega
  · have hge : y ≤ i := hgreatest.2 hy
    omega

/-- The longer a peer has been online, the less often it is checked. -/
theorem ChecksInTime.checksAsOften (h : ChecksInTime xs s) (h' : ChecksInTime xs s')
    (hle : onlineSeconds s ≤ onlineSeconds s') : ChecksAsOften xs s s' := by
  intro now now' hidle hneed
  obtain ⟨i, hi, hcode⟩ := h now
  obtain ⟨i', hi', hcode'⟩ := h' now'
  have hmono := hi.mono hle hi'
  rw [hcode', Except.ok.injEq, decide_eq_true_eq] at hneed
  rw [hcode, Except.ok.injEq, decide_eq_true_eq]
  omega

/-- A peer is checked in time exactly if the narrowed time online is beyond the same intervals.
    Of two such peers the one that has been online for longer is not checked more often. -/
theorem checksInTime_iff (xs : List Int) (hxs : xs.Pairwise (· ≤ ·)) :
    (∀ s : PeerStatistic, s.created ≤ s.lastSeenOnline → (ChecksInTime xs s ↔ SameIntervals xs s)) ∧
      ∀ s s' : PeerStatistic, s.created ≤ s.lastSeenOnline → s'.created ≤ s'.lastSeenOnline →
        SameIntervals xs s → SameIntervals xs s' → onlineSeconds s ≤ onlineSeconds s' →
          ChecksAsOften xs s s' := by
  constructor
  · intro s hs
    exact ⟨ChecksInTime.sameIntervals hxs, SameIntervals.checksInTime hxs hs⟩
  · intro s s' hs hs' h h' hle
    exact (h.checksInTime hxs hs).checksAsOften (h'.checksInTime hxs hs') hle

end Peers

/-! ### A peer that is online for weeks -/

/-- A peer that has been online for this many milliseconds. -/
def onlineFor (millis : Int) : PeerStatistic :=
  { PeerStatistic.new 0 { peerId := ⟨0, 0, 0, 0, 7⟩ } with lastSeenOnline := millis }

/-- The intervals a peer map comes with. -/
def usualIntervals : List Int := [2, 4, 8, 16, 32, 64]

instance (xs : List Int) (s : PeerStatistic) : Decidable (SameIntervals xs s) := by
  unfold SameIntervals
  infer_instance

theorem checksInTime_seconds :
    ChecksInTime usualIntervals (onlineFor 5000) ∧ ChecksInTime usualIntervals (onlineFor 17000) ∧
      ChecksAsOften usualIntervals (onlineFor 5000) (onlineFor 17000) := by
  have h := checksInTime_iff usualIntervals (by decide)
  exact ⟨(h.1 _ (by decide)).2 (by decide), (h.1 _ (by decide)).2 (by decide),
    h.2 _ _ (by decide) (by decide) (by decide) (by decide) (by decide)⟩

/-- After 2^31 milliseconds online a peer is checked again after three seconds already. -/
theorem not_checksInTime_weeks : ¬ ChecksInTime usualIntervals (onlineFor (2 ^ 31)) := by
  intro h
  obtain ⟨i, hi, hcode⟩ := h (2 ^ 31 + 3000)
  have hle : ∀ x ∈ usualIntervals, x ≤ 64 := by decide
  have hlargest : IsInterval usualIntervals (onlineSeconds (onlineFor (2 ^ 31))) 64 :=
    .inr ⟨by decide, by decide, fun x hx => hle x hx⟩
  rw [hi.unique hlargest] at hcode
  revert hcode
  decide

end DefaultMaintenance

end TomP2P
