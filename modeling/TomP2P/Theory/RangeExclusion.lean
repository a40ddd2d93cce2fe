import Mathlib.Data.List.Pairwise
import Mathlib.Data.Set.Insert
import TomP2P.Core.RangeLock

/-!
# Exclusion by Range Locks

Threads that hold ranges that overlap are the same thread.

The table of a lock is what the ranges that are held make of it: a key belongs
to a thread if it is an end of a range of that thread (`Guards`). A range that
overlaps one that is held by another thread has an end of it within, or both of
its ends outside, and is therefore refused; this is `Guards.blocked`, and with it
a range that is granted keeps the invariant.

Unlocking is the delicate part, since it frees the ends of the range whoever
needs them. It keeps the invariant if no other range has an end in common with
the range. Of another thread's range this is exclusion, of a range of the same
thread it is an assumption, `Separate`.

## Main definitions

* `RangeLock.Guards`: The table records the ranges that are held, and they
  exclude each other.
* `RangeLock.Separate`: No thread holds two ranges with a common end.
* `RangeLock.Run`: The states in which that was so all along.

## Theorems

* `RangeLock.Guards.grant`, `RangeLock.Guards.release`: What one step keeps.
* `RangeLock.Run.guards`: What a run keeps.
* `RangeLock.Run.exclusive`: Exclusion, the reason of a refusal, and the empty
  table.
-/

namespace TomP2P

open NavMap

namespace RangeLock

variable {K T : Type} [LinearOrder K] [DecidableEq T]

/-- A key at which a range starts or stops. -/
def Range.IsEnd (r : Range K) (k : K) : Prop := k = r.fromKey ∨ k = r.toKey

/-- A key that lies in a range. -/
def Range.Has (r : Range K) (k : K) : Prop := r.fromKey ≤ k ∧ k ≤ r.toKey

/-- Two ranges share a key. -/
def Range.Overlaps (r q : Range K) : Prop := ∃ k, r.Has k ∧ q.Has k

/-- Two ranges share an end. -/
def Range.SharesEnd (r q : Range K) : Prop := ∃ k, r.IsEnd k ∧ q.IsEnd k

instance (r q : Range K) : Decidable (r.SharesEnd q) :=
  decidable_of_iff
    (r.fromKey = q.fromKey ∨ r.fromKey = q.toKey ∨ r.toKey = q.fromKey ∨ r.toKey = q.toKey) (by
      constructor
      · rintro (h | h | h | h)
        · exact ⟨_, .inl rfl, .inl h⟩
        · exact ⟨_, .inl rfl, .inr h⟩
        · exact ⟨_, .inr rfl, .inl h⟩
        · exact ⟨_, .inr rfl, .inr h⟩
      · rintro ⟨k, rfl | rfl, h | h⟩ <;> simp [h])

omit [LinearOrder K] in
theorem Range.sharesEnd_self (r : Range K) : r.SharesEnd r := ⟨r.fromKey, .inl rfl, .inl rfl⟩

theorem Range.Has.of_isEnd {r : Range K} {k : K} (hr : r.fromKey ≤ r.toKey) (h : r.IsEnd k) : r.Has k := by
  rcases h with rfl | rfl
  · exact ⟨le_refl _, hr⟩
  · exact ⟨hr, le_refl _⟩

/-- The table of a lock records the ranges that are held, and ranges of different
    threads do not overlap. -/
structure Guards (cache : NavMap K T) (held : Set (T × Range K)) : Prop where
  ordered : ∀ p ∈ held, p.2.fromKey ≤ p.2.toKey
  recorded : ∀ k t, cache.get k = some t ↔ ∃ r, (t, r) ∈ held ∧ r.IsEnd k
  apart : ∀ p ∈ held, ∀ q ∈ held, p.1 ≠ q.1 → ¬ p.2.Overlaps q.2

namespace Guards

variable {cache : NavMap K T} {held : Set (T × Range K)}

omit [DecidableEq T] in
theorem init : Guards (.empty : NavMap K T) ∅ where
  ordered p hp := hp.elim
  recorded k t := by simp
  apart p hp := hp.elim

omit [DecidableEq T] in
/-- A thread with a range that overlaps a request is in the way of it: an end of
    its range lies in the request, or its ends lie on both sides. -/
theorem inTheWay (h : Guards cache held) {u : T} {r : Range K} (hr : (u, r) ∈ held) {q : Range K}
    (hq : r.Overlaps q) : InTheWay cache u q.fromKey q.toKey := by
  obtain ⟨k, hrk, hqk⟩ := hq
  have hfrom : cache.get r.fromKey = some u := (h.recorded _ _).mpr ⟨r, hr, .inl rfl⟩
  have hto : cache.get r.toKey = some u := (h.recorded _ _).mpr ⟨r, hr, .inr rfl⟩
  by_cases hlow : q.fromKey ≤ r.fromKey
  · exact .inl ⟨r.fromKey, hlow, le_trans hrk.1 hqk.2, hfrom⟩
  · by_cases hhigh : r.toKey ≤ q.toKey
    · exact .inl ⟨r.toKey, le_trans hqk.1 hrk.2, hhigh, hto⟩
    · exact .inr ⟨⟨r.fromKey, not_le.mp hlow, hfrom⟩, ⟨r.toKey, not_le.mp hhigh, hto⟩⟩

omit [DecidableEq T] in
theorem blocked (h : Guards cache held) {u t : T} {r : Range K} (hr : (u, r) ∈ held) (hne : u ≠ t)
    {q : Range K} (hq : r.Overlaps q) : Blocked cache t q.fromKey q.toKey :=
  ⟨u, hne, h.inTheWay hr hq⟩

omit [DecidableEq T] in
theorem get_record (cache : NavMap K T) (t : T) (r : Range K) (k : K) :
    (record cache t r.fromKey r.toKey).get k =
      if k = r.toKey then some t else if k = r.fromKey then some t else cache.get k := by
  rw [record, get_put, get_put]

/-- Granting a range that is not blocked. -/
theorem grant (h : Guards cache held) {t : T} {r : Range K} (hr : r.fromKey ≤ r.toKey)
    (hfree : ¬ Blocked cache t r.fromKey r.toKey) :
    Guards (record cache t r.fromKey r.toKey) (insert (t, r) held) where
  ordered p hp := by
    rcases hp with rfl | hp
    · exact hr
    · exact h.ordered p hp
  recorded k u := by
    rw [get_record]
    -- a key of the range that was recorded before is one of the thread itself
    have hown (v : T) (q : Range K) (hq : (v, q) ∈ held) (hk : q.IsEnd k) (hin : r.Has k) : v = t := by
      by_contra hne
      have hover : q.Overlaps r := ⟨k, Range.Has.of_isEnd (h.ordered _ hq) hk, hin⟩
      exact hfree (h.blocked hq hne hover)
    by_cases hend : r.IsEnd k
    · have hget : (if k = r.toKey then some t else if k = r.fromKey then some t else cache.get k) =
          some t := by
        rcases hend with hk | hk <;> simp [hk]
      rw [hget, Option.some.injEq]
      constructor
      · rintro rfl
        exact ⟨r, Set.mem_insert _ _, hend⟩
      · rintro ⟨q, hq | hq, hk⟩
        · cases hq
          rfl
        · exact (hown u q hq hk (Range.Has.of_isEnd hr hend)).symm
    · have hget : (if k = r.toKey then some t else if k = r.fromKey then some t else cache.get k) =
          cache.get k := by
        rw [if_neg fun hk => hend (.inr hk), if_neg fun hk => hend (.inl hk)]
      rw [hget, h.recorded]
      constructor
      · rintro ⟨q, hq, hk⟩
        exact ⟨q, Set.mem_insert_of_mem _ hq, hk⟩
      · rintro ⟨q, hq | hq, hk⟩
        · cases hq
          exact absurd hk hend
        · exact ⟨q, hq, hk⟩
  apart p hp q hq hne hover := by
    rcases hp with rfl | hp <;> rcases hq with rfl | hq
    · exact hne rfl
    · obtain ⟨k, hk, hk'⟩ := hover
      exact hfree (h.blocked hq hne.symm ⟨k, hk', hk⟩)
    · exact hfree (h.blocked hp hne hover)
    · exact h.apart p hp q hq hne hover

omit [DecidableEq T] in
theorem get_unlock (cache : NavMap K T) (r : Range K) (k : K) :
    (unlock cache r).get k =
      if k = r.toKey then none else if k = r.fromKey then none else cache.get k := by
  rw [unlock, get_remove, get_remove]

/-- Unlocking a range that has no end in common with another one of its thread. -/
theorem release (h : Guards cache held) {t : T} {r : Range K} (hr : (t, r) ∈ held)
    (hsep : ∀ q, (t, q) ∈ held → q ≠ r → ¬ r.SharesEnd q) :
    Guards (unlock cache r) (held \ {(t, r)}) where
  ordered p hp := h.ordered p hp.1
  recorded k u := by
    rw [get_unlock]
    by_cases hend : r.IsEnd k
    · have hget : (if k = r.toKey then none else if k = r.fromKey then none else cache.get k) =
          none := by
        rcases hend with hk | hk <;> simp [hk]
      rw [hget]
      refine ⟨nofun, ?_⟩
      rintro ⟨q, ⟨hq, hne⟩, hk⟩
      exfalso
      by_cases hu : u = t
      · subst hu
        refine hsep q hq ?_ ⟨k, hend, hk⟩
        rintro rfl
        exact hne rfl
      · exact h.apart _ hq _ hr hu ⟨k, Range.Has.of_isEnd (h.ordered _ hq) hk,
          Range.Has.of_isEnd (h.ordered _ hr) hend⟩
    · have hget : (if k = r.toKey then none else if k = r.fromKey then none else cache.get k) =
          cache.get k := by
        rw [if_neg fun hk => hend (.inr hk), if_neg fun hk => hend (.inl hk)]
      rw [hget, h.recorded]
      constructor
      · rintro ⟨q, hq, hk⟩
        refine ⟨q, ⟨hq, ?_⟩, hk⟩
        rintro hqr
        cases hqr
        exact hend hk
      · rintro ⟨q, ⟨hq, _⟩, hk⟩
        exact ⟨q, hq, hk⟩
  apart p hp q hq := h.apart p hp.1 q hq.1

omit [DecidableEq T] in
/-- The table is empty when nothing is held. -/
theorem empty_of_not_held (h : Guards cache held) (hnone : ∀ p, p ∉ held) : cache = .empty := by
  apply ext_get
  intro k
  rw [get_empty, Option.eq_none_iff_forall_ne_some]
  intro t ht
  obtain ⟨r, hr, _⟩ := (h.recorded k t).mp ht
  exact hnone _ hr

end Guards

/-! ### Runs -/

/-- No thread holds two ranges with a common end. -/
def Separate (s : State K T) : Prop :=
  s.held.Pairwise fun p q => p.1 = q.1 → ¬ p.2.SharesEnd q.2

instance (s : State K T) : Decidable (Separate s) :=
  inferInstanceAs (Decidable (s.held.Pairwise fun p q => p.1 = q.1 → ¬ p.2.SharesEnd q.2))

/-- The states of the lock, in any interleaving in which no thread holds two
    ranges with a common end at any time. -/
inductive Run : State K T → Prop
  | start : Run {}
  | step {s s' : State K T} {e : Event K T} {answer : Answer K} (h : Run s)
      (hstep : s.step e = some (s', answer)) (hsep : Separate s') : Run s'

/-- What an event can do: nothing to the ranges, grant one that is not blocked,
    or take one back. -/
theorem step_cases {s s' : State K T} {e : Event K T} {answer : Answer K}
    (h : s.step e = some (s', answer)) :
    (s'.cache = s.cache ∧ s'.held = s.held) ∨
      (∃ t r, r.fromKey ≤ r.toKey ∧ ¬ Blocked s.cache t r.fromKey r.toKey ∧
        s'.cache = record s.cache t r.fromKey r.toKey ∧ s'.held = (t, r) :: s.held) ∨
      (∃ t r, (t, r) ∈ s.held ∧ s'.cache = unlock s.cache r ∧ s'.held = s.held.erase (t, r)) := by
  -- Who locks and who wakes up tries the same.
  have hround (t : T) (fromKey toKey : K) (hlock : s.lockRound t fromKey toKey = (s', answer)) :
      (s'.cache = s.cache ∧ s'.held = s.held) ∨
        ∃ t r, r.fromKey ≤ r.toKey ∧ ¬ Blocked s.cache t r.fromKey r.toKey ∧
          s'.cache = record s.cache t r.fromKey r.toKey ∧ s'.held = (t, r) :: s.held := by
    rw [State.lockRound, lock_eq] at hlock
    by_cases hlt : toKey < fromKey
    · rw [if_pos hlt] at hlock
      cases hlock
      exact .inl ⟨rfl, rfl⟩
    · rw [if_neg hlt] at hlock
      by_cases hb : Blocked s.cache t fromKey toKey
      · rw [if_pos hb] at hlock
        cases hlock
        exact .inl ⟨rfl, rfl⟩
      · rw [if_neg hb] at hlock
        cases hlock
        exact .inr ⟨t, ⟨fromKey, toKey⟩, not_lt.mp hlt, hb, rfl, rfl⟩
  cases e with
  | tryLock t fromKey toKey =>
      rw [State.step, tryLock_eq] at h
      -- A thread that waits does nothing else.
      by_cases hw : (s.waiting t).isSome = true
      · rw [if_pos hw] at h
        cases h
      · rw [if_neg hw] at h
        by_cases hlt : toKey < fromKey
        · rw [if_pos hlt] at h
          cases h
          exact .inl ⟨rfl, rfl⟩
        · rw [if_neg hlt] at h
          by_cases hb : Blocked s.cache t fromKey toKey
          · rw [if_pos hb] at h
            cases h
            exact .inl ⟨rfl, rfl⟩
          · rw [if_neg hb] at h
            cases h
            exact .inr (.inl ⟨t, ⟨fromKey, toKey⟩, not_lt.mp hlt, hb, rfl, rfl⟩)
  | lock t fromKey toKey =>
      rw [State.step] at h
      split at h
      · cases h
      · exact (hround t fromKey toKey (Option.some.inj h)).imp_right .inl
  | wake t =>
      rw [State.step] at h
      split at h
      · cases h
      · next range _ => exact (hround t range.fromKey range.toKey (Option.some.inj h)).imp_right .inl
  | interrupt t =>
      rw [State.step] at h
      split at h
      · cases h
        exact .inl ⟨rfl, rfl⟩
      · cases h
  | unlock t r =>
      rw [State.step] at h
      split at h
      · next hmem =>
          cases h
          exact .inr (.inr ⟨t, r, hmem, rfl, rfl⟩)
      · cases h

omit [DecidableEq T] in
/-- Ranges without common ends are listed once. -/
theorem Separate.nodup {s : State K T} (h : Separate s) : s.held.Nodup := by
  refine h.imp ?_
  intro p q hpq heq
  exact hpq (congrArg Prod.fst heq) (heq ▸ p.2.sharesEnd_self)

omit [DecidableEq T] in
theorem Separate.ne {s : State K T} (h : Separate s) {t : T} {r q : Range K} (hr : (t, r) ∈ s.held)
    (hq : (t, q) ∈ s.held) (hne : q ≠ r) : ¬ r.SharesEnd q := by
  have hsymm : Std.Symm fun p q : T × Range K => p.1 = q.1 → ¬ p.2.SharesEnd q.2 := by
    refine ⟨?_⟩
    rintro p q hpq heq ⟨k, hk, hk'⟩
    exact hpq heq.symm ⟨k, hk', hk⟩
  refine h.forall hr hq ?_ rfl
  intro heq
  exact hne (congrArg Prod.snd heq).symm

theorem Run.separate {s : State K T} (h : Run s) : Separate s := by
  cases h with
  | start => exact List.Pairwise.nil
  | step _ _ hsep => exact hsep

/-- The table guards the ranges that are held, in every state of a run. -/
theorem Run.guards {s : State K T} (h : Run s) : Guards s.cache {p | p ∈ s.held} := by
  induction h with
  | start =>
      have hnone : {p | p ∈ ({} : State K T).held} = ∅ := by
        ext p
        simp
      rw [hnone]
      exact Guards.init
  | @step s s' e answer hrun hstep _ ih =>
      rcases step_cases hstep with ⟨hc, hh⟩ | ⟨t, r, hr, hfree, hc, hh⟩ | ⟨t, r, hmem, hc, hh⟩
      · rw [hc, hh]
        exact ih
      · have hset : {p | p ∈ s'.held} = insert (t, r) {p | p ∈ s.held} := by
          ext p
          simp [hh]
        rw [hset, hc]
        exact ih.grant hr hfree
      · have hset : {p | p ∈ s'.held} = {p | p ∈ s.held} \ {(t, r)} := by
          ext p
          rw [hh, Set.mem_ofPred_eq, (Run.separate hrun).nodup.mem_erase_iff, and_comm]
          rfl
        rw [hset, hc]
        exact ih.release hmem fun q hq hne => (Run.separate hrun).ne hmem hq hne

/-- Ranges of different threads do not overlap. A thread that is refused is
    refused because of another thread whose range overlaps the request or that
    has ends of ranges on both sides of it. The table is empty when every range
    has been unlocked. -/
theorem Run.exclusive {s : State K T} (h : Run s) :
    (∀ p ∈ s.held, ∀ q ∈ s.held, p.1 ≠ q.1 → ¬ p.2.Overlaps q.2) ∧
    (∀ t fromKey toKey s', s.step (.tryLock t fromKey toKey) = some (s', .null) →
      ∃ u, u ≠ t ∧
        ((∃ r, (u, r) ∈ s.held ∧ r.Overlaps ⟨fromKey, toKey⟩) ∨
          (∃ r k, (u, r) ∈ s.held ∧ r.IsEnd k ∧ k < fromKey) ∧
            ∃ r k, (u, r) ∈ s.held ∧ r.IsEnd k ∧ toKey < k)) ∧
    (s.held = [] → s.cache = .empty) := by
  have hguards := h.guards
  refine ⟨hguards.apart, ?_, ?_⟩
  · intro t fromKey toKey s' hnull
    rw [State.step, tryLock_eq] at hnull
    split at hnull
    · cases hnull
    · split at hnull
      · next heq =>
          cases hnull
      · next cache heq =>
          split at heq
          · cases heq
          · split at heq
            · next hb =>
                obtain ⟨u, hne, ⟨k, hlo, hhi, hget⟩ | ⟨⟨k, hk, hget⟩, ⟨l, hl, hget'⟩⟩⟩ := hb
                · obtain ⟨r, hr, hend⟩ := (hguards.recorded k u).mp hget
                  refine ⟨u, hne, .inl ⟨r, hr, k, ?_, ⟨hlo, hhi⟩⟩⟩
                  exact Range.Has.of_isEnd (hguards.ordered _ hr) hend
                · obtain ⟨r, hr, hend⟩ := (hguards.recorded k u).mp hget
                  obtain ⟨q, hq, hend'⟩ := (hguards.recorded l u).mp hget'
                  exact ⟨u, hne, .inr ⟨⟨r, k, hr, hend, hk⟩, ⟨q, l, hq, hend', hl⟩⟩⟩
            · cases heq
      · cases hnull
  · intro hnone
    refine hguards.empty_of_not_held ?_
    intro p hp
    rw [Set.mem_ofPred_eq, hnone] at hp
    exact List.not_mem_nil hp

theorem Run.lock {s : State K T} (h : Run s) {t : T} {fromKey toKey : K} (hw : s.waiting t = none)
    (hsep : Separate (s.lockRound t fromKey toKey).1) : Run (s.lockRound t fromKey toKey).1 := by
  have hstep : s.step (.lock t fromKey toKey) = some (s.lockRound t fromKey toKey) := by
    rw [State.step, hw]
    rfl
  exact Run.step h hstep hsep

/-- Thread 1 holds a range, a range within it and a range apart from it, thread 2
    holds a range between the two. -/
def nestedRanges : State Nat Nat :=
  ((((((({} : State Nat Nat).lockRound 1 2 8).1).lockRound 1 3 4).1).lockRound 2 10 12).1.lockRound
    1 20 21).1

theorem run_nestedRanges : Run nestedRanges :=
  Run.lock (Run.lock (Run.lock (Run.lock Run.start rfl (by decide)) rfl (by decide)) rfl (by decide))
    rfl (by decide)

theorem exclusive_nestedRanges :
    nestedRanges.held = [(1, ⟨20, 21⟩), (2, ⟨10, 12⟩), (1, ⟨3, 4⟩), (1, ⟨2, 8⟩)] ∧
      ∀ p ∈ nestedRanges.held, ∀ q ∈ nestedRanges.held, p.1 ≠ q.1 → ¬ p.2.Overlaps q.2 :=
  ⟨by decide, (Run.exclusive run_nestedRanges).1⟩

end RangeLock

end TomP2P
