import TomP2P.Core.CacheThreads
import TomP2P.Theory.CacheObservers
import Mathlib.Data.List.TakeWhile

/-!
# Expiry and Fresh Entries

Who removes entries of a cache before their time, for every order in which threads run
on it.

A thread that has read an expired entry removes it in a later block. There it compares
values, not entries: if an equal value was written to the key in between, then this new
entry is removed. `Unrenewed` says that this does not happen. All other blocks remove
what is expired when they look at it, or what they are asked to remove (`Spares`).

## Main definitions

* `ConcurrentCacheMap.Spares`: A change of the map removes live entries only for a reason.
* `CacheThreads.Unrenewed`: No equal value was written between the two blocks.
* `CacheThreads.Sane`: The invariant.

## Theorems

* `ConcurrentCacheMap.Spares.update`, `ConcurrentCacheMap.Spares.put`: Blocks on a
  segment, and writing a key.
* `CacheThreads.spares_advance`: What a step of a thread removes.
* `CacheThreads.reached_of_writesOther`: The condition holds if nobody writes an equal value.
* `CacheThreads.removals_explicit`: Live entries are removed on purpose only.
-/

namespace TomP2P

open Function HashedMap

namespace ConcurrentCacheMap

variable {K V : Type} [DecidableEq K] (hashCode : K → BitVec 32)

/-- Every entry is in its segment. -/
def Placed (m : ConcurrentCacheMap K V) : Prop :=
  ∀ i k e, (k, e) ∈ (m.segments i).entries → segment hashCode k = i

/-- Keys that have lost a live entry have the property. -/
structure Spares (m m' : ConcurrentCacheMap K V) (now : Int) (P : K → Prop) : Prop where
  timeToLive : m'.timeToLiveSeconds = m.timeToLiveSeconds
  placed : m'.Placed hashCode
  spares : ∀ k e, m.entry hashCode k = some e → m.isExpired now e.2 = false → m'.entry hashCode k = none → P k

variable {hashCode} {m : ConcurrentCacheMap K V} {now : Int} {P : K → Prop}

theorem Spares.refl (h : m.Placed hashCode) : m.Spares hashCode m now P := by
  refine ⟨rfl, h, ?_⟩
  intro k e he _ hnone
  rw [he] at hnone
  simp at hnone

/-- A segment loses entries. -/
theorem Spares.update (h : m.Placed hashCode) (i : Nat) {seg : HashedMap K (V × Int)}
    (hsub : ∀ e ∈ seg.entries, e ∈ (m.segments i).entries)
    (hkeep : ∀ k e, (k, e) ∈ (m.segments i).entries → m.isExpired now e.2 = false → (k, e) ∈ seg.entries ∨ P k) :
    m.Spares hashCode { m with segments := update m.segments i seg } now P := by
  refine ⟨rfl, ?_, ?_⟩
  · intro j k e he
    by_cases hj : j = i
    · dsimp only at he
      rw [hj, update_self] at he
      rw [hj]
      exact h i k e (hsub _ he)
    · dsimp only at he
      rw [update_of_ne hj] at he
      exact h j k e he
  · intro k e he hlive hnone
    rw [entry_eq_some_iff] at he
    unfold entry at hnone
    dsimp only at hnone
    by_cases hi : segment hashCode k = i
    · rw [hi, update_self, get_eq_none_iff] at hnone
      rw [hi] at he
      exact (hkeep k e he hlive).resolve_left (hnone e)
    · rw [update_of_ne hi, get_eq_none_iff] at hnone
      exact absurd he (hnone e)

/-- A key is removed, for a reason or because it is expired. -/
theorem Spares.remove (h : m.Placed hashCode) (key : K)
    (hreason : ∀ e, m.entry hashCode key = some e → m.isExpired now e.2 = false → P key) :
    m.Spares hashCode (m.remove hashCode key) now P := by
  refine Spares.update h (segment hashCode key) (fun e he => ((mem_remove _ _ _).mp he).1) ?_
  intro k e he hlive
  by_cases hk : k = key
  · rw [hk] at he ⊢
    exact .inr (hreason e (entry_eq_some_iff.mpr he) hlive)
  · exact .inl ((mem_remove _ _ _).mpr ⟨he, hk⟩)

/-- A key is written, and another one or the same is evicted. -/
theorem Spares.put (h : m.Placed hashCode) (time : Int) (key : K) (value : V)
    (hevict : ∀ k, CacheMap.evicted m.maxEntriesPerSegment (m.segments (segment hashCode key)) key = some k → P k) :
    m.Spares hashCode (m.put hashCode time key value) now P := by
  refine ⟨rfl, ?_, ?_⟩
  · intro i k e he
    unfold ConcurrentCacheMap.put at he
    dsimp only at he
    by_cases hi : i = segment hashCode key
    · rw [hi, update_self, CacheMap.mem_put_iff] at he
      rcases he.1 with heq | ⟨he, _⟩
      · rw [(Prod.mk.inj heq).1, hi]
      · rw [hi]
        exact h _ k e he
    · rw [update_of_ne hi] at he
      exact h i k e he
  · intro k e he _ hnone
    rw [entry_eq_some_iff] at he
    unfold entry ConcurrentCacheMap.put at hnone
    dsimp only at hnone
    by_cases hi : segment hashCode k = segment hashCode key
    · rw [hi, update_self, get_eq_none_iff] at hnone
      by_contra hP
      have hev : CacheMap.evicted m.maxEntriesPerSegment (m.segments (segment hashCode key)) key ≠ some k :=
        fun hev => hP (hevict k hev)
      -- Otherwise there is the old entry, or the new one.
      by_cases hk : k = key
      · exact hnone (value, time) ((CacheMap.mem_put_iff ..).mpr ⟨.inl (by rw [hk]), hev⟩)
      · exact hnone e ((CacheMap.mem_put_iff ..).mpr ⟨.inr ⟨hi ▸ he, hk⟩, hev⟩)
    · rw [update_of_ne hi, get_eq_none_iff] at hnone
      exact absurd he (hnone e)

omit [DecidableEq K] in
theorem mem_expireSegment {seg : HashedMap K (V × Int)} {k : K} {e : V × Int} (h : (k, e) ∈ seg.entries)
    (hlive : m.isExpired now e.2 = false) : (k, e) ∈ (m.expireSegment now seg).entries := by
  have happ := List.takeWhile_append_dropWhile (p := fun d : K × V × Int => m.isExpired now d.2.2) (l := seg.entries)
  rw [← happ, List.mem_append] at h
  refine h.resolve_left ?_
  intro hmem
  rw [List.mem_takeWhile_imp hmem] at hlive
  simp at hlive

end ConcurrentCacheMap

namespace CacheThreads

open ConcurrentCacheMap

variable {T K V : Type} [DecidableEq T] [DecidableEq K] [DecidableEq V] (hashCode : K → BitVec 32)

/-- The entry that a thread is about to remove. -/
def expiring (s : CacheThreads T K V) (t : T) : Option (K × V × Int) :=
  match s.threads t with
  | .expire key value => some (key, value)
  | _ => none

/-- If a thread is about to remove an entry that it has found expired, and there is an
    equal value, then this is the entry that it has read, or one that is expired, too. -/
def Unrenewed (s : CacheThreads T K V) : CacheEvent T K V → Prop
  | .call _ _ _ => True
  | .go t now => ∀ d ∈ s.expiring t, ∀ tmp ∈ s.map.entry hashCode d.1, tmp.1 = d.2.1 →
      tmp.2 = d.2.2 ∨ s.map.isExpired now tmp.2 = true

instance (s : CacheThreads T K V) : ∀ e, Decidable (s.Unrenewed hashCode e)
  | .call _ _ _ => .isTrue trivial
  | .go t now => inferInstanceAs (Decidable (∀ d ∈ s.expiring t, ∀ tmp ∈ s.map.entry hashCode d.1, tmp.1 = d.2.1 →
      tmp.2 = d.2.2 ∨ s.map.isExpired now tmp.2 = true))

/-- The threads know what is expired, and what was removed before its time was removed
    on purpose. -/
structure Sane (s : CacheThreads T K V) : Prop where
  placed : s.map.Placed hashCode
  expired : ∀ t key value, s.threads t = .expire key value → s.map.isExpired s.clock value.2 = true
  removals : ∀ r ∈ s.removals, r.time < r.value.2 + s.map.timeToLiveSeconds * 1000 → r.explicit = true

variable {hashCode} {s s' : CacheThreads T K V} {now : Int}

omit [DecidableEq T] in
theorem spares_block (h : s.map.Placed hashCode) (created : Int) (op : CacheOp K V) :
    s.map.Spares hashCode (block hashCode s.refreshTimeout s.map now created op).1 now
      fun k => s.explicit hashCode k (.block op created) = true := by
  -- Nothing is evicted for a key that has an entry.
  have hrewrite : ∀ key value time old (P : K → Prop), s.map.entry hashCode key = some old →
      s.map.Spares hashCode (s.map.put hashCode time key value) now P := by
    intro key value time old P hentry
    refine Spares.put h time key value ?_
    intro k hev
    rw [CacheSystem.evicted_of_entry hentry] at hev
    simp at hev
  cases op with
  | put key value => exact Spares.put h created key value fun k hev => by simpa [explicit] using hev
  | putIfAbsent key value =>
      simp only [block]
      cases hentry : s.map.entry hashCode key with
      | none => exact Spares.put h created key value fun k hev => by simpa [explicit] using hev
      | some old =>
          dsimp only
          split
          · exact hrewrite _ _ _ _ _ hentry
          · split
            · exact hrewrite _ _ _ _ _ hentry
            · exact .refl h
  | remove key | iteratorRemove key => exact Spares.remove h key fun e _ _ => by simp [explicit]
  | replace key value | replaceValue key oldValue newValue =>
      simp only [block]
      cases hentry : s.map.entry hashCode key with
      | none => exact .refl h
      | some old =>
          dsimp only
          split
          · exact hrewrite _ _ _ _ _ hentry
          · exact .refl h
  | _ => exact .refl h

omit [DecidableEq T] [DecidableEq V] in
theorem spares_segmentBlock (h : s.map.Placed hashCode) (i : Nat) (op : CacheOp K V) :
    s.map.Spares hashCode (segmentBlock s.map now i op).1 now
      fun k => s.explicit hashCode k (.segment op i) = true := by
  have hscan : ∀ P : K → Prop, s.map.Spares hashCode
      { s.map with segments := update s.map.segments i (s.map.scanSegment now (s.map.segments i)) } now P := by
    intro P
    refine Spares.update h i (fun e he => List.mem_of_mem_filter he) ?_
    exact fun k e he hlive => .inl (List.mem_filter.mpr ⟨he, by simpa using hlive⟩)
  have hexpire : ∀ P : K → Prop, s.map.Spares hashCode
      { s.map with segments := update s.map.segments i (s.map.expireSegment now (s.map.segments i)) } now P := by
    intro P
    refine Spares.update h i (fun e he => (List.dropWhile_sublist _).subset he) ?_
    exact fun k e he hlive => .inl (mem_expireSegment he hlive)
  cases op with
  | clear =>
      refine Spares.update h i (fun e he => absurd he List.not_mem_nil) ?_
      intro k e he _
      exact .inr (by simpa [explicit] using h i k e he)
  | values | entrySet => exact hscan _
  | _ => exact hexpire _

omit [DecidableEq T] in
/-- What a step of a thread removes. A thread that goes on to remove an entry has seen
    that it is expired. -/
theorem spares_advance (h : s.Sane hashCode) (hle : s.clock ≤ now) {t : T}
    (hcond : s.Unrenewed hashCode (.go t now)) {map : ConcurrentCacheMap K V} {next : CachePc K V}
    (hstep : s.advance hashCode now (s.threads t) = some (map, next)) :
    (s.map.Spares hashCode map now fun k => s.explicit hashCode k (s.threads t) = true) ∧
      ∀ key value, next = .expire key value → s.map.isExpired now value.2 = true := by
  have hfound : ∀ key key' value, found hashCode s.map key ≠ .expire key' value := by
    intro key key' value
    unfold found
    split <;> simp
  cases hpc : s.threads t with
  | idle =>
      rw [hpc] at hstep
      simp [advance] at hstep
  | block op created =>
      rw [hpc] at hstep
      obtain ⟨hmap, hnext⟩ := Prod.mk.inj (Option.some.inj hstep)
      refine ⟨hmap ▸ spares_block h.placed created op, ?_⟩
      intro key value heq
      rw [← hnext] at heq
      cases op <;> simp [hfound] at heq
  | check key value =>
      rw [hpc] at hstep
      obtain ⟨hmap, hnext⟩ := Prod.mk.inj (Option.some.inj hstep)
      refine ⟨hmap ▸ .refl h.placed, ?_⟩
      intro key' value' heq
      rw [← hnext] at heq
      split at heq
      · next hexp =>
          obtain ⟨_, rfl⟩ := CachePc.expire.inj heq
          exact hexp
      · simp at heq
  | expire key value =>
      rw [hpc] at hstep
      obtain ⟨hmap, hnext⟩ := Prod.mk.inj (Option.some.inj hstep)
      refine ⟨?_, fun _ _ heq => by simp [← hnext] at heq⟩
      rw [← hmap]
      unfold expireBlock
      cases hentry : s.map.entry hashCode key with
      | none => exact .refl h.placed
      | some tmp =>
          dsimp only
          by_cases heq : tmp.1 = value.1
          · rw [if_pos heq]
            have hread : (key, value) ∈ s.expiring t := by simp [expiring, hpc]
            -- The entry is the one that was read, or is expired as well.
            have hexp : s.map.isExpired now tmp.2 = true := by
              rcases hcond (key, value) hread tmp hentry heq with htime | hexp
              · rw [htime]
                exact isExpired_mono hle (h.expired t key value hpc)
              · exact hexp
            refine Spares.remove h.placed key ?_
            intro e he hlive
            rw [hentry, Option.some.injEq] at he
            rw [← he, hexp] at hlive
            simp at hlive
          · rw [if_neg heq]
            exact .refl h.placed
  | segment op i =>
      rw [hpc] at hstep
      obtain ⟨hmap, hnext⟩ := Prod.mk.inj (Option.some.inj hstep)
      refine ⟨hmap ▸ spares_segmentBlock h.placed i op, ?_⟩
      intro key value heq
      have hne : ∀ (c : Prop) [Decidable c], (if c then CachePc.idle else .segment op (i + 1)) ≠ .expire key value := by
        intro c _
        split <;> simp
      exact absurd (hnext.trans heq) (hne _)

omit [DecidableEq K] [DecidableEq V] in
theorem isExpired_congr {m m' : ConcurrentCacheMap K V} (h : m'.timeToLiveSeconds = m.timeToLiveSeconds) (t : Int) :
    m'.isExpired now t = m.isExpired now t := by
  rw [isExpired, isExpired, h]

theorem step_sane (h : s.Sane hashCode) {e : CacheEvent T K V} (hcond : s.Unrenewed hashCode e)
    (hstep : s.step hashCode e = some s') : s'.Sane hashCode := by
  unfold step at hstep
  split at hstep
  · simp at hstep
  · next hle =>
      cases e with
      | call t now op =>
          have hclock : s.clock ≤ now := Int.not_lt.mp hle
          dsimp only at hstep
          split at hstep
          · rw [← Option.some.inj hstep]
            refine ⟨h.placed, ?_, h.removals⟩
            intro t' key value heq
            dsimp only at heq
            by_cases ht : t' = t
            · rw [ht, update_self] at heq
              cases op <;> simp [enter] at heq
            · rw [update_of_ne ht] at heq
              exact isExpired_mono hclock (h.expired t' key value heq)
          · simp at hstep
      | go t now =>
          have hclock : s.clock ≤ now := Int.not_lt.mp hle
          obtain ⟨⟨map, next⟩, hadvance, rfl⟩ := Option.map_eq_some_iff.mp hstep
          obtain ⟨hspares, hnext⟩ := spares_advance h hclock hcond hadvance
          refine ⟨hspares.placed, ?_, ?_⟩
          · intro t' key value heq
            dsimp only at heq ⊢
            rw [isExpired_congr hspares.timeToLive]
            by_cases ht : t' = t
            · rw [ht, update_self] at heq
              exact hnext key value heq
            · rw [update_of_ne ht] at heq
              exact isExpired_mono hclock (h.expired t' key value heq)
          · intro r hr hearly
            dsimp only at hr hearly
            rw [hspares.timeToLive] at hearly
            rcases List.mem_append.mp hr with hr | hr
            · exact h.removals r hr hearly
            · obtain ⟨d, hd, rfl⟩ := List.mem_map.mp hr
              obtain ⟨hmem, hnone⟩ := List.mem_filter.mp hd
              have hlive : s.map.isExpired now d.2.2 = false := by
                rw [← Bool.not_eq_true, isExpired_iff]
                exact Int.not_le.mpr hearly
              exact hspares.spares d.1 d.2 (entry_eq_some_iff.mpr ((mem_entries h.placed).mp hmem)) hlive
                (Option.isNone_iff_eq_none.mp hnone)

/-! ### The condition on the step that writes -/

/-- What a thread has read and may still remove. -/
def reading (s : CacheThreads T K V) (t : T) : Option (K × V × Int) :=
  match s.threads t with
  | .check key value | .expire key value => some (key, value)
  | _ => none

/-- A step writes no value that is equal to the one a thread has read under this key and
    may still remove. The thread that writes can be the one that reads. -/
def WritesOther (hashCode : K → BitVec 32) (s : CacheThreads T K V) : CacheEvent T K V → Prop
  | .call _ _ _ => True
  | .go t now => ∀ map next, s.advance hashCode now (s.threads t) = some (map, next) → ∀ key new,
      map.entry hashCode key = some new → s.map.entry hashCode key ≠ some new → ∀ value,
        next = .check key value ∨ (∃ t', s.reading t' = some (key, value)) → new.1 ≠ value.1

/-- An entry that is equal to the one a thread has read is that entry. -/
def Recent (hashCode : K → BitVec 32) (s : CacheThreads T K V) : Prop :=
  ∀ t key value, s.reading t = some (key, value) → ∀ tmp, s.map.entry hashCode key = some tmp → tmp.1 = value.1 →
    tmp = value

omit [DecidableEq T] in
/-- What a thread may remove after a step it had read before, or reads in this step. -/
theorem reads_of_advance {t : T} {map : ConcurrentCacheMap K V} {next : CachePc K V} {key : K} {value : V × Int}
    (hstep : s.advance hashCode now (s.threads t) = some (map, next))
    (hnext : next = .check key value ∨ next = .expire key value) :
    s.reading t = some (key, value) ∨ next = .check key value ∧ s.map.entry hashCode key = some value := by
  unfold reading
  cases hpc : s.threads t with
  | idle =>
      rw [hpc] at hstep
      simp [advance] at hstep
  | block op created =>
      rw [hpc] at hstep
      obtain ⟨-, hread⟩ := Prod.mk.inj (Option.some.inj hstep)
      rw [← hread] at hnext ⊢
      have hfound : ∀ key', found hashCode s.map key' = .check key value ∨ found hashCode s.map key' = .expire key value →
          found hashCode s.map key' = .check key value ∧ s.map.entry hashCode key = some value := by
        intro key' h
        unfold found at h ⊢
        split at h
        · simp at h
        · next hentry =>
            simp only [CachePc.check.injEq, reduceCtorEq, or_false] at h
            exact ⟨by rw [h.1, h.2], by rw [← h.1, ← h.2, hentry]⟩
      refine .inr ?_
      cases op <;> first | exact hfound _ hnext | simp at hnext
  | check key' value' =>
      rw [hpc] at hstep
      obtain ⟨-, rfl⟩ := Prod.mk.inj (Option.some.inj hstep)
      refine .inl ?_
      split at hnext
      · simpa using hnext
      · simp at hnext
  | expire key' value' =>
      rw [hpc] at hstep
      obtain ⟨-, rfl⟩ := Prod.mk.inj (Option.some.inj hstep)
      simp at hnext
  | segment op i =>
      rw [hpc] at hstep
      obtain ⟨-, hgoes⟩ := Prod.mk.inj (Option.some.inj hstep)
      have hne : ∀ (c : Prop) [Decidable c] (next : CachePc K V), (if c then .idle else .segment op (i + 1)) = next →
          ¬(next = .check key value ∨ next = .expire key value) := by
        rintro c _ next rfl
        split <;> simp
      exact absurd hnext (hne _ _ hgoes)

theorem Recent.step (h : s.Recent hashCode) {e : CacheEvent T K V} (hcond : s.WritesOther hashCode e)
    (hstep : s.step hashCode e = some s') : s'.Recent hashCode := by
  unfold CacheThreads.step at hstep
  split at hstep
  · simp at hstep
  · cases e with
    | call t now op =>
        dsimp only at hstep
        split at hstep
        · rw [← Option.some.inj hstep]
          intro t' key value hread
          unfold reading at hread
          dsimp only at hread
          by_cases ht : t' = t
          · rw [ht, update_self] at hread
            cases op <;> simp [enter] at hread
          · rw [update_of_ne ht] at hread
            exact h t' key value hread
        · simp at hstep
    | go t now =>
        obtain ⟨⟨map, next⟩, hadvance, rfl⟩ := Option.map_eq_some_iff.mp hstep
        intro t' key value hread tmp hentry hequal
        have hwrites := fun hnew => hcond map next hadvance key tmp hentry hnew value
        unfold reading at hread
        dsimp only at hread
        by_cases ht : t' = t
        · rw [ht, update_self] at hread
          have hnext : next = .check key value ∨ next = .expire key value := by
            cases next <;> simp_all
          rcases reads_of_advance hadvance hnext with hold | ⟨hcheck, hold⟩
          · by_contra hne
            exact hwrites (fun hsame => hne (h t key value hold tmp hsame hequal)) (.inr ⟨t, hold⟩) hequal
          · by_contra hne
            refine hwrites (fun hsame => hne ?_) (.inl hcheck) hequal
            exact Option.some.inj (hsame.symm.trans hold)
        · rw [update_of_ne ht] at hread
          by_contra hne
          exact hwrites (fun hsame => hne (h t' key value hread tmp hsame hequal)) (.inr ⟨t', hread⟩) hequal

/-- If no step writes a value that is equal to one a thread has read and may still
    remove, then no thread finds an equal value in the block of `expire`. -/
theorem reached_of_writesOther (h : Reached (step hashCode) (WritesOther hashCode) Fresh s) :
    s.Recent hashCode ∧ Reached (step hashCode) (Unrenewed hashCode) Fresh s := by
  induction h with
  | start hfresh =>
      refine ⟨?_, .start hfresh⟩
      intro t key value hread
      rw [reading, hfresh.2.1 t] at hread
      simp at hread
  | @next s s' e _ hcond hstep ih =>
      refine ⟨ih.1.step hcond hstep, ih.2.next ?_ hstep⟩
      cases e with
      | call t now op => trivial
      | go t now =>
          intro d hd tmp htmp hequal
          refine .inl (congrArg Prod.snd (ih.1 t d.1 d.2 ?_ tmp htmp hequal))
          unfold expiring at hd
          unfold reading
          split at hd
          · next hpc =>
              rw [hpc]
              exact hd
          · cases hd

/-! ### Runs -/

omit [DecidableEq T] [DecidableEq K] [DecidableEq V] in
theorem Fresh.sane (h : s.Fresh) : s.Sane hashCode := by
  obtain ⟨hremovals, hthreads, timeToLiveSeconds, maxEntries, hmap⟩ := h
  refine ⟨?_, ?_, by simp [hremovals]⟩
  · intro i k e he
    rw [hmap] at he
    exact absurd he List.not_mem_nil
  · intro t key value heq
    rw [hthreads] at heq
    simp at heq

/-- In every run in which no equal value is written between the two blocks of a thread,
    an entry that disappears before its time to live is over was removed, cleared or
    evicted. -/
theorem removals_explicit (h : Reached (step hashCode) (Unrenewed hashCode) Fresh s) {r : CacheRemoval K V}
    (hr : r ∈ s.removals) (hearly : r.time < r.value.2 + s.map.timeToLiveSeconds * 1000) : r.explicit = true := by
  have hsane := h.invariant (Sane hashCode) (fun _ h => h.sane) (fun _ _ _ h hc hs => step_sane h hc hs)
  exact hsane.removals r hr hearly

/-- An entry is removed by hand, and another one when it is expired. -/
theorem removals_two_threads :
    ∃ s : CacheThreads Bool Nat Nat, Reached (step (BitVec.ofNat 32)) (Unrenewed (BitVec.ofNat 32)) Fresh s ∧
      s.removals = [⟨1, (8, 0), 70, true⟩, ⟨0, (7, 0), 60001, false⟩] ∧ s.map.timeToLiveSeconds = 60 ∧
      (⟨1, (8, 0), 70, true⟩ : CacheRemoval Nat Nat).explicit = true := by
  let s₀ : CacheThreads Bool Nat Nat := { refreshTimeout := true, map := .create 60 1024, clock := 0 }
  let events : List (CacheEvent Bool Nat Nat) :=
    [.call true 0 (.put 0 7), .go true 0, .call true 0 (.put 1 8), .go true 0, .call false 70 (.remove 1), .go false 70,
      .call true 60000 (.get 0), .go true 60000, .go true 60001, .go true 60001]
  have hstart : Reached (step (BitVec.ofNat 32)) (Unrenewed (BitVec.ofNat 32)) Fresh s₀ :=
    .start ⟨rfl, fun _ => rfl, 60, 1024, rfl⟩
  have hsome : ((replay (step (BitVec.ofNat 32)) (Unrenewed (BitVec.ofNat 32)) events s₀).map fun s =>
      (s.removals, s.map.timeToLiveSeconds)) =
        some ([⟨1, (8, 0), 70, true⟩, ⟨0, (7, 0), 60001, false⟩], 60) := by decide +kernel
  obtain ⟨s, hs, heq⟩ := Option.map_eq_some_iff.mp hsome
  simp only [Prod.mk.injEq] at heq
  have hreached := hstart.replay events hs
  refine ⟨s, hreached, heq.1, heq.2, removals_explicit hreached (by rw [heq.1]; simp) ?_⟩
  rw [heq.2]
  decide

/-- A value is written again after a thread has read the expired entry: the thread
    removes the new one. -/
theorem not_removals_explicit_renewed :
    ¬ ∀ s : CacheThreads Bool Nat Nat, Reached (step (BitVec.ofNat 32)) (fun _ _ => True) Fresh s →
      ∀ r ∈ s.removals, r.time < r.value.2 + s.map.timeToLiveSeconds * 1000 → r.explicit = true := by
  intro hall
  let s₀ : CacheThreads Bool Nat Nat := { refreshTimeout := true, map := .create 60 1024, clock := 0 }
  let events : List (CacheEvent Bool Nat Nat) :=
    [.call true 0 (.put 0 7), .go true 0, .call true 60000 (.containsKey 0), .go true 60000, .go true 60001,
      .call false 60002 (.put 0 7), .go false 60003, .go true 60004]
  have hstart : Reached (step (BitVec.ofNat 32)) (fun _ _ => True) Fresh s₀ :=
    .start ⟨rfl, fun _ => rfl, 60, 1024, rfl⟩
  have hsome : ((replay (step (BitVec.ofNat 32)) (fun _ _ => True) events s₀).map fun s =>
      (s.removals, s.map.timeToLiveSeconds)) = some ([⟨0, (7, 60002), 60004, false⟩], 60) := by decide +kernel
  obtain ⟨s, hs, heq⟩ := Option.map_eq_some_iff.mp hsome
  simp only [Prod.mk.injEq] at heq
  have hexplicit := hall s (hstart.replay events hs) ⟨0, (7, 60002), 60004, false⟩ (by rw [heq.1]; simp)
    (by rw [heq.2]; decide)
  simp at hexplicit

end CacheThreads

end TomP2P
