import TomP2P.Core.TrackerCaches
import TomP2P.Theory.CacheContract
import TomP2P.Theory.CacheExpiry

/-!
# Looking up Keys in a Cache

What each operation of a cache does to the entry of any one key, for caches in any state.
Of what is not written an entry is as before, or was expired and is gone, or is evicted.

What is gone since it was expired is not missed: from then on nothing would be found
either way. So most operations leave a cache that answers as the one before, at that time
and at any later one (`Fades`).

## Main definitions

* `ConcurrentCacheMap.evicts`: Putting a key drops another one.
* `ConcurrentCacheMap.Fades`: Nothing is gone but what is expired.
* `TrackerCache.find`: What is found under a key.
* `TrackerCache.since`: The time of an entry, or that of a new one if there is none.

## Theorems

* `CacheMap.get_put`, `ConcurrentCacheMap.entry_put_eq`: An entry after a key was put.
* `TrackerCache.find_put_self`, `TrackerCache.find_put_of_ne`, `TrackerCache.find_setValue`:
  What is found after a change.
* `TrackerCache.find_later`: What is found later.
-/

namespace TomP2P

namespace CacheMap

variable {K W : Type} [DecidableEq K]

theorem get_put (maxEntries : Int) (m : HashedMap K W) (key : K) (value : W) (k : K) :
    (put maxEntries m key value).get k =
      if evicted maxEntries m key = some k then none else if k = key then some value else m.get k := by
  ext w
  rw [HashedMap.get_eq_some_iff, mem_put_iff]
  by_cases hev : evicted maxEntries m key = some k
  · simp [hev]
  · rw [if_neg hev]
    by_cases hk : k = key
    · simp [hk, hk ▸ hev, eq_comm]
    · simp [hk, hev, HashedMap.get_eq_some_iff]

end CacheMap

namespace ConcurrentCacheMap

variable {K V : Type} [DecidableEq K] (hashCode : K → BitVec 32)

/-- A key goes when another one is put. -/
def evicts (m : ConcurrentCacheMap K V) (key k : K) : Prop :=
  segment hashCode k = segment hashCode key ∧
    CacheMap.evicted m.maxEntriesPerSegment (m.segments (segment hashCode key)) key = some k

instance (m : ConcurrentCacheMap K V) (key k : K) : Decidable (m.evicts hashCode key k) :=
  inferInstanceAs (Decidable (_ ∧ _))

/-- Nothing is gone but what is expired. -/
structure Fades (m m' : ConcurrentCacheMap K V) (now : Int) : Prop where
  timeToLive : m'.timeToLiveSeconds = m.timeToLiveSeconds
  entry : ∀ k, m'.entry hashCode k = m.entry hashCode k ∨
    m'.entry hashCode k = none ∧ ∀ e ∈ m.entry hashCode k, m.isExpired now e.2 = true

section Changes

variable (m : ConcurrentCacheMap K V) (key k : K)

theorem entry_put_eq (now : Int) (value : V) :
    (m.put hashCode now key value).entry hashCode k =
      if m.evicts hashCode key k then none else if k = key then some (value, now) else m.entry hashCode k := by
  unfold evicts
  by_cases hseg : segment hashCode k = segment hashCode key
  · have hput : (m.put hashCode now key value).entry hashCode k =
        (CacheMap.put m.maxEntriesPerSegment (m.segments (segment hashCode key)) key (value, now)).get k := by
      simp [entry, put, hseg]
    have hold : m.entry hashCode k = (m.segments (segment hashCode key)).get k := by rw [entry, hseg]
    simp only [hput, hold, CacheMap.get_put, hseg, true_and]
  · have hk : k ≠ key := fun hk => hseg (by rw [hk])
    simp [entry, put, hseg, hk]

theorem entry_setValue (value : V) :
    (m.setValue hashCode key value).entry hashCode k =
      if k = key then (m.entry hashCode key).map fun e => (value, e.2) else m.entry hashCode k := by
  cases hentry : m.entry hashCode key with
  | none =>
      -- A key that has no entry gets none.
      have hsame : (m.setValue hashCode key value).entry hashCode k = m.entry hashCode k := by
        simp [entry, setValue] at hentry ⊢
        simp [hentry]
      rw [hsame]
      by_cases hk : k = key
      · simp [hk, hentry]
      · simp [hk]
  | some e =>
      have hset : (m.setValue hashCode key value).segments =
          Function.update m.segments (segment hashCode key)
            ((m.segments (segment hashCode key)).put key (value, e.2)) := by
        simp [setValue, hentry]
      by_cases hseg : segment hashCode k = segment hashCode key
      · simp [entry, hset, hseg, HashedMap.get_put]
      · have hk : k ≠ key := fun hk => hseg (by rw [hk])
        simp [entry, hset, hseg, hk]

end Changes

section Fading

variable {hashCode} {m m' : ConcurrentCacheMap K V} {now now' : Int}

theorem Fades.previous (h : m.Fades hashCode m' now) (hle : now ≤ now') (k : K) :
    m'.previous hashCode now' k = m.previous hashCode now' k := by
  have hexpired : ∀ t, m'.isExpired now' t = m.isExpired now' t := by
    intro t
    rw [isExpired, isExpired, h.timeToLive]
  unfold ConcurrentCacheMap.previous
  simp only [hexpired]
  rcases h.entry k with hsame | ⟨hnone, hexp⟩
  · rw [hsame]
  · cases hentry : m.entry hashCode k with
    | none => rw [hnone]
    | some e =>
        have hlater := isExpired_mono hle (hexp e hentry)
        simp [hnone, Option.filter, hlater]

variable (m now)

theorem fades_fetch (key : K) : m.Fades hashCode (m.fetch hashCode now key).2 now := by
  refine ⟨timeToLiveSeconds_fetch hashCode m now key, ?_⟩
  intro k
  unfold fetch
  cases hentry : m.entry hashCode key with
  | none => exact .inl rfl
  | some e =>
      by_cases hexp : m.isExpired now e.2 = true
      · simp only [hexp, if_true, entry_remove]
        by_cases hk : k = key
        · simp [hk, hentry, hexp]
        · simp [hk]
      · simp [hexp]

/-- Of every segment some expired entries are gone. -/
theorem fades_of_segments (htimeToLive : m'.timeToLiveSeconds = m.timeToLiveSeconds)
    (hsub : ∀ i, ∀ e ∈ (m'.segments i).entries, e ∈ (m.segments i).entries)
    (hkeep : ∀ i k e, (k, e) ∈ (m.segments i).entries → m.isExpired now e.2 = false →
      (k, e) ∈ (m'.segments i).entries) : m.Fades hashCode m' now := by
  refine ⟨htimeToLive, ?_⟩
  intro k
  cases hentry' : m'.entry hashCode k with
  | some e => exact .inl (entry_eq_some_iff.mpr (hsub _ _ (entry_eq_some_iff.mp hentry'))).symm
  | none =>
      refine .inr ⟨rfl, ?_⟩
      intro e hentry
      by_contra hlive
      have hkept := hkeep _ k e (entry_eq_some_iff.mp hentry) (by simpa using hlive)
      rw [entry_eq_some_iff.mpr hkept] at hentry'
      simp at hentry'

theorem fades_scanSegments : m.Fades hashCode (m.scanSegments now) now := by
  refine fades_of_segments m now rfl ?_ ?_
  · exact fun i e he => (mem_scanSegment.mp he).1
  · exact fun i k e he hlive => mem_scanSegment.mpr ⟨he, hlive⟩

omit [DecidableEq K] in
theorem mem_of_mem_expireSegment {seg : HashedMap K (V × Int)} {e : K × V × Int}
    (h : e ∈ (m.expireSegment now seg).entries) : e ∈ seg.entries := (List.dropWhile_sublist _).subset h

theorem fades_expireSegments : m.Fades hashCode (m.expireSegments now) now := by
  refine fades_of_segments m now rfl ?_ ?_
  · exact fun i e he => mem_of_mem_expireSegment m now he
  · exact fun i k e he hlive => mem_expireSegment he hlive

theorem fades_isEmpty : m.Fades hashCode (m.isEmpty now).2 now := by
  rcases isEmptyFrom_spec (List.range SEGMENT_NR) List.nodup_range m now with ⟨_, htimeToLive, hleft⟩
  refine fades_of_segments m now htimeToLive ?_ ?_
  · intro i e he
    rcases hleft i with hsame | ⟨_, hexpired⟩
    · rwa [isEmpty, hsame] at he
    · rw [isEmpty, hexpired] at he
      exact mem_of_mem_expireSegment m now he
  · intro i k e he hlive
    rcases hleft i with hsame | ⟨_, hexpired⟩
    · rwa [isEmpty, hsame]
    · rw [isEmpty, hexpired]
      exact mem_expireSegment he hlive

/-- A cache that is empty has nothing that would be found. -/
theorem previous_of_isEmpty (h : (m.isEmpty now).1 = true) (k : K) : m.previous hashCode now k = none := by
  rw [isEmpty, (isEmptyFrom_spec (List.range SEGMENT_NR) List.nodup_range m now).1] at h
  have hsize := h (segment hashCode k) (List.mem_range.mpr (segment_lt hashCode k))
  cases hentry : m.entry hashCode k with
  | none => simp [ConcurrentCacheMap.previous, hentry]
  | some e =>
      have hexp : m.isExpired now e.2 = true := by
        by_contra hlive
        have hkept := mem_expireSegment (entry_eq_some_iff.mp hentry) (by simpa using hlive)
        rw [HashedMap.size, List.length_eq_zero_iff] at hsize
        rw [hsize] at hkept
        simp at hkept
      simp [ConcurrentCacheMap.previous, hentry, Option.filter, hexp]

end Fading

end ConcurrentCacheMap

namespace TrackerCache

open ConcurrentCacheMap

variable {T : BitVec 32} {K V : Type} [DecidableEq K] (hashCode : K → BitVec 32)

/-- What is found under a key. -/
def find (c : TrackerCache T K V) (now : Int) (key : K) : Option V := c.map.previous hashCode now key

/-- The time of an entry, or that of a new one if there is none. -/
def since (c : TrackerCache T K V) (now : Int) (key : K) : Int :=
  match c.map.entry hashCode key with
  | none => now
  | some e => if e.2 + T.toInt * 1000 ≤ now then now else e.2

variable {hashCode} (c : TrackerCache T K V) {now now' : Int} (key k : K)

theorem find_eq : c.find hashCode now key =
    ((c.map.entry hashCode key).filter fun e => decide (now < e.2 + T.toInt * 1000)).map Prod.fst := by
  have hlive : ∀ e : V × Int, (!c.map.isExpired now e.2) = decide (now < e.2 + T.toInt * 1000) := by
    intro e
    rw [isExpired, c.timeToLive, ← decide_not]
    exact decide_eq_decide.mpr (by omega)
  simp only [find, previous, hlive]

theorem find_of_entry {e : V × Int} (h : c.map.entry hashCode key = some e) :
    c.find hashCode now key = if now < e.2 + T.toInt * 1000 then some e.1 else none := by
  rw [find_eq, h]
  by_cases hlive : now < e.2 + T.toInt * 1000
  · simp [Option.filter, hlive]
  · simp [Option.filter, hlive]

theorem find_of_no_entry (h : c.map.entry hashCode key = none) : c.find hashCode now key = none := by
  simp [find_eq, h]

/-- What is found now is found until it expires. -/
theorem find_later {value : V} (h : c.find hashCode now key = some value) (now' : Int) :
    c.find hashCode now' key = if now' < c.since hashCode now key + T.toInt * 1000 then some value else none := by
  cases hentry : c.map.entry hashCode key with
  | none => simp [c.find_of_no_entry key hentry] at h
  | some e =>
      rw [c.find_of_entry key hentry] at h ⊢
      by_cases hlive : now < e.2 + T.toInt * 1000
      · rw [if_pos hlive] at h
        have hnot : ¬ e.2 + T.toInt * 1000 ≤ now := by omega
        simp [since, hentry, hnot, Option.some.inj h]
      · simp [hlive] at h

/-- What is not found now is not found later. -/
theorem find_eq_none_later (h : c.find hashCode now key = none) (hle : now ≤ now') :
    c.find hashCode now' key = none := by
  cases hentry : c.map.entry hashCode key with
  | none => exact c.find_of_no_entry key hentry
  | some e =>
      rw [c.find_of_entry key hentry] at h ⊢
      by_cases hlive : now < e.2 + T.toInt * 1000
      · simp [hlive] at h
      · have hgone : ¬ now' < e.2 + T.toInt * 1000 := by omega
        rw [if_neg hgone]

/-- An entry is not expired yet, if there is a time that it lives. -/
theorem lt_since_add (hT : 0 < T.toInt) : now < c.since hashCode now key + T.toInt * 1000 := by
  unfold since
  cases c.map.entry hashCode key with
  | none =>
      dsimp only
      omega
  | some e =>
      dsimp only
      split
      · omega
      · omega

theorem since_of_none (h : c.find hashCode now key = none) : c.since hashCode now key = now := by
  unfold since
  cases hentry : c.map.entry hashCode key with
  | none => rfl
  | some e =>
      rw [c.find_of_entry key hentry] at h
      by_cases hlive : now < e.2 + T.toInt * 1000
      · simp [hlive] at h
      · have hgone : e.2 + T.toInt * 1000 ≤ now := by omega
        simp [hgone]

@[simp]
theorem find_create : (create : TrackerCache T K V).find hashCode now key = none := rfl

theorem fetch_fst (m : ConcurrentCacheMap K V) : (m.fetch hashCode now key).1 = m.previous hashCode now key := by
  unfold fetch previous
  cases m.entry hashCode key with
  | none => rfl
  | some e =>
      by_cases hexp : m.isExpired now e.2 = true
      · simp [hexp, Option.filter]
      · simp [hexp, Option.filter]

theorem get_fst : (c.get hashCode now key).1 = c.find hashCode now key := fetch_fst key c.map

/-! ### What does not matter -/

theorem find_get (hle : now ≤ now') : (c.get hashCode now key).2.find hashCode now' k = c.find hashCode now' k :=
  (fades_fetch c.map now key).previous hle k

theorem find_size (hle : now ≤ now') : (c.size now).2.find hashCode now' k = c.find hashCode now' k :=
  (fades_expireSegments c.map now).previous hle k

theorem since_get : (c.get hashCode now key).2.since hashCode now k = c.since hashCode now k := by
  have hfades : c.map.Fades hashCode (c.map.fetch hashCode now key).2 now := fades_fetch c.map now key
  unfold since get
  dsimp only
  rcases hfades.entry k with hsame | ⟨hnone, hexp⟩
  · rw [hsame]
  · rw [hnone]
    cases hentry : c.map.entry hashCode k with
    | none => rfl
    | some e =>
        have hgone := hexp e hentry
        rw [isExpired_iff, c.timeToLive] at hgone
        dsimp only
        rw [if_pos hgone]

theorem find_isEmpty (hle : now ≤ now') : (c.isEmpty now).2.find hashCode now' k = c.find hashCode now' k :=
  (fades_isEmpty c.map now).previous hle k

theorem find_keySet (hle : now ≤ now') : (c.keySet now).2.find hashCode now' k = c.find hashCode now' k :=
  (fades_expireSegments c.map now).previous hle k

theorem find_values (hle : now ≤ now') : (c.values now).2.find hashCode now' k = c.find hashCode now' k :=
  (fades_scanSegments c.map now).previous hle k

theorem find_entrySet (hle : now ≤ now') : (c.entrySet now).2.find hashCode now' k = c.find hashCode now' k :=
  (fades_scanSegments c.map now).previous hle k

/-! ### What does -/

/-- There is room for the key that is put. -/
theorem not_evicts_self : ¬ c.map.evicts hashCode key key := by
  rintro ⟨_, hev⟩
  unfold CacheMap.evicted at hev
  split at hev
  · next hfull =>
      cases hentries : (c.map.segments (segment hashCode key)).entries with
      | nil =>
          have hmax := hfull.2
          rw [c.bounded, HashedMap.size, hentries] at hmax
          simp [TrackerStorage.TRACKER_CACHE_SIZE, SEGMENT_NR] at hmax
      | cons e es =>
          rw [hentries] at hev
          simp only [List.map_cons, List.cons_append, List.head?_cons, Option.some.injEq] at hev
          have hin : (c.map.segments (segment hashCode key)).contains key = true :=
            (HashedMap.contains_iff _ key).mpr ⟨e.2, by rw [hentries, ← hev]; exact List.mem_cons_self⟩
          rw [hin] at hfull
          simp at hfull
  · simp at hev

theorem find_put_self (t : Int) (value : V) :
    (c.put hashCode t key value).find hashCode now key =
      if now < t + T.toInt * 1000 then some value else none := by
  have hentry : (c.put hashCode t key value).map.entry hashCode key = some (value, t) := by
    rw [put, entry_put_eq, if_neg (c.not_evicts_self key), if_pos rfl]
  exact find_of_entry _ key hentry

theorem find_put_of_ne (t : Int) (value : V) (hk : k ≠ key) :
    (c.put hashCode t key value).find hashCode now k =
      if c.map.evicts hashCode key k then none else c.find hashCode now k := by
  rw [find_eq, find_eq, put, entry_put_eq, if_neg hk]
  by_cases hev : c.map.evicts hashCode key k
  · simp [hev]
  · simp [hev]

theorem find_remove : (c.remove hashCode key).find hashCode now k = if k = key then none else c.find hashCode now k := by
  rw [find_eq, find_eq, remove, entry_remove]
  by_cases hk : k = key
  · simp [hk]
  · simp [hk]

theorem find_setValue (value : V) :
    (c.setValue hashCode key value).find hashCode now k =
      if k = key then (c.find hashCode now key).map fun _ => value else c.find hashCode now k := by
  rw [find_eq, find_eq, find_eq, setValue, entry_setValue]
  by_cases hk : k = key
  · cases c.map.entry hashCode key with
    | none => simp [hk]
    | some e =>
        by_cases hlive : now < e.2 + T.toInt * 1000
        · simp [hk, Option.filter, hlive]
        · simp [hk, Option.filter, hlive]
  · simp [hk]

theorem since_setValue (value : V) :
    (c.setValue hashCode key value).since hashCode now k = c.since hashCode now k := by
  unfold since setValue
  dsimp only
  rw [entry_setValue]
  by_cases hk : k = key
  · rw [hk]
    cases c.map.entry hashCode key with
    | none => simp
    | some e => simp
  · rw [if_neg hk]

end TrackerCache

end TomP2P
