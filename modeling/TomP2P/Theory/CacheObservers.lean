import TomP2P.Core.CacheOperations
import TomP2P.Foundation.Runs
import Mathlib.Data.List.Nodup
import Mathlib.Data.List.Pairwise

/-!
# What the Observers of a Cache Say

When all observers of a cache describe the same entries: those whose latest write is
younger than the time to live, and that were not removed or evicted.

The abstract cache (`Latest`) remembers the latest write of every key and nothing else.
The cache follows it: what is in a segment was written last, and what is live is in its
segment (`Tracks`). Therefore everything that looks at a single key is right, always.

The observers that stop at the first live entry are right if the entries of a segment
are in the order of their times. A new key comes last, but a key that is written again
keeps its place, and is then in front of entries that expire earlier. `InOrder` says that
this does not happen.

## Main definitions

* `Latest`, `CacheOp.latest`: The abstract cache.
* `CacheSystem`, `CacheSystem.step`: Operations at times.
* `CacheSystem.InOrder`: Only the last entry of a segment is written again.
* `ConcurrentCacheMap.Agrees`: All observers describe the live entries.
* `ConcurrentCacheMap.Tracks`: How the cache follows the abstract one.

## Theorems

* `CacheMap.mem_put_iff`: What is in a bounded map after an insertion.
* `ConcurrentCacheMap.Tracks.put`, `ConcurrentCacheMap.Tracks.shrink`,
  `ConcurrentCacheMap.Tracks.remove`: What the operations consist of.
* `ConcurrentCacheMap.expireSegment_eq`: Stopping early is right in order.
* `CacheSystem.agrees_of_inOrder`: The observers agree throughout a run in order.
-/

namespace TomP2P

open Function HashedMap

/-- What was written to each key last, and when. -/
abbrev Latest (K V : Type) := K → Option (V × Int)

namespace Latest

variable {K V : Type} [DecidableEq K]

/-- The value of a key, if its latest write is young enough. -/
def live (timeToLiveSeconds : Int) (latest : Latest K V) (now : Int) (key : K) : Option V :=
  ((latest key).filter fun w => now < w.2 + timeToLiveSeconds * 1000).map Prod.fst

def write (latest : Latest K V) (now : Int) (key : K) (value : V) : Latest K V :=
  update latest key (some (value, now))

def delete (latest : Latest K V) (key : K) : Latest K V := update latest key none

/-- Some key may have been evicted. -/
def evict (latest : Latest K V) : Option K → Latest K V
  | none => latest
  | some key => latest.delete key

end Latest

section Abstract

variable {K V : Type} [DecidableEq K] [DecidableEq V]

/-- What an operation does to the abstract cache, evictions apart. -/
def CacheOp.latest (refreshTimeout : Bool) (timeToLiveSeconds : Int) (latest : Latest K V) (now : Int) :
    CacheOp K V → Latest K V
  | .put key value => latest.write now key value
  | .putIfAbsent key value =>
      match latest.live timeToLiveSeconds now key with
      | none => latest.write now key value
      | some oldValue => if refreshTimeout then latest.write now key oldValue else latest
  | .remove key => latest.delete key
  | .iteratorRemove key => latest.delete key
  | .replace key value => if (latest.live timeToLiveSeconds now key).isSome then latest.write now key value else latest
  | .replaceValue key oldValue newValue =>
      if latest.live timeToLiveSeconds now key = some oldValue then latest.write now key newValue else latest
  | .clear => fun _ => none
  | _ => latest

/-- The key that is dropped by an operation. -/
def CacheOp.evicted (hashCode : K → BitVec 32) (m : ConcurrentCacheMap K V) : CacheOp K V → Option K
  | .put key _ => CacheMap.evicted m.maxEntriesPerSegment (m.segments (ConcurrentCacheMap.segment hashCode key)) key
  | .putIfAbsent key _ =>
      CacheMap.evicted m.maxEntriesPerSegment (m.segments (ConcurrentCacheMap.segment hashCode key)) key
  | _ => none

end Abstract

/-! ### Bounded maps -/

namespace CacheMap

variable {K W : Type} [DecidableEq K]

/-- What is in a bounded map after an insertion: the new entry and the others, less the
    one that is evicted. -/
theorem mem_put_iff (maxEntries : Int) (m : HashedMap K W) (key : K) (value : W) (e : K × W) :
    e ∈ (put maxEntries m key value).entries ↔
      (e = (key, value) ∨ e ∈ m.entries ∧ e.1 ≠ key) ∧ evicted maxEntries m key ≠ some e.1 := by
  unfold put evicted
  by_cases hc : m.contains key = true
  · rw [if_pos hc, if_neg (by simp [hc]), HashedMap.mem_put]
    simp
  · have hf : m.contains key = false := by simpa using hc
    have hnot : key ∉ m.entries.map Prod.fst := fun hk =>
      hc ((contains_iff m key).mpr ((mem_keys_iff m key).mp hk))
    rw [if_neg hc, m.size_put_of_not_contains key value hc]
    by_cases hmax : maxEntries < m.size + 1
    · have hput : (m.put key value).entries = m.entries ++ [(key, value)] := by rw [HashedMap.put, dif_neg hnot]
      rw [if_pos (by push_cast; exact hmax), if_pos ⟨hf, hmax⟩, ← HashedMap.mem_put]
      -- The eldest has a key of its own.
      have hkeys : m.entries.map Prod.fst ++ [key] = (m.put key value).entries.map Prod.fst := by
        rw [hput, List.map_append, List.map_singleton]
      rw [hkeys]
      have hnodup := (m.put key value).nodup
      show e ∈ (m.put key value).entries.tail ↔ _
      cases hentries : (m.put key value).entries with
      | nil => simp
      | cons d ds =>
          rw [hentries, List.map_cons, List.nodup_cons] at hnodup
          simp only [List.tail_cons, List.mem_cons, List.map_cons, List.head?_cons, ne_eq, Option.some.injEq]
          constructor
          · intro he
            refine ⟨.inr he, ?_⟩
            intro hd
            exact hnodup.1 (hd ▸ List.mem_map_of_mem he)
          · rintro ⟨rfl | he, hne⟩
            · exact absurd rfl hne
            · exact he
    · rw [if_neg (by push_cast; exact hmax), if_neg (by tauto), HashedMap.mem_put]
      simp

/-- The evicted key is the new one, or was there. -/
theorem evicted_mem {maxEntries : Int} {m : HashedMap K W} {key k : K} (h : evicted maxEntries m key = some k) :
    k = key ∨ ∃ w, (k, w) ∈ m.entries := by
  unfold evicted at h
  split at h
  · have hmem := List.mem_of_mem_head? h
    rcases List.mem_append.mp hmem with hmem | hmem
    · exact .inr ((mem_keys_iff m k).mp hmem)
    · exact .inl (List.mem_singleton.mp hmem)
  · simp at h

/-- A key that was there is not evicted, nor is another one. -/
theorem evicted_of_contains {maxEntries : Int} {m : HashedMap K W} {key : K} (h : m.contains key = true) :
    evicted maxEntries m key = none := by
  rw [evicted, if_neg (by simp [h])]

/-- The entries behind that of a key. -/
def behind (m : HashedMap K W) (key : K) : List (K × W) := (m.entries.dropWhile fun e => e.1 ≠ key).tail

/-- An order of the entries is kept when a key is written again, if it is kept with
    those behind it. -/
theorem pairwise_replace {R : K × W → K × W → Prop} {key : K} {value : W} {l : List (K × W)}
    (hnodup : (l.map Prod.fst).Nodup) (h : l.Pairwise R) (hbefore : ∀ e ∈ l, R e (key, value))
    (hbehind : ∀ e ∈ (l.dropWhile fun e => e.1 ≠ key).tail, R (key, value) e) :
    (l.map fun e => if e.1 = key then (key, value) else e).Pairwise R := by
  induction l with
  | nil => exact .nil
  | cons d l ih =>
      rw [List.map_cons, List.nodup_cons] at hnodup
      rw [List.pairwise_cons] at h
      rw [List.map_cons]
      by_cases hd : d.1 = key
      · -- The others have other keys.
        have hsame : (l.map fun e => if e.1 = key then (key, value) else e) = l := by
          refine (List.map_congr_left ?_).trans (List.map_id l)
          intro e he
          have hne : e.1 ≠ key := fun heq => hnodup.1 (hd ▸ heq ▸ List.mem_map_of_mem he)
          rw [if_neg hne, id]
        rw [List.dropWhile_cons_of_neg (by simp [hd]), List.tail_cons] at hbehind
        rw [if_pos hd, hsame, List.pairwise_cons]
        exact ⟨hbehind, h.2⟩
      · rw [List.dropWhile_cons_of_pos (by simp [hd])] at hbehind
        rw [if_neg hd, List.pairwise_cons]
        refine ⟨?_, ih hnodup.2 h.2 (fun e he => hbefore e (List.mem_cons_of_mem _ he)) hbehind⟩
        intro e he
        obtain ⟨e', he', rfl⟩ := List.mem_map.mp he
        by_cases hkey : e'.1 = key
        · rw [if_pos hkey]
          exact hbefore d List.mem_cons_self
        · rw [if_neg hkey]
          exact h.1 e' he'

/-- A bounded map stays in order when it gets a new key. -/
theorem pairwise_put {R : K × W → K × W → Prop} {maxEntries : Int} {m : HashedMap K W} {key : K} {value : W}
    (h : m.entries.Pairwise R) (hbefore : ∀ e ∈ m.entries, R e (key, value))
    (hbehind : ∀ e ∈ behind m key, R (key, value) e) : (put maxEntries m key value).entries.Pairwise R := by
  have hput : (m.put key value).entries.Pairwise R := by
    unfold HashedMap.put
    split
    · exact pairwise_replace m.nodup h hbefore hbehind
    · rw [List.pairwise_append]
      refine ⟨h, List.pairwise_singleton _ _, ?_⟩
      intro e he e' he'
      rw [List.mem_singleton.mp he']
      exact hbefore e he
  unfold put
  split
  · exact hput
  · split
    · exact hput.sublist (List.tail_sublist _)
    · exact hput

end CacheMap

namespace ConcurrentCacheMap

variable {K V : Type} [DecidableEq K] [DecidableEq V] (hashCode : K → BitVec 32)

/-- All observers describe the same entries, the live ones. -/
def Agrees (m : ConcurrentCacheMap K V) (latest : Latest K V) (now : Int) : Prop :=
  ∃ live : HashedMap K V, (∀ k, live.get k = latest.live m.timeToLiveSeconds now k) ∧
    (∀ k, (m.get hashCode now k).1 = live.get k) ∧
    (∀ k, (m.containsKey hashCode now k).1 = live.contains k) ∧
    (m.size now).1 = live.size ∧
    ((m.isEmpty now).1 = true ↔ live.size = 0) ∧
    (∀ k, k ∈ (m.keySet now).1.elems ↔ live.contains k = true) ∧
    (m.values now).1.Perm (live.entries.map Prod.snd) ∧
    (m.entrySet now).1.Perm live.entries

/-- The cache follows the latest writes. Entries are in their segments, were written last
    and in the past, live ones are there, and the segments are in order as far as they
    are live. -/
structure Tracks (m : ConcurrentCacheMap K V) (latest : Latest K V) (clock : Int) : Prop where
  placed : ∀ i k e, (k, e) ∈ (m.segments i).entries → segment hashCode k = i
  recorded : ∀ i k e, (k, e) ∈ (m.segments i).entries → latest k = some e
  kept : ∀ k e, latest k = some e → m.isExpired clock e.2 = false →
    (k, e) ∈ (m.segments (segment hashCode k)).entries
  past : ∀ i k e, (k, e) ∈ (m.segments i).entries → e.2 ≤ clock
  ordered : ∀ i, (m.segments i).entries.Pairwise fun a b => a.2.2 ≤ b.2.2 ∨ m.isExpired clock a.2.2 = true

variable {hashCode} {m m' : ConcurrentCacheMap K V} {latest : Latest K V} {clock now : Int} {key : K}

omit [DecidableEq K] [DecidableEq V] in
theorem isExpired_iff {t : Int} : m.isExpired now t = true ↔ t + m.timeToLiveSeconds * 1000 ≤ now := by
  rw [isExpired, decide_eq_true_eq]

omit [DecidableEq K] [DecidableEq V] in
/-- What is expired stays so. -/
theorem isExpired_mono {t : Int} (hle : clock ≤ now) (h : m.isExpired clock t = true) : m.isExpired now t = true := by
  rw [isExpired_iff] at h ⊢
  omega

omit [DecidableEq K] [DecidableEq V] in
theorem segment_lt (hashCode : K → BitVec 32) (key : K) : segment hashCode key < SEGMENT_NR :=
  Nat.mod_lt _ (by decide)

omit [DecidableEq V] in
theorem entry_eq_some_iff {e : V × Int} :
    m.entry hashCode key = some e ↔ (key, e) ∈ (m.segments (segment hashCode key)).entries :=
  get_eq_some_iff _ _ _

namespace Tracks

omit [DecidableEq V]

omit [DecidableEq K] in
/-- Time passes. -/
theorem tick (h : m.Tracks hashCode latest clock) (hle : clock ≤ now) : m.Tracks hashCode latest now := by
  refine ⟨h.placed, h.recorded, ?_, ?_, ?_⟩
  · intro k e hlatest hlive
    refine h.kept k e hlatest ?_
    by_contra hexp
    rw [Bool.not_eq_false] at hexp
    rw [isExpired_mono hle hexp] at hlive
    simp at hlive
  · intro i k e he
    exact Int.le_trans (h.past i k e he) hle
  · intro i
    exact (h.ordered i).imp fun hab => hab.imp_right (isExpired_mono hle)

/-- The value that the abstract cache has for a key is the one in the segment, unless
    it is expired. -/
theorem live_eq (h : m.Tracks hashCode latest now) (k : K) :
    latest.live m.timeToLiveSeconds now k = m.previous hashCode now k := by
  have hlive : ∀ e : V × Int, decide (now < e.2 + m.timeToLiveSeconds * 1000) = !m.isExpired now e.2 := by
    intro e
    rw [isExpired, ← decide_not]
    exact decide_eq_decide.mpr (by omega)
  have hfilter : (latest k).filter (fun w => decide (now < w.2 + m.timeToLiveSeconds * 1000)) =
      (m.entry hashCode k).filter fun oldValue => !m.isExpired now oldValue.2 := by
    ext e
    rw [Option.filter_eq_some_iff, Option.filter_eq_some_iff, hlive]
    refine and_congr_left fun hexp => ?_
    rw [entry_eq_some_iff]
    constructor
    · intro hlatest
      exact h.kept k e hlatest (by simpa using hexp)
    · exact h.recorded _ k e
  rw [Latest.live, hfilter, previous]

omit [DecidableEq K] in
/-- Entries disappear that are expired. -/
theorem shrink (h : m.Tracks hashCode latest now) (httl : m'.timeToLiveSeconds = m.timeToLiveSeconds)
    (hsub : ∀ i, (m'.segments i).entries.Sublist (m.segments i).entries)
    (hkeep : ∀ i k e, (k, e) ∈ (m.segments i).entries → m.isExpired now e.2 = false → (k, e) ∈ (m'.segments i).entries) :
    m'.Tracks hashCode latest now := by
  have hexpired : ∀ t, m'.isExpired now t = m.isExpired now t := by
    intro t
    rw [isExpired, isExpired, httl]
  refine ⟨?_, ?_, ?_, ?_, ?_⟩
  · exact fun i k e he => h.placed i k e ((hsub i).subset he)
  · exact fun i k e he => h.recorded i k e ((hsub i).subset he)
  · intro k e hlatest hlive
    rw [hexpired] at hlive
    exact hkeep _ k e (h.kept k e hlatest hlive) hlive
  · exact fun i k e he => h.past i k e ((hsub i).subset he)
  · intro i
    simp only [hexpired]
    exact (h.ordered i).sublist (hsub i)

/-- A key is removed. -/
theorem remove (h : m.Tracks hashCode latest now) (key : K) :
    (m.remove hashCode key).Tracks hashCode (latest.delete key) now := by
  have hmem : ∀ i k e, (k, e) ∈ ((m.remove hashCode key).segments i).entries ↔
      (k, e) ∈ (m.segments i).entries ∧ k ≠ key := by
    intro i k e
    unfold ConcurrentCacheMap.remove
    dsimp only
    by_cases hi : i = segment hashCode key
    · rw [hi, update_self, mem_remove]
    · rw [update_of_ne hi]
      refine ⟨fun he => ⟨he, ?_⟩, And.left⟩
      rintro rfl
      exact hi (h.placed i k e he).symm
  have hsub : ∀ i, ((m.remove hashCode key).segments i).entries.Sublist (m.segments i).entries := by
    intro i
    unfold ConcurrentCacheMap.remove
    dsimp only
    by_cases hi : i = segment hashCode key
    · rw [hi, update_self]
      exact List.filter_sublist
    · rw [update_of_ne hi]
  refine ⟨?_, ?_, ?_, ?_, ?_⟩
  · exact fun i k e he => h.placed i k e ((hmem i k e).mp he).1
  · intro i k e he
    obtain ⟨he, hne⟩ := (hmem i k e).mp he
    rw [Latest.delete, update_of_ne hne]
    exact h.recorded i k e he
  · intro k e hlatest hlive
    by_cases hk : k = key
    · rw [hk, Latest.delete, update_self] at hlatest
      simp at hlatest
    · rw [Latest.delete, update_of_ne hk] at hlatest
      exact (hmem _ k e).mpr ⟨h.kept k e hlatest hlive, hk⟩
  · exact fun i k e he => h.past i k e ((hmem i k e).mp he).1
  · exact fun i => (h.ordered i).sublist (hsub i)

/-- A key is written. If it has an entry already then those behind it must not be older,
    unless nothing lives. -/
theorem put (h : m.Tracks hashCode latest now) (key : K) (value : V)
    (hbehind : ∀ e ∈ CacheMap.behind (m.segments (segment hashCode key)) key,
      now ≤ e.2.2 ∨ m.timeToLiveSeconds ≤ 0) :
    (m.put hashCode now key value).Tracks hashCode
      ((latest.write now key value).evict
        (CacheMap.evicted m.maxEntriesPerSegment (m.segments (segment hashCode key)) key)) now := by
  set i₀ := segment hashCode key
  set evicted := CacheMap.evicted m.maxEntriesPerSegment (m.segments i₀) key with hevicted
  have hmem : ∀ i k e, (k, e) ∈ ((m.put hashCode now key value).segments i).entries ↔
      (i = i₀ ∧ (k, e) = (key, (value, now)) ∨ (k, e) ∈ (m.segments i).entries ∧ k ≠ key) ∧ evicted ≠ some k := by
    intro i k e
    unfold ConcurrentCacheMap.put
    dsimp only
    by_cases hi : i = i₀
    · subst hi
      rw [update_self, CacheMap.mem_put_iff]
      simp only [true_and]
      rfl
    · rw [update_of_ne hi]
      simp only [hi, false_and, false_or]
      constructor
      · intro he
        have hk := h.placed i k e he
        refine ⟨⟨he, ?_⟩, ?_⟩
        · rintro rfl
          exact hi hk.symm
        · -- The evicted key is one of the segment.
          intro hev
          rcases CacheMap.evicted_mem hev with rfl | ⟨w, hw⟩
          · exact hi hk.symm
          · exact hi (hk.symm.trans (h.placed i₀ k w hw))
      · exact fun he => he.1.1
  -- Of the keys that stay, only the one that is written is another.
  have hwritten : ∀ k, evicted ≠ some k → ((latest.write now key value).evict evicted) k =
      if k = key then some (value, now) else latest k := by
    intro k hk
    have hother : ((latest.write now key value).evict evicted) k = latest.write now key value k := by
      cases hev : evicted with
      | none => rfl
      | some k' =>
          have hne : k ≠ k' := by
            rintro rfl
            exact hk hev
          rw [Latest.evict, Latest.delete, update_of_ne hne]
    rw [hother, Latest.write, update_apply]
  refine ⟨?_, ?_, ?_, ?_, ?_⟩
  · intro i k e he
    rcases ((hmem i k e).mp he).1 with ⟨rfl, heq⟩ | ⟨he, _⟩
    · rw [(Prod.mk.inj heq).1]
    · exact h.placed i k e he
  · intro i k e he
    obtain ⟨he, hev⟩ := (hmem i k e).mp he
    rw [hwritten k hev]
    rcases he with ⟨_, heq⟩ | ⟨he, hne⟩
    · rw [if_pos (Prod.mk.inj heq).1, (Prod.mk.inj heq).2]
    · rw [if_neg hne]
      exact h.recorded i k e he
  · intro k e hlatest hlive
    have hev : evicted ≠ some k := by
      intro hev
      rw [hev, Latest.evict, Latest.delete, update_self] at hlatest
      simp at hlatest
    rw [hwritten k hev] at hlatest
    refine (hmem _ k e).mpr ⟨?_, hev⟩
    by_cases hk : k = key
    · rw [if_pos hk, Option.some.injEq] at hlatest
      exact .inl ⟨by rw [hk], by rw [hk, ← hlatest]⟩
    · rw [if_neg hk] at hlatest
      exact .inr ⟨h.kept k e hlatest hlive, hk⟩
  · intro i k e he
    rcases ((hmem i k e).mp he).1 with ⟨_, heq⟩ | ⟨he, _⟩
    · have htime : e.2 = now := congrArg Prod.snd (Prod.mk.inj heq).2
      omega
    · exact h.past i k e he
  · intro i
    show ((update m.segments i₀ _) i).entries.Pairwise fun a b => a.2.2 ≤ b.2.2 ∨ m.isExpired now a.2.2 = true
    by_cases hi : i = i₀
    · rw [hi, update_self]
      refine CacheMap.pairwise_put (h.ordered i₀) (fun e he => .inl (h.past i₀ e.1 e.2 he)) ?_
      intro e he
      refine (hbehind e he).imp_right ?_
      intro httl
      rw [isExpired_iff]
      dsimp only
      omega
    · rw [update_of_ne hi]
      exact h.ordered i

omit [DecidableEq K] in
theorem clear (m : ConcurrentCacheMap K V) : m.clear.Tracks hashCode (fun _ => none) now := by
  refine ⟨?_, ?_, ?_, ?_, ?_⟩
  · exact fun i k e he => absurd he List.not_mem_nil
  · exact fun i k e he => absurd he List.not_mem_nil
  · exact fun k e hlatest => absurd hlatest (by simp)
  · exact fun i k e he => absurd he List.not_mem_nil
  · exact fun i => List.Pairwise.nil

/-- An entry that is expired is removed, which is no change of what was written. -/
theorem drop (h : m.Tracks hashCode latest now) {e : V × Int} (hentry : m.entry hashCode key = some e)
    (hexp : m.isExpired now e.2 = true) : (m.remove hashCode key).Tracks hashCode latest now := by
  refine h.shrink rfl ?_ ?_
  · intro i
    unfold ConcurrentCacheMap.remove
    dsimp only
    by_cases hi : i = segment hashCode key
    · rw [hi, update_self]
      exact List.filter_sublist
    · rw [update_of_ne hi]
  · intro i k d hd hlive
    unfold ConcurrentCacheMap.remove
    dsimp only
    by_cases hi : i = segment hashCode key
    · subst hi
      rw [update_self, mem_remove]
      refine ⟨hd, ?_⟩
      rintro rfl
      rw [mem_unique _ hd (entry_eq_some_iff.mp hentry), hexp] at hlive
      simp at hlive
    · rw [update_of_ne hi]
      exact hd

/-- Whoever finds an entry expired removes that very entry. -/
theorem expire [DecidableEq V] (h : m.Tracks hashCode latest now) {e : V × Int}
    (hentry : m.isExpired now e.2 = true → m.entry hashCode key = some e) :
    (m.expire hashCode now key e).2.Tracks hashCode latest now := by
  unfold ConcurrentCacheMap.expire
  by_cases hexp : m.isExpired now e.2 = true
  · rw [if_pos hexp]
    dsimp only
    rw [hentry hexp]
    dsimp only
    rw [if_pos rfl]
    exact h.drop (hentry hexp) hexp
  · rw [if_neg hexp]
    exact h

end Tracks

/-! ### Observers -/

omit [DecidableEq K] [DecidableEq V] in
/-- If the entries are in order then those behind a live one live as well, so that the
    loop may stop there. -/
theorem expireSegment_eq {l : List (K × V × Int)}
    (h : l.Pairwise fun a b => a.2.2 ≤ b.2.2 ∨ m.isExpired now a.2.2 = true) :
    (l.dropWhile fun e => m.isExpired now e.2.2) = l.filter fun e => !m.isExpired now e.2.2 := by
  induction l with
  | nil => rfl
  | cons a l ih =>
      rw [List.pairwise_cons] at h
      by_cases hexp : m.isExpired now a.2.2 = true
      · rw [List.dropWhile_cons, if_pos hexp, List.filter_cons, if_neg (by simp [hexp]), ih h.2]
      · rw [List.dropWhile_cons, if_neg hexp, List.filter_cons, if_pos (by simpa using hexp)]
        have hall : (l.filter fun e => !m.isExpired now e.2.2) = l := by
          rw [List.filter_eq_self]
          intro b hb
          have hle := (h.1 b hb).resolve_right hexp
          rw [Bool.not_eq_true', ← Bool.not_eq_true, isExpired_iff]
          rw [isExpired_iff] at hexp
          omega
        rw [hall]

omit [DecidableEq K] [DecidableEq V] in
theorem Tracks.expireSegments_eq (h : m.Tracks hashCode latest now) : m.expireSegments now = m.scanSegments now := by
  unfold expireSegments scanSegments
  congr 1
  funext i
  unfold expireSegment scanSegment HashedMap.dropWhile HashedMap.filter
  congr 1
  exact expireSegment_eq (h.ordered i)

omit [DecidableEq K] [DecidableEq V] in
theorem mem_entries (hplaced : ∀ i k e, (k, e) ∈ (m.segments i).entries → segment hashCode k = i) {k : K}
    {e : V × Int} : (k, e) ∈ m.entries ↔ (k, e) ∈ (m.segments (segment hashCode k)).entries := by
  rw [entries, List.mem_flatMap]
  constructor
  · rintro ⟨i, _, he⟩
    rw [hplaced i k e he]
    exact he
  · intro he
    exact ⟨segment hashCode k, List.mem_range.mpr (segment_lt hashCode k), he⟩

omit [DecidableEq K] [DecidableEq V] in
/-- Segments have different keys. -/
theorem nodup_entries (hplaced : ∀ i k e, (k, e) ∈ (m.segments i).entries → segment hashCode k = i) :
    (m.entries.map Prod.fst).Nodup := by
  rw [entries, List.map_flatMap, List.nodup_flatMap]
  refine ⟨fun i _ => (m.segments i).nodup, ?_⟩
  refine (List.nodup_range).imp ?_
  intro i j hij k hi hj
  obtain ⟨e, he⟩ := (mem_keys_iff _ k).mp hi
  obtain ⟨d, hd⟩ := (mem_keys_iff _ k).mp hj
  exact hij ((hplaced i k e he).symm.trans (hplaced j k d hd))

omit [DecidableEq K] [DecidableEq V] in
theorem mem_scanSegment {i : Nat} {k : K} {e : V × Int} :
    (k, e) ∈ ((m.scanSegments now).segments i).entries ↔
      (k, e) ∈ (m.segments i).entries ∧ m.isExpired now e.2 = false := by
  show (k, e) ∈ (m.segments i).entries.filter _ ↔ _
  rw [List.mem_filter, Bool.not_eq_true']

theorem get_fst (m : ConcurrentCacheMap K V) (now : Int) (k : K) :
    (m.get hashCode now k).1 = m.previous hashCode now k := by
  unfold get previous expire
  cases m.entry hashCode k with
  | none => rfl
  | some oldValue =>
      by_cases hexp : m.isExpired now oldValue.2 = true
      · simp [hexp, Option.filter]
      · simp [hexp, Option.filter]

omit [DecidableEq V] in
theorem containsKey_fst (m : ConcurrentCacheMap K V) (now : Int) (k : K) :
    (m.containsKey hashCode now k).1 = (m.previous hashCode now k).isSome := by
  unfold containsKey previous entry
  cases (m.segments (segment hashCode k)).get k with
  | none => rfl
  | some oldValue =>
      by_cases hexp : m.isExpired now oldValue.2 = true
      · simp [hexp, Option.filter]
      · simp [hexp, Option.filter]

omit [DecidableEq K] [DecidableEq V] in
/-- The answer of the loop over segments, and what it leaves. -/
theorem isEmptyFrom_spec (is : List Nat) (hnodup : is.Nodup) (m : ConcurrentCacheMap K V) (now : Int) :
    ((m.isEmptyFrom now is).1 = true ↔ ∀ i ∈ is, (m.expireSegment now (m.segments i)).size = 0) ∧
      (m.isEmptyFrom now is).2.timeToLiveSeconds = m.timeToLiveSeconds ∧
      ∀ i, (m.isEmptyFrom now is).2.segments i = m.segments i ∨
        i ∈ is ∧ (m.isEmptyFrom now is).2.segments i = m.expireSegment now (m.segments i) := by
  induction is generalizing m with
  | nil => exact ⟨by simp [isEmptyFrom], rfl, fun i => .inl rfl⟩
  | cons i is ih =>
      rw [List.nodup_cons] at hnodup
      let m₁ : ConcurrentCacheMap K V :=
        { m with segments := update m.segments i (m.expireSegment now (m.segments i)) }
      have hself : m₁.segments i = m.expireSegment now (m.segments i) := update_self ..
      have hother : ∀ j, j ≠ i → m₁.segments j = m.segments j := fun j hj => update_of_ne hj ..
      obtain ⟨hanswer, httl, hleft⟩ := ih hnodup.2 m₁
      have hunfold : m.isEmptyFrom now (i :: is) =
          if (m₁.segments i).size = 0 then m₁.isEmptyFrom now is else (false, m₁) := rfl
      rw [hunfold]
      by_cases hsize : (m₁.segments i).size = 0
      · rw [if_pos hsize]
        refine ⟨?_, httl, ?_⟩
        · rw [hanswer, List.forall_mem_cons, ← hself]
          refine ⟨fun hall => ⟨hsize, ?_⟩, fun hall => ?_⟩
          · intro j hj
            rw [← hother j (fun heq => hnodup.1 (heq ▸ hj))]
            exact hall j hj
          · intro j hj
            rw [hother j (fun heq => hnodup.1 (heq ▸ hj))]
            exact hall.2 j hj
        · intro j
          by_cases hj : j = i
          · subst hj
            refine .inr ⟨List.mem_cons_self, ?_⟩
            rcases hleft j with hsame | ⟨hmem, _⟩
            · rw [hsame, hself]
            · exact absurd hmem hnodup.1
          · rcases hleft j with hsame | ⟨hmem, hexp⟩
            · exact .inl (hsame.trans (hother j hj))
            · refine .inr ⟨List.mem_cons_of_mem _ hmem, ?_⟩
              rw [hexp, hother j hj]
              rfl
      · rw [if_neg hsize]
        refine ⟨?_, rfl, ?_⟩
        · rw [List.forall_mem_cons, ← hself]
          simp [hsize]
        · intro j
          by_cases hj : j = i
          · subst hj
            exact .inr ⟨List.mem_cons_self, hself⟩
          · exact .inl (hother j hj)

omit [DecidableEq K] [DecidableEq V] in
theorem Tracks.scan (h : m.Tracks hashCode latest now) : (m.scanSegments now).Tracks hashCode latest now :=
  h.shrink rfl (fun _ => List.filter_sublist) fun _ _ _ he hlive => mem_scanSegment.mpr ⟨he, hlive⟩

omit [DecidableEq K] [DecidableEq V] in
theorem Tracks.afterIsEmpty (h : m.Tracks hashCode latest now) : (m.isEmpty now).2.Tracks hashCode latest now := by
  obtain ⟨_, httl, hleft⟩ := isEmptyFrom_spec (List.range SEGMENT_NR) List.nodup_range m now
  -- A segment that was looked at has lost what is expired.
  have hexp : ∀ i, m.expireSegment now (m.segments i) = (m.scanSegments now).segments i := by
    intro i
    rw [← h.expireSegments_eq]
    rfl
  refine h.shrink httl ?_ ?_
  · intro i
    rcases hleft i with hsame | ⟨_, hleft⟩
    · rw [isEmpty, hsame]
    · rw [isEmpty, hleft]
      exact List.dropWhile_sublist _
  · intro i k e he hlive
    rcases hleft i with hsame | ⟨_, hleft⟩
    · rw [isEmpty, hsame]
      exact he
    · rw [isEmpty, hleft, hexp]
      exact mem_scanSegment.mpr ⟨he, hlive⟩

/-- All observers describe the live entries. -/
theorem Tracks.agrees (h : m.Tracks hashCode latest now) : m.Agrees hashCode latest now := by
  have hplaced : ∀ i k e, (k, e) ∈ ((m.scanSegments now).segments i).entries → segment hashCode k = i :=
    fun i k e he => h.placed i k e (mem_scanSegment.mp he).1
  have hkeys : ((m.entrySet now).1.map Prod.fst).Nodup := by
    have hmap : (m.entrySet now).1.map Prod.fst = (m.scanSegments now).entries.map Prod.fst := by
      simp [entrySet, comp_def]
    rw [hmap]
    exact nodup_entries hplaced
  let live : HashedMap K V := ⟨(m.entrySet now).1, hkeys⟩
  have hlive : ∀ k, live.get k = m.previous hashCode now k := by
    intro k
    ext v
    rw [get_eq_some_iff]
    show (k, v) ∈ (m.scanSegments now).entries.map (fun e => (e.1, e.2.1)) ↔ _
    rw [List.mem_map, previous, Option.map_eq_some_iff]
    constructor
    · rintro ⟨⟨k', e⟩, he, heq⟩
      obtain ⟨rfl, rfl⟩ := Prod.mk.inj heq
      obtain ⟨hmem, hexp⟩ := mem_scanSegment.mp ((mem_entries hplaced).mp he)
      exact ⟨e, Option.filter_eq_some_iff.mpr ⟨entry_eq_some_iff.mpr hmem, by simpa using hexp⟩, rfl⟩
    · rintro ⟨e, he, rfl⟩
      obtain ⟨hmem, hexp⟩ := Option.filter_eq_some_iff.mp he
      refine ⟨(k, e), (mem_entries hplaced).mpr (mem_scanSegment.mpr ?_), rfl⟩
      exact ⟨entry_eq_some_iff.mp hmem, by simpa using hexp⟩
  have hcontains : ∀ k, live.contains k = (m.previous hashCode now k).isSome := by
    intro k
    rw [HashedMap.contains, hlive]
  have hlength : live.size = (m.scanSegments now).entries.length := List.length_map _
  have hsize : (m.size now).1 = live.size := by
    have hsum : (m.size now).1 = (m.expireSegments now).entries.length := by
      rw [entries, List.length_flatMap]
      rfl
    rw [hsum, h.expireSegments_eq, hlength]
  refine ⟨live, ?_, ?_, ?_, hsize, ?_, ?_, ?_, .refl _⟩
  · intro k
    rw [hlive, h.live_eq]
  · intro k
    rw [get_fst, hlive]
  · intro k
    rw [containsKey_fst, hcontains]
  · rw [isEmpty, (isEmptyFrom_spec _ List.nodup_range m now).1, ← hsize, size, List.sum_eq_zero_iff_forall_eq_nat]
    simp
  · intro k
    have hkeySet : k ∈ (m.keySet now).1.elems ↔ k ∈ (m.scanSegments now).entries.map Prod.fst := by
      show k ∈ (HashedSet.ofList ((m.expireSegments now).entries.map Prod.fst)).elems ↔ _
      rw [h.expireSegments_eq]
      exact HashedSet.mem_ofList _ _
    have hmap : (m.scanSegments now).entries.map Prod.fst = live.entries.map Prod.fst := by
      simp [live, entrySet, comp_def]
    rw [hkeySet, hmap, mem_keys_iff, contains_iff]
  · simp [live, entrySet, values, comp_def]

end ConcurrentCacheMap

/-! ### Runs -/

/-- A cache, the time, and what was written. -/
structure CacheSystem (K V : Type) where
  refreshTimeout : Bool
  map : ConcurrentCacheMap K V
  clock : Int
  latest : Latest K V

namespace CacheSystem

variable {K V : Type} [DecidableEq K] [DecidableEq V] (hashCode : K → BitVec 32)

/-- An operation at a time, which is not before the last one. -/
def step (s : CacheSystem K V) (e : Int × CacheOp K V) : Option (CacheSystem K V) :=
  if e.1 < s.clock then none
  else some { s with
    map := e.2.run hashCode s.refreshTimeout s.map e.1
    clock := e.1
    latest := (e.2.latest s.refreshTimeout s.map.timeToLiveSeconds s.latest e.1).evict (e.2.evicted hashCode s.map) }

/-- A cache that was made just now. -/
def Fresh (s : CacheSystem K V) : Prop :=
  s.latest = (fun _ => none) ∧ ∃ timeToLiveSeconds maxEntries, s.map = .create timeToLiveSeconds maxEntries

/-- The key that an operation writes. -/
def written (s : CacheSystem K V) (now : Int) : CacheOp K V → Option K
  | .put key _ => some key
  | .putIfAbsent key _ =>
      if (s.map.previous hashCode now key).isSome ∧ s.refreshTimeout = false then none else some key
  | .replace key _ => if (s.map.previous hashCode now key).isSome then some key else none
  | .replaceValue key oldValue _ => if s.map.previous hashCode now key = some oldValue then some key else none
  | _ => none

/-- If a key is written again then all entries behind it in its segment were written at
    this time. A cache without a time to live has nothing that could be seen. -/
def InOrder (s : CacheSystem K V) (e : Int × CacheOp K V) : Prop :=
  ∀ key ∈ s.written hashCode e.1 e.2,
    ∀ d ∈ CacheMap.behind (s.map.segments (ConcurrentCacheMap.segment hashCode key)) key,
      e.1 ≤ d.2.2 ∨ s.map.timeToLiveSeconds ≤ 0

instance (s : CacheSystem K V) (e : Int × CacheOp K V) : Decidable (s.InOrder hashCode e) :=
  inferInstanceAs (Decidable (∀ key ∈ s.written hashCode e.1 e.2,
    ∀ d ∈ CacheMap.behind (s.map.segments (ConcurrentCacheMap.segment hashCode key)) key,
      e.1 ≤ d.2.2 ∨ s.map.timeToLiveSeconds ≤ 0))

variable {hashCode}

open ConcurrentCacheMap

omit [DecidableEq V] in
/-- The key of an entry is not new, so that nothing is evicted. -/
theorem evicted_of_entry {m : ConcurrentCacheMap K V} {key : K} {e : V × Int} (h : m.entry hashCode key = some e) :
    CacheMap.evicted m.maxEntriesPerSegment (m.segments (segment hashCode key)) key = none := by
  refine CacheMap.evicted_of_contains ?_
  rw [contains_iff]
  exact ⟨e, entry_eq_some_iff.mp h⟩

omit [DecidableEq V] in
theorem previous_of_entry {m : ConcurrentCacheMap K V} (now : Int) {key : K} {e : V × Int}
    (h : m.entry hashCode key = some e) :
    m.previous hashCode now key = if m.isExpired now e.2 = true then none else some e.1 := by
  rw [previous, h]
  by_cases hexp : m.isExpired now e.2 = true
  · simp [hexp, Option.filter]
  · simp [hexp, Option.filter]

/-- The cache follows the abstract one in every operation, if it is in order. -/
theorem tracks_run {s : CacheSystem K V} {now : Int} {op : CacheOp K V}
    (h : s.map.Tracks hashCode s.latest now) (horder : s.InOrder hashCode (now, op)) :
    (op.run hashCode s.refreshTimeout s.map now).Tracks hashCode
      ((op.latest s.refreshTimeout s.map.timeToLiveSeconds s.latest now).evict (op.evicted hashCode s.map)) now := by
  obtain ⟨refreshTimeout, m, clock, latest⟩ := s
  dsimp only at h ⊢
  -- A write is in order if it takes place.
  have hput : ∀ key value, written hashCode ⟨refreshTimeout, m, clock, latest⟩ now op = some key →
      (m.put hashCode now key value).Tracks hashCode
        ((latest.write now key value).evict
          (CacheMap.evicted m.maxEntriesPerSegment (m.segments (segment hashCode key)) key)) now :=
    fun key value hwritten => h.put key value (horder key hwritten)
  cases op with
  | put key value => exact hput key value rfl
  | putIfAbsent key value =>
      simp only [CacheOp.run, CacheOp.latest, CacheOp.evicted, putIfAbsent, h.live_eq]
      cases hentry : m.entry hashCode key with
      | none =>
          have hprev : m.previous hashCode now key = none := by simp [previous, hentry]
          rw [hprev]
          exact hput key value (by simp [written, hprev])
      | some old =>
          have hprev := previous_of_entry now hentry
          by_cases hexp : m.isExpired now old.2 = true
          · rw [if_pos hexp] at hprev
            dsimp only
            rw [if_pos hexp, hprev]
            exact hput key value (by simp [written, hprev])
          · rw [if_neg hexp] at hprev
            dsimp only
            rw [if_neg hexp, hprev]
            dsimp only
            by_cases hrefresh : refreshTimeout = true
            · rw [if_pos hrefresh, if_pos hrefresh]
              exact hput key old.1 (by simp [written, hrefresh])
            · rw [if_neg hrefresh, if_neg hrefresh, evicted_of_entry hentry]
              exact h
  | get key =>
      simp only [CacheOp.run, CacheOp.latest, CacheOp.evicted, ConcurrentCacheMap.get]
      cases hentry : m.entry hashCode key with
      | none => exact h
      | some old => exact h.expire fun _ => hentry
  | remove key | iteratorRemove key => exact h.remove key
  | removeValue key value =>
      simp only [CacheOp.run, CacheOp.latest, CacheOp.evicted, removeValue]
      cases hentry : m.entry hashCode key with
      | none => exact h
      | some old => exact h.expire fun _ => hentry
  | replace key value =>
      simp only [CacheOp.run, CacheOp.latest, CacheOp.evicted, replace, h.live_eq]
      cases hentry : m.entry hashCode key with
      | none =>
          have hprev : m.previous hashCode now key = none := by simp [previous, hentry]
          rw [hprev]
          exact h
      | some old =>
          have hprev := previous_of_entry now hentry
          by_cases hexp : m.isExpired now old.2 = true
          · rw [if_pos hexp] at hprev
            simp only [hexp, hprev, Bool.not_true, Bool.false_eq_true, if_false, Option.isSome_none]
            exact h.expire fun _ => hentry
          · rw [if_neg hexp] at hprev
            simp only [hexp, hprev, Bool.not_false, if_true, Option.isSome_some]
            have hwrite := hput key value (by simp [written, hprev])
            rw [evicted_of_entry hentry] at hwrite
            exact hwrite.expire fun hexp' => absurd hexp' hexp
  | replaceValue key oldValue newValue =>
      simp only [CacheOp.run, CacheOp.latest, CacheOp.evicted, replaceValue, h.live_eq]
      cases hentry : m.entry hashCode key with
      | none =>
          have hprev : m.previous hashCode now key = none := by simp [previous, hentry]
          rw [hprev]
          exact h
      | some old =>
          have hprev := previous_of_entry now hentry
          by_cases hexp : m.isExpired now old.2 = true
          · rw [if_pos hexp] at hprev
            simp only [hexp, hprev, Bool.not_true, Bool.false_eq_true, false_and, if_false, reduceCtorEq]
            exact h.expire fun _ => hentry
          · rw [if_neg hexp] at hprev
            by_cases hvalue : oldValue = old.1
            · simp only [hexp, hprev, hvalue, Bool.not_false, and_self, if_true]
              have hwrite := hput key newValue (by simp [written, hprev, hvalue])
              rw [evicted_of_entry hentry] at hwrite
              exact hwrite.expire fun hexp' => absurd hexp' hexp
            · have hne : ¬ old.1 = oldValue := fun heq => hvalue heq.symm
              simp only [hprev, hvalue, and_false, if_false, Option.some.injEq, hne]
              exact h.expire fun _ => hentry
  | containsKey key =>
      simp only [CacheOp.run, CacheOp.latest, CacheOp.evicted, ConcurrentCacheMap.containsKey]
      cases hentry : (m.segments (segment hashCode key)).get key with
      | none => exact h
      | some old =>
          dsimp only
          split
          · next hexp => exact h.drop hentry hexp
          · exact h
  | clear => exact Tracks.clear m
  | size | keySet =>
      show (m.expireSegments now).Tracks hashCode latest now
      rw [h.expireSegments_eq]
      exact h.scan
  | isEmpty => exact h.afterIsEmpty
  | values | entrySet => exact h.scan

omit [DecidableEq K] [DecidableEq V] in
theorem Fresh.tracks {s : CacheSystem K V} (h : s.Fresh) : s.map.Tracks hashCode s.latest s.clock := by
  obtain ⟨hlatest, timeToLiveSeconds, maxEntries, hmap⟩ := h
  rw [hlatest, hmap]
  exact Tracks.clear (.create timeToLiveSeconds maxEntries)

/-- At every moment of a run in which keys are written in order, all observers describe
    the entries whose latest write is younger than the time to live. -/
theorem agrees_of_inOrder {s : CacheSystem K V} (h : Reached (step hashCode) (InOrder hashCode) Fresh s) {now : Int}
    (hnow : s.clock ≤ now) : s.map.Agrees hashCode s.latest now := by
  have htracks := h.invariant (fun s => s.map.Tracks hashCode s.latest s.clock) (fun _ h => h.tracks) ?_
  · exact (htracks.tick hnow).agrees
  · intro s e s' hs horder hstep
    unfold step at hstep
    split at hstep
    · simp at hstep
    · next hle =>
        rw [← Option.some.inj hstep]
        exact tracks_run (hs.tick (by omega)) horder

/-- The last key of a segment is written again, and a key expires behind which there is
    a live one. -/
theorem agrees_expired_first :
    ∃ s : CacheSystem Nat Nat, Reached (step (BitVec.ofNat 32)) (InOrder (BitVec.ofNat 32)) Fresh s ∧
      s.clock ≤ 61000 ∧ (s.map.size 61000).1 = 1 ∧ s.map.Agrees (BitVec.ofNat 32) s.latest 61000 := by
  let s₀ : CacheSystem Nat Nat := ⟨true, .create 60 1024, 0, fun _ => none⟩
  let events : List (Int × CacheOp Nat Nat) := [(0, .put 0 7), (1000, .put 16 8), (50000, .put 16 9), (50000, .get 0)]
  have hstart : Reached (step (BitVec.ofNat 32)) (InOrder (BitVec.ofNat 32)) Fresh s₀ := .start ⟨rfl, 60, 1024, rfl⟩
  have hsome : ((replay (step (BitVec.ofNat 32)) (InOrder (BitVec.ofNat 32)) events s₀).map fun s =>
      (s.clock, (s.map.size 61000).1)) = some (50000, 1) := by decide +kernel
  obtain ⟨s, hs, heq⟩ := Option.map_eq_some_iff.mp hsome
  simp only [Prod.mk.injEq] at heq
  have hclock : s.clock ≤ 61000 := by omega
  exact ⟨s, hstart.replay events hs, hclock, heq.2, agrees_of_inOrder (hstart.replay events hs) hclock⟩

/-- A key that is written again hides those that expire behind it: they are in the set of
    keys, but `get` does not find them. -/
theorem not_agrees_rewritten :
    ¬ ∀ s : CacheSystem Nat Nat, Reached (step (BitVec.ofNat 32)) (fun _ _ => True) Fresh s →
      ∀ now, s.clock ≤ now → s.map.Agrees (BitVec.ofNat 32) s.latest now := by
  intro hall
  let s₀ : CacheSystem Nat Nat := ⟨true, .create 60 1024, 0, fun _ => none⟩
  let events : List (Int × CacheOp Nat Nat) := [(0, .put 0 7), (1000, .put 16 8), (50000, .put 0 7)]
  have hstart : Reached (step (BitVec.ofNat 32)) (fun _ _ => True) Fresh s₀ := .start ⟨rfl, 60, 1024, rfl⟩
  have hsome : ((replay (step (BitVec.ofNat 32)) (fun _ _ => True) events s₀).map fun s =>
      (s.clock, (s.map.keySet 61000).1.elems, (s.map.get (BitVec.ofNat 32) 61000 16).1)) =
        some (50000, [0, 16], none) := by decide +kernel
  obtain ⟨s, hs, heq⟩ := Option.map_eq_some_iff.mp hsome
  simp only [Prod.mk.injEq] at heq
  obtain ⟨live, _, hget, _, _, _, hkeySet, _⟩ := hall s (hstart.replay events hs) 61000 (by omega)
  have hcontains := (hkeySet 16).mp (by rw [heq.2.1]; decide)
  rw [HashedMap.contains, ← hget, heq.2.2] at hcontains
  simp at hcontains

end CacheSystem

end TomP2P
