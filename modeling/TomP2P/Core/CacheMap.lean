import Mathlib.Algebra.GroupWithZero.Nat
import Mathlib.Logic.Function.Basic
import TomP2P.Foundation.Hashed

/-!
# Caches

A map with a bound on its entries, and a map whose entries expire.

`CacheMap` drops the entry that was inserted first when an insertion makes it too
large. An entry that is overwritten keeps its place, and since nothing is
inserted then, nothing is dropped.

`ConcurrentCacheMap` spreads its entries over segments by their hash, each of
them a `CacheMap`. An entry that is found expired is taken out, so that looking
for a key changes the map. The time is an argument of everything that looks at
it.

## Main definitions

* `CacheMap.put`: Inserting with a bound.
* `ConcurrentCacheMap.put`, `ConcurrentCacheMap.remove`,
  `ConcurrentCacheMap.containsKey`: Entries that expire.
* `CacheMap.superPut`, `CacheMap.putIfAbsent`, `CacheMap.putEntry`: Inserting with a bound.
* `CacheMap.Op`, `CacheMap.Op.run`: The operations.
* `CacheMap.Use`, `CacheMap.Use.step`: A map with the times of the last uses.

## Theorems

* `CacheMap.size_put_le`: The bound is kept.
* `CacheMap.mem_put`: What is in the cache was put there.
* `ConcurrentCacheMap.has_put`, `ConcurrentCacheMap.has_remove`: Which keys have
  an entry, expired or not.
* `ConcurrentCacheMap.containsKey_spec`, `ConcurrentCacheMap.containsKey_again`:
  What looking for a key answers and leaves.
-/

namespace TomP2P

open Function

namespace CacheMap

variable {K V : Type} [DecidableEq K]

/-- Puts an entry into a cache that overwrites. If there are too many entries
    after an insertion, the eldest goes. -/
def put (maxEntries : Int) (m : HashedMap K V) (key : K) (value : V) : HashedMap K V :=
  if m.contains key then m.put key value
  else if maxEntries < (m.put key value).size then (m.put key value).removeFirst
  else m.put key value

theorem mem_put {maxEntries : Int} {m : HashedMap K V} {key : K} {value : V} {e : K × V}
    (h : e ∈ (put maxEntries m key value).entries) : e = (key, value) ∨ e ∈ m.entries ∧ e.1 ≠ key := by
  unfold put at h
  rw [← HashedMap.mem_put]
  split at h
  · exact h
  · split at h
    · exact HashedMap.mem_of_mem_removeFirst _ h
    · exact h

/-- A cache that is within its bound stays there. A negative bound is that of an
    empty cache. -/
theorem size_put_le {maxEntries : Int} {m : HashedMap K V} (h : (m.size : Int) ≤ max maxEntries 0)
    (key : K) (value : V) : ((put maxEntries m key value).size : Int) ≤ max maxEntries 0 := by
  unfold put
  by_cases hc : m.contains key = true
  · rw [if_pos hc, m.size_put_of_contains key value hc]
    exact h
  · have hsize := m.size_put_of_not_contains key value hc
    rw [if_neg hc]
    split
    · rw [HashedMap.size_removeFirst]
      omega
    · omega

end CacheMap

/-- Segments of entries with the time they were put. -/
structure ConcurrentCacheMap (K V : Type) where
  timeToLiveSeconds : Int
  maxEntriesPerSegment : Int
  segments : Nat → HashedMap K (V × Int)

namespace ConcurrentCacheMap

variable {K V : Type} [DecidableEq K] (hashCode : K → BitVec 32)

def SEGMENT_NR : Nat := 16

def create (timeToLiveSeconds maxEntries : Int) : ConcurrentCacheMap K V where
  timeToLiveSeconds := timeToLiveSeconds
  maxEntriesPerSegment := maxEntries.tdiv SEGMENT_NR
  segments := fun _ => .empty

/-- The segment of a key. -/
def segment (key : K) : Nat := (hashCode key &&& 0x7fffffff#32).toNat % SEGMENT_NR

def put (m : ConcurrentCacheMap K V) (now : Int) (key : K) (value : V) : ConcurrentCacheMap K V :=
  let i := segment hashCode key
  { m with
    segments :=
      update m.segments i (CacheMap.put m.maxEntriesPerSegment (m.segments i) key (value, now)) }

def remove (m : ConcurrentCacheMap K V) (key : K) : ConcurrentCacheMap K V :=
  let i := segment hashCode key
  { m with segments := update m.segments i ((m.segments i).remove key) }

def isExpired (m : ConcurrentCacheMap K V) (now : Int) (lastAccessTime : Int) : Bool :=
  lastAccessTime + m.timeToLiveSeconds * 1000 ≤ now

/-- Whether a key has an entry that is not expired. An expired one is removed. -/
def containsKey (m : ConcurrentCacheMap K V) (now : Int) (key : K) : Bool × ConcurrentCacheMap K V :=
  match (m.segments (segment hashCode key)).get key with
  | none => (false, m)
  | some value => if m.isExpired now value.2 then (false, m.remove hashCode key) else (true, m)

/-- The key has an entry, expired or not. -/
def Has (m : ConcurrentCacheMap K V) (key : K) : Prop :=
  ∃ v, (key, v) ∈ (m.segments (segment hashCode key)).entries

variable {hashCode}

/-- Only the key that is put can be new. -/
theorem has_put {m : ConcurrentCacheMap K V} {now : Int} {key k : K} {value : V}
    (h : (m.put hashCode now key value).Has hashCode k) : k = key ∨ m.Has hashCode k := by
  obtain ⟨v, hv⟩ := h
  unfold put at hv
  dsimp only at hv
  by_cases hseg : segment hashCode k = segment hashCode key
  · rw [hseg, update_self] at hv
    rcases CacheMap.mem_put hv with heq | ⟨hmem, _⟩
    · exact .inl (congrArg Prod.fst heq)
    · exact .inr ⟨v, hseg ▸ hmem⟩
  · rw [update_of_ne hseg] at hv
    exact .inr ⟨v, hv⟩

theorem has_remove {m : ConcurrentCacheMap K V} {key k : K} (h : (m.remove hashCode key).Has hashCode k) :
    k ≠ key ∧ m.Has hashCode k := by
  obtain ⟨v, hv⟩ := h
  unfold remove at hv
  dsimp only at hv
  by_cases hseg : segment hashCode k = segment hashCode key
  · rw [hseg, update_self, HashedMap.mem_remove] at hv
    exact ⟨hv.2, v, hseg ▸ hv.1⟩
  · rw [update_of_ne hseg] at hv
    refine ⟨?_, v, hv⟩
    rintro rfl
    exact hseg rfl

/-- If the key is found it has an entry; if it is not, it has none afterwards.
    No key gets one. -/
theorem containsKey_spec (hashCode : K → BitVec 32) (m : ConcurrentCacheMap K V) (now : Int)
    (key : K) :
    ((m.containsKey hashCode now key).1 = true → m.Has hashCode key) ∧
      ((m.containsKey hashCode now key).1 = false →
        ¬ (m.containsKey hashCode now key).2.Has hashCode key) ∧
      ∀ k, (m.containsKey hashCode now key).2.Has hashCode k → m.Has hashCode k := by
  unfold containsKey
  cases hget : (m.segments (segment hashCode key)).get key with
  | none =>
      refine ⟨nofun, ?_, fun k hk => hk⟩
      rintro _ ⟨v, hv⟩
      exact (HashedMap.get_eq_none_iff _ _).mp hget v hv
  | some value =>
      have hhas : m.Has hashCode key := ⟨value, (HashedMap.get_eq_some_iff _ _ _).mp hget⟩
      dsimp only
      split
      · refine ⟨fun _ => hhas, ?_, fun k hk => (has_remove hk).2⟩
        intro _ hrem
        exact (has_remove hrem).1 rfl
      · exact ⟨fun _ => hhas, nofun, fun k hk => hk⟩

/-- Looking twice at one time gives one answer. -/
theorem containsKey_again (hashCode : K → BitVec 32) (m : ConcurrentCacheMap K V) (now : Int)
    (key : K) :
    ((m.containsKey hashCode now key).2.containsKey hashCode now key).1 =
      (m.containsKey hashCode now key).1 := by
  cases hfound : (m.containsKey hashCode now key).1 with
  | false =>
      by_contra hin
      rw [Bool.not_eq_false] at hin
      exact (m.containsKey_spec hashCode now key).2.1 hfound ((containsKey_spec hashCode _ now key).1 hin)
  | true =>
      have hsame : (m.containsKey hashCode now key).2 = m := by
        unfold containsKey at hfound ⊢
        cases hget : (m.segments (segment hashCode key)).get key with
        | none => rfl
        | some value =>
            rw [hget] at hfound
            dsimp only at hfound ⊢
            split
            · next hexp =>
                rw [if_pos hexp] at hfound
                cases hfound
            · rfl
      rw [hsame]
      exact hfound

end ConcurrentCacheMap

/-! ### Operations of the Bounded Map

`CacheMap` is a linked map in insertion order. `get` does not move an entry, and neither does a
`put` of a key that is there. Whether such a `put` overwrites the value is up to
`updateEntryOnInsert`; without it, `put` is `putIfAbsent`.

When each key was used last is kept beside the map. A use is a `get` or a `put`, whether it finds
the key or not.
-/

namespace CacheMap

variable {K V : Type} [DecidableEq K]

/-- `put` of the linked map, with the value before. -/
def superPut (maxEntries : Int) (m : HashedMap K V) (key : K) (value : V) : Option V × HashedMap K V :=
  (m.get key, put maxEntries m key value)

def putIfAbsent (maxEntries : Int) (m : HashedMap K V) (key : K) (value : V) : Option V × HashedMap K V :=
  if !m.contains key then superPut maxEntries m key value else (m.get key, m)

/-- `put` of the bounded map. -/
def putEntry (maxEntries : Int) (updateEntryOnInsert : Bool) (m : HashedMap K V) (key : K) (value : V) :
    Option V × HashedMap K V :=
  if updateEntryOnInsert then superPut maxEntries m key value else putIfAbsent maxEntries m key value

inductive Op (K V : Type)
  | put (key : K) (value : V)
  | putIfAbsent (key : K) (value : V)
  | get (key : K)
  | remove (key : K)
  deriving DecidableEq

namespace Op

/-- The key that an operation uses. -/
def used : Op K V → Option K
  | put key _ => some key
  | putIfAbsent key _ => some key
  | get key => some key
  | remove _ => none

/-- The key that an operation puts. -/
def puts : Op K V → Option K
  | put key _ => some key
  | putIfAbsent key _ => some key
  | get _ => none
  | remove _ => none

/-- What an operation returns, and the map behind it. -/
def run (maxEntries : Int) (updateEntryOnInsert : Bool) (m : HashedMap K V) : Op K V → Option V × HashedMap K V
  | put key value => putEntry maxEntries updateEntryOnInsert m key value
  | putIfAbsent key value => CacheMap.putIfAbsent maxEntries m key value
  | get key => (m.get key, m)
  | remove key => (m.get key, m.remove key)

end Op

/-- A map with the times of the last uses. -/
structure Use (K V : Type) where
  map : HashedMap K V := .empty
  clock : Nat := 0
  lastUse : K → Nat := fun _ => 0

def Use.step (maxEntries : Int) (updateEntryOnInsert : Bool) (s : Use K V) (op : Op K V) : Use K V where
  map := (op.run maxEntries updateEntryOnInsert s.map).2
  clock := s.clock + 1
  lastUse := match op.used with
    | none => s.lastUse
    | some key => update s.lastUse key (s.clock + 1)

end CacheMap

end TomP2P
