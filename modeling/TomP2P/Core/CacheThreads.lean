import TomP2P.Core.CacheOperations

/-!
# Threads on the Cache

The operations of `ConcurrentCacheMap` as threads run them. Each synchronized block is
one step, and so is the check between the block that reads an entry and the one that
removes it. The clock is read before the block of an operation that makes a new entry,
in each block, and for the check.

An observer of the whole map goes from segment to segment, one block each.

The history has every entry that has disappeared: whose key had it before a step and has
none after it. Whether the step was meant to remove that key is part of the record.

## Main definitions

* `CachePc`: What a thread does next.
* `CacheThreads`, `CacheThreads.step`: The cache with its threads.
* `CacheThreads.explicit`: The steps that remove a key by what they are asked for.
-/

namespace TomP2P

open Function

/-- What a thread does next. -/
inductive CachePc (K V : Type)
  | idle
  /-- The block of an operation on a key. If there is a new entry, it was made at this time. -/
  | block (op : CacheOp K V) (created : Int)
  /-- `value.isExpired()` in `expire` -/
  | check (key : K) (value : V × Int)
  /-- The block of `expire`. -/
  | expire (key : K) (value : V × Int)
  /-- The block of an operation on all segments, for one of them. -/
  | segment (op : CacheOp K V) (i : Nat)
  deriving DecidableEq

/-- An entry that has disappeared. -/
structure CacheRemoval (K V : Type) where
  key : K
  value : V × Int
  time : Int
  explicit : Bool
  deriving DecidableEq

/-- A cache and the threads `T` on it. -/
structure CacheThreads (T K V : Type) where
  refreshTimeout : Bool
  map : ConcurrentCacheMap K V
  clock : Int
  threads : T → CachePc K V := fun _ => .idle
  removals : List (CacheRemoval K V) := []

/-- What can happen: a thread calls an operation, or it goes on. -/
inductive CacheEvent (T K V : Type)
  | call (t : T) (now : Int) (op : CacheOp K V)
  | go (t : T) (now : Int)
  deriving DecidableEq

def CacheEvent.time {T K V : Type} : CacheEvent T K V → Int
  | .call _ now _ => now
  | .go _ now => now

namespace CacheThreads

open ConcurrentCacheMap

variable {T K V : Type} [DecidableEq T] [DecidableEq K] [DecidableEq V] (hashCode : K → BitVec 32)

/-- Where an operation starts. -/
def enter (now : Int) (op : CacheOp K V) : CachePc K V :=
  match op with
  | .clear | .size | .isEmpty | .keySet | .values | .entrySet => .segment op 0
  | _ => .block op now

/-- What is read is checked after the block. -/
def found (m : ConcurrentCacheMap K V) (key : K) : CachePc K V :=
  match m.entry hashCode key with
  | none => .idle
  | some oldValue => .check key oldValue

/-- The block of an operation on a key. -/
def block (refreshTimeout : Bool) (m : ConcurrentCacheMap K V) (now created : Int) :
    CacheOp K V → ConcurrentCacheMap K V × CachePc K V
  | .put key value => (m.put hashCode created key value, .idle)
  | .putIfAbsent key value =>
      (match m.entry hashCode key with
        | none => m.put hashCode created key value
        | some oldValue =>
            if m.isExpired now oldValue.2 then m.put hashCode created key value
            else if refreshTimeout then m.put hashCode now key oldValue.1
            else m, .idle)
  | .remove key => (m.remove hashCode key, .idle)
  | .iteratorRemove key => (m.remove hashCode key, .idle)
  | .replace key value =>
      (match m.entry hashCode key with
        | none => m
        | some oldValue => if !m.isExpired now oldValue.2 then m.put hashCode created key value else m,
        found hashCode m key)
  | .replaceValue key oldValue newValue =>
      (match m.entry hashCode key with
        | none => m
        | some oldValue3 =>
            if !m.isExpired now oldValue3.2 ∧ oldValue = oldValue3.1 then m.put hashCode created key newValue else m,
        found hashCode m key)
  -- no wrapper is equal to the value
  | .removeValue key _ => (m, found hashCode m key)
  | .get key => (m, found hashCode m key)
  | .containsKey key => (m, found hashCode m key)
  | _ => (m, .idle)

/-- The block of `expire`. -/
def expireBlock (m : ConcurrentCacheMap K V) (key : K) (value : V × Int) : ConcurrentCacheMap K V :=
  match m.entry hashCode key with
  | none => m
  | some tmp => if tmp.1 = value.1 then m.remove hashCode key else m

/-- The block of an operation on all segments, and whether there is an answer already. -/
def segmentBlock (m : ConcurrentCacheMap K V) (now : Int) (i : Nat) : CacheOp K V → ConcurrentCacheMap K V × Bool
  | .clear => ({ m with segments := update m.segments i .empty }, false)
  | .values => ({ m with segments := update m.segments i (m.scanSegment now (m.segments i)) }, false)
  | .entrySet => ({ m with segments := update m.segments i (m.scanSegment now (m.segments i)) }, false)
  | .isEmpty =>
      ({ m with segments := update m.segments i (m.expireSegment now (m.segments i)) },
        (m.expireSegment now (m.segments i)).size ≠ 0)
  | _ => ({ m with segments := update m.segments i (m.expireSegment now (m.segments i)) }, false)

/-- One step of a thread: the map, and what the thread does next. -/
def advance (s : CacheThreads T K V) (now : Int) : CachePc K V → Option (ConcurrentCacheMap K V × CachePc K V)
  | .idle => none
  | .block op created => some (block hashCode s.refreshTimeout s.map now created op)
  | .check key value => some (s.map, if s.map.isExpired now value.2 then .expire key value else .idle)
  | .expire key value => some (expireBlock hashCode s.map key value, .idle)
  | .segment op i =>
      let (map, answered) := segmentBlock s.map now i op
      some (map, if answered ∨ SEGMENT_NR ≤ i + 1 then .idle else .segment op (i + 1))

/-- The step is a removal, clears the segment, or evicts the key. -/
def explicit (s : CacheThreads T K V) (key : K) : CachePc K V → Bool
  | .block (.remove k) _ => k = key
  | .block (.iteratorRemove k) _ => k = key
  | .block (.put k _) _ =>
      CacheMap.evicted s.map.maxEntriesPerSegment (s.map.segments (segment hashCode k)) k = some key
  | .block (.putIfAbsent k _) _ =>
      CacheMap.evicted s.map.maxEntriesPerSegment (s.map.segments (segment hashCode k)) k = some key
  | .segment .clear i => segment hashCode key = i
  | _ => false

/-- The entries that are gone after a step. -/
def lost (s : CacheThreads T K V) (now : Int) (pc : CachePc K V) (map : ConcurrentCacheMap K V) :
    List (CacheRemoval K V) :=
  (s.map.entries.filter fun e => (map.entry hashCode e.1).isNone).map fun e =>
    ⟨e.1, e.2, now, s.explicit hashCode e.1 pc⟩

/-- Time does not go back, and a thread calls something only when it is in no other call. -/
def step (s : CacheThreads T K V) (e : CacheEvent T K V) : Option (CacheThreads T K V) :=
  if e.time < s.clock then none
  else match e with
    | .call t now op =>
        match s.threads t with
        | .idle => some { s with clock := now, threads := update s.threads t (enter now op) }
        | _ => none
    | .go t now =>
        (s.advance hashCode now (s.threads t)).map fun (map, next) =>
          { s with
            map := map
            clock := now
            threads := update s.threads t next
            removals := s.removals ++ s.lost hashCode now (s.threads t) map }

/-- A cache that was made just now. -/
def Fresh (s : CacheThreads T K V) : Prop :=
  s.removals = [] ∧ (∀ t, s.threads t = .idle) ∧
    ∃ timeToLiveSeconds maxEntries, s.map = .create timeToLiveSeconds maxEntries

end CacheThreads

end TomP2P
