import TomP2P.Core.CacheMap
import Mathlib.Data.BitVec
import Mathlib.Algebra.BigOperators.Group.List.Basic

/-!
# Operations of the Cache

The operations of `ConcurrentCacheMap` that are not in `Core.CacheMap`, one after the
other. Each of them reads the clock once.

An entry that is found expired is removed by whoever finds it. The observers of the
whole map do this segment by segment. `size`, `isEmpty` and `keySet` stop at the first
entry that is not expired, while `values` and `entrySet` look at all entries.

`remove` with a value compares the wrapper in the segment with the value itself, which
are never equal, so that it only removes what is expired.

## Main definitions

* `ConcurrentCacheMap.get`, `ConcurrentCacheMap.putIfAbsent`,
  `ConcurrentCacheMap.replace`: Operations on a key.
* `ConcurrentCacheMap.expireSegment`, `ConcurrentCacheMap.size`,
  `ConcurrentCacheMap.isEmpty`, `ConcurrentCacheMap.keySet`: Observers that stop early.
* `ConcurrentCacheMap.values`, `ConcurrentCacheMap.entrySet`: Observers that do not.
* `CacheMap.evicted`: What a bound drops.
* `CacheOp`, `CacheOp.run`: The operations, and what they leave.
* `CacheObject`: What is compared.
* `ConcurrentCacheMap.removeObject`: `remove` with an object.
* `ConcurrentCacheMap.containsValue`, `ConcurrentCacheMap.hash`: What looks at all segments.
* `CacheReference.equals`: Equality of maps.

## Theorems

* `ConcurrentCacheMap.removeObject_value`: `remove` with a value.
-/

namespace TomP2P

/-- The key that a bounded map drops when it gets a new one. -/
def CacheMap.evicted {K W : Type} [DecidableEq K] (maxEntries : Int) (m : HashedMap K W) (key : K) : Option K :=
  if m.contains key = false ∧ maxEntries < m.size + 1 then (m.entries.map Prod.fst ++ [key]).head? else none

namespace ConcurrentCacheMap

variable {K V : Type} [DecidableEq K] [DecidableEq V] (hashCode : K → BitVec 32)

/-! ### Operations on a key -/

/-- The entry of a key, expired or not. -/
def entry (m : ConcurrentCacheMap K V) (key : K) : Option (V × Int) :=
  (m.segments (segment hashCode key)).get key

/-- What `put` and `remove` return. -/
def previous (m : ConcurrentCacheMap K V) (now : Int) (key : K) : Option V :=
  ((m.entry hashCode key).filter fun oldValue => !m.isExpired now oldValue.2).map Prod.fst

/-- Removes what was found expired, if there still is an equal value. -/
def expire (m : ConcurrentCacheMap K V) (now : Int) (key : K) (value : V × Int) : Bool × ConcurrentCacheMap K V :=
  if m.isExpired now value.2 then
    (true, match m.entry hashCode key with
      | none => m
      | some tmp => if tmp.1 = value.1 then m.remove hashCode key else m)
  else (false, m)

def get (m : ConcurrentCacheMap K V) (now : Int) (key : K) : Option V × ConcurrentCacheMap K V :=
  match m.entry hashCode key with
  | none => (none, m)
  | some oldValue =>
      let (expired, m) := m.expire hashCode now key oldValue
      (if expired then none else some oldValue.1, m)

/-- `refreshTimeout` is set when the map is made. -/
def putIfAbsent (refreshTimeout : Bool) (m : ConcurrentCacheMap K V) (now : Int) (key : K) (value : V) :
    Option V × ConcurrentCacheMap K V :=
  match m.entry hashCode key with
  | none => (none, m.put hashCode now key value)
  | some oldValue =>
      if m.isExpired now oldValue.2 then (none, m.put hashCode now key value)
      else if refreshTimeout then (some oldValue.1, m.put hashCode now key oldValue.1)
      else (some oldValue.1, m)

/-- `remove` with a value, which no wrapper is equal to. -/
def removeValue (m : ConcurrentCacheMap K V) (now : Int) (key : K) : Bool × ConcurrentCacheMap K V :=
  match m.entry hashCode key with
  | none => (false, m)
  | some oldValue => (false, (m.expire hashCode now key oldValue).2)

/-- `replace` of a given value. -/
def replaceValue (m : ConcurrentCacheMap K V) (now : Int) (key : K) (oldValue newValue : V) :
    Bool × ConcurrentCacheMap K V :=
  match m.entry hashCode key with
  | none => (false, m)
  | some oldValue3 =>
      if !m.isExpired now oldValue3.2 ∧ oldValue = oldValue3.1 then
        (true, ((m.put hashCode now key newValue).expire hashCode now key oldValue3).2)
      else (false, (m.expire hashCode now key oldValue3).2)

def replace (m : ConcurrentCacheMap K V) (now : Int) (key : K) (value : V) : Option V × ConcurrentCacheMap K V :=
  match m.entry hashCode key with
  | none => (none, m)
  | some oldValue =>
      let m := if !m.isExpired now oldValue.2 then m.put hashCode now key value else m
      let (expired, m) := m.expire hashCode now key oldValue
      (if expired then none else some oldValue.1, m)

/-! ### Observers of the whole map -/

/-- Fast expiration: the loop ends at the first entry that is not expired. -/
def expireSegment (m : ConcurrentCacheMap K V) (now : Int) (segment : HashedMap K (V × Int)) :
    HashedMap K (V × Int) :=
  segment.dropWhile fun expiringObject => m.isExpired now expiringObject.2

/-- The loops of `values` and `entrySet`. -/
def scanSegment (m : ConcurrentCacheMap K V) (now : Int) (segment : HashedMap K (V × Int)) :
    HashedMap K (V × Int) :=
  segment.filter fun expiringObject => !m.isExpired now expiringObject.2

def clear (m : ConcurrentCacheMap K V) : ConcurrentCacheMap K V := { m with segments := fun _ => .empty }

def expireSegments (m : ConcurrentCacheMap K V) (now : Int) : ConcurrentCacheMap K V :=
  { m with segments := fun i => m.expireSegment now (m.segments i) }

def scanSegments (m : ConcurrentCacheMap K V) (now : Int) : ConcurrentCacheMap K V :=
  { m with segments := fun i => m.scanSegment now (m.segments i) }

/-- The entries of all segments. -/
def entries (m : ConcurrentCacheMap K V) : List (K × V × Int) :=
  (List.range SEGMENT_NR).flatMap fun i => (m.segments i).entries

def size (m : ConcurrentCacheMap K V) (now : Int) : Nat × ConcurrentCacheMap K V :=
  (((List.range SEGMENT_NR).map fun i => (m.expireSegment now (m.segments i)).size).sum, m.expireSegments now)

/-- Goes over the segments until one is not empty. -/
def isEmptyFrom (m : ConcurrentCacheMap K V) (now : Int) : List Nat → Bool × ConcurrentCacheMap K V
  | [] => (true, m)
  | i :: is =>
      let m := { m with segments := Function.update m.segments i (m.expireSegment now (m.segments i)) }
      if (m.segments i).size = 0 then m.isEmptyFrom now is else (false, m)

def isEmpty (m : ConcurrentCacheMap K V) (now : Int) : Bool × ConcurrentCacheMap K V :=
  m.isEmptyFrom now (List.range SEGMENT_NR)

def keySet (m : ConcurrentCacheMap K V) (now : Int) : HashedSet K × ConcurrentCacheMap K V :=
  (.ofList ((m.expireSegments now).entries.map Prod.fst), m.expireSegments now)

def values (m : ConcurrentCacheMap K V) (now : Int) : List V × ConcurrentCacheMap K V :=
  ((m.scanSegments now).entries.map fun e => e.2.1, m.scanSegments now)

/-- The entries are objects of their own, so that no two of them are equal. -/
def entrySet (m : ConcurrentCacheMap K V) (now : Int) : List (K × V) × ConcurrentCacheMap K V :=
  ((m.scanSegments now).entries.map fun e => (e.1, e.2.1), m.scanSegments now)

end ConcurrentCacheMap

/-! ### What a Cache is Asked for by Value

The operations of `ConcurrentCacheMap` that compare values. A segment holds values in wrappers
with their times. A wrapper is equal to a wrapper with an equal value and to nothing else, and
a value is equal to no wrapper.

`remove` with a value asks the wrapper whether it is equal to the value, and `containsValue`
asks the value, as `java.util.HashMap` does, whether it is equal to a wrapper. `replace` compares
two values. `hashCode` is that of the segments, after what is expired at their front is gone.
There is no `equals`, so that two maps are equal if they are one object.
-/

/-- A value, or a value with the time it was put. -/
inductive CacheObject (V : Type)
  | value (v : V)
  | expiring (e : V × Int)

namespace CacheObject

variable {V : Type} [DecidableEq V]

/-- `equals` of a value. -/
def valueEquals (v : V) : CacheObject V → Bool
  | .value v' => decide (v = v')
  | .expiring _ => false

/-- `equals` of an `ExpiringObject`. -/
def expiringEquals (e : V × Int) : CacheObject V → Bool
  | .value _ => false
  | .expiring e' => decide (e.1 = e'.1)

end CacheObject

namespace ConcurrentCacheMap

variable {K V : Type} [DecidableEq K] [DecidableEq V] (hashCode : K → BitVec 32)

open CacheObject

/-- `remove` of a key that is mapped to an object. -/
def removeObject (m : ConcurrentCacheMap K V) (now : Int) (key : K) (value : CacheObject V) :
    Bool × ConcurrentCacheMap K V :=
  match m.entry hashCode key with
  | none => (false, m)
  | some oldValue =>
      let removed := expiringEquals oldValue value && !m.isExpired now oldValue.2
      let m := if removed then m.remove hashCode key else m
      (removed, (m.expire hashCode now key oldValue).2)

/-- The segments one after the other, until one has the value. -/
def containsValueFrom (m : ConcurrentCacheMap K V) (now : Int) (value : V) :
    List Nat → Bool × ConcurrentCacheMap K V
  | [] => (false, m)
  | i :: is =>
      let m := { m with segments := Function.update m.segments i (m.expireSegment now (m.segments i)) }
      if (m.segments i).entries.any fun e => valueEquals value (.expiring e.2) then (true, m)
      else m.containsValueFrom now value is

def containsValue (m : ConcurrentCacheMap K V) (now : Int) (value : V) : Bool × ConcurrentCacheMap K V :=
  m.containsValueFrom now value (List.range SEGMENT_NR)

/-- The sum over the entries, of which each has the hash of its key and that of its value. -/
def hashOf (valueHash : V → BitVec 32) (entries : List (K × V × Int)) : BitVec 32 :=
  (entries.map fun e => hashCode e.1 ^^^ valueHash e.2.1).sum

/-- `hashCode` of the map. -/
def hash (valueHash : V → BitVec 32) (m : ConcurrentCacheMap K V) (now : Int) :
    BitVec 32 × ConcurrentCacheMap K V :=
  (((List.range SEGMENT_NR).map fun i => hashOf hashCode valueHash (m.expireSegment now (m.segments i)).entries).sum,
    m.expireSegments now)

/-- `remove` with a value removes what is expired only. -/
theorem removeObject_value (m : ConcurrentCacheMap K V) (now : Int) (key : K) (value : V) :
    m.removeObject hashCode now key (.value value) = m.removeValue hashCode now key := by
  unfold removeObject removeValue
  cases m.entry hashCode key with
  | none => rfl
  | some oldValue => rfl

end ConcurrentCacheMap

/-- A map as an object. -/
structure CacheReference (K V : Type) where
  address : Nat
  map : ConcurrentCacheMap K V

/-- `equals` of `Object`. -/
def CacheReference.equals {K V : Type} (a b : CacheReference K V) : Bool := decide (a.address = b.address)

/-- The operations. Removing by an iterator of the entries is removing the key. -/
inductive CacheOp (K V : Type)
  | put (key : K) (value : V)
  | putIfAbsent (key : K) (value : V)
  | get (key : K)
  | remove (key : K)
  | removeValue (key : K) (value : V)
  | replace (key : K) (value : V)
  | replaceValue (key : K) (oldValue newValue : V)
  | containsKey (key : K)
  | clear
  | iteratorRemove (key : K)
  | size
  | isEmpty
  | keySet
  | values
  | entrySet
  deriving DecidableEq

variable {K V : Type} [DecidableEq K] [DecidableEq V] (hashCode : K → BitVec 32)

/-- What an operation leaves of the map. -/
def CacheOp.run (refreshTimeout : Bool) (m : ConcurrentCacheMap K V) (now : Int) :
    CacheOp K V → ConcurrentCacheMap K V
  | .put key value => m.put hashCode now key value
  | .putIfAbsent key value => (m.putIfAbsent hashCode refreshTimeout now key value).2
  | .get key => (m.get hashCode now key).2
  | .remove key => m.remove hashCode key
  | .removeValue key _ => (m.removeValue hashCode now key).2
  | .replace key value => (m.replace hashCode now key value).2
  | .replaceValue key oldValue newValue => (m.replaceValue hashCode now key oldValue newValue).2
  | .containsKey key => (m.containsKey hashCode now key).2
  | .clear => m.clear
  | .iteratorRemove key => m.remove hashCode key
  | .size => (m.size now).2
  | .isEmpty => (m.isEmpty now).2
  | .keySet => (m.keySet now).2
  | .values => (m.values now).2
  | .entrySet => (m.entrySet now).2

end TomP2P
