import TomP2P.Core.DataSerializer

/-!
# Timeouts on Disk

The database keeps beside the values the times at which they expire, in both directions:
by key, and the keys by time. All maps are on disk. What a process has opened is closed
with it and opened again from the same files, so a restart changes none of them.

A value is stored together with its expiration, and taken out together with it. The
expiration is the one of the value that is handed over, before it is written.

## Main definitions

* `StorageDisk.Database`: The values with their timeouts.
* `Database.addTimeout`, `Database.removeTimeout`, `Database.subMapTimeout`: The timeouts.
* `Database.store`, `Database.drop`, `Database.checkTimeout`: What the storage layer does
  with a key.
-/

namespace TomP2P

namespace StorageDisk

/-- The database with its timeouts. -/
structure Database extends StorageDisk where
  timeoutMap : NavMap Number640 Int := .empty
  timeoutMapRev : NavMap Int (HashedSet Number640) := .empty

namespace Database

def putIfAbsent2 (s : Database) (expiration : Int) (key : Number640) : Database :=
  let timeouts := (s.timeoutMapRev.get expiration).getD .empty
  { s with timeoutMapRev := s.timeoutMapRev.put expiration (timeouts.add key) }

def removeRevTimeout (s : Database) (key : Number640) (expiration : Int) : Database :=
  match s.timeoutMapRev.get expiration with
  | none => s
  | some tmp =>
      if (tmp.remove key).isEmpty then { s with timeoutMapRev := s.timeoutMapRev.remove expiration }
      else { s with timeoutMapRev := s.timeoutMapRev.put expiration (tmp.remove key) }

def addTimeout (s : Database) (key : Number640) (expiration : Int) : Database :=
  let oldExpiration := s.timeoutMap.get key
  let s' := ({ s with timeoutMap := s.timeoutMap.put key expiration }).putIfAbsent2 expiration key
  match oldExpiration with
  | none => s'
  | some old => s'.removeRevTimeout key old

def removeTimeout (s : Database) (key : Number640) : Database :=
  match s.timeoutMap.get key with
  | none => s
  | some expiration => ({ s with timeoutMap := s.timeoutMap.remove key }).removeRevTimeout key expiration

/-- The keys that expire in `[0, toTime)`, by expiration. -/
def subMapTimeout (s : Database) (toTime : Int) : Except JavaException (List Number640) :=
  if toTime < 0 then .error (.illegalArgument "")
  else .ok ((s.timeoutMapRev.filter fun e _ => 0 ≤ e && e < toTime).entries.flatMap fun e => e.2.elems)

/-- A value enters the map, and its expiration the timeouts. -/
def store (f : SignatureFactory) (s : Database) (key : Number640) (value : Data) :
    Except JavaException Database := do
  let m ← s.toStorageDisk.put f key value
  return ({ s with toStorageDisk := m }).addTimeout key value.expirationMillis

/-- A key leaves the map and the timeouts. -/
def drop (s : Database) (key : Number640) : Database :=
  ({ s with toStorageDisk := s.toStorageDisk.remove key }).removeTimeout key

/-- The keys that have expired at a time leave. -/
def checkTimeout (s : Database) (time : Int) : Except JavaException Database := do
  let toRemove ← s.subMapTimeout time
  return toRemove.foldl drop s

def apply (f : SignatureFactory) (s : Database) : Op → Except JavaException Database
  | .put key value => s.store f key value
  | .remove key => .ok (s.drop key)

/-- The database after a sequence of changes. -/
def run (f : SignatureFactory) (ops : List Op) : Except JavaException Database := ops.foldlM (apply f) {}

section Lemmas

variable (s : Database) (key : Number640) (expiration : Int)

theorem removeRevTimeout_eq : ∃ rev, s.removeRevTimeout key expiration = { s with timeoutMapRev := rev } := by
  unfold removeRevTimeout
  cases s.timeoutMapRev.get expiration with
  | none => exact ⟨s.timeoutMapRev, rfl⟩
  | some tmp =>
      by_cases h : (tmp.remove key).isEmpty = true
      · exact ⟨_, if_pos h⟩
      · exact ⟨_, if_neg h⟩

/-- Setting a timeout changes the timeouts only. -/
theorem addTimeout_eq : ∃ rev, s.addTimeout key expiration =
    { s with timeoutMap := s.timeoutMap.put key expiration, timeoutMapRev := rev } := by
  unfold addTimeout
  cases s.timeoutMap.get key with
  | none => exact ⟨_, rfl⟩
  | some old => exact removeRevTimeout_eq _ _ _

/-- Dropping a timeout changes the timeouts only. -/
theorem removeTimeout_eq : ∃ rev, s.removeTimeout key =
    { s with timeoutMap := s.timeoutMap.remove key, timeoutMapRev := rev } := by
  unfold removeTimeout
  cases h : s.timeoutMap.get key with
  | none =>
      have hsame : s.timeoutMap.remove key = s.timeoutMap := by
        apply NavMap.ext_get
        intro k
        by_cases hk : k = key
        · simp [hk, h]
        · simp [NavMap.get_remove, hk]
      exact ⟨s.timeoutMapRev, by rw [hsame]⟩
  | some old => exact removeRevTimeout_eq _ _ _

end Lemmas

end Database

end StorageDisk

end TomP2P
