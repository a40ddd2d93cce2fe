import TomP2P.Core.Data
import TomP2P.Foundation.NavMap

/-!
# The Storage Backend in Memory

The maps a peer keeps for the values it stores: the values themselves, the
timeouts in both directions, the owners of domains and entries, and the
responsibilities in both directions.

Each function is the method of the same name. Methods that can throw return
`Except`: a sub map between two keys in the wrong order is an illegal argument,
and the protection maps refuse a null owner.

## Main definitions

* `StorageMemory`: The maps.
* `StorageMemory.addTimeout`, `StorageMemory.removeTimeout`,
  `StorageMemory.subMapTimeout`: The bookkeeping of expirations.
* `StorageMemory.isDomainProtectedByOthers`,
  `StorageMemory.isEntryProtectedByOthers`: The protection tests.

## Theorems

* `StorageMemory.subMap_versions`: The versions of a content always form a
  valid range.
-/

namespace TomP2P

/-- The state of the backend. -/
@[ext] structure StorageMemory where
  dataMap : NavMap Number640 Data := .empty
  timeoutMap : NavMap Number640 Int := .empty
  timeoutMapRev : NavMap Int (HashedSet Number640) := .empty
  protectedMap : NavMap Number320 PublicKey := .empty
  entryMap : NavMap Number480 PublicKey := .empty
  responsibilityMap : NavMap Number160 Number160 := .empty
  responsibilityMapRev : NavMap Number160 (HashedSet Number160) := .empty
  deriving DecidableEq

namespace StorageMemory

-- Core

def put (m : StorageMemory) (key : Number640) (value : Data) : StorageMemory :=
  { m with dataMap := m.dataMap.put key value }

def get (m : StorageMemory) (key : Number640) : Option Data := m.dataMap.get key

def contains (m : StorageMemory) (key : Number640) : Bool := m.dataMap.contains key

def remove (m : StorageMemory) (key : Number640) : StorageMemory :=
  { m with dataMap := m.dataMap.remove key }

def subMap (m : StorageMemory) (fromKey toKey : Number640) :
    Except JavaException (NavMap Number640 Data) :=
  if toKey < fromKey then .error (.illegalArgument "inconsistent range")
  else .ok (m.dataMap.subMap fromKey toKey)

/-- The range taken out, and the backend without it. -/
def removeRange (m : StorageMemory) (fromKey toKey : Number640) :
    Except JavaException (NavMap Number640 Data × StorageMemory) :=
  if toKey < fromKey then .error (.illegalArgument "inconsistent range")
  else .ok (m.dataMap.subMap fromKey toKey,
    { m with dataMap := m.dataMap.filter fun k _ => !(fromKey ≤ k && k ≤ toKey) })

-- Maintenance

def removeRevTimeout (m : StorageMemory) (key : Number640) (expiration : Int) : StorageMemory :=
  match m.timeoutMapRev.get expiration with
  | none => m
  | some tmp =>
      if (tmp.remove key).isEmpty then
        { m with timeoutMapRev := m.timeoutMapRev.remove expiration }
      else
        { m with timeoutMapRev := m.timeoutMapRev.put expiration (tmp.remove key) }

/-- The key enters the set of its new expiration first and leaves the set of
    its old one last. -/
def addTimeout (m : StorageMemory) (key : Number640) (expiration : Int) : StorageMemory :=
  let oldExpiration := m.timeoutMap.get key
  let tmp := (m.timeoutMapRev.get expiration).getD .empty
  let m' := { m with
    timeoutMap := m.timeoutMap.put key expiration
    timeoutMapRev := m.timeoutMapRev.put expiration (tmp.add key) }
  match oldExpiration with
  | none => m'
  | some old => m'.removeRevTimeout key old

def removeTimeout (m : StorageMemory) (key : Number640) : StorageMemory :=
  match m.timeoutMap.get key with
  | none => m
  | some expiration =>
      ({ m with timeoutMap := m.timeoutMap.remove key }).removeRevTimeout key expiration

/-- The keys that expire in `[0, toTime)`, by expiration. -/
def subMapTimeout (m : StorageMemory) (toTime : Int) : Except JavaException (List Number640) :=
  if toTime < 0 then .error (.illegalArgument "inconsistent range")
  else .ok ((m.timeoutMapRev.filter fun e _ => 0 ≤ e && e < toTime).entries.flatMap fun e => e.2.elems)

-- Protection

def protectDomain (m : StorageMemory) (key : Number320) :
    Option PublicKey → Except JavaException StorageMemory
  | none => .error .nullPointer
  | some publicKey => .ok { m with protectedMap := m.protectedMap.put key publicKey }

def isDomainProtectedByOthers (m : StorageMemory) (key : Number320)
    (publicKey : Option PublicKey) : Bool :=
  match m.protectedMap.get key with
  | none => false
  | some other => some other != publicKey

def protectEntry (m : StorageMemory) (key : Number480) :
    Option PublicKey → Except JavaException StorageMemory
  | none => .error .nullPointer
  | some publicKey => .ok { m with entryMap := m.entryMap.put key publicKey }

def isEntryProtectedByOthers (m : StorageMemory) (key : Number480)
    (publicKey : Option PublicKey) : Bool :=
  match m.entryMap.get key with
  | none => false
  | some other => some other != publicKey

-- Responsibility

def removeRevResponsibility (m : StorageMemory) (peerId locationKey : Number160) :
    StorageMemory :=
  match m.responsibilityMapRev.get peerId with
  | none => m
  | some contentIDs =>
      if (contentIDs.remove locationKey).isEmpty then
        { m with responsibilityMapRev := m.responsibilityMapRev.remove peerId }
      else
        { m with responsibilityMapRev :=
            m.responsibilityMapRev.put peerId (contentIDs.remove locationKey) }

def removeResponsibility (m : StorageMemory) (locationKey : Number160) : StorageMemory :=
  match m.responsibilityMap.get locationKey with
  | none => m
  | some peerId =>
      ({ m with responsibilityMap := m.responsibilityMap.remove locationKey
        }).removeRevResponsibility peerId locationKey

/-- The peer that is responsible for a location, in both directions. -/
def updateResponsibilities (m : StorageMemory) (locationKey peerId : Number160) : StorageMemory :=
  let oldPeerID := m.responsibilityMap.get locationKey
  let m := { m with responsibilityMap := m.responsibilityMap.put locationKey peerId }
  let m :=
    match oldPeerID with
    | none => m
    | some old => if old = peerId then m else m.removeRevResponsibility old locationKey
  let contentIDs := (m.responsibilityMapRev.get peerId).getD .empty
  { m with responsibilityMapRev := m.responsibilityMapRev.put peerId (contentIDs.add locationKey) }

/-- All versions of a content. The range is never in the wrong order. -/
def versions (m : StorageMemory) (key : Number480) : NavMap Number640 Data :=
  m.dataMap.subMap (key.version Number160.ZERO) (key.version Number160.MAX_VALUE)

theorem subMap_versions (m : StorageMemory) (key : Number480) :
    m.subMap (key.version Number160.ZERO) (key.version Number160.MAX_VALUE) =
      .ok (m.versions key) := by
  have hle : key.version Number160.ZERO ≤ key.version Number160.MAX_VALUE :=
    ((Number480.versions_iff key (key.version Number160.ZERO)).mpr rfl).2
  rw [subMap, if_neg (not_lt.mpr hle), versions]

theorem get_versions (m : StorageMemory) (key : Number480) (k : Number640) :
    (m.versions key).get k =
      if k.locationAndDomainAndContentKey = key then m.get k else none := by
  rw [versions, NavMap.get_subMap, get]
  by_cases h : k.locationAndDomainAndContentKey = key
  · rw [if_pos h, if_pos ((Number480.versions_iff key k).mpr h)]
  · rw [if_neg h, if_neg (fun hr => h ((Number480.versions_iff key k).mp hr))]

-- What each operation leaves alone.

section Frames

variable (m : StorageMemory) (key : Number640) (value : Data) (expiration : Int)

@[simp] theorem put_dataMap : (m.put key value).dataMap = m.dataMap.put key value := rfl

@[simp] theorem put_protectedMap : (m.put key value).protectedMap = m.protectedMap := rfl

@[simp] theorem put_entryMap : (m.put key value).entryMap = m.entryMap := rfl

@[simp] theorem put_timeoutMap : (m.put key value).timeoutMap = m.timeoutMap := rfl

@[simp] theorem remove_dataMap : (m.remove key).dataMap = m.dataMap.remove key := rfl

@[simp] theorem remove_protectedMap : (m.remove key).protectedMap = m.protectedMap := rfl

@[simp] theorem remove_entryMap : (m.remove key).entryMap = m.entryMap := rfl

@[simp] theorem remove_timeoutMap : (m.remove key).timeoutMap = m.timeoutMap := rfl

/-- Leaving the set of an expiration changes no other map. -/
theorem removeRevTimeout_eq : ∃ rev, m.removeRevTimeout key expiration =
    { m with timeoutMapRev := rev } := by
  unfold removeRevTimeout
  rcases m.timeoutMapRev.get expiration with _ | tmp
  · exact ⟨m.timeoutMapRev, rfl⟩
  · by_cases h : (tmp.remove key).isEmpty = true
    · exact ⟨_, if_pos h⟩
    · exact ⟨_, if_neg h⟩

/-- Setting a timeout changes the timeout maps only. -/
theorem addTimeout_eq : ∃ rev, m.addTimeout key expiration =
    { m with timeoutMap := m.timeoutMap.put key expiration, timeoutMapRev := rev } := by
  unfold addTimeout
  rcases m.timeoutMap.get key with _ | old
  · exact ⟨_, rfl⟩
  · rcases removeRevTimeout_eq { m with
        timeoutMap := m.timeoutMap.put key expiration
        timeoutMapRev := m.timeoutMapRev.put expiration
          (((m.timeoutMapRev.get expiration).getD .empty).add key) } key old with ⟨rev, h⟩
    exact ⟨rev, h⟩

/-- Dropping a timeout changes the timeout maps only. -/
theorem removeTimeout_eq : ∃ rev, m.removeTimeout key =
    { m with timeoutMap := m.timeoutMap.remove key, timeoutMapRev := rev } := by
  unfold removeTimeout
  rcases h : m.timeoutMap.get key with _ | old
  · refine ⟨m.timeoutMapRev, ?_⟩
    have hsame : m.timeoutMap.remove key = m.timeoutMap := by
      apply NavMap.ext_get
      intro k
      rw [NavMap.get_remove]
      by_cases hk : k = key
      · rw [if_pos hk, hk, h]
      · rw [if_neg hk]
    rw [hsame]
  · rcases removeRevTimeout_eq { m with timeoutMap := m.timeoutMap.remove key } key old with
      ⟨rev, h'⟩
    exact ⟨rev, h'⟩

@[simp] theorem addTimeout_dataMap : (m.addTimeout key expiration).dataMap = m.dataMap := by
  rcases addTimeout_eq m key expiration with ⟨rev, h⟩
  rw [h]

@[simp] theorem addTimeout_protectedMap :
    (m.addTimeout key expiration).protectedMap = m.protectedMap := by
  rcases addTimeout_eq m key expiration with ⟨rev, h⟩
  rw [h]

@[simp] theorem addTimeout_entryMap : (m.addTimeout key expiration).entryMap = m.entryMap := by
  rcases addTimeout_eq m key expiration with ⟨rev, h⟩
  rw [h]

@[simp] theorem addTimeout_timeoutMap :
    (m.addTimeout key expiration).timeoutMap = m.timeoutMap.put key expiration := by
  rcases addTimeout_eq m key expiration with ⟨rev, h⟩
  rw [h]

@[simp] theorem removeTimeout_dataMap : (m.removeTimeout key).dataMap = m.dataMap := by
  rcases removeTimeout_eq m key with ⟨rev, h⟩
  rw [h]

@[simp] theorem removeTimeout_protectedMap :
    (m.removeTimeout key).protectedMap = m.protectedMap := by
  rcases removeTimeout_eq m key with ⟨rev, h⟩
  rw [h]

@[simp] theorem removeTimeout_entryMap : (m.removeTimeout key).entryMap = m.entryMap := by
  rcases removeTimeout_eq m key with ⟨rev, h⟩
  rw [h]

@[simp] theorem removeTimeout_timeoutMap :
    (m.removeTimeout key).timeoutMap = m.timeoutMap.remove key := by
  rcases removeTimeout_eq m key with ⟨rev, h⟩
  rw [h]

/-- Dropping a responsibility changes the responsibility maps only. -/
theorem removeResponsibility_eq (locationKey : Number160) : ∃ r rev,
    m.removeResponsibility locationKey =
      { m with responsibilityMap := r, responsibilityMapRev := rev } := by
  unfold removeResponsibility
  rcases m.responsibilityMap.get locationKey with _ | peerId
  · exact ⟨_, _, rfl⟩
  · unfold removeRevResponsibility
    dsimp only
    rcases m.responsibilityMapRev.get peerId with _ | contentIDs
    · exact ⟨_, _, rfl⟩
    · by_cases h : (contentIDs.remove locationKey).isEmpty = true
      · exact ⟨_, _, if_pos h⟩
      · exact ⟨_, _, if_neg h⟩

end Frames

end StorageMemory

end TomP2P
