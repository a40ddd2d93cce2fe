import TomP2P.Core.CacheOperations
import TomP2P.Core.TrackerStorage

/-!
# The Caches of a Tracker

The storage of a tracker with the maps that it is really made of. `Core.TrackerStorage`
lets entries get lost at any time; here it is said when they do.

Under each key there is a map of the peers that announced themselves. Both it and the map
of the keys are caches, whose entries have a time each: an announcement sets the time of
the peer in the inner map, and that of the key in the outer map is set when the inner map
is made. An inner map that is in its place is changed there, so that the outer map does
not take part in it.

A map finds a peer under the hash that its address carries, and by its id.

## Main definitions

* `TrackerCache`: A cache with the bounds of a tracker.
* `TrackerCaches.put`, `TrackerCaches.peerFound`, `TrackerCaches.peerFailed`: What changes
  the storage.
* `TrackerCaches.peers`, `TrackerCaches.trackerData`, `TrackerCaches.keys`,
  `TrackerCaches.digest`: What reads it.
* `TrackerCaches.after`: The storage after any of these calls.
* `TrackerObjects.put`: An announcement with an object that others hold as well.
-/

namespace TomP2P

def Number320.hashCode (n : Number320) : BitVec 32 := n.locationKey.hashCode ^^^ n.domainKey.hashCode

namespace ConcurrentCacheMap

variable {K V : Type} [DecidableEq K] (hashCode : K → BitVec 32)

/-- `get` for one thread. What was found is still there when it is removed. -/
def fetch (m : ConcurrentCacheMap K V) (now : Int) (key : K) : Option V × ConcurrentCacheMap K V :=
  match m.entry hashCode key with
  | none => (none, m)
  | some oldValue => if m.isExpired now oldValue.2 then (none, m.remove hashCode key) else (some oldValue.1, m)

/-- A value that is an object is changed. Its time is not. -/
def setValue (m : ConcurrentCacheMap K V) (key : K) (value : V) : ConcurrentCacheMap K V :=
  let i := segment hashCode key
  { m with
    segments := match m.entry hashCode key with
      | none => m.segments
      | some oldValue => Function.update m.segments i ((m.segments i).put key (value, oldValue.2)) }

@[simp]
theorem timeToLiveSeconds_fetch (m : ConcurrentCacheMap K V) (now : Int) (key : K) :
    (m.fetch hashCode now key).2.timeToLiveSeconds = m.timeToLiveSeconds := by
  unfold fetch
  cases m.entry hashCode key with
  | none => rfl
  | some oldValue =>
      dsimp only
      split
      · rfl
      · rfl

@[simp]
theorem maxEntriesPerSegment_fetch (m : ConcurrentCacheMap K V) (now : Int) (key : K) :
    (m.fetch hashCode now key).2.maxEntriesPerSegment = m.maxEntriesPerSegment := by
  unfold fetch
  cases m.entry hashCode key with
  | none => rfl
  | some oldValue =>
      dsimp only
      split
      · rfl
      · rfl

omit [DecidableEq K] in
theorem isEmptyFrom_bounds (is : List Nat) (m : ConcurrentCacheMap K V) (now : Int) :
    (m.isEmptyFrom now is).2.timeToLiveSeconds = m.timeToLiveSeconds ∧
      (m.isEmptyFrom now is).2.maxEntriesPerSegment = m.maxEntriesPerSegment := by
  induction is generalizing m with
  | nil => exact ⟨rfl, rfl⟩
  | cons i is ih =>
      rw [isEmptyFrom]
      split
      · exact ih _
      · exact ⟨rfl, rfl⟩

end ConcurrentCacheMap

/-- A cache as a tracker makes it. -/
structure TrackerCache (trackerTimeoutSeconds : BitVec 32) (K V : Type) where
  map : ConcurrentCacheMap K V
  timeToLive : map.timeToLiveSeconds = trackerTimeoutSeconds.toInt
  bounded : map.maxEntriesPerSegment = (TrackerStorage.TRACKER_CACHE_SIZE : Int).tdiv ConcurrentCacheMap.SEGMENT_NR

namespace TrackerCache

variable {T : BitVec 32} {K V : Type} [DecidableEq K] (hashCode : K → BitVec 32)

def create : TrackerCache T K V := ⟨.create T.toInt TrackerStorage.TRACKER_CACHE_SIZE, rfl, rfl⟩

def put (c : TrackerCache T K V) (now : Int) (key : K) (value : V) : TrackerCache T K V :=
  ⟨c.map.put hashCode now key value, c.timeToLive, c.bounded⟩

def remove (c : TrackerCache T K V) (key : K) : TrackerCache T K V :=
  ⟨c.map.remove hashCode key, c.timeToLive, c.bounded⟩

def setValue (c : TrackerCache T K V) (key : K) (value : V) : TrackerCache T K V :=
  ⟨c.map.setValue hashCode key value, c.timeToLive, c.bounded⟩

def get (c : TrackerCache T K V) (now : Int) (key : K) : Option V × TrackerCache T K V :=
  ((c.map.fetch hashCode now key).1, ⟨(c.map.fetch hashCode now key).2,
    by rw [ConcurrentCacheMap.timeToLiveSeconds_fetch, c.timeToLive],
    by rw [ConcurrentCacheMap.maxEntriesPerSegment_fetch, c.bounded]⟩)

def size (c : TrackerCache T K V) (now : Int) : Nat × TrackerCache T K V :=
  ((c.map.size now).1, ⟨(c.map.size now).2, c.timeToLive, c.bounded⟩)

def isEmpty (c : TrackerCache T K V) (now : Int) : Bool × TrackerCache T K V :=
  ((c.map.isEmpty now).1, ⟨(c.map.isEmpty now).2,
    (ConcurrentCacheMap.isEmptyFrom_bounds _ c.map now).1.trans c.timeToLive,
    (ConcurrentCacheMap.isEmptyFrom_bounds _ c.map now).2.trans c.bounded⟩)

def keySet (c : TrackerCache T K V) (now : Int) : HashedSet K × TrackerCache T K V :=
  ((c.map.keySet now).1, ⟨(c.map.keySet now).2, c.timeToLive, c.bounded⟩)

def values (c : TrackerCache T K V) (now : Int) : List V × TrackerCache T K V :=
  ((c.map.values now).1, ⟨(c.map.values now).2, c.timeToLive, c.bounded⟩)

def entrySet (c : TrackerCache T K V) (now : Int) : List (K × V) × TrackerCache T K V :=
  ((c.map.entrySet now).1, ⟨(c.map.entrySet now).2, c.timeToLive, c.bounded⟩)

end TrackerCache

/-- A `DigestInfo` to which nothing is added after it was made. -/
structure TrackerDigest where
  keyDigest : Option Number160
  contentDigest : Option Number160
  size : Nat

/-- A digest that is not set is that of nothing. -/
def TrackerDigest.getContentDigest (d : TrackerDigest) : Number160 := d.contentDigest.getD .ZERO

namespace TrackerCaches

/-- The announcements under a key: the address and the attachment of each peer. -/
abbrev Announced (T : BitVec 32) (A : Type := Data) := TrackerCache T PeerKey (PeerAddress × A)

abbrev Tracked (T : BitVec 32) (A : Type := Data) := TrackerCache T Number320 (Announced T A)

end TrackerCaches

open TrackerCaches in
structure TrackerCaches (trackerTimeoutSeconds : BitVec 32) (A : Type := Data) where
  dataMapUnverified : Tracked trackerTimeoutSeconds A
  dataMap : Tracked trackerTimeoutSeconds A
  peerOffline : ConcurrentCacheMap Number160 Bool
  verifyPeersOnTracker : Bool

namespace TrackerCaches

open TrackerStorage (TRACKER_CACHE_SIZE refuses)

variable {T : BitVec 32} {A : Type}

def create (T : BitVec 32) (verifyPeersOnTracker : Bool) : TrackerCaches T A where
  dataMapUnverified := .create
  dataMap := .create
  peerOffline := .create (T * 5).toInt TRACKER_CACHE_SIZE
  verifyPeersOnTracker := verifyPeersOnTracker

/-! ### Announcements -/

/-- The pair of a peer under a key, and the map without what was found expired. -/
def findOld (now : Int) (key : Number320) (peerAddress : PeerAddress) (dataMap : Tracked T A) :
    Option (PeerAddress × A) × Tracked T A :=
  match dataMap.get Number320.hashCode now key with
  | (none, dataMap) => (none, dataMap)
  | (some map, dataMap) =>
      let (pair, map) := map.get PeerKey.hashCode now peerAddress.key
      (pair, dataMap.setValue Number320.hashCode key map)

/-- Adds to one of the maps. A pair that is there already is put again as it is. -/
def add (now : Int) (key : Number320) (peerAddress : PeerAddress) (map : Tracked T A) (attachment : A) :
    Bool × Tracked T A :=
  match map.get Number320.hashCode now key with
  | (none, map) =>
      let map2 := TrackerCache.create.put PeerKey.hashCode now peerAddress.key (peerAddress, attachment)
      (true, map.put Number320.hashCode now key map2)
  | (some map2, map) =>
      let (size, map2) := map2.size now
      if TRACKER_CACHE_SIZE < size then (false, map.setValue Number320.hashCode key map2)
      else
        let (trackerData, map2) := map2.get PeerKey.hashCode now peerAddress.key
        let map2 := map2.put PeerKey.hashCode now peerAddress.key (trackerData.getD (peerAddress, attachment))
        (true, map.setValue Number320.hashCode key map2)

def addTo (s : TrackerCaches T A) (unverified : Bool) (now : Int) (key : Number320) (peerAddress : PeerAddress)
    (attachment : A) : Bool × TrackerCaches T A :=
  if unverified then
    let (added, map) := add now key peerAddress s.dataMapUnverified attachment
    (added, { s with dataMapUnverified := map })
  else
    let (added, map) := add now key peerAddress s.dataMap attachment
    (added, { s with dataMap := map })

/-- Whether an announcement goes to the unverified peers: it goes where the peer is already, unless
    what is there refuses it. A peer that is offline goes nowhere. -/
def dataMapToStore (s : TrackerCaches T A) (now : Int) (key : Number320) (peerAddress : PeerAddress)
    (refused : A → Bool) : Option Bool × TrackerCaches T A :=
  let (offline, peerOffline) := s.peerOffline.containsKey Number160.hashCode now peerAddress.peerId
  let s := { s with peerOffline := peerOffline }
  if offline then (none, s)
  else
    let (pair, map) := findOld now key peerAddress s.dataMapUnverified
    let s := { s with dataMapUnverified := map }
    match pair with
    | some (_, oldDataUnverified) => (if refused oldDataUnverified then none else some true, s)
    | none =>
        let (pair2, map) := findOld now key peerAddress s.dataMap
        let s := { s with dataMap := map }
        match pair2 with
        | some (_, oldData) => (if refused oldData then none else some false, s)
        | none => (some s.verifyPeersOnTracker, s)

/-- What an announcement is stored with. -/
def announced (now : Int) (publicKey : Option PublicKey) (attachment : Option Data) : Data :=
  (attachment.getD (Data.new [] (BitVec.ofInt 64 now))).setPublicKey publicKey

/-- An announcement at time `now`, with an attachment that is in no other hands. -/
def put (s : TrackerCaches T) (now : Int) (key : Number320) (peerAddress : PeerAddress)
    (publicKey : Option PublicKey) (attachment : Option Data) : Bool × TrackerCaches T :=
  match s.dataMapToStore now key peerAddress (refuses · publicKey) with
  | (none, s) => (false, s)
  | (some unverified, s) => s.addTo unverified now key peerAddress (announced now publicKey attachment)

/-! ### Peers that fail or are found -/

/-- What is left under a key when a peer is taken from there, with the time of the key. -/
def leftOf (now : Int) (remotePeer : PeerAddress) (entry : Announced T × Int) : Option (Announced T × Int) :=
  let (empty, announced) := (entry.1.remove PeerKey.hashCode remotePeer.key).isEmpty now
  if empty then none else some (announced, entry.2)

/-- Takes a peer from under every key. Returns what was taken, and the map. -/
def removeFromMap (now : Int) (remotePeer : PeerAddress) (map : Tracked T) :
    List (Number320 × Announced T) × Tracked T :=
  let (entries, map) := map.entrySet now
  let removed := entries.filterMap fun entry =>
    (entry.2.map.previous PeerKey.hashCode now remotePeer.key).map fun oldPair =>
      (entry.1, TrackerCache.create.put PeerKey.hashCode now remotePeer.key oldPair)
  -- The entries are those of the segments, and each key is in the segment of its hash.
  let left : ConcurrentCacheMap Number320 (Announced T) :=
    { map.map with segments := fun i => (map.map.segments i).filterMap fun _ entry => leftOf now remotePeer entry }
  (removed, ⟨left, map.timeToLive, map.bounded⟩)

def peerFailed (s : TrackerCaches T) (now : Int) (remotePeer : PeerAddress) : Bool × TrackerCaches T :=
  let (removedUnverified, dataMapUnverified) := removeFromMap now remotePeer s.dataMapUnverified
  let (removed, dataMap) := removeFromMap now remotePeer s.dataMap
  (!removed.isEmpty || !removedUnverified.isEmpty, { s with
    peerOffline := s.peerOffline.put Number160.hashCode now remotePeer.peerId true
    dataMapUnverified := dataMapUnverified
    dataMap := dataMap })

/-- Adds what was taken out of the other map. -/
def addAll (now : Int) (removed : List (Number320 × Announced T)) (map : Tracked T) : Tracked T :=
  removed.foldl (fun map entry =>
    (entry.2.values now).1.foldl (fun map pair => (add now entry.1 pair.1 map pair.2).2) map) map

/-- A peer was seen, first hand if there is no referrer. -/
def peerFound (s : TrackerCaches T) (now : Int) (remotePeer : PeerAddress) (referrer : Option PeerAddress) :
    Bool × TrackerCaches T :=
  if referrer.isNone then
    let (removed, dataMapUnverified) := removeFromMap now remotePeer s.dataMapUnverified
    (true, { s with
      peerOffline := s.peerOffline.remove Number160.hashCode remotePeer.peerId
      dataMapUnverified := dataMapUnverified
      dataMap := addAll now removed s.dataMap })
  else (true, s)

/-! ### Reading -/

/-- What others are given. -/
def peers (s : TrackerCaches T) (now : Int) (key : Number320) : Announced T × TrackerCaches T :=
  let (map, dataMap) := s.dataMap.get Number320.hashCode now key
  (map.getD .create, { s with dataMap := dataMap })

def trackerData (s : TrackerCaches T) (now : Int) (key : Number320) :
    List (PeerAddress × Data) × TrackerCaches T :=
  match s.dataMap.get Number320.hashCode now key with
  | (none, dataMap) => ([], { s with dataMap := dataMap })
  | (some map, dataMap) =>
      let (values, map) := map.values now
      (values, { s with dataMap := dataMap.setValue Number320.hashCode key map })

def keys (s : TrackerCaches T) (now : Int) : HashedSet Number320 × TrackerCaches T :=
  let (keySet, dataMap) := s.dataMap.keySet now
  (keySet, { s with dataMap := dataMap })

def size (s : TrackerCaches T) (now : Int) : Nat × TrackerCaches T :=
  let (size, dataMap) := s.dataMap.size now
  (size, { s with dataMap := dataMap })

def sizeUnverified (s : TrackerCaches T) (now : Int) : Nat × TrackerCaches T :=
  let (size, dataMapUnverified) := s.dataMapUnverified.size now
  (size, { s with dataMapUnverified := dataMapUnverified })

/-- Goes over the entries: the hashes of the attachments and the number of entries. -/
def countAll (entries : List (PeerKey × PeerAddress × Data)) : Number160 × Nat :=
  entries.foldl (fun (contentDigest, counter) entry => (contentDigest.xor entry.2.2.hash, counter + 1)) (.ZERO, 0)

/-- How many peers there are under a key, or whether there is the one with an id. The
    address that is looked for has no hash of its own. -/
def digest (s : TrackerCaches T) (now : Int) (locationKey domainKey : Number160) (contentKey : Option Number160) :
    TrackerDigest × TrackerCaches T :=
  let key : Number320 := ⟨locationKey, domainKey⟩
  match s.dataMap.get Number320.hashCode now key with
  | (none, dataMap) => (⟨some .ZERO, contentKey, 0⟩, { s with dataMap := dataMap })
  | (some trackerData, dataMap) =>
      let (counted, trackerData) := match contentKey with
        | some contentKey =>
            let tmpAddress : PeerAddress := { peerId := contentKey }
            let (pair, trackerData) := trackerData.get PeerKey.hashCode now tmpAddress.key
            (match pair with
              | some pair => (pair.2.hash, 1)
              | none => (.ZERO, 0), trackerData)
        | none =>
            let (entries, trackerData) := trackerData.entrySet now
            (countAll entries, trackerData)
      -- The digest that was calculated is dropped.
      (⟨some .ZERO, contentKey, counted.2⟩,
        { s with dataMap := dataMap.setValue Number320.hashCode key trackerData })

/-! ### Sequences of calls -/

inductive Call
  | put (key : Number320) (peerAddress : PeerAddress) (publicKey : Option PublicKey) (attachment : Option Data)
  | peerFound (remotePeer : PeerAddress) (referrer : Option PeerAddress)
  | peerFailed (remotePeer : PeerAddress)
  | peers (key : Number320)
  | trackerData (key : Number320)
  | keys
  | size
  | sizeUnverified
  | digest (key : Number320) (contentKey : Option Number160)

/-- The storage after a call. -/
def after (s : TrackerCaches T) (now : Int) : Call → TrackerCaches T
  | .put key peerAddress publicKey attachment => (s.put now key peerAddress publicKey attachment).2
  | .peerFound remotePeer referrer => (s.peerFound now remotePeer referrer).2
  | .peerFailed remotePeer => (s.peerFailed now remotePeer).2
  | .peers key => (s.peers now key).2
  | .trackerData key => (s.trackerData now key).2
  | .keys => (s.keys now).2
  | .size => (s.size now).2
  | .sizeUnverified => (s.sizeUnverified now).2
  | .digest key contentKey => (s.digest now key.locationKey key.domainKey contentKey).2

end TrackerCaches

/-! ### Attachments in other hands

An attachment is an object. It is not copied when it is stored, and `put` writes the public key
into it, wherever else it is stored.
-/

/-- The caches of a tracker, which hold objects, and what the objects are at present. -/
structure TrackerObjects (trackerTimeoutSeconds : BitVec 32) (O : Type) where
  caches : TrackerCaches trackerTimeoutSeconds O
  objects : O → Data

namespace TrackerObjects

open TrackerStorage (refuses)

variable {T : BitVec 32} {O : Type} [DecidableEq O]

omit [DecidableEq O] in
/-- What the object of an announcement is before the key is written into it: one that is made for an
    announcement without attachment is empty. -/
def attached (s : TrackerObjects T O) (now : Int) (attachment : Option O) : Data :=
  attachment.elim (Data.new [] (BitVec.ofInt 64 now)) s.objects

/-- An announcement at time `now`. Without attachment the object `made` is made. -/
def put (s : TrackerObjects T O) (now : Int) (key : Number320) (peerAddress : PeerAddress)
    (publicKey : Option PublicKey) (attachment : Option O) (made : O) : Bool × TrackerObjects T O :=
  match s.caches.dataMapToStore now key peerAddress fun old => refuses (s.objects old) publicKey with
  | (none, caches) => (false, { s with caches })
  | (some unverified, caches) =>
      let object := attachment.getD made
      let objects := Function.update s.objects object ((s.attached now attachment).setPublicKey publicKey)
      let (added, caches) := caches.addTo unverified now key peerAddress object
      (added, { caches, objects })

end TrackerObjects

end TomP2P
