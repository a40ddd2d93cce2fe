import TomP2P.Theory.CacheLookups

/-!
# Announcements that Take Effect

An announcement that is answered by true should be what is stored for the peer from then
on, and nothing else should change. It need not be. The pair of a peer that is there
already is put again as it is, and the new attachment is dropped, whatever map it is in.
And where a segment is full, of the peers of a key or of the keys, the eldest entry leaves
for the new one. Besides, an attachment is not copied: the key is written into the object
that is handed over, and so into what other pairs have that hold the same object.

Both is read off what one pair is found as after `add`, at the time of the call and at any
later one, in terms of what was found before it.

## Main definitions

* `TrackerCaches.held`: The pair of a peer under a key.
* `TrackerCaches.Unmissed`: Nothing is gone that would be found.
* `TrackerCaches.AddEvicts`: What leaves a map when a peer is added.
* `TrackerObjects.TakesEffect`: An announcement is stored, and changes nothing else.
* `TrackerObjects.Clear`: When it does.

## Theorems

* `TrackerCaches.held_add_self`, `TrackerCaches.held_add_of_ne`: What is found after `add`.
* `TrackerCaches.dataMapToStore_some`: Where an announcement goes.
* `TrackerObjects.takesEffect_iff`: Which announcements take effect.
* `TrackerObjects.older_attachment_stays`: The second of two announcements is dropped, and an
  attachment is changed that is stored for another peer.
-/

namespace TomP2P

namespace TrackerCaches

open TrackerStorage (TRACKER_CACHE_SIZE refuses)

variable {T : BitVec 32} {A : Type}

def held (now : Int) (key : Number320) (peer : PeerKey) (map : Tracked T A) : Option (PeerAddress × A) :=
  (map.find Number320.hashCode now key).bind fun announced => announced.find PeerKey.hashCode now peer

/-- A pair that leaves a map when a peer is added to it: one under the key that is evicted
    for a new key, or the peer that is evicted for a new one under the same key. -/
def AddEvicts (now : Int) (key : Number320) (peer : PeerKey) (map : Tracked T A) (key' : Number320)
    (peer' : PeerKey) : Prop :=
  match map.get Number320.hashCode now key with
  | (none, map) => map.map.evicts Number320.hashCode key key'
  | (some map2, _) => key' = key ∧
      ((map2.size now).2.get PeerKey.hashCode now peer).2.map.evicts PeerKey.hashCode peer peer'

section Maps

variable {now now' : Int} (hle : now ≤ now') (key key' : Number320) (peerAddress : PeerAddress) (peer' : PeerKey)
  (map : Tracked T A)

include hle in
theorem find_left : (map.get Number320.hashCode now key).2.find Number320.hashCode now' key' =
    map.find Number320.hashCode now' key' := map.find_get key key' hle

include hle in
theorem held_get : held now' key' peer' (map.get Number320.hashCode now key).2 = held now' key' peer' map := by
  rw [held, held, find_left hle]

/-- The map under a key is exchanged. -/
theorem held_setValue (announced : Announced T A) :
    held now' key' peer' (map.setValue Number320.hashCode key announced) =
      if key' = key then (map.find Number320.hashCode now' key).bind fun _ => announced.find PeerKey.hashCode now' peer'
      else held now' key' peer' map := by
  rw [held, TrackerCache.find_setValue]
  by_cases hkey : key' = key
  · rw [if_pos hkey, if_pos hkey, Option.bind_map]
    rfl
  · rw [if_neg hkey, if_neg hkey, held]

theorem findOld_fst : (findOld now key peerAddress map).1 = held now key peerAddress.key map := by
  have hget : (map.get Number320.hashCode now key).1 = map.find Number320.hashCode now key := map.get_fst key
  unfold findOld held
  rcases hfound : map.get Number320.hashCode now key with ⟨_ | announced, left⟩
  · rw [hfound] at hget
    rw [← hget, Option.bind_none]
  · rw [hfound] at hget
    rw [← hget, Option.bind_some, ← TrackerCache.get_fst]

/-- There is as much to be found under every key, now and later. -/
def Unmissed (now : Int) (map map' : Tracked T A) : Prop :=
  ∀ now', now ≤ now' → ∀ key peer, held now' key peer map' = held now' key peer map

variable {key map}

theorem unmissed_get : Unmissed now map (map.get Number320.hashCode now key).2 :=
  fun _ hle key' peer => held_get hle key key' peer map

/-- The map that was found is exchanged for one in which as much is to be found. -/
theorem unmissed_setValue {announced announced' : Announced T A}
    (hfound : (map.get Number320.hashCode now key).1 = some announced)
    (hsame : ∀ now', now ≤ now' → ∀ peer,
      announced'.find PeerKey.hashCode now' peer = announced.find PeerKey.hashCode now' peer) :
    Unmissed now map ((map.get Number320.hashCode now key).2.setValue Number320.hashCode key announced') := by
  intro now' hle key' peer
  rw [map.get_fst] at hfound
  rw [held_setValue]
  by_cases hkey : key' = key
  · rw [if_pos hkey, hkey, held, find_left hle, map.find_later key hfound now']
    split
    · exact hsame now' hle peer
    · rfl
  · rw [if_neg hkey]
    exact held_get hle key key' peer map

variable (key map)

theorem unmissed_findOld : Unmissed now map (findOld now key peerAddress map).2 := by
  unfold findOld
  rcases hfound : map.get Number320.hashCode now key with ⟨_ | announced, left⟩
  · have hleft : left = (map.get Number320.hashCode now key).2 := by rw [hfound]
    rw [hleft]
    exact unmissed_get
  · have hleft : left = (map.get Number320.hashCode now key).2 := by rw [hfound]
    dsimp only
    rw [hleft]
    exact unmissed_setValue (by rw [hfound]) fun now' hle peer => announced.find_get _ peer hle

include hle in
theorem held_findOld :
    held now' key' peer' (findOld now key peerAddress map).2 = held now' key' peer' map :=
  unmissed_findOld key peerAddress map now' hle key' peer'

variable {attachment : A} (h : (add now key peerAddress map attachment).1 = true)

include hle h in
/-- What was there stays, and is found as long as the map of the key is. -/
theorem held_add_self :
    held now' key peerAddress.key (add now key peerAddress map attachment).2 =
      if now' < now + T.toInt * 1000 ∧ now' < map.since Number320.hashCode now key + T.toInt * 1000 then
        some ((held now key peerAddress.key map).getD (peerAddress, attachment))
      else none := by
  have hget : (map.get Number320.hashCode now key).1 = map.find Number320.hashCode now key := map.get_fst key
  unfold add at h ⊢
  rcases hfound : map.get Number320.hashCode now key with ⟨_ | map2, left⟩
  · -- The key gets a map of its own.
    rw [hfound] at hget
    rw [map.since_of_none key hget.symm]
    simp only [held, ← hget, TrackerCache.find_put_self, Option.bind_none, Option.getD_none, and_self]
    by_cases hlive : now' < now + T.toInt * 1000
    · simp [hlive, TrackerCache.find_put_self]
    · simp [hlive]
  · rw [hfound] at h hget
    have hlater := map.find_later key hget.symm now'
    have hsame : left.find Number320.hashCode now' key = map.find Number320.hashCode now' key := by
      rw [← find_left hle key key map, hfound]
    by_cases hsize : TRACKER_CACHE_SIZE < (map2.size now).1
    · simp [hsize] at h
    · have hpair : ((map2.size now).2.get PeerKey.hashCode now peerAddress.key).1 =
          held now key peerAddress.key map := by
        rw [TrackerCache.get_fst, map2.find_size _ le_rfl, held, ← hget, Option.bind_some]
      simp only [hsize, if_false, held_setValue, if_true, hsame, hlater, hpair, TrackerCache.find_put_self]
      by_cases hmap : now' < map.since Number320.hashCode now key + T.toInt * 1000
      · simp [hmap]
      · simp [hmap]

include hle h in
/-- Another pair is found as before, unless it had to leave. -/
theorem held_add_of_ne (hne : ¬ (key' = key ∧ peer' = peerAddress.key)) :
    (AddEvicts now key peerAddress.key map key' peer' →
      held now' key' peer' (add now key peerAddress map attachment).2 = none) ∧
    (¬ AddEvicts now key peerAddress.key map key' peer' →
      held now' key' peer' (add now key peerAddress map attachment).2 = held now' key' peer' map) := by
  have hget : (map.get Number320.hashCode now key).1 = map.find Number320.hashCode now key := map.get_fst key
  have hleft := held_get hle key key' peer' map
  unfold AddEvicts
  unfold add at h ⊢
  rcases hfound : map.get Number320.hashCode now key with ⟨_ | map2, left⟩
  · rw [hfound] at hget hleft
    dsimp only
    by_cases hkey : key' = key
    · -- The new map has this peer only, and there was none before.
      have hpeer : peer' ≠ peerAddress.key := fun hpeer => hne ⟨hkey, hpeer⟩
      have hnone := map.find_eq_none_later key hget.symm hle
      have hnot : ¬ left.map.evicts Number320.hashCode key key := left.not_evicts_self key
      have hnew : ∀ now, (TrackerCache.create.put PeerKey.hashCode now peerAddress.key (peerAddress, attachment) :
          Announced T A).find PeerKey.hashCode now' peer' = none := by
        intro now
        rw [TrackerCache.find_put_of_ne _ _ _ _ _ hpeer]
        simp
      rw [hkey]
      refine ⟨fun hev => absurd hev hnot, fun _ => ?_⟩
      simp only [held, TrackerCache.find_put_self, hnone, Option.bind_none]
      split
      · rw [Option.bind_some, hnew]
      · rfl
    · rw [held, TrackerCache.find_put_of_ne _ _ _ _ _ hkey]
      refine ⟨fun hev => by rw [if_pos hev, Option.bind_none], fun hev => ?_⟩
      rw [if_neg hev, ← hleft, held]
  · rw [hfound] at h hget hleft
    have hlater := map.find_later key hget.symm now'
    have hsame : left.find Number320.hashCode now' key = map.find Number320.hashCode now' key := by
      rw [← find_left hle key key map, hfound]
    by_cases hsize : TRACKER_CACHE_SIZE < (map2.size now).1
    · simp [hsize] at h
    · simp only [hsize, if_false, held_setValue]
      by_cases hkey : key' = key
      · have hpeer : peer' ≠ peerAddress.key := fun hpeer => hne ⟨hkey, hpeer⟩
        simp only [hkey, if_true, true_and, hsame, held]
        rw [TrackerCache.find_put_of_ne _ _ _ _ _ hpeer, TrackerCache.find_get _ _ _ hle, map2.find_size _ hle]
        refine ⟨fun hev => by simp [hev], fun hev => ?_⟩
        rw [if_neg hev, hlater]
        split
        · rfl
        · rfl
      · simp only [hkey, if_false, false_and, false_implies, true_and, not_false_eq_true, true_implies]
        exact hleft

end Maps

theorem not_addEvicts_self (now : Int) (key : Number320) (peer : PeerKey) (map : Tracked T A) :
    ¬ AddEvicts now key peer map key peer := by
  unfold AddEvicts
  rcases map.get Number320.hashCode now key with ⟨_ | map2, left⟩
  · exact left.not_evicts_self key
  · exact fun hev => TrackerCache.not_evicts_self _ peer hev.2

/-- The segment that a key or a peer is added to is full. -/
def crowded (now : Int) (key : Number320) (peer : PeerKey) (map : Tracked T A) : Bool :=
  match map.get Number320.hashCode now key with
  | (none, map) => (CacheMap.evicted map.map.maxEntriesPerSegment
      (map.map.segments (ConcurrentCacheMap.segment Number320.hashCode key)) key).isSome
  | (some map2, _) =>
      let map2 := ((map2.size now).2.get PeerKey.hashCode now peer).2
      (CacheMap.evicted map2.map.maxEntriesPerSegment
        (map2.map.segments (ConcurrentCacheMap.segment PeerKey.hashCode peer)) peer).isSome

theorem not_addEvicts {key key' : Number320} {peer peer' : PeerKey} {now : Int} {map : Tracked T A}
    (h : crowded now key peer map = false) : ¬ AddEvicts now key peer map key' peer' := by
  revert h
  unfold crowded AddEvicts
  rcases map.get Number320.hashCode now key with ⟨_ | map2, left⟩
  · rintro h ⟨_, hev⟩
    simp [hev] at h
  · rintro h ⟨_, _, hev⟩
    simp [hev] at h

/-! ### Where an announcement goes -/

section Target

variable {s s' : TrackerCaches T A} {now : Int} {key : Number320} {peerAddress : PeerAddress} {unverified : Bool}

/-- One of the two maps. -/
def target (s : TrackerCaches T A) (unverified : Bool) : Tracked T A :=
  if unverified then s.dataMapUnverified else s.dataMap

/-- Which one an announcement goes to. -/
def goesUnverified (s : TrackerCaches T A) (now : Int) (key : Number320) (peer : PeerKey) : Bool :=
  (held now key peer s.dataMapUnverified).isSome ||
    ((held now key peer s.dataMap).isNone && s.verifyPeersOnTracker)

/-- A map that an announcement does not go to is looked into at most. -/
theorem dataMapToStore_some {refused : A → Bool}
    (h : s.dataMapToStore now key peerAddress refused = (some unverified, s')) :
    unverified = s.goesUnverified now key peerAddress.key ∧
      s'.target unverified = (findOld now key peerAddress (s.target unverified)).2 ∧
      Unmissed now (s.target !unverified) (s'.target !unverified) := by
  have hunverified : Unmissed now s.dataMapUnverified (findOld now key peerAddress s.dataMapUnverified).2 :=
    unmissed_findOld key peerAddress s.dataMapUnverified
  have hverified : Unmissed now s.dataMap (findOld now key peerAddress s.dataMap).2 :=
    unmissed_findOld key peerAddress s.dataMap
  have hgoes : s.goesUnverified now key peerAddress.key = ((findOld now key peerAddress s.dataMapUnverified).1.isSome ||
      ((findOld now key peerAddress s.dataMap).1.isNone && s.verifyPeersOnTracker)) := by
    rw [findOld_fst, findOld_fst, goesUnverified]
  rw [hgoes]
  unfold dataMapToStore at h
  rcases hoffline : s.peerOffline.containsKey Number160.hashCode now peerAddress.peerId with ⟨_ | _, peerOffline⟩
  · rcases hmap : findOld now key peerAddress s.dataMapUnverified with ⟨_ | ⟨_, oldDataUnverified⟩, map⟩
    · rw [hmap] at hunverified
      rcases hmap2 : findOld now key peerAddress s.dataMap with ⟨_ | ⟨_, oldData⟩, map2⟩
      · rw [hmap2] at hverified
        simp [hoffline, hmap, hmap2] at h
        obtain ⟨hverify, rfl⟩ := h
        cases unverified with
        | true => exact ⟨by simp [hverify], by simp [target, hmap], hverified⟩
        | false => exact ⟨by simp [hverify], by simp [target, hmap2], hunverified⟩
      · cases hrefused : refused oldData with
        | true => simp [hoffline, hmap, hmap2, hrefused] at h
        | false =>
            simp [hoffline, hmap, hmap2, hrefused] at h
            obtain ⟨rfl, rfl⟩ := h
            exact ⟨rfl, by simp [target, hmap2], hunverified⟩
    · cases hrefused : refused oldDataUnverified with
      | true => simp [hoffline, hmap, hrefused] at h
      | false =>
          simp [hoffline, hmap, hrefused] at h
          obtain ⟨rfl, rfl⟩ := h
          exact ⟨rfl, by simp [target, hmap], fun _ _ _ _ => rfl⟩
  · simp [hoffline] at h

theorem target_addTo (s : TrackerCaches T A) (unverified : Bool) (now : Int) (key : Number320)
    (peerAddress : PeerAddress) (attachment : A) :
    (s.addTo unverified now key peerAddress attachment).1 =
        (add now key peerAddress (s.target unverified) attachment).1 ∧
      (s.addTo unverified now key peerAddress attachment).2.target unverified =
        (add now key peerAddress (s.target unverified) attachment).2 ∧
      (s.addTo unverified now key peerAddress attachment).2.target (!unverified) = s.target !unverified := by
  cases unverified with
  | true | false => exact ⟨rfl, rfl, rfl⟩

end Target

end TrackerCaches

/-! ### An announcement -/

namespace TrackerObjects

open TrackerCaches TrackerStorage

variable {T : BitVec 32} {O : Type} [DecidableEq O] (s : TrackerObjects T O) (now : Int) (key : Number320)
  (peerAddress : PeerAddress) (publicKey : Option PublicKey) (attachment : Option O) (made : O)

omit [DecidableEq O] in
/-- What is stored for a peer: its address, and what its object is. -/
def stored (s : TrackerObjects T O) (now : Int) (unverified : Bool) (key : Number320) (peer : PeerKey) :
    Option (PeerAddress × Data) :=
  (held now key peer (s.caches.target unverified)).map fun pair => (pair.1, s.objects pair.2)

omit [DecidableEq O] in
/-- A value is the attachment with the key, or an empty one with the key if there is none. -/
def Announces (s : TrackerObjects T O) (publicKey : Option PublicKey) (attachment : Option O) (data : Data) : Prop :=
  match attachment with
  | some object => data = (s.objects object).setPublicKey publicKey
  | none => ∃ validFromMillis, data = (Data.new [] validFromMillis).setPublicKey publicKey

/-- An announcement is what its map then has for the peer, and no other pair has changed. -/
structure TakesEffect : Prop where
  stored : ∃ pair, (s.put now key peerAddress publicKey attachment made).2.stored now
      (s.caches.goesUnverified now key peerAddress.key) key peerAddress.key = some pair ∧
    s.Announces publicKey attachment pair.2
  others : ∀ key' peer', ¬ (key' = key ∧ peer' = peerAddress.key) → ∀ unverified,
    (s.put now key peerAddress publicKey attachment made).2.stored now unverified key' peer' =
      s.stored now unverified key' peer'

/-- There is nothing stored for the peer that would stay instead, nothing that is not
    expired has to leave for it, the tracker keeps what it stores, and no other pair has the object
    unless that has the key already. -/
structure Clear : Prop where
  timeout : 0 < T.toInt
  new : ∀ pair ∈ held now key peerAddress.key (s.caches.target (s.caches.goesUnverified now key peerAddress.key)),
    pair.2 = attachment.getD made ∨ s.Announces publicKey attachment (s.objects pair.2)
  room : ∀ key' peer', AddEvicts now key peerAddress.key
      (findOld now key peerAddress (s.caches.target (s.caches.goesUnverified now key peerAddress.key))).2 key' peer' →
    held now key' peer' (s.caches.target (s.caches.goesUnverified now key peerAddress.key)) = none
  apart : ∀ key' peer', ¬ (key' = key ∧ peer' = peerAddress.key) → ∀ unverified,
    ∀ pair ∈ held now key' peer' (s.caches.target unverified), pair.2 = attachment.getD made →
      s.objects pair.2 = (s.attached now attachment).setPublicKey publicKey

variable {s now key peerAddress publicKey attachment made}

/-- An announcement that is answered by true was added to its map with its object, into which the key
    was written, and the other map is as it was. -/
theorem put_accepted (h : (s.put now key peerAddress publicKey attachment made).1 = true) :
    add now key peerAddress
        (findOld now key peerAddress (s.caches.target (s.caches.goesUnverified now key peerAddress.key))).2
        (attachment.getD made) =
      (true, (s.put now key peerAddress publicKey attachment made).2.caches.target
        (s.caches.goesUnverified now key peerAddress.key)) ∧
    Unmissed now (s.caches.target !s.caches.goesUnverified now key peerAddress.key)
      ((s.put now key peerAddress publicKey attachment made).2.caches.target
        !s.caches.goesUnverified now key peerAddress.key) ∧
    (s.put now key peerAddress publicKey attachment made).2.objects =
      Function.update s.objects (attachment.getD made) ((s.attached now attachment).setPublicKey publicKey) := by
  unfold put at h ⊢
  rcases hto : s.caches.dataMapToStore now key peerAddress fun old => refuses (s.objects old) publicKey with
    ⟨_ | unverified, caches⟩
  · rw [hto] at h
    cases h
  · rw [hto] at h
    obtain ⟨rfl, htarget, hother⟩ := dataMapToStore_some hto
    obtain ⟨hadded, hmap, hkept⟩ := target_addTo caches (s.caches.goesUnverified now key peerAddress.key) now key
      peerAddress (attachment.getD made)
    rw [htarget] at hadded hmap
    refine ⟨Prod.ext (hadded.symm.trans h) hmap.symm, ?_, rfl⟩
    dsimp only
    rw [hkept]
    exact hother

omit [DecidableEq O] in
/-- What is written into the object is what is announced. -/
theorem announces_attached : s.Announces publicKey attachment ((s.attached now attachment).setPublicKey publicKey) := by
  cases attachment with
  | none => exact ⟨_, rfl⟩
  | some object => rfl

/-- An announcement that is answered by true takes effect if nothing is in its way, and
    only then. -/
theorem takesEffect_iff (h : (s.put now key peerAddress publicKey attachment made).1 = true) :
    s.TakesEffect now key peerAddress publicKey attachment made ↔
      s.Clear now key peerAddress publicKey attachment made := by
  rcases put_accepted h with ⟨hadd, hother, hobjects⟩
  generalize hgoes : s.caches.goesUnverified now key peerAddress.key = unverified at hadd hother
  have hfst : (add now key peerAddress (findOld now key peerAddress (s.caches.target unverified)).2
      (attachment.getD made)).1 = true := by rw [hadd]
  -- The pair of the peer.
  have hself := held_add_self le_rfl key peerAddress _ hfst
  rw [hadd, held_findOld le_rfl] at hself
  -- The other pairs of this map.
  have hne (key' : Number320) (peer' : PeerKey) (hne : ¬ (key' = key ∧ peer' = peerAddress.key)) :=
    held_add_of_ne le_rfl key key' peerAddress peer' _ hfst hne
  rw [hadd] at hne
  simp only [held_findOld le_rfl] at hne
  -- The objects.
  have hsame (object : O) (hob : object ≠ attachment.getD made) :
      (s.put now key peerAddress publicKey attachment made).2.objects object = s.objects object := by
    rw [hobjects, Function.update_of_ne hob]
  have hwritten : (s.put now key peerAddress publicKey attachment made).2.objects (attachment.getD made) =
      (s.attached now attachment).setPublicKey publicKey := by
    rw [hobjects, Function.update_self]
  -- If nobody is evicted, the other pairs are held as before.
  have hheld (hroom : ∀ key' peer', AddEvicts now key peerAddress.key
      (findOld now key peerAddress (s.caches.target unverified)).2 key' peer' →
        held now key' peer' (s.caches.target unverified) = none) (key' : Number320) (peer' : PeerKey)
      (hdiff : ¬ (key' = key ∧ peer' = peerAddress.key)) (map : Bool) :
      held now key' peer' ((s.put now key peerAddress publicKey attachment made).2.caches.target map) =
        held now key' peer' (s.caches.target map) := by
    by_cases hmap : map = unverified
    · rw [hmap]
      by_cases hev : AddEvicts now key peerAddress.key
          (findOld now key peerAddress (s.caches.target unverified)).2 key' peer'
      · rw [(hne key' peer' hdiff).1 hev, hroom key' peer' hev]
      · exact (hne key' peer' hdiff).2 hev
    · rw [Bool.eq_not_of_ne hmap]
      exact hother now le_rfl key' peer'
  constructor
  · intro heffect
    obtain ⟨pair, hstored, hannounces⟩ := heffect.stored
    rw [stored, hgoes, hself] at hstored
    have hlive : now < now + T.toInt * 1000 ∧
        now < (findOld now key peerAddress (s.caches.target unverified)).2.since Number320.hashCode now key +
          T.toInt * 1000 := by
      by_contra hlive
      rw [if_neg hlive] at hstored
      cases hstored
    rw [if_pos hlive] at hstored
    have hkeep (key' : Number320) (peer' : PeerKey) (hdiff : ¬ (key' = key ∧ peer' = peerAddress.key))
        (map : Bool) := heffect.others key' peer' hdiff map
    have hroom : ∀ key' peer', AddEvicts now key peerAddress.key
        (findOld now key peerAddress (s.caches.target unverified)).2 key' peer' →
          held now key' peer' (s.caches.target unverified) = none := by
      intro key' peer' hev
      by_cases hpair : key' = key ∧ peer' = peerAddress.key
      · rw [hpair.1, hpair.2] at hev
        exact absurd hev (not_addEvicts_self now key peerAddress.key _)
      · have hgone := hkeep key' peer' hpair unverified
        rw [stored, stored, (hne key' peer' hpair).1 hev, Option.map_none] at hgone
        exact Option.map_eq_none_iff.mp hgone.symm
    refine ⟨by omega, ?_, ?_, ?_⟩
    · intro old hold
      rw [hgoes] at hold
      rw [hold, Option.getD_some, Option.map_some] at hstored
      cases hstored
      by_cases hob : old.2 = attachment.getD made
      · exact .inl hob
      · rw [hsame _ hob] at hannounces
        exact .inr hannounces
    · rw [hgoes]
      exact hroom
    · intro key' peer' hdiff map old hold hob
      have hkept := hkeep key' peer' hdiff map
      have hstays := (hheld hroom key' peer' hdiff map).trans hold
      rw [stored, stored, hstays, hold, Option.map_some, Option.map_some, hob, hwritten] at hkept
      rw [hob]
      exact (congrArg Prod.snd (Option.some.inj hkept)).symm
  · intro hclear
    have hT := hclear.timeout
    have hnew := hclear.new
    have hroom := hclear.room
    rw [hgoes] at hnew hroom
    refine ⟨?_, ?_⟩
    · have hlive : now < (findOld now key peerAddress (s.caches.target unverified)).2.since Number320.hashCode now key +
          T.toInt * 1000 := TrackerCache.lt_since_add _ key hT
      rw [stored, hgoes, hself, if_pos ⟨by omega, hlive⟩]
      cases hpair : held now key peerAddress.key (s.caches.target unverified) with
      | none =>
          refine ⟨_, rfl, ?_⟩
          dsimp only [Option.getD_none]
          rw [hwritten]
          exact announces_attached
      | some pair =>
          refine ⟨_, rfl, ?_⟩
          dsimp only [Option.getD_some]
          by_cases hob : pair.2 = attachment.getD made
          · rw [hob, hwritten]
            exact announces_attached
          · rw [hsame _ hob]
            exact (hnew pair hpair).resolve_left hob
    · intro key' peer' hdiff map
      rw [stored, stored, hheld hroom key' peer' hdiff map]
      refine Option.map_congr ?_
      intro pair hpair
      by_cases hob : pair.2 = attachment.getD made
      · have hkey := hclear.apart key' peer' hdiff map pair hpair hob
        rw [hkey, hob, hwritten]
      · rw [hsame _ hob]

section Examples

/-- Attachments of one byte each, into which no key was written but the missing one. -/
def attachments (n : Nat) : Data := (Data.new [BitVec.ofNat 8 n] 0).setPublicKey none

/-- The peer with the id 7 was announced with attachment 0. -/
def announcedOnce : TrackerObjects 60 Nat :=
  (put ⟨.create 60 false, attachments⟩ 0 ⟨.ZERO, .ZERO⟩ { peerId := 7, hashCode := 7 } none (some 0) 9).2

/-- The announcement of another peer takes effect. -/
theorem takesEffect_second :
    announcedOnce.TakesEffect 1000 ⟨.ZERO, .ZERO⟩ { peerId := 8, hashCode := 8 } none (some 1) 9 := by
  refine (takesEffect_iff (by decide +kernel)).mpr ⟨by decide, ?_, ?_, ?_⟩
  · have hnone : held 1000 ⟨.ZERO, .ZERO⟩ (PeerAddress.key { peerId := 8, hashCode := 8 })
        (announcedOnce.caches.target (announcedOnce.caches.goesUnverified 1000 ⟨.ZERO, .ZERO⟩
          (PeerAddress.key { peerId := 8, hashCode := 8 }))) = none := by decide +kernel
    rw [hnone]
    exact fun pair hpair => by cases hpair
  · exact fun key' peer' hev => absurd hev (not_addEvicts (by decide +kernel))
  · intro key' peer' _ unverified pair _ hob
    rw [hob]
    rfl

/-- A peer announces itself a second time with another attachment: the answer is true, and the first
    one stays. A peer is announced with the attachment of another one and a key: the attachment
    of the other one has the key as well. -/
theorem older_attachment_stays :
    (∃ (s : TrackerObjects 60 Nat) (now : Int) (key : Number320) (peerAddress : PeerAddress) (attachment : Nat),
      (s.put now key peerAddress none (some attachment) 9).1 = true ∧
        ¬ s.TakesEffect now key peerAddress none (some attachment) 9) ∧
    ∃ (s : TrackerObjects 60 Nat) (now : Int) (key : Number320) (peerAddress : PeerAddress) (publicKey : PublicKey)
      (attachment : Nat), (s.put now key peerAddress (some publicKey) (some attachment) 9).1 = true ∧
        ¬ s.TakesEffect now key peerAddress (some publicKey) (some attachment) 9 := by
  constructor
  · refine ⟨announcedOnce, 1000, ⟨.ZERO, .ZERO⟩, { peerId := 7, hashCode := 7 }, 1, by decide +kernel, ?_⟩
    intro heffect
    obtain ⟨pair, hstored, hannounces⟩ := heffect.stored
    have hold : (announcedOnce.put 1000 ⟨.ZERO, .ZERO⟩ { peerId := 7, hashCode := 7 } none (some 1) 9).2.stored 1000
        (announcedOnce.caches.goesUnverified 1000 ⟨.ZERO, .ZERO⟩ (PeerAddress.key { peerId := 7, hashCode := 7 }))
        ⟨.ZERO, .ZERO⟩ (PeerAddress.key { peerId := 7, hashCode := 7 }) =
          some ({ peerId := 7, hashCode := 7 }, attachments 0) := by decide +kernel
    rw [hold] at hstored
    cases hstored
    exact absurd hannounces (by decide : attachments 0 ≠ (attachments 1).setPublicKey none)
  · refine ⟨announcedOnce, 1000, ⟨.ZERO, .ZERO⟩, { peerId := 8, hashCode := 8 }, .encoded [1], 0, by decide +kernel, ?_⟩
    intro heffect
    have hkept := heffect.others ⟨.ZERO, .ZERO⟩ (PeerAddress.key { peerId := 7, hashCode := 7 }) (by decide) false
    revert hkept
    decide +kernel

end Examples

end TrackerObjects

end TomP2P
