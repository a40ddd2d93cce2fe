import TomP2P.Theory.TrackerAnnouncement

/-!
# How Long Announcements Live

A peer that was announced should be among the peers of the key until its time is over,
whatever other calls there are, unless it has failed. In a tracker that does not verify its
peers all announcements are in one map, and only the announcements themselves have an
influence: reading takes out what is expired, and the failure of a peer takes out this
peer and what is empty then.

An announcement sets the time of the peer, but not that of the map that the peers of the
key are in. This map has the time of the announcement it was made for, and when it expires
all its peers are gone. So an announcement lives for its full time if the map of its key
is made for it, or was made at this very time. If there is an older one then it does not.

## Main definitions

* `TrackerSystem`: A storage, the time, and who was announced when.
* `TrackerSystem.Reports`: The peers whose time is not over are given to others.
* `TrackerSystem.Renews`: An announcement does not go to an older map.

## Theorems

* `TrackerCaches.held_removeFromMap`: A peer that failed leaves the others.
* `TrackerSystem.kept_step`: Every step keeps what is announced.
* `TrackerSystem.reports_of_renewed`: Every run.
* `TrackerSystem.renewed_announcement_lost`: A peer that announces itself again.
-/

namespace TomP2P

namespace TrackerCaches

open TrackerStorage (TRACKER_CACHE_SIZE refuses)

variable {T : BitVec 32} {now now' : Int}

/-! ### Peers that fail -/

theorem held_removeFromMap (hle : now ≤ now') (key : Number320) {peer : PeerKey} {remotePeer : PeerAddress}
    (hne : peer ≠ remotePeer.key) (map : Tracked T) :
    held now' key peer (removeFromMap now remotePeer map).2 = held now' key peer map := by
  have hentry : (removeFromMap now remotePeer map).2.map.entry Number320.hashCode key =
      ((map.entrySet now).2.map.entry Number320.hashCode key).bind (leftOf now remotePeer) := by
    unfold ConcurrentCacheMap.entry removeFromMap
    exact HashedMap.get_filterMap _ _ key
  have hsame : held now' key peer (map.entrySet now).2 = held now' key peer map := by
    rw [held, held, map.find_entrySet key hle]
  rw [← hsame, held, held, TrackerCache.find_eq, TrackerCache.find_eq, hentry]
  cases (map.entrySet now).2.map.entry Number320.hashCode key with
  | none => rfl
  | some entry =>
      have hremove : ((entry.1.remove PeerKey.hashCode remotePeer.key)).find PeerKey.hashCode now' peer =
          entry.1.find PeerKey.hashCode now' peer := by
        rw [TrackerCache.find_remove, if_neg hne]
      have hleft : ((entry.1.remove PeerKey.hashCode remotePeer.key).isEmpty now).2.find PeerKey.hashCode now' peer =
          entry.1.find PeerKey.hashCode now' peer := by
        rw [TrackerCache.find_isEmpty _ _ hle, hremove]
      rcases hempty : (entry.1.remove PeerKey.hashCode remotePeer.key).isEmpty now with ⟨_ | _, announced⟩
      · rw [hempty] at hleft
        by_cases hlive : now' < entry.2 + T.toInt * 1000
        · simp [leftOf, hempty, Option.filter, hlive, hleft]
        · simp [leftOf, hempty, Option.filter, hlive]
      · -- Nobody else was there, now or later.
        have hnone : entry.1.find PeerKey.hashCode now' peer = none := by
          rw [← hremove]
          refine TrackerCache.find_eq_none_later _ peer ?_ hle
          exact ConcurrentCacheMap.previous_of_isEmpty _ now (congrArg Prod.fst hempty) peer
        by_cases hlive : now' < entry.2 + T.toInt * 1000
        · simp [leftOf, hempty, Option.filter, hlive, hnone]
        · simp [leftOf, hempty, Option.filter, hlive]

/-! ### A storage that does not verify -/

/-- The peers are not verified, and there are none that would have to be. -/
structure Direct (s : TrackerCaches T) : Prop where
  verify : s.verifyPeersOnTracker = false
  unverified : s.dataMapUnverified = .create

/-- The tests of an announcement that is refused. -/
def Refused (s : TrackerCaches T) (now : Int) (key : Number320) (peerAddress : PeerAddress)
    (publicKey : Option PublicKey) : Prop :=
  (s.peerOffline.containsKey Number160.hashCode now peerAddress.peerId).1 = true ∨
    ∃ pair ∈ held now key peerAddress.key s.dataMap, refuses pair.2 publicKey = true

variable {s : TrackerCaches T} {key : Number320} {peerAddress : PeerAddress} {publicKey : Option PublicKey}
  {attachment : Option Data}

theorem since_findOld (map : Tracked T) :
    (findOld now key peerAddress map).2.since Number320.hashCode now key = map.since Number320.hashCode now key := by
  have hleft : (map.get Number320.hashCode now key).2.since Number320.hashCode now key =
      map.since Number320.hashCode now key := map.since_get key key
  unfold findOld
  rcases hfound : map.get Number320.hashCode now key with ⟨_ | announced, left⟩
  · rw [hfound] at hleft
    exact hleft
  · rw [hfound] at hleft
    rw [← hleft]
    exact left.since_setValue key key _

theorem unmissed_add (map : Tracked T) {attachment : Data} (h : (add now key peerAddress map attachment).1 = false) :
    Unmissed now map (add now key peerAddress map attachment).2 := by
  unfold add at h ⊢
  rcases hfound : map.get Number320.hashCode now key with ⟨_ | map2, left⟩
  · simp [hfound] at h
  · rw [hfound] at h
    have hleft : left = (map.get Number320.hashCode now key).2 := by rw [hfound]
    by_cases hsize : TRACKER_CACHE_SIZE < (map2.size now).1
    · simp only [hsize, if_true]
      rw [hleft]
      exact unmissed_setValue (by rw [hfound]) fun now' hle peer => map2.find_size peer hle
    · simp [hsize] at h

/-! #### Calls -/

theorem Unmissed.trans {map map' map'' : Tracked T} (h : Unmissed now map map') (h' : Unmissed now map' map'') :
    Unmissed now map map'' :=
  fun now' hle key peer => (h' now' hle key peer).trans (h now' hle key peer)

/-- An announcement is refused, or is added to the one map. -/
theorem Direct.put_cases (hs : s.Direct) :
    (s.Refused now key peerAddress publicKey ∧ (s.put now key peerAddress publicKey attachment).1 = false ∧
      ∃ map peerOffline, (map = s.dataMap ∨ map = (findOld now key peerAddress s.dataMap).2) ∧
        (s.put now key peerAddress publicKey attachment).2 =
          { s with dataMap := map, peerOffline := peerOffline }) ∨
    (¬ s.Refused now key peerAddress publicKey ∧ ∃ peerOffline, s.put now key peerAddress publicKey attachment =
      ((add now key peerAddress (findOld now key peerAddress s.dataMap).2 (announced now publicKey attachment)).1, { s with
        dataMap :=
          (add now key peerAddress (findOld now key peerAddress s.dataMap).2 (announced now publicKey attachment)).2
        peerOffline := peerOffline })) := by
  rcases s with ⟨dataMapUnverified, dataMap, peerOffline, verify⟩
  rcases hs with ⟨rfl, rfl⟩
  have hcreate : findOld now key peerAddress (.create : Tracked T) = (none, .create) := rfl
  have hheld : (findOld now key peerAddress dataMap).1 = held now key peerAddress.key dataMap :=
    findOld_fst key peerAddress dataMap
  unfold put dataMapToStore Refused
  dsimp only
  rw [← hheld, hcreate]
  rcases peerOffline.containsKey Number160.hashCode now peerAddress.peerId with ⟨_ | _, left⟩
  · rcases findOld now key peerAddress dataMap with ⟨_ | ⟨_, oldData⟩, map⟩
    · exact .inr ⟨by simp, left, rfl⟩
    · cases hrefuses : refuses oldData publicKey with
      | true => exact .inl ⟨by simp [hrefuses], by simp [hrefuses], map, left, .inr rfl, by simp [hrefuses]⟩
      | false => exact .inr ⟨by simp [hrefuses], left, by simp [hrefuses, addTo]⟩
  · exact .inl ⟨.inl rfl, rfl, dataMap, left, .inl rfl, rfl⟩

theorem removeFromMap_create (remotePeer : PeerAddress) :
    removeFromMap now remotePeer (.create : Tracked T) = ([], .create) := by
  have hentries : (TrackerCache.create : Tracked T).entrySet now = ([], .create) := rfl
  unfold removeFromMap
  rw [hentries]
  rfl

/-- There is no one to be moved from the other map. -/
theorem Direct.peerFound_eq (hs : s.Direct) (remotePeer : PeerAddress) (referrer : Option PeerAddress) :
    ((s.peerFound now remotePeer referrer).2).Direct ∧ (s.peerFound now remotePeer referrer).2.dataMap = s.dataMap := by
  cases referrer with
  | some referrer => exact ⟨hs, rfl⟩
  | none =>
      simp only [peerFound, Option.isNone_none, if_true, hs.unverified, removeFromMap_create]
      exact ⟨⟨hs.verify, rfl⟩, rfl⟩

theorem Direct.after (hs : s.Direct) (call : Call) : (s.after now call).Direct := by
  cases call with
  | put key peerAddress publicKey attachment =>
      rcases hs.put_cases with ⟨_, _, map, peerOffline, _, hput⟩ | ⟨_, peerOffline, hput⟩
      · rw [TrackerCaches.after, hput]
        exact ⟨hs.verify, hs.unverified⟩
      · rw [TrackerCaches.after, hput]
        exact ⟨hs.verify, hs.unverified⟩
  | peerFound remotePeer referrer => exact (hs.peerFound_eq remotePeer referrer).1
  | peerFailed remotePeer =>
      refine ⟨hs.verify, ?_⟩
      simp only [TrackerCaches.after, peerFailed, hs.unverified, removeFromMap_create]
  | trackerData key =>
      simp only [TrackerCaches.after, trackerData]
      split
      · exact ⟨hs.verify, hs.unverified⟩
      · exact ⟨hs.verify, hs.unverified⟩
  | sizeUnverified =>
      refine ⟨hs.verify, ?_⟩
      simp only [TrackerCaches.after, sizeUnverified, hs.unverified]
      rfl
  | digest key contentKey =>
      simp only [TrackerCaches.after, digest]
      split
      · exact ⟨hs.verify, hs.unverified⟩
      · exact ⟨hs.verify, hs.unverified⟩
  | peers key | keys | size => exact ⟨hs.verify, hs.unverified⟩

/-- A call that reads, or that makes a peer known. -/
def Call.Reads : Call → Prop
  | .put .. => False
  | .peerFailed _ => False
  | _ => True

theorem Direct.unmissed_reads (hs : s.Direct) {call : Call} (hreads : call.Reads) :
    Unmissed now s.dataMap (s.after now call).dataMap := by
  cases call with
  | put | peerFailed => exact hreads.elim
  | peerFound remotePeer referrer =>
      intro now' _ key' peer
      rw [TrackerCaches.after, (hs.peerFound_eq remotePeer referrer).2]
  | peers key => exact unmissed_get
  | trackerData key =>
      simp only [TrackerCaches.after, trackerData]
      rcases hfound : s.dataMap.get Number320.hashCode now key with ⟨_ | announced, left⟩
      · rw [show left = (s.dataMap.get Number320.hashCode now key).2 by rw [hfound]]
        exact unmissed_get
      · rw [show left = (s.dataMap.get Number320.hashCode now key).2 by rw [hfound]]
        exact unmissed_setValue (by rw [hfound]) fun now' hle peer => announced.find_values peer hle
  | keys => exact fun now' hle key peer => by rw [held, held, TrackerCaches.after, keys, TrackerCache.find_keySet _ _ hle]
  | size => exact fun now' hle key peer => by rw [held, held, TrackerCaches.after, size, TrackerCache.find_size _ _ hle]
  | sizeUnverified => exact fun _ _ _ _ => rfl
  | digest key contentKey =>
      simp only [TrackerCaches.after, digest]
      rcases hfound : s.dataMap.get Number320.hashCode now key with ⟨_ | announced, left⟩
      · rw [show left = (s.dataMap.get Number320.hashCode now key).2 by rw [hfound]]
        exact unmissed_get
      · rw [show left = (s.dataMap.get Number320.hashCode now key).2 by rw [hfound]]
        refine unmissed_setValue (by rw [hfound]) fun now' hle peer => ?_
        cases contentKey with
        | none => exact announced.find_entrySet peer hle
        | some contentKey => exact announced.find_get _ peer hle

end TrackerCaches

/-! ### Runs -/

/-- A storage, the time, and when a peer was announced under a key last, if it has not
    failed since. -/
structure TrackerSystem (trackerTimeoutSeconds : BitVec 32) where
  storage : TrackerCaches trackerTimeoutSeconds
  clock : Int
  announced : Number320 → PeerKey → Option Int

namespace TrackerSystem

open TrackerCaches

variable {T : BitVec 32}

/-- Who is announced after a call. -/
def announcedBy (s : TrackerSystem T) (now : Int) : Call → Number320 → PeerKey → Option Int
  | .put key peerAddress publicKey attachment, key', peer =>
      if (s.storage.put now key peerAddress publicKey attachment).1 = true ∧ key' = key ∧ peer = peerAddress.key then
        some now
      else s.announced key' peer
  | .peerFailed remotePeer, key', peer => if peer = remotePeer.key then none else s.announced key' peer
  | _, key', peer => s.announced key' peer

/-- A call at a time, which is not before the last one. -/
def step (s : TrackerSystem T) (e : Int × Call) : Option (TrackerSystem T) :=
  if e.1 < s.clock then none
  else some ⟨s.storage.after e.1 e.2, e.1, s.announcedBy e.1 e.2⟩

/-- A storage that was made just now, and does not verify its peers. -/
def Fresh (s : TrackerSystem T) : Prop := s.storage = create T false ∧ s.announced = fun _ _ => none

/-- Nothing is evicted for an announcement. -/
def Fits (s : TrackerSystem T) (e : Int × Call) : Prop :=
  match e.2 with
  | .put key peerAddress publicKey _ => s.storage.Refused e.1 key peerAddress publicKey ∨
      crowded e.1 key peerAddress.key (findOld e.1 key peerAddress s.storage.dataMap).2 = false
  | _ => True

/-- The map of the key is made for an announcement, or was made at the same time. -/
def Renews (s : TrackerSystem T) (e : Int × Call) : Prop :=
  match e.2 with
  | .put key peerAddress publicKey _ => s.storage.Refused e.1 key peerAddress publicKey ∨
      s.storage.dataMap.since Number320.hashCode e.1 key = e.1
  | _ => True

/-- Who is announced is among the peers of the key until its time is over. -/
def Reports (s : TrackerSystem T) : Prop :=
  ∀ key peer t, s.announced key peer = some t → ∀ now, s.clock ≤ now → now < t + T.toInt * 1000 →
    ((s.storage.peers now key).1.get PeerKey.hashCode now peer).1 ≠ none

/-- The storage is one that does not verify, and keeps what is announced. -/
structure Kept (s : TrackerSystem T) : Prop where
  direct : s.storage.Direct
  held : ∀ key peer t, s.announced key peer = some t → ∀ now, s.clock ≤ now → now < t + T.toInt * 1000 →
    held now key peer s.storage.dataMap ≠ none

variable {s s' : TrackerSystem T} {now : Int} {call : Call}

theorem peers_get (s : TrackerCaches T) (now : Int) (key : Number320) (peer : PeerKey) :
    ((s.peers now key).1.get PeerKey.hashCode now peer).1 = TrackerCaches.held now key peer s.dataMap := by
  rw [TrackerCache.get_fst, peers, TrackerCaches.held]
  dsimp only
  rw [TrackerCache.get_fst]
  cases s.dataMap.find Number320.hashCode now key with
  | none => rfl
  | some announced => rfl

theorem Kept.reports (h : s.Kept) : s.Reports := by
  intro key peer t ht now hle hlt
  rw [peers_get]
  exact h.held key peer t ht now hle hlt

/-- Nothing that is announced is lost where as much is found as before. -/
theorem Kept.of_unmissed (h : s.Kept) (hle : s.clock ≤ now) (hunmissed : Unmissed now s.storage.dataMap (s.storage.after now call).dataMap)
    (hsame : s.announcedBy now call = s.announced) : Kept ⟨s.storage.after now call, now, s.announcedBy now call⟩ := by
  refine ⟨h.direct.after call, ?_⟩
  intro key peer t ht now' hle' hlt
  rw [hunmissed now' hle' key peer]
  dsimp only at ht hle'
  rw [hsame] at ht
  exact h.held key peer t ht now' (by omega) hlt

theorem Kept.put (h : s.Kept) (hle : s.clock ≤ now) {key : Number320} {peerAddress : PeerAddress}
    {publicKey : Option PublicKey} {attachment : Option Data}
    (hfits : s.Fits (now, .put key peerAddress publicKey attachment))
    (hrenews : s.Renews (now, .put key peerAddress publicKey attachment)) :
    Kept ⟨s.storage.after now (.put key peerAddress publicKey attachment), now,
      s.announcedBy now (.put key peerAddress publicKey attachment)⟩ := by
  rcases h.direct.put_cases with ⟨hrefused, hfalse, map, peerOffline, hmap, hput⟩ | ⟨hnot, peerOffline, hput⟩
  · refine h.of_unmissed hle ?_ ?_
    · rw [after, hput]
      rcases hmap with rfl | rfl
      · exact fun _ _ _ _ => rfl
      · exact unmissed_findOld _ _ s.storage.dataMap
    · funext key' peer
      simp [announcedBy, hfalse]
  · cases hadd : (add now key peerAddress (findOld now key peerAddress s.storage.dataMap).2
        (TrackerCaches.announced now publicKey attachment)).1 with
    | false =>
        refine h.of_unmissed hle ?_ ?_
        · rw [after, hput]
          exact (unmissed_findOld _ _ s.storage.dataMap).trans (unmissed_add _ hadd)
        · funext key' peer
          simp [announcedBy, hput, hadd]
    | true =>
        have hroom := hfits.resolve_left hnot
        have htime := hrenews.resolve_left hnot
        have hdirect : (s.storage.after now (.put key peerAddress publicKey attachment)).Direct := h.direct.after _
        refine ⟨hdirect, ?_⟩
        intro key' peer t ht now' hle' hlt
        dsimp only at hle'
        simp only [announcedBy, hput, hadd, true_and] at ht
        rw [after, hput]
        by_cases hself : key' = key ∧ peer = peerAddress.key
        · -- Both the peer and the map of the key are of this time.
          rw [if_pos hself] at ht
          have ht := Option.some.inj ht
          rw [hself.1, hself.2, held_add_self hle' key peerAddress _ hadd, since_findOld, htime, if_pos (by omega)]
          simp
        · rw [if_neg hself] at ht
          rw [(held_add_of_ne hle' key key' peerAddress peer _ hadd hself).2 (not_addEvicts hroom),
            held_findOld hle']
          exact h.held key' peer t ht now' (by omega) hlt

theorem kept_step {e : Int × Call} (h : s.Kept) (hfits : s.Fits e) (hrenews : s.Renews e) (hstep : s.step e = some s') :
    s'.Kept := by
  rcases e with ⟨now, call⟩
  unfold step at hstep
  by_cases hlt : now < s.clock
  · simp [hlt] at hstep
  · rw [if_neg hlt] at hstep
    rw [← Option.some.inj hstep]
    have hle : s.clock ≤ now := by omega
    cases call with
    | put key peerAddress publicKey attachment => exact h.put hle hfits hrenews
    | peerFailed remotePeer =>
        have hdirect : (s.storage.after now (.peerFailed remotePeer)).Direct := h.direct.after _
        refine ⟨hdirect, ?_⟩
        intro key peer t ht now' hle' hlt'
        simp only [announcedBy] at ht
        by_cases hpeer : peer = remotePeer.key
        · simp [hpeer] at ht
        · rw [if_neg hpeer] at ht
          simp only [after, peerFailed, held_removeFromMap hle' key hpeer]
          exact h.held key peer t ht now' (by dsimp only at hle'; omega) hlt'
    | peerFound | peers | trackerData | keys | size | sizeUnverified | digest =>
        exact h.of_unmissed hle (h.direct.unmissed_reads trivial) rfl

theorem Fresh.kept (h : s.Fresh) : s.Kept := by
  rcases h with ⟨hstorage, hannounced⟩
  refine ⟨?_, ?_⟩
  · rw [hstorage]
    exact ⟨rfl, rfl⟩
  · intro key peer t ht
    rw [hannounced] at ht
    simp at ht

/-- In every run in which nothing is evicted, and in which no announcement goes to an older
    map, all announcements live for their full time. -/
theorem reports_of_renewed (h : Reached step (fun s e => s.Fits e ∧ s.Renews e) Fresh s) : s.Reports := by
  refine Kept.reports (h.invariant Kept (fun _ hfresh => hfresh.kept) ?_)
  intro s e s' hkept hcond hstep
  exact kept_step hkept hcond.1 hcond.2 hstep

/-- Two peers announce themselves for one key at the same time, and one of them for another key
    later. -/
theorem reports_of_renewed_three :
    let peer (id : Number160) : PeerAddress := { peerId := id, hashCode := id.hashCode }
    let call (key : Number320) (id : Number160) : Call := .put key (peer id) none none
    let after (s : TrackerSystem 60) (now : Int) (call : Call) : TrackerSystem 60 :=
      ⟨s.storage.after now call, now, s.announcedBy now call⟩
    let s₀ : TrackerSystem 60 := ⟨create 60 false, 0, fun _ _ => none⟩
    let s₃ := after (after (after s₀ 0 (call ⟨1, 1⟩ 7)) 0 (call ⟨1, 1⟩ 8)) 30000 (call ⟨1, 2⟩ 7)
    Reached step (fun s e => s.Fits e ∧ s.Renews e) Fresh s₃ ∧
      [s₃.announced ⟨1, 1⟩ (peer 7).key, s₃.announced ⟨1, 1⟩ (peer 8).key, s₃.announced ⟨1, 2⟩ (peer 7).key] =
        [some 0, some 0, some 30000] ∧
      s₃.Reports := by
  intro peer call after s₀ s₃
  have h₀ : Reached step (fun s e => s.Fits e ∧ s.Renews e) Fresh s₀ := .start ⟨rfl, rfl⟩
  have h₁ := h₀.next (e := (0, call ⟨1, 1⟩ 7)) ⟨.inr (by decide +kernel), .inr rfl⟩ rfl
  have h₂ := h₁.next (e := (0, call ⟨1, 1⟩ 8)) ⟨.inr (by decide +kernel), .inr (by decide +kernel)⟩ rfl
  have h₃ := h₂.next (e := (30000, call ⟨1, 2⟩ 7)) ⟨.inr (by decide +kernel), .inr (by decide +kernel)⟩ rfl
  exact ⟨h₃, by decide +kernel, reports_of_renewed h₃⟩

/-- A peer announces itself, and again after half of the time. When the time of the first
    announcement is over the key has no peers. -/
theorem renewed_announcement_lost :
    ∃ s : TrackerSystem 60, Reached step Fits Fresh s ∧ ¬ s.Reports := by
  let peerAddress : PeerAddress := { peerId := 7, hashCode := 7 }
  let key : Number320 := ⟨.ZERO, .ZERO⟩
  let call : Call := .put key peerAddress none none
  let s₀ : TrackerSystem 60 := ⟨create 60 false, 0, fun _ _ => none⟩
  let s₁ : TrackerSystem 60 := ⟨s₀.storage.after 0 call, 0, s₀.announcedBy 0 call⟩
  let s₂ : TrackerSystem 60 := ⟨s₁.storage.after 30000 call, 30000, s₁.announcedBy 30000 call⟩
  have h₀ : Reached step Fits Fresh s₀ := .start ⟨rfl, rfl⟩
  have h₁ : Reached step Fits Fresh s₁ := h₀.next (e := (0, call)) (.inr (by decide +kernel)) rfl
  have h₂ : Reached step Fits Fresh s₂ := h₁.next (e := (30000, call)) (.inr (by decide +kernel)) rfl
  refine ⟨s₂, h₂, ?_⟩
  intro hreports
  have hannounced : s₂.announced key peerAddress.key = some 30000 := by decide +kernel
  have hlost : ((s₂.storage.peers 60000 key).1.get PeerKey.hashCode 60000 peerAddress.key).1 = none := by decide +kernel
  exact hreports key peerAddress.key 30000 hannounced 60000 (by decide) (by decide) hlost

end TrackerSystem

end TomP2P
