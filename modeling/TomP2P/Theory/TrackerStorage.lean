import TomP2P.Core.TrackerStorage

/-!
# What a Tracker Holds

A tracker is trusted with the peers it names, so three things have to hold however
announcements, contacts and failures follow each other. A pair of a key and a peer is in
one of the two maps at most. A peer that is offline is in none of them. And with
verification on, a peer is in the verified map only if it was seen after it was announced,
and has not failed since.

All of it is read off what one call can do to one pair: keep it, put it into a map that
does not have it, move it, or drop it.

## Main definitions

* `TrackerStorage.PutSince`: A peer was announced and has not failed since.
* `TrackerStorage.SeenSince`: It was also seen in between.
* `TrackerStorage.Sound`: What holds of the maps.

## Theorems

* `TrackerStorage.unverified_step`, `TrackerStorage.verified_step`: Where a pair can come
  from.
* `TrackerStorage.Sound.step`: Every call keeps the maps sound.
* `TrackerStorage.put_refused`: A value with a public key is not touched under another one.
* `TrackerStorage.tracker_invariant`: Every sequence of calls.
-/

namespace TomP2P

open HashedMap

namespace TrackerStorage

/-! ### One pair of a map -/

section Maps

variable (key key' : Number320) (id id' : Number160) (map : Tracked)

theorem findOld_eq : findOld key id map = (map.get key).bind fun announced => announced.get id := by
  rw [findOld]
  cases map.get key with
  | none => rfl
  | some announced => rfl

theorem findOld_put (announced : Announced) :
    findOld key' id (map.put key announced) = if key' = key then announced.get id else findOld key' id map := by
  rw [findOld_eq, findOld_eq, get_put]
  by_cases hkey : key' = key
  · rw [if_pos hkey, if_pos hkey, Option.bind_some]
  · rw [if_neg hkey, if_neg hkey]

-- What is there is not overwritten, so the pair that is found is new only where none was.
theorem findOld_add {peerAddress : PeerAddress} {attachment : Data} {e : PeerAddress × Data}
    (h : findOld key' id (add key peerAddress map attachment).2 = some e) :
    findOld key' id map = some e ∨ (add key peerAddress map attachment).1 = true ∧ key' = key ∧
      id = peerAddress.peerId ∧ findOld key' id map = none ∧ e = (peerAddress, attachment) := by
  unfold add at h ⊢
  cases hget : map.get key with
  | none =>
      rw [hget] at h
      simp only [findOld_put] at h
      by_cases hkey : key' = key
      · rw [if_pos hkey, get_put] at h
        by_cases hid : id = peerAddress.peerId
        · rw [if_pos hid] at h
          have hnone : findOld key' id map = none := by rw [findOld_eq, hkey, hget, Option.bind_none]
          exact .inr ⟨rfl, hkey, hid, hnone, (Option.some.inj h).symm⟩
        · rw [if_neg hid] at h
          cases h
      · rw [if_neg hkey] at h
        exact .inl h
  | some announced =>
      have hold : findOld key id map = announced.get id := by rw [findOld_eq, hget, Option.bind_some]
      rw [hget] at h
      by_cases hsize : TRACKER_CACHE_SIZE < announced.size
      · simp only [if_pos hsize] at h
        exact .inl h
      · simp only [if_neg hsize, findOld_put] at h ⊢
        by_cases hkey : key' = key
        · rw [if_pos hkey, get_put] at h
          rw [hkey, hold]
          by_cases hid : id = peerAddress.peerId
          · rw [if_pos hid] at h
            cases hpair : announced.get peerAddress.peerId with
            | none =>
                rw [hpair, Option.getD_none] at h
                exact .inr ⟨trivial, rfl, hid, by rw [hid, hpair], (Option.some.inj h).symm⟩
            | some pair =>
                rw [hpair, Option.getD_some] at h
                rw [hid, hpair]
                exact .inl h
          · rw [if_neg hid] at h
            exact .inl h
        · rw [if_neg hkey] at h
          exact .inl h

variable (remotePeer : PeerAddress)

theorem findOld_left {e : PeerAddress × Data} (h : findOld key id (removeFromMap remotePeer map).2 = some e) :
    findOld key id map = some e ∧ id ≠ remotePeer.peerId := by
  rw [findOld_eq, removeFromMap, get_filterMap] at h
  rw [findOld_eq]
  cases hget : map.get key with
  | none =>
      rw [hget] at h
      cases h
  | some announced =>
      rw [hget, Option.bind_some] at h
      by_cases hsize : (announced.remove remotePeer.peerId).size = 0
      · simp only [if_pos hsize] at h
        cases h
      · simp only [if_neg hsize, Option.bind_some, get_remove] at h
        by_cases hid : id = remotePeer.peerId
        · rw [if_pos hid] at h
          cases h
        · rw [if_neg hid] at h
          exact ⟨h, hid⟩

theorem findOld_removed {e : PeerAddress × Data} (h : findOld key id (removeFromMap remotePeer map).1 = some e) :
    findOld key id map = some e ∧ id = remotePeer.peerId := by
  rw [findOld_eq, removeFromMap, get_filterMap] at h
  rw [findOld_eq]
  cases hget : map.get key with
  | none =>
      rw [hget] at h
      cases h
  | some announced =>
      rw [hget, Option.bind_some] at h
      cases hpair : announced.get remotePeer.peerId with
      | none =>
          rw [hpair] at h
          cases h
      | some pair =>
          rw [hpair, Option.map_some, Option.bind_some, get_put] at h
          by_cases hid : id = remotePeer.peerId
          · rw [if_pos hid] at h
            exact ⟨by rw [Option.bind_some, hid, hpair, h], hid⟩
          · rw [if_neg hid] at h
            cases h

theorem findOld_kept (kept : Kept) {e : PeerAddress × Data} (h : findOld key id (kept.of map) = some e) :
    findOld key id map = some e := by
  rw [findOld_eq, Kept.of, get_filterMap] at h
  rw [findOld_eq]
  cases hget : map.get key with
  | none =>
      rw [hget] at h
      cases h
  | some announced =>
      cases hkeep : kept.announced key with
      | none =>
          rw [hget, Option.bind_some, hkeep] at h
          cases h
      | some keep =>
          rw [hget, Option.bind_some, hkeep, Option.map_some, Option.bind_some, get_filterMap] at h
          rw [Option.bind_some]
          cases hpair : announced.get id with
          | none =>
              rw [hpair] at h
              cases h
          | some pair =>
              rw [hpair, Option.bind_some] at h
              by_cases hid : keep id = true
              · rwa [if_pos hid] at h
              · rw [if_neg hid] at h
                cases h

end Maps

/-- The addresses have the ids they are found under. -/
def Named (map : Tracked) : Prop := ∀ key id e, findOld key id map = some e → e.1.peerId = id

-- The induction is on the entries that are still to be added. An entry that is found was
-- there, or it is one of them.
theorem findOld_addPairs (key key' : Number320) (id : Number160) {e : PeerAddress × Data}
    (pairs : List (Number160 × PeerAddress × Data)) (hnamed : ∀ pair ∈ pairs, pair.2.1.peerId = pair.1)
    (map : Tracked)
    (h : findOld key' id (pairs.foldl (fun map pair => (add key pair.2.1 map pair.2.2).2) map) = some e) :
    findOld key' id map = some e ∨ key' = key ∧ (id, e) ∈ pairs := by
  induction pairs generalizing map with
  | nil => exact .inl h
  | cons pair pairs ih =>
      rw [List.foldl_cons] at h
      rcases ih (fun q hq => hnamed q (List.mem_cons_of_mem _ hq)) _ h with h | ⟨hkey, hmem⟩
      · rcases findOld_add key key' id map h with h | ⟨_, hkey, hid, _, he⟩
        · exact .inl h
        · have hpair : (id, e) = pair := by
            rw [hid, he, hnamed pair List.mem_cons_self]
          exact .inr ⟨hkey, hpair ▸ List.mem_cons_self⟩
      · exact .inr ⟨hkey, List.mem_cons_of_mem _ hmem⟩

theorem findOld_addEntries (key : Number320) (id : Number160) {e : PeerAddress × Data}
    (entries : List (Number320 × Announced))
    (hnamed : ∀ entry ∈ entries, ∀ pair ∈ entry.2.entries, pair.2.1.peerId = pair.1) (map : Tracked)
    (h : findOld key id (entries.foldl (fun map entry =>
      entry.2.entries.foldl (fun map pair => (add entry.1 pair.2.1 map pair.2.2).2) map) map) = some e) :
    findOld key id map = some e ∨ ∃ announced, (key, announced) ∈ entries ∧ (id, e) ∈ announced.entries := by
  induction entries generalizing map with
  | nil => exact .inl h
  | cons entry entries ih =>
      rw [List.foldl_cons] at h
      rcases ih (fun q hq => hnamed q (List.mem_cons_of_mem _ hq)) _ h with h | ⟨announced, hmem, hpair⟩
      · rcases findOld_addPairs entry.1 key id entry.2.entries (hnamed entry List.mem_cons_self) map h with
          h | ⟨hkey, hpair⟩
        · exact .inl h
        · exact .inr ⟨entry.2, by rw [hkey]; exact List.mem_cons_self, hpair⟩
      · exact .inr ⟨announced, List.mem_cons_of_mem _ hmem, hpair⟩

theorem findOld_addAll (key : Number320) (id : Number160) {removed map : Tracked} {e : PeerAddress × Data}
    (hnamed : Named removed) (h : findOld key id (addAll removed map) = some e) :
    findOld key id map = some e ∨ findOld key id removed = some e := by
  have hfound (key : Number320) (announced : Announced) (pair : Number160 × PeerAddress × Data)
      (hentry : (key, announced) ∈ removed.entries) (hpair : pair ∈ announced.entries) :
      findOld key pair.1 removed = some pair.2 := by
    rw [findOld_eq, (get_eq_some_iff removed key announced).mpr hentry, Option.bind_some]
    exact (get_eq_some_iff announced pair.1 pair.2).mpr hpair
  have hnames : ∀ entry ∈ removed.entries, ∀ pair ∈ entry.2.entries, pair.2.1.peerId = pair.1 :=
    fun entry hentry pair hpair => hnamed entry.1 pair.1 pair.2 (hfound entry.1 entry.2 pair hentry hpair)
  rcases findOld_addEntries key id removed.entries hnames map h with h | ⟨announced, hentry, hpair⟩
  · exact .inl h
  · exact .inr (hfound key announced (id, e) hentry hpair)

/-! ### What a call can do to a pair -/

/-- The call was a failure of the peer. -/
def Call.Fails (id : Number160) : Call → Prop
  | .peerFailed remotePeer => remotePeer.peerId = id
  | _ => False

/-- The call was a contact with the peer, first hand. -/
def Call.Sees (id : Number160) : Call → Prop
  | .peerFound remotePeer referrer => remotePeer.peerId = id ∧ referrer = none
  | _ => False

/-- The call was an announcement of the peer under the key. -/
def Call.Announces (key : Number320) (id : Number160) : Call → Prop
  | .put _ key' peerAddress _ _ => key' = key ∧ peerAddress.peerId = id
  | _ => False

variable {s : TrackerStorage} {call : Call} {key : Number320} {id : Number160} {e : PeerAddress × Data}

/-- What an announcement does. A pair that is new goes where the configuration says. -/
inductive Puts (s : TrackerStorage) (key : Number320) (peerAddress : PeerAddress) : Bool × TrackerStorage → Prop
  | refused : Puts s key peerAddress (false, s)
  | unverified (attachment : Data) (honline : ¬ s.peerOffline.contains peerAddress.peerId = true)
      (h : findOld key peerAddress.peerId s.dataMapUnverified = none →
        findOld key peerAddress.peerId s.dataMap = none ∧ s.verifyPeersOnTracker = true) :
      Puts s key peerAddress (s.addUnverified key peerAddress attachment)
  | verified (attachment : Data) (honline : ¬ s.peerOffline.contains peerAddress.peerId = true)
      (hnone : findOld key peerAddress.peerId s.dataMapUnverified = none)
      (h : findOld key peerAddress.peerId s.dataMap = none → s.verifyPeersOnTracker = false) :
      Puts s key peerAddress (s.addVerified key peerAddress attachment)

theorem puts_put (s : TrackerStorage) (now : BitVec 64) (key : Number320) (peerAddress : PeerAddress)
    (publicKey : Option PublicKey) (attachment : Option Data) :
    Puts s key peerAddress (s.put now key peerAddress publicKey attachment) := by
  unfold put
  by_cases hoffline : s.peerOffline.contains peerAddress.peerId = true
  · rw [if_pos hoffline]
    exact .refused
  · rw [if_neg hoffline]
    cases hunverified : findOld key peerAddress.peerId s.dataMapUnverified with
    | some old =>
        by_cases hrefuses : refuses old.2 publicKey = true
        · simp only [if_pos hrefuses]
          exact .refused
        · simp only [if_neg hrefuses]
          exact .unverified _ hoffline fun hnone => by rw [hunverified] at hnone; cases hnone
    | none =>
        cases hverified : findOld key peerAddress.peerId s.dataMap with
        | some old =>
            by_cases hrefuses : refuses old.2 publicKey = true
            · simp only [if_pos hrefuses]
              exact .refused
            · simp only [if_neg hrefuses]
              exact .verified _ hoffline hunverified fun hnone => by rw [hverified] at hnone; cases hnone
        | none =>
            cases hverify : s.verifyPeersOnTracker with
            | true => exact .unverified _ hoffline fun _ => ⟨hverified, hverify⟩
            | false => exact .verified _ hoffline hunverified fun _ => hverify

/-- What is in the unverified map was there, or was announced when neither map had it. -/
theorem unverified_step (h : findOld key id (s.step call).2.dataMapUnverified = some e) :
    ¬ call.Fails id ∧ ¬ call.Sees id ∧ (findOld key id s.dataMapUnverified = some e ∨
      call.Announces key id ∧ (s.step call).1 = true ∧ s.verifyPeersOnTracker = true ∧ e.1.peerId = id ∧
        ¬ s.peerOffline.contains id = true ∧ findOld key id s.dataMap = none) := by
  cases call with
  | put now key' peerAddress publicKey attachment =>
      refine ⟨fun hfails => hfails, fun hsees => hsees, ?_⟩
      have hputs := puts_put s now key' peerAddress publicKey attachment
      rw [step] at h ⊢
      generalize hr : s.put now key' peerAddress publicKey attachment = r at hputs h ⊢
      cases hputs with
      | refused | verified attachment honline hnone hverify => exact .inl h
      | unverified attachment honline hnew =>
          rcases findOld_add key' key id s.dataMapUnverified h with hold | ⟨hadded, rfl, rfl, hnone, rfl⟩
          · exact .inl hold
          · obtain ⟨hverified, hverify⟩ := hnew hnone
            exact .inr ⟨⟨rfl, rfl⟩, hadded, hverify, rfl, honline, hverified⟩
  | peerFound remotePeer referrer =>
      rw [step, peerFound] at h
      cases referrer with
      | some referrer =>
          refine ⟨fun hfails => hfails, fun hsees => ?_, .inl h⟩
          cases hsees.2
      | none =>
          obtain ⟨hold, hid⟩ := findOld_left key id s.dataMapUnverified remotePeer h
          exact ⟨fun hfails => hfails, fun hsees => hid hsees.1.symm, .inl hold⟩
  | peerFailed remotePeer =>
      obtain ⟨hold, hid⟩ := findOld_left key id s.dataMapUnverified remotePeer h
      exact ⟨fun hfails => hid hfails.symm, fun hsees => hsees, .inl hold⟩
  | lapse unverified verified offline =>
      exact ⟨fun hfails => hfails, fun hsees => hsees, .inl (findOld_kept key id _ _ h)⟩

/-- What is in the verified map was there, or was announced when neither map had it, or
    was in the other map until its peer was seen. -/
theorem verified_step (hnamed : Named s.dataMapUnverified) (h : findOld key id (s.step call).2.dataMap = some e) :
    ¬ call.Fails id ∧ (findOld key id s.dataMap = some e ∨
      (call.Announces key id ∧ (s.step call).1 = true ∧ s.verifyPeersOnTracker = false ∧ e.1.peerId = id ∧
        ¬ s.peerOffline.contains id = true ∧ findOld key id s.dataMapUnverified = none) ∨
      call.Sees id ∧ findOld key id s.dataMapUnverified = some e) := by
  cases call with
  | put now key' peerAddress publicKey attachment =>
      refine ⟨fun hfails => hfails, ?_⟩
      have hputs := puts_put s now key' peerAddress publicKey attachment
      rw [step] at h ⊢
      generalize hr : s.put now key' peerAddress publicKey attachment = r at hputs h ⊢
      cases hputs with
      | refused | unverified attachment honline hnew => exact .inl h
      | verified attachment honline hunverified hnew =>
          rcases findOld_add key' key id s.dataMap h with hold | ⟨hadded, rfl, rfl, hnone, rfl⟩
          · exact .inl hold
          · exact .inr (.inl ⟨⟨rfl, rfl⟩, hadded, hnew hnone, rfl, honline, hunverified⟩)
  | peerFound remotePeer referrer =>
      refine ⟨fun hfails => hfails, ?_⟩
      cases referrer with
      | some referrer => exact .inl h
      | none =>
          have hremoved : Named (removeFromMap remotePeer s.dataMapUnverified).1 := fun key id e he =>
            hnamed key id e (findOld_removed key id _ remotePeer he).1
          rcases findOld_addAll key id hremoved h with hold | hnew
          · exact .inl hold
          · obtain ⟨hold, hid⟩ := findOld_removed key id _ remotePeer hnew
            exact .inr (.inr ⟨⟨hid.symm, rfl⟩, hold⟩)
  | peerFailed remotePeer =>
      obtain ⟨hold, hid⟩ := findOld_left key id s.dataMap remotePeer h
      exact ⟨fun hfails => hid hfails.symm, .inl hold⟩
  | lapse unverified verified offline =>
      exact ⟨fun hfails => hfails, .inl (findOld_kept key id _ _ h)⟩

/-- Who is offline was offline and not seen, or has just failed. -/
theorem offline_step (h : (s.step call).2.peerOffline.contains id = true) :
    call.Fails id ∨ s.peerOffline.contains id = true ∧ ¬ call.Sees id := by
  cases call with
  | put now key' peerAddress publicKey attachment =>
      refine .inr ⟨?_, fun hsees => hsees⟩
      have hputs := puts_put s now key' peerAddress publicKey attachment
      rw [step] at h
      generalize hr : s.put now key' peerAddress publicKey attachment = r at hputs h
      cases hputs with
      | refused | unverified attachment honline hnew | verified attachment honline hunverified hnew => exact h
  | peerFound remotePeer referrer =>
      refine .inr ?_
      cases referrer with
      | some referrer =>
          refine ⟨h, fun hsees => ?_⟩
          cases hsees.2
      | none =>
          have hremoved : ((s.peerOffline.remove remotePeer.peerId).get id).isSome = true := h
          rw [get_remove] at hremoved
          by_cases hid : id = remotePeer.peerId
          · rw [if_pos hid] at hremoved
            cases hremoved
          · rw [if_neg hid] at hremoved
            exact ⟨hremoved, fun hsees => hid hsees.1.symm⟩
  | peerFailed remotePeer =>
      have hadded : ((s.peerOffline.put remotePeer.peerId true).get id).isSome = true := h
      rw [get_put] at hadded
      by_cases hid : id = remotePeer.peerId
      · exact .inl hid.symm
      · rw [if_neg hid] at hadded
        exact .inr ⟨hadded, fun hsees => hsees⟩
  | lapse unverified verified offline =>
      refine .inr ⟨?_, fun hsees => hsees⟩
      have hleft : ((s.peerOffline.filterMap fun peerId offlineSince =>
          if offline peerId then some offlineSince else none).get id).isSome = true := h
      rw [get_filterMap] at hleft
      cases hget : s.peerOffline.get id with
      | none =>
          rw [hget] at hleft
          cases hleft
      | some offlineSince => rw [HashedMap.contains, hget, Option.isSome_some]

@[simp] theorem verifyPeersOnTracker_step (s : TrackerStorage) (call : Call) :
    (s.step call).2.verifyPeersOnTracker = s.verifyPeersOnTracker := by
  cases call with
  | put now key' peerAddress publicKey attachment =>
      have hputs := puts_put s now key' peerAddress publicKey attachment
      rw [step]
      generalize hr : s.put now key' peerAddress publicKey attachment = r at hputs
      cases hputs with
      | refused | unverified attachment honline hnew | verified attachment honline hunverified hnew => rfl
  | peerFound remotePeer referrer =>
      cases referrer with
      | some referrer => rfl
      | none => rfl
  | peerFailed remotePeer => rfl
  | lapse unverified verified offline => rfl

/-! ### What holds of the maps -/

/-- No pair is in both maps, and none of a peer that is offline in any. -/
structure Sound (s : TrackerStorage) : Prop where
  unverified : Named s.dataMapUnverified
  verified : Named s.dataMap
  apart : ∀ key id, findOld key id s.dataMapUnverified = none ∨ findOld key id s.dataMap = none
  offline : ∀ id, s.peerOffline.contains id = true → ∀ key,
    findOld key id s.dataMapUnverified = none ∧ findOld key id s.dataMap = none

namespace Sound

theorem new (verifyPeersOnTracker : Bool) : Sound ⟨.empty, .empty, .empty, verifyPeersOnTracker⟩ where
  unverified _ _ _ h := by cases h
  verified _ _ _ h := by cases h
  apart _ _ := .inl rfl
  offline _ h := by cases h

theorem not_both (hs : Sound s) {e' : PeerAddress × Data} (hu : findOld key id s.dataMapUnverified = some e)
    (hv : findOld key id s.dataMap = some e') : False := by
  rcases hs.apart key id with hnone | hnone
  · rw [hnone] at hu
    cases hu
  · rw [hnone] at hv
    cases hv

-- A pair that gets into one of the maps is in none before, or it leaves the other one.
theorem step_apart (hs : Sound s) {e' : PeerAddress × Data}
    (hu : findOld key id (s.step call).2.dataMapUnverified = some e)
    (hv : findOld key id (s.step call).2.dataMap = some e') : False := by
  obtain ⟨_, hunseen, hu⟩ := unverified_step hu
  obtain ⟨_, hv⟩ := verified_step hs.unverified hv
  rcases hu with hu | ⟨_, _, hverify, _, _, hnone⟩
  · rcases hv with hv | ⟨_, _, _, _, _, hnone⟩ | ⟨hsees, _⟩
    · exact hs.not_both hu hv
    · rw [hnone] at hu
      cases hu
    · exact hunseen hsees
  · rcases hv with hv | ⟨_, _, hnoverify, _⟩ | ⟨hsees, _⟩
    · rw [hnone] at hv
      cases hv
    · rw [hverify] at hnoverify
      cases hnoverify
    · exact hunseen hsees

-- Only a failure makes a peer offline, and it takes the peer out of both maps.
theorem step_offline (hs : Sound s) (h : (s.step call).2.peerOffline.contains id = true) (key : Number320) :
    findOld key id (s.step call).2.dataMapUnverified = none ∧ findOld key id (s.step call).2.dataMap = none := by
  have hwas := offline_step h
  constructor
  · cases hu : findOld key id (s.step call).2.dataMapUnverified with
    | none => rfl
    | some e =>
        obtain ⟨hfails, _, hu⟩ := unverified_step hu
        obtain ⟨hoffline, _⟩ := hwas.resolve_left hfails
        rcases hu with hu | ⟨_, _, _, _, honline, _⟩
        · rw [(hs.offline id hoffline key).1] at hu
          cases hu
        · exact absurd hoffline honline
  · cases hv : findOld key id (s.step call).2.dataMap with
    | none => rfl
    | some e =>
        obtain ⟨hfails, hv⟩ := verified_step hs.unverified hv
        obtain ⟨hoffline, hunseen⟩ := hwas.resolve_left hfails
        rcases hv with hv | ⟨_, _, _, _, honline, _⟩ | ⟨hsees, _⟩
        · rw [(hs.offline id hoffline key).2] at hv
          cases hv
        · exact absurd hoffline honline
        · exact absurd hsees hunseen

theorem step (hs : Sound s) (call : Call) : Sound (s.step call).2 where
  unverified key id e h := by
    rcases (unverified_step h).2.2 with hold | ⟨_, _, _, hid, _⟩
    · exact hs.unverified key id e hold
    · exact hid
  verified key id e h := by
    rcases (verified_step hs.unverified h).2 with hold | ⟨_, _, _, hid, _⟩ | ⟨_, hold⟩
    · exact hs.verified key id e hold
    · exact hid
    · exact hs.unverified key id e hold
  apart key id := by
    cases hu : findOld key id (s.step call).2.dataMapUnverified with
    | none => exact .inl rfl
    | some e =>
        cases hv : findOld key id (s.step call).2.dataMap with
        | none => exact .inr rfl
        | some e' => exact (hs.step_apart hu hv).elim
  offline _ h key := hs.step_offline h key

end Sound

/-! ### What has happened -/

/-- A peer was announced under a key, and has not failed since. -/
def PutSince (verifyPeersOnTracker : Bool) (calls : List Call) (key : Number320) (id : Number160) : Prop :=
  ∃ before call after, calls = before ++ call :: after ∧ call.Announces key id ∧
    ((run verifyPeersOnTracker before).step call).1 = true ∧ ∀ later ∈ after, ¬ later.Fails id

/-- A peer was announced under a key, was seen first hand after that, and has not failed
    since. -/
def SeenSince (verifyPeersOnTracker : Bool) (calls : List Call) (key : Number320) (id : Number160) : Prop :=
  ∃ before call after, calls = before ++ call :: after ∧ call.Sees id ∧
    PutSince verifyPeersOnTracker before key id ∧ ∀ later ∈ after, ¬ later.Fails id

variable {verifyPeersOnTracker : Bool} {calls : List Call}

theorem run_snoc (calls : List Call) (call : Call) :
    run verifyPeersOnTracker (calls ++ [call]) = ((run verifyPeersOnTracker calls).step call).2 := by
  rw [run, List.foldl_append]
  rfl

theorem not_fails_snoc {after : List Call} (h : ∀ later ∈ after, ¬ later.Fails id) (hcall : ¬ call.Fails id) :
    ∀ later ∈ after ++ [call], ¬ later.Fails id := by
  intro later hlater
  rcases List.mem_append.mp hlater with hlater | hlater
  · exact h later hlater
  · rw [List.mem_singleton.mp hlater]
    exact hcall

theorem PutSince.snoc (h : PutSince verifyPeersOnTracker calls key id) (hcall : ¬ call.Fails id) :
    PutSince verifyPeersOnTracker (calls ++ [call]) key id := by
  obtain ⟨before, put, after, rfl, hannounces, hput, hafter⟩ := h
  exact ⟨before, put, after ++ [call], by simp, hannounces, hput, not_fails_snoc hafter hcall⟩

theorem SeenSince.snoc (h : SeenSince verifyPeersOnTracker calls key id) (hcall : ¬ call.Fails id) :
    SeenSince verifyPeersOnTracker (calls ++ [call]) key id := by
  obtain ⟨before, seen, after, rfl, hsees, hput, hafter⟩ := h
  exact ⟨before, seen, after ++ [call], by simp, hsees, hput, not_fails_snoc hafter hcall⟩

/-- The maps are sound, and say what has happened. -/
structure Traced (verifyPeersOnTracker : Bool) (calls : List Call) (s : TrackerStorage) : Prop where
  sound : Sound s
  configured : s.verifyPeersOnTracker = verifyPeersOnTracker
  put : ∀ key id e, findOld key id s.dataMapUnverified = some e → PutSince verifyPeersOnTracker calls key id
  seen : verifyPeersOnTracker = true → ∀ key id e, findOld key id s.dataMap = some e →
    SeenSince verifyPeersOnTracker calls key id

/-- Every call keeps the maps sound, and adds to what has happened. -/
theorem traced_run (verifyPeersOnTracker : Bool) (calls : List Call) :
    Traced verifyPeersOnTracker calls (run verifyPeersOnTracker calls) := by
  induction calls using List.reverseRecOn with
  | nil =>
      refine ⟨.new verifyPeersOnTracker, rfl, ?_, ?_⟩
      · intro key id e h
        cases h
      · intro _ key id e h
        cases h
  | append_singleton calls call ih =>
      rw [run_snoc]
      refine ⟨ih.sound.step call, ?_, ?_, ?_⟩
      · rw [verifyPeersOnTracker_step, ih.configured]
      · intro key id e h
        obtain ⟨hfails, _, hold | ⟨hannounces, hput, _⟩⟩ := unverified_step h
        · exact (ih.put key id e hold).snoc hfails
        · exact ⟨calls, call, [], rfl, hannounces, hput, fun later hlater => nomatch hlater⟩
      · intro hverify key id e h
        obtain ⟨hfails, hold | ⟨_, _, hnoverify, _⟩ | ⟨hsees, hold⟩⟩ := verified_step ih.sound.unverified h
        · exact (ih.seen hverify key id e hold).snoc hfails
        · rw [ih.configured, hverify] at hnoverify
          cases hnoverify
        · exact ⟨calls, call, [], rfl, hsees, ih.put key id e hold, fun later hlater => nomatch hlater⟩

/-! ### Every sequence of calls -/

theorem get_peers (s : TrackerStorage) (key : Number320) (id : Number160) :
    (s.peers key).get id = findOld key id s.dataMap := by
  rw [peers, findOld]
  cases s.dataMap.get key with
  | none => rfl
  | some announced => rfl

theorem refuses_eq_true {d : Data} {publicKey : Option PublicKey} {k : PublicKey} (hkey : d.publicKey = some k)
    (hother : publicKey ≠ some k) : refuses d publicKey = true := by
  rw [refuses, hkey, Option.isSome_some, Bool.true_and, decide_eq_true_eq]
  exact Ne.symm hother

/-- A value that has a public key is not touched by an announcement with another one, and
    neither is anything else. -/
theorem Sound.put_refused (hs : Sound s) (now : BitVec 64) {peerAddress : PeerAddress}
    {publicKey : Option PublicKey} (attachment : Option Data) {k : PublicKey}
    (hold : findOld key peerAddress.peerId s.dataMapUnverified = some e ∨
      findOld key peerAddress.peerId s.dataMap = some e)
    (hkey : e.2.publicKey = some k) (hother : publicKey ≠ some k) :
    s.put now key peerAddress publicKey attachment = (false, s) := by
  have hrefuses := refuses_eq_true hkey hother
  unfold put
  by_cases hoffline : s.peerOffline.contains peerAddress.peerId = true
  · rw [if_pos hoffline]
  · rw [if_neg hoffline]
    rcases hold with hold | hold
    · simp only [hold, if_pos hrefuses]
    · have hnone := (hs.apart key peerAddress.peerId).resolve_right (by rw [hold]; exact Option.some_ne_none e)
      simp only [hnone, hold, if_pos hrefuses]

/-- After any sequence of calls no pair is in both maps, no peer that is offline is in any,
    others are only given peers that were seen, and a value is kept for its public key. -/
theorem tracker_invariant (verifyPeersOnTracker : Bool) (calls : List Call) :
    let s := run verifyPeersOnTracker calls
    (∀ key id, findOld key id s.dataMapUnverified = none ∨ findOld key id s.dataMap = none) ∧
    (∀ id, s.peerOffline.contains id = true → ∀ key,
      findOld key id s.dataMapUnverified = none ∧ findOld key id s.dataMap = none) ∧
    (verifyPeersOnTracker = true → ∀ key id e, (s.peers key).get id = some e →
      SeenSince verifyPeersOnTracker calls key id) ∧
    (∀ now key peerAddress publicKey attachment e k,
      findOld key peerAddress.peerId s.dataMapUnverified = some e ∨
        findOld key peerAddress.peerId s.dataMap = some e →
      e.2.publicKey = some k → publicKey ≠ some k →
      s.put now key peerAddress publicKey attachment = (false, s)) := by
  intro s
  have htraced := traced_run verifyPeersOnTracker calls
  refine ⟨htraced.sound.apart, htraced.sound.offline, ?_, ?_⟩
  · intro hverify key id e hpeers
    rw [get_peers] at hpeers
    exact htraced.seen hverify key id e hpeers
  · intro now key peerAddress publicKey attachment e k hold hkey hother
    exact htraced.sound.put_refused now attachment hold hkey hother

/-- An announcement is served once its peer was seen, and no more after it failed. -/
example :
    let peer : PeerAddress := { peerId := ⟨0, 0, 0, 0, 7⟩ }
    let key : Number320 := ⟨.ZERO, .ZERO⟩
    let announced := [Call.put 1000 key peer none none]
    let seen := announced ++ [.peerFound peer none]
    let failed := seen ++ [.peerFailed peer, .put 1000 key peer none none]
    ((run true announced).peers key).size = 0 ∧ ((run true seen).peers key).size = 1 ∧
      ((run true failed).peers key).size = 0 := by
  decide

end TrackerStorage

end TomP2P
