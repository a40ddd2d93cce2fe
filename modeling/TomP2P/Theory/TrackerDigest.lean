import TomP2P.Theory.TrackerAnnouncement

/-!
# Digests of a Tracker

A digest should say how many peers are tracked under a key, or whether the one with an id
is, and have the hashes of the attachments it counted in it.

The hashes are put together in a variable that is not used after that. What is returned as
the content digest is the id that was asked for, and if there is none, then the digest of
nothing, which is zero. So the digest is right only where the hashes happen to be that.

A peer is looked for by an address that was made of the id, and that has no hash. A map
does not find it if it was announced with an address that has the hash of its id, as
addresses have that were sent.

## Main definitions

* `TrackerCaches.tracked`: The peers under a key with their attachments.
* `TrackerCaches.DigestCorrect`: What is asked of a digest.
* `TrackerCaches.DigestGuessed`: When it is so.

## Theorems

* `TrackerCaches.countAll_eq`: What the loop over the entries computes.
* `TrackerCaches.digestCorrect_iff`: Which digests are right.
* `TrackerCaches.digest_of_nothing`: One that is not.
-/

namespace TomP2P

open List

namespace TrackerCaches

open ConcurrentCacheMap

variable {T : BitVec 32} (s : TrackerCaches T) (now : Int) (locationKey domainKey : Number160)
  (contentKey : Option Number160)

/-- The verified peers under a key that are not expired. -/
def tracked (key : Number320) : List (PeerKey × PeerAddress × Data) :=
  match s.dataMap.find Number320.hashCode now key with
  | none => []
  | some announced => (announced.entrySet now).1

/-- All hashes in one. -/
def hashSum (entries : List (PeerKey × PeerAddress × Data)) : Number160 :=
  (entries.map fun entry => entry.2.2.hash).foldl Number160.xor .ZERO

/-- The size is the number of peers, or whether there is the one that was asked for. As many
    of them as the size says are in the content digest. -/
structure DigestCorrect : Prop where
  size : (s.digest now locationKey domainKey contentKey).1.size =
    match contentKey with
    | none => (s.tracked now ⟨locationKey, domainKey⟩).length
    | some peerId => if ∃ entry ∈ s.tracked now ⟨locationKey, domainKey⟩, entry.1.peerId = peerId then 1 else 0
  content : ∃ counted : List (PeerKey × PeerAddress × Data),
    counted.Sublist ((s.tracked now ⟨locationKey, domainKey⟩).filter fun entry =>
      contentKey.all fun peerId => entry.1.peerId = peerId) ∧
    counted.length = (s.digest now locationKey domainKey contentKey).1.size ∧
    (s.digest now locationKey domainKey contentKey).1.getContentDigest = hashSum counted

/-- The hashes happen to be what is returned in their place, and a peer that is looked for
    was announced with an address that has no hash. -/
def DigestGuessed : Prop :=
  match contentKey with
  | none => hashSum (s.tracked now ⟨locationKey, domainKey⟩) = .ZERO
  | some peerId =>
      if ∃ entry ∈ s.tracked now ⟨locationKey, domainKey⟩, entry.1.peerId = peerId then
        (held now ⟨locationKey, domainKey⟩ ⟨0, peerId⟩ s.dataMap).isSome = true ∧
          ∃ entry ∈ s.tracked now ⟨locationKey, domainKey⟩, entry.1.peerId = peerId ∧ entry.2.2.hash = peerId
      else peerId = .ZERO

variable {s now locationKey domainKey contentKey}

theorem zero_xor (n : Number160) : Number160.ZERO.xor n = n := by
  simp [Number160.xor, Number160.ZERO]

theorem hashSum_singleton (entry : PeerKey × PeerAddress × Data) : hashSum [entry] = entry.2.2.hash :=
  zero_xor _

theorem countAll_eq (entries : List (PeerKey × PeerAddress × Data)) :
    countAll entries = (hashSum entries, entries.length) := by
  have hloop (contentDigest : Number160) (counter : Nat) :
      entries.foldl (fun p entry => (p.1.xor entry.2.2.hash, p.2 + 1)) (contentDigest, counter) =
        ((entries.map fun entry => entry.2.2.hash).foldl Number160.xor contentDigest, counter + entries.length) := by
    induction entries generalizing contentDigest counter with
    | nil => rfl
    | cons entry entries ih =>
        rw [foldl_cons, ih]
        simp only [map_cons, foldl_cons, length_cons, Prod.mk.injEq, true_and]
        omega
  have hcount := hloop .ZERO 0
  rwa [Nat.zero_add] at hcount

/-- What is found is one of the peers. -/
theorem mem_tracked {key : Number320} {peer : PeerKey} {pair : PeerAddress × Data}
    (h : held now key peer s.dataMap = some pair) : (peer, pair) ∈ s.tracked now key := by
  unfold held at h
  unfold tracked
  cases hfound : s.dataMap.find Number320.hashCode now key with
  | none => simp [hfound] at h
  | some announced =>
      rw [hfound, Option.bind_some, TrackerCache.find, previous, Option.map_eq_some_iff] at h
      rcases h with ⟨e, he, rfl⟩
      rcases Option.filter_eq_some_iff.mp he with ⟨hentry, hlive⟩
      show (peer, e.1) ∈ (announced.map.scanSegments now).entries.map fun e => (e.1, e.2.1)
      refine mem_map.mpr ⟨(peer, e), ?_, rfl⟩
      refine mem_flatMap.mpr ⟨segment PeerKey.hashCode peer, mem_range.mpr (segment_lt _ _), ?_⟩
      exact mem_scanSegment.mpr ⟨entry_eq_some_iff.mp hentry, by simpa using hlive⟩

theorem digest_all : (s.digest now locationKey domainKey none).1 =
    ⟨some .ZERO, none, (s.tracked now ⟨locationKey, domainKey⟩).length⟩ := by
  have hget : (s.dataMap.get Number320.hashCode now ⟨locationKey, domainKey⟩).1 =
      s.dataMap.find Number320.hashCode now ⟨locationKey, domainKey⟩ := s.dataMap.get_fst _
  unfold digest tracked
  rcases hfound : s.dataMap.get Number320.hashCode now ⟨locationKey, domainKey⟩ with ⟨_ | announced, left⟩
  · rw [hfound] at hget
    simp [← hget, hfound]
  · rw [hfound] at hget
    simp [← hget, hfound, countAll_eq]

theorem digest_one (peerId : Number160) : (s.digest now locationKey domainKey (some peerId)).1 =
    ⟨some .ZERO, some peerId, if (held now ⟨locationKey, domainKey⟩ ⟨0, peerId⟩ s.dataMap).isSome then 1 else 0⟩ := by
  have hget : (s.dataMap.get Number320.hashCode now ⟨locationKey, domainKey⟩).1 =
      s.dataMap.find Number320.hashCode now ⟨locationKey, domainKey⟩ := s.dataMap.get_fst _
  unfold digest held
  rcases hfound : s.dataMap.get Number320.hashCode now ⟨locationKey, domainKey⟩ with ⟨_ | announced, left⟩
  · rw [hfound] at hget
    simp [← hget, hfound]
  · rw [hfound] at hget
    have hpair : (announced.get PeerKey.hashCode now ⟨0, peerId⟩).1 = announced.find PeerKey.hashCode now ⟨0, peerId⟩ :=
      announced.get_fst _
    simp only [hfound, ← hget, Option.bind_some, ← hpair, PeerAddress.key]
    cases (announced.get PeerKey.hashCode now ⟨0, peerId⟩).1 with
    | none => rfl
    | some pair => rfl

/-- A digest is right only if it could be guessed. -/
theorem digestCorrect_iff (s : TrackerCaches T) (now : Int) (locationKey domainKey : Number160)
    (contentKey : Option Number160) :
    s.DigestCorrect now locationKey domainKey contentKey ↔ s.DigestGuessed now locationKey domainKey contentKey := by
  cases contentKey with
  | none =>
      have hall : (s.tracked now ⟨locationKey, domainKey⟩).filter (fun entry =>
          (none : Option Number160).all fun peerId => entry.1.peerId = peerId) =
            s.tracked now ⟨locationKey, domainKey⟩ := by simp
      unfold DigestGuessed
      constructor
      · intro h
        rcases h.content with ⟨counted, hsub, hlength, hcontent⟩
        rw [hall] at hsub
        rw [digest_all] at hlength hcontent
        rw [← hsub.eq_of_length hlength, ← hcontent]
        rfl
      · intro h
        refine ⟨?_, s.tracked now ⟨locationKey, domainKey⟩, ?_, ?_, ?_⟩
        · rw [digest_all]
        · rw [hall]
        · rw [digest_all]
        · rw [digest_all]
          exact h.symm
  | some peerId =>
      -- The only hash that the digest can have in it is that of one peer.
      have hcounted (counted : List (PeerKey × PeerAddress × Data)) (hlength : counted.length = 1) :
          ∃ entry, counted = [entry] := length_eq_one_iff.mp hlength
      have hmem (entry : PeerKey × PeerAddress × Data) :
          entry ∈ (s.tracked now ⟨locationKey, domainKey⟩).filter (fun entry =>
            (some peerId).all fun peerId => entry.1.peerId = peerId) ↔
          entry ∈ s.tracked now ⟨locationKey, domainKey⟩ ∧ entry.1.peerId = peerId := by simp
      unfold DigestGuessed
      by_cases hex : ∃ entry ∈ s.tracked now ⟨locationKey, domainKey⟩, entry.1.peerId = peerId
      · simp only [if_pos hex]
        constructor
        · intro h
          have hsize := h.size
          simp only [if_pos hex] at hsize
          rcases h.content with ⟨counted, hsub, hlength, hcontent⟩
          rw [hsize] at hlength
          rcases hcounted counted hlength with ⟨entry, rfl⟩
          rw [digest_one] at hsize hcontent
          refine ⟨?_, entry, ?_, ?_, ?_⟩
          · by_contra hnone
            rw [if_neg hnone] at hsize
            simp at hsize
          · exact ((hmem entry).mp (hsub.subset mem_cons_self)).1
          · exact ((hmem entry).mp (hsub.subset mem_cons_self)).2
          · rw [← hashSum_singleton, ← hcontent]
            rfl
        · rintro ⟨hheld, entry, hentry, hid, hhash⟩
          refine ⟨?_, [entry], ?_, ?_, ?_⟩
          · rw [digest_one, if_pos hheld]
            simp only [if_pos hex]
          · exact singleton_sublist.mpr ((hmem entry).mpr ⟨hentry, hid⟩)
          · rw [digest_one, if_pos hheld]
            rfl
          · rw [digest_one, hashSum_singleton, hhash]
            rfl
      · have hheld : ¬ (held now ⟨locationKey, domainKey⟩ ⟨0, peerId⟩ s.dataMap).isSome = true := by
          intro hsome
          rcases Option.isSome_iff_exists.mp hsome with ⟨pair, hpair⟩
          exact hex ⟨(⟨0, peerId⟩, pair), mem_tracked hpair, rfl⟩
        simp only [if_neg hex]
        constructor
        · intro h
          rcases h.content with ⟨counted, hsub, hlength, hcontent⟩
          rw [digest_one, if_neg hheld] at hlength hcontent
          rw [length_eq_zero_iff.mp hlength] at hcontent
          exact hcontent
        · intro h
          refine ⟨?_, [], nil_sublist _, ?_, ?_⟩
          · rw [digest_one, if_neg hheld]
            simp only [if_neg hex]
          · rw [digest_one, if_neg hheld]
            rfl
          · rw [digest_one]
            exact h

/-- A peer with the hash of its id is tracked. It is not counted, and what is returned as
    the content digest is its id. -/
theorem digest_of_nothing :
    let peerAddress : PeerAddress := { peerId := 7, hashCode := 7 }
    let s := ((create 60 false).put 0 ⟨.ZERO, .ZERO⟩ peerAddress none none).2
    (s.tracked 1000 ⟨.ZERO, .ZERO⟩).map (fun entry => entry.1.peerId) = [7] ∧
      (s.digest 1000 .ZERO .ZERO (some 7)).1.size = 0 ∧
      (s.digest 1000 .ZERO .ZERO (some 7)).1.getContentDigest = 7 ∧
      ¬ s.DigestCorrect 1000 .ZERO .ZERO (some 7) := by
  intro peerAddress s
  have htracked : (s.tracked 1000 ⟨.ZERO, .ZERO⟩).map (fun entry => entry.1.peerId) = [7] := by decide +kernel
  have hsize : (s.digest 1000 .ZERO .ZERO (some 7)).1.size = 0 := by decide +kernel
  refine ⟨htracked, hsize, by decide +kernel, ?_⟩
  intro hcorrect
  have hex : ∃ entry ∈ s.tracked 1000 ⟨.ZERO, .ZERO⟩, entry.1.peerId = 7 :=
    mem_map.mp (by rw [htracked]; exact mem_cons_self)
  have hone := hcorrect.size
  simp only [if_pos hex, hsize] at hone
  simp at hone

end TrackerCaches

end TomP2P
