import TomP2P.Theory.Sync

/-!
# The Answers of a Replica

For which requests a replica has an answer, and what it says.

The replica goes through the keys of a request and throws if it cannot make the answer
for one of them, so that one key takes the answer from all of them. A key with one hash
can be answered in three ways (`SyncRPC.Answers`): the value is the same, there are
checksums of a base, or there is nothing to start from. The third one is missing where
another version may be the base: the source takes the last entry of a map that may be
empty, and looks at its value.

The number of blocks of a base is computed from `length + blockSize - 1` in an `int`. It
is negative for a value so long that the sum is too large, unless the block size is
so large as well that there is no block (`RSync.checksums_isOk_iff`).

## Main definitions

* `SyncRPC.Latest`, `SyncRPC.IsBase`: The value that the checksums are of.
* `SyncRPC.Answers`: What a value says of a key.
* `SyncRPC.Answered`: There is an answer to a request, with all of its keys.

## Theorems

* `SyncRPC.infoEntry_ok`, `SyncRPC.infoEntry_isOk_iff`: The answer for one key.
* `SyncRPC.answered_iff`: The requests that are answered.
-/

namespace TomP2P

open Wire Effect NavMap

namespace RSync

/-- The checksums can be made if the number of blocks is not negative. -/
theorem checksums_isOk_iff {value : Bytes} {b : Int} (hb : 1 ≤ b) (hbint : b < 2 ^ 31)
    (hint : value.length < 2 ^ 31) :
    (∃ cs, checksums value b = .ok cs) ↔ value.length + b ≤ 2 ^ 31 ∨ 2 ^ 32 + 1 < value.length + 2 * b := by
  rcases Int.eq_ofNat_of_zero_le (show 0 ≤ b by omega) with ⟨n, rfl⟩
  by_cases hsmall : value.length + n ≤ 2 ^ 31
  · rcases checksums_ok (show 1 ≤ n by omega) hsmall with ⟨cs, hcs, _⟩
    exact ⟨fun _ => .inl (by omega), fun _ => ⟨cs, hcs⟩⟩
  · -- The sum is negative.
    have hnumber : (int (int (value.length + n) - 1)).tdiv n = -(((2 ^ 32 + 1 - value.length - n) / n : Nat) : Int) := by
      have hsum : int (int (value.length + n) - 1) = -((2 ^ 32 + 1 - value.length - n : Nat) : Int) := by
        rw [int_int_sub, int, Int.bmod_def]
        omega
      rw [hsum, Int.neg_tdiv]
      rfl
    by_cases hhuge : 2 ^ 32 + 1 < value.length + 2 * n
    · refine ⟨fun _ => .inr (by omega), fun _ => ⟨[], ?_⟩⟩
      have hzero : (2 ^ 32 + 1 - value.length - n) / n = 0 := Nat.div_eq_of_lt (by omega)
      unfold checksums
      rw [hnumber, hzero]
      rfl
    · refine ⟨fun h => ?_, fun h => by omega⟩
      rcases h with ⟨cs, hcs⟩
      have hpos : 1 ≤ (2 ^ 32 + 1 - value.length - n) / n := (Nat.one_le_div_iff (by omega)).mpr (by omega)
      unfold checksums at hcs
      rw [hnumber] at hcs
      dsimp only at hcs
      rw [if_pos (by omega)] at hcs
      cases hcs

end RSync

/-! ### One key -/

namespace SyncRPC

variable (rpc : SyncRPC) (m : StorageMemory) (isSyncFromOldVersion : Bool)

/-- The latest version of a content, of those that can be seen. -/
structure Latest (key x : Number640) (v : Data) : Prop where
  content : x.locationAndDomainAndContentKey = key.locationAndDomainAndContentKey
  stored : StorageLayer.get m x = some v
  le : ∀ x', x'.locationAndDomainAndContentKey = key.locationAndDomainAndContentKey →
    StorageLayer.get m x' ≠ none → x' ≤ x

/-- The value that the checksums for a key are of: the one of the key, if it is a different
    one, and the latest version if there is none and the request allows that. -/
def IsBase (key : Number640) (hash : Number160) (x : Number640) (v : Data) : Prop :=
  x = key ∧ StorageLayer.get m key = some v ∧ v.hash ≠ hash ∨
    StorageLayer.get m key = none ∧ isSyncFromOldVersion = true ∧ Latest m key x v

/-- What a value says of a key with one hash. -/
def Answers (key : Number640) (hash : Number160) (y : Data) : Prop :=
  (∃ v, StorageLayer.get m key = some v ∧ v.hash = hash ∧ y.length = 0 ∧ y.flag1 = true) ∨
    (∃ x v cs, IsBase m isSyncFromOldVersion key hash x v ∧ RSync.checksums v.buffer rpc.blockSize = .ok cs ∧
      y.buffer = SyncUtils.encodeChecksum cs x.versionKey v.hash ∧ y.flag1 = false ∧ y.flag2 = false) ∨
    StorageLayer.get m key = none ∧ (isSyncFromOldVersion = true → ∀ x v, ¬Latest m key x v) ∧
      y.length = 0 ∧ y.flag1 = false ∧ y.flag2 = true

variable {rpc m isSyncFromOldVersion}

theorem latest_of_lastEntry {key : Number640} {e : Number640 × Data}
    (h : (StorageLayer.visibleVersions m key).lastEntry = some e) : Latest m key e.1 e.2.duplicate := by
  have hget := (get_eq_some_iff _ e.1 e.2).mpr (List.mem_of_getLast? h)
  have hvisible := StorageLayer.get_visibleVersions m key e.1
  rw [hget, Option.map_some] at hvisible
  by_cases hcontent : e.1.locationAndDomainAndContentKey = key.locationAndDomainAndContentKey
  · rw [if_pos hcontent] at hvisible
    refine ⟨hcontent, hvisible.symm, ?_⟩
    intro x' hcontent' hstored
    have hvisible' := StorageLayer.get_visibleVersions m key x'
    rw [if_pos hcontent'] at hvisible'
    rcases hget' : (StorageLayer.visibleVersions m key).get x' with _ | v'
    · rw [hget'] at hvisible'
      exact absurd hvisible'.symm hstored
    · exact le_lastEntry h ((get_eq_some_iff _ _ _).mp hget')
  · rw [if_neg hcontent] at hvisible
    cases hvisible

theorem not_latest_of_empty {key : Number640} (h : (StorageLayer.visibleVersions m key).lastEntry = none)
    (x : Number640) (v : Data) : ¬Latest m key x v := by
  intro hlatest
  have hvisible := StorageLayer.get_visibleVersions m key x
  have hentries : (StorageLayer.visibleVersions m key).entries = [] := List.getLast?_eq_none_iff.mp h
  rw [if_pos hlatest.content, hlatest.stored, NavMap.get, hentries] at hvisible
  cases hvisible

-- There is one latest version.
theorem Latest.unique {key x x' : Number640} {v v' : Data} (h : Latest m key x v) (h' : Latest m key x' v') :
    x = x' ∧ v = v' := by
  have hx : x = x' := le_antisymm
    (h'.le x h.content (by rw [h.stored]; exact Option.some_ne_none v))
    (h.le x' h'.content (by rw [h'.stored]; exact Option.some_ne_none v'))
  refine ⟨hx, Option.some.inj ?_⟩
  rw [← h.stored, ← h'.stored, hx]

theorem syncRequired_isOk_iff {x : Number640} {v : Data} :
    (∃ y, rpc.syncRequired x v = .ok y) ↔ ∃ cs, RSync.checksums v.buffer rpc.blockSize = .ok cs := by
  unfold syncRequired
  rcases RSync.checksums v.buffer rpc.blockSize with e | cs
  · exact ⟨fun ⟨_, h⟩ => (nomatch h), fun ⟨_, h⟩ => (nomatch h)⟩
  · exact ⟨fun _ => ⟨cs, rfl⟩, fun _ => ⟨_, rfl⟩⟩

theorem answers_of_syncRequired {key x : Number640} {hash : Number160} {v y : Data}
    (hbase : IsBase m isSyncFromOldVersion key hash x v) (h : rpc.syncRequired x v = .ok y) :
    Answers rpc m isSyncFromOldVersion key hash y := by
  rcases except_bind_ok h with ⟨cs, hcs, h⟩
  cases h
  exact .inr (.inl ⟨x, v, cs, hbase, hcs, rfl, rfl, rfl⟩)

/-- The answer for a key with one hash, unless something throws. -/
theorem infoEntry_ok {key : Number640} {hash : Number160} {o : Option Data}
    (h : rpc.infoEntry m isSyncFromOldVersion key [hash] = .ok o) :
    ∃ y, o = some y ∧ Answers rpc m isSyncFromOldVersion key hash y := by
  have hsome {x : Except JavaException Data} (hx : some <$> x = .ok o) : ∃ y, o = some y ∧ x = .ok y := by
    rcases x with e | z
    · cases hx
    · cases hx
      exact ⟨z, rfl, rfl⟩
  unfold infoEntry at h
  dsimp only at h
  rcases hown : StorageLayer.get m key with _ | v
  · rw [hown] at h
    dsimp only at h
    cases hold : isSyncFromOldVersion with
    | false =>
        rw [hold, if_neg Bool.false_ne_true] at h
        cases h
        exact ⟨_, rfl, .inr (.inr ⟨hown, fun htrue => absurd htrue Bool.false_ne_true, rfl, rfl, rfl⟩)⟩
    | true =>
        rcases StorageLayer.getRange_latest m key with ⟨versions, hversions, hlast⟩
        rw [hold, if_pos rfl, hversions, except_ok_bind, hlast] at h
        rcases hentry : (StorageLayer.visibleVersions m key).lastEntry with _ | e
        · rw [hentry] at h
          cases h
        · rw [hentry] at h
          rcases hsome h with ⟨y, ho, hy⟩
          exact ⟨y, ho, answers_of_syncRequired (.inr ⟨hown, rfl, latest_of_lastEntry hentry⟩) hy⟩
  · rw [hown] at h
    dsimp only at h
    by_cases hsame : hash = v.hash
    · rw [if_pos hsame] at h
      cases h
      exact ⟨_, rfl, .inl ⟨v, hown, hsame.symm, rfl, rfl⟩⟩
    · rw [if_neg hsame] at h
      rcases hsome h with ⟨y, ho, hy⟩
      exact ⟨y, ho, answers_of_syncRequired (.inl ⟨rfl, hown, Ne.symm hsame⟩) hy⟩

/-- Nothing throws if there is a base where one is looked for, and if its checksums can be
    made. -/
theorem infoEntry_isOk_iff {key : Number640} {hash : Number160} :
    (∃ o, rpc.infoEntry m isSyncFromOldVersion key [hash] = .ok o) ↔
      (StorageLayer.get m key = none → isSyncFromOldVersion = true → ∃ x v, Latest m key x v) ∧
        ∀ x v, IsBase m isSyncFromOldVersion key hash x v → ∃ cs, RSync.checksums v.buffer rpc.blockSize = .ok cs := by
  have hmap {x : Except JavaException Data} : (∃ o, some <$> x = .ok o) ↔ ∃ y, x = .ok y := by
    rcases x with e | z
    · exact ⟨fun ⟨_, h⟩ => (nomatch h), fun ⟨_, h⟩ => (nomatch h)⟩
    · exact ⟨fun _ => ⟨z, rfl⟩, fun _ => ⟨_, rfl⟩⟩
  unfold infoEntry
  dsimp only
  rcases hown : StorageLayer.get m key with _ | v
  · dsimp only
    cases hold : isSyncFromOldVersion with
    | false =>
        rw [if_neg Bool.false_ne_true]
        refine ⟨fun _ => ⟨fun _ htrue => absurd htrue Bool.false_ne_true, ?_⟩, fun _ => ⟨_, rfl⟩⟩
        rintro x v (⟨_, hstored, _⟩ | ⟨_, htrue, _⟩)
        · rw [hown] at hstored
          cases hstored
        · exact absurd htrue Bool.false_ne_true
    | true =>
        -- The base is the latest version, if there is one.
        rcases StorageLayer.getRange_latest m key with ⟨versions, hversions, hlast⟩
        rw [if_pos rfl, hversions, except_ok_bind, hlast]
        rcases hentry : (StorageLayer.visibleVersions m key).lastEntry with _ | e
        · refine ⟨fun ⟨_, h⟩ => (nomatch h), fun ⟨hex, _⟩ => ?_⟩
          rcases hex rfl rfl with ⟨x, v, hlatest⟩
          exact absurd hlatest (not_latest_of_empty hentry x v)
        · have hlatest := latest_of_lastEntry hentry
          simp only [Option.map_some]
          rw [hmap, syncRequired_isOk_iff]
          refine ⟨fun hcs => ⟨fun _ _ => ⟨_, _, hlatest⟩, ?_⟩, fun h => h.2 _ _ (.inr ⟨hown, rfl, hlatest⟩)⟩
          rintro x v (⟨_, hstored, _⟩ | ⟨_, _, hlatest'⟩)
          · rw [hown] at hstored
            cases hstored
          · rw [(hlatest'.unique hlatest).2]
            exact hcs
  · dsimp only
    -- The replica has the key, and compares the hashes.
    by_cases hsame : hash = v.hash
    · rw [if_pos hsame]
      refine ⟨fun _ => ⟨nofun, ?_⟩, fun _ => ⟨_, rfl⟩⟩
      rintro x v' (⟨_, hstored, hne⟩ | ⟨hnone, _⟩)
      · rw [hown] at hstored
        cases hstored
        exact absurd hsame.symm hne
      · rw [hown] at hnone
        cases hnone
    · rw [if_neg hsame, hmap, syncRequired_isOk_iff]
      refine ⟨fun hcs => ⟨nofun, ?_⟩, fun h => h.2 key v (.inl ⟨rfl, hown, Ne.symm hsame⟩)⟩
      rintro x v' (⟨_, hstored, _⟩ | ⟨hnone, _⟩)
      · rw [hown] at hstored
        cases hstored
        exact hcs
      · rw [hown] at hnone
        cases hnone

/-! ### A request -/

variable (rpc m isSyncFromOldVersion)

/-- The request is answered, and the answer has a value for each key with one hash. -/
def Answered (keysMap : NavMap Number640 (List Number160)) : Prop :=
  ∃ retVal, rpc.handleInfo m isSyncFromOldVersion keysMap = some retVal ∧
    ∀ key hash, keysMap.get key = some [hash] →
      ∃ y, retVal.get key = some y ∧ Answers rpc m isSyncFromOldVersion key hash y

-- A key with no hash or with several has no answer, which does no harm.
theorem infoEntry_other {key : Number640} {hashes : List Number160} (h : ∀ hash, hashes ≠ [hash]) :
    rpc.infoEntry m isSyncFromOldVersion key hashes = .ok none := by
  rcases hashes with _ | ⟨hash, _ | ⟨hash', rest⟩⟩
  · rfl
  · exact absurd rfl (h hash)
  · rfl

theorem toOption_isSome_iff {α : Type} {x : Except JavaException α} : x.toOption.isSome = true ↔ ∃ a, x = .ok a := by
  rcases x with e | a
  · exact ⟨fun h => absurd h Bool.false_ne_true, fun ⟨_, h⟩ => (nomatch h)⟩
  · exact ⟨fun _ => ⟨a, rfl⟩, fun _ => rfl⟩

/-- A request is answered if there is a version to start from for each key that is
    looked for in the old versions and that has no value, and if no base is so long that
    its blocks cannot be counted. -/
theorem answered_iff (hblock : 1 ≤ rpc.blockSize) (hblockint : rpc.blockSize < 2 ^ 31)
    (hint : ∀ key v, StorageLayer.get m key = some v → v.buffer.length < 2 ^ 31)
    (keysMap : NavMap Number640 (List Number160)) :
    Answered rpc m isSyncFromOldVersion keysMap ↔ ∀ key hash, keysMap.get key = some [hash] →
      (StorageLayer.get m key = none → isSyncFromOldVersion = true → ∃ x v, Latest m key x v) ∧
        ∀ x v, IsBase m isSyncFromOldVersion key hash x v →
          v.buffer.length + rpc.blockSize ≤ 2 ^ 31 ∨ 2 ^ 32 + 1 < v.buffer.length + 2 * rpc.blockSize := by
  have hentry (key : Number640) (hash : Number160) :
      (∃ o, rpc.infoEntry m isSyncFromOldVersion key [hash] = .ok o) ↔
        (StorageLayer.get m key = none → isSyncFromOldVersion = true → ∃ x v, Latest m key x v) ∧
          ∀ x v, IsBase m isSyncFromOldVersion key hash x v →
            v.buffer.length + rpc.blockSize ≤ 2 ^ 31 ∨ 2 ^ 32 + 1 < v.buffer.length + 2 * rpc.blockSize := by
    rw [infoEntry_isOk_iff]
    refine and_congr_right fun _ => forall_congr' fun x => forall_congr' fun v => imp_congr_right fun hbase => ?_
    have hlen : v.buffer.length < 2 ^ 31 := by
      rcases hbase with ⟨_, hstored, _⟩ | ⟨_, _, hlatest⟩
      · exact hint key v hstored
      · exact hint x v hlatest.stored
    exact RSync.checksums_isOk_iff hblock hblockint hlen
  refine ⟨?_, ?_⟩
  · rintro ⟨retVal, hretVal, _⟩ key hash hkey
    rw [← hentry]
    by_contra hthrows
    -- The key takes the answer from all of them.
    have hnone : (rpc.infoEntry m isSyncFromOldVersion key [hash]).toOption = none := by
      rcases ho : rpc.infoEntry m isSyncFromOldVersion key [hash] with e | o
      · rfl
      · exact absurd ⟨o, ho⟩ hthrows
    rw [handleInfo, filterMapM_none ((get_eq_some_iff _ _ _).mp hkey) hnone] at hretVal
    cases hretVal
  · intro h
    have hall : ∀ e ∈ keysMap.entries, (rpc.infoEntry m isSyncFromOldVersion e.1 e.2).toOption.isSome = true := by
      intro e he
      rw [toOption_isSome_iff]
      by_cases hone : ∃ hash, e.2 = [hash]
      · rcases hone with ⟨hash, hhash⟩
        rw [hhash, hentry]
        exact h e.1 hash (hhash ▸ (get_eq_some_iff _ _ _).mpr he)
      · exact ⟨none, infoEntry_other rpc m isSyncFromOldVersion fun hash heq => hone ⟨hash, heq⟩⟩
    rcases filterMapM_total
      (f := fun key hashes => (rpc.infoEntry m isSyncFromOldVersion key hashes).toOption) hall with ⟨retVal, hretVal, hget⟩
    refine ⟨retVal, hretVal, ?_⟩
    intro key hash hkey
    rcases (hentry key hash).mpr (h key hash hkey) with ⟨o, ho⟩
    rcases infoEntry_ok ho with ⟨y, rfl, hy⟩
    refine ⟨y, ?_, hy⟩
    rw [hget, hkey, Option.bind_some, ho]
    rfl

/-- A request for a key of which there is no version. -/
theorem not_answered_unknown :
    ¬Answered {} {} true (NavMap.empty.put SyncBuilder.someKey [0]) := by
  rintro ⟨retVal, hretVal, _⟩
  have hnone : handleInfo {} {} true (NavMap.empty.put SyncBuilder.someKey [0]) = none := by decide
  rw [hnone] at hretVal
  cases hretVal

/-- A stored value with another hash, and a later version of it that is not stored: both are answered
    with the checksums of the stored value. -/
theorem answered_mixed :
    Answered {} (SyncBuilder.storeOf SyncBuilder.outdated) true ((NavMap.empty.put SyncBuilder.someKey [0]).put
      { SyncBuilder.someKey with versionKey := ⟨0, 0, 0, 0, 5⟩ } [0]) := by
  have hlength (key : Number640) (v : Data)
      (hv : StorageLayer.get (SyncBuilder.storeOf SyncBuilder.outdated) key = some v) : v.buffer.length = 1 := by
    rw [SyncBuilder.get_storeOf hv]
    rfl
  refine (answered_iff {} _ true (by decide) (by decide) ?_ _).mpr ?_
  · intro key v hv
    rw [hlength key v hv]
    decide
  · intro key hash hkey
    have hbase (x : Number640) (v : Data)
        (h : StorageLayer.get (SyncBuilder.storeOf SyncBuilder.outdated) x = some v) :
        v.buffer.length + ({} : SyncRPC).blockSize ≤ 2 ^ 31 := by
      rw [hlength x v h]
      decide
    refine ⟨fun _ _ => ?_, ?_⟩
    · have hcontent : ∀ e ∈ ((NavMap.empty.put SyncBuilder.someKey [(0 : Number160)]).put
          { SyncBuilder.someKey with versionKey := ⟨0, 0, 0, 0, 5⟩ } [0]).entries,
          (StorageLayer.visibleVersions (SyncBuilder.storeOf SyncBuilder.outdated) e.1).lastEntry.isSome = true := by
        decide +kernel
      obtain ⟨e, he⟩ := Option.isSome_iff_exists.mp (hcontent _ ((get_eq_some_iff _ _ _).mp hkey))
      exact ⟨e.1, _, latest_of_lastEntry he⟩
    · rintro x v (⟨rfl, hstored, _⟩ | ⟨_, _, hlatest⟩)
      · exact .inl (hbase x v hstored)
      · exact .inl (hbase x v hlatest.stored)

end SyncRPC

end TomP2P
