import TomP2P.Theory.PutOutcome
import TomP2P.Theory.Removal
import TomP2P.Core.Sync

/-!
# Keys that are Synchronized

What a replica does with one key of a synchronization.

The key is changed to a value, removed or left alone, and it is reported only if it has
been changed to the value (`SyncRPC.EntryEffect`). A write without a limit on the
versions touches no other key. Neither does the replication that listens, unless it
drops a location because something in it has been removed (`SyncRPC.Quiet`).

## Main definitions

* `SyncRPC.Quiet`: The replication drops nothing.
* `SyncRPC.Patched`: The value a difference gives.
* `SyncRPC.EntryEffect`: What a key is changed to.

## Theorems

* `StorageLayer.put_cases`, `StorageLayer.remove_cases`: One write, and one removal.
* `SyncRPC.syncEntry_effect`: One key of a synchronization.
-/

namespace TomP2P

open Wire Effect NavMap StorageMemory

/-! ### One key of the store -/

namespace StorageLayer

variable {sl : StorageLayer} {m m' : StorageMemory} {key : Number640} {publicKey : Option PublicKey}

/-- Without a version limit nothing is removed after a write. -/
theorem versionLoop_of_no_limit (hmax : sl.maxVersions.toInt ≤ 0) (keys : List Number480)
    (retVal : NavMap Number640 PutStatus) (m : StorageMemory) : (sl.versionLoop keys retVal m).2 = m := by
  induction keys generalizing retVal with
  | nil => rfl
  | cons key keys ih =>
      rw [versionLoop, if_neg (not_lt.mpr hmax)]
      exact ih _

/-- A write changes its own key or nothing. It is answered with `OK` only for a value
    that is there and can be seen. -/
theorem put_cases {newData : Data} {putIfAbsent domainProtection sendSelf : Bool} {status : PutStatus}
    (hmax : sl.maxVersions.toInt ≤ 0)
    (h : sl.put key newData publicKey putIfAbsent domainProtection sendSelf m = .ok status m') :
    (∀ x, x ≠ key → m'.get x = m.get x) ∧
      ((m'.get key = m.get key ∧ status ≠ .OK) ∨
        (m'.get key = some newData ∧ (status = .OK → newData.prepareFlag = false))) := by
  obtain ⟨retVal, hall, hstatus⟩ := (map_ok_iff _ _ _ _ _).mp h
  obtain ⟨retVal₁, m₁, hloop, -, -, hkeys⟩ := sl.putAll_outcome _ _ _ _ _ _ _ _ hall
  have hsame : m' = m₁ := by
    rw [putAll] at hall
    obtain ⟨retVal₂, m₂, hloop₂, hrest⟩ := (bind_ok_iff _ _ _ _ _).mp hall
    rw [hloop] at hloop₂
    cases hloop₂
    cases hrest
    exact versionLoop_of_no_limit hmax _ _ _
  obtain ⟨hforked, hnot, -⟩ := hkeys key ((mem_keys_iff _ _).mpr (by simp [NavMap.contains]))
  -- The loop has one pass.
  have hentries : (NavMap.empty.put key newData : NavMap Number640 Data).entries = [(key, newData)] := rfl
  rw [hentries, putLoop] at hloop
  obtain ⟨status₁, m₂, hput, hrest⟩ := (bind_ok_iff _ _ _ _ _).mp hloop
  cases hrest
  have hothers : ∀ x, x ≠ key → m₁.get x = m.get x := by
    intro x hx
    have hother := sl.putEntry_other m publicKey putIfAbsent domainProtection sendSelf key newData x hx
    rwa [after_ok _ _ _ _ hput] at hother
  have hok : status = .OK → status₁ = .OK := by
    intro hOK
    by_cases hf : ForkedHead m₁ key ∧ (NavMap.empty.put key status₁).contains key = true
    · rw [hforked hf, hOK] at hstatus
      cases hstatus
    · rw [hnot hf, get_put_self, Option.getD_some] at hstatus
      exact hstatus.trans hOK
  rw [hsame]
  refine ⟨hothers, ?_⟩
  rcases sl.putEntry_cases m publicKey putIfAbsent domainProtection sendSelf key newData status₁ m₁ hput with
    ⟨hrej, hm₁⟩ | ⟨-, hst, hm₁⟩
  · refine .inl ⟨by rw [hm₁, owned_get], fun hOK => ?_⟩
    have hone := hok hOK
    rcases sl.rejection_status m publicKey putIfAbsent domainProtection sendSelf key newData status₁ hrej with
      h | h | h | h <;> exact absurd (h.symm.trans hone) (by decide)
  · refine .inr ⟨?_, fun hOK => ?_⟩
    · rw [hm₁, StorageMemory.get, store_dataMap, get_put_self]
    · rw [hok hOK, Data.hasPrepareFlag] at hst
      cases hprepare : newData.prepareFlag with
      | false => rfl
      | true =>
          rw [hprepare] at hst
          cases hst

/-- A removal takes its own key or nothing. -/
theorem remove_takes {returnData : Bool} {result : Option Data × PutStatus}
    (h : sl.remove key publicKey returnData m = .ok result m') :
    (∀ x, x ≠ key → m'.get x = m.get x) ∧ (m'.get key = m.get key ∨ m'.get key = none) := by
  rcases sl.remove_cases key publicKey returnData m with hrem | hrem
  · rw [after_ok _ _ _ _ h] at hrem
    rw [hrem]
    exact ⟨fun _ _ => rfl, .inl rfl⟩
  · rw [after_ok _ _ _ _ h] at hrem
    rw [hrem]
    refine ⟨fun x hx => ?_, .inr ?_⟩
    · rw [StorageMemory.get, remove_dataMap, removeTimeout_dataMap]
      exact get_remove_ne _ _ _ hx
    · rw [StorageMemory.get, remove_dataMap]
      exact get_remove_self _ _

end StorageLayer

/-! ### The replication that listens -/

namespace Replication

variable {r : Replication} {n : Neighborhood} {answers : Answers} {s : State} {locationKey : Number160}

theorem removeResponsibility_get (hkeep : r.keepData = true) (x : Number640) :
    (r.removeResponsibility s locationKey).store.get x = s.store.get x := by
  obtain ⟨m', heq, -, -, -, -, hget⟩ := StorageLayer.after_removeResponsibility locationKey r.keepData s.store
  obtain ⟨_, _, hsame⟩ := removeResponsibility_eq m' locationKey
  unfold removeResponsibility
  dsimp only
  rw [heq, hsame]
  refine (hget x).trans (if_neg fun h => ?_)
  rw [hkeep] at h
  cases h.1

theorem notify_get {removes : Bool} (hkeep : removes = true → r.keepData = true) (notice : Notice) (x : Number640) :
    (r.notify answers s notice removes).store.get x = s.store.get x := by
  unfold notify
  dsimp only
  by_cases hdrop : (removes && decide (answers notice = some true)) = true
  · rw [if_pos hdrop]
    exact removeResponsibility_get (hkeep ((Bool.and_eq_true _ _).mp hdrop).1) x
  · rw [if_neg hdrop]

theorem updateAndNotify_get (peerId : Number160) (notice : Notice) (x : Number640) :
    (r.updateAndNotify answers s locationKey peerId notice).store.get x = s.store.get x := by
  have hupdate : (s.store.updateResponsibilities locationKey peerId).get x = s.store.get x := by
    rw [updateResponsibilities_eq]
    rfl
  unfold updateAndNotify
  dsimp only
  by_cases hchanged : s.store.hasChanged locationKey peerId = true
  · rw [if_pos hchanged, notify_get (fun h => by cases h)]
    exact hupdate
  · rw [if_neg hchanged]
    exact hupdate

/-- An insertion drops no value if values are kept, or if there is one root only. -/
theorem dataInserted_get (h : n.isReplication = true → r.keepData = false → r.nRootReplication = false) (x : Number640) :
    (r.dataInserted n answers s locationKey).store.get x = s.store.get x := by
  unfold dataInserted
  dsimp only
  by_cases hlisten : (!n.isReplication) = true
  · rw [if_pos hlisten]
  · rw [if_neg hlisten]
    have hreplication : n.isReplication = true := by simpa using hlisten
    by_cases hroot : (!r.nRootReplication) = true
    · rw [if_pos hroot]
      split
      · exact updateAndNotify_get _ _ x
      · exact updateAndNotify_get _ _ x
    · rw [if_neg hroot]
      have hkeep : r.keepData = true := by
        cases hk : r.keepData with
        | true => rfl
        | false =>
            rw [h hreplication hk] at hroot
            exact absurd rfl hroot
      split
      · exact updateAndNotify_get _ _ x
      · exact notify_get (fun _ => hkeep) _ x

end Replication

namespace SyncRPC

/-- The replication drops no value that is inserted, and drops a location with a removal
    only if nothing is removed. -/
structure Quiet (replicationListener : Option ReplicationListener) (removes : Prop) : Prop where
  inserted : ∀ l, replicationListener = some l → l.Drops → l.replication.nRootReplication = false
  removed : ∀ l, replicationListener = some l → l.Drops → ¬removes

variable {replicationListener : Option ReplicationListener} {removes : Prop} {s s' : Replication.State}

theorem Quiet.dataInserted (h : Quiet replicationListener removes) {locationKey : Number160}
    (hrun : ReplicationListener.dataInserted replicationListener locationKey s = .ok () s') (x : Number640) :
    s'.store.get x = s.store.get x := by
  cases replicationListener with
  | none =>
      cases hrun
      rfl
  | some l =>
      cases hrun
      exact Replication.dataInserted_get (fun h₁ h₂ => h.inserted l rfl ⟨h₁, h₂⟩) x

theorem Quiet.dataRemoved (h : Quiet replicationListener removes) (hremoves : removes) {locationKey : Number160}
    (hrun : ReplicationListener.dataRemoved replicationListener locationKey s = .ok () s') (x : Number640) :
    s'.store.get x = s.store.get x := by
  cases replicationListener with
  | none =>
      cases hrun
      rfl
  | some l =>
      cases hrun
      unfold Replication.dataRemoved
      dsimp only
      by_cases hlisten : l.neighborhood.isReplication = true
      · rw [if_pos hlisten]
        refine Replication.removeResponsibility_get ?_ x
        cases hk : l.replication.keepData with
        | true => rfl
        | false => exact absurd hremoves (h.removed l rfl ⟨hlisten, hk⟩)
      · rw [if_neg hlisten]

/-! ### One key of a synchronization -/

variable {rpc : SyncRPC} {publicKey : Option PublicKey} {key : Number640} {data : Data} {stored : Bool}

/-- The value a difference gives. -/
def Patched (rpc : SyncRPC) (m : StorageMemory) (key : Number640) (data z : Data) : Prop :=
  ∃ versionKey buf hash buf' instructions dataOld value,
    SyncUtils.decodeHeader data.buffer = .ok (versionKey, buf) ∧ SyncUtils.decodeHeader buf = .ok (hash, buf') ∧
      SyncUtils.decodeInstructions buf' = .ok instructions ∧
      StorageLayer.get m (key.locationAndDomainAndContentKey.version versionKey) = some dataOld ∧
      dataOld.hash = hash ∧ RSync.reconstruct dataOld.buffer instructions rpc.blockSize = .ok value ∧
      z = Data.new value rpc.now

/-- A key changes to a value with `P`, is removed, or is left alone. It is reported only
    in the first case. The other keys are left alone. -/
structure EntryEffect (m m' : StorageMemory) (key : Number640) (stored : Bool) (P : Data → Prop) : Prop where
  others : ∀ x, x ≠ key → m'.get x = m.get x
  reported : stored = true → ∃ z, m'.get key = some z ∧ z.prepareFlag = false ∧ P z
  own : m'.get key = m.get key ∨ m'.get key = none ∨ ∃ z, m'.get key = some z ∧ P z

theorem EntryEffect.refl (m : StorageMemory) (key : Number640) (P : Data → Prop) : EntryEffect m m key false P :=
  ⟨fun _ _ => rfl, fun h => (by cases h), .inl rfl⟩

theorem EntryEffect.imp {m m' : StorageMemory} {P Q : Data → Prop} (h : EntryEffect m m' key stored P)
    (hPQ : ∀ z, P z → Q z) : EntryEffect m m' key stored Q := by
  refine ⟨h.others, fun hs => ?_, ?_⟩
  · obtain ⟨z, hz, hprepare, hP⟩ := h.reported hs
    exact ⟨z, hz, hprepare, hPQ z hP⟩
  · rcases h.own with hsame | hnone | ⟨z, hz, hP⟩
    · exact .inl hsame
    · exact .inr (.inl hnone)
    · exact .inr (.inr ⟨z, hz, hPQ z hP⟩)

/-- A program over the store alone. -/
theorem onStore_ok {α : Type} {program : StoreM α} {a : α} (h : onStore program s = .ok a s') :
    program s.store = .ok a s'.store := by
  unfold onStore at h
  rcases hrun : program s.store with ⟨b, m⟩ | ⟨e, m⟩
  · rw [hrun] at h
    cases h
    rfl
  · rw [hrun] at h
    cases h

theorem storeEntry_effect (hmax : rpc.storageLayer.maxVersions.toInt ≤ 0) (hquiet : Quiet rpc.replicationListener removes)
    (h : rpc.storeEntry publicKey key data s = .ok stored s') :
    EntryEffect s.store s'.store key stored (· = data) := by
  unfold storeEntry at h
  obtain ⟨status, s₁, hput, h⟩ := (bind_ok_iff _ _ _ _ _).mp h
  obtain ⟨hothers, hown⟩ := StorageLayer.put_cases hmax (onStore_ok hput)
  by_cases hok : status = .OK
  · rw [if_pos hok] at h
    obtain ⟨_, s₂, hinserted, h⟩ := (bind_ok_iff _ _ _ _ _).mp h
    cases h
    have hsame := hquiet.dataInserted hinserted
    obtain ⟨hdata, hprepare⟩ := hown.resolve_left fun hno => hno.2 hok
    have hstored : s'.store.get key = some data := (hsame key).trans hdata
    exact ⟨fun x hx => (hsame x).trans (hothers x hx), fun _ => ⟨data, hstored, hprepare hok, rfl⟩,
      .inr (.inr ⟨data, hstored, rfl⟩)⟩
  · rw [if_neg hok] at h
    cases h
    refine ⟨hothers, fun hfalse => (by cases hfalse), ?_⟩
    rcases hown with ⟨hsame, -⟩ | ⟨hdata, -⟩
    · exact .inl hsame
    · exact .inr (.inr ⟨data, hdata, rfl⟩)

theorem patchEntry_effect (hmax : rpc.storageLayer.maxVersions.toInt ≤ 0) (hquiet : Quiet rpc.replicationListener removes)
    (h : rpc.patchEntry publicKey key data s = .ok stored s') :
    EntryEffect s.store s'.store key stored (rpc.Patched s.store key data) := by
  unfold patchEntry at h
  rcases hversion : SyncUtils.decodeHeader data.buffer with e | ⟨versionKey, buf⟩
  · rw [hversion] at h
    cases h
  rw [hversion, bind_apply, ofExcept_ok] at h
  dsimp only at h
  rcases hhash : SyncUtils.decodeHeader buf with e | ⟨hash, buf'⟩
  · rw [hhash] at h
    cases h
  rw [hhash, bind_apply, ofExcept_ok] at h
  dsimp only at h
  rcases his : SyncUtils.decodeInstructions buf' with e | is
  · rw [his] at h
    cases h
  rw [his, bind_apply, ofExcept_ok] at h
  dsimp only at h
  rw [bind_apply, get_apply] at h
  dsimp only at h
  rcases hold : StorageLayer.get s.store (key.locationAndDomainAndContentKey.version versionKey) with _ | dataOld
  · rw [hold] at h
    cases h
    exact EntryEffect.refl _ _ _
  rw [hold] at h
  dsimp only at h
  by_cases hne : dataOld.hash ≠ hash
  · rw [if_pos hne] at h
    cases h
    exact EntryEffect.refl _ _ _
  rw [if_neg hne] at h
  rcases hvalue : RSync.reconstruct dataOld.buffer is rpc.blockSize with e | value
  · rw [hvalue] at h
    cases h
  rw [hvalue, bind_apply, ofExcept_ok] at h
  dsimp only at h
  refine (storeEntry_effect hmax hquiet h).imp fun z hz => ?_
  exact ⟨versionKey, buf, hash, buf', is, dataOld, value, hversion, hhash, his, hold, not_ne_iff.mp hne, hvalue, hz⟩

/-- What is stored for a key: the difference applied, or the value. -/
theorem syncEntry_effect (hmax : rpc.storageLayer.maxVersions.toInt ≤ 0) (hquiet : Quiet rpc.replicationListener removes)
    (hremoves : data.flag2 = true → removes) (h : rpc.syncEntry publicKey key data s = .ok stored s') :
    EntryEffect s.store s'.store key stored fun z =>
      if data.flag1 then rpc.Patched s.store key data z else z = data := by
  unfold syncEntry at h
  by_cases hflag2 : data.flag2 = true
  · rw [if_pos hflag2] at h
    obtain ⟨_, s₁, hremove, h⟩ := (bind_ok_iff _ _ _ _ _).mp h
    cases h
    unfold removeEntry at hremove
    obtain ⟨result, s₂, hrun, hlisten⟩ := (bind_ok_iff _ _ _ _ _).mp hremove
    obtain ⟨hothers, hown⟩ := StorageLayer.remove_takes (onStore_ok hrun)
    have hsame : ∀ x, s'.store.get x = s₂.store.get x := by
      intro x
      by_cases hok : result.2 = .OK
      · rw [if_pos hok] at hlisten
        exact hquiet.dataRemoved (hremoves hflag2) hlisten x
      · rw [if_neg hok] at hlisten
        cases hlisten
        rfl
    refine ⟨fun x hx => (hsame x).trans (hothers x hx), fun hfalse => (by cases hfalse), ?_⟩
    rcases hown with hkeep | hnone
    · exact .inl ((hsame key).trans hkeep)
    · exact .inr (.inl ((hsame key).trans hnone))
  · rw [if_neg hflag2] at h
    by_cases hlength : 0 < data.length.toInt
    · rw [if_pos hlength] at h
      cases hflag1 : data.flag1 with
      | true =>
          rw [hflag1, if_pos rfl] at h
          exact (patchEntry_effect hmax hquiet h).imp fun z hz => by rwa [if_pos rfl]
      | false =>
          rw [hflag1, if_neg Bool.false_ne_true] at h
          exact (storeEntry_effect hmax hquiet h).imp fun z hz => by rwa [if_neg Bool.false_ne_true]
    · rw [if_neg hlength] at h
      cases h
      exact EntryEffect.refl _ _ _

end SyncRPC

end TomP2P
