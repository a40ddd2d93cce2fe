import TomP2P.Core.StorageRPC
import TomP2P.Theory.RemoveAnswers
import TomP2P.Theory.Responsibility

/-!
# What a Request to Remove Values Removes

A request names the keys it removes, and the replication is told the locations of these
keys. It drops a location that it is told then, with all values there is. So a request
removes values that it does not name if a location of a key that was removed has other
values. A range whose values are sent back is worse: the keys that were refused are in
the answer as well, and their locations are dropped too.

## Main definitions

* `Removal`, `Removal.Addressed`: A request or an entry of a synchronization, and the
  keys it names.
* `Removal.Notifies`: The location of a key is told to the replication.

## Theorems

* `effects_removeAndNotify`, `effects_removeCollection`, `effects_removeRange`: The parts of
  a request.
* `Removal.effects`: What is gone after a request.
* `Removal.spares_iff`: When a request removes nothing else.
-/

namespace TomP2P

open StorageMemory Effect NavMap StorageRPC

namespace StorageLayer

variable {sl : StorageLayer} {publicKey : Option PublicKey}

/-- Removing a key: it is gone if it may be removed, and the status says so. -/
theorem effects_remove (h : ¬sl.Throws publicKey) (m : StorageMemory) (key : Number640) (returnData : Bool) :
    ∃ data m', sl.remove key publicKey returnData m = .ok data m' ∧
      Effects m m' (fun k => k = key ∧ sl.Removable publicKey m key) ∧
      (data.2 = .OK ↔ sl.Removable publicKey m key) ∧ (data.1.isSome = true ↔ sl.Removable publicKey m key) := by
  rw [remove_spec h]
  unfold Removable
  have hnothing (hnot : ¬((m.get key).isSome = true ∧ sl.claimable m publicKey key = true)) :
      Effects m m fun k => k = key ∧ (m.get key).isSome = true ∧ sl.claimable m publicKey key = true :=
    (Effects.refl m).congr fun k _ => iff_of_false (fun hand => hnot hand.2) id
  by_cases hmay : sl.claimable m publicKey key = true
  · by_cases hsome : (m.get key).isSome = true
    · rw [if_pos hmay, if_pos hsome]
      refine ⟨_, _, rfl, (effects_drop m key).congr fun k _ => ?_, iff_of_true rfl ⟨hsome, hmay⟩,
        iff_of_true hsome ⟨hsome, hmay⟩⟩
      exact and_iff_left ⟨hsome, hmay⟩
    · rw [if_pos hmay, if_neg hsome]
      refine ⟨_, _, rfl, hnothing fun hand => hsome hand.1, ?_⟩
      simp [hsome]
  · rw [if_neg hmay]
    refine ⟨_, _, rfl, hnothing fun hand => hmay hand.2, ?_⟩
    simp [hmay]

theorem remove_error (h : sl.Throws publicKey) (m : StorageMemory) (key : Number640) (returnData : Bool) :
    ∃ e, sl.remove key publicKey returnData m = .error e m := by
  obtain ⟨e, he⟩ := grants_of_throws h m key
  exact ⟨e, by rw [remove_eq, he]⟩

end StorageLayer

open StorageLayer

variable {sl : StorageLayer} {publicKey : Option PublicKey} {l : ReplicationListener}

/-- Somebody listens, and data is not kept. -/
def ReplicationListener.Drops (l : ReplicationListener) : Prop :=
  l.neighborhood.isReplication = true ∧ l.replication.keepData = false

/-! ### Telling the replication -/

section Telling

variable {E : Type} (loc : E → Number160) (P : E → Prop)

/-- A location that the replication is told is dropped with all of its values. -/
theorem effects_notify (hl : l.Drops) (locationKey : Number160) (status : PutStatus) (s : Replication.State) :
    ∃ s', notifyRemoveResponsibility (some l) locationKey status s = .ok () s' ∧
      Effects s.store s'.store fun k => status = .OK ∧ k.locationKey = locationKey := by
  unfold notifyRemoveResponsibility ReplicationListener.dataRemoved
  by_cases hok : status = .OK
  · obtain ⟨m', heq, -, -, hprotected, hentry, hget⟩ :=
      StorageLayer.after_removeResponsibility locationKey false s.store
    obtain ⟨_, _, hsame⟩ := removeResponsibility_eq m' locationKey
    have hstore : (l.replication.dataRemoved l.neighborhood s locationKey).store =
        m'.removeResponsibility locationKey := by
      unfold Replication.dataRemoved Replication.removeResponsibility
      rw [if_pos hl.1, hl.2]
      exact heq
    rw [if_pos hok]
    refine ⟨_, rfl, ?_⟩
    rw [hstore, hsame]
    refine ⟨hprotected, hentry, fun k hk => ?_, fun k hk => ?_⟩
    · exact (hget k).trans (if_pos ⟨rfl, hk.2⟩)
    · exact (hget k).trans (if_neg fun hand => hk ⟨hok, hand.2⟩)
  · rw [if_neg hok]
    exact ⟨s, rfl, (Effects.refl s.store).congr fun k _ => iff_of_false (fun hand => hok hand.1) id⟩

/-- A loop that tells the locations of some entries. -/
theorem effects_forM (f : E → ReplicaM Unit)
    (hf : ∀ e s, ∃ s', f e s = .ok () s' ∧ Effects s.store s'.store fun k => P e ∧ k.locationKey = loc e)
    (entries : List E) (s : Replication.State) :
    ∃ s', entries.forM f s = .ok () s' ∧
      Effects s.store s'.store fun k => ∃ e ∈ entries, P e ∧ k.locationKey = loc e := by
  induction entries generalizing s with
  | nil =>
      refine ⟨s, rfl, (Effects.refl s.store).congr fun k _ => iff_of_false ?_ id⟩
      rintro ⟨e, he, -⟩
      exact absurd he List.not_mem_nil
  | cons e entries ih =>
      obtain ⟨s₁, hstep, heffects⟩ := hf e s
      obtain ⟨s', hloop, heffects'⟩ := ih s₁
      refine ⟨s', ?_, (heffects.trans heffects').congr fun k _ => ?_⟩
      · have hcons : (e :: entries).forM f = f e >>= fun _ => entries.forM f := rfl
        rw [hcons, bind_apply, hstep]
        exact hloop
      · simp

end Telling

theorem effects_answerData (hl : l.Drops) (result1 : NavMap Number640 (Option Data)) (s : Replication.State) :
    ∃ response s', answerData (some l) result1 s = .ok response s' ∧
      Effects s.store s'.store fun k => ∃ key ∈ result1.keys, k.locationKey = key.locationKey := by
  obtain ⟨s', hloop, heffects⟩ := effects_forM (fun e : Number640 × Option Data => e.1.locationKey) (fun _ => True)
    (fun e => notifyRemoveResponsibility (some l) e.1.locationKey .OK)
    (fun e s => by
      obtain ⟨s', hstep, heffects⟩ := effects_notify hl e.1.locationKey .OK s
      exact ⟨s', hstep, heffects.congr fun k _ => by simp⟩)
    result1.entries s
  refine ⟨.dataMap result1, s', ?_, heffects.congr fun k _ => ?_⟩
  · unfold answerData
    rw [bind_apply, hloop]
    rfl
  · unfold NavMap.keys
    simp

theorem effects_answerStatus (hl : l.Drops) (result2 : NavMap Number640 Wire.Byte) (s : Replication.State) :
    ∃ response s', answerStatus (some l) result2 s = .ok response s' ∧
      Effects s.store s'.store fun k =>
        ∃ key, result2.get key = some PutStatus.OK.ordinal ∧ k.locationKey = key.locationKey := by
  obtain ⟨s', hloop, heffects⟩ := effects_forM (fun e : Number640 × Wire.Byte => e.1.locationKey)
    (fun e => e.2 = PutStatus.OK.ordinal)
    (fun e => if e.2 = PutStatus.OK.ordinal then notifyRemoveResponsibility (some l) e.1.locationKey .OK else pure ())
    (fun e s => by
      by_cases hok : e.2 = PutStatus.OK.ordinal
      · obtain ⟨s', hstep, heffects⟩ := effects_notify hl e.1.locationKey .OK s
        rw [if_pos hok]
        exact ⟨s', hstep, heffects.congr fun k _ => by simp [hok]⟩
      · rw [if_neg hok]
        exact ⟨s, rfl, (Effects.refl _).congr fun k _ => by simp [hok]⟩)
    result2.entries s
  refine ⟨.keyMapByte result2, s', ?_, heffects.congr fun k _ => ?_⟩
  · unfold answerStatus
    rw [bind_apply, hloop]
    rfl
  · constructor
    · rintro ⟨key, hkey, hk⟩
      exact ⟨(key, _), (get_eq_some_iff _ _ _).mp hkey, rfl, hk⟩
    · rintro ⟨e, he, hok, hk⟩
      exact ⟨e.1, (get_eq_some_iff _ _ _).mpr (hok ▸ he), hk⟩

theorem onStore_ok {α : Type} {program : StoreM α} {s : Replication.State} {a : α} {m : StorageMemory}
    (h : program s.store = .ok a m) : onStore program s = .ok a { s with store := m } := by
  unfold onStore
  rw [h]

theorem onStore_error {α : Type} {program : StoreM α} {s : Replication.State} {e : JavaException}
    (h : program s.store = .error e s.store) : onStore program s = .error e s := by
  unfold onStore
  rw [h]

/-- A key of a collection. Its location is gone if it may be removed. -/
theorem effects_removeAndNotify (hl : l.Drops) (h : ¬sl.Throws publicKey) (sendBackResults : Bool) (key : Number640)
    (s : Replication.State) :
    ∃ data s', removeAndNotify sl (some l) publicKey sendBackResults key s = .ok data s' ∧
      Effects s.store s'.store (fun k => sl.Removable publicKey s.store key ∧ k.locationKey = key.locationKey) ∧
      (data.2 = .OK ↔ sl.Removable publicKey s.store key) ∧
      (data.1.isSome = true ↔ sl.Removable publicKey s.store key) := by
  obtain ⟨data, m', hremove, heffects, hstatus, hdata⟩ := effects_remove h s.store key sendBackResults
  obtain ⟨s', hnotify, heffects'⟩ := effects_notify hl key.locationKey data.2 { s with store := m' }
  refine ⟨data, s', ?_, (heffects.trans heffects').congr fun k _ => ?_, hstatus, hdata⟩
  · unfold removeAndNotify
    rw [bind_apply, onStore_ok hremove]
    dsimp only
    rw [bind_apply, hnotify]
    rfl
  · rw [hstatus]
    refine ⟨.inr, ?_⟩
    rintro (⟨rfl, hremovable⟩ | hgone)
    · exact ⟨hremovable, rfl⟩
    · exact hgone

/-- A loop over the keys of a collection. An answer that has only keys that were removed
    has only keys that could be from the start. -/
theorem effects_collectionLoop (hl : l.Drops) (h : ¬sl.Throws publicKey) (sendBackResults : Bool) {β : Type}
    (g : β → Number640 → Option Data × PutStatus → β) (Holds : β → Number640 → Prop)
    (hg : ∀ b key data k, Holds (g b key data) k → Holds b k ∨ k = key ∧ (data.2 = .OK ∨ data.1.isSome = true))
    (keys : List Number640) (s : Replication.State) (b : β) :
    ∃ b' s', (keys.foldlM (fun b key => do
        let data ← removeAndNotify sl (some l) publicKey sendBackResults key
        return g b key data) b : ReplicaM β) s = .ok b' s' ∧
      Effects s.store s'.store
        (fun k => ∃ key ∈ keys, sl.Removable publicKey s.store key ∧ k.locationKey = key.locationKey) ∧
      ∀ k, Holds b' k → Holds b k ∨ k ∈ keys ∧ sl.Removable publicKey s.store k := by
  induction keys generalizing s b with
  | nil =>
      refine ⟨b, s, rfl, (Effects.refl s.store).congr fun k _ => iff_of_false ?_ id, fun k hk => .inl hk⟩
      rintro ⟨key, hkey, -⟩
      exact absurd hkey List.not_mem_nil
  | cons key keys ih =>
      obtain ⟨data, s₁, hstep, heffects, hstatus, hdata⟩ := effects_removeAndNotify hl h sendBackResults key s
      obtain ⟨b', s', hloop, heffects', hholds⟩ := ih s₁ (g b key data)
      refine ⟨b', s', ?_, (heffects.trans heffects').congr fun k _ => ?_, fun k hk => ?_⟩
      · rw [List.foldlM_cons, bind_apply, bind_apply, hstep]
        exact hloop
      · constructor
        · rintro ⟨key', hkey', hremovable, hk⟩
          rcases List.mem_cons.mp hkey' with rfl | hkey'
          · exact .inl ⟨hremovable, hk⟩
          · -- The key may be gone with the location of the first one.
            by_cases hgone : sl.Removable publicKey s.store key ∧ key'.locationKey = key.locationKey
            · exact .inl ⟨hgone.1, hk.trans hgone.2⟩
            · exact .inr ⟨key', hkey', (removable_of_effects heffects).mpr ⟨hremovable, hgone⟩, hk⟩
        · rintro (⟨hremovable, hk⟩ | ⟨key', hkey', hremovable, hk⟩)
          · exact ⟨key, List.mem_cons_self, hremovable, hk⟩
          · exact ⟨key', List.mem_cons_of_mem _ hkey', ((removable_of_effects heffects).mp hremovable).1, hk⟩
      · rcases hholds k hk with hb | ⟨hin, hremovable⟩
        · rcases hg b key data k hb with hb | ⟨rfl, hor⟩
          · exact .inl hb
          · exact .inr ⟨List.mem_cons_self, hor.elim hstatus.mp hdata.mp⟩
        · exact .inr ⟨List.mem_cons_of_mem _ hin, ((removable_of_effects heffects).mp hremovable).1⟩

/-- A collection of keys. -/
theorem effects_removeCollection (hl : l.Drops) (h : ¬sl.Throws publicKey) (keys : List Number640)
    (sendBackResults : Bool) (s : Replication.State) :
    Effects s.store (after (removeCollection sl (some l) keys publicKey sendBackResults) s).store
      fun k => ∃ key ∈ keys, sl.Removable publicKey s.store key ∧ k.locationKey = key.locationKey := by
  cases sendBackResults with
  | true =>
      -- A data is answered for a key only where one was removed.
      obtain ⟨result1, s₁, hloop, heffects, hholds⟩ := effects_collectionLoop hl h true
        (fun (result1 : NavMap Number640 (Option Data)) key data =>
          if data.1.isSome then result1.put key data.1 else result1) (fun b k => k ∈ b.keys)
        (by
          intro b key data k hk
          split at hk
          · next hsome =>
              rw [mem_keys_iff, NavMap.contains, get_put] at hk
              by_cases hkey : k = key
              · exact .inr ⟨hkey, .inr hsome⟩
              · rw [if_neg hkey] at hk
                exact .inl ((mem_keys_iff _ _).mpr hk)
          · exact .inl hk) keys s .empty
      obtain ⟨response, s', hanswer, heffects'⟩ := effects_answerData hl result1 s₁
      have hafter : after (removeCollection sl (some l) keys publicKey true) s = s' := by
        unfold removeCollection
        rw [if_pos rfl, after_bind, hloop]
        exact after_ok _ _ _ _ hanswer
      rw [hafter]
      refine (heffects.trans heffects').congr fun k _ => ⟨.inl, ?_⟩
      rintro (hgone | ⟨key, hkey, hk⟩)
      · exact hgone
      · rcases hholds key hkey with hempty | ⟨hin, hremovable⟩
        · exact absurd hempty List.not_mem_nil
        · exact ⟨key, hin, hremovable, hk⟩
  | false =>
      -- The status is OK only where a data was removed.
      obtain ⟨result2, s₁, hloop, heffects, hholds⟩ := effects_collectionLoop hl h false
        (fun (result2 : NavMap Number640 Wire.Byte) key data => result2.put key data.2.ordinal)
        (fun b k => b.get k = some PutStatus.OK.ordinal)
        (by
          intro b key data k hk
          rw [get_put] at hk
          by_cases hkey : k = key
          · rw [if_pos hkey, Option.some.injEq] at hk
            refine .inr ⟨hkey, .inl ?_⟩
            generalize data.2 = status at hk
            cases status <;> first | rfl | exact absurd hk (by decide)
          · rw [if_neg hkey] at hk
            exact .inl hk) keys s .empty
      obtain ⟨response, s', hanswer, heffects'⟩ := effects_answerStatus hl result2 s₁
      have hafter : after (removeCollection sl (some l) keys publicKey false) s = s' := by
        unfold removeCollection
        rw [if_neg Bool.false_ne_true, after_bind, hloop]
        exact after_ok _ _ _ _ hanswer
      rw [hafter]
      refine (heffects.trans heffects').congr fun k _ => ⟨.inl, ?_⟩
      rintro (hgone | ⟨key, hkey, hk⟩)
      · exact hgone
      · rcases hholds key hkey with hempty | ⟨hin, hremovable⟩
        · rw [get_empty] at hempty
          cases hempty
        · exact ⟨key, hin, hremovable, hk⟩

/-- The key is in the answer to a range, as one that was removed. -/
def Answered (sl : StorageLayer) (publicKey : Option PublicKey) (m : StorageMemory) (sendBackResults : Bool)
    (key : Number640) : Prop :=
  if sendBackResults then sl.claimable m publicKey key = true → ByAuthor publicKey m key
  else sl.claimable m publicKey key = true

/-- The keys of a range are those of the store between its ends. -/
theorem mem_range {m : StorageMemory} {fromKey toKey : Number640} {tmp : NavMap Number640 Data}
    (h : m.subMap fromKey toKey = .ok tmp) (k : Number640) :
    k ∈ tmp.keys ↔ (m.get k).isSome = true ∧ fromKey ≤ k ∧ k ≤ toKey := by
  unfold StorageMemory.subMap at h
  split at h
  · cases h
  · rw [Except.ok.injEq] at h
    rw [← h, mem_keys_iff, NavMap.contains, get_subMap, StorageMemory.get]
    by_cases hk : fromKey ≤ k ∧ k ≤ toKey
    · simp [hk]
    · rw [if_neg hk]
      simp [hk]

/-- A range of keys: some of its keys are gone, and the locations of the keys in the
    answer. -/
theorem effects_removeRange (hl : l.Drops) (h : ¬sl.Throws publicKey) (fromKey toKey : Number640)
    (sendBackResults : Bool) (s : Replication.State) :
    ∃ gone : Number640 → Prop, Effects s.store
        (after (StorageRPC.removeRange sl (some l) fromKey toKey publicKey sendBackResults) s).store gone ∧
      ∀ k, (gone k → (fromKey ≤ k ∧ k ≤ toKey) ∨ ∃ key, (fromKey ≤ key ∧ key ≤ toKey) ∧
          (s.store.get key).isSome = true ∧ Answered sl publicKey s.store sendBackResults key ∧
            k.locationKey = key.locationKey) ∧
        ((∃ key, (fromKey ≤ key ∧ key ≤ toKey) ∧ (s.store.get key).isSome = true ∧
          Answered sl publicKey s.store sendBackResults key ∧ k.locationKey = key.locationKey) → gone k) := by
  rcases hsub : s.store.subMap fromKey toKey with e | tmp
  · -- The ends are in the wrong order, and there is nothing between them.
    have hempty (k : Number640) : ¬(fromKey ≤ k ∧ k ≤ toKey) := by
      intro hand
      unfold StorageMemory.subMap at hsub
      split at hsub
      · next hlt => exact absurd (le_trans hand.1 hand.2) (not_le.mpr hlt)
      · cases hsub
    refine ⟨fun _ => False, ?_, fun k => ⟨False.elim, fun ⟨key, hkey, _⟩ => hempty key hkey⟩⟩
    have hafter : (after
        (StorageRPC.removeRange sl (some l) fromKey toKey publicKey sendBackResults) s).store = s.store := by
      unfold StorageRPC.removeRange
      cases sendBackResults with
      | true => rw [if_pos rfl, after_bind, onStore_error (removeReturn_error hsub).1]
      | false => rw [if_neg Bool.false_ne_true, after_bind, onStore_error (removeReturn_error hsub).2]
    rw [hafter]
    exact Effects.refl s.store
  · have hmem := mem_range hsub
    cases sendBackResults with
    | true =>
        -- The keys in the answer are those of the values that are sent back.
        obtain ⟨result1, m₁, hloop, heffects, hget⟩ := dataLoop_get tmp.keys (fun _ => h) tmp.nodup_keys
          s.store fun key hkey => ((hmem key).mp hkey).1
        have hkeys (key : Number640) :
            key ∈ result1.keys ↔ key ∈ tmp.keys ∧ Answered sl publicKey s.store true key := by
          rw [mem_keys_iff, NavMap.contains, hget, dataAnswer, Answered, if_pos rfl]
          by_cases hclaim : sl.claimable s.store publicKey key = true
          · by_cases hauthor : ByAuthor publicKey s.store key
            · simp only [hclaim, hauthor, if_true, imp_self, and_true]
              by_cases hin : key ∈ tmp.keys
              · simp [hin]
              · simp [hin]
            · simp [hclaim, hauthor]
          · by_cases hin : key ∈ tmp.keys
            · simp [hclaim, hin]
            · simp [hin]
        obtain ⟨response, s', hanswer, heffects'⟩ := effects_answerData hl result1 { s with store := m₁ }
        have hrange := (removeReturnData_eq hsub).trans hloop
        have hafter : after (StorageRPC.removeRange sl (some l) fromKey toKey publicKey true) s = s' := by
          unfold StorageRPC.removeRange
          rw [if_pos rfl, after_bind, onStore_ok hrange]
          exact after_ok _ _ _ _ hanswer
        rw [hafter]
        refine ⟨_, heffects.trans heffects', fun k => ⟨?_, ?_⟩⟩
        · rintro (hgone | ⟨key, hkey, hk⟩)
          · exact .inl ((hmem k).mp hgone.1).2
          · rcases (hkeys key).mp hkey with ⟨hin, hanswered⟩
            exact .inr ⟨key, ((hmem key).mp hin).2, ((hmem key).mp hin).1, hanswered, hk⟩
        · rintro ⟨key, hkey, hsome, hanswered, hk⟩
          exact .inr ⟨key, (hkeys key).mpr ⟨(hmem key).mpr ⟨hsome, hkey⟩, hanswered⟩, hk⟩
    | false =>
        -- The keys in the answer that count are those with the status OK.
        obtain ⟨result2, m₁, hloop, heffects, hget⟩ := statusLoop_get tmp.keys (fun _ => h)
          tmp.nodup_keys s.store fun key hkey => ((hmem key).mp hkey).1
        have hkeys (key : Number640) : result2.get key = some PutStatus.OK.ordinal ↔
            key ∈ tmp.keys ∧ sl.claimable s.store publicKey key = true := by
          rw [hget, statusAnswer]
          by_cases hin : key ∈ tmp.keys
          · by_cases hclaim : sl.claimable s.store publicKey key = true
            · simp [hin, hclaim]
            · simp only [hin, hclaim, if_true, Bool.false_eq_true, if_false, and_false]
              decide
          · simp [hin]
        obtain ⟨response, s', hanswer, heffects'⟩ := effects_answerStatus hl result2 { s with store := m₁ }
        have hrange := (removeReturnStatus_eq hsub).trans hloop
        have hafter : after (StorageRPC.removeRange sl (some l) fromKey toKey publicKey false) s = s' := by
          unfold StorageRPC.removeRange
          rw [if_neg Bool.false_ne_true, after_bind, onStore_ok hrange]
          exact after_ok _ _ _ _ hanswer
        rw [hafter]
        refine ⟨_, heffects.trans heffects', fun k => ⟨?_, ?_⟩⟩
        · rintro (hgone | ⟨key, hkey, hk⟩)
          · exact .inl ((hmem k).mp hgone.1).2
          · rcases (hkeys key).mp hkey with ⟨hin, hclaim⟩
            exact .inr ⟨key, ((hmem key).mp hin).2, ((hmem key).mp hin).1, hclaim, hk⟩
        · rintro ⟨key, hkey, hsome, hanswered, hk⟩
          exact .inr ⟨key, (hkeys key).mpr ⟨(hmem key).mpr ⟨hsome, hkey⟩, hanswered⟩, hk⟩

/-! ### Requests with a key that has no encoding -/

section Throwing

variable {s : Replication.State}

/-- A loop whose body throws has thrown, or had nothing to do. -/
theorem foldlM_throws {ε σ α β : Type} {f : β → α → EStateM ε σ β} (hf : ∀ b a s, ∃ e, f b a s = .error e s)
    (as : List α) (b : β) (s : σ) : as.foldlM f b s = .ok b s ∨ ∃ e, as.foldlM f b s = .error e s := by
  cases as with
  | nil => exact .inl rfl
  | cons a as =>
      obtain ⟨e, he⟩ := hf b a s
      refine .inr ⟨e, ?_⟩
      rw [List.foldlM_cons, bind_apply, he]

theorem collectionLoop_throws (h : sl.Throws publicKey) (sendBackResults : Bool) {β : Type}
    (g : β → Number640 → Option Data × PutStatus → β) (keys : List Number640) (b : β) (s : Replication.State) :
    let loop : ReplicaM β := keys.foldlM (fun b key => do
      let data ← removeAndNotify sl (some l) publicKey sendBackResults key
      return g b key data) b
    loop s = .ok b s ∨ ∃ e, loop s = .error e s := by
  refine foldlM_throws (fun b key s => ?_) keys b s
  obtain ⟨e, he⟩ := remove_error h s.store key sendBackResults
  refine ⟨e, ?_⟩
  unfold removeAndNotify
  rw [bind_apply, bind_apply, onStore_error he]

theorem after_removeCollection_throws (h : sl.Throws publicKey) (keys : List Number640) (sendBackResults : Bool) :
    (after (removeCollection sl (some l) keys publicKey sendBackResults) s).store = s.store := by
  unfold removeCollection
  cases sendBackResults with
  | true =>
      rw [if_pos rfl, after_bind]
      rcases collectionLoop_throws (l := l) h true (fun (result1 : NavMap Number640 (Option Data)) key data =>
        if data.1.isSome then result1.put key data.1 else result1) keys .empty s with hok | ⟨e, he⟩
      · rw [hok]
        rfl
      · rw [he]
  | false =>
      rw [if_neg Bool.false_ne_true, after_bind]
      rcases collectionLoop_throws (l := l) h false (fun (result2 : NavMap Number640 Wire.Byte) key data =>
        result2.put key data.2.ordinal) keys .empty s with hok | ⟨e, he⟩
      · rw [hok]
        rfl
      · rw [he]

theorem removeData_error (h : sl.Throws publicKey) (m : StorageMemory) (key : Number640)
    (result : NavMap Number640 (Option Data)) : ∃ e, sl.removeData publicKey key result m = .error e m := by
  obtain ⟨e, he⟩ := grants_of_throws h m key
  exact ⟨e, by rw [removeData_eq, he]⟩

theorem after_removeRange_throws (h : sl.Throws publicKey) (fromKey toKey : Number640) (sendBackResults : Bool) :
    (after (StorageRPC.removeRange sl (some l) fromKey toKey publicKey sendBackResults) s).store = s.store := by
  unfold StorageRPC.removeRange
  cases sendBackResults with
  | true =>
      have hrange : sl.removeReturnData fromKey toKey publicKey s.store = .ok .empty s.store ∨
          ∃ e, sl.removeReturnData fromKey toKey publicKey s.store = .error e s.store := by
        rcases hsub : s.store.subMap fromKey toKey with e | tmp
        · exact .inr ⟨e, (removeReturn_error hsub).1⟩
        · rw [removeReturnData_eq hsub]
          exact foldlM_throws (fun b key m => removeData_error h m key b) tmp.keys .empty s.store
      rw [if_pos rfl, after_bind]
      rcases hrange with hok | ⟨e, he⟩
      · rw [onStore_ok hok]
        rfl
      · rw [onStore_error he]
  | false =>
      have hrange : sl.removeReturnStatus fromKey toKey publicKey s.store = .ok .empty s.store ∨
          ∃ e, sl.removeReturnStatus fromKey toKey publicKey s.store = .error e s.store := by
        rcases hsub : s.store.subMap fromKey toKey with e | tmp
        · exact .inr ⟨e, (removeReturn_error hsub).2⟩
        · rw [removeReturnStatus_eq hsub]
          refine foldlM_throws (f := fun result key =>
            (fun pair => result.put key pair.2.ordinal) <$> sl.remove key publicKey false)
            (fun b key m => ?_) tmp.keys NavMap.empty s.store
          obtain ⟨e, he⟩ := remove_error h m key false
          exact ⟨e, by rw [map_apply, he]⟩
      rw [if_neg Bool.false_ne_true, after_bind]
      rcases hrange with hok | ⟨e, he⟩
      · rw [onStore_ok hok]
        rfl
      · rw [onStore_error he]

end Throwing

/-! ### Requests -/

namespace RemoveMessage

/-- The keys of a request for a collection. -/
def collection (message : RemoveMessage) : Option (List Number640) :=
  if message.returnNr.isNone then message.keys else none

/-- The ends of a request for a range or a domain. -/
def range (message : RemoveMessage) : Option (Number640 × Number640) :=
  match message.keys, message.returnNr, message.locationKey, message.domainKey with
  | some (fromKey :: toKey :: _), some _, _, _ => some (fromKey, toKey)
  | none, _, some locationKey, some domainKey =>
      some (⟨locationKey, domainKey, .ZERO, .ZERO⟩, ⟨locationKey, domainKey, .MAX_VALUE, .MAX_VALUE⟩)
  | _, _, _, _ => none

/-- A request is for a collection, or for a range, or it is refused. -/
theorem handleRemove_cases (message : RemoveMessage) (sendBackResults : Bool) :
    (∃ keys, message.collection = some keys ∧ message.range = none ∧
      handleRemove sl (some l) message sendBackResults =
        removeCollection sl (some l) keys message.publicKey sendBackResults) ∨
    (∃ r, message.collection = none ∧ message.range = some r ∧
      handleRemove sl (some l) message sendBackResults =
        StorageRPC.removeRange sl (some l) r.1 r.2 message.publicKey sendBackResults) ∨
    (message.collection = none ∧ message.range = none ∧
      ∃ e, handleRemove sl (some l) message sendBackResults = throw e) := by
  obtain ⟨locationKey, domainKey, keys, publicKey, returnNr⟩ := message
  unfold collection range handleRemove
  rcases keys with _ | keys
  · rcases locationKey with _ | locationKey
    · exact .inr (.inr ⟨by cases returnNr <;> rfl, rfl, _, rfl⟩)
    · rcases domainKey with _ | domainKey
      · exact .inr (.inr ⟨by cases returnNr <;> rfl, rfl, _, rfl⟩)
      · exact .inr (.inl ⟨_, by cases returnNr <;> rfl, rfl, rfl⟩)
  · rcases returnNr with _ | returnNr
    · refine .inl ⟨keys, rfl, ?_, rfl⟩
      rcases keys with _ | ⟨_, _ | ⟨_, _⟩⟩ <;> rfl
    · rcases keys with _ | ⟨fromKey, _ | ⟨toKey, keys⟩⟩
      · exact .inr (.inr ⟨rfl, rfl, _, rfl⟩)
      · exact .inr (.inr ⟨rfl, rfl, _, rfl⟩)
      · exact .inr (.inl ⟨_, rfl, rfl, rfl⟩)

end RemoveMessage

/-- A request to remove values, or an entry of a synchronization that is removed. -/
inductive Removal
  | request (message : RemoveMessage) (sendBackResults : Bool)
  | entry (publicKey : Option PublicKey) (key : Number640)

namespace Removal

def handle (sl : StorageLayer) (replicationListener : Option ReplicationListener) : Removal → ReplicaM Unit
  | request message sendBackResults =>
      (fun _ => ()) <$> handleRemove sl replicationListener message sendBackResults
  | entry publicKey key => SyncRPC.removeEntry sl replicationListener publicKey key

/-- The request names the key. -/
def Addressed : Removal → Number640 → Prop
  | request message _, k =>
      (∃ keys, message.collection = some keys ∧ k ∈ keys) ∨ ∃ r, message.range = some r ∧ r.1 ≤ k ∧ k ≤ r.2
  | entry _ key, k => k = key

/-- The location of a key of the request is told to the replication. The key is stored
    and may be removed. In a range whose values are sent back it is a key of the author
    or without one, or it is refused. -/
def Notifies (sl : StorageLayer) (m : StorageMemory) : Removal → Number640 → Prop
  | request message sendBackResults, key =>
      (m.get key).isSome = true ∧ ¬sl.Throws message.publicKey ∧
        if message.collection.isSome then sl.claimable m message.publicKey key = true
        else Answered sl message.publicKey m sendBackResults key
  | entry publicKey _, key =>
      (m.get key).isSome = true ∧ ¬sl.Throws publicKey ∧ sl.claimable m publicKey key = true

/-- A location with a key of the request that is told. -/
def Told (sl : StorageLayer) (m : StorageMemory) (removal : Removal) (k : Number640) : Prop :=
  ∃ key, removal.Addressed key ∧ removal.Notifies sl m key ∧ k.locationKey = key.locationKey

/-- What is gone after a request: the locations that are told, and maybe keys it names. -/
theorem effects (sl : StorageLayer) (hl : l.Drops) (removal : Removal) (s : Replication.State) :
    ∃ gone : Number640 → Prop, Effects s.store (after (removal.handle sl (some l)) s).store gone ∧
      ∀ k, (gone k → removal.Addressed k ∨ removal.Told sl s.store k) ∧ (removal.Told sl s.store k → gone k) := by
  cases removal with
  | request message sendBackResults =>
      unfold handle
      rw [after_map]
      rcases message.handleRemove_cases sendBackResults with
        ⟨keys, hkeys, hrange, heq⟩ | ⟨r, hkeys, hrange, heq⟩ | ⟨hkeys, hrange, e, heq⟩
      · -- A list of keys.
        rw [heq]
        by_cases hthrows : sl.Throws message.publicKey
        · rw [after_removeCollection_throws hthrows]
          exact ⟨_, Effects.refl _, fun k => ⟨False.elim, fun ⟨_, _, hnotifies, _⟩ => hnotifies.2.1 hthrows⟩⟩
        · refine ⟨_, effects_removeCollection hl hthrows keys sendBackResults s, fun k => ⟨?_, ?_⟩⟩
          · rintro ⟨key, hkey, hremovable, hk⟩
            refine .inr ⟨key, .inl ⟨keys, hkeys, hkey⟩, ⟨hremovable.1, hthrows, ?_⟩, hk⟩
            rw [hkeys]
            exact hremovable.2
          · rintro ⟨key, haddressed, hnotifies, hk⟩
            rcases haddressed with ⟨keys', hkeys', hkey⟩ | ⟨r, hr, -⟩
            · rw [hkeys, Option.some.injEq] at hkeys'
              have hclaim := hnotifies.2.2
              rw [hkeys] at hclaim
              exact ⟨key, hkeys' ▸ hkey, ⟨hnotifies.1, hclaim⟩, hk⟩
            · rw [hrange] at hr
              cases hr
      · -- A range of keys.
        rw [heq]
        by_cases hthrows : sl.Throws message.publicKey
        · rw [after_removeRange_throws hthrows]
          exact ⟨_, Effects.refl _, fun k => ⟨False.elim, fun ⟨_, _, hnotifies, _⟩ => hnotifies.2.1 hthrows⟩⟩
        · obtain ⟨gone, heffects, hgone⟩ := effects_removeRange hl hthrows r.1 r.2 sendBackResults s
          refine ⟨gone, heffects, fun k => ⟨fun hk => ?_, ?_⟩⟩
          · rcases (hgone k).1 hk with hin | ⟨key, hkey, hsome, hanswered, hloc⟩
            · exact .inl (.inr ⟨r, hrange, hin⟩)
            · refine .inr ⟨key, .inr ⟨r, hrange, hkey⟩, ⟨hsome, hthrows, ?_⟩, hloc⟩
              rw [hkeys]
              exact hanswered
          · rintro ⟨key, haddressed, hnotifies, hk⟩
            rcases haddressed with ⟨keys', hkeys', -⟩ | ⟨r', hr', hkey⟩
            · rw [hkeys] at hkeys'
              cases hkeys'
            · rw [hrange, Option.some.injEq] at hr'
              have hanswered := hnotifies.2.2
              rw [hkeys] at hanswered
              exact (hgone k).2 ⟨key, hr' ▸ hkey, hnotifies.1, hanswered, hk⟩
      · -- Neither of them, which throws.
        rw [heq]
        refine ⟨_, Effects.refl _, fun k => ⟨False.elim, ?_⟩⟩
        rintro ⟨key, ⟨keys', hkeys', -⟩ | ⟨r', hr', -⟩, -⟩
        · rw [hkeys] at hkeys'
          cases hkeys'
        · rw [hrange] at hr'
          cases hr'
  | entry publicKey key =>
      -- A synchronization tells the location if its removal was a success.
      unfold handle SyncRPC.removeEntry
      by_cases hthrows : sl.Throws publicKey
      · obtain ⟨e, he⟩ := remove_error hthrows s.store key false
        rw [after_bind, onStore_error he]
        exact ⟨_, Effects.refl _, fun k => ⟨False.elim, fun ⟨_, _, hnotifies, _⟩ => hnotifies.2.1 hthrows⟩⟩
      · obtain ⟨data, m', hremove, heffects, hstatus, -⟩ := effects_remove hthrows s.store key false
        obtain ⟨s', hnotify, heffects'⟩ := effects_notify hl key.locationKey data.2 { s with store := m' }
        have hafter : after (do
            let result ← onStore (sl.remove key publicKey false)
            if result.2 = .OK then ReplicationListener.dataRemoved (some l) key.locationKey else pure ()) s = s' := by
          rw [after_bind, onStore_ok hremove]
          exact after_ok _ _ _ _ hnotify
        rw [hafter]
        refine ⟨_, heffects.trans heffects', fun k => ⟨?_, ?_⟩⟩
        · rintro (hgone | ⟨hok, hk⟩)
          · exact .inl hgone.1
          · have hremovable := hstatus.mp hok
            exact .inr ⟨key, rfl, ⟨hremovable.1, hthrows, hremovable.2⟩, hk⟩
        · rintro ⟨key', rfl, hnotifies, hk⟩
          exact .inr ⟨hstatus.mpr ⟨hnotifies.1, hnotifies.2.2⟩, hk⟩

/-- A request removes nothing else exactly if a location that is told has no other
    values. -/
theorem spares_iff (sl : StorageLayer) (selfAddress : PeerAddress) (peerMapVerified : Nat → Bag)
    (answers : Replication.Answers) (removal : Removal) (s : Replication.State) :
    (∀ k, ¬removal.Addressed k →
      (after (removal.handle sl (some (.indirectReplication selfAddress peerMapVerified answers))) s).store.get k =
        s.store.get k) ↔
    ∀ key, removal.Addressed key → removal.Notifies sl s.store key →
      ∀ k, (s.store.get k).isSome = true → k.locationKey = key.locationKey → removal.Addressed k := by
  obtain ⟨gone, heffects, hgone⟩ := effects sl
    (show (ReplicationListener.indirectReplication selfAddress peerMapVerified answers).Drops from ⟨rfl, rfl⟩) removal s
  constructor
  · intro hspares key haddressed hnotifies k hsome hloc
    by_contra hother
    have hsame := hspares k hother
    rw [heffects.removed k ((hgone k).2 ⟨key, haddressed, hnotifies, hloc⟩)] at hsame
    rw [← hsame] at hsome
    cases hsome
  · intro hall k hother
    by_cases hk : gone k
    · rcases (hgone k).1 hk with haddressed | ⟨key, haddressed, hnotifies, hloc⟩
      · exact absurd haddressed hother
      · rw [heffects.removed k hk]
        by_contra hne
        rw [eq_comm, ← ne_eq, Option.ne_none_iff_isSome] at hne
        exact hother (hall key haddressed hnotifies k hne hloc)
    · exact heffects.kept k hk

/-- Two versions of a value. -/
def twoVersions : Replication.State :=
  { store := { dataMap := (NavMap.empty.put ⟨1, 0, 0, 1⟩ (Data.new [7#8] 1000)).put ⟨1, 0, 0, 2⟩ (Data.new [8#8] 1000) } }

/-- The request to remove the first one of them. -/
def firstVersion : Removal := .request { keys := some [⟨1, 0, 0, 1⟩] } false

/-- The second version is removed as well. -/
theorem not_spares_twoVersions :
    ¬firstVersion.Addressed ⟨1, 0, 0, 2⟩ ∧
      twoVersions.store.get ⟨1, 0, 0, 2⟩ = some (Data.new [8#8] 1000) ∧
      (after (firstVersion.handle {}
        (some (.indirectReplication { peerId := 3 } (fun _ => .empty) fun _ => none))) twoVersions).store.get
          ⟨1, 0, 0, 2⟩ = none := by
  refine ⟨?_, by decide +kernel, by decide +kernel⟩
  rintro (⟨keys, hkeys, hin⟩ | ⟨r, hr, -⟩)
  · have heq : [(⟨1, 0, 0, 1⟩ : Number640)] = keys := Option.some.inj hkeys
    rw [← heq] at hin
    exact absurd hin (by decide)
  · cases hr

end Removal

end TomP2P
