import TomP2P.Theory.Verdict

/-!
# Answers to Requests to Remove Values

Which keys are gone after the loops over a range, and what the loops answer, key by key.

A key of a range is stored. It is answered `OK` if the message may claim it, and as a
security failure otherwise (`statusLoop_get`). In a range whose values are sent back, a key
that may not be claimed is answered without a value, and a key of another author is not
answered at all (`dataLoop_get`).

## Main definitions

* `Effects`: The keys that are gone after a program.
* `dataAnswer`, `statusAnswer`: The answer for one key.

## Theorems

* `Effects.trans`: Two programs.
* `remove_spec`, `removeData_spec`: One key.
* `dataLoop_get`, `statusLoop_get`: The loops.
-/

namespace TomP2P

open StorageMemory Effect NavMap

-- Keys that are gone

/-- The keys that are gone, and nothing else has changed. -/
structure Effects (m m' : StorageMemory) (gone : Number640 → Prop) : Prop where
  protectedMap : m'.protectedMap = m.protectedMap
  entryMap : m'.entryMap = m.entryMap
  removed : ∀ k, gone k → m'.get k = none
  kept : ∀ k, ¬gone k → m'.get k = m.get k

namespace Effects

variable {m m' m'' : StorageMemory} {gone gone' : Number640 → Prop}

theorem refl (m : StorageMemory) : Effects m m fun _ => False :=
  ⟨rfl, rfl, fun _ h => h.elim, fun _ _ => rfl⟩

theorem trans (h : Effects m m' gone) (h' : Effects m' m'' gone') : Effects m m'' fun k => gone k ∨ gone' k where
  protectedMap := h'.protectedMap.trans h.protectedMap
  entryMap := h'.entryMap.trans h.entryMap
  removed := by
    intro k hk
    by_cases hgone : gone' k
    · exact h'.removed k hgone
    · rw [h'.kept k hgone]
      exact h.removed k (hk.resolve_right hgone)
  kept := by
    intro k hk
    rw [not_or] at hk
    rw [h'.kept k hk.2, h.kept k hk.1]

/-- A key that is not there may be taken for gone or not. -/
theorem congr (h : Effects m m' gone) (hsame : ∀ k, (m.get k).isSome = true → (gone' k ↔ gone k)) :
    Effects m m' gone' where
  protectedMap := h.protectedMap
  entryMap := h.entryMap
  removed := by
    intro k hk
    by_cases hgone : gone k
    · exact h.removed k hgone
    · rw [h.kept k hgone]
      by_contra hsome
      rw [← ne_eq, Option.ne_none_iff_isSome] at hsome
      exact hgone ((hsame k hsome).mp hk)
  kept := by
    intro k hk
    by_cases hgone : gone k
    · rw [h.removed k hgone]
      by_contra hsome
      rw [eq_comm, ← ne_eq, Option.ne_none_iff_isSome] at hsome
      exact hk ((hsame k hsome).mpr hgone)
    · exact h.kept k hgone

/-- What is there afterwards was there before. -/
theorem isSome (h : Effects m m' gone) {k : Number640} : (m'.get k).isSome = true ↔
    (m.get k).isSome = true ∧ ¬gone k := by
  by_cases hgone : gone k
  · rw [h.removed k hgone]
    simp [hgone]
  · rw [h.kept k hgone]
    simp [hgone]

end Effects

namespace StorageLayer

variable (sl : StorageLayer)

/-- The request may remove the key. -/
def claimable (m : StorageMemory) (publicKey : Option PublicKey) (key : Number640) : Bool :=
  match sl.canClaimDomain m key.locationAndDomainKey publicKey with
  | .ok canClaim => canClaim && sl.canClaimEntry m key.locationAndDomainAndContentKey publicKey
  | .error _ => false

/-- The key of the request has no encoding where it is needed. -/
def Throws (publicKey : Option PublicKey) : Prop :=
  ∃ e, ∀ domainKey, sl.foreceOverrideDomain domainKey publicKey = .error e

theorem throws_or (publicKey : Option PublicKey) :
    sl.Throws publicKey ∨ ∀ domainKey, ∃ b, sl.foreceOverrideDomain domainKey publicKey = .ok b := by
  unfold Throws foreceOverrideDomain
  cases publicKey with
  | none => exact .inr fun _ => ⟨_, rfl⟩
  | some publicKey =>
      dsimp only
      by_cases hmode : sl.protectionDomainMode = .MASTER_PUBLIC_KEY
      · unfold isMine
        cases publicKey.getEncoded with
        | none => exact .inl ⟨.nullPointer, fun _ => by rw [if_pos hmode]⟩
        | some bytes => exact .inr fun _ => ⟨_, by rw [if_pos hmode]⟩
      · exact .inr fun _ => ⟨_, by rw [if_neg hmode]⟩

theorem not_throws_iff (publicKey : Option PublicKey) :
    ¬sl.Throws publicKey ↔ ∀ m key, ∃ canClaim, sl.canClaimDomain m key publicKey = .ok canClaim := by
  constructor
  · intro h m key
    obtain ⟨b, hb⟩ := (sl.throws_or publicKey).resolve_left h key.domainKey
    unfold canClaimDomain
    rw [hb]
    exact ⟨_, rfl⟩
  · rintro h ⟨e, he⟩
    obtain ⟨canClaim, hok⟩ := h {} ⟨0, 0⟩
    unfold canClaimDomain at hok
    rw [he] at hok
    cases hok

variable {sl} {publicKey : Option PublicKey} {m m' : StorageMemory} {key : Number640}

theorem canClaimDomain_error (h : sl.Throws publicKey) (m : StorageMemory) (key : Number320) :
    ∃ e, sl.canClaimDomain m key publicKey = .error e := by
  obtain ⟨e, he⟩ := h
  unfold canClaimDomain
  rw [he]
  exact ⟨e, rfl⟩

/-- The owners of domains and entries decide. -/
theorem claimable_congr {gone : Number640 → Prop} (h : Effects m m' gone) :
    sl.claimable m' publicKey key = sl.claimable m publicKey key := by
  unfold claimable canClaimDomain canClaimEntry isDomainProtectedByOthers isEntryProtectedByOthers
  rw [h.protectedMap, h.entryMap]

/-- A key that is there and may be removed. -/
def Removable (sl : StorageLayer) (publicKey : Option PublicKey) (m : StorageMemory) (key : Number640) : Prop :=
  (m.get key).isSome = true ∧ sl.claimable m publicKey key = true

theorem removable_of_effects {gone : Number640 → Prop} (h : Effects m m' gone) :
    sl.Removable publicKey m' key ↔ sl.Removable publicKey m key ∧ ¬gone key := by
  unfold Removable
  rw [claimable_congr h, h.isSome]
  exact ⟨fun hand => ⟨⟨hand.1.1, hand.2⟩, hand.1.2⟩, fun hand => ⟨⟨hand.1.1, hand.2⟩, hand.1.2⟩⟩

theorem effects_drop (m : StorageMemory) (key : Number640) :
    Effects m ((m.removeTimeout key).remove key) fun k => k = key where
  protectedMap := removeTimeout_protectedMap m key
  entryMap := removeTimeout_entryMap m key
  removed := by
    rintro k rfl
    rw [StorageMemory.get, remove_dataMap, get_remove_self]
  kept := by
    intro k hk
    rw [StorageMemory.get, remove_dataMap, get_remove_ne _ _ _ hk, removeTimeout_dataMap, StorageMemory.get]

/-- A value without an author, or by the author of the request. -/
def ByAuthor (publicKey : Option PublicKey) (m : StorageMemory) (key : Number640) : Prop :=
  ∃ d, m.get key = some d ∧ (d.publicKey.isNone || d.publicKey = publicKey) = true

instance (publicKey : Option PublicKey) (m : StorageMemory) (key : Number640) :
    Decidable (ByAuthor publicKey m key) :=
  decidable_of_iff
    ((m.get key).any (fun d => d.publicKey.isNone || d.publicKey = publicKey) = true) (by
      unfold ByAuthor
      cases m.get key <;> simp)

-- One key

theorem grants_of_not_throws (h : ¬sl.Throws publicKey) {m : StorageMemory} {key : Number640} :
    sl.grants m publicKey key = .ok (sl.claimable m publicKey key) := by
  rcases (sl.not_throws_iff publicKey).mp h m key.locationAndDomainKey with ⟨canClaim, hok⟩
  rw [grants, claimable, hok]

theorem claimable_of_grants {b : Bool} {m : StorageMemory} {key : Number640}
    (h : sl.grants m publicKey key = .ok b) : sl.claimable m publicKey key = b := by
  revert h
  unfold grants claimable
  rcases sl.canClaimDomain m key.locationAndDomainKey publicKey with e | canClaim
  · exact nofun
  · exact Except.ok.inj

theorem grants_of_throws (h : sl.Throws publicKey) (m : StorageMemory) (key : Number640) :
    ∃ e, sl.grants m publicKey key = .error e := by
  rcases canClaimDomain_error h m key.locationAndDomainKey with ⟨e, he⟩
  rw [grants, he]
  exact ⟨e, rfl⟩

/-- What the removal of one key does, if the key of the message can be hashed. -/
theorem remove_spec (h : ¬sl.Throws publicKey) (key : Number640) (returnData : Bool)
    (m : StorageMemory) :
    sl.remove key publicKey returnData m =
      if sl.claimable m publicKey key then
        if (m.get key).isSome then .ok (m.get key, .OK) ((m.removeTimeout key).remove key)
        else .ok (none, .NOT_FOUND) m
      else .ok (none, .FAILED_SECURITY) m := by
  rw [remove_eq, grants_of_not_throws h]
  rcases sl.claimable m publicKey key with _ | _ <;> rfl

theorem removeData_spec (h : ¬sl.Throws publicKey) (key : Number640)
    (result : NavMap Number640 (Option Data)) (m : StorageMemory) (hstored : (m.get key).isSome) :
    sl.removeData publicKey key result m =
      if sl.claimable m publicKey key then
        if ByAuthor publicKey m key then
          .ok (result.put key (m.get key)) ((m.removeTimeout key).remove key)
        else .ok result m
      else .ok (result.put key none) m := by
  rcases Option.isSome_iff_exists.mp hstored with ⟨d, hd⟩
  have hauthor : ByAuthor publicKey m key ↔
      (d.publicKey.isNone || decide (d.publicKey = publicKey)) = true := by
    simp [ByAuthor, hd]
  rw [removeData_eq, grants_of_not_throws h, hd]
  rcases sl.claimable m publicKey key with _ | _
  · rfl
  dsimp only
  by_cases ha : ByAuthor publicKey m key
  · rw [if_pos rfl, if_pos ha, if_pos (hauthor.mp ha)]
  · rw [if_pos rfl, if_neg ha, if_neg (fun hb => ha (hauthor.mpr hb))]

-- The loops

section Ranges

variable {fromKey toKey : Number640} {tmp : NavMap Number640 Data} {e : JavaException}

/-- The removal of a range runs its loop over the keys of the range. -/
theorem removeReturnData_eq (h : m.subMap fromKey toKey = .ok tmp) :
    sl.removeReturnData fromKey toKey publicKey m =
      tmp.keys.foldlM (fun result key => sl.removeData publicKey key result) .empty m := by
  simp only [removeReturnData, bind_apply, get_apply, h, ofExcept_ok]

theorem removeReturnStatus_eq (h : m.subMap fromKey toKey = .ok tmp) :
    sl.removeReturnStatus fromKey toKey publicKey m =
      tmp.keys.foldlM (fun result key =>
        (fun pair => result.put key pair.2.ordinal) <$> sl.remove key publicKey false) .empty m := by
  simp only [removeReturnStatus, bind_apply, get_apply, h, ofExcept_ok]

/-- Neither removes anything if the ends are in the wrong order. -/
theorem removeReturn_error (h : m.subMap fromKey toKey = .error e) :
    sl.removeReturnData fromKey toKey publicKey m = .error e m ∧
      sl.removeReturnStatus fromKey toKey publicKey m = .error e m := by
  simp only [removeReturnData, removeReturnStatus, bind_apply, get_apply, h, ofExcept_error, and_self]

end Ranges

/-- The status of a stored key of a range. -/
def statusAnswer (sl : StorageLayer) (publicKey : Option PublicKey) (m : StorageMemory)
    (k : Number640) : PutStatus :=
  if sl.claimable m publicKey k then .OK else .FAILED_SECURITY

/-- The value that is sent back for a stored key of a range, if the key is answered. -/
def dataAnswer (sl : StorageLayer) (publicKey : Option PublicKey) (m : StorageMemory)
    (k : Number640) : Option (Option Data) :=
  if sl.claimable m publicKey k then
    if ByAuthor publicKey m k then some (m.get k) else none
  else some none

section Loop

variable {β : Type} (pass : NavMap Number640 β → Number640 → StoreM (NavMap Number640 β))
  (answer : StorageMemory → Number640 → Option β) (goes : StorageMemory → Number640 → Prop)

/-- A loop over stored keys. The pass for a key may remove it and may answer it, which
    depends on nothing that the passes for other keys change. -/
theorem answerLoop_get
    (hcongr : ∀ m m' gone k, Effects m m' gone → ¬gone k →
      answer m' k = answer m k ∧ (goes m' k ↔ goes m k))
    (keys : List Number640)
    (hpass : ∀ key ∈ keys, ∀ m result, (m.get key).isSome → ∃ m',
      pass result key m = .ok ((answer m key).elim result (result.put key)) m' ∧
        Effects m m' fun k => k = key ∧ goes m key)
    (hnodup : keys.Nodup) (m : StorageMemory)
    (hstored : ∀ k ∈ keys, (m.get k).isSome) (result : NavMap Number640 β) :
    ∃ result' m', keys.foldlM pass result m = .ok result' m' ∧
      Effects m m' (fun k => k ∈ keys ∧ goes m k) ∧
      ∀ k, result'.get k = if k ∈ keys then (answer m k).or (result.get k) else result.get k := by
  induction keys generalizing m result with
  | nil =>
      refine ⟨result, m, rfl, (Effects.refl m).congr fun k _ => by simp, fun k => by simp⟩
  | cons key rest ih =>
      rw [List.nodup_cons] at hnodup
      rcases hpass key List.mem_cons_self m result (hstored key List.mem_cons_self) with
        ⟨m₁, hfirst, heffects⟩
      -- The other keys are as they were before the first pass.
      have hother : ∀ k ∈ rest, ¬(k = key ∧ goes m key) := fun k hk h => hnodup.1 (h.1 ▸ hk)
      rcases ih (fun k hk => hpass k (List.mem_cons_of_mem _ hk)) hnodup.2 m₁ (fun k hk => by
        rw [heffects.kept k (hother k hk)]
        exact hstored k (List.mem_cons_of_mem _ hk)) ((answer m key).elim result (result.put key)) with
        ⟨result', m', hloop, heffects', hget⟩
      refine ⟨result', m', ?_, (heffects.trans heffects').congr fun k _ => ?_, fun k => ?_⟩
      · rw [List.foldlM_cons, Effect.bind_apply, hfirst]
        exact hloop
      · rw [List.mem_cons]
        constructor
        · rintro ⟨rfl | hk, hgoes⟩
          · exact .inl ⟨rfl, hgoes⟩
          · exact .inr ⟨hk, (hcongr m m₁ _ k heffects (hother k hk)).2.mpr hgoes⟩
        · rintro (⟨rfl, hgoes⟩ | ⟨hk, hgoes⟩)
          · exact ⟨.inl rfl, hgoes⟩
          · exact ⟨.inr hk, (hcongr m m₁ _ k heffects (hother k hk)).2.mp hgoes⟩
      · rw [hget]
        by_cases hk : k = key
        · subst hk
          rw [if_neg hnodup.1, if_pos List.mem_cons_self]
          cases answer m k <;> simp
        · have hsame : ((answer m key).elim result (result.put key)).get k = result.get k := by
            cases answer m key with
            | none => rfl
            | some a => exact NavMap.get_put_ne _ _ _ _ hk
          rw [hsame]
          by_cases hin : k ∈ rest
          · rw [if_pos hin, if_pos (List.mem_cons_of_mem _ hin),
              (hcongr m m₁ _ k heffects (hother k hin)).1]
          · rw [if_neg hin, if_neg (by simp [hk, hin])]

end Loop

/-- Nothing but the owners and the value of a key decides about its answer. -/
theorem dataAnswer_congr {m m' : StorageMemory} {gone : Number640 → Prop} (h : Effects m m' gone)
    {k : Number640} (hk : ¬gone k) :
    dataAnswer sl publicKey m' k = dataAnswer sl publicKey m k ∧
      (ByAuthor publicKey m' k ↔ ByAuthor publicKey m k) := by
  have hclaim : sl.claimable m' publicKey k = sl.claimable m publicKey k := claimable_congr h
  have hauthor : ByAuthor publicKey m' k ↔ ByAuthor publicKey m k := by
    unfold ByAuthor
    rw [h.kept k hk]
  unfold dataAnswer
  rw [hclaim, h.kept k hk]
  simp only [hauthor, and_self]

/-- The loop over a range that answers the status of each key. -/
theorem statusLoop_get (keys : List Number640) (h : keys ≠ [] → ¬sl.Throws publicKey) (hnodup : keys.Nodup)
    (m : StorageMemory) (hstored : ∀ k ∈ keys, (m.get k).isSome) :
    ∃ (result' : NavMap Number640 Wire.Byte) (m' : StorageMemory),
      keys.foldlM (fun (result : NavMap Number640 Wire.Byte) key =>
        (fun pair => result.put key pair.2.ordinal) <$> sl.remove key publicKey false) .empty m =
          .ok result' m' ∧
      Effects m m' (fun k => k ∈ keys ∧ sl.claimable m publicKey k = true) ∧
      ∀ k, result'.get k =
        if k ∈ keys then some (statusAnswer sl publicKey m k).ordinal else none := by
  have hloop := answerLoop_get (fun (result : NavMap Number640 Wire.Byte) key =>
      (fun pair => result.put key pair.2.ordinal) <$> sl.remove key publicKey false)
    (fun m k => some (statusAnswer sl publicKey m k).ordinal)
    (fun m k => sl.claimable m publicKey k = true) ?_ keys ?_ hnodup m hstored .empty
  · simpa using hloop
  · intro m m' gone k heffects _
    have hclaim : sl.claimable m' publicKey k = sl.claimable m publicKey k :=
      claimable_congr heffects
    simp only [statusAnswer, hclaim, and_self]
  · intro key hin m result hkey
    rw [Effect.map_apply, remove_spec (h (List.ne_nil_of_mem hin)), statusAnswer]
    by_cases hclaim : sl.claimable m publicKey key = true
    · rw [if_pos hclaim, if_pos hclaim, if_pos hkey]
      exact ⟨_, rfl, (effects_drop m key).congr fun k _ => by simp [hclaim]⟩
    · rw [if_neg hclaim, if_neg hclaim]
      exact ⟨_, rfl, (Effects.refl m).congr fun k _ => by simp [hclaim]⟩

/-- The loop over a range that sends the values back. -/
theorem dataLoop_get (keys : List Number640) (h : keys ≠ [] → ¬sl.Throws publicKey) (hnodup : keys.Nodup)
    (m : StorageMemory) (hstored : ∀ k ∈ keys, (m.get k).isSome) :
    ∃ result' m', keys.foldlM (fun result key => sl.removeData publicKey key result) .empty m =
        .ok result' m' ∧
      Effects m m' (fun k => k ∈ keys ∧ sl.claimable m publicKey k = true ∧ ByAuthor publicKey m k) ∧
      ∀ k, result'.get k = if k ∈ keys then dataAnswer sl publicKey m k else none := by
  have hloop := answerLoop_get (fun result key => sl.removeData publicKey key result)
    (fun m k => dataAnswer sl publicKey m k)
    (fun m k => sl.claimable m publicKey k = true ∧ ByAuthor publicKey m k) ?_ keys ?_ hnodup m
    hstored .empty
  · simpa using hloop
  · intro m m' gone k heffects hk
    have hclaim : sl.claimable m' publicKey k = sl.claimable m publicKey k :=
      claimable_congr heffects
    have hanswer : dataAnswer sl publicKey m' k = dataAnswer sl publicKey m k ∧ _ :=
      dataAnswer_congr heffects hk
    simp only [hanswer.1, hanswer.2, hclaim, and_self]
  · intro key hin m result hkey
    rw [removeData_spec (h (List.ne_nil_of_mem hin)) key result m hkey, dataAnswer]
    by_cases hclaim : sl.claimable m publicKey key = true
    · by_cases hauthor : ByAuthor publicKey m key
      · rw [if_pos hclaim, if_pos hclaim, if_pos hauthor, if_pos hauthor]
        exact ⟨_, rfl, (effects_drop m key).congr fun k _ => by simp [hclaim, hauthor]⟩
      · rw [if_pos hclaim, if_pos hclaim, if_neg hauthor, if_neg hauthor]
        exact ⟨_, rfl, (Effects.refl m).congr fun k _ => by simp [hauthor]⟩
    · rw [if_neg hclaim, if_neg hclaim]
      exact ⟨_, rfl, (Effects.refl m).congr fun k _ => by simp [hclaim]⟩

end StorageLayer

end TomP2P
