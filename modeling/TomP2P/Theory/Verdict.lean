import TomP2P.Core.StorageLayer

/-!
# What a Write Can Do

One equation for each operation of the storage layer, with its decisions split
from its effects.

A security check answers and, where it grants a claim, records an owner. Its
verdict is both at once, as a pure function of the backend:
`domainVerdict` and `entryVerdict`. The checks and the operations built on them
are then equal to a case distinction on verdicts (`putEntry_eq` and the
equations after it), and every later argument about the store starts from these
equations instead of from the programs.

## Main definitions

* `domainVerdict`, `entryVerdict`: The answer of a check and the owner it
  records.
* `StorageMemory.ownDomain`, `StorageMemory.ownEntry`: The backend with an
  owner recorded, if there is one to record.
* `StorageMemory.store`: The write of one accepted value.
* `domainRecord`, `entryRecord`, `owned`: The owners a pass of a put records.
* `letsThrough`: What the two checks of a pass decide.

## Theorems

* `securityDomainCheck_eq`, `securityEntryCheck_eq`: The checks by verdict.
* `putEntry_eq`, `remove_eq`, `removeData_eq`, `updateMetaDomain_eq`,
  `amendEntry_eq`: The operations by verdict.
-/

namespace TomP2P

open Effect

namespace StorageMemory

/-- The backend with the owner of a domain recorded, if there is one. -/
def ownDomain (m : StorageMemory) (key : Number320) : Option PublicKey → StorageMemory
  | none => m
  | some owner => { m with protectedMap := m.protectedMap.put key owner }

/-- The backend with the owner of an entry recorded, if there is one. -/
def ownEntry (m : StorageMemory) (key : Number480) : Option PublicKey → StorageMemory
  | none => m
  | some owner => { m with entryMap := m.entryMap.put key owner }

/-- The backend after the write of a value with its timeout. -/
def store (m : StorageMemory) (key : Number640) (newData : Data) : StorageMemory :=
  (m.put key newData).addTimeout key newData.expirationMillis

section Frames

variable (m : StorageMemory) (d : Number320) (e : Number480) (key : Number640)
  (owner : Option PublicKey) (newData : Data)

@[simp] theorem ownDomain_dataMap : (m.ownDomain d owner).dataMap = m.dataMap := by
  cases owner <;> rfl

@[simp] theorem ownDomain_entryMap : (m.ownDomain d owner).entryMap = m.entryMap := by
  cases owner <;> rfl

@[simp] theorem ownEntry_dataMap : (m.ownEntry e owner).dataMap = m.dataMap := by
  cases owner <;> rfl

@[simp] theorem ownEntry_protectedMap : (m.ownEntry e owner).protectedMap = m.protectedMap := by
  cases owner <;> rfl

@[simp] theorem store_dataMap : (m.store key newData).dataMap = m.dataMap.put key newData := by
  rw [store, addTimeout_dataMap, put_dataMap]

@[simp] theorem store_protectedMap : (m.store key newData).protectedMap = m.protectedMap := by
  rw [store, addTimeout_protectedMap, put_protectedMap]

@[simp] theorem store_entryMap : (m.store key newData).entryMap = m.entryMap := by
  rw [store, addTimeout_entryMap, put_entryMap]

@[simp] theorem store_timeoutMap : (m.store key newData).timeoutMap =
    m.timeoutMap.put key newData.expirationMillis := by
  rw [store, addTimeout_timeoutMap, put_timeoutMap]

end Frames

end StorageMemory

namespace StorageLayer

variable (sl : StorageLayer)

/-- The answer of the domain check and the owner it records. -/
def domainVerdict (m : StorageMemory) (key : Number320) (publicKey newPublicKey : Option PublicKey)
    (domainProtection : Bool) : Except JavaException (Bool × Option PublicKey) :=
  if domainProtection then
    match sl.canClaimDomain m key publicKey with
    | .error e => .error e
    | .ok false => .ok (false, none)
    | .ok true =>
        match sl.canProtectDomain key.domainKey publicKey with
        | .error e => .error e
        | .ok false => .ok (true, none)
        | .ok true =>
            match newPublicKey with
            | none => .error .nullPointer
            | some owner => .ok (true, some owner)
  else .ok (!m.isDomainProtectedByOthers key publicKey, none)

/-- The answer of the entry check and the owner it records. -/
def entryVerdict (m : StorageMemory) (key : Number480)
    (publicKeyMessage publicKeyData : Option PublicKey) (entryProtection : Bool) :
    Except JavaException (Bool × Option PublicKey) :=
  if entryProtection then
    if sl.canClaimEntry m key publicKeyMessage || sl.canClaimEntry m key publicKeyData then
      if sl.canProtectEntry key.domainKey publicKeyMessage then
        match publicKeyData with
        | none => .error .nullPointer
        | some owner => .ok (true, some owner)
      else .ok (true, none)
    else .ok (false, none)
  else .ok (!m.isEntryProtectedByOthers key publicKeyMessage, none)

theorem securityDomainCheck_eq (key : Number320) (publicKey newPublicKey : Option PublicKey)
    (domainProtection : Bool) (m : StorageMemory) :
    sl.securityDomainCheck key publicKey newPublicKey domainProtection m =
      match sl.domainVerdict m key publicKey newPublicKey domainProtection with
      | .error e => .error e m
      | .ok (b, owner) => .ok b (m.ownDomain key owner) := by
  unfold securityDomainCheck domainVerdict
  rcases domainProtection with _ | _
  · rfl
  · rcases hclaim : sl.canClaimDomain m key publicKey with e | b
    · simp only [bind_apply, get_apply, hclaim, ofExcept_error, if_true]
    · rcases b with _ | _
      · simp only [bind_apply, get_apply, hclaim, ofExcept_ok, if_true,
          Bool.false_eq_true, if_false, pure_apply, StorageMemory.ownDomain]
      · rcases sl.canProtectDomain key.domainKey publicKey with e | b
        · simp only [bind_apply, get_apply, hclaim, ofExcept_ok,
            ofExcept_error, if_true]
        · rcases b with _ | _
          · simp only [bind_apply, get_apply, hclaim, ofExcept_ok,
              if_true, Bool.false_eq_true, if_false, pure_apply, StorageMemory.ownDomain]
          · rcases newPublicKey with _ | owner
            · simp only [bind_apply, get_apply, hclaim, ofExcept_ok,
                ofExcept_error, if_true, StorageMemory.protectDomain]
            · simp only [bind_apply, get_apply, hclaim, ofExcept_ok,
                if_true, pure_apply, modify_apply, StorageMemory.protectDomain,
                StorageMemory.ownDomain]

theorem securityEntryCheck_eq (key : Number480)
    (publicKeyMessage publicKeyData : Option PublicKey) (entryProtection : Bool)
    (m : StorageMemory) :
    sl.securityEntryCheck key publicKeyMessage publicKeyData entryProtection m =
      match sl.entryVerdict m key publicKeyMessage publicKeyData entryProtection with
      | .error e => .error e m
      | .ok (b, owner) => .ok b (m.ownEntry key owner) := by
  unfold securityEntryCheck entryVerdict
  rcases entryProtection with _ | _
  · rfl
  · by_cases hclaim : (sl.canClaimEntry m key publicKeyMessage ||
        sl.canClaimEntry m key publicKeyData) = true
    · by_cases hprot : sl.canProtectEntry key.domainKey publicKeyMessage = true
      · rcases publicKeyData with _ | owner
        · simp only [bind_apply, get_apply, hclaim, hprot, if_true,
            ofExcept_error, StorageMemory.protectEntry]
        · simp only [bind_apply, get_apply, hclaim, hprot, if_true,
            ofExcept_ok, pure_apply, modify_apply,
            StorageMemory.protectEntry, StorageMemory.ownEntry]
      · simp only [bind_apply, get_apply, hclaim, hprot, if_true,
          Bool.false_eq_true, if_false, pure_apply, StorageMemory.ownEntry]
    · simp only [bind_apply, get_apply, hclaim, if_true, Bool.false_eq_true,
        if_false, pure_apply, StorageMemory.ownEntry]

/-- Recording a domain owner does not change what an entry check decides. -/
@[simp] theorem entryVerdict_ownDomain (m : StorageMemory) (d : Number320)
    (owner : Option PublicKey) (key : Number480)
    (publicKeyMessage publicKeyData : Option PublicKey) (entryProtection : Bool) :
    sl.entryVerdict (m.ownDomain d owner) key publicKeyMessage publicKeyData entryProtection =
      sl.entryVerdict m key publicKeyMessage publicKeyData entryProtection := by
  cases owner <;> rfl

/-- Whether a stored value blocks a write does not depend on the owners. -/
@[simp] theorem blockedBy_own (m : StorageMemory) (d : Number320) (e : Number480)
    (o o' : Option PublicKey) (putIfAbsent : Bool) (key : Number640) (newData : Data) :
    blockedBy ((m.ownDomain d o).ownEntry e o') putIfAbsent key newData =
      blockedBy m putIfAbsent key newData := by
  cases o <;> cases o' <;> rfl

section Pass

variable (m : StorageMemory) (publicKey : Option PublicKey)
  (putIfAbsent domainProtection sendSelf : Bool) (key : Number640) (newData : Data)

/-- The owner of the domain that the pass records. -/
def domainRecord : Option PublicKey :=
  match sl.domainVerdict m key.locationAndDomainKey publicKey publicKey domainProtection with
  | .error _ => none
  | .ok (_, owner) => owner

/-- The owner of the entry that the pass records. The entry is not asked if the
    domain says no. -/
def entryRecord : Option PublicKey :=
  match sl.domainVerdict m key.locationAndDomainKey publicKey publicKey domainProtection with
  | .error _ => none
  | .ok (false, _) => none
  | .ok (true, _) =>
      match sl.entryVerdict m key.locationAndDomainAndContentKey publicKey
          (dataKey publicKey sendSelf newData) newData.isProtectedEntry with
      | .error _ => none
      | .ok (_, owner) => owner

/-- The backend with the owners that the pass records. -/
def owned : StorageMemory :=
  (m.ownDomain key.locationAndDomainKey (sl.domainRecord m publicKey domainProtection key)).ownEntry
    key.locationAndDomainAndContentKey
    (sl.entryRecord m publicKey domainProtection sendSelf key newData)

/-- Whether the checks of the domain and of the entry let a write through. -/
def letsThrough : Except JavaException Bool :=
  match sl.domainVerdict m key.locationAndDomainKey publicKey publicKey domainProtection with
  | .error e => .error e
  | .ok (false, _) => .ok false
  | .ok (true, _) =>
      match sl.entryVerdict m key.locationAndDomainAndContentKey publicKey
          (dataKey publicKey sendSelf newData) newData.isProtectedEntry with
      | .error e => .error e
      | .ok (b, _) => .ok b

/-- A pass of the first loop of a put: whatever its checks decide, it records their owners. -/
theorem putEntry_eq :
    sl.putEntry publicKey putIfAbsent domainProtection sendSelf key newData m =
      match sl.letsThrough m publicKey domainProtection sendSelf key newData with
      | .error e => .error e (sl.owned m publicKey domainProtection sendSelf key newData)
      | .ok false =>
          .ok .FAILED_SECURITY (sl.owned m publicKey domainProtection sendSelf key newData)
      | .ok true =>
          match blockedBy m putIfAbsent key newData with
          | some status => .ok status (sl.owned m publicKey domainProtection sendSelf key newData)
          | none => .ok (if newData.hasPrepareFlag then .OK_PREPARED else .OK)
              ((sl.owned m publicKey domainProtection sendSelf key newData).store key newData) := by
  unfold putEntry letsThrough owned domainRecord entryRecord
  rw [bind_apply, securityDomainCheck_eq]
  rcases sl.domainVerdict m key.locationAndDomainKey publicKey publicKey domainProtection with
    e | ⟨_ | _, o⟩
  · rfl
  · rfl
  dsimp only
  rw [if_pos rfl, bind_apply, securityEntryCheck_eq, entryVerdict_ownDomain]
  rcases sl.entryVerdict m key.locationAndDomainAndContentKey publicKey
      (dataKey publicKey sendSelf newData) newData.isProtectedEntry with e | ⟨_ | _, o'⟩
  · rfl
  · rfl
  dsimp only
  rw [if_pos rfl, bind_apply, get_apply]
  dsimp only
  rw [blockedBy_own]
  rcases blockedBy m putIfAbsent key newData with _ | status <;> rfl

/-- However a pass ends, it leaves the owners that its checks have recorded, and the new value if
    nothing stands in its way. -/
theorem after_putEntry_cases :
    after (sl.putEntry publicKey putIfAbsent domainProtection sendSelf key newData) m =
        sl.owned m publicKey domainProtection sendSelf key newData ∨
      sl.letsThrough m publicKey domainProtection sendSelf key newData = .ok true ∧
        blockedBy m putIfAbsent key newData = none ∧
        after (sl.putEntry publicKey putIfAbsent domainProtection sendSelf key newData) m =
          (sl.owned m publicKey domainProtection sendSelf key newData).store key newData := by
  rw [after, putEntry_eq]
  rcases sl.letsThrough m publicKey domainProtection sendSelf key newData with e | _ | _
  · exact .inl rfl
  · exact .inl rfl
  · cases blockedBy m putIfAbsent key newData with
    | some status => exact .inl rfl
    | none => exact .inr ⟨rfl, rfl, rfl⟩

@[simp] theorem owned_dataMap :
    (sl.owned m publicKey domainProtection sendSelf key newData).dataMap = m.dataMap := by
  rw [owned, StorageMemory.ownEntry_dataMap, StorageMemory.ownDomain_dataMap]

/-- Recording owners changes no value. -/
theorem owned_get (k : Number640) :
    (sl.owned m publicKey domainProtection sendSelf key newData).get k = m.get k := by
  rw [StorageMemory.get, owned_dataMap, StorageMemory.get]

end Pass

/-- Whether the owners of its domain and of its entry let a key be removed. -/
def grants (m : StorageMemory) (publicKey : Option PublicKey) (key : Number640) :
    Except JavaException Bool :=
  match sl.canClaimDomain m key.locationAndDomainKey publicKey with
  | .error e => .error e
  | .ok canClaim => .ok (canClaim && sl.canClaimEntry m key.locationAndDomainAndContentKey publicKey)

theorem remove_eq (key : Number640) (publicKey : Option PublicKey) (returnData : Bool)
    (m : StorageMemory) :
    sl.remove key publicKey returnData m =
      match sl.grants m publicKey key with
      | .error e => .error e m
      | .ok false => .ok (none, .FAILED_SECURITY) m
      | .ok true =>
          if m.contains key then .ok (m.get key, .OK) ((m.removeTimeout key).remove key)
          else .ok (none, .NOT_FOUND) m := by
  unfold remove grants
  rw [bind_apply, get_apply]
  dsimp only
  rw [bind_apply]
  rcases sl.canClaimDomain m key.locationAndDomainKey publicKey with e | _ | _
  · rfl
  · rfl
  dsimp only [ofExcept_ok]
  rw [if_pos rfl]
  rcases sl.canClaimEntry m key.locationAndDomainAndContentKey publicKey with _ | _
  · rfl
  · by_cases hc : m.contains key = true
    · simp only [hc, if_true, Bool.true_and]
      rfl
    · simp only [hc, if_true, Bool.true_and, Bool.false_eq_true, if_false]
      rfl

theorem removeData_eq (publicKey : Option PublicKey) (key : Number640)
    (result : NavMap Number640 (Option Data)) (m : StorageMemory) :
    sl.removeData publicKey key result m =
      match sl.grants m publicKey key with
      | .error e => .error e m
      | .ok false => .ok (result.put key none) m
      | .ok true =>
          match m.get key with
          | none => .ok result m
          | some toRemove =>
              if toRemove.publicKey.isNone || toRemove.publicKey = publicKey then
                .ok (result.put key (some toRemove)) ((m.removeTimeout key).remove key)
              else .ok result m := by
  unfold removeData grants
  rw [bind_apply, get_apply]
  dsimp only
  rw [bind_apply]
  rcases sl.canClaimDomain m key.locationAndDomainKey publicKey with e | _ | _
  · rfl
  · rfl
  dsimp only [ofExcept_ok]
  rw [if_pos rfl]
  rcases sl.canClaimEntry m key.locationAndDomainAndContentKey publicKey with _ | _
  · rfl
  rw [if_pos rfl]
  rcases m.get key with _ | toRemove
  · rfl
  · dsimp only [Bool.true_and]
    by_cases hp : (toRemove.publicKey.isNone || decide (toRemove.publicKey = publicKey)) = true
    · rw [if_pos hp, if_pos hp]
      rfl
    · rw [if_neg hp, if_neg hp]
      rfl

/-- A removal takes the value of its key with the timeout, or nothing. -/
theorem remove_cases (key : Number640) (publicKey : Option PublicKey) (returnData : Bool)
    (m : StorageMemory) :
    after (sl.remove key publicKey returnData) m = m ∨
      after (sl.remove key publicKey returnData) m = (m.removeTimeout key).remove key := by
  rw [after, remove_eq]
  rcases sl.grants m publicKey key with e | _ | _
  · exact .inl rfl
  · exact .inl rfl
  · by_cases hc : m.contains key = true
    · exact .inr (by simp only [hc, if_true])
    · exact .inl (by simp only [hc, Bool.false_eq_true, if_false])

/-- The same, with the value in the answer. A removal answers for its own key only. -/
theorem removeData_cases (publicKey : Option PublicKey) (key : Number640)
    (result : NavMap Number640 (Option Data)) (m : StorageMemory) :
    (after (sl.removeData publicKey key result) m = m ∨
      after (sl.removeData publicKey key result) m = (m.removeTimeout key).remove key) ∧
    ∀ result' m', sl.removeData publicKey key result m = .ok result' m' →
      result' = result ∨ ∃ answer, result' = result.put key answer := by
  rw [after, removeData_eq]
  rcases sl.grants m publicKey key with e | _ | _
  · exact ⟨.inl rfl, by rintro _ _ ⟨⟩⟩
  · exact ⟨.inl rfl, by rintro _ _ ⟨⟩; exact .inr ⟨none, rfl⟩⟩
  rcases m.get key with _ | toRemove
  · exact ⟨.inl rfl, by rintro _ _ ⟨⟩; exact .inl rfl⟩
  dsimp only
  by_cases hp : (toRemove.publicKey.isNone || decide (toRemove.publicKey = publicKey)) = true
  · rw [if_pos hp]
    exact ⟨.inr rfl, by rintro _ _ ⟨⟩; exact .inr ⟨some toRemove, rfl⟩⟩
  · rw [if_neg hp]
    exact ⟨.inl rfl, by rintro _ _ ⟨⟩; exact .inl rfl⟩

theorem updateMetaDomain_eq (key : Number320) (publicKey newPublicKey : Option PublicKey)
    (m : StorageMemory) :
    sl.updateMetaDomain key publicKey newPublicKey m =
      match sl.domainVerdict m key publicKey newPublicKey true with
      | .error e => .error e m
      | .ok (b, o) => .ok (if b then .OK else .FAILED_SECURITY) (m.ownDomain key o) := by
  unfold updateMetaDomain
  rw [bind_apply, securityDomainCheck_eq]
  rcases sl.domainVerdict m key publicKey newPublicKey true with e | ⟨b, o⟩
  · rfl
  · rcases b with _ | _ <;> rfl

theorem amendEntry_eq (change : Data → Data → Data) (publicKey : Option PublicKey)
    (key : Number640) (newData : Data) (m : StorageMemory) :
    sl.amendEntry change publicKey key newData m =
      match sl.entryVerdict m key.locationAndDomainAndContentKey publicKey newData.publicKey
          newData.isProtectedEntry with
      | .error e => .error e m
      | .ok (false, o) => .ok .FAILED_SECURITY (m.ownEntry key.locationAndDomainAndContentKey o)
      | .ok (true, o) =>
          match m.get key with
          | none => .ok .NOT_FOUND (m.ownEntry key.locationAndDomainAndContentKey o)
          | some data =>
              .ok .OK (((m.ownEntry key.locationAndDomainAndContentKey o).addTimeout key
                (change data newData).expirationMillis).put key (change data newData)) := by
  unfold amendEntry
  rw [bind_apply, securityEntryCheck_eq]
  rcases sl.entryVerdict m key.locationAndDomainAndContentKey publicKey newData.publicKey
      newData.isProtectedEntry with e | ⟨b, o⟩
  · rfl
  rcases b with _ | _
  · rfl
  dsimp only
  rw [if_pos rfl, bind_apply, get_apply]
  dsimp only
  rw [StorageMemory.get, StorageMemory.ownEntry_dataMap, ← StorageMemory.get]
  rcases m.get key with _ | data <;> rfl

end StorageLayer

end TomP2P
