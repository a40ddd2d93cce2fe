import TomP2P.Theory.PutOutcome

/-!
# A Put of a Single Value

A put of one value is one pass of the first loop of `putAll` and one of the second. Checks that
let a message through let it through again on what they have recorded (`letsThrough_owned`).

## Theorems

* `put_eq`: The call.
* `domainVerdict_again`, `entryVerdict_again`, `letsThrough_owned`: The same message again.
* `limited_get`, `first_outdated`: What the limit on the versions removes.
-/

namespace TomP2P

open Effect NavMap StorageMemory

namespace StorageLayer

variable (sl : StorageLayer)

-- A put of a single value

section Single

variable (m : StorageMemory) (publicKey : Option PublicKey)
  (putIfAbsent domainProtection sendSelf : Bool) (key : Number640) (newData : Data)

/-- A put of a single value is one pass of the first loop and one of the second. -/
theorem put_eq :
    sl.put key newData publicKey putIfAbsent domainProtection sendSelf m =
      match sl.putEntry publicKey putIfAbsent domainProtection sendSelf key newData m with
      | .error e m₁ => .error e m₁
      | .ok status m₁ => .ok (if ForkedHead m₁ key then .VERSION_FORK else status)
          (sl.limited m₁ key.locationAndDomainAndContentKey) := by
  have hentries : (NavMap.empty.put key newData).entries = [(key, newData)] := rfl
  have hkeys : (keysToCheck (NavMap.empty.put key newData)).elems =
      [key.locationAndDomainAndContentKey] := rfl
  rw [put, map_apply, putAll, bind_apply, hentries, hkeys, putLoop,
    bind_apply]
  cases sl.putEntry publicKey putIfAbsent domainProtection sendSelf key newData m with
  | error e m₁ => rfl
  | ok status m₁ =>
      have hin : (NavMap.empty.put key status).contains key = true := by
        rw [NavMap.contains, get_put_self]
        rfl
      have hmark := markForks_get (heads m₁ key.locationAndDomainAndContentKey)
        (NavMap.empty.put key status) key
      change EStateM.Result.ok (((markForks (heads m₁ key.locationAndDomainAndContentKey)
        (NavMap.empty.put key status)).get key).getD .FAILED)
          (sl.limited m₁ key.locationAndDomainAndContentKey) = _
      rw [hmark, get_put_self]
      dsimp only
      by_cases hf : ForkedHead m₁ key
      · rw [if_pos hf, if_pos ⟨hf, hin⟩, Option.getD_some]
      · rw [if_neg hf, if_neg (fun h => hf h.1), Option.getD_some]

end Single

-- The same message again

/-- The owner of a domain may claim it. -/
theorem canClaimDomain_own (m : StorageMemory) (key : Number320) (owner : PublicKey) (b : Bool)
    (h : sl.canClaimDomain m key (some owner) = .ok b) :
    sl.canClaimDomain (m.ownDomain key (some owner)) key (some owner) = .ok true := by
  unfold canClaimDomain at h ⊢
  cases hforce : sl.foreceOverrideDomain key.domainKey (some owner) with
  | error e =>
      rw [hforce] at h
      simp only [reduceCtorEq] at h
  | ok o =>
      simp only [isDomainProtectedByOthers, ownDomain,
        get_put_self, bne_self_eq_false, Bool.not_false, Bool.true_or]

/-- The owner of an entry may claim it. -/
theorem canClaimEntry_own (m : StorageMemory) (key : Number480) (owner : PublicKey) :
    sl.canClaimEntry (m.ownEntry key (some owner)) key (some owner) = true := by
  simp only [canClaimEntry, isEntryProtectedByOthers, ownEntry,
    get_put_self, bne_self_eq_false, Bool.not_false, Bool.true_or]

/-- A domain that let a message through and recorded its key lets it through again. -/
theorem domainVerdict_again (m : StorageMemory) (key : Number320) (publicKey o : Option PublicKey)
    (domainProtection : Bool)
    (h : sl.domainVerdict m key publicKey publicKey domainProtection = .ok (true, o)) :
    sl.domainVerdict (m.ownDomain key o) key publicKey publicKey domainProtection =
      .ok (true, o) := by
  cases o with
  | none => exact h
  | some owner =>
      unfold domainVerdict at h ⊢
      cases domainProtection with
      | false => simp at h
      | true =>
          simp only [if_true] at h ⊢
          rcases hclaim : sl.canClaimDomain m key publicKey with e | _ | _
          · simp [hclaim] at h
          · simp [hclaim] at h
          rcases hprot : sl.canProtectDomain key.domainKey publicKey with e | _ | _
          · simp [hclaim, hprot] at h
          · simp [hclaim, hprot] at h
          cases publicKey with
          | none => simp [hclaim, hprot] at h
          | some pk =>
              simp only [hclaim, hprot, Except.ok.injEq, Prod.mk.injEq, Option.some.injEq,
                true_and] at h
              subst h
              rw [sl.canClaimDomain_own m key pk true hclaim]

/-- An entry that let a message through and recorded the key of the value lets it through
    again. -/
theorem entryVerdict_again (m : StorageMemory) (key : Number480)
    (publicKeyMessage publicKeyData o : Option PublicKey) (entryProtection : Bool)
    (h : sl.entryVerdict m key publicKeyMessage publicKeyData entryProtection = .ok (true, o)) :
    sl.entryVerdict (m.ownEntry key o) key publicKeyMessage publicKeyData entryProtection =
      .ok (true, o) := by
  cases o with
  | none => exact h
  | some owner =>
      unfold entryVerdict at h ⊢
      cases entryProtection with
      | false => simp at h
      | true =>
          simp only [if_true] at h ⊢
          by_cases hclaim : (sl.canClaimEntry m key publicKeyMessage ||
            sl.canClaimEntry m key publicKeyData) = true
          · by_cases hprot : sl.canProtectEntry key.domainKey publicKeyMessage = true
            · cases publicKeyData with
              | none => simp [hclaim, hprot] at h
              | some pk =>
                  simp only [hclaim, hprot, if_true, Except.ok.injEq, Prod.mk.injEq,
                    Option.some.injEq, true_and] at h
                  subst h
                  rw [sl.canClaimEntry_own m key pk, Bool.or_true, if_pos rfl, if_pos hprot]
            · simp [hclaim, hprot] at h
          · simp [hclaim] at h

section Again

variable (m : StorageMemory) (publicKey : Option PublicKey)
  (domainProtection sendSelf : Bool) (key : Number640) (newData : Data)

/-- What the checks decide depends on the owners only. -/
theorem letsThrough_congr (m' : StorageMemory) (hd : m'.protectedMap = m.protectedMap)
    (he : m'.entryMap = m.entryMap) :
    sl.letsThrough m' publicKey domainProtection sendSelf key newData =
      sl.letsThrough m publicKey domainProtection sendSelf key newData := by
  have hdomain : sl.domainVerdict m' key.locationAndDomainKey publicKey publicKey
      domainProtection = sl.domainVerdict m key.locationAndDomainKey publicKey publicKey
        domainProtection := by
    unfold domainVerdict canClaimDomain isDomainProtectedByOthers
    rw [hd]
  have hentry : sl.entryVerdict m' key.locationAndDomainAndContentKey publicKey
      (dataKey publicKey sendSelf newData) newData.isProtectedEntry =
      sl.entryVerdict m key.locationAndDomainAndContentKey publicKey
        (dataKey publicKey sendSelf newData) newData.isProtectedEntry := by
    unfold entryVerdict canClaimEntry isEntryProtectedByOthers
    rw [he]
  unfold letsThrough
  rw [hdomain, hentry]

/-- Checks that let a message through let it through again on what they recorded. -/
theorem letsThrough_owned
    (h : sl.letsThrough m publicKey domainProtection sendSelf key newData = .ok true) :
    sl.letsThrough (sl.owned m publicKey domainProtection sendSelf key newData) publicKey
      domainProtection sendSelf key newData = .ok true := by
  unfold letsThrough at h
  unfold owned domainRecord entryRecord
  rcases hd : sl.domainVerdict m key.locationAndDomainKey publicKey publicKey domainProtection with
    e | ⟨_ | _, o⟩
  · simp [hd] at h
  · simp [hd] at h
  rcases he : sl.entryVerdict m key.locationAndDomainAndContentKey publicKey
      (dataKey publicKey sendSelf newData) newData.isProtectedEntry with e | ⟨_ | _, o'⟩
  · simp [hd, he] at h
  · simp [hd, he] at h
  have hd' := sl.domainVerdict_again m key.locationAndDomainKey publicKey o domainProtection hd
  have he' := sl.entryVerdict_again (m.ownDomain key.locationAndDomainKey o)
    key.locationAndDomainAndContentKey publicKey (dataKey publicKey sendSelf newData) o'
    newData.isProtectedEntry (by rw [entryVerdict_ownDomain, he])
  have hd'' : sl.domainVerdict ((m.ownDomain key.locationAndDomainKey o).ownEntry
      key.locationAndDomainAndContentKey o') key.locationAndDomainKey publicKey publicKey
      domainProtection = .ok (true, o) := by
    rw [← hd']
    unfold domainVerdict canClaimDomain isDomainProtectedByOthers
    rw [ownEntry_protectedMap]
  dsimp only
  unfold letsThrough
  rw [hd'']
  dsimp only
  rw [he']

end Again

-- The limit on the versions

section Limit

variable (m : StorageMemory) (content : Number480)

/-- The limit takes a value away or leaves it. -/
theorem limited_get (k : Number640) :
    (sl.limited m content).get k = if k ∈ sl.outdated m content then none else m.get k := by
  rw [limited_eq]
  exact (dropAll_get (sl.outdated m content) m k).1

theorem limited_protectedMap : (sl.limited m content).protectedMap = m.protectedMap := by
  have hsame := sl.sameIn_limited ⟨fun _ => False, fun _ => True, fun _ => True⟩ m content id
  exact ext_get _ _ fun d => hsame.domainOwner d trivial

theorem limited_entryMap : (sl.limited m content).entryMap = m.entryMap := by
  have hsame := sl.sameIn_limited ⟨fun _ => False, fun _ => True, fun _ => True⟩ m content id
  exact ext_get _ _ fun e => hsame.entryOwner e trivial

/-- If the limit has something to remove, it removes the first version. -/
theorem first_outdated (h : sl.Prunable m content) :
    ∃ first, (m.versions content).firstEntry = some first ∧ first.1 ∈ sl.outdated m content := by
  rcases h with ⟨hmax, first, last, hfirst, hlast, hold⟩
  refine ⟨first, hfirst, ?_⟩
  unfold outdated
  rw [hlast]
  dsimp only
  rw [if_pos hmax]
  rw [NavMap.firstEntry] at hfirst
  cases hentries : (m.versions content).entries with
  | nil => simp [hentries] at hfirst
  | cons e rest =>
      rw [hentries, List.head?_cons, Option.some.injEq] at hfirst
      subst hfirst
      simp [hold]

/-- What the limit does depends on the values only. -/
theorem prunable_congr (m' : StorageMemory) (h : m'.dataMap = m.dataMap) :
    sl.Prunable m' content ↔ sl.Prunable m content := by
  unfold Prunable StorageMemory.versions
  rw [h]

theorem forkedHead_of_dataMap (m' : StorageMemory) (k : Number640) (h : m'.dataMap = m.dataMap) :
    ForkedHead m' k ↔ ForkedHead m k := by
  unfold ForkedHead heads StorageMemory.versions
  rw [h]

end Limit

end StorageLayer

end TomP2P
