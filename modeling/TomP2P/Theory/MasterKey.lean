import TomP2P.Theory.EntryProtection
import TomP2P.Theory.SinglePut
import TomP2P.Theory.RangeRemoval

/-!
# Entries that Only the Master Key Protects

With the protection of entries not enabled, `canProtectEntry` is meant to grant a claim to
the key that hashes to the content. `securityEntryCheck` hands it the domain key, so it is
granted to the key that hashes to the domain.

The two agree as long as no operation brings them apart: whenever a value is marked as
protected and gets to that question with the key of somebody who is not the owner yet, the
key of the message hashes to both names or to none of them (`OneKey`). In a run of such
operations the entries are protected by the master key alone (`masterKey_of_run`).

The argument for `putAll` compares every pass with the state before the call. The domain
check decides in each pass what it would have decided then (`passes_after`), and the entries
that do not belong to the key of the message have the owner that they had then.

## Main definitions

* `StorageOp.marked`, `StorageOp.messageKey`: The values marked as protected, and the key of
  the message.
* `OneKey`: The condition on an operation.
* `MasterKeyOnly`: Only the master key protects, and it does.

## Theorems

* `entryVerdict_owner`: When a check records an owner.
* `putLoop_kept`, `putLoop_protects`: The loop over the values of a call.
* `masterKeyOnly_step`: One operation.
* `masterKey_of_run`: Every operation of every run.
-/

namespace TomP2P

open Effect StorageMemory

namespace StorageOp

/-- The public key of the message. -/
def messageKey : StorageOp → Option PublicKey
  | .putAll _ publicKey _ _ _ => publicKey
  | .put _ _ publicKey _ _ _ => publicKey
  | .remove _ publicKey _ => publicKey
  | .removeReturnData _ _ publicKey => publicKey
  | .removeReturnStatus _ _ publicKey => publicKey
  | .updateMetaDomain _ publicKey _ => publicKey
  | .updateMetaEntry publicKey _ _ => publicKey
  | .putConfirm publicKey _ _ => publicKey
  | .checkTimeout _ => none
  | .removeResponsibility _ _ => none

/-- The values of the operation that ask for protection, by their key and the public key they
    name. -/
def marked : StorageOp → List (Number640 × Option PublicKey)
  | .putAll dataMap publicKey _ _ sendSelf =>
      (dataMap.entries.filter fun e => e.2.isProtectedEntry).map fun e =>
        (e.1, StorageLayer.dataKey publicKey sendSelf e.2)
  | .put key newData publicKey _ _ sendSelf =>
      if newData.isProtectedEntry then [(key, StorageLayer.dataKey publicKey sendSelf newData)]
      else []
  | .updateMetaEntry _ key newData =>
      if newData.isProtectedEntry then [(key, newData.publicKey)] else []
  | .putConfirm _ key newData =>
      if newData.isProtectedEntry then [(key, newData.publicKey)] else []
  | _ => []

end StorageOp

namespace StorageLayer

variable (sl : StorageLayer)

/-- The check of the domain lets the message through. -/
def Passes (m : StorageMemory) (publicKey : Option PublicKey) (domainProtection : Bool)
    (pair : Number320) : Prop :=
  ∃ o, sl.domainVerdict m pair publicKey publicKey domainProtection = .ok (true, o)

/-- The operation does not ask the domain, or the domain lets it through. -/
def PassesDomain (m : StorageMemory) (pair : Number320) : StorageOp → Prop
  | .putAll _ publicKey _ domainProtection _ => sl.Passes m publicKey domainProtection pair
  | .put _ _ publicKey _ domainProtection _ => sl.Passes m publicKey domainProtection pair
  | _ => True

/-- The message or the value may claim the entry. -/
def Claims (m : StorageMemory) (publicKey : Option PublicKey) (o : PublicKey) (e : Number480) : Prop :=
  sl.canClaimEntry m e publicKey = true ∨ sl.canClaimEntry m e (some o) = true

/-- Wherever a marked value gets to the question who may protect its entry, in the name of a
    key that does not own it, the key of the message hashes to the domain key exactly if it
    hashes to the content key. -/
def OneKey (m : StorageMemory) (op : StorageOp) : Prop :=
  ∀ k o, (k, some o) ∈ op.marked → sl.PassesDomain m k.locationAndDomainKey op →
    sl.Claims m op.messageKey o k.locationAndDomainAndContentKey →
    m.entryMap.get k.locationAndDomainAndContentKey ≠ some o →
    (Hashes op.messageKey k.domainKey ↔ Hashes op.messageKey k.contentKey)

/-- An entry changes its owner only by the key that hashes to its content. A value that this
    key marks as protected gets its entry protected, by a key that a marked value of the
    operation names, if the domain lets it through and all marked values name a key. -/
structure MasterKeyOnly (m : StorageMemory) (op : StorageOp) : Prop where
  only : ∀ e, (after (op.run sl) m).entryMap.get e ≠ m.entryMap.get e →
    Hashes op.messageKey e.contentKey
  protects : ∀ k o, (k, some o) ∈ op.marked → (∀ v ∈ op.marked, v.2 ≠ none) →
    sl.PassesDomain m k.locationAndDomainKey op → Hashes op.messageKey k.contentKey →
    ∃ k' o', (k', some o') ∈ op.marked ∧
      k'.locationAndDomainAndContentKey = k.locationAndDomainAndContentKey ∧
      (after (op.run sl) m).entryMap.get k.locationAndDomainAndContentKey = some o'

-- The check of an entry

section Check

variable (hmode : sl.protectionEntryMode = .MASTER_PUBLIC_KEY)
  (henable : sl.protectionEntryEnable = .NONE)

include hmode in
/-- The master key of a name is the key that hashes to it. -/
theorem foreceOverrideEntry_iff (name : Number160) (publicKey : Option PublicKey) :
    sl.foreceOverrideEntry name publicKey = true ↔ Hashes publicKey name := by
  refine ⟨sl.foreceOverrideEntry_hashes name publicKey, ?_⟩
  rintro ⟨k, bytes, rfl, henc, rfl⟩
  simp [foreceOverrideEntry, henc, hmode]

include hmode in
theorem claims_of_hashes (m : StorageMemory) (publicKey : Option PublicKey) (o : PublicKey)
    (e : Number480) (h : Hashes publicKey e.contentKey) : sl.Claims m publicKey o e := by
  left
  rw [canClaimEntry, (sl.foreceOverrideEntry_iff hmode _ _).mpr h, Bool.or_true]

include hmode henable in
/-- A check records an owner if the value is marked and may claim the entry, and the key of
    the message hashes to the domain. -/
theorem entryVerdict_owner (m : StorageMemory) (e : Number480)
    (publicKey publicKeyData : Option PublicKey) (entryProtection b : Bool) (o : PublicKey) :
    sl.entryVerdict m e publicKey publicKeyData entryProtection = .ok (b, some o) ↔
      b = true ∧ entryProtection = true ∧ publicKeyData = some o ∧ sl.Claims m publicKey o e ∧
        Hashes publicKey e.domainKey := by
  have hprotect : sl.canProtectEntry e.domainKey publicKey = true ↔ Hashes publicKey e.domainKey := by
    rw [canProtectEntry, henable]
    exact sl.foreceOverrideEntry_iff hmode _ _
  unfold entryVerdict Claims
  cases entryProtection with
  | false => simp
  | true =>
      by_cases hclaim : (sl.canClaimEntry m e publicKey || sl.canClaimEntry m e publicKeyData) = true
      · by_cases hp : sl.canProtectEntry e.domainKey publicKey = true
        · cases publicKeyData with
          | none => simp [hclaim, hp]
          | some d =>
              have hor := Bool.or_eq_true_iff.mp hclaim
              simp only [hclaim, hp, if_true, Except.ok.injEq, Prod.mk.injEq, Option.some.injEq,
                hprotect.mp hp, and_true, true_and]
              constructor
              · rintro ⟨hb, rfl⟩
                exact ⟨hb.symm, rfl, hor⟩
              · rintro ⟨hb, rfl, _⟩
                exact ⟨hb.symm, rfl⟩
        · have hno : ¬Hashes publicKey e.domainKey := fun h => hp (hprotect.mpr h)
          simp [hclaim, hp, hno]
      · have hno : ∀ d, publicKeyData = some d →
            ¬(sl.canClaimEntry m e publicKey = true ∨ sl.canClaimEntry m e (some d) = true) := by
          rintro d rfl h
          exact hclaim (Bool.or_eq_true_iff.mpr h)
        simp only [hclaim, if_true, Bool.false_eq_true, if_false, Except.ok.injEq, Prod.mk.injEq,
          reduceCtorEq, and_false, true_and, false_iff]
        rintro ⟨_, hd, hc, _⟩
        exact hno o hd hc

end Check

-- One pass of the loop

section Pass

variable (m : StorageMemory) (publicKey : Option PublicKey)
  (putIfAbsent domainProtection sendSelf : Bool) (key : Number640) (newData : Data)

/-- However a pass ends, it leaves the owners that its checks have recorded. -/
theorem after_putEntry_owners :
    (after (sl.putEntry publicKey putIfAbsent domainProtection sendSelf key newData)
        m).protectedMap = (sl.owned m publicKey domainProtection sendSelf key newData).protectedMap ∧
      (after (sl.putEntry publicKey putIfAbsent domainProtection sendSelf key newData)
        m).entryMap = (sl.owned m publicKey domainProtection sendSelf key newData).entryMap := by
  rcases sl.after_putEntry_cases m publicKey putIfAbsent domainProtection sendSelf key newData with
    h | ⟨_, _, h⟩
  · rw [h]
    exact ⟨rfl, rfl⟩
  · rw [h]
    exact ⟨store_protectedMap _ _ _, store_entryMap _ _ _⟩

/-- What the check of a domain decides depends on the owner of the domain only. -/
theorem passes_congr (m' : StorageMemory) (pair : Number320)
    (h : m'.protectedMap.get pair = m.protectedMap.get pair) :
    sl.Passes m' publicKey domainProtection pair ↔ sl.Passes m publicKey domainProtection pair := by
  unfold Passes domainVerdict canClaimDomain isDomainProtectedByOthers
  rw [h]

/-- The check of a domain decides after a pass what it decides before it. -/
theorem passes_after (pair : Number320) :
    sl.Passes (after (sl.putEntry publicKey putIfAbsent domainProtection sendSelf key
      newData) m) publicKey domainProtection pair ↔
      sl.Passes m publicKey domainProtection pair := by
  have howned := (sl.after_putEntry_owners m publicKey putIfAbsent domainProtection sendSelf key
    newData).1
  rw [owned, ownEntry_protectedMap] at howned
  rw [sl.passes_congr (m.ownDomain key.locationAndDomainKey
    (sl.domainRecord m publicKey domainProtection key)) publicKey domainProtection _ pair
    (by rw [howned])]
  cases hrecord : sl.domainRecord m publicKey domainProtection key with
  | none => exact Iff.rfl
  | some o =>
      by_cases hpair : pair = key.locationAndDomainKey
      · -- The domain now belongs to the key of the message, and it let it through before.
        subst hpair
        have hverdict : sl.domainVerdict m key.locationAndDomainKey publicKey publicKey
            domainProtection = .ok (true, some o) := by
          unfold domainRecord at hrecord
          rcases hv : sl.domainVerdict m key.locationAndDomainKey publicKey publicKey
            domainProtection with e | ⟨_ | _, o'⟩
          · simp [hv] at hrecord
          · rw [hv] at hrecord
            dsimp only at hrecord
            subst hrecord
            unfold domainVerdict at hv
            split at hv
            · split at hv
              · simp at hv
              · simp at hv
              · split at hv
                · simp at hv
                · simp at hv
                · split at hv <;> simp at hv
            · simp at hv
          · rw [hv] at hrecord
            dsimp only at hrecord
            rw [hrecord]
        exact iff_of_true ⟨_, sl.domainVerdict_again m _ publicKey _ domainProtection hverdict⟩
          ⟨_, hverdict⟩
      · refine sl.passes_congr m publicKey domainProtection _ pair ?_
        exact NavMap.get_put_ne _ _ _ _ hpair

/-- The owner of an entry after a pass is the one that the pass records, if it records one for
    this entry. -/
theorem after_putEntry_owner (e : Number480) :
    (after (sl.putEntry publicKey putIfAbsent domainProtection sendSelf key newData)
      m).entryMap.get e =
      if e = key.locationAndDomainAndContentKey then
        (sl.entryRecord m publicKey domainProtection sendSelf key newData).or (m.entryMap.get e)
      else m.entryMap.get e := by
  rw [(sl.after_putEntry_owners m publicKey putIfAbsent domainProtection sendSelf key newData).2,
    owned]
  cases sl.entryRecord m publicKey domainProtection sendSelf key newData with
  | none => simp [ownEntry]
  | some o =>
      rw [ownEntry, NavMap.get_put, ownDomain_entryMap]
      simp

variable (hmode : sl.protectionEntryMode = .MASTER_PUBLIC_KEY)
  (henable : sl.protectionEntryEnable = .NONE)

include hmode henable in
/-- When a pass records an owner for its entry. -/
theorem entryRecord_iff (o : PublicKey) :
    sl.entryRecord m publicKey domainProtection sendSelf key newData = some o ↔
      sl.Passes m publicKey domainProtection key.locationAndDomainKey ∧
        newData.isProtectedEntry = true ∧ dataKey publicKey sendSelf newData = some o ∧
        sl.Claims m publicKey o key.locationAndDomainAndContentKey ∧
        Hashes publicKey key.domainKey := by
  have hverdict := fun b => sl.entryVerdict_owner hmode henable m
    key.locationAndDomainAndContentKey publicKey (dataKey publicKey sendSelf newData)
    newData.isProtectedEntry b o
  unfold entryRecord Passes
  rcases hd : sl.domainVerdict m key.locationAndDomainKey publicKey publicKey domainProtection with
    e | ⟨_ | _, o'⟩
  · simp
  · simp
  · rcases he : sl.entryVerdict m key.locationAndDomainAndContentKey publicKey
      (dataKey publicKey sendSelf newData) newData.isProtectedEntry with e | ⟨b, o''⟩
    · have hno := (hverdict true).not.mp (by simp [he])
      simp only [reduceCtorEq, false_iff]
      rintro ⟨_, h⟩
      exact hno ⟨rfl, h⟩
    · have hiff := hverdict b
      rw [he] at hiff
      simp only [Except.ok.injEq, Prod.mk.injEq, true_and] at hiff
      simp only [Except.ok.injEq, Prod.mk.injEq, true_and, exists_eq', hiff]
      refine ⟨fun h => h.2, fun h => ⟨?_, h⟩⟩
      have hown := (hverdict true).mpr ⟨rfl, h⟩
      rw [he, Except.ok.injEq, Prod.mk.injEq] at hown
      exact hown.1

end Pass

-- The loop

section Loop

variable (publicKey : Option PublicKey) (putIfAbsent domainProtection sendSelf : Bool)
  (m : StorageMemory) (e : Number480)

/-- What the entry has of the state before the call: the domains decide as then, and the owner
    is the same. -/
structure Kept (s : StorageMemory) : Prop where
  passes : ∀ pair, sl.Passes s publicKey domainProtection pair ↔
    sl.Passes m publicKey domainProtection pair
  owner : s.entryMap.get e = m.entryMap.get e

/-- The value is marked and names a key that may claim the entry and does not own it. -/
def Asking (entry : Number640 × Data) (o : PublicKey) : Prop :=
  entry.2.isProtectedEntry = true ∧ dataKey publicKey sendSelf entry.2 = some o ∧
    sl.Passes m publicKey domainProtection entry.1.locationAndDomainKey ∧
    sl.Claims m publicKey o entry.1.locationAndDomainAndContentKey ∧
    m.entryMap.get entry.1.locationAndDomainAndContentKey ≠ some o

/-- Claims depend on the owner of the entry only. -/
theorem claims_congr (s : StorageMemory) (o : PublicKey)
    (h : s.entryMap.get e = m.entryMap.get e) :
    sl.Claims s publicKey o e ↔ sl.Claims m publicKey o e := by
  unfold Claims canClaimEntry isEntryProtectedByOthers
  rw [h]

variable (hmode : sl.protectionEntryMode = .MASTER_PUBLIC_KEY)
  (henable : sl.protectionEntryEnable = .NONE)

include hmode henable in
/-- An entry keeps its owner in a pass, unless the key of the message hashes to the domain and
    to the content. -/
theorem kept_pass (hnot : ¬(Hashes publicKey e.domainKey ∧ Hashes publicKey e.contentKey))
    (entry : Number640 × Data)
    (hone : ∀ o, sl.Asking publicKey domainProtection sendSelf m entry o →
      (Hashes publicKey entry.1.domainKey ↔ Hashes publicKey entry.1.contentKey))
    (s : StorageMemory) (h : sl.Kept publicKey domainProtection m e s) :
    sl.Kept publicKey domainProtection m e (after
      (sl.putEntry publicKey putIfAbsent domainProtection sendSelf entry.1 entry.2) s) := by
  refine ⟨fun pair => (sl.passes_after _ _ _ _ _ _ _ _).trans (h.passes pair), ?_⟩
  rw [after_putEntry_owner, h.owner]
  by_cases he : e = entry.1.locationAndDomainAndContentKey
  · rw [if_pos he]
    cases hrecord : sl.entryRecord s publicKey domainProtection sendSelf entry.1 entry.2 with
    | none => rw [Option.none_or]
    | some o =>
        have hr := (sl.entryRecord_iff s publicKey domainProtection sendSelf entry.1 entry.2 hmode
          henable o).mp hrecord
        rw [Option.some_or]
        by_contra hchanged
        -- The pass asks for another owner, so the key hashes to both names.
        have hclaims := (sl.claims_congr publicKey m e s o h.owner).mp (he ▸ hr.2.2.2.1)
        have hiff := hone o ⟨hr.2.1, hr.2.2.1, (h.passes _).mp hr.1, he ▸ hclaims,
          he ▸ fun heq => hchanged heq.symm⟩
        subst he
        exact hnot ⟨hr.2.2.2.2, hiff.mp hr.2.2.2.2⟩
  · rw [if_neg he]

include hmode henable in
theorem putLoop_kept (hnot : ¬(Hashes publicKey e.domainKey ∧ Hashes publicKey e.contentKey))
    (entries : List (Number640 × Data))
    (hone : ∀ entry ∈ entries, ∀ o, sl.Asking publicKey domainProtection sendSelf m entry o →
      (Hashes publicKey entry.1.domainKey ↔ Hashes publicKey entry.1.contentKey))
    (retVal : NavMap Number640 PutStatus) (s : StorageMemory)
    (h : sl.Kept publicKey domainProtection m e s) :
    sl.Kept publicKey domainProtection m e (after
      (sl.putLoop publicKey putIfAbsent domainProtection sendSelf entries retVal) s) := by
  induction entries generalizing retVal s with
  | nil => exact h
  | cons entry rest ih =>
      have hpass := sl.kept_pass publicKey putIfAbsent domainProtection sendSelf m e hmode henable
        hnot entry (hone entry List.mem_cons_self) s h
      rw [putLoop, after_bind]
      unfold after at hpass
      cases hput : sl.putEntry publicKey putIfAbsent domainProtection sendSelf entry.1 entry.2 s with
      | error ex s' =>
          rw [hput] at hpass
          exact hpass
      | ok status s' =>
          rw [hput] at hpass
          exact ih (fun entry' hin => hone entry' (List.mem_cons_of_mem _ hin)) _ _ hpass

/-- The owner of the entry is named by a marked value of the call. -/
def NamedOwner (all : List (Number640 × Data)) (s : StorageMemory) : Prop :=
  ∃ entry ∈ all, ∃ o, entry.2.isProtectedEntry = true ∧
    dataKey publicKey sendSelf entry.2 = some o ∧
    entry.1.locationAndDomainAndContentKey = e ∧ s.entryMap.get e = some o

include hmode henable in
theorem namedOwner_pass (all : List (Number640 × Data)) (entry : Number640 × Data)
    (hin : entry ∈ all) (s : StorageMemory) (h : NamedOwner publicKey sendSelf e all s) :
    NamedOwner publicKey sendSelf e all (after
      (sl.putEntry publicKey putIfAbsent domainProtection sendSelf entry.1 entry.2) s) := by
  rcases h with ⟨entry', hin', o', hmarked', hkey', he', howner'⟩
  unfold NamedOwner
  rw [after_putEntry_owner]
  by_cases he : e = entry.1.locationAndDomainAndContentKey
  · rw [if_pos he]
    cases hrecord : sl.entryRecord s publicKey domainProtection sendSelf entry.1 entry.2 with
    | none => exact ⟨entry', hin', o', hmarked', hkey', he', by rw [Option.none_or, howner']⟩
    | some o =>
        have hr := (sl.entryRecord_iff s publicKey domainProtection sendSelf entry.1 entry.2 hmode
          henable o).mp hrecord
        exact ⟨entry, hin, o, hr.2.1, hr.2.2.1, he.symm, Option.some_or⟩
  · rw [if_neg he]
    exact ⟨entry', hin', o', hmarked', hkey', he', howner'⟩

/-- With a key that can be hashed and a key in every marked value, no pass throws. -/
theorem putEntry_returns {name : Number160} (hkey : Hashes publicKey name)
    (entry : Number640 × Data)
    (hnamed : entry.2.isProtectedEntry = true → dataKey publicKey sendSelf entry.2 ≠ none)
    (s : StorageMemory) :
    ∃ status s', sl.putEntry publicKey putIfAbsent domainProtection sendSelf entry.1 entry.2 s =
      .ok status s' := by
  rcases hkey with ⟨k, bytes, rfl, henc, _⟩
  have hne : (some k : Option PublicKey) ≠ some .EMPTY_PUBLIC_KEY := by
    intro heq
    rw [Option.some.injEq] at heq
    simp [heq, PublicKey.getEncoded] at henc
  rcases sl.domainVerdict_decided s entry.1.locationAndDomainKey (some k) domainProtection hne
    (by simp) with ⟨⟨b, o⟩, hd⟩
  rw [putEntry_eq, letsThrough, hd]
  cases b with
  | false => exact ⟨_, _, rfl⟩
  | true =>
      have hentry : ∃ verdict, sl.entryVerdict s entry.1.locationAndDomainAndContentKey (some k)
          (dataKey (some k) sendSelf entry.2) entry.2.isProtectedEntry = .ok verdict := by
        unfold entryVerdict
        split
        · rename_i hmarked
          split
          · split
            · cases hdk : dataKey (some k) sendSelf entry.2 with
              | none => exact absurd hdk (hnamed hmarked)
              | some d => exact ⟨_, rfl⟩
            · exact ⟨_, rfl⟩
          · exact ⟨_, rfl⟩
        · exact ⟨_, rfl⟩
      rcases hentry with ⟨⟨b, o'⟩, he⟩
      dsimp only
      rw [he]
      cases b with
      | false => exact ⟨_, _, rfl⟩
      | true =>
          dsimp only
          cases blockedBy s putIfAbsent entry.1 entry.2 <;> exact ⟨_, _, rfl⟩

include hmode henable in
/-- A marked value gets its entry protected if the key of the message hashes to the domain and
    to the content. -/
theorem putLoop_protects (hdomain : Hashes publicKey e.domainKey)
    (hcontent : Hashes publicKey e.contentKey) (all rest : List (Number640 × Data))
    (hsub : ∀ entry ∈ rest, entry ∈ all)
    (hnamed : ∀ entry ∈ all, entry.2.isProtectedEntry = true →
      dataKey publicKey sendSelf entry.2 ≠ none)
    (retVal : NavMap Number640 PutStatus) (s : StorageMemory)
    (hpasses : ∀ pair, sl.Passes s publicKey domainProtection pair ↔
      sl.Passes m publicKey domainProtection pair)
    (h : NamedOwner publicKey sendSelf e all s ∨ ∃ entry ∈ rest, ∃ o,
      entry.2.isProtectedEntry = true ∧ dataKey publicKey sendSelf entry.2 = some o ∧
      entry.1.locationAndDomainAndContentKey = e ∧
      sl.Passes m publicKey domainProtection entry.1.locationAndDomainKey) :
    NamedOwner publicKey sendSelf e all (after
      (sl.putLoop publicKey putIfAbsent domainProtection sendSelf rest retVal) s) := by
  induction rest generalizing retVal s with
  | nil =>
      rcases h with h | ⟨entry, hin, _⟩
      · exact h
      · exact absurd hin List.not_mem_nil
  | cons entry rest ih =>
      have hin := hsub entry List.mem_cons_self
      rcases sl.putEntry_returns publicKey putIfAbsent domainProtection sendSelf hcontent entry
        (hnamed entry hin) s with ⟨status, s', hput⟩
      have hafter := after_ok _ _ _ _ hput
      have hpasses' : ∀ pair, sl.Passes s' publicKey domainProtection pair ↔
          sl.Passes m publicKey domainProtection pair := by
        intro pair
        rw [← hpasses pair, ← sl.passes_after s publicKey putIfAbsent domainProtection sendSelf
          entry.1 entry.2 pair, hafter]
      rw [putLoop, after_bind, hput]
      refine ih (fun entry' hin' => hsub entry' (List.mem_cons_of_mem _ hin')) _ s' hpasses' ?_
      rcases h with h | ⟨entry', hin', o, hmarked, hkey, he, hp⟩
      · left
        rw [← hafter]
        exact sl.namedOwner_pass publicKey putIfAbsent domainProtection sendSelf e hmode henable all
          entry hin s h
      · rcases List.mem_cons.mp hin' with rfl | hrest
        · -- This pass records the owner that the value names.
          left
          subst he
          refine ⟨entry', hin, o, hmarked, hkey, rfl, ?_⟩
          rw [← hafter, after_putEntry_owner, if_pos rfl, (sl.entryRecord_iff s publicKey
            domainProtection sendSelf entry'.1 entry'.2 hmode henable o).mpr
            ⟨(hpasses _).mpr hp, hmarked, hkey,
              sl.claims_of_hashes hmode s publicKey o _ hcontent, hdomain⟩, Option.some_or]
        · exact .inr ⟨entry', hrest, o, hmarked, hkey, he, hp⟩

end Loop

-- The operations

/-- The loop of a call records its owners, and nothing after it does. -/
theorem after_putAll_entryMap (dataMap : NavMap Number640 Data) (publicKey : Option PublicKey)
    (putIfAbsent domainProtection sendSelf : Bool) (m : StorageMemory) :
    (after (sl.putAll dataMap publicKey putIfAbsent domainProtection sendSelf) m).entryMap =
      (after (sl.putLoop publicKey putIfAbsent domainProtection sendSelf dataMap.entries
        .empty) m).entryMap := by
  rw [putAll, after_bind, after]
  cases sl.putLoop publicKey putIfAbsent domainProtection sendSelf dataMap.entries .empty m with
  | error e m₁ => rfl
  | ok retVal m₁ =>
      have hsame := sl.versionLoop_owners (keysToCheck dataMap).elems retVal m₁
      exact NavMap.ext_get _ _ fun e => hsame.entryOwner e trivial

/-- The owner of an entry after a value was changed in place. -/
theorem after_amendEntry_owner (change : Data → Data → Data) (publicKey : Option PublicKey)
    (key : Number640) (newData : Data) (m : StorageMemory) (e : Number480) :
    (after (sl.amendEntry change publicKey key newData) m).entryMap.get e =
      match sl.entryVerdict m key.locationAndDomainAndContentKey publicKey newData.publicKey
        newData.isProtectedEntry with
      | .ok (_, some o) => if e = key.locationAndDomainAndContentKey then some o
          else m.entryMap.get e
      | _ => m.entryMap.get e := by
  rw [after, amendEntry_eq]
  have hown (o : PublicKey) :
      (m.ownEntry key.locationAndDomainAndContentKey (some o)).entryMap.get e =
        if e = key.locationAndDomainAndContentKey then some o else m.entryMap.get e := by
    rw [ownEntry, NavMap.get_put]
  rcases sl.entryVerdict m key.locationAndDomainAndContentKey publicKey newData.publicKey
    newData.isProtectedEntry with ex | ⟨_ | _, o⟩
  · rfl
  · dsimp only
    cases o with
    | none => rfl
    | some o => exact hown o
  · dsimp only
    cases m.get key with
    | none =>
        dsimp only
        cases o with
        | none => rfl
        | some o => exact hown o
    | some data =>
        dsimp only
        rw [put_entryMap, addTimeout_entryMap]
        cases o with
        | none => rfl
        | some o => exact hown o

theorem removeResponsibility_entryMap (m : StorageMemory) (locationKey : Number160) :
    (m.removeResponsibility locationKey).entryMap = m.entryMap := by
  rcases removeResponsibility_eq m locationKey with ⟨r, rev, heq⟩
  rw [heq]

/-- Expiry leaves the owners of entries alone. -/
theorem foldl_expire_entryMap (keys : List Number640) (m : StorageMemory) :
    (keys.foldl expire m).entryMap = m.entryMap := by
  induction keys generalizing m with
  | nil => rfl
  | cons key rest ih =>
      rw [List.foldl_cons, ih]
      unfold expire
      dsimp only
      split
      · rw [removeResponsibility_entryMap]
        simp
      · simp

/-- An operation without marked values records no owner of an entry, whatever it does. -/
theorem entryOwner_of_unmarked (op : StorageOp)
    (h : match op with
      | .remove _ _ _ | .removeReturnData _ _ _ | .removeReturnStatus _ _ _
      | .updateMetaDomain _ _ _ | .checkTimeout _ | .removeResponsibility _ _ => True
      | _ => False) (m : StorageMemory) (e : Number480) :
    (after (op.run sl) m).entryMap.get e = m.entryMap.get e := by
  -- Removals write no owner of an entry.
  have hremove (key : Number640) (pk : Option PublicKey) (b : Bool) (s : StorageMemory) :
      (after (sl.remove key pk b) s).entryMap.get e = s.entryMap.get e :=
    (sl.sameIn_remove ⟨fun _ => False, fun _ => False, fun _ => True⟩ key pk b s id).entryOwner e
      trivial
  cases op with
  | putAll _ _ _ _ _ => exact h.elim
  | put _ _ _ _ _ _ => exact h.elim
  | updateMetaEntry _ _ _ => exact h.elim
  | putConfirm _ _ _ => exact h.elim
  | remove key pk b =>
      rw [StorageOp.run, after_map]
      exact hremove key pk b m
  | removeReturnData fromKey toKey pk =>
      rw [StorageOp.run, after_map]
      rcases hsub : m.subMap fromKey toKey with ex | tmp
      · rw [after, (removeReturn_error hsub).1]
      · rw [after, removeReturnData_eq hsub]
        exact foldlM_invariant
          (fun s : StorageMemory => s.entryMap.get e = m.entryMap.get e) _
          (fun result key s hs => ((sl.sameIn_removeData ⟨fun _ => False, fun _ => False,
            fun _ => True⟩ pk key result s id).entryOwner e trivial).trans hs) _ _ _ rfl
  | removeReturnStatus fromKey toKey pk =>
      rw [StorageOp.run, after_map]
      rcases hsub : m.subMap fromKey toKey with ex | tmp
      · rw [after, (removeReturn_error hsub).2]
      · rw [after, removeReturnStatus_eq hsub]
        exact foldlM_invariant
          (fun s : StorageMemory => s.entryMap.get e = m.entryMap.get e) _
          (fun result key s hs => by rw [after_map, hremove, hs]) _ _ _ rfl
  | updateMetaDomain key pk newKey =>
      rw [StorageOp.run, after_map, after, updateMetaDomain_eq]
      rcases sl.domainVerdict m key pk newKey true with ex | ⟨b, o⟩
      · rfl
      · dsimp only
        rw [ownDomain_entryMap]
  | checkTimeout time =>
      rw [StorageOp.run, after_map, checkTimeout, after_bind, get_apply]
      dsimp only
      rw [after_bind]
      cases m.subMapTimeout time with
      | error ex => rfl
      | ok toRemove =>
          change (toRemove.foldl expire m).entryMap.get e = m.entryMap.get e
          rw [foldl_expire_entryMap]
  | removeResponsibility locationKey keepData =>
      rw [StorageOp.run, after_map]
      rcases StorageLayer.after_removeResponsibility locationKey keepData m with
        ⟨m', heq, _, _, _, hentry, _⟩
      rw [heq, removeResponsibility_entryMap, hentry]

theorem masterKeyOnly_of_unmarked (m : StorageMemory) (op : StorageOp)
    (h : match op with
      | .remove _ _ _ | .removeReturnData _ _ _ | .removeReturnStatus _ _ _
      | .updateMetaDomain _ _ _ | .checkTimeout _ | .removeResponsibility _ _ => True
      | _ => False) (hmarked : op.marked = []) : sl.MasterKeyOnly m op where
  only := fun e hchanged => absurd (sl.entryOwner_of_unmarked op h m e) hchanged
  protects := fun k o hin => by
    rw [hmarked] at hin
    exact absurd hin List.not_mem_nil

section Step

variable (hmode : sl.protectionEntryMode = .MASTER_PUBLIC_KEY)
  (henable : sl.protectionEntryEnable = .NONE) (m : StorageMemory)

include hmode henable in
theorem masterKeyOnly_putAll (dataMap : NavMap Number640 Data) (publicKey : Option PublicKey)
    (putIfAbsent domainProtection sendSelf : Bool)
    (h : sl.OneKey m (.putAll dataMap publicKey putIfAbsent domainProtection sendSelf)) :
    sl.MasterKeyOnly m (.putAll dataMap publicKey putIfAbsent domainProtection sendSelf) := by
  have hmarked (entry : Number640 × Data) (hin : entry ∈ dataMap.entries)
      (hp : entry.2.isProtectedEntry = true) : (entry.1, dataKey publicKey sendSelf entry.2) ∈
        (StorageOp.putAll dataMap publicKey putIfAbsent domainProtection sendSelf).marked :=
    List.mem_map_of_mem (f := fun e : Number640 × Data => (e.1, dataKey publicKey sendSelf e.2))
      (List.mem_filter.mpr ⟨hin, hp⟩)
  have hone (entry : Number640 × Data) (hin : entry ∈ dataMap.entries) (o : PublicKey)
      (hask : sl.Asking publicKey domainProtection sendSelf m entry o) :
      Hashes publicKey entry.1.domainKey ↔ Hashes publicKey entry.1.contentKey :=
    h entry.1 o (hask.2.1 ▸ hmarked entry hin hask.1) hask.2.2.1 hask.2.2.2.1 hask.2.2.2.2
  have hstart (e : Number480) : sl.Kept publicKey domainProtection m e m := ⟨fun _ => Iff.rfl, rfl⟩
  have hafter : (after ((StorageOp.putAll dataMap publicKey putIfAbsent domainProtection
      sendSelf).run sl) m).entryMap = (after (sl.putLoop publicKey putIfAbsent
        domainProtection sendSelf dataMap.entries .empty) m).entryMap := by
    rw [StorageOp.run, after_map, after_putAll_entryMap]
  constructor
  · intro e hchanged
    rw [hafter] at hchanged
    by_contra hno
    exact hchanged (sl.putLoop_kept publicKey putIfAbsent domainProtection sendSelf m e hmode
      henable (fun hboth => hno hboth.2) dataMap.entries hone .empty m (hstart e)).owner
  · intro k o hin hnamed hpasses hcontent
    rw [hafter]
    rcases List.mem_map.mp hin with ⟨entry, hfilter, heq⟩
    rcases List.mem_filter.mp hfilter with ⟨hentry, hp⟩
    rw [Prod.mk.injEq] at heq
    rcases heq with ⟨rfl, hkey⟩
    by_cases hdomain : Hashes publicKey entry.1.domainKey
    · rcases sl.putLoop_protects publicKey putIfAbsent domainProtection sendSelf m
        entry.1.locationAndDomainAndContentKey hmode henable hdomain hcontent dataMap.entries
        dataMap.entries (fun _ h => h)
        (fun entry' hin' hp' => hnamed _ (hmarked entry' hin' hp')) .empty m (fun _ => Iff.rfl)
        (.inr ⟨entry, hentry, o, hp, hkey, rfl, hpasses⟩) with ⟨entry', hin', o', hp', hkey', he', hown⟩
      exact ⟨entry'.1, o', hkey' ▸ hmarked entry' hin' hp', he', hown⟩
    · -- Nothing is recorded for the entry, so the value names its owner.
      refine ⟨entry.1, o, hin, rfl, ?_⟩
      rw [(sl.putLoop_kept publicKey putIfAbsent domainProtection sendSelf m
        entry.1.locationAndDomainAndContentKey hmode henable (fun hboth => hdomain hboth.1)
        dataMap.entries hone .empty m (hstart _)).owner]
      by_contra hother
      exact hdomain ((hone entry hentry o ⟨hp, hkey, hpasses,
        sl.claims_of_hashes hmode m publicKey o _ hcontent, hother⟩).mpr hcontent)

include hmode henable in
theorem masterKeyOnly_amend (change : Data → Data → Data) (op : StorageOp)
    (publicKey : Option PublicKey) (key : Number640) (newData : Data)
    (hrun : op.run sl = StorageAnswer.status <$> sl.amendEntry change publicKey key newData)
    (hmessage : op.messageKey = publicKey) (hdomain : ∀ pair, sl.PassesDomain m pair op)
    (hmarked : op.marked = if newData.isProtectedEntry then [(key, newData.publicKey)] else [])
    (h : sl.OneKey m op) : sl.MasterKeyOnly m op := by
  have hafter := fun e => sl.after_amendEntry_owner change publicKey key newData m e
  have hverdict := fun b o => sl.entryVerdict_owner hmode henable m
    key.locationAndDomainAndContentKey publicKey newData.publicKey newData.isProtectedEntry b o
  have hone := fun o hin hclaims hne => h key o hin (hdomain _) hclaims hne
  rw [hmarked, hmessage] at hone
  constructor
  · -- An owner has changed only by a verdict that grants it.
    intro e hchanged
    rw [hrun, after_map, hafter] at hchanged
    rw [hmessage]
    rcases hv : sl.entryVerdict m key.locationAndDomainAndContentKey publicKey newData.publicKey
      newData.isProtectedEntry with ex | ⟨b, _ | o⟩
    · simp [hv] at hchanged
    · simp [hv] at hchanged
    · have hr := (hverdict b o).mp hv
      rw [hv] at hchanged
      dsimp only at hchanged
      by_cases he : e = key.locationAndDomainAndContentKey
      · rw [if_pos he] at hchanged
        subst he
        exact (hone o (by simp [hr.2.1, hr.2.2.1]) hr.2.2.2.1
          fun heq => hchanged heq.symm).mp hr.2.2.2.2
      · rw [if_neg he] at hchanged
        exact absurd rfl hchanged
  · -- The master key becomes the owner, or is it already.
    intro k o hin _ _ hcontent
    rw [hrun, after_map, hafter]
    refine ⟨k, o, hin, rfl, ?_⟩
    rw [hmessage] at hcontent
    rw [hmarked] at hin
    split at hin
    · rename_i hp
      rw [List.mem_singleton, Prod.mk.injEq] at hin
      rcases hin with ⟨rfl, hkey⟩
      have hclaims := sl.claims_of_hashes hmode m publicKey o k.locationAndDomainAndContentKey
        hcontent
      by_cases hboth : Hashes publicKey k.domainKey
      · rw [(hverdict true o).mpr ⟨rfl, hp, hkey.symm, hclaims, hboth⟩]
        exact if_pos rfl
      · -- Nothing is recorded, so the value names the owner.
        have howner : m.entryMap.get k.locationAndDomainAndContentKey = some o := by
          by_contra hother
          exact hboth ((hone o (by simp [hp, hkey]) hclaims hother).mpr hcontent)
        rcases hv : sl.entryVerdict m k.locationAndDomainAndContentKey publicKey newData.publicKey
          newData.isProtectedEntry with ex | ⟨b, _ | o'⟩
        · exact howner
        · exact howner
        · exact absurd ((hverdict b o').mp hv).2.2.2.2 hboth
    · exact absurd hin List.not_mem_nil

include hmode henable in
/-- **One step.** An operation that does not bring the two names apart is under the master
    key. -/
theorem masterKeyOnly_step (op : StorageOp) (h : sl.OneKey m op) : sl.MasterKeyOnly m op := by
  cases op with
  | putAll dataMap publicKey putIfAbsent domainProtection sendSelf =>
      exact sl.masterKeyOnly_putAll hmode henable m dataMap publicKey putIfAbsent domainProtection
        sendSelf h
  | put key newData publicKey putIfAbsent domainProtection sendSelf =>
      -- A put of one value is a call with that value alone.
      have hmarked : (StorageOp.put key newData publicKey putIfAbsent domainProtection
          sendSelf).marked = (StorageOp.putAll (NavMap.empty.put key newData) publicKey putIfAbsent
            domainProtection sendSelf).marked := by
        have hentries : (NavMap.empty.put key newData).entries = [(key, newData)] := rfl
        rw [StorageOp.marked, StorageOp.marked, hentries]
        cases hp : newData.isProtectedEntry <;> simp [hp]
      have hall : sl.MasterKeyOnly m (.putAll (NavMap.empty.put key newData) publicKey putIfAbsent
          domainProtection sendSelf) := by
        refine sl.masterKeyOnly_putAll hmode henable m _ publicKey putIfAbsent domainProtection
          sendSelf fun k o hin => ?_
        rw [← hmarked] at hin
        exact h k o hin
      have hafter : after ((StorageOp.put key newData publicKey putIfAbsent domainProtection
          sendSelf).run sl) m = after ((StorageOp.putAll (NavMap.empty.put key newData)
            publicKey putIfAbsent domainProtection sendSelf).run sl) m := by
        rw [StorageOp.run, StorageOp.run, after_map, after_map, put,
          after_map]
      constructor
      · intro e hchanged
        rw [hafter] at hchanged
        exact hall.only e hchanged
      · intro k o hin hnamed hpasses hcontent
        rw [hmarked] at hin hnamed
        rw [hafter, hmarked]
        exact hall.protects k o hin hnamed hpasses hcontent
  | updateMetaEntry publicKey key newData =>
      exact sl.masterKeyOnly_amend hmode henable m updatedMeta _ publicKey key newData rfl rfl
        (fun _ => trivial) rfl h
  | putConfirm publicKey key newData =>
      exact sl.masterKeyOnly_amend hmode henable m confirmed _ publicKey key newData rfl rfl
        (fun _ => trivial) rfl h
  | remove _ _ _ => exact sl.masterKeyOnly_of_unmarked m _ trivial rfl
  | removeReturnData _ _ _ => exact sl.masterKeyOnly_of_unmarked m _ trivial rfl
  | removeReturnStatus _ _ _ => exact sl.masterKeyOnly_of_unmarked m _ trivial rfl
  | updateMetaDomain _ _ _ => exact sl.masterKeyOnly_of_unmarked m _ trivial rfl
  | checkTimeout _ => exact sl.masterKeyOnly_of_unmarked m _ trivial rfl
  | removeResponsibility _ _ => exact sl.masterKeyOnly_of_unmarked m _ trivial rfl

end Step

/-- **Protection by the master key.** With the protection of entries not enabled, in every run
    whose operations do not bring the two names apart: entries change their owner only by the
    key that hashes to their content, and the values that this key marks are protected. -/
theorem masterKey_of_run (hmode : sl.protectionEntryMode = .MASTER_PUBLIC_KEY)
    (henable : sl.protectionEntryEnable = .NONE) (m₀ : StorageMemory) (ops : List StorageOp)
    (h : ∀ s ∈ sl.trace m₀ ops, sl.OneKey s.1 s.2) :
    ∀ s ∈ sl.trace m₀ ops, sl.MasterKeyOnly s.1 s.2 :=
  fun s hs => sl.masterKeyOnly_step hmode henable s.1 s.2 (h s hs)

/-- A key protects a content that has its hash, in a domain that has its hash. -/
theorem masterKey_of_run_put :
    let sl : StorageLayer := { protectionEntryEnable := .NONE }
    let K := PublicKey.encoded [1#8]
    let name := makeSHAHash [1#8]
    let d := { Data.new [7#8] 1000 with protectedEntry := true, publicKey := some K }
    let op := StorageOp.put ⟨1, name, name, 4⟩ d (some K) false false false
    sl.MasterKeyOnly {} op ∧ (after (op.run sl) {}).entryMap.get ⟨1, name, name⟩ = some K := by
  intro sl K name d op
  have hone : sl.OneKey {} op := by
    intro k o hin _ _ _
    have heq : (k, some o) = (⟨1, name, name, 4⟩, some K) := List.mem_singleton.mp hin
    rw [Prod.mk.injEq] at heq
    rw [heq.1]
  have h := masterKey_of_run sl rfl rfl {} [op] (by
    intro s hs
    rw [List.mem_singleton.mp hs]
    exact hone) ({}, op) List.mem_cons_self
  have hin : (⟨1, name, name, 4⟩, some K) ∈ op.marked := List.mem_singleton_self _
  rcases h.protects _ K hin (by
    intro v hv
    rw [List.mem_singleton.mp hv]
    exact Option.some_ne_none K) ⟨none, rfl⟩ ⟨K, [1#8], rfl, rfl, rfl⟩ with ⟨k', o', hin', _, hown⟩
  have heq : (k', some o') = (⟨1, name, name, 4⟩, some K) := List.mem_singleton.mp hin'
  rw [Prod.mk.injEq, Option.some.injEq] at heq
  rw [heq.2] at hown
  exact ⟨h, hown⟩

/-- The key that hashes to the domain protects a content that has another name, and the key
    that hashes to the content does not get it protected. -/
theorem domain_key_protects_entry :
    let sl : StorageLayer := { protectionEntryEnable := .NONE }
    let K := PublicKey.encoded [1#8]
    let name := makeSHAHash [1#8]
    let d := { Data.new [7#8] 1000 with protectedEntry := true, publicKey := some K }
    let inDomain := StorageOp.put ⟨1, name, 3, 4⟩ d (some K) false false false
    let inContent := StorageOp.put ⟨1, 2, name, 4⟩ d (some K) false false false
    (¬Hashes (some K) 3 ∧
      (after (inDomain.run sl) {}).entryMap.get ⟨1, name, 3⟩ = some K ∧
      ¬sl.MasterKeyOnly {} inDomain) ∧
    Hashes (some K) name ∧
      (match inContent.run sl {} with | .ok (.status s) _ => some s | _ => none) = some .OK ∧
      (after (inContent.run sl) {}).entryMap.get ⟨1, 2, name⟩ = none ∧
      ¬sl.MasterKeyOnly {} inContent := by
  intro sl K name d inDomain inContent
  have hnot : ¬Hashes (some K) 3 := by
    rintro ⟨k, bytes, hk, henc, hname⟩
    cases hk
    cases henc
    exact absurd hname (by decide +kernel)
  have hown : (after (inDomain.run sl) {}).entryMap.get ⟨1, name, 3⟩ = some K := by
    decide +kernel
  have hnone : (after (inContent.run sl) {}).entryMap.get ⟨1, 2, name⟩ = none := by
    decide +kernel
  have hhash : Hashes (some K) name := ⟨K, [1#8], rfl, rfl, rfl⟩
  refine ⟨⟨hnot, hown, fun h => ?_⟩, hhash, by decide +kernel, hnone, fun h => ?_⟩
  · refine hnot (h.only ⟨1, name, 3⟩ ?_)
    rw [hown]
    decide
  · have hin : (⟨1, 2, name, 4⟩, some K) ∈ inContent.marked := List.mem_singleton_self _
    rcases h.protects _ K hin (by
      intro v hv
      rw [List.mem_singleton.mp hv]
      exact Option.some_ne_none K) ⟨none, rfl⟩ hhash with ⟨_, o', _, _, howner⟩
    rw [show (after (inContent.run sl) {}).entryMap.get
      (⟨1, 2, name, 4⟩ : Number640).locationAndDomainAndContentKey = none from hnone] at howner
    simp at howner

end StorageLayer

end TomP2P
