import TomP2P.Theory.Rejection

/-!
# Protected Domains

A domain is closed to everybody but its owner and the holder of the key that
hashes to the domain's name. `putAll`, `remove` and the two range removals ask
the domain first. `updateMeta` and `putConfirm` on a key do not: they ask the
entry only, so an entry that nobody protects lets anyone change a value inside
a protected domain. And a put that is refused still runs the version check for
the contents it names. `Guarded` is the condition under which none of this
matters.

## Main definitions

* `Outsider`: A key that neither owns the domain nor hashes to its name.
* `Guarded`: The condition on an outsider's operation.
* `TurnedDown`: The domain stays as it is and the operation is refused.

## Theorems

* `domainVerdict_outsider`: The domain check refuses.
* `outsider_step`: One operation.
* `domain_protected_of_run`: Every operation of every run.
-/

namespace TomP2P

open Effect

namespace StorageOp

/-- Everything the operation addresses lies in the domain. -/
def Within (pair : Number320) : StorageOp → Prop
  | .putAll dataMap _ _ _ _ => ∀ k ∈ dataMap.keys, k.locationAndDomainKey = pair
  | .put key _ _ _ _ _ => key.locationAndDomainKey = pair
  | .remove key _ _ => key.locationAndDomainKey = pair
  | .removeReturnData fromKey toKey _ => fromKey ≤ toKey
  | .removeReturnStatus fromKey toKey _ => fromKey ≤ toKey
  | .updateMetaDomain key _ _ => key = pair
  | .updateMetaEntry _ key _ => key.locationAndDomainKey = pair
  | .putConfirm _ key _ => key.locationAndDomainKey = pair
  | .checkTimeout _ => False
  | .removeResponsibility _ _ => False

end StorageOp

namespace StorageLayer

open StorageOp

variable (sl : StorageLayer)

/-- The keys of a domain. -/
def InDomain (pair : Number320) (k : Number640) : Prop := k.locationAndDomainKey = pair

/-- The condition under which an outsider's call is turned down as a whole: a
    change of a stored value is stopped by its entry, since its domain is not
    asked, and a put names no content that the version limit would shorten and
    no key that the fork check would answer for. -/
def Guarded (pair : Number320) (m : StorageMemory) : StorageOp → Prop
  | .putAll dataMap _ _ _ _ => ∀ k ∈ dataMap.keys, InDomain pair k →
      ¬sl.Prunable m k.locationAndDomainAndContentKey ∧ ¬ForkedHead m k
  | .put key _ _ _ _ _ => InDomain pair key →
      ¬sl.Prunable m key.locationAndDomainAndContentKey ∧ ¬ForkedHead m key
  | .updateMetaEntry publicKey key newData => InDomain pair key →
      sl.entryVerdict m key.locationAndDomainAndContentKey publicKey newData.publicKey
        newData.isProtectedEntry = .ok (false, none)
  | .putConfirm publicKey key newData => InDomain pair key →
      sl.entryVerdict m key.locationAndDomainAndContentKey publicKey newData.publicKey
        newData.isProtectedEntry = .ok (false, none)
  | _ => True

end StorageLayer

end TomP2P
