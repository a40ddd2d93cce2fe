import TomP2P.Core.AddressBuilder
import TomP2P.Foundation.Hashed

/-!
# The Hash of an Address

Two addresses are equal if their ids are, whatever else they hold. Their hashes
are stored, and what is stored depends on where the address comes from: reading
an address stores the hash of its id, building one stores zero, and a copy keeps
what its original stores.

`PeerAddress.Obtained.hashCode_eq` is that nothing else matters. Two addresses of
one peer are therefore one element of a set or two, according to their origins
alone.

## Theorems

* `PeerAddress.Obtained.hashCode_eq`: The hash is the one of the origin.
* `PeerAddress.equals_imp_hashCode_iff`: When equal addresses have equal hashes,
  and when a table has one entry for each peer.
-/

namespace TomP2P

open Wire Reader Effect

namespace PeerAddress

/-! ### The hash through each construction -/

theorem hashCode_addRelay {a b : PeerAddress} {r : PeerSocketAddress} (h : a.addRelay r = .ok b) :
    b.hashCode = a.hashCode := by
  unfold addRelay at h
  split at h
  · cases h
  · split at h
    · cases h
    · cases h
      rfl

theorem hashCode_addRelays {rs : List PeerSocketAddress} {a b : PeerAddress}
    (h : rs.foldlM addRelay a = .ok b) : b.hashCode = a.hashCode := by
  induction rs generalizing a with
  | nil =>
      cases h
      rfl
  | cons r rs ih =>
      rw [List.foldlM_cons] at h
      obtain ⟨c, hc, hrest⟩ := except_bind_ok h
      rw [ih hrest, hashCode_addRelay hc]

/-- The hash that is set, after one more step. -/
theorem hashCode_builderStep {a b : PeerAddress} {step : BuilderStep} {hash : Option (BitVec 32)}
    (ha : a.hashCode = hash.getD 0) (h : step.apply a = .ok b) :
    b.hashCode = (BuilderStep.hash hash step).getD 0 := by
  cases step with
  | field f =>
      cases h
      cases f <;> exact ha
  | relay r => exact (hashCode_addRelay h).trans ha
  | relayAll rs => exact (hashCode_addRelays h).trans ha
  | hashCode value =>
      cases h
      rfl
  | relays value | ipv4Socket value | ipv6Socket value | ipInternalSocket value =>
      cases h
      exact ha

theorem hashCode_build {peerId : Number160} {steps : List BuilderStep} {a : PeerAddress}
    (h : build peerId steps = .ok a) : a.hashCode = (hashOf steps).getD 0 := by
  have hsteps (steps : List BuilderStep) (hash : Option (BitVec 32)) (a b : PeerAddress)
      (ha : a.hashCode = hash.getD 0) (h : steps.foldlM BuilderStep.apply a = .ok b) :
      b.hashCode = (steps.foldl BuilderStep.hash hash).getD 0 := by
    induction steps generalizing hash a with
    | nil =>
        cases h
        exact ha
    | cons step steps ih =>
        rw [List.foldlM_cons] at h
        obtain ⟨c, hc, hrest⟩ := except_bind_ok h
        rw [List.foldl_cons]
        exact ih _ c (hashCode_builderStep ha hc) hrest
  exact hsteps steps none _ a rfl h

theorem hashCode_decodeAfter {header : BitVec 32} {v r : Bytes} {a : PeerAddress}
    (h : (decodeAfter header).run () v = .done a () r) : a.hashCode = a.peerId.hashCode := by
  unfold decodeAfter at h
  obtain ⟨relays, _, _, _, h⟩ := run_bind_done h
  obtain ⟨ipv4, _, _, _, h⟩ := run_bind_done h
  obtain ⟨internal, _, _, _, h⟩ := run_bind_done h
  obtain ⟨ipv6, _, _, _, h⟩ := run_bind_done h
  obtain ⟨peerId, _, _, _, h⟩ := run_bind_done h
  cases h
  rfl

theorem hashCode_decodeArray {array : Bytes} {offset next : Nat} {a : PeerAddress}
    (h : decodeArray array offset = .ok (a, next)) : a.hashCode = a.peerId.hashCode := by
  obtain ⟨_, _, h⟩ := except_bind_ok h
  obtain ⟨_, _, h⟩ := except_bind_ok h
  obtain ⟨_, _, h⟩ := except_bind_ok h
  obtain ⟨_, _, h⟩ := except_bind_ok h
  obtain ⟨_, _, h⟩ := except_bind_ok h
  obtain ⟨_, _, h⟩ := except_bind_ok h
  cases h
  rfl

theorem hashCode_with (a : PeerAddress) (w : With) : (With.apply a w).hashCode = a.hashCode := by
  cases w with
  | field f => cases f <;> rfl
  | ipInternalSocket value | ipv4Socket value | ipv6Socket value | relays value => rfl

/-- The hash is the one of the origin, however often the address was copied. -/
theorem Obtained.hashCode_eq {a : PeerAddress} {o : Origin} (h : Obtained a o) : a.hashCode = o.hash := by
  induction h with
  | built h => exact hashCode_build h
  | decoded h =>
      obtain ⟨_, _, _, _, h⟩ := run_bind_done h
      exact hashCode_decodeAfter h
  | decodedAfter h => exact hashCode_decodeAfter h
  | decodedArray h => exact hashCode_decodeArray h
  | copied _ w ih => exact (hashCode_with _ w).trans ih

/-! ### Tables of addresses -/

/-- The addresses in a table after these were put, each with its origin and a
    value. A set is a table whose values say nothing. -/
def tableKeys {V : Type} (es : List ((PeerAddress × Origin) × V)) : List PeerAddress :=
  HashTable.keys hashCode peerId (es.map fun e => (e.1.1, e.2))

/-- Equal addresses have equal hashes, exactly if their origins give one hash.
    A table has one entry for each peer, exactly if the origins of addresses of
    one peer give one hash. -/
theorem equals_imp_hashCode_iff {a b : PeerAddress} {o o' : Origin} (ha : Obtained a o) (hb : Obtained b o')
    {V : Type} (es : List ((PeerAddress × Origin) × V)) (hes : ∀ e ∈ es, Obtained e.1.1 e.1.2) :
    ((a.equals b = true → a.hashCode = b.hashCode) ↔ (a.peerId = b.peerId → o.hash = o'.hash)) ∧
      (((tableKeys es).map peerId).Nodup ↔
        ∀ d ∈ es, ∀ e ∈ es, d.1.1.peerId = e.1.1.peerId → d.1.2.hash = e.1.2.hash) := by
  refine ⟨?_, ?_⟩
  · rw [equals, decide_eq_true_eq, ha.hashCode_eq, hb.hashCode_eq]
  · rw [tableKeys, HashTable.nodup_iff]
    have hkeys (k : PeerAddress) :
        k ∈ (es.map fun e => (e.1.1, e.2)).map Prod.fst ↔ ∃ e ∈ es, e.1.1 = k := by
      rw [List.map_map, List.mem_map]
      rfl
    refine ⟨?_, ?_⟩
    · intro h d hd e he hid
      rw [← (hes d hd).hashCode_eq, ← (hes e he).hashCode_eq]
      exact h _ ((hkeys _).mpr ⟨d, hd, rfl⟩) _ ((hkeys _).mpr ⟨e, he, rfl⟩) hid
    · intro h k hk l hl hid
      obtain ⟨d, hd, rfl⟩ := (hkeys k).mp hk
      obtain ⟨e, he, rfl⟩ := (hkeys l).mp hl
      rw [(hes d hd).hashCode_eq, (hes e he).hashCode_eq]
      exact h d hd e he hid

/-- The address of a peer as it is built from its id. -/
def ofId (peerId : Number160) : PeerAddress := { peerId := peerId }

/-- The same address after it was written and read. -/
def ofIdRead (peerId : Number160) : PeerAddress :=
  { peerId := peerId, hashCode := peerId.hashCode, relayTypes := some 0 }

theorem obtained_ofId (peerId : Number160) : Obtained (ofId peerId) (.built none) := by
  have hbuild : build peerId [] = .ok (ofId peerId) := rfl
  exact Obtained.built hbuild

theorem obtained_ofIdRead (peerId : Number160) : Obtained (ofIdRead peerId) (.decoded peerId) := by
  have hwf : (ofId peerId).WellFormed := {
    ipv4 := rfl
    internal := rfl
    ipv6 := rfl
    families := rfl
    ipv4_ports := fun _ h => by cases h
    internal_ports := fun _ h => by cases h
    ipv6_ports := fun _ h => by cases h
    relay_ports := fun _ h => by cases h }
  obtain ⟨v, hv⟩ : ∃ v, (ofId peerId).encode = .ok v := ⟨_, rfl⟩
  have hparse := parses_decode (σ := Unit) (ofId peerId) v hwf hv () []
  exact Obtained.decoded hparse

/-- The address as it is built with the hash of its id. -/
def ofIdHashed (peerId : Number160) : PeerAddress := { peerId := peerId, hashCode := peerId.hashCode }

/-- A peer that was heard of, that was built with the hash of its id, and whose address was copied
    for other relays is one entry, and its addresses have one hash. -/
theorem equals_imp_hashCode_paths :
    let copied := With.apply (ofIdRead 5) (.relays [])
    let hash := some (5 : Number160).hashCode
    ((ofIdHashed 5).equals copied = true → (ofIdHashed 5).hashCode = copied.hashCode) ∧
      ((tableKeys [((ofIdRead 5, .decoded 5), ()), ((ofIdHashed 5, .built hash), ()),
        ((copied, .decoded 5), ())]).map peerId).Nodup := by
  intro copied hash
  have hread := obtained_ofIdRead 5
  have hbuild : build 5 [.hashCode (5 : Number160).hashCode] = .ok (ofIdHashed 5) := rfl
  have hbuilt : Obtained (ofIdHashed 5) (.built hash) := .built hbuild
  have hcopied : Obtained copied (.decoded 5) := .copied hread (.relays [])
  have hiff := equals_imp_hashCode_iff hbuilt hcopied
    [((ofIdRead 5, .decoded 5), ()), ((ofIdHashed 5, .built hash), ()), ((copied, .decoded 5), ())]
    (by simp [hread, hbuilt, hcopied])
  exact ⟨hiff.1.mpr fun _ => rfl, hiff.2.mpr (by decide)⟩

/-- A peer that was built and heard of is two entries. -/
theorem not_equals_imp_hashCode_ofId :
    Obtained (ofId 5) (.built none) ∧ Obtained (ofIdRead 5) (.decoded 5) ∧
      (ofId 5).equals (ofIdRead 5) = true ∧ (ofId 5).hashCode ≠ (ofIdRead 5).hashCode ∧
      ¬ ((tableKeys [((ofId 5, .built none), ()), ((ofIdRead 5, .decoded 5), ())]).map peerId).Nodup :=
  ⟨obtained_ofId 5, obtained_ofIdRead 5, by decide, by decide, by decide⟩

end PeerAddress

end TomP2P
