import TomP2P.Core.StorageSearch
import TomP2P.Theory.Sync

/-!
# A Digest and the Values

When the digest of a request has the keys that the values would have.

Both are made from the same entries: those of a range or of a domain that can be seen,
up to the limit (`get_filterCopy`, `contains_digestOf`). What differs is which of them
the Bloom filters of a domain let through. The request for the values has all three
filters at their positions. The one for a digest leaves out those that are not set, so
that a filter of the contents without one of the keys is taken for the latter, and that
`doGet` never finds three of them and looks at none. And where all filters are full, the
request for the values looks at none, which in the mode that leaves entries out is the case only
if a peer asks itself: the filters without bits are full then. `ReadAsSent` says for one entry that
this makes no difference.

## Main definitions

* `DigestAgrees`: The digest has the keys of the values.
* `SearchBuilder.domainOf`, `SearchBuilder.domainEntries`: What is asked for with filters.
* `ReadAsSent`: The filters are read as if they were at their positions.

## Theorems

* `StorageLayer.get_filterCopy`, `StorageLayer.contains_digestOf`: The keys of an answer.
* `StorageRPC.contains_digestCollection`: The keys of a collection.
* `digestAgrees_iff`: When the digest has the keys of the values.
-/

namespace TomP2P

open NavMap

namespace StorageLayer

/-! ### Entries of an answer -/

/-- The entries of a copy are visible entries of the map. -/
theorem get_filterCopyLoop {keep : Data → Bool} {copy : Data → Data} {limit : Int} {entries : List (Number640 × Data)}
    {counter : Nat} {retVal : NavMap Number640 Data} {x : Number640} {v : Data}
    (h : (filterCopyLoop keep copy limit entries counter retVal).get x = some v) :
    (∃ e ∈ entries, keep e.2 = true ∧ x = e.1 ∧ v = copy e.2) ∨ retVal.get x = some v := by
  induction entries generalizing counter retVal with
  | nil => exact .inr h
  | cons entry rest ih =>
      have hlater (hrest : ∃ e ∈ rest, keep e.2 = true ∧ x = e.1 ∧ v = copy e.2) :
          ∃ e ∈ entry :: rest, keep e.2 = true ∧ x = e.1 ∧ v = copy e.2 := by
        obtain ⟨e, he, hrest⟩ := hrest
        exact ⟨e, List.mem_cons_of_mem _ he, hrest⟩
      rw [filterCopyLoop] at h
      by_cases hk : keep entry.2 = true
      · rw [if_pos hk] at h
        by_cases hl : 0 ≤ limit ∧ limit ≤ counter
        · rw [if_pos hl] at h
          exact .inr h
        · rw [if_neg hl] at h
          rcases ih h with hrest | hput
          · exact .inl (hlater hrest)
          · by_cases hx : x = entry.1
            · rw [hx, get_put_self] at hput
              cases hput
              exact .inl ⟨entry, List.mem_cons_self, hk, hx, rfl⟩
            · rw [get_put_ne _ _ _ _ hx] at hput
              exact .inr hput
      · rw [if_neg hk] at h
        rcases ih h with hrest | hres
        · exact .inl (hlater hrest)
        · exact .inr hres

/-- Copying the values changes no key. -/
theorem get_filterCopyLoop_map (keep : Data → Bool) (copy : Data → Data) (limit : Int)
    (entries : List (Number640 × Data)) (counter : Nat) (retVal retVal' : NavMap Number640 Data)
    (h : ∀ k, retVal'.get k = (retVal.get k).map copy) (k : Number640) :
    (filterCopyLoop keep copy limit entries counter retVal').get k =
      ((filterCopyLoop keep id limit entries counter retVal).get k).map copy := by
  induction entries generalizing counter retVal retVal' with
  | nil => exact h k
  | cons entry rest ih =>
      rw [filterCopyLoop, filterCopyLoop]
      by_cases hk : keep entry.2 = true
      · rw [if_pos hk, if_pos hk]
        by_cases hl : 0 ≤ limit ∧ limit ≤ counter
        · rw [if_pos hl, if_pos hl]
          exact h k
        · rw [if_neg hl, if_neg hl]
          refine ih _ _ _ ?_
          intro k'
          rw [get_put, get_put]
          split
          · rfl
          · exact h k'
      · rw [if_neg hk, if_neg hk]
        exact ih _ _ _ h

theorem get_filterCopy (tmp : NavMap Number640 Data) (limit : Int) (ascending : Bool) (k : Number640) :
    (filterCopy tmp limit ascending).get k = ((filterCopyOrig tmp limit ascending true).get k).map Data.duplicate :=
  get_filterCopyLoop_map _ _ limit _ 0 .empty .empty (fun _ => rfl) k

/-- The copy without prepared values has none. -/
theorem hasPrepareFlag_of_filterCopyOrig {tmp : NavMap Number640 Data} {limit : Int} {ascending : Bool}
    {k : Number640} {d : Data} (h : (filterCopyOrig tmp limit ascending true).get k = some d) :
    d.hasPrepareFlag = false := by
  rcases get_filterCopyLoop h with ⟨e, _, hkeep, _, rfl⟩ | hempty
  · simpa using hkeep
  · simp at hempty

/-- The keys of a map that is filled in a loop. -/
theorem contains_foldl {α V : Type} (es : List α) (key : α → Number640) (value : α → Option V) (m : NavMap Number640 V)
    (k : Number640) :
    (es.foldl (fun m e => (value e).elim m (m.put (key e))) m).contains k = true ↔
      (∃ e ∈ es, key e = k ∧ (value e).isSome = true) ∨ m.contains k = true := by
  induction es generalizing m with
  | nil => simp
  | cons e es ih =>
      rw [List.foldl_cons, ih]
      have hone : ((value e).elim m (m.put (key e))).contains k = true ↔
          (key e = k ∧ (value e).isSome = true) ∨ m.contains k = true := by
        cases hv : value e with
        | none => simp
        | some v =>
            rw [Option.elim_some, NavMap.contains, get_put]
            by_cases hk : k = key e
            · simp [hk]
            · simp [hk, Ne.symm hk, NavMap.contains]
      rw [hone]
      constructor
      · rintro (⟨e', he', hkey⟩ | hkey | hm)
        · exact .inl ⟨e', List.mem_cons_of_mem _ he', hkey⟩
        · exact .inl ⟨e, List.mem_cons_self, hkey⟩
        · exact .inr hm
      · rintro (⟨e', he', hkey⟩ | hm)
        · rcases List.mem_cons.mp he' with rfl | he'
          · exact .inr (.inl hkey)
          · exact .inl ⟨e', he', hkey⟩
        · exact .inr (.inr hm)

/-- An entry that is not selected leaves the digest as it is. -/
theorem digestOf_foldl (tmp : NavMap Number640 Data) (select : Number640 → Data → Bool) :
    digestOf tmp select = tmp.entries.foldl (fun m e =>
      (if select e.1 e.2 && !e.2.hasPrepareFlag then some e.2.basedOnSet else none).elim m (m.put e.1)) .empty := by
  unfold digestOf
  congr 1
  funext m e
  split
  · rfl
  · rfl

/-- The keys of a digest. -/
theorem contains_digestOf (tmp : NavMap Number640 Data) (select : Number640 → Data → Bool) (k : Number640) :
    (digestOf tmp select).contains k = true ↔
      ∃ d, tmp.get k = some d ∧ select k d = true ∧ d.hasPrepareFlag = false := by
  rw [digestOf_foldl, contains_foldl tmp.entries Prod.fst]
  constructor
  · rintro (⟨e, he, rfl, hsome⟩ | hempty)
    · have hboth : (select e.1 e.2 && !e.2.hasPrepareFlag) = true := by
        by_contra hnot
        rw [if_neg hnot] at hsome
        simp at hsome
      rw [Bool.and_eq_true_iff] at hboth
      exact ⟨e.2, (get_eq_some_iff _ _ _).mpr he, hboth.1, by simpa using hboth.2⟩
    · simp [NavMap.contains] at hempty
  · rintro ⟨d, hget, hselect, hflag⟩
    exact .inl ⟨(k, d), (get_eq_some_iff _ _ _).mp hget, rfl, by simp [hselect, hflag]⟩

/-- A key without a value leaves the digest as it is. -/
theorem digestCollection_foldl (m : StorageMemory) (keys : List Number640) :
    digestCollection m keys = keys.foldl (fun r key =>
      ((getInternal m key).map Data.basedOnSet).elim r (r.put (id key))) .empty := by
  unfold digestCollection
  congr 1
  funext r key
  by_cases hin : m.contains key = true
  · rw [if_pos hin]
    cases getInternal m key with
    | none => rfl
    | some d => rfl
  · -- a key that is not there has no value
    have hnone : m.dataMap.get key = none := by simpa [StorageMemory.contains, NavMap.contains] using hin
    rw [if_neg hin, getInternal, StorageMemory.get, hnone]
    rfl

end StorageLayer

namespace StorageRPC

open StorageLayer

/-- A collection of keys. -/
theorem contains_digestCollection (m : StorageMemory) (keys : List Number640) (k : Number640) :
    (digestCollection m keys).contains k = true ↔ (getCollection m keys).contains k = true := by
  have hget : getCollection m keys = keys.foldl (fun r key => (StorageLayer.get m key).elim r (r.put key)) .empty := by
    unfold getCollection
    congr 1
    funext r key
    cases StorageLayer.get m key with
    | none => rfl
    | some d => rfl
  rw [hget, digestCollection_foldl]
  refine (contains_foldl keys id (fun key => (getInternal m key).map Data.basedOnSet) .empty k).trans
    (Iff.trans ?_ (contains_foldl keys id (StorageLayer.get m) .empty k).symm)
  simp only [StorageLayer.get, Option.isSome_map, NavMap.contains, get_empty, Option.isSome_none]

end StorageRPC

/-! ### Requests for a domain -/

namespace SearchBuilder

/-- The location and the domain of a request for all entries of a domain. -/
def domainOf (b : SearchBuilder) : Option (Number160 × Number160) :=
  if (b.fromKey.isSome && b.toKey.isSome) || b.keys.isSome || b.contentKeys.isSome then none
  else
    match b.locationKey, b.domainKey with
    | some locationKey, some domainKey => some (locationKey, domainKey)
    | _, _ => none

/-- The entries of a domain that can be seen, up to the limit. -/
def domainEntries (b : SearchBuilder) (m : StorageMemory) (locationKey domainKey : Number160) : NavMap Number640 Data :=
  StorageLayer.filterCopyOrig
    (m.dataMap.subMap ⟨locationKey, domainKey, .ZERO, .ZERO⟩ ⟨locationKey, domainKey, .MAX_VALUE, .MAX_VALUE⟩)
    b.returnNr.toInt b.ascending true

/-- The filters that are set let an entry through. -/
def passes (b : SearchBuilder) (k : Number640) (d : Data) : Bool :=
  StorageLayer.admits (b.keyBloomFilter.map (·.contains)) b.bloomFilterAnd k.contentKey &&
    StorageLayer.admits (b.contentBloomFilter.map (·.contains)) b.bloomFilterAnd d.hash

/-- All filters are full, those that are set and those that are sent for the others. A request for
    the values does not look at them. -/
def allFull (inMemory : Bool) (b : SearchBuilder) : Bool :=
  (b.bloomFilterAnd || inMemory) && b.keyBloomFilter.all (·.isFull) && b.contentBloomFilter.all (·.isFull)

end SearchBuilder

/-- The filters are read as they were sent, as far as one entry is concerned. Without filters
    at all three positions `doGet` lets every entry through. A single filter of a digest is
    asked for the content key, even if it is one of the contents. -/
def ReadAsSent (inMemory : Bool) (b : SearchBuilder) (k : Number640) (d : Data) : DigestCommand → Prop
  | .DIGEST_META_VALUES | .DIGEST_ALL_BLOOMFILTER => b.allFull inMemory = true ∨ b.passes k d = true
  | .DIGEST | .DIGEST_BLOOMFILTER =>
      match b.keyBloomFilter, b.contentBloomFilter with
      | none, some filter =>
          if b.allFull inMemory then filter.contains k.contentKey = b.bloomFilterAnd
          else filter.contains k.contentKey = filter.contains d.hash
      | _, _ => b.allFull inMemory = true → b.passes k d = true

/-- Two answers are about the same keys, or both fail alike. -/
def SameKeys : Except JavaException SearchResponse → Except JavaException SearchResponse → Prop
  | .ok values, .ok digest => ∀ k, k ∈ digest.keys ↔ k ∈ values.keys
  | .error e, .error e' => e = e'
  | _, _ => False

/-- The digest has the keys of the values that the same request gives, from another peer or, in
    memory, from the peer itself. -/
def DigestAgrees (inMemory : Bool) (m : StorageMemory) (b : DigestBuilder) : Prop :=
  SameKeys (StorageRPC.get inMemory { toSearchBuilder := b.toSearchBuilder } >>= StorageRPC.handleGet m)
    (StorageRPC.digest b >>= StorageRPC.handleDigest m (StorageRPC.digestCommand b))

namespace StorageRPC

open StorageLayer

variable {b : SearchBuilder} {m : StorageMemory} {locationKey domainKey : Number160}

/-! ### What is sent -/

theorem isAscending_searchType {message : SearchMessage} {ascending bloomFilterAnd : Bool}
    (h : message.type = searchType ascending bloomFilterAnd) : isAscending message = ascending := by
  unfold isAscending
  rw [h]
  cases ascending <;> cases bloomFilterAnd <;> rfl

theorem isBloomFilterAnd_searchType {message : SearchMessage} {ascending bloomFilterAnd : Bool}
    (h : message.type = searchType ascending bloomFilterAnd) : isBloomFilterAnd message = bloomFilterAnd := by
  unfold isBloomFilterAnd
  rw [h]
  cases ascending <;> cases bloomFilterAnd <;> rfl

/-- A request for all entries of a domain. -/
def domainMessage (b : SearchBuilder) (locationKey domainKey : Number160) (filters : List TransmittedFilter) :
    SearchMessage where
  type := searchType b.ascending b.bloomFilterAnd
  keys := [locationKey, domainKey]
  integers := [b.returnNr]
  bloomFilters := filters

theorem searchMessage_domain (h : b.domainOf = some (locationKey, domainKey)) (filters : List TransmittedFilter) :
    searchMessage b filters = .ok (domainMessage b locationKey domainKey filters) := by
  unfold SearchBuilder.domainOf at h
  split at h
  · simp at h
  · next hnot =>
      simp only [Bool.or_eq_true, Bool.and_eq_true, not_or, not_and, Bool.not_eq_true] at hnot
      obtain ⟨⟨hrange, hkeys⟩, hcontents⟩ := hnot
      have hkeys' : b.keys = none := by simpa using hkeys
      have hcontents' : b.contentKeys = none := by simpa using hcontents
      unfold searchMessage
      dsimp only
      rw [hkeys', hcontents']
      cases hl : b.locationKey with
      | none => simp [hl] at h
      | some l =>
          cases hdom : b.domainKey with
          | none => simp [hl, hdom] at h
          | some dom =>
              simp only [hl, hdom, Option.some.injEq, Prod.mk.injEq] at h
              rw [h.1, h.2]
              cases hfrom : b.fromKey with
              | none => rfl
              | some fromKey =>
                  cases hto : b.toKey with
                  | none => rfl
                  | some toKey => simp [hfrom, hto] at hrange

/-- Any other request has no filters: it fails, or it has keys. -/
theorem searchMessage_other (h : b.domainOf = none) (filters filters' : List TransmittedFilter) :
    searchMessage b filters = searchMessage b filters' ∧
      ∀ message, searchMessage b filters = .ok message → ∃ keys, message.keyCollections[0]? = some keys := by
  unfold SearchBuilder.domainOf at h
  unfold searchMessage
  dsimp only
  split
  · exact ⟨rfl, fun message hm => ⟨_, by cases hm; rfl⟩⟩
  · next hrange =>
      split
      · exact ⟨rfl, fun message hm => ⟨_, by cases hm; rfl⟩⟩
      · next hkeys =>
          split
          · next l dom hl hdom =>
              split
              · exact ⟨rfl, fun message hm => ⟨_, by cases hm; rfl⟩⟩
              · next hcontents =>
                  have hno : (b.fromKey.isSome && b.toKey.isSome) = false := by
                    cases hfrom : b.fromKey with
                    | none => rfl
                    | some fromKey =>
                        cases hto : b.toKey with
                        | none => rfl
                        | some toKey => exact absurd hto (hrange fromKey toKey hfrom)
                  rw [hno, hkeys, hcontents, hl, hdom] at h
                  simp at h
          · exact ⟨rfl, fun message hm => by simp at hm⟩

/-! ### What is answered for keys -/

/-- Values and a digest with the same keys. -/
def Alike : Except JavaException (NavMap Number640 Data) → Except JavaException DigestInfo → Prop
  | .ok values, .ok digestInfo => ∀ k, digestInfo.contains k = true ↔ values.contains k = true
  | .error e, .error e' => e = e'
  | _, _ => False

/-- A range is copied alike. -/
theorem alike_range (m : StorageMemory) (min max : Number640) (limit : Int) (ascending : Bool) :
    Alike (getRange m min max limit ascending) (digestRange m min max limit ascending) := by
  unfold getRange digestRange
  cases hsub : m.subMap min max with
  | error e => rfl
  | ok tmp =>
      intro k
      rw [contains_digestOf, contains_iff]
      simp only [get_filterCopy, Option.map_eq_some_iff]
      constructor
      · rintro ⟨d, hget, _⟩
        exact ⟨_, d, hget, rfl⟩
      · rintro ⟨_, d, hget, _⟩
        exact ⟨d, hget, trivial, hasPrepareFlag_of_filterCopyOrig hget⟩

/-- Keys that are asked for are answered alike. -/
theorem alike_keys {message : SearchMessage} {keys : List Number640} (h : message.keyCollections[0]? = some keys) :
    Alike (doGet m message) (doDigest m message) := by
  unfold doGet doDigest
  rw [h]
  dsimp only
  split
  · exact contains_digestCollection m keys
  · split
    · exact alike_range m _ _ _ _
    · rfl

/-- The answers then have the same keys, whatever kind of digest is asked for. -/
theorem Alike.sameKeys {message : SearchMessage} (h : Alike (doGet m message) (doDigest m message))
    (command : DigestCommand) : SameKeys (handleGet m message) (handleDigest m command message) := by
  unfold handleGet handleDigest
  cases hget : doGet m message with
  | error e =>
      cases hdigest : doDigest m message with
      | error e' =>
          rw [hget, hdigest] at h
          cases command with
          | DIGEST => exact h
          | DIGEST_BLOOMFILTER => exact h
          | DIGEST_META_VALUES => rfl
          | DIGEST_ALL_BLOOMFILTER => rfl
      | ok digestInfo =>
          rw [hget, hdigest] at h
          exact absurd h id
  | ok values =>
      cases hdigest : doDigest m message with
      | error e =>
          rw [hget, hdigest] at h
          exact absurd h id
      | ok digestInfo =>
          rw [hget, hdigest] at h
          have hkeys : ∀ k, k ∈ digestInfo.keys ↔ k ∈ values.keys := by
            intro k
            rw [mem_keys_iff, mem_keys_iff]
            exact h k
          cases command with
          | DIGEST => exact hkeys
          | DIGEST_BLOOMFILTER => exact hkeys
          | DIGEST_META_VALUES => exact fun _ => .rfl
          | DIGEST_ALL_BLOOMFILTER => exact fun _ => .rfl

/-! ### What is answered for a domain -/

theorem subMap_domain (m : StorageMemory) (locationKey domainKey : Number160) :
    m.subMap ⟨locationKey, domainKey, .ZERO, .ZERO⟩ ⟨locationKey, domainKey, .MAX_VALUE, .MAX_VALUE⟩ =
      .ok (m.dataMap.subMap ⟨locationKey, domainKey, .ZERO, .ZERO⟩
        ⟨locationKey, domainKey, .MAX_VALUE, .MAX_VALUE⟩) := by
  have hle : (⟨locationKey, domainKey, .ZERO, .ZERO⟩ : Number640) ≤
      ⟨locationKey, domainKey, .MAX_VALUE, .MAX_VALUE⟩ := by
    simp only [Number640.le_iff, Number640.toNat, Number160.toNat_ZERO, Number160.toNat_MAX_VALUE]
    omega
  rw [StorageMemory.subMap, if_neg (not_lt.mpr hle)]

/-- The entries that a request for the values has in its answer. -/
def Selected (b : SearchBuilder) (m : StorageMemory) (locationKey domainKey : Number160)
    (select : Number640 → Data → Bool) (k : Number640) : Prop :=
  ∃ d, (b.domainEntries m locationKey domainKey).get k = some d ∧ select k d = true

/-- Two selections have the same keys if they agree on each entry. -/
theorem selected_iff (select select' : Number640 → Data → Bool) :
    (∀ k, Selected b m locationKey domainKey select k ↔ Selected b m locationKey domainKey select' k) ↔
      ∀ e ∈ (b.domainEntries m locationKey domainKey).entries, (select e.1 e.2 = true ↔ select' e.1 e.2 = true) := by
  constructor
  · intro h e he
    have hget := (get_eq_some_iff _ e.1 e.2).mpr he
    have hone : ∀ p : Number640 → Data → Bool, Selected b m locationKey domainKey p e.1 ↔ p e.1 e.2 = true := by
      intro p
      constructor
      · rintro ⟨d, hd, hp⟩
        rw [hget, Option.some.injEq] at hd
        rwa [← hd] at hp
      · exact fun hp => ⟨e.2, hget, hp⟩
    exact (hone select).symm.trans ((h e.1).trans (hone select'))
  · intro h k
    constructor
    · rintro ⟨d, hd, hp⟩
      exact ⟨d, hd, (h (k, d) ((get_eq_some_iff _ _ _).mp hd)).mp hp⟩
    · rintro ⟨d, hd, hp⟩
      exact ⟨d, hd, (h (k, d) ((get_eq_some_iff _ _ _).mp hd)).mpr hp⟩

theorem contains_getRange_domain (b : SearchBuilder) (m : StorageMemory) (locationKey domainKey : Number160) :
    ∃ values, getRange m ⟨locationKey, domainKey, .ZERO, .ZERO⟩ ⟨locationKey, domainKey, .MAX_VALUE, .MAX_VALUE⟩
        b.returnNr.toInt b.ascending = .ok values ∧
      ∀ k, values.contains k = true ↔ Selected b m locationKey domainKey (fun _ _ => true) k := by
  refine ⟨_, by rw [getRange, subMap_domain]; rfl, ?_⟩
  intro k
  rw [contains_iff]
  simp only [get_filterCopy, Option.map_eq_some_iff, Selected, and_true]
  constructor
  · rintro ⟨_, d, hget, _⟩
    exact ⟨d, hget⟩
  · rintro ⟨d, hget⟩
    exact ⟨_, d, hget, rfl⟩

theorem contains_getBloom_domain (b : SearchBuilder) (m : StorageMemory) (locationKey domainKey : Number160)
    (filter₀ filter₁ filter₂ : KeyFilter) :
    ∃ values, getBloom m ⟨locationKey, domainKey, .ZERO, .ZERO⟩ ⟨locationKey, domainKey, .MAX_VALUE, .MAX_VALUE⟩
        filter₀ filter₁ filter₂ b.returnNr.toInt b.ascending b.bloomFilterAnd = .ok values ∧
      ∀ k, values.contains k = true ↔
        Selected b m locationKey domainKey (StorageLayer.passes filter₀ filter₁ filter₂ b.bloomFilterAnd) k := by
  refine ⟨_, by rw [getBloom, subMap_domain]; rfl, ?_⟩
  intro k
  rw [contains_iff]
  simp only [get_filter, Option.filter_eq_some_iff, get_filterCopy, Option.map_eq_some_iff, Selected]
  constructor
  · rintro ⟨_, ⟨d, hget, rfl⟩, hp⟩
    exact ⟨d, hget, hp⟩
  · rintro ⟨d, hget, hp⟩
    exact ⟨_, ⟨d, hget, rfl⟩, hp⟩

theorem contains_digest_domain (b : SearchBuilder) (m : StorageMemory) (locationKey domainKey : Number160)
    (select : Number640 → Data → Bool) (k : Number640) :
    (digestOf (b.domainEntries m locationKey domainKey) select).contains k = true ↔
      Selected b m locationKey domainKey select k := by
  rw [contains_digestOf]
  constructor
  · rintro ⟨d, hget, hp, _⟩
    exact ⟨d, hget, hp⟩
  · rintro ⟨d, hget, hp⟩
    exact ⟨d, hget, hp, hasPrepareFlag_of_filterCopyOrig hget⟩

/-- The filters at their positions: nothing is looked at if all are full, and a filter that
    is not set stops nothing. -/
theorem doGet_three (inMemory : Bool) (b : SearchBuilder) (m : StorageMemory) (locationKey domainKey : Number160) :
    ∃ values, doGet m (domainMessage b locationKey domainKey
        [b.keyBloomFilter.getD (noFilter inMemory b.bloomFilterAnd), noFilter inMemory b.bloomFilterAnd,
          b.contentBloomFilter.getD (noFilter inMemory b.bloomFilterAnd)]) = .ok values ∧
      ∀ k, values.contains k = true ↔
        Selected b m locationKey domainKey (fun k d => b.allFull inMemory || b.passes k d) k := by
  generalize hfilter₀ : b.keyBloomFilter.getD (noFilter inMemory b.bloomFilterAnd) = filter₀
  generalize hfilter₂ : b.contentBloomFilter.getD (noFilter inMemory b.bloomFilterAnd) = filter₂
  have hfull : (!filter₀.isFull || !(noFilter inMemory b.bloomFilterAnd).isFull || !filter₂.isFull) = !b.allFull inMemory := by
    rw [← hfilter₀, ← hfilter₂, SearchBuilder.allFull]
    cases b.bloomFilterAnd with
    | false =>
        cases b.keyBloomFilter <;> cases b.contentBloomFilter <;> cases inMemory <;> simp [noFilter, EMPTY_FILTER]
    | true => cases b.keyBloomFilter <;> cases b.contentBloomFilter <;> simp [noFilter, FULL_FILTER]
  have hpasses : StorageLayer.passes filter₀.contains (noFilter inMemory b.bloomFilterAnd).contains filter₂.contains
      b.bloomFilterAnd = b.passes := by
    funext k d
    rw [← hfilter₀, ← hfilter₂, StorageLayer.passes, SearchBuilder.passes]
    cases b.bloomFilterAnd with
    | false =>
        cases b.keyBloomFilter <;> cases b.contentBloomFilter <;> simp [noFilter, EMPTY_FILTER, admits]
    | true => cases b.keyBloomFilter <;> cases b.contentBloomFilter <;> simp [noFilter, FULL_FILTER, admits]
  have hdo : doGet m (domainMessage b locationKey domainKey [filter₀, noFilter inMemory b.bloomFilterAnd, filter₂]) =
      if (!filter₀.isFull || !(noFilter inMemory b.bloomFilterAnd).isFull || !filter₂.isFull) = true then
        getBloom m ⟨locationKey, domainKey, .ZERO, .ZERO⟩ ⟨locationKey, domainKey, .MAX_VALUE, .MAX_VALUE⟩
          filter₀.contains (noFilter inMemory b.bloomFilterAnd).contains filter₂.contains b.returnNr.toInt
          (isAscending (domainMessage b locationKey domainKey [filter₀, noFilter inMemory b.bloomFilterAnd, filter₂]))
          (isBloomFilterAnd (domainMessage b locationKey domainKey [filter₀, noFilter inMemory b.bloomFilterAnd, filter₂]))
      else
        getRange m ⟨locationKey, domainKey, .ZERO, .ZERO⟩ ⟨locationKey, domainKey, .MAX_VALUE, .MAX_VALUE⟩
          b.returnNr.toInt
          (isAscending (domainMessage b locationKey domainKey [filter₀, noFilter inMemory b.bloomFilterAnd, filter₂])) := rfl
  rw [hdo, isAscending_searchType rfl, isBloomFilterAnd_searchType rfl, hfull]
  cases hall : b.allFull inMemory with
  | true => simpa using contains_getRange_domain b m locationKey domainKey
  | false =>
      have hbloom := contains_getBloom_domain b m locationKey domainKey filter₀.contains
        (noFilter inMemory b.bloomFilterAnd).contains filter₂.contains
      rw [hpasses] at hbloom
      simpa using hbloom

/-- Two filters at most: `doGet` looks at none. -/
theorem doGet_two (b : SearchBuilder) (m : StorageMemory) (locationKey domainKey : Number160) :
    ∃ values, doGet m (domainMessage b locationKey domainKey
        (b.keyBloomFilter.toList ++ b.contentBloomFilter.toList)) = .ok values ∧
      ∀ k, values.contains k = true ↔ Selected b m locationKey domainKey (fun _ _ => true) k := by
  have hdo : doGet m (domainMessage b locationKey domainKey
      (b.keyBloomFilter.toList ++ b.contentBloomFilter.toList)) =
      getRange m ⟨locationKey, domainKey, .ZERO, .ZERO⟩ ⟨locationKey, domainKey, .MAX_VALUE, .MAX_VALUE⟩
        b.returnNr.toInt (isAscending (domainMessage b locationKey domainKey
          (b.keyBloomFilter.toList ++ b.contentBloomFilter.toList))) := by
    cases b.keyBloomFilter <;> cases b.contentBloomFilter <;> rfl
  rw [hdo, isAscending_searchType rfl]
  exact contains_getRange_domain b m locationKey domainKey

/-- How a digest takes the filters. -/
def digestSelect (b : SearchBuilder) (k : Number640) (d : Data) : Bool :=
  match b.keyBloomFilter, b.contentBloomFilter with
  | none, some filter => admits (some filter.contains) b.bloomFilterAnd k.contentKey
  | _, _ => b.passes k d

theorem doDigest_two (b : SearchBuilder) (m : StorageMemory) (locationKey domainKey : Number160) :
    ∃ digestInfo, doDigest m (domainMessage b locationKey domainKey
        (b.keyBloomFilter.toList ++ b.contentBloomFilter.toList)) = .ok digestInfo ∧
      ∀ k, digestInfo.contains k = true ↔ Selected b m locationKey domainKey (digestSelect b) k := by
  generalize hmessage : domainMessage b locationKey domainKey
    (b.keyBloomFilter.toList ++ b.contentBloomFilter.toList) = message
  have hascending : isAscending message = b.ascending := by
    rw [← hmessage]
    exact isAscending_searchType rfl
  have hand : isBloomFilterAnd message = b.bloomFilterAnd := by
    rw [← hmessage]
    exact isBloomFilterAnd_searchType rfl
  have hdigest : doDigest m message = .ok (digestOf (b.domainEntries m locationKey domainKey) (digestSelect b)) := by
    unfold doDigest
    rw [hascending, hand, ← hmessage]
    unfold digestSelect SearchBuilder.passes
    cases hkey : b.keyBloomFilter with
    | none =>
        cases hcontent : b.contentBloomFilter with
        | none =>
            show digestRange m _ _ _ _ = _
            rw [digestRange, subMap_domain]
            rfl
        | some filter =>
            show digestBloom m _ _ _ _ _ _ = _
            rw [digestBloom, subMap_domain]
            refine congrArg Except.ok (congrArg (digestOf _) ?_)
            funext k d
            exact Bool.and_true _
    | some filter =>
        cases hcontent : b.contentBloomFilter with
        | none | some filter' =>
            show digestBloom m _ _ _ _ _ _ = _
            rw [digestBloom, subMap_domain]
            rfl
  exact ⟨_, hdigest, contains_digest_domain b m locationKey domainKey (digestSelect b)⟩

/-- The keys of a digest of a domain. -/
theorem handleDigest_domain (b : SearchBuilder) (m : StorageMemory) (locationKey domainKey : Number160)
    (command : DigestCommand) :
    ∃ response, handleDigest m command (domainMessage b locationKey domainKey
        (b.keyBloomFilter.toList ++ b.contentBloomFilter.toList)) = .ok response ∧
      ∀ k, k ∈ response.keys ↔ Selected b m locationKey domainKey
        (if command = .DIGEST ∨ command = .DIGEST_BLOOMFILTER then digestSelect b else fun _ _ => true) k := by
  obtain ⟨values, hvalues, hget⟩ := doGet_two b m locationKey domainKey
  obtain ⟨digestInfo, hinfo, hdigest⟩ := doDigest_two b m locationKey domainKey
  unfold handleDigest
  rw [hvalues, hinfo]
  cases command with
  | DIGEST => exact ⟨_, rfl, fun k => (mem_keys_iff _ _).trans (hdigest k)⟩
  | DIGEST_BLOOMFILTER => exact ⟨_, rfl, fun k => (mem_keys_iff _ _).trans (hdigest k)⟩
  | DIGEST_META_VALUES => exact ⟨_, rfl, fun k => (mem_keys_iff _ _).trans (hget k)⟩
  | DIGEST_ALL_BLOOMFILTER => exact ⟨_, rfl, fun k => (mem_keys_iff _ _).trans (hget k)⟩

/-- For one entry, that both take it or none does. -/
theorem readAsSent_iff (inMemory : Bool) (b : SearchBuilder) (k : Number640) (d : Data) (command : DigestCommand) :
    ((if command = .DIGEST ∨ command = .DIGEST_BLOOMFILTER then digestSelect b else fun _ _ => true) k d = true ↔
      (b.allFull inMemory || b.passes k d) = true) ↔ ReadAsSent inMemory b k d command := by
  have hdigest : (digestSelect b k d = true ↔ (b.allFull inMemory || b.passes k d) = true) ↔
      (match b.keyBloomFilter, b.contentBloomFilter with
        | none, some filter =>
            if b.allFull inMemory then filter.contains k.contentKey = b.bloomFilterAnd
            else filter.contains k.contentKey = filter.contains d.hash
        | _, _ => b.allFull inMemory = true → b.passes k d = true) := by
    have hplain : (b.passes k d = true ↔ (b.allFull inMemory || b.passes k d) = true) ↔
        (b.allFull inMemory = true → b.passes k d = true) := by
      cases b.allFull inMemory <;> cases b.passes k d <;> simp
    unfold digestSelect
    cases hkey : b.keyBloomFilter with
    | some filter => cases b.contentBloomFilter <;> exact hplain
    | none =>
        cases hcontent : b.contentBloomFilter with
        | none => exact hplain
        | some filter =>
            dsimp only
            cases hall : b.allFull inMemory with
            | true => cases b.bloomFilterAnd <;> simp [admits]
            | false =>
                rw [SearchBuilder.passes, hkey, hcontent]
                cases b.bloomFilterAnd <;> cases hcontentKey : filter.contains k.contentKey <;>
                  cases hhash : filter.contains d.hash <;> simp [admits, hcontentKey, hhash]
  cases command with
  | DIGEST => exact hdigest
  | DIGEST_BLOOMFILTER => exact hdigest
  | DIGEST_META_VALUES => simp [ReadAsSent]
  | DIGEST_ALL_BLOOMFILTER => simp [ReadAsSent]

end StorageRPC

/-- The digest of a request has the keys of its values exactly if the request is not for a
    whole domain, or the filters are read as they were sent for every entry of it. -/
theorem digestAgrees_iff (inMemory : Bool) (m : StorageMemory) (b : DigestBuilder) :
    DigestAgrees inMemory m b ↔ ∀ x ∈ b.domainOf, ∀ e ∈ (b.domainEntries m x.1 x.2).entries,
      ReadAsSent inMemory b.toSearchBuilder e.1 e.2 (StorageRPC.digestCommand b) := by
  unfold DigestAgrees StorageRPC.get StorageRPC.digest
  cases hdomain : b.domainOf with
  | none =>
      refine ⟨fun _ x hx => absurd hx (by simp), fun _ => ?_⟩
      obtain ⟨hsame, hkeys⟩ := StorageRPC.searchMessage_other hdomain
        [b.keyBloomFilter.getD (StorageRPC.noFilter inMemory b.bloomFilterAnd), StorageRPC.noFilter inMemory b.bloomFilterAnd,
          b.contentBloomFilter.getD (StorageRPC.noFilter inMemory b.bloomFilterAnd)]
        (b.keyBloomFilter.toList ++ b.contentBloomFilter.toList)
      dsimp only [Option.getD_none]
      rw [← hsame]
      cases hmessage : StorageRPC.searchMessage b.toSearchBuilder
          [b.keyBloomFilter.getD (StorageRPC.noFilter inMemory b.bloomFilterAnd), StorageRPC.noFilter inMemory b.bloomFilterAnd,
            b.contentBloomFilter.getD (StorageRPC.noFilter inMemory b.bloomFilterAnd)] with
      | error e => rfl
      | ok message =>
          obtain ⟨keys, hkeys⟩ := hkeys message hmessage
          exact (StorageRPC.alike_keys hkeys).sameKeys _
  | some x =>
      obtain ⟨locationKey, domainKey⟩ := x
      dsimp only [Option.getD_none]
      rw [StorageRPC.searchMessage_domain hdomain, StorageRPC.searchMessage_domain hdomain]
      obtain ⟨values, hvalues, hget⟩ := StorageRPC.doGet_three inMemory b.toSearchBuilder m locationKey domainKey
      obtain ⟨response, hresponse, hdigest⟩ := StorageRPC.handleDigest_domain b.toSearchBuilder m locationKey domainKey
        (StorageRPC.digestCommand b)
      rw [Effect.except_ok_bind, Effect.except_ok_bind, hresponse, StorageRPC.handleGet, hvalues]
      have hkeys : ∀ k, (k ∈ response.keys ↔ k ∈ values.keys) ↔
          (StorageRPC.Selected b.toSearchBuilder m locationKey domainKey _ k ↔
            StorageRPC.Selected b.toSearchBuilder m locationKey domainKey _ k) := fun k =>
        iff_congr (hdigest k) ((mem_keys_iff _ _).trans (hget k))
      show (∀ k, k ∈ response.keys ↔ k ∈ values.keys) ↔ _
      rw [forall_congr' hkeys, StorageRPC.selected_iff]
      simp only [Option.mem_some_iff, forall_eq']
      exact forall₂_congr fun e _ => StorageRPC.readAsSent_iff inMemory b.toSearchBuilder e.1 e.2 _

/-- A value, and a filter that has its hash. The value is found, but the digest asks the
    filter for the content key. -/
theorem not_digestAgrees_content : ¬ ∀ inMemory m b, DigestAgrees inMemory m b := by
  intro hall
  let d := Data.new [1#8, 2#8] 0
  let key : Number640 := ⟨1, 2, 3, 0⟩
  let m : StorageMemory := { dataMap := NavMap.empty.put key d }
  let b : DigestBuilder :=
    { locationKey := some 1, domainKey := some 2, contentBloomFilter := some ⟨fun n => n == d.hash, false⟩ }
  have hget : (StorageRPC.get false { toSearchBuilder := b.toSearchBuilder } >>= StorageRPC.handleGet m).toOption.map
      SearchResponse.keys = some [key] := by decide +kernel
  have hdigest : (StorageRPC.digest b >>= StorageRPC.handleDigest m (StorageRPC.digestCommand b)).toOption.map
      SearchResponse.keys = some [] := by decide +kernel
  have hagrees := hall false m b
  unfold DigestAgrees at hagrees
  cases hvalues : StorageRPC.get false { toSearchBuilder := b.toSearchBuilder } >>= StorageRPC.handleGet m with
  | error e =>
      rw [hvalues] at hget
      simp [Except.toOption] at hget
  | ok values =>
      cases hinfo : StorageRPC.digest b >>= StorageRPC.handleDigest m (StorageRPC.digestCommand b) with
      | error e =>
          rw [hinfo] at hdigest
          simp [Except.toOption] at hdigest
      | ok response =>
          rw [hvalues] at hget
          rw [hinfo] at hdigest
          rw [hvalues, hinfo] at hagrees
          have hin := (hagrees key).mpr (by rw [Option.some.inj hget]; exact List.mem_singleton_self key)
          rw [Option.some.inj hdigest] at hin
          exact absurd hin List.not_mem_nil

end TomP2P
