import TomP2P.Foundation.Limited
import TomP2P.Theory.Digest

/-!
# Values through Bloom Filters

Which entries a request with Bloom filters gets.

The storage layer copies the visible entries of the domain up to the limit and looks at
the filters afterwards. An entry that a filter stops has used up its place by then. So the
answer is what was asked for only if no entry in front is stopped, or none behind it
passes (`Limited.same_iff`).

The filters are not looked at if all three of them are full. That stops nothing if they
have to contain the entry, and should stop everything if they must not.

## Main definitions

* `StorageLayer.visibleEntries`: What can be seen of a map, in a direction.
* `StorageRPC.bloomRequest`: A request with three filters.
* `StorageRPC.FirstPassing`: The answer has the first entries that pass.

## Theorems

* `StorageLayer.get_filterCopy_iff`: A copy has the first entries that can be seen.
* `StorageRPC.firstPassing_iff`: When the answer has the first entries that pass.
-/

namespace TomP2P

open List

namespace StorageLayer

/-! ### Copies -/

/-- The loop puts what it keeps into the map, up to the limit. -/
theorem get_filterCopyLoop_iff (keep : Data → Bool) (copy : Data → Data) (limit : Int)
    (entries : List (Number640 × Data)) (counter : Nat) (retVal : NavMap Number640 Data)
    (hnodup : (entries.map Prod.fst).Nodup) (hnew : ∀ e ∈ entries, retVal.get e.1 = none)
    (hcounter : limit < 0 ∨ counter ≤ limit) (k : Number640) (v : Data) :
    (filterCopyLoop keep copy limit entries counter retVal).get k = some v ↔
      (∃ d, (k, d) ∈ Limited.take (limit - counter) (entries.filter fun e => keep e.2) ∧ v = copy d) ∨
        retVal.get k = some v := by
  induction entries generalizing counter retVal with
  | nil => simp [filterCopyLoop]
  | cons entry rest ih =>
      rw [map_cons, nodup_cons] at hnodup
      have hrest (e) (he : e ∈ rest) : retVal.get e.1 = none := hnew e (mem_cons_of_mem _ he)
      rw [filterCopyLoop]
      by_cases hkeep : keep entry.2 = true
      · rw [if_pos hkeep, filter_cons_of_pos (p := fun e : Number640 × Data => keep e.2) hkeep]
        by_cases hfull : 0 ≤ limit ∧ limit ≤ counter
        · -- there is no room left
          have hzero : limit - counter = 0 := by omega
          simp [if_pos hfull, hzero]
        · have hroom : limit - counter ≠ 0 := by omega
          have hsub : limit - counter - 1 = limit - ((counter + 1 : Nat) : Int) := by omega
          have hput : ∀ e ∈ rest, (retVal.put entry.1 (copy entry.2)).get e.1 = none := by
            intro e he
            have hne : e.1 ≠ entry.1 := by
              intro heq
              exact hnodup.1 (heq ▸ mem_map_of_mem he)
            rw [NavMap.get_put_ne _ _ _ _ hne, hrest e he]
          rw [if_neg hfull, ih (counter + 1) _ hnodup.2 hput (by omega), Limited.take_cons _ _ hroom, hsub,
            NavMap.get_put]
          by_cases hk : k = entry.1
          · have hnone : retVal.get k = none := by rw [hk, hnew entry mem_cons_self]
            rw [if_pos hk, hnone]
            constructor
            · intro h
              rcases h with ⟨d, hd, hv⟩ | hv
              · exact .inl ⟨d, mem_cons_of_mem _ hd, hv⟩
              · exact .inl ⟨entry.2, by rw [hk]; exact mem_cons_self, (Option.some.inj hv).symm⟩
            · intro h
              rcases h with ⟨d, hd, hv⟩ | hv
              · rcases mem_cons.mp hd with heq | hd
                · have hd : d = entry.2 := congrArg Prod.snd heq
                  exact .inr (by rw [hv, hd])
                · exact .inl ⟨d, hd, hv⟩
              · cases hv
          · rw [if_neg hk]
            have hne (d : Data) : (k, d) ≠ entry := fun heq => hk (congrArg Prod.fst heq)
            simp only [mem_cons, hne, false_or]
      · rw [if_neg hkeep, filter_cons_of_neg (p := fun e : Number640 × Data => keep e.2) hkeep]
        exact ih counter retVal hnodup.2 hrest hcounter

/-- What can be seen of a map, in a direction. -/
def visibleEntries (tmp : NavMap Number640 Data) (ascending : Bool) : List (Number640 × Data) :=
  (inDirection tmp ascending).filter fun e => !e.2.hasPrepareFlag

theorem nodup_inDirection (tmp : NavMap Number640 Data) (ascending : Bool) :
    ((inDirection tmp ascending).map Prod.fst).Nodup := by
  unfold inDirection
  cases ascending with
  | false =>
      rw [if_neg (by decide), map_reverse, nodup_reverse]
      exact tmp.nodup_keys
  | true => exact tmp.nodup_keys

theorem nodup_visibleEntries (tmp : NavMap Number640 Data) (ascending : Bool) :
    ((visibleEntries tmp ascending).map Prod.fst).Nodup :=
  ((filter_sublist).map Prod.fst).nodup (nodup_inDirection tmp ascending)

/-- A copy has the first entries that can be seen. -/
theorem get_filterCopy_iff (tmp : NavMap Number640 Data) (limit : Int) (ascending : Bool) (k : Number640) (v : Data) :
    (filterCopy tmp limit ascending).get k = some v ↔
      ∃ d, (k, d) ∈ Limited.take limit (visibleEntries tmp ascending) ∧ v = d.duplicate := by
  have hloop := get_filterCopyLoop_iff (fun d => !d.hasPrepareFlag) Data.duplicate limit (inDirection tmp ascending) 0
    .empty (nodup_inDirection tmp ascending) (fun _ _ => rfl) (by omega) k v
  rw [filterCopy, hloop]
  simp [visibleEntries]

end StorageLayer

namespace StorageRPC

open StorageLayer

/-! ### Requests -/

/-- The request for the entries of a domain, with three filters. -/
def bloomRequest (locationKey domainKey : Number160)
    (contentKeyBloomFilter versionBloomFilter contentBloomFilter : TransmittedFilter) (limit : BitVec 32)
    (ascending bloomFilterAnd : Bool) : SearchMessage where
  type := searchType ascending bloomFilterAnd
  keys := [locationKey, domainKey]
  integers := [limit]
  bloomFilters := [contentKeyBloomFilter, versionBloomFilter, contentBloomFilter]

variable (m : StorageMemory) (locationKey domainKey : Number160)
  (contentKeyBloomFilter versionBloomFilter contentBloomFilter : TransmittedFilter) (limit : BitVec 32)
  (ascending bloomFilterAnd : Bool)

/-- The entries of a domain that can be seen. -/
def domainVisible : List (Number640 × Data) :=
  visibleEntries
    (m.dataMap.subMap ⟨locationKey, domainKey, .ZERO, .ZERO⟩ ⟨locationKey, domainKey, .MAX_VALUE, .MAX_VALUE⟩)
    ascending

/-- An entry passes the filters of a request. -/
def passesAll (e : Number640 × Data) : Bool :=
  passes contentKeyBloomFilter.contains versionBloomFilter.contains contentBloomFilter.contains bloomFilterAnd e.1 e.2

/-- The answer has the first entries that pass, up to the limit, and nothing else. -/
def FirstPassing : Prop :=
  ∃ r, doGet m (bloomRequest locationKey domainKey contentKeyBloomFilter versionBloomFilter contentBloomFilter limit
      ascending bloomFilterAnd) = .ok r ∧
    ∀ k v, r.get k = some v ↔ ∃ d, (k, d) ∈ Limited.take limit.toInt
      ((domainVisible m locationKey domainKey ascending).filter
        (passesAll contentKeyBloomFilter versionBloomFilter contentBloomFilter bloomFilterAnd)) ∧ v = d.duplicate

/-! ### Answers -/

theorem nodup_domainVisible : ((domainVisible m locationKey domainKey ascending).map Prod.fst).Nodup :=
  nodup_visibleEntries _ ascending

/-- Copies of entries with different keys are the same if the entries are. -/
theorem same_copies_iff {all as bs : List (Number640 × Data)} (hnodup : (all.map Prod.fst).Nodup)
    (has : ∀ e ∈ as, e ∈ all) (hbs : ∀ e ∈ bs, e ∈ all) :
    (∀ k v, (∃ d, (k, d) ∈ as ∧ v = d.duplicate) ↔ ∃ d, (k, d) ∈ bs ∧ v = d.duplicate) ↔ ∀ e, e ∈ as ↔ e ∈ bs := by
  have hone {k : Number640} {d d' : Data} (hd : (k, d) ∈ all) (hd' : (k, d') ∈ all) : d = d' :=
    congrArg Prod.snd (inj_on_of_nodup_map hnodup hd hd' rfl)
  constructor
  · intro hsame e
    constructor
    · intro he
      obtain ⟨d, hd, -⟩ := (hsame e.1 e.2.duplicate).mp ⟨e.2, he, rfl⟩
      have heq : e.2 = d := hone (has e he) (hbs _ hd)
      rwa [← heq] at hd
    · intro he
      obtain ⟨d, hd, -⟩ := (hsame e.1 e.2.duplicate).mpr ⟨e.2, he, rfl⟩
      have heq : e.2 = d := hone (hbs e he) (has _ hd)
      rwa [← heq] at hd
  · intro hsame k v
    simp only [hsame]

/-- What `doGet` makes of the request. -/
theorem doGet_bloomRequest :
    doGet m (bloomRequest locationKey domainKey contentKeyBloomFilter versionBloomFilter contentBloomFilter limit
        ascending bloomFilterAnd) =
      let copy := filterCopy (m.dataMap.subMap ⟨locationKey, domainKey, .ZERO, .ZERO⟩
        ⟨locationKey, domainKey, .MAX_VALUE, .MAX_VALUE⟩) limit.toInt ascending
      .ok (if contentKeyBloomFilter.isFull && versionBloomFilter.isFull && contentBloomFilter.isFull then copy
        else copy.filter (passes contentKeyBloomFilter.contains versionBloomFilter.contains
          contentBloomFilter.contains bloomFilterAnd)) := by
  generalize hmessage : bloomRequest locationKey domainKey contentKeyBloomFilter versionBloomFilter contentBloomFilter
    limit ascending bloomFilterAnd = message
  have hascending : isAscending message = ascending := by
    rw [← hmessage]
    exact isAscending_searchType rfl
  have hand : isBloomFilterAnd message = bloomFilterAnd := by
    rw [← hmessage]
    exact isBloomFilterAnd_searchType rfl
  have hlooked : (!contentKeyBloomFilter.isFull || !versionBloomFilter.isFull || !contentBloomFilter.isFull) =
      !(contentKeyBloomFilter.isFull && versionBloomFilter.isFull && contentBloomFilter.isFull) := by
    simp only [Bool.not_and]
  unfold doGet
  rw [hascending, hand, ← hmessage]
  simp only [bloomRequest, getElem?_nil, getElem?_cons_zero, getElem?_cons_succ, domainRange,
    Effect.except_ok_bind, hlooked, getRange, getBloom, subMap_domain, limitOf, Option.getD_some]
  cases contentKeyBloomFilter.isFull && versionBloomFilter.isFull && contentBloomFilter.isFull with
  | true | false => rfl

/-- The entries in the answer. -/
theorem exists_doGet :
    ∃ r, doGet m (bloomRequest locationKey domainKey contentKeyBloomFilter versionBloomFilter contentBloomFilter limit
        ascending bloomFilterAnd) = .ok r ∧
      ∀ k v, r.get k = some v ↔ ∃ d, (k, d) ∈
        (if contentKeyBloomFilter.isFull && versionBloomFilter.isFull && contentBloomFilter.isFull then
          Limited.take limit.toInt (domainVisible m locationKey domainKey ascending)
        else (Limited.take limit.toInt (domainVisible m locationKey domainKey ascending)).filter
          (passesAll contentKeyBloomFilter versionBloomFilter contentBloomFilter bloomFilterAnd)) ∧
        v = d.duplicate := by
  refine ⟨_, doGet_bloomRequest m locationKey domainKey contentKeyBloomFilter versionBloomFilter contentBloomFilter
    limit ascending bloomFilterAnd, fun k v => ?_⟩
  cases contentKeyBloomFilter.isFull && versionBloomFilter.isFull && contentBloomFilter.isFull with
  | true => exact get_filterCopy_iff _ limit.toInt ascending k v
  | false =>
      simp only [Bool.false_eq_true, if_false]
      rw [NavMap.get_filter, Option.filter_eq_some_iff, get_filterCopy_iff]
      constructor
      · intro h
        obtain ⟨⟨d, hd, hv⟩, hpass⟩ := h
        -- a copy has the hash of what was copied
        rw [hv] at hpass
        exact ⟨d, mem_filter.mpr ⟨hd, hpass⟩, hv⟩
      · intro h
        obtain ⟨d, hd, hv⟩ := h
        obtain ⟨hd, hpass⟩ := mem_filter.mp hd
        refine ⟨⟨d, hd, hv⟩, ?_⟩
        rw [hv]
        exact hpass

/-- The answer has the first entries that pass exactly if all of the first entries do, or
    if the filters are looked at and no entry behind passes. -/
theorem firstPassing_iff :
    FirstPassing m locationKey domainKey contentKeyBloomFilter versionBloomFilter contentBloomFilter limit ascending
        bloomFilterAnd ↔
      (∀ e ∈ Limited.take limit.toInt (domainVisible m locationKey domainKey ascending),
        passesAll contentKeyBloomFilter versionBloomFilter contentBloomFilter bloomFilterAnd e = true) ∨
      (contentKeyBloomFilter.isFull && versionBloomFilter.isFull && contentBloomFilter.isFull) = false ∧
        ∀ e ∈ Limited.drop limit.toInt (domainVisible m locationKey domainKey ascending),
          passesAll contentKeyBloomFilter versionBloomFilter contentBloomFilter bloomFilterAnd e = false := by
  obtain ⟨r, hr, hget⟩ := exists_doGet m locationKey domainKey contentKeyBloomFilter versionBloomFilter
    contentBloomFilter limit ascending bloomFilterAnd
  unfold FirstPassing
  rw [hr]
  generalize hpass : passesAll contentKeyBloomFilter versionBloomFilter contentBloomFilter bloomFilterAnd = pass at *
  have hkeys := nodup_domainVisible m locationKey domainKey ascending
  generalize domainVisible m locationKey domainKey ascending = visible at *
  simp only [Except.ok.injEq, exists_eq_left', hget]
  have hpassing : ∀ e ∈ Limited.take limit.toInt (visible.filter pass), e ∈ visible := fun e he =>
    mem_of_mem_filter (Limited.mem_of_mem_take _ _ he)
  have hfirst : ∀ e ∈ Limited.take limit.toInt visible, e ∈ visible := fun e he => Limited.mem_of_mem_take _ _ he
  cases hfull : contentKeyBloomFilter.isFull && versionBloomFilter.isFull && contentBloomFilter.isFull with
  | true =>
      rw [if_pos rfl, same_copies_iff hkeys hfirst hpassing, Limited.unfiltered_iff]
      simp
  | false =>
      rw [if_neg (by decide), same_copies_iff hkeys (fun e he => hfirst e (mem_of_mem_filter he)) hpassing,
        Limited.same_iff _ _ _ hkeys.of_map]
      simp

section Runs

def inDomain (n : BitVec 32) : Number640 := ⟨.ZERO, .ZERO, ⟨0, 0, 0, 0, n⟩, .ZERO⟩

/-- Two values of a domain. -/
def twoValues : StorageMemory :=
  (({} : StorageMemory).put (inDomain 1) (Data.new [1#8] 0)).put (inDomain 2) (Data.new [2#8] 0)

/-- The content key of the second value. -/
def secondOnly : TransmittedFilter where
  contains n := n = ⟨0, 0, 0, 0, 2⟩
  isFull := false

/-- The first value is stopped by a filter, and its place is lost. If there should be no
    filter's key among the values, full filters are not looked at. -/
theorem places_are_lost :
    doGet twoValues (bloomRequest .ZERO .ZERO secondOnly FULL_FILTER FULL_FILTER 1 true true) = .ok .empty ∧
      ¬ FirstPassing twoValues .ZERO .ZERO secondOnly FULL_FILTER FULL_FILTER 1 true true ∧
      doGet twoValues (bloomRequest .ZERO .ZERO FULL_FILTER FULL_FILTER FULL_FILTER (-1) true false) =
        .ok twoValues.dataMap ∧
      ¬ FirstPassing twoValues .ZERO .ZERO FULL_FILTER FULL_FILTER FULL_FILTER (-1) true false := by
  have hnone : doGet twoValues (bloomRequest .ZERO .ZERO secondOnly FULL_FILTER FULL_FILTER 1 true true) =
      .ok .empty := by decide
  have hall : doGet twoValues (bloomRequest .ZERO .ZERO FULL_FILTER FULL_FILTER FULL_FILTER (-1) true false) =
      .ok twoValues.dataMap := by decide
  refine ⟨hnone, fun h => ?_, hall, fun h => ?_⟩
  · obtain ⟨r, hr, hget⟩ := h
    rw [hnone] at hr
    cases hr
    have hsecond := (hget (inDomain 2) (Data.new [2#8] 0).duplicate).mpr ⟨_, by decide, rfl⟩
    cases hsecond
  · obtain ⟨r, hr, hget⟩ := h
    rw [hall] at hr
    cases hr
    obtain ⟨d, hd, -⟩ := (hget (inDomain 1) (Data.new [1#8] 0)).mp (by decide)
    have hpassing : (domainVisible twoValues .ZERO .ZERO true).filter
        (passesAll FULL_FILTER FULL_FILTER FULL_FILTER false) = [] := by decide
    rw [hpassing] at hd
    cases hd

end Runs

end StorageRPC

end TomP2P
