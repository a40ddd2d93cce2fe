import TomP2P.Core.CacheMap
import TomP2P.Foundation.Runs

/-!
# Who Leaves the Bounded Map

A full `CacheMap` drops the entry that was inserted first. That is the one that was used least
recently as long as the order of insertion is the order of the last uses (`InUseOrder`).

A `put` of a new key keeps it so, as the key is the newest in both orders. A hit does so only if it
is on the newest entry already (`HitsNewest`), since a hit moves no entry. After any other hit the
entry has become the newest by its use, but stays where it was inserted, and is dropped before
entries that nobody has asked for since.

The bound is kept whatever happens, and nobody leaves for a key that is there.

## Main definitions

* `CacheMap.Use.DropsOldest`: Who leaves was used before all who stay.
* `CacheMap.Use.InUseOrder`: The entries are in the order of their last uses.
* `CacheMap.Use.HitsNewest`: A hit is on the entry that was inserted last.

## Theorems

* `CacheMap.keys_put`: The keys after an insertion.
* `CacheMap.Use.InUseOrder.step`: Hits on the newest entry keep the order.
* `CacheMap.Use.dropsOldest_of_reached`: What the bounded map keeps to, and when it drops the
  least recently used.
-/

namespace TomP2P

open Function List

namespace CacheMap

variable {K V : Type}

/-- The keys, in the order of insertion. -/
def keys (m : HashedMap K V) : List K := m.entries.map Prod.fst

theorem size_eq_length_keys (m : HashedMap K V) : m.size = (keys m).length := by
  simp [keys, HashedMap.size]

theorem nodup_keys (m : HashedMap K V) : (keys m).Nodup := m.nodup

variable [DecidableEq K]

theorem contains_iff_mem_keys (m : HashedMap K V) (key : K) : m.contains key = true ↔ key ∈ keys m := by
  rw [HashedMap.contains_iff, keys, HashedMap.mem_keys_iff]

theorem keys_put_of_mem {maxEntries : Int} {m : HashedMap K V} {key : K} (value : V) (h : key ∈ keys m) :
    keys (put maxEntries m key value) = keys m := by
  have hmem : key ∈ m.entries.map Prod.fst := h
  rw [put, if_pos ((contains_iff_mem_keys m key).2 h), HashedMap.put, dif_pos hmem]
  unfold keys
  rw [map_map]
  refine map_congr_left fun e _ => ?_
  by_cases he : e.1 = key
  · simp [he]
  · simp [he]

/-- A new key comes last, and the first one goes if there are too many. -/
theorem keys_put_of_not_mem {maxEntries : Int} {m : HashedMap K V} {key : K} (value : V) (h : key ∉ keys m) :
    keys (put maxEntries m key value) =
      if maxEntries < (keys m).length + 1 then (keys m ++ [key]).tail else keys m ++ [key] := by
  have hnot : ¬ m.contains key = true := fun hc => h ((contains_iff_mem_keys m key).1 hc)
  have hsize := m.size_put_of_not_contains key value hnot
  have hkeys : keys (m.put key value) = keys m ++ [key] := by
    have hmem : key ∉ m.entries.map Prod.fst := h
    rw [HashedMap.put, dif_neg hmem]
    simp [keys]
  rw [put, if_neg hnot, hsize, size_eq_length_keys]
  push_cast
  split
  · rw [← hkeys]
    simp [keys, HashedMap.removeFirst]
  · exact hkeys

theorem keys_remove (m : HashedMap K V) (key : K) : keys (m.remove key) = (keys m).filter (· ≠ key) := by
  simp [keys, HashedMap.remove, filter_map, comp_def]

/-- What an operation does to the keys. -/
theorem keys_run (maxEntries : Int) (updateEntryOnInsert : Bool) (m : HashedMap K V) (op : Op K V) :
    keys (op.run maxEntries updateEntryOnInsert m).2 =
      match op with
      | .put key _ | .putIfAbsent key _ =>
          if key ∈ keys m then keys m
          else if maxEntries < (keys m).length + 1 then (keys m ++ [key]).tail else keys m ++ [key]
      | .get _ => keys m
      | .remove key => (keys m).filter (· ≠ key) := by
  have hput (key : K) (value : V) : keys (put maxEntries m key value) =
      if key ∈ keys m then keys m
      else if maxEntries < (keys m).length + 1 then (keys m ++ [key]).tail else keys m ++ [key] := by
    by_cases h : key ∈ keys m
    · rw [if_pos h, keys_put_of_mem value h]
    · rw [if_neg h, keys_put_of_not_mem value h]
  have hputIfAbsent (key : K) (value : V) : keys (putIfAbsent maxEntries m key value).2 =
      if key ∈ keys m then keys m
      else if maxEntries < (keys m).length + 1 then (keys m ++ [key]).tail else keys m ++ [key] := by
    by_cases h : key ∈ keys m
    · have hc := (contains_iff_mem_keys m key).2 h
      simp [putIfAbsent, hc, h]
    · have hc : m.contains key = false := by
        rw [← Bool.not_eq_true, contains_iff_mem_keys]
        exact h
      rw [← hput key value]
      simp [putIfAbsent, hc, superPut]
  cases op with
  | put key value =>
      cases updateEntryOnInsert with
      | false => exact hputIfAbsent key value
      | true => exact hput key value
  | putIfAbsent key value => exact hputIfAbsent key value
  | get key => rfl
  | remove key => exact keys_remove m key

namespace Use

/-- The map is within its bound. -/
def Bounded (maxEntries : Int) (s : Use K V) : Prop := (s.map.size : Int) ≤ maxEntries

/-- Nobody leaves if the key that is put is there. -/
def KeepsAll (maxEntries : Int) (updateEntryOnInsert : Bool) (s : Use K V) : Prop :=
  ∀ op : Op K V, ∀ key, op.puts = some key → key ∈ keys s.map →
    keys (s.step maxEntries updateEntryOnInsert op).map = keys s.map

/-- Who leaves without being removed was used before all who stay. -/
def DropsOldest (maxEntries : Int) (updateEntryOnInsert : Bool) (s : Use K V) : Prop :=
  ∀ op : Op K V, ∀ key ∈ keys s.map, key ∉ keys (s.step maxEntries updateEntryOnInsert op).map → op ≠ .remove key →
    ∀ key' ∈ keys (s.step maxEntries updateEntryOnInsert op).map,
      (s.step maxEntries updateEntryOnInsert op).lastUse key < (s.step maxEntries updateEntryOnInsert op).lastUse key'

/-- A hit is on the entry that was inserted last. -/
def HitsNewest (s : Use K V) (op : Op K V) : Prop :=
  ∀ key, op.used = some key → key ∈ keys s.map → (keys s.map).getLast? = some key

/-- The entries are in the order of their last uses. -/
structure InUseOrder (s : Use K V) : Prop where
  ordered : (keys s.map).Pairwise fun key key' => s.lastUse key < s.lastUse key'
  past : ∀ key, s.lastUse key ≤ s.clock

variable {maxEntries : Int} {updateEntryOnInsert : Bool} {s : Use K V}

/-- An order of uses is kept by using the last key, or one that is not there. -/
theorem pairwise_update {ks : List K} {lastUse : K → Nat} {key : K} {now : Nat} (hnodup : ks.Nodup)
    (h : ks.Pairwise fun k k' => lastUse k < lastUse k') (hpast : ∀ k, lastUse k < now)
    (hlast : key ∈ ks → ks.getLast? = some key) :
    ks.Pairwise fun k k' => update lastUse key now k < update lastUse key now k' := by
  induction ks using List.reverseRecOn with
  | nil => exact List.Pairwise.nil
  | append_singleton ks k _ =>
      have hrest : key ∉ ks := by
        intro hmem
        have hk := hlast (mem_append_left _ hmem)
        rw [getLast?_append, getLast?_singleton, Option.some_or, Option.some.injEq] at hk
        subst hk
        exact disjoint_of_nodup_append hnodup hmem (mem_singleton_self _)
      obtain ⟨hks, -, hcross⟩ := pairwise_append.1 h
      refine pairwise_append.2 ⟨?_, pairwise_singleton _ _, ?_⟩
      · refine hks.imp_of_mem fun {a b} ha hb hab => ?_
        rw [update_of_ne (ne_of_mem_of_not_mem ha hrest), update_of_ne (ne_of_mem_of_not_mem hb hrest)]
        exact hab
      · intro a ha b hb
        rw [update_of_ne (ne_of_mem_of_not_mem ha hrest)]
        by_cases hkey : b = key
        · rw [hkey, update_self]
          exact hpast a
        · rw [update_of_ne hkey]
          exact hcross a ha b hb

theorem pairwise_append_update {ks : List K} {lastUse : K → Nat} {key : K} {now : Nat} (hnodup : ks.Nodup)
    (h : ks.Pairwise fun k k' => lastUse k < lastUse k') (hpast : ∀ k, lastUse k < now) (hnot : key ∉ ks) :
    (ks ++ [key]).Pairwise fun k k' => update lastUse key now k < update lastUse key now k' := by
  have hks := pairwise_update hnodup h hpast fun hmem => absurd hmem hnot
  refine pairwise_append.2 ⟨hks, pairwise_singleton _ _, ?_⟩
  intro k hk k' hk'
  rw [mem_singleton.1 hk', update_self, update_of_ne (ne_of_mem_of_not_mem hk hnot)]
  exact hpast k

/-- The keys stay in the order of their uses if a hit is on the newest. -/
theorem InUseOrder.step (h : s.InUseOrder) {op : Op K V} (hop : s.HitsNewest op) :
    (s.step maxEntries updateEntryOnInsert op).InUseOrder where
  ordered := by
    have hkeys := keys_run maxEntries updateEntryOnInsert s.map op
    have hnodup := nodup_keys s.map
    have hpast : ∀ k, s.lastUse k < s.clock + 1 := fun k => Nat.lt_succ_of_le (h.past k)
    unfold HitsNewest at hop
    cases op with
    | put key value | putIfAbsent key value =>
        simp only at hkeys
        simp only [Use.step, Op.used, hkeys]
        by_cases hmem : key ∈ keys s.map
        · rw [if_pos hmem]
          exact pairwise_update hnodup h.ordered hpast fun _ => hop key rfl hmem
        · rw [if_neg hmem]
          have happend := pairwise_append_update hnodup h.ordered hpast hmem
          split
          · exact happend.sublist (tail_sublist _)
          · exact happend
    | get key =>
        simp only at hkeys
        simp only [Use.step, Op.used, hkeys]
        exact pairwise_update hnodup h.ordered hpast fun hmem => hop key rfl hmem
    | remove key =>
        simp only at hkeys
        simp only [Use.step, Op.used, hkeys]
        exact h.ordered.sublist filter_sublist
  past := by
    intro key
    have hle := h.past key
    cases hused : op.used with
    | none =>
        simp only [Use.step, hused]
        omega
    | some key' =>
        simp only [Use.step, hused]
        by_cases hkey : key = key'
        · rw [hkey]
          exact Nat.le_of_eq (update_self _ _ _)
        · rw [update_of_ne hkey]
          omega

/-- In the order of uses, the first one is the right one to go. -/
theorem InUseOrder.dropsOldest (h : s.InUseOrder) : s.DropsOldest maxEntries updateEntryOnInsert := by
  intro op key hmem hgone hop key' hkey'
  have hkeys := keys_run maxEntries updateEntryOnInsert s.map op
  have hpast := h.past key
  cases op with
  | put k value | putIfAbsent k value =>
      simp only at hkeys
      simp only [Use.step, Op.used] at hgone hkey' ⊢
      rw [hkeys] at hgone hkey'
      by_cases hk : k ∈ keys s.map
      · rw [if_pos hk] at hgone
        exact absurd hmem hgone
      · rw [if_neg hk] at hgone hkey'
        by_cases hfull : maxEntries < (keys s.map).length + 1
        · rw [if_pos hfull] at hgone hkey'
          have hordered := h.ordered
          cases hlist : keys s.map with
          | nil =>
              rw [hlist] at hmem
              cases hmem
          | cons first rest =>
              rw [hlist] at hmem hgone hkey' hordered hk
              rw [cons_append, tail_cons] at hgone hkey'
              -- Who leaves is the first.
              obtain rfl : key = first := by
                rcases mem_cons.1 hmem with heq | hrest
                · exact heq
                · exact absurd (mem_append_left _ hrest) hgone
              have hne : key ≠ k := by
                rintro rfl
                exact hk mem_cons_self
              rw [update_of_ne hne]
              rcases mem_append.1 hkey' with hrest | hnew
              · have hne' : key' ≠ k := by
                  rintro rfl
                  exact hk (mem_cons_of_mem _ hrest)
                rw [update_of_ne hne']
                exact rel_of_pairwise_cons hordered hrest
              · rw [mem_singleton.1 hnew, update_self]
                omega
        · rw [if_neg hfull] at hgone
          exact absurd (mem_append_left _ hmem) hgone
  | get k =>
      simp only [Use.step] at hgone
      rw [hkeys] at hgone
      exact absurd hmem hgone
  | remove k =>
      simp only [Use.step] at hgone
      rw [hkeys] at hgone
      refine absurd (mem_filter.2 ⟨hmem, ?_⟩) hgone
      have hne : key ≠ k := by
        rintro rfl
        exact hop rfl
      simp [hne]

theorem Bounded.step (hpos : 1 ≤ maxEntries) (h : s.Bounded maxEntries) (op : Op K V) :
    (s.step maxEntries updateEntryOnInsert op).Bounded maxEntries := by
  have hkeys := keys_run maxEntries updateEntryOnInsert s.map op
  unfold Bounded at h ⊢
  rw [size_eq_length_keys] at h ⊢
  simp only [Use.step]
  rw [hkeys]
  cases op with
  | put key value | putIfAbsent key value =>
      simp only
      split
      · exact h
      · split
        · simp only [length_tail, length_append, length_singleton]
          omega
        · simp only [length_append, length_singleton]
          omega
  | get key => exact h
  | remove key =>
      have hle := length_filter_le (fun k => decide (k ≠ key)) (keys s.map)
      simp only
      omega

theorem keepsAll (s : Use K V) : s.KeepsAll maxEntries updateEntryOnInsert := by
  intro op key hputs hmem
  have hkeys := keys_run maxEntries updateEntryOnInsert s.map op
  simp only [Use.step]
  rw [hkeys]
  cases op with
  | put k value | putIfAbsent k value =>
      obtain rfl : k = key := Option.some.inj hputs
      exact if_pos hmem
  | get k | remove k => cases hputs

/-- The bound is kept, and a key that is there drops nobody. Where the entries are in the order of
    their uses, the least recently used is dropped, and they are if every hit is on the newest entry. -/
theorem dropsOldest_of_reached (hpos : 1 ≤ maxEntries) (updateEntryOnInsert : Bool) :
    (∀ s : Use K V, Reached (fun s op => some (s.step maxEntries updateEntryOnInsert op)) (fun _ _ => True)
        (· = {}) s → s.Bounded maxEntries ∧ s.KeepsAll maxEntries updateEntryOnInsert ∧
          (s.InUseOrder → s.DropsOldest maxEntries updateEntryOnInsert)) ∧
      ∀ s : Use K V, Reached (fun s op => some (s.step maxEntries updateEntryOnInsert op)) HitsNewest
        (· = {}) s → s.DropsOldest maxEntries updateEntryOnInsert := by
  constructor
  · intro s hs
    refine ⟨?_, s.keepsAll, InUseOrder.dropsOldest⟩
    refine hs.invariant (Bounded maxEntries) ?_ ?_
    · rintro s rfl
      have hzero : ((0 : Nat) : Int) ≤ maxEntries := by omega
      exact hzero
    · intro s op s' h _ hstep
      cases hstep
      exact h.step hpos op
  · intro s hs
    have horder : s.InUseOrder := by
      refine hs.invariant InUseOrder ?_ ?_
      · rintro s rfl
        exact ⟨List.Pairwise.nil, fun _ => Nat.le_refl _⟩
      · intro s op s' h hop hstep
        cases hstep
        exact h.step hop
    exact horder.dropsOldest

/-- Two entries at most, and only the newest is asked for: the bound and the order are kept. -/
theorem dropsOldest_of_reached_two :
    (1 : Int) ≤ 2 ∧ ∃ s : Use Nat Nat, Reached (fun s op => some (s.step 2 true op)) HitsNewest (· = {}) s ∧
      keys s.map = [0, 1] ∧ keys (s.step 2 true (.put 2 0)).map = [1, 2] ∧ s.DropsOldest 2 true := by
  have hreached : Reached (fun s op => some (s.step 2 true op)) HitsNewest (· = {})
      (((({} : Use Nat Nat).step 2 true (.put 0 0)).step 2 true (.put 1 0)).step 2 true (.get 1)) := by
    refine .next (.next (.next (.start rfl) ?_ rfl) ?_ rfl) ?_ rfl
    · intro key _ hmem
      cases hmem
    · intro key hused hmem
      cases hused
      exact absurd hmem (by decide)
    · intro key hused _
      cases hused
      decide
  exact ⟨by decide, _, hreached, by decide, by decide, (dropsOldest_of_reached (by decide) true).2 _ hreached⟩

/-- An entry that was asked for is dropped before one that was not. -/
theorem dropsOldest_hit : ∃ s : Use Nat Nat,
    Reached (fun s op => some (s.step 2 true op)) (fun _ _ => True) (· = {}) s ∧
      keys s.map = [0, 1] ∧ s.lastUse 1 < s.lastUse 0 ∧ keys (s.step 2 true (.put 2 0)).map = [1, 2] ∧
      ¬ s.DropsOldest 2 true := by
  have hreached : Reached (fun s op => some (s.step 2 true op)) (fun _ _ => True) (· = {})
      (((({} : Use Nat Nat).step 2 true (.put 0 0)).step 2 true (.put 1 0)).step 2 true (.get 0)) :=
    .next (.next (.next (.start rfl) trivial rfl) trivial rfl) trivial rfl
  refine ⟨_, hreached, by decide, by decide, by decide, fun h => ?_⟩
  have hlt := h (.put 2 0) 0 (by decide) (by decide) (by decide) 1 (by decide)
  revert hlt
  decide

end Use

end CacheMap

end TomP2P
