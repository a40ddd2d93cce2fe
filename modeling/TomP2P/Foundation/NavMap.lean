import Mathlib.Data.List.Basic
import Mathlib.Data.List.Nodup
import Mathlib.Data.List.Perm.Basic
import Mathlib.Order.Lattice

/-!
# Navigable Maps

A finite map that is iterated in the order of its keys, as a sorted
association list.

The list carries its own sortedness, so a key occurs at most once and the
list is determined by what the map answers. `NavMap.ext_get` is that fact, and
it is what lets two maps built along different paths be compared: equal
answers give equal maps, iteration order included.

Insertion splits the list at the key instead of walking it. The entry of a map
that holds the key already is dropped from both halves, so replacing and
adding are one case.

## Main definitions

* `NavMap`: A map with its entries in ascending key order.
* `NavMap.get`, `NavMap.put`, `NavMap.remove`, `NavMap.filter`: Its operations.
* `NavMap.subMap`, `NavMap.headMap`, `NavMap.tailMap`: The entries between two
  keys, both included, and those on either side of a key.
* `NavMap.putAll`: The map with the entries of another one.
* `NavMap.filterMapM`: The map a partial function makes of the entries.

## Theorems

* `NavMap.get_eq_some_iff`: What a map answers is what its list holds.
* `NavMap.get_put`, `NavMap.get_remove`, `NavMap.get_filter`: The answers after
  each operation.
* `NavMap.ext_get`: Maps with equal answers are equal.
-/

/-- A map whose entries stand in strictly ascending key order. -/
structure NavMap (K V : Type) [LinearOrder K] where
  /-- The entries, smallest key first. -/
  entries : List (K × V)
  /-- Keys ascend strictly, so no key occurs twice. -/
  sorted : entries.Pairwise fun a b => a.1 < b.1

namespace NavMap

variable {K V : Type} [LinearOrder K]

theorem ext_entries {m m' : NavMap K V} (h : m.entries = m'.entries) : m = m' := by
  cases m
  cases m'
  cases h
  rfl

instance [DecidableEq V] : DecidableEq (NavMap K V) := fun a b =>
  decidable_of_iff (a.entries = b.entries) ⟨ext_entries, congrArg entries⟩

/-- The map without entries. -/
def empty : NavMap K V := ⟨[], List.Pairwise.nil⟩

instance : Inhabited (NavMap K V) := ⟨empty⟩

/-- The value stored under a key. -/
def get (m : NavMap K V) (k : K) : Option V :=
  (m.entries.find? fun e => e.1 = k).map Prod.snd

/-- Whether a key has a value. -/
def contains (m : NavMap K V) (k : K) : Bool := (m.get k).isSome

/-- The keys, smallest first. -/
def keys (m : NavMap K V) : List K := m.entries.map Prod.fst

/-- The number of entries. -/
def size (m : NavMap K V) : Nat := m.entries.length

/-- Whether the map has no entry. -/
def isEmpty (m : NavMap K V) : Bool := m.entries.isEmpty

/-- The entry with the smallest key. -/
def firstEntry (m : NavMap K V) : Option (K × V) := m.entries.head?

/-- The entry with the largest key. -/
def lastEntry (m : NavMap K V) : Option (K × V) := m.entries.getLast?

/-- The entries that satisfy a predicate. -/
def filter (m : NavMap K V) (p : K → V → Bool) : NavMap K V where
  entries := m.entries.filter fun e => p e.1 e.2
  sorted := m.sorted.filter _

/-- The map without a key. -/
def remove (m : NavMap K V) (k : K) : NavMap K V := m.filter fun k' _ => k' ≠ k

/-- The entries between two keys, both included. -/
def subMap (m : NavMap K V) (lo hi : K) : NavMap K V :=
  m.filter fun k _ => lo ≤ k && k ≤ hi

/-- The entries before a key. -/
def headMap (m : NavMap K V) (hi : K) : NavMap K V := m.filter fun k _ => k < hi

/-- The entries after a key. -/
def tailMap (m : NavMap K V) (lo : K) : NavMap K V := m.filter fun k _ => lo < k

/-- The values, by ascending key. -/
def values (m : NavMap K V) : List V := m.entries.map Prod.snd

/-- The map with `v` under `k`, in place of what was there. -/
def put (m : NavMap K V) (k : K) (v : V) : NavMap K V where
  entries := (m.entries.filter fun e => e.1 < k) ++ (k, v) :: m.entries.filter fun e => k < e.1
  sorted := by
    rw [List.pairwise_append]
    refine ⟨m.sorted.filter _, ?_, ?_⟩
    · refine List.pairwise_cons.mpr ⟨?_, m.sorted.filter _⟩
      intro e he
      exact of_decide_eq_true (List.mem_filter.mp he).2
    · intro a ha b hb
      have hak : a.1 < k := of_decide_eq_true (List.mem_filter.mp ha).2
      rcases List.mem_cons.mp hb with rfl | hb
      · exact hak
      · exact lt_trans hak (of_decide_eq_true (List.mem_filter.mp hb).2)

/-- The keys ascend, so none of them is listed twice. -/
theorem nodup_keys (m : NavMap K V) : m.keys.Nodup :=
  (List.pairwise_map.mpr m.sorted).imp fun h => ne_of_lt h

/-- The first entry has the smallest key. -/
theorem firstEntry_le {m : NavMap K V} {first e : K × V} (hfirst : m.firstEntry = some first)
    (he : e ∈ m.entries) : first.1 ≤ e.1 := by
  rcases m with ⟨entries, hsorted⟩
  cases entries with
  | nil => cases he
  | cons a entries =>
      cases hfirst
      rcases List.mem_cons.mp he with rfl | he
      · exact le_refl _
      · exact le_of_lt ((List.pairwise_cons.mp hsorted).1 e he)

/-- The last entry has the largest key. -/
theorem le_lastEntry {m : NavMap K V} {last e : K × V} (hlast : m.lastEntry = some last)
    (he : e ∈ m.entries) : e.1 ≤ last.1 := by
  obtain ⟨init, hinit⟩ := List.getLast?_eq_some_iff.mp hlast
  have hsorted := m.sorted
  rw [hinit, List.pairwise_append] at hsorted
  rw [hinit, List.mem_append, List.mem_singleton] at he
  rcases he with he | rfl
  · exact le_of_lt (hsorted.2.2 e he last (List.mem_singleton_self _))
  · exact le_refl _

/-- An entry is among the first ones with a property if all entries up to it have
    it. -/
theorem mem_takeWhile (m : NavMap K V) (p : K × V → Bool) (e : K × V) :
    e ∈ m.entries.takeWhile p ↔ e ∈ m.entries ∧ ∀ e' ∈ m.entries, e'.1 ≤ e.1 → p e' = true := by
  rcases m with ⟨entries, hsorted⟩
  dsimp only
  induction entries with
  | nil => simp
  | cons a entries ih =>
      obtain ⟨hfirst, hrest⟩ := List.pairwise_cons.mp hsorted
      rw [List.takeWhile_cons]
      by_cases ha : p a = true
      · rw [if_pos ha, List.mem_cons, ih hrest]
        constructor
        · rintro (rfl | ⟨he, hall⟩)
          · refine ⟨List.mem_cons_self, ?_⟩
            intro e' he' hle
            rcases List.mem_cons.mp he' with rfl | he'
            · exact ha
            · exact absurd (hfirst e' he') (not_lt.mpr hle)
          · refine ⟨List.mem_cons_of_mem a he, ?_⟩
            intro e' he' hle
            rcases List.mem_cons.mp he' with rfl | he'
            · exact ha
            · exact hall e' he' hle
        · rintro ⟨he, hall⟩
          rcases List.mem_cons.mp he with rfl | he
          · exact .inl rfl
          · exact .inr ⟨he, fun e' he' => hall e' (List.mem_cons_of_mem a he')⟩
      · rw [if_neg ha]
        refine ⟨fun h => absurd h List.not_mem_nil, ?_⟩
        rintro ⟨he, hall⟩
        have hle : a.1 ≤ e.1 := by
          rcases List.mem_cons.mp he with rfl | he
          · exact le_refl _
          · exact le_of_lt (hfirst e he)
        exact absurd (hall a List.mem_cons_self hle) ha

/-- A key has at most one entry. -/
theorem mem_unique (m : NavMap K V) (k : K) (v w : V) (hv : (k, v) ∈ m.entries)
    (hw : (k, w) ∈ m.entries) : v = w :=
  congrArg Prod.snd (List.inj_on_of_nodup_map m.nodup_keys hv hw rfl)

theorem get_eq_some_iff (m : NavMap K V) (k : K) (v : V) :
    m.get k = some v ↔ (k, v) ∈ m.entries := by
  rw [get, Option.map_eq_some_iff]
  constructor
  · rintro ⟨⟨k', v'⟩, hfind, rfl⟩
    have hk : k' = k := by simpa only [decide_eq_true_eq] using List.find?_some hfind
    exact hk ▸ List.mem_of_find?_eq_some hfind
  · intro hmem
    rcases hfind : m.entries.find? fun e => e.1 = k with _ | ⟨k', v'⟩
    · exact absurd (decide_eq_true rfl) (List.find?_eq_none.mp hfind (k, v) hmem)
    · have hk : k' = k := by simpa only [decide_eq_true_eq] using List.find?_some hfind
      subst hk
      have hmem' := List.mem_of_find?_eq_some hfind
      exact ⟨(k', v'), hfind, mem_unique m k' v' v hmem' hmem⟩

theorem contains_iff (m : NavMap K V) (k : K) : m.contains k = true ↔ ∃ v, m.get k = some v := by
  rw [contains, Option.isSome_iff_exists]

theorem mem_keys_iff (m : NavMap K V) (k : K) : k ∈ m.keys ↔ m.contains k = true := by
  rw [contains_iff, keys, List.mem_map]
  constructor
  · rintro ⟨⟨k', v⟩, hmem, rfl⟩
    exact ⟨v, (get_eq_some_iff m k' v).mpr hmem⟩
  · rintro ⟨v, hget⟩
    exact ⟨(k, v), (get_eq_some_iff m k v).mp hget, rfl⟩

/-- Maps with equal answers are equal, their iteration order included: both
    lists are sorted, and a sorted list is determined by its members. -/
theorem ext_get (m m' : NavMap K V) (h : ∀ k, m.get k = m'.get k) : m = m' := by
  have hmem : ∀ e, e ∈ m.entries ↔ e ∈ m'.entries := by
    rintro ⟨k, v⟩
    rw [← get_eq_some_iff, ← get_eq_some_iff, h k]
  have hperm : m.entries.Perm m'.entries := by
    refine (List.perm_ext_iff_of_nodup ?_ ?_).mpr hmem
    · exact List.Nodup.of_map Prod.fst m.nodup_keys
    · exact List.Nodup.of_map Prod.fst m'.nodup_keys
  have heq : m.entries = m'.entries :=
    hperm.eq_of_pairwise (fun a b _ _ hab hba => absurd hab (lt_asymm hba)) m.sorted m'.sorted
  exact ext_entries heq

@[simp] theorem get_empty (k : K) : (empty : NavMap K V).get k = none := rfl

theorem mem_put (m : NavMap K V) (k : K) (v : V) (e : K × V) :
    e ∈ (m.put k v).entries ↔ e = (k, v) ∨ e ∈ m.entries ∧ e.1 ≠ k := by
  rw [put, List.mem_append, List.mem_cons, List.mem_filter, List.mem_filter, decide_eq_true_eq,
    decide_eq_true_eq]
  constructor
  · rintro (⟨hm, hlt⟩ | heq | ⟨hm, hlt⟩)
    · exact .inr ⟨hm, ne_of_lt hlt⟩
    · exact .inl heq
    · exact .inr ⟨hm, ne_of_gt hlt⟩
  · rintro (heq | ⟨hm, hne⟩)
    · exact .inr (.inl heq)
    · rcases lt_or_gt_of_ne hne with hlt | hlt
      · exact .inl ⟨hm, hlt⟩
      · exact .inr (.inr ⟨hm, hlt⟩)

theorem get_put (m : NavMap K V) (k : K) (v : V) (k' : K) :
    (m.put k v).get k' = if k' = k then some v else m.get k' := by
  apply Option.ext
  intro w
  rw [get_eq_some_iff, mem_put]
  by_cases hk : k' = k
  · rw [if_pos hk, Option.some.injEq, Prod.mk.injEq]
    constructor
    · rintro (⟨_, rfl⟩ | ⟨_, hne⟩)
      · rfl
      · exact absurd hk hne
    · intro hvw
      exact .inl ⟨hk, hvw.symm⟩
  · rw [if_neg hk, get_eq_some_iff, Prod.mk.injEq]
    constructor
    · rintro (⟨heq, _⟩ | ⟨hm, _⟩)
      · exact absurd heq hk
      · exact hm
    · intro hm
      exact .inr ⟨hm, hk⟩

@[simp] theorem get_put_self (m : NavMap K V) (k : K) (v : V) : (m.put k v).get k = some v := by
  rw [get_put, if_pos rfl]

theorem get_put_ne (m : NavMap K V) (k k' : K) (v : V) (h : k' ≠ k) :
    (m.put k v).get k' = m.get k' := by
  rw [get_put, if_neg h]

/-- The last value that is put under a key counts. -/
theorem put_put (m : NavMap K V) (k : K) (v w : V) : (m.put k v).put k w = m.put k w := by
  refine ext_get _ _ fun k' => ?_
  rw [get_put, get_put, get_put]
  by_cases h : k' = k
  · rw [if_pos h, if_pos h]
  · rw [if_neg h, if_neg h, if_neg h]

/-- An entry makes the map larger by one entry at most. -/
theorem size_put_le (m : NavMap K V) (k : K) (v : V) : (m.put k v).size ≤ m.size + 1 := by
  have hbefore : (m.entries.filter fun e => k < e.1).length ≤ (m.entries.filter fun e => !decide (e.1 < k)).length := by
    refine List.Sublist.length_le (List.monotone_filter_right _ fun e he => ?_)
    rw [decide_eq_true_eq] at he
    simp [not_lt.mpr (le_of_lt he)]
  have hsum := List.length_eq_length_filter_add (l := m.entries) fun e : K × V => decide (e.1 < k)
  rw [size, size, put, List.length_append, List.length_cons]
  omega

/-- An entry behind all others comes last. -/
theorem entries_put_last (m : NavMap K V) (k : K) (v : V) (h : ∀ e ∈ m.entries, e.1 < k) :
    (m.put k v).entries = m.entries ++ [(k, v)] := by
  have hbefore : (m.entries.filter fun e => e.1 < k) = m.entries :=
    List.filter_eq_self.mpr fun e he => decide_eq_true (h e he)
  have hafter : (m.entries.filter fun e => k < e.1) = [] :=
    List.filter_eq_nil_iff.mpr fun e he => by simp [le_of_lt (h e he)]
  change (m.entries.filter fun e => e.1 < k) ++ (k, v) :: (m.entries.filter fun e => k < e.1) = _
  rw [hbefore, hafter]

/-- Putting entries in their order behind a map appends them. -/
theorem entries_foldl_put (es : List (K × V)) (m : NavMap K V)
    (h : (m.entries ++ es).Pairwise fun a b => a.1 < b.1) :
    (es.foldl (fun m e => m.put e.1 e.2) m).entries = m.entries ++ es := by
  induction es generalizing m with
  | nil => rw [List.foldl_nil, List.append_nil]
  | cons e es ih =>
      have hlast : ∀ a ∈ m.entries, a.1 < e.1 := fun a ha =>
        (List.pairwise_append.mp h).2.2 a ha e List.mem_cons_self
      have hput := entries_put_last m e.1 e.2 hlast
      have hassoc : m.entries ++ e :: es = (m.put e.1 e.2).entries ++ es := by
        rw [hput, List.append_assoc, List.singleton_append]
      rw [List.foldl_cons, ih (m.put e.1 e.2) (hassoc ▸ h), hassoc]

/-- A map is rebuilt from its entries. -/
theorem foldl_put_entries (m : NavMap K V) :
    m.entries.foldl (fun m e => m.put e.1 e.2) empty = m := by
  exact ext_entries (entries_foldl_put m.entries empty m.sorted)

/-- The map with the entries of another one, which replace its own. -/
def putAll (m other : NavMap K V) : NavMap K V := other.entries.foldl (fun m e => m.put e.1 e.2) m

theorem get_putAll (m other : NavMap K V) (k : K) : (m.putAll other).get k = (other.get k).or (m.get k) := by
  have hnone (es : List (K × V)) (h : k ∉ es.map Prod.fst) (m : NavMap K V) :
      (es.foldl (fun m e => m.put e.1 e.2) m).get k = m.get k := by
    induction es generalizing m with
    | nil => rfl
    | cons e es ih =>
        rw [List.map_cons, List.mem_cons, not_or] at h
        rw [List.foldl_cons, ih h.2, get_put_ne _ _ _ _ h.1]
  have hsome (v : V) (es : List (K × V)) (hnodup : (es.map Prod.fst).Nodup) (h : (k, v) ∈ es) (m : NavMap K V) :
      (es.foldl (fun m e => m.put e.1 e.2) m).get k = some v := by
    induction es generalizing m with
    | nil => cases h
    | cons e es ih =>
        rw [List.map_cons, List.nodup_cons] at hnodup
        rw [List.foldl_cons]
        rcases List.mem_cons.mp h with rfl | h
        · rw [hnone es hnodup.1, get_put_self]
        · exact ih hnodup.2 h _
  cases hget : other.get k with
  | none =>
      refine hnone other.entries (fun hmem => ?_) m
      rcases (contains_iff other k).mp ((mem_keys_iff other k).mp hmem) with ⟨v, hv⟩
      rw [hget] at hv
      cases hv
  | some v => exact hsome v other.entries other.nodup_keys ((get_eq_some_iff other k v).mp hget) m

/-- A new key makes the map larger by one entry. -/
theorem size_put_of_not_contains (m : NavMap K V) (k : K) (v : V) (h : m.contains k = false) :
    (m.put k v).size = m.size + 1 := by
  have hne (e : K × V) (he : e ∈ m.entries) : e.1 ≠ k := by
    rintro rfl
    have hget : m.get e.1 = some e.2 := (get_eq_some_iff m e.1 e.2).mpr he
    rw [contains, hget] at h
    cases h
  have hsplit : (m.entries.filter fun e => e.1 < k).length + (m.entries.filter fun e => k < e.1).length =
      m.entries.length := by
    have hafter : (m.entries.filter fun e => k < e.1) = m.entries.filter fun e => !decide (e.1 < k) := by
      refine List.filter_congr fun e he => ?_
      rcases lt_or_gt_of_ne (hne e he) with hlt | hlt
      · simp [hlt, not_lt.mpr (le_of_lt hlt)]
      · simp [hlt, not_lt.mpr (le_of_lt hlt)]
    rw [hafter]
    exact (List.length_eq_length_filter_add fun e : K × V => decide (e.1 < k)).symm
  rw [size, put, List.length_append, List.length_cons, size]
  omega

theorem get_filter (m : NavMap K V) (p : K → V → Bool) (k : K) :
    (m.filter p).get k = (m.get k).filter (p k) := by
  apply Option.ext
  intro v
  rw [get_eq_some_iff, Option.filter_eq_some_iff, get_eq_some_iff, filter, List.mem_filter]

/-- The values of the entries that satisfy a predicate. -/
theorem mem_values_filter (m : NavMap K V) (p : K → V → Bool) (v : V) :
    v ∈ (m.filter p).values ↔ ∃ k, m.get k = some v ∧ p k v = true := by
  rw [values, List.mem_map]
  constructor
  · rintro ⟨⟨k, w⟩, hmem, rfl⟩
    rw [filter, List.mem_filter] at hmem
    exact ⟨k, (get_eq_some_iff m k w).mpr hmem.1, hmem.2⟩
  · rintro ⟨k, hget, hp⟩
    refine ⟨(k, v), ?_, rfl⟩
    rw [filter, List.mem_filter]
    exact ⟨(get_eq_some_iff m k v).mp hget, hp⟩

theorem get_remove (m : NavMap K V) (k k' : K) :
    (m.remove k).get k' = if k' = k then none else m.get k' := by
  rw [remove, get_filter]
  by_cases hk : k' = k
  · rw [if_pos hk, hk]
    cases m.get k with
    | none => rfl
    | some v => simp only [ne_eq, not_true_eq_false, decide_false, Option.filter_some,
        Bool.false_eq_true, if_false]
  · rw [if_neg hk]
    cases m.get k' with
    | none => rfl
    | some v => simp only [ne_eq, hk, not_false_eq_true, decide_true, Option.filter_some, if_true]

@[simp] theorem get_remove_self (m : NavMap K V) (k : K) : (m.remove k).get k = none := by
  rw [get_remove, if_pos rfl]

theorem get_remove_ne (m : NavMap K V) (k k' : K) (h : k' ≠ k) :
    (m.remove k).get k' = m.get k' := by
  rw [get_remove, if_neg h]

theorem get_subMap (m : NavMap K V) (lo hi k : K) :
    (m.subMap lo hi).get k = if lo ≤ k ∧ k ≤ hi then m.get k else none := by
  rw [subMap, get_filter]
  by_cases hk : lo ≤ k ∧ k ≤ hi
  · rw [if_pos hk]
    cases m.get k with
    | none => rfl
    | some v => simp only [hk.1, hk.2, decide_true, Bool.and_self, Option.filter_some, if_true]
  · rw [if_neg hk]
    have hfalse : (decide (lo ≤ k) && decide (k ≤ hi)) = false := by
      rw [← Bool.decide_and]
      exact decide_eq_false hk
    cases m.get k with
    | none => rfl
    | some v => simp only [hfalse, Option.filter_some, Bool.false_eq_true, if_false]

section Partial

variable {W : Type}

/-- A map of what a partial function makes of the entries, some of which may be left
    out. There is no map if the function has no result for an entry. -/
def filterMapM (m : NavMap K V) (f : K → V → Option (Option W)) : Option (NavMap K W) :=
  m.entries.foldlM (fun r e => (f e.1 e.2).map fun o => match o with
    | none => r
    | some w => r.put e.1 w) empty

/-- What each pass of a loop that may end without a result keeps, the loop keeps. -/
theorem foldlM_some {α β : Type} (P : β → Prop) {f : β → α → Option β} {xs : List α}
    (hf : ∀ b b' x, x ∈ xs → f b x = some b' → P b → P b') {b b' : β} (h : xs.foldlM f b = some b') (hb : P b) :
    P b' := by
  induction xs generalizing b with
  | nil =>
      cases h
      exact hb
  | cons x xs ih =>
      rw [List.foldlM_cons] at h
      obtain ⟨b₁, hx, hxs⟩ := Option.bind_eq_some_iff.mp h
      exact ih (fun b b' y hy => hf b b' y (List.mem_cons_of_mem _ hy)) hxs (hf b b₁ x List.mem_cons_self hx hb)

theorem get_filterMapM {m : NavMap K V} {f : K → V → Option (Option W)} {r : NavMap K W}
    (h : m.filterMapM f = some r) {k : K} {w : W} (hk : r.get k = some w) :
    ∃ v, m.get k = some v ∧ f k v = some (some w) := by
  refine foldlM_some (fun r => ∀ k w, r.get k = some w → ∃ v, m.get k = some v ∧ f k v = some (some w)) ?_ h
    (fun k w hk => by cases hk) k w hk
  intro r r' e he hpass hr k w hk
  obtain ⟨o, ho, rfl⟩ := Option.map_eq_some_iff.mp hpass
  cases o with
  | none => exact hr k w hk
  | some w' =>
      dsimp only at hk
      by_cases heq : k = e.1
      · rw [heq, get_put_self] at hk
        cases hk
        exact ⟨e.2, heq ▸ (get_eq_some_iff m e.1 e.2).mpr he, heq ▸ ho⟩
      · rw [get_put_ne _ _ _ _ heq] at hk
        exact hr k w hk

/-- The map with a value under `k`, if there is one. -/
def putOption (m : NavMap K V) (k : K) : Option V → NavMap K V
  | none => m
  | some v => m.put k v

theorem get_putOption_ne (m : NavMap K V) (k k' : K) (o : Option V) (h : k' ≠ k) :
    (m.putOption k o).get k' = m.get k' := by
  cases o with
  | none => rfl
  | some v => exact get_put_ne m k k' v h

theorem get_putOption_self (m : NavMap K V) (k : K) (o : Option V) (h : m.get k = none) :
    (m.putOption k o).get k = o := by
  cases o with
  | none => exact h
  | some v => exact get_put_self m k v

-- By induction on the entries: each key comes once, so that its value stays.
theorem foldlM_putOption {f : K → V → Option (Option W)} {es : List (K × V)}
    (hsorted : es.Pairwise fun e e' => e.1 < e'.1) (hsome : ∀ e ∈ es, (f e.1 e.2).isSome = true) (r₀ : NavMap K W) :
    ∃ r, es.foldlM (fun r e => (f e.1 e.2).map (r.putOption e.1)) r₀ = some r ∧
      (∀ e ∈ es, r₀.get e.1 = none → r.get e.1 = (f e.1 e.2).join) ∧
      ∀ k, (∀ e ∈ es, e.1 ≠ k) → r.get k = r₀.get k := by
  induction es generalizing r₀ with
  | nil => exact ⟨r₀, rfl, fun e he => absurd he List.not_mem_nil, fun _ _ => rfl⟩
  | cons e es ih =>
      rcases List.pairwise_cons.mp hsorted with ⟨hfirst, hrest⟩
      rcases Option.isSome_iff_exists.mp (hsome e List.mem_cons_self) with ⟨o, ho⟩
      rcases ih hrest (fun x hx => hsome x (List.mem_cons_of_mem _ hx)) (r₀.putOption e.1 o) with
        ⟨r, hfold, hget, hkeep⟩
      refine ⟨r, ?_, ?_, ?_⟩
      · rw [List.foldlM_cons, ho]
        exact hfold
      · intro x hx hnone
        rcases List.mem_cons.mp hx with rfl | hx
        · rw [hkeep x.1 fun y hy => ne_of_gt (hfirst y hy), ho]
          exact get_putOption_self _ _ _ hnone
        · refine hget x hx ?_
          rw [get_putOption_ne _ _ _ _ (ne_of_gt (hfirst x hx))]
          exact hnone
      · intro k hk
        rw [hkeep k fun x hx => hk x (List.mem_cons_of_mem _ hx)]
        exact get_putOption_ne _ _ _ _ (Ne.symm (hk e List.mem_cons_self))

theorem filterMapM_eq (m : NavMap K V) (f : K → V → Option (Option W)) :
    m.filterMapM f = m.entries.foldlM (fun r e => (f e.1 e.2).map (r.putOption e.1)) empty :=
  rfl

/-- A map of all entries has what the function makes of each of them. -/
theorem filterMapM_total {m : NavMap K V} {f : K → V → Option (Option W)}
    (h : ∀ e ∈ m.entries, (f e.1 e.2).isSome = true) :
    ∃ r, m.filterMapM f = some r ∧ ∀ k, r.get k = (m.get k).bind fun v => (f k v).join := by
  rcases foldlM_putOption m.sorted h empty with ⟨r, hfold, hget, hkeep⟩
  refine ⟨r, (filterMapM_eq m f).trans hfold, ?_⟩
  intro k
  rcases hk : m.get k with _ | v
  · rw [hkeep k ?_, get_empty]
    · rfl
    · rintro ⟨k', v⟩ he rfl
      rw [(get_eq_some_iff m k' v).mpr he] at hk
      cases hk
  · exact hget (k, v) ((get_eq_some_iff m k v).mp hk) (get_empty k)

-- The loop has no result from the entry on for which there is none.
theorem filterMapM_none {m : NavMap K V} {f : K → V → Option (Option W)} {e : K × V} (he : e ∈ m.entries)
    (hnone : f e.1 e.2 = none) : m.filterMapM f = none := by
  unfold filterMapM
  generalize m.entries = es at he
  generalize (empty : NavMap K W) = r
  induction es generalizing r with
  | nil => exact absurd he List.not_mem_nil
  | cons x es ih =>
      rw [List.foldlM_cons]
      rcases List.mem_cons.mp he with rfl | he
      · rw [hnone]
        rfl
      · rcases f x.1 x.2 with _ | o
        · rfl
        · exact ih he _

end Partial

section MapValues

variable {W : Type} (m : NavMap K V) (f : V → W)

/-- The map with a function applied to its values. -/
def mapValues : NavMap K W where
  entries := m.entries.map fun e => (e.1, f e.2)
  sorted := List.pairwise_map.mpr m.sorted

theorem size_mapValues : (m.mapValues f).size = m.size := List.length_map _

theorem mapValues_put (k : K) (v : V) : (m.put k v).mapValues f = (m.mapValues f).put k (f v) := by
  apply ext_entries
  simp only [mapValues, put, List.map_append, List.map_cons, List.filter_map]
  rfl

end MapValues

end NavMap
