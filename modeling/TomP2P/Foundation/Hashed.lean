import Mathlib.Data.List.Basic
import Mathlib.Data.List.Dedup
import Mathlib.Data.List.Induction
import Mathlib.Data.List.Nodup

/-!
# Hash Containers

Finite sets and maps that are iterated in an order of their own.

A hash container fixes no order for its elements. Here it is the order in
which they arrived, and a result stated for every container is therefore a
result for every order. Equality of containers is equality of lists; the
comparison the container's own `equals` makes ignores the order, and
`HashedSet.equals` is that comparison.

Writing a container out element by element and adding the elements to an empty
one gives it back (`HashedSet.ofList_elems`, `HashedMap.ofList_entries`),
which is all a codec needs to know about it.

These containers rely on keys that are equal having equal hashes. `HashTable`
does not: a key is found by its hash first and by equality second, and two equal
keys with different hashes are two keys. `HashTable.nodup_iff` is how much that
reliance is worth.

## Main definitions

* `HashedSet`: A duplicate-free list.
* `HashedSet.equals`: Equality up to iteration order.
* `HashedMap`: An association list with distinct keys.
* `HashTable.put`: Putting an entry where its hash says.

## Theorems

* `HashedSet.mem_add`, `HashedSet.mem_remove`: Membership after each operation.
* `HashedSet.equals_iff`: What `equals` compares.
* `HashedSet.size_ofList`: The size of a set that is built from a list.
* `HashedSet.ofList_elems`, `HashedMap.ofList_entries`: Rebuilding a container
  from its own iteration.
* `HashedMap.size_ofList`: One entry for each key that was put.
* `HashTable.nodup_iff`: One entry for each key, exactly if equal keys have equal
  hashes.
-/

/-- A finite set with an iteration order. -/
structure HashedSet (α : Type) where
  /-- The elements, in iteration order. -/
  elems : List α
  /-- No element is listed twice. -/
  nodup : elems.Nodup

namespace HashedSet

variable {α : Type} [DecidableEq α]

instance : DecidableEq (HashedSet α) := fun s t =>
  decidable_of_iff (s.elems = t.elems) (by
    constructor
    · intro h
      cases s
      cases t
      cases h
      rfl
    · exact congrArg elems)

/-- The set without elements. -/
def empty : HashedSet α := ⟨[], List.nodup_nil⟩

instance : Inhabited (HashedSet α) := ⟨empty⟩

/-- Whether the set holds an element. -/
def contains (s : HashedSet α) (x : α) : Bool := s.elems.contains x

/-- The number of elements. -/
def size (s : HashedSet α) : Nat := s.elems.length

/-- Whether the set has no element. -/
def isEmpty (s : HashedSet α) : Bool := s.elems.isEmpty

/-- The set with an element, which comes last if it is new. -/
def add (s : HashedSet α) (x : α) : HashedSet α :=
  if h : x ∈ s.elems then s
  else ⟨s.elems ++ [x], List.Nodup.append s.nodup (List.nodup_singleton x)
    (List.disjoint_singleton.mpr h)⟩

/-- The set without an element. -/
def remove (s : HashedSet α) (x : α) : HashedSet α :=
  ⟨s.elems.filter (· ≠ x), s.nodup.filter _⟩

/-- Equality of sets: the same elements, in whatever order. -/
def equals (s t : HashedSet α) : Bool :=
  s.elems.all t.contains && t.elems.all s.contains

/-- The set of the elements of a list. -/
def ofList (xs : List α) : HashedSet α := xs.foldl add empty

theorem mem_add (s : HashedSet α) (x y : α) : y ∈ (s.add x).elems ↔ y = x ∨ y ∈ s.elems := by
  by_cases h : x ∈ s.elems
  · rw [add, dif_pos h]
    constructor
    · exact .inr
    · rintro (rfl | hy)
      · exact h
      · exact hy
  · rw [add, dif_neg h, List.mem_append, List.mem_singleton, or_comm]

theorem mem_remove (s : HashedSet α) (x y : α) :
    y ∈ (s.remove x).elems ↔ y ∈ s.elems ∧ y ≠ x := by
  rw [remove, List.mem_filter, decide_eq_true_eq]

theorem contains_iff (s : HashedSet α) (x : α) : s.contains x = true ↔ x ∈ s.elems := by
  rw [contains, List.contains_iff_mem]

omit [DecidableEq α] in
theorem isEmpty_iff (s : HashedSet α) : s.isEmpty = true ↔ ∀ x, x ∉ s.elems := by
  rw [isEmpty, List.isEmpty_iff, List.eq_nil_iff_forall_not_mem]

theorem equals_iff (s t : HashedSet α) : s.equals t = true ↔ ∀ x, x ∈ s.elems ↔ x ∈ t.elems := by
  simp only [equals, Bool.and_eq_true, List.all_eq_true, contains_iff]
  constructor
  · intro h x
    exact ⟨h.1 x, h.2 x⟩
  · intro h
    exact ⟨fun x => (h x).mp, fun x => (h x).mpr⟩

/-- Adding new, pairwise distinct elements appends them. -/
theorem elems_foldl_add (xs : List α) (s : HashedSet α) (h : (s.elems ++ xs).Nodup) :
    (xs.foldl add s).elems = s.elems ++ xs := by
  induction xs generalizing s with
  | nil => rw [List.foldl_nil, List.append_nil]
  | cons x xs ih =>
      have hnot : x ∉ s.elems := by
        intro hx
        exact (List.disjoint_of_nodup_append h) hx List.mem_cons_self
      have hadd : (s.add x).elems = s.elems ++ [x] := by
        rw [add, dif_neg hnot]
      have hassoc : s.elems ++ x :: xs = (s.add x).elems ++ xs := by
        rw [hadd, List.append_assoc, List.singleton_append]
      rw [List.foldl_cons, ih (s.add x) (hassoc ▸ h), hassoc]

theorem mem_ofList (xs : List α) (x : α) : x ∈ (ofList xs).elems ↔ x ∈ xs := by
  induction xs using List.reverseRecOn with
  | nil => rfl
  | append_singleton xs y ih =>
      rw [ofList, List.foldl_append, List.foldl_cons, List.foldl_nil, mem_add, List.mem_append, List.mem_singleton,
        or_comm]
      exact or_congr_left ih

/-- A set is what its own iteration builds. -/
theorem ofList_elems (s : HashedSet α) : ofList s.elems = s := by
  have h : (ofList s.elems).elems = s.elems :=
    elems_foldl_add s.elems empty s.nodup
  cases hs : ofList s.elems with
  | mk elems nodup =>
      cases s with
      | mk elems' nodup' =>
          rw [hs] at h
          cases h
          rfl

theorem size_add (s : HashedSet α) (x : α) :
    s.size ≤ (s.add x).size ∧ (s.add x).size ≤ s.size + 1 ∧ 0 < (s.add x).size := by
  have hx : x ∈ (s.add x).elems := (mem_add s x x).mpr (.inl rfl)
  have hpos : 0 < (s.add x).size := List.length_pos_of_mem hx
  by_cases h : x ∈ s.elems
  · have hsame : s.add x = s := by rw [add, dif_pos h]
    rw [hsame] at hpos ⊢
    exact ⟨Nat.le_refl _, Nat.le_succ _, hpos⟩
  · have hsize : (s.add x).size = s.size + 1 := by
      rw [add, dif_neg h, size, List.length_append, List.length_singleton, size]
    omega

theorem size_foldl_add (xs : List α) (s : HashedSet α) :
    s.size ≤ (xs.foldl add s).size ∧ (xs.foldl add s).size ≤ s.size + xs.length := by
  induction xs generalizing s with
  | nil => exact ⟨Nat.le_refl _, Nat.le_refl _⟩
  | cons x xs ih =>
      have hadd := size_add s x
      have hrest := ih (s.add x)
      rw [List.foldl_cons, List.length_cons]
      omega

/-- Building a set loses nothing but repetitions. -/
theorem size_ofList (xs : List α) (h : xs ≠ []) :
    0 < (ofList xs).size ∧ (ofList xs).size ≤ xs.length := by
  have hle : (ofList xs).size ≤ 0 + xs.length := (size_foldl_add xs empty).2
  refine ⟨?_, by omega⟩
  cases xs with
  | nil => exact absurd rfl h
  | cons x xs =>
      have hadd := size_add (empty : HashedSet α) x
      have hrest := size_foldl_add xs (empty.add x)
      rw [ofList, List.foldl_cons]
      omega

/-- Equal sets have as many elements. -/
theorem size_eq_of_equals (s t : HashedSet α) (h : s.equals t = true) : s.size = t.size := by
  have hperm : s.elems.Perm t.elems :=
    (List.perm_ext_iff_of_nodup s.nodup t.nodup).mpr ((equals_iff s t).mp h)
  exact hperm.length_eq

end HashedSet

/-- A finite map with an iteration order. -/
structure HashedMap (K V : Type) where
  /-- The entries, in iteration order. -/
  entries : List (K × V)
  /-- No key is listed twice. -/
  nodup : (entries.map Prod.fst).Nodup

namespace HashedMap

variable {K V : Type} [DecidableEq K]

omit [DecidableEq K] in
theorem ext_entries {m n : HashedMap K V} (h : m.entries = n.entries) : m = n := by
  cases m
  cases n
  cases h
  rfl

instance [DecidableEq V] : DecidableEq (HashedMap K V) := fun m n =>
  decidable_of_iff (m.entries = n.entries) ⟨ext_entries, congrArg entries⟩

/-- The map without entries. -/
def empty : HashedMap K V := ⟨[], List.nodup_nil⟩

instance : Inhabited (HashedMap K V) := ⟨empty⟩

/-- The value stored under a key. -/
def get (m : HashedMap K V) (k : K) : Option V :=
  (m.entries.find? fun e => e.1 = k).map Prod.snd

/-- The number of entries. -/
def size (m : HashedMap K V) : Nat := m.entries.length

/-- The map with `v` under `k`: in the place of the entry of `k`, or at the
    end if there is none. -/
def put (m : HashedMap K V) (k : K) (v : V) : HashedMap K V :=
  if h : k ∈ m.entries.map Prod.fst then
    ⟨m.entries.map fun e => if e.1 = k then (k, v) else e, by
      have hkeys : (m.entries.map fun e => if e.1 = k then (k, v) else e).map Prod.fst =
          m.entries.map Prod.fst := by
        rw [List.map_map]
        refine List.map_congr_left ?_
        intro e _
        by_cases he : e.1 = k
        · simp only [Function.comp, he, if_true]
        · simp only [Function.comp, he, if_false]
      exact hkeys ▸ m.nodup⟩
  else
    ⟨m.entries ++ [(k, v)], by
      rw [List.map_append]
      exact List.Nodup.append m.nodup (List.nodup_singleton k) (List.disjoint_singleton.mpr h)⟩

/-- Whether a key has a value. -/
def contains (m : HashedMap K V) (k : K) : Bool := (m.get k).isSome

/-- The map without a key. -/
def remove (m : HashedMap K V) (k : K) : HashedMap K V :=
  ⟨m.entries.filter fun e => e.1 ≠ k, m.nodup.sublist ((List.filter_sublist).map Prod.fst)⟩

/-- The map without its first entry. -/
def removeFirst (m : HashedMap K V) : HashedMap K V :=
  ⟨m.entries.tail, m.nodup.sublist ((List.tail_sublist m.entries).map Prod.fst)⟩

/-- The map from the first entry on whose value does not have the property. -/
def dropWhile (p : V → Bool) (m : HashedMap K V) : HashedMap K V :=
  ⟨m.entries.dropWhile fun e => p e.2, m.nodup.sublist ((List.dropWhile_sublist _).map Prod.fst)⟩

/-- The map of the entries whose values have the property. -/
def filter (p : V → Bool) (m : HashedMap K V) : HashedMap K V :=
  ⟨m.entries.filter fun e => p e.2, m.nodup.sublist ((List.filter_sublist).map Prod.fst)⟩

-- What a part of the entries is turned into has a part of their keys.
omit [DecidableEq K] in
theorem keys_filterMap {W : Type} (f : K → V → Option W) (es : List (K × V)) :
    ((es.filterMap fun e => (f e.1 e.2).map fun w => (e.1, w)).map Prod.fst).Sublist (es.map Prod.fst) := by
  induction es with
  | nil => exact List.Sublist.refl _
  | cons e es ih =>
      cases hf : f e.1 e.2 with
      | none =>
          simp only [List.filterMap_cons, hf, Option.map_none, List.map_cons]
          exact ih.cons _
      | some w =>
          simp only [List.filterMap_cons, hf, Option.map_some, List.map_cons]
          exact ih.cons_cons _

/-- The map of the values that the values under some of the keys are turned into. -/
def filterMap {W : Type} (f : K → V → Option W) (m : HashedMap K V) : HashedMap K W :=
  ⟨m.entries.filterMap fun e => (f e.1 e.2).map fun w => (e.1, w), m.nodup.sublist (keys_filterMap f m.entries)⟩

/-- The map of a list of entries, the last one winning where a key recurs. -/
def ofList (es : List (K × V)) : HashedMap K V := es.foldl (fun m e => m.put e.1 e.2) empty

omit [DecidableEq K] in
/-- A key has at most one entry. -/
theorem mem_unique (m : HashedMap K V) {k : K} {v w : V} (hv : (k, v) ∈ m.entries)
    (hw : (k, w) ∈ m.entries) : v = w :=
  congrArg Prod.snd (List.inj_on_of_nodup_map m.nodup hv hw rfl)

theorem get_eq_some_iff (m : HashedMap K V) (k : K) (v : V) :
    m.get k = some v ↔ (k, v) ∈ m.entries := by
  rw [get, Option.map_eq_some_iff]
  constructor
  · rintro ⟨⟨k', v'⟩, hfind, rfl⟩
    have hk : k' = k := by simpa only [decide_eq_true_eq] using List.find?_some hfind
    exact hk ▸ List.mem_of_find?_eq_some hfind
  · intro hmem
    rcases hfind : m.entries.find? fun e => e.1 = k with _ | ⟨k', v'⟩
    · exact absurd (decide_eq_true rfl) (List.find?_eq_none.mp hfind (k, v) hmem)
    · have hk : k' = k := by simpa only [decide_eq_true_eq] using List.find?_some hfind
      subst hk
      exact ⟨(k', v'), hfind, m.mem_unique (List.mem_of_find?_eq_some hfind) hmem⟩

theorem get_eq_none_iff (m : HashedMap K V) (k : K) : m.get k = none ↔ ∀ v, (k, v) ∉ m.entries := by
  rw [Option.eq_none_iff_forall_ne_some]
  exact forall_congr' fun v => not_congr (get_eq_some_iff m k v)

omit [DecidableEq K] in
theorem mem_keys_iff (m : HashedMap K V) (k : K) :
    k ∈ m.entries.map Prod.fst ↔ ∃ v, (k, v) ∈ m.entries := by
  rw [List.mem_map]
  constructor
  · rintro ⟨⟨k', v⟩, hmem, rfl⟩
    exact ⟨v, hmem⟩
  · rintro ⟨v, hmem⟩
    exact ⟨(k, v), hmem, rfl⟩

theorem contains_iff (m : HashedMap K V) (k : K) : m.contains k = true ↔ ∃ v, (k, v) ∈ m.entries := by
  rw [contains, Option.isSome_iff_exists]
  exact exists_congr fun v => get_eq_some_iff m k v

theorem mem_put (m : HashedMap K V) (k : K) (v : V) (e : K × V) :
    e ∈ (m.put k v).entries ↔ e = (k, v) ∨ e ∈ m.entries ∧ e.1 ≠ k := by
  by_cases h : k ∈ m.entries.map Prod.fst
  · rw [put, dif_pos h, List.mem_map]
    constructor
    · rintro ⟨e', he', rfl⟩
      by_cases hk : e'.1 = k
      · exact .inl (if_pos hk)
      · rw [if_neg hk]
        exact .inr ⟨he', hk⟩
    · rintro (rfl | ⟨he, hk⟩)
      · obtain ⟨w, hw⟩ := (mem_keys_iff m k).mp h
        exact ⟨(k, w), hw, if_pos rfl⟩
      · exact ⟨e, he, if_neg hk⟩
  · rw [put, dif_neg h, List.mem_append, List.mem_singleton, or_comm]
    refine or_congr_right ⟨?_, And.left⟩
    intro he
    refine ⟨he, ?_⟩
    rintro rfl
    exact h (List.mem_map_of_mem he)

theorem get_put (m : HashedMap K V) (k : K) (v : V) (k' : K) :
    (m.put k v).get k' = if k' = k then some v else m.get k' := by
  ext w
  rw [get_eq_some_iff, mem_put]
  by_cases h : k' = k
  · rw [if_pos h, h, Option.some.injEq]
    simp only [Prod.mk.injEq, true_and, ne_eq, not_true, and_false, or_false]
    exact eq_comm
  · rw [if_neg h, get_eq_some_iff]
    simp only [h, Prod.mk.injEq, false_and, ne_eq, not_false_iff, and_true, false_or]

/-- The last value put under a key stays. -/
theorem put_put (m : HashedMap K V) (k : K) (v w : V) : (m.put k v).put k w = m.put k w := by
  apply ext_entries
  have hthere : k ∈ (m.put k v).entries.map Prod.fst :=
    (mem_keys_iff _ k).mpr ⟨v, (mem_put m k v (k, v)).mpr (.inl rfl)⟩
  rw [put, dif_pos hthere]
  by_cases h : k ∈ m.entries.map Prod.fst
  · simp only [put, dif_pos h, List.map_map]
    refine List.map_congr_left fun e _ => ?_
    by_cases he : e.1 = k <;> simp [he]
  · have hothers : (m.entries.map fun e => if e.1 = k then (k, w) else e) = m.entries := by
      refine (List.map_congr_left fun e he => ?_).trans m.entries.map_id
      have hne : e.1 ≠ k := by
        rintro rfl
        exact h (List.mem_map_of_mem he)
      exact if_neg hne
    simp only [put, dif_neg h, List.map_append, List.map_cons, List.map_nil, if_true, hothers]

theorem mem_remove (m : HashedMap K V) (k : K) (e : K × V) :
    e ∈ (m.remove k).entries ↔ e ∈ m.entries ∧ e.1 ≠ k := by
  rw [remove, List.mem_filter, decide_eq_true_eq]

theorem get_remove (m : HashedMap K V) (k k' : K) :
    (m.remove k).get k' = if k' = k then none else m.get k' := by
  by_cases hkey : k' = k
  · rw [if_pos hkey, get_eq_none_iff]
    intro v hv
    exact ((mem_remove m k (k', v)).mp hv).2 hkey
  · rw [if_neg hkey]
    cases hget : m.get k' with
    | none =>
        rw [get_eq_none_iff] at hget ⊢
        exact fun v hv => hget v ((mem_remove m k (k', v)).mp hv).1
    | some v =>
        rw [get_eq_some_iff] at hget ⊢
        exact (mem_remove m k (k', v)).mpr ⟨hget, hkey⟩

omit [DecidableEq K] in
theorem mem_filterMap {W : Type} (f : K → V → Option W) (m : HashedMap K V) (k : K) (w : W) :
    (k, w) ∈ (m.filterMap f).entries ↔ ∃ v, (k, v) ∈ m.entries ∧ f k v = some w := by
  constructor
  · intro hw
    obtain ⟨⟨k', v⟩, hv, hf⟩ := List.mem_filterMap.mp hw
    obtain ⟨w', hw', heq⟩ := Option.map_eq_some_iff.mp hf
    cases heq
    exact ⟨v, hv, hw'⟩
  · rintro ⟨v, hv, hf⟩
    refine List.mem_filterMap.mpr ⟨(k, v), hv, ?_⟩
    simp only [hf, Option.map_some]

theorem get_filterMap {W : Type} (f : K → V → Option W) (m : HashedMap K V) (k : K) :
    (m.filterMap f).get k = (m.get k).bind (f k) := by
  cases hget : m.get k with
  | none =>
      rw [get_eq_none_iff] at hget
      refine (get_eq_none_iff _ k).mpr fun w hw => ?_
      obtain ⟨v, hv, _⟩ := (mem_filterMap f m k w).mp hw
      exact hget v hv
  | some v =>
      rw [get_eq_some_iff] at hget
      rw [Option.bind_some]
      cases hf : f k v with
      | none =>
          refine (get_eq_none_iff _ k).mpr fun w hw => ?_
          obtain ⟨v', hv', hf'⟩ := (mem_filterMap f m k w).mp hw
          rw [m.mem_unique hv' hget, hf] at hf'
          cases hf'
      | some w =>
          exact (get_eq_some_iff _ k w).mpr ((mem_filterMap f m k w).mpr ⟨v, hget, hf⟩)

omit [DecidableEq K] in
theorem mem_of_mem_removeFirst (m : HashedMap K V) {e : K × V} (h : e ∈ m.removeFirst.entries) :
    e ∈ m.entries :=
  List.mem_of_mem_tail h

theorem size_put_of_contains (m : HashedMap K V) (k : K) (v : V) (h : m.contains k = true) :
    (m.put k v).size = m.size := by
  have hmem : k ∈ m.entries.map Prod.fst := (mem_keys_iff m k).mpr ((contains_iff m k).mp h)
  rw [put, dif_pos hmem, size, List.length_map, size]

theorem size_put_of_not_contains (m : HashedMap K V) (k : K) (v : V) (h : ¬ m.contains k = true) :
    (m.put k v).size = m.size + 1 := by
  have hmem : k ∉ m.entries.map Prod.fst :=
    fun hk => h ((contains_iff m k).mpr ((mem_keys_iff m k).mp hk))
  rw [put, dif_neg hmem, size, List.length_append, List.length_singleton, size]

theorem size_remove_le (m : HashedMap K V) (k : K) : (m.remove k).size ≤ m.size :=
  List.length_filter_le _ _

omit [DecidableEq K] in
theorem size_removeFirst (m : HashedMap K V) : m.removeFirst.size = m.size - 1 :=
  List.length_tail

/-- Putting new, pairwise distinct keys appends their entries. -/
theorem entries_foldl_put (es : List (K × V)) (m : HashedMap K V)
    (h : ((m.entries ++ es).map Prod.fst).Nodup) :
    (es.foldl (fun m e => m.put e.1 e.2) m).entries = m.entries ++ es := by
  induction es generalizing m with
  | nil => rw [List.foldl_nil, List.append_nil]
  | cons e es ih =>
      have hnot : e.1 ∉ m.entries.map Prod.fst := by
        rw [List.map_append] at h
        intro he
        exact (List.disjoint_of_nodup_append h) he List.mem_cons_self
      have hput : (m.put e.1 e.2).entries = m.entries ++ [e] := by
        rw [put, dif_neg hnot]
      have hassoc : m.entries ++ e :: es = (m.put e.1 e.2).entries ++ es := by
        rw [hput, List.append_assoc, List.singleton_append]
      rw [List.foldl_cons, ih (m.put e.1 e.2) (hassoc ▸ h), hassoc]

/-- A map is what its own iteration builds. -/
theorem ofList_entries (m : HashedMap K V) : ofList m.entries = m := by
  exact ext_entries (entries_foldl_put m.entries empty m.nodup)

/-- Only what was put is there. -/
theorem mem_of_mem_ofList (es : List (K × V)) {e : K × V} (h : e ∈ (ofList es).entries) : e ∈ es := by
  induction es using List.reverseRecOn with
  | nil => exact h
  | append_singleton es x ih =>
      rw [ofList, List.foldl_append, List.foldl_cons, List.foldl_nil, mem_put] at h
      rcases h with rfl | ⟨h, _⟩
      · simp
      · exact List.mem_append_left _ (ih h)

theorem mem_keys_ofList (es : List (K × V)) (k : K) :
    k ∈ (ofList es).entries.map Prod.fst ↔ k ∈ es.map Prod.fst := by
  induction es using List.reverseRecOn with
  | nil => rfl
  | append_singleton es x ih =>
      rw [ofList, List.foldl_append, List.foldl_cons, List.foldl_nil, List.map_append, List.mem_append, ← ih,
        mem_keys_iff, mem_keys_iff]
      simp only [mem_put, List.map_cons, List.map_nil, List.mem_singleton]
      constructor
      · rintro ⟨v, heq | hmem⟩
        · exact .inr (congrArg Prod.fst heq)
        · exact .inl ⟨v, hmem.1⟩
      · intro h
        by_cases hk : k = x.1
        · exact ⟨x.2, .inl (by rw [hk])⟩
        · rcases h.resolve_right hk with ⟨v, hmem⟩
          exact ⟨v, .inr ⟨hmem, hk⟩⟩

/-- A map has one entry for each key that was put. -/
theorem size_ofList (es : List (K × V)) : (ofList es).size = (es.map Prod.fst).dedup.length := by
  have hperm : ((ofList es).entries.map Prod.fst).Perm (es.map Prod.fst).dedup :=
    (List.perm_ext_iff_of_nodup (ofList es).nodup (List.nodup_dedup _)).mpr fun k => by
      rw [mem_keys_ofList, List.mem_dedup]
  rw [size, ← hperm.length_eq, List.length_map]
end HashedMap

namespace HashTable

variable {K V H I : Type} [DecidableEq H] [DecidableEq I] (hash : K → H) (ident : K → I)

/-- Whether looking up `k` finds `x`: the hashes are compared, then the keys,
    which are equal if they identify the same. -/
def finds (k x : K) : Bool := decide (hash x = hash k) && decide (ident x = ident k)

/-- The entries with `e`: a key that is found stays and gets the value of `e`. -/
def put (es : List (K × V)) (e : K × V) : List (K × V) :=
  if es.any fun x => finds hash ident e.1 x.1 then
    es.map fun x => if finds hash ident e.1 x.1 then (x.1, e.2) else x
  else es ++ [e]

/-- The entries after all of a list were put. -/
def putAll (es : List (K × V)) : List (K × V) := es.foldl (put hash ident) []

/-- The keys after all of a list were put. -/
def keys (es : List (K × V)) : List K := (putAll hash ident es).map Prod.fst

theorem finds_iff (k x : K) : finds hash ident k x = true ↔ hash x = hash k ∧ ident x = ident k := by
  rw [finds, Bool.and_eq_true, decide_eq_true_eq, decide_eq_true_eq]

/-- A key that is found is not added, any other is. -/
theorem keys_put (es : List (K × V)) (e : K × V) :
    ((∃ x ∈ es.map Prod.fst, finds hash ident e.1 x = true) ∧
        (put hash ident es e).map Prod.fst = es.map Prod.fst) ∨
      ((∀ x ∈ es.map Prod.fst, finds hash ident e.1 x = false) ∧
        (put hash ident es e).map Prod.fst = es.map Prod.fst ++ [e.1]) := by
  by_cases h : (es.any fun x => finds hash ident e.1 x.1) = true
  · left
    obtain ⟨x, hx, hfound⟩ := List.any_eq_true.mp h
    refine ⟨⟨x.1, List.mem_map_of_mem hx, hfound⟩, ?_⟩
    rw [put, if_pos h, List.map_map]
    refine List.map_congr_left ?_
    intro y _
    by_cases hy : finds hash ident e.1 y.1 = true
    · simp only [Function.comp, hy, if_true]
    · simp only [Function.comp, hy, Bool.false_eq_true, if_false]
  · right
    refine ⟨?_, ?_⟩
    · intro x hx
      obtain ⟨y, hy, rfl⟩ := List.mem_map.mp hx
      by_contra hfound
      rw [Bool.not_eq_false] at hfound
      exact h (List.any_eq_true.mpr ⟨y, hy, hfound⟩)
    · rw [put, if_neg h, List.map_append, List.map_singleton]

/-- What the keys of a table are, with respect to the keys that were put: some
    of them, one for each that was put, and no two that find each other. -/
structure Holds (ks put : List K) : Prop where
  sub : ∀ k ∈ ks, k ∈ put
  found : ∀ p ∈ put, ∃ k ∈ ks, finds hash ident p k = true
  apart : ks.Pairwise fun k l => ¬ (hash k = hash l ∧ ident k = ident l)

theorem Holds.put {ks ps : List K} (h : Holds hash ident ks ps) (es : List (K × V))
    (hes : es.map Prod.fst = ks) (e : K × V) :
    Holds hash ident ((HashTable.put hash ident es e).map Prod.fst) (ps ++ [e.1]) := by
  subst hes
  rcases keys_put hash ident es e with ⟨hfound, heq⟩ | ⟨hnew, heq⟩
  · rw [heq]
    refine ⟨fun k hk => List.mem_append_left _ (h.sub k hk), ?_, h.apart⟩
    intro p hp
    rcases List.mem_append.mp hp with hp | hp
    · exact h.found p hp
    · exact List.mem_singleton.mp hp ▸ hfound
  · rw [heq]
    refine ⟨?_, ?_, ?_⟩
    · intro k hk
      rcases List.mem_append.mp hk with hk | hk
      · exact List.mem_append_left _ (h.sub k hk)
      · exact List.mem_append_right _ hk
    · intro p hp
      rcases List.mem_append.mp hp with hp | hp
      · obtain ⟨k, hk, hfinds⟩ := h.found p hp
        exact ⟨k, List.mem_append_left _ hk, hfinds⟩
      · refine ⟨e.1, List.mem_append_right _ (List.mem_singleton_self _), ?_⟩
        rw [List.mem_singleton.mp hp, finds_iff]
        exact ⟨rfl, rfl⟩
    · refine List.pairwise_append.mpr ⟨h.apart, List.pairwise_singleton _ _, ?_⟩
      intro k hk l hl hboth
      rw [List.mem_singleton.mp hl, ← finds_iff, hnew k hk] at hboth
      cases hboth

theorem holds_keys (es : List (K × V)) : Holds hash ident (keys hash ident es) (es.map Prod.fst) := by
  induction es using List.reverseRecOn with
  | nil =>
      exact ⟨fun k hk => hk, fun p hp => (List.not_mem_nil hp).elim, List.Pairwise.nil⟩
  | append_singleton es e ih =>
      rw [keys, putAll, List.foldl_append, List.map_append]
      exact ih.put hash ident _ rfl e

/-- There is one entry for each key, exactly if keys that identify the same have
    the same hash. -/
theorem nodup_iff (es : List (K × V)) :
    ((keys hash ident es).map ident).Nodup ↔
      ∀ k ∈ es.map Prod.fst, ∀ l ∈ es.map Prod.fst, ident k = ident l → hash k = hash l := by
  have hkeys := holds_keys hash ident es
  refine ⟨?_, ?_⟩
  · intro hnodup k hk l hl hident
    obtain ⟨k', hk', hfound⟩ := hkeys.found k hk
    obtain ⟨l', hl', hfound'⟩ := hkeys.found l hl
    rw [finds_iff] at hfound hfound'
    have heq : k' = l' := by
      refine List.inj_on_of_nodup_map hnodup hk' hl' ?_
      rw [hfound.2, hfound'.2, hident]
    rw [← hfound.1, ← hfound'.1, heq]
  · intro hsame
    rw [List.Nodup, List.pairwise_map]
    refine hkeys.apart.imp_of_mem ?_
    intro k l hk hl hapart hident
    exact hapart ⟨hsame k (hkeys.sub k hk) l (hkeys.sub l hl) hident, hident⟩

end HashTable
