import TomP2P.Foundation.NavMap
import TomP2P.Foundation.Hashed

/-!
# Inverse Indexes

A map and the index that lists its keys by value.

The index is kept up by two operations. `link` files a key under a value and
`unlink` takes it out again, dropping the value with its last key. The index is
inverse to the map (`InverseIndex`) if it lists exactly the map's keys under
their values and keeps no empty list.

Moving a key from an old value to a new one links first and unlinks second.
That is right exactly when the two values differ: for equal ones the second
step takes out what the first one filed.

## Main definitions

* `Index.link`, `Index.unlink`: Filing a key under a value and taking it out.
* `InverseIndex`: The index lists exactly the keys of the map.

## Theorems

* `Index.listed_link`, `Index.listed_unlink`: What is listed afterwards.
* `InverseIndex.link_new`: Filing a key that had no value.
* `InverseIndex.link_same`: Filing a key under the value it has.
* `InverseIndex.relink`, `InverseIndex.move`: Moving a key to another value.
* `InverseIndex.unlink`: Taking a key out.
-/

/-- Keys listed by value. -/
abbrev Index (E K : Type) [LinearOrder E] := NavMap E (HashedSet K)

namespace Index

variable {E K : Type} [LinearOrder E] [DecidableEq K]

/-- The index with a key filed under a value. -/
def link (rev : Index E K) (k : K) (e : E) : Index E K :=
  rev.put e (((rev.get e).getD .empty).add k)

/-- The index with a key taken out from under a value. -/
def unlink (rev : Index E K) (k : K) (e : E) : Index E K :=
  match rev.get e with
  | none => rev
  | some s => if (s.remove k).isEmpty then rev.remove e else rev.put e (s.remove k)

omit [DecidableEq K] in
/-- The key is listed under the value. -/
def Listed (rev : Index E K) (e : E) (k : K) : Prop :=
  ∃ s, rev.get e = some s ∧ k ∈ s.elems

omit [DecidableEq K] in
/-- No value is kept without a key. -/
def NoEmpty (rev : Index E K) : Prop :=
  ∀ e s, rev.get e = some s → s.elems ≠ []

theorem listed_link (rev : Index E K) (k k' : K) (e e' : E) :
    (rev.link k e).Listed e' k' ↔ (e' = e ∧ k' = k) ∨ rev.Listed e' k' := by
  unfold link Listed
  by_cases he : e' = e
  · subst he
    simp only [NavMap.get_put_self, Option.some.injEq, exists_eq_left', HashedSet.mem_add,
      true_and]
    rcases rev.get e' with _ | s
    · simp only [Option.getD_none, HashedSet.empty, List.not_mem_nil, or_false, reduceCtorEq,
        false_and, exists_false]
    · simp only [Option.getD_some, Option.some.injEq, exists_eq_left']
  · simp only [NavMap.get_put_ne _ _ _ _ he, he, false_and, false_or]

theorem noEmpty_link (rev : Index E K) (k : K) (e : E) (h : rev.NoEmpty) :
    (rev.link k e).NoEmpty := by
  intro e' s hs
  rw [link, NavMap.get_put] at hs
  by_cases he : e' = e
  · rw [if_pos he, Option.some.injEq] at hs
    have hk : k ∈ s.elems := by
      rw [← hs, HashedSet.mem_add]
      exact .inl rfl
    exact List.ne_nil_of_mem hk
  · rw [if_neg he] at hs
    exact h e' s hs

theorem listed_unlink (rev : Index E K) (k k' : K) (e e' : E) :
    (rev.unlink k e).Listed e' k' ↔ rev.Listed e' k' ∧ ¬(e' = e ∧ k' = k) := by
  unfold unlink Listed
  rcases hget : rev.get e with _ | s
  · -- Nothing is filed under the value.
    refine ⟨?_, fun h => h.1⟩
    rintro ⟨s, hs, hk⟩
    refine ⟨⟨s, hs, hk⟩, ?_⟩
    rintro ⟨rfl, _⟩
    rw [hget] at hs
    cases hs
  · dsimp only
    by_cases he : e' = e
    · subst he
      -- At the value itself the two branches list the same keys.
      have hmem : (∃ t, (if (s.remove k).isEmpty then rev.remove e' else
          rev.put e' (s.remove k)).get e' = some t ∧ k' ∈ t.elems) ↔ k' ∈ (s.remove k).elems := by
        by_cases hempty : (s.remove k).isEmpty = true
        · rw [if_pos hempty, NavMap.get_remove_self]
          refine ⟨?_, fun h => absurd h ((HashedSet.isEmpty_iff _).mp hempty k')⟩
          rintro ⟨t, ht, _⟩
          cases ht
        · rw [if_neg hempty, NavMap.get_put_self]
          simp only [Option.some.injEq, exists_eq_left']
      rw [hmem, HashedSet.mem_remove, hget]
      simp only [Option.some.injEq, exists_eq_left', true_and, ne_eq]
    · by_cases hempty : (s.remove k).isEmpty = true
      · rw [if_pos hempty, NavMap.get_remove_ne _ _ _ he]
        simp only [he, false_and, not_false_eq_true, and_true]
      · rw [if_neg hempty, NavMap.get_put_ne _ _ _ _ he]
        simp only [he, false_and, not_false_eq_true, and_true]

theorem noEmpty_unlink (rev : Index E K) (k : K) (e : E) (h : rev.NoEmpty) :
    (rev.unlink k e).NoEmpty := by
  unfold unlink
  rcases rev.get e with _ | s
  · exact h
  · intro e' t ht
    dsimp only at ht
    by_cases hempty : (s.remove k).isEmpty = true
    · rw [if_pos hempty, NavMap.get_remove] at ht
      by_cases he : e' = e
      · rw [if_pos he] at ht
        cases ht
      · rw [if_neg he] at ht
        exact h e' t ht
    · rw [if_neg hempty, NavMap.get_put] at ht
      by_cases he : e' = e
      · rw [if_pos he, Option.some.injEq] at ht
        rw [← ht]
        intro hnil
        rw [HashedSet.isEmpty, hnil] at hempty
        exact hempty rfl
      · rw [if_neg he] at ht
        exact h e' t ht

end Index

/-- The index lists exactly the keys of the map under their values, and no
    value without a key. -/
structure InverseIndex {E K : Type} [LinearOrder E] [LinearOrder K] (f : NavMap K E)
    (rev : Index E K) : Prop where
  listed_iff : ∀ e k, rev.Listed e k ↔ f.get k = some e
  noEmpty : rev.NoEmpty

namespace InverseIndex

variable {E K : Type} [LinearOrder E] [LinearOrder K] [DecidableEq K] (f : NavMap K E)
  (rev : Index E K)

omit [DecidableEq K] in
theorem empty : InverseIndex (NavMap.empty : NavMap K E) (NavMap.empty : Index E K) := by
  refine ⟨?_, ?_⟩
  · intro e k
    refine ⟨?_, fun h => absurd h (by simp only [NavMap.get_empty, reduceCtorEq,
      not_false_eq_true])⟩
    rintro ⟨s, hs, _⟩
    exact absurd hs (by simp only [NavMap.get_empty, reduceCtorEq, not_false_eq_true])
  · intro e s hs
    exact absurd hs (by simp only [NavMap.get_empty, reduceCtorEq, not_false_eq_true])

/-- Filing a key under the value it has keeps the index inverse. -/
theorem link_same (h : InverseIndex f rev) (k : K) (e : E) (hold : f.get k = some e) :
    InverseIndex (f.put k e) (rev.link k e) := by
  refine ⟨?_, Index.noEmpty_link rev k e h.noEmpty⟩
  intro e' k'
  rw [Index.listed_link, h.listed_iff, NavMap.get_put]
  by_cases hk : k' = k
  · subst hk
    rw [if_pos rfl, hold, Option.some.injEq]
    simp only [and_true]
    exact ⟨fun hor => hor.elim Eq.symm id, fun heq => .inr heq⟩
  · rw [if_neg hk]
    simp only [hk, and_false, false_or]

/-- Filing a key that had no value keeps the index inverse. -/
theorem link_new (h : InverseIndex f rev) (k : K) (e : E) (hnew : f.get k = none) :
    InverseIndex (f.put k e) (rev.link k e) := by
  refine ⟨?_, Index.noEmpty_link rev k e h.noEmpty⟩
  intro e' k'
  rw [Index.listed_link, h.listed_iff, NavMap.get_put]
  by_cases hk : k' = k
  · subst hk
    rw [if_pos rfl, hnew]
    simp only [and_true, reduceCtorEq, or_false, Option.some.injEq, eq_comm]
  · rw [if_neg hk]
    simp only [hk, and_false, false_or]

/-- Taking a key out from under its old value first and filing it second is right for
    equal values as well. -/
theorem move (h : InverseIndex f rev) (k : K) (e old : E) (hold : f.get k = some old) :
    InverseIndex (f.put k e) ((rev.unlink k old).link k e) := by
  refine ⟨?_, Index.noEmpty_link _ k e (Index.noEmpty_unlink rev k old h.noEmpty)⟩
  intro e' k'
  rw [Index.listed_link, Index.listed_unlink, h.listed_iff, NavMap.get_put]
  by_cases hk : k' = k
  · subst hk
    rw [if_pos rfl, hold, Option.some.injEq, Option.some.injEq]
    simp only [and_true]
    exact ⟨fun hor => hor.elim Eq.symm fun hand => absurd hand.1.symm hand.2, fun heq => .inl heq.symm⟩
  · rw [if_neg hk]
    simp only [hk, and_false, false_or, not_false_eq_true, and_true]

/-- Taking a key out keeps the index inverse. -/
theorem unlink (h : InverseIndex f rev) (k : K) (old : E) (hold : f.get k = some old) :
    InverseIndex (f.remove k) (rev.unlink k old) := by
  refine ⟨?_, Index.noEmpty_unlink rev k old h.noEmpty⟩
  intro e' k'
  rw [Index.listed_unlink, h.listed_iff, NavMap.get_remove]
  by_cases hk : k' = k
  · subst hk
    rw [if_pos rfl, hold, Option.some.injEq]
    refine ⟨?_, nofun⟩
    rintro ⟨he, hno⟩
    exact absurd ⟨he.symm, rfl⟩ hno
  · rw [if_neg hk]
    simp only [hk, and_false, not_false_eq_true, and_true]

end InverseIndex
