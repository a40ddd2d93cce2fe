import Mathlib.Order.Bounds.Basic
import Mathlib.Data.Int.Order.Basic
import Mathlib.Tactic.Common

/-!
# Searching Upwards

A loop that counts up to a limit and returns the first number it accepts, or the limit.

It returns the least of the accepted numbers and the limit. So two loops that accept the
same numbers below the limit return the same, and a loop that accepts less returns more.

## Main definitions

* `searchUp`: The loop.

## Theorems

* `isLeast_searchUp`: What is returned.
* `searchUp_le_searchUp`: Accepting less.
* `searchUp_congr`: Accepting the same.
-/

namespace LinearSearch

/-- Counts from `f` up to `limit`, which is `k` passes away, and returns the first number that
    is accepted. -/
def searchUp (accept : Int → Bool) (limit : Int) : Nat → Int → Int
  | 0, _ => limit
  | k + 1, f => if accept f then f else searchUp accept limit k (f + 1)

variable (accept accept' : Int → Bool) {limit : Int}

theorem isLeast_searchUp (k : Nat) (f : Int) (hk : f + k = limit) :
    IsLeast (insert limit {x | f ≤ x ∧ x < limit ∧ accept x = true}) (searchUp accept limit k f) := by
  induction k generalizing f with
  | zero =>
      refine ⟨Set.mem_insert _ _, ?_⟩
      rintro x (rfl | ⟨hle, hlt, _⟩)
      · exact le_refl _
      · omega
  | succ k ih =>
      rw [searchUp]
      by_cases haccept : accept f = true
      · rw [if_pos haccept]
        refine ⟨.inr ⟨le_refl f, by omega, haccept⟩, ?_⟩
        rintro x (rfl | ⟨hle, _, _⟩)
        · omega
        · exact hle
      · rw [if_neg haccept]
        -- The number that was not accepted makes no difference.
        have hset : (insert limit {x | f ≤ x ∧ x < limit ∧ accept x = true}) =
            insert limit {x | f + 1 ≤ x ∧ x < limit ∧ accept x = true} := by
          ext x
          simp only [Set.mem_insert_iff, Set.mem_ofPred_eq]
          refine or_congr_right ⟨?_, ?_⟩
          · rintro ⟨hle, hlt, hx⟩
            have hne : x ≠ f := fun h => haccept (h ▸ hx)
            exact ⟨by omega, hlt, hx⟩
          · rintro ⟨hle, hlt, hx⟩
            exact ⟨by omega, hlt, hx⟩
        rw [hset]
        exact ih (f + 1) (by omega)

/-- A loop that accepts less returns more. -/
theorem searchUp_le_searchUp (k : Nat) (f : Int) (hk : f + k = limit)
    (h : ∀ x, f ≤ x → x < limit → accept x = true → accept' x = true) :
    searchUp accept' limit k f ≤ searchUp accept limit k f := by
  have hfound := (isLeast_searchUp accept k f hk).1
  refine (isLeast_searchUp accept' k f hk).2 ?_
  rcases hfound with heq | ⟨hle, hlt, hx⟩
  · exact .inl heq
  · exact .inr ⟨hle, hlt, h _ hle hlt hx⟩

theorem searchUp_congr (k : Nat) (f : Int) (hk : f + k = limit)
    (h : ∀ x, f ≤ x → x < limit → (accept x = true ↔ accept' x = true)) :
    searchUp accept limit k f = searchUp accept' limit k f :=
  le_antisymm (searchUp_le_searchUp accept' accept k f hk fun x hle hlt => (h x hle hlt).mpr)
    (searchUp_le_searchUp accept accept' k f hk fun x hle hlt => (h x hle hlt).mp)

end LinearSearch
