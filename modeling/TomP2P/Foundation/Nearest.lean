import Mathlib.Data.List.Perm.Basic
import Mathlib.Data.List.Pairwise
import Mathlib.Order.Lattice

/-!
# The Nearest of a List

The elements that have the smallest distances, and how many are closer than something.

A search that stops early has a part of all elements. What it has is closer than what
it has not (`Below`), and that decides what the part is good for: whether fewer than
`k` elements are closer than a given distance can be told from any such part with `k`
elements (`length_closer_lt_iff`), and the first `k` of the part are the nearest ones
of all if the part has as many (`nearest_take_iff`).

Distances are given by a function into an order. Elements that are compared are
expected to have different ones.

## Main definitions

* `Nearest.closer`: The elements closer than a distance.
* `Nearest.Below`: A part that is closer than the rest.
* `Nearest`: The `k` nearest ones, each once.

## Theorems

* `Nearest.length_closer_lt_iff`: Counting in a part.
* `Nearest.nearest_take_iff`: Choosing from a part.
-/

namespace TomP2P

open List

variable {α β : Type} [LinearOrder β] (d : α → β)

/-- The `k` candidates with the smallest distances, or all if there are not as many, each
    once. -/
structure Nearest (k : Nat) (candidates chosen : List α) : Prop where
  nodup : chosen.Nodup
  subset : ∀ a ∈ chosen, a ∈ candidates
  length : chosen.length = min k candidates.length
  near : ∀ a ∈ chosen, ∀ b ∈ candidates, b ∉ chosen → d a < d b

namespace Nearest

/-- The elements that are closer than a distance. -/
def closer (x : β) (xs : List α) : List α := xs.filter fun a => d a < x

/-- A part is closer than the rest. -/
def Below (xs ys : List α) : Prop := ∀ a ∈ xs, ∀ b ∈ ys, d a < d b

variable {d} {xs ys : List α}

theorem Below.filter (h : Below d xs ys) (p : α → Bool) : Below d (xs.filter p) (ys.filter p) :=
  fun a ha b hb => h a (mem_of_mem_filter ha) b (mem_of_mem_filter hb)

theorem length_closer_perm (h : xs.Perm ys) (x : β) : (closer d x xs).length = (closer d x ys).length :=
  (h.filter _).length_eq

-- If one of the rest is closer than `x`, so is the whole part, which has enough.
theorem length_closer_lt_iff (h : Below d xs ys) {k : Nat} (henough : ys = [] ∨ k ≤ xs.length) (x : β)
    (others : List α) :
    (closer d x (xs ++ others)).length < k ↔ (closer d x (xs ++ ys ++ others)).length < k := by
  simp only [closer, filter_append, length_append]
  by_cases hrest : ∃ b ∈ ys, d b < x
  · rcases hrest with ⟨b, hb, hbx⟩
    have hall : xs.filter (fun a => d a < x) = xs :=
      filter_eq_self.mpr fun a ha => decide_eq_true (lt_trans (h a ha b hb) hbx)
    have hle : k ≤ xs.length := henough.resolve_left (ne_nil_of_mem hb)
    rw [hall]
    omega
  · have hnone : ys.filter (fun a => d a < x) = [] :=
      filter_eq_nil_iff.mpr fun b hb hlt => hrest ⟨b, hb, of_decide_eq_true hlt⟩
    rw [hnone, length_nil, Nat.add_zero]

theorem nodup_of_sorted (h : xs.Pairwise fun a b => d a < d b) : xs.Nodup := by
  refine List.Pairwise.imp ?_ h
  rintro a b hlt rfl
  exact lt_irrefl _ hlt

/-- The first ones of a part are the nearest of all, if there are enough of them. -/
theorem nearest_take_iff {candidates : List α} (hsorted : xs.Pairwise fun a b => d a < d b) (hbelow : Below d xs ys)
    (hperm : candidates.Perm (xs ++ ys)) (k : Nat) :
    Nearest d k candidates (xs.take k) ↔ min k candidates.length ≤ xs.length := by
  refine ⟨fun h => ?_, fun hle => ?_⟩
  · rw [← h.length]
    exact length_take_le' k xs
  · have hlength := hperm.length_eq
    rw [length_append] at hlength
    refine ⟨(nodup_of_sorted hsorted).sublist (take_sublist k xs), ?_, ?_, ?_⟩
    · intro a ha
      exact hperm.mem_iff.mpr (mem_append_left ys (mem_of_mem_take ha))
    · rw [length_take]
      omega
    · intro a ha b hb hnot
      rcases mem_append.mp (hperm.mem_iff.mp hb) with hb | hb
      · -- What was not taken of the part comes later in it.
        rw [← take_append_drop k xs, pairwise_append] at hsorted
        rw [← take_append_drop k xs, mem_append] at hb
        exact hsorted.2.2 a ha b (hb.resolve_left hnot)
      · exact hbelow a (mem_of_mem_take ha) b hb

end Nearest

end TomP2P
