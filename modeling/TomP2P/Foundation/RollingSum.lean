import Mathlib.Algebra.BigOperators.Group.List.Basic
import Mathlib.Algebra.Ring.Basic
import Mathlib.Tactic.Ring

/-!
# Rolling Sums

A pair of sums over a list that can be kept up to date when the list is the part of a longer
one that a window shows, and the window moves on.

The first sum is one and the elements. The second one is the sum of all that the first sum has
been on the way, so that each element is in it as often as there are elements from it on. When
the window moves, what leaves it was in the second sum as often as the window is long, and all
that stays is in it once more, as is what is new.

The elements are from any commutative ring, which may well be one of numbers with overflow.

## Main definitions

* `RollingSum.push`: One more element.
* `RollingSum.ofList`: The sums of a list.
* `RollingSum.roll`: The window moves on.

## Theorems

* `RollingSum.foldl_push`: What the sums are.
* `RollingSum.roll_ofList`: Moving on is the same as starting over.
-/

namespace RollingSum

variable {R : Type*} [CommRing R]

def push (s : R × R) (x : R) : R × R := (s.1 + x, s.2 + (s.1 + x))

def ofList (xs : List R) : R × R := xs.foldl push (1, 0)

def roll (length : R) (s : R × R) (removed added : R) : R × R :=
  let a := s.1 - removed + added
  (a, s.2 - length * removed + a - 1)

/-- Each element as often as there are elements from it on. -/
def weighted : List R → R
  | [] => 0
  | x :: xs => (xs.length + 1) * x + weighted xs

theorem foldl_push (xs : List R) (s : R × R) :
    xs.foldl push s = (s.1 + xs.sum, s.2 + xs.length * s.1 + weighted xs) := by
  induction xs generalizing s with
  | nil => simp [weighted]
  | cons x xs ih =>
      simp only [List.foldl_cons, ih, push, List.sum_cons, List.length_cons, weighted, Nat.cast_add, Nat.cast_one,
        Prod.mk.injEq]
      constructor
      · ring
      · ring

theorem weighted_concat (xs : List R) (y : R) : weighted (xs ++ [y]) = weighted xs + xs.sum + y := by
  induction xs with
  | nil => simp [weighted]
  | cons x xs ih =>
      simp only [List.cons_append, weighted, ih, List.length_append, List.length_singleton, List.sum_cons, Nat.cast_add,
        Nat.cast_one]
      ring

/-- Moving on is the same as starting over. -/
theorem roll_ofList (x : R) (xs : List R) (y : R) :
    roll (xs.length + 1 : R) (ofList (x :: xs)) x y = ofList (xs ++ [y]) := by
  simp only [ofList, foldl_push, roll, weighted_concat, weighted, List.sum_cons, List.sum_append, List.sum_nil,
    List.length_cons, List.length_append, List.length_nil, Nat.cast_add, Nat.cast_one, Nat.cast_zero, Prod.mk.injEq]
  constructor
  · ring
  · ring

end RollingSum
