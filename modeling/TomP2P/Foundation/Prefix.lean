import Mathlib.Tactic

/-!
# Prefixes of Words

A word whose bits are counted from the highest one, cut after a number of them.

What comes before the cut and what comes after it are described bit by bit, so
each of them is one word, whatever masks it was computed with. A mask of ones shifted from the right keeps the first
bits, one shifted from the left the others. This holds for every distance up to
the width of the word, if the distance is not reduced; a machine that reduces it
shifts by nothing instead of by the whole width.

## Main definitions

* `Prefix.KeepsFirst`, `Prefix.KeepsRest`: What is left of a word on one side.
* `Prefix.Joins`: The first bits of one word with the others of another.

## Theorems

* `Prefix.keepsFirst_shiftLeft`, `Prefix.keepsRest_ushiftRight`: The masks.
* `Prefix.KeepsFirst.joins`: The two sides are put together by a disjunction.
* `Prefix.KeepsFirst.append_left`, `Prefix.KeepsFirst.append_right`: Words of two
  halves.
-/

namespace Prefix

variable {w : Nat} {n : Nat} {x y z p q : BitVec w}

/-- The first `n` bits are kept, the others are clear. -/
def KeepsFirst (n : Nat) (x y : BitVec w) : Prop :=
  ∀ i < w, y.getMsbD i = (decide (i < n) && x.getMsbD i)

/-- The first `n` bits are clear, the others are kept. -/
def KeepsRest (n : Nat) (x y : BitVec w) : Prop :=
  ∀ i < w, y.getMsbD i = (decide (n ≤ i) && x.getMsbD i)

/-- The first `n` bits are those of `x`, the others those of `y`. -/
def Joins (n : Nat) (x y z : BitVec w) : Prop :=
  ∀ i < w, z.getMsbD i = if i < n then x.getMsbD i else y.getMsbD i

theorem KeepsRest.unique (hp : KeepsRest n x p) (hq : KeepsRest n x q) : p = q := by
  apply BitVec.eq_of_getMsbD_eq
  intro i hi
  rw [hp i hi, hq i hi]

theorem Joins.unique (hp : Joins n x y p) (hq : Joins n x y q) : p = q := by
  apply BitVec.eq_of_getMsbD_eq
  intro i hi
  rw [hp i hi, hq i hi]

/-! ### The two ends -/

theorem keepsFirst_zero : KeepsFirst 0 x 0#w := by
  intro i hi
  simp

theorem keepsFirst_width : KeepsFirst w x x := by
  intro i hi
  simp [hi]

theorem keepsRest_zero : KeepsRest 0 x x := by
  intro i hi
  simp

theorem keepsRest_width : KeepsRest w x 0#w := by
  intro i hi
  simp [hi]

theorem joins_self : Joins n x x x := by
  intro i hi
  simp

/-! ### Masks -/

/-- Ones that are shifted in from the left. -/
theorem keepsFirst_shiftLeft (x : BitVec w) (hn : n ≤ w) :
    KeepsFirst n x (x &&& BitVec.allOnes w <<< (w - n)) := by
  intro i hi
  have hbit : (i + (w - n) < w) = (i < n) := by
    apply propext
    omega
  simp [hbit, Bool.and_comm]

/-- Ones that are left when they are shifted out to the right. -/
theorem keepsRest_ushiftRight (x : BitVec w) : KeepsRest n x (x &&& BitVec.allOnes w >>> n) := by
  intro i hi
  have hbit : i - n < w := by omega
  have hle : (!decide (i < n)) = decide (n ≤ i) := by simp [← decide_not]
  simp [BitVec.getMsbD_ushiftRight, hi, hbit, hle, Bool.and_comm]

/-- Each bit comes from one side, since the other one is clear there. -/
theorem KeepsFirst.joins (hp : KeepsFirst n x p) (hq : KeepsRest n y q) : Joins n x y (p ||| q) := by
  intro i hi
  rw [BitVec.getMsbD_or, hp i hi, hq i hi]
  by_cases hin : i < n
  · simp [hin]
  · simp [hin, Nat.le_of_not_lt hin]

/-! ### Words of two halves -/

variable {v : Nat}

theorem getMsbD_append_left (x : BitVec w) (y : BitVec v) {i : Nat} (hi : i < w) :
    (x ++ y).getMsbD i = x.getMsbD i := by
  simp [hi]

theorem getMsbD_append_right (x : BitVec w) (y : BitVec v) {i : Nat} (hi : w ≤ i) :
    (x ++ y).getMsbD i = y.getMsbD (i - w) := by
  simp [Nat.not_lt.mpr hi]

/-- A cut in the first half clears the second one. -/
theorem KeepsFirst.append_left (h : KeepsFirst n x p) (hn : n ≤ w) (y : BitVec v) :
    KeepsFirst n (x ++ y) (p ++ 0#v) := by
  intro i hi
  by_cases hiw : i < w
  · rw [getMsbD_append_left _ _ hiw, getMsbD_append_left _ _ hiw, h i hiw]
  · have hin : ¬ i < n := by omega
    rw [getMsbD_append_right _ _ (by omega)]
    simp [hin]

/-- A cut in the second half keeps the first one. -/
theorem KeepsFirst.append_right {y r : BitVec v} (h : KeepsFirst n y r) (x : BitVec w) :
    KeepsFirst (w + n) (x ++ y) (x ++ r) := by
  intro i hi
  by_cases hiw : i < w
  · have hin : i < w + n := by omega
    rw [getMsbD_append_left _ _ hiw, getMsbD_append_left _ _ hiw]
    simp [hin]
  · have hbit : (i - w < n) = (i < w + n) := by
      apply propext
      omega
    rw [getMsbD_append_right _ _ (by omega), getMsbD_append_right _ _ (by omega), h (i - w) (by omega)]
    simp [hbit]

end Prefix
