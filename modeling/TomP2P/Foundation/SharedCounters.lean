import Mathlib.Data.List.Count
import Mathlib.Logic.Function.Basic
import Mathlib.Tactic.Common

/-!
# Counting with Shared Counters

Elements are counted with counters that they share. Each element has positions, maybe one of
them more than once, and it is counted by counting up the counters there. A counter that has
reached its cap stays there. The estimate for an element is the least of its counters.

A counter says how often it was hit, up to the cap. An element hits each of its positions, so
the estimate is not less than how often the element was counted, up to the cap.

## Main definitions

* `bump`: Counting up a counter.
* `estimate`: The least of some counters.

## Theorems

* `foldl_bump`: What a counter says.
* `le_estimate_iff`: What is not more than the estimate.
* `countP_le_estimate`: The estimate is not too low.
-/

namespace SharedCounters

variable {I E : Type} {cap : Nat}

/-- The least counter at the positions, and the cap if there are none. -/
def estimate (cap : Nat) (counters : I → Nat) (positions : List I) : Nat :=
  positions.foldl (fun least i => min least (counters i)) cap

theorem le_estimate_iff (counters : I → Nat) (positions : List I) (n cap : Nat) :
    n ≤ estimate cap counters positions ↔ n ≤ cap ∧ ∀ i ∈ positions, n ≤ counters i := by
  induction positions generalizing cap with
  | nil => simp [estimate]
  | cons i positions ih =>
      rw [estimate, List.foldl_cons, ← estimate, ih, List.forall_mem_cons, Nat.le_min, and_assoc]

variable [DecidableEq I]

/-- Counts up a counter that is not at the cap. -/
def bump (cap : Nat) (counters : I → Nat) (i : I) : I → Nat :=
  Function.update counters i (if counters i = cap then cap else counters i + 1)

theorem bump_apply (counters : I → Nat) (i j : I) (hle : counters j ≤ cap) :
    bump cap counters i j = min cap (counters j + if i == j then 1 else 0) := by
  rw [bump, Function.update_apply]
  by_cases hij : i = j
  · subst hij
    simp only [if_true, beq_self_eq_true]
    split <;> omega
  · rw [if_neg (Ne.symm hij), if_neg (by simpa using hij)]
    omega

theorem bump_le (counters : I → Nat) (i j : I) (hle : counters j ≤ cap) : bump cap counters i j ≤ cap := by
  rw [bump_apply counters i j hle]
  omega

/-- A counter says how often it was hit, up to the cap. -/
theorem foldl_bump (positions : List I) (counters : I → Nat) (j : I) (hle : counters j ≤ cap) :
    positions.foldl (bump cap) counters j = min cap (counters j + positions.count j) := by
  induction positions generalizing counters with
  | nil =>
      rw [List.foldl_nil, List.count_nil]
      omega
  | cons i positions ih =>
      rw [List.foldl_cons, ih _ (bump_le counters i j hle), bump_apply counters i j hle, List.count_cons]
      omega

/-- If each of some elements hits a counter, it is hit at least as often as there are such elements. -/
theorem countP_le_count (positions : E → List I) (p : E → Bool) (j : I) (h : ∀ e, p e = true → j ∈ positions e)
    (elements : List E) : elements.countP p ≤ (elements.flatMap positions).count j := by
  induction elements with
  | nil => exact Nat.zero_le _
  | cons e elements ih =>
      rw [List.countP_cons, List.flatMap_cons, List.count_append]
      by_cases hp : p e = true
      · have hhit := List.count_pos_iff.mpr (h e hp)
        rw [if_pos hp]
        omega
      · rw [if_neg hp]
        omega

/-- The elements with certain positions are not counted too few times. -/
theorem countP_le_estimate (cap : Nat) (positions : E → List I) (p : E → Bool) (is : List I)
    (h : ∀ e, p e = true → positions e = is) (elements : List E) :
    min cap (elements.countP p) ≤
      estimate cap ((elements.flatMap positions).foldl (bump cap) fun _ => 0) is := by
  refine (le_estimate_iff _ _ _ _).mpr ⟨Nat.min_le_left .., fun i hi => ?_⟩
  have hhits := countP_le_count positions p i (fun e he => (h e he).symm ▸ hi) elements
  rw [foldl_bump _ _ i (Nat.zero_le cap)]
  omega

end SharedCounters
