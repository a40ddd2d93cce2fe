import TomP2P.Core.AutoReplication
import Mathlib.Data.Nat.Choose.Basic
import Mathlib.Tactic.FieldSimp
import Mathlib.Tactic.Linarith
import Mathlib.Tactic.NormNum
import Mathlib.Tactic.Positivity
import Mathlib.Tactic.Ring

/-!
# How Many Replicas

The two versions of the replication factor compute the same probability. After `i` passes the
product times the ways to choose `i` of `n` peers is the ways to choose `i` of `m`. Once `i`
exceeds `m` both are zero: there is then a factor zero in the product, and no way to choose.

What is searched for is therefore the least factor with which there are few enough ways to lose
all replicas. It is larger if more peers leave, or if the replicas are to be more reliable.

## Main definitions

* `AutoReplication.Reliable`: A factor is large enough.

## Theorems

* `AutoReplication.cast_choose_succ`: From one binomial coefficient to the next one.
* `AutoReplication.choose_eq`: What `choose` computes.
* `AutoReplication.lossLoop_mul_choose`: The product of fractions.
* `AutoReplication.replicationFactor_least`: The factor.
-/

namespace TomP2P

namespace AutoReplication

/-- The ways to lose all of `f` replicas are few enough. -/
def Reliable (m n : Int) (r : ℚ) (f : Int) : Prop :=
  (m.toNat.choose f.toNat : ℚ) ≤ (1 - r) * (n.toNat.choose f.toNat : ℚ)

/-- From one coefficient to the next one, also where there is nothing left to choose. -/
theorem cast_choose_succ (n i : Nat) : (n.choose (i + 1) : ℚ) * (i + 1) = n.choose i * (n - i) := by
  rcases Nat.lt_or_ge n i with hlt | hle
  · rw [Nat.choose_eq_zero_of_lt hlt, Nat.choose_eq_zero_of_lt (by omega)]
    simp
  · have h := Nat.choose_succ_right_eq n i
    rw [← Nat.cast_sub hle]
    exact_mod_cast h

/-! ### The first version -/

theorem chooseLoop_eq (n i : Nat) : chooseLoop n i = n.choose i := by
  induction i with
  | zero => simp [chooseLoop]
  | succ i ih =>
      have hne : ((i + 1 : Nat) : ℚ) ≠ 0 := by positivity
      have hstep := cast_choose_succ n i
      rw [chooseLoop, ih, div_eq_iff hne]
      push_cast
      linarith

/-- The coefficients are computed. That `n - k` may be chosen instead makes no difference. -/
theorem choose_eq {n k : Int} (hn : 0 ≤ n) (hk : 0 ≤ k) : choose n k = n.toNat.choose k.toNat := by
  rcases Int.eq_ofNat_of_zero_le hn with ⟨n, rfl⟩
  rcases Int.eq_ofNat_of_zero_le hk with ⟨k, rfl⟩
  unfold choose
  by_cases hgt : (k : Int) > n
  · rw [if_pos (.inr hgt)]
    simp only [Int.toNat_natCast]
    rw [Nat.choose_eq_zero_of_lt (by omega), Nat.cast_zero]
  · rw [if_neg (by omega)]
    dsimp only
    rw [chooseLoop_eq]
    by_cases hhalf : (k : Int) > (n : Int).tdiv 2
    · have hsub : ((n : Int) - k).toNat = n - k := by omega
      rw [if_pos hhalf, hsub, Int.toNat_natCast, Int.toNat_natCast, Nat.choose_symm (by omega)]
    · rw [if_neg hhalf]
      simp

/-! ### The second version -/

/-- After `i` passes. -/
theorem lossLoop_mul_choose (m n i : Nat) (hi : i ≤ n) :
    lossLoop m n i * n.choose i = m.choose i := by
  induction i with
  | zero => simp [lossLoop]
  | succ i ih =>
      have hn : ((n : ℚ) - i) ≠ 0 := by
        have hlt : (i : ℚ) < n := by exact_mod_cast hi
        exact sub_ne_zero.mpr (ne_of_gt hlt)
      have hi1 : ((i : ℚ) + 1) ≠ 0 := by positivity
      have hprev := ih (by omega)
      -- Both sides times i + 1, so that both go from one coefficient to the next.
      refine mul_right_cancel₀ hi1 ?_
      calc lossLoop m n (i + 1) * n.choose (i + 1) * (i + 1)
          = lossLoop m n i * (m - i) / (n - i) * (n.choose (i + 1) * (i + 1)) := by
            rw [lossLoop]
            push_cast
            ring
        _ = lossLoop m n i * (m - i) / (n - i) * (n.choose i * (n - i)) := by rw [cast_choose_succ]
        _ = lossLoop m n i * n.choose i * (m - i) := by
            field_simp
        _ = m.choose (i + 1) * (i + 1) := by rw [hprev, cast_choose_succ]

/-! ### The factor -/

variable {m n : Int} {r : ℚ} {f : Int}

/-- Whether the first version accepts a factor. -/
theorem reliable_iff (hm : 0 ≤ m) (hf : 0 ≤ f) (hn : f ≤ n) :
    1 - choose m f / choose n f ≥ r ↔ Reliable m n r f := by
  have hpos : (0 : ℚ) < n.toNat.choose f.toNat := by
    have hchoose : 0 < n.toNat.choose f.toNat := Nat.choose_pos (by omega)
    exact_mod_cast hchoose
  rw [Reliable, choose_eq hm hf, choose_eq (by omega) hf, ← div_le_iff₀ hpos]
  constructor
  · intro h
    linarith
  · intro h
    linarith

/-- Both versions compute the same probability. -/
theorem lossLoop_eq (hm : 0 ≤ m) (hf : 0 ≤ f) (hn : f ≤ n) : lossLoop m n f.toNat = choose m f / choose n f := by
  have hpos : (0 : ℚ) < n.toNat.choose f.toNat := by
    have hchoose : 0 < n.toNat.choose f.toNat := Nat.choose_pos (by omega)
    exact_mod_cast hchoose
  have hloop := lossLoop_mul_choose m.toNat n.toNat f.toNat (by omega)
  rw [Int.toNat_of_nonneg hm, Int.toNat_of_nonneg (by omega)] at hloop
  rw [choose_eq hm hf, choose_eq (by omega) hf, eq_div_iff (ne_of_gt hpos)]
  exact hloop

/-- Fewer factors are reliable if more peers leave, or if more is asked for. -/
theorem Reliable.mono {m' : Int} {r' : ℚ} (hm : m ≤ m') (hr : r ≤ r') (h : Reliable m' n r' f) :
    Reliable m n r f := by
  have hchoose : (m.toNat.choose f.toNat : ℚ) ≤ m'.toNat.choose f.toNat := by
    exact_mod_cast Nat.choose_le_choose f.toNat (by omega)
  have hways : (0 : ℚ) ≤ n.toNat.choose f.toNat := by positivity
  unfold Reliable at h ⊢
  calc (m.toNat.choose f.toNat : ℚ)
      ≤ m'.toNat.choose f.toNat := hchoose
    _ ≤ (1 - r') * n.toNat.choose f.toNat := h
    _ ≤ (1 - r) * n.toNat.choose f.toNat := by
        refine mul_le_mul_of_nonneg_right ?_ hways
        linarith

variable {minReplicationFactor maxReplicationFactor : Int}

/-- The numbers that are searched are factors up to the number of peers. -/
theorem accepts_iff (hm : 0 ≤ m) (hmin : 1 ≤ minReplicationFactor) (hn : maxReplicationFactor - 1 ≤ n) (f : Int)
    (hle : minReplicationFactor ≤ f) (hlt : f < maxReplicationFactor) :
    decide (1 - choose m f / choose n f ≥ r) = true ↔ Reliable m n r f := by
  rw [decide_eq_true_iff]
  exact reliable_iff hm (by omega) (by omega)

theorem replicationFactor_mono {m' : Int} {r' : ℚ} (hm : 0 ≤ m) (hmin : 1 ≤ minReplicationFactor)
    (hmax : minReplicationFactor ≤ maxReplicationFactor) (hn : maxReplicationFactor - 1 ≤ n) (hm' : m ≤ m')
    (hr : r ≤ r') :
    replicationFactor m n r minReplicationFactor maxReplicationFactor ≤
      replicationFactor m' n r' minReplicationFactor maxReplicationFactor := by
  refine LinearSearch.searchUp_le_searchUp _ _ _ _ (by omega) ?_
  intro f hle hlt haccept
  have hreliable := (accepts_iff (by omega) hmin hn f hle hlt).mp haccept
  exact (accepts_iff hm hmin hn f hle hlt).mpr (hreliable.mono hm' hr)

/-- Both versions return the least reliable factor below the largest one, or the largest one.
    It is between the bounds, and it does not decrease if more peers leave or if more is
    asked for. -/
theorem replicationFactor_least (m n : Int) (r : ℚ) (minReplicationFactor maxReplicationFactor : Int) (hm : 0 ≤ m)
    (hmin : 1 ≤ minReplicationFactor) (hmax : minReplicationFactor ≤ maxReplicationFactor)
    (hn : maxReplicationFactor - 1 ≤ n) :
    replicationFactor2 m n r minReplicationFactor maxReplicationFactor =
        replicationFactor m n r minReplicationFactor maxReplicationFactor ∧
      IsLeast (insert maxReplicationFactor
          {f | minReplicationFactor ≤ f ∧ f < maxReplicationFactor ∧ Reliable m n r f})
        (replicationFactor m n r minReplicationFactor maxReplicationFactor) ∧
      minReplicationFactor ≤ replicationFactor m n r minReplicationFactor maxReplicationFactor ∧
      replicationFactor m n r minReplicationFactor maxReplicationFactor ≤ maxReplicationFactor ∧
      ∀ m' r', m ≤ m' → r ≤ r' → replicationFactor m n r minReplicationFactor maxReplicationFactor ≤
        replicationFactor m' n r' minReplicationFactor maxReplicationFactor := by
  have hk : minReplicationFactor + ((maxReplicationFactor - minReplicationFactor).toNat : Int) =
      maxReplicationFactor := by omega
  have hleast : IsLeast (insert maxReplicationFactor
      {f | minReplicationFactor ≤ f ∧ f < maxReplicationFactor ∧ Reliable m n r f})
      (replicationFactor m n r minReplicationFactor maxReplicationFactor) := by
    have hset : (insert maxReplicationFactor
        {f | minReplicationFactor ≤ f ∧ f < maxReplicationFactor ∧ Reliable m n r f}) =
        insert maxReplicationFactor {f | minReplicationFactor ≤ f ∧ f < maxReplicationFactor ∧
          decide (1 - choose m f / choose n f ≥ r) = true} := by
      ext f
      simp only [Set.mem_insert_iff, Set.mem_ofPred_eq]
      refine or_congr_right ⟨?_, ?_⟩
      · rintro ⟨hle, hlt, h⟩
        exact ⟨hle, hlt, (accepts_iff hm hmin hn f hle hlt).mpr h⟩
      · rintro ⟨hle, hlt, h⟩
        exact ⟨hle, hlt, (accepts_iff hm hmin hn f hle hlt).mp h⟩
    rw [hset]
    exact LinearSearch.isLeast_searchUp _ _ _ hk
  refine ⟨?_, hleast, ?_, hleast.2 (Set.mem_insert _ _), ?_⟩
  · refine LinearSearch.searchUp_congr _ _ _ _ hk ?_
    intro f hle hlt
    have hloss : lossLoop m n f.toNat = choose m f / choose n f := lossLoop_eq hm (by omega) (by omega)
    simp only [hloss]
  · rcases hleast.1 with heq | hfound
    · omega
    · exact hfound.1
  · intro m' r' hm' hr
    exact replicationFactor_mono hm hmin hmax hn hm' hr

/-- Of 100 peers 10 leave, and the replicas should be lost at most once in 100 times. -/
theorem replicationFactor_ten :
    replicationFactor2 10 100 (99 / 100) 2 100 = replicationFactor 10 100 (99 / 100) 2 100 ∧
      replicationFactor 10 100 (99 / 100) 2 100 = 2 := by
  have h := replicationFactor_least 10 100 (99 / 100) 2 100 (by decide) (by decide) (by decide) (by decide)
  refine ⟨h.1, le_antisymm (h.2.1.2 (.inr ⟨le_refl 2, by decide, ?_⟩)) h.2.2.1⟩
  change ((10 : Nat).choose 2 : ℚ) ≤ (1 - 99 / 100) * ((100 : Nat).choose 2 : ℚ)
  norm_num [Nat.choose_two_right]

end AutoReplication

end TomP2P
