import Mathlib.Algebra.BigOperators.Group.List.Basic
import Mathlib.Algebra.GroupWithZero.Nat
import Mathlib.Algebra.Ring.Int.Defs
import Mathlib.Data.List.Count
import Mathlib.Data.List.Forall2

/-!
# Lists with one Element Changed

Systems that consist of parts keep them in a list, and a step changes one of them. What
is counted or summed up over all parts then changes by that part, and what holds of all
parts has to be shown for that part only.

## Theorems

* `countP_modify`, `sum_map_set`: Counts and sums when one element changes.
* `forall_mem_modify`, `forall_mem_set`: What holds of all elements.
* `forall₂_modify`: How the elements before and after are related.
* `countP_congr_forall₂`, `getElem?_forall₂`: What follows from such a relation.
-/

namespace TomP2P

open List

variable {α : Type} {l l' : List α} {i : Nat} {a : α}

/-- Changing one element changes a count by that element. -/
theorem countP_modify (p : α → Bool) (g : α → α) (h : l[i]? = some a) :
    (l.modify i g).countP p + (p a).toNat = l.countP p + (p (g a)).toNat := by
  induction l generalizing i with
  | nil => simp at h
  | cons b l ih =>
      cases i with
      | zero =>
          simp only [getElem?_cons_zero, Option.some.injEq] at h
          subst h
          simp only [modify_zero_cons, countP_cons]
          cases p b <;> cases p (g b) <;> simp
      | succ i =>
          have hrest := ih (by simpa using h)
          simp only [modify_succ_cons, countP_cons]
          omega

theorem forall₂_modify {R : α → α → Prop} (hrefl : ∀ a, R a a) (g : α → α) (i : Nat)
    (hR : ∀ a, l[i]? = some a → R a (g a)) : List.Forall₂ R l (l.modify i g) := by
  induction l generalizing i with
  | nil => simp
  | cons b l ih =>
      cases i with
      | zero =>
          rw [modify_zero_cons]
          exact .cons (hR b rfl) (List.forall₂_same.mpr fun a _ => hrefl a)
      | succ i =>
          rw [modify_succ_cons]
          exact .cons (hrefl b) (ih i fun a ha => hR a (by simpa using ha))

theorem countP_congr_forall₂ {R : α → α → Prop} {p : α → Bool} (h : List.Forall₂ R l l')
    (hp : ∀ a b, R a b → p b = p a) : l'.countP p = l.countP p := by
  induction h with
  | nil => rfl
  | cons hab _ ih => rw [countP_cons, countP_cons, ih, hp _ _ hab]

theorem getElem?_forall₂ {R : α → α → Prop} (h : List.Forall₂ R l l') {b : α} (hb : l'[i]? = some b) :
    ∃ a, l[i]? = some a ∧ R a b := by
  induction h generalizing i with
  | nil => simp at hb
  | cons hab _ ih =>
      cases i with
      | zero =>
          simp only [getElem?_cons_zero, Option.some.injEq] at hb
          exact ⟨_, rfl, hb ▸ hab⟩
      | succ i => exact ih (by simpa using hb)

theorem getElem?_modify_self (g : α → α) (h : l[i]? = some a) : (l.modify i g)[i]? = some (g a) := by
  rw [getElem?_modify, h]
  simp

theorem getElem?_modify_of_ne (g : α → α) {j : Nat} (hne : j ≠ i) : (l.modify i g)[j]? = l[j]? := by
  rw [getElem?_modify]
  simp [Ne.symm hne]

/-- What holds of all elements holds after changing one of them, if it holds of that. -/
theorem forall_mem_modify {P : α → Prop} {g : α → α} (h : ∀ b ∈ l, P b) (hi : l[i]? = some a) (hg : P (g a)) :
    ∀ b ∈ l.modify i g, P b := by
  intro b hb
  obtain ⟨j, hj⟩ := mem_iff_getElem?.mp hb
  by_cases hne : j = i
  · rw [hne, getElem?_modify_self g hi, Option.some.injEq] at hj
    exact hj ▸ hg
  · rw [getElem?_modify_of_ne g hne] at hj
    exact h b (mem_of_getElem? hj)

/-! ### Sums -/

/-- Replacing one element changes a sum by that element. -/
theorem sum_map_set (f : α → Int) (h : l[i]? = some a) (b : α) :
    ((l.set i b).map f).sum + f a = (l.map f).sum + f b := by
  induction l generalizing i with
  | nil => simp at h
  | cons c l ih =>
      cases i with
      | zero =>
          simp only [getElem?_cons_zero, Option.some.injEq] at h
          rw [set_cons_zero, map_cons, map_cons, sum_cons, sum_cons, h]
          omega
      | succ i =>
          have hrest := ih (by simpa using h)
          rw [set_cons_succ, map_cons, map_cons, sum_cons, sum_cons]
          omega

theorem sum_map_le {f g : α → Int} (h : ∀ a ∈ l, f a ≤ g a) : (l.map f).sum ≤ (l.map g).sum := by
  induction l with
  | nil => simp
  | cons b l ih =>
      have hb := h b mem_cons_self
      have hl := ih fun a ha => h a (mem_cons_of_mem b ha)
      rw [map_cons, map_cons, sum_cons, sum_cons]
      omega

theorem forall_mem_set {P : α → Prop} (h : ∀ b ∈ l, P b) (ha : P a) : ∀ b ∈ l.set i a, P b := by
  intro b hb
  rcases mem_or_eq_of_mem_set hb with hmem | rfl
  · exact h b hmem
  · exact ha

end TomP2P
