import Mathlib.Data.List.Nodup

/-!
# Limits and Filters

A list cut at a limit, where a negative limit does not cut, and the order in which a list
is cut and filtered.

Filtering first leaves room for what comes later in the list, so the two orders differ by
what moves up (`Limited.take_filter`). Nothing does if nothing in front is filtered out,
or if nothing behind passes.

## Main definitions

* `Limited.take`, `Limited.drop`: The two sides of the cut.
* `Limited.movedUp`: What comes in front of the cut by filtering first.

## Theorems

* `Limited.take_filter`: The two orders.
* `Limited.movedUp_eq_nil_iff`: When they are the same.
* `Limited.same_iff`: When they have the same elements.
-/

namespace Limited

variable {α : Type} (limit : Int) (l : List α) (p : α → Bool)

/-- The front of a list, or all of it if the limit is negative. -/
def take : List α := if limit < 0 then l else l.take limit.toNat

/-- What a limit cuts off. -/
def drop : List α := if limit < 0 then [] else l.drop limit.toNat

theorem take_append_drop : take limit l ++ drop limit l = l := by
  unfold take drop
  by_cases hneg : limit < 0
  · simp [hneg]
  · simp [hneg]

@[simp] theorem take_zero : take 0 l = [] := by simp [take]

@[simp] theorem take_nil : take limit ([] : List α) = [] := by simp [take]

theorem take_cons (h : limit ≠ 0) (a : α) : take limit (a :: l) = a :: take (limit - 1) l := by
  by_cases hneg : limit < 0
  · have hneg' : limit - 1 < 0 := by omega
    rw [take, if_pos hneg, take, if_pos hneg']
  · have hneg' : ¬ limit - 1 < 0 := by omega
    have hsucc : limit.toNat = (limit - 1).toNat + 1 := by omega
    rw [take, if_neg hneg, take, if_neg hneg', hsucc, List.take_succ_cons]

theorem mem_of_mem_take {x : α} (h : x ∈ take limit l) : x ∈ l := by
  rw [← take_append_drop limit l]
  exact List.mem_append_left _ h

/-- What passes behind the cut and finds room in front of it. -/
def movedUp : List α := take (limit - ((take limit l).filter p).length) ((drop limit l).filter p)

/-- A limit is a number or none. -/
theorem length_take_le (h : 0 ≤ limit) : ((take limit l).length : Int) ≤ limit := by
  rw [take, if_neg (by omega), List.length_take]
  omega

/-- Filtering first gives what filtering last gives, and what moves up. -/
theorem take_filter : take limit (l.filter p) = (take limit l).filter p ++ movedUp limit l p := by
  by_cases hneg : limit < 0
  · simp [take, drop, movedUp, hneg]
  · have hlen : ((take limit l).filter p).length ≤ (take limit l).length := List.length_filter_le _ _
    have hle := length_take_le limit l (by omega)
    have hsplit : l.filter p = (take limit l).filter p ++ (drop limit l).filter p := by
      rw [← List.filter_append, take_append_drop]
    have hroom : (limit - ((take limit l).filter p).length).toNat = limit.toNat - ((take limit l).filter p).length := by
      omega
    have hfront : ((take limit l).filter p).take limit.toNat = (take limit l).filter p :=
      List.take_of_length_le (by omega)
    rw [movedUp]
    generalize hf : (take limit l).filter p = front at *
    generalize hb : (drop limit l).filter p = behind at *
    rw [hsplit, take, if_neg hneg, List.take_append, hfront, take, if_neg (by omega), hroom]

/-- Nothing moves up if all in front passes, or nothing behind. -/
theorem movedUp_eq_nil_iff :
    movedUp limit l p = [] ↔ (∀ x ∈ take limit l, p x = true) ∨ ∀ x ∈ drop limit l, p x = false := by
  by_cases hneg : limit < 0
  · simp [movedUp, take, drop, hneg]
  · have hle := length_take_le limit l (by omega)
    have hlen : ((take limit l).filter p).length ≤ (take limit l).length := List.length_filter_le _ _
    have hpass : ((take limit l).filter p).length = (take limit l).length ↔ ∀ x ∈ take limit l, p x = true :=
      List.length_filter_eq_length_iff
    have hnone : (drop limit l).filter p = [] ↔ ∀ x ∈ drop limit l, p x = false := by
      simp [List.filter_eq_nil_iff]
    rw [← hpass, ← hnone, movedUp, take, if_neg (by omega), List.take_eq_nil_iff]
    constructor
    · intro h
      rcases h with hroom | hnil
      · exact .inl (by omega)
      · exact .inr hnil
    · intro h
      rcases h with hall | hnil
      · by_cases hfull : limit ≤ (take limit l).length
        · exact .inl (by omega)
        · -- the list ends in front of the cut
          have hdrop : drop limit l = [] := by
            rw [take, if_neg hneg, List.length_take] at hfull
            rw [drop, if_neg hneg, List.drop_eq_nil_iff]
            omega
          exact .inr (by rw [hdrop]; rfl)
      · exact .inr hnil

/-- The orders have the same elements only if nothing moves up. -/
theorem same_iff (hnodup : l.Nodup) :
    (∀ x, x ∈ (take limit l).filter p ↔ x ∈ take limit (l.filter p)) ↔
      (∀ x ∈ take limit l, p x = true) ∨ ∀ x ∈ drop limit l, p x = false := by
  rw [← movedUp_eq_nil_iff, take_filter]
  constructor
  · intro hsame
    by_contra hne
    obtain ⟨x, hx⟩ := List.exists_mem_of_ne_nil _ hne
    have hfront : x ∈ take limit l := List.mem_of_mem_filter ((hsame x).mpr (List.mem_append_right _ hx))
    have hbehind : x ∈ drop limit l := List.mem_of_mem_filter (mem_of_mem_take _ _ hx)
    rw [← take_append_drop limit l] at hnodup
    exact (List.disjoint_of_nodup_append hnodup) hfront hbehind
  · intro hnil x
    rw [hnil, List.append_nil]

/-- Without filtering there are the same elements only if all in front passes. -/
theorem unfiltered_iff : (∀ x, x ∈ take limit l ↔ x ∈ take limit (l.filter p)) ↔ ∀ x ∈ take limit l, p x = true := by
  constructor
  · intro hsame x hx
    exact List.of_mem_filter (mem_of_mem_take _ _ ((hsame x).mp hx))
  · intro hall x
    have hnil := (movedUp_eq_nil_iff limit l p).mpr (.inl hall)
    rw [take_filter, hnil, List.append_nil, List.filter_eq_self.mpr hall]

end Limited
