import Mathlib.Algebra.GroupWithZero.Nat
import Mathlib.Logic.Relation
import TomP2P.Foundation.NavMap

/-!
# Worklists

A search that destroys the map it searches. Keys wait in a queue; the first one is
taken, and if it has an entry the entry is removed and the keys that follow from it
are queued. A key that has no entry any more is passed over, so cycles do no harm.

What is removed is what can be reached from the queue along entries of the map
(`get_of_ends`), whatever the order. The proof looks at one step: a path that meets
the removed entry can be cut behind the last place where it does.

Every step takes a key from the queue, and the keys that are queued come from an
entry that is gone, so the search ends (`ends_sweep`).

## Main definitions

* `Ends`: Repeating a step until there is none.
* `Worklist.step`, `Worklist.sweep`: A step of the search, and the search with a
  bound on its steps.
* `Worklist.Follows`, `Worklist.Found`: What a step reaches, and what is reached.

## Theorems

* `Worklist.ends_sweep`: A large enough bound is not noticed.
* `Worklist.get_of_ends`: What is left.
-/

namespace TomP2P

open NavMap List

/-- The loop that repeats a step as long as there is one ends. -/
inductive Ends {σ : Type} (step : σ → Option σ) : σ → σ → Prop
  | stop {s : σ} (h : step s = none) : Ends step s s
  | next {s s' t : σ} (h : step s = some s') (ht : Ends step s' t) : Ends step s t

namespace Worklist

variable {K V : Type} [LinearOrder K] (succ : V → List K)

/-- The next key of the queue. -/
def step : List K × NavMap K V → Option (List K × NavMap K V)
  | ([], _) => none
  | (k :: queue, m) =>
      match m.get k with
      | none => some (queue, m)
      | some v => some (queue ++ succ v, m.remove k)

/-- The search with a bound on its steps. -/
def sweep : Nat → List K → NavMap K V → NavMap K V
  | 0, _, m => m
  | _ + 1, [], m => m
  | fuel + 1, k :: queue, m =>
      match m.get k with
      | none => sweep fuel queue m
      | some v => sweep fuel (queue ++ succ v) (m.remove k)

/-- The keys that are queued if every entry is removed. -/
def total (m : NavMap K V) : Nat := (m.entries.map fun e => (succ e.2).length).sum

theorem total_remove (m : NavMap K V) {k : K} {v : V} (h : m.get k = some v) :
    total succ m = (succ v).length + total succ (m.remove k) := by
  have hmem := (get_eq_some_iff m k v).mp h
  obtain ⟨front, back, hsplit⟩ := append_of_mem hmem
  have hsorted := m.sorted
  rw [hsplit, pairwise_append, pairwise_cons] at hsorted
  have hfront : front.filter (fun e => decide (e.1 ≠ k)) = front := by
    refine filter_eq_self.mpr fun e he => decide_eq_true ?_
    exact ne_of_lt (hsorted.2.2 e he (k, v) mem_cons_self)
  have hback : back.filter (fun e => decide (e.1 ≠ k)) = back := by
    refine filter_eq_self.mpr fun e he => decide_eq_true ?_
    exact ne_of_gt (hsorted.2.1.1 e he)
  have hrest : (m.remove k).entries = front ++ back := by
    rw [NavMap.remove, NavMap.filter]
    dsimp only
    rw [hsplit, filter_append, filter_cons_of_neg (by simp), hfront, hback]
  rw [total, total, hrest, hsplit]
  simp only [map_append, map_cons, sum_append, sum_cons]
  omega

/-- A bound for all steps is not noticed. -/
theorem ends_sweep (fuel : Nat) (queue : List K) (m : NavMap K V)
    (h : queue.length + total succ m ≤ fuel) :
    Ends (step succ) (queue, m) ([], sweep succ fuel queue m) := by
  induction fuel generalizing queue m with
  | zero =>
      have hnil : queue = [] := length_eq_zero_iff.mp (by omega)
      subst hnil
      exact Ends.stop rfl
  | succ fuel ih =>
      cases queue with
      | nil => exact Ends.stop rfl
      | cons k queue =>
          rw [length_cons] at h
          cases hget : m.get k with
          | none =>
              have hstep : step succ (k :: queue, m) = some (queue, m) := by
                simp only [step, hget]
              simp only [sweep, hget]
              exact Ends.next hstep (ih queue m (by omega))
          | some v =>
              have hstep : step succ (k :: queue, m) = some (queue ++ succ v, m.remove k) := by
                simp only [step, hget]
              have htotal := total_remove succ m hget
              simp only [sweep, hget]
              refine Ends.next hstep (ih _ _ ?_)
              rw [length_append]
              omega

/-- The entry of `k` leads to that of `k'`. -/
def Follows (m : NavMap K V) (k k' : K) : Prop :=
  ∃ v, m.get k = some v ∧ k' ∈ succ v ∧ m.contains k' = true

/-- The key is reached from the queue along entries. -/
def Found (m : NavMap K V) (queue : List K) (y : K) : Prop :=
  ∃ x ∈ queue, m.contains x = true ∧ Relation.ReflTransGen (Follows succ m) x y

variable {succ} {m : NavMap K V} {k : K} {v : V} {queue : List K}

theorem contains_remove (k' : K) : (m.remove k).contains k' = true ↔ k' ≠ k ∧ m.contains k' = true := by
  rw [NavMap.contains, get_remove, NavMap.contains]
  by_cases h : k' = k
  · simp [h]
  · simp [h]

theorem Follows.of_remove {x y : K} (h : Follows succ (m.remove k) x y) : Follows succ m x y := by
  obtain ⟨w, hw, hy, hin⟩ := h
  rw [get_remove] at hw
  by_cases hx : x = k
  · rw [if_pos hx] at hw
    cases hw
  · rw [if_neg hx] at hw
    exact ⟨w, hw, hy, ((contains_remove y).mp hin).2⟩

theorem Follows.remove {x y : K} (h : Follows succ m x y) (hx : x ≠ k) (hy : y ≠ k) :
    Follows succ (m.remove k) x y := by
  obtain ⟨w, hw, hmem, hin⟩ := h
  exact ⟨w, by rw [get_remove_ne _ _ _ hx, hw], hmem, (contains_remove y).mpr ⟨hy, hin⟩⟩

/-- What is reached after the entry was removed was reached before. -/
theorem Found.of_remove {y : K} (hget : m.get k = some v)
    (h : Found succ (m.remove k) (queue ++ succ v) y) : Found succ m (k :: queue) y := by
  obtain ⟨x, hx, hin, hpath⟩ := h
  have hpath' : Relation.ReflTransGen (Follows succ m) x y :=
    Relation.ReflTransGen.mono (fun a b (hstep : Follows succ (m.remove k) a b) => hstep.of_remove)
      x y hpath
  have hin' := ((contains_remove x).mp hin).2
  rcases mem_append.mp hx with hx | hx
  · exact ⟨x, mem_cons_of_mem k hx, hin', hpath'⟩
  · have hk : m.contains k = true := (contains_iff m k).mpr ⟨v, hget⟩
    exact ⟨k, mem_cons_self, hk, Relation.ReflTransGen.head ⟨v, hget, hx, hin'⟩ hpath'⟩

/-- By induction along the path: it ends in the removed entry, or what comes behind
    the last meeting with it is a path that is still there. -/
theorem Found.remove {y : K} (hget : m.get k = some v) (h : Found succ m (k :: queue) y) :
    y = k ∨ Found succ (m.remove k) (queue ++ succ v) y := by
  obtain ⟨x, hx, hin, hpath⟩ := h
  induction hpath with
  | refl =>
      by_cases hk : x = k
      · exact .inl hk
      · have hqueue := (mem_cons.mp hx).resolve_left hk
        exact .inr ⟨x, mem_append_left _ hqueue, (contains_remove x).mpr ⟨hk, hin⟩,
          Relation.ReflTransGen.refl⟩
  | @tail y z _ hstep ih =>
      by_cases hz : z = k
      · exact .inl hz
      · right
        by_cases hy : y = k
        · obtain ⟨w, hw, hmem, hinz⟩ := hstep
          rw [hy, hget, Option.some.injEq] at hw
          subst hw
          exact ⟨z, mem_append_right _ hmem, (contains_remove z).mpr ⟨hz, hinz⟩,
            Relation.ReflTransGen.refl⟩
        · obtain ⟨x', hx', hin', hpath'⟩ := ih.resolve_left hy
          exact ⟨x', hx', hin', hpath'.tail (hstep.remove hy hz)⟩

/-- A search removes what it reaches and nothing else. -/
theorem get_of_ends {m' : NavMap K V} {queue' : List K}
    (h : Ends (step succ) (queue, m) (queue', m')) (y : K) :
    (Found succ m queue y → m'.get y = none) ∧ (¬ Found succ m queue y → m'.get y = m.get y) := by
  generalize hs : (queue, m) = s at h
  generalize ht : (queue', m') = t at h
  induction h generalizing queue m with
  | stop hstep =>
      rw [← ht] at hs hstep
      obtain ⟨rfl, rfl⟩ := Prod.mk.inj hs
      cases queue with
      | nil =>
          refine ⟨?_, fun _ => rfl⟩
          rintro ⟨x, hx, _⟩
          cases hx
      | cons k queue =>
          rw [step] at hstep
          split at hstep <;> cases hstep
  | @next s s' t hstep hends ih =>
      subst hs
      cases queue with
      | nil => cases hstep
      | cons k queue =>
          cases hget : m.get k with
          | none =>
              simp only [step, hget, Option.some.injEq] at hstep
              have hsame : Found succ m (k :: queue) y ↔ Found succ m queue y := by
                constructor
                · rintro ⟨x, hx, hin, hpath⟩
                  rcases mem_cons.mp hx with rfl | hx
                  · rw [NavMap.contains, hget] at hin
                    cases hin
                  · exact ⟨x, hx, hin, hpath⟩
                · rintro ⟨x, hx, hin, hpath⟩
                  exact ⟨x, mem_cons_of_mem k hx, hin, hpath⟩
              rw [hsame]
              exact ih hstep ht
          | some v =>
              simp only [step, hget, Option.some.injEq] at hstep
              obtain ⟨hgone, hleft⟩ := ih hstep ht
              constructor
              · intro hfound
                by_cases hlater : Found succ (m.remove k) (queue ++ succ v) y
                · exact hgone hlater
                · rw [hleft hlater, (hfound.remove hget).resolve_right hlater,
                    get_remove_self]
              · intro hnot
                have hlater : ¬ Found succ (m.remove k) (queue ++ succ v) y :=
                  fun hfound => hnot (hfound.of_remove hget)
                have hne : y ≠ k := by
                  rintro rfl
                  exact hnot ⟨y, mem_cons_self, (contains_iff m y).mpr ⟨v, hget⟩,
                    Relation.ReflTransGen.refl⟩
                rw [hleft hlater, get_remove_ne _ _ _ hne]

end Worklist

end TomP2P
