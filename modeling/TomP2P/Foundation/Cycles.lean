import Mathlib.Logic.Relation

/-!
# Relations without Cycles

A relation has no cycle if nothing is related to itself by one or more steps.

There are two ways to show it here. A relation to which one pair is added has no
cycle if there was no way back (`Acyclic.insert`). And a relation has no cycle if its
cycles can be mapped to a relation without one (`Acyclic.of_cycle`). There only the
points of cycles have to be looked at, and each of them has a predecessor and a
successor that are points of cycles again.

## Main definitions

* `Acyclic`: A relation without cycles.

## Theorems

* `Acyclic.mono`, `Acyclic.insert`, `Acyclic.of_cycle`.
* `exists_successor`, `exists_predecessor`: The neighbours of a point of a cycle.
-/

namespace Cycles

open Relation

variable {α β : Type}

def Acyclic (r : α → α → Prop) : Prop := ∀ a, ¬ TransGen r a a

theorem Acyclic.mono {r q : α → α → Prop} (h : Acyclic q) (hrq : ∀ a b, r a b → q a b) : Acyclic r :=
  fun a hcycle => h a (hcycle.lift id hrq)

/-- A path with one more pair uses it or does not. -/
theorem transGen_insert {r : α → α → Prop} {p l a b : α}
    (h : TransGen (fun x y => r x y ∨ (x = p ∧ y = l)) a b) :
    TransGen r a b ∨ (ReflTransGen r a p ∧ ReflTransGen r l b) := by
  induction h with
  | single hstep =>
      rcases hstep with hstep | ⟨rfl, rfl⟩
      · exact .inl (.single hstep)
      · exact .inr ⟨.refl, .refl⟩
  | tail _ hstep ih =>
      rcases hstep with hstep | ⟨rfl, rfl⟩
      · rcases ih with ih | ⟨hp, hl⟩
        · exact .inl (ih.tail hstep)
        · exact .inr ⟨hp, hl.tail hstep⟩
      · rcases ih with ih | ⟨hp, _⟩
        · exact .inr ⟨ih.to_reflTransGen, .refl⟩
        · exact .inr ⟨hp, .refl⟩

/-- A pair without a way back makes no cycle. -/
theorem Acyclic.insert {r : α → α → Prop} (h : Acyclic r) {p l : α} (hback : ¬ ReflTransGen r l p) :
    Acyclic fun x y => r x y ∨ (x = p ∧ y = l) := by
  intro a hcycle
  rcases transGen_insert hcycle with hcycle | ⟨hp, hl⟩
  · exact h a hcycle
  · exact hback (hl.trans hp)

theorem exists_successor {r : α → α → Prop} {a : α} (h : TransGen r a a) :
    ∃ b, r a b ∧ TransGen r b b := by
  obtain ⟨b, hstep, hback⟩ := TransGen.head'_iff.mp h
  exact ⟨b, hstep, TransGen.tail' hback hstep⟩

theorem exists_predecessor {r : α → α → Prop} {a : α} (h : TransGen r a a) :
    ∃ b, r b a ∧ TransGen r b b := by
  obtain ⟨b, hback, hstep⟩ := TransGen.tail'_iff.mp h
  exact ⟨b, hstep, TransGen.head' hstep hback⟩

/-- A path with a way back passes points of cycles only. -/
theorem transGen_cycle {r : α → α → Prop} {a b : α} (h : TransGen r a b) (hback : ReflTransGen r b a) :
    TransGen (fun x y => r x y ∧ TransGen r x x ∧ TransGen r y y) a b := by
  induction h with
  | single hstep => exact .single ⟨hstep, .head' hstep hback, .tail' hback hstep⟩
  | tail hpath hstep ih =>
      have hround := hback.trans hpath.to_reflTransGen
      exact (ih (.head hstep hback)).tail ⟨hstep, .head' hstep hround, .tail' hround hstep⟩

/-- A relation whose cycles are mapped to a relation without one. -/
theorem Acyclic.of_cycle {r : α → α → Prop} {q : β → β → Prop} (hq : Acyclic q) (f : α → β)
    (h : ∀ a b, r a b → TransGen r a a → TransGen r b b → q (f a) (f b)) : Acyclic r := by
  intro a hcycle
  have hpath := transGen_cycle hcycle .refl
  exact hq (f a) (hpath.lift f fun x y hxy => h x y hxy.1 hxy.2.1 hxy.2.2)

end Cycles
