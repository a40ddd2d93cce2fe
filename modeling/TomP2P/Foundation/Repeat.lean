import TomP2P.Foundation.Effect

/-!
# Loops that May not End

A `while` loop as a program. A pass either returns what the next pass starts with or ends
the loop with its answer. There is no bound on the number of passes in the loop itself, so
the program takes one and answers `none` when it is used up.

A loop that ends does so for every larger bound with the same answer. It does not end when
some property of the start of a pass makes the pass go on and holds again at the start of
the next one.

## Main definitions

* `Effect.whileUpTo`: A loop with a bound on its passes.

## Theorems

* `whileUpTo_first`: A loop whose first pass ends.
* `whileUpTo_invariant`: What the passes keep holds at the start of the last one.
* `whileUpTo_endless`: A loop that never ends.
-/

namespace Effect

variable {ε σ α β : Type}

/-- Runs passes until one of them ends the loop. -/
def whileUpTo (pass : α → EStateM ε σ (α ⊕ β)) : Nat → α → EStateM ε σ (Option β)
  | 0, _ => pure none
  | fuel + 1, a => do
      match ← pass a with
      | .inl a' => whileUpTo pass fuel a'
      | .inr b => pure (some b)

variable (pass : α → EStateM ε σ (α ⊕ β))

theorem whileUpTo_succ (fuel : Nat) (a : α) (s : σ) :
    whileUpTo pass (fuel + 1) a s = match pass a s with
      | .ok (.inl a') s' => whileUpTo pass fuel a' s'
      | .ok (.inr b) s' => .ok (some b) s'
      | .error e s' => .error e s' := by
  rw [whileUpTo, bind_apply]
  rcases pass a s with ⟨a' | b, s'⟩ | ⟨e, s'⟩ <;> rfl

/-- A first pass that ends the loop is the whole loop. -/
theorem whileUpTo_first (fuel : Nat) (a : α) (b : β) (s s' : σ) (h : pass a s = .ok (.inr b) s') :
    whileUpTo pass (fuel + 1) a s = .ok (some b) s' := by
  rw [whileUpTo_succ, h]

/-- What holds at the start and is kept by every pass that goes on holds at the start of the
    pass that ends the loop. -/
theorem whileUpTo_invariant (inv : α → σ → Prop)
    (hpass : ∀ a s a' s', inv a s → pass a s = .ok (.inl a') s' → inv a' s')
    (fuel : Nat) (a : α) (s t : σ) (b : β) (hinv : inv a s)
    (h : whileUpTo pass fuel a s = .ok (some b) t) :
    ∃ a' s', inv a' s' ∧ pass a' s' = .ok (.inr b) t := by
  induction fuel generalizing a s with
  | zero =>
      rw [whileUpTo, pure_apply] at h
      simp only [EStateM.Result.ok.injEq, reduceCtorEq, false_and] at h
  | succ fuel ih =>
      rw [whileUpTo_succ] at h
      cases hp : pass a s with
      | error e s' =>
          rw [hp] at h
          simp only [reduceCtorEq] at h
      | ok answer s' =>
          rw [hp] at h
          cases answer with
          | inl a' => exact ih a' s' (hpass a s a' s' hinv hp) h
          | inr b' =>
              simp only [EStateM.Result.ok.injEq, Option.some.injEq] at h
              rw [h.1, h.2] at hp
              exact ⟨a, s, hinv, hp⟩

/-- A loop never ends if there is something that makes a pass go on and holds again
    afterwards. -/
theorem whileUpTo_endless (inv : α → σ → Prop)
    (hpass : ∀ a s, inv a s → ∃ a' s', pass a s = .ok (.inl a') s' ∧ inv a' s')
    (fuel : Nat) (a : α) (s t : σ) (b : β) (hinv : inv a s) :
    whileUpTo pass fuel a s ≠ .ok (some b) t := by
  intro h
  have hkeep : ∀ a s a' s', inv a s → pass a s = .ok (.inl a') s' → inv a' s' := by
    intro a s a' s' hi hp
    rcases hpass a s hi with ⟨a₁, s₁, hp₁, hi₁⟩
    rw [hp] at hp₁
    simp only [EStateM.Result.ok.injEq, Sum.inl.injEq] at hp₁
    rw [hp₁.1, hp₁.2]
    exact hi₁
  rcases whileUpTo_invariant pass inv hkeep fuel a s t b hinv h with ⟨a', s', hi, hend⟩
  -- The last pass would have to go on as well.
  rcases hpass a' s' hi with ⟨a₁, s₁, hp₁, _⟩
  rw [hend] at hp₁
  simp only [EStateM.Result.ok.injEq, reduceCtorEq, false_and] at hp₁

end Effect
