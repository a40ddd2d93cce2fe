import Mathlib.Tactic.Common

/-!
# Programs that Change a State and may Throw

Reasoning about `EStateM` programs: a program that throws keeps what it had
written by then, so what it did has to be followed through both outcomes.

`Effect.after` is the state a program leaves, however it ends, and an invariant
is a statement about it. A sequence is taken apart at its first part
(`Effect.after_bind`), and a loop keeps what each of its passes keeps
(`Effect.foldlM_invariant`).

## Main definitions

* `Effect.ofExcept`: A computation that may throw and leaves the state alone.
* `Effect.after`: The state a program leaves.

## Theorems

* `Effect.except_bind_ok`: A computation that returns returned in both parts.
* `Effect.bind_apply`: Running a sequence.
* `Effect.bind_ok_iff`: A sequence that returns returned in both parts.
* `Effect.after_bind`: The state after a sequence.
* `Effect.foldlM_invariant`: What every pass of a loop keeps, the loop keeps.
-/

namespace Effect

variable {ε σ α β : Type}

/-- A computation that may throw and leaves the state alone. -/
def ofExcept : Except ε α → EStateM ε σ α
  | .ok a => pure a
  | .error e => throw e

/-- The state a program leaves, whether it returns or throws. -/
def after (m : EStateM ε σ α) (s : σ) : σ :=
  match m s with
  | .ok _ s' => s'
  | .error _ s' => s'

theorem except_bind_ok {x : Except ε α} {f : α → Except ε β} {b : β} (h : (x >>= f) = .ok b) :
    ∃ a, x = .ok a ∧ f a = .ok b := by
  cases x with
  | error e => cases h
  | ok a => exact ⟨a, rfl, h⟩

@[simp] theorem except_ok_bind (a : α) (f : α → Except ε β) :
    ((.ok a : Except ε α) >>= f) = f a := rfl

@[simp] theorem except_error_bind (e : ε) (f : α → Except ε β) :
    ((.error e : Except ε α) >>= f) = .error e := rfl

@[simp] theorem pure_apply (a : α) (s : σ) : (pure a : EStateM ε σ α) s = .ok a s := rfl

@[simp] theorem throw_apply (e : ε) (s : σ) : (throw e : EStateM ε σ α) s = .error e s := rfl

@[simp] theorem get_apply (s : σ) : (get : EStateM ε σ σ) s = .ok s s := rfl

@[simp] theorem modify_apply (f : σ → σ) (s : σ) :
    (modify f : EStateM ε σ PUnit) s = .ok ⟨⟩ (f s) := rfl

@[simp] theorem ofExcept_ok (a : α) (s : σ) :
    (ofExcept (.ok a) : EStateM ε σ α) s = .ok a s := rfl

@[simp] theorem ofExcept_error (e : ε) (s : σ) :
    (ofExcept (.error e) : EStateM ε σ α) s = .error e s := rfl

theorem bind_apply (m : EStateM ε σ α) (f : α → EStateM ε σ β) (s : σ) :
    (m >>= f) s = match m s with
      | .ok a s' => f a s'
      | .error e s' => .error e s' := rfl

theorem map_apply (g : α → β) (m : EStateM ε σ α) (s : σ) :
    (g <$> m) s = match m s with
      | .ok a s' => .ok (g a) s'
      | .error e s' => .error e s' := rfl

theorem map_ok_iff (g : α → β) (m : EStateM ε σ α) (s s' : σ) (b : β) :
    (g <$> m) s = .ok b s' ↔ ∃ a, m s = .ok a s' ∧ g a = b := by
  rw [map_apply]
  rcases m s with ⟨a, t⟩ | ⟨e, t⟩
  · simp only [EStateM.Result.ok.injEq]
    exact ⟨fun h => ⟨a, ⟨rfl, h.2⟩, h.1⟩, fun ⟨_, ⟨ha, ht⟩, hb⟩ => ⟨ha ▸ hb, ht⟩⟩
  · simp only [reduceCtorEq, false_and, exists_false]

/-- A sequence returns exactly when both of its parts do. -/
theorem bind_ok_iff (m : EStateM ε σ α) (f : α → EStateM ε σ β) (s s'' : σ) (b : β) :
    (m >>= f) s = .ok b s'' ↔ ∃ a s', m s = .ok a s' ∧ f a s' = .ok b s'' := by
  rw [bind_apply]
  rcases hm : m s with ⟨a, s'⟩ | ⟨e, s'⟩
  · refine ⟨fun h => ⟨a, s', rfl, h⟩, ?_⟩
    rintro ⟨a', t, heq, h⟩
    cases heq
    exact h
  · refine ⟨nofun, ?_⟩
    rintro ⟨a', t, heq, _⟩
    cases heq

theorem after_ok (m : EStateM ε σ α) (s s' : σ) (a : α) (h : m s = .ok a s') :
    after m s = s' := by
  rw [after, h]

/-- The state after a sequence: that of the first part if it throws, and that
    of the second part otherwise. -/
theorem after_bind (m : EStateM ε σ α) (f : α → EStateM ε σ β) (s : σ) :
    after (m >>= f) s = match m s with
      | .ok a s' => after (f a) s'
      | .error _ s' => s' := by
  unfold after
  rw [bind_apply]
  rcases m s with ⟨a, s'⟩ | ⟨e, s'⟩ <;> rfl

@[simp] theorem after_pure (a : α) (s : σ) : after (pure a : EStateM ε σ α) s = s := rfl

@[simp] theorem after_map (g : α → β) (m : EStateM ε σ α) (s : σ) :
    after (g <$> m) s = after m s := by
  unfold after
  rw [map_apply]
  rcases m s with ⟨a, s'⟩ | ⟨e, s'⟩ <;> rfl

theorem after_get_bind (f : σ → EStateM ε σ β) (s : σ) :
    after (get >>= f) s = after (f s) s := by
  rw [after_bind, get_apply]

theorem after_ofExcept_bind (x : Except ε α) (f : α → EStateM ε σ β) (s : σ) :
    after (ofExcept x >>= f) s = match x with
      | .ok a => after (f a) s
      | .error _ => s := by
  rw [after_bind]
  rcases x with e | a
  · rw [ofExcept_error]
  · rw [ofExcept_ok]

theorem after_modify (f : σ → σ) (s : σ) :
    after (modify f : EStateM ε σ PUnit) s = f s := rfl

/-- What every pass of a loop keeps, the loop keeps. -/
theorem foldlM_invariant (P : σ → Prop) (f : β → α → EStateM ε σ β)
    (hf : ∀ b a s, P s → P (after (f b a) s)) (xs : List α) (b : β) (s : σ) (hs : P s) :
    P (after (xs.foldlM f b) s) := by
  induction xs generalizing b s with
  | nil => exact hs
  | cons x xs ih =>
      have hx := hf b x s hs
      rw [List.foldlM_cons, after_bind]
      rcases h : f b x s with ⟨b', s'⟩ | ⟨e, s'⟩
      · rw [after, h] at hx
        exact ih b' s' hx
      · rw [after, h] at hx
        exact hx

end Effect
