import TomP2P.Foundation.Effect

/-!
# Programs that Run in Step

Two programs that are run side by side, each on a state of its own. They are in step if
both return, with answers and states that are related, or both throw, with states that are
related.

Sequences and loops are in step if their parts are. For a loop over a list the relation may
speak of the elements that are still to come.

## Main definitions

* `Effect.InStep`: Both return or both throw.

## Theorems

* `InStep.mono`: A weaker relation.
* `InStep.bind`: Sequences in step.
* `foldlM_inStep`, `forM_inStep`: Loops in step.
-/

namespace Effect

variable {ε σ τ α β γ α' β' : Type}

/-- Both programs return and `R` holds of what they return and leave, or both throw and `E`
    holds of what they leave. -/
def InStep (R : α → σ → β → τ → Prop) (E : σ → τ → Prop) (x : EStateM ε σ α) (y : EStateM ε τ β)
    (s : σ) (t : τ) : Prop :=
  match x s, y t with
  | .ok a s', .ok b t' => R a s' b t'
  | .error _ s', .error _ t' => E s' t'
  | _, _ => False

variable {R : α → σ → β → τ → Prop} {E : σ → τ → Prop} {x : EStateM ε σ α} {y : EStateM ε τ β}
  {s : σ} {t : τ}

@[simp] theorem inStep_pure (a : α) (b : β) :
    InStep R E (pure a : EStateM ε σ α) (pure b) s t ↔ R a s b t := Iff.rfl

theorem inStep_of_ok {a : α} {s' : σ} {b : β} {t' : τ} (hx : x s = .ok a s') (hy : y t = .ok b t') :
    InStep R E x y s t ↔ R a s' b t' := by
  rw [InStep, hx, hy]

/-- What a program does from one state is all that counts. -/
theorem inStep_congr {x' : EStateM ε σ α} {y' : EStateM ε τ β} (hx : x s = x' s) (hy : y t = y' t) :
    InStep R E x y s t ↔ InStep R E x' y' s t := by
  rw [InStep, InStep, hx, hy]

theorem InStep.mono {Q : α → σ → β → τ → Prop} (h : InStep R E x y s t)
    (hrel : ∀ a s b t, R a s b t → Q a s b t) : InStep Q E x y s t := by
  unfold InStep at h ⊢
  cases hx : x s with
  | ok a s' =>
      cases hy : y t with
      | ok b t' =>
          rw [hx, hy] at h
          exact hrel a s' b t' h
      | error e t' => simp [hx, hy] at h
  | error e s' =>
      cases hy : y t with
      | ok b t' => simp [hx, hy] at h
      | error e' t' =>
          rw [hx, hy] at h
          exact h

/-- Sequences are in step if their first parts are, and their second parts from wherever
    these end. -/
theorem InStep.bind {Q : α' → σ → β' → τ → Prop} {f : α → EStateM ε σ α'} {g : β → EStateM ε τ β'}
    (h : InStep R E x y s t) (hrest : ∀ a s' b t', R a s' b t' → InStep Q E (f a) (g b) s' t') :
    InStep Q E (x >>= f) (y >>= g) s t := by
  unfold InStep at h ⊢
  rw [bind_apply, bind_apply]
  cases hx : x s with
  | ok a s' =>
      cases hy : y t with
      | ok b t' =>
          rw [hx, hy] at h
          exact hrest a s' b t' h
      | error e t' => simp [hx, hy] at h
  | error e s' =>
      cases hy : y t with
      | ok b t' => simp [hx, hy] at h
      | error e' t' =>
          rw [hx, hy] at h
          exact h

/-- Loops over one list are in step if their passes are. -/
theorem foldlM_inStep (inv : List γ → α → σ → β → τ → Prop) (f : α → γ → EStateM ε σ α)
    (g : β → γ → EStateM ε τ β)
    (hpass : ∀ c rest a s b t, inv (c :: rest) a s b t →
      InStep (inv rest) E (f a c) (g b c) s t)
    (cs : List γ) (a : α) (b : β) (s : σ) (t : τ) (hstart : inv cs a s b t) :
    InStep (inv []) E (cs.foldlM f a) (cs.foldlM g b) s t := by
  induction cs generalizing a b s t with
  | nil => exact hstart
  | cons c rest ih =>
      rw [List.foldlM_cons, List.foldlM_cons]
      exact (hpass c rest a s b t hstart).bind fun a' s' b' t' h => ih a' b' s' t' h

/-- Loops without an answer. -/
theorem forM_inStep (inv : σ → τ → Prop) (f : γ → EStateM ε σ Unit) (g : γ → EStateM ε τ Unit)
    (hpass : ∀ c s t, inv s t → InStep (fun _ s' _ t' => inv s' t') E (f c) (g c) s t)
    (cs : List γ) (s : σ) (t : τ) (hstart : inv s t) :
    InStep (fun _ s' _ t' => inv s' t') E (cs.forM f) (cs.forM g) s t := by
  induction cs generalizing s t with
  | nil => exact hstart
  | cons c rest ih => exact (hpass c s t hstart).bind fun _ s' _ t' h => ih s' t' h

end Effect
