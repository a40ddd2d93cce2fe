import Mathlib.Tactic.Common

/-!
# Runs under a Condition

Systems that go from state to state, as a partial function of the state and of what
happens next. An event that cannot happen has no successor.

Some systems keep their promise only as long as certain events do not happen in
certain states. Their runs are those of which every step meets the condition, and
an invariant has to be kept by these steps only.

## Main definitions

* `Reached`: The states that are reached by steps that meet a condition.
* `replay`: A run that is given by its events.
* `recorded`: A system with a history.

## Theorems

* `Reached.invariant`: What holds at first and is kept by every step holds throughout.
* `Reached.replay`: The events of a run can be checked one by one.
* `Reached.recorded`: What holds of everything that is seen holds of the history.
* `no_endless_run`: A run ends if every step goes down in a well-founded order.
-/

namespace TomP2P

variable {σ ε : Type}

/-- The states that are reached from a first one, if every step meets a condition on
    the state before it and on what happens. -/
inductive Reached (step : σ → ε → Option σ) (Cond : σ → ε → Prop) (init : σ → Prop) : σ → Prop
  | start {s : σ} (h : init s) : Reached step Cond init s
  | next {s s' : σ} {e : ε} (hs : Reached step Cond init s) (hc : Cond s e) (h : step s e = some s') :
      Reached step Cond init s'

/-- Lets the events happen one after the other, as long as they can and the condition
    is met. -/
def replay (step : σ → ε → Option σ) (Cond : σ → ε → Prop) [∀ s e, Decidable (Cond s e)] :
    List ε → σ → Option σ
  | [], s => some s
  | e :: es, s =>
      if Cond s e then
        match step s e with
        | none => none
        | some s' => replay step Cond es s'
      else none

/-- A system with a history of what was to be seen in its steps. -/
def recorded {ρ : Type} (step : σ → ε → Option σ) (see : σ → ε → σ → List ρ) (p : σ × List ρ) (e : ε) :
    Option (σ × List ρ) :=
  (step p.1 e).map fun s => (s, p.2 ++ see p.1 e s)

namespace Reached

variable {step : σ → ε → Option σ} {Cond Cond' : σ → ε → Prop} {init : σ → Prop} {s t : σ}

theorem invariant (P : σ → Prop) (hinit : ∀ s, init s → P s)
    (hstep : ∀ s e s', P s → Cond s e → step s e = some s' → P s') (h : Reached step Cond init s) : P s := by
  induction h with
  | start h => exact hinit _ h
  | next _ hc h ih => exact hstep _ _ _ ih hc h

/-- A system that keeps an invariant, in the steps of which only such things are seen. -/
theorem recorded {ρ : Type} {see : σ → ε → σ → List ρ} (P : σ → Prop) (Q : ρ → Prop) (hinit : ∀ s, init s → P s)
    (hstep : ∀ s e s', P s → Cond s e → step s e = some s' → P s' ∧ ∀ r ∈ see s e s', Q r) {p : σ × List ρ}
    (h : Reached (TomP2P.recorded step see) (fun p e => Cond p.1 e) (fun p => init p.1 ∧ p.2 = []) p) :
    P p.1 ∧ ∀ r ∈ p.2, Q r := by
  refine h.invariant (fun p => P p.1 ∧ ∀ r ∈ p.2, Q r) ?_ ?_
  · rintro ⟨s, log⟩ ⟨hs, hlog⟩
    refine ⟨hinit s hs, fun r hr => ?_⟩
    rw [hlog] at hr
    exact absurd hr List.not_mem_nil
  · rintro ⟨s, log⟩ e ⟨s', log'⟩ ⟨hs, hlog⟩ hc hnext
    rcases Option.map_eq_some_iff.mp hnext with ⟨t, ht, heq⟩
    cases heq
    rcases hstep s e _ hs hc ht with ⟨hs', hsee⟩
    refine ⟨hs', fun r hr => ?_⟩
    rcases List.mem_append.mp hr with hr | hr
    · exact hlog r hr
    · exact hsee r hr

theorem replay [∀ s e, Decidable (Cond s e)] (es : List ε) (hs : Reached step Cond init s)
    (h : TomP2P.replay step Cond es s = some t) : Reached step Cond init t := by
  induction es generalizing s with
  | nil =>
      simp only [TomP2P.replay, Option.some.injEq] at h
      rwa [← h]
  | cons e es ih =>
      simp only [TomP2P.replay] at h
      by_cases hc : Cond s e
      · rw [if_pos hc] at h
        cases hstep : step s e with
        | none => rw [hstep] at h; exact absurd h (by simp)
        | some s' =>
            rw [hstep] at h
            exact ih (hs.next hc hstep) h
      · rw [if_neg hc] at h
        exact absurd h (by simp)

end Reached

/-- A run ends if every step keeps an invariant and goes down in a well-founded
    order. -/
theorem no_endless_run {α : Type} {r : α → α → Prop} (hwf : WellFounded r) (f : σ → α) {step : σ → ε → Option σ}
    {P : σ → Prop} (hstep : ∀ s e s', P s → step s e = some s' → P s' ∧ r (f s') (f s)) {s : σ} (hs : P s) :
    ¬ ∃ run : Nat → σ, run 0 = s ∧ ∀ n, ∃ e, step (run n) e = some (run (n + 1)) := by
  rintro ⟨run, hstart, hsteps⟩
  have hinvariant (n : Nat) : P (run n) := by
    induction n with
    | zero => exact hstart ▸ hs
    | succ n ih =>
        rcases hsteps n with ⟨e, he⟩
        exact (hstep _ e _ ih he).1
  have hall (a : α) : ∀ n, f (run n) = a → False := by
    induction a using hwf.induction with
    | _ a ih =>
        intro n hn
        rcases hsteps n with ⟨e, he⟩
        exact ih _ (hn ▸ (hstep _ e _ (hinvariant n) he).2) (n + 1) rfl
  exact hall _ 0 rfl

end TomP2P
