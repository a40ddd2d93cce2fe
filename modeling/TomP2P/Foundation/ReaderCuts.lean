import TomP2P.Foundation.Reader
import Mathlib.Data.List.Forall2

/-!
# Readers of Several Parts

`Reads` is about one byte string. Here byte strings are put together: those of a reader and of
what follows it, those of a part of the state, and those of the elements of a list.

A reader that is called again goes through its program from the top, and what it has recorded
leads it to where it was. `Passes` says this of two recorded states: whatever follows `v`, a run
from the first state on `v` comes to the same as a run from the second one without it. Steps of
this kind can be put behind each other, and what stands at their end decides what is read.

## Main definitions

* `Takes`: The reader gives a value for a byte string, whatever follows it.
* `Part`: A part of the state that can be read and written.
* `Passes`: The reader gets from one recorded state to another.

## Theorems

* `Takes.bind`, `Takes.repeat_`: Byte strings behind each other.
* `Starves.bind`, `Looks.idleBind`: A cut in the first of several parts.
* `Reads.zoom`: A reader that works on a part of the state.
* `Passes.trans`, `Passes.loop`, `Passes.each`: Steps between recorded states.
* `Passes.reads`: What is read at the end of them.
-/

namespace Wire

open Reader

/-! ### What is read from a state -/

section Takes

variable {ε σ τ α β γ : Type} {s s₁ s' : σ} {v w : Bytes} {a : α} {b : β}

/-- The reader turns `v` into `a`, whatever follows, and leaves `s'`. -/
def Takes (p : Reader ε σ α) (s : σ) (v : Bytes) (a : α) (s' : σ) : Prop :=
  ∀ rest, p.run s (v ++ rest) = .done a s' rest

theorem Parses.takes {p : Reader ε σ α} (h : Parses p v a) (s : σ) : Takes p s v a s := h s

theorem Takes.pure (a : α) (s : σ) : Takes (Pure.pure a : Reader ε σ α) s [] a s := fun _ => rfl

theorem Takes.modify (g : σ → σ) (s : σ) : Takes (Reader.modify g : Reader ε σ Unit) s [] () (g s) :=
  fun _ => rfl

theorem Takes.bind {p : Reader ε σ α} {k : α → Reader ε σ β} (hp : Takes p s v a s₁) (hk : Takes (k a) s₁ w b s') :
    Takes (p >>= k) s (v ++ w) b s' := by
  intro rest
  rw [run_bind, List.append_assoc, hp, Outcome.andThen_done, hk]

/-- A first step that reads nothing. -/
theorem Takes.skip {p : Reader ε σ α} {k : α → Reader ε σ β} (hp : Takes p s [] a s₁) (hk : Takes (k a) s₁ w b s') :
    Takes (p >>= k) s w b s' := hp.bind hk

theorem Takes.lift (a : α) (s : σ) : Takes (Reader.lift (.ok a) : Reader ε σ α) s [] a s := fun _ => rfl

/-- A last step that reads nothing. -/
theorem Takes.thenModify {p : Reader ε σ α} (g : α → σ → σ) (hp : Takes p s v a s₁) :
    Takes (p >>= fun a => Reader.modify (g a)) s v () (g a s₁) := by
  intro rest
  rw [run_bind, hp, Outcome.andThen_done, run_modify]

theorem Takes.map {p : Reader ε σ α} (g : α → β) (hp : Takes p s v a s') : Takes (g <$> p) s v (g a) s' := by
  intro rest
  rw [run_map, hp, Outcome.andThen_done]

/-- A loop takes the byte strings of its elements. `P` is what the state and the elements that
    are still to come have to meet. -/
theorem Takes.repeat_ {p : Reader ε σ Unit} (next : σ → γ → σ) {P : σ → List γ → Prop} {R : γ → Bytes → Prop}
    (hstep : ∀ s x xs v, P s (x :: xs) → R x v → Takes p s v () (next s x) ∧ P (next s x) xs)
    {xs : List γ} {vs : List Bytes} (h : List.Forall₂ R xs vs) (hs : P s xs) :
    Takes (Reader.repeat_ p xs.length) s vs.flatten () (xs.foldl next s) := by
  induction h generalizing s with
  | nil => exact Takes.pure () s
  | @cons x v xs vs hx _ ih =>
      have hnext := hstep s x xs v hs hx
      exact hnext.1.bind (ih hnext.2)

end Takes

/-! ### Cuts in the first part -/

section Cuts

variable {ε σ τ α β : Type} {clean : σ → Prop} {s : σ} {v : Bytes}

/-- Inside `v` only the first of two readers is running. -/
theorem Starves.bind {p : Reader ε σ α} (k : α → Reader ε σ β) (h : Starves clean p s v) :
    Starves clean (p >>= k) s v := by
  intro b c hc hv
  rcases h b c hc hv with ⟨t, u, hwait, hgo⟩
  refine ⟨t, u, by rw [run_bind, hwait, Outcome.andThen_wait], ?_⟩
  intro ht d
  rw [run_bind, run_bind, hgo ht d]

theorem Starves.map {p : Reader ε σ α} (g : α → β) (h : Starves clean p s v) : Starves clean (g <$> p) s v :=
  h.bind fun a => Pure.pure (g a)

theorem Idle.bind {p : Reader ε σ α} (k : α → Reader ε σ β) (h : Idle p s v) : Idle (p >>= k) s v := by
  intro b c hc hv
  rw [run_bind, h b c hc hv, Outcome.andThen_wait]

/-- What follows a look ahead is waited for. -/
theorem Looks.idleBind {p : Reader ε σ α} {k : α → Reader ε σ β} {i : Nat} {a : α} (hp : Looks p v i a)
    (hk : Idle (k a) s v) : Idle (p >>= k) s v := by
  intro b c hc hv
  rw [run_bind]
  rcases hp.part s b c hv with hwait | ⟨_, hdone⟩
  · rw [hwait, Outcome.andThen_wait]
  · rw [hdone, Outcome.andThen_done, hk b c hc hv]

/-- A part of the state: what was written last is what is read. -/
structure Part (get : τ → σ) (set : σ → τ → τ) : Prop where
  get_set : ∀ s t, get (set s t) = s
  set_set : ∀ s u t, set s (set u t) = set s t

variable {get : τ → σ} {set : σ → τ → τ} {p : Reader ε σ α} {t : τ} {a : α} {s' : σ}

theorem Takes.zoom (h : Takes p (get t) v a s') : Takes (Reader.zoom get set p) t v a (set s' t) := by
  intro rest
  rw [run_zoom, h]
  rfl

theorem Starves.zoom (hpart : Part get set) (h : Starves (fun _ => True) p (get t) v) :
    Starves (fun _ => True) (Reader.zoom get set p) t v := by
  intro b c hc hv
  rcases h b c hc hv with ⟨s', u, hwait, hgo⟩
  refine ⟨set s' t, u, by rw [run_zoom, hwait]; rfl, ?_⟩
  intro _ d
  have hset : (fun s => set s (set s' t)) = fun s => set s t := funext fun s => hpart.set_set s s' t
  rw [run_zoom, run_zoom, hpart.get_set, hgo trivial d, hset]

/-- A reader that works on a part of the state is cut where it is. -/
theorem Reads.zoom (hpart : Part get set) (h : Reads (fun _ => True) p (get t) v a s') :
    Reads (fun _ => True) (Reader.zoom get set p) t v a (set s' t) :=
  ⟨Takes.zoom h.full, h.starves.zoom hpart⟩

theorem Reads.map (g : α → β) (h : Reads clean p s v a s') : Reads clean (g <$> p) s v (g a) s' :=
  ⟨Takes.map g h.full, h.starves.map g⟩

end Cuts

/-! ### Steps between recorded states -/

section Passes

variable {ε σ α γ : Type} {p : Reader ε σ α} {s s₁ s₂ s' : σ} {v w : Bytes} {a : α}

/-- On `v` the reader gets from the state `s` to the state `s₁`, wherever `v` is cut. -/
structure Passes (p : Reader ε σ α) (s : σ) (v : Bytes) (s₁ : σ) : Prop where
  run : ∀ r, p.run s (v ++ r) = p.run s₁ r
  starves : Starves (fun _ => True) p s v

theorem Passes.refl (p : Reader ε σ α) (s : σ) : Passes p s [] s := ⟨fun _ => rfl, Starves.nil p s⟩

theorem Passes.trans (h : Passes p s v s₁) (h' : Passes p s₁ w s₂) : Passes p s (v ++ w) s₂ := by
  refine ⟨?_, Starves.step h.run h.starves h'.starves⟩
  intro r
  rw [List.append_assoc, h.run, h'.run]

/-- The state is recorded otherwise and nothing is read. -/
theorem Passes.same (h : ∀ r, p.run s r = p.run s₁ r) : Passes p s [] s₁ := ⟨h, Starves.nil p s⟩

theorem Passes.reads (h : Passes p s v s₁) (h' : Reads (fun _ => True) p s₁ w a s') :
    Reads (fun _ => True) p s (v ++ w) a s' :=
  Reads.step h.run h.starves h'

/-- The end of the steps. -/
theorem Passes.ends (h : Passes p s v s₁) (hend : ∀ rest, p.run s₁ rest = .done a s' rest) :
    Reads (fun _ => True) p s v a s' := by
  have hreads := h.reads (Reads.nil hend)
  rwa [List.append_nil] at hreads

/-- The elements of a list one after the other. `P` is what the state and the elements that are
    still to come have to meet. -/
theorem Passes.each (next : σ → γ → σ) {P : σ → List γ → Prop} {R : γ → Bytes → Prop}
    (hstep : ∀ s x xs v, P s (x :: xs) → R x v → Passes p s v (next s x) ∧ P (next s x) xs)
    {xs : List γ} {vs : List Bytes} (h : List.Forall₂ R xs vs) (hs : P s xs) :
    Passes p s vs.flatten (xs.foldl next s) ∧ P (xs.foldl next s) [] := by
  induction h generalizing s with
  | nil => exact ⟨Passes.refl p s, hs⟩
  | @cons x v xs vs hx _ ih =>
      have hnext := hstep s x xs v hs hx
      have hrest := ih hnext.2
      exact ⟨hnext.1.trans hrest.1, hrest.2⟩

/-- One round of a reader that loops as often as its state says. -/
theorem Passes.loop {q : Reader ε σ Unit} {n : Nat} {k : Unit → σ → Bytes → Outcome ε σ α}
    (hrun : ∀ b, p.run s b = ((Reader.repeat_ q (n + 1)).run s b).andThen k)
    (hrun₁ : ∀ b, p.run s₁ b = ((Reader.repeat_ q n).run s₁ b).andThen k)
    (hq : Takes q s v () s₁) (hidle : Idle q s v) : Passes p s v s₁ := by
  refine ⟨?_, ?_⟩
  · intro r
    rw [hrun, hrun₁, Reader.repeat_, run_bind, hq, Outcome.andThen_done]
  · -- The element is waited for, and nothing has happened until then.
    intro b c hc hv
    refine ⟨s, b, ?_, fun _ _ => rfl⟩
    rw [hrun, Reader.repeat_, run_bind, hidle b c hc hv, Outcome.andThen_wait, Outcome.andThen_wait]

end Passes

/-! ### The byte strings of a list -/

section Lists

variable {ε α : Type}

/-- The byte strings of the elements. -/
theorem encodeAll_parts {enc : α → Except ε Bytes} {as : List α} {v : Bytes} (h : encodeAll enc as = .ok v) :
    ∃ vs : List Bytes, v = vs.flatten ∧ List.Forall₂ (fun a w => enc a = .ok w) as vs := by
  induction as generalizing v with
  | nil =>
      cases h
      exact ⟨[], rfl, List.Forall₂.nil⟩
  | cons a as ih =>
      rcases encodeAll_cons h with ⟨w, u, hw, hu, rfl⟩
      rcases ih hu with ⟨vs, rfl, hvs⟩
      exact ⟨w :: vs, rfl, List.Forall₂.cons hw hvs⟩

theorem flatMap_parts (enc : α → Bytes) (as : List α) :
    as.flatMap enc = (as.map enc).flatten ∧ List.Forall₂ (fun a w => enc a = w) as (as.map enc) := by
  refine ⟨List.flatMap_def, ?_⟩
  induction as with
  | nil => exact List.Forall₂.nil
  | cons a as ih => exact List.Forall₂.cons rfl ih

end Lists

end Wire
