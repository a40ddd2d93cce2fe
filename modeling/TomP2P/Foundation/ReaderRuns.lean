import TomP2P.Foundation.Reader

/-!
# Runs of Readers

What can be said of a run without saying what is read. A reader that is called again and again
must not be called in vain: `Alert` says that from a state it waits or reads a byte. Whether
that is so depends on what earlier runs have left, and there are three ways to speak of it.
`Keeps` is about a condition that survives every run. `Leaves` says more about runs that give a
value or wait, and `Settles` about runs that fail as well.

A reader that needs more bytes than there are is `Untouched` by them, and one that is given a
longer byte string `Walks` from place to place.

Not all of a state matters to a run. If what matters is all that is left by a map `g`, then the
runs of a reader are mirrored by those of another one on the states `g` gives (`Mirrors`).

## Main definitions

* `Consumes`, `Paces`, `Alert`: Reading a byte, or waiting for one.
* `Leaves`, `Settles`: What holds of the state after a run.
* `Untouched`: Reading nothing.
* `Walks`: Reading from one place to another.
* `Mirrors`: The same runs, seen through a map of the states.

## Theorems

* `Paces.bind`, `Paces.need`: What comes first decides.
* `Leaves.bind`, `Settles.bind`, `Walks.bind`: Runs one after the other.
* `Leaves.repeat_`, `Keeps.repeat_`, `Untouched.repeat_`: Loops.
* `Keeps.bindYields`, `Keeps.update`: Invariants that depend on what is read.
* `run_rewind`: What is read in vain is given back.
* `Mirrors.bind`, `Mirrors.zoom`, `Mirrors.repeat_`: Runs are mirrored part by part.
-/

namespace Wire

open Reader

section Rewind

variable {ε σ τ α : Type} {p : Reader ε σ α} {I : σ → Prop}

theorem run_rewind (p : Reader ε σ α) (s : σ) (b : Bytes) :
    (rewind p).run s b =
      match p.run s b with
      | .done a s' r => .done a s' r
      | .wait s' _ => .wait s' b
      | .fail e s' r => .fail e s' r := by
  unfold rewind
  cases h : p.run s b <;> simp [h]

theorem Keeps.rewind (hp : Keeps I p) : Keeps I (Reader.rewind p) := by
  intro s b hs
  have hkept := hp s b hs
  rw [run_rewind]
  cases hrun : p.run s b <;> rwa [hrun] at hkept

theorem Keeps.zoom {J : τ → Prop} {get : τ → σ} {set : σ → τ → τ} (hp : Keeps I p) (hget : ∀ t, J t → I (get t))
    (hset : ∀ s t, I s → J t → J (set s t)) : Keeps J (Reader.zoom get set p) := by
  intro t b ht
  have hkept := hp (get t) b (hget t ht)
  rw [run_zoom]
  cases hrun : p.run (get t) b with
  | done a s r | wait s r | fail e s r =>
      rw [hrun] at hkept
      exact hset s t hkept ht

theorem Keeps.repeat_ {p : Reader ε σ Unit} (h : Keeps I p) (n : Nat) : Keeps I (Reader.repeat_ p n) := by
  induction n with
  | zero => exact Keeps.pure ()
  | succ n ih => exact h.bind fun _ => ih

end Rewind

/-! ### Progress -/

section Progress

variable {ε σ τ α β : Type} {p : Reader ε σ α} {s : σ} {b : Bytes}

/-- The run reads at least one byte, however it ends. -/
def Consumes (p : Reader ε σ α) (s : σ) (b : Bytes) : Prop := (p.run s b).rest.length < b.length

theorem Consumes.bind (k : α → Reader ε σ β) (h : Consumes p s b) : Consumes (p >>= k) s b := by
  unfold Consumes at h ⊢
  rw [run_bind]
  cases hrun : p.run s b with
  | done a s' r =>
      rw [hrun] at h
      exact Nat.lt_of_le_of_lt ((k a).suffix s' r).length_le h
  | wait s' r | fail e s' r => rwa [hrun] at h

theorem Consumes.map (f : α → β) (h : Consumes p s b) : Consumes (f <$> p) s b :=
  h.bind fun a => Pure.pure (f a)

theorem Consumes.read (e : ε) {n : Nat} (hpos : 0 < n) (h : n ≤ b.length) :
    Consumes (Reader.read e n : Reader ε σ Bytes) s b := by
  rw [Consumes, run_read, if_neg (Nat.not_lt.mpr h), Outcome.rest, List.length_drop]
  omega

theorem Consumes.field (e : ε) {n : Nat} (w : Nat) (hpos : 0 < n) (h : n ≤ b.length) :
    Consumes (Reader.field e n w : Reader ε σ (BitVec w)) s b :=
  (Consumes.read e hpos h).bind _

theorem Consumes.zoom {get : τ → σ} {set : σ → τ → τ} {t : τ} (h : Consumes p (get t) b) :
    Consumes (Reader.zoom get set p) t b := by
  unfold Consumes at h ⊢
  rw [run_zoom]
  cases hrun : p.run (get t) b with
  | done a s' r | wait s' r | fail e s' r => rwa [hrun] at h

/-- Where the reader lacks bytes it waits and reads nothing, and elsewhere it reads a byte. -/
structure Paces (lacks : Bytes → Prop) (p : Reader ε σ α) (s : σ) : Prop where
  idle : ∀ b, lacks b → ∃ t, p.run s b = .wait t b
  moves : ∀ b, ¬ lacks b → Consumes p s b

variable {lacks : Bytes → Prop}

-- What comes first decides: the rest is only run on what the first part leaves.
theorem Paces.bind (k : α → Reader ε σ β) (h : Paces lacks p s) : Paces lacks (p >>= k) s where
  idle b hlacks := by
    rcases h.idle b hlacks with ⟨t, hrun⟩
    exact ⟨t, by rw [run_bind, hrun, Outcome.andThen_wait]⟩
  moves b hlacks := (h.moves b hlacks).bind k

theorem Paces.map (f : α → β) (h : Paces lacks p s) : Paces lacks (f <$> p) s :=
  h.bind fun a => Pure.pure (f a)

/-- A reader that passes a state on to what follows and reads nothing. -/
theorem Paces.skip {k : α → Reader ε σ β} {a : α} {t : σ} (hskip : ∀ b, p.run s b = .done a t b)
    (h : Paces lacks (k a) t) : Paces lacks (p >>= k) s where
  idle b hlacks := by
    rcases h.idle b hlacks with ⟨t', hrun⟩
    exact ⟨t', by rw [run_bind, hskip, Outcome.andThen_done, hrun]⟩
  moves b hlacks := by
    have hmoves := h.moves b hlacks
    unfold Consumes at hmoves ⊢
    rwa [run_bind, hskip, Outcome.andThen_done]

/-- Once the bytes are there that are asked for, some of them are read. -/
theorem Paces.need {n : Nat} {k : Unit → Reader ε σ β} (h : ∀ b, n ≤ b.length → Consumes (k ()) s b) :
    Paces (fun b => b.length < n) (Reader.need n >>= k) s where
  idle b hlacks := ⟨s, by rw [run_bind, run_need_of_lt n s b hlacks, Outcome.andThen_wait]⟩
  moves b hlacks := by
    have hmoves := h b (Nat.not_lt.mp hlacks)
    unfold Consumes at hmoves ⊢
    rwa [run_bind, run_need_of_le n s b (Nat.not_lt.mp hlacks), Outcome.andThen_done]

/-- More is asked for by a number that stands ahead. -/
theorem Paces.needAhead {i n w m : Nat} {g : BitVec w → Nat} {k : BitVec w → Reader ε σ β} (hm : i + n = m)
    (h : ∀ b x, g x ≤ b.length → m ≤ b.length → Consumes (k x) s b) :
    Paces (fun b => b.length < m ∨ b.length < g (BitVec.ofNat w (ofBE ((b.drop i).take n))))
      (Reader.need m >>= fun _ => Reader.lookField i n w >>= fun x => Reader.need (g x) >>= fun _ => k x) s := by
  have hlook (b : Bytes) (hb : m ≤ b.length) : (Reader.lookField i n w : Reader ε σ (BitVec w)).run s b =
      .done (BitVec.ofNat w (ofBE ((b.drop i).take n))) s b := by
    rw [Reader.lookField, run_bind, run_look, if_neg (by omega), Outcome.andThen_done, run_pure]
  constructor
  · intro b hlacks
    by_cases hb : b.length < m
    · exact ⟨s, by rw [run_bind, run_need_of_lt m s b hb, Outcome.andThen_wait]⟩
    · have hsize := hlacks.resolve_left hb
      rw [run_bind, run_need_of_le m s b (Nat.not_lt.mp hb), Outcome.andThen_done, run_bind,
        hlook b (Nat.not_lt.mp hb), Outcome.andThen_done, run_bind, run_need_of_lt _ s b hsize]
      exact ⟨s, rfl⟩
  · intro b hlacks
    rcases not_or.mp hlacks with ⟨hb, hsize⟩
    have hmoves := h b _ (Nat.not_lt.mp hsize) (Nat.not_lt.mp hb)
    unfold Consumes at hmoves ⊢
    rwa [run_bind, run_need_of_le m s b (Nat.not_lt.mp hb), Outcome.andThen_done, run_bind,
      hlook b (Nat.not_lt.mp hb), Outcome.andThen_done, run_bind, run_need_of_le _ s b (Nat.not_lt.mp hsize)]

theorem Paces.zoom {get : τ → σ} {set : σ → τ → τ} {t : τ} (h : Paces lacks p (get t)) :
    Paces lacks (Reader.zoom get set p) t where
  idle b hlacks := by
    rcases h.idle b hlacks with ⟨s', hrun⟩
    exact ⟨set s' t, by rw [run_zoom, hrun]; rfl⟩
  moves b hlacks := (h.moves b hlacks).zoom

/-- The reader waits and reads nothing, or it reads a byte. -/
def Alert (p : Reader ε σ α) (s : σ) : Prop := ∃ lacks, Paces lacks p s

theorem Paces.alert (h : Paces lacks p s) : Alert p s := ⟨lacks, h⟩

theorem alert_iff : Alert p s ↔ ∀ b, (∃ t, p.run s b = .wait t b) ∨ Consumes p s b := by
  constructor
  · intro ⟨lacks, h⟩ b
    by_cases hb : lacks b
    · exact .inl (h.idle b hb)
    · exact .inr (h.moves b hb)
  · intro h
    refine ⟨fun b => ¬ Consumes p s b, fun b hb => (h b).resolve_right hb, fun b hb => not_not.mp hb⟩

theorem Alert.wait : Alert (Reader.wait : Reader ε σ α) s := alert_iff.mpr fun _ => .inl ⟨s, rfl⟩

theorem Alert.bind (k : α → Reader ε σ β) : Alert p s → Alert (p >>= k) s
  | ⟨_, h⟩ => (h.bind k).alert

theorem Alert.map (f : α → β) : Alert p s → Alert (f <$> p) s
  | ⟨_, h⟩ => (h.map f).alert

theorem Alert.skip {k : α → Reader ε σ β} {a : α} {t : σ} (hskip : ∀ b, p.run s b = .done a t b) :
    Alert (k a) t → Alert (p >>= k) s
  | ⟨_, h⟩ => (Paces.skip hskip h).alert

theorem Alert.zoom {get : τ → σ} {set : σ → τ → τ} {t : τ} :
    Alert p (get t) → Alert (Reader.zoom get set p) t
  | ⟨_, h⟩ => h.zoom.alert

theorem Alert.repeat_ {p : Reader ε σ Unit} {n : Nat} (hn : 0 < n) (h : Alert p s) :
    Alert (Reader.repeat_ p n) s := by
  cases n with
  | zero => exact absurd hn (Nat.lt_irrefl 0)
  | succ n => exact h.bind _

/-- Bytes are asked for by their number, and are then there to be read. -/
theorem Alert.need {n : Nat} {k : Unit → Reader ε σ β} (h : ∀ b, n ≤ b.length → Consumes (k ()) s b) :
    Alert (Reader.need n >>= k) s :=
  (Paces.need h).alert

end Progress

/-! ### What a run leaves -/

section Leaves

variable {ε σ τ α β : Type} {p : Reader ε σ α} {s : σ} {D : α → σ → Prop} {W : σ → Prop}

/-- What the state meets that a run leaves: `D` with the value it gives, `W` if it waits. -/
structure Leaves (p : Reader ε σ α) (s : σ) (D : α → σ → Prop) (W : σ → Prop) : Prop where
  done : ∀ {b a s' r}, p.run s b = .done a s' r → D a s'
  wait : ∀ {b t r}, p.run s b = .wait t r → W t

theorem Leaves.mono {E : α → σ → Prop} {V : σ → Prop} (h : Leaves p s D W) (hD : ∀ a s', D a s' → E a s')
    (hW : ∀ t, W t → V t) : Leaves p s E V :=
  ⟨fun hrun => hD _ _ (h.done hrun), fun hrun => hW _ (h.wait hrun)⟩

theorem Leaves.pure {a : α} (h : D a s) : Leaves (Pure.pure a : Reader ε σ α) s D W := by
  constructor
  · intro b a' s' r hrun
    cases hrun
    exact h
  · intro b t r hrun
    cases hrun

theorem Leaves.bind {k : α → Reader ε σ β} {E : β → σ → Prop} (hp : Leaves p s D W)
    (hk : ∀ a s', D a s' → Leaves (k a) s' E W) : Leaves (p >>= k) s E W := by
  constructor
  · intro b c s' r hrun
    rcases run_bind_done hrun with ⟨a, s₁, r₁, hfirst, hrest⟩
    exact (hk a s₁ (hp.done hfirst)).done hrest
  · intro b t r hrun
    rw [run_bind] at hrun
    cases hfirst : p.run s b with
    | done a s₁ r₁ =>
        rw [hfirst] at hrun
        exact (hk a s₁ (hp.done hfirst)).wait hrun
    | wait s₁ r₁ =>
        rw [hfirst] at hrun
        cases hrun
        exact hp.wait hfirst
    | fail e s₁ r₁ =>
        rw [hfirst] at hrun
        cases hrun

theorem Leaves.map {g : α → β} {E : β → σ → Prop} (h : Leaves p s (fun a s' => E (g a) s') W) :
    Leaves (g <$> p) s E W :=
  h.bind fun _ _ ha => Leaves.pure ha

theorem Leaves.state {D : σ → σ → Prop} (h : D s s) : Leaves (Reader.state : Reader ε σ σ) s D W := by
  constructor
  · intro b a s' r hrun
    cases hrun
    exact h
  · intro b t r hrun
    cases hrun

theorem Leaves.modify {g : σ → σ} {D : Unit → σ → Prop} (h : D () (g s)) :
    Leaves (Reader.modify g : Reader ε σ Unit) s D W := by
  constructor
  · intro b a s' r hrun
    cases hrun
    exact h
  · intro b t r hrun
    cases hrun

theorem Leaves.throw (e : ε) : Leaves (Reader.throw e : Reader ε σ α) s D W := by
  constructor
  · intro b a s' r hrun
    cases hrun
  · intro b t r hrun
    cases hrun

theorem Leaves.lift {x : Except ε α} (h : ∀ a, x = .ok a → D a s) : Leaves (Reader.lift x : Reader ε σ α) s D W := by
  cases x with
  | ok a => exact Leaves.pure (h a rfl)
  | error e => exact Leaves.throw e

/-- A reader that has no state of its own. -/
theorem Leaves.ofKeeps (h : ∀ I : σ → Prop, Keeps I p) : Leaves p s (fun _ s' => s' = s) (fun t => t = s) := by
  constructor
  · intro b a s' r hrun
    have hstate := h (fun t => t = s) s b rfl
    rwa [hrun] at hstate
  · intro b t r hrun
    have hstate := h (fun t => t = s) s b rfl
    rwa [hrun] at hstate

theorem Leaves.zoom (get : τ → σ) (set : σ → τ → τ) {t : τ} (h : Leaves p (get t) D W) :
    Leaves (Reader.zoom get set p) t (fun a t' => ∃ s', D a s' ∧ t' = set s' t)
      (fun t' => ∃ s', W s' ∧ t' = set s' t) := by
  constructor
  · intro b a t' r hrun
    rw [run_zoom] at hrun
    cases hfirst : p.run (get t) b with
    | done a s₁ r₁ =>
        rw [hfirst] at hrun
        cases hrun
        exact ⟨s₁, h.done hfirst, rfl⟩
    | wait s₁ r₁ | fail e s₁ r₁ =>
        rw [hfirst] at hrun
        cases hrun
  · intro b t' r hrun
    rw [run_zoom] at hrun
    cases hfirst : p.run (get t) b with
    | done a s₁ r₁ | fail e s₁ r₁ =>
        rw [hfirst] at hrun
        cases hrun
    | wait s₁ r₁ =>
        rw [hfirst] at hrun
        cases hrun
        exact ⟨s₁, h.wait hfirst, rfl⟩

/-- Reading does not wait. -/
theorem Leaves.read (e : ε) (n : Nat) : Leaves (Reader.read e n : Reader ε σ Bytes) s (fun _ s' => s' = s) W := by
  constructor
  · intro b a s' r hrun
    rw [run_read] at hrun
    split at hrun
    · cases hrun
    · cases hrun
      rfl
  · intro b t r hrun
    rw [run_read] at hrun
    split at hrun <;> cases hrun

/-- A loop, with an invariant that knows how many rounds are to come. -/
theorem Leaves.repeat_ {p : Reader ε σ Unit} {I : Nat → σ → Prop} {n : Nat}
    (hp : ∀ n s, I (n + 1) s → Leaves p s (fun _ s' => I n s') W) (h : I n s) :
    Leaves (Reader.repeat_ p n) s (fun _ s' => I 0 s') W := by
  induction n generalizing s with
  | zero => exact Leaves.pure h
  | succ n ih => exact (hp n s h).bind fun _ s' hs' => ih hs'

end Leaves

/-! ### However a run ends -/

section Settles

variable {ε σ τ α β : Type} {p : Reader ε σ α} {s : σ} {D : α → σ → Prop} {I : σ → Prop}

/-- What the state meets that a run leaves: `D` with the value it gives, and `I` otherwise. -/
def Settles (p : Reader ε σ α) (s : σ) (D : α → σ → Prop) (I : σ → Prop) : Prop :=
  ∀ b, match p.run s b with
    | .done a s' _ => D a s'
    | .wait t _ => I t
    | .fail _ t _ => I t

theorem Settles.bind {q : α → Reader ε σ β} {E : β → σ → Prop} (hp : Settles p s D I)
    (hq : ∀ a s', D a s' → Settles (q a) s' E I) : Settles (p >>= q) s E I := by
  intro b
  have hfirst := hp b
  rw [run_bind]
  cases hrun : p.run s b with
  | done a s' r =>
      rw [hrun] at hfirst
      exact hq a s' hfirst r
  | wait t r | fail e t r =>
      rw [hrun] at hfirst
      exact hfirst

theorem Settles.pure {a : α} (h : D a s) : Settles (Pure.pure a : Reader ε σ α) s D I := fun _ => h

theorem Settles.state {D : σ → σ → Prop} (h : D s s) : Settles (Reader.state : Reader ε σ σ) s D I := fun _ => h

theorem Settles.modify {g : σ → σ} {D : Unit → σ → Prop} (h : D () (g s)) :
    Settles (Reader.modify g : Reader ε σ Unit) s D I := fun _ => h

theorem Settles.lift {x : Except ε α} (hs : I s) (h : ∀ a, x = .ok a → D a s) :
    Settles (Reader.lift x : Reader ε σ α) s D I := by
  cases x with
  | ok a => exact Settles.pure (h a rfl)
  | error e => exact fun _ => hs

theorem Settles.ofKeeps (h : Keeps I p) (hs : I s) : Settles p s (fun _ s' => I s') I := by
  intro b
  have hkept := h s b hs
  cases hrun : p.run s b with
  | done a s' r | wait t r | fail e t r =>
      rw [hrun] at hkept
      exact hkept

theorem Settles.mono {D' : α → σ → Prop} {I' : σ → Prop} (h : Settles p s D I) (hD : ∀ a s', D a s' → D' a s')
    (hI : ∀ t, I t → I' t) : Settles p s D' I' := by
  intro b
  have hsettled := h b
  cases hrun : p.run s b with
  | done a s' r =>
      rw [hrun] at hsettled
      exact hD a s' hsettled
  | wait t r | fail e t r =>
      rw [hrun] at hsettled
      exact hI t hsettled

theorem Settles.keeps (h : ∀ s, I s → Settles p s (fun _ s' => I s') I) : Keeps I p := by
  intro s b hs
  have hsettled := h s hs b
  cases hrun : p.run s b with
  | done a s' r | wait t r | fail e t r =>
      rw [hrun] at hsettled
      exact hsettled

theorem Settles.leaves (h : Settles p s D I) : Leaves p s D I := by
  constructor
  · intro b a s' r hrun
    have hsettled := h b
    rw [hrun] at hsettled
    exact hsettled
  · intro b t r hrun
    have hsettled := h b
    rw [hrun] at hsettled
    exact hsettled

theorem Settles.field (e : ε) (n w : Nat) (hs : I s) : Settles (Reader.field e n w : Reader ε σ (BitVec w)) s
    (fun a s' => s' = s ∧ ∃ v : Bytes, v.length = n ∧ a = BitVec.ofNat w (ofBE v)) I := by
  intro b
  rw [Reader.field, run_bind, run_read]
  by_cases h : b.length < n
  · rw [if_pos h]
    exact hs
  · rw [if_neg h, Outcome.andThen_done, run_pure]
    exact ⟨rfl, b.take n, List.length_take_of_le (Nat.not_lt.mp h), rfl⟩

end Settles

/-! ### Reading nothing -/

section Untouched

variable {ε σ τ α β : Type} {p : Reader ε σ α} {s : σ} {b : Bytes}

/-- Nothing of these bytes is read. -/
def Untouched (b : Bytes) (p : Reader ε σ α) (s : σ) : Prop := (p.run s b).rest = b

theorem Untouched.bind {q : α → Reader ε σ β} (hp : Untouched b p s) (hq : ∀ a s', Untouched b (q a) s') :
    Untouched b (p >>= q) s := by
  unfold Untouched at hp ⊢
  rw [run_bind]
  cases hrun : p.run s b with
  | done a s' r =>
      rw [hrun] at hp
      rw [show r = b from hp]
      exact hq a s'
  | wait t r | fail e t r =>
      rw [hrun] at hp
      exact hp

theorem Untouched.pure (a : α) : Untouched b (Pure.pure a : Reader ε σ α) s := rfl

theorem Untouched.modify (g : σ → σ) : Untouched b (Reader.modify g : Reader ε σ Unit) s := rfl

theorem Untouched.state : Untouched b (Reader.state : Reader ε σ σ) s := rfl

theorem Untouched.lift (x : Except ε α) : Untouched b (Reader.lift x : Reader ε σ α) s := by
  cases x <;> rfl

theorem Untouched.need {n : Nat} (k : Unit → Reader ε σ β) (h : b.length < n) :
    Untouched b (Reader.need n >>= k) s := by
  unfold Untouched
  rw [run_bind, run_need_of_lt n s b h]
  rfl

theorem Untouched.map (g : α → β) (h : Untouched b p s) : Untouched b (g <$> p) s :=
  h.bind fun _ _ => Untouched.pure _

theorem Untouched.zoom {get : τ → σ} {set : σ → τ → τ} {t : τ} (h : Untouched b p (get t)) :
    Untouched b (Reader.zoom get set p) t := by
  unfold Untouched at h ⊢
  rw [run_zoom]
  cases hrun : p.run (get t) b <;> rw [hrun] at h <;> exact h

theorem Untouched.repeat_ {p : Reader ε σ Unit} (h : ∀ s, Untouched b p s) (n : Nat) (s : σ) :
    Untouched b (Reader.repeat_ p n) s := by
  induction n generalizing s with
  | zero => exact Untouched.pure ()
  | succ n ih => exact (h s).bind fun _ s' => ih s'

end Untouched

/-! ### Reading at a place -/

section Walks

variable {ε σ α β : Type} {p : Reader ε σ α} {b : Bytes} {s : σ} {i j k : Nat} {D : α → σ → Prop}

/-- From one place of a byte string a reader comes to another, and `D` holds of the value and
    of the state that is left. -/
def Walks (p : Reader ε σ α) (b : Bytes) (i j : Nat) (s : σ) (D : α → σ → Prop) : Prop :=
  ∃ a s', p.run s (b.drop i) = .done a s' (b.drop j) ∧ D a s'

theorem Walks.bind {q : α → Reader ε σ β} {E : β → σ → Prop} (hp : Walks p b i j s D)
    (hq : ∀ a s', D a s' → Walks (q a) b j k s' E) : Walks (p >>= q) b i k s E := by
  rcases hp with ⟨a, s', hrun, ha⟩
  rcases hq a s' ha with ⟨c, t, hrest, hc⟩
  exact ⟨c, t, by rw [run_bind, hrun, Outcome.andThen_done, hrest], hc⟩

theorem Walks.pure {a : α} (h : D a s) : Walks (Pure.pure a : Reader ε σ α) b i i s D := ⟨a, s, rfl, h⟩

theorem Walks.modify {g : σ → σ} {D : Unit → σ → Prop} (h : D () (g s)) :
    Walks (Reader.modify g : Reader ε σ Unit) b i i s D :=
  ⟨(), g s, rfl, h⟩

theorem Walks.lift {x : Except ε α} {a : α} (hx : x = .ok a) (h : D a s) :
    Walks (Reader.lift x : Reader ε σ α) b i i s D :=
  ⟨a, s, by rw [hx, run_lift_ok], h⟩

theorem Walks.field {n w : Nat} {D : BitVec w → σ → Prop} (e : ε) (hlen : i + n ≤ b.length)
    (h : D (BitVec.ofNat w (ofBE ((b.drop i).take n))) s) :
    Walks (Reader.field e n w : Reader ε σ (BitVec w)) b i (i + n) s D := by
  refine ⟨_, s, ?_, h⟩
  rw [Reader.field, run_bind, run_read, if_neg (by rw [List.length_drop]; omega), Outcome.andThen_done, run_pure,
    List.drop_drop]

end Walks

/-! ### What is read -/

theorem Outcome.andThen_eq_done {ε σ α β : Type} {x : Outcome ε σ α} {k : α → σ → Bytes → Outcome ε σ β} {b : β} {s : σ} {r : Bytes}
    (h : x.andThen k = .done b s r) : ∃ a s' r', x = .done a s' r' ∧ k a s' r' = .done b s r := by
  cases x with
  | done a s' r' => exact ⟨a, s', r', rfl, h⟩
  | wait s' r' => cases h
  | fail e s' r' => cases h

section Yields

variable {ε σ α β : Type} {I : σ → Prop} {Q : α → Prop} {R : β → Prop} {p : Reader ε σ α}

/-- What is read meets `Q`. -/
def Yields (Q : α → Prop) (p : Reader ε σ α) : Prop := ∀ s b a s' r, p.run s b = .done a s' r → Q a

theorem Yields.pure {a : α} (h : Q a) : Yields Q (Pure.pure a : Reader ε σ α) := by
  rintro s b a' s' r ⟨⟩
  exact h

theorem Yields.wait : Yields Q (Reader.wait : Reader ε σ α) := by
  rintro s b a s' r ⟨⟩

theorem Yields.bind {k : α → Reader ε σ β} (hk : ∀ a, Yields R (k a)) : Yields R (p >>= k) := by
  intro s b a s' r h
  rw [run_bind] at h
  rcases Outcome.andThen_eq_done h with ⟨x, t, u, _, h⟩
  exact hk x t u a s' r h

theorem Yields.map {g : α → β} (h : ∀ a, R (g a)) : Yields R (g <$> p) := by
  intro s b a s' r hrun
  rw [run_map] at hrun
  rcases Outcome.andThen_eq_done hrun with ⟨x, t, u, _, hrun⟩
  cases hrun
  exact h x

theorem Yields.ite {c : Prop} [Decidable c] {q : Reader ε σ α} (hp : Yields Q p) (hq : Yields Q q) : Yields Q (if c then p else q) := by
  split
  · exact hp
  · exact hq

/-- What follows only has to keep the invariant for what is read. -/
theorem Keeps.bindYields {k : α → Reader ε σ β} (hp : Keeps I p) (hq : Yields Q p) (hk : ∀ a, Q a → Keeps I (k a)) :
    Keeps I (p >>= k) := by
  intro s b hs
  have hfirst := hp s b hs
  rw [run_bind]
  cases hrun : p.run s b with
  | done a t r =>
      rw [hrun] at hfirst
      exact hk a (hq s b a t r hrun) t r hfirst
  | wait t r | fail e t r =>
      rw [hrun] at hfirst
      exact hfirst

/-- The state is changed by what is computed from it. -/
theorem Keeps.update {g : σ → Except ε α} {u : α → σ → σ} {q : Reader ε σ β} (hu : ∀ s a, I s → g s = .ok a → I (u a s))
    (hq : Keeps I q) :
    Keeps I (Reader.state >>= fun s => Reader.lift (g s) >>= fun a => Reader.modify (u a) >>= fun _ => q) := by
  intro s b hs
  rw [run_bind, run_state, Outcome.andThen_done, run_bind]
  cases hg : g s with
  | error e => exact hs
  | ok a =>
      rw [run_lift_ok, Outcome.andThen_done, run_bind, run_modify, Outcome.andThen_done]
      exact hq _ b (hu s a hs hg)

end Yields
/-! ### Views of the state -/

section Mirrors

variable {ε σ τ σ' τ' α α' β β' : Type} {g : σ → τ} {h : α → β} {i : α' → β'} {p : Reader ε σ α} {q : Reader ε τ β}

/-- An outcome whose state is seen through `g` and whose value through `h`. -/
def Outcome.view (g : σ → τ) (h : α → β) : Outcome ε σ α → Outcome ε τ β
  | .done a s r => .done (h a) (g s) r
  | .wait s r => .wait (g s) r
  | .fail e s r => .fail e (g s) r

theorem Outcome.view_eq_done {x : Outcome ε σ α} {b : β} {t : τ} {r : Bytes} (hx : x.view g h = .done b t r) :
    ∃ a s, x = .done a s r ∧ g s = t := by
  cases x with
  | done a s r =>
      cases hx
      exact ⟨a, s, rfl, rfl⟩
  | wait s r => cases hx
  | fail e s r => cases hx

theorem Outcome.view_eq_wait {x : Outcome ε σ α} {t : τ} {r : Bytes} (hx : x.view g h = .wait t r) :
    ∃ s, x = .wait s r ∧ g s = t := by
  cases x with
  | done a s r => cases hx
  | wait s r =>
      cases hx
      exact ⟨s, rfl, rfl⟩
  | fail e s r => cases hx

/-- The runs of `q` are those of `p`, with the state seen through `g` and the value through `h`. -/
def Mirrors (g : σ → τ) (h : α → β) (p : Reader ε σ α) (q : Reader ε τ β) : Prop :=
  ∀ s b, q.run (g s) b = (p.run s b).view g h

theorem Mirrors.refl (p : Reader ε σ α) : Mirrors id id p p := by
  intro s b
  change p.run s b = _
  cases p.run s b <;> rfl

theorem Mirrors.pure (a : α) : Mirrors g h (Pure.pure a : Reader ε σ α) (Pure.pure (h a)) := fun _ _ => rfl

theorem Mirrors.bind {k : α → Reader ε σ α'} {l : β → Reader ε τ β'} (hp : Mirrors g h p q) (hk : ∀ a, Mirrors g i (k a) (l (h a))) :
    Mirrors g i (p >>= k) (q >>= l) := by
  intro s b
  rw [run_bind, run_bind, hp]
  cases p.run s b with
  | done a s' r => exact hk a s' r
  | wait s' r => rfl
  | fail e s' r => rfl

theorem Mirrors.map {u : α → α'} {v : β → β'} (hp : Mirrors g h p q) (huv : ∀ a, v (h a) = i (u a)) :
    Mirrors g i (u <$> p) (v <$> q) := by
  intro s b
  rw [run_map, run_map, hp]
  cases p.run s b with
  | done a s' r => exact congrArg (fun x => Outcome.done x (g s') r) (huv a)
  | wait s' r => rfl
  | fail e s' r => rfl

theorem Mirrors.state : Mirrors g g (Reader.state : Reader ε σ σ) Reader.state := fun _ _ => rfl

theorem Mirrors.buffer : Mirrors g id (Reader.buffer : Reader ε σ Bytes) Reader.buffer := fun _ _ => rfl

theorem Mirrors.modify {u : σ → σ} {v : τ → τ} (h : ∀ s, v (g s) = g (u s)) :
    Mirrors g id (Reader.modify u : Reader ε σ Unit) (Reader.modify v) :=
  fun s b => congrArg (fun t => Outcome.done () t b) (h s)

theorem Mirrors.throw (e : ε) : Mirrors g h (Reader.throw e : Reader ε σ α) (Reader.throw e) := fun _ _ => rfl

theorem Mirrors.wait : Mirrors g h (Reader.wait : Reader ε σ α) Reader.wait := fun _ _ => rfl

theorem Mirrors.lift {x : Except ε α} {y : Except ε β} (hxy : y = x.map h) :
    Mirrors g h (Reader.lift x : Reader ε σ α) (Reader.lift y) := by
  subst hxy
  cases x with
  | ok a => exact Mirrors.pure a
  | error e => exact Mirrors.throw e

theorem Mirrors.need (n : Nat) : Mirrors g id (Reader.need n : Reader ε σ Unit) (Reader.need n) := by
  intro s b
  rw [run_need, run_need]
  split <;> rfl

theorem Mirrors.look (i n : Nat) : Mirrors g id (Reader.look i n : Reader ε σ Bytes) (Reader.look i n) := by
  intro s b
  rw [run_look, run_look]
  split <;> rfl

theorem Mirrors.read (e : ε) (n : Nat) : Mirrors g id (Reader.read e n : Reader ε σ Bytes) (Reader.read e n) := by
  intro s b
  rw [run_read, run_read]
  split <;> rfl

theorem Mirrors.field (e : ε) (n w : Nat) : Mirrors g id (Reader.field e n w : Reader ε σ (BitVec w)) (Reader.field e n w) :=
  (Mirrors.read e n).bind fun v => Mirrors.pure (BitVec.ofNat w (ofBE v))

theorem Mirrors.lookField (i n w : Nat) :
    Mirrors g id (Reader.lookField i n w : Reader ε σ (BitVec w)) (Reader.lookField i n w) :=
  (Mirrors.look i n).bind fun v => Mirrors.pure (BitVec.ofNat w (ofBE v))

theorem Mirrors.ite {p' : Reader ε σ α} {q' : Reader ε τ β} {c : Prop} [Decidable c] (h₁ : Mirrors g h p q)
    (h₂ : Mirrors g h p' q') : Mirrors g h (if c then p else p') (if c then q else q') := by
  split
  · exact h₁
  · exact h₂

theorem Mirrors.repeat_ {p : Reader ε σ Unit} {q : Reader ε τ Unit} (hp : Mirrors g id p q) (n : Nat) :
    Mirrors g id (Reader.repeat_ p n) (Reader.repeat_ q n) := by
  induction n with
  | zero => exact Mirrors.pure ()
  | succ n ih => exact hp.bind fun _ => ih

/-- The view of a state gives that of its part. -/
theorem Mirrors.zoom {f : σ' → τ'} {get : σ' → σ} {set : σ → σ' → σ'} {get' : τ' → τ} {set' : τ → τ' → τ'}
    (hp : Mirrors g h p q) (hget : ∀ t, get' (f t) = g (get t)) (hset : ∀ s t, set' (g s) (f t) = f (set s t)) :
    Mirrors f h (Reader.zoom get set p) (Reader.zoom get' set' q) := by
  intro t b
  rw [run_zoom, run_zoom, hget, hp]
  cases p.run (get t) b with
  | done a s r => exact congrArg (fun x => Outcome.done (h a) x r) (hset s t)
  | wait s r => exact congrArg (fun x => Outcome.wait x r) (hset s t)
  | fail e s r => exact congrArg (fun x => Outcome.fail e x r) (hset s t)

end Mirrors

end Wire
