import TomP2P.Core.ForkArray
import TomP2P.Foundation.ListUpdate
import TomP2P.Foundation.Runs
import TomP2P.Theory.ForkJoin
import Mathlib.Data.List.Nodup

/-!
# When a Fork Join Completes

What a fork join says of its forks, in whatever order these complete.

Until it completes, the fork join has counted the forks that were evaluated and the nulls
that the loop has gone past. Evaluated forks are those whose slot was emptied, so that all
counts can be read off the array (`Sound`). From this follows when it completes and how,
and which forks it has evaluated.

The future that is done when all forks are counts down once for each slot. The loop
returns when it finds that the fork join has completed, and does not count the slots
that it has not come to. `Unhurried` says that this does not happen.

## Main definitions

* `ForkArray.Joined`: What is promised of a fork join.
* `ForkArray.Unhurried`: The loop comes to all slots.
* `ForkArray.Sound`: The invariant.

## Theorems

* `ForkArray.Sound.change`: Steps that do not concern the counts.
* `ForkArray.Sound.evaluate`, `ForkArray.Sound.miss`, `ForkArray.Sound.countDown`:
  The other steps.
* `ForkArray.Sound.joined`: The promise follows from the invariant.
* `ForkArray.joined_of_unhurried`: The promise is kept if the loop comes to all slots.
-/

namespace TomP2P

open List

/-! ### Forks -/

namespace Fork

/-- The fork was evaluated before the fork join has completed. -/
def evaluated (f : Fork) : Bool := f.future.isSome && !f.slot

/-- The loop has gone past a null. -/
def missed (f : Fork) : Bool := f.future.isNone && f.listener ≠ .absent

/-- `evaluate` was called. -/
def past (f : Fork) : Bool :=
  match f.listener with
  | .cancel _ | .count | .finished => true
  | .absent | .waiting | .evaluate => false

/-- How the parts of a fork depend on each other, and on whether the fork join is open. -/
def Valid (isOpen : Bool) (f : Fork) : Prop :=
  match f.future with
  | none => f.slot = false ∧ (f.listener = .absent ∨ f.listener = .count ∨ f.listener = .finished)
  | some none => f.slot = true ∧ (f.listener = .absent ∨ f.listener = .waiting)
  | some (some _) => f.listener ≠ .waiting ∧ (f.slot = false → f.past = true) ∧
      (isOpen = true → f.past = true → f.slot = false)

/-- The same fork as far as the fork join has counted it. -/
structure Alike (f f' : Fork) : Prop where
  slot : f'.slot = f.slot
  null : f'.future.isSome = f.future.isSome
  success : f.evaluated = true → f'.isSuccess = f.isSuccess
  missed : f'.missed = f.missed
  past : f'.past = f.past

variable {f f' : Fork}

theorem Alike.refl (f : Fork) : f.Alike f := ⟨rfl, rfl, fun _ => rfl, rfl, rfl⟩

theorem Alike.evaluated (h : f.Alike f') : f'.evaluated = f.evaluated := by
  rw [Fork.evaluated, Fork.evaluated, h.null, h.slot]

theorem Alike.succeeded (h : f.Alike f') : (f'.evaluated && f'.isSuccess) = (f.evaluated && f.isSuccess) := by
  rw [h.evaluated]
  cases hev : f.evaluated with
  | false => rfl
  | true => rw [h.success hev]

/-- A fork of an open fork join is one of a closed one. -/
theorem Valid.closed {isOpen : Bool} (h : f.Valid isOpen) : f.Valid false := by
  unfold Valid at h ⊢
  split
  · simp_all
  · simp_all
  · simp_all

/-- A fork completes, and its listener is called if there is one. -/
theorem Valid.complete {isOpen : Bool} (h : f.Valid isOpen) (success : Bool) :
    (f.complete success).Valid isOpen ∧ f.Alike (f.complete success) := by
  obtain ⟨future, slot, listener⟩ := f
  unfold Fork.complete
  split
  · next hpending =>
      dsimp only at hpending
      subst hpending
      obtain ⟨hslot, hlistener⟩ := h
      dsimp only at hslot hlistener
      subst hslot
      rcases hlistener with rfl | rfl
      · exact ⟨⟨by simp, by simp, by simp [past]⟩, ⟨rfl, rfl, by simp [Fork.evaluated], rfl, rfl⟩⟩
      · exact ⟨⟨by simp, by simp, by simp [past]⟩, ⟨rfl, rfl, by simp [Fork.evaluated], rfl, rfl⟩⟩
  · exact ⟨h, .refl _⟩

/-- Completing adds no listener and ends none. -/
theorem complete_listener (f : Fork) (success : Bool) :
    ((f.complete success).listener = .absent ↔ f.listener = .absent) ∧
      ((f.complete success).listener = .finished ↔ f.listener = .finished) := by
  unfold Fork.complete
  split
  · dsimp only
    split
    · next hwaiting => simp [hwaiting]
    · exact ⟨.rfl, .rfl⟩
  · exact ⟨.rfl, .rfl⟩

theorem complete_done (h : f.isDone = true) (success : Bool) : f.complete success = f := by
  unfold Fork.complete
  split
  · next hpending => simp [Fork.isDone, hpending] at h
  · rfl

theorem complete_null (h : f.future = none) (success : Bool) : f.complete success = f := by
  unfold Fork.complete
  rw [h]

/-- A fork that is not pending has completed. -/
theorem Valid.isDone_of_past {isOpen : Bool} (h : f.Valid isOpen) (hpast : f.past = true) : f.isDone = true := by
  unfold Fork.isDone
  rw [decide_eq_true_eq]
  intro hpending
  unfold Valid at h
  rw [hpending] at h
  rcases h.2 with hl | hl <;> simp [past, hl] at hpast

/-- Only a fork whose `evaluate` was called loses its slot. -/
theorem Valid.past_of_evaluated {isOpen : Bool} (h : f.Valid isOpen) (hev : f.evaluated = true) : f.past = true := by
  unfold Valid at h
  unfold Fork.evaluated at hev
  split at h
  · next hf => simp [hf] at hev
  · simp [h.1] at hev
  · exact h.2.1 (by simpa using (Bool.and_eq_true_iff.mp hev).2)

/-- While the fork join is open, every fork whose `evaluate` was called has lost its slot. -/
theorem Valid.evaluated_of_past (h : f.Valid true) (hsome : f.future.isSome = true) (hpast : f.past = true) :
    f.evaluated = true := by
  have hdone := h.isDone_of_past hpast
  unfold Valid at h
  unfold Fork.evaluated
  split at h
  · next hf => simp [hf] at hsome
  · next hf => simp [Fork.isDone, hf] at hdone
  · simp [hsome, h.2.2 rfl hpast]

/-- A listener that has evaluated its fork stays valid when it goes on. -/
theorem Valid.goOn {isOpen : Bool} (h : f.Valid isOpen) (hsome : f.future.isSome = true) (hpast : f.past = true)
    {listener : ForkListener} (hpast' : ({ f with listener := listener } : Fork).past = true) :
    ({ f with listener := listener } : Fork).Valid isOpen ∧ f.Alike { f with listener := listener } := by
  have hdone := h.isDone_of_past hpast
  refine ⟨?_, rfl, rfl, fun _ => rfl, ?_, hpast'.trans hpast.symm⟩
  · unfold Fork.Valid at h ⊢
    split at h
    · next hnull => simp [hnull] at hsome
    · next hpending => simp [Fork.isDone, hpending] at hdone
    · next hfuture =>
        simp only [hfuture]
        refine ⟨?_, fun _ => hpast', fun hopen _ => h.2.2 hopen hpast⟩
        rintro rfl
        simp [Fork.past] at hpast'
  · rw [Fork.missed, Fork.missed]
    cases hfuture : f.future with
    | none => simp [hfuture] at hsome
    | some future => rfl

/-- A fork whose listener is called has completed, and still has its slot. -/
theorem Valid.of_evaluate {isOpen : Bool} (h : f.Valid isOpen) (hsome : f.future.isSome = true)
    (hlistener : f.listener = .evaluate) : ∃ success, f.future = some (some success) ∧ f.slot = true := by
  unfold Fork.Valid at h
  split at h
  · next hnull => simp [hnull] at hsome
  · simp [hlistener] at h
  · next success hfuture =>
      refine ⟨success, hfuture, ?_⟩
      by_contra hslot
      have hpast := h.2.1 (by simpa using hslot)
      simp [Fork.past, hlistener] at hpast

end Fork

namespace ForkArray

/-- How many forks have succeeded. -/
def successes (s : ForkArray) : Nat := s.forks.countP (·.isSuccess)

/-- The loop is over, and no listener is at work. -/
def Settled (s : ForkArray) : Prop := s.control = .ended ∧ ∀ f ∈ s.forks, f.isBusy = false

/-- What is promised: the fork join has succeeded only if enough forks have, and failed
    only if all are done and too few have succeeded. Once all listeners that were called
    are through, it has. The forks that it has evaluated are the first ones that were,
    without repetition, and these have lost their slots. All forks are said to be done
    exactly when they are. -/
structure Joined (s : ForkArray) : Prop where
  ok : s.join.type = .OK → s.join.nrFinishFuturesSuccess ≤ s.successes
  failed : s.join.type = .FAILED →
    (∀ f ∈ s.forks, f.isDone = true) ∧ (s.successes : Int) < s.join.nrFinishFuturesSuccess
  ok_settled : s.Settled → s.join.nrFinishFuturesSuccess ≤ s.successes → s.join.type = .OK
  failed_settled : s.Settled → (∀ f ∈ s.forks, f.isDone = true) →
    (s.successes : Int) < s.join.nrFinishFuturesSuccess → s.join.type = .FAILED
  copy : s.join.forksCopy.Nodup ∧ s.join.forksCopy <+: s.calls ∧ s.calls.Nodup ∧
    (s.join.completed = false → s.join.forksCopy = s.calls)
  evaluated : ∀ i ∈ s.join.forksCopy, ∃ f, s.forks[i]? = some f ∧ f.future.isSome = true ∧ f.isDone = true ∧
    f.slot = false
  kept : ∀ i f, s.forks[i]? = some f → f.future.isSome = true → i ∉ s.join.forksCopy → f.slot = true
  notEarlier : s.futuresCompleted = true → ∀ f ∈ s.forks, f.isDone = true
  soon : s.Settled → (∀ f ∈ s.forks, f.isDone = true) → s.futuresCompleted = true

/-- The condition on a step: the loop does not find the fork join completed before it has
    come to the end of the array. -/
def Unhurried (s : ForkArray) : ForkEvent → Prop
  | .join => ∀ i ∈ (match s.control with | .check i => some i | _ => none), i < s.nrFutures → s.join.completed = false
  | _ => True

instance (s : ForkArray) : ∀ e, Decidable (s.Unhurried e)
  | .join => inferInstanceAs (Decidable (∀ i ∈ (match s.control with | .check i => some i | _ => none),
      i < s.nrFutures → s.join.completed = false))
  | .complete _ _ => .isTrue trivial
  | .listener _ => .isTrue trivial

/-- Which slots the loop has come to. -/
def Loop (s : ForkArray) : Prop :=
  match s.control with
  | .check i => ∀ j f, s.forks[j]? = some f → (f.listener = .absent ↔ i ≤ j)
  | .attach i => ∀ j f, s.forks[j]? = some f → (f.listener = .absent ↔ i ≤ j)
  | .inline i => ∀ j f, s.forks[j]? = some f → (f.listener = .absent ↔ i < j)
  | .count i notifyNow => (∀ j f, s.forks[j]? = some f → (f.listener = .absent ↔ i < j)) ∧
      (∃ f, s.forks[i]? = some f ∧ f.future = none ∧ f.listener = .count) ∧
      (notifyNow = true → s.join.type = .FAILED)
  | .cancel _ => ∀ f ∈ s.forks, f.listener ≠ .absent
  | .ended => ∀ f ∈ s.forks, f.listener ≠ .absent

/-- What the fork join has counted, read off the array. -/
structure Sound (s : ForkArray) : Prop where
  valid : ∀ f ∈ s.forks, f.Valid (!s.join.completed)
  copy : ∀ i, i ∈ s.join.forksCopy ↔ ∃ f, s.forks[i]? = some f ∧ f.evaluated = true
  nodup : s.join.forksCopy.Nodup
  order : s.calls.Nodup ∧ s.join.forksCopy <+: s.calls ∧ (s.join.completed = false → s.join.forksCopy = s.calls)
  called : ∀ i ∈ s.calls, ∃ f, s.forks[i]? = some f ∧ f.past = true
  success : s.join.successCounter = s.forks.countP fun f => f.evaluated && f.isSuccess
  opened : s.join.completed = false →
    s.join.counter = s.forks.countP (fun f => f.evaluated || f.missed) ∧ s.join.counter < s.nrFutures ∧
      (s.join.successCounter : Int) < s.join.nrFinishFuturesSuccess
  ok : s.join.type = .OK → s.join.nrFinishFuturesSuccess ≤ s.join.successCounter
  failed : s.join.type = .FAILED → (s.join.successCounter : Int) < s.join.nrFinishFuturesSuccess ∧
    ∀ f ∈ s.forks, (f.evaluated || f.missed) = true
  count : s.futureCounter = s.forks.countP fun f => f.listener ≠ .finished
  done : s.futuresCompleted = true ↔ s.futureCounter = 0
  loop : s.Loop

variable {s s' : ForkArray} {i : Nat} {f : Fork}

/-! ### Steps that do not concern the fork join -/

/-- Forks change, but not as the fork join has counted them. -/
theorem Sound.change (h : s.Sound) (hall : List.Forall₂ Fork.Alike s.forks s'.forks)
    (hvalid : ∀ f ∈ s'.forks, f.Valid (!s.join.completed)) (hjoin : s'.join = s.join) (hcalls : s'.calls = s.calls)
    (hcount : s'.futureCounter = s'.forks.countP fun f => f.listener ≠ .finished)
    (hdone : s'.futuresCompleted = true ↔ s'.futureCounter = 0) (hloop : s'.Loop) : s'.Sound := by
  have hlength : s'.nrFutures = s.nrFutures := hall.length_eq.symm
  have hback : ∀ (j : Nat) f, s.forks[j]? = some f → ∃ f', s'.forks[j]? = some f' ∧ f.Alike f' := by
    intro j f hf
    exact getElem?_forall₂ (R := fun a b => Fork.Alike b a) hall.flip hf
  refine ⟨hjoin ▸ hvalid, ?_, hjoin ▸ h.nodup, ?_, ?_, ?_, ?_, hjoin ▸ h.ok, ?_, hcount, hdone, hloop⟩
  · intro j
    rw [hjoin, h.copy]
    constructor
    · rintro ⟨f, hf, hev⟩
      obtain ⟨f', hf', halike⟩ := hback j f hf
      exact ⟨f', hf', halike.evaluated.trans hev⟩
    · rintro ⟨f', hf', hev⟩
      obtain ⟨f, hf, halike⟩ := getElem?_forall₂ hall hf'
      exact ⟨f, hf, halike.evaluated.symm.trans hev⟩
  · rw [hjoin, hcalls]
    exact h.order
  · rw [hcalls]
    intro j hj
    obtain ⟨f, hf, hpast⟩ := h.called j hj
    obtain ⟨f', hf', halike⟩ := hback j f hf
    exact ⟨f', hf', halike.past.trans hpast⟩
  · rw [hjoin]
    exact h.success.trans (countP_congr_forall₂ hall fun _ _ halike => halike.succeeded).symm
  · rw [hjoin, hlength]
    intro hopen
    obtain ⟨hcounter, hlt, hfew⟩ := h.opened hopen
    refine ⟨hcounter.trans (countP_congr_forall₂ hall fun _ _ halike => ?_).symm, hlt, hfew⟩
    rw [halike.evaluated, halike.missed]
  · rw [hjoin]
    intro hfailed
    refine ⟨(h.failed hfailed).1, ?_⟩
    intro f' hf'
    obtain ⟨j, hj⟩ := mem_iff_getElem?.mp hf'
    obtain ⟨f, hf, halike⟩ := getElem?_forall₂ hall hj
    rw [halike.evaluated, halike.missed]
    exact (h.failed hfailed).2 f (mem_of_getElem? hf)

/-- The loop takes notice of the listeners that are not there, and of nulls. -/
theorem Loop.modify (h : s.Loop) {g : Fork → Fork}
    (hg : ∀ f, s.forks[i]? = some f → ((g f).listener = .absent ↔ f.listener = .absent) ∧ (f.future = none → g f = f))
    (htype : s.join.type = .FAILED → s'.join.type = .FAILED)
    (hforks : s'.forks = s.forks.modify i g) (hcontrol : s'.control = s.control) : s'.Loop := by
  have hback : ∀ (j : Nat) f', s'.forks[j]? = some f' → ∃ f, s.forks[j]? = some f ∧
      (f'.listener = .absent ↔ f.listener = .absent) := by
    intro j f' hf'
    rw [hforks] at hf'
    by_cases hj : j = i
    · cases hi : s.forks[i]? with
      | none =>
          rw [hj, getElem?_modify, hi] at hf'
          simp at hf'
      | some f =>
          rw [hj, getElem?_modify_self g hi, Option.some.injEq] at hf'
          rw [hj]
          exact ⟨f, hi, hf' ▸ (hg f hi).1⟩
    · rw [getElem?_modify_of_ne g hj] at hf'
      exact ⟨f', hf', .rfl⟩
  have habsent : ∀ (P : Nat → Prop), (∀ (j : Nat) f, s.forks[j]? = some f → (f.listener = .absent ↔ P j)) →
      ∀ (j : Nat) f, s'.forks[j]? = some f → (f.listener = .absent ↔ P j) := by
    intro P hP j f' hf'
    obtain ⟨f, hf, hiff⟩ := hback j f' hf'
    exact hiff.trans (hP j f hf)
  have hall : (∀ f ∈ s.forks, f.listener ≠ .absent) → ∀ f ∈ s'.forks, f.listener ≠ .absent := by
    intro hP f' hf'
    obtain ⟨j, hj⟩ := mem_iff_getElem?.mp hf'
    obtain ⟨f, hf, hiff⟩ := hback j f' hj
    exact fun heq => hP f (mem_of_getElem? hf) (hiff.mp heq)
  unfold Loop at h ⊢
  rw [hcontrol]
  cases hc : s.control with
  | check k | attach k | inline k =>
      rw [hc] at h
      exact habsent _ h
  | count k notifyNow =>
      rw [hc] at h
      obtain ⟨hwhere, ⟨d, hd, hnull, hcount⟩, hfailed⟩ := h
      refine ⟨habsent _ hwhere, ⟨d, ?_, hnull, hcount⟩, fun hnow => htype (hfailed hnow)⟩
      rw [hforks]
      by_cases hk : k = i
      · rw [hk] at hd ⊢
        rw [getElem?_modify_self g hd, (hg d hd).2 hnull]
      · rw [getElem?_modify_of_ne g hk]
        exact hd
  | cancel k | ended =>
      rw [hc] at h
      exact hall h

/-- One fork changes, but neither as it was counted nor for the loop. -/
theorem Sound.modify (h : s.Sound) (g : Fork → Fork) (i : Nat)
    (hg : ∀ f, s.forks[i]? = some f → (g f).Valid (!s.join.completed) ∧ f.Alike (g f))
    (hlistener : ∀ f, s.forks[i]? = some f → ((g f).listener = .absent ↔ f.listener = .absent) ∧
      ((g f).listener = .finished ↔ f.listener = .finished) ∧ (f.future = none → g f = f)) :
    Sound { s with forks := s.forks.modify i g } := by
  have hover : List.Forall₂ (fun f f' => f'.listener = ForkListener.finished ↔ f.listener = .finished) s.forks
      (s.forks.modify i g) := forall₂_modify (fun _ => .rfl) g i fun f hf => (hlistener f hf).2.1
  refine h.change (forall₂_modify Fork.Alike.refl g i fun f hf => (hg f hf).2) ?_ rfl rfl ?_ h.done ?_
  · intro f' hf'
    cases hi : s.forks[i]? with
    | none =>
        rw [modify_eq_self (by simpa using hi)] at hf'
        exact h.valid f' hf'
    | some f => exact forall_mem_modify h.valid hi (hg f hi).1 f' hf'
  · exact h.count.trans (countP_congr_forall₂ hover fun _ _ hiff => decide_eq_decide.mpr (not_congr hiff)).symm
  · exact h.loop.modify (fun f hf => ⟨(hlistener f hf).1, (hlistener f hf).2.2⟩) id rfl rfl

/-- A future of the array completes. -/
theorem Sound.complete (h : s.Sound) (i : Nat) (success : Bool) :
    Sound { s with forks := s.forks.modify i (·.complete success) } :=
  h.modify _ i (fun f hf => (h.valid f (mem_of_getElem? hf)).complete success) fun f _ =>
    ⟨(f.complete_listener success).1, (f.complete_listener success).2, fun hnull => Fork.complete_null hnull success⟩

/-- The fork join cancels a fork. -/
theorem Sound.cancelAt (h : s.Sound) (k : Nat) : (s.cancelAt k).Sound := by
  refine h.modify _ k ?_ ?_
  · intro f hf
    have hvalid := h.valid f (mem_of_getElem? hf)
    split
    · exact hvalid.complete false
    · exact ⟨hvalid, .refl f⟩
  · intro f _
    split
    · exact ⟨(f.complete_listener false).1, (f.complete_listener false).2, fun hnull => Fork.complete_null hnull false⟩
    · exact ⟨.rfl, .rfl, fun _ => rfl⟩

/-- A listener that has evaluated its fork goes on. -/
theorem Sound.setListener (h : s.Sound) {listener : ForkListener} (hf : s.forks[i]? = some f)
    (hsome : f.future.isSome = true) (hpast : f.past = true) (hover : f.listener ≠ .finished)
    (hpast' : ({ f with listener := listener } : Fork).past = true) (hover' : listener ≠ .finished) :
    (s.setListener i listener).Sound := by
  have habsent : ∀ f : Fork, f.past = true → f.listener ≠ .absent := by
    intro f hpast heq
    simp [Fork.past, heq] at hpast
  refine h.modify _ i ?_ ?_
  · intro f' hf'
    rw [hf, Option.some.injEq] at hf'
    subst hf'
    exact (h.valid f (mem_of_getElem? hf)).goOn hsome hpast hpast'
  · intro f' hf'
    rw [hf, Option.some.injEq] at hf'
    subst hf'
    refine ⟨⟨fun heq => absurd heq (habsent _ hpast'), fun heq => absurd heq (habsent _ hpast)⟩,
      ⟨fun heq => absurd heq hover', fun heq => absurd heq hover⟩, ?_⟩
    intro hnull
    simp [hnull] at hsome

/-! ### Forks that are evaluated -/

/-- A fork that was not evaluated yet is not among those whose `evaluate` was called. -/
theorem Sound.not_called (h : s.Sound) (hf : s.forks[i]? = some f) (hpast : f.past = false) : i ∉ s.calls := by
  intro hcalled
  obtain ⟨f', hf', hpast'⟩ := h.called i hcalled
  rw [hf, Option.some.injEq] at hf'
  rw [hf', hpast'] at hpast
  simp at hpast

/-- `evaluate` is called for one fork more. -/
theorem Sound.call (h : s.Sound) (hf : s.forks[i]? = some f) (hpast : f.past = false) {g : Fork → Fork}
    (hg : (g f).past = true) :
    (s.calls ++ [i]).Nodup ∧ ∀ j ∈ s.calls ++ [i], ∃ f, (s.forks.modify i g)[j]? = some f ∧ f.past = true := by
  refine ⟨?_, ?_⟩
  · exact List.Nodup.append h.order.1 (nodup_singleton i) (disjoint_singleton.mpr (h.not_called hf hpast))
  · intro j hj
    by_cases hji : j = i
    · rw [hji]
      exact ⟨g f, getElem?_modify_self g hf, hg⟩
    · rw [getElem?_modify_of_ne g hji]
      refine h.called j ?_
      simpa [hji] using hj

/-- The fork join has completed and takes no notice of a fork. -/
theorem Sound.ignore (h : s.Sound) (hcompleted : s.join.completed = true) (hf : s.forks[i]? = some f)
    (hsome : f.future.isSome = true) (hlistener : f.listener = .evaluate) :
    Sound { s with
      calls := s.calls ++ [i]
      forks := s.forks.modify i fun f => { f with listener := .count } } := by
  have hpast : f.past = false := by simp [Fork.past, hlistener]
  have hvalid := h.valid f (mem_of_getElem? hf)
  obtain ⟨success, hfuture, hslot⟩ := hvalid.of_evaluate hsome hlistener
  set g : Fork → Fork := fun f => { f with listener := .count } with hg
  obtain ⟨hnodup, hcalled⟩ := h.call hf hpast (show (g f).past = true from rfl)
  have hclosed : ¬ s.join.completed = false := by simp [hcompleted]
  refine ⟨?_, ?_, h.nodup, ⟨hnodup, ?_, fun hopen => absurd hopen hclosed⟩, hcalled, ?_,
    fun hopen => absurd hopen hclosed, h.ok, ?_, ?_, h.done, ?_⟩
  · refine forall_mem_modify h.valid hf ?_
    rw [hcompleted]
    unfold Fork.Valid
    simp only [hg, hfuture]
    exact ⟨by simp, fun _ => rfl, by simp⟩
  · intro j
    dsimp only
    rw [h.copy]
    by_cases hj : j = i
    · rw [hj, hf, getElem?_modify_self g hf]
      simp [hg, Fork.evaluated]
    · rw [getElem?_modify_of_ne g hj]
  · exact h.order.2.1.trans (prefix_append _ _)
  · have hcount := countP_modify (fun f => f.evaluated && f.isSuccess) g hf
    have hsame : ((g f).evaluated && (g f).isSuccess) = (f.evaluated && f.isSuccess) := rfl
    rw [hsame] at hcount
    have hold := h.success
    dsimp only
    omega
  · intro hfailed
    refine ⟨(h.failed hfailed).1, forall_mem_modify (h.failed hfailed).2 hf ?_⟩
    -- When it has failed there is no fork that was not evaluated.
    have hall := (h.failed hfailed).2 f (mem_of_getElem? hf)
    simp [Fork.evaluated, hslot, Fork.missed, hfuture] at hall
  · have hcount := countP_modify (fun f => f.listener ≠ .finished) g hf
    have hsame : decide ((g f).listener ≠ .finished) = decide (f.listener ≠ .finished) := by simp [hg, hlistener]
    rw [hsame] at hcount
    have hold := h.count
    dsimp only
    omega
  · refine h.loop.modify (g := g) ?_ id rfl rfl
    intro f' hf'
    rw [hf, Option.some.injEq] at hf'
    subst hf'
    exact ⟨by simp [hg, hlistener], fun hnull => by simp [hnull] at hfuture⟩

/-- The fork join is open and evaluates a fork. -/
theorem Sound.take (h : s.Sound) (hopen : s.join.completed = false) (hf : s.forks[i]? = some f)
    (hsome : f.future.isSome = true) (hlistener : f.listener = .evaluate) {join : FutureForkJoin}
    (hjoin : join = s.join.evaluate s.nrFutures i f.isSuccess) {next : ForkListener}
    (hnext : next = .cancel 0 ∨ next = .count) :
    Sound { s with
      calls := s.calls ++ [i]
      join := join
      forks := s.forks.modify i fun f => { f with slot := false, listener := next } } := by
  have hpast : f.past = false := by simp [Fork.past, hlistener]
  have hmem := mem_of_getElem? hf
  obtain ⟨success, hfuture, hslot⟩ := (h.valid f hmem).of_evaluate hsome hlistener
  set g : Fork → Fork := fun f => { f with slot := false, listener := next } with hg
  have hgpast : (g f).past = true := by rcases hnext with rfl | rfl <;> rfl
  obtain ⟨hnodup, hcalled⟩ := h.call hf hpast hgpast
  obtain ⟨hcounter, hlt, hfew⟩ := h.opened hopen
  obtain ⟨hforksCopy, hsuccessCounter, hn, hcases⟩ :=
    FutureForkJoin.evaluate_cases hopen s.nrFutures i f.isSuccess
  rw [← hjoin] at hforksCopy hsuccessCounter hn hcases
  have hev : f.evaluated = false := by simp [Fork.evaluated, hslot]
  have hgev : (g f).evaluated = true := by simp [hg, Fork.evaluated, hfuture]
  have hsuccess : join.successCounter = (s.forks.modify i g).countP fun f => f.evaluated && f.isSuccess := by
    have hcount := countP_modify (fun f => f.evaluated && f.isSuccess) g hf
    have hsame : ((g f).evaluated && (g f).isSuccess) = f.isSuccess := by rw [hgev]; rfl
    rw [hsame, hev, Bool.false_and, Bool.toNat_false] at hcount
    have hold := h.success
    omega
  have hcounted : s.join.counter + 1 = (s.forks.modify i g).countP fun f => f.evaluated || f.missed := by
    have hcount := countP_modify (fun f => f.evaluated || f.missed) g hf
    have hold : (f.evaluated || f.missed) = false := by simp [hev, Fork.missed, hfuture]
    rw [hgev, hold, Bool.true_or, Bool.toNat_true, Bool.toNat_false] at hcount
    omega
  have hlength : (s.forks.modify i g).length = s.nrFutures := length_modify ..
  have hupper := countP_le_length (p := fun f : Fork => f.evaluated || f.missed) (l := s.forks.modify i g)
  -- One success more is not enough, unless the fork join succeeds.
  have hstill : join.type ≠ .OK → (join.successCounter : Int) < join.nrFinishFuturesSuccess := by
    intro hnotok
    rcases hcases with ⟨hok, _⟩ | ⟨_, hno, _⟩
    · exact absurd hok hnotok
    · rw [hsuccessCounter, hn]
      cases hs : f.isSuccess with
      | false => simpa [hs] using hfew
      | true => simpa [hs] using hno hs
  refine ⟨?_, ?_, ?_, ⟨hnodup, ?_, fun _ => ?_⟩, hcalled, hsuccess, ?_, ?_, ?_, ?_, h.done, ?_⟩
  · have hothers : ∀ d ∈ s.forks, d.Valid (!join.completed) := by
      intro d hd
      have hd' := h.valid d hd
      rw [hopen] at hd'
      cases join.completed with
      | true => exact hd'.closed
      | false => exact hd'
    refine forall_mem_modify hothers hf ?_
    unfold Fork.Valid
    simp only [show (g f).future = some (some success) from hfuture]
    refine ⟨?_, fun _ => hgpast, fun _ _ => rfl⟩
    intro heq
    simp [Fork.past, heq] at hgpast
  · intro j
    dsimp only
    rw [hforksCopy, mem_append, mem_singleton, h.copy]
    by_cases hj : j = i
    · rw [hj, getElem?_modify_self g hf]
      simp [hgev]
    · rw [getElem?_modify_of_ne g hj]
      simp [hj]
  · dsimp only
    rw [hforksCopy]
    refine List.Nodup.append h.nodup (nodup_singleton i) (disjoint_singleton.mpr ?_)
    exact fun hi => h.not_called hf hpast (h.order.2.1.subset hi)
  · dsimp only
    have hsame : join.forksCopy = s.calls ++ [i] := by rw [hforksCopy, h.order.2.2 hopen]
    exact hsame ▸ prefix_rfl
  · dsimp only
    rw [hforksCopy, h.order.2.2 hopen]
  · intro hopen'
    have hinit := FutureForkJoin.completed_eq_false_iff.mp hopen'
    dsimp only at hinit ⊢
    refine ⟨?_, ?_, hstill (by simp [hinit])⟩
    · rcases hcases with ⟨hok, _⟩ | ⟨hcounter', _⟩
      · simp [hok] at hinit
      · omega
    · rcases hcases with ⟨hok, _⟩ | ⟨hcounter', _, htype⟩
      · simp [hok] at hinit
      · rw [htype] at hinit
        split at hinit
        · simp at hinit
        · show join.counter < (s.forks.modify i g).length
          omega
  · intro hok
    dsimp only at hok ⊢
    rcases hcases with ⟨_, hs, hle⟩ | ⟨_, _, htype⟩
    · rw [hn, hsuccessCounter, hs]
      simpa using hle
    · rw [htype] at hok
      split at hok <;> simp at hok
  · intro hfailed
    dsimp only at hfailed ⊢
    refine ⟨hstill (by simp [hfailed]), ?_⟩
    rcases hcases with ⟨hok, _⟩ | ⟨_, _, htype⟩
    · simp [hok] at hfailed
    · -- As many are counted as there are.
      rw [htype] at hfailed
      split at hfailed
      · next hle => exact countP_eq_length.mp (by omega)
      · simp at hfailed
  · have hcount := countP_modify (fun f => f.listener ≠ .finished) g hf
    have hgover : (g f).listener ≠ .finished := by rcases hnext with rfl | rfl <;> simp [hg]
    have hsame : decide ((g f).listener ≠ .finished) = decide (f.listener ≠ .finished) :=
      decide_eq_decide.mpr ⟨fun _ => by simp [hlistener], fun _ => hgover⟩
    rw [hsame] at hcount
    have hold := h.count
    dsimp only
    omega
  · have hgpresent : (g f).listener ≠ .absent := by rcases hnext with rfl | rfl <;> simp [hg]
    refine h.loop.modify (g := g) ?_ ?_ rfl rfl
    · intro f' hf'
      rw [hf, Option.some.injEq] at hf'
      subst hf'
      exact ⟨⟨fun heq => absurd heq hgpresent, fun heq => by simp [hlistener] at heq⟩,
        fun hnull => by simp [hnull] at hfuture⟩
    · intro hfailed
      simp [FutureForkJoin.completed_eq_false_iff.mp hopen] at hfailed

/-- `evaluate` of a fork whose listener is called. -/
theorem Sound.evaluate (h : s.Sound) (hf : s.forks[i]? = some f) (hsome : f.future.isSome = true)
    (hlistener : f.listener = .evaluate) : (s.evaluate i f.isSuccess).Sound := by
  unfold ForkArray.evaluate
  by_cases hcompleted : s.join.completed = true
  · dsimp only
    rw [if_pos hcompleted]
    exact h.ignore hcompleted hf hsome hlistener
  · dsimp only
    rw [if_neg hcompleted]
    refine h.take (by simpa using hcompleted) hf hsome hlistener rfl ?_
    split
    · exact .inl rfl
    · exact .inr rfl

/-! ### Forks that are counted as done -/

/-- One fork more is done. -/
theorem Sound.countDown (h : s.Sound) (hf : s.forks[i]? = some f) (hlistener : f.listener = .count)
    {control : JoinControl} (hloop : Loop { s.countDown.setListener i .finished with control := control }) :
    Sound { s.countDown.setListener i .finished with control := control } := by
  set g : Fork → Fork := fun f => { f with listener := .finished } with hg
  have hvalid := h.valid f (mem_of_getElem? hf)
  have hpast : f.past = true := by simp [Fork.past, hlistener]
  have hgf : (g f).Valid (!s.join.completed) ∧ f.Alike (g f) := by
    cases hfuture : f.future with
    | some future => exact hvalid.goOn (by simp [hfuture]) hpast rfl
    | none =>
        refine ⟨?_, rfl, rfl, fun _ => rfl, by simp [hg, Fork.missed, hlistener], by simp [hg, Fork.past, hlistener]⟩
        unfold Fork.Valid at hvalid ⊢
        simp only [hfuture] at hvalid
        simp only [hg, hfuture]
        exact ⟨hvalid.1, by simp⟩
  have hcount := countP_modify (fun f => f.listener ≠ .finished) g hf
  have hbefore : decide (f.listener ≠ .finished) = true := by simp [hlistener]
  have hafter : decide ((g f).listener ≠ .finished) = false := by simp [hg]
  rw [hbefore, hafter, Bool.toNat_true, Bool.toNat_false] at hcount
  have hold := h.count
  have hnotdone : s.futuresCompleted = false := by
    rw [← Bool.not_eq_true, h.done]
    omega
  refine h.change ?_ (forall_mem_modify h.valid hf hgf.1) rfl rfl ?_ ?_ hloop
  · refine forall₂_modify Fork.Alike.refl g i ?_
    intro f' hf'
    rw [hf, Option.some.injEq] at hf'
    exact hf' ▸ hgf.2
  · show s.futureCounter - 1 = (s.forks.modify i g).countP _
    omega
  · show (s.futuresCompleted || decide (s.futureCounter - 1 = 0)) = true ↔ s.futureCounter - 1 = 0
    rw [hnotdone, Bool.false_or, decide_eq_true_eq]

/-! ### The loop -/

/-- The loop of the join gets on. -/
theorem Sound.control (h : s.Sound) {control : JoinControl} (hloop : Loop { s with control := control }) :
    Sound { s with control := control } :=
  ⟨h.valid, h.copy, h.nodup, h.order, h.called, h.success, h.opened, h.ok, h.failed, h.count, h.done, hloop⟩

/-- The listener of the slot that the loop is at is the first one that is not there. -/
theorem attached (hwhere : ∀ (j : Nat) f, s.forks[j]? = some f → (f.listener = .absent ↔ i ≤ j))
    {g : Fork → Fork} (hf : s.forks[i]? = some f) (hg : (g f).listener ≠ .absent) :
    ∀ (j : Nat) f, (s.forks.modify i g)[j]? = some f → (f.listener = .absent ↔ i < j) := by
  intro j f' hf'
  by_cases hj : j = i
  · rw [hj, getElem?_modify_self g hf, Option.some.injEq] at hf'
    rw [← hf']
    exact ⟨fun heq => absurd heq hg, fun hlt => absurd hlt (by omega)⟩
  · rw [getElem?_modify_of_ne g hj] at hf'
    exact (hwhere j f' hf').trans (by omega)

/-- The loop adds a listener, or calls it. -/
theorem Sound.listen (h : s.Sound) (hcontrol : s.control = .attach i) (hf : s.forks[i]? = some f)
    (hslot : f.slot = true) {listener : ForkListener} {control : JoinControl}
    (hlistener : listener = .evaluate ∧ f.isDone = true ∨ listener = .waiting ∧ f.isDone = false)
    (hnext : control = .inline i ∨ control = .check (i + 1)) :
    Sound { s.setListener i listener with control := control } := by
  set g : Fork → Fork := fun f => { f with listener := listener } with hg
  have hloop := h.loop
  unfold Loop at hloop
  rw [hcontrol] at hloop
  have habsent : f.listener = .absent := (hloop i f hf).mpr (Nat.le_refl i)
  have hvalid := h.valid f (mem_of_getElem? hf)
  have hpast : f.past = false := by simp [Fork.past, habsent]
  have hgpast : (g f).past = false := by
    rcases hlistener with ⟨rfl, _⟩ | ⟨rfl, _⟩ <;> rfl
  -- Only the listener of the fork changes, and it had none.
  have hgf : (g f).Valid (!s.join.completed) ∧ f.Alike (g f) := by
    refine ⟨?_, rfl, rfl, fun _ => rfl, ?_, hgpast.trans hpast.symm⟩
    · unfold Fork.Valid at hvalid ⊢
      rcases hlistener with ⟨rfl, hdone⟩ | ⟨rfl, hdone⟩
      · split at hvalid
        · simp [hvalid.1] at hslot
        · next hpending => simp [Fork.isDone, hpending] at hdone
        · next success hfuture =>
            simp only [hg, hfuture]
            exact ⟨by simp, fun hs => by simp [hslot] at hs, fun _ hp => by simp [Fork.past] at hp⟩
      · have hpending : f.future = some none := by simpa [Fork.isDone] using hdone
        simp only [hg, hpending]
        exact ⟨hslot, by simp⟩
    · unfold Fork.Valid at hvalid
      cases hfuture : f.future with
      | none =>
          rw [hfuture] at hvalid
          simp [hvalid.1] at hslot
      | some future => simp [hg, Fork.missed, hfuture]
  have hgover : (g f).listener ≠ .finished := by
    rcases hlistener with ⟨rfl, _⟩ | ⟨rfl, _⟩ <;> simp [hg]
  have hgpresent : (g f).listener ≠ .absent := by
    rcases hlistener with ⟨rfl, _⟩ | ⟨rfl, _⟩ <;> simp [hg]
  have hwhere := attached hloop hf hgpresent
  refine h.change ?_ (forall_mem_modify h.valid hf hgf.1) rfl rfl ?_ h.done ?_
  · refine forall₂_modify Fork.Alike.refl g i ?_
    intro f' hf'
    rw [hf, Option.some.injEq] at hf'
    exact hf' ▸ hgf.2
  · -- The listener is not over, so the counter stays.
    have hcount := countP_modify (fun f => f.listener ≠ .finished) g hf
    have hsame : decide ((g f).listener ≠ .finished) = decide (f.listener ≠ .finished) :=
      decide_eq_decide.mpr ⟨fun _ => by simp [habsent], fun _ => hgover⟩
    rw [hsame] at hcount
    have hold := h.count
    show s.futureCounter = (s.forks.modify i g).countP _
    omega
  · rcases hnext with rfl | rfl
    · exact hwhere
    · exact fun j f hf => (hwhere j f hf).trans Nat.lt_iff_add_one_le

/-- The loop goes past a null. -/
theorem Sound.miss (h : s.Sound) (hcontrol : s.control = .attach i) (hf : s.forks[i]? = some f)
    (hslot : f.slot = false) {join : FutureForkJoin} (hjoin : join = s.join.miss s.nrFutures) :
    Sound { s.setListener i .count with
      join := join
      control := .count i (join.completed && !s.join.completed) } := by
  set g : Fork → Fork := fun f => { f with listener := .count } with hg
  have hloop := h.loop
  unfold Loop at hloop
  rw [hcontrol] at hloop
  have habsent : f.listener = .absent := (hloop i f hf).mpr (Nat.le_refl i)
  have hvalid := h.valid f (mem_of_getElem? hf)
  -- Nothing else has an empty slot before the loop comes to it.
  have hnull : f.future = none := by
    unfold Fork.Valid at hvalid
    split at hvalid
    · next hnull => exact hnull
    · simp [hvalid.1] at hslot
    · have hp := hvalid.2.1 hslot
      simp [Fork.past, habsent] at hp
  have hev : f.evaluated = false := by simp [Fork.evaluated, hnull]
  have hgev : (g f).evaluated = false := by simp [hg, Fork.evaluated, hnull]
  obtain ⟨hforksCopy, hsuccessCounter, hn⟩ := FutureForkJoin.miss_keeps s.join s.nrFutures
  rw [← hjoin] at hforksCopy hsuccessCounter hn
  have hclosed : s.join.completed = true → join.type = s.join.type := by
    intro hcompleted
    rw [hjoin]
    exact FutureForkJoin.miss_type hcompleted s.nrFutures
  have hopened : s.join.completed = false → join.counter = s.join.counter + 1 ∧
      join.type = if s.nrFutures ≤ s.join.counter + 1 then .FAILED else .INIT := by
    intro hopen
    rw [hjoin, FutureForkJoin.miss_open hopen]
    exact ⟨rfl, rfl⟩
  have hcounted : s.forks.countP (fun f => f.evaluated || f.missed) + 1 =
      (s.forks.modify i g).countP fun f => f.evaluated || f.missed := by
    have hcount := countP_modify (fun f => f.evaluated || f.missed) g hf
    have hold : (f.evaluated || f.missed) = false := by simp [hev, Fork.missed, habsent]
    have hnew : ((g f).evaluated || (g f).missed) = true := by simp [hg, Fork.missed, hnull]
    rw [hold, hnew, Bool.toNat_true, Bool.toNat_false] at hcount
    omega
  have hlength : (s.forks.modify i g).length = s.nrFutures := length_modify ..
  have hupper := countP_le_length (p := fun f : Fork => f.evaluated || f.missed) (l := s.forks.modify i g)
  have hstays : join.completed = false → s.join.completed = false := by
    intro hopen'
    by_contra hc
    have hc' : s.join.completed = true := by simpa using hc
    rw [FutureForkJoin.completed_eq_false_iff, hclosed hc', ← FutureForkJoin.completed_eq_false_iff] at hopen'
    exact hc hopen'
  refine ⟨?_, ?_, ?_, ⟨h.order.1, ?_, ?_⟩, ?_, ?_, ?_, ?_, ?_, ?_, h.done, ?_, ?_, ?_⟩
  · have hothers : ∀ d ∈ s.forks, d.Valid (!join.completed) := by
      intro d hd
      have hd' := h.valid d hd
      cases hc : join.completed with
      | true => exact hd'.closed
      | false =>
          rw [hstays hc] at hd'
          exact hd'
    refine forall_mem_modify hothers hf ?_
    unfold Fork.Valid
    simp only [hnull]
    exact ⟨hslot, by simp⟩
  · intro j
    show j ∈ join.forksCopy ↔ ∃ f, (s.forks.modify i g)[j]? = some f ∧ _
    rw [hforksCopy, h.copy]
    by_cases hj : j = i
    · rw [hj, hf, getElem?_modify_self g hf]
      simp [hev, hgev]
    · rw [getElem?_modify_of_ne g hj]
  · show join.forksCopy.Nodup
    rw [hforksCopy]
    exact h.nodup
  · show join.forksCopy <+: s.calls
    rw [hforksCopy]
    exact h.order.2.1
  · show join.completed = false → join.forksCopy = s.calls
    rw [hforksCopy]
    exact fun hopen' => h.order.2.2 (hstays hopen')
  · intro j hj
    obtain ⟨d, hd, hdpast⟩ := h.called j hj
    by_cases hji : j = i
    · rw [hji]
      exact ⟨g f, getElem?_modify_self g hf, rfl⟩
    · exact ⟨d, by show (s.forks.modify i g)[j]? = _; rw [getElem?_modify_of_ne g hji]; exact hd, hdpast⟩
  · show join.successCounter = (s.forks.modify i g).countP _
    have hcount := countP_modify (fun f => f.evaluated && f.isSuccess) g hf
    rw [hev, hgev, Bool.false_and, Bool.false_and] at hcount
    have hold := h.success
    omega
  · intro hopen'
    have hopen := hstays hopen'
    obtain ⟨hcounter, hlt, hfew⟩ := h.opened hopen
    obtain ⟨hcounter', htype⟩ := hopened hopen
    have hinit := FutureForkJoin.completed_eq_false_iff.mp hopen'
    show join.counter = (s.forks.modify i g).countP _ ∧ join.counter < (s.forks.modify i g).length ∧
      (join.successCounter : Int) < join.nrFinishFuturesSuccess
    dsimp only at hinit
    rw [htype] at hinit
    split at hinit
    · simp at hinit
    · refine ⟨by omega, by omega, ?_⟩
      rw [hsuccessCounter, hn]
      exact hfew
  · intro hok
    show join.nrFinishFuturesSuccess ≤ join.successCounter
    dsimp only at hok
    rw [hn, hsuccessCounter]
    by_cases hc : s.join.completed = true
    · exact h.ok ((hclosed hc).symm.trans hok)
    · rw [(hopened (by simpa using hc)).2] at hok
      split at hok <;> simp at hok
  · intro hfailed
    dsimp only at hfailed
    show (join.successCounter : Int) < join.nrFinishFuturesSuccess ∧ ∀ f ∈ s.forks.modify i g, _
    rw [hn, hsuccessCounter]
    by_cases hc : s.join.completed = true
    · obtain ⟨hfew, hall⟩ := h.failed ((hclosed hc).symm.trans hfailed)
      refine ⟨hfew, forall_mem_modify hall hf ?_⟩
      simp [hg, Fork.missed, hnull]
    · obtain ⟨hcounter, hlt, hfew⟩ := h.opened (by simpa using hc)
      obtain ⟨hcounter', htype⟩ := hopened (by simpa using hc)
      rw [htype] at hfailed
      refine ⟨hfew, countP_eq_length.mp ?_⟩
      split at hfailed
      · omega
      · simp at hfailed
  · have hcount := countP_modify (fun f => f.listener ≠ .finished) g hf
    have hsame : decide ((g f).listener ≠ .finished) = decide (f.listener ≠ .finished) := by simp [hg, habsent]
    rw [hsame] at hcount
    have hold := h.count
    show s.futureCounter = (s.forks.modify i g).countP _
    omega
  · exact attached hloop hf (by simp)
  · exact ⟨g f, getElem?_modify_self g hf, hnull, rfl⟩
  · intro hnow
    show join.type = .FAILED
    have hnow' : join.completed = true ∧ s.join.completed = false := by simpa using hnow
    have htype := (hopened hnow'.2).2
    split at htype
    · exact htype
    · rw [FutureForkJoin.completed, htype] at hnow'
      simp at hnow'

/-! ### All steps -/

/-- A listener does its next step. -/
theorem Sound.runListener (h : s.Sound) (hf : s.forks[i]? = some f) (hsome : f.future.isSome = true)
    (hstep : s.runListener i f = some s') : s'.Sound := by
  have hvalid := h.valid f (mem_of_getElem? hf)
  unfold ForkArray.runListener at hstep
  cases hlistener : f.listener with
  | evaluate =>
      rw [hlistener] at hstep
      rw [← Option.some.inj hstep]
      exact h.evaluate hf hsome hlistener
  | cancel k =>
      rw [hlistener] at hstep
      dsimp only at hstep
      have hpast : f.past = true := by simp [Fork.past, hlistener]
      split at hstep
      · rw [← Option.some.inj hstep]
        -- The fork itself has completed and is not cancelled.
        have hf' : (s.cancelAt k).forks[i]? = some f := by
          show (s.forks.modify k _)[i]? = some f
          by_cases hk : i = k
          · rw [← hk, getElem?_modify_self _ hf, Fork.complete_done (hvalid.isDone_of_past hpast), ite_self]
          · rw [getElem?_modify_of_ne _ hk]
            exact hf
        exact (h.cancelAt k).setListener hf' hsome hpast (by simp [hlistener]) rfl (by simp)
      · rw [← Option.some.inj hstep]
        exact h.setListener hf hsome hpast (by simp [hlistener]) rfl (by simp)
  | count =>
      rw [hlistener] at hstep
      rw [← Option.some.inj hstep]
      have hcounted : Loop { s.countDown.setListener i .finished with control := s.control } := by
        refine h.loop.modify (i := i) (g := fun f => { f with listener := .finished }) ?_ id rfl rfl
        intro f' hf'
        rw [hf, Option.some.injEq] at hf'
        subst hf'
        exact ⟨by simp [hlistener], fun hnull => by simp [hnull] at hsome⟩
      exact h.countDown hf hlistener hcounted
  | absent | waiting | finished => rw [hlistener] at hstep; simp at hstep

/-- If the fork join has failed then the loop has come to all slots. -/
theorem Sound.present_of_failed (h : s.Sound) (hfailed : s.join.type = .FAILED) :
    ∀ f ∈ s.forks, f.listener ≠ .absent := by
  intro f hf habsent
  rcases Bool.or_eq_true_iff.mp ((h.failed hfailed).2 f hf) with hev | hmissed
  · have hpast := (h.valid f hf).past_of_evaluated hev
    simp [Fork.past, habsent] at hpast
  · simp [Fork.missed, habsent] at hmissed

/-- The loop of the join does its next step. -/
theorem Sound.runJoin (h : s.Sound) (hcond : s.Unhurried .join) (hstep : s.runJoin = some s') : s'.Sound := by
  have hloop := h.loop
  unfold Loop at hloop
  unfold ForkArray.runJoin at hstep
  cases hcontrol : s.control with
  | check i =>
      rw [hcontrol] at hstep hloop
      rw [← Option.some.inj hstep]
      refine h.control ?_
      by_cases hgo : i < s.nrFutures ∧ ¬ s.join.completed = true
      · rw [if_pos hgo]
        exact hloop
      · -- The loop ends at the end of the array only.
        rw [if_neg hgo]
        have hend : s.nrFutures ≤ i := by
          by_contra hlt
          have hopen := hcond i (by simp [hcontrol]) (by omega)
          exact hgo ⟨by omega, by simp [hopen]⟩
        intro f hf habsent
        obtain ⟨j, hj⟩ := mem_iff_getElem?.mp hf
        have hf' : s.forks[j]? = some f := hj
        have hlt : j < s.forks.length := (List.getElem?_eq_some_iff.mp hf').1
        have hle : i ≤ j := (hloop j f hf').mp habsent
        unfold nrFutures at hend
        omega
  | attach i =>
      rw [hcontrol] at hstep
      obtain ⟨f, hf, rfl⟩ := Option.map_eq_some_iff.mp hstep
      unfold ForkArray.attach
      -- A future that is done is evaluated at once, another one gets a listener, and no future is a miss.
      by_cases hslot : f.slot = true
      · rw [if_pos hslot]
        by_cases hdone : f.isDone = true
        · rw [if_pos hdone]
          exact h.listen hcontrol hf hslot (.inl ⟨rfl, hdone⟩) (.inl rfl)
        · rw [if_neg hdone]
          exact h.listen hcontrol hf hslot (.inr ⟨rfl, by simpa using hdone⟩) (.inr rfl)
      · rw [if_neg hslot]
        exact h.miss hcontrol hf (by simpa using hslot) rfl
  | inline i =>
      rw [hcontrol] at hstep hloop
      dsimp only at hstep
      split at hstep
      · rw [← Option.some.inj hstep]
        exact h.control fun j f hf => (hloop j f hf).trans Nat.lt_iff_add_one_le
      · simp at hstep
  | count i notifyNow =>
      rw [hcontrol] at hstep hloop
      obtain ⟨hwhere, ⟨f, hf, _, hcount⟩, hfailed⟩ := hloop
      rw [← Option.some.inj hstep]
      refine h.countDown hf hcount ?_
      cases notifyNow with
      | false =>
          intro j f' hf'
          by_cases hj : j = i
          · -- The slot of which the listener was just called is over, and the others are as they were.
            have hover : f'.listener = .finished := by
              rw [hj] at hf'
              have hself := getElem?_modify_self (fun f : Fork => { f with listener := .finished }) hf
              rw [← Option.some.inj (hself.symm.trans hf')]
            rw [hover, hj]
            exact ⟨fun heq => by simp at heq, fun hle => absurd hle (by omega)⟩
          · have hsame : s.forks[j]? = some f' :=
              (getElem?_modify_of_ne (fun f : Fork => { f with listener := .finished }) hj).symm.trans hf'
            exact (hwhere j f' hsame).trans Nat.lt_iff_add_one_le
      | true =>
          -- A join that has failed has seen all of its slots.
          have hall : ∀ f ∈ s.forks.modify i (fun f => { f with listener := .finished }), f.listener ≠ .absent :=
            forall_mem_modify (h.present_of_failed (hfailed rfl)) hf (by simp)
          rw [if_pos rfl]
          split
          · exact hall
          · exact hall
  | cancel k =>
      rw [hcontrol] at hstep hloop
      dsimp only at hstep
      split at hstep
      · rw [← Option.some.inj hstep]
        have hcancel := (h.cancelAt k).loop
        unfold Loop at hcancel
        rw [show (s.cancelAt k).control = .cancel k from hcontrol] at hcancel
        exact (h.cancelAt k).control hcancel
      · rw [← Option.some.inj hstep]
        exact h.control hloop
  | ended => rw [hcontrol] at hstep; simp at hstep

/-- A step that meets the condition keeps a fork join sound. -/
theorem step_sound (h : s.Sound) {e : ForkEvent} (hcond : s.Unhurried e) (hstep : s.step e = some s') : s'.Sound := by
  cases e with
  | complete i success =>
      unfold step at hstep
      dsimp only at hstep
      split at hstep
      · split at hstep
        · simp at hstep
        · rw [← Option.some.inj hstep]
          exact h.complete i success
      · simp at hstep
  | join => exact h.runJoin hcond hstep
  | listener i =>
      obtain ⟨f, hf, hrun⟩ := Option.bind_eq_some_iff.mp hstep
      split at hrun
      · next hsome => exact h.runListener hf hsome hrun
      · simp at hrun

/-! ### Runs -/

/-- A fork join is sound before `join` has begun. -/
theorem Fresh.sound (h : s.Fresh) : s.Sound := by
  obtain ⟨n, cancels, futures, hone, hle, rfl⟩ := h
  have hnotev : ∀ future, (Fork.ofFuture future).evaluated = false := by
    intro future
    cases future <;> rfl
  have hmem : ∀ f ∈ (create n cancels futures).forks, ∃ future, f = Fork.ofFuture future := by
    intro f hf
    obtain ⟨future, _, rfl⟩ := mem_map.mp hf
    exact ⟨future, rfl⟩
  -- No fork counts for anything yet.
  have hnone : ∀ p : Fork → Bool, (∀ future, p (Fork.ofFuture future) = false) →
      (create n cancels futures).forks.countP p = 0 := by
    intro p hp
    rw [countP_eq_zero]
    intro f hf
    obtain ⟨future, rfl⟩ := hmem f hf
    simp [hp]
  have hpos : futures.length ≠ 0 := by omega
  refine ⟨?_, ?_, nodup_nil, ⟨nodup_nil, prefix_rfl, fun _ => rfl⟩, ?_, ?_, ?_, ?_, ?_, ?_, ?_, ?_⟩
  · intro f hf
    obtain ⟨future, rfl⟩ := hmem f hf
    -- a future may be completed before the join
    cases future with
    | none => exact ⟨rfl, .inl rfl⟩
    | some outcome =>
        cases outcome with
        | none => exact ⟨rfl, .inl rfl⟩
        | some success =>
            exact ⟨by simp [Fork.ofFuture], by simp [Fork.ofFuture], by simp [Fork.ofFuture, Fork.past]⟩
  · intro i
    refine ⟨fun hi => absurd hi not_mem_nil, ?_⟩
    rintro ⟨f, hf, hev⟩
    obtain ⟨future, rfl⟩ := hmem f (mem_of_getElem? hf)
    simp [hnotev] at hev
  · exact fun i hi => absurd hi not_mem_nil
  · exact (hnone _ fun future => by rw [hnotev, Bool.false_and]).symm
  · intro _
    refine ⟨(hnone _ fun future => ?_).symm, ?_, ?_⟩
    · rw [hnotev]
      simp [Fork.missed, Fork.ofFuture]
    · show 0 < (futures.map Fork.ofFuture).length
      rw [length_map]
      omega
    · show ((0 : Nat) : Int) < n
      omega
  · exact fun hok => by simp [create] at hok
  · exact fun hfailed => by simp [create] at hfailed
  · show futures.length = (futures.map Fork.ofFuture).countP _
    rw [countP_map, countP_eq_length.mpr]
    intro future _
    simp [Fork.ofFuture]
  · show false = true ↔ futures.length = 0
    simp [hpos]
  · intro j f hf
    obtain ⟨future, rfl⟩ := hmem f (mem_of_getElem? hf)
    exact ⟨fun _ => Nat.zero_le j, fun _ => rfl⟩

/-! ### What follows for the fork join -/

/-- A fork that has succeeded and was evaluated is counted. -/
theorem Sound.successCounter_le (h : s.Sound) : s.join.successCounter ≤ s.successes := by
  rw [h.success]
  refine countP_mono_left ?_
  intro f _ hsucceeded
  exact (Bool.and_eq_true_iff.mp hsucceeded).2

/-- If all forks that have succeeded were evaluated then the count is exact. -/
theorem Sound.successes_eq (h : s.Sound) (hall : ∀ f ∈ s.forks, f.isSuccess = true → f.evaluated = true) :
    s.successes = s.join.successCounter := by
  refine Nat.le_antisymm ?_ h.successCounter_le
  rw [h.success]
  refine countP_mono_left ?_
  intro f hf hsuccess
  rw [Bool.and_eq_true_iff]
  exact ⟨hall f hf hsuccess, hsuccess⟩

theorem isSome_of_isSuccess (h : f.isSuccess = true) : f.future.isSome = true := by
  have hfuture : f.future = some (some true) := by simpa [Fork.isSuccess] using h
  rw [hfuture]
  rfl

/-- A fork join that has failed has counted all forks. -/
theorem Sound.of_failed (h : s.Sound) (hfailed : s.join.type = .FAILED) :
    (∀ f ∈ s.forks, f.isDone = true) ∧ (s.successes : Int) < s.join.nrFinishFuturesSuccess := by
  obtain ⟨hfew, hall⟩ := h.failed hfailed
  refine ⟨?_, ?_⟩
  · intro f hf
    rcases Bool.or_eq_true_iff.mp (hall f hf) with hev | hmissed
    · have hvalid := h.valid f hf
      exact hvalid.isDone_of_past (hvalid.past_of_evaluated hev)
    · have hnull : f.future.isNone = true := (Bool.and_eq_true_iff.mp hmissed).1
      simp [Fork.isDone, Option.isNone_iff_eq_none.mp hnull]
  · rw [h.successes_eq ?_]
    · exact hfew
    · intro f hf hsuccess
      rcases Bool.or_eq_true_iff.mp (hall f hf) with hev | hmissed
      · exact hev
      · have hsome := isSome_of_isSuccess hsuccess
        have hnull : f.future.isNone = true := (Bool.and_eq_true_iff.mp hmissed).1
        rw [Option.isNone_iff_eq_none.mp hnull] at hsome
        simp at hsome

/-- Once nothing is going on any more, the listener of a fork that is done is through. -/
theorem Sound.over_of_settled (h : s.Sound) (hsettled : s.Settled) (hf : f ∈ s.forks) (hdone : f.isDone = true) :
    f.listener = .finished := by
  obtain ⟨hended, hidle⟩ := hsettled
  have hpresent : f.listener ≠ .absent := by
    have hloop := h.loop
    unfold Loop at hloop
    rw [hended] at hloop
    exact hloop f hf
  have hwaiting : f.listener ≠ .waiting := by
    intro hwaiting
    have hvalid := h.valid f hf
    unfold Fork.Valid at hvalid
    split at hvalid
    · simp [hwaiting] at hvalid
    · next hpending => simp [Fork.isDone, hpending] at hdone
    · exact hvalid.1 hwaiting
  have hbusy := hidle f hf
  unfold Fork.isBusy at hbusy
  cases hlistener : f.listener with
  | finished => rfl
  | absent => exact absurd hlistener hpresent
  | waiting => exact absurd hlistener hwaiting
  | evaluate | cancel k | count => simp [hlistener] at hbusy

/-- A fork that is done was counted then, unless the fork join has completed. -/
theorem Sound.evaluated_of_settled (h : s.Sound) (hsettled : s.Settled) (hopen : s.join.completed = false)
    (hf : f ∈ s.forks) (hdone : f.isDone = true) : (f.evaluated || f.missed) = true := by
  have hover := h.over_of_settled hsettled hf hdone
  rw [Bool.or_eq_true_iff]
  cases hsome : f.future.isSome with
  | true =>
      have hvalid := h.valid f hf
      rw [hopen] at hvalid
      exact .inl (hvalid.evaluated_of_past hsome (by simp [Fork.past, hover]))
  | false => exact .inr (by simpa [Fork.missed, hover] using hsome)

/-- Enough forks have succeeded, but the fork join is open: some listener is still to come. -/
theorem Sound.successes_lt (h : s.Sound) (hsettled : s.Settled) (hopen : s.join.completed = false) :
    (s.successes : Int) < s.join.nrFinishFuturesSuccess := by
  rw [h.successes_eq ?_]
  · exact (h.opened hopen).2.2
  · intro f hf hsuccess
    have hsome := isSome_of_isSuccess hsuccess
    have hdone : f.isDone = true := by
      have hfuture : f.future = some (some true) := by simpa [Fork.isSuccess] using hsuccess
      simp [Fork.isDone, hfuture]
    rcases Bool.or_eq_true_iff.mp (h.evaluated_of_settled hsettled hopen hf hdone) with hev | hmissed
    · exact hev
    · rw [Fork.missed, Bool.and_eq_true_iff, Option.isNone_iff_eq_none] at hmissed
      rw [hmissed.1] at hsome
      simp at hsome

/-- Not all forks are done while the fork join is open and nothing is going on. -/
theorem Sound.not_all_done (h : s.Sound) (hsettled : s.Settled) (hopen : s.join.completed = false) :
    ¬ ∀ f ∈ s.forks, f.isDone = true := by
  intro hdone
  obtain ⟨hcounter, hlt, _⟩ := h.opened hopen
  rw [hcounter, countP_eq_length.mpr] at hlt
  · exact Nat.lt_irrefl _ hlt
  · exact fun f hf => h.evaluated_of_settled hsettled hopen hf (hdone f hf)

/-- What the fork join says is what the forks have come to. -/
theorem Sound.joined (h : s.Sound) : s.Joined where
  ok hok := Int.le_trans (h.ok hok) (Int.ofNat_le.mpr h.successCounter_le)
  failed := h.of_failed
  ok_settled := by
    intro hsettled henough
    cases htype : s.join.type with
    | OK => rfl
    | FAILED =>
        have hfew := (h.of_failed htype).2
        omega
    | INIT =>
        have hfew := h.successes_lt hsettled (by simp [FutureForkJoin.completed, htype])
        omega
  failed_settled := by
    intro hsettled hdone hfew
    cases htype : s.join.type with
    | FAILED => rfl
    | OK =>
        have hle : (s.join.successCounter : Int) ≤ s.successes := Int.ofNat_le.mpr h.successCounter_le
        have henough := h.ok htype
        omega
    | INIT => exact absurd hdone (h.not_all_done hsettled (by simp [FutureForkJoin.completed, htype]))
  copy := ⟨h.nodup, h.order.2.1, h.order.1, h.order.2.2⟩
  evaluated := by
    intro i hi
    obtain ⟨f, hf, hev⟩ := (h.copy i).mp hi
    have hvalid := h.valid f (mem_of_getElem? hf)
    have hparts := Bool.and_eq_true_iff.mp hev
    exact ⟨f, hf, hparts.1, hvalid.isDone_of_past (hvalid.past_of_evaluated hev), by simpa using hparts.2⟩
  kept := by
    intro i f hf hsome hi
    by_contra hslot
    exact hi ((h.copy i).mpr ⟨f, hf, by simpa [Fork.evaluated, hsome] using hslot⟩)
  notEarlier := by
    intro hcompleted f hf
    have hzero := h.count.symm.trans (h.done.mp hcompleted)
    have hover : f.listener = .finished := by simpa using countP_eq_zero.mp hzero f hf
    exact (h.valid f hf).isDone_of_past (by simp [Fork.past, hover])
  soon := by
    intro hsettled hdone
    rw [h.done, h.count, countP_eq_zero]
    intro f hf
    simp [h.over_of_settled hsettled hf (hdone f hf)]

/-- Whatever the forks do and in which order, a fork join keeps its promise if its loop
    does not find it completed before the end of the array. -/
theorem joined_of_unhurried (h : Reached step Unhurried Fresh s) : s.Joined :=
  (h.invariant (P := Sound) (fun _ hfresh => hfresh.sound)
    fun _ _ _ hsound hcond hstep => step_sound hsound hcond hstep).joined

/-- A null, a fork that has failed already, and one that succeeds in the end. -/
theorem joined_three_forks :
    ∃ s, Reached step Unhurried Fresh s ∧ s.join.type = .OK ∧ s.join.forksCopy = [1, 2] ∧ s.futuresCompleted = true ∧
      s.Joined := by
  let s₀ := create 1 false [none, some (some false), some none]
  let events : List ForkEvent :=
    [.join, .join, .join, .join, .join, .listener 1, .listener 1, .join, .join, .join, .complete 2 true, .listener 2,
      .join, .listener 2]
  have hstart : Reached step Unhurried Fresh s₀ := .start ⟨1, false, _, by decide, by decide, rfl⟩
  have hsome : (replay step Unhurried events s₀).map (fun s => (s.join.type, s.join.forksCopy, s.futuresCompleted)) =
      some (.OK, [1, 2], true) := by decide +kernel
  obtain ⟨s, hs, heq⟩ := Option.map_eq_some_iff.mp hsome
  simp only [Prod.mk.injEq] at heq
  exact ⟨s, hstart.replay events hs, heq.1, heq.2.1, heq.2.2, joined_of_unhurried (hstart.replay events hs)⟩

/-- The first fork has succeeded already, which is enough. The loop returns at the second
    one, which is never counted: both are done, and that is never said. -/
theorem not_joined_hurried : ¬ ∀ s, Reached step (fun _ _ => True) Fresh s → s.Joined := by
  intro hall
  let s₀ := create 1 false [some (some true), some none]
  let events : List ForkEvent := [.join, .join, .listener 0, .listener 0, .join, .join, .complete 1 true]
  have hstart : Reached step (fun _ _ => True) Fresh s₀ := .start ⟨1, false, _, by decide, by decide, rfl⟩
  have hsome : (replay step (fun _ _ => True) events s₀).map (fun s => (s.control, s.forks, s.futuresCompleted)) =
      some (.ended, [⟨some (some true), false, .finished⟩, ⟨some (some true), true, .absent⟩], false) := by decide +kernel
  obtain ⟨s, hs, heq⟩ := Option.map_eq_some_iff.mp hsome
  simp only [Prod.mk.injEq] at heq
  have hsoon := (hall s (hstart.replay events hs)).soon
  rw [Settled, heq.1, heq.2.1, heq.2.2] at hsoon
  exact absurd (hsoon ⟨rfl, by decide⟩ (by decide)) (by decide)

end ForkArray

end TomP2P
