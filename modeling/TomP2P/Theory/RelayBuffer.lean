import TomP2P.Core.Forwarder
import TomP2P.Foundation.Runs
import Mathlib.Data.List.Perm.Basic
import Mathlib.Data.List.Count

/-!
# The Buffer of a Relay

What becomes of the messages in the buffer of a forwarder, for every order in which
threads add to it and drain it.

`buffered` copies the buffer in one step and clears it in another one. A message that
is added in between is cleared without being in the copy, and two threads that copy
before one of them clears both return what is in the buffer. As long as every `clear`
finds the messages that were copied (`Undisturbed`), the messages that were added are
those that were returned and those in the buffer (`Accounted`), and nothing is lost
or duplicated.

## Main definitions

* `Forwarder.Undisturbed`: The buffer is cleared of what was copied.
* `Forwarder.Delivered`: A message is returned by exactly one drain.
* `Forwarder.Accounted`: The messages are in the buffer, or were returned.

## Theorems

* `Forwarder.go_cases`: What a step of a thread does to the messages.
* `Forwarder.step_accounted`: What every step keeps.
* `Forwarder.delivered_of_undisturbed`: In a run that is not disturbed every message
  is returned by one drain.
-/

namespace TomP2P

open Function List

namespace Forwarder

variable {T M : Type}

/-- The messages that were returned by drains. -/
def returned (s : Forwarder T M) : List M := s.drains.flatMap (·.retVal)

/-- The copy that a thread has made before it clears the buffer. -/
def copied (s : Forwarder T M) (t : T) : Option (List M) :=
  match s.threads t with
  | .clear _ retVal _ => some retVal
  | _ => none

/-- If a thread is about to clear the buffer then there are the messages that it has
    copied. -/
def Undisturbed (s : Forwarder T M) : ForwarderEvent T M → Prop
  | .call _ _ => True
  | .go t _ => ∀ retVal ∈ s.copied t, retVal.Perm s.buffer

instance [DecidableEq M] (s : Forwarder T M) : ∀ e, Decidable (s.Undisturbed e)
  | .call _ _ => .isTrue trivial
  | .go t _ => inferInstanceAs (Decidable (∀ retVal ∈ s.copied t, retVal.Perm s.buffer))

/-- A message is not returned more often than it was added, and once a drain has
    completed, all that was added before that drain was returned. A message that was
    added once, before a drain that has completed, is thus in one drain. -/
structure Delivered [DecidableEq M] (s : Forwarder T M) (m : M) : Prop where
  notTwice : s.returned.count m ≤ s.added.count m
  notLost : ∀ d ∈ s.drains, (s.added.take d.since).count m ≤ s.returned.count m
  exactlyOne : s.added.count m = 1 → (∃ d ∈ s.drains, m ∈ s.added.take d.since) →
    (s.drains.filter fun d => m ∈ d.retVal).length = 1

/-- Where the messages are. The other fields say that drains have started in the past,
    and that they have found what was added until then. -/
structure Accounted (s : Forwarder T M) : Prop where
  total : s.added.Perm (s.returned ++ s.buffer)
  threads : ∀ t drainer retVal since, s.threads t = .clear drainer retVal since → since ≤ s.added.length
  drains : ∀ d ∈ s.drains, d.since ≤ s.added.length
  found : ∀ d ∈ s.drains, (s.added.take d.since).Subperm s.returned

/-! ### Steps -/

section Steps

variable [DecidableEq T] {s s' : Forwarder T M} {t : T} {now : Int}

/-- What a step of a thread does to the messages: nothing, one is added, the buffer is
    copied or it is cleared. -/
theorem go_cases (h : s.go t now = some s') :
    (∃ pc, s'.threads = update s.threads t pc ∧
        (∀ drainer retVal since, pc = .clear drainer retVal since →
          retVal = s.buffer ∧ since = s.added.length) ∧
        s'.buffer = s.buffer ∧ s'.added = s.added ∧ s'.drains = s.drains) ∨
    (∃ m, s.threads t = .add m ∧
        s' = ({ s with buffer := s.buffer ++ [m], added := s.added ++ [m] } : Forwarder T M).goto t .checkSize) ∨
    (∃ drainer retVal since, s.threads t = .clear drainer retVal since ∧
        s' = ({ s with buffer := [], drains := s.drains ++ [⟨since, retVal⟩] } : Forwarder T M).goto t (afterBuffered drainer)) := by
  unfold go at h
  cases hpc : s.threads t with
  | idle => rw [hpc] at h; simp at h
  | add m =>
      rw [hpc] at h
      exact .inr (.inl ⟨m, rfl, (Option.some.inj h).symm⟩)
  | clear drainer retVal since =>
      rw [hpc] at h
      exact .inr (.inr ⟨drainer, retVal, since, rfl, (Option.some.inj h).symm⟩)
  | copy drainer =>
      rw [hpc] at h
      rw [← Option.some.inj h]
      refine .inl ⟨_, rfl, ?_, rfl, rfl, rfl⟩
      intro drainer' retVal since heq
      simp only [ForwarderPc.clear.injEq] at heq
      exact ⟨heq.2.1.symm, heq.2.2.symm⟩
  | checkSize | checkFull | checkTime =>
      rw [hpc] at h
      rw [← Option.some.inj h]
      refine .inl ⟨_, rfl, ?_, rfl, rfl, rfl⟩
      intro drainer retVal since heq
      split at heq <;> simp at heq
  | access =>
      rw [hpc] at h
      rw [← Option.some.inj h]
      exact .inl ⟨.idle, rfl, by simp, rfl, rfl, rfl⟩

omit [DecidableEq T] in
theorem returned_append (s : Forwarder T M) (ds : List (Drain M)) (b : List M) :
    ({ s with buffer := b, drains := s.drains ++ ds } : Forwarder T M).returned =
      s.returned ++ ds.flatMap (·.retVal) := by
  simp [returned]

/-- A thread that goes somewhere else without touching the messages. -/
theorem Accounted.move (h : s.Accounted) {pc : ForwarderPc M} (hthreads : s'.threads = update s.threads t pc)
    (hpc : ∀ drainer retVal since, pc = .clear drainer retVal since → since ≤ s.added.length)
    (hbuffer : s'.buffer = s.buffer) (hadded : s'.added = s.added) (hdrains : s'.drains = s.drains) :
    s'.Accounted := by
  have hreturned : s'.returned = s.returned := by rw [returned, hdrains, returned]
  refine ⟨?_, ?_, ?_, ?_⟩
  · rw [hadded, hreturned, hbuffer]
    exact h.total
  · intro t' drainer retVal since heq
    rw [hadded]
    rw [hthreads] at heq
    by_cases ht : t' = t
    · rw [ht, update_self] at heq
      exact hpc _ _ _ heq
    · rw [update_of_ne ht] at heq
      exact h.threads _ _ _ _ heq
  · rw [hdrains, hadded]
    exact h.drains
  · rw [hdrains, hadded, hreturned]
    exact h.found

omit [DecidableEq T] in
theorem Accounted.add (h : s.Accounted) (m : M) :
    ({ s with buffer := s.buffer ++ [m], added := s.added ++ [m] } : Forwarder T M).Accounted := by
  refine ⟨?_, ?_, ?_, ?_⟩
  · rw [show ({ s with buffer := s.buffer ++ [m], added := s.added ++ [m] } : Forwarder T M).returned = s.returned from rfl]
    rw [← append_assoc]
    exact h.total.append_right [m]
  · intro t' drainer retVal since heq
    have hle := h.threads t' drainer retVal since heq
    simp only [length_append]
    omega
  · intro d hd
    have hle := h.drains d hd
    simp only [length_append]
    omega
  · intro d hd
    -- What was added before the drain is still the same.
    show ((s.added ++ [m]).take d.since).Subperm s.returned
    rw [take_append_of_le_length (h.drains d hd)]
    exact h.found d hd

omit [DecidableEq T] in
/-- The messages are still accounted for after a `clear`, exactly if the thread has
    copied what is in the buffer. -/
theorem total_clear_iff (htotal : s.added.Perm (s.returned ++ s.buffer)) (retVal : List M) :
    s.added.Perm ((s.returned ++ retVal) ++ []) ↔ retVal.Perm s.buffer := by
  rw [append_nil]
  constructor
  · intro h
    exact (perm_append_left_iff s.returned).mp (h.symm.trans htotal)
  · intro h
    exact htotal.trans ((perm_append_left_iff s.returned).mpr h.symm)

omit [DecidableEq T] in
theorem Accounted.clear (h : s.Accounted) {retVal : List M} {since : Nat} (hsince : since ≤ s.added.length)
    (hperm : retVal.Perm s.buffer) :
    ({ s with buffer := [], drains := s.drains ++ [⟨since, retVal⟩] } : Forwarder T M).Accounted := by
  have hreturned := returned_append s [⟨since, retVal⟩] []
  rw [flatMap_singleton] at hreturned
  have htotal := (total_clear_iff h.total retVal).mpr hperm
  refine ⟨?_, h.threads, ?_, ?_⟩
  · rw [hreturned]
    exact htotal
  · intro d hd
    rcases mem_append.mp hd with hd | hd
    · exact h.drains d hd
    · rw [mem_singleton.mp hd]
      exact hsince
  · intro d hd
    rw [hreturned]
    rcases mem_append.mp hd with hd | hd
    · exact (h.found d hd).trans (sublist_append_left _ _).subperm
    · -- All that was added was returned now, also what was added before the copy.
      rw [append_nil] at htotal
      exact (take_sublist _ _).subperm.trans htotal.subperm

/-- Every step keeps account of the messages, if a thread that clears the buffer has
    not been disturbed. -/
theorem step_accounted (h : s.Accounted) {e : ForwarderEvent T M} (hcond : s.Undisturbed e)
    (hstep : s.step e = some s') : s'.Accounted := by
  cases e with
  | call t c =>
      simp only [step] at hstep
      split at hstep
      · rw [← Option.some.inj hstep]
        refine h.move rfl ?_ rfl rfl rfl
        intro drainer retVal since heq
        cases c with
        | forwardOrBuffer m =>
            simp only [enter] at heq
            split at heq <;> simp at heq
        | _ => simp [enter] at heq
      · simp at hstep
  | go t now =>
      rcases go_cases hstep with ⟨pc, hthreads, hpc, hbuffer, hadded, hdrains⟩ | ⟨m, _, rfl⟩ | ⟨drainer, retVal, since, ht, rfl⟩
      · refine h.move hthreads ?_ hbuffer hadded hdrains
        intro drainer retVal since heq
        exact (hpc drainer retVal since heq).2.le
      · exact (h.add m).move rfl (by simp) rfl rfl rfl
      · have hperm : retVal.Perm s.buffer := hcond retVal (by simp [copied, ht])
        refine (h.clear (h.threads t _ _ _ ht) hperm).move rfl ?_ rfl rfl rfl
        intro drainer' retVal' since' heq
        cases drainer <;> simp [afterBuffered] at heq

end Steps

/-! ### Runs -/

theorem Fresh.accounted {s : Forwarder T M} (h : s.Fresh) : s.Accounted := by
  obtain ⟨hbuffer, hadded, hdrains, hthreads⟩ := h
  refine ⟨by simp [returned, hbuffer, hadded, hdrains], ?_, by simp [hdrains], by simp [hdrains]⟩
  intro t drainer retVal since heq
  rw [hthreads] at heq
  simp at heq

/-- A message that drains have returned once is in one drain. -/
theorem length_filter_mem [DecidableEq M] (m : M) (ds : List (Drain M)) (h : (ds.flatMap (·.retVal)).count m = 1) :
    (ds.filter fun d => m ∈ d.retVal).length = 1 := by
  induction ds with
  | nil => simp at h
  | cons d ds ih =>
      rw [flatMap_cons, count_append] at h
      by_cases hm : m ∈ d.retVal
      · have hpos := count_pos_iff.mpr hm
        have hzero : (ds.flatMap (·.retVal)).count m = 0 := by omega
        have hnone : ds.filter (fun d => m ∈ d.retVal) = [] := by
          rw [filter_eq_nil_iff]
          intro d' hd' hmem
          rw [count_eq_zero] at hzero
          exact hzero (mem_flatMap.mpr ⟨d', hd', by simpa using hmem⟩)
        simp [hm, hnone]
      · have hzero := count_eq_zero.mpr hm
        simp only [filter_cons, hm, decide_false, Bool.false_eq_true, if_false]
        exact ih (by omega)

theorem Accounted.delivered [DecidableEq M] {s : Forwarder T M} (h : s.Accounted) (m : M) : s.Delivered m := by
  have hle : s.returned.count m ≤ s.added.count m := by
    rw [h.total.count_eq m, count_append]
    omega
  have hfound : ∀ d ∈ s.drains, (s.added.take d.since).count m ≤ s.returned.count m :=
    fun d hd => (h.found d hd).count_le m
  refine ⟨hle, hfound, ?_⟩
  intro hone hdrain
  obtain ⟨d, hd, hm⟩ := hdrain
  have hpos := count_pos_iff.mpr hm
  have hfound := hfound d hd
  exact length_filter_mem m s.drains (by rw [returned] at hle hfound; omega)

/-- In every run in which a `clear` finds the messages that were copied, whatever the
    threads do otherwise, every message is returned by exactly one drain. -/
theorem delivered_of_undisturbed [DecidableEq T] [DecidableEq M] {s : Forwarder T M} (h : Reached step Undisturbed Fresh s) (m : M) :
    s.Delivered m := by
  have haccounted := h.invariant Accounted (fun _ h => h.accounted) (fun _ _ _ h hc hs => step_accounted h hc hs)
  exact haccounted.delivered m

/-- Two threads, the second of which adds a message after the first has drained. -/
theorem delivered_two_threads :
    ∃ s : Forwarder Bool Nat, Reached step Undisturbed Fresh s ∧ s.drains = [⟨1, [7]⟩, ⟨2, [8]⟩] ∧ s.Delivered 8 := by
  let s₀ : Forwarder Bool Nat := { isSlow := true, bufferSize := 0, bufferTimeoutSeconds := 60, lastAccess := 0 }
  let events : List (ForwarderEvent Bool Nat) :=
    [.call true (.forwardOrBuffer 7), .go true 0, .go true 0, .go true 0, .go true 0, .go true 0,
      .call false (.forwardOrBuffer 8), .go false 1, .go true 1, .call true .handleMap, .go true 2, .go true 2]
  have hstart : Reached step Undisturbed Fresh s₀ := .start ⟨rfl, rfl, rfl, fun _ => rfl⟩
  have hsome : ((replay step Undisturbed events s₀).map (·.drains)) = some [⟨1, [7]⟩, ⟨2, [8]⟩] := by decide +kernel
  obtain ⟨s, hs, hdrains⟩ := Option.map_eq_some_iff.mp hsome
  exact ⟨s, hstart.replay events hs, hdrains, delivered_of_undisturbed (hstart.replay events hs) 8⟩

/-- A message that is added between the copy and the `clear` of another thread is
    gone: the next drain returns nothing. -/
theorem not_delivered_between :
    ¬ ∀ (s : Forwarder Bool Nat), Reached step (fun _ _ => True) Fresh s → ∀ m, s.Delivered m := by
  intro hall
  let s₀ : Forwarder Bool Nat := { isSlow := true, bufferSize := 10, bufferTimeoutSeconds := 60, lastAccess := 0 }
  let events : List (ForwarderEvent Bool Nat) :=
    [.call true .handleMap, .go true 0, .call false (.forwardOrBuffer 8), .go false 1, .go true 1, .go true 1,
      .call true .handleMap, .go true 2, .go true 2]
  have hstart : Reached step (fun _ _ => True) Fresh s₀ := .start ⟨rfl, rfl, rfl, fun _ => rfl⟩
  have hsome : ((replay step (fun _ _ => True) events s₀).map fun s => (s.added, s.drains)) =
      some ([8], [⟨0, []⟩, ⟨1, []⟩]) := by decide +kernel
  obtain ⟨s, hs, heq⟩ := Option.map_eq_some_iff.mp hsome
  simp only [Prod.mk.injEq] at heq
  have hlost := (hall s (hstart.replay events hs) 8).notLost ⟨1, []⟩ (by rw [heq.2]; decide)
  rw [returned, heq.1, heq.2] at hlost
  exact absurd hlost (by decide)

end Forwarder

end TomP2P
