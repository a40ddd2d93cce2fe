import TomP2P.Core.Futures
import TomP2P.Foundation.Runs
import Mathlib.Algebra.Order.BigOperators.Group.Finset
import Mathlib.Data.List.Range

/-!
# What Combined Futures Wait for

The returned future of a combinator says how the futures of the list have completed, in whatever
order they do and their listeners run. What the listeners share is a counter, and a position is
counted once at most, and only if its future has completed as the combinator counts it
(`Counts`). So the counter reaches the length of the list only when all of them have, and it is
the last listener that then completes the returned future.

Of no futures there is no last listener, nor any. Such a combinator waits forever.

Which future is taken is a matter of the listeners. It is the first that could be if they call
`done` in the order in which their futures completed (`InOrder`). Otherwise a listener may be
overtaken by another one, and the futures that had completed before the call come in the order of
the list.

## Main definitions

* `Counts`: What a combinator counts.
* `Sound`: What holds in every state.
* `Idle`: The listeners are through.
* `Combines`: The returned future says how the others have completed.
* `TakesFirst`: The future that is taken is the first.
* `InOrder`: Listeners run in the order of the futures.

## Theorems

* `Sound.step`: Every step keeps the state sound.
* `Sound.combines`: A sound state says the right thing, if there is a future.
* `rank_lt`: The listeners come to an end.
* `combines_iff`: A combinator works exactly if the list is not empty.
-/

namespace TomP2P

open Function List

namespace Futures

variable {F : Type}

/-- What a combinator counts. -/
def Counts : Combinator → FutureType → Prop
  | .whenAll, _ => True
  | .whenAllSuccess, type => type = .OK
  | .whenAny, _ => False
  | .whenAnySuccess, type => type ≠ .OK

/-- The future at a position has completed, in this way. -/
def Ended (s : Futures F) (n : Nat) (P : FutureType → Prop) : Prop := ∃ c, s.completion n = some c ∧ P c.type

/-- What the state of a listener says. -/
def PcOk (s : Futures F) (n : Nat) : Prop :=
  match s.pc n with
  | .unregistered => n ∉ s.counted
  | .waiting => n ∉ s.counted
  | .isCompleted => n ∉ s.counted ∧ s.Ended n (fun _ => True) ∧ s.combinator.start = .isCompleted
  | .ask => n ∉ s.counted ∧ s.Ended n (fun _ => True) ∧ s.combinator.start = .isCompleted
  | .incrementAndGet => n ∉ s.counted ∧ s.Ended n (Counts s.combinator)
  | .done =>
      match s.combinator with
      | .whenAny => s.Ended n fun _ => True
      | .whenAnySuccess => s.Ended n fun type => type = .OK
      | _ => s.Ended n (fun _ => True) ∧ s.counter = s.size
  | .failed =>
      match s.combinator with
      | .whenAllSuccess => s.Ended n fun type => type ≠ .OK
      | .whenAnySuccess => s.Ended n (fun _ => True) ∧ s.counter = s.size
      | _ => False
  | .returned => s.Ended n (fun _ => True) ∧ (n ∈ s.counted ∨ s.futureDone.isSome = true)

/-- What the returned future says. -/
def ResultOk (s : Futures F) : Prop :=
  match s.futureDone with
  | none => True
  | some (.all futures) =>
      futures = s.all ∧ (s.combinator = .whenAll ∨ s.combinator = .whenAllSuccess) ∧ s.counter = s.size
  | some (.one future) =>
      ∃ n, s.all[n]? = some future ∧ (s.combinator = .whenAny ∧ s.Ended n (fun _ => True) ∨
        s.combinator = .whenAnySuccess ∧ s.Ended n fun type => type = .OK)
  | some (.failed reason) =>
      (s.combinator = .whenAllSuccess ∧
        ∃ n c, s.completion n = some c ∧ c.type ≠ .OK ∧ reason = c.failedReason) ∨
      s.combinator = .whenAnySuccess ∧ s.counter = s.size ∧ reason = "not a single future was successful"

/-- What holds in every state. -/
structure Sound (s : Futures F) : Prop where
  registered_le : s.registered ≤ s.size
  unregistered_iff : ∀ n, s.pc n = .unregistered ↔ s.registered ≤ n
  pcs : ∀ n, s.PcOk n
  nodup : s.counted.Nodup
  counter : s.counter = s.counted.length
  counted : ∀ n ∈ s.counted, n < s.size ∧ s.Ended n (Counts s.combinator)
  result : s.ResultOk
  /-- Who counts to the end has something left to do, or has completed the returned future. -/
  finishing : s.counter = s.size → s.size ≠ 0 →
    s.futureDone.isSome = true ∨ ∃ n, s.pc n = s.combinator.last ∧ s.Ended n fun _ => True

section Purpose

variable [DecidableEq F]

/-- What listeners do, when nothing completes anymore. -/
def listen (s : Futures F) : Event F → Option (Futures F)
  | .complete _ _ => none
  | e => s.step e

/-- No listener can do anything. -/
def Idle (s : Futures F) : Prop := ∀ e, s.listen e = none

def Result.isFailed : Result F → Bool
  | .failed _ => true
  | _ => false

/-- What the returned future may be completed with. -/
def Says (s : Futures F) (result : Result F) : Prop :=
  match s.combinator, result with
  | .whenAll, .all futures => futures = s.all ∧ ∀ f ∈ s.all, ∃ c, s.futures f = some c
  | .whenAllSuccess, .all futures => futures = s.all ∧ ∀ f ∈ s.all, ∃ c, s.futures f = some c ∧ c.type = .OK
  | .whenAllSuccess, .failed reason =>
      ∃ f ∈ s.all, ∃ c, s.futures f = some c ∧ c.type ≠ .OK ∧ reason = c.failedReason
  | .whenAny, .one future => future ∈ s.all ∧ ∃ c, s.futures future = some c
  | .whenAnySuccess, .one future => future ∈ s.all ∧ ∃ c, s.futures future = some c ∧ c.type = .OK
  | .whenAnySuccess, .failed reason =>
      reason = "not a single future was successful" ∧ ∀ f ∈ s.all, ∃ c, s.futures f = some c ∧ c.type ≠ .OK
  | _, _ => False

/-- The returned future says how the others have completed. -/
structure Combines (s : Futures F) : Prop where
  result : ∀ result, s.futureDone = some result → s.Says result
  /-- When the listeners are through, it has succeeded, or failed, exactly if there is such a thing
      to say. -/
  answers : s.Idle → ∀ failed, (∃ result, s.futureDone = some result ∧ result.isFailed = failed) ↔
    ∃ result, s.Says result ∧ result.isFailed = failed
  completes : s.Idle → (∀ f ∈ s.all, (s.futures f).isSome = true) → s.futureDone.isSome = true
  /-- The listeners will be through. -/
  ends : ¬ ∃ run : Nat → Futures F, run 0 = s ∧ ∀ n, ∃ e, (run n).listen e = some (run (n + 1))

/-- Which futures can be taken. -/
def Combinator.takes : Combinator → FutureType → Bool
  | .whenAny, _ => true
  | .whenAnySuccess, type => type = .OK
  | _, _ => false

/-- The futures of the list that could have been taken and completed before this one. -/
def earlier (s : Futures F) (future : F) : List F :=
  (s.completions.takeWhile (· ≠ future)).filter fun f =>
    decide (f ∈ s.all) && (s.futures f).any fun c => s.combinator.takes c.type

/-- The future that is taken is the first one that could be. -/
def TakesFirst (s : Futures F) : Prop := ∀ future, s.futureDone = some (.one future) → s.earlier future = []

/-- A listener calls `done` behind those of the futures that completed before its own. -/
def InOrder (s : Futures F) (e : Event F) : Prop :=
  ∀ n future, e = .go n → s.pc n = .done → s.all[n]? = some future →
    ∀ f ∈ s.earlier future, ∃ m, s.all[m]? = some f ∧ s.pc m = .returned

end Purpose

theorem Ended.mono {s : Futures F} {n : Nat} {P Q : FutureType → Prop} (h : s.Ended n P) (hPQ : ∀ t, P t → Q t) :
    s.Ended n Q := by
  obtain ⟨c, hc, hP⟩ := h
  exact ⟨c, hc, hPQ _ hP⟩

/-- Only a position of the list has ended. -/
theorem Ended.lt {s : Futures F} {n : Nat} {P : FutureType → Prop} (h : s.Ended n P) : n < s.size := by
  obtain ⟨c, hc, -⟩ := h
  unfold completion at hc
  by_contra hge
  rw [getElem?_eq_none (not_lt.1 hge)] at hc
  cases hc

section Steps

variable {s s' : Futures F} {n : Nat}

/-- A position that was not counted yet is missing in the counter. -/
theorem Sound.counter_lt (h : s.Sound) (hn : n < s.size) (hnot : n ∉ s.counted) : s.counter < s.size := by
  have hsub : n :: s.counted ⊆ List.range s.size := by
    intro m hm
    rw [mem_range]
    rcases mem_cons.1 hm with rfl | hm
    · exact hn
    · exact (h.counted m hm).1
  have hnodup : (n :: s.counted).Nodup := nodup_cons.2 ⟨hnot, h.nodup⟩
  have hle := hnodup.length_le_of_subset hsub
  rw [length_cons, length_range, ← h.counter] at hle
  omega

/-- A position keeps what its state says, if nothing that it says changes for the worse. -/
theorem PcOk.keep (h : s.PcOk n) (hpc : s'.pc n = s.pc n) (hcombinator : s'.combinator = s.combinator)
    (hended : ∀ P, s.Ended n P → s'.Ended n P)
    (hcounted : n ∈ s'.counted ↔ n ∈ s.counted) (hcounter : s.counter = s.size → s'.counter = s'.size)
    (hdone : s.futureDone.isSome = true → s'.futureDone.isSome = true) : s'.PcOk n := by
  unfold PcOk at h ⊢
  rw [hpc, hcombinator, hcounted]
  -- Only what a completed future says and what the counter has reached is looked at.
  cases hp : s.pc n with
  | unregistered | waiting =>
      rw [hp] at h
      exact h
  | isCompleted | ask =>
      rw [hp] at h
      exact ⟨h.1, hended _ h.2.1, h.2.2⟩
  | incrementAndGet =>
      rw [hp] at h
      exact ⟨h.1, hended _ h.2⟩
  | done =>
      rw [hp] at h
      cases hc : s.combinator with
      | whenAll | whenAllSuccess =>
          simp only [hc] at h ⊢
          exact ⟨hended _ h.1, hcounter h.2⟩
      | whenAny | whenAnySuccess =>
          simp only [hc] at h ⊢
          exact hended _ h
  | failed =>
      rw [hp] at h
      cases hc : s.combinator with
      | whenAll | whenAny => simp only [hc] at h
      | whenAllSuccess =>
          simp only [hc] at h ⊢
          exact hended _ h
      | whenAnySuccess =>
          simp only [hc] at h ⊢
          exact ⟨hended _ h.1, hcounter h.2⟩
  | returned =>
      rw [hp] at h
      exact ⟨hended _ h.1, h.2.imp_right hdone⟩

/-- The returned future keeps what it says. -/
theorem ResultOk.keep (h : s.ResultOk) (hcombinator : s'.combinator = s.combinator) (hall : s'.all = s.all)
    (hcompletion : ∀ n c, s.completion n = some c → s'.completion n = some c)
    (hcounter : s.counter = s.size → s'.counter = s'.size) (hdone : s'.futureDone = s.futureDone) : s'.ResultOk := by
  have hended : ∀ n P, s.Ended n P → s'.Ended n P := by
    rintro n P ⟨c, hc, hP⟩
    exact ⟨c, hcompletion n c hc, hP⟩
  unfold ResultOk at h ⊢
  rw [hdone, hcombinator, hall]
  -- It speaks of futures that have completed, which stay so.
  cases hresult : s.futureDone with
  | none => trivial
  | some result =>
      rw [hresult] at h
      cases result with
      | all futures => exact ⟨h.1, h.2.1, hcounter h.2.2⟩
      | one future =>
          obtain ⟨n, hn, hcase⟩ := h
          exact ⟨n, hn, hcase.imp (fun hand => ⟨hand.1, hended _ _ hand.2⟩) fun hand => ⟨hand.1, hended _ _ hand.2⟩⟩
      | failed reason =>
          rcases h with ⟨hc, n, c, hn, hne, hreason⟩ | ⟨hc, hsize, hreason⟩
          · exact .inl ⟨hc, n, c, hcompletion n c hn, hne, hreason⟩
          · exact .inr ⟨hc, hcounter hsize, hreason⟩

/-- A listener ends by completing the returned future, in one way or the other. -/
theorem Combinator.last_eq (combinator : Combinator) : combinator.last = .done ∨ combinator.last = .failed := by
  cases combinator with
  | whenAll | whenAllSuccess | whenAny => exact .inl rfl
  | whenAnySuccess => exact .inr rfl

/-- A listener moves on, or is added. -/
theorem Sound.move (h : s.Sound) {pc : Pc} {registered : Nat} (hle : registered ≤ s.size)
    (hiff : ∀ m, (s.setPc n pc).pc m = .unregistered ↔ registered ≤ m) (hok : (s.setPc n pc).PcOk n)
    (hlast : s.pc n ≠ s.combinator.last) : Sound { s.setPc n pc with registered } where
  registered_le := hle
  unregistered_iff := hiff
  pcs := by
    intro m
    by_cases hm : m = n
    · subst hm
      exact hok
    · exact (h.pcs m).keep (update_of_ne hm _ _) rfl (fun _ hended => hended) Iff.rfl id id
  nodup := h.nodup
  counter := h.counter
  counted := h.counted
  result := h.result
  finishing := by
    intro hcounter hsize
    rcases h.finishing hcounter hsize with hdone | ⟨m, hm, hended⟩
    · exact .inl hdone
    · refine .inr ⟨m, ?_, hended⟩
      have hne : m ≠ n := by
        rintro rfl
        exact hlast hm
      exact (update_of_ne hne _ _).trans hm

/-- Moving a listener that is there changes nobody from being there. -/
theorem setPc_unregistered_iff (h : s.Sound) {pc : Pc} (hn : s.pc n ≠ .unregistered) (hpc : pc ≠ .unregistered)
    (m : Nat) : (s.setPc n pc).pc m = .unregistered ↔ s.registered ≤ m := by
  rw [← h.unregistered_iff m]
  by_cases hm : m = n
  · subst hm
    simp [setPc, hpc, hn]
  · simp [setPc, hm]

/-- A listener moves on, and nothing else changes. -/
theorem Sound.setPc (h : s.Sound) {pc : Pc} (hn : s.pc n ≠ .unregistered) (hpc : pc ≠ .unregistered)
    (hok : (s.setPc n pc).PcOk n) (hlast : s.pc n ≠ s.combinator.last) : (s.setPc n pc).Sound :=
  h.move h.registered_le (setPc_unregistered_iff h hn hpc) hok hlast

theorem ended_iff {P : FutureType → Prop} {future : F} (hn : s.all[n]? = some future) :
    s.Ended n P ↔ ∃ c, s.futures future = some c ∧ P c.type := by
  unfold Ended completion
  rw [hn]
  rfl

/-- Over all positions is over all futures. -/
theorem forall_ended_iff {P : FutureType → Prop} :
    (∀ n < s.size, s.Ended n P) ↔ ∀ f ∈ s.all, ∃ c, s.futures f = some c ∧ P c.type := by
  constructor
  · intro h f hf
    obtain ⟨n, hn⟩ := mem_iff_getElem?.1 hf
    exact (ended_iff hn).1 (h n (List.getElem?_eq_some_iff.1 hn).1)
  · intro h n hn
    have hget : s.all[n]? = some (s.all.get ⟨n, hn⟩) := getElem?_eq_getElem hn
    exact (ended_iff hget).2 (h _ (getElem_mem hn))

/-- A full counter has counted every position. -/
theorem Sound.full (h : s.Sound) (hfull : s.counter = s.size) : ∀ n < s.size, s.Ended n (Counts s.combinator) := by
  intro n hn
  by_contra hnot
  have hlt := h.counter_lt hn fun hmem => hnot (h.counted n hmem).2
  omega

/-- A listener whose future has completed can start. -/
theorem pcOk_start (hpc : s.pc n = s.combinator.start) (hnot : n ∉ s.counted) (hended : s.Ended n fun _ => True) :
    s.PcOk n := by
  unfold PcOk
  cases hc : s.combinator with
  | whenAll =>
      rw [hc] at hpc
      rw [hpc]
      exact ⟨hnot, hended.mono fun _ _ => trivial⟩
  | whenAllSuccess | whenAnySuccess =>
      rw [hc] at hpc
      rw [hpc]
      exact ⟨hnot, hended, rfl⟩
  | whenAny =>
      rw [hc] at hpc
      rw [hpc]
      exact hended

theorem Combinator.start_ne_unregistered (combinator : Combinator) : combinator.start ≠ .unregistered := by
  cases combinator <;> simp [Combinator.start]

/-- A position of which the listener has not started is not counted. -/
theorem Sound.not_counted (h : s.Sound) (hpc : s.pc n = .unregistered ∨ s.pc n = .waiting) : n ∉ s.counted := by
  have hok := h.pcs n
  unfold PcOk at hok
  rcases hpc with hpc | hpc
  · rw [hpc] at hok
    exact hok
  · rw [hpc] at hok
    exact hok

/-- A listener that has not started is not at its last step. -/
theorem ne_last_of_waiting (hpc : s.pc n = .unregistered ∨ s.pc n = .waiting) : s.pc n ≠ s.combinator.last := by
  rcases hpc with hpc | hpc <;> rcases s.combinator.last_eq with hlast | hlast <;> simp [hpc, hlast]

theorem ended_of_completed {future : F} {c : Completion} (hn : s.all[n]? = some future)
    (hc : s.futures future = some c) : s.completion n = some c := by
  unfold completion
  rw [hn]
  exact hc

theorem Combinator.answer_ne_unregistered (combinator : Combinator) (type : FutureType) :
    combinator.answer type ≠ .unregistered := by
  cases combinator <;> by_cases htype : type = .OK <;> simp [Combinator.answer, htype]

/-- A listener that has asked how its future completed counts, or completes the returned future. -/
theorem pcOk_answer {c : Completion} (hpc : s.pc n = s.combinator.answer c.type) (hnot : n ∉ s.counted)
    (hc : s.completion n = some c) (hstart : s.combinator.start = .isCompleted) : s.PcOk n := by
  unfold PcOk
  cases hcombinator : s.combinator with
  | whenAll | whenAny =>
      rw [hcombinator] at hstart
      cases hstart
  | whenAllSuccess =>
      rw [hcombinator] at hpc
      by_cases htype : c.type = .OK
      · simp only [hpc, Combinator.answer, ne_eq, htype, not_true, if_false]
        exact ⟨hnot, c, hc, htype⟩
      · simp only [hpc, Combinator.answer, ne_eq, htype, not_false_eq_true, if_true]
        exact ⟨c, hc, htype⟩
  | whenAnySuccess =>
      rw [hcombinator] at hpc
      by_cases htype : c.type = .OK
      · rw [hpc, Combinator.answer, if_pos htype]
        exact ⟨c, hc, htype⟩
      · rw [hpc, Combinator.answer, if_neg htype]
        exact ⟨hnot, c, hc, htype⟩

/-- Who counts is missing in the counter, and is the last one when the counter is full. -/
theorem Sound.increment (h : s.Sound) (hpc : s.pc n = .incrementAndGet) :
    Sound { s.setPc n (if s.counter + 1 = s.size then s.combinator.last else .returned) with
      counter := s.counter + 1
      counted := n :: s.counted } := by
  have hok := h.pcs n
  unfold PcOk at hok
  rw [hpc] at hok
  obtain ⟨hnot, hended⟩ := hok
  -- The position was not counted, so the counter was not full.
  have hlt := h.counter_lt hended.lt hnot
  have hne : (if s.counter + 1 = s.size then s.combinator.last else Pc.returned) ≠ .unregistered := by
    split
    · rcases s.combinator.last_eq with hlast | hlast <;> simp [hlast]
    · exact Pc.noConfusion
  have hall : s.Ended n fun _ => True := hended.mono fun _ _ => trivial
  refine {
    registered_le := h.registered_le
    unregistered_iff := setPc_unregistered_iff h (by simp [hpc]) hne
    pcs := ?_
    nodup := nodup_cons.2 ⟨hnot, h.nodup⟩
    counter := by simp [h.counter]
    counted := ?_
    result := h.result.keep rfl rfl (fun _ _ hc => hc) (fun hfull => absurd hfull hlt.ne) rfl
    finishing := ?_ }
  · intro m
    by_cases hm : m = n
    · subst hm
      by_cases hfull : s.counter + 1 = s.size
      · -- It was the last one.
        simp only [PcOk, Futures.setPc, update_self, if_pos hfull]
        cases hc : s.combinator with
        | whenAll | whenAllSuccess | whenAnySuccess => exact ⟨hall, hfull⟩
        | whenAny =>
            rw [hc] at hended
            -- Here nothing is counted.
            obtain ⟨c, -, hfalse⟩ := hended
            exact hfalse.elim
      · simp only [PcOk, Futures.setPc, update_self, if_neg hfull]
        exact ⟨hall, .inl mem_cons_self⟩
    · refine (h.pcs m).keep (update_of_ne hm _ _) rfl (fun _ hended => hended) ?_
        (fun hfull => absurd hfull hlt.ne) id
      simp [hm]
  · intro m hm
    rcases mem_cons.1 hm with rfl | hm
    · exact ⟨hended.lt, hended⟩
    · exact h.counted m hm
  · intro hfull _
    -- Who has filled the counter completes the returned future.
    refine .inr ⟨n, ?_, hall⟩
    simp only [Futures.setPc, update_self]
    exact if_pos hfull

/-- Who completes the returned future says the right thing. -/
theorem Sound.finish (h : s.Sound) {result : Result F} (hne : s.pc n ≠ .unregistered)
    (hended : s.Ended n fun _ => True) (hresult : ResultOk { s with futureDone := some result }) :
    (s.finish n result).Sound where
  registered_le := h.registered_le
  unregistered_iff := setPc_unregistered_iff h hne Pc.noConfusion
  pcs := by
    intro m
    by_cases hm : m = n
    · subst hm
      simp only [PcOk, Futures.finish, Futures.setPc, update_self]
      exact ⟨hended, .inr rfl⟩
    · exact (h.pcs m).keep (update_of_ne hm _ _) rfl (fun _ hended => hended) Iff.rfl id fun _ => rfl
  nodup := h.nodup
  counter := h.counter
  counted := h.counted
  result := by
    have hok := h.result
    cases hdone : s.futureDone with
    | none =>
        simp only [Futures.finish, hdone, Option.getD_none]
        exact hresult.keep rfl rfl (fun _ _ hc => hc) id rfl
    | some earlier =>
        simp only [Futures.finish, hdone, Option.getD_some]
        exact hok.keep rfl rfl (fun _ _ hc => hc) id hdone.symm
  finishing := fun _ _ => .inl rfl

/-- A combinator that was just called is sound. -/
theorem Fresh.sound {combinator : Combinator} {all : List F} (h : Fresh combinator all s) : s.Sound := by
  obtain ⟨futures, completions, rfl, -, -⟩ := h
  exact {
    registered_le := Nat.zero_le _
    unregistered_iff := fun n => iff_of_true rfl (Nat.zero_le n)
    pcs := fun n => not_mem_nil
    nodup := nodup_nil
    counter := rfl
    counted := fun n hn => absurd hn not_mem_nil
    result := trivial
    finishing := fun hzero hsize => absurd hzero.symm hsize }

/-- The returned future says the right thing. -/
theorem Sound.right (h : s.Sound) {result : Result F} (hresult : s.futureDone = some result) : s.Says result := by
  have hok := h.result
  unfold ResultOk at hok
  rw [hresult] at hok
  unfold Says
  cases result with
  | all futures =>
      obtain ⟨heq, hcombinator | hcombinator, hfull⟩ := hok
      · rw [hcombinator]
        refine ⟨heq, fun f hf => ?_⟩
        obtain ⟨c, hc, -⟩ := forall_ended_iff.1 (h.full hfull) f hf
        exact ⟨c, hc⟩
      · have hcounted := h.full hfull
        rw [hcombinator] at hcounted ⊢
        exact ⟨heq, forall_ended_iff.1 hcounted⟩
  | one future =>
      obtain ⟨n, hn, ⟨hcombinator, hended⟩ | ⟨hcombinator, hended⟩⟩ := hok
      · rw [hcombinator]
        obtain ⟨c, hc, -⟩ := (ended_iff hn).1 hended
        exact ⟨mem_of_getElem? hn, c, hc⟩
      · rw [hcombinator]
        exact ⟨mem_of_getElem? hn, (ended_iff hn).1 hended⟩
  | failed reason =>
      obtain ⟨hcombinator, n, c, hc, hne, hreason⟩ | ⟨hcombinator, hfull, hreason⟩ := hok
      · rw [hcombinator]
        obtain ⟨f, hf, hfc⟩ := Option.bind_eq_some_iff.1 hc
        exact ⟨f, mem_of_getElem? hf, c, hfc, hne, hreason⟩
      · have hcounted := h.full hfull
        rw [hcombinator] at hcounted ⊢
        exact ⟨hreason, forall_ended_iff.1 hcounted⟩

/-- There is never both a success and a failure to say. -/
theorem Says.isFailed_eq (hsize : s.size ≠ 0) {result result' : Result F} (h : s.Says result)
    (h' : s.Says result') : result.isFailed = result'.isFailed := by
  have hhead : ∃ f, f ∈ s.all := exists_mem_of_length_pos (Nat.pos_of_ne_zero hsize)
  have hcontra {f : F} {c c' : Completion} (hc : s.futures f = some c) (hc' : s.futures f = some c')
      (hok : c.type = .OK) (hne : c'.type ≠ .OK) : False := by
    rw [hc] at hc'
    obtain rfl := Option.some.inj hc'
    exact hne hok
  unfold Says at h h'
  cases hcombinator : s.combinator with
  | whenAll | whenAny => cases result <;> cases result' <;> simp_all [Result.isFailed]
  | whenAllSuccess =>
      rw [hcombinator] at h h'
      cases result <;> cases result' <;> simp only [Result.isFailed] at h h' ⊢
      · obtain ⟨f, hf, c, hc, hne, -⟩ := h'
        obtain ⟨c', hc', hok⟩ := h.2 f hf
        exact (hcontra hc' hc hok hne).elim
      · obtain ⟨f, hf, c, hc, hne, -⟩ := h
        obtain ⟨c', hc', hok⟩ := h'.2 f hf
        exact (hcontra hc' hc hok hne).elim
  | whenAnySuccess =>
      rw [hcombinator] at h h'
      cases result <;> cases result' <;> simp only [Result.isFailed] at h h' ⊢
      · obtain ⟨hf, c, hc, hok⟩ := h
        obtain ⟨c', hc', hne⟩ := h'.2 _ hf
        exact (hcontra hc hc' hok hne).elim
      · obtain ⟨hf, c, hc, hok⟩ := h'
        obtain ⟨c', hc', hne⟩ := h.2 _ hf
        exact (hcontra hc hc' hok hne).elim

variable [DecidableEq F]

/-- A future completes, and the listeners stay where they are. -/
theorem Sound.complete (h : s.Sound) {future : F} {completion : Completion}
    (hstep : s.step (.complete future completion) = some s') : s'.Sound := by
  rw [step] at hstep
  cases hnone : s.futures future with
  | some c =>
      rw [hnone] at hstep
      cases hstep
  | none =>
      rw [hnone] at hstep
      cases hstep
      -- What had completed stays as it is.
      have hcompletion : ∀ n c, s.completion n = some c →
          (s.all[n]?.bind (update s.futures future (some completion))) = some c := by
        intro n c hc
        unfold Futures.completion at hc
        obtain ⟨f, hf, hfc⟩ := Option.bind_eq_some_iff.1 hc
        rw [hf, Option.bind_some]
        have hne : f ≠ future := by
          rintro rfl
          rw [hnone] at hfc
          cases hfc
        rw [update_of_ne hne]
        exact hfc
      have hended : ∀ n P, s.Ended n P → Ended { s with
          futures := update s.futures future (some completion)
          completions := s.completions ++ [future] } n P := by
        rintro n P ⟨c, hc, hP⟩
        exact ⟨c, hcompletion n c hc, hP⟩
      exact {
        registered_le := h.registered_le
        unregistered_iff := h.unregistered_iff
        pcs := fun n => (h.pcs n).keep rfl rfl (hended n) Iff.rfl id id
        nodup := h.nodup
        counter := h.counter
        counted := fun n hn => ⟨(h.counted n hn).1, hended n _ (h.counted n hn).2⟩
        result := h.result.keep rfl rfl hcompletion id rfl
        finishing := fun hcounter hsize => (h.finishing hcounter hsize).imp_right
          fun ⟨m, hm, hm'⟩ => ⟨m, hm, hended m _ hm'⟩ }

/-- The next future gets its listener, which runs at once if the future is completed. -/
theorem Sound.addListener (h : s.Sound) (hstep : s.step .addListener = some s') : s'.Sound := by
  rw [step] at hstep
  cases hfuture : s.all[s.registered]? with
  | none =>
      rw [hfuture] at hstep
      cases hstep
  | some future =>
      rw [hfuture] at hstep
      cases hstep
      have hlt : s.registered < s.size := (List.getElem?_eq_some_iff.1 hfuture).1
      have hpc : s.pc s.registered = .unregistered := (h.unregistered_iff _).2 le_rfl
      have hnot := h.not_counted (.inl hpc)
      have hne : (if (s.futures future).isSome then s.combinator.start else Pc.waiting) ≠ .unregistered := by
        split
        · exact s.combinator.start_ne_unregistered
        · exact Pc.noConfusion
      refine h.move hlt ?_ ?_ (ne_last_of_waiting (.inl hpc))
      · intro m
        by_cases hm : m = s.registered
        · subst hm
          simp only [Futures.setPc, update_self]
          exact iff_of_false hne (by omega)
        · simp only [Futures.setPc, update_of_ne hm]
          rw [h.unregistered_iff m]
          omega
      · cases hc : s.futures future with
        | none =>
            simp only [PcOk, Futures.setPc, update_self]
            exact hnot
        | some c =>
            refine pcOk_start ?_ hnot ⟨c, ended_of_completed hfuture hc, trivial⟩
            simp [Futures.setPc]

/-- The future of a waiting listener is completed, and the listener starts. -/
theorem Sound.notify (h : s.Sound) (hstep : s.step (.notify n) = some s') : s'.Sound := by
  rw [step] at hstep
  by_cases hcan : s.pc n = .waiting ∧ (s.completion n).isSome
  · rw [if_pos hcan] at hstep
    cases hstep
    obtain ⟨c, hc⟩ := Option.isSome_iff_exists.1 hcan.2
    have hne : s.pc n ≠ .unregistered := by simp [hcan.1]
    refine h.setPc hne s.combinator.start_ne_unregistered ?_ (ne_last_of_waiting (.inr hcan.1))
    exact pcOk_start (by simp [Futures.setPc]) (h.not_counted (.inr hcan.1)) ⟨c, hc, trivial⟩
  · rw [if_neg hcan] at hstep
    cases hstep

/-- A listener does its next step. -/
theorem Sound.go (h : s.Sound) (hstep : s.step (.go n) = some s') : s'.Sound := by
  rw [step] at hstep
  cases hfuture : s.all[n]? with
  | none =>
      rw [hfuture] at hstep
      cases hstep
  | some future =>
      rw [hfuture] at hstep
      obtain ⟨c, hc, hadvance⟩ := Option.bind_eq_some_iff.1 hstep
      have hcompletion : s.completion n = some c := ended_of_completed hfuture hc
      have hended : s.Ended n fun _ => True := ⟨c, hcompletion, trivial⟩
      have hok := h.pcs n
      unfold PcOk at hok
      unfold advance at hadvance
      cases hpc : s.pc n with
      | unregistered | waiting | returned =>
          rw [hpc] at hadvance
          cases hadvance
      | isCompleted =>
          rw [hpc] at hadvance hok
          cases hadvance
          have hlast : s.pc n ≠ s.combinator.last := by
            rcases s.combinator.last_eq with hlast | hlast <;> simp [hpc, hlast]
          -- The listener returns if the returned future has completed in the meantime.
          by_cases hdone : s.futureDone.isSome = true
          · rw [if_pos hdone]
            refine h.setPc (by simp [hpc]) Pc.noConfusion ?_ hlast
            simp only [PcOk, Futures.setPc, update_self]
            exact ⟨hended, .inr hdone⟩
          · rw [if_neg hdone]
            refine h.setPc (by simp [hpc]) Pc.noConfusion ?_ hlast
            simp only [PcOk, Futures.setPc, update_self]
            exact hok
      | ask =>
          rw [hpc] at hadvance hok
          cases hadvance
          have hlast : s.pc n ≠ s.combinator.last := by
            rcases s.combinator.last_eq with hlast | hlast <;> simp [hpc, hlast]
          -- It counts, or completes the returned future, as its own future says.
          obtain ⟨hnot, -, hstart⟩ := hok
          refine h.setPc (by simp [hpc]) (s.combinator.answer_ne_unregistered c.type) ?_ hlast
          exact pcOk_answer (by simp [Futures.setPc]) hnot hcompletion hstart
      | incrementAndGet =>
          rw [hpc] at hadvance
          cases hadvance
          exact h.increment hpc
      | done =>
          rw [hpc] at hadvance hok
          cases hadvance
          refine h.finish (by simp [hpc]) hended ?_
          -- What it says was true when the listener came here, and still is.
          unfold ResultOk
          cases hcombinator : s.combinator with
          | whenAll =>
              simp only [hcombinator] at hok
              exact ⟨rfl, .inl rfl, hok.2⟩
          | whenAllSuccess =>
              simp only [hcombinator] at hok
              exact ⟨rfl, .inr rfl, hok.2⟩
          | whenAny =>
              simp only [hcombinator] at hok
              exact ⟨n, hfuture, .inl ⟨rfl, hok⟩⟩
          | whenAnySuccess =>
              simp only [hcombinator] at hok
              exact ⟨n, hfuture, .inr ⟨rfl, hok⟩⟩
      | failed =>
          rw [hpc] at hadvance hok
          cases hadvance
          refine h.finish (by simp [hpc]) hended ?_
          unfold ResultOk
          cases hcombinator : s.combinator with
          | whenAll | whenAny => simp only [hcombinator] at hok
          | whenAllSuccess =>
              simp only [hcombinator] at hok
              -- The reason is the one of its own future.
              obtain ⟨c', hc', hne⟩ := hok
              obtain rfl : c' = c := Option.some.inj (hc'.symm.trans hcompletion)
              exact .inl ⟨rfl, n, c', hc', hne, rfl⟩
          | whenAnySuccess =>
              simp only [hcombinator] at hok
              exact .inr ⟨rfl, hok.2, rfl⟩

/-- Every step keeps the state sound. -/
theorem Sound.step {e : Event F} (h : s.Sound) (hstep : s.step e = some s') : s'.Sound := by
  cases e with
  | complete future completion => exact h.complete hstep
  | addListener => exact h.addListener hstep
  | notify n => exact h.notify hstep
  | go n => exact h.go hstep

end Steps

section Idle

variable [DecidableEq F] {s : Futures F} {n : Nat}

/-- All listeners of futures that have completed are through, when none can do anything. -/
theorem Idle.returned (h : s.Sound) (hidle : s.Idle) (hended : s.Ended n fun _ => True) : s.pc n = .returned := by
  obtain ⟨c, hc, -⟩ := hended
  obtain ⟨future, hfuture, hcompletion⟩ := Option.bind_eq_some_iff.1 hc
  have hlt : n < s.size := (List.getElem?_eq_some_iff.1 hfuture).1
  have hgo : s.advance n future c = none := by
    have hnone : s.step (.go n) = none := hidle (.go n)
    rw [step, hfuture] at hnone
    simpa only [hcompletion, Option.bind_some] using hnone
  unfold advance at hgo
  cases hpc : s.pc n with
  | unregistered =>
      -- The loop is not through.
      have hle := (h.unregistered_iff n).1 hpc
      have hnone : s.step .addListener = none := hidle .addListener
      rw [step] at hnone
      cases hregistered : s.all[s.registered]? with
      | none =>
          have hsize : s.size ≤ s.registered := getElem?_eq_none_iff.1 hregistered
          omega
      | some future' =>
          rw [hregistered] at hnone
          cases hnone
  | waiting =>
      have hnone : s.step (.notify n) = none := hidle (.notify n)
      rw [step, if_pos ⟨hpc, by rw [hc]; rfl⟩] at hnone
      cases hnone
  | returned => rfl
  | isCompleted | ask | incrementAndGet | done | failed =>
      rw [hpc] at hgo
      cases hgo

/-- As long as nothing was said, everything that completed was counted. -/
theorem Idle.counted (h : s.Sound) (hidle : s.Idle) (hnone : s.futureDone = none) (hended : s.Ended n fun _ => True) :
    n ∈ s.counted := by
  have hok := h.pcs n
  unfold PcOk at hok
  rw [hidle.returned h hended] at hok
  rcases hok.2 with hcounted | hdone
  · exact hcounted
  · rw [hnone] at hdone
    cases hdone

/-- If all have completed, somebody counts to the end. -/
theorem Idle.completes (h : s.Sound) (hidle : s.Idle) (hsize : s.size ≠ 0)
    (hall : ∀ n < s.size, s.Ended n fun _ => True) : s.futureDone.isSome = true := by
  by_contra hdone
  have hnone : s.futureDone = none := by simpa using hdone
  have hsub : List.range s.size ⊆ s.counted := by
    intro n hn
    exact hidle.counted h hnone (hall n (mem_range.1 hn))
  have hle := nodup_range.length_le_of_subset hsub
  rw [length_range, ← h.counter] at hle
  have hge : s.counter ≤ s.size := by
    have hrange : s.counted ⊆ List.range s.size := fun n hn => mem_range.2 (h.counted n hn).1
    have hlength := h.nodup.length_le_of_subset hrange
    rwa [length_range, ← h.counter] at hlength
  rcases h.finishing (le_antisymm hge hle) hsize with hsome | ⟨n, hlast, hended⟩
  · exact hdone hsome
  · rw [hidle.returned h hended] at hlast
    rcases s.combinator.last_eq with heq | heq <;> rw [heq] at hlast <;> cases hlast

/-- If there is something to say, it is said. -/
theorem Idle.answers (h : s.Sound) (hidle : s.Idle) (hsize : s.size ≠ 0) {result : Result F} (hright : s.Says result) :
    s.futureDone.isSome = true := by
  by_contra hdone
  have hnone : s.futureDone = none := by simpa using hdone
  -- What has completed was counted, so that it cannot have been otherwise.
  have hcounts : ∀ f ∈ s.all, ∀ c, s.futures f = some c → Counts s.combinator c.type := by
    intro f hf c hc
    obtain ⟨n, hn⟩ := mem_iff_getElem?.1 hf
    have hcompletion := ended_of_completed hn hc
    obtain ⟨c', hc', hcounts⟩ := (h.counted n (hidle.counted h hnone ⟨c, hcompletion, trivial⟩)).2
    obtain rfl : c' = c := Option.some.inj (hc'.symm.trans hcompletion)
    exact hcounts
  have hall (P : FutureType → Prop) (hP : ∀ f ∈ s.all, ∃ c, s.futures f = some c ∧ P c.type) : False := by
    refine hdone (hidle.completes h hsize fun n hn => ?_)
    exact (forall_ended_iff.2 hP n hn).mono fun _ _ => trivial
  unfold Says at hright
  cases hcombinator : s.combinator with
  | whenAll =>
      cases result with
      | all futures =>
          rw [hcombinator] at hright
          refine hall (fun _ => True) fun f hf => ?_
          obtain ⟨c, hc⟩ := hright.2 f hf
          exact ⟨c, hc, trivial⟩
      | one future | failed reason => simp only [hcombinator] at hright
  | whenAllSuccess =>
      cases result with
      | all futures =>
          rw [hcombinator] at hright
          exact hall (· = .OK) hright.2
      | one future => simp only [hcombinator] at hright
      | failed reason =>
          rw [hcombinator] at hright hcounts
          obtain ⟨f, hf, c, hc, hne, -⟩ := hright
          exact hne (hcounts f hf c hc)
  | whenAny =>
      cases result with
      | all futures | failed reason => simp only [hcombinator] at hright
      | one future =>
          rw [hcombinator] at hright hcounts
          obtain ⟨hf, c, hc⟩ := hright
          exact hcounts future hf c hc
  | whenAnySuccess =>
      cases result with
      | all futures => simp only [hcombinator] at hright
      | one future =>
          rw [hcombinator] at hright hcounts
          obtain ⟨hf, c, hc, hok⟩ := hright
          exact hcounts future hf c hc hok
      | failed reason =>
          rw [hcombinator] at hright
          exact hall (· ≠ .OK) hright.2

end Idle

/-- What comes before an element stays, when something is added behind. -/
theorem takeWhile_append_of_mem {α : Type} [DecidableEq α] {l l' : List α} {a : α} (h : a ∈ l) :
    (l ++ l').takeWhile (· ≠ a) = l.takeWhile (· ≠ a) := by
  induction l with
  | nil => cases h
  | cons b l ih =>
      by_cases hb : b = a
      · simp [hb]
      · have hmem : a ∈ l := by
          rcases mem_cons.1 h with heq | hmem
          · exact absurd heq.symm hb
          · exact hmem
        simpa [hb] using ih hmem

section Order

variable {s s' : Futures F}

/-- The history is that of the futures. -/
def Kept (s : Futures F) : Prop := ∀ f, f ∈ s.completions ↔ (s.futures f).isSome = true

/-- What a step leaves alone, unless a future completes. -/
structure Frame (s s' : Futures F) : Prop where
  combinator : s'.combinator = s.combinator
  all : s'.all = s.all
  futures : s'.futures = s.futures
  completions : s'.completions = s.completions

theorem Frame.kept (h : Frame s s') (hkept : s.Kept) : s'.Kept := by
  unfold Kept
  rw [h.completions, h.futures]
  exact hkept

/-- A future that could be taken and has returned was taken, or another one. -/
theorem Sound.isSome_of_returned (h : s.Sound) {m : Nat} {f : F} {c : Completion} (hf : s.all[m]? = some f)
    (hc : s.futures f = some c) (htakes : s.combinator.takes c.type = true) (hpc : s.pc m = .returned) :
    s.futureDone.isSome = true := by
  have hok := h.pcs m
  unfold PcOk at hok
  rw [hpc] at hok
  rcases hok.2 with hcounted | hdone
  · obtain ⟨c', hc', hcounts⟩ := (h.counted m hcounted).2
    obtain rfl : c' = c := Option.some.inj (hc'.symm.trans (ended_of_completed hf hc))
    cases hcombinator : s.combinator <;> simp_all [Counts, Combinator.takes]
  · exact hdone

variable [DecidableEq F] {e : Event F}

theorem Frame.earlier (h : Frame s s') (f : F) : s'.earlier f = s.earlier f := by
  unfold Futures.earlier
  rw [h.completions, h.futures, h.all, h.combinator]

/-- The returned future is completed by those only who call `done` or `failed`. -/
theorem listen_cases (h : s.listen e = some s') :
    Frame s s' ∧ (s'.futureDone = s.futureDone ∨ ∃ n future completion, e = .go n ∧ s.all[n]? = some future ∧
      s.futures future = some completion ∧
      (s.pc n = .done ∧ s'.futureDone = some (s.futureDone.getD (s.combinator.value s.all future)) ∨
        s'.futureDone = some (s.futureDone.getD (.failed (s.combinator.reason completion))))) := by
  cases e with
  | complete future completion => cases h
  | addListener =>
      change s.step .addListener = some s' at h
      rw [step] at h
      split at h
      · cases h
      · cases h
        exact ⟨⟨rfl, rfl, rfl, rfl⟩, .inl rfl⟩
  | notify n =>
      change s.step (.notify n) = some s' at h
      rw [step] at h
      split at h
      · cases h
        exact ⟨⟨rfl, rfl, rfl, rfl⟩, .inl rfl⟩
      · cases h
  | go n =>
      change s.step (.go n) = some s' at h
      rw [step] at h
      cases hfuture : s.all[n]? with
      | none =>
          rw [hfuture] at h
          cases h
      | some future =>
          rw [hfuture] at h
          obtain ⟨c, hc, hadvance⟩ := Option.bind_eq_some_iff.1 h
          unfold advance at hadvance
          cases hpc : s.pc n with
          | unregistered | waiting | returned =>
              rw [hpc] at hadvance
              cases hadvance
          | isCompleted | ask | incrementAndGet =>
              -- These steps are about the listener and the counter.
              rw [hpc] at hadvance
              cases hadvance
              exact ⟨⟨rfl, rfl, rfl, rfl⟩, .inl rfl⟩
          | done =>
              rw [hpc] at hadvance
              cases hadvance
              exact ⟨⟨rfl, rfl, rfl, rfl⟩, .inr ⟨n, future, c, rfl, hfuture, hc, .inl ⟨hpc, rfl⟩⟩⟩
          | failed =>
              rw [hpc] at hadvance
              cases hadvance
              exact ⟨⟨rfl, rfl, rfl, rfl⟩, .inr ⟨n, future, c, rfl, hfuture, hc, .inr rfl⟩⟩

/-- A listener in its turn takes the first future. -/
theorem TakesFirst.listen (h : s.TakesFirst) (hsound : s.Sound) (horder : s.InOrder e)
    (hstep : s.listen e = some s') : s'.TakesFirst := by
  obtain ⟨hframe, hdone | ⟨n, future, c, rfl, hfuture, hc, hcase⟩⟩ := listen_cases hstep
  · intro f hf
    rw [hframe.earlier]
    exact h f (hdone ▸ hf)
  · intro f hf
    rw [hframe.earlier]
    cases hbefore : s.futureDone with
    | some result =>
        -- It was taken before.
        have hsame : s'.futureDone = s.futureDone := by
          rcases hcase with ⟨-, heq⟩ | heq <;> rw [heq, hbefore] <;> rfl
        exact h f (hsame ▸ hf)
    | none =>
        rw [hbefore] at hcase
        rcases hcase with ⟨hpc, heq⟩ | heq
        · have hvalue : s.combinator.value s.all future = .one f := Option.some.inj (heq.symm.trans hf)
          have hone : future = f := by
            cases hcombinator : s.combinator <;> simp_all [Combinator.value]
          subst hone
          refine eq_nil_iff_forall_not_mem.2 fun g hg => ?_
          obtain ⟨m, hm, hreturned⟩ := horder n future rfl hpc hfuture g hg
          have htakes := (mem_filter.1 hg).2
          rw [Bool.and_eq_true, Option.any_eq_true] at htakes
          obtain ⟨-, c', hc', htake⟩ := htakes
          have hsome := hsound.isSome_of_returned hm hc' htake hreturned
          rw [hbefore] at hsome
          cases hsome
        · cases heq.symm.trans hf

/-- A future that completes now is behind all that have. -/
theorem TakesFirst.complete (h : s.TakesFirst) (hsound : s.Sound) (hkept : s.Kept) {future : F}
    {completion : Completion} (hstep : s.step (.complete future completion) = some s') : s'.TakesFirst := by
  rw [step] at hstep
  cases hnone : s.futures future with
  | some c =>
      rw [hnone] at hstep
      cases hstep
  | none =>
      rw [hnone] at hstep
      cases hstep
      intro f hf
      -- The future that was taken has completed.
      obtain ⟨c, hc⟩ : ∃ c, s.futures f = some c := by
        have hright := hsound.right hf
        unfold Says at hright
        cases hcombinator : s.combinator <;> simp only [hcombinator] at hright
        · exact hright.2
        · obtain ⟨c, hc, -⟩ := hright.2
          exact ⟨c, hc⟩
      have hmem : f ∈ s.completions := (hkept f).2 (by rw [hc]; rfl)
      have hbefore : (s.completions ++ [future]).takeWhile (· ≠ f) = s.completions.takeWhile (· ≠ f) :=
        takeWhile_append_of_mem hmem
      refine Eq.trans ?_ (h f hf)
      unfold Futures.earlier
      rw [hbefore]
      refine filter_congr fun g hg => ?_
      have hne : g ≠ future := by
        rintro rfl
        have hsome := (hkept g).1 ((takeWhile_sublist _).mem hg)
        rw [hnone] at hsome
        cases hsome
      simp only [update_of_ne hne]

end Order

/-- How many steps of a listener are left at most. -/
def Pc.rank : Pc → Nat
  | .unregistered => 6
  | .waiting => 5
  | .isCompleted => 4
  | .ask => 3
  | .incrementAndGet => 2
  | .done => 1
  | .failed => 1
  | .returned => 0

/-- What the listeners have left to do, which each of their steps makes less. -/
def rank (s : Futures F) : Nat := ∑ n ∈ Finset.range s.size, (s.pc n).rank

section Rank

variable {s s' : Futures F} {n : Nat}

/-- A listener that gets on has less left. -/
theorem rank_lt_of_pc (hn : n < s.size) {pc : Pc} (hall : s'.all = s.all) (hpc : s'.pc = update s.pc n pc)
    (hlt : pc.rank < (s.pc n).rank) : s'.rank < s.rank := by
  unfold rank size
  rw [hall, hpc]
  refine Finset.sum_lt_sum ?_ ⟨n, Finset.mem_range.2 hn, ?_⟩
  · intro m _
    by_cases hm : m = n
    · subst hm
      rw [update_self]
      exact hlt.le
    · rw [update_of_ne hm]
  · rw [update_self]
    exact hlt

theorem Combinator.rank_start (combinator : Combinator) : combinator.start.rank < 5 := by
  cases combinator <;> decide

theorem Combinator.rank_answer (combinator : Combinator) (type : FutureType) : (combinator.answer type).rank < 3 := by
  cases combinator <;> cases type <;> decide

theorem Combinator.rank_last (combinator : Combinator) : combinator.last.rank < 2 := by
  cases combinator <;> decide

variable [DecidableEq F] {e : Event F}

/-- The listeners come to an end. -/
theorem rank_lt (h : s.Sound) (hstep : s.listen e = some s') : s'.rank < s.rank := by
  cases e with
  | complete future completion => cases hstep
  | addListener =>
      change s.step .addListener = some s' at hstep
      rw [step] at hstep
      cases hfuture : s.all[s.registered]? with
      | none =>
          rw [hfuture] at hstep
          cases hstep
      | some future =>
          rw [hfuture] at hstep
          cases hstep
          -- A listener that is added waits, or starts.
          have hpc : s.pc s.registered = .unregistered := (h.unregistered_iff _).2 le_rfl
          refine rank_lt_of_pc (List.getElem?_eq_some_iff.1 hfuture).1 rfl rfl ?_
          rw [hpc]
          split
          · exact s.combinator.rank_start.trans (by decide)
          · decide
  | notify n =>
      change s.step (.notify n) = some s' at hstep
      rw [step] at hstep
      by_cases hcan : s.pc n = .waiting ∧ (s.completion n).isSome
      · rw [if_pos hcan] at hstep
        cases hstep
        obtain ⟨c, hc⟩ := Option.isSome_iff_exists.1 hcan.2
        have hended : s.Ended n fun _ => True := ⟨c, hc, trivial⟩
        refine rank_lt_of_pc hended.lt rfl rfl ?_
        rw [hcan.1]
        exact s.combinator.rank_start
      · rw [if_neg hcan] at hstep
        cases hstep
  | go n =>
      change s.step (.go n) = some s' at hstep
      rw [step] at hstep
      cases hfuture : s.all[n]? with
      | none =>
          rw [hfuture] at hstep
          cases hstep
      | some future =>
          rw [hfuture] at hstep
          obtain ⟨c, -, hadvance⟩ := Option.bind_eq_some_iff.1 hstep
          -- The listener comes one step closer to its return.
          have hn : n < s.size := (List.getElem?_eq_some_iff.1 hfuture).1
          unfold advance at hadvance
          cases hpc : s.pc n with
          | unregistered | waiting | returned =>
              rw [hpc] at hadvance
              cases hadvance
          | isCompleted =>
              rw [hpc] at hadvance
              cases hadvance
              refine rank_lt_of_pc hn rfl rfl ?_
              rw [hpc]
              split <;> decide
          | ask =>
              rw [hpc] at hadvance
              cases hadvance
              refine rank_lt_of_pc hn rfl rfl ?_
              rw [hpc]
              exact s.combinator.rank_answer c.type
          | incrementAndGet =>
              rw [hpc] at hadvance
              cases hadvance
              refine rank_lt_of_pc hn rfl rfl ?_
              rw [hpc]
              split
              · exact s.combinator.rank_last
              · decide
          | done | failed =>
              rw [hpc] at hadvance
              cases hadvance
              refine rank_lt_of_pc hn rfl rfl ?_
              rw [hpc]
              decide

theorem Sound.listen (h : s.Sound) (hstep : s.listen e = some s') : s'.Sound := by
  cases e with
  | complete future completion => cases hstep
  | addListener => exact Sound.step (e := .addListener) h hstep
  | notify n => exact Sound.step (e := .notify n) h hstep
  | go n => exact Sound.step (e := .go n) h hstep

/-- A sound state says the right thing, if there is a future. -/
theorem Sound.combines (h : s.Sound) (hsize : s.size ≠ 0) : s.Combines where
  result := fun _ => h.right
  answers := by
    intro hidle failed
    constructor
    · rintro ⟨result, hresult, hfailed⟩
      exact ⟨result, h.right hresult, hfailed⟩
    · rintro ⟨result, hright, rfl⟩
      obtain ⟨result', hresult'⟩ := Option.isSome_iff_exists.1 (hidle.answers h hsize hright)
      exact ⟨result', hresult', Says.isFailed_eq hsize (h.right hresult') hright⟩
  completes := by
    intro hidle hall
    refine hidle.completes h hsize (forall_ended_iff.2 fun f hf => ?_)
    obtain ⟨c, hc⟩ := Option.isSome_iff_exists.1 (hall f hf)
    exact ⟨c, hc, trivial⟩
  ends := by
    have hstep (s : Futures F) (e : Event F) (s' : Futures F) (hsound : s.Sound) (hstep : s.listen e = some s') :
        s'.Sound ∧ s'.rank < s.rank := ⟨hsound.listen hstep, rank_lt hsound hstep⟩
    exact no_endless_run wellFounded_lt rank hstep h

end Rank

section Runs

variable [DecidableEq F] {combinator : Combinator} {all : List F} {s : Futures F}

/-- A step completes a future or is one of a listener. -/
theorem step_eq (e : Event F) :
    (∃ future completion, e = .complete future completion) ∨ s.step e = s.listen e := by
  cases e with
  | complete future completion => exact .inl ⟨future, completion, rfl⟩
  | addListener | notify n | go n => exact .inr rfl

/-- The futures that are combined stay the same. -/
theorem all_eq {e : Event F} {s' : Futures F} (hstep : s.step e = some s') : s'.all = s.all := by
  rcases step_eq (s := s) e with ⟨future, completion, rfl⟩ | heq
  · rw [step] at hstep
    split at hstep
    · cases hstep
    · cases hstep
      rfl
  · rw [heq] at hstep
    exact (listen_cases hstep).1.all

/-- What futures were completed with is kept along a run. -/
theorem Kept.step {e : Event F} {s' : Futures F} (h : s.Kept) (hstep : s.step e = some s') : s'.Kept := by
  rcases step_eq (s := s) e with ⟨future, completion, rfl⟩ | heq
  · rw [Futures.step] at hstep
    split at hstep
    · cases hstep
    · cases hstep
      intro f
      by_cases hf : f = future
      · subst hf
        simp
      · simp [hf, h f]
  · rw [heq] at hstep
    exact (listen_cases hstep).1.kept h

theorem TakesFirst.step {e : Event F} {s' : Futures F} (h : s.TakesFirst) (hsound : s.Sound) (hkept : s.Kept)
    (horder : s.InOrder e) (hstep : s.step e = some s') : s'.TakesFirst := by
  rcases step_eq (s := s) e with ⟨future, completion, rfl⟩ | heq
  · exact h.complete hsound hkept hstep
  · rw [heq] at hstep
    exact h.listen hsound horder hstep

/-- Every reached state is sound, and combines the futures it began with. -/
theorem sound_of_reached {Cond : Futures F → Event F → Prop} (h : Reached step Cond (Fresh combinator all) s) :
    s.Sound ∧ s.all = all := by
  refine h.invariant (fun s => s.Sound ∧ s.all = all) ?_ ?_
  · intro s hfresh
    refine ⟨hfresh.sound, ?_⟩
    obtain ⟨futures, completions, rfl, -, -⟩ := hfresh
    rfl
  · intro s e s' hs _ hstep
    exact ⟨hs.1.step hstep, (all_eq hstep).trans hs.2⟩

/-- In their order, the listeners take the first future. -/
theorem takesFirst_of_reached (h : Reached step InOrder (Fresh combinator all) s) : s.TakesFirst := by
  have hall := h.invariant (fun s => s.Sound ∧ s.Kept ∧ s.TakesFirst) ?_ ?_
  · exact hall.2.2
  · intro s hfresh
    refine ⟨hfresh.sound, ?_⟩
    obtain ⟨futures, completions, rfl, -, hkept⟩ := hfresh
    exact ⟨hkept, fun f hf => by cases hf⟩
  · rintro s e s' ⟨hsound, hkept, hfirst⟩ horder hstep
    exact ⟨hsound.step hstep, hkept.step hstep, hfirst.step hsound hkept horder hstep⟩

/-- Of no futures there is no listener. -/
theorem idle_nil (hall : s.all = []) : s.Idle := by
  intro e
  cases e with
  | complete future completion => rfl
  | addListener =>
      change s.step .addListener = none
      simp [step, hall]
  | notify n =>
      change s.step (.notify n) = none
      simp [step, completion, hall]
  | go n =>
      change s.step (.go n) = none
      simp [step, hall]

/-- The combinators work exactly if there is a future to wait for. The one that is taken is the
    first, if the listeners run in this order. -/
theorem combines_iff (all : List F) :
    ((∀ combinator s, Reached step (fun _ _ => True) (Fresh combinator all) s → s.Combines) ∧
      ∀ combinator s, Reached step InOrder (Fresh combinator all) s → s.TakesFirst) ↔ all ≠ [] := by
  constructor
  · rintro ⟨h, -⟩ rfl
    have hfresh : Fresh .whenAll ([] : List F) { combinator := .whenAll, all := [], futures := fun _ => none } :=
      ⟨fun _ => none, [], rfl, nodup_nil, fun f => by simp⟩
    have hcombines := h _ _ (.start hfresh)
    have hdone := hcombines.completes (idle_nil rfl) fun f hf => absurd hf not_mem_nil
    cases hdone
  · intro hne
    refine ⟨fun combinator s hs => ?_, fun combinator s hs => takesFirst_of_reached hs⟩
    obtain ⟨hsound, rfl⟩ := sound_of_reached hs
    exact hsound.combines fun hzero => hne (length_eq_zero_iff.1 hzero)

/-- Of no futures, `whenAll` waits forever. Of two that have completed, `whenAny` takes the one that
    stands first in the list, whichever completed first. -/
theorem whenAll_nil_whenAny_swapped :
    (∃ s : Futures Nat, Reached step (fun _ _ => True) (Fresh .whenAll []) s ∧ s.Idle ∧
      (∀ f ∈ s.all, (s.futures f).isSome = true) ∧ s.futureDone = none) ∧
    ∃ s : Futures Nat, Reached step (fun _ _ => True) (Fresh .whenAny [0, 1]) s ∧ s.completions = [1, 0] ∧
      s.futureDone = some (.one 0) := by
  constructor
  · have hfresh : Fresh .whenAll ([] : List Nat) { combinator := .whenAll, all := [], futures := fun _ => none } :=
      ⟨fun _ => none, [], rfl, nodup_nil, fun f => by simp⟩
    exact ⟨_, .start hfresh, idle_nil rfl, fun f hf => absurd hf not_mem_nil, rfl⟩
  · let s₀ : Futures Nat := { combinator := .whenAny, all := [0, 1], futures := fun _ => none }
    have hstart : Reached step (fun _ _ => True) (Fresh .whenAny [0, 1]) s₀ :=
      .start ⟨fun _ => none, [], rfl, nodup_nil, fun f => by simp⟩
    let events : List (Event Nat) := [.complete 1 ⟨.OK, "ok"⟩, .complete 0 ⟨.OK, "ok"⟩, .addListener, .go 0]
    have hsome : ((replay step (fun _ _ => True) events s₀).map fun s => (s.completions, s.futureDone)) =
        some ([1, 0], some (.one 0)) := by decide
    obtain ⟨s, hs, heq⟩ := Option.map_eq_some_iff.mp hsome
    rw [Prod.mk.injEq] at heq
    exact ⟨s, hstart.replay events hs, heq.1, heq.2⟩

end Runs

end Futures

end TomP2P
