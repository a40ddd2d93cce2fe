import TomP2P.Core.BaseFuture
import TomP2P.Foundation.Runs
import Mathlib.Data.List.Perm.Basic
import Mathlib.Data.List.Count

/-!
# Every Listener is Called Once

Whom a future calls, for every order in which calls on it are made and go on.

The first of `done`, `failed` and `cancel` completes the future, and only that call
goes on to notify the listeners. Until then the listeners are those that are registered,
and after it the list is left alone, so that the cursor of the loop says who is still
to be called. A registered listener is therefore either called already or owed by one
of the calls (`Sound`).

This goes wrong in three ways. A listener that throws an exception is called again, if
its `exceptionCaught` returns; an error of a listener ends the loop; and so does whatever
is thrown when something is cancelled. `Orderly` excludes the first, and the others if
listeners are left.

## Main definitions

* `BaseFutureImpl.Pc.owed`: The listeners that a call is going to notify.
* `BaseFutureImpl.Orderly`: Listeners do not get in the way of others.
* `BaseFutureImpl.Notified`: The listeners that should be called are called.
* `BaseFutureImpl.Sound`: The invariant.

## Theorems

* `BaseFutureImpl.Sound.move`: A call goes on.
* `BaseFutureImpl.Sound.start`, `BaseFutureImpl.Sound.advance`: What every step keeps.
* `BaseFutureImpl.notified_of_orderly`: In an orderly run every listener is called once.
-/

namespace TomP2P

open List

namespace BaseFutureImpl

variable {L : Type}

/-! ### What is owed -/

def Caller.owed (listeners : List L) : Caller → List L
  | .addListener => []
  | .notifyListeners cursor => listeners.drop cursor

/-- The listeners that a call is going to notify, if nothing is thrown. -/
def Pc.owed (listeners : List L) : Pc L → List L
  | .returned => []
  | .cancelling => listeners
  | .notifyListeners cursor => listeners.drop cursor
  | .invoke listener caller => listener :: caller.owed listeners
  | .operationComplete _ caller => caller.owed listeners
  | .exceptionCaught _ caller => caller.owed listeners
  | .invokeAgain _ caller => caller.owed listeners
  | .operationCompleteAgain _ caller => caller.owed listeners
  | .clear => []

def Caller.notifying : Caller → Bool
  | .addListener => false
  | .notifyListeners _ => true

/-- The call has completed the future. -/
def Pc.notifying : Pc L → Bool
  | .returned => false
  | .cancelling => true
  | .notifyListeners _ => true
  | .invoke _ caller => caller.notifying
  | .operationComplete _ caller => caller.notifying
  | .exceptionCaught _ caller => caller.notifying
  | .invokeAgain _ caller => caller.notifying
  | .operationCompleteAgain _ caller => caller.notifying
  | .clear => true

/-- The call is in the second call of `operationComplete`. -/
def Pc.again : Pc L → Bool
  | .invokeAgain _ _ => true
  | .operationCompleteAgain _ _ => true
  | _ => false

/-- The method that a call is in does not get in the way of other listeners. After an
    exception of `operationComplete`, `exceptionCaught` throws one as well. Nobody throws
    an error, and nothing is thrown on cancelling, unless all listeners have been called. -/
def Pc.orderly (listeners : List L) (cancel : Bool) (outcome : Outcome) : Pc L → Prop
  | .cancelling => cancel = true → outcome = .returned ∨ listeners = []
  | .operationComplete _ caller => outcome = .error → caller.owed listeners = []
  | .exceptionCaught _ caller => outcome = .exception ∨ outcome = .error ∧ caller.owed listeners = []
  | _ => True

instance [DecidableEq L] (listeners : List L) (cancel : Bool) (outcome : Outcome) (pc : Pc L) :
    Decidable (pc.orderly listeners cancel outcome) := by
  cases pc <;> unfold Pc.orderly <;> infer_instance

/-- The condition on a step: the methods of the listeners behave. -/
def Orderly (s : BaseFutureImpl L) : Event L → Prop
  | .call _ => True
  | .go i outcome => ∀ pc ∈ s.calls[i]?, pc.orderly s.listeners s.cancel outcome

instance [DecidableEq L] (s : BaseFutureImpl L) : ∀ e, Decidable (s.Orderly e)
  | .call _ => .isTrue trivial
  | .go i outcome => inferInstanceAs (Decidable (∀ pc ∈ s.calls[i]?, pc.orderly s.listeners s.cancel outcome))

/-- The type is that of the first completion, nobody is called before that, and in the
    end every registered listener was called once. -/
structure Notified (s : BaseFutureImpl L) : Prop where
  type : s.type = s.requested.headD .INIT
  completed : s.completed = true ↔ s.requested ≠ []
  before : s.completed = false → s.notified = []
  once : s.completed = true → (∀ pc ∈ s.calls, pc = .returned) → s.notified.Perm s.registered

/-- What holds of a future all the time. -/
structure Sound (s : BaseFutureImpl L) : Prop where
  type : s.type = s.requested.headD .INIT
  completed : s.completed = true ↔ s.requested ≠ []
  /-- There is nothing to notify before completion. -/
  before : s.completed = false → s.listeners = s.registered ∧ s.notified = [] ∧ ∀ pc ∈ s.calls, pc = .returned
  account : s.completed = true → s.registered.Perm (s.notified ++ s.calls.flatMap (Pc.owed s.listeners))
  /-- One call has completed the future. -/
  single : s.calls.countP Pc.notifying ≤ 1
  calm : ∀ pc ∈ s.calls, pc.again = false

theorem Sound.notified {s : BaseFutureImpl L} (h : s.Sound) : s.Notified := by
  refine ⟨h.type, h.completed, fun hc => (h.before hc).2.1, ?_⟩
  intro hc hreturned
  have hnone : s.calls.flatMap (Pc.owed s.listeners) = [] := by
    rw [flatMap_eq_nil_iff]
    intro pc hpc
    rw [hreturned pc hpc, Pc.owed]
  have haccount := h.account hc
  rw [hnone, append_nil] at haccount
  exact haccount.symm

/-! ### Calls that go on -/

section Steps

variable {s s' : BaseFutureImpl L} {i : Nat} {pc pc' : Pc L} {outcome : Outcome}

/-- The calls before and after one of them. -/
theorem split_calls {calls : List (Pc L)} (h : calls[i]? = some pc) :
    ∃ as bs, calls = as ++ pc :: bs ∧ ∀ pc', calls.set i pc' = as ++ pc' :: bs := by
  obtain ⟨hi, hget⟩ := List.getElem?_eq_some_iff.mp h
  refine ⟨calls.take i, calls.drop (i + 1), ?_, ?_⟩
  · rw [← hget, getElem_cons_drop, take_append_drop]
  · intro pc'
    rw [set_eq_take_append_cons_drop, if_pos hi]

theorem Sound.completed_of_call (h : s.Sound) (hpc : s.calls[i]? = some pc) (hne : pc ≠ .returned) :
    s.completed = true := by
  by_contra hc
  exact hne ((h.before (by simpa using hc)).2.2 pc (mem_of_getElem? hpc))

/-- A call goes on, and has called some of the listeners that it owes. -/
theorem Sound.move (h : s.Sound) (hpc : s.calls[i]? = some pc) (hne : pc ≠ .returned) (called : List L)
    (howed : (pc.owed s.listeners).Perm (called ++ pc'.owed s.listeners))
    (hnotifying : pc'.notifying = true → pc.notifying = true) (hagain : pc'.again = false) :
    Sound { s with notified := s.notified ++ called, calls := s.calls.set i pc' } := by
  have hc := h.completed_of_call hpc hne
  obtain ⟨as, bs, hcalls, hset⟩ := split_calls hpc
  refine ⟨h.type, h.completed, fun hf => absurd hc (by simp [show s.completed = false from hf]), fun _ => ?_, ?_, ?_⟩
  · have haccount := h.account hc
    rw [hcalls, flatMap_append, flatMap_cons] at haccount
    dsimp only
    rw [hset, flatMap_append, flatMap_cons, append_assoc s.notified]
    refine haccount.trans (.append_left _ ?_)
    have hcalled : (pc.owed s.listeners ++ bs.flatMap (Pc.owed s.listeners)).Perm
        (called ++ (pc'.owed s.listeners ++ bs.flatMap (Pc.owed s.listeners))) := by
      rw [← append_assoc called]
      exact howed.append_right _
    -- What was called moves to the front.
    exact (hcalled.append_left _).trans (perm_append_comm_assoc _ _ _)
  · have hsingle := h.single
    rw [hcalls, countP_append, countP_cons] at hsingle
    dsimp only
    rw [hset, countP_append, countP_cons]
    by_cases hn : pc'.notifying = true
    · rw [if_pos hn]
      rw [if_pos (hnotifying hn)] at hsingle
      exact hsingle
    · rw [if_neg hn]
      omega
  · intro p hp
    dsimp only at hp
    rw [hset] at hp
    rcases mem_append.mp hp with hp | hp
    · exact h.calm p (by rw [hcalls]; exact mem_append_left _ hp)
    · rcases mem_cons.mp hp with rfl | hp
      · exact hagain
      · exact h.calm p (by rw [hcalls]; exact mem_append_right _ (mem_cons_of_mem _ hp))

/-- Nobody is called in this step. -/
theorem Sound.stay (h : s.Sound) (hpc : s.calls[i]? = some pc) (hne : pc ≠ .returned)
    (howed : pc'.owed s.listeners = pc.owed s.listeners)
    (hnotifying : pc'.notifying = true → pc.notifying = true) (hagain : pc'.again = false) :
    Sound { s with calls := s.calls.set i pc' } := by
  have hmoved := h.move hpc hne [] (by rw [nil_append, howed]) hnotifying hagain
  rwa [append_nil] at hmoved

/-- Only the call that has completed the future looks at the listeners. -/
theorem owed_eq_of_not_notifying (h : pc.notifying = false) (ls ls' : List L) : pc.owed ls = pc.owed ls' := by
  have hcaller : ∀ caller : Caller, caller.notifying = false → caller.owed ls = caller.owed ls' := by
    intro caller hcaller
    cases caller with
    | addListener => rfl
    | notifyListeners cursor => simp [Caller.notifying] at hcaller
  cases pc with
  | returned => rfl
  | cancelling | notifyListeners cursor | clear => simp [Pc.notifying] at h
  | invoke listener caller => rw [Pc.owed, Pc.owed, hcaller caller h]
  | operationComplete listener caller | exceptionCaught listener caller | invokeAgain listener caller
  | operationCompleteAgain listener caller => exact hcaller caller h

/-- The list of listeners is cleared by the call that has completed the future, so that
    the others do not notice. -/
theorem Sound.clear (h : s.Sound) (hpc : s.calls[i]? = some .clear) :
    Sound { s with listeners := [], calls := s.calls.set i .returned } := by
  have hmoved : Sound { s with calls := s.calls.set i .returned } :=
    h.stay hpc (by simp) rfl (by simp [Pc.notifying]) rfl
  have hc := h.completed_of_call hpc (by simp)
  obtain ⟨as, bs, hcalls, hset⟩ := split_calls hpc
  have hquiet : ∀ p ∈ s.calls.set i .returned, p.notifying = false := by
    intro p hp
    have hsingle := h.single
    rw [hcalls, countP_append, countP_cons, if_pos (by rfl)] at hsingle
    have has : as.countP Pc.notifying = 0 := by omega
    have hbs : bs.countP Pc.notifying = 0 := by omega
    rw [countP_eq_zero] at has hbs
    rw [hset] at hp
    rcases mem_append.mp hp with hp | hp
    · simpa using has p hp
    · rcases mem_cons.mp hp with rfl | hp
      · rfl
      · simpa using hbs p hp
  refine ⟨h.type, h.completed, fun hf => absurd hc (by simp [show s.completed = false from hf]), fun _ => ?_,
    hmoved.single, hmoved.calm⟩
  have haccount := hmoved.account hc
  dsimp only at haccount ⊢
  rw [flatMap_congr fun p hp => owed_eq_of_not_notifying (hquiet p hp) s.listeners []] at haccount
  exact haccount

theorem next_owed (caller : Caller) (ls : List L) : (caller.next : Pc L).owed ls = caller.owed ls := by
  cases caller <;> rfl

theorem next_notifying (caller : Caller) : (caller.next : Pc L).notifying = caller.notifying := by
  cases caller <;> rfl

theorem next_again (caller : Caller) : (caller.next : Pc L).again = false := by
  cases caller <;> rfl

/-- A call keeps the invariant, if the method that it is in behaves. -/
theorem Sound.advance (h : s.Sound) (hpc : s.calls[i]? = some pc) (horderly : pc.orderly s.listeners s.cancel outcome)
    (hstep : s.advance i outcome pc = some s') : s'.Sound := by
  cases pc with
  | returned => simp [BaseFutureImpl.advance] at hstep
  | cancelling =>
      rw [← Option.some.inj hstep]
      by_cases hthrow : s.cancel = true ∧ outcome ≠ .returned
      · rw [if_pos hthrow]
        have hnone : s.listeners = [] := (horderly hthrow.1).resolve_left hthrow.2
        exact h.stay hpc (by simp) (by rw [Pc.owed, Pc.owed, hnone]) (by simp [Pc.notifying]) rfl
      · rw [if_neg hthrow]
        exact h.stay hpc (by simp) (by rw [Pc.owed, Pc.owed, drop_zero]) (fun _ => rfl) rfl
  | notifyListeners cursor =>
      rw [← Option.some.inj hstep]
      cases hget : s.listeners[cursor]? with
      | some listener =>
          obtain ⟨hlt, rfl⟩ := List.getElem?_eq_some_iff.mp hget
          refine h.stay hpc (by simp) ?_ (fun _ => rfl) rfl
          rw [Pc.owed, Pc.owed, Caller.owed, getElem_cons_drop]
      | none =>
          have hle := getElem?_eq_none_iff.mp hget
          exact h.stay hpc (by simp) (by rw [Pc.owed, Pc.owed, drop_eq_nil_of_le hle]) (fun _ => rfl) rfl
  | invoke listener caller =>
      rw [← Option.some.inj hstep]
      exact h.move hpc (by simp) [listener] (.refl _) id rfl
  | operationComplete listener caller =>
      rw [← Option.some.inj hstep]
      cases outcome with
      | returned =>
          exact h.stay hpc (by simp) (next_owed caller _) (by rw [next_notifying]; exact id) (next_again caller)
      | exception => exact h.stay hpc (by simp) rfl id rfl
      | error => exact h.stay hpc (by simp) (horderly rfl).symm (by simp [Pc.notifying]) rfl
  | exceptionCaught listener caller =>
      rw [← Option.some.inj hstep]
      cases outcome with
      | returned => simp [Pc.orderly] at horderly
      | exception =>
          exact h.stay hpc (by simp) (next_owed caller _) (by rw [next_notifying]; exact id) (next_again caller)
      | error =>
          have hnone : caller.owed s.listeners = [] := by simpa [Pc.orderly] using horderly
          exact h.stay hpc (by simp) hnone.symm (by simp [Pc.notifying]) rfl
  | invokeAgain listener caller | operationCompleteAgain listener caller =>
      exact absurd (h.calm _ (mem_of_getElem? hpc)) (by simp [Pc.again])
  | clear =>
      rw [← Option.some.inj hstep]
      exact h.clear hpc

/-! ### Calls that start -/

/-- A call that returns at once. -/
theorem Sound.return (h : s.Sound) : Sound { s with calls := s.calls ++ [.returned] } := by
  refine ⟨h.type, h.completed, fun hf => ⟨(h.before hf).1, (h.before hf).2.1, ?_⟩, fun hc => ?_, ?_, ?_⟩
  · exact forall_mem_append.mpr ⟨(h.before hf).2.2, forall_mem_singleton.mpr rfl⟩
  · simpa [Pc.owed] using h.account hc
  · simpa [countP_append, Pc.notifying] using h.single
  · exact forall_mem_append.mpr ⟨h.calm, forall_mem_singleton.mpr rfl⟩

/-- Before completion there is nothing but the listeners. -/
theorem Sound.relisten (h : s.Sound) (hc : s.completed = false) (ls : List L) :
    Sound { s with registered := ls, listeners := ls } :=
  ⟨h.type, h.completed, fun _ => ⟨rfl, (h.before hc).2.1, (h.before hc).2.2⟩,
    fun ht => absurd (hc.symm.trans ht) (by simp), h.single, h.calm⟩

theorem Sound.complete (h : s.Sound) (type : FutureType) (reason : String) {next : Pc L}
    (howed : next.owed s.listeners = s.listeners) (hagain : next.again = false) :
    (s.complete type reason next).Sound := by
  unfold BaseFutureImpl.complete
  by_cases hc : s.completed = true
  · -- Somebody else was first.
    rw [if_pos hc]
    have hne := h.completed.mp hc
    have hhead : (s.requested ++ [type]).headD .INIT = s.requested.headD .INIT := by
      cases hr : s.requested with
      | nil => exact absurd hr hne
      | cons r rs => rfl
    exact ⟨h.return.type.trans hhead.symm, ⟨fun _ => by simp, fun _ => hc⟩, h.return.before, h.return.account,
      h.return.single, h.return.calm⟩
  · rw [if_neg hc]
    have hf : s.completed = false := by simpa using hc
    obtain ⟨hlisteners, hnotified, hreturned⟩ := h.before hf
    have hnone : s.requested = [] := by
      by_contra hne
      exact hc (h.completed.mpr hne)
    refine ⟨by simp [hnone], by simp, by simp, fun _ => ?_, ?_, ?_⟩
    · -- The call owes all that are registered, and no other call owes anything.
      have hothers : s.calls.flatMap (Pc.owed s.listeners) = [] := by
        rw [flatMap_eq_nil_iff]
        intro pc hpc
        rw [hreturned pc hpc, Pc.owed]
      simp only [hnotified, flatMap_append, hothers, flatMap_singleton, howed, nil_append]
      rw [hlisteners]
    · have hothers : s.calls.countP Pc.notifying = 0 := by
        rw [countP_eq_zero]
        intro pc hpc
        rw [hreturned pc hpc]
        simp [Pc.notifying]
      simp only [countP_append, hothers, countP_singleton, Nat.zero_add]
      split <;> omega
    · exact forall_mem_append.mpr ⟨h.calm, forall_mem_singleton.mpr hagain⟩

/-- A listener that comes late is called by whoever adds it. -/
theorem Sound.late (h : s.Sound) (hc : s.completed = true) (listener : L) :
    Sound { s with
      registered := s.registered ++ [listener]
      calls := s.calls ++ [.invoke listener .addListener] } := by
  refine ⟨h.type, h.completed, fun hf => absurd hc (by simp [show s.completed = false from hf]), fun _ => ?_, ?_, ?_⟩
  · simp only [flatMap_append, flatMap_singleton, Pc.owed, Caller.owed, ← append_assoc]
    exact (h.account hc).append_right _
  · simpa [countP_append, Pc.notifying, Caller.notifying] using h.single
  · exact forall_mem_append.mpr ⟨h.calm, forall_mem_singleton.mpr rfl⟩

theorem Sound.start [DecidableEq L] (h : s.Sound) (c : Call L) : (s.start c).Sound := by
  cases c with
  | addListener listener =>
      unfold BaseFutureImpl.start
      by_cases hc : s.completed = true
      · dsimp only
        rw [if_pos hc]
        exact h.late hc listener
      · have hf : s.completed = false := by simpa using hc
        dsimp only
        rw [if_neg hc, (h.before hf).1]
        exact (h.relisten hf (s.registered ++ [listener])).return
  | removeListener listener =>
      unfold BaseFutureImpl.start
      by_cases hc : s.completed = true
      · dsimp only
        rw [if_pos hc]
        exact h.return
      · have hf : s.completed = false := by simpa using hc
        dsimp only
        rw [if_neg hc, (h.before hf).1]
        exact (h.relisten hf (s.registered.erase listener)).return
  | done => exact h.complete .OK s.reason (by rw [Pc.owed, drop_zero]) rfl
  | failed failed => exact h.complete .FAILED failed (by rw [Pc.owed, drop_zero]) rfl
  | setCancel =>
      have hreturn := h.return
      exact ⟨hreturn.type, hreturn.completed, hreturn.before, hreturn.account, hreturn.single, hreturn.calm⟩
  | cancel => exact h.complete .CANCEL s.reason rfl rfl

end Steps

/-! ### Runs -/

theorem Fresh.sound {s : BaseFutureImpl L} (h : s.Fresh) : s.Sound := by
  rw [show s = {} from h]
  exact ⟨rfl, by simp, by simp, by simp, by simp, by simp⟩

variable [DecidableEq L]

theorem step_sound {s s' : BaseFutureImpl L} {e : Event L} (h : s.Sound) (horderly : s.Orderly e)
    (hstep : s.step e = some s') : s'.Sound := by
  cases e with
  | call c =>
      rw [← Option.some.inj hstep]
      exact h.start c
  | go i outcome =>
      obtain ⟨pc, hpc, hadvance⟩ := Option.bind_eq_some_iff.mp hstep
      exact h.advance hpc (horderly pc hpc) hadvance

/-- In every run in which the listeners do not get in the way of each other, the first
    completion decides on the type, nobody is called before it, and when all calls have
    returned every registered listener was called exactly once. -/
theorem notified_of_orderly {s : BaseFutureImpl L} (h : Reached step Orderly Fresh s) : s.Notified := by
  have hsound := h.invariant Sound (fun _ h => h.sound) (fun _ _ _ h hc hs => step_sound h hc hs)
  exact hsound.notified

/-- One listener is added before the future is done and one after it, while a call
    notifies. The first one throws, and throws again when it is told so. -/
theorem notified_throwing :
    ∃ s : BaseFutureImpl Nat, Reached step Orderly Fresh s ∧ s.calls.all (· = .returned) = true ∧
      s.notified = [1, 2] ∧ s.Notified := by
  let events : List (Event Nat) :=
    [.call (.addListener 1), .call .done, .go 1 .returned, .go 1 .returned, .call (.addListener 2), .call .cancel,
      .go 1 .exception, .go 2 .returned, .go 1 .exception, .go 2 .returned, .go 1 .returned, .go 1 .returned]
  have hstart : Reached step Orderly Fresh ({} : BaseFutureImpl Nat) := .start rfl
  have hsome : ((replay step Orderly events {}).map fun s => (s.calls.all (· = .returned), s.notified)) =
      some (true, [1, 2]) := by decide +kernel
  obtain ⟨s, hs, heq⟩ := Option.map_eq_some_iff.mp hsome
  simp only [Prod.mk.injEq] at heq
  exact ⟨s, hstart.replay events hs, heq.1, heq.2, notified_of_orderly (hstart.replay events hs)⟩

/-- A listener that throws once, and takes note of it, is called twice. -/
theorem not_notified_twice :
    ¬ ∀ s : BaseFutureImpl Nat, Reached step (fun _ _ => True) Fresh s → s.Notified := by
  intro hall
  let events : List (Event Nat) :=
    [.call (.addListener 1), .call .done, .go 1 .returned, .go 1 .returned, .go 1 .exception, .go 1 .returned,
      .go 1 .returned, .go 1 .returned, .go 1 .returned, .go 1 .returned]
  have hstart : Reached step (fun _ _ => True) Fresh ({} : BaseFutureImpl Nat) := .start rfl
  have hsome : ((replay step (fun _ _ => True) events {}).map fun s =>
      (s.completed, s.calls, s.notified, s.registered)) = some (true, [.returned, .returned], [1, 1], [1]) := by
    decide +kernel
  obtain ⟨s, hs, heq⟩ := Option.map_eq_some_iff.mp hsome
  simp only [Prod.mk.injEq] at heq
  have honce := (hall s (hstart.replay events hs)).once heq.1 (by rw [heq.2.1]; simp)
  rw [heq.2.2.1, heq.2.2.2] at honce
  exact absurd honce.length_eq (by decide)

end BaseFutureImpl

end TomP2P
