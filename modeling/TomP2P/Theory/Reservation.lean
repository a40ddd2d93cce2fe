import TomP2P.Core.Reservation
import TomP2P.Foundation.ListUpdate
import TomP2P.Foundation.Runs

/-!
# Permits are Kept

What becomes of the permits of a reservation, whatever its threads do.

A creator has as many permits as its channels and its shutdown use up, and those that
are free (`ChannelCreator.Sound`). When its shutdown has taken all of them no channel
is left. If the future of the creator completes only then, the permits that come back
to the reservation are not in use any more, and everything adds up
(`BulkReservation.Sound`).

A creator that is shut down once more completes its future at once, and the permits
are back while its channels are still open. A request for a negative number of TCP
permits makes the worker fail when it has the UDP permits. `Orderly` says that neither
happens.

## Main definitions

* `BulkReservation.Accounted`: What is promised of a reservation.
* `BulkReservation.Orderly`: The condition on a step.
* `ChannelCreator.Sound`, `BulkReservation.Sound`: The invariants.

## Theorems

* `ChannelCreator.Sound.disconnected`: A creator that is done has no channels.
* `BulkReservation.Sound.setCreator`: A creator goes on.
* `BulkReservation.step_sound`: What one step keeps.
* `BulkReservation.accounted_of_orderly`: The promise is kept in orderly runs.
-/

namespace TomP2P

open Function List

/-! ### One creator -/

namespace ChannelCreator

/-- The channels that use a permit. -/
def unreleased (c : ChannelCreator) (t : Transport) : Nat :=
  c.recipients.countP fun channel => channel.transport = t && channel.phase ≠ .released

/-- The channels that are open. -/
def connected (c : ChannelCreator) (t : Transport) : Nat :=
  c.recipients.countP fun channel => channel.transport = t && channel.phase = .connected

/-- The permits that the shutdown has taken. -/
def acquired (c : ChannelCreator) (t : Transport) : Int :=
  match c.close, t with
  | .acquire .TCP, .UDP => c.maxPermits .UDP
  | .finish, t => c.maxPermits t
  | .ended, t => c.maxPermits t
  | _, _ => 0

/-- The permits are back. -/
def isReturned (c : ChannelCreator) (t : Transport) : Bool :=
  match c.release, t with
  | .release .TCP, .UDP => true
  | .remove, _ => true
  | .ended, _ => true
  | _, _ => false

/-- The permits that the creator has. -/
def held (c : ChannelCreator) (t : Transport) : Int := if c.isReturned t then 0 else c.maxPermits t

structure Sound (c : ChannelCreator) : Prop where
  permits : ∀ t, 0 ≤ c.maxPermits t
  semaphore : ∀ t, 0 ≤ c.semaphore t
  balance : ∀ t, c.semaphore t + c.unreleased t + c.acquired t = c.maxPermits t
  running : c.isShutdown = true ↔ c.close ≠ .idle
  closed : c.close ≠ .idle → c.close ≠ .closing → ∀ channel ∈ c.recipients, channel.phase ≠ .connected
  completed : c.isCompleted = true ↔ c.close = .ended
  back : ∀ t, c.givenBack t = (c.isReturned t).toNat

variable {c c' : ChannelCreator} {t : Transport} {k : Nat}

/-- A connection holds a permit that has not been released. -/
theorem connected_le_unreleased (c : ChannelCreator) (t : Transport) : c.connected t ≤ c.unreleased t := by
  refine countP_mono_left ?_
  intro channel _ h
  rw [Bool.and_eq_true_iff, decide_eq_true_eq, decide_eq_true_eq] at h
  simp [h.1, h.2]

/-- A creator whose future has completed has no open channel. -/
theorem Sound.disconnected (h : c.Sound) (hcompleted : c.isCompleted = true) :
    ∀ channel ∈ c.recipients, channel.phase ≠ .connected := by
  have hended := h.completed.mp hcompleted
  exact h.closed (by rw [hended]; simp) (by rw [hended]; simp)

/-- The open channels of a creator need the permits that it has. -/
theorem Sound.connected_le_held (h : c.Sound) (t : Transport) : (c.connected t : Int) ≤ c.held t := by
  unfold held
  split
  · next hreturned =>
      have hcompleted : c.isCompleted = true := by
        unfold isCompleted
        rw [decide_eq_true_eq]
        intro hwaiting
        simp [isReturned, hwaiting] at hreturned
      have hzero : c.connected t = 0 := by
        unfold connected
        rw [countP_eq_zero]
        intro channel hchannel hcount
        rw [Bool.and_eq_true_iff, decide_eq_true_eq, decide_eq_true_eq] at hcount
        exact h.disconnected hcompleted channel hchannel hcount.2
      omega
  · have hle := c.connected_le_unreleased t
    have hbalance := h.balance t
    have hfree := h.semaphore t
    have hacquired : 0 ≤ c.acquired t := by
      have hpermits := h.permits
      unfold acquired
      split
      · exact hpermits .UDP
      · exact hpermits _
      · exact hpermits _
      · exact Int.le_refl 0
    omega

theorem sound_new {permits : Transport → Int} (h : ∀ t, 0 ≤ permits t) : (new permits).Sound where
  permits := h
  semaphore := h
  balance t := by
    show permits t + ((0 : Nat) : Int) + 0 = permits t
    omega
  running := by simp [new]
  closed := fun hidle => absurd rfl hidle
  completed := by simp [new, isCompleted]
  back _ := rfl

/-! ### What is done to a creator -/

/-- Connecting moves a permit from those at hand to a connection. -/
theorem Sound.connect (h : c.Sound) (hconnect : c.connect t = some c') : c'.Sound ∧ ∀ t, c'.held t = c.held t := by
  unfold ChannelCreator.connect at hconnect
  split at hconnect
  · simp at hconnect
  · next hshutdown =>
      split at hconnect
      · next hfree =>
          rw [← Option.some.inj hconnect]
          have hidle : c.close = .idle := by
            by_contra hclose
            exact hshutdown (h.running.mpr hclose)
          refine ⟨⟨h.permits, ?_, ?_, h.running, fun hclose => absurd hidle hclose, h.completed, h.back⟩, fun _ => rfl⟩
          · exact (forall_update_iff _ fun _ free => 0 ≤ free).mpr ⟨by omega, fun t' _ => h.semaphore t'⟩
          · intro t'
            have hbalance := h.balance t'
            have hcount : (List.countP (fun channel => decide (channel.transport = t') && decide (channel.phase ≠ .released))
                (c.recipients ++ [({ transport := t } : CreatedChannel)])) = c.unreleased t' + (decide (t = t')).toNat := by
              rw [countP_append, countP_singleton, unreleased]
              by_cases ht : t = t'
              · simp [ht]
              · simp [ht]
            unfold unreleased ChannelCreator.acquired at *
            dsimp only at *
            rw [hcount]
            by_cases ht : t' = t
            · subst ht
              rw [update_self, decide_eq_true rfl]
              simp only [Bool.toNat_true]
              omega
            · rw [update_of_ne ht, decide_eq_false (Ne.symm ht)]
              simp only [Bool.toNat_false]
              omega
      · simp at hconnect

/-- One channel changes its phase. -/
theorem unreleased_setPhase {channel : CreatedChannel} (hk : c.recipients[k]? = some channel) (phase : ChannelPhase)
    (t : Transport) :
    (c.setPhase k phase).unreleased t + (channel.transport = t && channel.phase ≠ .released : Bool).toNat =
      c.unreleased t + (channel.transport = t && phase ≠ .released : Bool).toNat :=
  countP_modify (fun channel : CreatedChannel => decide (channel.transport = t) && decide (channel.phase ≠ .released))
    (fun channel => { channel with phase := phase }) hk

/-- No channel is opened again. -/
theorem disconnected_setPhase (h : ∀ channel ∈ c.recipients, channel.phase ≠ .connected) {phase : ChannelPhase}
    (hphase : phase ≠ .connected) : ∀ channel ∈ (c.setPhase k phase).recipients, channel.phase ≠ .connected := by
  cases hk : c.recipients[k]? with
  | none =>
      show ∀ channel ∈ c.recipients.modify k _, _
      rw [modify_eq_self (by simpa using hk)]
      exact h
  | some channel => exact forall_mem_modify h hk hphase

theorem Sound.closeChannel (h : c.Sound) (hclose : c.closeChannel k = some c') :
    c'.Sound ∧ ∀ t, c'.held t = c.held t := by
  unfold ChannelCreator.closeChannel at hclose
  split at hclose
  · next channel hk =>
      split at hclose
      · next hphase =>
          rw [← Option.some.inj hclose]
          refine ⟨⟨h.permits, h.semaphore, ?_, h.running, ?_, h.completed, h.back⟩, fun _ => rfl⟩
          · intro t
            have hcount := unreleased_setPhase hk .closed t
            rw [hphase] at hcount
            have hsame : (c.setPhase k .closed).unreleased t = c.unreleased t := by simpa using hcount
            rw [hsame]
            exact h.balance t
          · exact fun hidle hclosing => disconnected_setPhase (h.closed hidle hclosing) (by simp)
      · simp at hclose
  · simp at hclose

theorem Sound.closeListener (h : c.Sound) (hclose : c.closeListener k = some c') :
    c'.Sound ∧ ∀ t, c'.held t = c.held t := by
  unfold ChannelCreator.closeListener at hclose
  split at hclose
  · next channel hk =>
      dsimp only at hclose
      split at hclose
      · next hphase =>
          rw [← Option.some.inj hclose]
          refine ⟨⟨h.permits, ?_, ?_, h.running, ?_, h.completed, h.back⟩, fun _ => rfl⟩
          · intro t
            have hfree := h.semaphore t
            dsimp only
            by_cases ht : t = channel.transport
            · rw [ht] at hfree ⊢
              rw [update_self]
              omega
            · rw [update_of_ne ht]
              exact hfree
          · intro t
            -- The permit of the channel is free now.
            have hcount := unreleased_setPhase hk .released t
            have hbalance := h.balance t
            rw [hphase] at hcount
            show update c.semaphore channel.transport (c.semaphore channel.transport + 1) t +
              ((c.setPhase k .released).unreleased t : Int) + c.acquired t = c.maxPermits t
            by_cases ht : t = channel.transport
            · rw [ht] at hcount hbalance ⊢
              rw [update_self]
              simp at hcount
              omega
            · rw [update_of_ne ht]
              simp [Ne.symm ht] at hcount
              omega
          · exact fun hidle hclosing => disconnected_setPhase (h.closed hidle hclosing) (by simp)
      · simp at hclose
  · simp at hclose

theorem complete_of_isCompleted (h : c.isCompleted = true) : c.complete = c := by
  unfold complete
  rw [if_pos h]

/-- A creator is shut down for the first time, or it is done already. -/
theorem Sound.shutdown (h : c.Sound) (hcond : c.isShutdown = true → c.isCompleted = true) :
    c.shutdown.Sound ∧ ∀ t, c.shutdown.held t = c.held t := by
  unfold ChannelCreator.shutdown
  split
  · next hshutdown =>
      rw [complete_of_isCompleted (hcond hshutdown)]
      exact ⟨h, fun _ => rfl⟩
  · next hshutdown =>
      have hidle : c.close = .idle := by
        by_contra hclose
        exact hshutdown (h.running.mpr hclose)
      have hwaiting : c.isCompleted ≠ true := by
        intro hcompleted
        rw [h.completed, hidle] at hcompleted
        simp at hcompleted
      refine ⟨⟨h.permits, h.semaphore, ?_, by simp, fun _ hclosing => absurd rfl hclosing, ?_, h.back⟩, fun _ => rfl⟩
      · intro t
        have hbalance := h.balance t
        have hacquired : c.acquired t = 0 := by simp [acquired, hidle]
        rw [hacquired] at hbalance
        exact hbalance
      · exact ⟨fun hcompleted => absurd hcompleted hwaiting, fun hended => by simp at hended⟩

/-- The shutdown takes all permits of one transport. -/
theorem Sound.acquireAll (h : c.Sound) {next : ClosePhase} (hacquire : c.acquireAll t next = some c')
    (hnow : c.acquired t = 0) (hself : ({ c with close := next } : ChannelCreator).acquired t = c.maxPermits t)
    (hother : ∀ t', t' ≠ t → ({ c with close := next } : ChannelCreator).acquired t' = c.acquired t')
    (hbusy : c.close ≠ .idle ∧ c.close ≠ .closing ∧ c.close ≠ .ended)
    (hnext : next ≠ .idle ∧ next ≠ .ended) : c'.Sound ∧ ∀ t, c'.held t = c.held t := by
  unfold ChannelCreator.acquireAll at hacquire
  split at hacquire
  · next hall =>
      rw [← Option.some.inj hacquire]
      refine ⟨⟨h.permits, ?_, ?_, ?_, fun _ _ => h.closed hbusy.1 hbusy.2.1, ?_, h.back⟩, fun _ => rfl⟩
      · exact (forall_update_iff _ fun _ free => 0 ≤ free).mpr ⟨by omega, fun t' _ => h.semaphore t'⟩
      · intro t'
        have hbalance := h.balance t'
        show update c.semaphore t (c.semaphore t - c.maxPermits t) t' + (c.unreleased t' : Int) +
          ({ c with close := next } : ChannelCreator).acquired t' = c.maxPermits t'
        by_cases ht : t' = t
        · rw [ht] at hbalance ⊢
          rw [update_self, hself]
          omega
        · rw [update_of_ne ht, hother t' ht]
          exact hbalance
      · exact ⟨fun _ => hnext.1, fun _ => h.running.mpr hbusy.1⟩
      · exact ⟨fun hcompleted => absurd (h.completed.mp hcompleted) hbusy.2.2, fun hended => absurd hended hnext.2⟩
  · simp at hacquire

theorem Sound.runClose (h : c.Sound) (hclose : c.runClose = some c') : c'.Sound ∧ ∀ t, c'.held t = c.held t := by
  unfold ChannelCreator.runClose at hclose
  cases hphase : c.close with
  | idle | ended => rw [hphase] at hclose; simp at hclose
  | closing =>
      rw [hphase] at hclose
      dsimp only at hclose
      split at hclose
      · next hall =>
          rw [← Option.some.inj hclose]
          refine ⟨⟨h.permits, h.semaphore, ?_, ?_, ?_, ?_, h.back⟩, fun _ => rfl⟩
          · intro t
            have hbalance := h.balance t
            have hbefore : c.acquired t = 0 := by simp [acquired, hphase]
            have hafter : ({ c with close := .acquire .UDP } : ChannelCreator).acquired t = 0 := by simp [acquired]
            rw [hbefore] at hbalance
            rw [hafter]
            exact hbalance
          · exact ⟨fun _ => by simp, fun _ => h.running.mpr (by simp [hphase])⟩
          · intro _ _ channel hchannel
            simpa using all_eq_true.mp hall channel hchannel
          · refine ⟨fun hcompleted => ?_, fun hended => by simp at hended⟩
            have hended := h.completed.mp hcompleted
            simp [hphase] at hended
      · simp at hclose
  | acquire t =>
      rw [hphase] at hclose
      cases t with
      | UDP =>
          refine h.acquireAll hclose (by simp [acquired, hphase]) rfl ?_ (by simp [hphase]) (by simp)
          intro t' ht
          cases t' with
          | UDP => exact absurd rfl ht
          | TCP => simp [acquired, hphase]
      | TCP =>
          refine h.acquireAll hclose (by simp [acquired, hphase]) rfl ?_ (by simp [hphase]) (by simp)
          intro t' ht
          cases t' with
          | UDP => simp [acquired, hphase]
          | TCP => exact absurd rfl ht
  | finish =>
      rw [hphase] at hclose
      rw [← Option.some.inj hclose]
      -- Now the future completes. It has not before.
      have hwaiting : c.isCompleted = false := by
        rw [Bool.eq_false_iff]
        intro hcompleted
        have hended := h.completed.mp hcompleted
        simp [hphase] at hended
      have hrelease : c.release = .waiting := by simpa [isCompleted] using hwaiting
      unfold complete
      rw [if_neg (by simp [hwaiting])]
      have hreturned : ∀ t, c.isReturned t = false := by
        intro t
        simp [isReturned, hrelease]
      refine ⟨⟨h.permits, h.semaphore, ?_, ?_, ?_, by simp [isCompleted], ?_⟩, ?_⟩
      · intro t
        have hbalance := h.balance t
        have hbefore : c.acquired t = c.maxPermits t := by simp [acquired, hphase]
        rw [hbefore] at hbalance
        exact hbalance
      · exact ⟨fun _ => by simp, fun _ => h.running.mpr (by simp [hphase])⟩
      · exact fun _ _ => h.closed (by simp [hphase]) (by simp [hphase])
      · intro t
        rw [h.back t, hreturned]
        rfl
      · intro t
        unfold held
        rw [hreturned t]
        cases t with
        | UDP | TCP => rfl

end ChannelCreator

/-! ### The reservation -/

namespace BulkReservation

/-- The permits that the worker has. -/
def inProgress (s : BulkReservation) (t : Transport) : Int :=
  match s.worker, t with
  | .acquire .TCP request, .UDP => request.permits .UDP
  | .reserve request, t => request.permits t
  | _, _ => 0

/-- The permits that the creators have. -/
def held (s : BulkReservation) (t : Transport) : Int := (s.creators.map (·.held t)).sum

/-- The shutdown of the reservation has taken all permits. -/
def taken (s : BulkReservation) (t : Transport) : Bool :=
  match s.take, t with
  | .acquire .TCP, .UDP => true
  | .ended, _ => true
  | _, _ => false

/-- The open channels of all creators. -/
def connected (s : BulkReservation) (t : Transport) : Int := (s.creators.map fun c => (c.connected t : Int)).sum

/-- What is promised: the permits add up until the shutdown takes them, there are never
    more open channels than permits, and a creator gives its permits back once, when all
    its channels are closed, and not later than it can. -/
structure Accounted (s : BulkReservation) : Prop where
  balance : ∀ t, s.taken t = false → s.semaphore t + s.inProgress t + s.held t = s.maxPermits t
  channels : ∀ t, s.connected t ≤ s.maxPermits t
  once : ∀ c ∈ s.creators, ∀ t, c.givenBack t ≤ 1
  completed : ∀ c ∈ s.creators, c.isCompleted = true → ∀ channel ∈ c.recipients, channel.phase ≠ .connected
  back : ∀ c ∈ s.creators, ∀ t, c.givenBack t ≠ 0 → c.isCompleted = true
  soon : ∀ i c, s.creators[i]? = some c → c.isShutdown = true →
    (∀ channel ∈ c.recipients, channel.phase ≠ .connected) → (∀ t, c.givenBack t = 1) ∨
      ∃ e, (e = .close i ∨ e = .listener i ∨ ∃ k, e = .closeListener i k) ∧ (s.step e).isSome = true

/-- A request that does not make the worker lose the UDP permits. -/
def Sensible (permits : Transport → Int) : Prop := 0 ≤ permits .TCP ∨ permits .UDP ≤ 0

instance (permits : Transport → Int) : Decidable (Sensible permits) :=
  inferInstanceAs (Decidable (0 ≤ permits .TCP ∨ permits .UDP ≤ 0))

/-- The creator is not being shut down. -/
def Calm (s : BulkReservation) (i : Nat) : Prop := ∀ c ∈ s.creators[i]?, c.isShutdown = true → c.isCompleted = true

instance (s : BulkReservation) (i : Nat) : Decidable (s.Calm i) :=
  inferInstanceAs (Decidable (∀ c ∈ s.creators[i]?, c.isShutdown = true → c.isCompleted = true))

/-- The condition on a step: no request is for a negative number of TCP permits, and no
    creator is shut down while its shutdown is under way. -/
def Orderly (s : BulkReservation) : ReservationEvent → Prop
  | .create permitsUDPUnadjusted permitsTCP => Sensible (adjust permitsUDPUnadjusted permitsTCP)
  | .shutdown i => s.Calm i
  | .stop => ∀ i ∈ (match s.stop with | .shutdown i _ => some i | _ => none), s.Calm i
  | _ => True

instance (s : BulkReservation) : ∀ e, Decidable (s.Orderly e)
  | .create permitsUDPUnadjusted permitsTCP =>
      inferInstanceAs (Decidable (Sensible (adjust permitsUDPUnadjusted permitsTCP)))
  | .shutdown i => inferInstanceAs (Decidable (s.Calm i))
  | .stop => inferInstanceAs (Decidable (∀ i ∈ (match s.stop with | .shutdown i _ => some i | _ => none), s.Calm i))
  | .work | .interrupt | .connect _ _ | .closeChannel _ _ | .closeListener _ _ | .close _ | .listener _ | .count _
  | .take => .isTrue trivial

/-- What the worker is about to do. -/
def WorkerOk : WorkerPhase → Prop
  | .idle => True
  | .acquire .UDP request => Sensible request.permits
  | .acquire .TCP request => 0 ≤ request.permits .UDP ∧ Sensible request.permits
  | .reserve request => ∀ t, 0 ≤ request.permits t

/-- The shutdown has not added its listeners yet. -/
def isEarly (s : BulkReservation) : Bool := s.stop = .idle || s.stop = .drain || s.stop = .copy

structure Sound (s : BulkReservation) : Prop where
  creators : ∀ c ∈ s.creators, c.Sound
  maxPermits : ∀ t, 0 ≤ s.maxPermits t
  semaphore : ∀ t, 0 ≤ s.semaphore t
  balance : ∀ t, s.semaphore t + s.inProgress t + s.held t + (if s.taken t then s.maxPermits t else 0) = s.maxPermits t
  queue : ∀ request ∈ s.queue, Sensible request.permits
  worker : WorkerOk s.worker
  early : s.isEarly = true → s.take = .idle ∧ ∀ c ∈ s.creators, c.counter = .absent
  once : s.take = .idle ∨ s.size ≤ s.completeCounter

variable {s s' : BulkReservation} {i : Nat} {c c' : ChannelCreator} {t : Transport}

theorem Fresh.sound (h : s.Fresh) : s.Sound := by
  obtain ⟨maxPermits, hmax, rfl⟩ := h
  refine ⟨fun _ hc => absurd hc not_mem_nil, hmax, hmax, ?_, fun _ hr => absurd hr not_mem_nil, trivial,
    fun _ => ⟨rfl, fun _ hc => absurd hc not_mem_nil⟩, .inl rfl⟩
  intro t
  show maxPermits t + 0 + (List.map _ []).sum + (if false = true then maxPermits t else 0) = maxPermits t
  simp

/-! ### Steps of a creator -/

/-- One creator changes, but not the permits that it has. -/
theorem Sound.setCreator (h : s.Sound) (hi : s.creators[i]? = some c) (hsound : c'.Sound)
    (hheld : ∀ t, c'.held t = c.held t) (hcounter : s.isEarly = true → c'.counter = .absent) :
    (s.setCreator i c').Sound := by
  refine ⟨forall_mem_set h.creators hsound, h.maxPermits, h.semaphore, ?_, h.queue, h.worker, ?_, h.once⟩
  · intro t
    have hsum := sum_map_set (fun c : ChannelCreator => c.held t) hi c'
    have hbalance := h.balance t
    have hsame : (s.setCreator i c').held t = s.held t := by
      show ((s.creators.set i c').map fun c => c.held t).sum = _
      rw [hheld t] at hsum
      unfold held
      omega
    rw [hsame]
    exact hbalance
  · exact fun hearly => ⟨(h.early hearly).1, forall_mem_set (h.early hearly).2 (hcounter hearly)⟩

/-- Something is done to a creator. -/
theorem Sound.onCreator (h : s.Sound) {f : ChannelCreator → Option ChannelCreator}
    (hf : ∀ c c', c.Sound → f c = some c' → c'.Sound ∧ ∀ t, c'.held t = c.held t)
    (hcounter : ∀ c c', f c = some c' → c'.counter = c.counter)
    (hstep : (s.creators[i]?.bind fun c => (f c).map (s.setCreator i)) = some s') : s'.Sound := by
  obtain ⟨c, hc, hmap⟩ := Option.bind_eq_some_iff.mp hstep
  obtain ⟨c', hc', rfl⟩ := Option.map_eq_some_iff.mp hmap
  have hmem := mem_of_getElem? hc
  obtain ⟨hsound, hheld⟩ := hf c c' (h.creators c hmem) hc'
  exact h.setCreator hc hsound hheld fun hearly => (hcounter c c' hc').trans ((h.early hearly).2 c hmem)

theorem counter_connect (h : c.connect t = some c') : c'.counter = c.counter := by
  unfold ChannelCreator.connect at h
  split at h
  · simp at h
  · split at h
    · rw [← Option.some.inj h]
    · simp at h

theorem counter_closeChannel {k : Nat} (h : c.closeChannel k = some c') : c'.counter = c.counter := by
  unfold ChannelCreator.closeChannel at h
  split at h
  · split at h
    · rw [← Option.some.inj h]
      rfl
    · simp at h
  · simp at h

theorem counter_closeListener {k : Nat} (h : c.closeListener k = some c') : c'.counter = c.counter := by
  unfold ChannelCreator.closeListener at h
  split at h
  · dsimp only at h
    split at h
    · rw [← Option.some.inj h]
      rfl
    · simp at h
  · simp at h

theorem counter_complete (c : ChannelCreator) : c.complete.counter = c.counter := by
  unfold ChannelCreator.complete
  split
  · rfl
  · rfl

theorem counter_shutdown (c : ChannelCreator) : c.shutdown.counter = c.counter := by
  unfold ChannelCreator.shutdown
  split
  · exact counter_complete c
  · rfl

theorem counter_acquireAll {next : ClosePhase} (h : c.acquireAll t next = some c') : c'.counter = c.counter := by
  unfold ChannelCreator.acquireAll at h
  split at h
  · rw [← Option.some.inj h]
  · simp at h

theorem counter_runClose (h : c.runClose = some c') : c'.counter = c.counter := by
  unfold ChannelCreator.runClose at h
  split at h
  · split at h
    · rw [← Option.some.inj h]
    · simp at h
  · exact counter_acquireAll h
  · exact counter_acquireAll h
  · rw [← Option.some.inj h]
    exact counter_complete c
  · simp at h
  · simp at h

/-- The future of a creator has completed, and its permits of one transport come back. -/
theorem Sound.release (h : s.Sound) (hi : s.creators[i]? = some c) {next : ReleasePhase}
    (hbefore : c.isReturned t = false) (hself : ({ c with release := next } : ChannelCreator).isReturned t = true)
    (hother : ∀ t', t' ≠ t → ({ c with release := next } : ChannelCreator).isReturned t' = c.isReturned t')
    (hcompleted : c.isCompleted = true) (hnext : next ≠ .waiting) : (s.release i c t next).Sound := by
  have hmem := mem_of_getElem? hi
  have hc := h.creators c hmem
  have hsound : ChannelCreator.Sound { c with
      release := next, givenBack := update c.givenBack t (c.givenBack t + 1) } := by
    refine ⟨hc.permits, hc.semaphore, hc.balance, hc.running, hc.closed, ?_, ?_⟩
    · exact ⟨fun _ => hc.completed.mp hcompleted, fun _ => by simp [ChannelCreator.isCompleted, hnext]⟩
    · intro t'
      show update c.givenBack t (c.givenBack t + 1) t' =
        (({ c with release := next } : ChannelCreator).isReturned t').toNat
      by_cases ht : t' = t
      · rw [ht, update_self, hself, hc.back t, hbefore]
        rfl
      · rw [update_of_ne ht, hother t' ht]
        exact hc.back t'
  have hpermits := hc.permits t
  refine ⟨forall_mem_set h.creators hsound, h.maxPermits, ?_, ?_, h.queue, h.worker, ?_, h.once⟩
  · intro t'
    show 0 ≤ update s.semaphore t (s.semaphore t + c.maxPermits t) t'
    have hfree := h.semaphore t'
    by_cases ht : t' = t
    · rw [ht] at hfree ⊢
      rw [update_self]
      omega
    · rw [update_of_ne ht]
      exact hfree
  · intro t'
    have hsum := sum_map_set (fun c : ChannelCreator => c.held t') hi
      { c with release := next, givenBack := update c.givenBack t (c.givenBack t + 1) }
    have hbalance := h.balance t'
    have hheld : (s.release i c t next).held t' + (if c.isReturned t' then 0 else c.maxPermits t') =
        s.held t' + (if ({ c with release := next } : ChannelCreator).isReturned t' then 0 else c.maxPermits t') := hsum
    show update s.semaphore t (s.semaphore t + c.maxPermits t) t' + s.inProgress t' +
      (s.release i c t next).held t' + (if s.taken t' then s.maxPermits t' else 0) = s.maxPermits t'
    by_cases ht : t' = t
    · rw [ht] at hheld hbalance ⊢
      rw [hbefore, hself] at hheld
      rw [update_self]
      simp only [Bool.false_eq_true, if_false, if_true] at hheld
      omega
    · rw [hother t' ht] at hheld
      rw [update_of_ne ht]
      omega
  · exact fun hearly => ⟨(h.early hearly).1, forall_mem_set (h.early hearly).2 ((h.early hearly).2 c hmem)⟩

/-- A listener of a creator gives its permits back. -/
theorem Sound.runListener (h : s.Sound) (hi : s.creators[i]? = some c) (hstep : s.runListener i c = some s') :
    s'.Sound := by
  unfold BulkReservation.runListener at hstep
  have hmem := mem_of_getElem? hi
  have hc := h.creators c hmem
  cases hphase : c.release with
  | waiting | ended => rw [hphase] at hstep; simp at hstep
  | release t =>
      have hcompleted : c.isCompleted = true := by simp [ChannelCreator.isCompleted, hphase]
      rw [hphase] at hstep
      cases t with
      | UDP =>
          rw [← Option.some.inj hstep]
          refine h.release hi (by simp [ChannelCreator.isReturned, hphase]) rfl ?_ hcompleted (by simp)
          intro t' ht
          cases t' with
          | UDP => exact absurd rfl ht
          | TCP => simp [ChannelCreator.isReturned, hphase]
      | TCP =>
          rw [← Option.some.inj hstep]
          refine h.release hi (by simp [ChannelCreator.isReturned, hphase]) rfl ?_ hcompleted (by simp)
          intro t' ht
          cases t' with
          | UDP => simp [ChannelCreator.isReturned, hphase]
          | TCP => exact absurd rfl ht
  | remove =>
      rw [hphase] at hstep
      rw [← Option.some.inj hstep]
      have hreturned : ∀ t, c.isReturned t = true := by
        intro t
        simp [ChannelCreator.isReturned, hphase]
      refine h.setCreator hi ⟨hc.permits, hc.semaphore, hc.balance, hc.running, hc.closed, ?_, ?_⟩ ?_
        fun hearly => (h.early hearly).2 c hmem
      · exact ⟨fun _ => hc.completed.mp (by simp [ChannelCreator.isCompleted, hphase]),
          fun _ => by simp [ChannelCreator.isCompleted]⟩
      · intro t
        rw [hc.back t, hreturned]
        rfl
      · intro t
        unfold ChannelCreator.held
        rw [hreturned]
        rfl

/-! ### Steps of the reservation -/

/-- A request joins the queue of the worker. -/
theorem Sound.create (h : s.Sound) {permits : Transport → Int} (hsensible : Sensible permits) :
    (s.create permits).Sound := by
  unfold BulkReservation.create
  split
  · exact h
  · refine ⟨h.creators, h.maxPermits, h.semaphore, h.balance, ?_, h.worker, h.early, h.once⟩
    intro request hr
    rcases mem_append.mp hr with hr | hr
    · exact h.queue request hr
    · rw [mem_singleton.mp hr]
      exact hsensible

/-- The worker goes on with the permits that it has. -/
theorem Sound.setWorker (h : s.Sound) {semaphore : Transport → Int} {worker : WorkerPhase} (hok : WorkerOk worker)
    (hfree : ∀ t, 0 ≤ semaphore t)
    (hsame : ∀ t, semaphore t + ({ s with worker := worker } : BulkReservation).inProgress t =
      s.semaphore t + s.inProgress t) : Sound { s with semaphore := semaphore, worker := worker } := by
  refine ⟨h.creators, h.maxPermits, hfree, ?_, h.queue, hok, h.early, h.once⟩
  intro t
  have hbalance := h.balance t
  have hsame := hsame t
  show semaphore t + ({ s with worker := worker } : BulkReservation).inProgress t + s.held t +
    (if s.taken t then s.maxPermits t else 0) = s.maxPermits t
  omega

/-- The worker gets the permits of one transport. -/
theorem Sound.runAcquire (h : s.Sound) {request : WaitReservation} {next : WorkerPhase}
    (hstep : s.runAcquire t request next = some s')
    (hlost : request.permits t < 0 → ∀ t, s.inProgress t = 0)
    (hok : 0 ≤ request.permits t → WorkerOk next)
    (hself : ({ s with worker := next } : BulkReservation).inProgress t = request.permits t ∧ s.inProgress t = 0)
    (hother : ∀ t', t' ≠ t → ({ s with worker := next } : BulkReservation).inProgress t' = s.inProgress t') :
    s'.Sound := by
  unfold BulkReservation.runAcquire at hstep
  split at hstep
  · next hneg =>
      rw [← Option.some.inj hstep]
      refine h.setWorker trivial h.semaphore ?_
      intro t'
      rw [hlost hneg t']
      rfl
  · next hpos =>
      split at hstep
      · next henough =>
          rw [← Option.some.inj hstep]
          refine h.setWorker (hok (by omega)) ?_ ?_
          · intro t'
            by_cases ht : t' = t
            · rw [ht, update_self]
              omega
            · rw [update_of_ne ht]
              exact h.semaphore t'
          · intro t'
            by_cases ht : t' = t
            · rw [ht, update_self, hself.1, hself.2]
              omega
            · rw [update_of_ne ht, hother t' ht]
      · simp at hstep

theorem Sound.runWorker (h : s.Sound) (hstep : s.runWorker = some s') : s'.Sound := by
  have hok := h.worker
  unfold BulkReservation.runWorker at hstep
  cases hphase : s.worker with
  | idle =>
      rw [hphase] at hstep
      dsimp only at hstep
      cases hqueue : s.queue with
      | nil => rw [hqueue] at hstep; simp at hstep
      | cons request queue =>
          rw [hqueue] at hstep
          rw [← Option.some.inj hstep]
          -- A request is taken from the queue, and dropped when the reservation is shut down.
          have hrest : ∀ r ∈ queue, Sensible r.permits :=
            fun r hr => h.queue r (by rw [hqueue]; exact mem_cons_of_mem _ hr)
          have hzero : ∀ t, s.inProgress t = 0 := by
            intro t
            simp [inProgress, hphase]
          have hsound : Sound { s with worker := if s.isShutdown then .idle else .acquire .UDP request } := by
            refine h.setWorker ?_ h.semaphore ?_
            · split
              · trivial
              · exact h.queue request (by rw [hqueue]; exact mem_cons_self)
            · intro t
              rw [hzero t]
              cases s.isShutdown with
              | true => rfl
              | false => cases t <;> rfl
          exact ⟨hsound.creators, hsound.maxPermits, hsound.semaphore, hsound.balance, hrest, hsound.worker,
            hsound.early, hsound.once⟩
  | acquire t request =>
      rw [hphase] at hstep hok
      cases t with
      | UDP =>
          -- UDP permits come first, so that there are none to lose yet.
          refine h.runAcquire hstep ?_ (fun hpos => ⟨hpos, hok⟩) ⟨rfl, by simp [inProgress, hphase]⟩ ?_
          · intro _ t
            simp [inProgress, hphase]
          · intro t' ht
            cases t' with
            | UDP => exact absurd rfl ht
            | TCP => simp [inProgress, hphase]
      | TCP =>
          refine h.runAcquire hstep ?_ ?_ ⟨rfl, by simp [inProgress, hphase]⟩ ?_
          · -- Without TCP permits the worker has no UDP permits to lose.
            intro hneg t
            have hnone : request.permits .UDP = 0 := by
              rcases hok.2 with hpos | hle
              · omega
              · have hge := hok.1
                omega
            cases t with
            | UDP => simp [inProgress, hphase, hnone]
            | TCP => simp [inProgress, hphase]
          · intro hpos t
            cases t with
            | UDP => exact hok.1
            | TCP => exact hpos
          · intro t' ht
            cases t' with
            | UDP => simp [inProgress, hphase]
            | TCP => exact absurd rfl ht
  | reserve request =>
      rw [hphase] at hstep hok
      rw [← Option.some.inj hstep]
      refine ⟨?_, h.maxPermits, h.semaphore, ?_, h.queue, trivial, ?_, h.once⟩
      · intro c hc
        rcases mem_append.mp hc with hc | hc
        · exact h.creators c hc
        · rw [mem_singleton.mp hc]
          exact ChannelCreator.sound_new hok
      · intro t
        have hbalance := h.balance t
        -- What the worker had in its hands goes to the new creator.
        have hhas : s.inProgress t = request.permits t := by simp [inProgress, hphase]
        rw [hhas] at hbalance
        show s.semaphore t + 0 + ((s.creators ++ [ChannelCreator.new request.permits]).map (·.held t)).sum +
          (if s.taken t then s.maxPermits t else 0) = s.maxPermits t
        rw [map_append, sum_append]
        have hnew : (([ChannelCreator.new request.permits].map (·.held t)).sum : Int) = request.permits t := by
          simp [ChannelCreator.held, ChannelCreator.new, ChannelCreator.isReturned]
        rw [hnew]
        unfold held at hbalance
        omega
      · intro hearly
        refine ⟨(h.early hearly).1, ?_⟩
        intro c hc
        rcases mem_append.mp hc with hc | hc
        · exact (h.early hearly).2 c hc
        · rw [mem_singleton.mp hc]
          rfl

/-- The worker is interrupted, and gives back what it has taken for its request. -/
theorem Sound.interrupt (h : s.Sound) (hstep : s.interrupt = some s') : s'.Sound := by
  have hok := h.worker
  unfold BulkReservation.interrupt at hstep
  cases hphase : s.worker with
  | idle | reserve request => rw [hphase] at hstep; simp at hstep
  | acquire t request =>
      rw [hphase] at hstep hok
      cases t with
      | UDP =>
          rw [← Option.some.inj hstep]
          refine h.setWorker trivial h.semaphore ?_
          intro t
          simp [inProgress, hphase]
      | TCP =>
          rw [← Option.some.inj hstep]
          refine h.setWorker trivial ?_ ?_
          · intro t
            have hfree := h.semaphore t
            cases t with
            | UDP =>
                rw [update_self]
                have hpos := hok.1
                omega
            | TCP =>
                rw [update_of_ne (by simp)]
                exact hfree
          · intro t
            cases t with
            | UDP =>
                rw [update_self]
                simp [inProgress, hphase]
            | TCP =>
                rw [update_of_ne (by simp)]
                simp [inProgress, hphase]

/-- The shutdown of the reservation goes on. -/
theorem Sound.setStop (h : s.Sound) {stop : StopPhase}
    (hearly : ({ s with stop := stop } : BulkReservation).isEarly = true → s.isEarly = true) :
    Sound { s with stop := stop } :=
  ⟨h.creators, h.maxPermits, h.semaphore, h.balance, h.queue, h.worker, fun hnew => h.early (hearly hnew), h.once⟩

/-- The shutdown of the reservation adds its listener to a creator, or counts it. -/
theorem Sound.setCounter (h : s.Sound) (hi : s.creators[i]? = some c) (hlate : s.isEarly = false)
    (counter : CounterPhase) : (s.setCreator i { c with counter := counter }).Sound := by
  have hc := h.creators c (mem_of_getElem? hi)
  refine h.setCreator hi ⟨hc.permits, hc.semaphore, hc.balance, hc.running, hc.closed, hc.completed, hc.back⟩
    (fun _ => rfl) ?_
  intro hearly
  rw [hlate] at hearly
  exact absurd hearly Bool.false_ne_true

theorem Sound.shutdown (h : s.Sound) (hi : s.creators[i]? = some c) (hcalm : s.Calm i) :
    (s.setCreator i c.shutdown).Sound := by
  have hmem := mem_of_getElem? hi
  obtain ⟨hsound, hheld⟩ := (h.creators c hmem).shutdown (hcalm c hi)
  exact h.setCreator hi hsound hheld fun hearly => (counter_shutdown c).trans ((h.early hearly).2 c hmem)

theorem Sound.runStop (h : s.Sound) (hcond : s.Orderly .stop) (hstep : s.runStop = some s') : s'.Sound := by
  unfold BulkReservation.runStop at hstep
  cases hphase : s.stop with
  | idle =>
      rw [hphase] at hstep
      dsimp only at hstep
      split at hstep
      · rw [← Option.some.inj hstep]
        have hstop : Sound { s with stop := .drain } := h.setStop fun _ => by simp [isEarly, hphase]
        exact ⟨hstop.creators, hstop.maxPermits, hstop.semaphore, hstop.balance, hstop.queue, hstop.worker,
          hstop.early, hstop.once⟩
      · simp at hstep
  | drain =>
      rw [hphase] at hstep
      rw [← Option.some.inj hstep]
      have hstop : Sound { s with stop := .copy } := h.setStop fun _ => by simp [isEarly, hphase]
      exact ⟨hstop.creators, hstop.maxPermits, hstop.semaphore, hstop.balance,
        fun request hr => absurd hr not_mem_nil, hstop.worker, hstop.early, hstop.once⟩
  | copy =>
      rw [hphase] at hstep
      rw [← Option.some.inj hstep]
      have hidle := (h.early (by simp [isEarly, hphase])).1
      exact ⟨h.creators, h.maxPermits, h.semaphore, h.balance, h.queue, h.worker, fun hearly => by simp [isEarly] at hearly,
        .inl hidle⟩
  | listen rest =>
      have hlate : s.isEarly = false := by simp [isEarly, hphase]
      rw [hphase] at hstep
      cases rest with
      | nil =>
          rw [← Option.some.inj hstep]
          exact h.setStop fun hearly => by simp [isEarly] at hearly
      | cons i rest =>
          obtain ⟨c, hc, rfl⟩ := Option.map_eq_some_iff.mp hstep
          exact (h.setCounter hc hlate .waiting).setStop fun hearly => by simp [isEarly] at hearly
  | shutdown i rest =>
      have hcalm : s.Calm i := hcond i (by simp [hphase])
      rw [hphase] at hstep
      obtain ⟨c, hc, rfl⟩ := Option.map_eq_some_iff.mp hstep
      exact (h.shutdown hc hcalm).setStop fun hearly => by simp [isEarly] at hearly
  | ended => rw [hphase] at hstep; simp at hstep

theorem Sound.count (h : s.Sound) (hi : s.creators[i]? = some c) (hstep : s.count i c = some s') : s'.Sound := by
  unfold BulkReservation.count at hstep
  split at hstep
  · next hcalled =>
      rw [← Option.some.inj hstep]
      have hlate : s.isEarly = false := by
        rw [Bool.eq_false_iff]
        intro hearly
        have habsent := (h.early hearly).2 c (mem_of_getElem? hi)
        simp [habsent] at hcalled
      have hcounted := h.setCounter hi hlate .called
      by_cases hlast : s.completeCounter + 1 = s.size
      · -- The last one. Nothing was taken before.
        have hidle : s.take = .idle := by
          rcases h.once with hidle | hle
          · exact hidle
          · omega
        rw [if_pos hlast]
        refine ⟨hcounted.creators, hcounted.maxPermits, hcounted.semaphore, ?_, hcounted.queue, hcounted.worker, ?_,
          .inr (by dsimp only [BulkReservation.setCreator]; omega)⟩
        · intro t
          have hbalance := hcounted.balance t
          have hbefore : (s.setCreator i { c with counter := .called }).taken t = false := by
            show BulkReservation.taken s t = false
            simp [taken, hidle]
          rw [hbefore] at hbalance
          exact hbalance
        · intro hearly
          have hsame : s.isEarly = true := hearly
          rw [hlate] at hsame
          exact absurd hsame Bool.false_ne_true
      · rw [if_neg hlast]
        refine ⟨hcounted.creators, hcounted.maxPermits, hcounted.semaphore, hcounted.balance, hcounted.queue,
          hcounted.worker, hcounted.early, ?_⟩
        rcases h.once with hidle | hle
        · exact .inl hidle
        · exact .inr (Nat.le_succ_of_le hle)
  · simp at hstep

theorem Sound.takeAll (h : s.Sound) {next : TakePhase} (hstep : s.takeAll t next = some s') (hbusy : s.take ≠ .idle)
    (hbefore : s.taken t = false) (hself : ({ s with take := next } : BulkReservation).taken t = true)
    (hother : ∀ t', t' ≠ t → ({ s with take := next } : BulkReservation).taken t' = s.taken t') : s'.Sound := by
  unfold BulkReservation.takeAll at hstep
  split at hstep
  · next henough =>
      rw [← Option.some.inj hstep]
      refine ⟨h.creators, h.maxPermits, ?_, ?_, h.queue, h.worker, fun hearly => absurd (h.early hearly).1 hbusy, ?_⟩
      · exact (forall_update_iff _ fun _ free => 0 ≤ free).mpr ⟨by omega, fun t' _ => h.semaphore t'⟩
      · intro t'
        have hbalance := h.balance t'
        show update s.semaphore t (s.semaphore t - s.maxPermits t) t' + s.inProgress t' + s.held t' +
          (if ({ s with take := next } : BulkReservation).taken t' then s.maxPermits t' else 0) = s.maxPermits t'
        by_cases ht : t' = t
        · rw [ht] at hbalance ⊢
          rw [hbefore, if_neg Bool.false_ne_true] at hbalance
          rw [update_self, hself, if_pos rfl]
          omega
        · rw [update_of_ne ht, hother t' ht]
          exact hbalance
      · rcases h.once with hidle | hle
        · exact absurd hidle hbusy
        · exact .inr hle
  · simp at hstep

theorem Sound.runTake (h : s.Sound) (hstep : s.runTake = some s') : s'.Sound := by
  unfold BulkReservation.runTake at hstep
  cases hphase : s.take with
  | idle | ended => rw [hphase] at hstep; simp at hstep
  | acquire t =>
      rw [hphase] at hstep
      cases t with
      | UDP =>
          refine h.takeAll hstep (by simp [hphase]) (by simp [taken, hphase]) rfl ?_
          intro t' ht
          cases t' with
          | UDP => exact absurd rfl ht
          | TCP => simp [taken, hphase]
      | TCP =>
          refine h.takeAll hstep (by simp [hphase]) (by simp [taken, hphase]) rfl ?_
          intro t' ht
          cases t' with
          | UDP => simp [taken, hphase]
          | TCP => exact absurd rfl ht

/-- Every orderly step keeps the reservation sound. -/
theorem step_sound (h : s.Sound) {e : ReservationEvent} (hcond : s.Orderly e) (hstep : s.step e = some s') :
    s'.Sound := by
  cases e with
  | create permitsUDPUnadjusted permitsTCP =>
      rw [← Option.some.inj hstep]
      exact h.create hcond
  | work => exact h.runWorker hstep
  | interrupt => exact h.interrupt hstep
  | connect i t => exact h.onCreator (fun _ _ hc hf => hc.connect hf) (fun _ _ hf => counter_connect hf) hstep
  | closeChannel i k =>
      exact h.onCreator (fun _ _ hc hf => hc.closeChannel hf) (fun _ _ hf => counter_closeChannel hf) hstep
  | closeListener i k =>
      exact h.onCreator (fun _ _ hc hf => hc.closeListener hf) (fun _ _ hf => counter_closeListener hf) hstep
  | shutdown i =>
      obtain ⟨c, hc, rfl⟩ := Option.map_eq_some_iff.mp hstep
      exact h.shutdown hc hcond
  | close i => exact h.onCreator (fun _ _ hc hf => hc.runClose hf) (fun _ _ hf => counter_runClose hf) hstep
  | listener i =>
      obtain ⟨c, hc, hrun⟩ := Option.bind_eq_some_iff.mp hstep
      exact h.runListener hc hrun
  | stop => exact h.runStop hcond hstep
  | count i =>
      obtain ⟨c, hc, hrun⟩ := Option.bind_eq_some_iff.mp hstep
      exact h.count hc hrun
  | take => exact h.runTake hstep

/-! ### What follows -/

theorem Sound.inProgress_nonneg (h : s.Sound) (t : Transport) : 0 ≤ s.inProgress t := by
  have hok := h.worker
  unfold inProgress
  cases hphase : s.worker with
  | idle => exact Int.le_refl 0
  | acquire t' request =>
      rw [hphase] at hok
      cases t' with
      | UDP => exact Int.le_refl 0
      | TCP =>
          cases t with
          | UDP => exact hok.1
          | TCP => exact Int.le_refl 0
  | reserve request =>
      rw [hphase] at hok
      exact hok t

/-- No more connections than permits. -/
theorem Sound.connected_le (h : s.Sound) (t : Transport) : s.connected t ≤ s.maxPermits t := by
  have hle : s.connected t ≤ s.held t := sum_map_le fun c hc => (h.creators c hc).connected_le_held t
  have hbalance := h.balance t
  have hfree := h.semaphore t
  have hprogress := h.inProgress_nonneg t
  have hmax := h.maxPermits t
  split at hbalance
  · omega
  · omega

/-- A creator that is shut down and has no open channel goes on until its permits are
    back. -/
theorem Sound.soon (h : s.Sound) (hi : s.creators[i]? = some c) (hshutdown : c.isShutdown = true)
    (hclosed : ∀ channel ∈ c.recipients, channel.phase ≠ .connected) : (∀ t, c.givenBack t = 1) ∨
      ∃ e, (e = .close i ∨ e = .listener i ∨ ∃ k, e = .closeListener i k) ∧ (s.step e).isSome = true := by
  have hc := h.creators c (mem_of_getElem? hi)
  by_cases hlistener : ∃ (k : Nat) (channel : CreatedChannel), c.recipients[k]? = some channel ∧ channel.phase = .closed
  · obtain ⟨k, channel, hk, hphase⟩ := hlistener
    refine .inr ⟨_, .inr (.inr ⟨k, rfl⟩), ?_⟩
    simp [step, hi, ChannelCreator.closeListener, hk, hphase]
  · -- All close listeners were called, so that all permits of the creator are free.
    have hfree : ∀ t, c.unreleased t = 0 := by
      intro t
      unfold ChannelCreator.unreleased
      rw [countP_eq_zero]
      intro channel hchannel hcount
      obtain ⟨k, hk⟩ := mem_iff_getElem?.mp hchannel
      rw [Bool.and_eq_true_iff, decide_eq_true_eq, decide_eq_true_eq] at hcount
      cases hphase : channel.phase with
      | connected => exact hclosed channel hchannel hphase
      | closed => exact hlistener ⟨k, channel, hk, hphase⟩
      | released => exact hcount.2 hphase
    have hgoes : c.runClose.isSome = true → ∃ e, (e = ReservationEvent.close i ∨ e = .listener i ∨
        ∃ k, e = .closeListener i k) ∧ (s.step e).isSome = true := by
      intro hrun
      refine ⟨.close i, .inl rfl, ?_⟩
      simp [step, hi, hrun]
    have hacquire : ∀ t next, c.acquired t = 0 → (c.acquireAll t next).isSome = true := by
      intro t next hzero
      have hbalance := hc.balance t
      have hunreleased := hfree t
      unfold ChannelCreator.acquireAll
      rw [if_pos (by omega)]
      rfl
    -- The creator shuts down as far as it gets, and then its listener gives the permits back.
    cases hphase : c.close with
    | idle => exact absurd hphase (hc.running.mp hshutdown)
    | closing =>
        refine .inr (hgoes ?_)
        unfold ChannelCreator.runClose
        rw [hphase]
        dsimp only
        rw [if_pos]
        · rfl
        · exact all_eq_true.mpr fun channel hchannel => by simpa using hclosed channel hchannel
    | acquire t =>
        refine .inr (hgoes ?_)
        unfold ChannelCreator.runClose
        rw [hphase]
        cases t with
        | UDP => exact hacquire .UDP _ (by simp [ChannelCreator.acquired, hphase])
        | TCP => exact hacquire .TCP _ (by simp [ChannelCreator.acquired, hphase])
    | finish =>
        refine .inr (hgoes ?_)
        unfold ChannelCreator.runClose
        rw [hphase]
        rfl
    | ended =>
        have hcompleted := hc.completed.mpr hphase
        have hback : (∀ t, c.isReturned t = true) → ∀ t, c.givenBack t = 1 := by
          intro hreturned t
          rw [hc.back t, hreturned t]
          rfl
        have hlisten : (s.runListener i c).isSome = true → ∃ e, (e = ReservationEvent.close i ∨ e = .listener i ∨
            ∃ k, e = .closeListener i k) ∧ (s.step e).isSome = true := by
          intro hrun
          refine ⟨.listener i, .inr (.inl rfl), ?_⟩
          simp [step, hi, hrun]
        cases hrelease : c.release with
        | waiting => simp [ChannelCreator.isCompleted, hrelease] at hcompleted
        | release t =>
            refine .inr (hlisten ?_)
            unfold BulkReservation.runListener
            rw [hrelease]
            cases t <;> rfl
        | remove | ended => exact .inl (hback fun t => by simp [ChannelCreator.isReturned, hrelease])

/-- Every permit is at hand, taken or with a creator. -/
theorem Sound.accounted (h : s.Sound) : s.Accounted where
  balance := by
    intro t htaken
    have hbalance := h.balance t
    rw [htaken, if_neg Bool.false_ne_true] at hbalance
    omega
  channels := h.connected_le
  once := by
    intro c hc t
    rw [(h.creators c hc).back t]
    exact Bool.toNat_le _
  completed := fun c hc => (h.creators c hc).disconnected
  back := by
    intro c hc t hback
    rw [(h.creators c hc).back t] at hback
    unfold ChannelCreator.isCompleted
    rw [decide_eq_true_eq]
    intro hwaiting
    simp [ChannelCreator.isReturned, hwaiting] at hback
  soon := fun i c hi => h.soon hi

/-- Whatever the threads do, the permits are kept if no creator is shut down while its
    shutdown is under way, and no negative number of TCP permits is asked for. -/
theorem accounted_of_orderly (h : Reached step Orderly Fresh s) : s.Accounted :=
  (h.invariant Sound (fun _ hfresh => hfresh.sound) fun _ _ _ hsound hcond hstep =>
    step_sound hsound hcond hstep).accounted

/-- A reservation of one UDP connection. -/
def one : Transport → Int
  | .UDP => 1
  | .TCP => 0

theorem fresh_one : Fresh (new one) := ⟨one, fun t => by cases t <;> decide, rfl⟩

/-- A creator is used and shut down, and another one gets its permit. This one is shut down
    with the reservation, which has all permits in the end. -/
theorem accounted_two_creators :
    ∃ s, Reached step Orderly Fresh s ∧ s.creators.map (·.givenBack .UDP) = [1, 1] ∧ s.semaphore .UDP = 0 ∧
      s.Accounted := by
  let events : List ReservationEvent :=
    [.create 1 0, .work, .work, .work, .work, .connect 0 .UDP, .create 1 0, .work, .shutdown 0, .closeChannel 0 0,
      .closeListener 0 0, .close 0, .close 0, .close 0, .close 0, .listener 0, .listener 0, .listener 0, .work, .work,
      .work, .stop, .stop, .stop, .stop, .stop, .close 1, .close 1, .close 1, .close 1, .listener 1, .listener 1,
      .count 1, .take, .take]
  have hstart : Reached step Orderly Fresh (new one) := .start fresh_one
  have hsome : (replay step Orderly events (new one)).map
      (fun s => (s.creators.map (·.givenBack .UDP), s.semaphore .UDP)) = some ([1, 1], 0) := by decide +kernel
  obtain ⟨s, hs, heq⟩ := Option.map_eq_some_iff.mp hsome
  simp only [Prod.mk.injEq] at heq
  exact ⟨s, hstart.replay events hs, heq.1, heq.2, accounted_of_orderly (hstart.replay events hs)⟩

/-- A creator with an open channel is shut down twice. Its permit is back at once, and the
    next creator opens a second channel with it. -/
theorem not_accounted_twice : ¬ ∀ s, Reached step (fun _ _ => True) Fresh s → s.Accounted := by
  intro hall
  let events : List ReservationEvent :=
    [.create 1 0, .work, .work, .work, .work, .connect 0 .UDP, .shutdown 0, .shutdown 0, .listener 0, .create 1 0,
      .work, .work, .work, .work, .connect 1 .UDP]
  have hstart : Reached step (fun _ _ => True) Fresh (new one) := .start fresh_one
  have hsome : (replay step (fun _ _ => True) events (new one)).map (fun s => (s.connected .UDP, s.maxPermits .UDP)) =
      some (2, 1) := by decide +kernel
  obtain ⟨s, hs, heq⟩ := Option.map_eq_some_iff.mp hsome
  simp only [Prod.mk.injEq] at heq
  have hchannels := (hall s (hstart.replay events hs)).channels .UDP
  rw [heq.1, heq.2] at hchannels
  exact absurd hchannels (by decide)

end BulkReservation

end TomP2P
