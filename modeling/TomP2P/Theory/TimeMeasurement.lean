import TomP2P.Core.RoundTripTime

/-!
# Measuring a Round Trip

A measurement begins, may begin again, and ends with the first stop behind a beginning. From
then on nothing changes it. `Measurement` is that, written down without an `RTT`, and
`Measures` says that an `RTT` does the same.

An `RTT` knows that nothing was measured by `getRtt`, which is then minus one. But `getRtt`
divides by 3.5 what is measured over TCP, and as soon as a measurement has begun it takes this
to be so. Minus one divided by 3.5 is zero. So with its first beginning over TCP an `RTT` counts
as measured, with a time of zero, and no stop is ever accepted. What works is UDP. Besides, a
time of zero is no beginning, which only a clock in 1970 would show.

## Main definitions

* `Measurement`: How far a measurement is.
* `RTT.Measures`: The object measures what it is told to.
* `Measurement.Allowed`: The calls that go well.

## Theorems

* `Measurement.Shows.call`: Such a call does to the object what it does to the measurement.
* `RTT.measures_iff`: When the object measures what it is told to.
-/

namespace TomP2P

open List

/-- How far a measurement is. -/
inductive Measurement
  | idle
  | begun (start : Int) (isUDP : Bool)
  | stopped (rtt : Int)
  deriving DecidableEq

namespace Measurement

open RTT

/-- The time, minus one as long as there is none. -/
def rtt : Measurement → Int
  | .idle => -1
  | .begun _ _ => -1
  | .stopped rtt => rtt

/-- The time that has passed, over TCP divided by 3.5 and truncated. -/
def elapsed (isUDP : Bool) (time : Int) : Int := if isUDP then time else (2 * time).tdiv 7

def next (m : Measurement) (e : Call × Int) : Measurement :=
  match m, e.1 with
  | .stopped rtt, _ => .stopped rtt
  | _, .beginTimeMeasurement isUDP => .begun e.2 isUDP
  | .idle, .stopTimeMeasurement => .idle
  | .begun start isUDP, .stopTimeMeasurement => .stopped (elapsed isUDP (e.2 - start))

/-- The measurement after these calls. -/
def of (calls : List (Call × Int)) : Measurement := calls.foldl next .idle

/-- Until there is a time, a measurement begins over UDP only, and the clock is positive where
    the one that is stopped has begun. -/
def Allowed (m : Measurement) (e : Call × Int) : Prop :=
  match m, e.1 with
  | .stopped _, _ => True
  | _, .beginTimeMeasurement isUDP => isUDP = true
  | .idle, .stopTimeMeasurement => True
  | .begun start _, .stopTimeMeasurement => 0 < start

instance (m : Measurement) (e : Call × Int) : Decidable (m.Allowed e) := by
  unfold Allowed
  split <;> infer_instance

/-- What a call returns: a stop whether it ends a measurement, and everything behind it false. -/
def Answers (m : Measurement) (e : Call × Int) (answer : Bool) : Prop :=
  match m, e.1 with
  | .stopped _, _ => answer = false
  | .begun _ _, .stopTimeMeasurement => answer = true
  | _, _ => True

theorem of_snoc (calls : List (Call × Int)) (e : Call × Int) : of (calls ++ [e]) = (of calls).next e := by
  rw [of, of, foldl_append]
  rfl

/-! ### The object and the measurement -/

/-- The object has come as far as the measurement. -/
def Shows (m : Measurement) (r : RTT) : Prop :=
  match m with
  | .idle => r.rtt = -1 ∧ r.isUDP = true ∧ r.startMeasurementTimestamp = -1
  | .begun start isUDP => r.rtt = -1 ∧ r.isUDP = true ∧ isUDP = true ∧ r.startMeasurementTimestamp = start
  | .stopped rtt => r.rtt = rtt ∧ r.isUDP = true ∧ 0 ≤ rtt

variable {m : Measurement} {r : RTT} {e : Call × Int}

theorem Shows.getRtt (h : m.Shows r) : r.getRtt = m.rtt := by
  cases m with
  | idle | begun start isUDP | stopped time => rw [RTT.getRtt, if_pos h.2.1, h.1, rtt]

/-- Behind the end of a measurement nothing changes. -/
theorem Shows.call_stopped {time : Int} (h : (stopped time).Shows r) : r.call e.2 e.1 = (false, r) := by
  have hne : r.getRtt ≠ -1 := by
    have hpos := h.2.2
    rw [h.getRtt, rtt]
    omega
  cases he : e.1 with
  | beginTimeMeasurement isUDP => rw [RTT.call, beginTimeMeasurement, if_neg hne, decide_eq_false hne]
  | stopTimeMeasurement =>
      have hnot : ¬ (r.getRtt = -1 ∧ 0 < r.startMeasurementTimestamp) := fun hand => hne hand.1
      rw [RTT.call, stopTimeMeasurement, if_neg hnot, decide_eq_false hnot]

/-- A call that goes well does to the object what it does to the measurement. The clock has not
    gone back since the beginning. -/
theorem Shows.call (h : m.Shows r) (hallowed : m.Allowed e)
    (hclock : ∀ start isUDP, m = .begun start isUDP → start ≤ e.2) :
    (m.next e).Shows (r.call e.2 e.1).2 ∧ m.Answers e (r.call e.2 e.1).1 := by
  rcases e with ⟨c, now⟩
  cases m with
  | stopped time =>
      rw [h.call_stopped]
      exact ⟨h, rfl⟩
  | idle =>
      have hrtt : r.getRtt = -1 := h.getRtt
      cases c with
      | beginTimeMeasurement isUDP =>
          refine ⟨?_, trivial⟩
          rw [RTT.call, beginTimeMeasurement, if_pos hrtt]
          exact ⟨h.1, hallowed, hallowed, rfl⟩
      | stopTimeMeasurement =>
          -- No beginning has left its time, so there is nothing to stop.
          have hnot : ¬ (r.getRtt = -1 ∧ 0 < r.startMeasurementTimestamp) := by
            rw [h.2.2]
            omega
          refine ⟨?_, trivial⟩
          rw [RTT.call, stopTimeMeasurement, if_neg hnot]
          exact h
  | begun start isUDP =>
      have hrtt : r.getRtt = -1 := h.getRtt
      cases c with
      | beginTimeMeasurement isUDP' =>
          refine ⟨?_, trivial⟩
          rw [RTT.call, beginTimeMeasurement, if_pos hrtt]
          exact ⟨h.1, hallowed, hallowed, rfl⟩
      | stopTimeMeasurement =>
          have hle := hclock start isUDP rfl
          have hstart : 0 < r.startMeasurementTimestamp := by
            rw [h.2.2.2]
            exact hallowed
          rw [RTT.call, stopTimeMeasurement, if_pos ⟨hrtt, hstart⟩]
          refine ⟨⟨?_, h.2.1, ?_⟩, decide_eq_true ⟨hrtt, hstart⟩⟩
          · rw [elapsed, if_pos h.2.2.1, h.2.2.2]
          · rw [elapsed, if_pos h.2.2.1]
            dsimp only at hle ⊢
            omega

end Measurement

namespace RTT

open Measurement

theorem measure_snoc (calls : List (Call × Int)) (e : Call × Int) :
    measure (calls ++ [e]) = ((measure calls).call e.2 e.1).2 := by
  rw [measure, measure, foldl_append]
  rfl

/-- After every call the time is that of the measurement. A stop that ends the measurement
    returns true. Behind it every call returns false and changes nothing. -/
structure Measures (calls : List (Call × Int)) : Prop where
  rtt : ∀ before, before <+: calls → (measure before).getRtt = (Measurement.of before).rtt
  answers : ∀ before e, before ++ [e] <+: calls →
    (Measurement.of before).Answers e ((measure before).call e.2 e.1).1
  stays : ∀ before e time, before ++ [e] <+: calls → Measurement.of before = .stopped time →
    ((measure before).call e.2 e.1).2 = measure before

/-- A measurement has begun at the time of one of the calls. -/
theorem exists_begun (calls : List (Call × Int)) {start : Int} {isUDP : Bool}
    (h : Measurement.of calls = .begun start isUDP) : ∃ e ∈ calls, e.2 = start := by
  induction calls using List.reverseRecOn with
  | nil => cases h
  | append_singleton calls e ih =>
      rw [of_snoc] at h
      rcases e with ⟨c, now⟩
      cases hm : Measurement.of calls with
      | stopped time =>
          rw [hm] at h
          cases h
      | idle =>
          rw [hm] at h
          cases c with
          | beginTimeMeasurement isUDP' =>
              cases h
              exact ⟨_, mem_append_right _ mem_cons_self, rfl⟩
          | stopTimeMeasurement => cases h
      | begun start' isUDP' =>
          rw [hm] at h
          cases c with
          | beginTimeMeasurement isUDP' =>
              cases h
              exact ⟨_, mem_append_right _ mem_cons_self, rfl⟩
          | stopTimeMeasurement => cases h

variable {calls : List (Call × Int)}

/-- As long as all calls go well, the object comes as far as the measurement. -/
theorem shows_of (hclock : calls.Pairwise fun a b => a.2 ≤ b.2)
    (h : ∀ before e, before ++ [e] <+: calls → (Measurement.of before).Allowed e) (before : List (Call × Int))
    (hbefore : before <+: calls) : (Measurement.of before).Shows (measure before) := by
  induction before using List.reverseRecOn with
  | nil => exact ⟨rfl, rfl, rfl⟩
  | append_singleton before e ih =>
      rw [of_snoc, measure_snoc]
      refine ((ih ((prefix_append before [e]).trans hbefore)).call (h before e hbefore) ?_).1
      intro start isUDP hbegun
      rcases exists_begun before hbegun with ⟨e', he', rfl⟩
      have hpairs := hclock.sublist hbefore.sublist
      exact (pairwise_append.mp hpairs).2.2 e' he' e mem_cons_self

/-- A call that does not go well is seen to fail: at its answer, or at the time behind it. -/
theorem allowed_of {m : Measurement} {r : RTT} {e : Call × Int} (hshows : m.Shows r)
    (hrtt : (r.call e.2 e.1).2.getRtt = (m.next e).rtt) (hanswers : m.Answers e (r.call e.2 e.1).1) : m.Allowed e := by
  rcases e with ⟨c, now⟩
  have hstart := hshows.getRtt
  -- Over TCP the time is zero at once.
  have hudp (isUDP : Bool) (hno : m.rtt = -1)
      (h : (r.beginTimeMeasurement isUDP now).getRtt = -1) (hr : r.rtt = -1) : isUDP = true := by
    rw [beginTimeMeasurement, if_pos (hstart.trans hno)] at h
    cases isUDP with
    | true => rfl
    | false =>
        rw [getRtt, if_neg Bool.false_ne_true, hr] at h
        exact absurd h (by decide)
  cases m with
  | stopped time => trivial
  | idle =>
      cases c with
      | beginTimeMeasurement isUDP => exact hudp isUDP rfl hrtt hshows.1
      | stopTimeMeasurement => trivial
  | begun start isUDP =>
      cases c with
      | beginTimeMeasurement isUDP' => exact hudp isUDP' rfl hrtt hshows.1
      | stopTimeMeasurement =>
          have hpos := (of_decide_eq_true hanswers).2
          rwa [hshows.2.2.2] at hpos

/-- The object measures what it is told to if and only if, up to the first stop behind a
    beginning, measurements begin over UDP only, and the last of them at a positive time. -/
theorem measures_iff (hclock : calls.Pairwise fun a b => a.2 ≤ b.2) :
    Measures calls ↔ ∀ before e, before ++ [e] <+: calls → (Measurement.of before).Allowed e := by
  constructor
  · intro h before
    -- The calls are looked at one after the other: those in front have gone well.
    induction hlen : before.length using Nat.strong_induction_on generalizing before with
    | _ n ih =>
        intro e hbefore
        have hprefix : before <+: calls := (prefix_append before [e]).trans hbefore
        have hshows : (Measurement.of before).Shows (measure before) := by
          refine shows_of (hclock.sublist hprefix.sublist) (fun front e' hfront => ?_) before (prefix_refl before)
          have hlt := hfront.length_le
          rw [length_append, length_singleton] at hlt
          exact ih front.length (by omega) front rfl e' (hfront.trans hprefix)
        refine allowed_of hshows ?_ (h.answers before e hbefore)
        rw [← measure_snoc, ← of_snoc]
        exact h.rtt _ hbefore
  · intro h
    have hshows := shows_of hclock h
    refine ⟨fun before hbefore => (hshows before hbefore).getRtt, fun before e hbefore => ?_,
      fun before e time hbefore hstopped => ?_⟩
    · refine ((hshows before ((prefix_append before [e]).trans hbefore)).call (h before e hbefore) ?_).2
      intro start isUDP hbegun
      rcases exists_begun before hbegun with ⟨e', he', rfl⟩
      exact (pairwise_append.mp (hclock.sublist hbefore.sublist)).2.2 e' he' e mem_cons_self
    · have hs := hshows before ((prefix_append before [e]).trans hbefore)
      rw [hstopped] at hs
      rw [hs.call_stopped]

/-- A request over UDP that is answered after seven milliseconds. -/
theorem measures_udp :
    Measures [(.beginTimeMeasurement true, 1000), (.stopTimeMeasurement, 1007)] := by
  refine (measures_iff (by decide)).mpr fun before e hbefore => ?_
  match before, hbefore with
  | [], hbefore =>
      rw [(cons_prefix_cons.mp hbefore).1]
      rfl
  | [first], hbefore =>
      rcases cons_prefix_cons.mp hbefore with ⟨rfl, hrest⟩
      rw [(cons_prefix_cons.mp hrest).1]
      decide
  | _ :: _ :: _, hbefore =>
      have hlen := hbefore.length_le
      simp at hlen

/-- Over TCP nothing is measured. -/
theorem not_measures_tcp :
    ¬ ∀ calls : List (Call × Int), (calls.Pairwise fun a b => a.2 ≤ b.2) → Measures calls := by
  intro h
  have hrtt := (h [(.beginTimeMeasurement false, 1000)] (pairwise_singleton _ _)).rtt _ (prefix_refl _)
  exact absurd hrtt (by decide)

end RTT

end TomP2P
