import Mathlib.Data.List.Nodup
import Mathlib.Data.List.Perm.Basic
import Mathlib.Data.List.Perm.Subperm
import TomP2P.Core.ForkJoin

/-!
# Fork Joins

What a fork join counts, and where the requests are that it counts.

A request is in one slot until it is evaluated, and in none after that (`Sound`). A
fork join that has not completed has counted the empty ones of the slots it has gone
past, and listens to the requests in the others (`Joining`). It follows that a fork
join fails only when all slots are empty (`Closed`).

## Main definitions

* `Later`: Requests at a later time.
* `Sound`: Every request is in one place.
* `Joining`, `Counted`, `Closed`: A fork join on its way, and in the end.

## Theorems

* `FutureForkJoin.evaluate_cases`: What evaluating a request does to a fork join.
* `Joining.attach`, `Joining.miss`, `Joining.notify`: A fork join goes past a request
  and past an empty slot, and a request comes back.
* `Sound.outstanding_le`: Requests on their way are in slots of their own.
-/

namespace TomP2P

open FutureResponse List

/-! ### Requests over time -/

section Requests

variable {P A : Type} {requests requests' : List (FutureResponse P A)} {r : Nat}

/-- The same requests or more, and those that had completed are unchanged. -/
def Later (requests requests' : List (FutureResponse P A)) : Prop :=
  ∀ (r : Nat) f, requests[r]? = some f → ∃ f', requests'[r]? = some f' ∧ (f.isCompleted = true → f' = f)

theorem returned_iff : returned requests r = true ↔ ∃ f, requests[r]? = some f ∧ f.isCompleted = true := by
  rw [returned, Option.any_eq_true]

theorem lt_of_returned (h : returned requests r = true) : r < requests.length := by
  obtain ⟨f, hf, _⟩ := returned_iff.mp h
  exact (List.getElem?_eq_some_iff.mp hf).1

theorem Later.returned (h : Later requests requests') (hr : returned requests r = true) :
    returned requests' r = true := by
  obtain ⟨f, hf, hdone⟩ := returned_iff.mp hr
  obtain ⟨f', hf', heq⟩ := h r f hf
  exact returned_iff.mpr ⟨f', hf', by rw [heq hdone]; exact hdone⟩

theorem Later.succeeded (h : Later requests requests') (hr : FutureResponse.returned requests r = true) :
    succeeded requests' r = succeeded requests r := by
  obtain ⟨f, hf, hdone⟩ := returned_iff.mp hr
  obtain ⟨f', hf', heq⟩ := h r f hf
  rw [FutureResponse.succeeded, FutureResponse.succeeded, hf, hf', heq hdone]

theorem Later.refl (requests : List (FutureResponse P A)) : Later requests requests :=
  fun _ f hf => ⟨f, hf, fun _ => rfl⟩

theorem complete_of_isCompleted {f : FutureResponse P A} (answer : Option A) (h : f.isCompleted = true) :
    f.complete answer = f := by
  rw [complete, if_pos h]

theorem later_modify (requests : List (FutureResponse P A)) (q : Nat) (answer : Option A) :
    Later requests (requests.modify q (·.complete answer)) := by
  intro r f hf
  rw [getElem?_modify, hf]
  by_cases hq : q = r
  · exact ⟨f.complete answer, by simp [hq], complete_of_isCompleted answer⟩
  · exact ⟨f, by simp [hq], fun _ => rfl⟩

theorem later_append (requests : List (FutureResponse P A)) (f : FutureResponse P A) :
    Later requests (requests ++ [f]) := by
  intro r g hg
  refine ⟨g, ?_, fun _ => rfl⟩
  rw [List.getElem?_append_left (List.getElem?_eq_some_iff.mp hg).1]
  exact hg

theorem later_mapIdx (requests : List (FutureResponse P A)) (slots : List (Option Nat)) :
    Later requests (requests.mapIdx fun r f => if some r ∈ slots then f.complete none else f) := by
  intro r f hf
  rw [getElem?_mapIdx, hf]
  refine ⟨_, rfl, fun hdone => ?_⟩
  split
  · exact complete_of_isCompleted none hdone
  · rfl

theorem complete_peer (f : FutureResponse P A) (answer : Option A) : (f.complete answer).peer = f.peer := by
  unfold complete
  split <;> rfl

end Requests

/-! ### Evaluating a request -/

namespace FutureForkJoin

variable {j : FutureForkJoin}

theorem completed_eq_false_iff : j.completed = false ↔ j.type = .INIT := by
  simp [completed]

theorem completed_iff : j.completed = true ↔ j.type = .OK ∨ j.type = .FAILED := by
  rcases j with ⟨n, c, s, type, f⟩
  cases type <;> simp [completed]

/-- An empty slot is not evaluated. -/
theorem miss_keeps (j : FutureForkJoin) (n : Nat) :
    (j.miss n).forksCopy = j.forksCopy ∧ (j.miss n).successCounter = j.successCounter ∧
      (j.miss n).nrFinishFuturesSuccess = j.nrFinishFuturesSuccess := by
  unfold miss finish
  dsimp only
  split
  · split <;> exact ⟨rfl, rfl, rfl⟩
  · exact ⟨rfl, rfl, rfl⟩

theorem miss_type (hdone : j.completed = true) (n : Nat) : (j.miss n).type = j.type := by
  unfold miss finish
  dsimp only
  split
  · rw [if_pos (by exact hdone)]
  · rfl

/-- An empty slot makes the fork join fail if it is the last one. -/
theorem miss_open (hopen : j.completed = false) (n : Nat) :
    j.miss n = { j with
      counter := j.counter + 1, type := if n ≤ j.counter + 1 then .FAILED else .INIT } := by
  rw [miss]
  have hopen' : ({ j with counter := j.counter + 1 } : FutureForkJoin).completed = false := hopen
  split
  · rw [finish, hopen']
    rfl
  · rw [← completed_eq_false_iff.mp hopen]

/-- A request that comes back is evaluated. The fork join succeeds with it, or it
    counts as one that did not bring success. -/
theorem evaluate_cases (hopen : j.completed = false) (n r : Nat) (ok : Bool) :
    (j.evaluate n r ok).forksCopy = j.forksCopy ++ [r] ∧
      (j.evaluate n r ok).successCounter = j.successCounter + ok.toNat ∧
      (j.evaluate n r ok).nrFinishFuturesSuccess = j.nrFinishFuturesSuccess ∧
      ((j.evaluate n r ok).type = .OK ∧ ok = true ∧
          j.nrFinishFuturesSuccess ≤ (j.successCounter : Int) + 1 ∨
        (j.evaluate n r ok).counter = j.counter + 1 ∧
          (ok = true → (j.successCounter : Int) + 1 < j.nrFinishFuturesSuccess) ∧
            (j.evaluate n r ok).type = if n ≤ j.counter + 1 then .FAILED else .INIT) := by
  have hinit := completed_eq_false_iff.mp hopen
  rw [evaluate, if_neg (by rw [hopen]; exact Bool.false_ne_true)]
  cases ok with
  | false =>
      simp only [Bool.false_eq_true, if_false]
      rw [miss_open (by exact hopen)]
      exact ⟨rfl, rfl, rfl, .inr ⟨rfl, nofun, rfl⟩⟩
  | true =>
      simp only [if_true]
      split
      · next henough =>
          rw [finish, if_neg (by rw [completed]; simp [hinit])]
          exact ⟨rfl, rfl, rfl, .inl ⟨rfl, trivial, by exact_mod_cast henough⟩⟩
      · next hfew =>
          rw [miss_open (by exact hopen)]
          refine ⟨rfl, rfl, rfl, .inr ⟨rfl, fun _ => ?_, rfl⟩⟩
          push_cast at hfew
          omega

end FutureForkJoin

/-! ### Slots -/

/-- A slot is not changed by what happens to the others. -/
theorem getElem?_clear {slots : List (Option Nat)} {i k r : Nat} (h : (slots.set i none)[k]? = some (some r)) :
    i ≠ k ∧ slots[k]? = some (some r) := by
  rw [getElem?_set] at h
  split at h
  · split at h <;> cases h
  · next hne => exact ⟨hne, h⟩

/-- Clearing a slot that had a request makes one more empty slot. -/
theorem count_clear {slots : List (Option Nat)} {i n r : Nat} (h : slots[i]? = some (some r)) (hi : i < n) :
    ((slots.set i none).take n).count none = (slots.take n).count none + 1 := by
  obtain ⟨hlt, hget⟩ := List.getElem?_eq_some_iff.mp h
  rw [take_set, count_set (by rw [length_take]; omega), getElem_take, hget]
  simp

theorem countP_clear {slots : List (Option Nat)} {i r : Nat} (h : slots[i]? = some (some r)) :
    (slots.set i none).countP Option.isSome + 1 = slots.countP Option.isSome := by
  obtain ⟨hlt, hget⟩ := List.getElem?_eq_some_iff.mp h
  have hpos : 0 < slots.countP Option.isSome :=
    countP_pos_iff.mpr ⟨some r, hget ▸ getElem_mem hlt, rfl⟩
  rw [countP_set hlt, hget]
  simp
  omega

/-- If the empty slots are all slots there is no request. -/
theorem no_request_of_count {slots : List (Option Nat)} (h : slots.length ≤ slots.count none) (i r : Nat) :
    slots[i]? ≠ some (some r) := by
  intro hi
  have hall := count_eq_length.mp (Nat.le_antisymm count_le_length h)
  have hmem := mem_of_getElem? hi
  cases hall _ hmem

/-! ### Where the requests are -/

section Places

variable {P A : Type} {requests requests' : List (FutureResponse P A)} {slots : List (Option Nat)}
  {evaluated : List Nat}

/-- Every request is in one place: in a slot, or among those that were evaluated,
    which have all completed. -/
structure Sound (requests : List (FutureResponse P A)) (slots : List (Option Nat)) (evaluated : List Nat) :
    Prop where
  valid : ∀ i r : Nat, slots[i]? = some (some r) → r < requests.length
  unique : ∀ i k r : Nat, slots[i]? = some (some r) → slots[k]? = some (some r) → i = k
  nodup : evaluated.Nodup
  done : ∀ r ∈ evaluated, returned requests r = true
  settled : ∀ r < requests.length, r ∈ evaluated ∨ ∃ i : Nat, slots[i]? = some (some r)
  apart : ∀ r ∈ evaluated, ∀ i : Nat, slots[i]? ≠ some (some r)

theorem Sound.later (h : Sound requests slots evaluated) (hl : Later requests requests')
    (hlen : requests'.length = requests.length) : Sound requests' slots evaluated where
  valid := fun i r hi => hlen ▸ h.valid i r hi
  unique := h.unique
  nodup := h.nodup
  done := fun r hr => hl.returned (h.done r hr)
  settled := fun r hr => h.settled r (hlen ▸ hr)
  apart := h.apart

/-- A new request in an empty slot. -/
theorem Sound.fill (h : Sound requests slots evaluated) {i : Nat} (hi : slots[i]? = some none)
    (f : FutureResponse P A) : Sound (requests ++ [f]) (slots.set i (some requests.length)) evaluated := by
  have hcases (k r : Nat) (hk : (slots.set i (some requests.length))[k]? = some (some r)) :
      k = i ∧ r = requests.length ∨ slots[k]? = some (some r) ∧ r < requests.length := by
    rw [getElem?_set] at hk
    split at hk
    · next heq =>
        split at hk
        · cases hk
          exact .inl ⟨heq.symm, rfl⟩
        · cases hk
    · exact .inr ⟨hk, h.valid k r hk⟩
  have hold (k r : Nat) (hk : slots[k]? = some (some r)) :
      (slots.set i (some requests.length))[k]? = some (some r) := by
    have hne : i ≠ k := by
      rintro rfl
      rw [hi] at hk
      cases hk
    rw [getElem?_set_ne hne]
    exact hk
  refine ⟨?_, ?_, h.nodup, fun r hr => (later_append requests f).returned (h.done r hr), ?_, ?_⟩
  · intro k r hk
    rw [length_append, length_singleton]
    rcases hcases k r hk with ⟨_, rfl⟩ | ⟨_, hr⟩ <;> omega
  · intro k l r hk hl
    rcases hcases k r hk with ⟨rfl, hr⟩ | ⟨hk, hr⟩ <;> rcases hcases l r hl with ⟨rfl, hr'⟩ | ⟨hl, hr'⟩
    · rfl
    · omega
    · omega
    · exact h.unique k l r hk hl
  · intro r hr
    rw [length_append, length_singleton] at hr
    rcases Nat.lt_or_eq_of_le (Nat.le_of_lt_succ hr) with hr | rfl
    · rcases h.settled r hr with hin | ⟨k, hk⟩
      · exact .inl hin
      · exact .inr ⟨k, hold k r hk⟩
    · refine .inr ⟨i, ?_⟩
      rw [List.getElem?_set_self (List.getElem?_eq_some_iff.mp hi).1]
  · intro r hr k hk
    rcases hcases k r hk with ⟨_, rfl⟩ | ⟨hk, _⟩
    · exact Nat.lt_irrefl _ (lt_of_returned (h.done _ hr))
    · exact h.apart r hr k hk

/-- A request leaves its slot when it is evaluated. -/
theorem Sound.evaluate (h : Sound requests slots evaluated) {i r : Nat} (hi : slots[i]? = some (some r))
    (hr : returned requests r = true) : Sound requests (slots.set i none) (evaluated ++ [r]) := by
  refine ⟨fun k q hk => h.valid k q (getElem?_clear hk).2,
    fun k l q hk hl => h.unique k l q (getElem?_clear hk).2 (getElem?_clear hl).2, ?_, ?_, ?_, ?_⟩
  · rw [nodup_append]
    refine ⟨h.nodup, nodup_singleton r, fun q hq p hp heq => ?_⟩
    rw [mem_singleton] at hp
    exact h.apart q hq i (by rw [heq, hp]; exact hi)
  · intro q hq
    rcases mem_append.mp hq with hq | hq
    · exact h.done q hq
    · rw [mem_singleton.mp hq]
      exact hr
  · intro q hq
    rcases h.settled q hq with hin | ⟨k, hk⟩
    · exact .inl (mem_append_left _ hin)
    · by_cases hne : i = k
      · subst hne
        rw [hi] at hk
        cases hk
        exact .inl (mem_append_right _ (mem_singleton_self _))
      · exact .inr ⟨k, by rw [getElem?_set_ne hne]; exact hk⟩
  · intro q hq k hk
    have hk := getElem?_clear hk
    rcases mem_append.mp hq with hq | hq
    · exact h.apart q hq k hk.2
    · rw [mem_singleton.mp hq] at hk
      exact hk.1 (h.unique i k r hi hk.2)

/-- Requests on their way are in slots of their own, so that there are no more of
    them than slots. -/
theorem Sound.outstanding_le (h : Sound requests slots evaluated) :
    ((List.range requests.length).filter fun r => !returned requests r).length ≤ slots.length := by
  have hsub : ((List.range requests.length).filter fun r => !returned requests r) ⊆ slots.filterMap id := by
    intro r hr
    rw [mem_filter, mem_range] at hr
    rcases h.settled r hr.1 with hin | ⟨i, hi⟩
    · rw [h.done r hin] at hr
      exact absurd hr.2 (by decide)
    · exact mem_filterMap.mpr ⟨some r, mem_of_getElem? hi, rfl⟩
  have hnodup := (nodup_range (n := requests.length)).filter fun r => !returned requests r
  exact Nat.le_trans (subperm_of_subset hnodup hsub).length_le (length_filterMap_le _ _)

end Places

/-! ### Fork joins -/

section Forks

variable {P A : Type} {requests requests' : List (FutureResponse P A)} {slots : List (Option Nat)}
  {join : FutureForkJoin} {listeners : List (Nat × Nat)} {active n : Nat}

/-- A fork join that has not completed and has gone past `n` slots: it has counted
    the empty ones, listens to the requests in the others, and has not had enough
    successes. -/
structure Joining (slots : List (Option Nat)) (join : FutureForkJoin) (listeners : List (Nat × Nat))
    (n : Nat) : Prop where
  fresh : join.completed = false
  counter : join.counter = (slots.take n).count none
  short : join.counter < slots.length
  listening : ∀ i r : Nat, i < n → slots[i]? = some (some r) → (r, i) ∈ listeners
  listened : ∀ i r : Nat, (r, i) ∈ listeners → i < n ∧ slots[i]? = some (some r)
  nodup : listeners.Nodup
  few : (join.successCounter : Int) < join.nrFinishFuturesSuccess

/-- The requests of a round: those that were evaluated and those that are left. -/
structure Counted (requests : List (FutureResponse P A)) (slots : List (Option Nat)) (join : FutureForkJoin)
    (active : Nat) : Prop where
  success : join.successCounter = join.forksCopy.countP (succeeded requests)
  total : join.forksCopy.length + slots.countP Option.isSome = active

/-- A fork join that has completed. -/
structure Closed (requests : List (FutureResponse P A)) (slots : List (Option Nat)) (join : FutureForkJoin) :
    Prop where
  done : join.completed = true
  failed : join.type = .FAILED → (∀ i r : Nat, slots[i]? ≠ some (some r)) ∧
    (join.successCounter : Int) < join.nrFinishFuturesSuccess
  ok : join.type = .OK → (join.successCounter : Int) = join.nrFinishFuturesSuccess ∧
    ∃ r, join.forksCopy.getLast? = some r ∧ succeeded requests r = true

/-- A fork join on its way or in the end. -/
def Forked (requests : List (FutureResponse P A)) (slots : List (Option Nat)) (join : FutureForkJoin)
    (listeners : List (Nat × Nat)) (n : Nat) : Prop :=
  Joining slots join listeners n ∨ Closed requests slots join

theorem Joining.start (hslots : slots.length ≠ 0) {enough : Int} (henough : 0 < enough) :
    Joining slots { nrFinishFuturesSuccess := enough } [] 0 where
  fresh := rfl
  counter := rfl
  short := Nat.pos_of_ne_zero hslots
  listening := fun _ _ hi => absurd hi (Nat.not_lt_zero _)
  listened := fun _ _ h => absurd h not_mem_nil
  nodup := nodup_nil
  few := henough

/-- The fork join listens to one more slot. -/
theorem Joining.attach (h : Joining slots join listeners n) {r : Nat} (hn : slots[n]? = some (some r)) :
    Joining slots join (listeners ++ [(r, n)]) (n + 1) where
  fresh := h.fresh
  counter := by
    rw [take_add_one, hn, count_append, h.counter]
    simp
  short := h.short
  listening := by
    intro i q hi hq
    rw [mem_append, mem_singleton]
    rcases Nat.lt_or_eq_of_le (Nat.le_of_lt_succ hi) with hi | rfl
    · exact .inl (h.listening i q hi hq)
    · rw [hn] at hq
      cases hq
      exact .inr rfl
  listened := by
    intro i q hq
    rw [mem_append, mem_singleton, Prod.mk.injEq] at hq
    rcases hq with hq | ⟨rfl, rfl⟩
    · exact ⟨Nat.lt_succ_of_lt (h.listened i q hq).1, (h.listened i q hq).2⟩
    · exact ⟨Nat.lt_succ_self _, hn⟩
  nodup := by
    rw [nodup_append]
    refine ⟨h.nodup, nodup_singleton _, fun a ha b hb heq => ?_⟩
    rw [mem_singleton] at hb
    rw [heq, hb] at ha
    exact Nat.lt_irrefl _ (h.listened n r ha).1
  few := h.few

/-- The fork join goes past an empty slot. -/
theorem Joining.miss (h : Joining slots join listeners n) (hn : slots[n]? = some none) :
    Forked requests slots (join.miss slots.length) listeners (n + 1) := by
  have hcount : join.counter + 1 = (slots.take (n + 1)).count none := by
    rw [take_add_one, hn, count_append, h.counter]
    rfl
  rw [FutureForkJoin.miss_open h.fresh]
  split
  · next hall =>
      refine .inr ⟨rfl, fun _ => ⟨no_request_of_count ?_, h.few⟩, nofun⟩
      rw [hcount] at hall
      exact Nat.le_trans hall ((take_sublist _ _).count_le none)
  · next hrest =>
      refine .inl ⟨rfl, hcount, Nat.lt_of_not_le hrest, ?_, ?_, h.nodup, h.few⟩
      · intro i q hi hq
        rcases Nat.lt_or_eq_of_le (Nat.le_of_lt_succ hi) with hi | rfl
        · exact h.listening i q hi hq
        · rw [hn] at hq
          cases hq
      · intro i q hq
        exact ⟨Nat.lt_succ_of_lt (h.listened i q hq).1, (h.listened i q hq).2⟩

/-- Nothing comes of going past an empty slot later. -/
theorem Closed.miss (h : Closed requests slots join) (m : Nat) : Closed requests slots (join.miss m) := by
  obtain ⟨hcopy, hsucc, henough⟩ := join.miss_keeps m
  have htype := FutureForkJoin.miss_type h.done m
  refine ⟨?_, ?_, ?_⟩
  · rw [FutureForkJoin.completed, htype]
    exact h.done
  · rw [htype, hsucc, henough]
    exact h.failed
  · rw [htype, hsucc, henough, hcopy]
    exact h.ok

/-- A listener is called. -/
theorem Joining.notify (h : Joining slots join listeners n) {i r : Nat} (hin : (r, i) ∈ listeners) :
    Forked requests (slots.set i none) (join.evaluate slots.length r (succeeded requests r))
      (listeners.erase (r, i)) n := by
  obtain ⟨hi, hslot⟩ := h.listened i r hin
  obtain ⟨hcopy, hsucc, henough, hcase⟩ :=
    FutureForkJoin.evaluate_cases h.fresh slots.length r (succeeded requests r)
  have hcount : join.counter + 1 = ((slots.set i none).take n).count none := by
    rw [count_clear hslot hi, h.counter]
  have hfew := h.few
  -- Enough have succeeded, or the slot has only been cleared.
  rcases hcase with ⟨htype, hok, hle⟩ | ⟨hcounter, hno, htype⟩
  · rw [hok] at htype hsucc hcopy henough ⊢
    refine .inr ⟨FutureForkJoin.completed_iff.mpr (.inl htype), ?_, fun _ => ⟨?_, r, ?_, hok⟩⟩
    · rw [htype]
      exact nofun
    · rw [hsucc, henough]
      push_cast [Bool.toNat_true]
      omega
    · rw [hcopy, getLast?_concat]
  · have hfew' : ((join.evaluate slots.length r (succeeded requests r)).successCounter : Int) <
        (join.evaluate slots.length r (succeeded requests r)).nrFinishFuturesSuccess := by
      rw [hsucc, henough]
      cases hr : succeeded requests r with
      | false => simpa using hfew
      | true => exact_mod_cast hno hr
    split at htype
    · -- no request is left in a slot
      next hall =>
        refine .inr ⟨FutureForkJoin.completed_iff.mpr (.inr htype), fun _ => ⟨?_, hfew'⟩, ?_⟩
        · refine no_request_of_count ?_
          rw [length_set]
          rw [hcount] at hall
          exact Nat.le_trans hall ((take_sublist _ _).count_le none)
        · rw [htype]
          exact nofun
    · -- others are still listened to
      next hrest =>
        refine .inl ⟨FutureForkJoin.completed_eq_false_iff.mpr htype, by rw [hcounter, hcount],
          by rw [hcounter, length_set]; omega, ?_, ?_, h.nodup.erase _, hfew'⟩
        · intro k q hk hq
          have hq := getElem?_clear hq
          refine (mem_erase_of_ne ?_).mpr (h.listening k q hk hq.2)
          exact fun heq => hq.1 (congrArg Prod.snd heq).symm
        · intro k q hq
          rw [h.nodup.mem_erase_iff] at hq
          have hold := h.listened k q hq.2
          refine ⟨hold.1, ?_⟩
          rw [getElem?_set_ne ?_]
          · exact hold.2
          · rintro rfl
            rw [hslot] at hold
            cases hold.2
            exact hq.1 rfl

theorem Counted.later (h : Counted requests slots join active) (hl : Later requests requests')
    (hdone : ∀ r ∈ join.forksCopy, returned requests r = true) : Counted requests' slots join active where
  success := by
    rw [h.success]
    refine countP_congr fun r hr => ?_
    rw [hl.succeeded (hdone r hr)]
  total := h.total

theorem Counted.evaluate (h : Counted requests slots join active) (hopen : join.completed = false) {i r : Nat}
    (hi : slots[i]? = some (some r)) :
    Counted requests (slots.set i none) (join.evaluate slots.length r (succeeded requests r)) active := by
  obtain ⟨hcopy, hsucc, -, -⟩ :=
    FutureForkJoin.evaluate_cases hopen slots.length r (succeeded requests r)
  have hclear := countP_clear hi
  have htotal := h.total
  constructor
  · rw [hsucc, hcopy, h.success, countP_append, countP_singleton]
    cases succeeded requests r <;> rfl
  · rw [hcopy, length_append, length_singleton]
    omega

theorem Closed.later (h : Closed requests slots join) (hl : Later requests requests')
    (hdone : ∀ r ∈ join.forksCopy, returned requests r = true) : Closed requests' slots join where
  done := h.done
  failed := h.failed
  ok := by
    intro htype
    obtain ⟨henough, r, hlast, hr⟩ := h.ok htype
    refine ⟨henough, r, hlast, ?_⟩
    rw [hl.succeeded (hdone r (mem_of_getLast? hlast))]
    exact hr

theorem Forked.later (h : Forked requests slots join listeners n) (hl : Later requests requests')
    (hdone : ∀ r ∈ join.forksCopy, returned requests r = true) : Forked requests' slots join listeners n :=
  h.imp id fun h => h.later hl hdone

theorem Forked.joining (h : Forked requests slots join listeners n) (hopen : join.completed = false) :
    Joining slots join listeners n := by
  rcases h with h | h
  · exact h
  · rw [h.done] at hopen
    cases hopen

theorem Forked.closed (h : Forked requests slots join listeners n) (hdone : join.completed = true) :
    Closed requests slots join := by
  rcases h with h | h
  · rw [h.fresh] at hdone
    cases hdone
  · exact h

end Forks

end TomP2P
