import TomP2P.Theory.ParallelRequests
import TomP2P.Theory.Progress

/-!
# When the Requests to a Location Give Up

A configuration says that the requests stop if so many peers have failed. What is
counted are rounds that have failed, and the number is looked at after such a round
only, when it has to be exceeded. A round asks several peers, so that more of them may
have failed than there are failed rounds.

Between two rounds nothing is evaluated. The peers that have failed when a round is
over are therefore all there are while the slots of the next one are filled
(`failedPeers_later`). If there are too many of them and the next round takes place
nonetheless, it asks another peer at once (`Keeps.asks`), unless there is none.

## Main definitions

* `DistributedHashTable.failedPeers`: The peers that have failed.
* `DistributedHashTable.StopsAfterFailures`: No request is made once too many have.
* `DistributedHashTable.GivesUp`: No round follows on too many failures.

## Theorems

* `DistributedHashTable.stops_after_failures`: The requests stop in every run whose
  rounds are not followed by another one if too many peers have failed.
-/

namespace TomP2P

open FutureResponse Rounds

namespace DistributedHashTable

variable {location : Number160} {A : Type} {c : RequestP2PConfiguration} {cancelOnFinish : Bool}
  {direct potential : List PeerAddress} {s s' : Rounds (ParallelRequests location A) PeerAddress A}

/-- The peers whose requests were evaluated and were not a success, each of them
    once. -/
def failedPeers (s : Rounds (ParallelRequests location A) PeerAddress A) : List Number160 :=
  ((s.evaluated.filter fun r => !succeeded s.requests r).filterMap fun r =>
    s.asked[r]?.map (·.peerId)).dedup

/-- If too many peers have failed, no event makes a request. -/
def StopsAfterFailures (c : RequestP2PConfiguration) (cancelOnFinish : Bool)
    (s : Rounds (ParallelRequests location A) PeerAddress A) : Prop :=
  c.maxFailure ≤ (failedPeers s).length → ∀ e t, s.step (loopRec c cancelOnFinish) e = some t →
    t.requests.length = s.requests.length

instance (l : ParallelRequests location A) : Decidable (Spent l) :=
  inferInstanceAs (Decidable (_ ∧ _))

/-- A round that has failed and is not one too many yet is followed by another one only
    if fewer peers than that have failed, or if nobody is left. -/
def GivesUp (c : RequestP2PConfiguration) (s : Rounds (ParallelRequests location A) PeerAddress A) :
    Event A → Prop
  | .go _ _ => s.control = .react → s.join.isSuccess = false → int (s.client.nrFailure + 1) ≤ c.maxFailure →
      (failedPeers s).length < c.maxFailure ∨ Spent s.client
  | .complete _ _ => True
  | .notify _ _ => True

instance (s : Rounds (ParallelRequests location A) PeerAddress A) (e : Event A) : Decidable (GivesUp c s e) :=
  match e with
  | .go _ _ => inferInstanceAs (Decidable (_ → _ → _ → _))
  | .complete _ _ => isTrue trivial
  | .notify _ _ => isTrue trivial

/-- The requests start, and a failure is permitted or there is nobody to ask. -/
def Begins (c : RequestP2PConfiguration) (directHit potentialHit : PeerSet location)
    (s : Rounds (ParallelRequests location A) PeerAddress A) : Prop :=
  parallelRequests c directHit potentialHit = .ok s ∧ (0 < c.maxFailure ∨ Spent s.client ∨ s.control = .ended)

/-! ### What has been evaluated -/

/-- What is evaluated fails or succeeds for good. -/
theorem failedPeers_later {t : Rounds (ParallelRequests location A) PeerAddress A} (h : Round s)
    (hlater : Later s.requests t.requests) (hasked : s.asked <+: t.asked) (hpast : t.past = s.past)
    (hjoin : t.join = s.join) : failedPeers t = failedPeers s := by
  have hevaluated : t.evaluated = s.evaluated := by rw [evaluated, evaluated, hpast, hjoin]
  have hfailed : (s.evaluated.filter fun r => !succeeded t.requests r) =
      s.evaluated.filter fun r => !succeeded s.requests r :=
    List.filter_congr fun r hr => by rw [hlater.succeeded (h.sound.done r hr)]
  unfold failedPeers
  rw [hevaluated, hfailed]
  refine congrArg List.dedup (List.filterMap_congr fun r hr => ?_)
  -- a request that was evaluated is one of the old ones
  obtain ⟨f, hf, -⟩ := returned_iff.mp (h.sound.done r (List.mem_of_mem_filter hr))
  have hlt : r < s.asked.length := by
    unfold asked
    rw [List.length_map]
    exact (List.getElem?_eq_some_iff.mp hf).1
  rcases hasked with ⟨rest, hrest⟩
  rw [← hrest, List.getElem?_append_left hlt]

theorem failedPeers_ask (h : Round s) {client : ParallelRequests location A}
    {f : FutureResponse PeerAddress A} {slots : List (Option Nat)} {control : Control} :
    failedPeers { s with
      client := client, requests := s.requests ++ [f], slots := slots, control := control } =
        failedPeers s := by
  have hasked : s.asked <+: (s.requests ++ [f]).map (·.peer) := by
    rw [List.map_append]
    exact List.prefix_append _ _
  exact failedPeers_later h (later_append s.requests f) hasked rfl rfl

/-- While the slots of a round are filled too few peers have failed, or nobody is
    left. -/
def Bounded (c : RequestP2PConfiguration) (s : Rounds (ParallelRequests location A) PeerAddress A) : Prop :=
  ∀ i active, s.control = .fill i active → (failedPeers s).length < c.maxFailure ∨ Spent s.client

/-- A round that is followed by another one was looked at. -/
theorem again_of_go {join : FutureForkJoin} {l : ParallelRequests location A}
    {completed : List (FutureResponse PeerAddress A)}
    (h : (operationComplete c.maxFailure l join completed).1 = false) :
    join.isSuccess = false ∧ int (l.nrFailure + 1) ≤ c.maxFailure ∧
      (operationComplete c.maxFailure l join completed).2.directHit = l.directHit ∧
      (operationComplete c.maxFailure l join completed).2.potentialHit = l.potentialHit := by
  unfold operationComplete at h ⊢
  dsimp only at h ⊢
  cases hok : join.isSuccess
  · simp only [hok, Bool.false_eq_true, if_false] at h ⊢
    split at h
    · cases h
    · next hfew =>
        rw [if_neg hfew]
        exact ⟨trivial, by omega, rfl, rfl⟩
  · simp only [hok, if_true] at h
    cases h

/-- What the thread does next is one of the kinds of events, so that between two rounds
    the peers that have failed stay the same. -/
theorem Keeps.bounded (h : Keeps c direct potential s) (hlt : c.minimumResults + c.parallelDiff < 2 ^ 31)
    (hbounded : Bounded c s) {e : Event A} (hcond : GivesUp c s e)
    (hstep : s.step (loopRec c cancelOnFinish) e = some s') : Bounded c s' := by
  intro j m hfill
  have hsame {t : Rounds (ParallelRequests location A) PeerAddress A} (hquiet : Quiet s t)
      (hjoin : t.join = s.join) : failedPeers t = failedPeers s :=
    failedPeers_later h.round hquiet.later (by rw [hquiet.asked]) hquiet.past hjoin
  cases h.round.moves (h.fits hlt) hstep with
  | keep hquiet hcontrol _ hjoin =>
      rw [hsame hquiet hjoin, hquiet.client]
      exact hbounded j m (hcontrol ▸ hfill)
  | inner _ _ hpos' _ =>
      rw [position, hfill] at hpos'
      exact absurd rfl hpos'
  | busy i active r hcontrol _ _ heq =>
      subst heq
      exact hbounded i active hcontrol
  | nobody i active pick hcontrol _ _ _ heq =>
      subst heq
      exact hbounded i active hcontrol
  | ask i active pick peer client outcome hcontrol _ _ hnext heq =>
      subst heq
      rw [failedPeers_ask h.round]
      exact .inl ((hbounded i active hcontrol).resolve_right (not_spent_of_pollNext hnext))
  | idle i _ _ heq =>
      rw [heq, (quiet_finish _ _).2.1] at hfill
      cases hfill
  | fork i active _ _ _ heq =>
      subst heq
      cases hfill
  | last _ _ heq =>
      rw [heq, (quiet_finish _ _).2.1] at hfill
      cases hfill
  | again hcontrol hlast heq =>
      subst heq
      rcases again_of_go hlast with ⟨hok, hfew, hdirect, hpotential⟩
      rcases go_of_fill (by rw [hcontrol]; simp) hstep hfill with ⟨pick, outcome, rfl⟩
      rcases hcond hcontrol hok hfew with hless | ⟨hd, hp⟩
      · exact .inl hless
      · exact .inr ⟨hdirect ▸ hd, hpotential ▸ hp⟩

/-- A request is made while slots are filled, of somebody who is left. -/
theorem Keeps.stops (h : Keeps c direct potential s) (hlt : c.minimumResults + c.parallelDiff < 2 ^ 31)
    (hbounded : Bounded c s) : StopsAfterFailures c cancelOnFinish s := by
  intro hfailed e t hstep
  have hsame {u t : Rounds (ParallelRequests location A) PeerAddress A} (hquiet : Quiet u t) :
      t.requests.length = u.requests.length := length_requests hquiet.asked
  cases h.round.moves (h.fits hlt) hstep with
  | keep hquiet _ _ _ => exact hsame hquiet
  | inner hquiet _ _ _ => exact hsame hquiet
  | busy _ _ _ _ _ _ heq => rw [heq]
  | nobody _ _ _ _ _ _ _ heq => rw [heq]
  | ask i active _ _ _ _ hcontrol _ _ hnext _ =>
      rcases hbounded i active hcontrol with hless | hspent
      · omega
      · exact absurd hspent (not_spent_of_pollNext hnext)
  | idle _ _ _ heq => rw [heq, hsame (quiet_finish _ _).1]
  | fork _ _ _ _ _ heq =>
      rw [heq]
      rfl
  | last _ _ heq => rw [heq, hsame (quiet_finish _ _).1]
  | again _ _ heq => rw [heq]

/-- A round that begins asks somebody at once, if there is anybody. -/
theorem Keeps.asks (h : Keeps c direct potential s) (hlt : c.minimumResults + c.parallelDiff < 2 ^ 31)
    (cancelOnFinish : Bool) (hcontrol : s.control = .fill 0 0) (hleft : ¬ Spent s.client) (pick : Nat)
    (outcome : Option (Option A)) :
    ∃ t, s.step (loopRec c cancelOnFinish) (.go pick outcome) = some t ∧
      t.requests.length = s.requests.length + 1 := by
  have hslots := h.slots hlt cancelOnFinish
  have hpos := h.min_pos
  have hmin := h.min_le
  have hwidth := h.width
  have hslot : s.slots[0]? = some none := by
    rcases hget : s.slots[0]? with _ | _ | r
    · rw [List.getElem?_eq_none_iff] at hget
      omega
    · rfl
    · exact absurd hget (h.empty 0 0 hcontrol 0 r (Nat.le_refl 0))
  rcases hnext : pollNext s.client with _ | ⟨peer, client⟩
  · exact absurd (spent_of_pollNext hnext) hleft
  · exact asks_first hcontrol (by omega) hslot hnext outcome

/-- A round that is not given up begins although too many peers have failed. -/
theorem begins_of_not_givesUp {e : Event A} (hstep : s.step (loopRec c cancelOnFinish) e = some s')
    (hcond : ¬ GivesUp c s e) :
    c.maxFailure ≤ (failedPeers s').length ∧ s'.control = .fill 0 0 ∧ ¬ Spent s'.client := by
  cases e with
  | complete r answer | notify r slot => exact absurd trivial hcond
  | go pick outcome =>
      simp only [GivesUp, Classical.not_imp, not_or, Nat.not_lt] at hcond
      rcases hcond with ⟨hcontrol, hok, hfew, hmany, hleft⟩
      have hlast : (operationComplete c.maxFailure s.client s.join s.completed).1 = false := by
        unfold operationComplete
        simp [hok, Int.not_lt.mpr hfew]
      rcases again_of_go hlast with ⟨-, -, hdirect, hpotential⟩
      simp only [Rounds.step, Rounds.go, hcontrol, loopRec, hlast] at hstep
      cases hstep
      refine ⟨hmany, rfl, ?_⟩
      rintro ⟨hd, hp⟩
      exact hleft ⟨hdirect ▸ hd, hpotential ▸ hp⟩

/-! ### Runs -/

/-- The requests start, or they do not take place. -/
theorem begins_cases {directHit potentialHit : PeerSet location} (h : Begins c directHit potentialHit s) :
    (∀ e : Event A, s.step (loopRec c cancelOnFinish) e = none) ∨
      (c.minimumResults + c.parallelDiff < 2 ^ 31 ∧
        Keeps c directHit.toList (directHit.toList.foldl PeerSet.remove potentialHit).toList s ∧
          Bounded c s) := by
  rcases h with ⟨hstart, hfirst⟩
  have hmin := c.minimumResults_lt
  have hdiff := c.parallelDiff_lt
  unfold parallelRequests at hstart
  dsimp only at hstart
  split at hstart
  · cases hstart
    exact .inl (step_ended _)
  · next hzero =>
      split at hstart
      · cases hstart
      · next hpositive =>
          have hlt : c.minimumResults + c.parallelDiff < 2 ^ 31 := by
            by_contra hno
            unfold RequestP2PConfiguration.parallel int at hpositive
            rw [Int.bmod_def] at hpositive
            omega
          cases hstart
          refine .inr ⟨hlt, keeps_start directHit potentialHit hzero hlt, ?_⟩
          rintro i active -
          rcases hfirst with hfirst | hspent | hended
          · exact .inl hfirst
          · exact .inr hspent
          · cases hended

/-- The requests stop after enough failures in every run in which no round follows on
    too many of them. Where a round does, another request can be made at once. -/
theorem stops_after_failures (A : Type) (c : RequestP2PConfiguration) (cancelOnFinish : Bool)
    (directHit potentialHit : PeerSet location) (s : Rounds (ParallelRequests location A) PeerAddress A)
    (hs : Reached (fun s e => s.step (loopRec c cancelOnFinish) e) (GivesUp c) (Begins c directHit potentialHit) s) :
    StopsAfterFailures c cancelOnFinish s ∧
      ∀ e t, s.step (loopRec c cancelOnFinish) e = some t → ¬ GivesUp c s e →
        ¬ StopsAfterFailures c cancelOnFinish t := by
  have hinvariant := hs.invariant
    (P := fun s => (∀ e : Event A, s.step (loopRec c cancelOnFinish) e = none) ∨
      (c.minimumResults + c.parallelDiff < 2 ^ 31 ∧
        Keeps c directHit.toList (directHit.toList.foldl PeerSet.remove potentialHit).toList s ∧ Bounded c s))
    (fun s h => begins_cases h)
    (fun s e s' h hcond hstep => by
      rcases h with hstuck | ⟨hlt, hkeeps, hbounded⟩
      · rw [hstuck e] at hstep
        cases hstep
      · exact .inr ⟨hlt, hkeeps.step hlt hstep, hkeeps.bounded hlt hbounded hcond hstep⟩)
  rcases hinvariant with hstuck | ⟨hlt, hkeeps, hbounded⟩
  · refine ⟨fun _ e t hstep => ?_, fun e t hstep => ?_⟩
    · rw [hstuck e] at hstep
      cases hstep
    · rw [hstuck e] at hstep
      cases hstep
  · refine ⟨hkeeps.stops hlt hbounded, fun e t hstep hcond hstops => ?_⟩
    rcases begins_of_not_givesUp hstep hcond with ⟨hmany, hfill, hleft⟩
    rcases (hkeeps.step hlt hstep).asks hlt cancelOnFinish hfill hleft 0 none with ⟨u, hu, hlong⟩
    have hsame := hstops hmany _ u hu
    omega

/-- What an operation is given if it asks for nothing else. -/
def standard : RequestP2PConfiguration where
  minimumResults := 3
  maxFailure := 5
  parallelDiff := 3
  minimumResults_lt := by decide
  maxFailure_lt := allResults.maxFailure_lt
  parallelDiff_lt := by decide

/-- Seven peers have the data. -/
def sevenPeers : PeerSet (1 : Number160) :=
  [2, 3, 4, 5, 6, 7, 8].foldl (fun s id => s.update { peerId := id }) PeerSet.empty

/-- The requests to them. -/
def asking (c : RequestP2PConfiguration) : Rounds (ParallelRequests 1 Unit) PeerAddress Unit where
  client :=
    { directHit := sevenPeers
      potentialHit := sevenPeers.toList.foldl PeerSet.remove .empty
      min := c.minimumResults }
  slots := List.replicate c.parallel.toNat none

/-- Every request fails at once, while the thread goes on. -/
def failing (steps : Nat) : List (Event Unit) := List.replicate steps (.go 0 (some none))

set_option maxRecDepth 4000 in
/-- The first six fail in the two rounds that are permitted, and the seventh is asked. -/
theorem not_stopsAfterFailures_standard :
    ¬ ∀ s : Rounds (ParallelRequests 1 Unit) PeerAddress Unit,
      (∃ t, parallelRequests standard sevenPeers .empty = .ok t ∧ Rounds.Reach (loopRec standard false) t s) →
        StopsAfterFailures standard false s := by
  intro hall
  have hstart : parallelRequests standard sevenPeers .empty = .ok (asking standard) := by
    rw [parallelRequests, if_neg (by decide), if_neg (by decide)]
    rfl
  have hrun : (play (loopRec standard false) (asking standard) (failing 22)).any
      (fun s => decide (5 ≤ (failedPeers s).length) &&
        (s.step (loopRec standard false) (.go 0 none)).any fun t =>
          decide (t.requests.length ≠ s.requests.length)) = true := by
    decide
  obtain ⟨s, hs, hbad⟩ := (Option.any_eq_true _ _).mp hrun
  rw [Bool.and_eq_true] at hbad
  obtain ⟨t, ht, hlong⟩ := (Option.any_eq_true _ _).mp hbad.2
  exact of_decide_eq_true hlong
    (hall s ⟨_, hstart, reach_of_play .start hs⟩ (of_decide_eq_true hbad.1) _ t ht)

/-- Three failures are permitted, and there are four requests in parallel at most. -/
def strict : RequestP2PConfiguration := { standard with
  maxFailure := 3
  maxFailure_lt := by decide
  parallelDiff := 1
  parallelDiff_lt := allResults.parallelDiff_lt }

/-- Two of the first four peers fail, and one of the two that are asked then. -/
def halfFailing : List (Event Unit) :=
  [some (), none, some (), none].map (fun answer => .go 0 (some answer)) ++ List.replicate 12 (.go 0 none) ++
    [none, some ()].map (fun answer => .go 0 (some answer)) ++ List.replicate 7 (.go 0 none)

set_option maxRecDepth 4000 in
/-- The second round is a success. The three that failed are as many as are permitted, and the
    seventh peer is not asked. -/
theorem stopsAfterFailures_strict : ∃ s : Rounds (ParallelRequests 1 Unit) PeerAddress Unit,
    s.control = .react ∧ s.requests.length = 6 ∧ strict.maxFailure ≤ (failedPeers s).length ∧
      StopsAfterFailures strict false s := by
  have hrun : (replay (fun s e => s.step (loopRec strict false) e) (GivesUp strict) halfFailing
      (asking strict)).any (fun s => decide (s.control = .react ∧ s.requests.length = 6 ∧
        strict.maxFailure ≤ (failedPeers s).length)) = true := by
    decide
  obtain ⟨s, hs, hview⟩ := (Option.any_eq_true _ _).mp hrun
  obtain ⟨hcontrol, hsix, hthree⟩ := of_decide_eq_true hview
  have hstart : Begins strict sevenPeers .empty (asking strict) := by
    refine ⟨?_, .inl (by decide)⟩
    rw [parallelRequests, if_neg (by decide), if_neg (by decide)]
    rfl
  exact ⟨s, hcontrol, hsix, hthree, (stops_after_failures Unit strict false sevenPeers .empty s
    (Reached.replay _ (.start hstart) hs)).1⟩

end DistributedHashTable

end TomP2P
