import TomP2P.Theory.Progress
import TomP2P.Theory.Routing

/-!
# When a Search Stops after Enough Answers

A search that has had enough answers waits for the requests that are on their way and
makes no others. It remembers so in a flag, which every round sets anew: an answer
looks at the number of answers, but a round without an answer looks at the number of
such rounds only. If these are not too many it takes the flag back, and since the
round has used up all requests, the next one asks as many peers as there are slots.

A search ends in any case: it asks every peer once.

## Main definitions

* `DistributedRouting.OnlyWaits`: A search that asks nobody any more, and ends.
* `DistributedRouting.WaitsOn`: A round that does not take the flag back.

## Theorems

* `DistributedRouting.Goes.finite`: There is no search without end.
* `DistributedRouting.waits_after_successes`: A search stops after enough answers if no
  round takes the flag back.
-/

namespace TomP2P

open FutureResponse Rounds

namespace DistributedRouting

open RoutingMechanism

variable {location : Number160} {c : RoutingConfiguration} {me : PeerAddress}
  {s s' : Rounds (RoutingMechanism location) PeerAddress NeighborResponse}

/-- No request is made any more, and the search ends. -/
structure OnlyWaits (c : RoutingConfiguration)
    (s : Rounds (RoutingMechanism location) PeerAddress NeighborResponse) : Prop where
  quiet : ∀ e t, s.step (routingRec c) e = some t → t.requests.length = s.requests.length
  /-- There is no run without end. -/
  finite : ¬ ∃ run : Nat → Rounds (RoutingMechanism location) PeerAddress NeighborResponse, run 0 = s ∧
    ∀ n, ∃ e, (run n).step (routingRec c) e = some (run (n + 1))
  /-- A search in which nothing can happen any more has ended. -/
  ended : (∀ r < s.requests.length, returned s.requests r = true) →
    (∀ e : Event NeighborResponse, s.step (routingRec c) e = none) → s.control = .ended

/-- A search with enough answers only waits. -/
def StopsAfterSuccesses (c : RoutingConfiguration)
    (s : Rounds (RoutingMechanism location) PeerAddress NeighborResponse) : Prop :=
  c.maxSuccess < s.client.responses.length → OnlyWaits c s

/-- A round with an answer counts it with the 32 bits there are for it. A round without
    one, after enough answers, is one failure too many, or there is nobody else to
    ask. -/
def WaitsOn (c : RoutingConfiguration) (s : Rounds (RoutingMechanism location) PeerAddress NeighborResponse) :
    Event NeighborResponse → Prop
  | .go _ _ => s.control = .react →
      if s.join.isSuccess then
        c.maxSuccess < s.client.responses.length + 1 → c.maxSuccess < int (s.client.responses.length + 1)
      else
        c.maxSuccess < s.client.responses.length →
          c.maxFailures < int (s.client.nrFailures + 1) ∨ s.client.queueToAsk.toList = []
  | .complete _ _ => True
  | .notify _ _ => True

instance (s : Rounds (RoutingMechanism location) PeerAddress NeighborResponse) (e : Event NeighborResponse) :
    Decidable (WaitsOn c s e) :=
  match e with
  | .go _ _ => inferInstanceAs (Decidable (_ → ite _ _ _))
  | .complete _ _ => isTrue trivial
  | .notify _ _ => isTrue trivial

/-! ### Ends -/

-- There are so many ids.
theorem length_ids_le (ids : List Number160) (h : ids.Nodup) : ids.length ≤ 2 ^ 160 := by
  have hlt (bound : Nat) (hb : ∀ id ∈ ids, id.toNat < bound) : ids.length ≤ bound := by
    have hnodup : (ids.map Number160.toNat).Nodup := h.map Number160.toNat_injective
    have hsub : ids.map Number160.toNat ⊆ List.range bound := by
      intro n hn
      rcases List.mem_map.mp hn with ⟨id, hid, rfl⟩
      exact List.mem_range.mpr (hb id hid)
    simpa using (List.subperm_of_subset hnodup hsub).length_le
  exact hlt _ fun id _ => id.toNat_lt

theorem Keeps.asked_le (h : Keeps c me s) : s.asked.length ≤ 2 ^ 160 := by
  have hle := length_ids_le _ h.asks.once
  rwa [List.length_map] at hle

/-- What every event keeps, and that a fork join has requests. -/
structure Goes (c : RoutingConfiguration) (me : PeerAddress)
    (s : Rounds (RoutingMechanism location) PeerAddress NeighborResponse) : Prop where
  keeps : Keeps c me s
  active : s.position ≠ none → s.active ≠ 0 ∧ s.active ≤ s.slots.length

theorem Goes.step (h : Goes c me s) {e : Event NeighborResponse} (hstep : s.step (routingRec c) e = some s') :
    Goes c me s' :=
  ⟨h.keeps.step hstep, (h.keeps.round.moves h.keeps.fits hstep).active h.keeps.round h.active⟩

/-- There is no search without end. -/
theorem Goes.finite (h : Goes c me s) :
    ¬ ∃ run : Nat → Rounds (RoutingMechanism location) PeerAddress NeighborResponse, run 0 = s ∧
      ∀ n, ∃ e, (run n).step (routingRec c) e = some (run (n + 1)) :=
  Rounds.finite (fun _ _ _ ht hstep => ht.step hstep) (fun _ ht => ⟨ht.keeps.round, ht.keeps.fits, ht.active⟩)
    (fun _ ht => ht.keeps.asked_le) h

theorem goes_routing (c : RoutingConfiguration) (me : PeerAddress) (locationKey : Option Number160)
    (own : Option GlobalDigest) (peerAddresses : List PeerAddress) :
    Goes c me (routing c me locationKey own peerAddresses) := by
  refine ⟨keeps_routing c me locationKey own peerAddresses, ?_⟩
  unfold routing
  dsimp only
  split
  · exact fun hno => absurd rfl hno
  · split <;> exact fun hno => absurd rfl hno

/-! ### What an answer counts -/

/-- An answer that does not end the search is counted, and sets the flag if there are
    enough. -/
theorem evaluateSuccess_counts {m : RoutingMechanism location} {p : PeerAddress} {d : GlobalDigest}
    {neighbors : List PeerAddress} {last : Bool} (h : (m.evaluateSuccess c p d neighbors last).1 = false) :
    (m.evaluateSuccess c p d neighbors last).2.nrSuccess = int (m.nrSuccess + 1) ∧
      (c.maxSuccess < int (m.nrSuccess + 1) →
        (m.evaluateSuccess c p d neighbors last).2.stopCreatingNewFutures = true) := by
  have hinformation (m : RoutingMechanism location) :
      (m.evaluateInformation neighbors c.maxNoNewInfo).2.nrSuccess = m.nrSuccess := by
    unfold evaluateInformation
    dsimp only
    split <;> rfl
  unfold evaluateSuccess at h ⊢
  dsimp only at h ⊢
  split at h
  · cases h
  · next hhits =>
      rw [if_neg hhits]
      split
      · exact ⟨rfl, fun _ => rfl⟩
      · next hfew =>
          split
          · exact ⟨hinformation _, fun hmany => absurd hmany hfew⟩
          · exact ⟨hinformation _, fun hmany => absurd hmany hfew⟩

/-- A search counts its answers, and where it fills slots after enough of them it makes
    no request. -/
structure Counts (c : RoutingConfiguration) (s : Rounds (RoutingMechanism location) PeerAddress NeighborResponse) :
    Prop where
  tally : s.control ≠ .ended → s.client.nrSuccess = int s.client.responses.length
  stops : ∀ i active, s.control = .fill i active → c.maxSuccess < s.client.responses.length →
    s.client.stopCreatingNewFutures = true ∨ s.client.queueToAsk.toList = [] ∨ c.parallel = 0

theorem pollNext_counts {m m' : RoutingMechanism location} {pick : Nat} {p : PeerAddress}
    (h : pollNext m pick = some (p, m')) :
    m'.nrSuccess = m.nrSuccess ∧ m'.responses = m.responses ∧ m.stopCreatingNewFutures = false ∧
      m.queueToAsk.toList ≠ [] := by
  have hin := (pollNext_spec h).1
  unfold pollNext at h
  split at h
  · cases h
  · next hgoes =>
      split at h
      · cases h
      · cases h
        refine ⟨rfl, rfl, Bool.not_eq_true _ ▸ hgoes, ?_⟩
        rintro hnone
        rw [PeerSet.ids, hnone] at hin
        cases hin

-- Nothing that is counted changes while requests complete.
theorem Counts.same (h : Counts c s) (hclient : s'.client = s.client) (hended : s'.control ≠ .ended → s.control ≠ .ended)
    (hfill : ∀ i active, s'.control = .fill i active → ∃ j m, s.control = .fill j m) : Counts c s' where
  tally := by
    intro hno
    rw [hclient]
    exact h.tally (hended hno)
  stops := by
    intro i active hcontrol
    rcases hfill i active hcontrol with ⟨j, m, hcontrol⟩
    rw [hclient]
    exact h.stops j m hcontrol

theorem Counts.ended (hended : s'.control = .ended) : Counts c s' where
  tally := fun hno => absurd hended hno
  stops := fun i active hcontrol => by
    rw [hended] at hcontrol
    cases hcontrol

/-- What a round that is not the last one counts. -/
theorem Counts.round (h : Counts c s) (hkeeps : Keeps c me s) (hcontrol : s.control = .react)
    (hno : (evaluateRound c s.client s.active s.join s.completed).1 = false) {pick : Nat}
    {outcome : Option (Option NeighborResponse)} (hcond : WaitsOn c s (.go pick outcome))
    {m : RoutingMechanism location} (hm : m = (evaluateRound c s.client s.active s.join s.completed).2) :
    m.nrSuccess = int m.responses.length ∧
      (c.maxSuccess < m.responses.length → m.stopCreatingNewFutures = true ∨ m.queueToAsk.toList = []) := by
  have htally := h.tally (by rw [hcontrol]; exact nofun)
  have hcond := hcond hcontrol
  rcases FutureForkJoin.completed_iff.mp (hkeeps.round.reacting hcontrol) with hok | hfailed
  · rcases hkeeps.evaluateRound_ok hcontrol hok with ⟨r, f, a, -, -, -, heq⟩
    have hsuccess : s.join.isSuccess = true := decide_eq_true hok
    rw [if_pos hsuccess] at hcond
    rw [heq] at hm hno
    have hcounts := evaluateSuccess_counts hno
    have hspec := evaluateSuccess_spec c
      { s.client with
        potentialHits := s.client.potentialHits.add a.sender
        responses := s.client.responses ++ [r] }
      a.sender { keyDigest := a.keyDigest, contentDigest := a.contentDigest, size := a.resultSize.getD 0 }
      a.neighbors (decide (s.active = 1))
    have hresponses : m.responses = s.client.responses ++ [r] := by
      rw [hm]
      exact hspec.responses
    have hlength : (m.responses.length : Int) = s.client.responses.length + 1 := by
      rw [hresponses]
      simp
    have hint : int (s.client.nrSuccess + 1) = int (s.client.responses.length + 1) := by
      rw [htally, int_int_add]
    rw [hlength, hm]
    dsimp only at hcounts
    rw [hint] at hcounts
    exact ⟨hcounts.1, fun hmany => .inl (hcounts.2 (hcond hmany))⟩
  · rw [if_neg (by rw [FutureForkJoin.isSuccess, hfailed]; decide)] at hcond
    rw [evaluateRound_failed hfailed] at hm hno
    subst hm
    refine ⟨htally, fun hmany => ?_⟩
    rcases hcond hmany with hlast | hnobody
    · exact absurd hlast (of_decide_eq_false hno)
    · exact .inr hnobody

/-- Every event that does not take the flag back keeps it. -/
theorem Counts.step (h : Counts c s) (hkeeps : Keeps c me s) {e : Event NeighborResponse} (hcond : WaitsOn c s e)
    (hstep : s.step (routingRec c) e = some s') : Counts c s' := by
  cases hkeeps.round.moves hkeeps.fits hstep with
  | keep hquiet hcontrol _ _ =>
      exact h.same hquiet.client (by rw [hcontrol]; exact id) fun i active hfill => ⟨i, active, hcontrol ▸ hfill⟩
  | inner hquiet hpos hpos' _ =>
      refine h.same hquiet.client (fun _ hended => hpos (by rw [position, hended])) fun i active hfill => ?_
      rw [position, hfill] at hpos'
      exact absurd rfl hpos'
  | busy i active r hcontrol _ _ heq =>
      subst heq
      exact h.same rfl (fun _ => by rw [hcontrol]; simp) fun _ _ _ => ⟨i, active, hcontrol⟩
  | nobody i active pick hcontrol _ _ _ heq =>
      subst heq
      exact h.same rfl (fun _ => by rw [hcontrol]; simp) fun _ _ _ => ⟨i, active, hcontrol⟩
  | ask i active pick peer client outcome hcontrol hi _ hnext heq =>
      subst heq
      rcases pollNext_counts hnext with ⟨hsuccess, hresponses, hgoes, hsome⟩
      refine ⟨fun _ => ?_, fun _ _ _ hmany => ?_⟩
      · dsimp only
        rw [hsuccess, hresponses]
        exact h.tally (by rw [hcontrol]; simp)
      · dsimp only at hmany
        rw [hresponses] at hmany
        have hi : i < c.parallel := hi
        -- Enough successes: a further request needs a slot that is in use.
        rcases h.stops i active hcontrol hmany with hstops | hnone | hzero
        · rw [hgoes] at hstops
          cases hstops
        · exact absurd hnone hsome
        · omega
  | idle _ _ _ heq => exact Counts.ended (by rw [heq, (quiet_finish _ _).2.1])
  | fork i active hcontrol _ _ heq =>
      subst heq
      exact h.same rfl (fun _ => by rw [hcontrol]; simp) (by intros; contradiction)
  | last _ _ heq => exact Counts.ended (by rw [heq, (quiet_finish _ _).2.1])
  | again hcontrol hlast heq =>
      -- The next round starts with what the answers of this one have left.
      subst heq
      rcases operationComplete_again hlast with ⟨hno, hsame⟩
      rcases go_of_fill (by rw [hcontrol]; simp) hstep rfl with ⟨pick, outcome, rfl⟩
      have hround := h.round hkeeps hcontrol hno hcond rfl
      have hclient : ((routingRec c).react s.client s.active s.join s.completed).2 =
          { (evaluateRound c s.client s.active s.join s.completed).2 with
            randomSearch := (evaluateRound c s.client s.active s.join s.completed).2.locationKey.isNone } := hsame
      refine ⟨fun _ => ?_, fun _ _ _ hmany => ?_⟩
      · dsimp only
        rw [hclient]
        exact hround.1
      · dsimp only at hmany ⊢
        rw [hclient] at hmany ⊢
        exact (hround.2 hmany).imp_right .inl

/-- Where enough answers were counted nobody is asked. -/
theorem Counts.waits (h : Counts c s) (hgoes : Goes c me s) : StopsAfterSuccesses c s := by
  intro hmany
  refine ⟨fun e t hstep => ?_, hgoes.finite, fun hall hstuck => hgoes.keeps.round.stuck hall hstuck⟩
  cases hgoes.keeps.round.moves hgoes.keeps.fits hstep with
  | keep hquiet _ _ _ => exact length_requests hquiet.asked
  | inner hquiet _ _ _ => exact length_requests hquiet.asked
  | busy _ _ _ _ _ _ heq => rw [heq]
  | nobody _ _ _ _ _ _ _ heq => rw [heq]
  | ask i active _ _ _ _ hcontrol hi _ hnext _ =>
      rcases pollNext_counts hnext with ⟨-, -, hgoes, hsome⟩
      have hi : i < c.parallel := hi
      rcases h.stops i active hcontrol hmany with hstops | hnone | hzero
      · rw [hgoes] at hstops
        cases hstops
      · exact absurd hnone hsome
      · omega
  | idle _ _ _ heq =>
      rw [heq]
      exact length_requests (quiet_finish _ _).1.asked
  | fork _ _ _ _ _ heq =>
      rw [heq]
      rfl
  | last _ _ heq =>
      rw [heq]
      exact length_requests (quiet_finish _ _).1.asked
  | again _ _ heq => rw [heq]

/-- A failure that is not one too many takes the flag back. -/
theorem operationComplete_failed {m : RoutingMechanism location} {active : Nat} {join : FutureForkJoin}
    {completed : List (FutureResponse PeerAddress NeighborResponse)} (hfailed : join.type = .FAILED)
    (hfew : ¬ c.maxFailures < int (m.nrFailures + 1)) :
    operationComplete c m active join completed =
      (false, { m with
        nrFailures := int (m.nrFailures + 1)
        stopCreatingNewFutures := false
        randomSearch := m.locationKey.isNone }) := by
  unfold operationComplete
  rw [evaluateRound_failed hfailed]
  simp [evaluateFailed, hfew]

-- Whether it is the first peer of the queue or one at random.
theorem pollNext_isSome {m : RoutingMechanism location} (hgoes : m.stopCreatingNewFutures = false)
    (hsome : m.queueToAsk.toList ≠ []) (pick : Nat) : ∃ p m', pollNext m pick = some (p, m') := by
  have hlength : 0 < m.queueToAsk.toList.length := List.length_pos_iff.mpr hsome
  have hsize : m.queueToAsk.size = m.queueToAsk.toList.length := by
    simp [PeerSet.size, PeerSet.toList, NavMap.size, NavMap.values]
  unfold pollNext
  rw [if_neg (by rw [hgoes]; exact Bool.false_ne_true)]
  by_cases hrandom : m.randomSearch = true
  · have hlt : pick % m.queueToAsk.size < m.queueToAsk.toList.length := by
      rw [hsize]
      exact Nat.mod_lt _ hlength
    have hpoll : m.queueToAsk.pollAt pick = some (m.queueToAsk.toList.get ⟨_, hlt⟩,
        m.queueToAsk.remove (m.queueToAsk.toList.get ⟨_, hlt⟩)) := by
      rw [PeerSet.pollAt, List.getElem?_eq_getElem hlt]
      rfl
    rw [if_pos hrandom, hpoll]
    exact ⟨_, _, rfl⟩
  · rw [if_neg hrandom, PeerSet.pollFirst]
    rcases hlist : m.queueToAsk.toList with _ | ⟨p, rest⟩
    · exact absurd hlist hsome
    · exact ⟨_, _, rfl⟩

/-- A round that takes the flag back is followed by one that asks somebody. -/
theorem Goes.asks (h : Goes c me s) {e : Event NeighborResponse} (hstep : s.step (routingRec c) e = some s')
    (hfailed : s.join.isSuccess = false) (hcond : ¬ WaitsOn c s e) :
    c.maxSuccess < s'.client.responses.length ∧
      ∃ t, s'.step (routingRec c) (.go 0 none) = some t ∧ t.requests.length = s'.requests.length + 1 := by
  cases e with
  | complete r answer | notify r slot => exact absurd trivial hcond
  | go pick outcome =>
      simp only [WaitsOn, hfailed, Bool.false_eq_true, if_false, Classical.not_imp, not_or] at hcond
      rcases hcond with ⟨hcontrol, hmany, hfew, hsome⟩
      have hpos : s.position = some s.slots.length := by rw [position, hcontrol]
      have hactive := h.active (by rw [hpos]; simp)
      have hclosed := (h.keeps.round.forked _ hpos).closed (h.keeps.round.reacting hcontrol)
      have htype : s.join.type = .FAILED := by
        rcases FutureForkJoin.completed_iff.mp hclosed.done with hok | htype
        · exact absurd (decide_eq_true hok) (by rw [← FutureForkJoin.isSuccess, hfailed]; decide)
        · exact htype
      have hreact : (routingRec c).react s.client s.active s.join s.completed = _ :=
        operationComplete_failed  htype hfew
      simp only [Rounds.step, Rounds.go, hcontrol, hreact, Bool.false_eq_true, if_false] at hstep
      cases hstep
      refine ⟨hmany, ?_⟩
      -- all slots are empty after a round that has failed
      have hslot : s.slots[0]? = some none := by
        rcases hget : s.slots[0]? with _ | _ | r
        · rw [List.getElem?_eq_none_iff] at hget
          omega
        · rfl
        · exact absurd hget ((hclosed.failed htype).1 0 r)
      have hwidth := h.keeps.width
      have hparallel : 0 < c.parallel := by omega
      rcases pollNext_isSome (m := { s.client with
        nrFailures := int (s.client.nrFailures + 1)
        stopCreatingNewFutures := false
        randomSearch := s.client.locationKey.isNone }) rfl hsome 0 with ⟨p, m, hnext⟩
      refine asks_first ?_ ?_ ?_ hnext none
      · rfl
      · exact hparallel
      · exact hslot

/-- A search begins, and no answer is permitted or there is nobody to ask. -/
def Starts (c : RoutingConfiguration) (me : PeerAddress) (locationKey : Option Number160) (own : Option GlobalDigest)
    (peerAddresses : List PeerAddress)
    (s : Rounds (RoutingMechanism (searchLocation me locationKey)) PeerAddress NeighborResponse) : Prop :=
  s = routing c me locationKey own peerAddresses ∧ (0 ≤ c.maxSuccess ∨ c.parallel = 0 ∨ s.control = .ended)

theorem counts_start {locationKey : Option Number160} {own : Option GlobalDigest} {peerAddresses : List PeerAddress}
    {s : Rounds (RoutingMechanism (searchLocation me locationKey)) PeerAddress NeighborResponse}
    (h : Starts c me locationKey own peerAddresses s) : Counts c s := by
  rcases h with ⟨rfl, hfirst⟩
  have hfresh : (routing c me locationKey own peerAddresses).control = .ended ∨
      (routing c me locationKey own peerAddresses).client.nrSuccess = 0 ∧
        (routing c me locationKey own peerAddresses).client.responses = [] := by
    unfold routing
    dsimp only
    split
    · exact .inl rfl
    · split
      · exact .inl rfl
      · exact .inr ⟨rfl, rfl⟩
      · exact .inr ⟨rfl, rfl⟩
  rcases hfresh with hended | ⟨hsuccess, hresponses⟩
  · exact Counts.ended hended
  · refine ⟨fun _ => by rw [hsuccess, hresponses]; rfl, fun i active hcontrol hmany => ?_⟩
    rw [hresponses] at hmany
    rcases hfirst with hsome | hzero | hended
    · exact absurd hmany (not_lt_of_ge hsome)
    · exact .inr (.inr hzero)
    · rw [hended] at hcontrol
      cases hcontrol

/-- A search only waits after enough answers in every run in which no round takes the
    flag back. Where a round without an answer does, another request can be made at
    once. -/
theorem waits_after_successes (c : RoutingConfiguration) (me : PeerAddress) (locationKey : Option Number160)
    (own : Option GlobalDigest) (peerAddresses : List PeerAddress)
    (s : Rounds (RoutingMechanism (searchLocation me locationKey)) PeerAddress NeighborResponse)
    (hs : Reached (fun s e => s.step (routingRec c) e) (WaitsOn c) (Starts c me locationKey own peerAddresses) s) :
    StopsAfterSuccesses c s ∧
      ∀ e t, s.step (routingRec c) e = some t → s.join.isSuccess = false → ¬ WaitsOn c s e →
        ¬ StopsAfterSuccesses c t := by
  rcases hs.invariant (P := fun s => Goes c me s ∧ Counts c s)
    (fun t ht => ⟨ht.1 ▸ goes_routing c me locationKey own peerAddresses, counts_start ht⟩)
    (fun t e t' ht hcond hstep => ⟨ht.1.step hstep, ht.2.step ht.1.keeps hcond hstep⟩) with ⟨hgoes, hcounts⟩
  refine ⟨hcounts.waits hgoes, fun e t hstep hfailed hcond hstops => ?_⟩
  rcases hgoes.asks hstep hfailed hcond with ⟨hmany, u, hu, hlong⟩
  have hsame := (hstops hmany).quiet _ u hu
  omega

/-- One answer is enough. -/
def oneAnswer : RoutingConfiguration where
  maxDirectHits := 1
  maxNoNewInfo := 5
  maxFailures := 5
  maxSuccess := 0
  parallel := 2

/-- The search for the location 8 from a peer with id 1 that knows three others. -/
def searchFromThree :
    Rounds (RoutingMechanism (searchLocation { peerId := 1 } (some 8))) PeerAddress NeighborResponse :=
  routing oneAnswer { peerId := 1 } (some 8) none [{ peerId := 9 }, { peerId := 10 }, { peerId := 11 }]

/-- The first peer that is asked has answered at once, and the second one has failed,
    or is still being asked. -/
def oneResponse (second : Option (Option NeighborResponse)) (steps : Nat) : List (Event NeighborResponse) :=
  [.go 0 (some (some { sender := { peerId := 9 }, neighbors := [] })), .go 0 second] ++
    List.replicate steps (.go 0 none)

theorem not_stopsAfterSuccesses_searchFromThree :
    ¬ ∀ s : Rounds (RoutingMechanism (searchLocation { peerId := 1 } (some 8))) PeerAddress NeighborResponse,
      Reach (routingRec oneAnswer) searchFromThree s → StopsAfterSuccesses oneAnswer s := by
  intro hall
  have hrun : (play (routingRec oneAnswer) searchFromThree (oneResponse (some none) 16)).any
      (fun s => decide (oneAnswer.maxSuccess < s.client.responses.length) &&
        (s.step (routingRec oneAnswer) (.go 0 none)).any fun t =>
          decide (t.requests.length ≠ s.requests.length)) = true := by
    decide
  rw [Option.any_eq_true] at hrun
  rcases hrun with ⟨s, hs, hbad⟩
  rw [Bool.and_eq_true, Option.any_eq_true] at hbad
  rcases hbad with ⟨hmany, t, ht, hlong⟩
  exact of_decide_eq_true hlong ((hall s (reach_of_play .start hs) (of_decide_eq_true hmany)).quiet _ t ht)

theorem onlyWaits_searchFromThree :
    ∃ s : Rounds (RoutingMechanism (searchLocation { peerId := 1 } (some 8))) PeerAddress NeighborResponse,
      s.client.responses = [0] ∧ s.requests.length = 2 ∧ s.slots = [none, some 1] ∧ OnlyWaits oneAnswer s := by
  have hrun : (replay (fun s e => s.step (routingRec oneAnswer) e) (WaitsOn oneAnswer) (oneResponse none 6)
      searchFromThree).any (fun s =>
        decide (s.client.responses = [0] ∧ s.requests.length = 2 ∧ s.slots = [none, some 1])) = true := by
    decide
  rw [Option.any_eq_true] at hrun
  rcases hrun with ⟨s, hs, hstate⟩
  rcases of_decide_eq_true hstate with ⟨hresponses, hlength, hslots⟩
  have hstart : Starts oneAnswer { peerId := 1 } (some 8) none
      [{ peerId := 9 }, { peerId := 10 }, { peerId := 11 }] searchFromThree := ⟨rfl, .inl (by decide)⟩
  have hmany : oneAnswer.maxSuccess < s.client.responses.length := by
    rw [hresponses]
    decide
  exact ⟨s, hresponses, hlength, hslots, (waits_after_successes oneAnswer { peerId := 1 } (some 8) none
    [{ peerId := 9 }, { peerId := 10 }, { peerId := 11 }] s (Reached.replay _ (.start hstart) hs)).1 hmany⟩

end DistributedRouting

end TomP2P
