import TomP2P.Core.DistributedRouting
import TomP2P.Theory.PeerSet
import TomP2P.Theory.Rounds

/-!
# Routing Asks Every Peer Once

A search asks no peer twice, loses no answer and evaluates none twice.

Candidates move between the queue, the peers that were asked and the answers of others.
A peer leaves the queue when it is asked, and what others report gets into the queue
only if it was not asked, so the peers that were asked are never in the queue
(`Keeps.fresh`).

A round waits for one success. When it has it the other requests stay in their slots,
and the next round takes them over, those that have completed meanwhile included. So
the only success of a round is the answer that is evaluated, and a round that fails had
none. The search ends when a round has no requests, when all requests of a round have
failed, or with an answer to the only request of a round: in each case no request is
left. The exception are enough hits, which end the search at once.

## Main definitions

* `DistributedRouting.Sent`: A peer has sent the answer to a request.
* `DistributedRouting.Routed`: What a search may be relied on for in every state.

## Theorems

* `RoutingMechanism.evaluateSuccess_spec`: What an answer changes.
* `DistributedRouting.Keeps.step`: What every event keeps.
* `DistributedRouting.routed_of_reach`: Every state of a search can be relied on.
-/

namespace TomP2P

open FutureResponse Rounds

/-! ### What an answer changes -/

namespace RoutingMechanism

variable {location : Number160} {c : RoutingConfiguration} {m : RoutingMechanism location}

theorem mem_ids_updateAll (ps : List PeerAddress) (s : PeerSet location) {id : Number160} :
    id ∈ (ps.foldl PeerSet.update s).ids ↔ id ∈ ps.map (·.peerId) ∨ id ∈ s.ids := by
  induction ps generalizing s with
  | nil => simp
  | cons p ps ih =>
      rw [List.foldl_cons, ih, PeerSet.mem_ids_update, List.map_cons, List.mem_cons]
      tauto

/-- What gets into the queue was not asked. -/
theorem mem_ids_merge {queue asked : PeerSet location} {newPeers : List PeerAddress} {id : Number160}
    (h : id ∈ (merge queue newPeers asked).2.ids) : id ∈ queue.ids ∨ id ∉ asked.ids := by
  unfold merge at h
  dsimp only at h
  split at h
  · exact .inl h
  · next first rest hresult =>
      rw [mem_ids_updateAll] at h
      rcases h with h | h
      · have hin : id ∈ ((newPeers.filter fun newPeer => !asked.contains newPeer).foldl PeerSet.update
            (.empty : PeerSet location)).ids := h
        rw [mem_ids_updateAll] at hin
        rcases hin with hin | hin
        · obtain ⟨p, hp, rfl⟩ := List.mem_map.mp hin
          rw [List.mem_filter, Bool.not_eq_true'] at hp
          refine .inr fun hasked => ?_
          rw [PeerSet.contains_iff.mpr hasked] at hp
          cases hp.2
        · cases hin
      · exact .inl h

/-- Too few hits are too few if there are not enough after an answer. -/
theorem evaluateDirectHits_lt {p : PeerAddress} {hits : DirectHits} {d : GlobalDigest} {maxDirectHits : Int}
    (hfew : (hits.size : Int) < maxDirectHits)
    (hno : (evaluateDirectHits location p hits d maxDirectHits).1 = false) :
    ((evaluateDirectHits location p hits d maxDirectHits).2.size : Int) < maxDirectHits := by
  unfold evaluateDirectHits at hno ⊢
  split
  · next hsize =>
      rw [if_pos hsize] at hno
      exact lt_of_not_ge (of_decide_eq_false hno)
  · exact hfew

theorem evaluateDirectHits_ge {p : PeerAddress} {hits : DirectHits} {d : GlobalDigest} {maxDirectHits : Int}
    (hyes : (evaluateDirectHits location p hits d maxDirectHits).1 = true) :
    maxDirectHits ≤ (evaluateDirectHits location p hits d maxDirectHits).2.size := by
  unfold evaluateDirectHits at hyes ⊢
  split
  · next hsize =>
      rw [if_pos hsize] at hyes
      exact of_decide_eq_true hyes
  · next hsize =>
      rw [if_neg hsize] at hyes
      cases hyes

/-- An answer changes the queue, the hits and the counters. -/
structure Evaluated (c : RoutingConfiguration) (m m' : RoutingMechanism location) (finished last : Bool) :
    Prop where
  potentialHits : m'.potentialHits = m.potentialHits
  responses : m'.responses = m.responses
  alreadyAsked : m'.alreadyAsked = m.alreadyAsked
  futureRouting : m'.futureRouting = m.futureRouting
  queue : ∀ id ∈ m'.queueToAsk.ids, id ∈ m.queueToAsk.ids ∨ id ∉ m.alreadyAsked.ids
  stops : finished = true → c.maxDirectHits ≤ m'.directHits.size ∨ last = true
  goes : finished = false → (m.directHits.size : Int) < c.maxDirectHits →
    (m'.directHits.size : Int) < c.maxDirectHits

theorem evaluateSuccess_spec (c : RoutingConfiguration) (m : RoutingMechanism location) (p : PeerAddress)
    (d : GlobalDigest) (neighbors : List PeerAddress) (last : Bool) :
    Evaluated c m (m.evaluateSuccess c p d neighbors last).2 (m.evaluateSuccess c p d neighbors last).1 last := by
  unfold evaluateSuccess
  dsimp only
  by_cases hhits : (evaluateDirectHits location p m.directHits d c.maxDirectHits).1 = true
  · rw [if_pos hhits]
    exact ⟨rfl, rfl, rfl, rfl, fun _ h => .inl h, fun _ => .inl (evaluateDirectHits_ge hhits), nofun⟩
  · rw [if_neg hhits]
    rw [Bool.not_eq_true] at hhits
    split
    · exact ⟨rfl, rfl, rfl, rfl, fun _ h => .inl h, .inr, fun _ hfew => evaluateDirectHits_lt hfew hhits⟩
    · have hinformation (m : RoutingMechanism location) :
          Evaluated c m (m.evaluateInformation neighbors c.maxNoNewInfo).2 false last := by
        unfold evaluateInformation
        dsimp only
        split <;> exact ⟨rfl, rfl, rfl, rfl, fun _ h => mem_ids_merge h, nofun, fun _ h => h⟩
      generalize hm : ({ m with
        directHits := (evaluateDirectHits location p m.directHits d c.maxDirectHits).2
        nrSuccess := int (m.nrSuccess + 1) } : RoutingMechanism location) = m1
      have hspec := hinformation m1
      subst hm
      have hfew (h : (m.directHits.size : Int) < c.maxDirectHits) := hspec.goes rfl (evaluateDirectHits_lt h hhits)
      split
      · exact ⟨hspec.potentialHits, hspec.responses, hspec.alreadyAsked, hspec.futureRouting, hspec.queue, .inr,
          fun _ h => hfew h⟩
      · exact ⟨hspec.potentialHits, hspec.responses, hspec.alreadyAsked, hspec.futureRouting, hspec.queue, nofun,
          fun _ h => hfew h⟩

end RoutingMechanism

namespace DistributedRouting

open RoutingMechanism

variable {location : Number160} {c : RoutingConfiguration} {me : PeerAddress}
  {s s' : Rounds (RoutingMechanism location) PeerAddress NeighborResponse}

/-- The peer with this id has sent the answer to a request. -/
def Sent (requests : List (FutureResponse PeerAddress NeighborResponse)) (r : Nat) (id : Number160) : Prop :=
  ∃ f a, requests[r]? = some f ∧ f.answer = some a ∧ a.sender.peerId = id

/-- The peers that were asked: each of them once, and none of them is in the queue. -/
structure Asked (asked : List PeerAddress) (m : RoutingMechanism location) : Prop where
  once : (asked.map (·.peerId)).Nodup
  known : ∀ p ∈ asked, p.peerId ∈ m.alreadyAsked.ids
  fresh : ∀ p ∈ asked, p.peerId ∉ m.queueToAsk.ids

/-- The answers that were evaluated: each of them once, and who sent them. -/
structure Heard (me : PeerAddress) (requests : List (FutureResponse PeerAddress NeighborResponse))
    (m : RoutingMechanism location) : Prop where
  once : m.responses.Nodup
  success : ∀ r ∈ m.responses, succeeded requests r = true
  hits : ∀ id, id ∈ m.potentialHits.ids ↔ id = me.peerId ∨ ∃ r ∈ m.responses, Sent requests r id

/-- All requests have completed, and their answers were evaluated. -/
def AllHeard (requests : List (FutureResponse PeerAddress NeighborResponse)) (m : RoutingMechanism location) :
    Prop :=
  ∀ r < requests.length, returned requests r = true ∧ (succeeded requests r = true → r ∈ m.responses)

/-- What every event keeps. -/
structure Keeps (c : RoutingConfiguration) (me : PeerAddress)
    (s : Rounds (RoutingMechanism location) PeerAddress NeighborResponse) : Prop where
  round : Round s
  width : s.slots.length = c.parallel
  asks : Asked s.asked s.client
  hears : Heard me s.requests s.client
  /-- The answers of earlier rounds were evaluated, but not those of the round. -/
  earlier : s.position ≠ none → ∀ r, r ∈ s.client.responses ↔ r ∈ s.past ∧ succeeded s.requests r = true
  settled : s.position = none → ∀ r, r ∈ s.client.responses ↔ r ∈ s.evaluated ∧ succeeded s.requests r = true
  single : s.position ≠ none → s.join.nrFinishFuturesSuccess = 1
  few : s.control ≠ .ended → (s.client.directHits.size : Int) < c.maxDirectHits
  running : s.control ≠ .ended → s.client.futureRouting = none
  ended : s.control = .ended →
    (∃ f, s.client.futureRouting = some f ∧ f.potentialHits = s.client.potentialHits) ∧
      (c.maxDirectHits ≤ s.client.directHits.size ∨ AllHeard s.requests s.client)

/-! ### One event -/

theorem Keeps.fits (h : Keeps c me s) : Fits (routingRec c) s := by
  refine ⟨fun _ _ _ => le_of_eq h.width.symm, ?_, fun _ _ _ _ => Int.one_pos⟩
  intro i active _ hi j r hj hslot
  have hlt := (List.getElem?_eq_some_iff.mp hslot).1
  have hwidth := h.width
  have hi : c.parallel ≤ i := hi
  omega

theorem sent_later {requests requests' : List (FutureResponse PeerAddress NeighborResponse)} {r : Nat}
    {id : Number160} (hlater : Later requests requests') (hr : returned requests r = true) :
    Sent requests' r id ↔ Sent requests r id := by
  obtain ⟨f, hf, hdone⟩ := returned_iff.mp hr
  obtain ⟨f', hf', heq⟩ := hlater r f hf
  have hget : requests'[r]? = requests[r]? := by rw [hf, hf', heq hdone]
  rw [Sent, Sent, hget]

theorem returned_of_succeeded {requests : List (FutureResponse PeerAddress NeighborResponse)} {r : Nat}
    (h : succeeded requests r = true) : returned requests r = true := by
  rw [succeeded, Option.any_eq_true] at h
  obtain ⟨f, hf, hok⟩ := h
  refine returned_iff.mpr ⟨f, hf, ?_⟩
  unfold isSuccess answer at hok
  unfold isCompleted
  cases hout : f.outcome with
  | none =>
      rw [hout] at hok
      cases hok
  | some a => rfl

theorem Heard.later {requests requests' : List (FutureResponse PeerAddress NeighborResponse)}
    {m : RoutingMechanism location} (h : Heard me requests m) (hlater : Later requests requests') :
    Heard me requests' m where
  once := h.once
  success := by
    intro r hr
    rw [hlater.succeeded (returned_of_succeeded (h.success r hr))]
    exact h.success r hr
  hits := by
    intro id
    rw [h.hits id]
    refine or_congr_right (exists_congr fun r => and_congr_right fun hr => ?_)
    exact (sent_later hlater (returned_of_succeeded (h.success r hr))).symm

theorem AllHeard.later {requests requests' : List (FutureResponse PeerAddress NeighborResponse)}
    {m : RoutingMechanism location} (h : AllHeard requests m) (hlater : Later requests requests')
    (hlen : requests'.length = requests.length) : AllHeard requests' m := by
  intro r hr
  obtain ⟨hdone, hheard⟩ := h r (hlen ▸ hr)
  refine ⟨hlater.returned hdone, fun hok => hheard ?_⟩
  rw [← hlater.succeeded hdone]
  exact hok

/-- What is known of answers does not change when other requests complete. -/
theorem mem_responses_later {requests requests' : List (FutureResponse PeerAddress NeighborResponse)}
    {responses l : List Nat} (hl : ∀ r ∈ l, returned requests r = true) (hlater : Later requests requests')
    (h : ∀ r, r ∈ responses ↔ r ∈ l ∧ succeeded requests r = true) :
    ∀ r, r ∈ responses ↔ r ∈ l ∧ succeeded requests' r = true := by
  intro r
  rw [h r]
  refine and_congr_right fun hr => ?_
  rw [hlater.succeeded (hl r hr)]

/-- Nothing that matters to the search happens while requests complete. -/
theorem Keeps.quiet (h : Keeps c me s) (hround : Round s') (hquiet : Quiet s s')
    (hposition : s'.position = none ↔ s.position = none)
    (hjoin : s.position = none → s'.join = s.join)
    (henough : s'.join.nrFinishFuturesSuccess = s.join.nrFinishFuturesSuccess)
    (hended : s'.control = .ended ↔ s.control = .ended) : Keeps c me s' where
  round := hround
  width := hquiet.width.trans h.width
  asks := by
    rw [hquiet.asked, hquiet.client]
    exact h.asks
  hears := by
    rw [hquiet.client]
    exact h.hears.later hquiet.later
  earlier := by
    intro hpos
    rw [hquiet.client, hquiet.past]
    exact mem_responses_later (fun r hr => h.round.sound.done r (List.mem_append_left _ hr)) hquiet.later
      (h.earlier fun hnone => hpos (hposition.mpr hnone))
  settled := by
    intro hnone
    have hnone := hposition.mp hnone
    rw [hquiet.client, evaluated, hquiet.past, hjoin hnone]
    exact mem_responses_later h.round.sound.done hquiet.later (h.settled hnone)
  single := by
    intro hpos
    rw [henough]
    exact h.single fun hnone => hpos (hposition.mpr hnone)
  few := by
    intro hcontrol
    rw [hquiet.client]
    exact h.few fun hno => hcontrol (hended.mpr hno)
  running := by
    intro hcontrol
    rw [hquiet.client]
    exact h.running fun hno => hcontrol (hended.mpr hno)
  ended := by
    intro hcontrol
    obtain ⟨hreport, hdone⟩ := h.ended (hended.mp hcontrol)
    rw [hquiet.client]
    refine ⟨hreport, hdone.imp_right fun hall => hall.later hquiet.later ?_⟩
    have hlength := congrArg List.length hquiet.asked
    unfold asked at hlength
    rw [List.length_map, List.length_map] at hlength
    exact hlength

/-- If no slot is in use all requests have completed. -/
theorem allHeard_of_empty (h : Round s) (hnone : ∀ i r : Nat, s.slots[i]? ≠ some (some r))
    {m : RoutingMechanism location}
    (hm : ∀ r, r ∈ m.responses ↔ r ∈ s.evaluated ∧ succeeded s.requests r = true) :
    AllHeard s.requests m := by
  intro r hr
  rcases h.sound.settled r hr with hin | ⟨i, hi⟩
  · exact ⟨h.sound.done r hin, fun hok => (hm r).mpr ⟨hin, hok⟩⟩
  · exact absurd hi (hnone i r)

/-- The only success of a list is the one that is known. -/
theorem eq_of_countP_one {p : Nat → Bool} {l : List Nat} (h : l.countP p = 1) {a b : Nat} (ha : a ∈ l)
    (hb : b ∈ l) (hpa : p a = true) (hpb : p b = true) : a = b := by
  rw [List.countP_eq_length_filter] at h
  obtain ⟨x, hx⟩ := List.length_eq_one_iff.mp h
  have hmem (y : Nat) (hy : y ∈ l) (hpy : p y = true) : y = x := by
    have hin : y ∈ l.filter p := List.mem_filter.mpr ⟨hy, hpy⟩
    rw [hx] at hin
    exact List.mem_singleton.mp hin
  rw [hmem a ha hpa, hmem b hb hpb]

/-- What a search is after a round was evaluated. -/
structure RoundOver (c : RoutingConfiguration) (me : PeerAddress)
    (s : Rounds (RoutingMechanism location) PeerAddress NeighborResponse) (finished : Bool)
    (m : RoutingMechanism location) : Prop where
  asks : Asked s.asked m
  hears : Heard me s.requests m
  settled : ∀ r, r ∈ m.responses ↔ r ∈ s.evaluated ∧ succeeded s.requests r = true
  unset : m.futureRouting = none
  stops : finished = true → c.maxDirectHits ≤ m.directHits.size ∨ ∀ i r : Nat, s.slots[i]? ≠ some (some r)
  goes : finished = false → (m.directHits.size : Int) < c.maxDirectHits

/-- The answer of a successful round. -/
theorem Keeps.answer (h : Keeps c me s) (hcontrol : s.control = .react) (hok : s.join.type = .OK) :
    ∃ r f a, s.join.forksCopy.getLast? = some r ∧ s.requests[r]? = some f ∧ f.answer = some a ∧
      s.completed.getLast? = some f := by
  have hpos : s.position = some s.slots.length := by rw [position, hcontrol]
  have hclosed := (h.round.forked _ hpos).closed (h.round.reacting hcontrol)
  obtain ⟨-, r, hlast, hr⟩ := hclosed.ok hok
  rw [succeeded, Option.any_eq_true] at hr
  obtain ⟨f, hf, hsuccess⟩ := hr
  obtain ⟨a, ha⟩ := Option.isSome_iff_exists.mp hsuccess
  refine ⟨r, f, a, hlast, hf, ha, ?_⟩
  obtain ⟨init, hinit⟩ := List.getLast?_eq_some_iff.mp hlast
  have hsingle : [r].filterMap (fun request => s.requests[request]?) = [f] := by
    rw [List.filterMap_cons, hf]
    rfl
  rw [completed, hinit, List.filterMap_append, hsingle, List.getLast?_concat]

/-- A successful round evaluates the answer to its last request. -/
theorem Keeps.evaluateRound_ok (h : Keeps c me s) (hcontrol : s.control = .react) (hok : s.join.type = .OK) :
    ∃ r f a, s.join.forksCopy.getLast? = some r ∧ s.requests[r]? = some f ∧ f.answer = some a ∧
      evaluateRound c s.client s.active s.join s.completed = evaluateResponse c s.client s.active r a := by
  obtain ⟨r, f, a, hlast, hf, ha, hcompleted⟩ := h.answer hcontrol hok
  refine ⟨r, f, a, hlast, hf, ha, ?_⟩
  rw [evaluateRound, FutureForkJoin.isSuccess, hok, hlast, hcompleted, Option.bind_some, ha]
  rfl

theorem evaluateRound_failed {m : RoutingMechanism location} {active : Nat} {join : FutureForkJoin}
    {completed : List (FutureResponse PeerAddress NeighborResponse)} (hfailed : join.type = .FAILED) :
    evaluateRound c m active join completed =
      ((m.evaluateFailed c).1,
        { (m.evaluateFailed c).2 with stopCreatingNewFutures := (m.evaluateFailed c).1 }) := by
  rw [evaluateRound, FutureForkJoin.isSuccess, hfailed]
  rfl

/-- The answer of a round is evaluated. -/
theorem Keeps.evaluateResponse (h : Keeps c me s) (hcontrol : s.control = .react) (hok : s.join.type = .OK)
    {r : Nat} {f : FutureResponse PeerAddress NeighborResponse} {a : NeighborResponse}
    (hlast : s.join.forksCopy.getLast? = some r) (hf : s.requests[r]? = some f) (ha : f.answer = some a) :
    RoundOver c me s (DistributedRouting.evaluateResponse c s.client s.active r a).1
      (DistributedRouting.evaluateResponse c s.client s.active r a).2 := by
  have hpos : s.position = some s.slots.length := by rw [position, hcontrol]
  have hne : s.position ≠ none := by
    rw [hpos]
    simp
  have hnotended : s.control ≠ .ended := by
    rw [hcontrol]
    simp
  have hclosed := (h.round.forked _ hpos).closed (h.round.reacting hcontrol)
  have hcounted := h.round.counted _ hpos
  have hmem : r ∈ s.join.forksCopy := List.mem_of_getLast? hlast
  have hsuccess : succeeded s.requests r = true := by
    rw [succeeded, hf]
    exact Option.isSome_iff_exists.mpr ⟨a, ha⟩
  have hone : s.join.forksCopy.countP (succeeded s.requests) = 1 := by
    have hsingle := (hclosed.ok hok).1
    rw [h.single hne] at hsingle
    rw [← hcounted.success]
    exact_mod_cast hsingle
  have hnodup := h.round.sound.nodup
  rw [evaluated, List.nodup_append] at hnodup
  have hnew : r ∉ s.client.responses := by
    intro hin
    exact hnodup.2.2 r ((h.earlier hne r).mp hin).1 r hmem rfl
  have hspec := evaluateSuccess_spec c
    { s.client with
      potentialHits := s.client.potentialHits.add a.sender
      responses := s.client.responses ++ [r] }
    a.sender { keyDigest := a.keyDigest, contentDigest := a.contentDigest, size := a.resultSize.getD 0 }
    a.neighbors (decide (s.active = 1))
  unfold DistributedRouting.evaluateResponse
  dsimp only
  refine ⟨⟨h.asks.once, ?_, ?_⟩, ⟨?_, ?_, ?_⟩, ?_, ?_, ?_, ?_⟩
  · rw [hspec.alreadyAsked]
    exact h.asks.known
  · intro p hp hin
    rcases hspec.queue p.peerId hin with hin | hnot
    · exact h.asks.fresh p hp hin
    · exact hnot (h.asks.known p hp)
  · rw [hspec.responses, List.nodup_append]
    refine ⟨h.hears.once, List.nodup_singleton r, fun x hx y hy heq => hnew ?_⟩
    rw [List.mem_singleton] at hy
    rw [← hy, ← heq]
    exact hx
  · intro x hx
    rw [hspec.responses, List.mem_append, List.mem_singleton] at hx
    rcases hx with hx | rfl
    · exact h.hears.success x hx
    · exact hsuccess
  · intro id
    rw [hspec.potentialHits, hspec.responses, PeerSet.mem_ids_add, h.hears.hits id]
    constructor
    · rintro (rfl | hid | ⟨x, hx, hsent⟩)
      · exact .inr ⟨r, List.mem_append_right _ (List.mem_singleton_self _), f, a, hf, ha, rfl⟩
      · exact .inl hid
      · exact .inr ⟨x, List.mem_append_left _ hx, hsent⟩
    · rintro (hid | ⟨x, hx, hsent⟩)
      · exact .inr (.inl hid)
      · rcases List.mem_append.mp hx with hx | hx
        · exact .inr (.inr ⟨x, hx, hsent⟩)
        · rw [List.mem_singleton] at hx
          subst hx
          obtain ⟨f', a', hf', ha', hid⟩ := hsent
          rw [hf] at hf'
          cases hf'
          rw [ha] at ha'
          cases ha'
          exact .inl hid.symm
  · intro x
    rw [hspec.responses, List.mem_append, List.mem_singleton, h.earlier hne x, evaluated, List.mem_append]
    constructor
    · rintro (⟨hx, hxok⟩ | rfl)
      · exact ⟨.inl hx, hxok⟩
      · exact ⟨.inr hmem, hsuccess⟩
    · rintro ⟨hx | hx, hxok⟩
      · exact .inl ⟨hx, hxok⟩
      · exact .inr (eq_of_countP_one hone hx hmem hxok hsuccess)
  · rw [hspec.futureRouting]
    exact h.running hnotended
  · intro hstop
    refine (hspec.stops hstop).imp_right fun hlast => ?_
    -- the request that was evaluated was the only one
    have htotal := hcounted.total
    rw [of_decide_eq_true hlast] at htotal
    have hlength : 0 < s.join.forksCopy.length := List.length_pos_of_mem hmem
    have hzero : s.slots.countP Option.isSome = 0 := by omega
    intro i x hi
    exact absurd rfl (List.countP_eq_zero.mp hzero (some x) (List.mem_of_getElem? hi))
  · intro hgo
    exact hspec.goes hgo (h.few hnotended)

/-- A round is evaluated. -/
theorem Keeps.evaluateRound (h : Keeps c me s) (hcontrol : s.control = .react) :
    RoundOver c me s (DistributedRouting.evaluateRound c s.client s.active s.join s.completed).1
      (DistributedRouting.evaluateRound c s.client s.active s.join s.completed).2 := by
  have hpos : s.position = some s.slots.length := by rw [position, hcontrol]
  have hne : s.position ≠ none := by
    rw [hpos]
    simp
  have hnotended : s.control ≠ .ended := by
    rw [hcontrol]
    simp
  have hclosed := (h.round.forked _ hpos).closed (h.round.reacting hcontrol)
  rcases FutureForkJoin.completed_iff.mp hclosed.done with hok | hfailed
  · obtain ⟨r, f, a, hlast, hf, ha, heq⟩ := h.evaluateRound_ok hcontrol hok
    rw [heq]
    exact h.evaluateResponse hcontrol hok hlast hf ha
  · obtain ⟨hnone, hless⟩ := hclosed.failed hfailed
    rw [h.single hne] at hless
    have hzero : s.join.forksCopy.countP (succeeded s.requests) = 0 := by
      rw [← (h.round.counted _ hpos).success]
      omega
    rw [evaluateRound_failed hfailed]
    refine ⟨⟨h.asks.once, h.asks.known, h.asks.fresh⟩, ⟨h.hears.once, h.hears.success, h.hears.hits⟩, ?_,
      h.running hnotended, fun _ => .inr hnone, fun _ => h.few hnotended⟩
    intro r
    have hearlier := h.earlier hne r
    refine hearlier.trans ?_
    rw [evaluated, List.mem_append]
    constructor
    · exact fun hr => ⟨.inl hr.1, hr.2⟩
    · rintro ⟨hr | hr, hok⟩
      · exact ⟨hr, hok⟩
      · exact absurd hok (List.countP_eq_zero.mp hzero r hr)

/-- A round that is followed by another one did not end the search. -/
theorem operationComplete_again {m : RoutingMechanism location} {active : Nat} {join : FutureForkJoin}
    {completed : List (FutureResponse PeerAddress NeighborResponse)}
    (h : (operationComplete c m active join completed).1 = false) :
    (evaluateRound c m active join completed).1 = false ∧
      (operationComplete c m active join completed).2 =
        { (evaluateRound c m active join completed).2 with
          randomSearch := (evaluateRound c m active join completed).2.locationKey.isNone } := by
  unfold operationComplete at h ⊢
  dsimp only at h ⊢
  split at h
  · cases h
  · next hgoes =>
      rw [if_neg hgoes]
      exact ⟨Bool.not_eq_true _ ▸ hgoes, rfl⟩

theorem neighbors_some {m : RoutingMechanism location} (h : m.futureRouting = none) (c : RoutingConfiguration) :
    ∃ f, m.neighbors c = { m with futureRouting := some f } ∧ f.potentialHits = m.potentialHits := by
  rw [RoutingMechanism.neighbors, h]
  exact ⟨_, rfl, rfl⟩

/-- The result is set. -/
theorem Keeps.finish (h : Keeps c me s) (hround : Round s') {finished : Bool} {m : RoutingMechanism location}
    (hover : RoundOver c me s finished m) (hfinished : finished = true)
    (heq : s' = Rounds.finish (routingRec c) s (m.neighbors c)) : Keeps c me s' := by
  obtain ⟨hquiet, hcontrol, hslots, hjoin⟩ := quiet_finish (k := routingRec c) s (m.neighbors c)
  rw [← heq] at hquiet hcontrol hslots hjoin
  have hclient : s'.client = m.neighbors c := hquiet.client
  obtain ⟨future, hm, hpotential⟩ := neighbors_some hover.unset c
  rw [hm] at hclient
  have hlater : Later s.requests s'.requests := hquiet.later
  have hasked : s'.asked = s.asked := hquiet.asked
  have hlength : s'.requests.length = s.requests.length := by
    have hlength := congrArg List.length hasked
    unfold asked at hlength
    rw [List.length_map, List.length_map] at hlength
    exact hlength
  have hnone : s'.position = none := by rw [position, hcontrol]
  have hevaluated : s'.evaluated = s.evaluated := by
    rw [evaluated, hquiet.past, hjoin]
    rfl
  refine ⟨hround, by rw [hslots]; exact h.width, ?_, ?_, fun hno => absurd hnone hno, fun _ => ?_,
    fun hno => absurd hnone hno, fun hno => absurd hcontrol hno, fun hno => absurd hcontrol hno, fun _ => ⟨?_, ?_⟩⟩
  · rw [hasked, hclient]
    exact ⟨hover.asks.once, hover.asks.known, hover.asks.fresh⟩
  · rw [hclient]
    have hheard : Heard me s.requests { m with futureRouting := some future } :=
      ⟨hover.hears.once, hover.hears.success, hover.hears.hits⟩
    exact hheard.later hlater
  · rw [hclient, hevaluated]
    exact mem_responses_later h.round.sound.done hlater hover.settled
  · rw [hclient]
    exact ⟨future, rfl, hpotential⟩
  · rw [hclient]
    refine (hover.stops hfinished).imp_right fun hempty => ?_
    have hall : AllHeard s.requests { m with futureRouting := some future } :=
      allHeard_of_empty h.round hempty hover.settled
    exact hall.later hlater hlength

/-- Who is asked next was in the queue and is not any more. -/
theorem pollNext_spec {m m' : RoutingMechanism location} {pick : Nat} {p : PeerAddress}
    (h : pollNext m pick = some (p, m')) :
    p.peerId ∈ m.queueToAsk.ids ∧ (∀ id, id ∈ m'.queueToAsk.ids ↔ id ∈ m.queueToAsk.ids ∧ id ≠ p.peerId) ∧
      m'.alreadyAsked = m.alreadyAsked.add p ∧ m'.responses = m.responses ∧
        m'.potentialHits = m.potentialHits ∧ m'.directHits = m.directHits ∧ m'.futureRouting = m.futureRouting := by
  unfold pollNext at h
  split at h
  · cases h
  · split at h
    · cases h
    · next q queue hpoll =>
        cases h
        have hpoll : p ∈ m.queueToAsk.toList ∧ queue = m.queueToAsk.remove p := by
          split at hpoll
          · exact PeerSet.mem_pollAt hpoll
          · exact PeerSet.mem_pollFirst hpoll
        refine ⟨PeerSet.mem_ids_of_mem hpoll.1, fun id => ?_, rfl, rfl, rfl, rfl, rfl⟩
        dsimp only
        rw [hpoll.2]
        exact PeerSet.mem_ids_remove

/-- Another peer is asked. -/
theorem Keeps.ask (h : Keeps c me s) {i active pick : Nat} {peer : PeerAddress}
    {client : RoutingMechanism location} {outcome : Option (Option NeighborResponse)}
    (hround : Round { s with
      client := client
      requests := s.requests ++ [⟨peer, outcome⟩]
      slots := s.slots.set i (some s.requests.length)
      control := .fill (i + 1) (active + 1) })
    (hcontrol : s.control = .fill i active) (hnext : pollNext s.client pick = some (peer, client)) :
    Keeps c me { s with
      client := client
      requests := s.requests ++ [⟨peer, outcome⟩]
      slots := s.slots.set i (some s.requests.length)
      control := .fill (i + 1) (active + 1) } := by
  obtain ⟨hin, hqueue, hasked, hresponses, hpotential, hdirect, hrouting⟩ := pollNext_spec hnext
  have hlater := later_append s.requests (⟨peer, outcome⟩ : FutureResponse PeerAddress NeighborResponse)
  have hnone : s.position = none := by rw [position, hcontrol]
  have hnotended : s.control ≠ .ended := by
    rw [hcontrol]
    simp
  -- The peer was waiting, so nobody asked it before.
  have hfresh : peer.peerId ∉ s.asked.map (·.peerId) := by
    intro hmem
    obtain ⟨p, hp, hid⟩ := List.mem_map.mp hmem
    exact h.asks.fresh p hp (hid ▸ hin)
  refine ⟨hround, ?_, ⟨?_, ?_, ?_⟩, ?_, (by intros; contradiction), fun _ => ?_, (by intros; contradiction), fun _ => ?_, fun _ => ?_, (by intros; contradiction)⟩
  · dsimp only
    rw [List.length_set]
    exact h.width
  · unfold asked
    rw [List.map_append, List.map_append, List.nodup_append]
    refine ⟨h.asks.once, List.nodup_singleton _, fun x hx y hy heq => hfresh ?_⟩
    have hy : y = peer.peerId := List.mem_singleton.mp hy
    rw [← hy, ← heq]
    exact hx
  · intro p hp
    unfold asked at hp
    rw [List.map_append, List.mem_append] at hp
    dsimp only
    rw [hasked, PeerSet.mem_ids_add]
    rcases hp with hp | hp
    · exact .inr (h.asks.known p hp)
    · exact .inl (congrArg _ (List.mem_singleton.mp hp))
  · intro p hp hmem
    unfold asked at hp
    rw [List.map_append, List.mem_append] at hp
    obtain ⟨hold, hne⟩ := (hqueue p.peerId).mp hmem
    rcases hp with hp | hp
    · exact h.asks.fresh p hp hold
    · exact hne (congrArg _ (List.mem_singleton.mp hp))
  · have hheard : Heard me s.requests client :=
      ⟨hresponses ▸ h.hears.once, hresponses ▸ h.hears.success, by
        rw [hresponses, hpotential]
        exact h.hears.hits⟩
    exact hheard.later hlater
  · dsimp only
    rw [hresponses]
    exact mem_responses_later h.round.sound.done hlater (h.settled hnone)
  · dsimp only
    rw [hdirect]
    exact h.few hnotended
  · dsimp only
    rw [hrouting]
    exact h.running hnotended

/-- Looking at a slot without asking anybody changes nothing. -/
theorem Keeps.pass (h : Keeps c me s) {i active i' active' : Nat} (hcontrol : s.control = .fill i active)
    (hround : Round { s with control := .fill i' active' }) : Keeps c me { s with control := .fill i' active' } := by
  have hnotended : s.control ≠ .ended := by
    rw [hcontrol]
    exact nofun
  exact ⟨hround, h.width, h.asks, h.hears, nofun, fun _ => h.settled (by rw [position, hcontrol]), nofun,
    fun _ => h.few hnotended, fun _ => h.running hnotended, nofun⟩

/-- Every event keeps it. -/
theorem Keeps.step (h : Keeps c me s) {e : Event NeighborResponse}
    (hstep : s.step (routingRec c) e = some s') : Keeps c me s' := by
  have hfits := h.fits
  have hround := h.round.step hfits hstep
  rcases h.round.moves hfits hstep with
    ⟨hquiet, hcontrol, hsame, hjoin⟩ | ⟨hquiet, hsome, hsome', henough⟩ | ⟨i, active, r, hcontrol, -, hslot, rfl⟩ |
    ⟨i, active, pick, hcontrol, hi, hslot, hnext, rfl⟩ |
    ⟨i, active, pick, peer, client, outcome, hcontrol, hi, hslot, hnext, rfl⟩ | ⟨i, hcontrol, hi, heq⟩ |
    ⟨i, active, hcontrol, hi, hactive, rfl⟩ | ⟨hcontrol, hlast, heq⟩ | ⟨hcontrol, hlast, heq⟩
  · -- a request completes or is cancelled
    refine h.quiet hround hquiet ?_ (fun _ => hjoin) (by rw [hjoin]) (by rw [hcontrol])
    rw [position, position, hcontrol, hsame]
  · -- the join reacts to a slot
    have hno (t : Rounds (RoutingMechanism location) PeerAddress NeighborResponse) (ht : t.position ≠ none) :
        t.control ≠ .ended := by
      intro hended
      rw [position, hended] at ht
      exact ht rfl
    refine h.quiet hround hquiet ?_ (fun hnone => absurd hnone hsome) henough ?_
    · exact ⟨fun hnone => absurd hnone hsome', fun hnone => absurd hnone hsome⟩
    · exact ⟨fun hended => absurd hended (hno s' hsome'), fun hended => absurd hended (hno s hsome)⟩
  · exact h.pass hcontrol hround
  · exact h.pass hcontrol hround
  · exact h.ask hround hcontrol hnext
  · -- no slot is in use
    have hnone : s.position = none := by rw [position, hcontrol]
    have hnotended : s.control ≠ .ended := by
      rw [hcontrol]
      simp
    have hzero := (h.round.filling i 0 hcontrol).2
    have hi : c.parallel ≤ i := hi
    rw [List.take_of_length_le (by rw [h.width]; exact hi)] at hzero
    have hempty (j r : Nat) : s.slots[j]? ≠ some (some r) := fun hj =>
      absurd rfl (List.countP_eq_zero.mp hzero.symm (some r) (List.mem_of_getElem? hj))
    have hover : RoundOver c me s true s.client :=
      ⟨h.asks, h.hears, h.settled hnone, h.running hnotended, fun _ => .inr hempty, (by intros; contradiction)⟩
    exact h.finish hround hover rfl heq
  · have hnotended : s.control ≠ .ended := by
      rw [hcontrol]
      simp
    exact ⟨hround, h.width, h.asks, h.hears, fun _ => h.settled (by rw [position, hcontrol]), (by intros; contradiction), fun _ => rfl,
      fun _ => h.few hnotended, fun _ => h.running hnotended, (by intros; contradiction)⟩
  · -- the round is over, and the client has finished
    have hover := h.evaluateRound hcontrol
    have hfinished : (DistributedRouting.evaluateRound c s.client s.active s.join s.completed).1 = true := by
      by_contra hno
      have hlast : (operationComplete c s.client s.active s.join s.completed).1 = true := hlast
      rw [operationComplete, if_neg hno] at hlast
      cases hlast
    refine h.finish hround hover hfinished ?_
    have heq : s' = Rounds.finish (routingRec c) s (operationComplete c s.client s.active s.join s.completed).2 :=
      heq
    rw [operationComplete, if_pos hfinished] at heq
    exact heq
  · -- the round is over, and a next one begins
    have hover := h.evaluateRound hcontrol
    obtain ⟨hgoes, hclient⟩ := operationComplete_again hlast
    have heq : s' = { s with
        client := (operationComplete c s.client s.active s.join s.completed).2, control := .fill 0 0 } := heq
    rw [hclient] at heq
    subst heq
    exact ⟨hround, h.width, ⟨hover.asks.once, hover.asks.known, hover.asks.fresh⟩,
      ⟨hover.hears.once, hover.hears.success, hover.hears.hits⟩, (by intros; contradiction), fun _ => hover.settled, (by intros; contradiction),
      fun _ => hover.goes hgoes, fun _ => hover.unset, (by intros; contradiction)⟩

/-! ### Searches -/

/-- A search that has asked nobody yet. -/
theorem keeps_start {m : RoutingMechanism location} {control : Control}
    (hcontrol : control = .fill 0 0 ∨ control = .ended) (hresponses : m.responses = [])
    (hhits : m.potentialHits = PeerSet.empty.add me)
    (hfew : control ≠ .ended → (m.directHits.size : Int) < c.maxDirectHits)
    (hrunning : control ≠ .ended → m.futureRouting = none)
    (hended : control = .ended → ∃ f, m.futureRouting = some f ∧ f.potentialHits = m.potentialHits) :
    Keeps c me { client := m, slots := List.replicate c.parallel none, control := control } := by
  have hround := Round.start (P := PeerAddress) (A := NeighborResponse) m c.parallel hcontrol
  have hnone : ({ client := m, slots := List.replicate c.parallel none, control := control } :
      Rounds (RoutingMechanism location) PeerAddress NeighborResponse).position = none := by
    rcases hcontrol with rfl | rfl <;> rfl
  refine ⟨hround, List.length_replicate, ⟨List.nodup_nil, ?_, ?_⟩, ⟨?_, ?_, ?_⟩, fun hno => absurd hnone hno, ?_,
    fun hno => absurd hnone hno, hfew, hrunning, fun hcontrol => ⟨hended hcontrol, .inr ?_⟩⟩
  · exact fun p hp => absurd hp List.not_mem_nil
  · exact fun p hp => absurd hp List.not_mem_nil
  · dsimp only
    rw [hresponses]
    exact List.nodup_nil
  · dsimp only
    rw [hresponses]
    exact fun r hr => absurd hr List.not_mem_nil
  · intro id
    dsimp only
    rw [hresponses, hhits, PeerSet.mem_ids_add]
    simp [PeerSet.ids, PeerSet.toList, PeerSet.empty, NavMap.values, NavMap.empty]
  · intro _ r
    dsimp only
    rw [hresponses]
    exact ⟨fun hr => absurd hr List.not_mem_nil, fun hr => absurd hr.1 List.not_mem_nil⟩
  · exact fun r hr => absurd hr (Nat.not_lt_zero r)

theorem keeps_routing (c : RoutingConfiguration) (me : PeerAddress) (locationKey : Option Number160)
    (own : Option GlobalDigest) (peerAddresses : List PeerAddress) :
    Keeps c me (routing c me locationKey own peerAddresses) := by
  -- a search that has ended before it began has set its result
  have hended {m : RoutingMechanism (searchLocation me locationKey)} (c' : RoutingConfiguration)
      (hresponses : m.responses = []) (hhits : m.potentialHits = PeerSet.empty.add me)
      (hunset : m.futureRouting = none) :
      Keeps c me { client := m.neighbors c', slots := List.replicate c.parallel none, control := .ended } := by
    obtain ⟨f, hf, hpotential⟩ := neighbors_some hunset c'
    rw [hf]
    exact keeps_start (.inr rfl) hresponses hhits (fun hno => absurd rfl hno) (fun hno => absurd rfl hno)
      fun _ => ⟨f, rfl, hpotential⟩
  have hrunning {m : RoutingMechanism (searchLocation me locationKey)} (hresponses : m.responses = [])
      (hhits : m.potentialHits = PeerSet.empty.add me) (hunset : m.futureRouting = none)
      (hfew : (m.directHits.size : Int) < c.maxDirectHits) :
      Keeps c me { client := m, slots := List.replicate c.parallel none } :=
    keeps_start (.inl rfl) hresponses hhits (fun _ => hfew) (fun _ => hunset) fun hno => Control.noConfusion hno
  unfold routing
  dsimp only
  split
  · exact hended _ rfl rfl rfl
  · next hfew =>
      split
      · exact hended _ rfl rfl rfl
      · exact hrunning rfl rfl rfl (lt_of_not_ge hfew)
      · exact hrunning rfl rfl rfl (lt_of_not_ge hfew)

theorem Keeps.reach {t : Rounds (RoutingMechanism location) PeerAddress NeighborResponse} (h : Keeps c me s)
    (hreach : Reach (routingRec c) s t) : Keeps c me t := by
  induction hreach with
  | start => exact h
  | step e _ hstep ih => exact ih.step hstep

/-- What a search may be relied on for. -/
structure Routed (c : RoutingConfiguration) (me : PeerAddress)
    (s : Rounds (RoutingMechanism location) PeerAddress NeighborResponse) : Prop where
  /-- No peer is asked twice. -/
  once : (s.asked.map (·.peerId)).Nodup
  /-- No more requests than slots are on their way. -/
  bounded : ((List.range s.requests.length).filter fun r => !returned s.requests r).length ≤ c.parallel
  /-- No answer is evaluated twice. -/
  heardOnce : s.client.responses.Nodup ∧ ∀ r ∈ s.client.responses, succeeded s.requests r = true
  /-- When the search has ended without enough hits all requests have completed, and
      all answers were evaluated. -/
  complete : s.control = .ended → (s.client.directHits.size : Int) < c.maxDirectHits →
    ∀ r < s.requests.length,
      returned s.requests r = true ∧ (succeeded s.requests r = true → r ∈ s.client.responses)
  /-- A result is there exactly when the search has ended. -/
  result : s.control = .ended ↔ s.client.futureRouting ≠ none
  /-- The peers of the result are this peer and those that sent the answers. -/
  hits : ∀ f, s.client.futureRouting = some f →
    ∀ id, id ∈ f.potentialHits.ids ↔ id = me.peerId ∨ ∃ r ∈ s.client.responses, Sent s.requests r id

/-- Every state of a search can be relied on, whatever peers answer and in whatever
    order. -/
theorem routed_of_reach (c : RoutingConfiguration) (me : PeerAddress) (locationKey : Option Number160)
    (own : Option GlobalDigest) (peerAddresses : List PeerAddress)
    (s : Rounds (RoutingMechanism (searchLocation me locationKey)) PeerAddress NeighborResponse)
    (hreach : Reach (routingRec c) (routing c me locationKey own peerAddresses) s) : Routed c me s := by
  have h := (keeps_routing c me locationKey own peerAddresses).reach hreach
  have hresult : s.control = .ended ↔ s.client.futureRouting ≠ none := by
    constructor
    · intro hended
      obtain ⟨⟨f, hf, -⟩, -⟩ := h.ended hended
      rw [hf]
      exact nofun
    · intro hsome
      by_contra hno
      exact hsome (h.running hno)
  refine ⟨h.asks.once, h.width ▸ h.round.sound.outstanding_le, ⟨h.hears.once, h.hears.success⟩, ?_, hresult, ?_⟩
  · intro hended hfew
    rcases (h.ended hended).2 with hmany | hall
    · omega
    · exact hall
  · intro f hf id
    obtain ⟨⟨f', hf', hpotential⟩, -⟩ := h.ended (hresult.mpr (by rw [hf]; exact nofun))
    rw [hf] at hf'
    cases hf'
    rw [hpotential]
    exact h.hears.hits id

/-- Two peers are asked at a time. -/
def twoAtATime : RoutingConfiguration where
  maxDirectHits := 1
  maxNoNewInfo := 5
  maxFailures := 5
  maxSuccess := 5
  parallel := 2

/-- The search for the location 8 from a peer with id 1 that knows peer 9. -/
def searchFromOne : Rounds (RoutingMechanism (searchLocation { peerId := 1 } (some 8))) PeerAddress NeighborResponse :=
  routing twoAtATime { peerId := 1 } (some 8) none [{ peerId := 9 }]

/-- Peer 9 has answered when it is asked, and reports itself and peer 10. Peer 10 is
    asked in the next round and does not answer. -/
def searchEvents : List (Event NeighborResponse) :=
  let answer : NeighborResponse := { sender := { peerId := 9 }, neighbors := [{ peerId := 9 }, { peerId := 10 }] }
  [.go 0 (some (some answer))] ++ List.replicate 16 (.go 0 none) ++ [.complete 1 none, .notify 1 0] ++
    List.replicate 4 (.go 0 none)

theorem routed_searchFromOne :
    ∃ s, play (routingRec twoAtATime) searchFromOne searchEvents = some s ∧ s.control = .ended ∧
      s.client.responses = [0] ∧ s.requests.length = 2 ∧ Routed twoAtATime { peerId := 1 } s := by
  have hends : (play (routingRec twoAtATime) searchFromOne searchEvents).any (fun s =>
      s.control = .ended ∧ s.client.responses = [0] ∧ s.requests.length = 2) = true := by decide
  rw [Option.any_eq_true] at hends
  obtain ⟨s, hplay, hs⟩ := hends
  rw [decide_eq_true_iff] at hs
  exact ⟨s, hplay, hs.1, hs.2.1, hs.2.2,
    routed_of_reach twoAtATime { peerId := 1 } (some 8) none [{ peerId := 9 }] s (reach_of_play .start hplay)⟩

end DistributedRouting

end TomP2P
