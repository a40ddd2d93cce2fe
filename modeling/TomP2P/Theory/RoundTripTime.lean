import TomP2P.Core.RoundTripTime
import TomP2P.Foundation.Runs
import TomP2P.Theory.PeerBags

/-!
# Measured and Estimated Times

A statistic shall not mix times that were measured with times that are estimates, and
a time that was measured shall stay so.

An `RTT` is cached as what it is at that moment, and every cache is of one kind then
(`CacheOk.addRTT`). The head of a cache therefore tells the kind of all of it. What can
break this is an `RTT` that becomes an estimate when it is in a cache as a measurement.
The listener of a request does this at the first neighbour that it reports, if the time
was recorded for the peer that has responded. `Unshared` says that it does not.

## Main definitions

* `MeasuredMap.Unmixed`: What is promised.
* `MeasuredMap.Unshared`: The condition on a step.
* `MeasuredMap.Kinds`: The invariant.

## Theorems

* `CacheOk.addRTT`: Adding to a cache keeps it of one kind.
* `MeasuredMap.Kinds.setEstimated`: When an `RTT` may become an estimate.
* `MeasuredMap.step_kinds`: What one step keeps.
* `MeasuredMap.unmixed_of_unshared`: The promise is kept if no measurement becomes an
  estimate in a cache.
-/

namespace TomP2P

open Function List

/-! ### One cache -/

theorem FIFOCache.length_add_le {α : Type} (maxSize : Nat) (cache : List α) (e : α) :
    (FIFOCache.add maxSize cache e).length ≤ maxSize := by
  unfold FIFOCache.add
  rw [length_drop]
  omega

theorem FIFOCache.mem_of_mem_add {α : Type} {maxSize : Nat} {cache : List α} {e x : α}
    (h : x ∈ FIFOCache.add maxSize cache e) : x ∈ cache ∨ x = e := by
  have hmem := mem_of_mem_drop h
  rw [mem_append, mem_singleton] at hmem
  exact hmem

/-- An entry of the cache of a peer is what it was recorded as. -/
structure EntryOk (requests : Nat → NeighborRequest) (id : Number160) (e : CachedRtt) : Prop where
  kind : (requests e.request).roundTripTime.isEstimated = !e.firstHand
  responder : e.firstHand = true → id ∈ (requests e.request).responders

/-- The cache of a peer is small and of one kind. -/
structure CacheOk (requests : Nat → NeighborRequest) (id : Number160) (cache : List CachedRtt) : Prop where
  size : cache.length ≤ PeerStatistic.RTT_CACHE_SIZE
  entry : ∀ e ∈ cache, EntryOk requests id e
  same : ∀ e ∈ cache, ∀ e' ∈ cache, e.firstHand = e'.firstHand

namespace CacheOk

variable {requests requests' : Nat → NeighborRequest} {id : Number160} {cache : List CachedRtt} {e : CachedRtt}

theorem nil : CacheOk requests id [] where
  size := Nat.zero_le _
  entry _ he := absurd he not_mem_nil
  same _ he := absurd he not_mem_nil

theorem fifoAdd (h : CacheOk requests id cache) (he : EntryOk requests id e)
    (hsame : ∀ e' ∈ cache, e'.firstHand = e.firstHand) :
    CacheOk requests id (FIFOCache.add PeerStatistic.RTT_CACHE_SIZE cache e) := by
  have hkind : ∀ e' ∈ FIFOCache.add PeerStatistic.RTT_CACHE_SIZE cache e, e'.firstHand = e.firstHand := by
    intro e' he'
    rcases FIFOCache.mem_of_mem_add he' with hmem | rfl
    · exact hsame e' hmem
    · rfl
  refine ⟨FIFOCache.length_add_le _ _ _, ?_, ?_⟩
  · intro e' he'
    rcases FIFOCache.mem_of_mem_add he' with hmem | rfl
    · exact h.entry e' hmem
    · exact he
  · exact fun e₁ h₁ e₂ h₂ => (hkind e₁ h₁).trans (hkind e₂ h₂).symm

/-- The head of a cache tells the kind of all entries. -/
theorem containsEstimates_eq (h : CacheOk requests id cache) (he : e ∈ cache) :
    PeerStatistic.containsEstimates (fun r => (requests r).roundTripTime) cache = !e.firstHand := by
  cases cache with
  | nil => exact absurd he not_mem_nil
  | cons e₀ cache =>
      have hhead : e₀ ∈ e₀ :: cache := mem_cons_self
      show (requests e₀.request).roundTripTime.isEstimated = !e.firstHand
      rw [(h.entry e₀ hhead).kind, h.same e₀ hhead e he]

/-- A measurement that is added to estimates is alone after that, and an estimate is not
    added to measurements. -/
theorem addRTT (h : CacheOk requests id cache) (rtt : Option CachedRtt) (hrtt : ∀ e ∈ rtt, EntryOk requests id e) :
    CacheOk requests id (PeerStatistic.addRTT (fun r => (requests r).roundTripTime) cache rtt) := by
  cases rtt with
  | none => exact h
  | some e =>
      have he := hrtt e rfl
      unfold PeerStatistic.addRTT
      dsimp only
      by_cases hpos : 0 < (requests e.request).roundTripTime.getRtt
      · rw [if_pos hpos, he.kind, Bool.not_not]
        cases hest : PeerStatistic.containsEstimates (fun r => (requests r).roundTripTime) cache with
        | true =>
            rw [if_pos rfl]
            cases hfirst : e.firstHand with
            | true => exact nil.fifoAdd he fun _ he' => absurd he' not_mem_nil
            | false =>
                refine h.fifoAdd he ?_
                intro e' he'
                rw [hfirst]
                simpa [hest] using h.containsEstimates_eq he'
        | false =>
            rw [if_neg Bool.false_ne_true]
            split
            · next hadd =>
                refine h.fifoAdd he ?_
                intro e' he'
                have hmeasured : e'.firstHand = true := by simpa [hest] using h.containsEstimates_eq he'
                have hnonempty : cache.isEmpty = false := by
                  rw [isEmpty_eq_false_iff]
                  exact ne_nil_of_mem he'
                rw [hnonempty, Bool.or_false] at hadd
                exact hmeasured.trans hadd.symm
            · exact h
      · rw [if_neg hpos]
        exact h

/-- Requests change, but not the kind of the entries. -/
theorem change (h : CacheOk requests id cache)
    (hkind : ∀ e ∈ cache, (requests' e.request).roundTripTime.isEstimated =
      (requests e.request).roundTripTime.isEstimated)
    (hresponders : ∀ r, (requests r).responders ⊆ (requests' r).responders) : CacheOk requests' id cache where
  size := h.size
  entry e he := ⟨(hkind e he).trans (h.entry e he).kind, fun hfirst => hresponders _ ((h.entry e he).responder hfirst)⟩
  same := h.same

end CacheOk

namespace MeasuredMap

/-- The caches of all statistics. -/
def IsCache (s : MeasuredMap) (cache : List CachedRtt) : Prop :=
  ∃ id, cache = s.rttVerified id ∨ cache = s.rttOverflow id

/-- What is promised of every cache: it is small, its entries are all measured or all
    estimates, and what was recorded first hand is still measured. -/
def Unmixed (s : MeasuredMap) : Prop :=
  ∀ cache, s.IsCache cache →
    cache.length ≤ 5 ∧
    ((∀ e ∈ cache, (s.rtts e.request).isEstimated = false) ∨ (∀ e ∈ cache, (s.rtts e.request).isEstimated = true)) ∧
    ∀ e ∈ cache, e.firstHand = true → (s.rtts e.request).isEstimated = false

/-- The peers that have responded do not have the time of this request in their caches. -/
def Uncached (s : MeasuredMap) (request : Nat) : Prop :=
  ∀ id ∈ (s.requests request).responders,
    (∀ e ∈ s.rttVerified id, e.request ≠ request) ∧ ∀ e ∈ s.rttOverflow id, e.request ≠ request

instance (s : MeasuredMap) (request : Nat) : Decidable (s.Uncached request) :=
  inferInstanceAs (Decidable (∀ id ∈ (s.requests request).responders,
    (∀ e ∈ s.rttVerified id, e.request ≠ request) ∧ ∀ e ∈ s.rttOverflow id, e.request ≠ request))

/-- The condition on a step: the listener reports a neighbour with a time that is an
    estimate already, or that no peer which has responded has in its cache. -/
def Unshared (s : MeasuredMap) : RttEvent → Prop
  | .report request _ => (s.rtts request).isEstimated = true ∨ s.Uncached request
  | _ => True

instance (s : MeasuredMap) : ∀ e, Decidable (s.Unshared e)
  | .report request _ => inferInstanceAs (Decidable ((s.rtts request).isEstimated = true ∨ s.Uncached request))
  | .start _ _ _ => .isTrue trivial
  | .receive _ _ _ => .isTrue trivial
  | .found _ _ _ => .isTrue trivial
  | .failed _ _ _ => .isTrue trivial

/-- The invariant. The time of a request without a complete response is no estimate. -/
structure Kinds (s : MeasuredMap) : Prop where
  verified : ∀ id, CacheOk s.requests id (s.rttVerified id)
  overflow : ∀ id, CacheOk s.requests id (s.rttOverflow id)
  pending : ∀ r, (s.requests r).listener = none → (s.rtts r).isEstimated = false

variable {c : PeerMapConfiguration} {s s' : MeasuredMap} {request : Nat}

theorem Kinds.unmixed (h : s.Kinds) : s.Unmixed := by
  have hcache : ∀ id cache, CacheOk s.requests id cache → cache.length ≤ 5 ∧
      ((∀ e ∈ cache, (s.rtts e.request).isEstimated = false) ∨ (∀ e ∈ cache, (s.rtts e.request).isEstimated = true)) ∧
      ∀ e ∈ cache, e.firstHand = true → (s.rtts e.request).isEstimated = false := by
    intro id cache hok
    have hkind : ∀ e ∈ cache, (s.rtts e.request).isEstimated = !e.firstHand := fun e he => (hok.entry e he).kind
    refine ⟨hok.size, ?_, ?_⟩
    · cases cache with
      | nil => exact .inl fun _ he => absurd he not_mem_nil
      | cons e₀ cache =>
          have hsame : ∀ e ∈ e₀ :: cache, (s.rtts e.request).isEstimated = !e₀.firstHand := by
            intro e he
            rw [hkind e he, hok.same e he e₀ mem_cons_self]
          cases hfirst : e₀.firstHand with
          | true => exact .inl fun e he => by rw [hsame e he, hfirst]; rfl
          | false => exact .inr fun e he => by rw [hsame e he, hfirst]; rfl
    · intro e he hfirst
      rw [hkind e he, hfirst]
      rfl
  rintro cache ⟨id, rfl | rfl⟩
  · exact hcache id _ (h.verified id)
  · exact hcache id _ (h.overflow id)

/-! ### Steps -/

/-- A request goes on. -/
theorem Kinds.updateRequest (h : s.Kinds) {f : NeighborRequest → NeighborRequest}
    (hkind : (f (s.requests request)).roundTripTime.isEstimated = (s.rtts request).isEstimated)
    (hresponders : (s.requests request).responders ⊆ (f (s.requests request)).responders)
    (hlistener : (f (s.requests request)).listener = none → (s.requests request).listener = none) :
    (s.updateRequest request f).Kinds := by
  have hsame : ∀ r, ((s.updateRequest request f).requests r).roundTripTime.isEstimated =
      (s.requests r).roundTripTime.isEstimated := by
    intro r
    show (update s.requests request _ r).roundTripTime.isEstimated = _
    by_cases hr : r = request
    · rw [hr, update_self]
      exact hkind
    · rw [update_of_ne hr]
  have hmore : ∀ r, (s.requests r).responders ⊆ ((s.updateRequest request f).requests r).responders := by
    intro r
    show _ ⊆ (update s.requests request _ r).responders
    by_cases hr : r = request
    · rw [hr, update_self]
      exact hresponders
    · rw [update_of_ne hr]
      exact List.Subset.refl _
  refine ⟨fun id => (h.verified id).change (fun e _ => hsame e.request) hmore,
    fun id => (h.overflow id).change (fun e _ => hsame e.request) hmore, ?_⟩
  intro r hnone
  refine (hsame r).trans (h.pending r ?_)
  by_cases hr : r = request
  · rw [hr] at hnone ⊢
    refine hlistener ?_
    rw [← hnone]
    exact congrArg NeighborRequest.listener (update_self request _ s.requests).symm
  · rw [← hnone]
    exact congrArg NeighborRequest.listener (update_of_ne hr _ s.requests).symm

/-- A time becomes an estimate: it is one already, or it is not cached as a measurement. -/
theorem Kinds.setEstimated (h : s.Kinds) (hlistener : (s.requests request).listener ≠ none)
    (hcond : (s.rtts request).isEstimated = true ∨ s.Uncached request) : (s.setEstimated request).Kinds := by
  have hself : (s.setEstimated request).requests request =
      { s.requests request with roundTripTime := (s.requests request).roundTripTime.setEstimated } :=
    update_self request _ s.requests
  have hother : ∀ r, r ≠ request → (s.setEstimated request).requests r = s.requests r :=
    fun r hr => update_of_ne hr _ s.requests
  have hmore : ∀ r, (s.requests r).responders ⊆ ((s.setEstimated request).requests r).responders := by
    intro r
    by_cases hr : r = request
    · rw [hr, hself]
      exact List.Subset.refl _
    · rw [hother r hr]
      exact List.Subset.refl _
  have hcache : ∀ id cache, CacheOk s.requests id cache →
      (id ∈ (s.requests request).responders → s.Uncached request → ∀ e ∈ cache, e.request ≠ request) →
      CacheOk (s.setEstimated request).requests id cache := by
    intro id cache hok huncached
    refine hok.change (fun e he => ?_) hmore
    by_cases hr : e.request = request
    · rw [hr, hself]
      show true = (s.requests request).roundTripTime.isEstimated
      cases hest : (s.requests request).roundTripTime.isEstimated with
      | true => rfl
      | false =>
          -- The entry is a measurement, so that the peer has responded.
          have hnot : s.Uncached request := by
            rcases hcond with hest' | hnot
            · exact absurd (hest.symm.trans hest') Bool.false_ne_true
            · exact hnot
          have hentry := hok.entry e he
          have hfirst : e.firstHand = true := by
            have hkind := hentry.kind
            rw [hr, hest] at hkind
            simpa using hkind.symm
          have hresponder := hentry.responder hfirst
          rw [hr] at hresponder
          exact absurd hr (huncached hresponder hnot e he)
    · rw [hother _ hr]
  refine ⟨fun id => hcache id _ (h.verified id) fun hid hnot => (hnot id hid).1,
    fun id => hcache id _ (h.overflow id) fun hid hnot => (hnot id hid).2, ?_⟩
  intro r hnone
  by_cases hr : r = request
  · rw [hr, hself] at hnone
    exact absurd hnone hlistener
  · rw [hother r hr] at hnone
    show ((s.setEstimated request).requests r).roundTripTime.isEstimated = false
    rw [hother r hr]
    exact h.pending r hnone

theorem Kinds.collect (h : s.Kinds) (c : PeerMapConfiguration) : (s.collect c).Kinds := by
  refine ⟨fun id => ?_, fun id => ?_, h.pending⟩
  · show CacheOk s.requests id (if _ then s.rttVerified id else [])
    split
    · exact h.verified id
    · exact .nil
  · show CacheOk s.requests id (if _ then s.rttOverflow id else [])
    split
    · exact h.overflow id
    · exact .nil

/-- The map does not matter for the caches. -/
theorem Kinds.setPeerMap (h : s.Kinds) (m : PeerMap) : Kinds { s with peerMap := m } := ⟨h.verified, h.overflow, h.pending⟩

theorem Kinds.setVerified (h : s.Kinds) {id : Number160} {cache : List CachedRtt} (hcache : CacheOk s.requests id cache) :
    Kinds { s with rttVerified := update s.rttVerified id cache } := by
  refine ⟨fun k => ?_, h.overflow, h.pending⟩
  show CacheOk s.requests k (update s.rttVerified id cache k)
  by_cases hk : k = id
  · rw [hk, update_self]
    exact hcache
  · rw [update_of_ne hk]
    exact h.verified k

theorem Kinds.setOverflow (h : s.Kinds) {id : Number160} {cache : List CachedRtt} (hcache : CacheOk s.requests id cache) :
    Kinds { s with rttOverflow := update s.rttOverflow id cache } := by
  refine ⟨h.verified, fun k => ?_, h.pending⟩
  show CacheOk s.requests k (update s.rttOverflow id cache k)
  by_cases hk : k = id
  · rw [hk, update_self]
    exact hcache
  · rw [update_of_ne hk]
    exact h.overflow k

/-- A time is recorded as what it is. -/
def Recorded (s : MeasuredMap) (id : Number160) (firstHand : Bool) (roundTripTime : Option Nat) : Prop :=
  ∀ r ∈ roundTripTime, EntryOk s.requests id { request := r, firstHand := firstHand }

theorem Recorded.entry {id : Number160} {firstHand : Bool} {roundTripTime : Option Nat}
    (h : s.Recorded id firstHand roundTripTime) :
    ∀ e ∈ roundTripTime.map (fun r => ({ request := r, firstHand := firstHand } : CachedRtt)), EntryOk s.requests id e := by
  intro e he
  obtain ⟨r, hr, rfl⟩ := Option.map_eq_some_iff.mp he
  exact h r hr

/-- What is not first hand is an estimate already, and marking it once more changes nothing. -/
theorem Kinds.setEstimated_again (h : s.Kinds) {id : Number160} {roundTripTime : Option Nat}
    (hrecorded : s.Recorded id false roundTripTime) :
    (roundTripTime.elim s s.setEstimated).Kinds ∧
      (roundTripTime.elim s s.setEstimated).Recorded id false roundTripTime := by
  cases roundTripTime with
  | none => exact ⟨h, hrecorded⟩
  | some r =>
      have hest : (s.rtts r).isEstimated = true := (hrecorded r rfl).kind
      have hlistener : (s.requests r).listener ≠ none := by
        intro hnone
        exact absurd (hest.symm.trans (h.pending r hnone)) Bool.false_ne_true.symm
      refine ⟨h.setEstimated hlistener (.inl hest), ?_⟩
      intro r' hr'
      rw [Option.mem_some_iff] at hr'
      subst hr'
      refine ⟨?_, fun hfirst => absurd hfirst Bool.false_ne_true⟩
      show (update s.requests r _ r).roundTripTime.isEstimated = true
      rw [update_self]
      rfl

theorem Kinds.acceptRtt (h : s.Kinds) {m : PeerMap} {now : Int} {p : PeerAddress} {firstHand thirdHand direct : Bool}
    {roundTripTime : Option Nat} (hrecorded : s.Recorded p.peerId firstHand roundTripTime) :
    (acceptRtt c m s now p firstHand thirdHand direct roundTripTime).Kinds := by
  unfold MeasuredMap.acceptRtt
  dsimp only
  cases PeerMap.updateExistingVerifiedPeerAddress (m.peerMapVerified (PeerMap.bagOf c.self p.peerId)) p firstHand now with
  | error _ => exact h
  | ok old =>
      cases old with
      | some old =>
          dsimp only
          split
          · exact h.setVerified ((h.verified _).addRTT _ hrecorded.entry)
          · exact h
      | none =>
          dsimp only
          split
          · exact h.setVerified (CacheOk.nil.addRTT _ hrecorded.entry)
          · cases firstHand with
            | true => exact h.setOverflow ((h.overflow _).addRTT _ hrecorded.entry)
            | false =>
                rw [if_neg Bool.false_ne_true]
                split
                · obtain ⟨hagain, hrecorded'⟩ := h.setEstimated_again hrecorded
                  exact hagain.setOverflow ((hagain.overflow _).addRTT _ hrecorded'.entry)
                · exact h

theorem Kinds.judgeRtt (h : s.Kinds) {m : PeerMap} {now : Int} {p : PeerAddress} {firstHand thirdHand direct : Bool}
    {roundTripTime : Option Nat} (hrecorded : s.Recorded p.peerId firstHand roundTripTime) :
    (judgeRtt c m s now p firstHand thirdHand direct roundTripTime).Kinds := by
  unfold MeasuredMap.judgeRtt
  split
  · exact h
  · split
    · exact h
    · dsimp only
      split
      · exact h
      · exact h.acceptRtt hrecorded

theorem Kinds.peerFound (h : s.Kinds) (c : PeerMapConfiguration) (now : Int) (p : PeerAddress)
    (referrer : Option PeerAddress) {roundTripTime : Option Nat}
    (hrecorded : s.Recorded p.peerId referrer.isNone roundTripTime) :
    (s.peerFound c now p referrer roundTripTime).Kinds :=
  ((h.judgeRtt hrecorded).setPeerMap _).collect c

/-- The response is the first time that is recorded first hand, and no estimate yet. -/
theorem Kinds.receive (h : s.Kinds) (hnone : (s.requests request).listener = none) (response : MeasuredResponse)
    (now : Int) : (s.receive c request response now).Kinds := by
  have hstop : ∀ r : RTT, (r.stopTimeMeasurement now).isEstimated = r.isEstimated := by
    intro r
    unfold RTT.stopTimeMeasurement
    split
    · rfl
    · rfl
  unfold MeasuredMap.receive
  dsimp only
  generalize hs₁ : s.updateRequest request (fun r => { r with roundTripTime := r.roundTripTime.stopTimeMeasurement now }) =
    s₁
  have hrequest : s₁.requests request = { s.requests request with
      roundTripTime := (s.requests request).roundTripTime.stopTimeMeasurement now } := by
    rw [← hs₁]
    exact update_self request _ s.requests
  have hstopped : s₁.Kinds := by
    rw [← hs₁]
    exact h.updateRequest (hstop _) (List.Subset.refl _) id
  have hrecorded : (if response.isOk then (s₁.updateRequest request fun r =>
      { r with responders := response.sender.peerId :: r.responders }).peerFound c now response.sender none
        (some request) else s₁).Kinds := by
    split
    · refine Kinds.peerFound (hstopped.updateRequest rfl (subset_cons_self _ _) id) c now _ none ?_
      intro r hr
      rw [Option.mem_some_iff] at hr
      subst hr
      have hself : (s₁.updateRequest request fun r =>
          { r with responders := response.sender.peerId :: r.responders }).requests request =
          { s₁.requests request with responders := response.sender.peerId :: (s₁.requests request).responders } :=
        update_self request _ s₁.requests
      refine ⟨?_, fun _ => ?_⟩
      · show RTT.isEstimated (NeighborRequest.roundTripTime _) = false
        rw [hself, hrequest]
        exact (hstop _).trans (h.pending request hnone)
      · show _ ∈ NeighborRequest.responders _
        rw [hself]
        exact mem_cons_self
    · exact hstopped
  split
  · exact hrecorded.updateRequest rfl (List.Subset.refl _) fun hsome => by simp at hsome
  · exact hrecorded

theorem Kinds.report (h : s.Kinds) (hcond : (s.rtts request).isEstimated = true ∨ s.Uncached request)
    (sender neighbor : PeerAddress) (neighbors : List PeerAddress) (now : Int) :
    (s.report c request sender neighbor neighbors now).Kinds := by
  unfold MeasuredMap.report
  dsimp only
  generalize hs₁ : s.updateRequest request (fun r => { r with listener := some (sender, neighbors) }) = s₁
  have hrequest : s₁.requests request = { s.requests request with listener := some (sender, neighbors) } := by
    rw [← hs₁]
    exact update_self request _ s.requests
  have hnext : s₁.Kinds := by
    rw [← hs₁]
    exact h.updateRequest rfl (List.Subset.refl _) fun hsome => by simp at hsome
  have hcond₁ : (s₁.rtts request).isEstimated = true ∨ s₁.Uncached request := by
    rw [MeasuredMap.rtts, Uncached, hrequest, ← hs₁]
    exact hcond
  refine (hnext.setEstimated (by rw [hrequest]; simp) hcond₁).peerFound c now neighbor (some sender) ?_
  intro r hr
  rw [Option.mem_some_iff] at hr
  subst hr
  refine ⟨?_, fun hfirst => absurd hfirst Bool.false_ne_true⟩
  show (update s₁.requests request _ request).roundTripTime.isEstimated = true
  rw [update_self]
  rfl

theorem step_kinds (h : s.Kinds) {e : RttEvent} (hcond : s.Unshared e) (hstep : s.step c e = some s') : s'.Kinds := by
  cases e with
  | start request isUDP now =>
      rw [← Option.some.inj hstep]
      refine h.updateRequest ?_ (List.Subset.refl _) id
      show (RTT.beginTimeMeasurement _ isUDP now).isEstimated = _
      unfold RTT.beginTimeMeasurement
      split
      · rfl
      · rfl
  | receive request response now =>
      unfold step at hstep
      dsimp only at hstep
      split at hstep
      · next hnone =>
          rw [← Option.some.inj hstep]
          exact h.receive (Option.isNone_iff_eq_none.mp hnone) response now
      · simp at hstep
  | report request now =>
      unfold step at hstep
      dsimp only at hstep
      split at hstep
      · rw [← Option.some.inj hstep]
        exact h.report hcond _ _ _ now
      · simp at hstep
  | found now p referrer =>
      rw [← Option.some.inj hstep]
      exact h.peerFound c now p referrer fun r hr => absurd hr (by simp)
  | failed now p reason =>
      rw [← Option.some.inj hstep]
      exact (h.setPeerMap _).collect c

theorem Fresh.kinds (h : s.Fresh c) : s.Kinds := by
  obtain ⟨m, _, rfl⟩ := h
  exact ⟨fun _ => .nil, fun _ => .nil, fun _ _ => rfl⟩

/-- In every run in which no measurement becomes an estimate while the peer that has
    responded has it in its cache, measurements and estimates are not mixed. -/
theorem unmixed_of_unshared (h : Reached (step c) Unshared (Fresh c) s) : s.Unmixed :=
  (h.invariant Kinds (fun _ hfresh => hfresh.kinds) fun _ _ _ hkinds hcond hstep =>
    step_kinds hkinds hcond hstep).unmixed

/-- The peer 5 is measured. The peer 7 has left the map before its neighbour is reported,
    for which its time is an estimate. -/
theorem unmixed_three_peers :
    ∃ s, Reached (step (PeerMap.sized 8)) Unshared (Fresh (PeerMap.sized 8)) s ∧ s.rttVerified 5 = [⟨0, true⟩] ∧
      s.rttOverflow 6 = [⟨1, false⟩] ∧ s.Unmixed := by
  let c := PeerMap.sized 8
  let s₀ : MeasuredMap := { peerMap := PeerMap.fresh c }
  let events : List RttEvent :=
    [.start 0 true 1000, .receive 0 ⟨{ peerId := 5 }, true, true, []⟩ 1030,
      .start 1 true 2000, .receive 1 ⟨{ peerId := 7 }, true, true, [{ peerId := 6 }]⟩ 2040,
      .failed 2050 { peerId := 7 } .SHUTDOWN, .report 1 2060]
  have hstart : Reached (step c) Unshared (Fresh c) s₀ := .start ⟨_, PeerMap.create_sized 8 (by decide), rfl⟩
  have hsome : (replay (step c) Unshared events s₀).map (fun s => (s.rttVerified 5, s.rttOverflow 6)) =
      some ([⟨0, true⟩], [⟨1, false⟩]) := by decide +kernel
  obtain ⟨s, hs, heq⟩ := Option.map_eq_some_iff.mp hsome
  simp only [Prod.mk.injEq] at heq
  exact ⟨s, hstart.replay events hs, heq.1, heq.2, unmixed_of_unshared (hstart.replay events hs)⟩

/-- The peer 5 is measured twice, and reports a neighbour the second time. The second
    measurement becomes an estimate where it is, beside the first one. -/
theorem not_unmixed_neighbor :
    ¬ ∀ c s, Reached (step c) (fun _ _ => True) (Fresh c) s → s.Unmixed := by
  intro hall
  let c := PeerMap.sized 8
  let s₀ : MeasuredMap := { peerMap := PeerMap.fresh c }
  let events : List RttEvent :=
    [.start 0 true 1000, .receive 0 ⟨{ peerId := 5 }, true, true, []⟩ 1030,
      .start 1 true 2000, .receive 1 ⟨{ peerId := 5 }, true, true, [{ peerId := 6 }]⟩ 2040, .report 1 2060]
  have hstart : Reached (step c) (fun _ _ => True) (Fresh c) s₀ := .start ⟨_, PeerMap.create_sized 8 (by decide), rfl⟩
  have hsome : (replay (step c) (fun _ _ => True) events s₀).map
      (fun s => (s.rttVerified 5, (s.rtts 0).isEstimated, (s.rtts 1).isEstimated)) =
      some ([⟨0, true⟩, ⟨1, true⟩], false, true) := by decide +kernel
  obtain ⟨s, hs, heq⟩ := Option.map_eq_some_iff.mp hsome
  simp only [Prod.mk.injEq] at heq
  have hmeasured := (hall c s (hstart.replay events hs) _ ⟨5, .inl rfl⟩).2.2 ⟨1, true⟩ (by rw [heq.1]; simp) rfl
  rw [heq.2.2] at hmeasured
  exact absurd hmeasured (by decide)

end MeasuredMap

end TomP2P
