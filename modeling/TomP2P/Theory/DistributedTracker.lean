import TomP2P.Core.DistributedTracker
import TomP2P.Foundation.Runs
import TomP2P.Theory.PeerSet
import TomP2P.Theory.Rounds

/-!
# Asking No Tracker Twice

A tracker is asked again only if it has more to tell, and what counts as a success is a
tracker that has the entry. Neither is kept by the code in general. The peers that a
tracker names are first compared with those that are known, and then all of them are put
into the second queue anyway; so a tracker that was asked is asked again as soon as another
one names it. And each success is counted, also the second one of the same tracker.

Both hold as long as no answer names a peer that is known, and, if an entry is to be
stored, no tracker succeeds twice. The second queue then has only peers that were not
asked, and a peer of the first queue that was asked has been put back after its last
answer.

## Main definitions

* `DistributedTracker.Promised`: What is asked of every state.
* `DistributedTracker.fresh`: The condition on an answer.
* `DistributedTracker.Keeps`: What such answers keep.

## Theorems

* `DistributedTracker.told_accept`: What an answer does to the queues.
* `DistributedTracker.Keeps.ask`, `DistributedTracker.Keeps.react`: The two events that
  matter.
* `DistributedTracker.promised_of_fresh`: The runs whose answers meet the condition.
-/

namespace TomP2P

open FutureResponse Rounds

/-- The ids of the addresses in a set. -/
def AddressSet.ids (s : AddressSet) : List Number160 := s.entries.map fun e => e.1.peerId

namespace DistributedTracker

variable {location stableRandom : Number160}

/-- The tracker has replied that it has more to tell. -/
def TellsMore (f : FutureResponse PeerAddress TrackerAnswer) : Prop :=
  ∃ answer, f.outcome = some (some answer) ∧ answer.type = .PARTIALLY_OK

/-- The tracker has replied that it has the entry. -/
def HasStored (f : FutureResponse PeerAddress TrackerAnswer) : Prop :=
  ∃ answer, f.outcome = some (some answer) ∧ (answer.type = .OK ∨ answer.type = .PARTIALLY_OK)

/-- A tracker is asked again only after it has replied that it has more to tell, and the
    successes that end the storing of an entry are those of as many trackers. -/
structure Promised (c : TrackerConfiguration) (isGet : Bool)
    (s : Rounds (TrackerRequests location stableRandom) PeerAddress TrackerAnswer) : Prop where
  again : ∀ (i j : Nat) f g, i < j → s.requests[i]? = some f → s.requests[j]? = some g →
    f.peer.peerId = g.peer.peerId → TellsMore f
  stored : isGet = false → s.control = .ended → c.atLeastSuccessfulRequests ≤ s.client.successfulRequests →
    ∃ ids : List Number160, ids.Nodup ∧ c.atLeastSuccessfulRequests ≤ ids.length ∧
      ∀ id ∈ ids, ∃ f ∈ s.requests, f.peer.peerId = id ∧ HasStored f

/-- No peer that is named was asked or is in the first queue. -/
def names (l : TrackerRequests location stableRandom) (newDataMap : TrackerData) : Bool :=
  newDataMap.peers.all fun p => decide (p.peerId ∉ l.alreadyAsked.ids) && !l.queueToAsk.contains p

/-- The answer that ends a round names no peer that is known, and is no second success of
    a tracker if an entry is to be stored. -/
def fresh (isGet : Bool) (s : Rounds (TrackerRequests location stableRandom) PeerAddress TrackerAnswer) :
    Event TrackerAnswer → Bool
  | .go _ _ =>
      match s.control, s.completed.getLast? with
      | .react, some ⟨recipient, some (some answer)⟩ =>
          answer.trackerData.all (names s.client) &&
            (isGet || decide (answer.type = .DENIED) || decide (answer.type ≠ .NOT_FOUND) &&
              decide (recipient.peerId ∉ s.client.successAsked.ids))
      | _, _ => true
  | _ => true

/-! ### What an answer does -/

theorem mem_ids_addAll {id : Number160} (ps : List PeerAddress) (queue : PeerSet stableRandom)
    (h : id ∈ (ps.foldl PeerSet.add queue).ids) : id ∈ queue.ids ∨ ∃ p ∈ ps, p.peerId = id := by
  induction ps generalizing queue with
  | nil => exact .inl h
  | cons p ps ih =>
      rw [List.foldl_cons] at h
      rcases ih _ h with h | ⟨q, hq, hid⟩
      · rcases PeerSet.mem_ids_add.mp h with rfl | h
        · exact .inr ⟨p, List.mem_cons_self, rfl⟩
        · exact .inl h
      · exact .inr ⟨q, List.mem_cons_of_mem _ hq, hid⟩

/-- How the queues and the successes are after an answer. -/
structure Told (l l' : TrackerRequests location stableRandom) (recipient : PeerAddress) (answer : TrackerAnswer) :
    Prop where
  asked : l'.alreadyAsked = l.alreadyAsked
  queue : ∀ id ∈ l'.queueToAsk.ids, id ∈ l.queueToAsk.ids ∨
    answer.type = .PARTIALLY_OK ∧ id = recipient.peerId
  secondary : ∀ id ∈ l'.secondaryQueue.ids, id ∈ l.secondaryQueue.ids ∨
    ∃ newDataMap, answer.trackerData = some newDataMap ∧ ∃ p ∈ newDataMap.peers, p.peerId = id
  success : answer.type ≠ .DENIED → l'.successAsked = l.successAsked.add recipient ∧
    l'.successfulRequests = l.successfulRequests + 1
  full : answer.type = .DENIED → l'.successAsked = l.successAsked ∧
    l'.successfulRequests = l.successfulRequests

theorem mem_secondary_learn {l : TrackerRequests location stableRandom} {recipient : PeerAddress}
    {newDataMap : TrackerData} {id : Number160} (h : id ∈ (learn l recipient newDataMap).secondaryQueue.ids) :
    id ∈ l.secondaryQueue.ids ∨ ∃ p ∈ newDataMap.peers, p.peerId = id := by
  rcases mem_ids_addAll _ _ h with h | h
  · rcases mem_ids_addAll _ _ h with h | ⟨p, hp, hid⟩
    · exact .inl h
    · exact .inr ⟨p, (List.mem_filter.mp hp).1, hid⟩
  · exact .inr h

theorem told_hear (l : TrackerRequests location stableRandom) (recipient : PeerAddress) (answer : TrackerAnswer) :
    Told l (hear l recipient answer) recipient answer := by
  unfold hear
  by_cases hfull : answer.type = .DENIED
  · simp only [if_pos hfull]
    cases hdata : answer.trackerData with
    | none =>
        exact ⟨rfl, fun id hid => .inl hid, fun id hid => .inl hid, fun hne => absurd hfull hne,
          fun _ => ⟨rfl, rfl⟩⟩
    | some newDataMap =>
        refine ⟨rfl, fun id hid => .inl hid, fun id hid => ?_, fun hne => absurd hfull hne, fun _ => ⟨rfl, rfl⟩⟩
        exact (mem_secondary_learn hid).imp_right fun hnew => ⟨newDataMap, hdata, hnew⟩
  · simp only [if_neg hfull]
    cases hdata : answer.trackerData with
    | none =>
        exact ⟨rfl, fun id hid => .inl hid, fun id hid => .inl hid, fun _ => ⟨rfl, rfl⟩,
          fun heq => absurd heq hfull⟩
    | some newDataMap =>
        refine ⟨rfl, fun id hid => .inl hid, fun id hid => ?_, fun _ => ⟨rfl, rfl⟩, fun heq => absurd heq hfull⟩
        exact (mem_secondary_learn hid).imp_right fun hnew => ⟨newDataMap, hdata, hnew⟩

theorem told_accept (c : TrackerConfiguration) (isGet : Bool) (l : TrackerRequests location stableRandom)
    (recipient : PeerAddress) (answer : TrackerAnswer) :
    Told l (accept c isGet l recipient answer).2 recipient answer := by
  have htold := told_hear l recipient answer
  unfold accept
  by_cases hfinished : evaluate c isGet (hear l recipient answer) = true
  · simp only [if_pos hfinished]
    exact htold
  · simp only [if_neg hfinished]
    cases htype : answer.type with
    | OK => exact htold
    | NOT_FOUND => exact htold
    | DENIED => exact ⟨htold.asked, htold.queue, htold.secondary, htold.success, htold.full⟩
    | PARTIALLY_OK =>
        refine ⟨htold.asked, fun id hid => ?_, htold.secondary, htold.success, htold.full⟩
        rcases PeerSet.mem_ids_add.mp hid with hnew | hold
        · exact .inr ⟨htype, hnew⟩
        · exact htold.queue id hold

/-- What does not touch the queues and the successes. -/
structure Alike (l l' : TrackerRequests location stableRandom) : Prop where
  asked : l'.alreadyAsked = l.alreadyAsked
  queue : l'.queueToAsk = l.queueToAsk
  secondary : l'.secondaryQueue = l.secondaryQueue
  success : l'.successAsked = l.successAsked
  requests : l'.successfulRequests = l.successfulRequests

theorem alike_conclude (finished : Bool) (l : TrackerRequests location stableRandom) :
    Alike l (if finished then conclude l else l) := by
  cases finished with
  | true | false => exact ⟨rfl, rfl, rfl, rfl, rfl⟩

theorem Told.alike {l l' l'' : TrackerRequests location stableRandom} {recipient : PeerAddress}
    {answer : TrackerAnswer} (h : Told l l' recipient answer) (halike : Alike l' l'') :
    Told l l'' recipient answer where
  asked := halike.asked.trans h.asked
  queue := by
    rw [halike.queue]
    exact h.queue
  secondary := by
    rw [halike.secondary]
    exact h.secondary
  success := by
    rw [halike.success, halike.requests]
    exact h.success
  full := by
    rw [halike.success, halike.requests]
    exact h.full

/-- A round ends with an answer, or with nothing for the queues. -/
theorem operationComplete_cases (c : TrackerConfiguration) (isGet : Bool)
    (l : TrackerRequests location stableRandom) (active : Nat) (future : FutureForkJoin)
    (completed : List (FutureResponse PeerAddress TrackerAnswer)) :
    Alike l (operationComplete c isGet l active future completed).2 ∨
      ∃ recipient answer, completed.getLast? = some ⟨recipient, some (some answer)⟩ ∧
        Told l (operationComplete c isGet l active future completed).2 recipient answer := by
  unfold operationComplete
  dsimp only
  split
  · next recipient answer hlast =>
      split
      · refine .inr ⟨recipient, answer, hlast, ?_⟩
        have htold := told_accept c isGet { l with primaryTracker := l.primaryTracker + (c.parallel - active) }
          recipient answer
        exact Told.alike ⟨htold.asked, htold.queue, htold.secondary, htold.success, htold.full⟩ (alike_conclude _ _)
      · have halike := alike_conclude (reject c { l with primaryTracker := l.primaryTracker + (c.parallel - active) }).1
          (reject c { l with primaryTracker := l.primaryTracker + (c.parallel - active) }).2
        exact .inl ⟨halike.asked, halike.queue, halike.secondary, halike.success, halike.requests⟩
  · have halike := alike_conclude (reject c { l with primaryTracker := l.primaryTracker + (c.parallel - active) }).1
      (reject c { l with primaryTracker := l.primaryTracker + (c.parallel - active) }).2
    exact .inl ⟨halike.asked, halike.queue, halike.secondary, halike.success, halike.requests⟩

/-- The next tracker is taken out of one of the queues. -/
theorem pollNext_cases {c : TrackerConfiguration} {isGet : Bool} {l l' : TrackerRequests location stableRandom}
    {pick : Nat} {p : PeerAddress} (h : pollNext c isGet l pick = some (p, l')) :
    l'.alreadyAsked = l.alreadyAsked.add p ∧ l'.successAsked = l.successAsked ∧
      l'.successfulRequests = l.successfulRequests ∧
      (p ∈ l.queueToAsk.toList ∧ l'.queueToAsk = l.queueToAsk.remove p ∧ l'.secondaryQueue = l.secondaryQueue ∨
        p ∈ l.secondaryQueue.toList ∧ l'.secondaryQueue = l.secondaryQueue.remove p ∧
          l'.queueToAsk = l.queueToAsk) := by
  have hpoll {loc : Number160} {queue queue' : PeerSet loc} {next : PeerAddress}
      (hp : poll isGet queue pick = some (next, queue')) : next ∈ queue.toList ∧ queue' = queue.remove next := by
    unfold poll at hp
    cases isGet with
    | true => exact PeerSet.mem_pollAt hp
    | false => exact PeerSet.mem_pollFirst hp
  unfold pollNext at h
  dsimp only at h
  split at h
  · next next queue' hprimary =>
      split at hprimary
      · obtain ⟨hmem, hqueue⟩ := hpoll hprimary
        cases h
        exact ⟨rfl, rfl, rfl, .inl ⟨hmem, hqueue, rfl⟩⟩
      · cases hprimary
  · split at h
    · next next queue' hsecondary =>
        obtain ⟨hmem, hqueue⟩ := hpoll hsecondary
        cases h
        exact ⟨rfl, rfl, rfl, .inr ⟨hmem, hqueue, rfl⟩⟩
    · cases h

/-! ### What is kept -/

/-- The requests that an earlier round has evaluated, or the last one if the slots are being
    filled. -/
def reacted (s : Rounds (TrackerRequests location stableRandom) PeerAddress TrackerAnswer) : List Nat :=
  match s.position with
  | none => s.evaluated
  | some _ => s.past

/-- The second queue has only peers that were not asked. A peer that was asked and is in
    the first queue again has replied each time that it has more to tell, and so has one
    that was asked several times, except for the last time. The successes are those of
    distinct trackers. -/
structure Keeps (c : TrackerConfiguration) (isGet : Bool)
    (s : Rounds (TrackerRequests location stableRandom) PeerAddress TrackerAnswer) : Prop where
  width : s.slots.length = c.parallel
  asked : ∀ id, id ∈ s.client.alreadyAsked.ids ↔ ∃ f ∈ s.requests, f.peer.peerId = id
  apart : ∀ id ∈ s.client.queueToAsk.ids, id ∉ s.client.secondaryQueue.ids
  unasked : ∀ id ∈ s.client.secondaryQueue.ids, id ∉ s.client.alreadyAsked.ids
  requeued : ∀ id ∈ s.client.queueToAsk.ids, ∀ (r : Nat) f, s.requests[r]? = some f → f.peer.peerId = id →
    r ∈ reacted s ∧ TellsMore f
  again : ∀ (i j : Nat) f g, i < j → s.requests[i]? = some f → s.requests[j]? = some g →
    f.peer.peerId = g.peer.peerId → i ∈ reacted s ∧ TellsMore f
  successes : isGet = false → s.client.successfulRequests = s.client.successAsked.ids.length ∧
    s.client.successAsked.ids.Nodup ∧ ∀ id ∈ s.client.successAsked.ids, ∃ f ∈ s.requests, f.peer.peerId = id ∧ HasStored f

variable {c : TrackerConfiguration} {isGet : Bool}
  {s s' : Rounds (TrackerRequests location stableRandom) PeerAddress TrackerAnswer}

theorem Keeps.promised (h : Keeps c isGet s) : Promised c isGet s where
  again i j f g hij hf hg hid := (h.again i j f g hij hf hg hid).2
  stored hadd _ hreached := by
    obtain ⟨hcount, hnodup, hstored⟩ := h.successes hadd
    exact ⟨_, hnodup, hcount ▸ hreached, hstored⟩

theorem Keeps.fits (h : Keeps c isGet s) : Fits (loopRec c isGet) s where
  width _ _ _ := Nat.le_of_eq h.width.symm
  rest i active _ hi j r hij hslot := by
    have hlt := (List.getElem?_eq_some_iff.mp hslot).1
    have hwidth := h.width
    have hslots : c.parallel ≤ i := hi
    omega
  enough _ _ _ _ := Int.one_pos

-- What a tracker has replied stays, and so does whom the requests went to.
theorem Keeps.quiet (h : Keeps c isGet s) (hquiet : Quiet s s') (hreacted : reacted s' = reacted s) :
    Keeps c isGet s' := by
  -- Requests before and after correspond by number, and a completed one is the same.
  have hback (r : Nat) (f : FutureResponse PeerAddress TrackerAnswer) (hf : s'.requests[r]? = some f) :
      ∃ g, s.requests[r]? = some g ∧ g.peer = f.peer ∧ (g.isCompleted = true → f = g) := by
    have hpeer := congrArg (fun ps => ps[r]?) hquiet.asked
    simp only [Rounds.asked, List.getElem?_map, hf, Option.map_some] at hpeer
    obtain ⟨g, hg, hsame⟩ := Option.map_eq_some_iff.mp hpeer.symm
    obtain ⟨f', hf', hdone⟩ := hquiet.later r g hg
    rw [hf] at hf'
    cases hf'
    exact ⟨g, hg, hsame, hdone⟩
  have hforth (g : FutureResponse PeerAddress TrackerAnswer) (hg : g ∈ s.requests) :
      ∃ f ∈ s'.requests, f.peer = g.peer ∧ (g.isCompleted = true → f = g) := by
    obtain ⟨r, hr⟩ := List.mem_iff_getElem?.mp hg
    obtain ⟨f, hf, hdone⟩ := hquiet.later r g hr
    obtain ⟨g', hg', hpeer, _⟩ := hback r f hf
    rw [hr] at hg'
    cases hg'
    exact ⟨f, List.mem_of_getElem? hf, hpeer.symm, hdone⟩
  -- What a completed answer tells does not change any more.
  have htells (g f : FutureResponse PeerAddress TrackerAnswer) (hdone : g.isCompleted = true → f = g)
      (hg : TellsMore g) : TellsMore f := by
    have hcompleted : g.isCompleted = true := by
      obtain ⟨answer, houtcome, _⟩ := hg
      rw [FutureResponse.isCompleted, houtcome, Option.isSome_some]
    rw [hdone hcompleted]
    exact hg
  refine ⟨hquiet.width.trans h.width, ?_, ?_, ?_, ?_, ?_, ?_⟩
  · intro id
    rw [hquiet.client, h.asked id]
    constructor
    · rintro ⟨g, hg, hid⟩
      obtain ⟨f, hf, hpeer, _⟩ := hforth g hg
      exact ⟨f, hf, by rw [hpeer, hid]⟩
    · rintro ⟨f, hf, hid⟩
      obtain ⟨r, hr⟩ := List.mem_iff_getElem?.mp hf
      obtain ⟨g, hg, hpeer, _⟩ := hback r f hr
      exact ⟨g, List.mem_of_getElem? hg, by rw [hpeer, hid]⟩
  · rw [hquiet.client]
    exact h.apart
  · rw [hquiet.client]
    exact h.unasked
  · rw [hquiet.client, hreacted]
    intro id hid r f hf hpeer
    obtain ⟨g, hg, hsame, hdone⟩ := hback r f hf
    obtain ⟨hr, hmore⟩ := h.requeued id hid r g hg (by rw [hsame, hpeer])
    exact ⟨hr, htells g f hdone hmore⟩
  · rw [hreacted]
    intro i j f g hij hf hg hid
    obtain ⟨f₀, hf₀, hsame, hdone⟩ := hback i f hf
    obtain ⟨g₀, hg₀, hsame', _⟩ := hback j g hg
    obtain ⟨hr, hmore⟩ := h.again i j f₀ g₀ hij hf₀ hg₀ (by rw [hsame, hsame', hid])
    exact ⟨hr, htells f₀ f hdone hmore⟩
  · rw [hquiet.client]
    intro hadd
    obtain ⟨hcount, hnodup, hstored⟩ := h.successes hadd
    refine ⟨hcount, hnodup, fun id hid => ?_⟩
    obtain ⟨g, hg, hpeer, hstore⟩ := hstored id hid
    obtain ⟨f, hf, hsame, hdone⟩ := hforth g hg
    have hcompleted : g.isCompleted = true := by
      obtain ⟨answer, houtcome, _⟩ := hstore
      rw [FutureResponse.isCompleted, houtcome, Option.isSome_some]
    have heq := hdone hcompleted
    exact ⟨f, hf, by rw [hsame, hpeer], by rw [heq]; exact hstore⟩

theorem reacted_fill {i active : Nat} (hcontrol : s.control = .fill i active) : reacted s = s.evaluated := by
  rw [reacted, position, hcontrol]

/-- An address that is new to the set comes last. -/
theorem ids_add (asked : AddressSet) (p : PeerAddress) :
    p.peerId ∈ asked.ids ∧ (asked.add p).ids = asked.ids ∨ (asked.add p).ids = asked.ids ++ [p.peerId] := by
  unfold AddressSet.add
  by_cases hp : asked.contains p.key = true
  · obtain ⟨v, hv⟩ := (HashedMap.contains_iff asked p.key).mp hp
    rw [if_pos hp]
    exact .inl ⟨List.mem_map.mpr ⟨_, hv, rfl⟩, rfl⟩
  · have hkey : p.key ∉ asked.entries.map Prod.fst := by
      rwa [HashedMap.mem_keys_iff, ← HashedMap.contains_iff]
    rw [if_neg hp, HashedMap.put, dif_neg hkey]
    exact .inr List.map_append

theorem mem_ids_add (asked : AddressSet) (p : PeerAddress) (x : Number160) :
    x ∈ (asked.add p).ids ↔ x = p.peerId ∨ x ∈ asked.ids := by
  rcases ids_add asked p with ⟨hin, heq⟩ | heq
  · rw [heq]
    exact ⟨.inr, fun h => h.elim (fun hx => hx ▸ hin) id⟩
  · rw [heq, List.mem_append, List.mem_singleton, or_comm]

/-- A tracker is asked: it was not asked before, or has more to tell. -/
theorem Keeps.ask (h : Keeps c isGet s) {i active pick : Nat} {peer : PeerAddress}
    {client : TrackerRequests location stableRandom} (outcome : Option (Option TrackerAnswer))
    (hcontrol : s.control = .fill i active) (hnext : pollNext c isGet s.client pick = some (peer, client)) :
    Keeps c isGet { s with
      client := client
      requests := s.requests ++ [⟨peer, outcome⟩]
      slots := s.slots.set i (some s.requests.length)
      control := .fill (i + 1) (active + 1) } := by
  obtain ⟨hasked, hsuccess, hcount, hqueues⟩ := pollNext_cases hnext
  have hold (r : Nat) (f : FutureResponse PeerAddress TrackerAnswer)
      (hf : (s.requests ++ [⟨peer, outcome⟩])[r]? = some f) :
      s.requests[r]? = some f ∨ r = s.requests.length ∧ f = ⟨peer, outcome⟩ := by
    have hlt := (List.getElem?_eq_some_iff.mp hf).1
    rw [List.length_append, List.length_singleton] at hlt
    by_cases hr : r < s.requests.length
    · rw [List.getElem?_append_left hr] at hf
      exact .inl hf
    · have heq : r = s.requests.length := by omega
      rw [heq, List.getElem?_append_right (Nat.le_refl _), Nat.sub_self] at hf
      exact .inr ⟨heq, (Option.some.inj hf).symm⟩
  -- Whom the request goes to is in no queue any more.
  have hgone : peer.peerId ∉ client.queueToAsk.ids ∧ peer.peerId ∉ client.secondaryQueue.ids := by
    rcases hqueues with ⟨hmem, hqueue, hsecondary⟩ | ⟨hmem, hsecondary, hqueue⟩
    · rw [hqueue, hsecondary]
      exact ⟨fun hin => (PeerSet.mem_ids_remove.mp hin).2 rfl, h.apart _ (PeerSet.mem_ids_of_mem hmem)⟩
    · rw [hqueue, hsecondary]
      exact ⟨fun hin => h.apart _ hin (PeerSet.mem_ids_of_mem hmem), fun hin => (PeerSet.mem_ids_remove.mp hin).2 rfl⟩
  have hfewer (id : Number160) : (id ∈ client.queueToAsk.ids → id ∈ s.client.queueToAsk.ids) ∧
      (id ∈ client.secondaryQueue.ids → id ∈ s.client.secondaryQueue.ids) := by
    rcases hqueues with ⟨_, hqueue, hsecondary⟩ | ⟨_, hsecondary, hqueue⟩
    · rw [hqueue, hsecondary]
      exact ⟨fun hin => (PeerSet.mem_ids_remove.mp hin).1, fun hin => hin⟩
    · rw [hqueue, hsecondary]
      exact ⟨fun hin => hin, fun hin => (PeerSet.mem_ids_remove.mp hin).1⟩
  have hreacted : reacted { s with
      client := client
      requests := s.requests ++ [⟨peer, outcome⟩]
      slots := s.slots.set i (some s.requests.length)
      control := .fill (i + 1) (active + 1) } = reacted s := by
    rw [reacted_fill hcontrol, reacted_fill rfl]
    rfl
  -- A peer of the second queue was not asked, and one of the first that was is done.
  have hdone (r : Nat) (f : FutureResponse PeerAddress TrackerAnswer) (hf : s.requests[r]? = some f)
      (hid : f.peer.peerId = peer.peerId) : r ∈ reacted s ∧ TellsMore f := by
    rcases hqueues with ⟨hmem, _, _⟩ | ⟨hmem, _, _⟩
    · exact h.requeued _ (PeerSet.mem_ids_of_mem hmem) r f hf hid
    · have hwas := (h.asked peer.peerId).mpr ⟨f, List.mem_of_getElem? hf, hid⟩
      exact absurd hwas (h.unasked _ (PeerSet.mem_ids_of_mem hmem))
  refine ⟨?_, ?_, ?_, ?_, ?_, ?_, ?_⟩
  · rw [List.length_set]
    exact h.width
  · intro id
    rw [hasked, mem_ids_add, h.asked id]
    constructor
    · rintro (rfl | ⟨f, hf, hid⟩)
      · exact ⟨⟨peer, outcome⟩, List.mem_append_right _ (List.mem_singleton.mpr rfl), rfl⟩
      · exact ⟨f, List.mem_append_left _ hf, hid⟩
    · rintro ⟨f, hf, hid⟩
      rcases List.mem_append.mp hf with hf | hf
      · exact .inr ⟨f, hf, hid⟩
      · rw [List.mem_singleton.mp hf] at hid
        exact .inl hid.symm
  · intro id hin hsecondary
    exact h.apart id ((hfewer id).1 hin) ((hfewer id).2 hsecondary)
  · intro id hin hwas
    rw [hasked, mem_ids_add] at hwas
    rcases hwas with rfl | hwas
    · exact hgone.2 hin
    · exact h.unasked id ((hfewer id).2 hin) hwas
  · intro id hin r f hf hid
    rw [hreacted]
    rcases hold r f hf with hf | ⟨_, rfl⟩
    · exact h.requeued id ((hfewer id).1 hin) r f hf hid
    · rw [← hid] at hin
      exact absurd hin hgone.1
  · intro j k f g hjk hf hg hid
    rw [hreacted]
    rcases hold j f hf with hf | ⟨hj, _⟩
    · rcases hold k g hg with hg | ⟨_, rfl⟩
      · exact h.again j k f g hjk hf hg hid
      · exact hdone j f hf hid
    · have hlt := (List.getElem?_eq_some_iff.mp hg).1
      rw [List.length_append, List.length_singleton] at hlt
      omega
  · intro hadd
    rw [hsuccess, hcount]
    obtain ⟨hsize, hnodup, hstored⟩ := h.successes hadd
    refine ⟨hsize, hnodup, fun id hid => ?_⟩
    obtain ⟨f, hf, hpeer, hstore⟩ := hstored id hid
    exact ⟨f, List.mem_append_left _ hf, hpeer, hstore⟩

theorem reacted_react (hcontrol : s.control = .react) : reacted s = s.past := by
  rw [reacted, position, hcontrol]

/-- What the condition says of the answer that ends a round. -/
theorem fresh_react {pick : Nat} {outcome : Option (Option TrackerAnswer)}
    (hfresh : fresh isGet s (.go pick outcome) = true) (hcontrol : s.control = .react) {recipient : PeerAddress}
    {answer : TrackerAnswer} (hlast : s.completed.getLast? = some ⟨recipient, some (some answer)⟩) :
    (∀ newDataMap, answer.trackerData = some newDataMap → ∀ p ∈ newDataMap.peers,
      p.peerId ∉ s.client.alreadyAsked.ids ∧ p.peerId ∉ s.client.queueToAsk.ids) ∧
    (isGet = false → answer.type ≠ .DENIED → answer.type ≠ .NOT_FOUND ∧
      recipient.peerId ∉ s.client.successAsked.ids) := by
  simp only [fresh, hcontrol, hlast, Bool.and_eq_true, Bool.or_eq_true, decide_eq_true_eq] at hfresh
  obtain ⟨hnames, hsuccess⟩ := hfresh
  constructor
  · intro newDataMap hdata p hp
    rw [hdata, Option.all_some, names, List.all_eq_true] at hnames
    have hunknown := hnames p hp
    rw [Bool.and_eq_true, decide_eq_true_eq, Bool.not_eq_true'] at hunknown
    refine ⟨hunknown.1, fun hin => ?_⟩
    rw [← PeerSet.contains_iff, hunknown.2] at hin
    cases hin
  · intro hadd hnotfull
    rcases hsuccess with (hget | hfull) | hnew
    · rw [hadd] at hget
      cases hget
    · exact absurd hfull hnotfull
    · exact hnew

-- More requests can only be evaluated.
theorem Keeps.alike (h : Keeps c isGet s) {l : TrackerRequests location stableRandom} (halike : Alike s.client l)
    {control : Control} (hpast : ∀ r ∈ reacted s, r ∈ reacted { s with client := l, control := control }) :
    Keeps c isGet { s with client := l, control := control } := by
  refine ⟨h.width, ?_, ?_, ?_, ?_, ?_, ?_⟩
  · rw [halike.asked]
    exact h.asked
  · rw [halike.queue, halike.secondary]
    exact h.apart
  · rw [halike.asked, halike.secondary]
    exact h.unasked
  · rw [halike.queue]
    intro id hid r f hf hpeer
    exact (h.requeued id hid r f hf hpeer).imp_left (hpast r)
  · intro i j f g hij hf hg hid
    exact (h.again i j f g hij hf hg hid).imp_left (hpast i)
  · rw [halike.success, halike.requests]
    exact h.successes

/-- A round ends with an answer that meets the condition. -/
theorem Keeps.react (h : Keeps c isGet s) (hround : Round s) (hcontrol : s.control = .react) {pick : Nat}
    {outcome : Option (Option TrackerAnswer)} (hfresh : fresh isGet s (.go pick outcome) = true)
    (control : Control) (hover : control = .ended ∨ control = .fill 0 0) :
    Keeps c isGet { s with
      client := (operationComplete c isGet s.client s.active s.join s.completed).2
      control := control } := by
  have hreacted : reacted { s with
      client := (operationComplete c isGet s.client s.active s.join s.completed).2
      control := control } = s.evaluated := by
    rcases hover with rfl | rfl
    · rfl
    · rfl
  have hpast : ∀ r ∈ reacted s, r ∈ s.evaluated := by
    rw [reacted_react hcontrol]
    exact fun r hr => List.mem_append_left _ hr
  rcases operationComplete_cases c isGet s.client s.active s.join s.completed with
    halike | ⟨recipient, answer, hlast, htold⟩
  · refine h.alike halike ?_
    rw [hreacted]
    exact hpast
  · obtain ⟨hunknown, hfirst⟩ := fresh_react hfresh hcontrol hlast
    -- The answer is that of a request of this round.
    obtain ⟨r₀, hr₀, hanswer⟩ := List.mem_filterMap.mp (List.mem_of_getLast? hlast)
    have hrecipient := List.mem_of_getElem? hanswer
    have hwas := (h.asked recipient.peerId).mpr ⟨_, hrecipient, rfl⟩
    have hnodup := hround.sound.nodup
    refine ⟨h.width, ?_, ?_, ?_, ?_, ?_, ?_⟩
    · rw [htold.asked]
      exact h.asked
    · intro id hin hsecondary
      rcases htold.secondary id hsecondary with hsecondary | ⟨newDataMap, hdata, p, hp, hid⟩
      · rcases htold.queue id hin with hin | ⟨_, rfl⟩
        · exact h.apart id hin hsecondary
        · exact h.unasked _ hsecondary hwas
      · obtain ⟨hnotasked, hnotqueued⟩ := hunknown newDataMap hdata p hp
        rw [hid] at hnotasked hnotqueued
        rcases htold.queue id hin with hin | ⟨_, rfl⟩
        · exact hnotqueued hin
        · exact hnotasked hwas
    · rw [htold.asked]
      intro id hsecondary
      rcases htold.secondary id hsecondary with hsecondary | ⟨newDataMap, hdata, p, hp, hid⟩
      · exact h.unasked id hsecondary
      · rw [← hid]
        exact (hunknown newDataMap hdata p hp).1
    · rw [hreacted]
      intro id hid r f hf hpeer
      rcases htold.queue id hid with hold | ⟨htype, rfl⟩
      · exact (h.requeued id hold r f hf hpeer).imp_left (hpast r)
      -- The tracker is put back. Its other requests are older and have been evaluated.
      · rcases Nat.lt_trichotomy r r₀ with hlt | rfl | hlt
        · exact (h.again r r₀ f _ hlt hf hanswer hpeer).imp_left (hpast r)
        · rw [hf] at hanswer
          cases hanswer
          exact ⟨List.mem_append_right _ hr₀, answer, rfl, htype⟩
        · have hdone := (h.again r₀ r _ f hlt hanswer hf hpeer.symm).1
          rw [reacted_react hcontrol] at hdone
          exact absurd hr₀ (List.disjoint_of_nodup_append hnodup hdone)
    · rw [hreacted]
      intro i j f g hij hf hg hid
      exact (h.again i j f g hij hf hg hid).imp_left (hpast i)
    · intro hadd
      obtain ⟨hcount, hnodup, hstored⟩ := h.successes hadd
      by_cases hfull : answer.type = .DENIED
      · obtain ⟨hsame, hrequests⟩ := htold.full hfull
        rw [hsame, hrequests]
        exact ⟨hcount, hnodup, hstored⟩
      · obtain ⟨hsame, hrequests⟩ := htold.success hfull
        obtain ⟨hfound, hnew⟩ := hfirst hadd hfull
        have hids := (ids_add s.client.successAsked recipient).resolve_left fun hin => hnew hin.1
        rw [hsame, hrequests, hids, hcount]
        refine ⟨by rw [List.length_append, List.length_singleton], ?_, fun id hid => ?_⟩
        · rw [← List.concat_eq_append]
          exact hnodup.concat hnew
        rcases List.mem_append.mp hid with hold | hid
        · exact hstored id hold
        · cases List.mem_singleton.mp hid
          refine ⟨_, hrecipient, rfl, answer, rfl, ?_⟩
          cases htype : answer.type with
          | OK => exact .inl rfl
          | PARTIALLY_OK => exact .inr rfl
          | NOT_FOUND => exact absurd htype hfound
          | DENIED => exact absurd htype hfull

theorem reacted_of_position (h : s.position ≠ none) : reacted s = s.past := by
  unfold reacted
  cases hpos : s.position with
  | none => exact absurd hpos h
  | some n => rfl

-- Only the thread that runs the rounds reacts.
theorem go_of_react {e : Event TrackerAnswer} (hstep : s.step (loopRec c isGet) e = some s')
    (hcontrol : s.control = .react) (hleft : s'.control ≠ .react) : ∃ pick outcome, e = .go pick outcome := by
  cases e with
  | go pick outcome => exact ⟨pick, outcome, rfl⟩
  | complete r answer =>
      simp only [Rounds.step] at hstep
      split at hstep
      · cases hstep
        exact absurd hcontrol hleft
      · cases hstep
  | notify r i =>
      simp only [Rounds.step, Rounds.evaluate] at hstep
      split at hstep
      · split at hstep
        · cases hstep
          exact absurd hcontrol hleft
        · cases hstep
          refine absurd ?_ hleft
          dsimp only
          split
          · rfl
          · exact hcontrol
      · cases hstep

theorem reacted_ended (hcontrol : s.control = .ended) : reacted s = s.evaluated := by
  rw [reacted, position, hcontrol]

theorem Keeps.finish {l : TrackerRequests location stableRandom}
    (h : Keeps c isGet { s with client := l, control := .ended }) : Keeps c isGet (finish (loopRec c isGet) s l) := by
  obtain ⟨hquiet, hcontrol, hslots, hjoin⟩ := quiet_finish (k := loopRec c isGet) s l
  refine h.quiet hquiet ?_
  rw [reacted_ended hcontrol, reacted_ended rfl, Rounds.evaluated, hjoin, hquiet.past]
  rfl

/-- What every event keeps, if the answers meet the condition. -/
theorem Keeps.step (h : Keeps c isGet s) (hround : Round s) {e : Event TrackerAnswer}
    (hfresh : fresh isGet s e = true) (hstep : s.step (loopRec c isGet) e = some s') : Keeps c isGet s' := by
  cases hround.moves h.fits hstep with
  | keep hquiet hcontrol hslots hjoin =>
      refine h.quiet hquiet ?_
      unfold reacted position Rounds.evaluated
      rw [hcontrol, hslots, hjoin, hquiet.past]
  | inner hquiet hpos hpos' henough =>
      refine h.quiet hquiet ?_
      rw [reacted_of_position hpos, reacted_of_position hpos', hquiet.past]
  | busy i active r hcontrol hi hslot heq | nobody i active pick hcontrol hi hslot hnext heq =>
      rw [heq]
      refine h.quiet ⟨rfl, rfl, Later.refl _, rfl, rfl, rfl⟩ ?_
      rw [reacted_fill hcontrol, reacted_fill rfl]
      rfl
  | ask i active pick peer client outcome hcontrol hi hslot hnext heq =>
      rw [heq]
      exact h.ask outcome hcontrol hnext
  | idle i hcontrol hi heq =>
      rw [heq]
      refine (h.alike (l := conclude s.client) ⟨rfl, rfl, rfl, rfl, rfl⟩ ?_).finish
      rw [reacted_fill hcontrol, reacted_ended rfl]
      exact fun r hr => hr
  | fork i active hcontrol hi hactive heq =>
      rw [heq]
      have hreacted : reacted (Rounds.fork (loopRec c isGet) s active) = reacted s := by
        rw [reacted_fill hcontrol]
        rfl
      refine ⟨h.width, h.asked, h.apart, h.unasked, ?_, ?_, h.successes⟩
      · rw [hreacted]
        exact h.requeued
      · rw [hreacted]
        exact h.again
  | last hcontrol hlast heq =>
      have hended : s'.control = .ended := by
        rw [heq]
        exact (quiet_finish s _).2.1
      obtain ⟨pick, outcome, rfl⟩ := go_of_react hstep hcontrol (by rw [hended]; exact nofun)
      rw [heq]
      exact (h.react hround hcontrol hfresh .ended (.inl rfl)).finish
  | again hcontrol hlast heq =>
      have hleft : s'.control ≠ .react := by
        rw [heq]
        exact nofun
      obtain ⟨pick, outcome, rfl⟩ := go_of_react hstep hcontrol hleft
      rw [heq]
      exact h.react hround hcontrol hfresh _ (.inr rfl)

theorem keeps_loop (c : TrackerConfiguration) (isGet : Bool) (queueToAsk : PeerSet location)
    (knownPeers : Option (HashedSet Number160)) :
    Keeps c isGet (loop c queueToAsk knownPeers :
      Rounds (TrackerRequests location stableRandom) PeerAddress TrackerAnswer) where
  width := List.length_replicate
  asked id := by
    constructor
    · intro h
      cases h
    · rintro ⟨f, hf, _⟩
      cases hf
  apart _ _ h := by cases h
  unasked _ h := by cases h
  requeued _ _ r f hf := by cases hf
  again i j f g _ hf := by cases hf
  successes _ := ⟨rfl, List.nodup_nil, fun _ h => by cases h⟩

/-- The rounds keep their promise as long as no answer names a peer that is known, and no
    tracker succeeds twice where an entry is to be stored. -/
theorem promised_of_fresh (c : TrackerConfiguration) (isGet : Bool) (queueToAsk : PeerSet location)
    (knownPeers : Option (HashedSet Number160))
    {s : Rounds (TrackerRequests location stableRandom) PeerAddress TrackerAnswer}
    (hreached : Reached (Rounds.step (loopRec c isGet)) (fun s e => fresh isGet s e = true)
      (fun s => s = loop c queueToAsk knownPeers) s) : Promised c isGet s := by
  have hkept : Round s ∧ Keeps c isGet s := by
    refine hreached.invariant (fun s => Round s ∧ Keeps c isGet s) ?_ ?_
    · rintro _ rfl
      exact ⟨Round.start _ _ (.inl rfl), keeps_loop c isGet queueToAsk knownPeers⟩
    · rintro s e s' ⟨hround, hkeeps⟩ hfresh hstep
      exact ⟨hround.step hkeeps.fits hstep, hkeeps.step hround hfresh hstep⟩
  exact hkept.2.promised

section Runs

def tracker (n : BitVec 32) : PeerAddress := { peerId := ⟨0, 0, 0, 0, n⟩ }

/-- One request at a time, until as many were successful. -/
def oneByOne (atLeastSuccessfulRequests : Nat) : TrackerConfiguration where
  maxFailure := 0
  parallel := 1
  atLeastSuccessfulRequests := atLeastSuccessfulRequests
  atLeastEntriesFromTrackers := 0

/-- The start with the trackers that routing has found. -/
def start (atLeastSuccessfulRequests : Nat) (ns : List (BitVec 32)) :
    Rounds (TrackerRequests .ZERO .ZERO) PeerAddress TrackerAnswer :=
  loop (oneByOne atLeastSuccessfulRequests) ((ns.map tracker).foldl PeerSet.add .empty) none

/-- A round with one slot, whose request number `r` gets the answer. -/
def round (r : Nat) (answer : TrackerAnswer) : List (Event TrackerAnswer) :=
  List.replicate 6 (.go 0 none) ++ [.complete r (some answer), .notify r 0, .go 0 none]

/-- Whether the rounds are over, the requests, and how many successes were counted. -/
def summary (s : Rounds (TrackerRequests .ZERO .ZERO) PeerAddress TrackerAnswer) :
    Bool × List (FutureResponse PeerAddress TrackerAnswer) × Nat :=
  (decide (s.control = .ended), s.requests, s.client.successfulRequests)

/-- What a tracker tells that names a third one. -/
def namingThird : TrackerData := ⟨HashedMap.empty.put (tracker 3).key (tracker 3, Data.new [] 0)⟩

/-- An entry is stored on two trackers that routing has found, and on the one that the first of them
    names. -/
theorem promised_three_trackers :
    let asked := [⟨tracker 1, some (some ⟨.OK, some namingThird⟩)⟩, ⟨tracker 2, some (some ⟨.OK, none⟩)⟩,
      ⟨tracker 3, some (some ⟨.OK, none⟩)⟩]
    ∃ s, summary s = (true, asked, 3) ∧ Promised (oneByOne 3) false s := by
  intro asked
  have hplay : (replay (Rounds.step (loopRec (oneByOne 3) false)) (fun s e => fresh false s e = true)
      (round 0 ⟨.OK, some namingThird⟩ ++ round 1 ⟨.OK, none⟩ ++ round 2 ⟨.OK, none⟩) (start 3 [1, 2])).any fun s =>
        decide (summary s = (true, asked, 3)) := by
    decide
  obtain ⟨s, hs, hsummary⟩ := (Option.any_eq_true _ _).mp hplay
  refine ⟨s, of_decide_eq_true hsummary, ?_⟩
  exact promised_of_fresh (oneByOne 3) false _ none (Reached.replay _ (.start rfl) hs)

/-- What a tracker tells that names the first one. -/
def naming : TrackerData := ⟨HashedMap.empty.put (tracker 1).key (tracker 1, Data.new [] 0)⟩

/-- The second tracker names the first one, which is asked a second time. Three successes
    are counted, of two trackers. -/
theorem not_promised_named :
    let asked := [⟨tracker 1, some (some ⟨.OK, none⟩)⟩, ⟨tracker 2, some (some ⟨.OK, some naming⟩)⟩,
      ⟨tracker 1, some (some ⟨.OK, none⟩)⟩]
    ∃ s, Reached (Rounds.step (loopRec (oneByOne 3) false)) (fun _ _ => True) (fun s => s = start 3 [1, 2]) s ∧
      summary s = (true, asked, 3) ∧ ¬ Promised (oneByOne 3) false s := by
  intro asked
  have hplay : (replay (Rounds.step (loopRec (oneByOne 3) false)) (fun _ _ => True)
      (round 0 ⟨.OK, none⟩ ++ round 1 ⟨.OK, some naming⟩ ++ round 2 ⟨.OK, none⟩) (start 3 [1, 2])).any fun s =>
        decide (summary s = (true, asked, 3)) := by
    decide
  obtain ⟨s, hs, hsummary⟩ := (Option.any_eq_true _ _).mp hplay
  have heq := of_decide_eq_true hsummary
  refine ⟨s, Reached.replay _ (.start rfl) hs, heq, ?_⟩
  intro hpromised
  have hrequests : s.requests = asked := congrArg (fun r => r.2.1) heq
  obtain ⟨answer, houtcome, htype⟩ := hpromised.again 0 2 ⟨tracker 1, some (some ⟨.OK, none⟩)⟩
    ⟨tracker 1, some (some ⟨.OK, none⟩)⟩ (by decide) (by rw [hrequests]; rfl) (by rw [hrequests]; rfl) rfl
  cases houtcome
  cases htype

end Runs

end DistributedTracker

end TomP2P
