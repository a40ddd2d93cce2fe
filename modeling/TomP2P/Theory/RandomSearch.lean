import TomP2P.Theory.SuccessBound

/-!
# The Search for Random Peers

The bootstrap searches twice, the second time for random peers. Such a search has no
location: a peer is asked for those that are farthest away from it, and the next peer
is drawn from the queue.

Whether there is a location is looked at in every round, and every request sets it to
what this one peer is asked for. So only the first round is random. The later ones ask
the closest peer of the queue, for the location that the last peer of the first round
was asked for. As no peer is asked twice this is never the right one.

The first round is the one in which nothing has been evaluated yet.

## Main definitions

* `DistributedRouting.randomRouting`: The second search of the bootstrap.
* `SeenRequest`: A request, with what is known of it at the time.
* `SeenRequest.Random`: A request as it should be.

## Theorems

* `DistributedRouting.random_iff`: The requests of a run are as they should be exactly
  if none is made after another one was evaluated.
-/

namespace TomP2P

open FutureResponse Rounds List

/-- A request for neighbours, the location it asks for, the peer at the random place of
    the queue, and the requests that had been evaluated when it was made. -/
structure SeenRequest where
  peer : PeerAddress
  locationKey : Option Number160
  drawn : Option PeerAddress
  evaluated : List Nat
  deriving DecidableEq

namespace SeenRequest

/-- The peer was drawn from the queue, and is asked for those that are farthest away
    from it. -/
def Random (r : SeenRequest) : Prop :=
  r.locationKey = some (r.peer.peerId.xor Number160.MAX_VALUE) ∧ r.drawn = some r.peer

/-- Nothing had been evaluated. -/
def First (r : SeenRequest) : Prop := r.evaluated = []

instance (r : SeenRequest) : Decidable r.Random := inferInstanceAs (Decidable (_ ∧ _))

end SeenRequest

namespace DistributedRouting

open RoutingMechanism

variable {location : Number160} {c : RoutingConfiguration} {me : PeerAddress}
  {s s' : Rounds (RoutingMechanism location) PeerAddress NeighborResponse}

/-- The second search of the bootstrap, from the peers of the first one. -/
def randomRouting (c : RoutingConfiguration) (me : PeerAddress) (peerAddresses : List PeerAddress) :
    Rounds (RoutingMechanism (searchLocation me none)) PeerAddress NeighborResponse :=
  routing { c with isBootstrap := true } me none none peerAddresses

/-- The request of an event, if it makes one. The location it asks for is the one that
    is set for it. -/
def seenRequests (s : Rounds (RoutingMechanism location) PeerAddress NeighborResponse) (e : Event NeighborResponse)
    (t : Rounds (RoutingMechanism location) PeerAddress NeighborResponse) : List SeenRequest :=
  match e with
  | .go pick _ =>
      (t.requests.drop s.requests.length).map fun f =>
        { peer := f.peer
          locationKey := t.client.locationKey
          drawn := s.client.queueToAsk.toList[pick % s.client.queueToAsk.size]?
          evaluated := s.evaluated }
  | .complete _ _ => []
  | .notify _ _ => []

/-! ### What a search knows of its location -/

/-- Nothing that is evaluated sets the location. -/
theorem evaluateSuccess_locationKey (c : RoutingConfiguration) (m : RoutingMechanism location) (p : PeerAddress)
    (d : GlobalDigest) (neighbors : List PeerAddress) (last : Bool) :
    (m.evaluateSuccess c p d neighbors last).2.locationKey = m.locationKey := by
  have hinformation (m : RoutingMechanism location) :
      (m.evaluateInformation neighbors c.maxNoNewInfo).2.locationKey = m.locationKey := by
    unfold evaluateInformation
    dsimp only
    split <;> rfl
  unfold evaluateSuccess
  dsimp only
  split
  · rfl
  · split
    · rfl
    · split
      · exact hinformation _
      · exact hinformation _

theorem evaluateRound_locationKey (c : RoutingConfiguration) (m : RoutingMechanism location) (active : Nat)
    (join : FutureForkJoin) (completed : List (FutureResponse PeerAddress NeighborResponse)) :
    (evaluateRound c m active join completed).2.locationKey = m.locationKey := by
  unfold evaluateRound
  split
  · exact evaluateSuccess_locationKey _ _ _ _ _ _
  · rfl

/-- The first round takes random peers, and the others do not. A search that has asked
    somebody has the location that is farthest away from one of them. -/
structure Drawing (s : Rounds (RoutingMechanism location) PeerAddress NeighborResponse) : Prop where
  first : ∀ i active, s.control = .fill i active → (s.client.randomSearch = true ↔ s.evaluated = [])
  key : s.control ≠ .ended → s.requests ≠ [] →
    ∃ q ∈ s.asked, s.client.locationKey = some (q.peerId.xor Number160.MAX_VALUE)

-- What was evaluated were requests.
theorem requests_ne_nil (h : Round s) (hevaluated : s.evaluated ≠ []) : s.requests ≠ [] := by
  intro hnone
  rcases exists_mem_of_ne_nil _ hevaluated with ⟨r, hr⟩
  rcases returned_iff.mp (h.sound.done r hr) with ⟨f, hf, -⟩
  rw [hnone] at hf
  cases hf

theorem Drawing.same (h : Drawing s) (hclient : s'.client = s.client) (hasked : s'.asked = s.asked)
    (hended : s'.control ≠ .ended → s.control ≠ .ended)
    (hfill : ∀ i active, s'.control = .fill i active → s'.evaluated = s.evaluated ∧ ∃ j m, s.control = .fill j m) :
    Drawing s' where
  first := by
    intro i active hcontrol
    rcases hfill i active hcontrol with ⟨hevaluated, j, m, hcontrol⟩
    rw [hclient, hevaluated]
    exact h.first j m hcontrol
  key := by
    intro hno hsome
    have hlength := length_requests hasked
    rw [hclient, hasked]
    refine h.key (hended hno) fun hnone => hsome ?_
    rw [hnone] at hlength
    exact eq_nil_of_length_eq_zero hlength

theorem Drawing.ended (hended : s'.control = .ended) : Drawing s' where
  first := fun i active hcontrol => by
    rw [hended] at hcontrol
    cases hcontrol
  key := fun hno => absurd hended hno

/-- Who is asked next, and what for. -/
theorem pollNext_key {m m' : RoutingMechanism location} {pick : Nat} {p : PeerAddress}
    (h : pollNext m pick = some (p, m')) :
    m'.randomSearch = m.randomSearch ∧
      (m.randomSearch = true → m'.locationKey = some (p.peerId.xor Number160.MAX_VALUE) ∧
        m.queueToAsk.toList[pick % m.queueToAsk.size]? = some p) ∧
      (m.randomSearch = false → m'.locationKey = m.locationKey) := by
  unfold pollNext at h
  split at h
  · cases h
  · split at h
    · cases h
    · next hpoll =>
        cases h
        refine ⟨rfl, fun hrandom => ⟨by simp [hrandom], ?_⟩, fun hno => by simp [hno]⟩
        rw [if_pos hrandom, PeerSet.pollAt, Option.map_eq_some_iff] at hpoll
        rcases hpoll with ⟨q, hq, heq⟩
        cases heq
        exact hq

/-- What an event keeps. -/
theorem Drawing.step (h : Drawing s) (hkeeps : Keeps c me s) (hlasts : Lasts (routingRec c) s)
    {e : Event NeighborResponse} (hstep : s.step (routingRec c) e = some s') : Drawing s' := by
  cases hkeeps.round.moves hkeeps.fits hstep with
  | keep hquiet hcontrol _ hjoin =>
      refine h.same hquiet.client hquiet.asked (by rw [hcontrol]; exact id) fun i active hfill => ?_
      exact ⟨by rw [evaluated, evaluated, hquiet.past, hjoin], i, active, hcontrol ▸ hfill⟩
  | inner hquiet hpos hpos' _ =>
      refine h.same hquiet.client hquiet.asked (fun _ hended => hpos (by rw [position, hended])) fun i active hfill => ?_
      rw [position, hfill] at hpos'
      exact absurd rfl hpos'
  | busy i active r hcontrol _ _ heq =>
      subst heq
      exact h.same rfl rfl (fun _ => by rw [hcontrol]; simp) fun _ _ _ => ⟨rfl, i, active, hcontrol⟩
  | nobody i active pick hcontrol _ _ _ heq =>
      subst heq
      exact h.same rfl rfl (fun _ => by rw [hcontrol]; simp) fun _ _ _ => ⟨rfl, i, active, hcontrol⟩
  | ask i active pick peer client outcome hcontrol hi _ hnext heq =>
      subst heq
      have hfirst := h.first i active hcontrol
      rcases pollNext_key hnext with ⟨hrandom, hyes, hno⟩
      refine ⟨fun _ _ _ => hrandom ▸ hfirst, fun _ _ => ?_⟩
      unfold asked
      rw [map_append]
      cases hsearch : s.client.randomSearch
      · -- a later round keeps the location of an earlier one
        have hevaluated : s.evaluated ≠ [] := fun hnone => by
          rw [hfirst.mpr hnone] at hsearch
          cases hsearch
        rcases h.key (by rw [hcontrol]; simp) (requests_ne_nil hkeeps.round hevaluated) with ⟨q, hq, hkey⟩
        exact ⟨q, mem_append_left _ hq, (hno hsearch).trans hkey⟩
      · exact ⟨peer, mem_append_right _ (mem_singleton_self _), (hyes hsearch).1⟩
  | idle _ _ _ heq => exact Drawing.ended (by rw [heq, (quiet_finish _ _).2.1])
  | fork i active hcontrol _ _ heq =>
      subst heq
      exact h.same rfl rfl (fun _ => by rw [hcontrol]; simp) (by intros; contradiction)
  | last _ _ heq => exact Drawing.ended (by rw [heq, (quiet_finish _ _).2.1])
  | again hcontrol hlast heq =>
      subst heq
      have hevaluated : s.evaluated ≠ [] := by
        have hpos := hlasts.forksCopy_pos hcontrol
        intro hnone
        have hlength := congrArg List.length hnone
        rw [evaluated, length_append, length_nil] at hlength
        omega
      rcases operationComplete_again hlast with ⟨-, hsame⟩
      have hclient : ((routingRec c).react s.client s.active s.join s.completed).2 =
          { (evaluateRound c s.client s.active s.join s.completed).2 with
            randomSearch := (evaluateRound c s.client s.active s.join s.completed).2.locationKey.isNone } := hsame
      rcases h.key (by rw [hcontrol]; simp) (requests_ne_nil hkeeps.round hevaluated) with ⟨q, hq, hkey⟩
      rw [hclient]
      refine ⟨fun _ _ _ => iff_of_false ?_ hevaluated, fun _ _ => ⟨q, hq, ?_⟩⟩
      · dsimp only
        rw [evaluateRound_locationKey, hkey]
        exact Bool.false_ne_true
      · dsimp only
        rw [evaluateRound_locationKey, hkey]

/-! ### Requests -/

theorem xor_MAX_VALUE_injective {p q : Number160} (h : p.xor Number160.MAX_VALUE = q.xor Number160.MAX_VALUE) :
    p = q := by
  have hnat := congrArg Number160.toNat h
  rw [Number160.toNat_xor, Number160.toNat_xor] at hnat
  exact Number160.toNat_injective (Nat.xor_left_injective hnat)

/-- A request is as it should be exactly if nothing was evaluated before. -/
theorem Drawing.random_iff_first (h : Drawing s) (hkeeps : Keeps c me s) {e : Event NeighborResponse}
    (hstep : s.step (routingRec c) e = some s') : ∀ r ∈ seenRequests s e s', r.Random ↔ r.First := by
  intro r hr
  cases e with
  | complete q answer | notify q slot => exact absurd hr not_mem_nil
  | go pick outcome =>
      rcases hkeeps.round.asks_of_go hstep with hsame | ⟨i, active, peer, client, hcontrol, hnext, heq⟩
      · rw [seenRequests, drop_eq_nil_of_le (Nat.le_of_eq hsame)] at hr
        exact absurd hr not_mem_nil
      · subst heq
        simp only [seenRequests, drop_left, map_cons, map_nil, mem_singleton] at hr
        subst hr
        have hnext : pollNext s.client pick = some (peer, client) := hnext
        have hfirst := h.first i active hcontrol
        rcases pollNext_key hnext with ⟨-, hyes, hno⟩
        cases hsearch : s.client.randomSearch
        · have hevaluated : s.evaluated ≠ [] := fun hnone => by
            rw [hfirst.mpr hnone] at hsearch
            cases hsearch
          refine iff_of_false ?_ hevaluated
          rintro ⟨hkey, -⟩
          rcases h.key (by rw [hcontrol]; exact nofun) (requests_ne_nil hkeeps.round hevaluated) with ⟨q, hq, hold⟩
          -- the location belongs to a peer that was asked, and the new one was not
          dsimp only at hkey
          rw [hno hsearch, hold, Option.some.injEq] at hkey
          refine hkeeps.asks.fresh q hq ?_
          rw [xor_MAX_VALUE_injective hkey]
          exact (pollNext_spec hnext).1
        · exact iff_of_true (hyes hsearch) (hfirst.mp hsearch)

/-! ### Runs -/

/-- The runs of a search for random peers, with their requests. -/
def RandomRun (c : RoutingConfiguration) (me : PeerAddress) (peerAddresses : List PeerAddress) :
    Rounds (RoutingMechanism (searchLocation me none)) PeerAddress NeighborResponse × List SeenRequest → Prop :=
  Reached (recorded (fun s e => s.step (routingRec { c with isBootstrap := true }) e) seenRequests)
    (fun _ _ => True) fun p => p.1 = randomRouting c me peerAddresses ∧ p.2 = []

theorem drawing_start (c : RoutingConfiguration) (me : PeerAddress) (peerAddresses : List PeerAddress) :
    Drawing (randomRouting c me peerAddresses) := by
  have hstart (m : RoutingMechanism (searchLocation me none)) (slots : List (Option Nat))
      (hrandom : m.randomSearch = true) :
      Drawing ({ client := m, slots := slots } :
        Rounds (RoutingMechanism (searchLocation me none)) PeerAddress NeighborResponse) :=
    ⟨fun _ _ _ => iff_of_true hrandom rfl, fun _ hsome => absurd rfl hsome⟩
  unfold randomRouting routing
  dsimp only
  split
  · exact Drawing.ended rfl
  · split
    · exact Drawing.ended rfl
    · exact hstart _ _ rfl
    · exact hstart _ _ rfl

/-- The requests of a search for random peers are as they should be exactly if each of
    them was made before anything was evaluated. -/
theorem random_iff (c : RoutingConfiguration) (me : PeerAddress) (peerAddresses : List PeerAddress)
    (s : Rounds (RoutingMechanism (searchLocation me none)) PeerAddress NeighborResponse) (log : List SeenRequest)
    (hrun : RandomRun c me peerAddresses (s, log)) :
    (∀ r ∈ log, r.Random) ↔ ∀ r ∈ log, r.First := by
  have hiff : ∀ r ∈ log, r.Random ↔ r.First := by
    refine (@Reached.recorded _ _ _ (fun _ _ => True) (fun s => s = randomRouting c me peerAddresses) _ _
      (fun s => Goes { c with isBootstrap := true } me s ∧ Drawing s) (fun r => r.Random ↔ r.First) ?_ ?_ _ hrun).2
    · rintro s rfl
      exact ⟨goes_routing _ me none none peerAddresses, drawing_start c me peerAddresses⟩
    · rintro t e t' ⟨hgoes, hdrawing⟩ - hstep
      have hlasts : Lasts (routingRec { c with isBootstrap := true }) t :=
        ⟨hgoes.keeps.round, hgoes.keeps.fits, hgoes.active⟩
      exact ⟨⟨hgoes.step hstep, hdrawing.step hgoes.keeps hlasts hstep⟩,
        hdrawing.random_iff_first hgoes.keeps hstep⟩
  exact forall₂_congr hiff

/-- What the bootstrap uses if nothing else is set. -/
def bootstrapRouting : RoutingConfiguration where
  maxDirectHits := 2 ^ 31 - 1
  maxNoNewInfo := 8
  maxFailures := 10
  maxSuccess := 20
  parallel := 2

/-- The peers that are known. -/
def knownPeers : List PeerAddress := [{ peerId := 9 }, { peerId := 10 }, { peerId := 11 }]

/-- The peer that is drawn first has answered when it is asked, and the next one has
    not. -/
def firstAnswers (steps : Nat) : List (Event NeighborResponse) :=
  [.go 1 (some (some { sender := { peerId := 11 }, neighbors := [] }))] ++ List.replicate steps (.go 0 none)

/-- The search for random peers, as far as these events. -/
def randomReplay (steps : Nat) :
    Option (Rounds (RoutingMechanism (searchLocation { peerId := 1 } none)) PeerAddress NeighborResponse ×
      List SeenRequest) :=
  replay (recorded (fun s e => s.step (routingRec { bootstrapRouting with isBootstrap := true }) e) seenRequests)
    (fun _ _ => True) (firstAnswers steps) (randomRouting bootstrapRouting { peerId := 1 } knownPeers, [])

theorem not_random_knownPeers :
    ¬ ∀ s log, RandomRun bootstrapRouting { peerId := 1 } knownPeers (s, log) → ∀ r ∈ log, r.Random := by
  intro hall
  have hreplay : (randomReplay 8).any (fun p => p.2.any fun r => !decide r.Random) = true := by decide
  rw [Option.any_eq_true] at hreplay
  rcases hreplay with ⟨⟨s, log⟩, hrun, hbad⟩
  rw [any_eq_true] at hbad
  rcases hbad with ⟨r, hr, hbad⟩
  simp only [Bool.not_eq_true', decide_eq_false_iff_not] at hbad
  exact hbad (hall s log (Reached.replay _ (.start ⟨rfl, rfl⟩) hrun) r hr)

theorem random_knownPeers :
    ∃ s log, RandomRun bootstrapRouting { peerId := 1 } knownPeers (s, log) ∧
      log.map (·.peer.peerId) = [11, 9] ∧ ∀ r ∈ log, r.Random := by
  have hreplay : (randomReplay 7).any (fun p =>
      decide (p.2.map (·.peer.peerId) = [11, 9] ∧ ∀ r ∈ p.2, r.evaluated = [])) = true := by decide
  rw [Option.any_eq_true] at hreplay
  rcases hreplay with ⟨⟨s, log⟩, hrun, hstate⟩
  rcases of_decide_eq_true hstate with ⟨hpeers, hfirst⟩
  have hrandom : RandomRun bootstrapRouting { peerId := 1 } knownPeers (s, log) :=
    Reached.replay _ (.start ⟨rfl, rfl⟩) hrun
  exact ⟨s, log, hrandom, hpeers, (random_iff bootstrapRouting { peerId := 1 } knownPeers s log hrandom).mpr hfirst⟩

end DistributedRouting

end TomP2P
