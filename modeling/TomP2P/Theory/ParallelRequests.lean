import TomP2P.Core.DistributedHashTable
import TomP2P.Foundation.Runs
import TomP2P.Theory.PeerSet
import TomP2P.Theory.Rounds

/-!
# Requests to the Peers of a Location Come to an End

An operation on the hash table asks each peer at most once, asks those that have the
data first, and is told of the end once.

The peers that were asked and those that are still to be asked make up the peers that
were found, in their order. A round that fails leaves all slots empty, and it leaves
fewer results to want than there were before: results that are wanted and successes
so far make up the minimum (`Keeps.missing`). A round that asks fewer peers than it wants
results has found nobody else to ask, and therefore succeeds without them.

The number of slots is the sum of two numbers and has 32 bits. If the sum does not
fit, the array of slots is not made, and the operation is never told of the end.

## Main definitions

* `DistributedHashTable.Correct`: What an operation may rely on in every state.
* `DistributedHashTable.Delivers`: What it may rely on in every run.

## Theorems

* `DistributedHashTable.Keeps.step`: What every event keeps.
* `DistributedHashTable.delivers_iff`: An operation may rely on its requests exactly if
  the slots can be counted.
-/

namespace TomP2P

open FutureResponse Rounds List

namespace DistributedHashTable

variable {location : Number160} {A : Type} {c : RequestP2PConfiguration} {cancelOnFinish : Bool}
  {direct potential : List PeerAddress} {s s' : Rounds (ParallelRequests location A) PeerAddress A}

/-- The requests that were evaluated and were a success. -/
def successes (s : Rounds (ParallelRequests location A) PeerAddress A) : Nat :=
  s.evaluated.countP (succeeded s.requests)

/-- There is nobody left to ask. -/
def Spent (l : ParallelRequests location A) : Prop :=
  l.directHit.toList = [] ∧ l.potentialHit.toList = []

/-- Those that have the data are asked before the others, in order. -/
def InOrder (direct potential asked : List PeerAddress) (l : ParallelRequests location A) : Prop :=
  asked ++ l.directHit.toList = direct ∧ l.potentialHit.toList = potential ∨
    l.directHit.toList = [] ∧ asked ++ l.potentialHit.toList = direct ++ potential

/-- Why the operation is told of the end. -/
def Outcome (c : RequestP2PConfiguration) (s : Rounds (ParallelRequests location A) PeerAddress A) : Prop :=
  c.minimumResults ≤ successes s ∨ Spent s.client ∨ c.maxFailure < s.client.rounds.count false

/-- What every event keeps. -/
structure Keeps (c : RequestP2PConfiguration) (direct potential : List PeerAddress)
    (s : Rounds (ParallelRequests location A) PeerAddress A) : Prop where
  round : Round s
  order : InOrder direct potential s.asked s.client
  width : s.slots.length = c.minimumResults + c.parallelDiff
  min_pos : 1 ≤ s.client.min
  min_le : s.client.min ≤ c.minimumResults
  failures : s.client.nrFailure = int (s.client.rounds.count false)
  /-- Slots that have not been looked at are empty. -/
  empty : ∀ i active, s.control = .fill i active → ∀ j r : Nat, i ≤ j → s.slots[j]? ≠ some (some r)
  /-- A slot stays empty if there is nobody to ask. -/
  unfilled : ∀ i active, s.control = .fill i active → active < i → Spent s.client
  missing : ∀ i active, s.control = .fill i active → successes s + s.client.min = c.minimumResults
  enough : s.position ≠ none → s.join.nrFinishFuturesSuccess = min s.client.min s.active
  fewer : s.position ≠ none → (s.active : Int) < s.client.min → Spent s.client
  lacking : s.position ≠ none → s.past.countP (succeeded s.requests) + s.client.min = c.minimumResults
  running : s.control ≠ .ended → s.client.response = 0
  ended : s.control = .ended → s.client.response = 1 ∧ Outcome c s

/-! ### One event -/

/-- The slots that a round fills. -/
theorem Keeps.slots (h : Keeps c direct potential s) (hlt : c.minimumResults + c.parallelDiff < 2 ^ 31)
    (cancelOnFinish : Bool) :
    ((loopRec c cancelOnFinish).slots s.client : Int) = s.client.min + c.parallelDiff := by
  have hpos := h.min_pos
  have hle := h.min_le
  unfold loopRec
  dsimp only
  rw [int_eq (by omega) (by omega), Int.toNat_of_nonneg (by omega)]

theorem Keeps.fits (h : Keeps c direct potential s) (hlt : c.minimumResults + c.parallelDiff < 2 ^ 31) :
    Fits (loopRec c cancelOnFinish) s := by
  have hslots := h.slots hlt cancelOnFinish
  have hle := h.min_le
  have hpos := h.min_pos
  have hwidth := h.width
  refine ⟨fun _ _ _ => by omega, fun i active hcontrol _ => h.empty i active hcontrol, ?_⟩
  intro i active _ hactive
  unfold loopRec
  dsimp only
  omega

theorem successes_later {t : Rounds (ParallelRequests location A) PeerAddress A} (h : Round s)
    (hlater : Later s.requests t.requests) (hpast : t.past = s.past) (hjoin : t.join = s.join) :
    successes t = successes s := by
  unfold successes evaluated
  rw [hpast, hjoin]
  refine countP_congr fun r hr => ?_
  rw [hlater.succeeded (h.sound.done r hr)]

theorem past_later {t : Rounds (ParallelRequests location A) PeerAddress A} (h : Round s)
    (hlater : Later s.requests t.requests) (hpast : t.past = s.past) :
    t.past.countP (succeeded t.requests) = s.past.countP (succeeded s.requests) := by
  rw [hpast]
  refine countP_congr fun r hr => ?_
  rw [hlater.succeeded (h.sound.done r (mem_append_left _ hr))]

/-- Nothing that matters to the operation happens while requests complete. -/
theorem Keeps.quiet (h : Keeps c direct potential s) (hround : Round s') (hquiet : Quiet s s')
    (hfill : ∀ i active, s'.control = .fill i active →
      s.control = .fill i active ∧ s'.slots = s.slots ∧ s'.join = s.join)
    (hposition : s'.position ≠ none → s.position ≠ none)
    (henough : s'.join.nrFinishFuturesSuccess = s.join.nrFinishFuturesSuccess)
    (hended : s'.control = .ended ↔ s.control = .ended) (hjoin : s'.control = .ended → s'.join = s.join) :
    Keeps c direct potential s' where
  round := hround
  order := by
    rw [hquiet.asked, hquiet.client]
    exact h.order
  width := hquiet.width.trans h.width
  min_pos := hquiet.client ▸ h.min_pos
  min_le := hquiet.client ▸ h.min_le
  failures := by
    rw [hquiet.client]
    exact h.failures
  empty := by
    intro i active hcontrol
    obtain ⟨hcontrol, hslots, -⟩ := hfill i active hcontrol
    rw [hslots]
    exact h.empty i active hcontrol
  unfilled := by
    intro i active hcontrol
    rw [hquiet.client]
    exact h.unfilled i active (hfill i active hcontrol).1
  missing := by
    intro i active hcontrol
    obtain ⟨hcontrol, -, hjoin⟩ := hfill i active hcontrol
    rw [successes_later h.round hquiet.later hquiet.past hjoin, hquiet.client]
    exact h.missing i active hcontrol
  enough := by
    intro hpos
    rw [henough, hquiet.client, hquiet.active]
    exact h.enough (hposition hpos)
  fewer := by
    intro hpos
    rw [hquiet.client, hquiet.active]
    exact h.fewer (hposition hpos)
  lacking := by
    intro hpos
    rw [past_later h.round hquiet.later hquiet.past, hquiet.client]
    exact h.lacking (hposition hpos)
  running := by
    intro hcontrol
    rw [hquiet.client]
    exact h.running fun hno => hcontrol (hended.mpr hno)
  ended := by
    intro hcontrol
    have hold := h.ended (hended.mp hcontrol)
    rw [Outcome, successes_later h.round hquiet.later hquiet.past (hjoin hcontrol), hquiet.client]
    exact hold

/-- Who is asked next, and who is left. -/
theorem InOrder.next {asked : List PeerAddress} {l l' : ParallelRequests location A} {p : PeerAddress}
    (h : InOrder direct potential asked l) (hnext : pollNext l = some (p, l')) :
    InOrder direct potential (asked ++ [p]) l' ∧ l' = { l with
      directHit := l'.directHit, potentialHit := l'.potentialHit } := by
  unfold pollNext at hnext
  split at hnext
  · next q d hpoll =>
      cases hnext
      have hlist := PeerSet.toList_pollFirst hpoll
      refine ⟨?_, rfl⟩
      rcases h with ⟨hdirect, hpotential⟩ | ⟨hnone, -⟩
      · rw [hlist] at hdirect
        exact .inl ⟨by rw [append_assoc]; exact hdirect, hpotential⟩
      · rw [hlist] at hnone
        cases hnone
  · next hdone =>
      have hnone := PeerSet.toList_of_pollFirst_none hdone
      split at hnext
      · next q d hpoll =>
          cases hnext
          have hlist := PeerSet.toList_pollFirst hpoll
          refine ⟨.inr ⟨hnone, ?_⟩, rfl⟩
          rw [append_assoc, singleton_append, ← hlist]
          rcases h with ⟨hdirect, hpotential⟩ | ⟨-, hall⟩
          · rw [hnone, append_nil] at hdirect
            rw [hdirect, hpotential]
          · exact hall
      · cases hnext

theorem spent_of_pollNext {l : ParallelRequests location A} (h : pollNext l = none) : Spent l := by
  unfold pollNext at h
  split at h
  · cases h
  · next hdirect =>
      split at h
      · cases h
      · next hpotential =>
          exact ⟨PeerSet.toList_of_pollFirst_none hdirect, PeerSet.toList_of_pollFirst_none hpotential⟩

theorem not_spent_of_pollNext {l : ParallelRequests location A} {p : PeerAddress × ParallelRequests location A}
    (h : pollNext l = some p) : ¬ Spent l := by
  rintro ⟨hdirect, hpotential⟩
  have hd : l.directHit.pollFirst = none := by
    rw [PeerSet.pollFirst, hdirect]
    rfl
  have hp : l.potentialHit.pollFirst = none := by
    rw [PeerSet.pollFirst, hpotential]
    rfl
  rw [pollNext, hd, hp] at h
  cases h

/-- The operation is told of the end. -/
theorem Keeps.finish (h : Keeps c direct potential s) (hround : Round s') {l : ParallelRequests location A}
    (heq : s' = Rounds.finish (loopRec c cancelOnFinish) s l) (hsets : InOrder direct potential s.asked l)
    (hmin : l.min = s.client.min) (hfailures : l.nrFailure = int (l.rounds.count false))
    (hresponse : l.response = 1)
    (houtcome : c.minimumResults ≤ successes s ∨ Spent l ∨ c.maxFailure < l.rounds.count false) :
    Keeps c direct potential s' := by
  obtain ⟨hquiet, hcontrol, hslots, hjoin⟩ := quiet_finish (k := loopRec c cancelOnFinish) s l
  rw [← heq] at hquiet hcontrol hslots hjoin
  have hclient : s'.client = l := hquiet.client
  have hnone : s'.position = none := by rw [position, hcontrol]
  have hfill (i active : Nat) : s'.control ≠ .fill i active := by
    rw [hcontrol]
    simp
  refine ⟨hround, ?_, ?_, ?_, ?_, ?_, fun i active hno => absurd hno (hfill i active),
    fun i active hno => absurd hno (hfill i active), fun i active hno => absurd hno (hfill i active),
    fun hno => absurd hnone hno, fun hno => absurd hnone hno, fun hno => absurd hnone hno,
    fun hno => absurd hcontrol hno, fun _ => ⟨?_, ?_⟩⟩
  · rw [hquiet.asked, hclient]
    exact hsets
  · rw [hslots]
    exact h.width
  · rw [hclient, hmin]
    exact h.min_pos
  · rw [hclient, hmin]
    exact h.min_le
  · rw [hclient]
    exact hfailures
  · rw [hclient]
    exact hresponse
  · unfold Outcome
    rw [successes_later h.round hquiet.later hquiet.past hjoin, hclient]
    exact houtcome

/-- A round that is over has brought this many successes. -/
theorem Keeps.successes_eq (h : Keeps c direct potential s) (hcontrol : s.control = .react) :
    (successes s : Int) + s.client.min = c.minimumResults + s.join.successCounter := by
  have hpos : s.position = some s.slots.length := by rw [position, hcontrol]
  have hlacking := h.lacking (by rw [hpos]; simp)
  unfold successes evaluated
  rw [countP_append, ← (h.round.counted _ hpos).success]
  push_cast
  omega

/-- A successful round has brought all that was wanted, or there was nobody else to
    ask. -/
theorem Keeps.outcome_ok (h : Keeps c direct potential s) (hcontrol : s.control = .react)
    (hok : s.join.type = .OK) : c.minimumResults ≤ successes s ∨ Spent s.client := by
  have hpos : s.position = some s.slots.length := by rw [position, hcontrol]
  have hne : s.position ≠ none := by
    rw [hpos]
    simp
  have hclosed := (h.round.forked _ hpos).closed (h.round.reacting hcontrol)
  have hsuccess := (hclosed.ok hok).1
  have hsum := h.successes_eq hcontrol
  rw [h.enough hne] at hsuccess
  by_cases hactive : (s.active : Int) < s.client.min
  · exact .inr (h.fewer hne hactive)
  · left
    omega

/-- The last round. -/
theorem Keeps.last (h : Keeps c direct potential s) (hround : Round s') (hcontrol : s.control = .react)
    (hlast : (operationComplete c.maxFailure s.client s.join s.completed).1 = true)
    (heq : s' = Rounds.finish (loopRec c cancelOnFinish) s
      (operationComplete c.maxFailure s.client s.join s.completed).2) : Keeps c direct potential s' := by
  have hzero : s.client.response = 0 := h.running (by rw [hcontrol]; exact nofun)
  unfold operationComplete at hlast heq
  dsimp only at hlast heq
  by_cases hok : s.join.isSuccess = true
  · rw [if_pos hok] at heq
    refine h.finish hround heq h.order rfl ?_ (by dsimp only; rw [hzero]) ?_
    · rw [h.failures, count_append, hok]
      rfl
    · rcases h.outcome_ok hcontrol (of_decide_eq_true hok) with hall | hspent
      · exact .inl hall
      · exact .inr (.inl hspent)
  · rw [if_neg hok] at heq hlast
    rw [Bool.not_eq_true] at hok
    have hcount : (s.client.rounds ++ [s.join.isSuccess]).count false = s.client.rounds.count false + 1 := by
      rw [count_append, hok]
      rfl
    have hfailures : int (s.client.nrFailure + 1) =
        int ((s.client.rounds ++ [s.join.isSuccess]).count false) := by
      rw [h.failures, int_int_add, hcount]
      rfl
    split at hlast
    · next hmany =>
        rw [if_pos hmany] at heq
        refine h.finish hround heq h.order rfl hfailures (by dsimp only; rw [hzero]) (.inr (.inr ?_))
        dsimp only
        rw [hfailures] at hmany
        have hle := int_le (Int.natCast_nonneg ((s.client.rounds ++ [s.join.isSuccess]).count false))
        omega
    · cases hlast

/-- Another round. -/
theorem Keeps.again (h : Keeps c direct potential s) (hround : Round s') (hcontrol : s.control = .react)
    (hlast : (operationComplete c.maxFailure s.client s.join s.completed).1 = false)
    (heq : s' = { s with
      client := (operationComplete c.maxFailure s.client s.join s.completed).2, control := .fill 0 0 }) :
    Keeps c direct potential s' := by
  have hzero : s.client.response = 0 := h.running (by rw [hcontrol]; simp)
  have hpos : s.position = some s.slots.length := by rw [position, hcontrol]
  have hclosed := (h.round.forked _ hpos).closed (h.round.reacting hcontrol)
  have henough := h.enough (by rw [hpos]; simp)
  have hsum := h.successes_eq hcontrol
  have hmin := h.min_le
  have hbound := c.minimumResults_lt
  unfold operationComplete at hlast heq
  dsimp only at hlast heq
  by_cases hok : s.join.isSuccess = true
  · rw [if_pos hok] at hlast
    cases hlast
  · rw [if_neg hok] at heq hlast
    have hfailed : s.join.type = .FAILED := by
      rcases FutureForkJoin.completed_iff.mp hclosed.done with h | h
      · exact absurd (decide_eq_true h) hok
      · exact h
    rw [Bool.not_eq_true] at hok
    split at hlast
    · cases hlast
    · next hfew =>
        rw [if_neg hfew] at heq
        obtain ⟨hnone, hless⟩ := hclosed.failed hfailed
        rw [henough] at hless
        -- what is left to want is positive, so no bits are lost
        have hleft : int (s.client.min - s.join.successCounter) = s.client.min - s.join.successCounter :=
          int_eq (by omega) (by omega)
        rw [hleft] at heq
        subst heq
        refine ⟨hround, h.order, h.width, ?_, ?_, ?_, fun _ _ _ j r _ => hnone j r, ?_, ?_, (by intros; contradiction), (by intros; contradiction), (by intros; contradiction),
          fun _ => hzero, (by intros; contradiction)⟩
        · dsimp only
          omega
        · dsimp only
          omega
        · dsimp only
          rw [h.failures, int_int_add, count_append, hok]
          rfl
        · intro i active hfill hlt
          cases hfill
          exact absurd hlt (Nat.lt_irrefl 0)
        · intro i active _
          have hsame : successes { s with
              client := { s.client with
                interMediateResponse := s.client.interMediateResponse ++ s.completed
                rounds := s.client.rounds ++ [s.join.isSuccess]
                nrFailure := int (s.client.nrFailure + 1)
                min := s.client.min - s.join.successCounter }
              control := .fill 0 0 } = successes s := rfl
          rw [hsame]
          dsimp only
          omega

/-- Another peer is asked. -/
theorem Keeps.ask (h : Keeps c direct potential s) {i active : Nat} {peer : PeerAddress}
    {client : ParallelRequests location A} {outcome : Option (Option A)}
    (hround : Round { s with
      client := client
      requests := s.requests ++ [⟨peer, outcome⟩]
      slots := s.slots.set i (some s.requests.length)
      control := .fill (i + 1) (active + 1) })
    (hcontrol : s.control = .fill i active) (hnext : pollNext s.client = some (peer, client)) :
    Keeps c direct potential { s with
      client := client
      requests := s.requests ++ [⟨peer, outcome⟩]
      slots := s.slots.set i (some s.requests.length)
      control := .fill (i + 1) (active + 1) } := by
  obtain ⟨horder, hclient⟩ := h.order.next hnext
  have hmin : client.min = s.client.min := by rw [hclient]
  have hfailures : client.nrFailure = s.client.nrFailure ∧ client.rounds = s.client.rounds := by
    rw [hclient]
    exact ⟨rfl, rfl⟩
  have hresponse : client.response = s.client.response := by rw [hclient]
  refine ⟨hround, ?_, ?_, hmin ▸ h.min_pos, hmin ▸ h.min_le, ?_, ?_, ?_, ?_, nofun, nofun, nofun, ?_, nofun⟩
  · unfold asked
    rw [map_append]
    exact horder
  · dsimp only
    rw [length_set]
    exact h.width
  · dsimp only
    rw [hfailures.1, hfailures.2]
    exact h.failures
  · intro j m hfill k r hk
    cases hfill
    dsimp only
    rw [getElem?_set_ne (by omega)]
    exact h.empty i active hcontrol k r (by omega)
  · intro j m hfill hlt
    cases hfill
    have hspent := h.unfilled i active hcontrol (by omega)
    -- nobody can be asked if nobody is left
    exact absurd hspent (not_spent_of_pollNext hnext)
  · intro j m _
    have hsame := successes_later (t := { s with
      client := client
      requests := s.requests ++ [⟨peer, outcome⟩]
      slots := s.slots.set i (some s.requests.length)
      control := .fill (i + 1) (active + 1) }) h.round (later_append _ _) rfl rfl
    rw [hsame]
    dsimp only
    rw [hmin]
    exact h.missing i active hcontrol
  · intro _
    dsimp only
    rw [hresponse]
    exact h.running (by rw [hcontrol]; exact nofun)

/-- Every event keeps it. -/
theorem Keeps.step (h : Keeps c direct potential s) (hlt : c.minimumResults + c.parallelDiff < 2 ^ 31)
    {e : Event A} (hstep : s.step (loopRec c cancelOnFinish) e = some s') : Keeps c direct potential s' := by
  have hfits : Fits (loopRec c cancelOnFinish) s := h.fits hlt
  have hround := h.round.step hfits hstep
  have hslots := h.slots hlt cancelOnFinish
  have hpos := h.min_pos
  rcases h.round.moves hfits hstep with
    ⟨hquiet, hcontrol, hsame, hjoin⟩ | ⟨hquiet, hsome, hsome', henough⟩ | ⟨i, active, r, hcontrol, -, hslot, -⟩ |
    ⟨i, active, pick, hcontrol, hi, hslot, hnext, rfl⟩ |
    ⟨i, active, pick, peer, client, outcome, hcontrol, hi, hslot, hnext, rfl⟩ | ⟨i, hcontrol, hi, heq⟩ |
    ⟨i, active, hcontrol, hi, hactive, rfl⟩ | ⟨hcontrol, hlast, heq⟩ | ⟨hcontrol, hlast, heq⟩
  · -- a request completes or is cancelled
    refine h.quiet hround hquiet ?_ ?_ (by rw [hjoin]) (by rw [hcontrol]) fun _ => hjoin
    · intro i active hfill
      exact ⟨hcontrol ▸ hfill, hsame, hjoin⟩
    · intro hne
      rw [position, hcontrol, hsame] at hne
      exact hne
  · -- the join reacts to a slot
    have hno (t : Rounds (ParallelRequests location A) PeerAddress A) (ht : t.position ≠ none) :
        t.control ≠ .ended ∧ ∀ i active, t.control ≠ .fill i active := by
      unfold position at ht
      constructor
      · intro hcontrol
        rw [hcontrol] at ht
        exact ht rfl
      · intro i active hcontrol
        rw [hcontrol] at ht
        exact ht rfl
    refine h.quiet hround hquiet (fun i active hfill => absurd hfill ((hno s' hsome').2 i active))
      (fun _ => hsome) henough ?_ fun hended => absurd hended (hno s' hsome').1
    exact ⟨fun hended => absurd hended (hno s' hsome').1, fun hended => absurd hended (hno s hsome).1⟩
  · -- the slot to fill is always empty here
    exact absurd hslot (h.empty i active hcontrol i r (Nat.le_refl i))
  · -- nobody is left, which is what an empty slot says
    refine ⟨hround, h.order, h.width, h.min_pos, h.min_le, h.failures, ?_, ?_, ?_, (by intros; contradiction), (by intros; contradiction), (by intros; contradiction),
      fun _ => h.running (by rw [hcontrol]; simp), (by intros; contradiction)⟩
    · intro j m hfill k r hk
      cases hfill
      exact h.empty i active hcontrol k r (by omega)
    · intro _ _ _ _
      exact spent_of_pollNext hnext
    · intro _ _ _
      exact h.missing i active hcontrol
  · exact h.ask hround hcontrol hnext
  · -- no request is running, and nobody is left to ask
    have hzero : s.client.response = 0 := h.running (by rw [hcontrol]; simp)
    have hspent := h.unfilled i 0 hcontrol (by omega)
    refine h.finish hround heq h.order rfl h.failures ?_ (.inr (.inl hspent))
    unfold loopRec
    dsimp only
    rw [hzero]
  · refine ⟨hround, h.order, h.width, h.min_pos, h.min_le, h.failures, (by intros; contradiction), (by intros; contradiction), (by intros; contradiction), fun _ => rfl, ?_, ?_,
      fun _ => h.running (by rw [hcontrol]; simp), (by intros; contradiction)⟩
    · intro _ hfew
      have hfew : (active : Int) < s.client.min := hfew
      exact h.unfilled i active hcontrol (by omega)
    · intro _
      exact h.missing i active hcontrol
  · exact h.last hround hcontrol hlast heq
  · exact h.again hround hcontrol hlast heq

/-! ### Runs -/

/-- What an operation may rely on in a state of its requests. -/
structure Correct (c : RequestP2PConfiguration) (cancelOnFinish : Bool)
    (directHit potentialHit : PeerSet location) (s : Rounds (ParallelRequests location A) PeerAddress A) :
    Prop where
  /-- No peer is asked twice. -/
  once : (s.asked.map (·.peerId)).Nodup
  /-- Those that have the data have been asked when another is. -/
  directFirst : ∀ p ∈ s.asked, directHit.contains p = false → ∀ q ∈ directHit.toList, q ∈ s.asked
  /-- No access outside of the array. -/
  inside : s.control ≠ .thrown
  atMostOnce : s.client.response ≤ 1
  /-- When all requests have completed and have been seen to, the operation has been
      told of the end. -/
  told : (∀ r < s.requests.length, returned s.requests r = true) →
    (∀ e : Event A, s.step (loopRec c cancelOnFinish) e = none) → s.client.response = 1
  /-- There were enough successes then, or all peers had been asked, or too many
      rounds had failed. -/
  outcome : s.client.response = 1 →
    c.minimumResults ≤ successes s ∨
      (∀ p, p ∈ directHit.toList ∨ p ∈ potentialHit.toList → p.peerId ∈ s.asked.map (·.peerId)) ∨
        c.maxFailure < s.client.rounds.count false

/-- What an operation may rely on in all runs: every state is correct, and there is no
    run without end. -/
def Delivers (A : Type) (c : RequestP2PConfiguration) (cancelOnFinish : Bool)
    (directHit potentialHit : PeerSet location) : Prop :=
  ∃ s : Rounds (ParallelRequests location A) PeerAddress A,
    parallelRequests c directHit potentialHit = .ok s ∧
      (∀ t, Reach (loopRec c cancelOnFinish) s t → Correct c cancelOnFinish directHit potentialHit t) ∧
        ¬ ∃ run : Nat → Rounds (ParallelRequests location A) PeerAddress A, run 0 = s ∧
          ∀ n, ∃ e, (run n).step (loopRec c cancelOnFinish) e = some (run (n + 1))

theorem Keeps.reach {t : Rounds (ParallelRequests location A) PeerAddress A}
    (h : Keeps c direct potential s) (hlt : c.minimumResults + c.parallelDiff < 2 ^ 31)
    (hreach : Reach (loopRec c cancelOnFinish) s t) : Keeps c direct potential t := by
  induction hreach with
  | start => exact h
  | step e _ hstep ih => exact ih.step hlt hstep

/-- The peers that were found, each of them once. -/
theorem nodup_found (directHit potentialHit : PeerSet location) :
    ((directHit.toList ++ (directHit.toList.foldl PeerSet.remove potentialHit).toList).map
      (·.peerId)).Nodup := by
  rw [map_append, nodup_append]
  refine ⟨directHit.nodup_ids, PeerSet.nodup_ids _, ?_⟩
  rintro a ha b hb rfl
  obtain ⟨q, hq, rfl⟩ := mem_map.mp hb
  exact ((PeerSet.mem_toList_removeAll _ _).mp hq).2 ha

/-- The peers that were asked are the first of those that were found. -/
theorem InOrder.isFirst {asked : List PeerAddress} {l : ParallelRequests location A}
    (h : InOrder direct potential asked l) : asked <+: direct ++ potential := by
  rcases h with ⟨hdirect, -⟩ | ⟨-, hall⟩
  · rw [← hdirect, append_assoc]
    exact prefix_append _ _
  · rw [← hall]
    exact prefix_append _ _

theorem Keeps.correct {directHit potentialHit : PeerSet location}
    (h : Keeps c directHit.toList (directHit.toList.foldl PeerSet.remove potentialHit).toList s) :
    Correct c cancelOnFinish directHit potentialHit s := by
  have hfirst := h.order.isFirst
  have honce : (s.asked.map (·.peerId)).Nodup :=
    (nodup_found directHit potentialHit).sublist (hfirst.map _).sublist
  have htold (hended : s.control = .ended) : s.client.response = 1 := (h.ended hended).1
  have hrunning (hresponse : s.client.response = 1) : s.control = .ended := by
    by_contra hno
    rw [h.running hno] at hresponse
    cases hresponse
  refine ⟨honce, ?_, h.round.safe, ?_, fun hall hstuck => htold (h.round.stuck hall hstuck), ?_⟩
  · intro p hp hnot q hq
    rcases h.order with ⟨hdirect, -⟩ | ⟨hnone, hall⟩
    · -- all that were asked have the data
      have hin : p ∈ directHit.toList := by
        rw [← hdirect]
        exact mem_append_left _ hp
      rw [PeerSet.contains_iff.mpr (PeerSet.mem_ids_of_mem hin)] at hnot
      cases hnot
    · by_contra hmiss
      -- the peers asked are then among those that have the data, and so is `p`
      have hlt : s.asked.length < directHit.toList.length := by
        by_contra hge
        have htake : directHit.toList <+: s.asked :=
          prefix_of_prefix_length_le (prefix_append _ _) hfirst (by omega)
        exact hmiss (htake.subset hq)
      have hshort : s.asked <+: directHit.toList :=
        prefix_of_prefix_length_le hfirst (prefix_append _ _) (Nat.le_of_lt hlt)
      rw [PeerSet.contains_iff.mpr (PeerSet.mem_ids_of_mem (hshort.subset hp))] at hnot
      cases hnot
  · by_cases hended : s.control = .ended
    · rw [htold hended]
    · rw [h.running hended]
      exact Nat.zero_le _
  · intro hresponse
    rcases (h.ended (hrunning hresponse)).2 with hmin | hspent | hfail
    · exact .inl hmin
    · refine .inr (.inl ?_)
      have hall : s.asked = directHit.toList ++ (directHit.toList.foldl PeerSet.remove potentialHit).toList := by
        rcases h.order with ⟨hdirect, hpotential⟩ | ⟨-, hall⟩
        · rw [hspent.1, append_nil] at hdirect
          rw [← hpotential, hspent.2, append_nil, hdirect]
        · rw [hspent.2, append_nil] at hall
          exact hall
      intro p hp
      rw [hall, map_append, mem_append]
      by_cases hin : p.peerId ∈ directHit.toList.map (·.peerId)
      · exact .inl hin
      · rcases hp with hp | hp
        · exact .inl (mem_map_of_mem hp)
        · exact .inr (mem_map_of_mem ((PeerSet.mem_toList_removeAll _ _).mpr ⟨hp, hin⟩))
    · exact .inr (.inr hfail)

/-- What there is left to do, by who is still to be asked, by the requests that are on
    their way, and by the round. -/
def work (direct potential : List PeerAddress) (s : Rounds (ParallelRequests location A) PeerAddress A) :
    Nat × Nat × Nat :=
  ((direct ++ potential).length - s.asked.length, s.pending, s.remaining)

/-- There is less to do after every event. -/
theorem Keeps.work_lt (h : Keeps c direct potential s) (hlt : c.minimumResults + c.parallelDiff < 2 ^ 31)
    {e : Event A} (hstep : s.step (loopRec c cancelOnFinish) e = some s') :
    Prod.Lex (· < ·) (Prod.Lex (· < ·) (· < ·)) (work direct potential s') (work direct potential s) := by
  have hle := (h.step hlt hstep).order.isFirst.length_le
  have hempty (i active : Nat) (hcontrol : s.control = .fill i active) (r : Nat) :
      s.slots[i]? ≠ some (some r) := h.empty i active hcontrol i r (Nat.le_refl i)
  unfold work
  rcases h.round.decreases (h.fits hlt) hempty hstep with hmore | ⟨hsame, hpending | ⟨hpending, hless⟩⟩
  · exact Prod.Lex.left _ _ (by omega)
  · rw [hsame]
    exact Prod.Lex.right _ (Prod.Lex.left _ _ hpending)
  · rw [hsame]
    rcases Nat.lt_or_eq_of_le hpending with hpending | hpending
    · exact Prod.Lex.right _ (Prod.Lex.left _ _ hpending)
    · rw [hpending]
      exact Prod.Lex.right _ (Prod.Lex.right _ hless)

theorem Keeps.finite (h : Keeps c direct potential s) (hlt : c.minimumResults + c.parallelDiff < 2 ^ 31) :
    ¬ ∃ run : Nat → Rounds (ParallelRequests location A) PeerAddress A, run 0 = s ∧
      ∀ n, ∃ e, (run n).step (loopRec c cancelOnFinish) e = some (run (n + 1)) := by
  have hwf : WellFounded (Prod.Lex (· < ·) (Prod.Lex (· < ·) (· < ·)) : Nat × Nat × Nat → Nat × Nat × Nat → Prop) :=
    WellFounded.prod_lex Nat.lt_wfRel.wf (WellFounded.prod_lex Nat.lt_wfRel.wf Nat.lt_wfRel.wf)
  have hstep (t : Rounds (ParallelRequests location A) PeerAddress A) (e : Event A)
      (t' : Rounds (ParallelRequests location A) PeerAddress A) (ht : Keeps c direct potential t)
      (hstep : t.step (loopRec c cancelOnFinish) e = some t') :=
    And.intro (ht.step hlt hstep) (ht.work_lt hlt hstep)
  exact no_endless_run hwf (work direct potential) hstep h

/-- The start of the requests. -/
theorem keeps_start (directHit potentialHit : PeerSet location) (hmin : c.minimumResults ≠ 0)
    (hlt : c.minimumResults + c.parallelDiff < 2 ^ 31) :
    Keeps c directHit.toList (directHit.toList.foldl PeerSet.remove potentialHit).toList
      ({ client :=
          { directHit := directHit
            potentialHit := directHit.toList.foldl PeerSet.remove potentialHit
            min := c.minimumResults }
         slots := List.replicate c.parallel.toNat none } :
        Rounds (ParallelRequests location A) PeerAddress A) := by
  refine ⟨Round.start _ _ (.inl rfl), .inl ⟨rfl, rfl⟩, ?_, ?_, le_refl _, ?_, ?_, ?_, ?_, nofun, nofun, nofun,
    fun _ => rfl, nofun⟩
  · rw [length_replicate, RequestP2PConfiguration.parallel, int_eq (by omega) (by omega)]
    omega
  · dsimp only
    omega
  · dsimp only
    rw [count_nil]
    exact (int_eq (by omega) (by omega)).symm
  · intro i active _ j r _
    rw [getElem?_replicate]
    split <;> exact nofun
  · intro i active hfill hlt
    cases hfill
    exact absurd hlt (Nat.lt_irrefl 0)
  · intro i active _
    exact Int.zero_add _

/-- Nothing happens if no result is wanted. -/
theorem step_ended (k : Client (ParallelRequests location A) PeerAddress A) {l : ParallelRequests location A}
    (e : Event A) :
    Rounds.step k ({ client := l, slots := [], control := .ended } :
      Rounds (ParallelRequests location A) PeerAddress A) e = none := by
  cases e with
  | go pick outcome => rfl
  | complete r answer =>
      rw [Rounds.step, if_neg]
      exact fun h => absurd h.1 (Nat.not_lt_zero r)
  | notify r i =>
      rw [Rounds.step, if_neg]
      exact fun h => absurd h.1 not_mem_nil

/-- An operation may rely on its requests exactly if no result is wanted or the slots
    can be counted with 31 bits. -/
theorem delivers_iff (A : Type) (c : RequestP2PConfiguration) (cancelOnFinish : Bool)
    (directHit potentialHit : PeerSet location) :
    Delivers A c cancelOnFinish directHit potentialHit ↔
      c.minimumResults = 0 ∨ c.minimumResults + c.parallelDiff < 2 ^ 31 := by
  have hmin := c.minimumResults_lt
  have hdiff := c.parallelDiff_lt
  constructor
  · rintro ⟨s, hstart, -⟩
    by_contra hno
    rw [not_or] at hno
    have hnegative : c.parallel < 0 := by
      unfold RequestP2PConfiguration.parallel int
      rw [Int.bmod_def]
      omega
    rw [parallelRequests, if_neg hno.1, if_pos hnegative] at hstart
    cases hstart
  · intro h
    by_cases hzero : c.minimumResults = 0
    · refine ⟨_, by rw [parallelRequests, if_pos hzero], ?_, ?_⟩
      · intro t ht
        rw [reach_of_stuck (step_ended _) ht]
        refine ⟨nodup_nil, fun p hp => absurd hp not_mem_nil, Control.noConfusion, Nat.le_refl _,
          fun _ _ => rfl, fun _ => .inl ?_⟩
        rw [hzero]
        exact Nat.zero_le _
      · rintro ⟨run, hrun, hsteps⟩
        obtain ⟨e, he⟩ := hsteps 0
        rw [hrun, step_ended] at he
        cases he
    · have hlt := h.resolve_left hzero
      have hkeeps := keeps_start (A := A) directHit potentialHit hzero hlt
      have hpositive : ¬ c.parallel < 0 := by
        rw [RequestP2PConfiguration.parallel, int_eq (by omega) (by omega)]
        omega
      refine ⟨_, by rw [parallelRequests, if_neg hzero, if_neg hpositive], ?_, hkeeps.finite hlt⟩
      exact fun t ht => (hkeeps.reach hlt ht).correct

/-- As many results as can be asked for, and one request more in parallel. -/
def allResults : RequestP2PConfiguration where
  minimumResults := 2 ^ 31 - 1
  maxFailure := 5
  parallelDiff := 1
  minimumResults_lt := by decide
  maxFailure_lt := by decide
  parallelDiff_lt := by decide

/-- One peer has the data, and it is not asked. -/
theorem not_delivers_allResults :
    RequestP2PConfiguration.new 0x7fffffff 5 1 = .ok allResults ∧
      ¬ Delivers Unit allResults false ((PeerSet.empty : PeerSet 1).update { peerId := 2 }) .empty := by
  refine ⟨rfl, ?_⟩
  rintro ⟨s, hstart, -⟩
  rw [parallelRequests, if_neg (by decide), if_pos (by decide)] at hstart
  cases hstart

end DistributedHashTable

end TomP2P
