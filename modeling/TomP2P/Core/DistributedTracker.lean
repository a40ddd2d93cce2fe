import TomP2P.Core.ForkJoin
import TomP2P.Core.Message
import TomP2P.Core.PeerSet

/-!
# Asking the Trackers of a Key

Trackers are asked in rounds of parallel requests, to learn who is tracked under a key or
to be tracked. There are two queues: the trackers that routing has found, and behind them
the peers that other trackers name. A round is over when one request has succeeded.

An answer is a success also if the tracker refused the entry, since then the request has
come through. A tracker that has more to tell is put back into the queue.

## Main definitions

* `TrackerConfiguration`: When to stop.
* `TrackerAnswer`: What a tracker replies.
* `TrackerRequests`: The queues, and what came of the requests so far.
* `DistributedTracker.operationComplete`: What comes of a round.
* `DistributedTracker.loop`: The start of the rounds.
-/

namespace TomP2P

structure TrackerConfiguration where
  maxFailure : Nat
  parallel : Nat
  atLeastSuccessfulRequests : Nat
  atLeastEntriesFromTrackers : Nat
  maxFullTrackers : Int := 20
  maxPrimaryTrackers : Int := 5

namespace TrackerAnswer

/-- The types of a message that tell of a communication that was successful. A reply of
    any other type fails. -/
inductive Kind
  | OK
  | PARTIALLY_OK
  | NOT_FOUND
  | DENIED
  deriving DecidableEq

end TrackerAnswer

/-- The reply of a tracker. -/
structure TrackerAnswer where
  type : TrackerAnswer.Kind
  trackerData : Option TrackerData := none
  deriving DecidableEq

/-- The peers a tracker names. -/
def TrackerData.peers (t : TrackerData) : List PeerAddress := t.peerAddresses.entries.map fun e => e.2.1

/-- A hash set of addresses. -/
abbrev AddressSet := HashedMap PeerKey PeerAddress

/-- An address that is there already stays as it is. -/
def AddressSet.add (s : AddressSet) (p : PeerAddress) : AddressSet :=
  if s.contains p.key then s else s.put p.key p

/-- The queues, what came of the requests so far, and what the future was told. -/
structure TrackerRequests (location stableRandom : Number160) where
  queueToAsk : PeerSet location
  secondaryQueue : PeerSet stableRandom := .empty
  alreadyAsked : AddressSet := .empty
  successAsked : AddressSet := .empty
  peerOnTracker : HashedMap PeerKey (PeerAddress × TrackerData) := .empty
  nrFailures : Nat := 0
  trackerFull : Nat := 0
  successfulRequests : Nat := 0
  primaryTracker : Nat := 0
  knownPeers : Option (HashedSet Number160) := none
  /-- The trackers that may be asked in the end. -/
  potentialTrackers : Option (List PeerAddress) := none

namespace DistributedTracker

variable {location stableRandom : Number160}

def poll {location : Number160} (isGet : Bool) (queue : PeerSet location) (pick : Nat) :
    Option (PeerAddress × PeerSet location) :=
  if isGet then queue.pollAt pick else queue.pollFirst

/-- The next tracker: from the first queue as long as not too many slots were looked at. -/
def pollNext (c : TrackerConfiguration) (isGet : Bool) (l : TrackerRequests location stableRandom) (pick : Nat) :
    Option (PeerAddress × TrackerRequests location stableRandom) :=
  let l := { l with primaryTracker := l.primaryTracker + 1 }
  let primary := if (l.primaryTracker : Int) ≤ c.maxPrimaryTrackers then poll isGet l.queueToAsk pick else none
  match primary with
  | some (next, queueToAsk) =>
      some (next, { l with queueToAsk := queueToAsk, alreadyAsked := l.alreadyAsked.add next })
  | none =>
      match poll isGet l.secondaryQueue pick with
      | some (next, secondaryQueue) =>
          some (next, { l with secondaryQueue := secondaryQueue, alreadyAsked := l.alreadyAsked.add next })
      | none => none

/-- Adds the peers that are neither asked nor in the queue. -/
def mergeDiff (queue : PeerSet stableRandom) (newPeers : List PeerAddress) (knownPeers1 : AddressSet)
    (knownPeers2 : PeerSet location) : PeerSet stableRandom :=
  (newPeers.filter fun p => !(knownPeers1.contains p.key || knownPeers2.contains p)).foldl PeerSet.add queue

def storeResult (l : TrackerRequests location stableRandom) (newDataMap : TrackerData) (newDataProvider : PeerAddress) :
    TrackerRequests location stableRandom :=
  { l with
    knownPeers := l.knownPeers.map fun knownPeers => knownPeers.add newDataProvider.peerId
    peerOnTracker := l.peerOnTracker.put newDataProvider.key
      (((l.peerOnTracker.get newDataProvider.key).map Prod.fst).getD newDataProvider, newDataMap) }

def evaluate (c : TrackerConfiguration) (isGet : Bool) (l : TrackerRequests location stableRandom) : Bool :=
  if isGet then
    decide (c.atLeastSuccessfulRequests ≤ l.successfulRequests) ||
      decide (c.atLeastEntriesFromTrackers ≤ l.peerOnTracker.size)
  else decide (c.atLeastSuccessfulRequests ≤ l.successfulRequests)

/-- What a tracker tells of other peers. All of them are put into the second queue, after
    those that are known were left out. -/
def learn (l : TrackerRequests location stableRandom) (recipient : PeerAddress) (newDataMap : TrackerData) :
    TrackerRequests location stableRandom :=
  let newPeers := newDataMap.peers
  let l := { l with secondaryQueue := mergeDiff l.secondaryQueue newPeers l.alreadyAsked l.queueToAsk }
  let l := storeResult l newDataMap recipient
  { l with secondaryQueue := newPeers.foldl PeerSet.add l.secondaryQueue }

/-- A tracker has replied. It counts as a success unless it is full. -/
def hear (l : TrackerRequests location stableRandom) (recipient : PeerAddress) (answer : TrackerAnswer) :
    TrackerRequests location stableRandom :=
  let l := if answer.type = .DENIED then l else { l with successAsked := l.successAsked.add recipient }
  let l := match answer.trackerData with
    | none => l
    | some newDataMap => learn l recipient newDataMap
  if answer.type = .DENIED then l else { l with successfulRequests := l.successfulRequests + 1 }

/-- What comes of a reply, and whether that is enough. If not, a tracker that has more to
    tell is kept, and too many that are full are enough as well. -/
def accept (c : TrackerConfiguration) (isGet : Bool) (l : TrackerRequests location stableRandom)
    (recipient : PeerAddress) (answer : TrackerAnswer) : Bool × TrackerRequests location stableRandom :=
  let l := hear l recipient answer
  if evaluate c isGet l then (true, l)
  else match answer.type with
    | .PARTIALLY_OK => (false, { l with queueToAsk := l.queueToAsk.add recipient })
    | .DENIED =>
        let l := { l with trackerFull := l.trackerFull + 1 }
        (decide (c.maxFullTrackers ≤ l.trackerFull), l)
    | _ => (false, l)

/-- No tracker has replied. Returns whether too many rounds have failed. -/
def reject (c : TrackerConfiguration) (l : TrackerRequests location stableRandom) :
    Bool × TrackerRequests location stableRandom :=
  let l := { l with nrFailures := l.nrFailures + 1 }
  (decide (c.maxFailure < l.nrFailures), l)

/-- The future is told of the end. -/
def conclude (l : TrackerRequests location stableRandom) : TrackerRequests location stableRandom :=
  { l with potentialTrackers := some (l.queueToAsk.toList ++ l.secondaryQueue.toList) }

/-- What comes of a round, and whether it was the last one. A slot that is empty after
    the round was looked at in vain, which counts as well for the first queue. -/
def operationComplete (c : TrackerConfiguration) (isGet : Bool) (l : TrackerRequests location stableRandom)
    (active : Nat) (future : FutureForkJoin) (completed : List (FutureResponse PeerAddress TrackerAnswer)) :
    Bool × TrackerRequests location stableRandom :=
  let l := { l with primaryTracker := l.primaryTracker + (c.parallel - active) }
  let (finished, l) := match completed.getLast? with
    | some ⟨recipient, some (some answer)⟩ =>
        if future.isSuccess || decide (answer.type = .DENIED) then accept c isGet l recipient answer
        else reject c l
    | _ => reject c l
  (finished, if finished then conclude l else l)

/-- The rounds. Requests that are on their way in the end are cancelled if the entries
    were only to be read. -/
def loopRec (c : TrackerConfiguration) (isGet : Bool) :
    Client (TrackerRequests location stableRandom) PeerAddress TrackerAnswer where
  slots := fun _ => c.parallel
  next := fun l pick => pollNext c isGet l pick
  enough := fun _ _ => 1
  idle := conclude
  react := fun l active future completed => operationComplete c isGet l active future completed
  cancels := isGet

/-- The start of the rounds. -/
def loop (c : TrackerConfiguration) (queueToAsk : PeerSet location) (knownPeers : Option (HashedSet Number160)) :
    Rounds (TrackerRequests location stableRandom) PeerAddress TrackerAnswer :=
  { client := { queueToAsk := queueToAsk, knownPeers := knownPeers }
    slots := List.replicate c.parallel none }

end DistributedTracker

end TomP2P
