import TomP2P.Core.ForkJoin
import TomP2P.Core.PeerSet

/-!
# Requests to the Peers of a Location

How an operation on the hash table asks the peers that routing has found: those that
have the data, and after them those that may have it. As many requests as there are
slots are on their way at a time, until enough of them have succeeded.

A round wants what is left of the results, and takes `parallelDiff` requests more in
parallel. A round that fails has no requests left in its slots, so the next one starts
with an empty array; it wants less by what the round brought, and fills fewer slots.

The operation is told of the results of every round, and of the end. How the rounds
ended is kept as history. Which protocol a request uses and the channels it is sent
on make no difference here.

## Main definitions

* `RequestP2PConfiguration`: How many results are wanted, and how hard to try.
* `ParallelRequests`: Whom to ask, and what is wanted.
* `DistributedHashTable.loopRec`: The rounds.
* `DistributedHashTable.parallelRequests`: The start of them.
-/

namespace TomP2P

/-- How many results are wanted, how many rounds may fail, and how many requests more
    than wanted there are in parallel. -/
structure RequestP2PConfiguration where
  minimumResults : Nat
  maxFailure : Nat
  parallelDiff : Nat
  minimumResults_lt : minimumResults < 2 ^ 31
  maxFailure_lt : maxFailure < 2 ^ 31
  parallelDiff_lt : parallelDiff < 2 ^ 31

namespace RequestP2PConfiguration

/-- Negative values are not accepted. -/
def new (minimumResults maxFailure parallelDiff : BitVec 32) :
    Except JavaException RequestP2PConfiguration :=
  if h : minimumResults.toInt < 0 ∨ maxFailure.toInt < 0 ∨ parallelDiff.toInt < 0 then
    .error (.illegalArgument "Some values need to be larger or equal to zero.")
  else
    .ok
      { minimumResults := minimumResults.toNat
        maxFailure := maxFailure.toNat
        parallelDiff := parallelDiff.toNat
        minimumResults_lt := by rw [BitVec.toInt_eq_toNat_cond] at h; split at h <;> omega
        maxFailure_lt := by rw [BitVec.toInt_eq_toNat_cond maxFailure] at h; split at h <;> omega
        parallelDiff_lt := by rw [BitVec.toInt_eq_toNat_cond parallelDiff] at h; split at h <;> omega }

/-- The number of slots. -/
def parallel (c : RequestP2PConfiguration) : Int := int (c.minimumResults + c.parallelDiff)

end RequestP2PConfiguration

/-- The peers that are still to be asked, what is wanted of them, and what the
    operation was told. -/
structure ParallelRequests (location : Number160) (A : Type) where
  directHit : PeerSet location
  potentialHit : PeerSet location
  min : Int
  nrFailure : Int := 0
  /-- Whether the rounds so far were successful. -/
  rounds : List Bool := []
  /-- The requests the operation was told of. -/
  interMediateResponse : List (FutureResponse PeerAddress A) := []
  /-- How often the operation was told of the end. -/
  response : Nat := 0

namespace DistributedHashTable

variable {location : Number160} {A : Type}

/-- The next peer: those that have the data first. -/
def pollNext (l : ParallelRequests location A) : Option (PeerAddress × ParallelRequests location A) :=
  match l.directHit.pollFirst with
  | some (next, directHit) => some (next, { l with directHit := directHit })
  | none =>
      match l.potentialHit.pollFirst with
      | some (next, potentialHit) => some (next, { l with potentialHit := potentialHit })
      | none => none

/-- What comes of a round, and whether it was the last one: it brought what was
    wanted, or too many rounds have failed. -/
def operationComplete (maxFailure : Nat) (l : ParallelRequests location A) (join : FutureForkJoin)
    (completed : List (FutureResponse PeerAddress A)) : Bool × ParallelRequests location A :=
  let l := { l with
    interMediateResponse := l.interMediateResponse ++ completed
    rounds := l.rounds ++ [join.isSuccess] }
  if join.isSuccess then (true, { l with response := l.response + 1 })
  else
    let l := { l with nrFailure := int (l.nrFailure + 1) }
    if (maxFailure : Int) < l.nrFailure then (true, { l with response := l.response + 1 })
    else (false, { l with min := int (l.min - join.successCounter) })

/-- The rounds. -/
def loopRec (c : RequestP2PConfiguration) (cancelOnFinish : Bool) :
    Client (ParallelRequests location A) PeerAddress A where
  slots := fun l => (int (l.min + c.parallelDiff)).toNat
  next := fun l _ => pollNext l
  enough := fun l active => min l.min active
  idle := fun l => { l with response := l.response + 1 }
  react := fun l _ join completed => operationComplete c.maxFailure l join completed
  cancels := cancelOnFinish

/-- The start of the rounds. A peer that has the data is not asked a second time as
    one that may have it. -/
def parallelRequests (c : RequestP2PConfiguration) (directHit potentialHit : PeerSet location) :
    Except JavaException (Rounds (ParallelRequests location A) PeerAddress A) :=
  let l : ParallelRequests location A :=
    { directHit := directHit
      potentialHit := directHit.toList.foldl PeerSet.remove potentialHit
      min := c.minimumResults }
  if c.minimumResults = 0 then
    .ok { client := { l with response := 1 }, slots := [], control := .ended }
  else if c.parallel < 0 then .error .negativeArraySize
  else .ok { client := l, slots := List.replicate c.parallel.toNat none }

end DistributedHashTable

end TomP2P
