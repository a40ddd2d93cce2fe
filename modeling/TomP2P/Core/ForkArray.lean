import TomP2P.Core.ForkJoin

/-!
# A Fork Join and its Array

`FutureForkJoin` by itself: the array of forks that it is made for, its loop `join`, the
listeners that it adds to the forks, and the future that is done when all forks are.

A fork is null, on its way, or has completed, before the loop comes to it or at any time
after. The loop looks whether the fork join has completed before each slot. A fork that
has completed already is evaluated on the spot, and the loop goes on after that. The
listener of any other fork is called by whoever completes it. Evaluating is one block,
and what follows it are steps of their own: the other forks are cancelled if the fork
join has completed now, and then the fork is counted as done.

The forks whose `evaluate` was called are kept as history.

## Main definitions

* `Fork`, `ForkListener`: A fork with its slot and its listener.
* `JoinControl`: Where the loop is.
* `ForkArray`, `ForkArray.step`: The fork join.
-/

namespace TomP2P

/-- How far the listener of a fork is. A null has no listener, but is counted as well. -/
inductive ForkListener
  | absent
  | waiting
  | evaluate
  /-- It cancels the forks from this slot on. -/
  | cancel (k : Nat)
  /-- `futureCounter.decrementAndGet()` -/
  | count
  | finished
  deriving DecidableEq

/-- A fork: null, or a future with its outcome. -/
structure Fork where
  future : Option (Option Bool)
  /-- The array has the future. -/
  slot : Bool
  listener : ForkListener := .absent
  deriving DecidableEq

namespace Fork

/-- A slot of the array that a fork join is made for. -/
def ofFuture (future : Option (Option Bool)) : Fork := { future := future, slot := future.isSome }

/-- The future completes, if it has not before, and calls its listener. -/
def complete (f : Fork) (success : Bool) : Fork :=
  match f.future with
  | some none =>
      { f with
        future := some (some success)
        listener := if f.listener = .waiting then .evaluate else f.listener }
  | _ => f

/-- Nothing is to come. -/
def isDone (f : Fork) : Bool := f.future ≠ some none

def isSuccess (f : Fork) : Bool := f.future = some (some true)

/-- The listener is at work. -/
def isBusy (f : Fork) : Bool :=
  match f.listener with
  | .evaluate | .cancel _ | .count => true
  | .absent | .waiting | .finished => false

end Fork

/-- Where the loop `join` is. -/
inductive JoinControl
  /-- It looks whether the fork join has completed. -/
  | check (i : Nat)
  /-- It looks at a slot. -/
  | attach (i : Nat)
  /-- The listener is called on the spot. -/
  | inline (i : Nat)
  /-- A null is counted as done. It may have been the last one that was missing. -/
  | count (i : Nat) (notifyNow : Bool)
  | cancel (k : Nat)
  | ended
  deriving DecidableEq

/-- A fork join with its forks. -/
structure ForkArray where
  cancelFuturesOnFinish : Bool
  forks : List Fork
  join : FutureForkJoin
  futureCounter : Nat
  futuresCompleted : Bool := false
  control : JoinControl := .check 0
  /-- The forks whose `evaluate` was called, in order. -/
  calls : List Nat := []
  deriving DecidableEq

/-- What can happen. -/
inductive ForkEvent
  | complete (i : Nat) (success : Bool)
  /-- The loop goes on. -/
  | join
  /-- The listener of a fork goes on. -/
  | listener (i : Nat)
  deriving DecidableEq

namespace ForkArray

def nrFutures (s : ForkArray) : Nat := s.forks.length

/-- The array that the constructor finds. -/
def create (nrFinishFuturesSuccess : Int) (cancelFuturesOnFinish : Bool) (futures : List (Option (Option Bool))) :
    ForkArray where
  cancelFuturesOnFinish := cancelFuturesOnFinish
  forks := futures.map Fork.ofFuture
  join := { nrFinishFuturesSuccess := nrFinishFuturesSuccess }
  futureCounter := futures.length

/-- One fork more is done. -/
def countDown (s : ForkArray) : ForkArray :=
  { s with
    futureCounter := s.futureCounter - 1
    futuresCompleted := s.futuresCompleted || s.futureCounter - 1 = 0 }

def setListener (s : ForkArray) (i : Nat) (listener : ForkListener) : ForkArray :=
  { s with forks := s.forks.modify i ({ · with listener := listener }) }

/-- `cancelAll` at one slot. -/
def cancelAt (s : ForkArray) (k : Nat) : ForkArray :=
  { s with forks := s.forks.modify k fun f => if f.slot then f.complete false else f }

/-- `evaluate` of a fork that has completed. -/
def evaluate (s : ForkArray) (i : Nat) (success : Bool) : ForkArray :=
  let s := { s with calls := s.calls ++ [i] }
  if s.join.completed then s.setListener i .count
  else
    let join := s.join.evaluate s.nrFutures i success
    let next := if join.completed ∧ s.cancelFuturesOnFinish then .cancel 0 else .count
    { s with
      join := join
      forks := s.forks.modify i ({ · with slot := false, listener := next }) }

/-- The listener of a fork goes on, if it is called. -/
def runListener (s : ForkArray) (i : Nat) (f : Fork) : Option ForkArray :=
  match f.listener with
  | .evaluate => some (s.evaluate i f.isSuccess)
  | .cancel k =>
      if k < s.nrFutures then some ((s.cancelAt k).setListener i (.cancel (k + 1)))
      else some (s.setListener i .count)
  | .count => some (s.countDown.setListener i .finished)
  | .absent | .waiting | .finished => none

/-- The loop looks at a slot. -/
def attach (s : ForkArray) (i : Nat) (f : Fork) : ForkArray :=
  if f.slot then
    if f.isDone then { s.setListener i .evaluate with control := .inline i }
    else { s.setListener i .waiting with control := .check (i + 1) }
  else
    let join := s.join.miss s.nrFutures
    { s.setListener i .count with
      join := join
      control := .count i (join.completed && !s.join.completed) }

/-- The loop goes on, if it can. -/
def runJoin (s : ForkArray) : Option ForkArray :=
  match s.control with
  | .check i => some { s with control := if i < s.nrFutures ∧ ¬ s.join.completed then .attach i else .ended }
  | .attach i => s.forks[i]?.map (s.attach i)
  | .inline i =>
      if s.forks[i]?.any (·.listener = .finished) then some { s with control := .check (i + 1) } else none
  | .count i notifyNow =>
      let next := if notifyNow then (if s.cancelFuturesOnFinish then .cancel 0 else .ended) else .check (i + 1)
      some { s.countDown.setListener i .finished with control := next }
  | .cancel k =>
      if k < s.nrFutures then some { s.cancelAt k with control := .cancel (k + 1) }
      else some { s with control := .ended }
  | .ended => none

def step (s : ForkArray) : ForkEvent → Option ForkArray
  | .complete i success =>
      match s.forks[i]? with
      | some f => if f.isDone then none else some { s with forks := s.forks.modify i (·.complete success) }
      | none => none
  | .join => s.runJoin
  | .listener i => s.forks[i]?.bind fun f => if f.future.isSome then s.runListener i f else none

/-- A fork join for an array with at least so many forks as have to succeed. -/
def Fresh (s : ForkArray) : Prop :=
  ∃ (nrFinishFuturesSuccess : Int) (cancelFuturesOnFinish : Bool) (futures : List (Option (Option Bool))),
    1 ≤ nrFinishFuturesSuccess ∧ nrFinishFuturesSuccess ≤ futures.length ∧
      s = create nrFinishFuturesSuccess cancelFuturesOnFinish futures

end ForkArray

end TomP2P
