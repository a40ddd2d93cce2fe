import Mathlib.Tactic.Common

/-!
# Rounds of Parallel Requests

How a peer asks others in parallel: an array of slots with the requests that are on
their way, and rounds that fill the empty slots and wait until enough requests of
the round have succeeded or all of them have come back.

A round fills the slots one after the other and makes a fork join of them. The fork
join goes over the slots again: an empty slot counts as a failure, a request that has
completed already is evaluated on the spot, and any other gets a listener. The thread
that runs the round then listens to the fork join. Requests complete at any time, also
while the round is being set up, and their listeners are called by other threads. A
request that is evaluated leaves its slot. When the fork join has completed its
listener reacts, which ends the rounds or starts the next one.

A fork join that has completed does not evaluate any more. The next round starts after
that, so that the listeners of an earlier round have no effect and are dropped with
it. A future that reports a value is completed once; a cancelled one has failed.

What is asked, when a round has enough and what comes of it is up to who runs the
rounds (`Client`). Which request was evaluated by an earlier round is kept as history.

## Main definitions

* `FutureResponse`: A request.
* `FutureForkJoin`: What a round waits for.
* `Client`: Who runs the rounds.
* `Rounds`, `Event`, `Rounds.step`: The state, and what happens to it.
* `Rounds.Reach`: The states that come of it.
-/

namespace TomP2P

/-- A request to a peer. There is no outcome while it is on its way, and an answer
    in it if it was a success. -/
structure FutureResponse (P A : Type) where
  peer : P
  outcome : Option (Option A)
  deriving DecidableEq

namespace FutureResponse

variable {P A : Type}

def isCompleted (f : FutureResponse P A) : Bool := f.outcome.isSome

def answer (f : FutureResponse P A) : Option A := f.outcome.join

def isSuccess (f : FutureResponse P A) : Bool := f.answer.isSome

/-- Nothing happens to a request that has completed. -/
def complete (f : FutureResponse P A) (answer : Option A) : FutureResponse P A :=
  if f.isCompleted then f else { f with outcome := some answer }

/-- A request was a success. -/
def succeeded (requests : List (FutureResponse P A)) (request : Nat) : Bool :=
  requests[request]?.any (·.isSuccess)

/-- A request has completed. -/
def returned (requests : List (FutureResponse P A)) (request : Nat) : Bool :=
  requests[request]?.any (·.isCompleted)

end FutureResponse

/-- How far a future is. -/
inductive FutureType
  | INIT
  | OK
  | FAILED
  deriving DecidableEq

/-- The requests of one round. `forksCopy` has those that were evaluated. -/
structure FutureForkJoin where
  nrFinishFuturesSuccess : Int
  counter : Nat := 0
  successCounter : Nat := 0
  type : FutureType := .INIT
  forksCopy : List Nat := []
  deriving DecidableEq

namespace FutureForkJoin

/-- A fork join without requests fails at once. -/
def none : FutureForkJoin := { nrFinishFuturesSuccess := 0, type := .FAILED }

def completed (j : FutureForkJoin) : Bool := j.type ≠ .INIT

def isSuccess (j : FutureForkJoin) : Bool := j.type = .OK

/-- A future finishes once. -/
def finish (j : FutureForkJoin) (type : FutureType) : FutureForkJoin :=
  if j.completed then j else { j with type := type }

/-- One more slot that will not succeed. The last one makes the fork join fail. -/
def miss (j : FutureForkJoin) (nrFutures : Nat) : FutureForkJoin :=
  let j := { j with counter := j.counter + 1 }
  if nrFutures ≤ j.counter then j.finish .FAILED else j

/-- A request has come back. -/
def evaluate (j : FutureForkJoin) (nrFutures : Nat) (request : Nat) (success : Bool) : FutureForkJoin :=
  if j.completed then j
  else
    let j := { j with forksCopy := j.forksCopy ++ [request] }
    if success then
      let j := { j with successCounter := j.successCounter + 1 }
      if j.nrFinishFuturesSuccess ≤ j.successCounter then j.finish .OK else j.miss nrFutures
    else j.miss nrFutures

end FutureForkJoin

/-- Who runs rounds of requests, with its own state. -/
structure Client (σ P A : Type) where
  /-- How many slots a round fills. -/
  slots : σ → Nat
  /-- Whom to ask next, if anybody. The number stands for a random choice. -/
  next : σ → Nat → Option (P × σ)
  /-- How many successes of so many requests are enough. -/
  enough : σ → Nat → Int
  /-- There is no request. -/
  idle : σ → σ
  /-- What comes of a round with so many requests, and whether it was the last one. -/
  react : σ → Nat → FutureForkJoin → List (FutureResponse P A) → Bool × σ
  /-- Requests that are on their way in the end are cancelled. -/
  cancels : Bool

/-- Where the thread that runs the rounds is. -/
inductive Control
  /-- It looks at a slot, after it has seen so many requests. -/
  | fill (i active : Nat)
  /-- The fork join looks whether it has completed. -/
  | check (i : Nat)
  /-- The fork join looks at a slot. -/
  | attach (i : Nat)
  /-- It has made the fork join. -/
  | listen
  /-- It is done, the fork join has a listener. -/
  | wait
  /-- The listener is called. -/
  | react
  | ended
  /-- An access outside of the array. -/
  | thrown
  deriving DecidableEq

/-- Rounds of requests. The slots refer to requests by number. -/
structure Rounds (σ P A : Type) where
  client : σ
  slots : List (Option Nat)
  requests : List (FutureResponse P A) := []
  /-- The requests that earlier rounds have evaluated. -/
  past : List Nat := []
  /-- The number of requests of the round. -/
  active : Nat := 0
  join : FutureForkJoin := .none
  /-- Requests with a listener, and their slots. -/
  listeners : List (Nat × Nat) := []
  control : Control := .fill 0 0

/-- What can happen. -/
inductive Event (A : Type)
  /-- The thread goes on. If it makes a request, that may have completed already. -/
  | go (pick : Nat) (outcome : Option (Option A))
  /-- A request completes. -/
  | complete (request : Nat) (answer : Option A)
  /-- The listener of a request that has completed is called. -/
  | notify (request slot : Nat)
  deriving DecidableEq

namespace Rounds

variable {σ P A : Type}

open FutureResponse

/-- The requests that were evaluated, in order. -/
def evaluated (s : Rounds σ P A) : List Nat := s.past ++ s.join.forksCopy

/-- The requests that the round has evaluated. -/
def completed (s : Rounds σ P A) : List (FutureResponse P A) :=
  s.join.forksCopy.filterMap fun request => s.requests[request]?

/-- A request in a slot has come back. The listener of the fork join is called if it
    is there. -/
def evaluate (s : Rounds σ P A) (request slot : Nat) : Rounds σ P A :=
  if s.join.completed then s
  else
    let join := s.join.evaluate s.slots.length request (succeeded s.requests request)
    { s with
      slots := s.slots.set slot none
      join := join
      control := if join.completed ∧ s.control = .wait then .react else s.control }

/-- All requests that are in a slot are cancelled. -/
def cancel (s : Rounds σ P A) : Rounds σ P A :=
  { s with
    requests := s.requests.mapIdx fun request f => if some request ∈ s.slots then f.complete none else f }

/-- The last round is over. -/
def finish (k : Client σ P A) (s : Rounds σ P A) (client : σ) : Rounds σ P A :=
  let s := { s with client := client, control := .ended }
  if k.cancels then s.cancel else s

/-- A slot is filled if it is empty and there is somebody to ask. -/
def fill (k : Client σ P A) (s : Rounds σ P A) (i active pick : Nat) (outcome : Option (Option A)) :
    Rounds σ P A :=
  match s.slots[i]? with
  | none => { s with control := .thrown }
  | some (some _) => { s with control := .fill (i + 1) (active + 1) }
  | some none =>
      match k.next s.client pick with
      | none => { s with control := .fill (i + 1) active }
      | some (peer, client) =>
          { s with
            client := client
            requests := s.requests ++ [⟨peer, outcome⟩]
            slots := s.slots.set i (some s.requests.length)
            control := .fill (i + 1) (active + 1) }

/-- The fork join of a round that has requests. -/
def fork (k : Client σ P A) (s : Rounds σ P A) (active : Nat) : Rounds σ P A :=
  { s with
    past := s.evaluated
    active := active
    join := { nrFinishFuturesSuccess := k.enough s.client active }
    listeners := []
    control := .check 0 }

/-- The fork join looks at a slot. -/
def attach (s : Rounds σ P A) (i : Nat) : Rounds σ P A :=
  match s.slots[i]? with
  | none => { s with control := .thrown }
  | some none =>
      let join := s.join.miss s.slots.length
      let notifyNow := join.completed && !s.join.completed
      { s with join := join, control := if notifyNow then .listen else .check (i + 1) }
  | some (some request) =>
      let s := { s with control := .check (i + 1) }
      if returned s.requests request then s.evaluate request i
      else { s with listeners := s.listeners ++ [(request, i)] }

/-- The thread goes on, if it is not done. -/
def go (k : Client σ P A) (s : Rounds σ P A) (pick : Nat) (outcome : Option (Option A)) :
    Option (Rounds σ P A) :=
  match s.control with
  | .fill i active =>
      if i < k.slots s.client then some (fill k s i active pick outcome)
      else if active = 0 then some (finish k s (k.idle s.client))
      else some (fork k s active)
  | .check i =>
      if i < s.slots.length ∧ ¬ s.join.completed then some { s with control := .attach i }
      else some { s with control := .listen }
  | .attach i => some (s.attach i)
  | .listen => some { s with control := if s.join.completed then .react else .wait }
  | .react =>
      let reaction := k.react s.client s.active s.join s.completed
      if reaction.1 then some (finish k s reaction.2)
      else some { s with client := reaction.2, control := .fill 0 0 }
  | .wait | .ended | .thrown => none

/-- What an event makes of the rounds, if it can happen. -/
def step (k : Client σ P A) (s : Rounds σ P A) : Event A → Option (Rounds σ P A)
  | .go pick outcome => s.go k pick outcome
  | .complete request answer =>
      if request < s.requests.length ∧ ¬ returned s.requests request then
        some { s with requests := s.requests.modify request (·.complete answer) }
      else none
  | .notify request slot =>
      if (request, slot) ∈ s.listeners ∧ returned s.requests request then
        some ({ s with listeners := s.listeners.erase (request, slot) }.evaluate request slot)
      else none

/-- The states that rounds reach from `s`. -/
inductive Reach (k : Client σ P A) (s : Rounds σ P A) : Rounds σ P A → Prop
  | start : Reach k s s
  | step {t u : Rounds σ P A} (e : Event A) (h : Reach k s t) (hstep : t.step k e = some u) : Reach k s u

/-- The states a sequence of events leads to, for running it. -/
def play (k : Client σ P A) (s : Rounds σ P A) (es : List (Event A)) : Option (Rounds σ P A) :=
  es.foldlM (fun s e => s.step k e) s

end Rounds

end TomP2P
