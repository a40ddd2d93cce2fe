import TomP2P.Core.BaseFuture
import Mathlib.Logic.Function.Basic

/-!
# Waiting for Several Futures

The combinators of `Futures`. Each of them adds a listener to every future of a list, which is
called as soon as the future has completed, and returns a future that the listeners complete.

The futures complete at any time and in any order, before the listeners are added or after. The
listeners of several futures run at the same time: each access to what they share is one step,
that is the question whether the returned future has completed, the counter, and `done` and
`failed`, of which only the first call has an effect. Between these steps anything can happen. A
listener that is added to a completed future is called at once; the loop that adds the listeners
is not held up by it here, which only allows more than the code does.

The same future may be in the list more than once, so that listeners go by their positions. The
variants for arrays do the same. What others do with the returned future is left out.

In which order the futures completed and which positions were counted is kept as history.

## Main definitions

* `Futures.Combinator`: The four combinators.
* `Futures.Pc`: How far a listener is.
* `Futures`, `Futures.step`: The state, and what can happen.
-/

namespace TomP2P

namespace Futures

/-- How a future has completed. -/
abbrev FutureType := BaseFutureImpl.FutureType

inductive Combinator
  | whenAll
  | whenAllSuccess
  | whenAny
  | whenAnySuccess
  deriving DecidableEq

/-- What a listener does next. -/
inductive Pc
  /-- It was not added yet, or waits for its future. -/
  | unregistered
  | waiting
  /-- `futureDone.isCompleted()` -/
  | isCompleted
  /-- `future.isFailed()`, or `future.isSuccess()` -/
  | ask
  | incrementAndGet
  | done
  | failed
  | returned
  deriving DecidableEq

/-- What the returned future is completed with. -/
inductive Result (F : Type)
  | all (futures : List F)
  | one (future : F)
  | failed (reason : String)
  deriving DecidableEq

/-- How a future has completed, with the reason it keeps. -/
structure Completion where
  type : FutureType
  reason : String := "unknown"
  deriving DecidableEq

def typeName : FutureType → String
  | .INIT => "INIT"
  | .OK => "OK"
  | .FAILED => "FAILED"
  | .CANCEL => "CANCEL"

/-- `failedReason` of a future that has completed. -/
def Completion.failedReason (c : Completion) : String :=
  "Future (compl/canc):" ++ "true" ++ "/" ++ ", " ++ typeName c.type ++ ", " ++ c.reason

/-- Where a listener starts. -/
def Combinator.start : Combinator → Pc
  | .whenAll => .incrementAndGet
  | .whenAllSuccess => .isCompleted
  | .whenAny => .done
  | .whenAnySuccess => .isCompleted

/-- What a listener does when it knows how its future has completed. -/
def Combinator.answer (combinator : Combinator) (type : FutureType) : Pc :=
  match combinator with
  | .whenAnySuccess => if type = .OK then .done else .incrementAndGet
  | _ => if type ≠ .OK then .failed else .incrementAndGet

/-- What the listener does that counts to the end. -/
def Combinator.last : Combinator → Pc
  | .whenAnySuccess => .failed
  | _ => .done

/-- What `done` is called with. -/
def Combinator.value {F : Type} (combinator : Combinator) (all : List F) (future : F) : Result F :=
  match combinator with
  | .whenAll => .all all
  | .whenAllSuccess => .all all
  | .whenAny => .one future
  | .whenAnySuccess => .one future

/-- What `failed` is called with. -/
def Combinator.reason (combinator : Combinator) (completion : Completion) : String :=
  match combinator with
  | .whenAnySuccess => "not a single future was successful"
  | _ => completion.failedReason

/-- What can happen: a future completes, the loop adds a listener, a listener is called, and a
    listener goes on. -/
inductive Event (F : Type)
  | complete (future : F) (completion : Completion)
  | addListener
  | notify (n : Nat)
  | go (n : Nat)
  deriving DecidableEq

end Futures

open Futures in
/-- A combinator on its way, for futures `F`. -/
structure Futures (F : Type) where
  combinator : Combinator
  all : List F
  futures : F → Option Completion
  /-- How many listeners were added, and how far they are. -/
  registered : Nat := 0
  pc : Nat → Pc := fun _ => .unregistered
  counter : Nat := 0
  /-- The returned future. -/
  futureDone : Option (Result F) := none
  /-- The futures that have completed, in this order. -/
  completions : List F := []
  /-- The positions that were counted. -/
  counted : List Nat := []

namespace Futures

variable {F : Type} [DecidableEq F]

def size (s : Futures F) : Nat := s.all.length

/-- How the future at a position has completed. -/
def completion (s : Futures F) (n : Nat) : Option Completion := s.all[n]?.bind s.futures

def setPc (s : Futures F) (n : Nat) (pc : Pc) : Futures F := { s with pc := Function.update s.pc n pc }

/-- Completes the returned future, if it has not completed. -/
def finish (s : Futures F) (n : Nat) (result : Result F) : Futures F :=
  { s.setPc n .returned with futureDone := some (s.futureDone.getD result) }

/-- A step of the listener at a position, whose future has completed. -/
def advance (s : Futures F) (n : Nat) (future : F) (completion : Completion) : Option (Futures F) :=
  match s.pc n with
  | .isCompleted => some (s.setPc n (if s.futureDone.isSome then .returned else .ask))
  | .ask => some (s.setPc n (s.combinator.answer completion.type))
  | .incrementAndGet =>
      some { s.setPc n (if s.counter + 1 = s.size then s.combinator.last else .returned) with
        counter := s.counter + 1
        counted := n :: s.counted }
  | .done => some (s.finish n (s.combinator.value s.all future))
  | .failed => some (s.finish n (.failed (s.combinator.reason completion)))
  | _ => none

def step (s : Futures F) : Event F → Option (Futures F)
  | .complete future completion =>
      match s.futures future with
      | some _ => none
      | none =>
          some { s with
            futures := Function.update s.futures future (some completion)
            completions := s.completions ++ [future] }
  | .addListener =>
      match s.all[s.registered]? with
      | none => none
      | some future =>
          let pc := if (s.futures future).isSome then s.combinator.start else .waiting
          some { s.setPc s.registered pc with registered := s.registered + 1 }
  | .notify n =>
      if s.pc n = .waiting ∧ (s.completion n).isSome then some (s.setPc n s.combinator.start) else none
  | .go n =>
      match s.all[n]? with
      | none => none
      | some future => (s.futures future).bind (s.advance n future)

/-- A combinator that was called just now, with any of the futures completed, in the order that is
    kept. -/
def Fresh (combinator : Combinator) (all : List F) (s : Futures F) : Prop :=
  ∃ futures completions, s = { combinator, all, futures, completions } ∧ completions.Nodup ∧
    ∀ f, f ∈ completions ↔ (futures f).isSome = true

end Futures

end TomP2P
