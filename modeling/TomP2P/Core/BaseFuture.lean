import Mathlib.Tactic.Common

/-!
# Futures and their Listeners

A future is completed by the first call of `done`, `failed` or `cancel`, and then its
listeners are called. A listener that is added later is called at once.

Calls on a future run at the same time. Each synchronized block is one step, and so is
the start and the end of every method of a listener. Nothing is locked while a listener
runs, so that what a listener calls on the future itself is like any other call. The
calls of a future are numbered in the order in which they start; one that is over stays
in the list.

A method of a listener returns, throws an exception, or throws an error, which is not
caught anywhere. After an exception `operationComplete` is called once more.

Which calls were made, which listeners were registered and whose `operationComplete` was
called is kept as history.

## Main definitions

* `BaseFutureImpl.Call`: The calls.
* `BaseFutureImpl.Pc`: How far a call is.
* `BaseFutureImpl`, `BaseFutureImpl.step`: The future with the calls on it.
-/

namespace TomP2P

namespace BaseFutureImpl

/-- How a future has completed. -/
inductive FutureType
  | INIT
  | OK
  | FAILED
  | CANCEL
  deriving DecidableEq

/-- The calls on a future. Every `failed` gives a reason in the end. -/
inductive Call (L : Type)
  | addListener (listener : L)
  | removeListener (listener : L)
  | done
  | failed (failed : String)
  | setCancel
  | cancel
  deriving DecidableEq

/-- Who calls a listener: `addListener`, or the loop of `notifyListeners`, whose cursor
    is behind the listener. -/
inductive Caller
  | addListener
  | notifyListeners (cursor : Nat)
  deriving DecidableEq

/-- What a call does next. -/
inductive Pc (L : Type)
  | returned
  /-- `cancel.cancel()`, if there is something to cancel. -/
  | cancelling
  /-- The loop of `notifyListeners`. -/
  | notifyListeners (cursor : Nat)
  /-- `operationComplete` is going to be called, and has been called. -/
  | invoke (listener : L) (caller : Caller)
  | operationComplete (listener : L) (caller : Caller)
  | exceptionCaught (listener : L) (caller : Caller)
  /-- The same for the second call of `operationComplete`. -/
  | invokeAgain (listener : L) (caller : Caller)
  | operationCompleteAgain (listener : L) (caller : Caller)
  /-- `listeners.clear()` -/
  | clear
  deriving DecidableEq

/-- How a method ends that is not part of the future. -/
inductive Outcome
  | returned
  | exception
  | error
  deriving DecidableEq

end BaseFutureImpl

open BaseFutureImpl in
/-- A future with listeners `L`. -/
structure BaseFutureImpl (L : Type) where
  listeners : List L := []
  completed : Bool := false
  type : FutureType := .INIT
  reason : String := "unknown"
  /-- There is something to cancel. -/
  cancel : Bool := false
  calls : List (Pc L) := []
  /-- The types that `done`, `failed` and `cancel` were called for, in order. -/
  requested : List FutureType := []
  /-- The listeners that were added, without those that were removed before the future
      has completed. -/
  registered : List L := []
  /-- The listeners whose `operationComplete` was called, in order. -/
  notified : List L := []
  deriving DecidableEq

namespace BaseFutureImpl

/-- What can happen: somebody calls something, or a call goes on. The outcome is that
    of the method that the call is in. -/
inductive Event (L : Type)
  | call (c : Call L)
  | go (i : Nat) (outcome : Outcome)
  deriving DecidableEq

variable {L : Type} [DecidableEq L]

/-- The blocks of `done`, `failed` and `cancel`. Only the first of them completes. -/
def complete (s : BaseFutureImpl L) (type : FutureType) (reason : String) (next : Pc L) : BaseFutureImpl L :=
  let s := { s with requested := s.requested ++ [type] }
  if s.completed then { s with calls := s.calls ++ [.returned] }
  else { s with completed := true, type := type, reason := reason, calls := s.calls ++ [next] }

/-- The synchronized block that a call starts with. -/
def start (s : BaseFutureImpl L) : Call L → BaseFutureImpl L
  | .addListener listener =>
      let s := { s with registered := s.registered ++ [listener] }
      if s.completed then { s with calls := s.calls ++ [.invoke listener .addListener] }
      else { s with listeners := s.listeners ++ [listener], calls := s.calls ++ [.returned] }
  | .removeListener listener =>
      if s.completed then { s with calls := s.calls ++ [.returned] }
      else
        { s with
          registered := s.registered.erase listener
          listeners := s.listeners.erase listener
          calls := s.calls ++ [.returned] }
  | .done => s.complete .OK s.reason (.notifyListeners 0)
  | .failed failed => s.complete .FAILED failed (.notifyListeners 0)
  | .setCancel => { s with cancel := s.cancel || !s.completed, calls := s.calls ++ [.returned] }
  | .cancel => s.complete .CANCEL s.reason .cancelling

/-- A listener is done with. -/
def Caller.next : Caller → Pc L
  | .addListener => .returned
  | .notifyListeners cursor => .notifyListeners cursor

/-- One step of a call. -/
def advance (s : BaseFutureImpl L) (i : Nat) (outcome : Outcome) : Pc L → Option (BaseFutureImpl L)
  | .returned => none
  | .cancelling =>
      let next := if s.cancel ∧ outcome ≠ .returned then .returned else .notifyListeners 0
      some { s with calls := s.calls.set i next }
  | .notifyListeners cursor =>
      let next := match s.listeners[cursor]? with
        | some listener => .invoke listener (.notifyListeners (cursor + 1))
        | none => .clear
      some { s with calls := s.calls.set i next }
  | .invoke listener caller =>
      some { s with notified := s.notified ++ [listener], calls := s.calls.set i (.operationComplete listener caller) }
  | .operationComplete listener caller =>
      let next := match outcome with
        | .returned => caller.next
        | .exception => .exceptionCaught listener caller
        | .error => .returned
      some { s with calls := s.calls.set i next }
  | .exceptionCaught listener caller =>
      let next := match outcome with
        | .returned => .invokeAgain listener caller
        -- it is logged
        | .exception => caller.next
        | .error => .returned
      some { s with calls := s.calls.set i next }
  | .invokeAgain listener caller =>
      some { s with
        notified := s.notified ++ [listener]
        calls := s.calls.set i (.operationCompleteAgain listener caller) }
  | .operationCompleteAgain _ caller =>
      let next := match outcome with
        | .returned => caller.next
        -- it is logged
        | .exception => caller.next
        | .error => .returned
      some { s with calls := s.calls.set i next }
  | .clear => some { s with listeners := [], calls := s.calls.set i .returned }

def step (s : BaseFutureImpl L) : Event L → Option (BaseFutureImpl L)
  | .call c => some (s.start c)
  | .go i outcome => s.calls[i]?.bind (s.advance i outcome)

/-- A future that was made just now. -/
def Fresh (s : BaseFutureImpl L) : Prop := s = {}

end BaseFutureImpl

end TomP2P
