import Mathlib.Logic.Function.Basic
import TomP2P.Core.Number

/-!
# Messages for an Unreachable Peer

A relay peer keeps messages for a slow unreachable peer in a buffer. The buffer is
emptied when it is full or has not been looked at for a while, and when the
unreachable peer sends its peer map.

Threads run on the forwarder at the same time. Each call of the list is one step, and
so is each synchronized block. The clock is read where the source reads it. What the
forwarder does with the messages that it has taken out of the buffer is left out, and
so is the peer map.

The messages that were ever added and what the calls of `buffered` have returned is
kept as history.

## Main definitions

* `ForwarderCall`: What threads call.
* `ForwarderPc`: Where a thread is.
* `Forwarder`, `Forwarder.step`: The forwarder with its threads.
-/

namespace TomP2P

/-- The calls that use the buffer. -/
inductive ForwarderCall (M : Type)
  | forwardOrBuffer (requestMessage : M)
  | setPeerMap
  | buffered
  /-- `RelayRPC.handleMap`, for the peer of this forwarder. -/
  | handleMap
  deriving DecidableEq

/-- Who has called `buffered`. -/
inductive Drainer
  | forwardMessages
  | handleMap
  | caller
  deriving DecidableEq

/-- What a thread does next. -/
inductive ForwarderPc (M : Type)
  | idle
  | add (requestMessage : M)
  /-- `buffer.size() > 0` -/
  | checkSize
  /-- `buffer.size() > bufferSize` -/
  | checkFull
  /-- `lastAccess + (bufferTimeoutSeconds * 1000) < System.currentTimeMillis()` -/
  | checkTime
  | copy (drainer : Drainer)
  /-- The copy has been made, after so many messages were added. -/
  | clear (drainer : Drainer) (retVal : List M) (since : Nat)
  /-- `lastAccess = System.currentTimeMillis()` -/
  | access
  deriving DecidableEq

/-- A call of `buffered` that has returned, with the number of messages that were
    added before it made its copy. -/
structure Drain (M : Type) where
  since : Nat
  retVal : List M
  deriving DecidableEq

/-- A forwarder, and the threads `T` that run on it. -/
structure Forwarder (T M : Type) where
  isSlow : Bool
  bufferSize : Int
  bufferTimeoutSeconds : Int
  buffer : List M := []
  lastAccess : Int
  threads : T → ForwarderPc M := fun _ => .idle
  /-- The messages that were added, in order. -/
  added : List M := []
  drains : List (Drain M) := []

/-- What can happen: a thread calls something, or it goes on at a time. -/
inductive ForwarderEvent (T M : Type)
  | call (t : T) (c : ForwarderCall M)
  | go (t : T) (currentTimeMillis : Int)
  deriving DecidableEq

namespace Forwarder

variable {T M : Type} [DecidableEq T]

def goto (s : Forwarder T M) (t : T) (pc : ForwarderPc M) : Forwarder T M :=
  { s with threads := Function.update s.threads t pc }

/-- The first thing that a call does. If the peer is not slow then the message is not
    buffered but sent. -/
def enter (s : Forwarder T M) : ForwarderCall M → ForwarderPc M
  | .forwardOrBuffer requestMessage => if s.isSlow then .add requestMessage else .idle
  | .setPeerMap => .checkSize
  | .buffered => .copy .caller
  | .handleMap => .copy .handleMap

/-- Where `buffered` returns to. -/
def afterBuffered : Drainer → ForwarderPc M
  | .forwardMessages => .access
  | .handleMap => .checkSize
  | .caller => .idle

/-- One step of a thread that is in a call. -/
def go (s : Forwarder T M) (t : T) (currentTimeMillis : Int) : Option (Forwarder T M) :=
  match s.threads t with
  | .idle => none
  | .add requestMessage =>
      some (({ s with
        buffer := s.buffer ++ [requestMessage]
        added := s.added ++ [requestMessage] } : Forwarder T M).goto t .checkSize)
  | .checkSize => some (s.goto t (if 0 < s.buffer.length then .checkFull else .idle))
  | .checkFull =>
      some (s.goto t (if s.bufferSize < s.buffer.length then .copy .forwardMessages else .checkTime))
  | .checkTime =>
      some (s.goto t (if s.lastAccess + int (s.bufferTimeoutSeconds * 1000) < currentTimeMillis
        then .copy .forwardMessages else .idle))
  | .copy drainer => some (s.goto t (.clear drainer s.buffer s.added.length))
  | .clear drainer retVal since =>
      some (({ s with
        buffer := []
        drains := s.drains ++ [⟨since, retVal⟩] } : Forwarder T M).goto t (afterBuffered drainer))
  | .access => some ({ s with lastAccess := currentTimeMillis }.goto t .idle)

/-- A thread calls something only when it is in no other call. -/
def step (s : Forwarder T M) : ForwarderEvent T M → Option (Forwarder T M)
  | .call t c =>
      match s.threads t with
      | .idle => some (s.goto t (s.enter c))
      | _ => none
  | .go t currentTimeMillis => s.go t currentTimeMillis

/-- A forwarder that was made just now. -/
def Fresh (s : Forwarder T M) : Prop :=
  s.buffer = [] ∧ s.added = [] ∧ s.drains = [] ∧ ∀ t, s.threads t = .idle

end Forwarder

end TomP2P
