import Mathlib.Data.List.Basic
import Mathlib.Logic.Function.Basic

/-!
# Reserving Connections

How many connections a peer may have. `BulkReservation` has a semaphore for each
transport. Whoever wants to connect asks it for a number of permits, and a worker
hands them out in a `ChannelCreator`, one request after the other. The creator counts
its own channels with semaphores again.

The permits come back when the future of the creator completes, by a listener. A
creator that is shut down closes its channels. When all of them are closed a listener
takes all permits of the creator, and completes the future. A creator that is being
shut down already completes its future as failed.

The shutdown of the reservation lets no request in any more, shuts down all creators,
and takes all permits when the last of them is done. It needs the lock that the worker
holds while it reserves.

Every step is what one thread does in one go. A channel closes at any time, for
whatever reason, and its listener is called once. The group of channels is closed when
all its members are. The worker may be interrupted where it waits.

## Main definitions

* `ChannelCreator`: A creator with its channels, and the threads that shut it down.
* `BulkReservation`: The reservation with its creators.
* `BulkReservation.step`: What can happen.
-/

namespace TomP2P

open Function

/-- The two kinds of connections. -/
inductive Transport
  | UDP
  | TCP
  deriving DecidableEq

/-- How far a channel is. -/
inductive ChannelPhase
  | connected
  | closed
  /-- The close listener was called. -/
  | released
  deriving DecidableEq

structure CreatedChannel where
  transport : Transport
  phase : ChannelPhase := .connected
  deriving DecidableEq

/-- Where the shutdown of a creator is. -/
inductive ClosePhase
  | idle
  /-- `recipients.close()` -/
  | closing
  | acquire (t : Transport)
  /-- `shutdownFuture().done()` -/
  | finish
  | ended
  deriving DecidableEq

/-- Where the listeners of the shutdown future are: that of `create`, which releases the
    permits, and that of `addToSet`. -/
inductive ReleasePhase
  | waiting
  | release (t : Transport)
  | remove
  | ended
  deriving DecidableEq

/-- The listener that the shutdown of the reservation adds. -/
inductive CounterPhase
  | absent
  | waiting
  | called
  deriving DecidableEq

/-- A channel creator. -/
structure ChannelCreator where
  maxPermits : Transport → Int
  semaphore : Transport → Int
  isShutdown : Bool := false
  recipients : List CreatedChannel := []
  close : ClosePhase := .idle
  release : ReleasePhase := .waiting
  counter : CounterPhase := .absent
  /-- History: how often the permits were given back. -/
  givenBack : Transport → Nat := fun _ => 0

namespace ChannelCreator

def new (permits : Transport → Int) : ChannelCreator where
  maxPermits := permits
  semaphore := permits

/-- The shutdown future has completed. -/
def isCompleted (c : ChannelCreator) : Bool := c.release ≠ .waiting

/-- The shutdown future completes, once. -/
def complete (c : ChannelCreator) : ChannelCreator :=
  if c.isCompleted then c else { c with release := .release .UDP }

/-- `createUDP` and `createTCP` -/
def connect (c : ChannelCreator) (t : Transport) : Option ChannelCreator :=
  if c.isShutdown then none
  else if 1 ≤ c.semaphore t then
    some { c with
      semaphore := update c.semaphore t (c.semaphore t - 1)
      recipients := c.recipients ++ [{ transport := t }] }
  else none

def setPhase (c : ChannelCreator) (k : Nat) (phase : ChannelPhase) : ChannelCreator :=
  { c with recipients := c.recipients.modify k ({ · with phase := phase }) }

def closeChannel (c : ChannelCreator) (k : Nat) : Option ChannelCreator :=
  match c.recipients[k]? with
  | some channel => if channel.phase = .connected then some (c.setPhase k .closed) else none
  | none => none

/-- `ChannelCloseListener.operationComplete` -/
def closeListener (c : ChannelCreator) (k : Nat) : Option ChannelCreator :=
  match c.recipients[k]? with
  | some channel =>
      if channel.phase = .closed then
        let t := channel.transport
        some { c.setPhase k .released with semaphore := update c.semaphore t (c.semaphore t + 1) }
      else none
  | none => none

def shutdown (c : ChannelCreator) : ChannelCreator :=
  if c.isShutdown then c.complete else { c with isShutdown := true, close := .closing }

/-- `acquireUninterruptibly` of all permits -/
def acquireAll (c : ChannelCreator) (t : Transport) (next : ClosePhase) : Option ChannelCreator :=
  if c.maxPermits t ≤ c.semaphore t then
    some { c with semaphore := update c.semaphore t (c.semaphore t - c.maxPermits t), close := next }
  else none

/-- The group of channels and its listener. -/
def runClose (c : ChannelCreator) : Option ChannelCreator :=
  match c.close with
  | .closing =>
      if c.recipients.all (·.phase ≠ .connected) then some { c with close := .acquire .UDP } else none
  | .acquire .UDP => c.acquireAll .UDP (.acquire .TCP)
  | .acquire .TCP => c.acquireAll .TCP .finish
  | .finish => some { c.complete with close := .ended }
  | .idle | .ended => none

end ChannelCreator

/-- A request for permits. -/
structure WaitReservation where
  permits : Transport → Int

/-- Where the worker is. It holds the lock unless it is idle. -/
inductive WorkerPhase
  | idle
  | acquire (t : Transport) (request : WaitReservation)
  | reserve (request : WaitReservation)

/-- Where the shutdown of the reservation is. -/
inductive StopPhase
  | idle
  /-- `executor.shutdownNow()` -/
  | drain
  | copy
  /-- It adds its listener to the first of these creators. -/
  | listen (rest : List Nat)
  /-- It shuts down a creator. -/
  | shutdown (i : Nat) (rest : List Nat)
  | ended
  deriving DecidableEq

/-- The listener that was called last takes all permits. -/
inductive TakePhase
  | idle
  | acquire (t : Transport)
  | ended
  deriving DecidableEq

/-- The reservation of a peer. -/
structure BulkReservation where
  maxPermits : Transport → Int
  semaphore : Transport → Int
  isShutdown : Bool := false
  queue : List WaitReservation := []
  worker : WorkerPhase := .idle
  creators : List ChannelCreator := []
  stop : StopPhase := .idle
  /-- How many creators the shutdown waits for. -/
  size : Nat := 0
  completeCounter : Nat := 0
  take : TakePhase := .idle

/-- What can happen. -/
inductive ReservationEvent
  | create (permitsUDPUnadjusted permitsTCP : BitVec 32)
  | work
  | interrupt
  /-- Something that is done to a creator. -/
  | connect (i : Nat) (t : Transport)
  | closeChannel (i k : Nat)
  | closeListener (i k : Nat)
  | shutdown (i : Nat)
  | close (i : Nat)
  /-- The listeners of the shutdown future of a creator go on. -/
  | listener (i : Nat)
  /-- The shutdown of the reservation starts, or goes on. -/
  | stop
  | count (i : Nat)
  | take

namespace BulkReservation

def new (maxPermits : Transport → Int) : BulkReservation where
  maxPermits := maxPermits
  semaphore := maxPermits

/-- For each TCP connection there are three more UDP connections. -/
def adjust (permitsUDPUnadjusted permitsTCP : BitVec 32) : Transport → Int
  | .UDP => (permitsUDPUnadjusted + permitsTCP * 3).toInt
  | .TCP => permitsTCP.toInt

/-- A request is refused if it is too large or if the reservation shuts down. -/
def create (s : BulkReservation) (permits : Transport → Int) : BulkReservation :=
  if s.maxPermits .UDP < permits .UDP ∨ s.maxPermits .TCP < permits .TCP ∨ s.isShutdown then s
  else { s with queue := s.queue ++ [{ permits := permits }] }

/-- `acquire` throws on a negative number, and waits until there are enough. -/
def runAcquire (s : BulkReservation) (t : Transport) (request : WaitReservation) (next : WorkerPhase) :
    Option BulkReservation :=
  if request.permits t < 0 then some { s with worker := .idle }
  else if request.permits t ≤ s.semaphore t then
    some { s with
      semaphore := update s.semaphore t (s.semaphore t - request.permits t)
      worker := next }
  else none

/-- `WaitReservation.run` -/
def runWorker (s : BulkReservation) : Option BulkReservation :=
  match s.worker with
  | .idle =>
      match s.queue with
      | [] => none
      | request :: queue =>
          some { s with queue := queue, worker := if s.isShutdown then .idle else .acquire .UDP request }
  | .acquire .UDP request => s.runAcquire .UDP request (.acquire .TCP request)
  | .acquire .TCP request => s.runAcquire .TCP request (.reserve request)
  | .reserve request =>
      some { s with creators := s.creators ++ [ChannelCreator.new request.permits], worker := .idle }

/-- The worker is interrupted. It gives back what it has. -/
def interrupt (s : BulkReservation) : Option BulkReservation :=
  match s.worker with
  | .acquire .UDP _ => some { s with worker := .idle }
  | .acquire .TCP request =>
      some { s with
        semaphore := update s.semaphore .UDP (s.semaphore .UDP + request.permits .UDP)
        worker := .idle }
  | .idle | .reserve _ => none

def setCreator (s : BulkReservation) (i : Nat) (c : ChannelCreator) : BulkReservation :=
  { s with creators := s.creators.set i c }

/-- The permits of a creator for one transport are released. -/
def release (s : BulkReservation) (i : Nat) (c : ChannelCreator) (t : Transport) (next : ReleasePhase) :
    BulkReservation :=
  { s.setCreator i { c with release := next, givenBack := update c.givenBack t (c.givenBack t + 1) } with
    semaphore := update s.semaphore t (s.semaphore t + c.maxPermits t) }

/-- The listeners of the shutdown future. -/
def runListener (s : BulkReservation) (i : Nat) (c : ChannelCreator) : Option BulkReservation :=
  match c.release with
  | .release .UDP => some (s.release i c .UDP (.release .TCP))
  | .release .TCP => some (s.release i c .TCP .remove)
  | .remove => some (s.setCreator i { c with release := .ended })
  | .waiting | .ended => none

/-- The creators that were not removed yet. -/
def channelCreators (s : BulkReservation) : List Nat :=
  (List.range s.creators.length).filter fun i => s.creators[i]?.any (·.release ≠ .ended)

/-- The shutdown of the reservation. -/
def runStop (s : BulkReservation) : Option BulkReservation :=
  match s.stop with
  | .idle =>
      match s.worker with
      | .idle => some { s with isShutdown := true, stop := .drain }
      | _ => none
  | .drain => some { s with queue := [], stop := .copy }
  | .copy => some { s with size := s.channelCreators.length, stop := .listen s.channelCreators }
  | .listen [] => some { s with stop := .ended }
  | .listen (i :: rest) =>
      s.creators[i]?.map fun c =>
        { s.setCreator i { c with counter := .waiting } with stop := .shutdown i rest }
  | .shutdown i rest => s.creators[i]?.map fun c => { s.setCreator i c.shutdown with stop := .listen rest }
  | .ended => none

/-- The listener of the shutdown of the reservation is called. -/
def count (s : BulkReservation) (i : Nat) (c : ChannelCreator) : Option BulkReservation :=
  if c.counter = .waiting ∧ c.isCompleted then
    some { s.setCreator i { c with counter := .called } with
      completeCounter := s.completeCounter + 1
      take := if s.completeCounter + 1 = s.size then .acquire .UDP else s.take }
  else none

def takeAll (s : BulkReservation) (t : Transport) (next : TakePhase) : Option BulkReservation :=
  if s.maxPermits t ≤ s.semaphore t then
    some { s with semaphore := update s.semaphore t (s.semaphore t - s.maxPermits t), take := next }
  else none

def runTake (s : BulkReservation) : Option BulkReservation :=
  match s.take with
  | .acquire .UDP => s.takeAll .UDP (.acquire .TCP)
  | .acquire .TCP => s.takeAll .TCP .ended
  | .idle | .ended => none

def step (s : BulkReservation) : ReservationEvent → Option BulkReservation
  | .create permitsUDPUnadjusted permitsTCP => some (s.create (adjust permitsUDPUnadjusted permitsTCP))
  | .work => s.runWorker
  | .interrupt => s.interrupt
  | .connect i t => s.creators[i]?.bind fun c => (c.connect t).map (s.setCreator i)
  | .closeChannel i k => s.creators[i]?.bind fun c => (c.closeChannel k).map (s.setCreator i)
  | .closeListener i k => s.creators[i]?.bind fun c => (c.closeListener k).map (s.setCreator i)
  | .shutdown i => s.creators[i]?.map fun c => s.setCreator i c.shutdown
  | .close i => s.creators[i]?.bind fun c => c.runClose.map (s.setCreator i)
  | .listener i => s.creators[i]?.bind fun c => s.runListener i c
  | .stop => s.runStop
  | .count i => s.creators[i]?.bind fun c => s.count i c
  | .take => s.runTake

/-- A new reservation. -/
def Fresh (s : BulkReservation) : Prop :=
  ∃ maxPermits : Transport → Int, (∀ t, 0 ≤ maxPermits t) ∧ s = new maxPermits

end BulkReservation

end TomP2P
