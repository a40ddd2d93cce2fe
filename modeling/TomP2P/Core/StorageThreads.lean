import Mathlib.Logic.Function.Basic
import TomP2P.Core.RangeLock
import TomP2P.Core.StorageRead

/-!
# Threads on the Storage Layer

The operations of the storage layer as threads run them, with the locks they take.

An operation is a list of commands. An action is one call of the backend; what
follows from its answer are the commands it leaves, so that an `if` and a loop are
both unfolded while the operation runs. A block takes locks, runs its actions and
frees the locks whatever happens, as `try` and `finally` do. The maps that the
backend hands out are views, and a loop over such a view asks for the next key
when it comes to it.

A thread is a stack of blocks. A lock that has to wait leaves everything as it is.
If the thread is interrupted while it waits, `lock` returns null and the operation
goes on without the lock, until `finally` throws on it.

The checks of the protection are one action each, since they look at owners only
and not at keys. The answers of the operations are those of the sequential model
and are left out here.

## Main definitions

* `StorageLock`: A range of one of the two locks.
* `StorageAction`, `StorageAction.run`, `StorageAction.keys`: The calls of the
  backend, what they do, and the keys they read or change.
* `StorageCall`, `StorageCall.commands`: The operations.
* `StorageSystem`, `StorageSystem.step`: The storage layer with its threads.
-/

namespace TomP2P

open Function

/-- The two locks of a storage layer. -/
inductive LockTable
  | rangeLock
  | responsibilityLock
  deriving DecidableEq

/-- A range that is taken of one of the locks. -/
@[ext] structure StorageLock where
  table : LockTable
  range : RangeLock.Range Number640
  deriving DecidableEq

namespace StorageLock

def between (min max : Number640) : StorageLock := ⟨.rangeLock, ⟨min, max⟩⟩

def ofKey (number640 : Number640) : StorageLock := between number640 number640

def ofContent (number480 : Number480) : StorageLock :=
  between (number480.version Number160.ZERO) (number480.version Number160.MAX_VALUE)

def ofDomain (number320 : Number320) : StorageLock :=
  between ⟨number320.locationKey, number320.domainKey, Number160.ZERO, Number160.ZERO⟩
    ⟨number320.locationKey, number320.domainKey, Number160.MAX_VALUE, Number160.MAX_VALUE⟩

def ofLocation (number160 : Number160) : StorageLock :=
  between (StorageLayer.minKey number160) (StorageLayer.maxKey number160)

def all : StorageLock :=
  between ⟨Number160.ZERO, Number160.ZERO, Number160.ZERO, Number160.ZERO⟩
    ⟨Number160.MAX_VALUE, Number160.MAX_VALUE, Number160.MAX_VALUE, Number160.MAX_VALUE⟩

def responsibility (number160 : Number160) : StorageLock :=
  ⟨.responsibilityLock, ⟨StorageLayer.minKey number160, StorageLayer.maxKey number160⟩⟩

end StorageLock

/-- The arguments of `putAll` besides the map. -/
structure PutArguments where
  publicKey : Option PublicKey
  putIfAbsent : Bool
  domainProtection : Bool
  sendSelf : Bool

/-- The calls of the backend, each with what is needed to go on after it. A cursor
    is the key a loop over a view came to last. -/
inductive StorageAction
  -- writing
  | putDomain (p : PutArguments) (key : Number640) (newData : Data)
  | putEntry (p : PutArguments) (key : Number640) (newData : Data)
  | putGet (p : PutArguments) (key : Number640) (newData : Data)
  | put (key : Number640) (value : Data)
  | addTimeout (key : Number640) (expiration : Int)
  -- the versions of a content, while the keys from `span` are written
  | forkNext (span : RangeLock.Range Number640) (content : Number480) (cursor : Option Number640)
  | trim (span : RangeLock.Range Number640) (content : Number480)
  | trimPoll (span : RangeLock.Range Number640) (content : Number480)
  -- removing
  | removeTimeout (key : Number640)
  | remove (key : Number640)
  | removeClaim (key : Number640) (publicKey : Option PublicKey)
  | removeContains (key : Number640)
  | dataNext (fromKey toKey : Number640) (publicKey : Option PublicKey) (cursor : Option Number640)
  | dataClaim (key : Number640) (publicKey : Option PublicKey)
  | dataGet (key : Number640) (publicKey : Option PublicKey)
  | statusNext (fromKey toKey : Number640) (publicKey : Option PublicKey) (cursor : Option Number640)
  -- reading
  | get (key : Number640)
  | contains (key : Number640)
  | copyNext (fromKey toKey : Number640) (limit : Int) (ascending : Bool) (counter : Nat)
      (cursor : Option Number640)
  | digestContains (key : Number640)
  -- changing what is stored
  | metaDomain (locationAndDomainKey : Number320) (publicKey newPublicKey : Option PublicKey)
  | amendEntry (change : Data → Data → Data) (publicKey : Option PublicKey) (key : Number640)
      (newData : Data)
  | amendGet (change : Data → Data → Data) (key : Number640) (newData : Data)
  -- maintenance
  | subMapTimeout (time : Int)
  | leave (locationKey : Number160)
  | isEmpty (locationKey : Number160)
  | removeResponsibility (locationKey : Number160)
  | drop (locationKey : Number160)
  | removeRange (locationKey : Number160)
  | readResponsibility (id : Number160)
  | updateResponsibilities (locationKey peerId : Number160)

/-- An action, or a block of actions under locks. -/
inductive StorageCmd
  | access (a : StorageAction)
  | sync (locks : List StorageLock) (body : List StorageAction)

namespace StorageAction

/-- The next entry of a view after the cursor, in the direction of the loop. -/
def nextEntry (m : StorageMemory) (fromKey toKey : Number640) (ascending : Bool) :
    Option Number640 → Option (Number640 × Data)
  | none =>
      if ascending then (m.dataMap.subMap fromKey toKey).firstEntry
      else (m.dataMap.subMap fromKey toKey).lastEntry
  | some cursor =>
      if ascending then ((m.dataMap.subMap fromKey toKey).tailMap cursor).firstEntry
      else ((m.dataMap.subMap fromKey toKey).headMap cursor).lastEntry

/-- Goes on if the check lets the operation through. -/
def proceed (check : StoreM Bool) (cmds : List StorageCmd) : StoreM (List StorageCmd) :=
  (fun granted => if granted then cmds else []) <$> check

/-- An action that reads, and goes on as it finds the backend. -/
def reading (next : StorageMemory → List StorageCmd) : StoreM (List StorageCmd) := fun m => .ok (next m) m

/-- An action that writes. -/
def writing (write : StorageMemory → StorageMemory) : StoreM (List StorageCmd) := fun m => .ok [] (write m)

/-- Whether the oldest version of a content is to be removed. -/
def hasTooOld (sl : StorageLayer) (versions : NavMap Number640 Data) : Bool :=
  match versions.firstEntry, versions.lastEntry with
  | some first, some last => sl.tooOld first.1 last.1
  | _, _ => false

/-- Dropping a key whose time has come. -/
def expire (key : Number640) : StorageCmd :=
  .sync [.ofKey key] [.remove key, .removeTimeout key, .leave key.locationKey]

/-- Removing one key, which takes its own lock. -/
def removal (key : Number640) (publicKey : Option PublicKey) : StorageCmd :=
  .sync [.ofKey key] [.removeClaim key publicKey]

/-- What an action does, and the commands that follow from its answer. -/
def run (sl : StorageLayer) : StorageAction → StoreM (List StorageCmd)
  | .putDomain p key newData =>
      proceed (sl.securityDomainCheck key.locationAndDomainKey p.publicKey p.publicKey p.domainProtection)
        [.access (.putEntry p key newData)]
  | .putEntry p key newData =>
      proceed (sl.securityEntryCheck key.locationAndDomainAndContentKey p.publicKey
        (StorageLayer.dataKey p.publicKey p.sendSelf newData) newData.isProtectedEntry)
        [.access (.putGet p key newData)]
  | .putGet p key newData => reading fun m =>
      if (StorageLayer.blockedBy m p.putIfAbsent key newData).isNone then
        [.access (.put key newData), .access (.addTimeout key newData.expirationMillis)]
      else []
  | .put key value => writing fun m => m.put key value
  | .addTimeout key expiration => writing fun m => m.addTimeout key expiration
  | .forkNext span content cursor => reading fun m =>
      match nextEntry m (content.version Number160.ZERO) (content.version Number160.MAX_VALUE) true cursor with
      | none => []
      | some entry => [.access (.forkNext span content (some entry.1))]
  | .trim span content => reading fun m =>
      if hasTooOld sl (m.versions content) then [.access (.trimPoll span content)] else []
  | .trimPoll span content => fun m =>
      match (m.versions content).firstEntry with
      | none => .error .nullPointer m
      | some entry =>
          .ok [.access (.remove entry.1), .access (.removeTimeout entry.1), .access (.trim span content)]
            (m.remove entry.1)
  | .removeTimeout key => writing fun m => m.removeTimeout key
  | .remove key => writing fun m => m.remove key
  | .removeClaim key publicKey => fun m =>
      match sl.canClaimDomain m key.locationAndDomainKey publicKey with
      | .error e => .error e m
      | .ok claim =>
          if claim && sl.canClaimEntry m key.locationAndDomainAndContentKey publicKey then
            .ok [.access (.removeContains key)] m
          else .ok [] m
  | .removeContains key => reading fun m =>
      if m.contains key then [.access (.removeTimeout key), .access (.remove key)] else []
  | .dataNext fromKey toKey publicKey cursor => reading fun m =>
      match nextEntry m fromKey toKey true cursor with
      | none => []
      | some entry =>
          [.access (.dataClaim entry.1 publicKey), .access (.dataNext fromKey toKey publicKey (some entry.1))]
  | .dataClaim key publicKey => fun m =>
      match sl.canClaimDomain m key.locationAndDomainKey publicKey with
      | .error e => .error e m
      | .ok claim =>
          if claim && sl.canClaimEntry m key.locationAndDomainAndContentKey publicKey then
            .ok [.access (.dataGet key publicKey)] m
          else .ok [] m
  | .dataGet key publicKey => reading fun m =>
      match m.get key with
      | none => []
      | some toRemove =>
          if toRemove.publicKey.isNone || toRemove.publicKey = publicKey then
            [.access (.removeTimeout key), .access (.remove key)]
          else []
  | .statusNext fromKey toKey publicKey cursor => reading fun m =>
      match nextEntry m fromKey toKey true cursor with
      | none => []
      | some entry =>
          [removal entry.1 publicKey, .access (.statusNext fromKey toKey publicKey (some entry.1))]
  | .get _ => reading fun _ => []
  | .contains _ => reading fun _ => []
  | .copyNext fromKey toKey limit ascending counter cursor => reading fun m =>
      match nextEntry m fromKey toKey ascending cursor with
      | none => []
      | some entry =>
          if entry.2.hasPrepareFlag then
            [.access (.copyNext fromKey toKey limit ascending counter (some entry.1))]
          else if 0 ≤ limit ∧ limit ≤ counter then []
          else [.access (.copyNext fromKey toKey limit ascending (counter + 1) (some entry.1))]
  | .digestContains key => reading fun m => if m.contains key then [.access (.get key)] else []
  | .metaDomain locationAndDomainKey publicKey newPublicKey =>
      proceed (sl.securityDomainCheck locationAndDomainKey publicKey newPublicKey true) []
  | .amendEntry change publicKey key newData =>
      proceed (sl.securityEntryCheck key.locationAndDomainAndContentKey publicKey newData.publicKey
        newData.isProtectedEntry) [.access (.amendGet change key newData)]
  | .amendGet change key newData => reading fun m =>
      match m.get key with
      | none => []
      | some data =>
          [.access (.addTimeout key (change data newData).expirationMillis),
            .access (.put key (change data newData))]
  | .subMapTimeout time => fun m =>
      match m.subMapTimeout time with
      | .error e => .error e m
      | .ok toRemove => .ok (toRemove.map expire) m
  | .leave locationKey => reading fun _ => [.sync [.responsibility locationKey] [.isEmpty locationKey]]
  | .isEmpty locationKey => reading fun m =>
      if StorageLayer.isEmpty m locationKey then [.access (.removeResponsibility locationKey)] else []
  | .removeResponsibility locationKey => writing fun m => m.removeResponsibility locationKey
  | .drop locationKey => reading fun _ => [.sync [.ofLocation locationKey] [.removeRange locationKey]]
  | .removeRange locationKey => fun m =>
      match m.removeRange (StorageLayer.minKey locationKey) (StorageLayer.maxKey locationKey) with
      | .error e => .error e m
      | .ok removed => .ok (removed.1.keys.map fun key => .access (.removeTimeout key)) removed.2
  | .readResponsibility _ => reading fun _ => []
  | .updateResponsibilities locationKey peerId => writing fun m => m.updateResponsibilities locationKey peerId

/-- The keys that an action reads or changes. Of a range these are the keys that
    are stored in it, of a loop the one it comes to. The owners of domains and
    entries and the responsibilities are not under such keys. -/
def keys (m : StorageMemory) : StorageAction → List Number640
  | .putDomain .. | .putEntry .. | .removeClaim .. | .dataClaim .. | .metaDomain .. | .amendEntry .. => []
  | .putGet _ key _ | .put key _ | .addTimeout key _ | .removeTimeout key | .remove key | .removeContains key
  | .dataGet key _ | .get key | .contains key | .digestContains key | .amendGet _ key _ => [key]
  | .forkNext _ content cursor =>
      ((nextEntry m (content.version Number160.ZERO) (content.version Number160.MAX_VALUE) true cursor).map
        Prod.fst).toList
  | .trim _ content =>
      ((m.versions content).firstEntry.map Prod.fst).toList ++
        ((m.versions content).lastEntry.map Prod.fst).toList
  | .trimPoll _ content => ((m.versions content).firstEntry.map Prod.fst).toList
  | .dataNext fromKey toKey _ cursor | .statusNext fromKey toKey _ cursor =>
      ((nextEntry m fromKey toKey true cursor).map Prod.fst).toList
  | .copyNext fromKey toKey _ ascending _ cursor =>
      ((nextEntry m fromKey toKey ascending cursor).map Prod.fst).toList
  | .subMapTimeout time =>
      match m.subMapTimeout time with
      | .error _ => []
      | .ok toRemove => toRemove
  | .isEmpty locationKey | .removeRange locationKey =>
      (m.dataMap.subMap (StorageLayer.minKey locationKey) (StorageLayer.maxKey locationKey)).keys
  | .leave _ | .removeResponsibility _ | .drop _ | .readResponsibility _ | .updateResponsibilities _ _ => []

end StorageAction

/-! ### The operations -/

/-- The operations with their arguments. -/
inductive StorageCall
  | op (op : StorageOp)
  | read (read : StorageRead)
  | contains (key : Number640)
  | findContentForResponsiblePeerID (peerID : Number160)
  | findPeerIDsForResponsibleContent (locationKey : Number160)
  | updateResponsibilities (locationKey peerId : Number160)

namespace StorageCall

open StorageAction

/-- Every entry is written, then the versions of every content are looked at. -/
def putAllBody (sl : StorageLayer) (dataMap : NavMap Number640 Data) (p : PutArguments)
    (span : RangeLock.Range Number640) : List StorageAction :=
  (dataMap.entries.map fun entry => .putDomain p entry.1 entry.2) ++
    (StorageLayer.keysToCheck dataMap).elems.flatMap fun content =>
      if 0 < sl.maxVersions.toInt then [.forkNext span content none, .trim span content]
      else [.forkNext span content none]

def putAll (sl : StorageLayer) (dataMap : NavMap Number640 Data) (p : PutArguments) : List StorageCmd :=
  match dataMap.firstEntry, dataMap.lastEntry with
  | some min, some max =>
      [.sync [.between min.1 max.1] (putAllBody sl dataMap p ⟨min.1, max.1⟩)]
  | _, _ => []

def opCommands (sl : StorageLayer) : StorageOp → List StorageCmd
  | .putAll dataMap publicKey putIfAbsent domainProtection sendSelf =>
      putAll sl dataMap ⟨publicKey, putIfAbsent, domainProtection, sendSelf⟩
  | .put key newData publicKey putIfAbsent domainProtection sendSelf =>
      putAll sl (NavMap.empty.put key newData) ⟨publicKey, putIfAbsent, domainProtection, sendSelf⟩
  | .remove key publicKey _ => [removal key publicKey]
  | .removeReturnData fromKey toKey publicKey =>
      [.sync [.between fromKey toKey] [.dataNext fromKey toKey publicKey none]]
  | .removeReturnStatus fromKey toKey publicKey =>
      [.sync [.between fromKey toKey] [.statusNext fromKey toKey publicKey none]]
  | .updateMetaDomain locationAndDomainKey publicKey newPublicKey =>
      [.access (.metaDomain locationAndDomainKey publicKey newPublicKey)]
  | .updateMetaEntry publicKey key newData =>
      [.sync [.ofKey key] [.amendEntry StorageLayer.updatedMeta publicKey key newData]]
  | .putConfirm publicKey key newData =>
      [.sync [.ofKey key] [.amendEntry StorageLayer.confirmed publicKey key newData]]
  | .checkTimeout time => [.access (.subMapTimeout time)]
  | .removeResponsibility locationKey keepData =>
      [.sync [.responsibility locationKey]
        (if keepData then [.removeResponsibility locationKey]
         else [.drop locationKey, .removeResponsibility locationKey])]

/-- A loop over a range that is locked. -/
def copyRange (lock : StorageLock) (limit : Int) (ascending : Bool) : StorageCmd :=
  .sync [lock] [.copyNext lock.range.fromKey lock.range.toKey limit ascending 0 none]

def readCommands : StorageRead → List StorageCmd
  | .get key => [.sync [.ofKey key] [.get key]]
  | .getRange fromKey toKey limit ascending => [copyRange (.between fromKey toKey) limit ascending]
  | .getBloom fromKey toKey _ _ _ limit ascending _ => [copyRange (.between fromKey toKey) limit ascending]
  | .getAll => [copyRange .all (-1) true]
  | .getLatestVersion key => [copyRange (.ofContent key.locationAndDomainAndContentKey) (-1) true]
  | .digestRange fromKey toKey limit ascending => [copyRange (.between fromKey toKey) limit ascending]
  | .digestBloom locationAndDomainKey _ _ limit ascending _ =>
      [copyRange (.ofDomain locationAndDomainKey) limit ascending]
  | .digestCollection number640s => number640s.map fun key => .sync [.ofKey key] [.digestContains key]

def commands (sl : StorageLayer) : StorageCall → List StorageCmd
  | .op o => opCommands sl o
  | .read r => readCommands r
  | .contains key => [.sync [.ofKey key] [.contains key]]
  | .findContentForResponsiblePeerID peerID => [.sync [.responsibility peerID] [.readResponsibility peerID]]
  | .findPeerIDsForResponsibleContent locationKey =>
      [.sync [.responsibility locationKey] [.readResponsibility locationKey]]
  | .updateResponsibilities locationKey peerId =>
      [.sync [.responsibility peerId, .responsibility locationKey]
        [.updateResponsibilities locationKey peerId]]

end StorageCall

/-! ### Threads -/

/-- A block that runs: the locks it still has to take, what it got for those it
    took, and its commands. It frees its locks when no command is left. -/
structure StorageFrame where
  wanted : List StorageLock := []
  acquired : List (Option StorageLock) := []
  todo : List StorageCmd

structure StorageThread where
  call : Option StorageCall := none
  frames : List StorageFrame := []
  throwing : Bool := false
  waiting : Bool := false

namespace StorageThread

/-- An exception leaves a block: the block around it has nothing left to do but to
    free its locks. -/
def throwTo (th : StorageThread) : List StorageFrame → StorageThread
  | [] => { th with frames := [], throwing := true, waiting := false }
  | f :: below => { th with frames := { f with todo := [] } :: below, throwing := true, waiting := false }

/-- The lock that a thread has to take next. -/
def wants (th : StorageThread) : Option StorageLock :=
  match th.frames with
  | [] => none
  | f :: _ => f.wanted.head?

/-- The locks that the blocks of a thread have. -/
def lockedBy (frames : List StorageFrame) : List StorageLock := frames.flatMap fun f => f.acquired.filterMap id

def held (th : StorageThread) : List StorageLock := lockedBy th.frames

end StorageThread

/-- The storage layer with its threads. -/
structure StorageSystem (T : Type) where
  backend : StorageMemory := {}
  cache : LockTable → NavMap Number640 T := fun _ => .empty
  threads : T → StorageThread := fun _ => {}

namespace StorageSystem

variable {T : Type} [DecidableEq T]

inductive Event (T : Type)
  | call (t : T) (call : StorageCall)
  | act (t : T)
  | interrupt (t : T)

def setThread (s : StorageSystem T) (t : T) (th : StorageThread) : StorageSystem T :=
  { s with threads := update s.threads t th }

def setCache (s : StorageSystem T) (table : LockTable) (cache : NavMap Number640 T) : StorageSystem T :=
  { s with cache := update s.cache table cache }

@[simp] theorem setThread_threads_self (s : StorageSystem T) (t : T) (th : StorageThread) :
    (s.setThread t th).threads t = th := update_self _ _ _

theorem setThread_threads_of_ne (s : StorageSystem T) {t u : T} (h : u ≠ t) (th : StorageThread) :
    (s.setThread t th).threads u = s.threads u := update_of_ne h _ _

@[simp] theorem setThread_cache (s : StorageSystem T) (t : T) (th : StorageThread) :
    (s.setThread t th).cache = s.cache := rfl

omit [DecidableEq T] in
@[simp] theorem setCache_cache_self (s : StorageSystem T) (table : LockTable) (cache : NavMap Number640 T) :
    (s.setCache table cache).cache table = cache := update_self _ _ _

omit [DecidableEq T] in
theorem setCache_cache_of_ne (s : StorageSystem T) {table other : LockTable} (h : other ≠ table)
    (cache : NavMap Number640 T) : (s.setCache table cache).cache other = s.cache other :=
  update_of_ne h _ _

/-- One round of `lock`, before the block is entered. -/
def actLock (s : StorageSystem T) (t : T) (f : StorageFrame) (below : List StorageFrame) (lock : StorageLock)
    (rest : List StorageLock) : StorageSystem T :=
  let th := s.threads t
  match RangeLock.lock (s.cache lock.table) t lock.range.fromKey lock.range.toKey with
  | .error _ => s.setThread t (th.throwTo below)
  | .ok none => s.setThread t { th with waiting := true }
  | .ok (some (_, cache)) =>
      (s.setCache lock.table cache).setThread t { th with
        frames := { f with wanted := rest, acquired := f.acquired ++ [some lock] } :: below
        waiting := false }

/-- The next command of a block. -/
def actCmd (sl : StorageLayer) (s : StorageSystem T) (t : T) (f : StorageFrame) (below : List StorageFrame)
    (rest : List StorageCmd) : StorageCmd → StorageSystem T
  | .access a =>
      let th := s.threads t
      match a.run sl s.backend with
      | .ok cmds m =>
          ({ s with backend := m }).setThread t { th with frames := { f with todo := cmds ++ rest } :: below }
      | .error _ m =>
          ({ s with backend := m }).setThread t { th with
            frames := { f with todo := [] } :: below
            throwing := true }
  | .sync locks body =>
      s.setThread t { s.threads t with
        frames := { wanted := locks, todo := body.map .access } :: { f with todo := rest } :: below }

/-- The locks are freed one after the other. A lock that is null throws, and those
    after it are not freed. -/
def actFinally (s : StorageSystem T) (t : T) (f : StorageFrame) (below : List StorageFrame) : StorageSystem T :=
  let th := s.threads t
  match f.acquired with
  | [] =>
      if th.throwing then s.setThread t (th.throwTo below) else s.setThread t { th with frames := below }
  | none :: _ => s.setThread t (th.throwTo below)
  | some lock :: acquired =>
      (s.setCache lock.table (RangeLock.unlock (s.cache lock.table) lock.range)).setThread t
        { th with frames := { f with acquired := acquired } :: below }

/-- What a thread does next. -/
def act (sl : StorageLayer) (s : StorageSystem T) (t : T) (f : StorageFrame) (below : List StorageFrame) :
    StorageSystem T :=
  match f.wanted with
  | lock :: rest => s.actLock t f below lock rest
  | [] =>
      match f.todo with
      | cmd :: rest => actCmd sl s t f below rest cmd
      | [] => s.actFinally t f below

/-- An event, unless it cannot happen: a thread calls one operation after the
    other, and only a thread that waits is interrupted. -/
def step (sl : StorageLayer) (s : StorageSystem T) : Event T → Option (StorageSystem T)
  | .call t call =>
      if (s.threads t).frames.isEmpty then
        some (s.setThread t { call := some call, frames := [{ todo := call.commands sl }] })
      else none
  | .act t =>
      match (s.threads t).frames with
      | [] => none
      | f :: below => some (s.act sl t f below)
  | .interrupt t =>
      match (s.threads t).frames with
      | [] => none
      | f :: below =>
          match f.wanted with
          | [] => none
          | _ :: rest =>
              if (s.threads t).waiting then
                some (s.setThread t { s.threads t with
                  frames := { f with wanted := rest, acquired := f.acquired ++ [none] } :: below
                  waiting := false })
              else none

end StorageSystem

end TomP2P
