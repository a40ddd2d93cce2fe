import Mathlib.Data.List.Forall2
import TomP2P.Theory.StorageBlocks

/-!
# Runs of the Storage Layer

What the threads of a storage layer keep to, in any interleaving.

A thread is a stack of blocks, and every block keeps to the locks that are held
below it (`StorageThread.Ok`). A step changes one thread and at most one of the two
locks; what it can do is said once, by `Moves`.

The lock on ranges of keys guards what is held of it whoever is interrupted, since
a block with such a lock has no other one: nothing is left behind when it throws.

## Main definitions

* `StorageThread.Ok`: A thread keeps to the locks of its operation.
* `StorageSystem.Moves`: What a step can do.
* `StorageSystem.Run`: Runs whose steps meet a condition.
* `StorageSystem.Disciplined`: The condition for the locks to be kept to.
* `StorageSystem.heldSet`: The ranges of a lock that are held.

## Theorems

* `StorageSystem.moves_of_step`: A step is one of the moves.
* `StorageSystem.threadOk_moves`: What one step keeps of the threads.
* `StorageSystem.heldSet_moves`, `StorageSystem.guards_moves`: What one step does to
  the lock on ranges of keys, and what it keeps of it.
* `StorageSystem.Run.invariant`: What a run keeps.
-/

namespace TomP2P

open List

open RangeLock (Range Guards)

/-! ### Threads -/

/-- The locks of a block and the commands that are left of it. A block that frees
    its locks has the last ones of them. -/
structure StorageFrame.Ok (strict : Prop) (c : StorageCall) (outer : Set StorageLock) (f : StorageFrame) :
    Prop where
  locks : ∃ locks taken, (locks = [] ∨ c.Nests outer locks) ∧ taken ++ f.wanted <:+ locks ∧
    List.Forall₂ (fun got lock => got = none ∨ got = some lock) f.acquired taken
  todo : ∀ cmd ∈ f.todo,
    cmd.Ok strict c ({lock | lock ∈ f.wanted} ∪ {lock | some lock ∈ f.acquired} ∪ outer)

namespace StorageThread

/-- Every block keeps to the locks that are held below it. -/
def StackOk (strict : Prop) (c : StorageCall) : List StorageFrame → Prop
  | [] => True
  | f :: below => f.Ok strict c {lock | lock ∈ lockedBy below} ∧ StackOk strict c below

/-- A thread keeps to the locks of the operation that it runs. -/
def Ok (strict : Prop) (th : StorageThread) : Prop :=
  th.frames = [] ∨ ∃ c, th.call = some c ∧ StackOk strict c th.frames

/-- The action that a thread runs next. -/
def next (th : StorageThread) : Option StorageAction :=
  match th.frames with
  | { wanted := [], todo := .access a :: _, .. } :: _ => some a
  | _ => none

theorem mem_lockedBy_cons (f : StorageFrame) (below : List StorageFrame) (lock : StorageLock) :
    lock ∈ lockedBy (f :: below) ↔ some lock ∈ f.acquired ∨ lock ∈ lockedBy below := by
  simp [lockedBy]

end StorageThread

open StorageThread (StackOk lockedBy mem_lockedBy_cons)

section Frames

variable {strict : Prop} {c : StorageCall} {outer : Set StorageLock} {f : StorageFrame}

/-- What a block got is one of the locks it took. -/
theorem mem_of_forall₂ {acquired : List (Option StorageLock)} {taken : List StorageLock}
    (h : List.Forall₂ (fun got lock => got = none ∨ got = some lock) acquired taken) {lock : StorageLock}
    (hin : some lock ∈ acquired) : lock ∈ taken := by
  induction h with
  | nil => cases hin
  | cons hhead _ ih =>
      rcases mem_cons.mp hin with rfl | hin
      · rcases hhead with hnone | hsome
        · cases hnone
        · cases hsome
          exact mem_cons_self
      · exact mem_cons_of_mem _ (ih hin)

/-- A lock on keys is all that its block has, and the block wants nothing more. -/
theorem StorageFrame.Ok.rangeLock (h : f.Ok strict c outer) {lock : StorageLock}
    (hin : some lock ∈ f.acquired) (htable : lock.table = .rangeLock) :
    f.acquired = [some lock] ∧ f.wanted = [] ∧
      ∀ q ∈ outer, q.table = .rangeLock → ¬ lock.range.SharesEnd q.range := by
  obtain ⟨locks, taken, hlocks, hsuffix, hgot⟩ := h.locks
  have htaken := mem_of_forall₂ hgot hin
  have hmem : lock ∈ locks := hsuffix.mem (mem_append_left _ htaken)
  have hnests : c.Nests outer locks := hlocks.resolve_left (ne_nil_of_mem hmem)
  obtain ⟨rfl, hapart⟩ := hnests.rangeLock hmem htable
  -- the block has taken its only lock
  have hlen : taken.length + f.wanted.length ≤ 1 := by
    have hle := hsuffix.length_le
    rwa [length_append, length_singleton] at hle
  have hpos := length_pos_of_mem htaken
  have hone : f.acquired.length = 1 := by
    rw [hgot.length_eq]
    omega
  obtain ⟨got, hgot'⟩ := length_eq_one_iff.mp hone
  rw [hgot', mem_singleton] at hin
  exact ⟨hin ▸ hgot', length_eq_zero_iff.mp (by omega), hapart⟩

end Frames

namespace StorageSystem

variable {T : Type} [DecidableEq T] {sl : StorageLayer} {s s' : StorageSystem T} {e : Event T}

/-! ### What a step can do -/

/-- The steps, each with what it needs. -/
inductive Moves (sl : StorageLayer) (s : StorageSystem T) : Event T → StorageSystem T → Prop
  | call {t : T} {call : StorageCall} (hidle : (s.threads t).frames = []) :
      Moves sl s (.call t call)
        (s.setThread t { call := some call, frames := [{ todo := call.commands sl }] })
  /-- A lock on a range in the wrong order throws. -/
  | refuse {t : T} {f : StorageFrame} {below : List StorageFrame} {lock : StorageLock} {rest : List StorageLock}
      (hframes : (s.threads t).frames = f :: below) (hwanted : f.wanted = lock :: rest)
      (hbad : lock.range.toKey < lock.range.fromKey) :
      Moves sl s (.act t) (s.setThread t ((s.threads t).throwTo below))
  | wait {t : T} {f : StorageFrame} {below : List StorageFrame} {lock : StorageLock} {rest : List StorageLock}
      (hframes : (s.threads t).frames = f :: below) (hwanted : f.wanted = lock :: rest)
      (hblocked : RangeLock.Blocked (s.cache lock.table) t lock.range.fromKey lock.range.toKey) :
      Moves sl s (.act t) (s.setThread t { s.threads t with waiting := true })
  | grant {t : T} {f : StorageFrame} {below : List StorageFrame} {lock : StorageLock} {rest : List StorageLock}
      (hframes : (s.threads t).frames = f :: below) (hwanted : f.wanted = lock :: rest)
      (hle : lock.range.fromKey ≤ lock.range.toKey)
      (hfree : ¬ RangeLock.Blocked (s.cache lock.table) t lock.range.fromKey lock.range.toKey) :
      Moves sl s (.act t)
        ((s.setCache lock.table
          (RangeLock.record (s.cache lock.table) t lock.range.fromKey lock.range.toKey)).setThread t
          { s.threads t with
            frames := { f with wanted := rest, acquired := f.acquired ++ [some lock] } :: below
            waiting := false })
  | run {t : T} {f : StorageFrame} {below : List StorageFrame} {a : StorageAction} {rest cmds : List StorageCmd}
      {m : StorageMemory} (hframes : (s.threads t).frames = f :: below) (hwanted : f.wanted = [])
      (htodo : f.todo = .access a :: rest) (hrun : a.run sl s.backend = .ok cmds m) :
      Moves sl s (.act t)
        (({ s with backend := m }).setThread t
          { s.threads t with frames := { f with todo := cmds ++ rest } :: below })
  | fail {t : T} {f : StorageFrame} {below : List StorageFrame} {a : StorageAction} {rest : List StorageCmd}
      {m : StorageMemory} {thrown : JavaException} (hframes : (s.threads t).frames = f :: below)
      (hwanted : f.wanted = []) (htodo : f.todo = .access a :: rest)
      (hrun : a.run sl s.backend = .error thrown m) :
      Moves sl s (.act t)
        (({ s with backend := m }).setThread t { s.threads t with
          frames := { f with todo := [] } :: below
          throwing := true })
  | enter {t : T} {f : StorageFrame} {below : List StorageFrame} {locks : List StorageLock}
      {body : List StorageAction} {rest : List StorageCmd} (hframes : (s.threads t).frames = f :: below)
      (hwanted : f.wanted = []) (htodo : f.todo = .sync locks body :: rest) :
      Moves sl s (.act t)
        (s.setThread t { s.threads t with
          frames := { wanted := locks, todo := body.map .access } :: { f with todo := rest } :: below })
  | free {t : T} {f : StorageFrame} {below : List StorageFrame} {lock : StorageLock}
      {acquired : List (Option StorageLock)} (hframes : (s.threads t).frames = f :: below)
      (hwanted : f.wanted = []) (htodo : f.todo = []) (hacquired : f.acquired = some lock :: acquired) :
      Moves sl s (.act t)
        ((s.setCache lock.table (RangeLock.unlock (s.cache lock.table) lock.range)).setThread t
          { s.threads t with frames := { f with acquired := acquired } :: below })
  | exit {t : T} {f : StorageFrame} {below : List StorageFrame} (hframes : (s.threads t).frames = f :: below)
      (hwanted : f.wanted = []) (htodo : f.todo = []) (hacquired : f.acquired = []) :
      Moves sl s (.act t) (s.setThread t { s.threads t with frames := below })
  /-- An exception leaves a block, or a lock that was not granted makes one. -/
  | unwind {t : T} {f : StorageFrame} {below : List StorageFrame} (hframes : (s.threads t).frames = f :: below)
      (hwanted : f.wanted = []) (htodo : f.todo = [])
      (hacquired : f.acquired = [] ∨ ∃ rest, f.acquired = none :: rest) :
      Moves sl s (.act t) (s.setThread t ((s.threads t).throwTo below))
  | interrupt {t : T} {f : StorageFrame} {below : List StorageFrame} {lock : StorageLock}
      {rest : List StorageLock} (hframes : (s.threads t).frames = f :: below)
      (hwanted : f.wanted = lock :: rest) (hwaiting : (s.threads t).waiting = true) :
      Moves sl s (.interrupt t)
        (s.setThread t { s.threads t with
          frames := { f with wanted := rest, acquired := f.acquired ++ [none] } :: below
          waiting := false })

theorem moves_act {t : T} {f : StorageFrame} {below : List StorageFrame}
    (hframes : (s.threads t).frames = f :: below) : Moves sl s (.act t) (s.act sl t f below) := by
  unfold act
  cases hwanted : f.wanted with
  | cons lock rest =>
      dsimp only
      unfold actLock
      rw [RangeLock.lock_eq]
      by_cases hlt : lock.range.toKey < lock.range.fromKey
      · rw [if_pos hlt]
        exact .refuse hframes hwanted hlt
      · rw [if_neg hlt]
        by_cases hb : RangeLock.Blocked (s.cache lock.table) t lock.range.fromKey lock.range.toKey
        · rw [if_pos hb]
          exact .wait hframes hwanted hb
        · rw [if_neg hb]
          exact .grant hframes hwanted (not_lt.mp hlt) hb
  | nil =>
      dsimp only
      cases htodo : f.todo with
      | cons cmd rest =>
          cases cmd with
          | access a =>
              simp only [actCmd]
              cases hrun : a.run sl s.backend with
              | ok cmds m => exact .run hframes hwanted htodo hrun
              | error thrown m => exact .fail hframes hwanted htodo hrun
          | sync locks body => exact .enter hframes hwanted htodo
      | nil =>
          simp only [actFinally]
          cases hacquired : f.acquired with
          | nil =>
              dsimp only
              split
              · exact .unwind hframes hwanted htodo (.inl hacquired)
              · exact .exit hframes hwanted htodo hacquired
          | cons got acquired =>
              cases got with
              | none => exact .unwind hframes hwanted htodo (.inr ⟨acquired, hacquired⟩)
              | some lock => exact .free hframes hwanted htodo hacquired

theorem moves_of_step (h : s.step sl e = some s') : Moves sl s e s' := by
  cases e with
  | call t call =>
      simp only [step] at h
      split at h
      · next hidle =>
          cases h
          exact .call (isEmpty_iff.mp hidle)
      · cases h
  | act t =>
      simp only [step] at h
      split at h
      · cases h
      · next f below hframes =>
          cases h
          exact moves_act hframes
  | interrupt t =>
      simp only [step] at h
      split at h
      · cases h
      · next f below hframes =>
          split at h
          · cases h
          · next lock rest hwanted =>
              split at h
              · next hwaiting =>
                  cases h
                  exact .interrupt hframes hwanted hwaiting
              · cases h

/-- Runs whose steps meet a condition, from any backend. -/
inductive Run (sl : StorageLayer) (Cond : StorageSystem T → Event T → Prop) : StorageSystem T → Prop
  | start (m : StorageMemory) : Run sl Cond { backend := m }
  | step {s s' : StorageSystem T} (h : Run sl Cond s) (e : Event T) (hcond : Cond s e)
      (hstep : s.step sl e = some s') : Run sl Cond s'

/-! ### What a step keeps of the threads -/

/-- The condition for the locks to be kept to. With `strict` the keys of the
    operations on keys are under their locks too. -/
def Disciplined (strict : Prop) (s : StorageSystem T) : Event T → Prop
  | .call _ _ => True
  | .act t => ∀ a, (s.threads t).next = some a →
      (strict → a.VersionsInside s.backend) ∧ a.EndsFree s.backend
  | .interrupt t => strict → ∀ c, (s.threads t).call = some c → c.guarded = false

theorem forall_setThread {P : T → StorageThread → Prop} (h : ∀ u, P u (s.threads u)) {t : T}
    {th : StorageThread} (ht : P t th) : ∀ u, P u ((s.setThread t th).threads u) := by
  intro u
  by_cases hu : u = t
  · subst hu
    rwa [setThread_threads_self]
  · rw [setThread_threads_of_ne s hu]
    exact h u

variable {strict : Prop} {t : T} {c : StorageCall} {f : StorageFrame} {below : List StorageFrame}

omit [DecidableEq T] in
theorem stackOk_of_frames (h : (s.threads t).Ok strict) (hframes : (s.threads t).frames = f :: below) :
    ∃ c, (s.threads t).call = some c ∧ f.Ok strict c {lock | lock ∈ lockedBy below} ∧
      StackOk strict c below := by
  rcases h with hidle | ⟨c, hcall, hstack⟩
  · rw [hidle] at hframes
    cases hframes
  · rw [hframes] at hstack
    exact ⟨c, hcall, hstack⟩

/-- A block that an exception came to still frees its locks. -/
theorem ok_throwTo {th : StorageThread} (hcall : th.call = some c) (h : StackOk strict c below) :
    (th.throwTo below).Ok strict := by
  cases below with
  | nil => exact .inl rfl
  | cons g below => exact .inr ⟨c, hcall, ⟨h.1.locks, forall_mem_nil _⟩, h.2⟩

theorem next_of_frames {th : StorageThread} {a : StorageAction} {rest : List StorageCmd}
    (hframes : th.frames = f :: below) (hwanted : f.wanted = []) (htodo : f.todo = .access a :: rest) :
    th.next = some a := by
  obtain ⟨wanted, acquired, todo⟩ := f
  cases hwanted
  cases htodo
  rw [StorageThread.next, hframes]

/-- A step that meets the condition keeps what is said of the threads. -/
theorem threadOk_moves (h : ∀ u, (s.threads u).Ok strict) (hm : Moves sl s e s') (hcond : Disciplined strict s e) :
    ∀ u, (s'.threads u).Ok strict := by
  cases hm with
  | @call t call hidle =>
      -- A call starts with one frame, which has no locks yet.
      refine forall_setThread (P := fun _ th => th.Ok strict) h (.inr ⟨call, rfl, ⟨?_, ?_⟩, trivial⟩)
      · exact ⟨[], [], .inl rfl, suffix_refl _, List.Forall₂.nil⟩
      · have hset : ({lock | lock ∈ ([] : List StorageLock)} ∪
            {lock | some lock ∈ ([] : List (Option StorageLock))} ∪
              {lock | lock ∈ lockedBy []} : Set StorageLock) = ∅ := by
          ext lock
          simp [lockedBy]
        rw [hset]
        exact ok_commands strict sl call
  | @refuse t f below lock rest hframes hwanted hbad =>
      obtain ⟨c, hcall, _, hbelow⟩ := stackOk_of_frames (h t) hframes
      exact forall_setThread (P := fun _ th => th.Ok strict) h (ok_throwTo hcall hbelow)
  | @wait t f below lock rest hframes hwanted hblocked =>
      exact forall_setThread (P := fun _ th => th.Ok strict) h (h t)
  | @grant t f below lock rest hframes hwanted hle hfree =>
      obtain ⟨c, hcall, hf, hbelow⟩ := stackOk_of_frames (h t) hframes
      refine forall_setThread (P := fun _ th => th.Ok strict) h (.inr ⟨c, hcall, ⟨?_, ?_⟩, hbelow⟩)
      · obtain ⟨locks, taken, hlocks, hsuffix, hgot⟩ := hf.locks
        rw [hwanted] at hsuffix
        refine ⟨locks, taken ++ [lock], hlocks, ?_, ?_⟩
        · rwa [append_assoc]
        · exact rel_append hgot (List.Forall₂.cons (.inr rfl) List.Forall₂.nil)
      · intro cmd hcmd
        have hold := hf.todo cmd hcmd
        -- A lock goes from those that are wanted to those that the frame has, so the commands keep theirs.
        have hset : ({lock' | lock' ∈ f.wanted} ∪ {lock' | some lock' ∈ f.acquired} ∪
            {lock' | lock' ∈ lockedBy below} : Set StorageLock) =
            {lock' | lock' ∈ rest} ∪ {lock' | some lock' ∈ f.acquired ++ [some lock]} ∪
              {lock' | lock' ∈ lockedBy below} := by
          ext lock'
          simp [hwanted]
          tauto
        rw [hset] at hold
        exact hold
  | @run t f below a rest cmds m hframes hwanted htodo hrun =>
      obtain ⟨c, hcall, hf, hbelow⟩ := stackOk_of_frames (h t) hframes
      -- What the action leaves to do is run under the same locks.
      have hcalm := hcond a (next_of_frames hframes hwanted htodo)
      refine forall_setThread (P := fun _ th => th.Ok strict) h (.inr ⟨c, hcall, ⟨hf.locks, ?_⟩, hbelow⟩)
      have hall := hf.todo
      rw [htodo, forall_mem_cons] at hall
      exact forall_mem_append.mpr ⟨StorageAction.Ok.run hall.1 hcalm.1 hcalm.2 hrun, hall.2⟩
  | @fail t f below a rest m thrown hframes hwanted htodo hrun =>
      obtain ⟨c, hcall, hf, hbelow⟩ := stackOk_of_frames (h t) hframes
      exact forall_setThread (P := fun _ th => th.Ok strict) h
        (.inr ⟨c, hcall, ⟨hf.locks, forall_mem_nil _⟩, hbelow⟩)
  | @enter t f below locks body rest hframes hwanted htodo =>
      -- The body is run on top of the frame, which keeps its locks.
      obtain ⟨c, hcall, hf, hbelow⟩ := stackOk_of_frames (h t) hframes
      have hall := hf.todo
      rw [htodo, forall_mem_cons] at hall
      have hset : ({lock | lock ∈ f.wanted} ∪ {lock | some lock ∈ f.acquired} ∪
          {lock | lock ∈ lockedBy below} : Set StorageLock) =
          {lock | lock ∈ lockedBy ({ f with todo := rest } :: below)} := by
        ext lock
        simp [hwanted, mem_lockedBy_cons]
      have hsync := hall.1
      rw [hset] at hsync
      refine forall_setThread (P := fun _ th => th.Ok strict) h
        (.inr ⟨c, hcall, ⟨?_, ?_⟩, ⟨hf.locks, hall.2⟩, hbelow⟩)
      · exact ⟨locks, [], .inr hsync.1, suffix_refl _, List.Forall₂.nil⟩
      · refine forall_mem_map.mpr fun a ha => ?_
        have hset' : ({lock | lock ∈ locks} ∪ {lock | some lock ∈ ([] : List (Option StorageLock))} ∪
            {lock | lock ∈ lockedBy ({ f with todo := rest } :: below)} : Set StorageLock) =
            {lock | lock ∈ locks} ∪ {lock | lock ∈ lockedBy ({ f with todo := rest } :: below)} := by
          ext lock
          simp
        rw [hset']
        exact hsync.2 a ha
  | @free t f below lock acquired hframes hwanted htodo hacquired =>
      obtain ⟨c, hcall, hf, hbelow⟩ := stackOk_of_frames (h t) hframes
      refine forall_setThread (P := fun _ th => th.Ok strict) h (.inr ⟨c, hcall, ⟨?_, ?_⟩, hbelow⟩)
      · obtain ⟨locks, taken, hlocks, hsuffix, hgot⟩ := hf.locks
        rw [hacquired] at hgot
        cases hgot with
        | @cons _ first _ taken' _ hrest =>
            refine ⟨locks, taken', hlocks, List.IsSuffix.trans ?_ hsuffix, hrest⟩
            exact suffix_cons first (taken' ++ f.wanted)
      · intro cmd hcmd
        -- A frame that frees its locks has nothing left to do.
        rw [show ({ f with acquired := acquired } : StorageFrame).todo = [] from htodo] at hcmd
        cases hcmd
  | @exit t f below hframes hwanted htodo hacquired =>
      obtain ⟨c, hcall, _, hbelow⟩ := stackOk_of_frames (h t) hframes
      exact forall_setThread (P := fun _ th => th.Ok strict) h (.inr ⟨c, hcall, hbelow⟩)
  | @unwind t f below hframes hwanted htodo hacquired =>
      obtain ⟨c, hcall, _, hbelow⟩ := stackOk_of_frames (h t) hframes
      exact forall_setThread (P := fun _ th => th.Ok strict) h (ok_throwTo hcall hbelow)
  | @interrupt t f below lock rest hframes hwanted hwaiting =>
      obtain ⟨c, hcall, hf, hbelow⟩ := stackOk_of_frames (h t) hframes
      refine forall_setThread (P := fun _ th => th.Ok strict) h (.inr ⟨c, hcall, ⟨?_, ?_⟩, hbelow⟩)
      · obtain ⟨locks, taken, hlocks, hsuffix, hgot⟩ := hf.locks
        rw [hwanted] at hsuffix
        refine ⟨locks, taken ++ [lock], hlocks, ?_, ?_⟩
        · rwa [append_assoc]
        · exact rel_append hgot (List.Forall₂.cons (.inl rfl) List.Forall₂.nil)
      · intro cmd hcmd
        -- The thread goes on without the lock, which only an operation that is not guarded may do.
        refine StorageCmd.Ok.lose (fun hstrict => hcond hstrict c hcall) ?_ (hf.todo cmd hcmd)
        intro lock' hlock'
        simp only [Set.mem_union, Set.mem_ofPred_eq, hwanted, mem_cons, mem_append, reduceCtorEq,
          not_mem_nil, or_false] at hlock' ⊢
        tauto

/-! ### What a step keeps of the lock on ranges of keys -/

/-- The ranges of a lock that are held, with their threads. -/
def heldSet (s : StorageSystem T) (table : LockTable) : Set (T × Range Number640) :=
  {p | ⟨table, p.2⟩ ∈ (s.threads p.1).held}

theorem heldSet_setThread {table : LockTable} {th : StorageThread}
    (h : ∀ range, ⟨table, range⟩ ∈ th.held ↔ ⟨table, range⟩ ∈ (s.threads t).held) :
    (s.setThread t th).heldSet table = s.heldSet table := by
  ext p
  obtain ⟨u, range⟩ := p
  simp only [heldSet, Set.mem_ofPred_eq]
  by_cases hu : u = t
  · subst hu
    rw [setThread_threads_self]
    exact h range
  · rw [setThread_threads_of_ne s hu]

theorem held_throwTo (th : StorageThread) (below : List StorageFrame) (lock : StorageLock) :
    lock ∈ (th.throwTo below).held ↔ lock ∈ lockedBy below := by
  cases below with
  | nil => exact Iff.rfl
  | cons g below =>
      change lock ∈ lockedBy ({ g with todo := [] } :: below) ↔ _
      rw [mem_lockedBy_cons, mem_lockedBy_cons]

/-- What a thread holds after it was granted a lock. -/
theorem mem_lockedBy_grant (f : StorageFrame) (below : List StorageFrame) (rest : List StorageLock)
    (lock lock' : StorageLock) :
    lock' ∈ lockedBy ({ f with wanted := rest, acquired := f.acquired ++ [some lock] } :: below) ↔
      lock' = lock ∨ lock' ∈ lockedBy (f :: below) := by
  rw [mem_lockedBy_cons, mem_lockedBy_cons, mem_append, mem_singleton, Option.some.injEq]
  tauto

/-- What a thread holds before it frees a lock. -/
theorem mem_lockedBy_free {lock : StorageLock} {acquired : List (Option StorageLock)}
    (hacquired : f.acquired = some lock :: acquired) (lock' : StorageLock) :
    lock' ∈ lockedBy (f :: below) ↔
      lock' = lock ∨ lock' ∈ lockedBy ({ f with acquired := acquired } :: below) := by
  rw [mem_lockedBy_cons, mem_lockedBy_cons, hacquired, mem_cons, Option.some.injEq, or_assoc]

theorem heldSet_insert {table : LockTable} {th : StorageThread} {range : Range Number640}
    (h : ∀ q, ⟨table, q⟩ ∈ th.held ↔ q = range ∨ ⟨table, q⟩ ∈ (s.threads t).held) :
    (s.setThread t th).heldSet table = insert (t, range) (s.heldSet table) := by
  ext p
  obtain ⟨u, q⟩ := p
  simp only [heldSet, Set.mem_ofPred_eq, Set.mem_insert_iff, Prod.mk.injEq]
  by_cases hu : u = t
  · subst hu
    rw [setThread_threads_self, h q]
    tauto
  · rw [setThread_threads_of_ne s hu]
    tauto

theorem heldSet_restore {table : LockTable} {th : StorageThread} {range : Range Number640}
    (h : ∀ q, ⟨table, q⟩ ∈ (s.threads t).held ↔ q = range ∨ ⟨table, q⟩ ∈ th.held) :
    s.heldSet table = insert (t, range) ((s.setThread t th).heldSet table) := by
  ext p
  obtain ⟨u, q⟩ := p
  simp only [heldSet, Set.mem_ofPred_eq, Set.mem_insert_iff, Prod.mk.injEq]
  by_cases hu : u = t
  · subst hu
    rw [setThread_threads_self, h q]
    tauto
  · rw [setThread_threads_of_ne s hu]
    tauto

/-- A block that throws before it has its locks, or when it frees one that it did
    not get. -/
def Abandoned (f : StorageFrame) : Prop :=
  (∃ lock rest, f.wanted = lock :: rest ∧ lock.range.toKey < lock.range.fromKey) ∨
    (f.wanted = [] ∧ (f.acquired = [] ∨ ∃ rest, f.acquired = none :: rest))

/-- A step leaves a lock and what is held of it as they are, or it grants a range
    that is not blocked, or the block that took a range frees it. What a block
    holds when it is abandoned would be lost. -/
theorem table_moves (table : LockTable) (hm : Moves sl s e s')
    (hlost : ∀ t f below, (s.threads t).frames = f :: below → Abandoned f →
      ∀ range, some ⟨table, range⟩ ∉ f.acquired) :
    (s'.cache table = s.cache table ∧ s'.heldSet table = s.heldSet table) ∨
    (∃ t f below range rest, e = .act t ∧ (s.threads t).frames = f :: below ∧
      f.wanted = ⟨table, range⟩ :: rest ∧ range.fromKey ≤ range.toKey ∧
      ¬ RangeLock.Blocked (s.cache table) t range.fromKey range.toKey ∧
      s'.cache table = RangeLock.record (s.cache table) t range.fromKey range.toKey ∧
      s'.heldSet table = insert (t, range) (s.heldSet table)) ∨
    (∃ t f below range acquired, e = .act t ∧ (s.threads t).frames = f :: below ∧ f.wanted = [] ∧
      f.todo = [] ∧ f.acquired = some ⟨table, range⟩ :: acquired ∧
      s'.cache table = RangeLock.unlock (s.cache table) range ∧
      s.heldSet table = insert (t, range) (s'.heldSet table) ∧
      ∀ q, (t, q) ∈ s'.heldSet table ↔ ⟨table, q⟩ ∈ lockedBy ({ f with acquired := acquired } :: below)) := by
  -- what is held below a block that is abandoned is all that was held
  have habandoned (t : T) (f : StorageFrame) (below : List StorageFrame)
      (hframes : (s.threads t).frames = f :: below) (hf : Abandoned f) :
      (s.setThread t ((s.threads t).throwTo below)).heldSet table = s.heldSet table := by
    refine heldSet_setThread fun range => ?_
    rw [held_throwTo, StorageThread.held, hframes, mem_lockedBy_cons]
    exact (or_iff_right (hlost t f below hframes hf range)).symm
  cases hm with
  | @call t call hidle =>
      refine .inl ⟨rfl, heldSet_setThread fun range => ?_⟩
      rw [StorageThread.held, StorageThread.held, hidle]
      simp [lockedBy]
  | @refuse t f below lock rest hframes hwanted hbad =>
      exact .inl ⟨rfl, habandoned t f below hframes (.inl ⟨lock, rest, hwanted, hbad⟩)⟩
  | @wait t f below lock rest hframes hwanted hblocked =>
      exact .inl ⟨rfl, heldSet_setThread fun range => Iff.rfl⟩
  | @grant t f below lock rest hframes hwanted hle hfree =>
      obtain ⟨other, range⟩ := lock
      have hheld (q : Range Number640) :
          (⟨table, q⟩ : StorageLock) ∈ lockedBy ({ f with wanted := rest, acquired := f.acquired ++
            [some ⟨other, range⟩] } :: below) ↔
            (table = other ∧ q = range) ∨ ⟨table, q⟩ ∈ (s.threads t).held := by
        rw [mem_lockedBy_grant, StorageLock.mk.injEq, StorageThread.held, hframes]
      by_cases htable : table = other
      · subst htable
        refine .inr (.inl ⟨t, f, below, range, rest, rfl, hframes, hwanted, hle, hfree, ?_, ?_⟩)
        · rw [setThread_cache]
          exact setCache_cache_self s _ _
        · refine heldSet_insert (s := s.setCache _ _) fun q => (hheld q).trans ?_
          simp only [true_and]
          exact Iff.rfl
      · refine .inl ⟨?_, ?_⟩
        · rw [setThread_cache]
          exact setCache_cache_of_ne s htable _
        · refine heldSet_setThread (s := s.setCache _ _) fun q => (hheld q).trans ?_
          simp only [htable, false_and, false_or]
          exact Iff.rfl
  | @run t f below a rest cmds m hframes hwanted htodo hrun =>
      refine .inl ⟨rfl, heldSet_setThread (s := { s with backend := m }) fun range => ?_⟩
      rw [StorageThread.held, StorageThread.held, hframes, mem_lockedBy_cons, mem_lockedBy_cons]
  | @fail t f below a rest m thrown hframes hwanted htodo hrun =>
      refine .inl ⟨rfl, heldSet_setThread (s := { s with backend := m }) fun range => ?_⟩
      rw [StorageThread.held, StorageThread.held, hframes, mem_lockedBy_cons, mem_lockedBy_cons]
  | @enter t f below locks body rest hframes hwanted htodo =>
      refine .inl ⟨rfl, heldSet_setThread fun range => ?_⟩
      rw [StorageThread.held, StorageThread.held, hframes, mem_lockedBy_cons, mem_lockedBy_cons,
        mem_lockedBy_cons]
      exact or_iff_right not_mem_nil
  | @free t f below lock acquired hframes hwanted htodo hacquired =>
      obtain ⟨other, range⟩ := lock
      have hheld (q : Range Number640) : (⟨table, q⟩ : StorageLock) ∈ (s.threads t).held ↔
          (table = other ∧ q = range) ∨ ⟨table, q⟩ ∈ lockedBy ({ f with acquired := acquired } :: below) := by
        rw [StorageThread.held, hframes, mem_lockedBy_free hacquired, StorageLock.mk.injEq]
      by_cases htable : table = other
      · subst htable
        refine .inr (.inr ⟨t, f, below, range, acquired, rfl, hframes, hwanted, htodo, hacquired, ?_, ?_, ?_⟩)
        · rw [setThread_cache]
          exact setCache_cache_self s _ _
        · refine heldSet_restore (s := s.setCache _ _) fun q => (hheld q).trans ?_
          simp only [true_and]
          exact Iff.rfl
        · intro q
          simp [heldSet, StorageThread.held]
      · refine .inl ⟨?_, ?_⟩
        · rw [setThread_cache]
          exact setCache_cache_of_ne s htable _
        · refine heldSet_setThread (s := s.setCache _ _) fun q => Iff.symm ((hheld q).trans ?_)
          simp only [htable, false_and, false_or]
          exact Iff.rfl
  | @exit t f below hframes hwanted htodo hacquired =>
      refine .inl ⟨rfl, heldSet_setThread fun range => ?_⟩
      rw [StorageThread.held, StorageThread.held, hframes, mem_lockedBy_cons, hacquired]
      exact (or_iff_right not_mem_nil).symm
  | @unwind t f below hframes hwanted htodo hacquired =>
      exact .inl ⟨rfl, habandoned t f below hframes (.inr ⟨hwanted, hacquired⟩)⟩
  | @interrupt t f below lock rest hframes hwanted hwaiting =>
      refine .inl ⟨rfl, heldSet_setThread fun range => ?_⟩
      rw [StorageThread.held, StorageThread.held, hframes, mem_lockedBy_cons, mem_lockedBy_cons,
        mem_append, mem_singleton]
      simp

/-- A step leaves what is held of the lock on keys as it is, or it grants a range
    that is not blocked, or the block that took a range frees it. -/
theorem heldSet_moves (hok : ∀ u, (s.threads u).Ok strict) (hm : Moves sl s e s') :
    (s'.cache .rangeLock = s.cache .rangeLock ∧ s'.heldSet .rangeLock = s.heldSet .rangeLock) ∨
      (∃ t range, range.fromKey ≤ range.toKey ∧
        ¬ RangeLock.Blocked (s.cache .rangeLock) t range.fromKey range.toKey ∧
        s'.cache .rangeLock = RangeLock.record (s.cache .rangeLock) t range.fromKey range.toKey ∧
        s'.heldSet .rangeLock = insert (t, range) (s.heldSet .rangeLock)) ∨
      (∃ t range f below, e = .act t ∧ (s.threads t).frames = f :: below ∧ f.wanted = [] ∧ f.todo = [] ∧
        f.acquired = [some ⟨.rangeLock, range⟩] ∧
        (∀ q, (t, q) ∈ s.heldSet .rangeLock → q ≠ range → ¬ range.SharesEnd q) ∧
        s'.cache .rangeLock = RangeLock.unlock (s.cache .rangeLock) range ∧
        s'.heldSet .rangeLock = s.heldSet .rangeLock \ {(t, range)}) := by
  have hlost (t : T) (f : StorageFrame) (below : List StorageFrame)
      (hframes : (s.threads t).frames = f :: below) (hf : Abandoned f) (range : Range Number640) :
      some ⟨.rangeLock, range⟩ ∉ f.acquired := by
    intro hin
    obtain ⟨c, _, hok', _⟩ := stackOk_of_frames (hok t) hframes
    obtain ⟨hsingle, hwanted, _⟩ := hok'.rangeLock hin rfl
    rcases hf with ⟨lock, rest, hcons, _⟩ | ⟨_, hnil | ⟨rest, hcons⟩⟩
    · rw [hwanted] at hcons
      cases hcons
    · rw [hnil] at hin
      cases hin
    · rw [hsingle] at hcons
      cases hcons
  rcases table_moves .rangeLock hm hlost with hsame |
    ⟨t, f, below, range, rest, _, _, _, hle, hfree, hcache, hheld⟩ |
    ⟨t, f, below, range, acquired, he, hframes, hwanted, htodo, hacquired, hcache, hheld, hleft⟩
  · exact .inl hsame
  · exact .inr (.inl ⟨t, range, hle, hfree, hcache, hheld⟩)
  · obtain ⟨c, _, hf, _⟩ := stackOk_of_frames (hok t) hframes
    have hin : some ⟨.rangeLock, range⟩ ∈ f.acquired := by
      rw [hacquired]
      exact mem_cons_self
    obtain ⟨hsingle, _, hapart⟩ := hf.rangeLock hin rfl
    -- what is left is held below, and has no end in common with the range
    have hsep (q : Range Number640) (hq : (t, q) ∈ s'.heldSet .rangeLock) : ¬ range.SharesEnd q := by
      rw [hacquired, List.cons.injEq] at hsingle
      rw [hleft, mem_lockedBy_cons, hsingle.2] at hq
      exact hapart _ (hq.resolve_left not_mem_nil) rfl
    have hnot : (t, range) ∉ s'.heldSet .rangeLock := fun hq => hsep range hq range.sharesEnd_self
    refine .inr (.inr ⟨t, range, f, below, he, hframes, hwanted, htodo, hsingle, ?_, hcache, ?_⟩)
    · intro q hq hne
      rw [hheld] at hq
      rcases hq with heq | hq
      · exact absurd (congrArg Prod.snd heq) hne
      · exact hsep q hq
    · rw [hheld, Set.insert_sdiff_self_of_notMem hnot]

/-- The lock on keys guards what is held of it. -/
theorem guards_moves (h : Guards (s.cache .rangeLock) (s.heldSet .rangeLock))
    (hok : ∀ u, (s.threads u).Ok strict) (hm : Moves sl s e s') :
    Guards (s'.cache .rangeLock) (s'.heldSet .rangeLock) := by
  rcases heldSet_moves hok hm with ⟨hcache, hheld⟩ | ⟨t, range, hle, hfree, hcache, hheld⟩ |
    ⟨t, range, f, below, _, hframes, _, _, hacquired, hapart, hcache, hheld⟩
  · rw [hcache, hheld]
    exact h
  · rw [hcache, hheld]
    exact h.grant hle hfree
  · rw [hcache, hheld]
    refine h.release ?_ hapart
    change _ ∈ lockedBy (s.threads t).frames
    rw [hframes, mem_lockedBy_cons, hacquired]
    exact .inl mem_cons_self

/-- What a run keeps if its steps meet the condition. -/
theorem Run.invariant {Cond : StorageSystem T → Event T → Prop} (h : Run sl Cond s)
    (hcond : ∀ s e, Cond s e → Disciplined strict s e) :
    (∀ u, (s.threads u).Ok strict) ∧ Guards (s.cache .rangeLock) (s.heldSet .rangeLock) := by
  induction h with
  | start m =>
      refine ⟨fun u => .inl rfl, ?_⟩
      have hnone : ({ backend := m } : StorageSystem T).heldSet .rangeLock = ∅ := by
        ext p
        simp [heldSet, StorageThread.held, lockedBy]
      rw [hnone]
      exact Guards.init
  | step _ e hc hstep ih =>
      have hm := moves_of_step hstep
      exact ⟨threadOk_moves ih.1 hm (hcond _ _ hc), guards_moves ih.2 ih.1 hm⟩

/-! ### Sequences of events -/

/-- A sequence of events. -/
def play (sl : StorageLayer) (s : StorageSystem T) : List (Event T) → Option (StorageSystem T)
  | [] => some s
  | e :: events =>
      match s.step sl e with
      | none => none
      | some s' => play sl s' events

/-- A sequence of events that may all happen is a run, if no condition is made. -/
theorem Run.play {events : List (Event T)} (h : Run sl (fun _ _ => True) s) {s' : StorageSystem T}
    (hplay : play sl s events = some s') : Run sl (fun _ _ => True) s' := by
  induction events generalizing s with
  | nil =>
      cases hplay
      exact h
  | cons e events ih =>
      simp only [StorageSystem.play] at hplay
      split at hplay
      · cases hplay
      · next hstep => exact ih (h.step e trivial hstep) hplay

end StorageSystem

end TomP2P
