import TomP2P.Theory.LockOrder

/-!
# Deadlock

Threads of a storage layer that wait for each other in a cycle.

A thread that is waited for holds a lock, and on a cycle it wants another one. There
are four operations that do: `removeReturnStatus`, `checkTimeout`,
`removeResponsibility` and `updateResponsibilities`. The first of them never waits on
a cycle, since nobody else has a key of its range. The third one waits for the second
one only if both are about the same location, which the order of the locks excludes.
So nobody waits for a lock on keys on a cycle, and all threads of it are updates. Then
each waits for the id of the next, and the updates make a cycle, which the order
excludes as well.

## Main definitions

* `StorageSystem.WaitsFor`: A thread waits for a range that another one holds.
* `StorageCall.Pairs`, `StorageThread.Pending`: The two locks of an operation.

## Theorems

* `StorageSystem.wants_cases`: What a thread that waits holds.
* `StorageSystem.WaitOk.update`: The threads on a cycle are updates.
* `StorageSystem.Run.acyclic`: No cycle of waiting threads in any run.
-/

namespace TomP2P

open Relation
open Cycles (Acyclic)
open RangeLock (Range Guards Blocked InTheWay)
open StorageThread (lockedBy mem_lockedBy_cons)

/-- The operation takes the second lock under the first one. -/
inductive StorageCall.Pairs : StorageCall → StorageLock → StorageLock → Prop
  | status {fromKey toKey key : Number640} {publicKey : Option PublicKey} (hfrom : fromKey < key)
      (hto : key < toKey) :
      Pairs (.op (.removeReturnStatus fromKey toKey publicKey)) (.between fromKey toKey) (.ofKey key)
  | expire (time : Int) (key : Number640) :
      Pairs (.op (.checkTimeout time)) (.ofKey key) (.responsibility key.locationKey)
  | remove (locationKey : Number160) :
      Pairs (.op (.removeResponsibility locationKey false)) (.responsibility locationKey)
        (.ofLocation locationKey)
  | update (locationKey peerId : Number160) :
      Pairs (.updateResponsibilities locationKey peerId) (.responsibility peerId) (.responsibility locationKey)

/-- Both ranges have their ends in order. -/
theorem StorageCall.Pairs.ordered {c : StorageCall} {has lock : StorageLock} (h : c.Pairs has lock) :
    has.range.fromKey ≤ has.range.toKey ∧ lock.range.fromKey ≤ lock.range.toKey := by
  cases h with
  | status hfrom hto => exact ⟨le_of_lt (lt_trans hfrom hto), le_refl _⟩
  | expire time key => exact ⟨le_refl _, StorageSystem.minKey_le_maxKey _⟩
  | remove locationKey | update locationKey peerId =>
      exact ⟨StorageSystem.minKey_le_maxKey _, StorageSystem.minKey_le_maxKey _⟩

namespace StorageThread

/-- The thread has the first lock and no other one, and wants the second. -/
structure Pending (th : StorageThread) (c : StorageCall) (has lock : StorageLock) : Prop where
  call : th.call = some c
  wants : th.wants = some lock
  pairs : c.Pairs has lock
  held : has ∈ th.held
  only : ∀ other ∈ th.held, other = has

/-- The peer whose responsibilities a thread updates, zero for other operations. -/
def peerId (th : StorageThread) : Number160 :=
  match th.call with
  | some (.updateResponsibilities _ peerId) => peerId
  | _ => Number160.ZERO

theorem Pending.seeks {th : StorageThread} {c : StorageCall} {has lock : StorageLock}
    (h : th.Pending c has lock) : th.Seeks :=
  StorageSystem.seeks_of_wants (List.ne_nil_of_mem h.held) h.wants

end StorageThread

namespace StorageSystem

variable {T : Type} [DecidableEq T] {sl : StorageLayer} {s : StorageSystem T} {e : Event T}

/-- The thread waits for a range, and the other one is in the way. -/
def WaitsFor (s : StorageSystem T) (t u : T) : Prop :=
  u ≠ t ∧ (s.threads t).waiting = true ∧
    ∃ lock, (s.threads t).wants = some lock ∧
      InTheWay (s.cache lock.table) u lock.range.fromKey lock.range.toKey

/-! ### Threads that wait -/

/-- What a run keeps if its steps meet the condition. -/
structure WaitOk (s : StorageSystem T) : Prop where
  threads : ∀ u, (s.threads u).Ok False
  guards : Guards (s.cache .rangeLock) (s.heldSet .rangeLock)
  whole : ∀ u, ∀ f ∈ (s.threads u).frames, Whole f
  responsibility : ResponsibilityOk s
  order : OrderOk s

omit [DecidableEq T] in
theorem disciplined_of_ordered (h : Ordered s e) : Disciplined False s e := by
  cases e with
  | call t call => trivial
  | act t => exact fun a ha => ⟨False.elim, h.1 a ha⟩
  | interrupt t => exact False.elim

theorem Run.waitOk (h : Run sl Ordered s) : WaitOk s := by
  induction h with
  | start m =>
      have hnone (table : LockTable) : ({ backend := m } : StorageSystem T).heldSet table = ∅ := by
        ext p
        simp [heldSet, StorageThread.held, lockedBy]
      refine ⟨fun u => .inl rfl, ?_, fun u => List.forall_mem_nil _, ⟨(by intros; contradiction), fun id => rfl⟩, ⟨?_, ?_⟩⟩
      · rw [hnone]
        exact Guards.init
      · rintro t u l ⟨⟨time, hcall⟩, _⟩
        cases hcall
      · refine Acyclic.mono (q := fun _ _ => False) ?_ ?_
        · intro a hcycle
          cases hcycle with
          | single hstep => exact hstep
          | tail _ hstep => exact hstep
        · rintro p l ⟨_, u, hcall, _⟩
          cases hcall
  | step _ e hcond hstep ih =>
      have hm := moves_of_step hstep
      exact {
        threads := threadOk_moves ih.threads hm (disciplined_of_ordered hcond)
        guards := guards_moves ih.guards ih.threads hm
        whole := whole_moves ih.whole ih.threads hm hcond
        responsibility := responsibilityOk_moves ih.responsibility ih.threads ih.whole hm
        order := orderOk_moves ih.order hm hcond }

omit [DecidableEq T] in
/-- A thread that wants a lock holds nothing, or the one lock under which its
    operation takes the other one. -/
theorem wants_cases {t : T} (h : (s.threads t).Ok False) {lock : StorageLock}
    (hwants : (s.threads t).wants = some lock) :
    (∀ other, other ∉ (s.threads t).held) ∨
      ∃ c has, (s.threads t).call = some c ∧ c.Pairs has lock ∧ ∀ other ∈ (s.threads t).held, other = has := by
  unfold StorageThread.wants at hwants
  split at hwants
  · cases hwants
  · next f below hframes =>
      obtain ⟨rest, hwanted⟩ := List.head?_eq_some_iff.mp hwants
      obtain ⟨c, hcall, hf, _⟩ := stackOk_of_frames h hframes
      have hheld (other : StorageLock) (hin : other ∈ (s.threads t).held) :
          some other ∈ f.acquired ∨ other ∈ {lock | lock ∈ lockedBy below} := by
        rw [StorageThread.held, hframes, mem_lockedBy_cons] at hin
        exact hin
      rcases wanted_cases hf hwanted with ⟨hnone, _, hnests⟩ | ⟨l, p, rfl, houter, hpair⟩
      · have hbelow (other : StorageLock) (hin : other ∈ (s.threads t).held) :
            other ∈ {lock | lock ∈ lockedBy below} := by
          refine (hheld other hin).resolve_left ?_
          rw [hnone]
          exact List.not_mem_nil
        generalize {lock | lock ∈ lockedBy below} = outer at hnests hbelow
        cases hnests with
        | range | expire | responsibility => exact .inl fun other hin => hbelow other hin
        | status hfrom hto houter =>
            exact .inr ⟨_, _, hcall, .status hfrom hto, fun other hin => houter (hbelow other hin)⟩
        | leave time houter =>
            exact .inr ⟨_, _, hcall, .expire time _, fun other hin => houter (hbelow other hin)⟩
        | drop houter =>
            exact .inr ⟨_, _, hcall, .remove _, fun other hin => houter (hbelow other hin)⟩
      · have hown (other : StorageLock) (hin : other ∈ (s.threads t).held) : some other ∈ f.acquired := by
          refine (hheld other hin).resolve_right ?_
          rw [houter]
          exact Set.notMem_empty other
        rcases hpair with ⟨hnone, _⟩ | ⟨_, rfl, hgot⟩
        · refine .inl fun other hin => ?_
          have hin' := hown other hin
          rw [hnone] at hin'
          cases hin'
        · exact .inr ⟨_, _, hcall, .update l p, fun other hin => hgot other (hown other hin)⟩

/-! ### Threads on a cycle -/

section Cycle

omit [DecidableEq T]

/-- What is recorded in one of the locks is held. -/
theorem WaitOk.recorded (h : WaitOk s) {table : LockTable} {k : Number640} {u : T}
    (hk : (s.cache table).get k = some u) :
    ∃ range, ⟨table, range⟩ ∈ (s.threads u).held ∧ range.IsEnd k := by
  cases table with
  | rangeLock => exact (h.guards.recorded k u).mp hk
  | responsibilityLock => exact h.responsibility.recorded k u hk

/-- A thread that is waited for holds a lock. -/
theorem WaitOk.held_of_waitsFor (h : WaitOk s) {t u : T} (hwaits : s.WaitsFor t u) :
    ∃ lock, lock ∈ (s.threads u).held := by
  obtain ⟨_, _, lock, _, hin | ⟨hin, _⟩⟩ := hwaits
  · obtain ⟨k, _, _, hk⟩ := hin
    obtain ⟨range, hrange, _⟩ := h.recorded hk
    exact ⟨_, hrange⟩
  · obtain ⟨k, _, hk⟩ := hin
    obtain ⟨range, hrange, _⟩ := h.recorded hk
    exact ⟨_, hrange⟩

/-- A thread on a cycle is between its two locks. -/
theorem WaitOk.pending (h : WaitOk s) {t : T} (hcycle : TransGen s.WaitsFor t t) :
    ∃ c has lock, (s.threads t).Pending c has lock := by
  obtain ⟨w, hw, _⟩ := Cycles.exists_predecessor hcycle
  obtain ⟨u, ⟨_, _, lock, hwants, _⟩, _⟩ := Cycles.exists_successor hcycle
  obtain ⟨other, hother⟩ := h.held_of_waitsFor hw
  rcases wants_cases (h.threads t) hwants with hnone | ⟨c, has, hcall, hpairs, honly⟩
  · exact absurd hother (hnone other)
  · exact ⟨c, has, lock, hcall, hwants, hpairs, honly other hother ▸ hother, honly⟩

/-- The thread that is waited for has one of the ends of its range in the table, and
    the range overlaps the one that is wanted. -/
theorem WaitOk.overlaps (h : WaitOk s) {t u : T} {c c' : StorageCall} {has lock has' lock' : StorageLock}
    (hwaits : s.WaitsFor t u) (ht : (s.threads t).Pending c has lock) (hu : (s.threads u).Pending c' has' lock') :
    has'.table = lock.table ∧ has'.range.Overlaps lock.range ∧
      ∃ k, (s.cache lock.table).get k = some u ∧ has'.range.IsEnd k := by
  obtain ⟨_, _, wanted, hwants, hin⟩ := hwaits
  have hsame : wanted = lock := Option.some.inj (hwants.symm.trans ht.wants)
  subst hsame
  -- the range with the key is the one that the thread has
  have hend (k : Number640) (hk : (s.cache wanted.table).get k = some u) :
      has'.table = wanted.table ∧ has'.range.IsEnd k := by
    obtain ⟨range, hrange, hk'⟩ := h.recorded hk
    have heq := hu.only _ hrange
    subst heq
    exact ⟨rfl, hk'⟩
  rcases hin with ⟨k, hfrom, hto, hk⟩ | ⟨⟨k, hfrom, hk⟩, k', hto, hk'⟩
  · obtain ⟨htable, hisEnd⟩ := hend k hk
    exact ⟨htable, ⟨k, Range.Has.of_isEnd hu.pairs.ordered.1 hisEnd, hfrom, hto⟩, k, hk, hisEnd⟩
  · obtain ⟨htable, hisEnd⟩ := hend k hk
    have hlow := (Range.Has.of_isEnd hu.pairs.ordered.1 hisEnd).1
    have hhigh := (Range.Has.of_isEnd hu.pairs.ordered.1 (hend k' hk').2).2
    have hle := ht.pairs.ordered.2
    have hhas : has'.range.Has wanted.range.fromKey :=
      ⟨le_trans hlow (le_of_lt hfrom), le_trans hle (le_trans (le_of_lt hto) hhigh)⟩
    exact ⟨htable, ⟨_, hhas, le_refl _, hle⟩, k, hk, hisEnd⟩

/-- `removeReturnStatus` waits for nobody on a cycle, since nobody else has a key of
    its range. -/
theorem WaitOk.not_status (h : WaitOk s) {t u : T} {c : StorageCall} {fromKey toKey key : Number640}
    {has lock : StorageLock} {publicKey : Option PublicKey} (hwaits : s.WaitsFor t u)
    (ht : (s.threads t).Pending (.op (.removeReturnStatus fromKey toKey publicKey))
      (.between fromKey toKey) (.ofKey key))
    (hfrom : fromKey < key) (hto : key < toKey) (hu : (s.threads u).Pending c has lock) : False := by
  obtain ⟨htable, ⟨k, hhas, hk⟩, _⟩ := h.overlaps hwaits ht hu
  have hkey : k = key := le_antisymm hk.2 hk.1
  subst hkey
  obtain ⟨table, range⟩ := has
  cases htable
  have hown : (t, (⟨fromKey, toKey⟩ : Range Number640)) ∈ s.heldSet .rangeLock := ht.held
  have hother : (u, range) ∈ s.heldSet .rangeLock := hu.held
  exact h.guards.apart _ hown _ hother hwaits.1.symm ⟨k, ⟨le_of_lt hfrom, le_of_lt hto⟩, hhas⟩

/-- On a cycle nobody waits for a lock on keys: neither `removeReturnStatus` does, nor
    `removeResponsibility` for `checkTimeout`. -/
theorem WaitOk.not_rangeLock (h : WaitOk s) {t : T} (hcycle : TransGen s.WaitsFor t t) {c : StorageCall}
    {has lock : StorageLock} (ht : (s.threads t).Pending c has lock) : lock.table = .responsibilityLock := by
  obtain ⟨u, hwaits, hcycle'⟩ := Cycles.exists_successor hcycle
  obtain ⟨c', has', lock', hu⟩ := h.pending hcycle'
  cases ht.pairs with
  | expire | update => rfl
  | status hfrom hto => exact (h.not_status hwaits ht hfrom hto hu).elim
  | remove l =>
      obtain ⟨htable, ⟨k, hhas, hk⟩, _⟩ := h.overlaps hwaits ht hu
      have hl : k.locationKey = l := (Number160.locations_iff l k).mp hk
      cases hu.pairs with
      | remove | update => cases htable
      | status hfrom hto =>
          -- the other one waits as well
          obtain ⟨v, hwaits', hcycle''⟩ := Cycles.exists_successor hcycle'
          obtain ⟨_, _, _, hv⟩ := h.pending hcycle''
          exact (h.not_status hwaits' hu hfrom hto hv).elim
      | expire time key =>
          have hkey : k = key := le_antisymm hhas.2 hhas.1
          subst hkey
          refine absurd ⟨ht.call, ht.held, ht.seeks⟩ (h.order.apart u t l ⟨⟨time, hu.call⟩, ⟨k, hl, hu.held⟩, ?_⟩)
          exact hu.seeks

/-- On a cycle there are updates only. -/
theorem WaitOk.update (h : WaitOk s) {t : T} (hcycle : TransGen s.WaitsFor t t) :
    ∃ locationKey peerId, (s.threads t).Pending (.updateResponsibilities locationKey peerId)
      (.responsibility peerId) (.responsibility locationKey) := by
  obtain ⟨c, has, lock, ht⟩ := h.pending hcycle
  have hlock := h.not_rangeLock hcycle ht
  cases ht.pairs with
  | status | remove => cases hlock
  | update l p => exact ⟨l, p, ht⟩
  | expire time key =>
      -- whoever waits for the key waits for a lock on keys
      obtain ⟨w, hwaits, hcycle'⟩ := Cycles.exists_predecessor hcycle
      obtain ⟨c', has', lock', hw⟩ := h.pending hcycle'
      obtain ⟨htable, _⟩ := h.overlaps hwaits hw ht
      rw [h.not_rangeLock hcycle' hw] at htable
      cases htable

/-- An update on a cycle is one of another location. -/
theorem WaitOk.updates (h : WaitOk s) {t u : T} (hwaits : s.WaitsFor t u) (hcycle : TransGen s.WaitsFor t t)
    (hcycle' : TransGen s.WaitsFor u u) : s.Updates (s.threads t).peerId (s.threads u).peerId := by
  obtain ⟨l, p, ht⟩ := h.update hcycle
  obtain ⟨l', p', hu⟩ := h.update hcycle'
  obtain ⟨_, ⟨k, hk, hk'⟩, e, he, hend⟩ := h.overlaps hwaits ht hu
  -- the id that is wanted is the one that the other thread has
  have hid : p' = l := ((Number160.locations_iff p' k).mp hk).symm.trans ((Number160.locations_iff l k).mp hk')
  subst hid
  have hpeer : (s.threads t).peerId = p := by rw [StorageThread.peerId, ht.call]
  have hpeer' : (s.threads u).peerId = p' := by rw [StorageThread.peerId, hu.call]
  rw [hpeer, hpeer']
  refine ⟨?_, t, ht.call, ht.held⟩
  rintro rfl
  -- both would be recorded for the same id
  obtain ⟨w, hwaits', hcycle''⟩ := Cycles.exists_predecessor hcycle
  obtain ⟨_, _, hw⟩ := h.update hcycle''
  obtain ⟨_, _, e', he', hend'⟩ := h.overlaps hwaits' hw ht
  have hone (k : Number640) (v : T) (hget : (s.cache .responsibilityLock).get k = some v)
      (hk : (StorageLock.responsibility p).range.IsEnd k) :
      (s.cache .responsibilityLock).get (StorageLayer.maxKey p) = some v := by
    rcases hk with rfl | rfl
    · rw [← h.responsibility.ends]
      exact hget
    · exact hget
  have hsame := (hone e u he hend).symm.trans (hone e' t he' hend')
  exact hwaits.1 (Option.some.inj hsame)

end Cycle

/-- In a run whose steps meet the condition no threads wait for each other in a
    cycle. -/
theorem Run.acyclic (h : Run sl Ordered s) : Acyclic s.WaitsFor :=
  h.waitOk.order.acyclic.of_cycle (fun t => (s.threads t).peerId) fun _ _ => h.waitOk.updates

/-! ### Two updates -/

/-- Two threads update a location each, whose id is the peer of the other one. Each
    is let in and gets the lock for its peer, and then waits for its location. -/
def crossing : Option (StorageSystem Nat) :=
  play {} {} [.call 0 (.updateResponsibilities 1 2), .call 1 (.updateResponsibilities 2 1),
    .act 0, .act 1, .act 0, .act 1, .act 0, .act 1]

/-- Whether a thread waits, and for which lock. -/
def waits (s : StorageSystem Nat) (t : Nat) : Bool × Option StorageLock :=
  ((s.threads t).waiting, (s.threads t).wants)

/-- The two threads wait for each other. -/
theorem not_acyclic_crossing :
    ¬ ∀ s : StorageSystem Nat, Run {} (fun _ _ => True) s → Acyclic s.WaitsFor := by
  intro h
  have hwaits : crossing.map (fun s => (s.waits 0, s.waits 1)) =
      some ((true, some (.responsibility 1)), (true, some (.responsibility 2))) := by decide +kernel
  have hcache : crossing.map (fun s => ((s.cache .responsibilityLock).get (StorageLayer.minKey 1),
      (s.cache .responsibilityLock).get (StorageLayer.minKey 2))) = some (some 1, some 0) := by decide +kernel
  obtain ⟨s, hs, hview⟩ := Option.map_eq_some_iff.mp hwaits
  rw [hs] at hcache
  simp only [waits, Prod.mk.injEq] at hview
  simp only [Option.map_some, Option.some.injEq, Prod.mk.injEq] at hcache
  have hforth : s.WaitsFor 0 1 :=
    ⟨by decide, hview.1.1, _, hview.1.2, .inl ⟨_, le_refl _, minKey_le_maxKey 1, hcache.1⟩⟩
  have hback : s.WaitsFor 1 0 :=
    ⟨by decide, hview.2.1, _, hview.2.2, .inl ⟨_, le_refl _, minKey_le_maxKey 2, hcache.2⟩⟩
  exact h s (Run.play (Run.start _) hs) 0 (.tail (.single hforth) hback)

omit [DecidableEq T] in
/-- An operation with one lock meets the condition whenever it takes or frees it. -/
theorem ordered_find {t : T} {peerID : Number160}
    (hcall : (s.threads t).call = some (.findContentForResponsiblePeerID peerID))
    (hnext : (s.threads t).next = none) : Ordered s (.act t) := by
  refine ⟨?_, fun lock _ _ => ⟨?_, ?_, ?_⟩⟩
  · intro a ha
    rw [hnext] at ha
    cases ha
  · intro time key h
    rw [hcall] at h
    cases h
  · intro locationKey h
    rw [hcall] at h
    cases h
  · intro locationKey peerId h
    rw [hcall] at h
    cases h

/-- A thread waits for another one, and there is no cycle. -/
theorem acyclic_find : ∃ s : StorageSystem Nat, s.WaitsFor 1 0 ∧ Acyclic s.WaitsFor := by
  have hstart : Run {} Ordered ({} : StorageSystem Nat) := Run.start {}
  have hcall := hstart.step (.call 0 (.findContentForResponsiblePeerID 1)) trivial rfl
  have henter := hcall.step (.act 0) (ordered_find (by rfl) (by rfl)) rfl
  have hlock := henter.step (.act 0) (ordered_find (by rfl) (by rfl)) rfl
  have hcall' := hlock.step (.call 1 (.findContentForResponsiblePeerID 1)) trivial rfl
  have henter' := hcall'.step (.act 1) (ordered_find (by rfl) (by rfl)) rfl
  have hwait := henter'.step (.act 1) (ordered_find (by rfl) (by rfl)) rfl
  refine ⟨_, ⟨by decide, ?_, .responsibility 1, ?_, ?_⟩, hwait.acyclic⟩
  · rfl
  · rfl
  · exact .inl ⟨_, le_refl _, minKey_le_maxKey 1, by rfl⟩

end StorageSystem

end TomP2P
