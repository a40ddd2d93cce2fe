import TomP2P.Foundation.Runs
import TomP2P.Theory.StorageRuns

/-!
# Access under Locks

The keys that an operation reads or changes lie in a range that its thread has
locked, and the range stays locked until the operation frees it.

The operations lock what they are asked for, which is not always what they come to.
`putAll` locks from its first to its last key, and then looks at all versions of
every content, some of which may lie outside. `removeReturnStatus` locks a range and
then removes one key after the other, each under a lock of its own; freeing the lock
of a key that is an end of the range takes the end out of the table. And a thread
that is interrupted while it waits goes on without its lock.

In runs in which nothing of this happens the access is under locks, in any
interleaving with any other operations.

## Main definitions

* `StorageSystem.KeysLocked`: The next access of a thread is under its locks.
* `StorageSystem.RangesKept`: What is locked is recorded, nobody else is granted a
  range that overlaps it, and it is freed by the block that took it.

## Theorems

* `StorageAction.Ok.covers`: The keys of an action lie in a range that is locked.
* `StorageSystem.Run.locked`: Access under locks in all runs.
-/

namespace TomP2P

open RangeLock (Range Guards)
open StorageThread (lockedBy mem_lockedBy_cons)

/-- The keys of a view lie in the range of the view. -/
theorem StorageAction.has_of_mem_next {m : StorageMemory} {fromKey toKey : Number640} {ascending : Bool}
    {cursor : Option Number640} {key : Number640}
    (h : key ∈ ((nextEntry m fromKey toKey ascending cursor).map Prod.fst).toList) :
    Range.Has ⟨fromKey, toKey⟩ key ∧ m.contains key = true := by
  rw [Option.mem_toList, Option.map_eq_some_iff] at h
  obtain ⟨entry, hentry, rfl⟩ := h
  have hnext := nextEntry_some hentry
  exact ⟨⟨hnext.1, hnext.2.1⟩, hnext.2.2⟩

/-- An operation on keys reads and changes only keys of a range that it has locked,
    if the versions it comes to are inside. -/
theorem StorageAction.Ok.covers {c : StorageCall} {outer : Set StorageLock} {m : StorageMemory}
    {a : StorageAction} (h : a.Ok True c outer) (hc : c.guarded = true) (hin : a.VersionsInside m) :
    ∀ key ∈ a.keys m, ∃ range, ⟨.rangeLock, range⟩ ∈ outer ∧ range.Has key := by
  intro key hkey
  have hone {k : Number640} (hk : key ∈ [k]) (hcover : Covered True c outer fun range => range.Has k) :
      ∃ range, ⟨.rangeLock, range⟩ ∈ outer ∧ range.Has key := by
    rw [List.mem_singleton] at hk
    subst hk
    exact hcover trivial hc
  have hspan {span : Range Number640} (hcover : Covered True c outer fun range => range = span)
      (hk : span.Has key) : ∃ range, ⟨.rangeLock, range⟩ ∈ outer ∧ range.Has key := by
    obtain ⟨range, hrange, rfl⟩ := hcover trivial hc
    exact ⟨range, hrange, hk⟩
  have hunguarded {P : Prop} (hno : c.guarded = false) : P := by
    rw [hno] at hc
    cases hc
  cases a with
  | putDomain | putEntry | removeClaim | dataClaim | metaDomain | amendEntry | leave | removeResponsibility
  | drop | readResponsibility | updateResponsibilities => cases hkey
  | putGet | put | addTimeout | removeTimeout | remove | removeContains | dataGet | get | contains
  | digestContains | amendGet => exact hone hkey h
  | forkNext span content cursor =>
      obtain ⟨hrange, hstored⟩ := has_of_mem_next hkey
      exact hspan h (hin key hstored ((Number480.versions_iff content key).mp hrange))
  | trim span content =>
      have hentry : ∃ entry ∈ (m.versions content).entries, entry.1 = key := by
        rcases List.mem_append.mp hkey with hkey | hkey
        · rw [Option.mem_toList, Option.map_eq_some_iff] at hkey
          obtain ⟨entry, hentry, rfl⟩ := hkey
          exact ⟨entry, List.mem_of_mem_head? hentry, rfl⟩
        · rw [Option.mem_toList, Option.map_eq_some_iff] at hkey
          obtain ⟨entry, hentry, rfl⟩ := hkey
          exact ⟨entry, List.mem_of_getLast? hentry, rfl⟩
      obtain ⟨entry, hentry, rfl⟩ := hentry
      have hversion := contains_of_mem_versions hentry
      exact hspan h (hin entry.1 hversion.1 hversion.2)
  | trimPoll span content =>
      rw [keys, Option.mem_toList, Option.map_eq_some_iff] at hkey
      obtain ⟨entry, hentry, rfl⟩ := hkey
      have hversion := contains_of_mem_versions (List.mem_of_mem_head? hentry)
      exact hspan h (hin entry.1 hversion.1 hversion.2)
  | dataNext fromKey toKey publicKey cursor => exact hspan h (has_of_mem_next hkey).1
  | statusNext fromKey toKey publicKey cursor => exact hspan h.2.2 (has_of_mem_next hkey).1
  | copyNext fromKey toKey limit ascending counter cursor => exact hspan h (has_of_mem_next hkey).1
  | subMapTimeout time =>
      obtain ⟨⟨_, rfl⟩, _⟩ := h
      cases hc
  | isEmpty locationKey | removeRange locationKey => exact hunguarded h

namespace StorageSystem

variable {T : Type} [DecidableEq T] {sl : StorageLayer} {s : StorageSystem T}

/-- The keys that the next action of a thread reads or changes lie in a range that
    the thread has locked, if it runs an operation on keys. -/
def KeysLocked (s : StorageSystem T) (t : T) : Prop :=
  ∀ c a, (s.threads t).call = some c → c.guarded = true → (s.threads t).next = some a →
    ∀ key ∈ a.keys s.backend, ∃ range, ⟨.rangeLock, range⟩ ∈ (s.threads t).held ∧ range.Has key

/-- A range that is locked is recorded for its thread, another thread has to wait
    for a range that overlaps it, and it stays locked until the block that took it
    has nothing else to do and frees it. -/
def RangesKept (sl : StorageLayer) (s : StorageSystem T) : Prop :=
  ∀ t range, ⟨.rangeLock, range⟩ ∈ (s.threads t).held →
    (s.cache .rangeLock).get range.fromKey = some t ∧ (s.cache .rangeLock).get range.toKey = some t ∧
    (∀ u q, u ≠ t → range.Overlaps q →
      RangeLock.lock (s.cache .rangeLock) u q.fromKey q.toKey = .ok none ∧
      RangeLock.tryLock (s.cache .rangeLock) u q.fromKey q.toKey = .ok (none, s.cache .rangeLock)) ∧
    ∀ e s', s.step sl e = some s' →
      ⟨.rangeLock, range⟩ ∈ (s'.threads t).held ∨
        (e = .act t ∧ ∃ f below, (s.threads t).frames = f :: below ∧ f.wanted = [] ∧ f.todo = [] ∧
          f.acquired = [some ⟨.rangeLock, range⟩])

omit [DecidableEq T] in
/-- The next action is run under the locks that the thread has. -/
theorem ok_of_next {t : T} {strict : Prop} {c : StorageCall} {a : StorageAction}
    (h : (s.threads t).Ok strict) (hcall : (s.threads t).call = some c) (hnext : (s.threads t).next = some a) :
    a.Ok strict c {lock | lock ∈ (s.threads t).held} := by
  unfold StorageThread.next at hnext
  split at hnext
  · next acquired a' rest below hframes =>
      cases hnext
      obtain ⟨c', hcall', hf, _⟩ := stackOk_of_frames h hframes
      rw [hcall, Option.some.injEq] at hcall'
      subst hcall'
      have hset : ({lock | lock ∈ ([] : List StorageLock)} ∪ {lock | some lock ∈ acquired} ∪
          {lock | lock ∈ lockedBy below} : Set StorageLock) = {lock | lock ∈ (s.threads t).held} := by
        ext lock
        rw [StorageThread.held, hframes]
        simp [mem_lockedBy_cons]
      rw [← hset]
      exact hf.todo _ List.mem_cons_self
  · cases hnext

/-- In a run without interrupts of operations on keys, in which no version outside
    of its range is stored when `putAll` looks at versions and no end of its range
    when `removeReturnStatus` looks for the next key: ranges are kept until they
    are freed, and the next step that meets the condition is under locks. -/
theorem Run.locked (h : Run sl (Disciplined True) s) :
    RangesKept sl s ∧ ∀ t, Disciplined True s (.act t) → KeysLocked s t := by
  obtain ⟨hok, hguards⟩ := h.invariant fun _ _ hc => hc
  refine ⟨?_, ?_⟩
  · intro t range hheld
    have hmem : (t, range) ∈ s.heldSet .rangeLock := hheld
    have hfrom := (hguards.recorded range.fromKey t).mpr ⟨range, hmem, .inl rfl⟩
    have hto := (hguards.recorded range.toKey t).mpr ⟨range, hmem, .inr rfl⟩
    refine ⟨hfrom, hto, ?_, ?_⟩
    · intro u q hne hover
      have hblocked := hguards.blocked hmem hne.symm hover
      obtain ⟨k, _, hk⟩ := hover
      have hle : ¬ q.toKey < q.fromKey := not_lt.mpr (le_trans hk.1 hk.2)
      rw [RangeLock.lock_eq, RangeLock.tryLock_eq, if_neg hle, if_neg hle, if_pos hblocked, if_pos hblocked]
      exact ⟨rfl, rfl⟩
    · intro e s' hstep
      rcases heldSet_moves hok (moves_of_step hstep) with ⟨_, hsame⟩ | ⟨t', range', _, _, _, hmore⟩ |
        ⟨t', range', f, below, he, hframes, hwanted, htodo, hacquired, _, _, hless⟩
      · exact .inl (hsame ▸ hmem : (t, range) ∈ s'.heldSet .rangeLock)
      · exact .inl (hmore ▸ Set.mem_insert_of_mem _ hmem : (t, range) ∈ s'.heldSet .rangeLock)
      · by_cases heq : (t, range) = (t', range')
        · cases heq
          exact .inr ⟨he, f, below, hframes, hwanted, htodo, hacquired⟩
        · exact .inl (hless ▸ ⟨hmem, heq⟩ : (t, range) ∈ s'.heldSet .rangeLock)
  · intro t hcond c a hcall hguarded hnext
    exact StorageAction.Ok.covers (ok_of_next (hok t) hcall hnext) hguarded ((hcond a hnext).1 trivial)

/-! ### A version that is stored already -/

/-- A version of one content. -/
def versionKey (version : Number160) : Number640 := ⟨1, 1, 1, version⟩

/-- The thread comes to no other keys than those it was asked for. -/
def keepsToKeys (s : StorageSystem T) : Event T → Bool
  | .call _ _ => true
  | .act t => (s.threads t).next.all fun
      | .forkNext .. | .trim .. | .trimPoll .. | .statusNext .. => false
      | _ => true
  | .interrupt _ => false

omit [DecidableEq T] in
theorem disciplined_of_keepsToKeys {strict : Prop} {e : Event T} (h : s.keepsToKeys e = true) :
    Disciplined strict s e := by
  cases e with
  | call t c => trivial
  | interrupt t => cases h
  | act t =>
      intro a ha
      simp only [keepsToKeys, ha, Option.all_some] at h
      cases a <;> first
        | exact ⟨fun _ => trivial, trivial⟩
        | cases h

/-- A store with version 3, and a thread that puts version 5, up to the point where
    it looks at the versions. -/
def putVersion : Option (StorageSystem Nat) :=
  play {} { backend := ({} : StorageMemory).put (versionKey 3) (Data.new [] 0) }
    (.call 0 (.op (.put (versionKey 5) (Data.new [] 0) none false false false)) ::
      List.replicate 7 (.act 0))

/-- The thread comes to version 3 and has locked version 5 only. -/
theorem not_keysLocked_putVersion :
    ¬ ∀ s : StorageSystem Nat, Run {} (fun _ _ => True) s → RangesKept {} s ∧ ∀ t, KeysLocked s t := by
  intro h
  have hview : putVersion.map (fun s => ((s.threads 0).call.map StorageCall.guarded,
      (s.threads 0).next.map fun a => a.keys s.backend, (s.threads 0).held)) =
      some (some true, some [versionKey 3], [.ofKey (versionKey 5)]) := by decide +kernel
  obtain ⟨s, hs, hs'⟩ := Option.map_eq_some_iff.mp hview
  simp only [Prod.mk.injEq, Option.map_eq_some_iff] at hs'
  obtain ⟨⟨c, hcall, hguarded⟩, ⟨a, hnext, hkeys⟩, hheld⟩ := hs'
  have hlocked := (h s (Run.play (Run.start _) hs)).2 0 c a hcall hguarded hnext (versionKey 3)
    (hkeys ▸ List.mem_singleton_self _)
  obtain ⟨range, hrange, hhas⟩ := hlocked
  rw [hheld, List.mem_singleton] at hrange
  cases hrange
  exact absurd hhas.1 (by decide +kernel)

/-- A thread that puts version 5 up to where it writes it, beside one that removes version 3, up to
    the removal. -/
def putBesideRemove : List (Event Nat) :=
  [.call 0 (.op (.put (versionKey 5) (Data.new [] 0) none false false false)),
    .call 1 (.op (.remove (versionKey 3) none true))] ++
    (List.replicate 5 [.act 0, .act 1]).flatten

/-- Both threads change what they have locked. -/
theorem keysLocked_beside : ∃ s : StorageSystem Nat,
    [0, 1].map (fun t => (s.threads t).next.map fun a => a.keys s.backend) =
        [some [versionKey 5], some [versionKey 3]] ∧
      KeysLocked s 0 ∧ KeysLocked s 1 := by
  have hreplay : (replay (step {}) (fun s e => s.keepsToKeys e = true) putBesideRemove
      { backend := ({} : StorageMemory).put (versionKey 3) (Data.new [] 0) }).any (fun s =>
        decide ([0, 1].map (fun t => (s.threads t).next.map fun a => a.keys s.backend) =
          [some [versionKey 5], some [versionKey 3]] ∧ [0, 1].all (fun t => s.keepsToKeys (.act t)) = true)) = true := by
    decide +kernel
  obtain ⟨s, hs, hview⟩ := (Option.any_eq_true _ _).mp hreplay
  obtain ⟨hkeys, hnext⟩ := of_decide_eq_true hview
  have hrun : Run {} (Disciplined True) s := by
    refine (Reached.replay _ (.start rfl) hs).invariant (Run {} (Disciplined True)) ?_ ?_
    · rintro _ rfl
      exact Run.start _
    · intro s e s' h hcond hstep
      exact h.step e (disciplined_of_keepsToKeys hcond) hstep
  have hall := List.all_eq_true.mp hnext
  exact ⟨s, hkeys, hrun.locked.2 0 (disciplined_of_keepsToKeys (hall 0 (by simp))),
    hrun.locked.2 1 (disciplined_of_keepsToKeys (hall 1 (by simp)))⟩

end StorageSystem

end TomP2P
