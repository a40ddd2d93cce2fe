import TomP2P.Foundation.Cycles
import TomP2P.Theory.StorageRuns

/-!
# The Order of the Locks

What has to be known of two locks that are taken one after the other.

Two operations take the two locks of a storage layer in opposite orders:
`checkTimeout` takes the responsibility for the location of a key that it has, and
`removeResponsibility` takes the location whose responsibility it has. And
`updateResponsibilities` takes the responsibility for a peer and then that for a
location, which are ids of one kind. `Ordered` is the condition that the locations
of the first two differ while they are between their locks, and that no updates
lead from the location of an update back to its peer.

The lock on responsibilities is looked at too. It does not exclude as the one on
keys does, since an update of an id by itself frees its lock twice. But what is
recorded in it is held, and both ends of an id are recorded for one thread. An update
that is interrupted at its first lock would leave the second one in the table, and
the condition excludes that.

## Main definitions

* `StorageThread.Expiring`, `StorageThread.Removing`, `StorageThread.Updating`: A
  thread is between its two locks.
* `StorageSystem.Ordered`: The condition for the order of the locks.
* `StorageSystem.OrderOk`, `StorageSystem.ResponsibilityOk`: What is kept.

## Theorems

* `StorageSystem.held_moves`: What a step lets one thread hold.
* `StorageSystem.orderOk_moves`: What a step keeps of the order.
* `StorageSystem.wanted_cases`: What a block that wants a lock has.
* `StorageSystem.responsibilityOk_moves`: What a step keeps of the lock on
  responsibilities.
-/

namespace TomP2P

open Relation List
open Cycles (Acyclic)
open RangeLock (Range Guards Blocked)
open StorageThread (StackOk lockedBy mem_lockedBy_cons)

/-- The command takes a lock, or one that follows from it does. -/
def StorageCmd.takes : StorageCmd → Bool
  | .sync _ _ => true
  | .access (.statusNext ..) | .access (.subMapTimeout _) | .access (.leave _) | .access (.drop _) => true
  | .access _ => false

namespace StorageThread

/-- A block under which a lock is held is going to take another one. -/
def seeksBy : List StorageFrame → Prop
  | [] => False
  | f :: below =>
      (lockedBy (f :: below) ≠ [] ∧ (f.wanted ≠ [] ∨ ∃ cmd ∈ f.todo, cmd.takes = true)) ∨ seeksBy below

/-- A thread that holds a lock is going to take another one. -/
def Seeks (th : StorageThread) : Prop := seeksBy th.frames

/-- `checkTimeout` has a key of the location and not yet the responsibility. -/
def Expiring (th : StorageThread) (locationKey : Number160) : Prop :=
  (∃ time, th.call = some (.op (.checkTimeout time))) ∧
    (∃ key : Number640, key.locationKey = locationKey ∧ .ofKey key ∈ th.held) ∧ th.Seeks

/-- `removeResponsibility` has the responsibility and not yet the location. -/
def Removing (th : StorageThread) (locationKey : Number160) : Prop :=
  th.call = some (.op (.removeResponsibility locationKey false)) ∧ .responsibility locationKey ∈ th.held ∧
    th.Seeks

/-- `updateResponsibilities` has the responsibility for the peer. -/
def Updating (th : StorageThread) (peerId locationKey : Number160) : Prop :=
  th.call = some (.updateResponsibilities locationKey peerId) ∧ .responsibility peerId ∈ th.held

end StorageThread

namespace StorageSystem

variable {T : Type} [DecidableEq T] {sl : StorageLayer} {s s' : StorageSystem T} {e : Event T}

/-- A thread has the first and updates the second. -/
def Updates (s : StorageSystem T) (peerId locationKey : Number160) : Prop :=
  peerId ≠ locationKey ∧ ∃ u, (s.threads u).Updating peerId locationKey

/-- The lock may be granted to the thread: the location of an expired key is not
    one whose data are to be removed and the other way round, and no updates lead
    from the location of an update back to its peer. -/
structure GrantOrdered (s : StorageSystem T) (t : T) (lock : StorageLock) : Prop where
  expire : ∀ time key, (s.threads t).call = some (.op (.checkTimeout time)) → lock = .ofKey key →
    ∀ u, ¬ (s.threads u).Removing key.locationKey
  remove : ∀ locationKey, (s.threads t).call = some (.op (.removeResponsibility locationKey false)) →
    lock = .responsibility locationKey → ∀ u, ¬ (s.threads u).Expiring locationKey
  update : ∀ locationKey peerId, (s.threads t).call = some (.updateResponsibilities locationKey peerId) →
    peerId ≠ locationKey → lock = .responsibility peerId → ¬ ReflTransGen s.Updates locationKey peerId

/-- The condition for the order of the locks: an end of a range that
    `removeReturnStatus` works on is not stored, a lock that is granted may be
    granted, and `updateResponsibilities` is not interrupted at its first lock. -/
def Ordered (s : StorageSystem T) : Event T → Prop
  | .call _ _ => True
  | .act t => (∀ a, (s.threads t).next = some a → a.EndsFree s.backend) ∧
      ∀ lock, (s.threads t).wants = some lock →
        ¬ Blocked (s.cache lock.table) t lock.range.fromKey lock.range.toKey → s.GrantOrdered t lock
  | .interrupt t => ∀ locationKey peerId,
      (s.threads t).call = some (.updateResponsibilities locationKey peerId) → (s.threads t).held ≠ []

/-! ### What a step does to one thread -/

open StorageAction in
/-- An action that takes no lock leaves no command that does. -/
theorem takes_of_run {a : StorageAction} {m m' : StorageMemory} {cmds : List StorageCmd}
    (hrun : a.run sl m = .ok cmds m') {cmd : StorageCmd} (hcmd : cmd ∈ cmds) (htakes : cmd.takes = true) :
    (StorageCmd.access a).takes = true := by
  cases a with
  | statusNext | subMapTimeout | leave | drop => rfl
  | putDomain | putEntry | amendEntry | metaDomain =>
      have hnext := mem_of_proceed hrun hcmd
      grind [StorageCmd.takes]
  | _ =>
      simp only [StorageAction.run, reading, writing] at hrun
      grind [StorageCmd.takes]

theorem wants_of_frames {th : StorageThread} {f : StorageFrame} {below : List StorageFrame}
    {lock : StorageLock} {rest : List StorageLock} (hframes : th.frames = f :: below)
    (hwanted : f.wanted = lock :: rest) : th.wants = some lock := by
  rw [StorageThread.wants, hframes]
  dsimp only
  rw [hwanted]
  rfl

/-- A thread that holds a lock and wants another one seeks it. -/
theorem seeks_of_wants {th : StorageThread} (hheld : th.held ≠ []) {lock : StorageLock}
    (hwants : th.wants = some lock) : th.Seeks := by
  unfold StorageThread.wants at hwants
  split at hwants
  · cases hwants
  · next f below hframes =>
      rw [StorageThread.held, hframes] at hheld
      rw [StorageThread.Seeks, hframes]
      refine .inl ⟨hheld, .inl ?_⟩
      intro hnil
      rw [hnil] at hwants
      cases hwants

theorem seeksBy_throwTo {th : StorageThread} {below : List StorageFrame} (h : (th.throwTo below).Seeks) :
    StorageThread.seeksBy below := by
  cases below with
  | nil => exact h
  | cons g below =>
      rcases h with ⟨hheld, hwanted | ⟨cmd, hcmd, _⟩⟩ | h
      · exact .inl ⟨hheld, .inl hwanted⟩
      · cases hcmd
      · exact .inr h

/-- The thread holds less than before and seeks less, within one operation. -/
def Loosens (s : StorageSystem T) (u : T) (th : StorageThread) : Prop :=
  ∀ lock ∈ th.held, th.call = (s.threads u).call ∧ lock ∈ (s.threads u).held ∧
    (th.Seeks → (s.threads u).Seeks)

/-- The thread was granted a lock that it wanted. -/
def Grants (s : StorageSystem T) (e : Event T) (u : T) (th : StorageThread) : Prop :=
  ∃ lock, e = .act u ∧ (s.threads u).wants = some lock ∧
    ¬ Blocked (s.cache lock.table) u lock.range.fromKey lock.range.toKey ∧
    th.call = (s.threads u).call ∧ ∀ lock' ∈ th.held, lock' = lock ∨ lock' ∈ (s.threads u).held

/-- A step lets a thread hold and seek less, or it grants it a lock. -/
theorem held_moves (hm : Moves sl s e s') (u : T) :
    Loosens s u (s'.threads u) ∨ Grants s e u (s'.threads u) := by
  -- Only the thread that acts has changed.
  have hother (u : T) : Loosens s u (s.threads u) ∨ Grants s e u (s.threads u) :=
    .inl fun lock h => ⟨rfl, h, id⟩
  cases hm with
  | @call t call hidle =>
      refine forall_setThread (P := fun u th => Loosens s u th ∨ Grants s _ u th) hother ?_ u
      exact .inl fun lock h => absurd h not_mem_nil
  | @refuse t f below lock rest hframes hwanted hbad =>
      refine forall_setThread (P := fun u th => Loosens s u th ∨ Grants s _ u th) hother ?_ u
      refine .inl fun lock h => ⟨?_, ?_, fun hseeks => ?_⟩
      · cases below <;> rfl
      · rw [StorageThread.held, hframes, mem_lockedBy_cons]
        exact .inr ((held_throwTo _ _ _).mp h)
      · rw [StorageThread.Seeks, hframes]
        exact .inr (seeksBy_throwTo hseeks)
  | @wait t f below lock rest hframes hwanted hblocked =>
      refine forall_setThread (P := fun u th => Loosens s u th ∨ Grants s _ u th) hother ?_ u
      exact .inl fun lock h => ⟨rfl, h, id⟩
  | @grant t f below lock rest hframes hwanted hle hfree =>
      -- The one step that adds a lock.
      refine forall_setThread (P := fun u th => Loosens s u th ∨ Grants s _ u th) hother ?_ u
      refine .inr ⟨lock, rfl, wants_of_frames hframes hwanted, hfree, rfl, ?_⟩
      intro lock' h
      rw [StorageThread.held, hframes]
      exact (mem_lockedBy_grant f below rest lock lock').mp h
  | @run t f below a rest cmds m hframes hwanted htodo hrun =>
      refine forall_setThread (P := fun u th => Loosens s u th ∨ Grants s _ u th) hother ?_ u
      refine .inl fun lock h => ⟨rfl, ?_, ?_⟩
      · rwa [StorageThread.held, hframes]
      · rw [StorageThread.Seeks, StorageThread.Seeks, hframes]
        rintro (⟨hheld, hwanted' | ⟨cmd, hcmd, htakes⟩⟩ | hseeks)
        · exact absurd hwanted hwanted'
        · refine .inl ⟨hheld, .inr ?_⟩
          rw [htodo]
          -- What the action leaves to do takes a lock only if the action does.
          rcases mem_append.mp hcmd with hcmd | hcmd
          · exact ⟨_, mem_cons_self, takes_of_run hrun hcmd htakes⟩
          · exact ⟨cmd, mem_cons_of_mem _ hcmd, htakes⟩
        · exact .inr hseeks
  | @fail t f below a rest m thrown hframes hwanted htodo hrun =>
      refine forall_setThread (P := fun u th => Loosens s u th ∨ Grants s _ u th) hother ?_ u
      refine .inl fun lock h => ⟨rfl, ?_, ?_⟩
      · rwa [StorageThread.held, hframes]
      · rw [StorageThread.Seeks, StorageThread.Seeks, hframes]
        rintro (⟨hheld, hwanted' | ⟨cmd, hcmd, htakes⟩⟩ | hseeks)
        · exact absurd hwanted hwanted'
        · cases hcmd
        · exact .inr hseeks
  | @enter t f below locks body rest hframes hwanted htodo =>
      refine forall_setThread (P := fun u th => Loosens s u th ∨ Grants s _ u th) hother ?_ u
      refine .inl fun lock h => ⟨rfl, ?_, ?_⟩
      · rwa [StorageThread.held, hframes]
      · rw [StorageThread.Seeks, StorageThread.Seeks, hframes]
        -- The locks of the body are those of the command that is entered.
        rintro (⟨hheld, _⟩ | ⟨hheld, hwanted' | ⟨cmd, hcmd, htakes⟩⟩ | hseeks)
        · refine .inl ⟨hheld, .inr ?_⟩
          rw [htodo]
          exact ⟨_, mem_cons_self, rfl⟩
        · exact absurd hwanted hwanted'
        · refine .inl ⟨hheld, .inr ⟨cmd, ?_, htakes⟩⟩
          rw [htodo]
          exact mem_cons_of_mem _ hcmd
        · exact .inr hseeks
  | @free t f below lock acquired hframes hwanted htodo hacquired =>
      refine forall_setThread (P := fun u th => Loosens s u th ∨ Grants s _ u th) hother ?_ u
      refine .inl fun lock' h => ⟨rfl, ?_, ?_⟩
      · rw [StorageThread.held, hframes, mem_lockedBy_free hacquired]
        exact .inr h
      · rw [StorageThread.Seeks, StorageThread.Seeks, hframes]
        rintro (⟨hheld, hwanted' | ⟨cmd, hcmd, htakes⟩⟩ | hseeks)
        · exact absurd hwanted hwanted'
        · rw [show ({ f with acquired := acquired } : StorageFrame).todo = [] from htodo] at hcmd
          cases hcmd
        · exact .inr hseeks
  | @exit t f below hframes hwanted htodo hacquired =>
      refine forall_setThread (P := fun u th => Loosens s u th ∨ Grants s _ u th) hother ?_ u
      refine .inl fun lock h => ⟨rfl, ?_, ?_⟩
      · rw [StorageThread.held, hframes, mem_lockedBy_cons]
        exact .inr h
      · rw [StorageThread.Seeks, StorageThread.Seeks, hframes]
        exact .inr
  | @unwind t f below hframes hwanted htodo hacquired =>
      refine forall_setThread (P := fun u th => Loosens s u th ∨ Grants s _ u th) hother ?_ u
      refine .inl fun lock h => ⟨?_, ?_, fun hseeks => ?_⟩
      · cases below <;> rfl
      · rw [StorageThread.held, hframes, mem_lockedBy_cons]
        exact .inr ((held_throwTo _ _ _).mp h)
      · rw [StorageThread.Seeks, hframes]
        exact .inr (seeksBy_throwTo hseeks)
  | @interrupt t f below lock rest hframes hwanted hwaiting =>
      refine forall_setThread (P := fun u th => Loosens s u th ∨ Grants s _ u th) hother ?_ u
      -- What was not granted is recorded as none, and holds nothing.
      have hsame : lockedBy ({ f with wanted := rest, acquired := f.acquired ++ [none] } :: below) =
          lockedBy (f :: below) := by
        simp [lockedBy]
      refine .inl fun lock' h => ⟨rfl, ?_, ?_⟩
      · rw [StorageThread.held, hframes, ← hsame]
        exact h
      · rw [StorageThread.Seeks, StorageThread.Seeks, hframes]
        rintro (⟨hheld, _⟩ | hseeks)
        · refine .inl ⟨hsame ▸ hheld, .inl ?_⟩
          rw [hwanted]
          exact cons_ne_nil _ _
        · exact .inr hseeks

/-! ### What a step keeps of the order -/

theorem expiring_moves (hm : Moves sl s e s') {t : T} {locationKey : Number160}
    (h : (s'.threads t).Expiring locationKey) :
    (s.threads t).Expiring locationKey ∨
      ∃ time key, e = .act t ∧ (s.threads t).call = some (.op (.checkTimeout time)) ∧
        (s.threads t).wants = some (.ofKey key) ∧
        ¬ Blocked (s.cache .rangeLock) t key key ∧ key.locationKey = locationKey := by
  obtain ⟨⟨time, hcall⟩, ⟨key, hkey, hheld⟩, hseeks⟩ := h
  rcases held_moves hm t with hloose | ⟨lock, he, hwants, hfree, hcall', hheld'⟩
  · obtain ⟨hcall', hold, hseeks'⟩ := hloose _ hheld
    exact .inl ⟨⟨time, hcall' ▸ hcall⟩, ⟨key, hkey, hold⟩, hseeks' hseeks⟩
  · rcases hheld' _ hheld with rfl | hold
    · exact .inr ⟨time, key, he, hcall' ▸ hcall, hwants, hfree, hkey⟩
    · exact .inl ⟨⟨time, hcall' ▸ hcall⟩, ⟨key, hkey, hold⟩,
        seeks_of_wants (ne_nil_of_mem hold) hwants⟩

theorem removing_moves (hm : Moves sl s e s') {t : T} {locationKey : Number160}
    (h : (s'.threads t).Removing locationKey) :
    (s.threads t).Removing locationKey ∨
      (e = .act t ∧ (s.threads t).call = some (.op (.removeResponsibility locationKey false)) ∧
        (s.threads t).wants = some (.responsibility locationKey) ∧
        ¬ Blocked (s.cache .responsibilityLock) t (StorageLayer.minKey locationKey)
          (StorageLayer.maxKey locationKey)) := by
  obtain ⟨hcall, hheld, hseeks⟩ := h
  rcases held_moves hm t with hloose | ⟨lock, he, hwants, hfree, hcall', hheld'⟩
  · obtain ⟨hcall', hold, hseeks'⟩ := hloose _ hheld
    exact .inl ⟨hcall' ▸ hcall, hold, hseeks' hseeks⟩
  · rcases hheld' _ hheld with rfl | hold
    · exact .inr ⟨he, hcall' ▸ hcall, hwants, hfree⟩
    · exact .inl ⟨hcall' ▸ hcall, hold, seeks_of_wants (ne_nil_of_mem hold) hwants⟩

theorem updating_moves (hm : Moves sl s e s') {t : T} {peerId locationKey : Number160}
    (h : (s'.threads t).Updating peerId locationKey) :
    (s.threads t).Updating peerId locationKey ∨
      (e = .act t ∧ (s.threads t).call = some (.updateResponsibilities locationKey peerId) ∧
        (s.threads t).wants = some (.responsibility peerId) ∧
        ¬ Blocked (s.cache .responsibilityLock) t (StorageLayer.minKey peerId)
          (StorageLayer.maxKey peerId)) := by
  obtain ⟨hcall, hheld⟩ := h
  rcases held_moves hm t with hloose | ⟨lock, he, hwants, hfree, hcall', hheld'⟩
  · obtain ⟨hcall', hold, _⟩ := hloose _ hheld
    exact .inl ⟨hcall' ▸ hcall, hold⟩
  · rcases hheld' _ hheld with rfl | hold
    · exact .inr ⟨he, hcall' ▸ hcall, hwants, hfree⟩
    · exact .inl ⟨hcall' ▸ hcall, hold⟩

/-- No location is expired and removed at once, and the updates make no cycle. -/
structure OrderOk (s : StorageSystem T) : Prop where
  apart : ∀ t u locationKey, (s.threads t).Expiring locationKey → ¬ (s.threads u).Removing locationKey
  acyclic : Acyclic s.Updates

theorem orderOk_moves (h : OrderOk s) (hm : Moves sl s e s') (hcond : Ordered s e) : OrderOk s' where
  apart t u locationKey ht hu := by
    rcases expiring_moves hm ht with ht | ⟨time, key, rfl, hcall, hwants, hfree, rfl⟩
    · rcases removing_moves hm hu with hu | ⟨rfl, hcall, hwants, hfree⟩
      · exact h.apart t u locationKey ht hu
      · exact (hcond.2 _ hwants hfree).remove locationKey hcall rfl t ht
    · rcases removing_moves hm hu with hu | ⟨he, hcall', _⟩
      · exact (hcond.2 _ hwants hfree).expire time key hcall rfl u hu
      · -- one thread runs one operation
        cases he
        rw [hcall] at hcall'
        cases hcall'
  acyclic := by
    by_cases hgrant : ∃ t locationKey peerId, e = .act t ∧ peerId ≠ locationKey ∧
        (s.threads t).call = some (.updateResponsibilities locationKey peerId) ∧
        (s.threads t).wants = some (.responsibility peerId) ∧
        ¬ Blocked (s.cache .responsibilityLock) t (StorageLayer.minKey peerId) (StorageLayer.maxKey peerId)
    · obtain ⟨t, locationKey, peerId, rfl, hne, hcall, hwants, hfree⟩ := hgrant
      have hback := (hcond.2 _ hwants hfree).update locationKey peerId hcall hne rfl
      refine (h.acyclic.insert hback).mono ?_
      rintro p l ⟨hpl, u, hu⟩
      rcases updating_moves hm hu with hu | ⟨he, hcall', _⟩
      · exact .inl ⟨hpl, u, hu⟩
      · cases he
        rw [hcall] at hcall'
        cases hcall'
        exact .inr ⟨rfl, rfl⟩
    · refine h.acyclic.mono ?_
      rintro p l ⟨hpl, u, hu⟩
      rcases updating_moves hm hu with hu | ⟨he, hcall, hwants, hfree⟩
      · exact ⟨hpl, u, hu⟩
      · exact absurd ⟨u, l, p, he, hpl, hcall, hwants, hfree⟩ hgrant

/-! ### What a block that wants a lock has -/

section Frames

variable {strict : Prop} {c : StorageCall} {outer : Set StorageLock} {f : StorageFrame} {lock : StorageLock}
  {rest : List StorageLock}

/-- What is left of two elements, from an element on. -/
theorem suffix_pair {α : Type} {taken rest : List α} {a p l : α} (h : taken ++ a :: rest <:+ [p, l]) :
    (taken = [] ∧ a = p ∧ rest = [l]) ∨ ((∀ b ∈ taken, b = p) ∧ a = l ∧ rest = []) := by
  rw [suffix_cons_iff, suffix_cons_iff, suffix_nil] at h
  rcases taken with _ | ⟨b, _ | ⟨b', taken⟩⟩
  · simp at h ⊢
    tauto
  · simp at h ⊢
    tauto
  · simp at h

/-- A block wants its only lock, or it is that of an update. -/
theorem wanted_cases (h : f.Ok strict c outer) (hwanted : f.wanted = lock :: rest) :
    (f.acquired = [] ∧ rest = [] ∧ c.Nests outer [lock]) ∨
      ∃ locationKey peerId, c = .updateResponsibilities locationKey peerId ∧ outer = ∅ ∧
        ((f.acquired = [] ∧ lock = .responsibility peerId ∧ rest = [.responsibility locationKey]) ∨
          (rest = [] ∧ lock = .responsibility locationKey ∧
            ∀ other, some other ∈ f.acquired → other = .responsibility peerId)) := by
  obtain ⟨locks, taken, hlocks, hsuffix, hgot⟩ := h.locks
  rw [hwanted] at hsuffix
  have hnil (htaken : taken = []) : f.acquired = [] := by
    subst htaken
    exact List.forall₂_nil_right_iff.mp hgot
  have hnests : c.Nests outer locks := by
    refine hlocks.resolve_left ?_
    rintro rfl
    simp at hsuffix
  rcases hnests.single_or_update with ⟨only, rfl⟩ | ⟨locationKey, peerId, hc, houter, rfl⟩
  · rw [suffix_cons_iff, suffix_nil] at hsuffix
    rcases taken with _ | ⟨a, taken⟩
    · have hone : lock = only ∧ rest = [] := by simpa using hsuffix
      obtain ⟨rfl, rfl⟩ := hone
      exact .inl ⟨hnil rfl, rfl, hnests⟩
    · simp at hsuffix
  · refine .inr ⟨locationKey, peerId, hc, houter, ?_⟩
    rcases suffix_pair hsuffix with ⟨htaken, hlock, hrest⟩ | ⟨htaken, hlock, hrest⟩
    · exact .inl ⟨hnil htaken, hlock, hrest⟩
    · exact .inr ⟨hrest, hlock, fun other hother => htaken other (mem_of_forall₂ hgot hother)⟩

end Frames

/-! ### What a step keeps of the lock on responsibilities -/

/-- At most the last lock of a block was not granted. -/
def Whole (f : StorageFrame) : Prop :=
  ∃ got : List StorageLock, f.acquired = got.map some ∨ (f.wanted = [] ∧ f.acquired = got.map some ++ [none])

theorem whole_throwTo {th : StorageThread} {below : List StorageFrame} (h : ∀ f ∈ below, Whole f) :
    ∀ f ∈ (th.throwTo below).frames, Whole f := by
  cases below with
  | nil => exact forall_mem_nil _
  | cons g below =>
      have hall := forall_mem_cons.mp h
      exact forall_mem_cons.mpr ⟨hall.1, hall.2⟩

omit [DecidableEq T] in
theorem whole_of_frames (h : ∀ u, ∀ f ∈ (s.threads u).frames, Whole f) {t : T} {f : StorageFrame}
    {below : List StorageFrame} (hframes : (s.threads t).frames = f :: below) :
    Whole f ∧ ∀ g ∈ below, Whole g := by
  have hall := h t
  rwa [hframes, forall_mem_cons] at hall

/-- A step keeps the blocks whole, if updates are not interrupted at their first
    lock. -/
theorem whole_moves (h : ∀ u, ∀ f ∈ (s.threads u).frames, Whole f) (hok : ∀ u, (s.threads u).Ok False)
    (hm : Moves sl s e s') (hcond : Ordered s e) : ∀ u, ∀ f ∈ (s'.threads u).frames, Whole f := by
  cases hm with
  | @call t call hidle =>
      refine forall_setThread (P := fun _ th => ∀ f ∈ th.frames, Whole f) h ?_
      exact forall_mem_singleton.mpr ⟨[], .inl rfl⟩
  | @refuse t f below lock rest hframes hwanted hbad =>
      refine forall_setThread (P := fun _ th => ∀ f ∈ th.frames, Whole f) h (whole_throwTo ?_)
      exact (whole_of_frames h hframes).2
  | @wait t f below lock rest hframes hwanted hblocked =>
      exact forall_setThread (P := fun _ th => ∀ f ∈ th.frames, Whole f) h (h t)
  | @grant t f below lock rest hframes hwanted hle hfree =>
      refine forall_setThread (P := fun _ th => ∀ f ∈ th.frames, Whole f) h ?_
      have hall := whole_of_frames h hframes
      obtain ⟨got, hgot | ⟨hnil, _⟩⟩ := hall.1
      · refine forall_mem_cons.mpr ⟨⟨got ++ [lock], .inl ?_⟩, hall.2⟩
        simp [hgot]
      · rw [hwanted] at hnil
        cases hnil
  | @run t f below a rest cmds m hframes hwanted htodo hrun =>
      refine forall_setThread (P := fun _ th => ∀ f ∈ th.frames, Whole f) h ?_
      have hall := whole_of_frames h hframes
      exact forall_mem_cons.mpr hall
  | @fail t f below a rest m thrown hframes hwanted htodo hrun =>
      refine forall_setThread (P := fun _ th => ∀ f ∈ th.frames, Whole f) h ?_
      have hall := whole_of_frames h hframes
      exact forall_mem_cons.mpr hall
  | @enter t f below locks body rest hframes hwanted htodo =>
      refine forall_setThread (P := fun _ th => ∀ f ∈ th.frames, Whole f) h ?_
      have hall := whole_of_frames h hframes
      exact forall_mem_cons.mpr ⟨⟨[], .inl rfl⟩, forall_mem_cons.mpr hall⟩
  | @free t f below lock acquired hframes hwanted htodo hacquired =>
      refine forall_setThread (P := fun _ th => ∀ f ∈ th.frames, Whole f) h ?_
      have hall := whole_of_frames h hframes
      refine forall_mem_cons.mpr ⟨?_, hall.2⟩
      obtain ⟨got, hgot | ⟨hnil, hgot⟩⟩ := hall.1 <;> rw [hacquired] at hgot <;>
        rcases got with _ | ⟨first, got⟩
      · cases hgot
      · exact ⟨got, .inl (List.cons.inj hgot).2⟩
      · cases hgot
      · exact ⟨got, .inr ⟨hnil, (List.cons.inj hgot).2⟩⟩
  | @exit t f below hframes hwanted htodo hacquired =>
      refine forall_setThread (P := fun _ th => ∀ f ∈ th.frames, Whole f) h ?_
      exact (whole_of_frames h hframes).2
  | @unwind t f below hframes hwanted htodo hacquired =>
      refine forall_setThread (P := fun _ th => ∀ f ∈ th.frames, Whole f) h (whole_throwTo ?_)
      exact (whole_of_frames h hframes).2
  | @interrupt t f below lock rest hframes hwanted hwaiting =>
      refine forall_setThread (P := fun _ th => ∀ f ∈ th.frames, Whole f) h ?_
      have hall := whole_of_frames h hframes
      obtain ⟨c, hcall, hf, _⟩ := stackOk_of_frames (hok t) hframes
      -- the lock that is missed is the last one, or the thread would hold nothing
      have hrest : rest = [] := by
        rcases wanted_cases hf hwanted with ⟨_, hrest, _⟩ | ⟨l, p, rfl, houter, ⟨hnone, _⟩ | ⟨hrest, _⟩⟩
        · exact hrest
        · refine absurd ?_ (hcond l p hcall)
          rw [StorageThread.held, hframes, eq_nil_iff_forall_not_mem]
          intro lock' hlock'
          rw [mem_lockedBy_cons, hnone] at hlock'
          rcases hlock' with hlock' | hlock'
          · cases hlock'
          · exact (houter ▸ hlock' : lock' ∈ (∅ : Set StorageLock))
        · exact hrest
      refine forall_mem_cons.mpr ⟨?_, hall.2⟩
      obtain ⟨got, hgot | ⟨hnil, _⟩⟩ := hall.1
      · refine ⟨got, .inr ⟨hrest, ?_⟩⟩
        dsimp only
        rw [hgot]
      · rw [hwanted] at hnil
        cases hnil

theorem minKey_le_maxKey (id : Number160) : StorageLayer.minKey id ≤ StorageLayer.maxKey id :=
  ((Number160.locations_iff id (StorageLayer.minKey id)).mpr rfl).2

/-- A lock on responsibilities that a block wants or has is one on an id. -/
theorem responsibility_of_frame {strict : Prop} {c : StorageCall} {outer : Set StorageLock} {f : StorageFrame}
    (h : f.Ok strict c outer) {range : Range Number640}
    (hin : ⟨.responsibilityLock, range⟩ ∈ f.wanted ∨ some ⟨.responsibilityLock, range⟩ ∈ f.acquired) :
    ∃ id, range = (StorageLock.responsibility id).range := by
  obtain ⟨locks, taken, hlocks, hsuffix, hgot⟩ := h.locks
  have hmem : ⟨.responsibilityLock, range⟩ ∈ locks := by
    refine hsuffix.mem (mem_append.mpr ?_)
    exact hin.symm.imp_left (mem_of_forall₂ hgot)
  have hnests : c.Nests outer locks := hlocks.resolve_left (ne_nil_of_mem hmem)
  obtain ⟨id, hid⟩ := hnests.responsibilityLock hmem rfl
  exact ⟨id, congrArg StorageLock.range hid⟩

/-- A block has no lock on responsibilities when it is abandoned. -/
theorem not_held_of_abandoned {strict : Prop} {c : StorageCall} {outer : Set StorageLock} {f : StorageFrame}
    (h : f.Ok strict c outer) (hwhole : Whole f) (hf : Abandoned f) (lock : StorageLock) :
    some lock ∉ f.acquired := by
  intro hin
  rcases hf with ⟨first, rest, hwanted, hbad⟩ | ⟨_, hnil | ⟨rest, hcons⟩⟩
  · rcases wanted_cases h hwanted with ⟨hnone, _⟩ | ⟨l, p, _, _, ⟨hnone, _⟩ | ⟨_, hfirst, _⟩⟩
    · rw [hnone] at hin
      cases hin
    · rw [hnone] at hin
      cases hin
    · -- the second lock of an update is never in the wrong order
      rw [hfirst] at hbad
      exact absurd (minKey_le_maxKey l) (not_le.mpr hbad)
  · rw [hnil] at hin
    cases hin
  · obtain ⟨got, hgot | ⟨_, hgot⟩⟩ := hwhole
    · rw [hcons] at hgot
      cases got <;> cases hgot
    · rw [hcons] at hgot
      cases got with
      | nil =>
          rw [hcons, hgot] at hin
          simp at hin
      | cons first got => cases hgot

/-- A step leaves the lock on responsibilities as it is, or it grants the
    responsibility for an id, or it frees it. -/
theorem responsibility_moves (hok : ∀ u, (s.threads u).Ok False)
    (hwhole : ∀ u, ∀ f ∈ (s.threads u).frames, Whole f) (hm : Moves sl s e s') :
    (s'.cache .responsibilityLock = s.cache .responsibilityLock ∧
      s'.heldSet .responsibilityLock = s.heldSet .responsibilityLock) ∨
    (∃ t id, s'.cache .responsibilityLock =
        RangeLock.record (s.cache .responsibilityLock) t (StorageLayer.minKey id) (StorageLayer.maxKey id) ∧
      s'.heldSet .responsibilityLock =
        insert (t, (StorageLock.responsibility id).range) (s.heldSet .responsibilityLock)) ∨
    (∃ t id, s'.cache .responsibilityLock =
        RangeLock.unlock (s.cache .responsibilityLock) (StorageLock.responsibility id).range ∧
      s.heldSet .responsibilityLock =
        insert (t, (StorageLock.responsibility id).range) (s'.heldSet .responsibilityLock)) := by
  have hlost (t : T) (f : StorageFrame) (below : List StorageFrame)
      (hframes : (s.threads t).frames = f :: below) (hf : Abandoned f) (range : Range Number640) :
      some ⟨.responsibilityLock, range⟩ ∉ f.acquired := by
    obtain ⟨c, _, hok', _⟩ := stackOk_of_frames (hok t) hframes
    exact not_held_of_abandoned hok' (whole_of_frames hwhole hframes).1 hf _
  rcases table_moves .responsibilityLock hm hlost with hsame |
    ⟨t, f, below, range, rest, _, hframes, hwanted, _, _, hcache, hheld⟩ |
    ⟨t, f, below, range, acquired, _, hframes, _, _, hacquired, hcache, hheld, _⟩
  · exact .inl hsame
  · obtain ⟨c, _, hf, _⟩ := stackOk_of_frames (hok t) hframes
    obtain ⟨id, rfl⟩ := responsibility_of_frame hf (.inl (hwanted ▸ mem_cons_self))
    exact .inr (.inl ⟨t, id, hcache, hheld⟩)
  · obtain ⟨c, _, hf, _⟩ := stackOk_of_frames (hok t) hframes
    obtain ⟨id, rfl⟩ := responsibility_of_frame hf (.inr (hacquired ▸ mem_cons_self))
    exact .inr (.inr ⟨t, id, hcache, hheld⟩)

/-- What is recorded in the lock on responsibilities is held, and both ends of an id
    are recorded for the same thread. -/
structure ResponsibilityOk (s : StorageSystem T) : Prop where
  recorded : ∀ k u, (s.cache .responsibilityLock).get k = some u →
    ∃ range, (u, range) ∈ s.heldSet .responsibilityLock ∧ range.IsEnd k
  ends : ∀ id, (s.cache .responsibilityLock).get (StorageLayer.minKey id) =
    (s.cache .responsibilityLock).get (StorageLayer.maxKey id)

theorem minKey_ne_maxKey (a b : Number160) : StorageLayer.minKey a ≠ StorageLayer.maxKey b := by
  intro h
  have hversion : Number160.ZERO = Number160.MAX_VALUE := congrArg Number640.versionKey h
  exact absurd hversion (by decide)

theorem minKey_inj {a b : Number160} : StorageLayer.minKey a = StorageLayer.minKey b ↔ a = b :=
  ⟨congrArg Number640.locationKey, congrArg StorageLayer.minKey⟩

theorem maxKey_inj {a b : Number160} : StorageLayer.maxKey a = StorageLayer.maxKey b ↔ a = b :=
  ⟨congrArg Number640.locationKey, congrArg StorageLayer.maxKey⟩

theorem responsibilityOk_moves (h : ResponsibilityOk s) (hok : ∀ u, (s.threads u).Ok False)
    (hwhole : ∀ u, ∀ f ∈ (s.threads u).frames, Whole f) (hm : Moves sl s e s') : ResponsibilityOk s' := by
  rcases responsibility_moves hok hwhole hm with ⟨hcache, hheld⟩ | ⟨t, id, hcache, hheld⟩ |
    ⟨t, id, hcache, hheld⟩
  · refine ⟨?_, ?_⟩
    · rw [hcache, hheld]
      exact h.recorded
    · rw [hcache]
      exact h.ends
  · have hget (k : Number640) : (RangeLock.record (s.cache .responsibilityLock) t (StorageLayer.minKey id)
        (StorageLayer.maxKey id)).get k = if k = StorageLayer.maxKey id then some t
          else if k = StorageLayer.minKey id then some t else (s.cache .responsibilityLock).get k :=
      Guards.get_record (s.cache .responsibilityLock) t (StorageLock.responsibility id).range k
    refine ⟨?_, ?_⟩
    · intro k u hk
      rw [hcache, hget k] at hk
      rw [hheld]
      by_cases hend : (StorageLock.responsibility id).range.IsEnd k
      · refine ⟨_, .inl ?_, hend⟩
        have ht : some t = some u := by
          rcases hend with heq | heq <;> simpa [heq, StorageLock.responsibility] using hk
        rw [Option.some.inj ht]
      · have hmax : k ≠ StorageLayer.maxKey id := fun heq => hend (.inr heq)
        have hmin : k ≠ StorageLayer.minKey id := fun heq => hend (.inl heq)
        rw [if_neg hmax, if_neg hmin] at hk
        obtain ⟨range, hin, hk'⟩ := h.recorded k u hk
        exact ⟨range, .inr hin, hk'⟩
    · intro a
      rw [hcache, hget, hget]
      simp only [minKey_ne_maxKey, (minKey_ne_maxKey _ _).symm, minKey_inj, maxKey_inj, if_false, h.ends a]
  · have hget (k : Number640) : (RangeLock.unlock (s.cache .responsibilityLock)
        (StorageLock.responsibility id).range).get k = if k = StorageLayer.maxKey id then none
          else if k = StorageLayer.minKey id then none else (s.cache .responsibilityLock).get k :=
      Guards.get_unlock (s.cache .responsibilityLock) (StorageLock.responsibility id).range k
    refine ⟨?_, ?_⟩
    · intro k u hk
      rw [hcache, hget k] at hk
      by_cases hend : (StorageLock.responsibility id).range.IsEnd k
      · rcases hend with heq | heq <;> simp [heq, StorageLock.responsibility] at hk
      · have hmax : k ≠ StorageLayer.maxKey id := fun heq => hend (.inr heq)
        have hmin : k ≠ StorageLayer.minKey id := fun heq => hend (.inl heq)
        rw [if_neg hmax, if_neg hmin] at hk
        obtain ⟨range, hin, hk'⟩ := h.recorded k u hk
        rw [hheld] at hin
        rcases hin with heq | hin
        · cases heq
          exact absurd hk' hend
        · exact ⟨range, hin, hk'⟩
    · intro a
      rw [hcache, hget, hget]
      simp only [minKey_ne_maxKey, (minKey_ne_maxKey _ _).symm, minKey_inj, maxKey_inj, if_false, h.ends a]

end StorageSystem

end TomP2P
