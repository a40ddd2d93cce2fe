import Mathlib.Logic.Function.Basic
import TomP2P.Core.Signature
import TomP2P.Foundation.NavMap

/-!
# Locks on Ranges of Keys

A lock that threads take on ranges of keys. Its table holds the two end keys of
every locked range with the thread that locked it, and nothing that says which
two belong together.

A request is blocked by a thread that has a key within the range, or keys on both
sides of it. The second test is how a range is seen that encloses the request
without having an end in it. `mustWait` is the test as the loop of `lock` makes
it, `tryLock` makes it in two steps; `mustWait_iff` and `tryLock_eq` are that
both are the same test, `Blocked`.

A lock and the threads that use it make up a `State`. The ranges that are held
are not known to the lock, they are the objects it has given out.

## Main definitions

* `RangeLock.tryLock`, `RangeLock.lock`, `RangeLock.unlock`: The operations.
* `RangeLock.Blocked`: A request is blocked by another thread.
* `RangeLock.State`, `RangeLock.State.step`: A lock with its threads.

## Theorems

* `RangeLock.tryLock_eq`, `RangeLock.lock_eq`: Both operations make the same
  test and have the same effect.
-/

namespace TomP2P

namespace RangeLock

variable {K T : Type} [LinearOrder K] [DecidableEq T]

@[ext] structure Range (K : Type) where
  fromKey : K
  toKey : K
  deriving DecidableEq

/-- The thread ids that occur on both sides. -/
def intersection (before after : List T) : List T := before.filter fun id => after.contains id

/-- How many thread ids are those of others. -/
def sizeFiltered (id : T) (values : List T) : Nat := (values.filter fun value => value ≠ id).length

/-- The thread ids on both sides of a range. -/
def aroundIds (cache : NavMap K T) (fromKey toKey : K) : List T :=
  intersection (cache.headMap fromKey).values (cache.tailMap toKey).values

/-- Both ends of the range go to the thread. -/
def record (cache : NavMap K T) (id : T) (fromKey toKey : K) : NavMap K T :=
  (cache.put fromKey id).put toKey id

/-- Locks the range if no other thread is in the way. The answer is null
    otherwise. -/
def tryLock (cache : NavMap K T) (id : T) (fromKey toKey : K) :
    Except JavaException (Option (Range K) × NavMap K T) :=
  if toKey < fromKey then .error (.illegalArgument "fromKey > toKey")
  else
    let subMap := (cache.subMap fromKey toKey).values
    if !subMap.isEmpty && sizeFiltered id subMap ≠ 0 then .ok (none, cache)
    else
      let intersection := aroundIds cache fromKey toKey
      if !intersection.isEmpty && sizeFiltered id intersection ≠ 0 then .ok (none, cache)
      else .ok (some ⟨fromKey, toKey⟩, record cache id fromKey toKey)

/-- The loop of `lock` waits: there are keys in the way and they are not all the
    thread's own. -/
def mustWait (cache : NavMap K T) (id : T) (fromKey toKey : K) : Bool :=
  let subMap := (cache.subMap fromKey toKey).values
  let intersection := aroundIds cache fromKey toKey
  (!intersection.isEmpty || !subMap.isEmpty) &&
    !((subMap.isEmpty || sizeFiltered id subMap == 0) &&
      (intersection.isEmpty || sizeFiltered id intersection == 0))

/-- One round of the loop of `lock`, after it is entered or the thread is woken.
    The answer is `none` if the thread has to wait. -/
def lock (cache : NavMap K T) (id : T) (fromKey toKey : K) :
    Except JavaException (Option (Range K × NavMap K T)) :=
  if toKey < fromKey then .error (.illegalArgument "fromKey > toKey")
  else if mustWait cache id fromKey toKey then .ok none
  else .ok (some (⟨fromKey, toKey⟩, record cache id fromKey toKey))

/-- Frees both ends of the range, whoever has them. -/
def unlock (cache : NavMap K T) (range : Range K) : NavMap K T :=
  (cache.remove range.fromKey).remove range.toKey

/-! ### The test -/

/-- The thread is in the way of a request: it has a key in the range or keys on
    both sides of it. -/
def InTheWay (cache : NavMap K T) (u : T) (fromKey toKey : K) : Prop :=
  (∃ k, fromKey ≤ k ∧ k ≤ toKey ∧ cache.get k = some u) ∨
    ((∃ k, k < fromKey ∧ cache.get k = some u) ∧ ∃ k, toKey < k ∧ cache.get k = some u)

/-- Another thread is in the way of a request. -/
def Blocked (cache : NavMap K T) (id : T) (fromKey toKey : K) : Prop :=
  ∃ u, u ≠ id ∧ InTheWay cache u fromKey toKey

theorem sizeFiltered_ne_zero (id : T) (values : List T) :
    sizeFiltered id values ≠ 0 ↔ ∃ u ∈ values, u ≠ id := by
  simp [sizeFiltered, List.length_eq_zero_iff, List.filter_eq_nil_iff]

/-- Testing for emptiness first changes nothing. -/
theorem others_iff (id : T) (values : List T) :
    (!values.isEmpty && decide (sizeFiltered id values ≠ 0)) = true ↔ ∃ u ∈ values, u ≠ id := by
  rw [Bool.and_eq_true, decide_eq_true_eq, sizeFiltered_ne_zero]
  refine ⟨And.right, ?_⟩
  intro h
  refine ⟨?_, h⟩
  obtain ⟨u, hu, _⟩ := h
  cases values with
  | nil => cases hu
  | cons v values => rfl

omit [DecidableEq T] in
theorem mem_subMap_values (cache : NavMap K T) (fromKey toKey : K) (u : T) :
    u ∈ (cache.subMap fromKey toKey).values ↔ ∃ k, fromKey ≤ k ∧ k ≤ toKey ∧ cache.get k = some u := by
  rw [NavMap.subMap, NavMap.mem_values_filter]
  refine exists_congr fun k => ?_
  rw [Bool.and_eq_true, decide_eq_true_eq, decide_eq_true_eq]
  tauto

theorem mem_aroundIds (cache : NavMap K T) (fromKey toKey : K) (u : T) :
    u ∈ aroundIds cache fromKey toKey ↔
      (∃ k, k < fromKey ∧ cache.get k = some u) ∧ ∃ k, toKey < k ∧ cache.get k = some u := by
  rw [aroundIds, intersection, List.mem_filter, List.contains_iff_mem, NavMap.headMap, NavMap.tailMap,
    NavMap.mem_values_filter, NavMap.mem_values_filter]
  refine and_congr ?_ ?_
  · refine exists_congr fun k => ?_
    rw [decide_eq_true_eq]
    tauto
  · refine exists_congr fun k => ?_
    rw [decide_eq_true_eq]
    tauto

theorem blocked_iff (cache : NavMap K T) (id : T) (fromKey toKey : K) :
    Blocked cache id fromKey toKey ↔
      (∃ u ∈ (cache.subMap fromKey toKey).values, u ≠ id) ∨
        ∃ u ∈ aroundIds cache fromKey toKey, u ≠ id := by
  simp only [Blocked, InTheWay, mem_subMap_values, mem_aroundIds]
  constructor
  · rintro ⟨u, hne, hin | haround⟩
    · exact .inl ⟨u, hin, hne⟩
    · exact .inr ⟨u, haround, hne⟩
  · rintro (⟨u, hin, hne⟩ | ⟨u, haround, hne⟩)
    · exact ⟨u, hne, .inl hin⟩
    · exact ⟨u, hne, .inr haround⟩

theorem mustWait_iff (cache : NavMap K T) (id : T) (fromKey toKey : K) :
    mustWait cache id fromKey toKey = true ↔ Blocked cache id fromKey toKey := by
  rw [blocked_iff, ← others_iff, ← others_iff, mustWait]
  cases (cache.subMap fromKey toKey).values.isEmpty <;>
    cases (aroundIds cache fromKey toKey).isEmpty <;> simp

instance (cache : NavMap K T) (id : T) (fromKey toKey : K) : Decidable (Blocked cache id fromKey toKey) :=
  decidable_of_iff _ (mustWait_iff cache id fromKey toKey)

theorem lock_eq (cache : NavMap K T) (id : T) (fromKey toKey : K) :
    lock cache id fromKey toKey =
      if toKey < fromKey then .error (.illegalArgument "fromKey > toKey")
      else if Blocked cache id fromKey toKey then .ok none
      else .ok (some (⟨fromKey, toKey⟩, record cache id fromKey toKey)) := by
  unfold lock
  by_cases hb : Blocked cache id fromKey toKey
  · rw [if_pos hb, if_pos ((mustWait_iff cache id fromKey toKey).mpr hb)]
  · rw [if_neg hb, if_neg (fun h => hb ((mustWait_iff cache id fromKey toKey).mp h))]

theorem tryLock_eq (cache : NavMap K T) (id : T) (fromKey toKey : K) :
    tryLock cache id fromKey toKey =
      if toKey < fromKey then .error (.illegalArgument "fromKey > toKey")
      else if Blocked cache id fromKey toKey then .ok (none, cache)
      else .ok (some ⟨fromKey, toKey⟩, record cache id fromKey toKey) := by
  unfold tryLock
  dsimp only
  by_cases hsub : ∃ u ∈ (cache.subMap fromKey toKey).values, u ≠ id
  · rw [if_pos ((blocked_iff cache id fromKey toKey).mpr (.inl hsub)), if_pos ((others_iff _ _).mpr hsub)]
  · rw [if_neg (fun h => hsub ((others_iff _ _).mp h))]
    by_cases haround : ∃ u ∈ aroundIds cache fromKey toKey, u ≠ id
    · rw [if_pos ((blocked_iff cache id fromKey toKey).mpr (.inr haround)),
        if_pos ((others_iff _ _).mpr haround)]
    · have hnot : ¬ Blocked cache id fromKey toKey := by
        rw [blocked_iff]
        exact not_or.mpr ⟨hsub, haround⟩
      rw [if_neg (fun h => haround ((others_iff _ _).mp h)), if_neg hnot]

/-! ### A lock with its threads -/

/-- The table, the ranges that were given out and not unlocked yet, and the
    requests of the threads that wait. -/
structure State (K T : Type) [LinearOrder K] where
  cache : NavMap K T := .empty
  held : List (T × Range K) := []
  waiting : T → Option (Range K) := fun _ => none

inductive Event (K T : Type)
  | tryLock (thread : T) (fromKey toKey : K)
  | lock (thread : T) (fromKey toKey : K)
  /-- A thread that waits is notified and looks again. -/
  | wake (thread : T)
  | interrupt (thread : T)
  | unlock (thread : T) (range : Range K)

inductive Answer (K : Type)
  | range (range : Range K)
  | null
  | thrown (e : JavaException)
  | waits
  | done

/-- What a thread gets from a round of `lock`. -/
def State.lockRound (s : State K T) (thread : T) (fromKey toKey : K) : State K T × Answer K :=
  match lock s.cache thread fromKey toKey with
  | .error e => (s, .thrown e)
  | .ok none => ({ s with waiting := Function.update s.waiting thread (some ⟨fromKey, toKey⟩) }, .waits)
  | .ok (some (range, cache)) =>
      ({ cache := cache
         held := (thread, range) :: s.held
         waiting := Function.update s.waiting thread none }, .range range)

/-- An event, unless it cannot happen: a thread that waits makes no request, only
    a thread that waits is woken or interrupted, and a range is unlocked while it
    is held. -/
def State.step (s : State K T) : Event K T → Option (State K T × Answer K)
  | .tryLock thread fromKey toKey =>
      if (s.waiting thread).isSome then none
      else
        match RangeLock.tryLock s.cache thread fromKey toKey with
        | .error e => some (s, .thrown e)
        | .ok (none, cache) => some ({ s with cache := cache }, .null)
        | .ok (some range, cache) =>
            some ({ s with cache := cache, held := (thread, range) :: s.held }, .range range)
  | .lock thread fromKey toKey =>
      if (s.waiting thread).isSome then none else some (s.lockRound thread fromKey toKey)
  | .wake thread =>
      match s.waiting thread with
      | none => none
      | some range => some (s.lockRound thread range.fromKey range.toKey)
  | .interrupt thread =>
      if (s.waiting thread).isSome then
        some ({ s with waiting := Function.update s.waiting thread none }, .null)
      else none
  | .unlock thread range =>
      if (thread, range) ∈ s.held then
        some ({ s with
          cache := RangeLock.unlock s.cache range
          held := s.held.erase (thread, range) }, .done)
      else none

end RangeLock

end TomP2P
