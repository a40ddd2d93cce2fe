import TomP2P.Core.StorageRPC
import TomP2P.Theory.SinglePut

/-!
# Adding to a List Tries One Key

The key that `doAdd` puts under is made from the first random number. A number that is
drawn because the key was taken replaces `contentKey2` and nothing else, so every attempt
is for the same key.

If the key is free, one attempt is the whole loop (`adds_of_free_iff`). If it is taken, the
checks that let the first attempt through let every later one through, none of them is
turned down for security, and no value gets under a key that was free before
(`SameKey.put`). With the default settings nothing is ever dropped from the store, and the
loop does not end (`doAdd_endless`).

## Main definitions

* `Adds`: The value ends up under a key that was free, or is refused.
* `FirstKeyFits`: The condition on the first key.

## Theorems

* `SameKey.put`: One attempt.
* `not_adds_of_taken`, `adds_of_free_iff`: A first key that is taken, and one that is free.
* `adds_iff`: When the value is added.
* `doAdd_endless`: A loop that does not end.
-/

namespace TomP2P

open Effect StorageMemory

namespace StorageRPC

variable (sl : StorageLayer) (publicKey : Option PublicKey) (protectDomain sendSelf : Bool)

-- One attempt

theorem addPass_eq (key : Number640) (newData : Data) (RND : Number160 × Stream' Number160)
    (m : StorageMemory) :
    addPass sl key newData publicKey protectDomain sendSelf RND m =
      match sl.put key newData publicKey true protectDomain sendSelf m with
      | .error e m' => .error e m'
      | .ok status m' =>
          if status = .FAILED_NOT_ABSENT then .ok (.inl (RND.2.head, RND.2.tail)) m'
          else .ok (.inr (status, RND.2)) m' := by
  rw [addPass, bind_apply]
  cases sl.put key newData publicKey true protectDomain sendSelf m with
  | error e m' => rfl
  | ok status m' =>
      dsimp only
      by_cases hs : status = .FAILED_NOT_ABSENT
      · rw [if_pos hs, if_pos hs]
        rfl
      · rw [if_neg hs, if_neg hs]
        rfl

section Taken

variable (m : StorageMemory) (key : Number640) (newData : Data)

/-- The checks let the message through, and no value is stored under another key that was
    free in the first state. -/
structure SameKey (s : StorageMemory) : Prop where
  checks : sl.letsThrough s publicKey protectDomain sendSelf key newData = .ok true
  free : ∀ k, k ≠ key → m.get k = none → s.get k = none

/-- Every attempt keeps that, and none is turned down for security. -/
theorem SameKey.put (s s' : StorageMemory) (status : PutStatus)
    (h : SameKey sl publicKey protectDomain sendSelf m key newData s)
    (hput : sl.put key newData publicKey true protectDomain sendSelf s = .ok status s') :
    SameKey sl publicKey protectDomain sendSelf m key newData s' ∧
      status ≠ .FAILED_SECURITY := by
  -- The first loop leaves the checks as they are, and the free keys free.
  have hmiddle : ∀ m₁ : StorageMemory,
      m₁.protectedMap = (sl.owned s publicKey protectDomain sendSelf key newData).protectedMap →
      m₁.entryMap = (sl.owned s publicKey protectDomain sendSelf key newData).entryMap →
      (∀ k, k ≠ key → m₁.get k = s.get k) →
      SameKey sl publicKey protectDomain sendSelf m key newData
        (sl.limited m₁ key.locationAndDomainAndContentKey) := by
    intro m₁ hd he hget
    constructor
    · rw [sl.letsThrough_congr m₁ _ _ _ _ _ _ (sl.limited_protectedMap m₁ _)
        (sl.limited_entryMap m₁ _), sl.letsThrough_congr _ _ _ _ _ _ _ hd he]
      exact sl.letsThrough_owned s publicKey protectDomain sendSelf key newData h.checks
    · intro k hk hfree
      rw [sl.limited_get, hget k hk, h.free k hk hfree]
      simp
  rw [sl.put_eq, sl.putEntry_eq, h.checks] at hput
  cases hblocked : StorageLayer.blockedBy s true key newData with
  | some status' =>
      simp only [hblocked, EStateM.Result.ok.injEq] at hput
      rw [← hput.1, ← hput.2]
      refine ⟨hmiddle _ rfl rfl fun k _ => sl.owned_get s publicKey protectDomain sendSelf key
        newData k, ?_⟩
      have hstatus : status' = .FAILED_NOT_ABSENT := by
        unfold StorageLayer.blockedBy at hblocked
        cases hget : s.get key with
        | none => simp [hget] at hblocked
        | some old =>
            simp only [hget, if_true, Option.some.injEq] at hblocked
            exact hblocked.symm
      rw [hstatus]
      split <;> simp
  | none =>
      simp only [hblocked, EStateM.Result.ok.injEq] at hput
      rw [← hput.1, ← hput.2]
      refine ⟨hmiddle _ (store_protectedMap _ _ _)
        (store_entryMap _ _ _) fun k hk => ?_, ?_⟩
      · rw [StorageMemory.get, store_dataMap, NavMap.get_put_ne _ _ _ _ hk,
          sl.owned_dataMap, StorageMemory.get]
      · split
        · simp
        · split <;> simp

end Taken

-- The whole loop

section Loop

variable (m : StorageMemory) (entry : Number640 × Data) (RND : Stream' Number160)

/-- The loop ends, and unless it reports a security failure the value is stored under a key
    that was free, and no other value has changed. -/
def Adds : Prop :=
  ∃ fuel status rest m',
    doAdd sl fuel protectDomain entry publicKey true sendSelf RND m = .ok (some (status, rest)) m' ∧
    (status ≠ .FAILED_SECURITY → ∃ contentKey, m.get (listKey entry contentKey) = none ∧
      m'.get (listKey entry contentKey) = some entry.2 ∧
      ∀ k, k ≠ listKey entry contentKey → m'.get k = m.get k)

/-- The checks turn the message down, and the first key is not marked as a fork; or they let
    it through, the first key is free, and the limit has nothing to remove once the value
    is stored. -/
def FirstKeyFits : Prop :=
  let key := listKey entry RND.head
  (sl.letsThrough m publicKey protectDomain sendSelf key entry.2 = .ok false ∧
    ¬StorageLayer.ForkedHead m key) ∨
  (sl.letsThrough m publicKey protectDomain sendSelf key entry.2 = .ok true ∧
    m.get key = none ∧
    ¬sl.Prunable (m.put key entry.2) key.locationAndDomainAndContentKey)

/-- A first attempt that does not find a value ends the loop. -/
theorem doAdd_first (status : PutStatus) (m' : StorageMemory)
    (hput : sl.put (listKey entry RND.head) entry.2 publicKey true protectDomain sendSelf m =
      .ok status m') (hstatus : status ≠ .FAILED_NOT_ABSENT) (fuel : Nat) :
    doAdd sl (fuel + 1) protectDomain entry publicKey true sendSelf RND m =
      .ok (some (status, RND.tail)) m' := by
  rw [doAdd, if_pos rfl]
  apply whileUpTo_first
  rw [addPass_eq, hput]
  dsimp only
  rw [if_neg hstatus]

/-- A message that the checks turn down is answered at once. -/
theorem put_refused (key : Number640) (newData : Data)
    (h : sl.letsThrough m publicKey protectDomain sendSelf key newData = .ok false) :
    ∃ m', sl.put key newData publicKey true protectDomain sendSelf m =
        .ok (if StorageLayer.ForkedHead m key then .VERSION_FORK else .FAILED_SECURITY) m' ∧
      ∀ k, m.get k = none → m'.get k = none := by
  refine ⟨sl.limited (sl.owned m publicKey protectDomain sendSelf key newData)
    key.locationAndDomainAndContentKey, ?_, ?_⟩
  · rw [sl.put_eq, sl.putEntry_eq, h]
    dsimp only
    simp only [StorageLayer.forkedHead_of_dataMap m _ key (sl.owned_dataMap m publicKey
      protectDomain sendSelf key newData)]
  · intro k hk
    rw [sl.limited_get, sl.owned_get, hk]
    simp

/-- A message that the checks let through is stored under a free key, and then the limit is
    applied. -/
theorem put_free (key : Number640) (newData : Data)
    (h : sl.letsThrough m publicKey protectDomain sendSelf key newData = .ok true)
    (hfree : m.get key = none) :
    ∃ status m₁, sl.put key newData publicKey true protectDomain sendSelf m =
        .ok status (sl.limited m₁ key.locationAndDomainAndContentKey) ∧
      status ≠ .FAILED_NOT_ABSENT ∧ status ≠ .FAILED_SECURITY ∧
      m₁.dataMap = m.dataMap.put key newData := by
  have hblocked : StorageLayer.blockedBy m true key newData = none := by
    rw [StorageLayer.blockedBy, hfree]
  refine ⟨if StorageLayer.ForkedHead ((sl.owned m publicKey protectDomain sendSelf key
    newData).store key newData) key then .VERSION_FORK
    else if newData.hasPrepareFlag then .OK_PREPARED else .OK,
    (sl.owned m publicKey protectDomain sendSelf key newData).store key newData, ?_, ?_, ?_, ?_⟩
  · rw [sl.put_eq, sl.putEntry_eq, h]
    dsimp only
    rw [hblocked]
  · split
    · simp
    · split <;> simp
  · split
    · simp
    · split <;> simp
  · rw [store_dataMap, sl.owned_dataMap]

/-- If the first key was taken, the value does not get under a key that was free, however
    many attempts are made. -/
theorem not_adds_of_taken
    (hchecks : sl.letsThrough m publicKey protectDomain sendSelf (listKey entry RND.head) entry.2 =
      .ok true) (htaken : m.get (listKey entry RND.head) ≠ none) :
    ¬Adds sl publicKey protectDomain sendSelf m entry RND := by
  rintro ⟨fuel, status, rest, m', hrun, hadded⟩
  rw [doAdd, if_pos rfl] at hrun
  have hstart : SameKey sl publicKey protectDomain sendSelf m (listKey entry RND.head) entry.2 m :=
    ⟨hchecks, fun _ _ h => h⟩
  have hpass : ∀ (a : Number160 × Stream' Number160) (s : StorageMemory) a' s',
      SameKey sl publicKey protectDomain sendSelf m (listKey entry RND.head) entry.2 s →
      addPass sl (listKey entry RND.head) entry.2 publicKey protectDomain sendSelf a s =
        .ok (.inl a') s' →
      SameKey sl publicKey protectDomain sendSelf m (listKey entry RND.head) entry.2 s' := by
    intro a s a' s' hs hp
    rw [addPass_eq] at hp
    cases hput : sl.put (listKey entry RND.head) entry.2 publicKey true protectDomain sendSelf s with
    | error e t => simp [hput] at hp
    | ok st t =>
        have hkept := SameKey.put sl publicKey protectDomain sendSelf m _ _ s t st hs hput
        simp only [hput] at hp
        split at hp
        · simp only [EStateM.Result.ok.injEq] at hp
          exact hp.2 ▸ hkept.1
        · simp at hp
  rcases whileUpTo_invariant _ (fun _ s => SameKey sl publicKey protectDomain sendSelf m
    (listKey entry RND.head) entry.2 s) hpass fuel _ m m' _ hstart hrun with ⟨a, s, hs, hlast⟩
  -- The last attempt is one for the same key as well.
  rw [addPass_eq] at hlast
  cases hput : sl.put (listKey entry RND.head) entry.2 publicKey true protectDomain sendSelf s with
  | error e t => simp [hput] at hlast
  | ok st t =>
      have hkept := SameKey.put sl publicKey protectDomain sendSelf m _ _ s t st hs hput
      simp only [hput] at hlast
      split at hlast
      · simp at hlast
      · simp only [EStateM.Result.ok.injEq, Sum.inr.injEq, Prod.mk.injEq] at hlast
        rcases hadded (hlast.1.1 ▸ hkept.2) with ⟨contentKey, hfree, hstored, _⟩
        have hne : listKey entry contentKey ≠ listKey entry RND.head := by
          intro heq
          exact htaken (heq ▸ hfree)
        rw [← hlast.2, hkept.1.free _ hne hfree] at hstored
        simp at hstored

/-- If the first key was free, the first attempt adds the value exactly when the limit has
    nothing to remove. -/
theorem adds_of_free_iff
    (hchecks : sl.letsThrough m publicKey protectDomain sendSelf (listKey entry RND.head) entry.2 =
      .ok true) (hfree : m.get (listKey entry RND.head) = none) :
    Adds sl publicKey protectDomain sendSelf m entry RND ↔
      ¬sl.Prunable (m.put (listKey entry RND.head) entry.2)
        (listKey entry RND.head).locationAndDomainAndContentKey := by
  rcases put_free sl publicKey protectDomain sendSelf m _ _ hchecks hfree with
    ⟨status, m₁, hput, hstatus, hsecurity, hdata⟩
  have hprunable := sl.prunable_congr (m.put (listKey entry RND.head) entry.2)
    (listKey entry RND.head).locationAndDomainAndContentKey m₁
    (by rw [hdata, put_dataMap])
  have hrun := doAdd_first sl publicKey protectDomain sendSelf m entry RND status _ hput hstatus
  have hm₁ : ∀ k, m₁.get k = if k = listKey entry RND.head then some entry.2 else m.get k := by
    intro k
    rw [StorageMemory.get, hdata, NavMap.get_put, StorageMemory.get]
  rw [← hprunable]
  constructor
  · rintro ⟨fuel, status', rest, m', hrun', hadded⟩ hpruned
    -- The loop ends with the first attempt.
    have hend : status' = status ∧
        m' = sl.limited m₁ (listKey entry RND.head).locationAndDomainAndContentKey := by
      cases fuel with
      | zero =>
          rw [doAdd, if_pos rfl, whileUpTo, pure_apply] at hrun'
          simp at hrun'
      | succ fuel =>
          rw [hrun fuel] at hrun'
          simp only [EStateM.Result.ok.injEq, Option.some.injEq, Prod.mk.injEq] at hrun'
          exact ⟨hrun'.1.1.symm, hrun'.2.symm⟩
    rcases hadded (hend.1 ▸ hsecurity) with ⟨contentKey, hunused, hstored, hothers⟩
    rcases sl.first_outdated m₁ _ hpruned with ⟨first, hfirst, hold⟩
    have hgone : m'.get first.1 = none := by
      rw [hend.2, sl.limited_get, if_pos hold]
    have hin : m₁.get first.1 ≠ none := by
      rcases sl.mem_versions_of_outdated m₁ _ first.1 hold with ⟨_, d, hd⟩
      simp [hd]
    have hne : first.1 ≠ listKey entry contentKey := by
      intro heq
      rw [heq, hstored] at hgone
      simp at hgone
    -- What was removed is either the new value or another one.
    by_cases hnew : first.1 = listKey entry RND.head
    · have hother : listKey entry contentKey ≠ listKey entry RND.head := hnew ▸ hne.symm
      rw [hend.2, sl.limited_get, hm₁, if_neg hother, hunused] at hstored
      simp at hstored
    · rw [hm₁, if_neg hnew, ← hothers first.1 hne, hgone] at hin
      exact hin rfl
  · intro hkept
    refine ⟨1, status, RND.tail, _, hrun 0, fun _ => ⟨RND.head, hfree, ?_, ?_⟩⟩
    · rw [sl.limited_of_not_prunable _ _ hkept, hm₁, if_pos rfl]
    · intro k hk
      rw [sl.limited_of_not_prunable _ _ hkept, hm₁, if_neg hk]

/-- **Adding to a list.** Adding a value ends with the value under a key that was free and
    every other value as it was, or with a security failure, exactly when the first random
    number gives a key that fits. The numbers after it do not matter. -/
theorem adds_iff :
    Adds sl publicKey protectDomain sendSelf m entry RND ↔
      FirstKeyFits sl publicKey protectDomain sendSelf m entry RND := by
  unfold FirstKeyFits
  cases hchecks : sl.letsThrough m publicKey protectDomain sendSelf (listKey entry RND.head)
    entry.2 with
  | error e =>
      -- An exception of the checks is neither a status nor a stored value.
      simp only [hchecks, reduceCtorEq, false_and, or_self, iff_false]
      rintro ⟨fuel, status, rest, m', hrun, _⟩
      rw [doAdd, if_pos rfl] at hrun
      cases fuel with
      | zero => simp [whileUpTo] at hrun
      | succ fuel =>
          simp [whileUpTo_succ, addPass_eq, sl.put_eq, sl.putEntry_eq, hchecks]
            at hrun
  | ok b =>
      cases b with
      | false =>
          simp only [hchecks, true_and, Except.ok.injEq, Bool.false_eq_true, false_and, or_false]
          rcases put_refused sl publicKey protectDomain sendSelf m _ _ hchecks with
            ⟨m₁, hput, hfree⟩
          by_cases hfork : StorageLayer.ForkedHead m (listKey entry RND.head)
          · rw [if_pos hfork] at hput
            have hrun := doAdd_first sl publicKey protectDomain sendSelf m entry RND _ _ hput
              (by simp)
            simp only [hfork, not_true_eq_false, iff_false]
            rintro ⟨fuel, status, rest, m', hrun', hadded⟩
            cases fuel with
            | zero => simp [doAdd, whileUpTo] at hrun'
            | succ fuel =>
                rw [hrun fuel] at hrun'
                simp only [EStateM.Result.ok.injEq, Option.some.injEq, Prod.mk.injEq] at hrun'
                rcases hadded (by simp [← hrun'.1.1]) with ⟨contentKey, hunused, hstored, _⟩
                rw [← hrun'.2, hfree _ hunused] at hstored
                simp at hstored
          · rw [if_neg hfork] at hput
            have hrun := doAdd_first sl publicKey protectDomain sendSelf m entry RND _ _ hput
              (by simp)
            simp only [hfork, not_false_eq_true, iff_true]
            exact ⟨1, _, _, _, hrun 0, fun h => absurd rfl h⟩
      | true =>
          simp only [hchecks, Except.ok.injEq, Bool.true_eq_false, false_and, true_and, false_or]
          by_cases hfree : m.get (listKey entry RND.head) = none
          · rw [adds_of_free_iff sl publicKey protectDomain sendSelf m entry RND hchecks hfree]
            simp [hfree]
          · simp only [hfree, false_and, iff_false]
            exact not_adds_of_taken sl publicKey protectDomain sendSelf m entry RND hchecks hfree

-- Where the loop does not end

/-- Without a limit on the versions, a taken key that is not marked as a fork is tried
    forever. -/
theorem doAdd_endless
    (hchecks : sl.letsThrough m publicKey protectDomain sendSelf (listKey entry RND.head) entry.2 =
      .ok true) (htaken : m.get (listKey entry RND.head) ≠ none)
    (hfork : ¬StorageLayer.ForkedHead m (listKey entry RND.head))
    (hmax : sl.maxVersions.toInt ≤ 0) (fuel : Nat) (answer : PutStatus × Stream' Number160)
    (m' : StorageMemory) :
    doAdd sl fuel protectDomain entry publicKey true sendSelf RND m ≠ .ok (some answer) m' := by
  rw [doAdd, if_pos rfl]
  apply whileUpTo_endless _ fun _ s =>
    sl.letsThrough s publicKey protectDomain sendSelf (listKey entry RND.head) entry.2 = .ok true ∧
      s.dataMap = m.dataMap
  · intro a s hs
    have hblocked : StorageLayer.blockedBy s true (listKey entry RND.head) entry.2 =
        some .FAILED_NOT_ABSENT := by
      unfold StorageLayer.blockedBy
      rw [StorageMemory.get, hs.2, ← StorageMemory.get]
      cases hget : m.get (listKey entry RND.head) with
      | none => exact absurd hget htaken
      | some old => rfl
    have hdata : (sl.owned s publicKey protectDomain sendSelf (listKey entry RND.head)
        entry.2).dataMap = m.dataMap := by
      rw [sl.owned_dataMap, hs.2]
    have hlimited : sl.limited (sl.owned s publicKey protectDomain sendSelf
        (listKey entry RND.head) entry.2) (listKey entry RND.head).locationAndDomainAndContentKey =
        sl.owned s publicKey protectDomain sendSelf (listKey entry RND.head) entry.2 :=
      sl.limited_of_not_prunable _ _ fun h => absurd h.1 (not_lt.mpr hmax)
    refine ⟨(a.2.head, a.2.tail), sl.owned s publicKey protectDomain sendSelf
      (listKey entry RND.head) entry.2, ?_,
      sl.letsThrough_owned s publicKey protectDomain sendSelf _ _ hs.1, hdata⟩
    rw [addPass_eq, sl.put_eq, sl.putEntry_eq, hs.1]
    dsimp only
    rw [hblocked]
    dsimp only
    rw [if_neg (fun h => hfork ((StorageLayer.forkedHead_of_dataMap m _ _ hdata).mp h)),
      if_pos rfl, hlimited]
  · exact ⟨hchecks, rfl⟩

end Loop

/-- The first random number is that of a stored value and every other one is free. -/
theorem endless_after_a_collision :
    let stored : Number640 := ⟨1, 2, 3, 4⟩
    let entry : Number640 × Data := (⟨1, 2, 0, 4⟩, Data.new [8#8] 2000)
    let m := after (StorageLayer.put {} stored (Data.new [7#8] 1000) none true false false) {}
    let RND : Stream' Number160 := Stream'.cons 3 (Stream'.const 5)
    m.get (listKey entry (RND.get 1)) = none ∧
      ∀ fuel answer m', doAdd {} fuel false entry none true false RND m ≠ .ok (some answer) m' := by
  intro stored entry m RND
  refine ⟨by decide, fun fuel answer m' => ?_⟩
  exact doAdd_endless {} none false false m entry RND rfl (by decide) (by decide) (by decide)
    fuel answer m'

end StorageRPC

end TomP2P
