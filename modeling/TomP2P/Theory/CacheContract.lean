import TomP2P.Theory.CacheObservers

/-!
# A Cache as a Map

What `ConcurrentMap` asks of the operations that compare values, of a cache that was worked on
in any way. The content is what is live.

`replace` of a given value does what it should. `remove` of a given value and `containsValue`
compare a value with a wrapper and are right only where the answer is false. Two maps are equal
only if they are one object. Their hash codes are the sums over what is live and what is expired
but stands behind something live, so they are equal exactly if the latter sums are.

## Main definitions

* `Removes`, `Replaces`, `FindsValue`: What is asked of an operation.
* `LiveAlike`: Two maps have the same live content.
* `leftHash`: The sum over what is expired and left.

## Theorems

* `mem_run`: What an operation may leave in a segment.
* `previous_expire`: Removing what is expired does not change the content.
* `replaces`, `removes_iff`, `findsValue_iff`: The operations.
* `hash_eq_iff`: When hash codes are equal.
* `contract_iff`: All of it, for maps that were worked on.
-/

namespace TomP2P

open Function List

namespace ConcurrentCacheMap

variable {K V : Type} [DecidableEq K] [DecidableEq V] (hashCode : K → BitVec 32)

/-- `remove` of a key with a value removes the entry and says so, exactly if the key is live with
    this value. -/
def Removes (m : ConcurrentCacheMap K V) (now : Int) (key : K) (value : V) : Prop :=
  (m.removeObject hashCode now key (.value value)).1 = decide (m.previous hashCode now key = some value) ∧
    ∀ k, (m.removeObject hashCode now key (.value value)).2.previous hashCode now k =
      if k = key ∧ m.previous hashCode now key = some value then none else m.previous hashCode now k

/-- `replace` does the same with a new value. -/
def Replaces (m : ConcurrentCacheMap K V) (now : Int) (key : K) (oldValue newValue : V) : Prop :=
  (m.replaceValue hashCode now key oldValue newValue).1 =
      decide (m.previous hashCode now key = some oldValue) ∧
    ∀ k, (m.replaceValue hashCode now key oldValue newValue).2.previous hashCode now k =
      if k = key ∧ m.previous hashCode now key = some oldValue then some newValue
      else m.previous hashCode now k

/-- `containsValue` is whether a live key has the value. -/
def FindsValue (m : ConcurrentCacheMap K V) (now : Int) (value : V) : Prop :=
  (m.containsValue now value).1 = true ↔ ∃ key, m.previous hashCode now key = some value

/-- Two maps have the same live content. -/
def LiveAlike (m m' : ConcurrentCacheMap K V) (now : Int) : Prop :=
  ∀ key, m.previous hashCode now key = m'.previous hashCode now key

/-- The sum over what is expired and stands behind something live in its segment. -/
def leftHash (valueHash : V → BitVec 32) (m : ConcurrentCacheMap K V) (now : Int) : BitVec 32 :=
  ((List.range SEGMENT_NR).map fun i =>
    hashOf hashCode valueHash ((m.expireSegment now (m.segments i)).entries.filter fun e => m.isExpired now e.2.2)).sum

/-- Every entry was put into its segment, in the past. -/
def Past (m : ConcurrentCacheMap K V) (now : Int) : Prop :=
  ∀ i k e, (k, e) ∈ (m.segments i).entries → segment hashCode k = i ∧ e.2 ≤ now

variable {hashCode} {m m' : ConcurrentCacheMap K V} {now : Int} {key k : K}

/-! ### What an operation leaves -/

omit [DecidableEq V] in
theorem mem_put_segment {value : V} {i : Nat} {e : V × Int}
    (h : (k, e) ∈ ((m.put hashCode now key value).segments i).entries) :
    (k, e) ∈ (m.segments i).entries ∨ segment hashCode k = i ∧ e.2 = now := by
  unfold put at h
  dsimp only at h
  by_cases hi : i = segment hashCode key
  · subst hi
    rw [update_self] at h
    rcases CacheMap.mem_put h with heq | ⟨hmem, -⟩
    · cases heq
      exact .inr ⟨rfl, rfl⟩
    · exact .inl hmem
  · rw [update_of_ne hi] at h
    exact .inl h

omit [DecidableEq V] in
theorem mem_remove_segment {i : Nat} {e : V × Int}
    (h : (k, e) ∈ ((m.remove hashCode key).segments i).entries) : (k, e) ∈ (m.segments i).entries := by
  unfold remove at h
  dsimp only at h
  by_cases hi : i = segment hashCode key
  · subst hi
    rw [update_self, HashedMap.mem_remove] at h
    exact h.1
  · rw [update_of_ne hi] at h
    exact h

theorem mem_expire_segment {value : V × Int} {i : Nat} {e : V × Int}
    (h : (k, e) ∈ ((m.expire hashCode now key value).2.segments i).entries) : (k, e) ∈ (m.segments i).entries := by
  unfold expire at h
  split at h
  · cases htmp : m.entry hashCode key with
    | none =>
        rw [htmp] at h
        exact h
    | some tmp =>
        rw [htmp] at h
        dsimp only at h
        split at h
        · exact mem_remove_segment h
        · exact h
  · exact h

/-- What is in a segment after an operation was there, or was put there by it. -/
theorem mem_run (op : CacheOp K V) (refreshTimeout : Bool) {i : Nat} {e : V × Int}
    (h : (k, e) ∈ ((op.run hashCode refreshTimeout m now).segments i).entries) :
    (k, e) ∈ (m.segments i).entries ∨ segment hashCode k = i ∧ e.2 = now := by
  cases op with
  | put key value => exact mem_put_segment h
  | remove key | iteratorRemove key => exact .inl (mem_remove_segment h)
  | clear => exact absurd h not_mem_nil
  | putIfAbsent key value =>
      -- An entry that is there is written again if it is expired or refreshed.
      simp only [CacheOp.run, putIfAbsent] at h
      cases hentry : m.entry hashCode key with
      | none =>
          rw [hentry] at h
          exact mem_put_segment h
      | some old =>
          rw [hentry] at h
          dsimp only at h
          split at h
          · exact mem_put_segment h
          · split at h
            · exact mem_put_segment h
            · exact .inl h
  | get key =>
      simp only [CacheOp.run, get] at h
      cases hentry : m.entry hashCode key with
      | none =>
          rw [hentry] at h
          exact .inl h
      | some old =>
          rw [hentry] at h
          exact .inl (mem_expire_segment h)
  | removeValue key value =>
      simp only [CacheOp.run, removeValue] at h
      cases hentry : m.entry hashCode key with
      | none =>
          rw [hentry] at h
          exact .inl h
      | some old =>
          rw [hentry] at h
          exact .inl (mem_expire_segment h)
  | replace key value =>
      simp only [CacheOp.run, replace] at h
      cases hentry : m.entry hashCode key with
      | none =>
          rw [hentry] at h
          exact .inl h
      | some old =>
          rw [hentry] at h
          have hput := mem_expire_segment h
          split at hput
          · exact mem_put_segment hput
          · exact .inl hput
  | replaceValue key oldValue newValue =>
      simp only [CacheOp.run, replaceValue] at h
      cases hentry : m.entry hashCode key with
      | none =>
          rw [hentry] at h
          exact .inl h
      | some old =>
          rw [hentry] at h
          dsimp only at h
          split at h
          · exact mem_put_segment (mem_expire_segment h)
          · exact .inl (mem_expire_segment h)
  | containsKey key =>
      -- An expired entry is removed.
      simp only [CacheOp.run, containsKey] at h
      cases hentry : (m.segments (segment hashCode key)).get key with
      | none =>
          rw [hentry] at h
          exact .inl h
      | some old =>
          rw [hentry] at h
          dsimp only at h
          split at h
          · exact .inl (mem_remove_segment h)
          · exact .inl h
  | size | keySet => exact .inl ((dropWhile_sublist _).subset h)
  | values | entrySet => exact .inl (filter_sublist.subset h)
  | isEmpty =>
      obtain ⟨-, -, hleft⟩ := isEmptyFrom_spec (List.range SEGMENT_NR) nodup_range m now
      have hsegment : (k, e) ∈ ((m.isEmptyFrom now (List.range SEGMENT_NR)).2.segments i).entries := h
      rcases hleft i with heq | ⟨-, heq⟩
      · rw [heq] at hsegment
        exact .inl hsegment
      · rw [heq] at hsegment
        exact .inl ((dropWhile_sublist _).subset hsegment)

/-! ### The content after an operation -/

omit [DecidableEq V] in
theorem entry_remove (k : K) :
    (m.remove hashCode key).entry hashCode k = if k = key then none else m.entry hashCode k := by
  unfold entry remove
  dsimp only
  by_cases hseg : segment hashCode k = segment hashCode key
  · rw [hseg, update_self, HashedMap.get_remove]
  · have hne : k ≠ key := by
      rintro rfl
      exact hseg rfl
    rw [update_of_ne hseg, if_neg hne]

omit [DecidableEq V] in
/-- Nothing is dropped for a key that is there. -/
theorem entry_put {value : V} {old : V × Int} (h : m.entry hashCode key = some old) (k : K) :
    (m.put hashCode now key value).entry hashCode k = if k = key then some (value, now) else m.entry hashCode k := by
  have hcontains : (m.segments (segment hashCode key)).contains key = true := by
    rw [HashedMap.contains_iff]
    exact ⟨old, entry_eq_some_iff.mp h⟩
  unfold entry put
  dsimp only
  by_cases hseg : segment hashCode k = segment hashCode key
  · rw [hseg, update_self, CacheMap.put, if_pos hcontains, HashedMap.get_put]
  · have hne : k ≠ key := by
      rintro rfl
      exact hseg rfl
    rw [update_of_ne hseg, if_neg hne]

omit [DecidableEq V] in
theorem previous_congr (httl : m'.timeToLiveSeconds = m.timeToLiveSeconds)
    (hentry : m'.entry hashCode k = m.entry hashCode k) :
    m'.previous hashCode now k = m.previous hashCode now k := by
  have hexpired : ∀ t, m'.isExpired now t = m.isExpired now t := fun t => by rw [isExpired, isExpired, httl]
  simp only [previous, hentry, hexpired]

omit [DecidableEq V] in
theorem previous_remove (k : K) :
    (m.remove hashCode key).previous hashCode now k = if k = key then none else m.previous hashCode now k := by
  by_cases hk : k = key
  · rw [if_pos hk, previous, entry_remove, if_pos hk]
    rfl
  · rw [if_neg hk]
    exact previous_congr rfl (by rw [entry_remove, if_neg hk])

/-- Removing what was found expired does not change the content. -/
theorem previous_expire {old : V × Int} (h : m.entry hashCode key = some old) (k : K) :
    (m.expire hashCode now key old).2.previous hashCode now k = m.previous hashCode now k := by
  unfold expire
  split
  · next hexp =>
      simp only [h, if_true]
      rw [previous_remove]
      split
      · next hk =>
          rw [hk, CacheSystem.previous_of_entry now h, if_pos hexp]
      · rfl
  · rfl

/-- What is live is not removed as expired. -/
theorem expire_live {old : V × Int} (h : m.isExpired now old.2 = false) (m' : ConcurrentCacheMap K V)
    (httl : m'.timeToLiveSeconds = m.timeToLiveSeconds) : (m'.expire hashCode now key old).2 = m' := by
  have hlive : m'.isExpired now old.2 = false := by
    rw [← h, isExpired, isExpired, httl]
  rw [expire, hlive, if_neg Bool.false_ne_true]

/-- `replace` of a given value replaces it if it is there. -/
theorem replaces (h : m.Past hashCode now) (key : K) (oldValue newValue : V) :
    m.Replaces hashCode now key oldValue newValue := by
  unfold Replaces replaceValue
  cases hentry : m.entry hashCode key with
  | none =>
      have hprev : m.previous hashCode now key = none := by simp [previous, hentry]
      simp [hprev]
  | some old =>
      have hprev := CacheSystem.previous_of_entry now hentry
      cases hexp : m.isExpired now old.2 with
      | true =>
          rw [hexp, if_pos rfl] at hprev
          simp [hprev, hexp, previous_expire hentry]
      | false =>
          rw [hexp, if_neg Bool.false_ne_true] at hprev
          by_cases hvalue : oldValue = old.1
          · -- The entry is live and not from the future, so there is a time to live.
            have hnew : (m.put hashCode now key newValue).previous hashCode now key = some newValue := by
              have hpast := (h _ _ _ (entry_eq_some_iff.mp hentry)).2
              have hfresh : (m.put hashCode now key newValue).isExpired now now = false := by
                unfold isExpired at hexp ⊢
                rw [decide_eq_false_iff_not] at hexp ⊢
                have httl : (m.put hashCode now key newValue).timeToLiveSeconds = m.timeToLiveSeconds := rfl
                rw [httl]
                omega
              have hget : (m.put hashCode now key newValue).entry hashCode key = some (newValue, now) := by
                rw [entry_put hentry, if_pos rfl]
              rw [CacheSystem.previous_of_entry now hget, if_neg (by simp [hfresh])]
            simp only [hexp, hvalue, Bool.not_false, and_self, if_true, hprev, decide_true, and_true, true_and]
            intro k
            rw [expire_live hexp (m.put hashCode now key newValue) rfl]
            by_cases hk : k = key
            · rw [if_pos hk, hk, hnew]
            · rw [if_neg hk]
              exact previous_congr rfl (by rw [entry_put hentry, if_neg hk])
          · have hne : ¬ old.1 = oldValue := fun heq => hvalue heq.symm
            simp [hprev, hvalue, hne, previous_expire hentry]

/-- `remove` of a given value leaves the content as it is. -/
theorem previous_removeObject (key : K) (value : V) (k : K) :
    (m.removeObject hashCode now key (.value value)).2.previous hashCode now k = m.previous hashCode now k := by
  rw [removeObject_value, removeValue]
  cases hentry : m.entry hashCode key with
  | none => rfl
  | some old => exact previous_expire hentry k

theorem removeObject_fst (key : K) (value : V) :
    (m.removeObject hashCode now key (.value value)).1 = false := by
  rw [removeObject_value, removeValue]
  cases m.entry hashCode key with
  | none => rfl
  | some old => rfl

/-- `remove` of a given value is right exactly if there is nothing to remove. -/
theorem removes_iff (key : K) (value : V) :
    m.Removes hashCode now key value ↔ m.previous hashCode now key ≠ some value := by
  unfold Removes
  rw [removeObject_fst]
  constructor
  · rintro ⟨hfalse, -⟩
    exact of_decide_eq_false hfalse.symm
  · intro hne
    refine ⟨(decide_eq_false hne).symm, ?_⟩
    intro k
    rw [previous_removeObject, if_neg fun hand => hne hand.2]

omit [DecidableEq K] in
/-- No value is equal to a wrapper. -/
theorem containsValueFrom_fst (value : V) (is : List Nat) (m : ConcurrentCacheMap K V) :
    (m.containsValueFrom now value is).1 = false := by
  induction is generalizing m with
  | nil => rfl
  | cons i is ih =>
      have hnone : ∀ es : List (K × V × Int),
          (es.any fun e => CacheObject.valueEquals value (.expiring e.2)) = false := by
        intro es
        rw [any_eq_false]
        intro e _
        simp [CacheObject.valueEquals]
      rw [containsValueFrom]
      dsimp only
      rw [hnone, if_neg Bool.false_ne_true]
      exact ih _

theorem findsValue_iff (value : V) :
    m.FindsValue hashCode now value ↔ ¬ ∃ key, m.previous hashCode now key = some value := by
  rw [FindsValue, containsValue, containsValueFrom_fst]
  simp

/-! ### Hash codes -/

omit [DecidableEq K] [DecidableEq V] in
theorem hashOf_append (valueHash : V → BitVec 32) (es ds : List (K × V × Int)) :
    hashOf hashCode valueHash (es ++ ds) = hashOf hashCode valueHash es + hashOf hashCode valueHash ds := by
  rw [hashOf, map_append, sum_append, hashOf, hashOf]

omit [DecidableEq K] [DecidableEq V] in
theorem hashOf_filter (valueHash : V → BitVec 32) (p : K × V × Int → Bool) (es : List (K × V × Int)) :
    hashOf hashCode valueHash es =
      hashOf hashCode valueHash (es.filter p) + hashOf hashCode valueHash (es.filter fun e => !p e) := by
  rw [← hashOf_append]
  exact (((filter_append_perm p es).map _).sum_eq).symm

omit [DecidableEq K] [DecidableEq V] in
theorem hashOf_flatMap (valueHash : V → BitVec 32) (is : List Nat) (f : Nat → List (K × V × Int)) :
    hashOf hashCode valueHash (is.flatMap f) = (is.map fun i => hashOf hashCode valueHash (f i)).sum := by
  induction is with
  | nil => rfl
  | cons i is ih => rw [flatMap_cons, hashOf_append, ih, map_cons, sum_cons]

/-- What is dropped at the front has the property. -/
theorem filter_dropWhile {α : Type} (p : α → Bool) (l : List α) :
    (l.dropWhile p).filter (fun x => !p x) = l.filter fun x => !p x := by
  induction l with
  | nil => rfl
  | cons x l ih =>
      rw [dropWhile_cons]
      cases hp : p x with
      | true => simpa [hp] using ih
      | false => simp [hp]

/-- The live entries, without their times. -/
def liveEntries (m : ConcurrentCacheMap K V) (now : Int) : List (K × V) :=
  (m.scanSegments now).entries.map fun e => (e.1, e.2.1)

omit [DecidableEq K] [DecidableEq V] in
/-- The hash code is made of what is live and of what is left. -/
theorem hash_fst (valueHash : V → BitVec 32) (m : ConcurrentCacheMap K V) (now : Int) :
    (m.hash hashCode valueHash now).1 =
      ((m.liveEntries now).map fun e => hashCode e.1 ^^^ valueHash e.2).sum + m.leftHash hashCode valueHash now := by
  have hlive : ((m.liveEntries now).map fun e => hashCode e.1 ^^^ valueHash e.2).sum =
      hashOf hashCode valueHash (m.scanSegments now).entries := by
    rw [liveEntries, map_map, hashOf]
    rfl
  have hsegment : ∀ i, hashOf hashCode valueHash (m.expireSegment now (m.segments i)).entries =
      hashOf hashCode valueHash ((m.scanSegments now).segments i).entries +
        hashOf hashCode valueHash
          ((m.expireSegment now (m.segments i)).entries.filter fun e => m.isExpired now e.2.2) := by
    intro i
    have hscan : ((m.scanSegments now).segments i).entries =
        (m.expireSegment now (m.segments i)).entries.filter fun e => !m.isExpired now e.2.2 :=
      (filter_dropWhile (fun e : K × V × Int => m.isExpired now e.2.2) (m.segments i).entries).symm
    rw [hscan]
    have hsplit : hashOf hashCode valueHash (m.expireSegment now (m.segments i)).entries = _ :=
      hashOf_filter valueHash (fun e => !m.isExpired now e.2.2) (m.expireSegment now (m.segments i)).entries
    simpa only [Bool.not_not] using hsplit
  rw [hlive, entries, hashOf_flatMap, leftHash, ← sum_map_add, hash]
  simp only [hsegment]

omit [DecidableEq V] in
theorem mem_liveEntries (h : m.Past hashCode now) {v : V} :
    (k, v) ∈ m.liveEntries now ↔ m.previous hashCode now k = some v := by
  have hplaced : ∀ i k e, (k, e) ∈ ((m.scanSegments now).segments i).entries → segment hashCode k = i :=
    fun i k e he => (h i k e (mem_scanSegment.mp he).1).1
  rw [liveEntries, mem_map]
  constructor
  · rintro ⟨⟨k', e⟩, he, heq⟩
    cases heq
    obtain ⟨hmem, hlive⟩ := mem_scanSegment.mp ((mem_entries hplaced).mp he)
    rw [CacheSystem.previous_of_entry now (entry_eq_some_iff.mpr hmem), if_neg (by simp [hlive])]
  · intro hprev
    cases hentry : m.entry hashCode k with
    | none => simp [previous, hentry] at hprev
    | some e =>
        rw [CacheSystem.previous_of_entry now hentry] at hprev
        cases hexp : m.isExpired now e.2 with
        | true => simp [hexp] at hprev
        | false =>
            simp only [hexp, Bool.false_eq_true, if_false, Option.some.injEq] at hprev
            refine ⟨(k, e), (mem_entries hplaced).mpr ?_, by rw [hprev]⟩
            exact mem_scanSegment.mpr ⟨entry_eq_some_iff.mp hentry, hexp⟩

omit [DecidableEq K] [DecidableEq V] in
theorem nodup_liveEntries (h : m.Past hashCode now) : (m.liveEntries now).Nodup := by
  have hplaced : ∀ i k e, (k, e) ∈ ((m.scanSegments now).segments i).entries → segment hashCode k = i :=
    fun i k e he => (h i k e (mem_scanSegment.mp he).1).1
  refine List.Nodup.of_map Prod.fst ?_
  rw [liveEntries, map_map]
  exact nodup_entries hplaced

omit [DecidableEq V] in
/-- Maps with the same content have equal hash codes if the sums over what is left are equal. -/
theorem hash_eq_iff (h : m.Past hashCode now) (h' : m'.Past hashCode now) (hlive : LiveAlike hashCode m m' now)
    (valueHash : V → BitVec 32) :
    (m.hash hashCode valueHash now).1 = (m'.hash hashCode valueHash now).1 ↔
      m.leftHash hashCode valueHash now = m'.leftHash hashCode valueHash now := by
  have hperm : (m.liveEntries now).Perm (m'.liveEntries now) := by
    rw [perm_ext_iff_of_nodup (nodup_liveEntries h) (nodup_liveEntries h')]
    rintro ⟨k, v⟩
    rw [mem_liveEntries h, mem_liveEntries h', hlive k]
  have hsum := (hperm.map fun e => hashCode e.1 ^^^ valueHash e.2).sum_eq
  rw [hash_fst, hash_fst, hsum]
  exact add_right_inj _

end ConcurrentCacheMap

/-! ### Maps that were worked on -/

namespace CacheSystem

open ConcurrentCacheMap

variable {K V : Type} [DecidableEq K] [DecidableEq V] {hashCode : K → BitVec 32}

theorem past_of_reached {s : CacheSystem K V} (h : Reached (step hashCode) (fun _ _ => True) Fresh s) {now : Int}
    (hnow : s.clock ≤ now) : s.map.Past hashCode now := by
  have hpast := h.invariant (fun s => s.map.Past hashCode s.clock) ?_ ?_
  · intro i k e he
    exact ⟨(hpast i k e he).1, le_trans (hpast i k e he).2 hnow⟩
  · rintro s ⟨-, timeToLiveSeconds, maxEntries, hmap⟩ i k e he
    rw [hmap] at he
    exact absurd he not_mem_nil
  · intro s e s' hs _ hstep
    unfold step at hstep
    split at hstep
    · cases hstep
    · next hle =>
        rw [← Option.some.inj hstep]
        intro i k d hd
        rcases mem_run e.2 s.refreshTimeout hd with hold | ⟨hseg, htime⟩
        · have hbefore := hs i k d hold
          exact ⟨hbefore.1, le_trans hbefore.2 (not_lt.mp hle)⟩
        · exact ⟨hseg, htime.le⟩

/-- Of the operations that compare values, `replace` does what a map should do. `remove` is right
    if the key is not live with this value, `containsValue` if no live key has the value. Of two
    maps with the same content the hash codes are equal if the sums over what is left are, and the
    maps if they are one. -/
theorem contract_iff (valueHash : V → BitVec 32) (s : CacheSystem K V)
    (h : Reached (step hashCode) (fun _ _ => True) Fresh s) (now : Int) (hnow : s.clock ≤ now) :
    (∀ key value, s.map.Removes hashCode now key value ↔ s.map.previous hashCode now key ≠ some value) ∧
      (∀ key oldValue newValue, s.map.Replaces hashCode now key oldValue newValue) ∧
      (∀ value, s.map.FindsValue hashCode now value ↔ ¬ ∃ key, s.map.previous hashCode now key = some value) ∧
      ∀ s' : CacheSystem K V, Reached (step hashCode) (fun _ _ => True) Fresh s' → s'.clock ≤ now →
        LiveAlike hashCode s.map s'.map now →
          ((s.map.hash hashCode valueHash now).1 = (s'.map.hash hashCode valueHash now).1 ↔
            s.map.leftHash hashCode valueHash now = s'.map.leftHash hashCode valueHash now) ∧
          ∀ a a' : Nat, CacheReference.equals ⟨a, s.map⟩ ⟨a', s'.map⟩ = true ↔ a = a' := by
  have hpast := past_of_reached h hnow
  refine ⟨removes_iff, replaces hpast, findsValue_iff, ?_⟩
  intro s' h' hnow' hlive
  exact ⟨hash_eq_iff hpast (past_of_reached h' hnow') hlive valueHash, fun a a' => decide_eq_true_iff⟩

/-- A cache with a time to live of a minute, in which seven is put under one. -/
theorem reached_single :
    ∃ s : CacheSystem Nat Nat, Reached (step (BitVec.ofNat 32)) (fun _ _ => True) Fresh s ∧ s.clock = 0 ∧
      s.map = (ConcurrentCacheMap.create 60 1024).put (BitVec.ofNat 32) 0 1 7 := by
  let s₀ : CacheSystem Nat Nat := ⟨true, .create 60 1024, 0, fun _ => none⟩
  have hstart : Reached (step (BitVec.ofNat 32)) (fun _ _ => True) Fresh s₀ := .start ⟨rfl, 60, 1024, rfl⟩
  obtain ⟨s, hs⟩ : ∃ s, step (BitVec.ofNat 32) s₀ (0, .put 1 7) = some s := ⟨_, rfl⟩
  refine ⟨s, .next hstart trivial hs, ?_⟩
  cases hs
  exact ⟨rfl, rfl⟩

/-- A value that is not there is not removed, one that is there is replaced but not found, and
    the hash code is that of the map itself. -/
theorem contract_single :
    ∃ m : ConcurrentCacheMap Nat Nat, m.previous (BitVec.ofNat 32) 1000 1 = some 7 ∧
      m.Removes (BitVec.ofNat 32) 1000 1 8 ∧ m.Replaces (BitVec.ofNat 32) 1000 1 7 9 ∧
      ¬ m.FindsValue (BitVec.ofNat 32) 1000 7 ∧
      CacheReference.equals ⟨5, m⟩ ⟨5, m⟩ = true := by
  obtain ⟨s, hs, hclock, hmap⟩ := reached_single
  have hprev : s.map.previous (BitVec.ofNat 32) 1000 1 = some 7 := by
    rw [hmap]
    decide +kernel
  have hcontract := contract_iff (BitVec.ofNat 32) s hs 1000 (by omega)
  refine ⟨s.map, hprev, (hcontract.1 1 8).2 ?_, hcontract.2.1 1 7 9, ?_, ?_⟩
  · rw [hprev]
    decide
  · exact fun hfinds => (hcontract.2.2.1 7).1 hfinds ⟨1, hprev⟩
  · exact ((hcontract.2.2.2 s hs (by omega) fun _ => rfl).2 5 5).2 rfl

/-- A value that is there is not removed. -/
theorem not_removes_single :
    ¬ ∀ s : CacheSystem Nat Nat, Reached (step (BitVec.ofNat 32)) (fun _ _ => True) Fresh s →
      ∀ now, s.clock ≤ now → ∀ key value, s.map.Removes (BitVec.ofNat 32) now key value := by
  intro hall
  obtain ⟨s, hs, hclock, hmap⟩ := reached_single
  have hremoves := (hall s hs 1000 (by omega) 1 7).1
  rw [hmap] at hremoves
  revert hremoves
  decide +kernel

end CacheSystem

end TomP2P
