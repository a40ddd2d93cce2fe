import TomP2P.Theory.PutOutcome

/-!
# Pruning of Versions

What the version limit keeps. A version key starts with a time, the keys are
ordered without sign, and after the puts of a call the loop takes versions from
the front as long as their time plus the limit does not exceed the time of the
last one. Both sides are numbers of type `long`, which are compared with sign.

The loop keeps what the limit allows exactly if no comparison it makes is turned
round by a sign (`Signless`). If the last time has its top bit set, every sum has
to have it, or nothing is removed. If it has not, the first version within the
limit must have a sum without it, or the loop runs on and removes everything.

## Main definitions

* `Number640.time`: The time of a version.
* `StorageLayer.Current`: A version the limit allows.
* `StorageLayer.Signless`: The comparisons are not turned round.

## Theorems

* `StorageLayer.tooOld_iff`: The comparison the loop makes.
* `StorageLayer.current_kept_iff`: When the loop removes what it should.
* `StorageLayer.putAll_pruned_iff`: When a call keeps what the limit allows.
-/

namespace TomP2P

/-- The time a version key starts with. -/
def Number640.time (k : Number640) : Nat := k.versionKey.timestamp.toNat

theorem Number160.timestamp_toNat (n : Number160) :
    n.timestamp.toNat = n.val0.toNat * 2 ^ 32 + n.val1.toNat := by
  rw [timestamp, BitVec.toNat_append, Nat.shiftLeft_eq, Nat.mul_comm, ← Nat.two_pow_add_eq_or_of_lt n.val1.isLt,
    Nat.mul_comm]

theorem Number160.timestamp_eq (n : Number160) : n.timestamp.toNat = n.toNat / 2 ^ 96 := by
  have h2 := n.val2.isLt
  have h3 := n.val3.isLt
  have h4 := n.val4.isLt
  rw [timestamp_toNat]
  unfold toNat
  omega

/-- Larger keys have no smaller times. -/
theorem Number160.timestamp_mono {a b : Number160} (h : a ≤ b) :
    a.timestamp.toNat ≤ b.timestamp.toNat := by
  rw [timestamp_eq, timestamp_eq]
  exact Nat.div_le_div_right ((Number160.le_iff a b).mp h)

/-- Larger versions of a content have no smaller times. -/
theorem Number640.time_mono {a b : Number640}
    (hc : a.locationAndDomainAndContentKey = b.locationAndDomainAndContentKey) (h : a ≤ b) :
    a.time ≤ b.time := by
  simp only [locationAndDomainAndContentKey, Number480.mk.injEq] at hc
  obtain ⟨hlocation, hdomain, hcontent⟩ := hc
  rw [Number640.le_iff, toNat, toNat, hlocation, hdomain, hcontent] at h
  refine Number160.timestamp_mono ((Number160.le_iff _ _).mpr ?_)
  omega

namespace StorageLayer

variable (sl : StorageLayer)

/-- The limit as a number. -/
def limit : Nat := sl.maxVersions.toInt.toNat

theorem limit_lt : sl.limit < 2 ^ 31 := by
  have hbound : sl.maxVersions.toInt < 2 ^ 31 := BitVec.toInt_lt
  rw [limit]
  omega

/-- The comparison of the loop: the sum wraps, and both sides have a sign. -/
theorem tooOld_iff (first last : Number640) (hmax : 0 < sl.maxVersions.toInt) :
    sl.tooOld first last = true ↔
      ((first.time + sl.limit : Nat) : Int).bmod (2 ^ 64) ≤ (last.time : Int).bmod (2 ^ 64) := by
  have hlast : last.versionKey.timestamp.toInt = (last.time : Int).bmod (2 ^ 64) :=
    BitVec.toInt_eq_toNat_bmod _
  have hlimit : (sl.maxVersions.signExtend 64).toInt = sl.limit := by
    rw [BitVec.toInt_signExtend_of_le (by decide), limit, Int.toNat_of_nonneg (by omega)]
  have hsum : (first.versionKey.timestamp + sl.maxVersions.signExtend 64).toInt =
      ((first.time + sl.limit : Nat) : Int).bmod (2 ^ 64) := by
    rw [BitVec.toInt_add, hlimit, BitVec.toInt_eq_toNat_bmod, Int.bmod_add_bmod]
    rfl
  rw [tooOld, BitVec.sle_iff_toInt_le, hsum, hlast]

/-- Below the top bit the loop also goes on where the sum reaches it. -/
theorem tooOld_small {first last : Number640} (hmax : 0 < sl.maxVersions.toInt)
    (hle : first.time ≤ last.time) (hlast : last.time < 2 ^ 63) :
    sl.tooOld first last = true ↔
      first.time + sl.limit ≤ last.time ∨ 2 ^ 63 ≤ first.time + sl.limit := by
  have hlimit : sl.limit < 2 ^ 31 := sl.limit_lt
  rw [sl.tooOld_iff first last hmax, Int.bmod_def, Int.bmod_def]
  omega

/-- With the top bit the loop stops where the sum does not reach it. -/
theorem tooOld_large {first last : Number640} (hmax : 0 < sl.maxVersions.toInt)
    (hle : first.time ≤ last.time) (hlast : 2 ^ 63 ≤ last.time) :
    sl.tooOld first last = true ↔
      first.time + sl.limit ≤ last.time ∧ 2 ^ 63 ≤ first.time + sl.limit := by
  have hlimit : sl.limit < 2 ^ 31 := sl.limit_lt
  have hbound : last.time < 2 ^ 64 := last.versionKey.timestamp.isLt
  rw [sl.tooOld_iff first last hmax, Int.bmod_def, Int.bmod_def]
  omega

theorem content_of_mem_versions {m : StorageMemory} {content : Number480} {e : Number640 × Data}
    (he : e ∈ (m.versions content).entries) : e.1.locationAndDomainAndContentKey = content := by
  have hget := (NavMap.get_eq_some_iff _ _ _).mpr he
  rw [StorageMemory.get_versions] at hget
  by_contra hne
  rw [if_neg hne] at hget
  cases hget

/-- The limit allows the version beside the last one of its content. -/
def Current (m : StorageMemory) (k : Number640) : Prop :=
  ∀ last ∈ (m.versions k.locationAndDomainAndContentKey).lastEntry, last.1.time < k.time + sl.limit

instance (m : StorageMemory) (k : Number640) : Decidable (sl.Current m k) :=
  inferInstanceAs (Decidable (∀ last ∈ (m.versions k.locationAndDomainAndContentKey).lastEntry,
    last.1.time < k.time + sl.limit))

/-- No comparison of the loop is turned round by a sign. -/
def Signless (m : StorageMemory) (content : Number480) : Prop :=
  ∀ last ∈ (m.versions content).lastEntry,
    if last.1.time < 2 ^ 63 then
      ∃ k ∈ (m.versions content).keys, last.1.time < k.time + sl.limit ∧ k.time + sl.limit < 2 ^ 63
    else ∀ k ∈ (m.versions content).keys, 2 ^ 63 ≤ k.time + sl.limit

instance (m : StorageMemory) (content : Number480) : Decidable (sl.Signless m content) :=
  inferInstanceAs (Decidable (∀ last ∈ (m.versions content).lastEntry,
    if last.1.time < 2 ^ 63 then
      ∃ k ∈ (m.versions content).keys, last.1.time < k.time + sl.limit ∧ k.time + sl.limit < 2 ^ 63
    else ∀ k ∈ (m.versions content).keys, 2 ^ 63 ≤ k.time + sl.limit))

section Front

variable {K : Type} [LinearOrder K] {ks : List K} {time : K → Nat} {last : K} {old : K → Prop}
  {n : Nat} (hlast : last ∈ ks) (hmono : ∀ k ∈ ks, ∀ k' ∈ ks, k ≤ k' → time k ≤ time k')

include hlast hmono in
/-- A loop that also goes on where the sum reaches the top bit stops in time if
    it meets a sum that does not. -/
theorem front_small (hn : 0 < n)
    (hold : ∀ k ∈ ks, old k ↔ time k + n ≤ time last ∨ 2 ^ 63 ≤ time k + n)
    (hsmall : time last < 2 ^ 63) :
    (∀ k ∈ ks, (∀ k' ∈ ks, k' ≤ k → old k') ↔ time k + n ≤ time last) ↔
      ∃ k ∈ ks, time last < time k + n ∧ time k + n < 2 ^ 63 := by
  constructor
  · intro h
    -- Otherwise every key is old, the last one included.
    by_contra hnone
    have hall : ∀ k' ∈ ks, k' ≤ last → old k' := by
      intro k' hk' _
      rw [hold k' hk']
      by_contra hnot
      exact hnone ⟨k', hk', by omega⟩
    have hself := (h last hlast).mp hall
    omega
  · rintro ⟨k₀, hk₀, hcurrent, hbound⟩ k hk
    constructor
    · intro hall
      by_contra hnot
      have hle : k ≤ k₀ := by
        by_contra hlt
        have hold₀ := (hold k₀ hk₀).mp (hall k₀ hk₀ (le_of_not_ge hlt))
        omega
      have htime := hmono k hk k₀ hk₀ hle
      have holdk := (hold k hk).mp (hall k hk (le_refl k))
      omega
    · intro hle k' hk' hkk'
      have htime := hmono k' hk' k hk hkk'
      exact (hold k' hk').mpr (.inl (by omega))

include hmono in
/-- A loop that stops where the sum does not reach the top bit goes on long
    enough if every sum does. -/
theorem front_large (hold : ∀ k ∈ ks, old k ↔ time k + n ≤ time last ∧ 2 ^ 63 ≤ time k + n)
    (hlarge : 2 ^ 63 ≤ time last) :
    (∀ k ∈ ks, (∀ k' ∈ ks, k' ≤ k → old k') ↔ time k + n ≤ time last) ↔
      ∀ k ∈ ks, 2 ^ 63 ≤ time k + n := by
  constructor
  · intro h k hk
    by_contra hnot
    have hall := (h k hk).mpr (by omega)
    exact hnot ((hold k hk).mp (hall k hk (le_refl k))).2
  · intro hsum k hk
    constructor
    · intro hall
      exact ((hold k hk).mp (hall k hk (le_refl k))).1
    · intro hle k' hk' hkk'
      have htime := hmono k' hk' k hk hkk'
      exact (hold k' hk').mpr ⟨by omega, hsum k' hk'⟩

end Front

/-- The loop removes a version if it finds every version up to it too old. -/
theorem mem_outdated_iff {m : StorageMemory} {content : Number480} {last : Number640 × Data}
    (hmax : 0 < sl.maxVersions.toInt) (hlast : (m.versions content).lastEntry = some last)
    {k : Number640} (hk : k ∈ (m.versions content).keys) :
    k ∈ sl.outdated m content ↔
      ∀ k' ∈ (m.versions content).keys, k' ≤ k → sl.tooOld k' last.1 = true := by
  obtain ⟨e, he, rfl⟩ := List.mem_map.mp hk
  have hmem : e.1 ∈ sl.outdated m content ↔
      e ∈ (m.versions content).entries.takeWhile fun e => sl.tooOld e.1 last.1 := by
    rw [outdated, hlast]
    dsimp only
    rw [if_pos hmax, List.mem_map]
    constructor
    · rintro ⟨e', he', heq⟩
      have hsame : e' = e := by
        rcases e with ⟨k, d⟩
        rcases e' with ⟨k', d'⟩
        dsimp only at heq
        subst heq
        rw [(m.versions content).mem_unique k' d' d (List.takeWhile_subset _ he') he]
      exact hsame ▸ he'
    · intro he'
      exact ⟨e, he', rfl⟩
  rw [hmem, NavMap.mem_takeWhile]
  constructor
  · rintro ⟨_, hall⟩ k' hk' hle
    obtain ⟨e', he', rfl⟩ := List.mem_map.mp hk'
    exact hall e' he' hle
  · intro hall
    exact ⟨he, fun e' he' hle => hall e'.1 (List.mem_map_of_mem he') hle⟩

/-- The loop removes the versions of a content that the limit does not allow, and
    no others, exactly if no comparison is turned round. -/
theorem current_kept_iff (m : StorageMemory) (content : Number480) (hmax : 0 < sl.maxVersions.toInt) :
    (∀ k ∈ (m.versions content).keys, k ∈ sl.outdated m content ↔ ¬ sl.Current m k) ↔
      sl.Signless m content := by
  rcases hlast : (m.versions content).lastEntry with _ | last
  · -- There is no version at all.
    have hnil : (m.versions content).entries = [] := List.getLast?_eq_none_iff.mp hlast
    have hkeys : (m.versions content).keys = [] := by rw [NavMap.keys, hnil, List.map_nil]
    simp [Signless, hlast, hkeys]
  have hlimit : 0 < sl.limit := by
    rw [limit]
    omega
  have hlastmem : last.1 ∈ (m.versions content).keys :=
    List.mem_map_of_mem (List.mem_of_getLast? hlast)
  have hcontent (k : Number640) (hk : k ∈ (m.versions content).keys) :
      k.locationAndDomainAndContentKey = content := by
    obtain ⟨e, he, rfl⟩ := List.mem_map.mp hk
    exact content_of_mem_versions he
  have hle (k : Number640) (hk : k ∈ (m.versions content).keys) : k ≤ last.1 := by
    obtain ⟨e, he, rfl⟩ := List.mem_map.mp hk
    exact NavMap.le_lastEntry hlast he
  have hmono : ∀ k ∈ (m.versions content).keys, ∀ k' ∈ (m.versions content).keys,
      k ≤ k' → k.time ≤ k'.time :=
    fun k hk k' hk' h => Number640.time_mono ((hcontent k hk).trans (hcontent k' hk').symm) h
  have hremoved : (∀ k ∈ (m.versions content).keys, k ∈ sl.outdated m content ↔ ¬ sl.Current m k) ↔
      ∀ k ∈ (m.versions content).keys,
        (∀ k' ∈ (m.versions content).keys, k' ≤ k → sl.tooOld k' last.1 = true) ↔
          k.time + sl.limit ≤ last.1.time := by
    refine forall₂_congr fun k hk => ?_
    have hcurrent : sl.Current m k ↔ last.1.time < k.time + sl.limit := by
      rw [Current, hcontent k hk, hlast]
      simp
    rw [sl.mem_outdated_iff hmax hlast hk, hcurrent, Nat.not_lt]
  have hsignless : sl.Signless m content ↔
      if last.1.time < 2 ^ 63 then
        ∃ k ∈ (m.versions content).keys, last.1.time < k.time + sl.limit ∧ k.time + sl.limit < 2 ^ 63
      else ∀ k ∈ (m.versions content).keys, 2 ^ 63 ≤ k.time + sl.limit := by
    rw [Signless, hlast]
    simp
  rw [hremoved, hsignless]
  by_cases hsmall : last.1.time < 2 ^ 63
  · rw [if_pos hsmall]
    exact front_small hlastmem hmono hlimit
      (fun k hk => sl.tooOld_small hmax (hmono k hk last.1 hlastmem (hle k hk)) hsmall) hsmall
  · rw [if_neg hsmall]
    have hlarge : 2 ^ 63 ≤ last.1.time := Nat.not_lt.mp hsmall
    exact front_large hmono
      (fun k hk => sl.tooOld_large hmax (hmono k hk last.1 hlastmem (hle k hk)) hlarge) hlarge

/-- After the call the versions of the contents it touches are those that were
    there after its puts and that the limit allows, and the other contents are as
    they were before it. -/
structure Pruned (contents : List Number480) (before put after : StorageMemory) : Prop where
  touched : ∀ k, k.locationAndDomainAndContentKey ∈ contents →
    after.get k = if sl.Current put k then put.get k else none
  untouched : ∀ k, k.locationAndDomainAndContentKey ∉ contents → after.get k = before.get k

theorem mem_versions_iff (m : StorageMemory) (k : Number640) :
    k ∈ (m.versions k.locationAndDomainAndContentKey).keys ↔ m.get k ≠ none := by
  rw [NavMap.mem_keys_iff, NavMap.contains, StorageMemory.get_versions, if_pos rfl,
    Option.isSome_iff_ne_none]

/-- The puts leave the contents alone that the call does not touch. -/
theorem putLoop_untouched (dataMap : NavMap Number640 Data) (publicKey : Option PublicKey)
    (putIfAbsent domainProtection sendSelf : Bool) (m m₁ : StorageMemory)
    (retVal₁ : NavMap Number640 PutStatus)
    (h : sl.putLoop publicKey putIfAbsent domainProtection sendSelf dataMap.entries .empty m =
      .ok retVal₁ m₁) (k : Number640)
    (hk : k.locationAndDomainAndContentKey ∉ (keysToCheck dataMap).elems) : m₁.get k = m.get k := by
  refine (sl.putLoop_without publicKey putIfAbsent domainProtection sendSelf
    (fun m m' => m'.get k = m.get k) (fun _ => rfl) (fun _ _ _ h h' => h'.trans h) k
    dataMap.entries .empty retVal₁ m m₁ ?_ h).1
  intro e he
  have hne : e.1 ≠ k := by
    rintro rfl
    exact hk ((mem_keysToCheck_iff dataMap _).mpr ⟨e.1, List.mem_map_of_mem he, rfl⟩)
  exact ⟨hne, fun m => sl.putEntry_other m publicKey putIfAbsent domainProtection sendSelf e.1 e.2 k
    (Ne.symm hne)⟩

/-- A call that returns has made its puts, and keeps the versions the limit allows
    exactly if no comparison for a content it touches is turned round. -/
theorem putAll_pruned_iff (dataMap : NavMap Number640 Data) (publicKey : Option PublicKey)
    (putIfAbsent domainProtection sendSelf : Bool) (m m' : StorageMemory)
    (retVal : NavMap Number640 PutStatus) (hmax : 0 < sl.maxVersions.toInt)
    (h : sl.putAll dataMap publicKey putIfAbsent domainProtection sendSelf m = .ok retVal m') :
    ∃ retVal₁ m₁,
      sl.putLoop publicKey putIfAbsent domainProtection sendSelf dataMap.entries .empty m =
        .ok retVal₁ m₁ ∧
      (sl.Pruned (keysToCheck dataMap).elems m m₁ m' ↔
        ∀ content ∈ (keysToCheck dataMap).elems, sl.Signless m₁ content) := by
  rw [putAll] at h
  rcases (Effect.bind_ok_iff _ _ _ _ _).mp h with ⟨retVal₁, m₁, hloop, hrest⟩
  refine ⟨retVal₁, m₁, hloop, ?_⟩
  have hmem : m' = (sl.versionLoop (keysToCheck dataMap).elems retVal₁ m₁).2 := by
    cases hrest
    rfl
  have hnodup := (keysToCheck dataMap).nodup
  -- The second loop removes what is outdated and nothing else.
  have hdata (k : Number640) : m'.get k =
      if k.locationAndDomainAndContentKey ∈ (keysToCheck dataMap).elems ∧
        k ∈ sl.outdated m₁ k.locationAndDomainAndContentKey then none else m₁.get k := by
    rw [hmem]
    exact (sl.versionLoop_data _ hnodup retVal₁ m₁ k _ Iff.rfl).1
  constructor
  · -- One content is read off the store, version by version.
    intro hpruned content hcontent
    rw [← sl.current_kept_iff m₁ content hmax]
    intro k hk
    have hc : k.locationAndDomainAndContentKey = content := by
      obtain ⟨e, he, rfl⟩ := List.mem_map.mp hk
      exact content_of_mem_versions he
    subst hc
    have hstored := (mem_versions_iff m₁ k).mp hk
    have hkept := hpruned.touched k hcontent
    rw [hdata k] at hkept
    by_cases hout : k ∈ sl.outdated m₁ k.locationAndDomainAndContentKey
    · rw [if_pos ⟨hcontent, hout⟩] at hkept
      refine iff_of_true hout ?_
      intro hcurrent
      rw [if_pos hcurrent] at hkept
      exact hstored hkept.symm
    · rw [if_neg fun hboth => hout hboth.2] at hkept
      refine iff_of_false hout ?_
      intro hnot
      rw [if_neg hnot] at hkept
      exact hstored hkept
  · intro hsignless
    refine ⟨?_, ?_⟩
    · intro k hcontent
      rw [hdata k]
      -- A version that was not stored is not stored now.
      by_cases hstored : m₁.get k = none
      · rw [hstored, ite_self, ite_self]
      · have hkept := (sl.current_kept_iff m₁ _ hmax).mpr (hsignless _ hcontent) k
          ((mem_versions_iff m₁ k).mpr hstored)
        by_cases hcurrent : sl.Current m₁ k
        · rw [if_neg fun hboth => hkept.mp hboth.2 hcurrent, if_pos hcurrent]
        · rw [if_pos ⟨hcontent, hkept.mpr hcurrent⟩, if_neg hcurrent]
    · intro k hcontent
      rw [hdata k, if_neg fun hboth => hcontent hboth.1]
      exact sl.putLoop_untouched dataMap publicKey putIfAbsent domainProtection sendSelf m m₁ retVal₁
        hloop k hcontent

/-- The version of this time of one content. -/
def ofTime (time : BitVec 32) : Number640 := ⟨1, 2, 3, ⟨0, time, 0, 0, 0⟩⟩

/-- Versions of times 5, 6 and 9. -/
def threeVersions : NavMap Number640 Data :=
  [5, 6, 9].foldl (fun dataMap time => dataMap.put (ofTime time) (Data.new [7#8] 1000)) .empty

/-- A call that puts three versions, and keeps the last. -/
theorem putAll_pruned_three :
    ∃ m₁ m', ([5, 6, 9].all fun time => (m₁.get (ofTime time)).isSome) = true ∧
      ([5, 6, 9].filter fun time => (m'.get (ofTime time)).isSome) = [9] ∧
      Pruned { maxVersions := 2 } [⟨1, 2, 3⟩] {} m₁ m' := by
  have hkept : (match putAll { maxVersions := 2 } threeVersions none false false false {} with
      | .ok _ m' => [5, 6, 9].filter fun time => (m'.get (ofTime time)).isSome
      | .error _ _ => []) = [9] := by decide +kernel
  have hstored : (match putLoop { maxVersions := 2 } none false false false threeVersions.entries .empty {} with
      | .ok _ m₁ => decide (([5, 6, 9].all fun time => (m₁.get (ofTime time)).isSome) = true ∧
          Signless { maxVersions := 2 } m₁ ⟨1, 2, 3⟩)
      | .error _ _ => false) = true := by decide +kernel
  have hcontents : (keysToCheck threeVersions).elems = [⟨1, 2, 3⟩] := by decide +kernel
  cases hcall : putAll { maxVersions := 2 } threeVersions none false false false {} with
  | error e m' =>
      rw [hcall] at hkept
      cases hkept
  | ok retVal m' =>
      rw [hcall] at hkept
      obtain ⟨retVal₁, m₁, hloop, hiff⟩ := putAll_pruned_iff { maxVersions := 2 } threeVersions none false false false
        {} m' retVal (by decide) hcall
      rw [hloop] at hstored
      rw [hcontents] at hiff
      obtain ⟨hall, hsignless⟩ := of_decide_eq_true hstored
      refine ⟨m₁, m', hall, hkept, hiff.mpr ?_⟩
      intro content hcontent
      rwa [List.mem_singleton.mp hcontent]

/-- The only version is within the limit, and is removed: with the limit added
    its time is negative. -/
theorem not_pruned_top :
    ∃ m₁ m' retVal₁ retVal,
      putLoop { maxVersions := 1 } none false false false
        [(⟨1, 2, 3, ⟨0x7fffffff, 0xffffffff, 0, 0, 0⟩⟩, Data.new [7#8] 1000)] .empty {} =
          .ok retVal₁ m₁ ∧
      putAll { maxVersions := 1 }
        (NavMap.empty.put ⟨1, 2, 3, ⟨0x7fffffff, 0xffffffff, 0, 0, 0⟩⟩ (Data.new [7#8] 1000)) none false
          false false {} = .ok retVal m' ∧
      ¬ Pruned { maxVersions := 1 } [⟨1, 2, 3⟩] {} m₁ m' := by
  refine ⟨_, _, _, _, rfl, rfl, ?_⟩
  intro hpruned
  have hkept := hpruned.touched ⟨1, 2, 3, ⟨0x7fffffff, 0xffffffff, 0, 0, 0⟩⟩ (by decide)
  revert hkept
  decide +kernel

end StorageLayer

end TomP2P
