import TomP2P.Theory.Region

/-!
# What Becomes of a Put

The two loops of `putAll`, key by key.

A pass of the first loop either turns its key down with a status or stores the
new value; before it does either it has recorded the owners that its checks
granted (`putEntry_cases`). The passes for other keys leave the value of a key
alone, so what the first loop does to a key is what its own pass does
(`putLoop_pass`).

The second loop visits every content of the call once. It answers
`VERSION_FORK` for the keys of the call that are among several heads, whatever
the first loop answered, and removes the versions that the limit does not allow
(`versionLoop_status`, `versionLoop_data`). `putAll_outcome` puts the two
together.

## Main definitions

* `rejection`: Why a pass turns its key down, if it does.
* `passState`: The state in which the pass for a key starts.
* `outdated`: The versions of a content that the limit removes.

## Theorems

* `putEntry_cases`: One pass.
* `putLoop_pass`: The first loop, for one of its keys.
* `versionLoop_status`, `versionLoop_data`: The second loop.
* `putAll_outcome`: The whole call.
-/

namespace TomP2P

open Effect NavMap StorageMemory List

namespace StorageLayer

variable (sl : StorageLayer)

-- One pass

section Pass

variable (m : StorageMemory) (publicKey : Option PublicKey)
  (putIfAbsent domainProtection sendSelf : Bool) (key : Number640) (newData : Data)

/-- The status with which the pass turns the key down, if it does. -/
def rejection : Option PutStatus :=
  match sl.domainVerdict m key.locationAndDomainKey publicKey publicKey domainProtection with
  | .error _ => none
  | .ok (false, _) => some .FAILED_SECURITY
  | .ok (true, _) =>
      match sl.entryVerdict m key.locationAndDomainAndContentKey publicKey
          (dataKey publicKey sendSelf newData) newData.isProtectedEntry with
      | .error _ => none
      | .ok (false, _) => some .FAILED_SECURITY
      | .ok (true, _) => blockedBy m putIfAbsent key newData

/-- The checks come first. -/
theorem rejection_eq :
    sl.rejection m publicKey putIfAbsent domainProtection sendSelf key newData =
      match sl.letsThrough m publicKey domainProtection sendSelf key newData with
      | .error _ => none
      | .ok false => some .FAILED_SECURITY
      | .ok true => blockedBy m putIfAbsent key newData := by
  unfold rejection letsThrough
  rcases sl.domainVerdict m key.locationAndDomainKey publicKey publicKey domainProtection with
    e | ⟨_ | _, o⟩
  · rfl
  · rfl
  · rcases sl.entryVerdict m key.locationAndDomainAndContentKey publicKey
      (dataKey publicKey sendSelf newData) newData.isProtectedEntry with e | ⟨_ | _, o'⟩ <;> rfl

/-- A pass that returns has recorded its owners, and then either turned the key
    down or stored the value. -/
theorem putEntry_cases (status : PutStatus) (m' : StorageMemory)
    (h : sl.putEntry publicKey putIfAbsent domainProtection sendSelf key newData m =
      .ok status m') :
    (sl.rejection m publicKey putIfAbsent domainProtection sendSelf key newData = some status ∧
      m' = sl.owned m publicKey domainProtection sendSelf key newData) ∨
    (sl.rejection m publicKey putIfAbsent domainProtection sendSelf key newData = none ∧
      status = (if newData.hasPrepareFlag then .OK_PREPARED else .OK) ∧
      m' = (sl.owned m publicKey domainProtection sendSelf key newData).store key newData) := by
  revert h
  rw [putEntry_eq, rejection_eq]
  rcases sl.letsThrough m publicKey domainProtection sendSelf key newData with e | _ | _
  · exact nofun
  · rintro ⟨⟩
    exact .inl ⟨rfl, rfl⟩
  · rcases blockedBy m putIfAbsent key newData with _ | s
    · rintro ⟨⟩
      exact .inr ⟨rfl, rfl, rfl⟩
    · rintro ⟨⟩
      exact .inl ⟨rfl, rfl⟩

/-- A pass that turns its key down returns. -/
theorem putEntry_rejection (status : PutStatus)
    (h : sl.rejection m publicKey putIfAbsent domainProtection sendSelf key newData =
      some status) :
    sl.putEntry publicKey putIfAbsent domainProtection sendSelf key newData m =
      .ok status (sl.owned m publicKey domainProtection sendSelf key newData) := by
  revert h
  rw [putEntry_eq, rejection_eq]
  rcases sl.letsThrough m publicKey domainProtection sendSelf key newData with e | _ | _
  · exact nofun
  · rintro ⟨⟩
    rfl
  · dsimp only
    intro h
    rw [h]

/-- A key is turned down with one of four statuses. -/
theorem rejection_status (status : PutStatus)
    (h : sl.rejection m publicKey putIfAbsent domainProtection sendSelf key newData =
      some status) :
    status = .FAILED_SECURITY ∨ status = .FAILED_NOT_ABSENT ∨ status = .DELETED ∨
      status = .VERSION_FORK := by
  revert h
  rw [rejection_eq]
  rcases sl.letsThrough m publicKey domainProtection sendSelf key newData with e | _ | _
  · exact nofun
  · rintro ⟨⟩
    exact .inl rfl
  dsimp only [blockedBy]
  rcases m.get key with _ | old
  · exact nofun
  dsimp only
  by_cases h1 : putIfAbsent = true
  · rw [if_pos h1]
    rintro ⟨⟩
    exact .inr (.inl rfl)
  rw [if_neg h1]
  by_cases h2 : old.isDeleted = true
  · rw [if_pos h2]
    rintro ⟨⟩
    exact .inr (.inr (.inl rfl))
  rw [if_neg h2]
  by_cases h3 : (!old.basedOnSet.equals newData.basedOnSet) = true
  · rw [if_pos h3]
    rintro ⟨⟩
    exact .inr (.inr (.inr rfl))
  · rw [if_neg h3]
    exact nofun

/-- A pass changes the value and the timeout of its own key only. -/
theorem putEntry_other (k : Number640) (hk : k ≠ key) :
    (after (sl.putEntry publicKey putIfAbsent domainProtection sendSelf key newData) m).get
      k = m.get k := by
  rcases sl.after_putEntry_cases m publicKey putIfAbsent domainProtection sendSelf key newData with
    h | ⟨_, _, h⟩
  · rw [h, owned_get]
  · rw [h, StorageMemory.get, store_dataMap, get_put_ne _ _ _ _ hk, owned_dataMap, ← StorageMemory.get]

end Pass

-- The first loop

section Loop

variable (publicKey : Option PublicKey) (putIfAbsent domainProtection sendSelf : Bool)
  (R : StorageMemory → StorageMemory → Prop) (hrefl : ∀ m, R m m)
  (htrans : ∀ m₁ m₂ m₃, R m₁ m₂ → R m₂ m₃ → R m₁ m₃)

/-- The state in which the pass for a key starts. -/
def passState (k : Number640) : List (Number640 × Data) → StorageMemory → Option StorageMemory
  | [], _ => none
  | e :: rest, m =>
      if e.1 = k then some m
      else
        match sl.putEntry publicKey putIfAbsent domainProtection sendSelf e.1 e.2 m with
        | .ok _ m' => passState k rest m'
        | .error _ _ => none

include hrefl htrans in
/-- A loop without the key keeps what its passes keep, and files no status for
    the key. -/
theorem putLoop_without (k : Number640) (entries : List (Number640 × Data))
    (retVal retVal' : NavMap Number640 PutStatus) (m m' : StorageMemory)
    (hother : ∀ e ∈ entries, e.1 ≠ k ∧ ∀ m, R m (after
      (sl.putEntry publicKey putIfAbsent domainProtection sendSelf e.1 e.2) m))
    (h : sl.putLoop publicKey putIfAbsent domainProtection sendSelf entries retVal m =
      .ok retVal' m') :
    R m m' ∧ retVal'.get k = retVal.get k := by
  induction entries generalizing retVal m with
  | nil =>
      rw [putLoop, pure_apply] at h
      cases h
      exact ⟨hrefl _, rfl⟩
  | cons e rest ih =>
      rcases hother e mem_cons_self with ⟨hne, hpass⟩
      rw [putLoop] at h
      rcases (bind_ok_iff _ _ _ _ _).mp h with ⟨status, m₁, hput, hrest⟩
      have hR := hpass m
      rw [after_ok _ _ _ _ hput] at hR
      have hloop := ih _ _ (fun e' he' => hother e' (mem_cons_of_mem e he')) hrest
      refine ⟨htrans _ _ _ hR hloop.1, ?_⟩
      rw [hloop.2, get_put_ne _ _ _ _ (Ne.symm hne)]

include hrefl htrans in
/-- What the first loop does to a key is what its own pass does. -/
theorem putLoop_pass (k : Number640) (d : Data) (entries : List (Number640 × Data))
    (hnodup : (entries.map Prod.fst).Nodup) (hmem : (k, d) ∈ entries)
    (hother : ∀ e ∈ entries, e.1 ≠ k → ∀ m, R m (after
      (sl.putEntry publicKey putIfAbsent domainProtection sendSelf e.1 e.2) m))
    (retVal retVal' : NavMap Number640 PutStatus) (m m' : StorageMemory)
    (h : sl.putLoop publicKey putIfAbsent domainProtection sendSelf entries retVal m =
      .ok retVal' m') :
    ∃ m₁ status m₂, sl.passState publicKey putIfAbsent domainProtection sendSelf k entries m =
        some m₁ ∧ R m m₁ ∧
      sl.putEntry publicKey putIfAbsent domainProtection sendSelf k d m₁ = .ok status m₂ ∧
      R m₂ m' ∧ retVal'.get k = some status := by
  induction entries generalizing retVal m with
  | nil => exact absurd hmem not_mem_nil
  | cons e rest ih =>
      rw [map_cons, nodup_cons] at hnodup
      rw [putLoop] at h
      rcases (bind_ok_iff _ _ _ _ _).mp h with ⟨status, m₁, hput, hrest⟩
      rcases mem_cons.mp hmem with heq | hin
      · -- The passes after it are for other keys.
        subst heq
        have hwithout := sl.putLoop_without publicKey putIfAbsent domainProtection sendSelf R hrefl
          htrans k rest _ retVal' m₁ m' (by
            intro e' he'
            have hne : e'.1 ≠ k := by
              intro heq
              have hmem' : e'.1 ∈ rest.map Prod.fst := mem_map_of_mem he'
              exact hnodup.1 (heq ▸ hmem')
            exact ⟨hne, hother e' (mem_cons_of_mem _ he') hne⟩) hrest
        refine ⟨m, status, m₁, if_pos rfl, hrefl m, hput, hwithout.1, ?_⟩
        rw [hwithout.2, get_put_self]
      · have hne : e.1 ≠ k := fun heq => hnodup.1 (heq ▸ mem_map_of_mem hin)
        have hR := hother e mem_cons_self hne m
        rw [after_ok _ _ _ _ hput] at hR
        rcases ih hnodup.2 hin (fun e' he' => hother e' (mem_cons_of_mem e he')) _ _ hrest with
          ⟨m₂, status', m₃, hstate, hR₂, hput', hR₃, hget⟩
        refine ⟨m₂, status', m₃, ?_, htrans _ _ _ hR hR₂, hput', hR₃, hget⟩
        rw [passState, if_neg hne, hput]
        exact hstate

end Loop

-- The second loop

/-- The versions of a content that the limit removes: from the front, as long as
    they are too old beside the last one. -/
def outdated (m : StorageMemory) (content : Number480) : List Number640 :=
  match (m.versions content).lastEntry with
  | none => []
  | some last =>
      if 0 < sl.maxVersions.toInt then
        ((m.versions content).entries.takeWhile fun e => sl.tooOld e.1 last.1).map Prod.fst
      else []

/-- Removing a list of keys with their timeouts. -/
def dropAll (m : StorageMemory) (ks : List Number640) : StorageMemory :=
  ks.foldl (fun m k => (m.remove k).removeTimeout k) m

theorem dropAll_get (ks : List Number640) (m : StorageMemory) (k : Number640) :
    (dropAll m ks).get k = (if k ∈ ks then none else m.get k) ∧
      (dropAll m ks).timeoutMap.get k = (if k ∈ ks then none else m.timeoutMap.get k) := by
  induction ks generalizing m with
  | nil =>
      rw [if_neg not_mem_nil, if_neg not_mem_nil]
      exact ⟨rfl, rfl⟩
  | cons k' ks ih =>
      have hrest := ih ((m.remove k').removeTimeout k')
      have hget : ((m.remove k').removeTimeout k').get k = if k = k' then none else m.get k := by
        rw [StorageMemory.get, removeTimeout_dataMap, remove_dataMap,
          get_remove, StorageMemory.get]
      rw [hget, removeTimeout_timeoutMap, remove_timeoutMap,
        get_remove] at hrest
      rw [dropAll, foldl_cons]
      by_cases hin : k ∈ ks
      · rw [if_pos hin, if_pos hin] at hrest
        rw [if_pos (mem_cons_of_mem k' hin), if_pos (mem_cons_of_mem k' hin)]
        exact hrest
      · rw [if_neg hin, if_neg hin] at hrest
        by_cases hk : k = k'
        · rw [if_pos hk, if_pos hk] at hrest
          have hmem : k ∈ k' :: ks := by
            rw [hk]
            exact mem_cons_self
          rw [if_pos hmem, if_pos hmem]
          exact hrest
        · rw [if_neg hk, if_neg hk] at hrest
          have hmem : k ∉ k' :: ks := fun h => (mem_cons.mp h).elim hk hin
          rw [if_neg hmem, if_neg hmem]
          exact hrest

/-- The loop of the limit takes its entries from the front. The last one stays
    the same until nothing is left. -/
theorem pruneVersions_eq (es : List (Number640 × Data)) (last : Number640 × Data)
    (hlast : es.getLast? = some last) (m : StorageMemory) :
    sl.pruneVersions es m =
      dropAll m ((es.takeWhile fun e => sl.tooOld e.1 last.1).map Prod.fst) := by
  induction es generalizing m with
  | nil => exact absurd hlast (by simp only [getLast?_nil, reduceCtorEq, not_false_eq_true])
  | cons e es ih =>
      have hget : (e :: es).getLast (cons_ne_nil _ _) = last := by
        rw [getLast?_eq_some_getLast (cons_ne_nil _ _), Option.some.injEq] at hlast
        exact hlast
      rw [pruneVersions, hget]
      by_cases hold : sl.tooOld e.1 last.1 = true
      · rw [if_pos hold, takeWhile_cons, hold]
        rcases es with _ | ⟨e', es'⟩
        · rfl
        · exact ih (by rw [getLast?_cons_cons] at hlast; exact hlast) _
      · rw [if_neg hold, takeWhile_cons, Bool.eq_false_iff.mpr hold]
        rfl

theorem limited_eq (m : StorageMemory) (content : Number480) :
    sl.limited m content = dropAll m (sl.outdated m content) := by
  unfold limited outdated
  rcases hlast : (m.versions content).lastEntry with _ | last
  · have hnil : (m.versions content).entries = [] := getLast?_eq_none_iff.mp hlast
    dsimp only
    rw [hnil]
    by_cases hmax : 0 < sl.maxVersions.toInt
    · rw [if_pos hmax]
      rfl
    · rw [if_neg hmax]
      rfl
  · dsimp only
    by_cases hmax : 0 < sl.maxVersions.toInt
    · rw [if_pos hmax, if_pos hmax, sl.pruneVersions_eq _ last hlast]
    · rw [if_neg hmax, if_neg hmax]
      rfl

/-- The versions of a content in the backend, and nothing else. -/
def contentRegion (content : Number480) : Region where
  contents c := c = content
  domains _ := True
  entries _ := True

/-- What the limit removes of a content depends on the versions of the content
    only. -/
theorem outdated_congr (m m' : StorageMemory) (content : Number480)
    (h : m'.versions content = m.versions content) :
    sl.outdated m' content = sl.outdated m content := by
  unfold outdated
  rw [h]

/-- Without a limit nothing is outdated. -/
theorem outdated_of_no_limit (m : StorageMemory) (content : Number480)
    (hmax : sl.maxVersions.toInt ≤ 0) : sl.outdated m content = [] := by
  unfold outdated
  rcases (m.versions content).lastEntry with _ | last
  · rfl
  · exact if_neg (not_lt.mpr hmax)

/-- What the limit removes is a stored version of the content. -/
theorem mem_versions_of_outdated (m : StorageMemory) (content : Number480) (k : Number640)
    (h : k ∈ sl.outdated m content) :
    k.locationAndDomainAndContentKey = content ∧ ∃ d, m.get k = some d := by
  unfold outdated at h
  rcases hlast : (m.versions content).lastEntry with _ | last
  · rw [hlast] at h
    exact absurd h not_mem_nil
  rw [hlast] at h
  dsimp only at h
  by_cases hmax : 0 < sl.maxVersions.toInt
  · rw [if_pos hmax] at h
    rcases mem_map.mp h with ⟨⟨k', d⟩, hmem, heq⟩
    have hin := takeWhile_subset _ hmem
    have hget := (get_eq_some_iff _ _ _).mpr hin
    rw [get_versions] at hget
    dsimp only at heq
    subst heq
    by_cases hc : k'.locationAndDomainAndContentKey = content
    · rw [if_pos hc] at hget
      exact ⟨hc, d, hget⟩
    · rw [if_neg hc] at hget
      cases hget
  · rw [if_neg hmax] at h
    exact absurd h not_mem_nil

/-- Visiting another content changes nothing of this one. -/
theorem sameIn_limited_other (m : StorageMemory) (content other : Number480)
    (h : other ≠ content) : SameIn (contentRegion content) m (sl.limited m other) :=
  sl.sameIn_limited (contentRegion content) m other h

theorem versionLoop_cons (c : Number480) (rest : List Number480)
    (retVal : NavMap Number640 PutStatus) (m : StorageMemory) :
    sl.versionLoop (c :: rest) retVal m =
      sl.versionLoop rest (markForks (heads m c) retVal) (sl.limited m c) := rfl

/-- The second loop removes the outdated versions of the contents it visits, with
    their timeouts, and nothing else. -/
theorem versionLoop_data (keys : List Number480) (hnodup : keys.Nodup)
    (retVal : NavMap Number640 PutStatus) (m : StorageMemory) (k : Number640)
    (gone : Prop) [Decidable gone]
    (hgone : gone ↔ k.locationAndDomainAndContentKey ∈ keys ∧
      k ∈ sl.outdated m k.locationAndDomainAndContentKey) :
    (sl.versionLoop keys retVal m).2.get k = (if gone then none else m.get k) ∧
      (sl.versionLoop keys retVal m).2.timeoutMap.get k =
        (if gone then none else m.timeoutMap.get k) := by
  induction keys generalizing retVal m gone with
  | nil =>
      have hno : ¬gone := fun h => not_mem_nil (hgone.mp h).1
      rw [if_neg hno, if_neg hno]
      exact ⟨rfl, rfl⟩
  | cons c rest ih =>
      rw [nodup_cons] at hnodup
      rw [versionLoop_cons]
      have hstep := ih hnodup.2 (markForks (heads m c) retVal) (sl.limited m c)
      by_cases hc : c = k.locationAndDomainAndContentKey
      · -- The content of the key is visited now and not again.
        have hlater := hstep False ⟨False.elim, fun h => hnodup.1 (hc ▸ h.1)⟩
        rw [if_neg not_false, if_neg not_false, limited_eq, (dropAll_get _ m k).1,
          (dropAll_get _ m k).2, hc] at hlater
        have hiff : gone ↔ k ∈ sl.outdated m k.locationAndDomainAndContentKey := by
          rw [hgone]
          exact ⟨fun h => h.2, fun h => ⟨hc ▸ mem_cons_self, h⟩⟩
        rw [limited_eq, hc]
        by_cases hg : gone
        · rw [if_pos hg, if_pos hg]
          rw [if_pos (hiff.mp hg), if_pos (hiff.mp hg)] at hlater
          exact hlater
        · rw [if_neg hg, if_neg hg]
          rw [if_neg (fun h => hg (hiff.mpr h)), if_neg (fun h => hg (hiff.mpr h))] at hlater
          exact hlater
      · have hsame := sl.sameIn_limited_other m k.locationAndDomainAndContentKey c hc
        have hout := sl.outdated_congr m (sl.limited m c) k.locationAndDomainAndContentKey
          (SameIn.versions _ _ _ hsame _ rfl)
        have hlater := hstep gone (by
          rw [hgone, hout]
          refine ⟨fun h => ⟨?_, h.2⟩, fun h => ⟨mem_cons_of_mem c h.1, h.2⟩⟩
          exact (mem_cons.mp h.1).resolve_left fun heq => hc heq.symm)
        rw [hsame.data k rfl, hsame.timeout k rfl] at hlater
        exact hlater

/-- The second loop rewrites the status of the keys of the call that are among
    several heads of a content it visits, and no other. -/
theorem versionLoop_status (keys : List Number480) (hnodup : keys.Nodup)
    (retVal : NavMap Number640 PutStatus) (m : StorageMemory) (k : Number640)
    (forked : Prop) [Decidable forked]
    (hforked : forked ↔ k.locationAndDomainAndContentKey ∈ keys ∧ ForkedHead m k ∧
      retVal.contains k = true) :
    (sl.versionLoop keys retVal m).1.get k =
      if forked then some .VERSION_FORK else retVal.get k := by
  induction keys generalizing retVal m forked with
  | nil =>
      rw [if_neg (fun h => not_mem_nil (hforked.mp h).1)]
      rfl
  | cons c rest ih =>
      rw [nodup_cons] at hnodup
      rw [versionLoop_cons]
      have hstep := ih hnodup.2 (markForks (heads m c) retVal) (sl.limited m c)
      have hmark := markForks_get (heads m c) retVal k
      by_cases hc : c = k.locationAndDomainAndContentKey
      · have hlater := hstep False ⟨False.elim, fun h => hnodup.1 (hc ▸ h.1)⟩
        rw [if_neg not_false] at hlater
        refine hlater.trans (hmark.trans ?_)
        rw [hc]
        have hiff : ((1 < (heads m k.locationAndDomainAndContentKey).size ∧
            (heads m k.locationAndDomainAndContentKey).contains k = true) ∧
              retVal.contains k = true) ↔ forked := by
          rw [hforked]
          exact ⟨fun h => ⟨hc ▸ mem_cons_self, h⟩, fun h => h.2⟩
        by_cases hf : forked
        · rw [if_pos hf, if_pos (hiff.mpr hf)]
        · rw [if_neg hf, if_neg (fun h => hf (hiff.mp h))]
      · have hnot : ¬((1 < (heads m c).size ∧ (heads m c).contains k = true) ∧
            retVal.contains k = true) := by
          intro h
          exact hc (heads_contains m c k h.1.2).symm
        rw [if_neg hnot] at hmark
        have hsame := sl.sameIn_limited_other m k.locationAndDomainAndContentKey c hc
        have hheads : heads (sl.limited m c) k.locationAndDomainAndContentKey =
            heads m k.locationAndDomainAndContentKey := by
          rw [heads, heads, SameIn.versions _ _ _ hsame _ rfl]
        have hlater := hstep forked (by
          rw [hforked, NavMap.contains, NavMap.contains, hmark, ForkedHead, ForkedHead, hheads]
          refine ⟨fun h => ⟨?_, h.2⟩, fun h => ⟨mem_cons_of_mem c h.1, h.2⟩⟩
          exact (mem_cons.mp h.1).resolve_left fun heq => hc heq.symm)
        rw [hmark] at hlater
        exact hlater

/-- The second loop records no owner. -/
theorem versionLoop_owners (keys : List Number480) (retVal : NavMap Number640 PutStatus)
    (m : StorageMemory) :
    SameIn ⟨fun _ => False, fun _ => True, fun _ => True⟩ m (sl.versionLoop keys retVal m).2 :=
  sl.versionLoop_sameIn _ keys retVal m m (SameIn.refl _ m) fun _ _ h => h.elim

-- The whole call

/-- A call that returns has run its first loop to the end. For a key of the call
    the second loop may then report a fork, and may remove the value. -/
theorem putAll_outcome (dataMap : NavMap Number640 Data) (publicKey : Option PublicKey)
    (putIfAbsent domainProtection sendSelf : Bool) (m m' : StorageMemory)
    (retVal : NavMap Number640 PutStatus)
    (h : sl.putAll dataMap publicKey putIfAbsent domainProtection sendSelf m = .ok retVal m') :
    ∃ retVal₁ m₁, sl.putLoop publicKey putIfAbsent domainProtection sendSelf dataMap.entries .empty
        m = .ok retVal₁ m₁ ∧
      m'.protectedMap = m₁.protectedMap ∧ m'.entryMap = m₁.entryMap ∧
      ∀ k ∈ dataMap.keys,
        (ForkedHead m₁ k ∧ retVal₁.contains k = true → retVal.get k = some .VERSION_FORK) ∧
        (¬(ForkedHead m₁ k ∧ retVal₁.contains k = true) → retVal.get k = retVal₁.get k) ∧
        (k ∈ sl.outdated m₁ k.locationAndDomainAndContentKey →
          m'.get k = none ∧ m'.timeoutMap.get k = none) ∧
        (k ∉ sl.outdated m₁ k.locationAndDomainAndContentKey →
          m'.get k = m₁.get k ∧ m'.timeoutMap.get k = m₁.timeoutMap.get k) := by
  rw [putAll] at h
  rcases (bind_ok_iff _ _ _ _ _).mp h with ⟨retVal₁, m₁, hloop, hrest⟩
  refine ⟨retVal₁, m₁, hloop, ?_⟩
  have hval : retVal = (sl.versionLoop (keysToCheck dataMap).elems retVal₁ m₁).1 := by
    cases hrest
    rfl
  have hmem : m' = (sl.versionLoop (keysToCheck dataMap).elems retVal₁ m₁).2 := by
    cases hrest
    rfl
  have howners := sl.versionLoop_owners (keysToCheck dataMap).elems retVal₁ m₁
  refine ⟨?_, ?_, ?_⟩
  · rw [hmem]
    exact ext_get _ _ fun d => howners.domainOwner d trivial
  · rw [hmem]
    exact ext_get _ _ fun e => howners.entryOwner e trivial
  intro k hk
  have hin : k.locationAndDomainAndContentKey ∈ (keysToCheck dataMap).elems :=
    (mem_keysToCheck_iff dataMap _).mpr ⟨k, hk, rfl⟩
  have hnodup := (keysToCheck dataMap).nodup
  rw [hval, hmem]
  refine ⟨?_, ?_, ?_, ?_⟩
  · intro hf
    rw [sl.versionLoop_status _ hnodup retVal₁ m₁ k True ⟨fun _ => ⟨hin, hf⟩, fun _ => trivial⟩,
      if_pos trivial]
  · intro hf
    rw [sl.versionLoop_status _ hnodup retVal₁ m₁ k False ⟨False.elim, fun h => hf h.2⟩,
      if_neg not_false]
  · intro ho
    have hdata := sl.versionLoop_data _ hnodup retVal₁ m₁ k True
      ⟨fun _ => ⟨hin, ho⟩, fun _ => trivial⟩
    rw [if_pos trivial, if_pos trivial] at hdata
    exact hdata
  · intro ho
    have hdata := sl.versionLoop_data _ hnodup retVal₁ m₁ k False ⟨False.elim, fun h => ho h.2⟩
    rw [if_neg not_false, if_neg not_false] at hdata
    exact hdata

end StorageLayer

end TomP2P
