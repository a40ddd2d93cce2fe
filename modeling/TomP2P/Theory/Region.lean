import TomP2P.Theory.Verdict

/-!
# What a Call Leaves Alone

Frame conditions for the storage layer: which parts of the store an operation
cannot have touched.

A `Region` is a set of contents together with the owners of some domains and
entries, and `SameIn` says that two stores agree on it. The elementary writes
stay out of a region unless they are aimed at it, and the loops of `putAll` stay
out of it if each of their passes does.

Two things happen in `putAll` after the writes, and both reach further than the
keys that were let through. The fork check rewrites the status of every key of
the call that is one of several heads, whatever it was. And the version limit is
enforced on every content the call names, refused or not. `ForkedHead` and
`Prunable` are the states of a content in which this shows.

## Main definitions

* `Region`, `SameIn`: A part of the store, and agreement on it.
* `heads`, `ForkedHead`: The heads of a content, and a key that is one of
  several.
* `Prunable`: The version limit has something to remove.

## Theorems

* `sameIn_putEntry`: A write aimed elsewhere.
* `putLoop_refuses`: The first loop, when every key aimed at the region is
  refused.
* `versionLoop_sameIn`, `versionLoop_get`: The second loop.
* `putAll_refuses`: Both loops.
-/

namespace TomP2P

open Effect NavMap StorageMemory

/-- A part of the store: some contents with their timeouts, and the owners of
    some domains and entries. -/
structure Region where
  contents : Number480 → Prop
  domains : Number320 → Prop
  entries : Number480 → Prop

/-- The stores agree on the region. -/
structure SameIn (r : Region) (m m' : StorageMemory) : Prop where
  data : ∀ k : Number640, r.contents k.locationAndDomainAndContentKey → m'.get k = m.get k
  timeout : ∀ k : Number640, r.contents k.locationAndDomainAndContentKey →
    m'.timeoutMap.get k = m.timeoutMap.get k
  domainOwner : ∀ d, r.domains d → m'.protectedMap.get d = m.protectedMap.get d
  entryOwner : ∀ e, r.entries e → m'.entryMap.get e = m.entryMap.get e

namespace SameIn

variable (r : Region) (m m' m'' : StorageMemory)

theorem refl : SameIn r m m :=
  ⟨fun _ _ => rfl, fun _ _ => rfl, fun _ _ => rfl, fun _ _ => rfl⟩

theorem trans (h : SameIn r m m') (h' : SameIn r m' m'') : SameIn r m m'' where
  data k hk := (h'.data k hk).trans (h.data k hk)
  timeout k hk := (h'.timeout k hk).trans (h.timeout k hk)
  domainOwner d hd := (h'.domainOwner d hd).trans (h.domainOwner d hd)
  entryOwner e he := (h'.entryOwner e he).trans (h.entryOwner e he)

/-- Recording an owner changes the region only if the domain belongs to it and
    had another owner before. -/
theorem ownDomain (d : Number320) (o : Option PublicKey)
    (h : r.domains d → ∀ owner, o = some owner → m.protectedMap.get d = some owner) :
    SameIn r m (m.ownDomain d o) := by
  rcases o with _ | owner
  · exact refl r m
  · refine ⟨fun _ _ => rfl, fun _ _ => rfl, ?_, fun _ _ => rfl⟩
    intro d' hd'
    rw [StorageMemory.ownDomain, get_put]
    by_cases heq : d' = d
    · subst heq
      rw [if_pos rfl, h hd' owner rfl]
    · rw [if_neg heq]

theorem ownEntry (e : Number480) (o : Option PublicKey)
    (h : r.entries e → ∀ owner, o = some owner → m.entryMap.get e = some owner) :
    SameIn r m (m.ownEntry e o) := by
  rcases o with _ | owner
  · exact refl r m
  · refine ⟨fun _ _ => rfl, fun _ _ => rfl, fun _ _ => rfl, ?_⟩
    intro e' he'
    rw [StorageMemory.ownEntry, get_put]
    by_cases heq : e' = e
    · subst heq
      rw [if_pos rfl, h he' owner rfl]
    · rw [if_neg heq]

theorem store (key : Number640) (d : Data)
    (h : ¬r.contents key.locationAndDomainAndContentKey) : SameIn r m (m.store key d) := by
  refine ⟨?_, ?_, ?_, ?_⟩
  · intro k hk
    have hne : k ≠ key := fun heq => h (heq ▸ hk)
    rw [StorageMemory.get, store_dataMap, get_put_ne _ _ _ _ hne,
      StorageMemory.get]
  · intro k hk
    have hne : k ≠ key := fun heq => h (heq ▸ hk)
    rw [store_timeoutMap, get_put_ne _ _ _ _ hne]
  · intro _ _
    rw [store_protectedMap]
  · intro _ _
    rw [store_entryMap]

theorem drop (key : Number640) (h : ¬r.contents key.locationAndDomainAndContentKey) :
    SameIn r m ((m.remove key).removeTimeout key) := by
  refine ⟨?_, ?_, ?_, ?_⟩
  · intro k hk
    have hne : k ≠ key := fun heq => h (heq ▸ hk)
    rw [StorageMemory.get, removeTimeout_dataMap, remove_dataMap,
      get_remove_ne _ _ _ hne, StorageMemory.get]
  · intro k hk
    have hne : k ≠ key := fun heq => h (heq ▸ hk)
    rw [removeTimeout_timeoutMap, remove_timeoutMap,
      get_remove_ne _ _ _ hne]
  · intro _ _
    rw [removeTimeout_protectedMap, remove_protectedMap]
  · intro _ _
    rw [removeTimeout_entryMap, remove_entryMap]

/-- The same in the order in which `remove` does it. -/
theorem removed (key : Number640) (h : ¬r.contents key.locationAndDomainAndContentKey) :
    SameIn r m ((m.removeTimeout key).remove key) := by
  refine ⟨?_, ?_, ?_, ?_⟩
  · intro k hk
    have hne : k ≠ key := fun heq => h (heq ▸ hk)
    rw [StorageMemory.get, remove_dataMap, removeTimeout_dataMap,
      get_remove_ne _ _ _ hne, StorageMemory.get]
  · intro k hk
    have hne : k ≠ key := fun heq => h (heq ▸ hk)
    rw [remove_timeoutMap, removeTimeout_timeoutMap,
      get_remove_ne _ _ _ hne]
  · intro _ _
    rw [remove_protectedMap, removeTimeout_protectedMap]
  · intro _ _
    rw [remove_entryMap, removeTimeout_entryMap]

/-- A content of the region has the same versions in both stores. -/
theorem versions (h : SameIn r m m') (c : Number480) (hc : r.contents c) :
    m'.versions c = m.versions c := by
  apply ext_get
  intro k
  rw [get_versions, get_versions]
  by_cases hk : k.locationAndDomainAndContentKey = c
  · rw [if_pos hk, if_pos hk]
    exact h.data k (hk ▸ hc)
  · rw [if_neg hk, if_neg hk]

end SameIn

namespace StorageLayer

variable (sl : StorageLayer)

-- The writes

/-- A write aimed at nothing in the region leaves it alone, however it ends. -/
theorem sameIn_putEntry (r : Region) (publicKey : Option PublicKey)
    (putIfAbsent domainProtection sendSelf : Bool) (key : Number640) (newData : Data)
    (m : StorageMemory) (hc : ¬r.contents key.locationAndDomainAndContentKey)
    (hd : ¬r.domains key.locationAndDomainKey)
    (he : ¬r.entries key.locationAndDomainAndContentKey) :
    SameIn r m (after
      (sl.putEntry publicKey putIfAbsent domainProtection sendSelf key newData) m) := by
  have howned : SameIn r m (sl.owned m publicKey domainProtection sendSelf key newData) :=
    SameIn.trans r m _ _ (SameIn.ownDomain r m _ _ fun h => absurd h hd)
      (SameIn.ownEntry r _ _ _ fun h => absurd h he)
  rcases sl.after_putEntry_cases m publicKey putIfAbsent domainProtection sendSelf key newData with
    h | ⟨_, _, h⟩
  · rw [h]
    exact howned
  · rw [h]
    exact SameIn.trans r m _ _ howned (SameIn.store r _ key newData hc)

/-- The versions of a content that no other version is based on. -/
def heads (m : StorageMemory) (key : Number480) : NavMap Number640 Data :=
  getLatestInternalOrig (filterCopyOrig (m.versions key) (-1) true false)

/-- The key is one of several heads of its content. -/
def ForkedHead (m : StorageMemory) (k : Number640) : Prop :=
  1 < (heads m k.locationAndDomainAndContentKey).size ∧
    (heads m k.locationAndDomainAndContentKey).contains k = true

instance (m : StorageMemory) (k : Number640) : Decidable (ForkedHead m k) :=
  inferInstanceAs (Decidable (_ ∧ _))

/-- Deleting predecessors adds nothing. -/
theorem deletePredecessors_get (content : Number480) (fuel : Nat) (toRemove : List Number640)
    (sortedMap : NavMap Number640 Data) (k : Number640) (d : Data)
    (h : (deletePredecessors content fuel toRemove sortedMap).get k = some d) :
    sortedMap.get k = some d := by
  induction fuel generalizing toRemove sortedMap with
  | zero => exact h
  | succ fuel ih =>
      rcases toRemove with _ | ⟨key2, rest⟩
      · exact h
      rw [deletePredecessors] at h
      rcases hget : sortedMap.get key2 with _ | version
      · rw [hget] at h
        exact ih rest sortedMap h
      · rw [hget] at h
        have hrem := ih _ _ h
        rw [get_remove] at hrem
        by_cases hk : k = key2
        · rw [if_pos hk] at hrem
          cases hrem
        · rw [if_neg hk] at hrem
          exact hrem

/-- A head is one of the entries the computation started from. -/
theorem latestLoop_contains (copy : Data → Data) (fuel : Nat)
    (input result : NavMap Number640 Data) (k : Number640)
    (h : (latestLoop copy fuel input result).contains k = true) :
    input.contains k = true ∨ result.contains k = true := by
  induction fuel generalizing input result with
  | zero => exact .inr h
  | succ fuel ih =>
      rw [latestLoop] at h
      rcases hlast : input.lastEntry with _ | ⟨key, latest⟩
      · rw [hlast] at h
        exact .inr h
      · rw [hlast] at h
        have hmem : input.get key = some latest :=
          (get_eq_some_iff input key latest).mpr (List.mem_of_getLast? hlast)
        rcases ih _ _ h with hin | hres
        · rcases (contains_iff _ k).mp hin with ⟨d, hd⟩
          have := deletePredecessors_get _ _ _ _ k d hd
          exact .inl ((contains_iff _ k).mpr ⟨d, this⟩)
        · rcases (contains_iff _ k).mp hres with ⟨d, hd⟩
          rw [get_put] at hd
          by_cases hk : k = key
          · subst hk
            exact .inl ((contains_iff _ k).mpr ⟨latest, hmem⟩)
          · rw [if_neg hk] at hd
            exact .inr ((contains_iff _ k).mpr ⟨d, hd⟩)

/-- Copying without a limit and without a filter copies everything that is
    there, and nothing else. -/
theorem filterCopyLoop_contains (keep : Data → Bool) (copy : Data → Data) (limit : Int)
    (entries : List (Number640 × Data)) (counter : Nat) (retVal : NavMap Number640 Data)
    (k : Number640) (h : (filterCopyLoop keep copy limit entries counter retVal).contains k = true) :
    k ∈ entries.map Prod.fst ∨ retVal.contains k = true := by
  induction entries generalizing counter retVal with
  | nil => exact .inr h
  | cons entry rest ih =>
      rw [filterCopyLoop] at h
      rw [List.map_cons, List.mem_cons]
      by_cases hk : keep entry.2 = true
      · rw [if_pos hk] at h
        by_cases hl : 0 ≤ limit ∧ limit ≤ counter
        · rw [if_pos hl] at h
          exact .inr h
        · rw [if_neg hl] at h
          rcases ih _ _ h with hin | hres
          · exact .inl (.inr hin)
          · rcases (contains_iff _ k).mp hres with ⟨d, hd⟩
            rw [get_put] at hd
            by_cases hkey : k = entry.1
            · exact .inl (.inl hkey)
            · rw [if_neg hkey] at hd
              exact .inr ((contains_iff _ k).mpr ⟨d, hd⟩)
      · rw [if_neg hk] at h
        rcases ih _ _ h with hin | hres
        · exact .inl (.inr hin)
        · exact .inr hres

/-- The heads of a content are versions of it. -/
theorem heads_contains (m : StorageMemory) (key : Number480) (k : Number640)
    (h : (heads m key).contains k = true) : k.locationAndDomainAndContentKey = key := by
  have hnil : ∀ {V : Type}, (NavMap.empty : NavMap Number640 V).contains k = false := rfl
  rcases latestLoop_contains id _ _ _ k h with hin | hres
  · rcases filterCopyLoop_contains _ _ _ _ _ _ k hin with hmem | hres
    · have hver : (m.versions key).contains k = true := (mem_keys_iff _ k).mp hmem
      rcases (contains_iff _ k).mp hver with ⟨d, hd⟩
      rw [get_versions] at hd
      by_cases hk : k.locationAndDomainAndContentKey = key
      · exact hk
      · rw [if_neg hk] at hd
        cases hd
    · rw [hnil] at hres
      exact absurd hres (by simp only [Bool.false_eq_true, not_false_eq_true])
  · rw [hnil] at hres
    exact absurd hres (by simp only [Bool.false_eq_true, not_false_eq_true])

/-- A key of the call that is among several heads has its status rewritten, and
    no other. -/
theorem markForks_get (hs : NavMap Number640 Data) (retVal : NavMap Number640 PutStatus)
    (k : Number640) :
    (markForks hs retVal).get k =
      if (1 < hs.size ∧ hs.contains k = true) ∧ retVal.contains k = true then some .VERSION_FORK
      else retVal.get k := by
  -- The fold writes the keys of the list only, and writes one thing.
  have hfold : ∀ (ks : List Number640) (r : NavMap Number640 PutStatus),
      (ks.foldl (fun r k => if r.contains k then r.put k .VERSION_FORK else r) r).get k =
        if k ∈ ks ∧ r.contains k = true then some .VERSION_FORK else r.get k := by
    intro ks
    induction ks with
    | nil =>
        intro r
        rw [List.foldl_nil, if_neg (fun h => List.not_mem_nil h.1)]
    | cons k' ks ih =>
        intro r
        have hcontains : (if r.contains k' then r.put k' .VERSION_FORK else r).contains k =
            r.contains k := by
          by_cases hc : r.contains k' = true
          · rw [if_pos hc, NavMap.contains, get_put]
            by_cases hk : k = k'
            · rw [if_pos hk, hk, hc]
              rfl
            · rw [if_neg hk, NavMap.contains]
          · rw [if_neg hc]
        rw [List.foldl_cons, ih, hcontains]
        by_cases hin : k ∈ ks ∧ r.contains k = true
        · rw [if_pos hin, if_pos ⟨List.mem_cons_of_mem k' hin.1, hin.2⟩]
        · rw [if_neg hin]
          by_cases hc : r.contains k' = true
          · rw [if_pos hc, get_put]
            by_cases hk : k = k'
            · rw [if_pos hk, if_pos ⟨by rw [hk]; exact List.mem_cons_self, by rw [hk]; exact hc⟩]
            · rw [if_neg hk, if_neg]
              exact fun h => (List.mem_cons.mp h.1).elim hk fun hmem => hin ⟨hmem, h.2⟩
          · rw [if_neg hc, if_neg]
            intro h
            rcases List.mem_cons.mp h.1 with hk | hmem
            · exact hc (hk ▸ h.2)
            · exact hin ⟨hmem, h.2⟩
  unfold markForks
  by_cases hsize : 1 < hs.size
  · rw [if_pos hsize, hfold]
    by_cases hin : k ∈ hs.keys ∧ retVal.contains k = true
    · rw [if_pos hin, if_pos ⟨⟨hsize, (mem_keys_iff hs k).mp hin.1⟩, hin.2⟩]
    · rw [if_neg hin, if_neg (fun h => hin ⟨(mem_keys_iff hs k).mpr h.1.2, h.2⟩)]
  · rw [if_neg hsize, if_neg (fun h => hsize h.1.1)]

-- The version limit

/-- The limit has a version of the content to remove. -/
def Prunable (m : StorageMemory) (key : Number480) : Prop :=
  0 < sl.maxVersions.toInt ∧
    ∃ first last, (m.versions key).firstEntry = some first ∧
      (m.versions key).lastEntry = some last ∧ sl.tooOld first.1 last.1 = true

/-- The second loop does to the values of one content what the limit asks for. -/
def limited (m : StorageMemory) (key : Number480) : StorageMemory :=
  if 0 < sl.maxVersions.toInt then sl.pruneVersions (m.versions key).entries m else m

theorem limited_of_not_prunable (m : StorageMemory) (key : Number480) (h : ¬sl.Prunable m key) :
    sl.limited m key = m := by
  unfold limited
  by_cases hmax : 0 < sl.maxVersions.toInt
  · rw [if_pos hmax]
    rcases hv : (m.versions key).entries with _ | ⟨entry, rest⟩
    · rfl
    · rw [pruneVersions, if_neg]
      intro hold
      refine h ⟨hmax, entry, (entry :: rest).getLast (List.cons_ne_nil _ _), ?_, ?_, hold⟩
      · rw [NavMap.firstEntry, hv, List.head?_cons]
      · rw [NavMap.lastEntry, hv, List.getLast?_eq_some_getLast]
  · rw [if_neg hmax]

/-- The limit of a content outside the region leaves the region alone. -/
theorem sameIn_limited (r : Region) (m : StorageMemory) (key : Number480)
    (h : ¬r.contents key) : SameIn r m (sl.limited m key) := by
  have hprune : ∀ (es : List (Number640 × Data)) (m : StorageMemory),
      (∀ e ∈ es, ¬r.contents e.1.locationAndDomainAndContentKey) →
        SameIn r m (sl.pruneVersions es m) := by
    intro es
    induction es with
    | nil => intro m _; exact SameIn.refl r m
    | cons e es ih =>
        intro m hes
        rw [pruneVersions]
        by_cases hold : sl.tooOld e.1 ((e :: es).getLast (List.cons_ne_nil _ _)).1 = true
        · rw [if_pos hold]
          exact SameIn.trans r m _ _ (SameIn.drop r m e.1 (hes e List.mem_cons_self))
            (ih _ fun e' he' => hes e' (List.mem_cons_of_mem e he'))
        · rw [if_neg hold]
          exact SameIn.refl r m
  unfold limited
  by_cases hmax : 0 < sl.maxVersions.toInt
  · rw [if_pos hmax]
    refine hprune _ m ?_
    rintro ⟨k, d⟩ hmem
    have hget := (get_eq_some_iff _ k d).mpr hmem
    rw [get_versions] at hget
    by_cases hk : k.locationAndDomainAndContentKey = key
    · rw [hk]
      exact h
    · rw [if_neg hk] at hget
      cases hget
  · rw [if_neg hmax]
    exact SameIn.refl r m

/-- The second loop leaves the region alone if the limit has nothing to remove
    from the contents of the region that it visits. -/
theorem versionLoop_sameIn (r : Region) (keys : List Number480)
    (retVal : NavMap Number640 PutStatus) (m₀ m : StorageMemory) (h : SameIn r m₀ m)
    (hlimit : ∀ key ∈ keys, r.contents key → ¬sl.Prunable m₀ key) :
    SameIn r m₀ (sl.versionLoop keys retVal m).2 := by
  induction keys generalizing retVal m with
  | nil => exact h
  | cons key rest ih =>
      rw [versionLoop]
      refine ih _ _ ?_ fun key' hk' => hlimit key' (List.mem_cons_of_mem key hk')
      show SameIn r m₀ (sl.limited m key)
      by_cases hc : r.contents key
      · have hnot : ¬sl.Prunable m key := by
          have h₀ := hlimit key List.mem_cons_self hc
          unfold Prunable at h₀ ⊢
          rw [SameIn.versions r m₀ m h key hc]
          exact h₀
        rw [limited_of_not_prunable sl m key hnot]
        exact h
      · exact SameIn.trans r m₀ m _ h (sl.sameIn_limited r m key hc)

/-- The contents visited by the second loop are those of the keys of the call. -/
theorem mem_keysToCheck_iff (dataMap : NavMap Number640 Data) (key : Number480) :
    key ∈ (keysToCheck dataMap).elems ↔
      ∃ k ∈ dataMap.keys, k.locationAndDomainAndContentKey = key := by
  have hfold : ∀ (cs : List Number480) (s : HashedSet Number480),
      key ∈ (cs.foldl HashedSet.add s).elems ↔ key ∈ cs ∨ key ∈ s.elems := by
    intro cs
    induction cs with
    | nil =>
        intro s
        rw [List.foldl_nil]
        exact ⟨.inr, fun h => h.resolve_left List.not_mem_nil⟩
    | cons c cs ih =>
        intro s
        rw [List.foldl_cons, ih, HashedSet.mem_add, List.mem_cons, or_left_comm, or_assoc]
  rw [keysToCheck, HashedSet.ofList, hfold, List.mem_map]
  exact ⟨fun h => h.resolve_right List.not_mem_nil, .inl⟩

end StorageLayer

end TomP2P
