import TomP2P.Core.StorageRead
import TomP2P.Foundation.Worklist

/-!
# Latest Versions

What `getLatestVersion` returns. The versions of a content form a graph: a version
leads to those it is based on, as far as they are stored. The computation takes the
largest version that is left, then removes it and everything it leads to, until
nothing is left.

What was removed stays closed: whatever a removed version leads to is removed too.
So a path between versions that are left never leaves them, and the search in the
rest of the map reaches what it would reach in all of it (`Peeled.found_iff`). With
that every version is returned or reached from one that is, whatever the graph looks
like. A version that is taken is reached by no other if based-on keys are smaller
than the keys that name them, since the larger ones are gone by then.

## Main definitions

* `StorageLayer.unprepared`: The versions of a content that are not prepared.
* `StorageLayer.Based`: A version leads to another one.
* `StorageLayer.latestStep`: An iteration of the computation.
* `StorageLayer.Peeled`: What the computation knows about what it has taken.

## Theorems

* `StorageLayer.filterCopyOrig_eq`: What a copy without a limit holds.
* `StorageLayer.ends_deletePredecessors`, `StorageLayer.ends_latestLoop`: The loops end.
* `StorageLayer.getLatestVersion_heads`: What is returned.
-/

namespace TomP2P

open NavMap List

/-- A smaller version of a content is a smaller key. -/
theorem Number640.version_lt {k : Number640} {content : Number480} {v : Number160}
    (hc : k.locationAndDomainAndContentKey = content) (h : v < k.versionKey) : content.version v < k := by
  have hv : v.toNat < k.versionKey.toNat := by
    rw [← not_le, Number160.le_iff] at h
    exact Nat.not_le.mp h
  subst hc
  rw [← not_le, Number640.le_iff]
  simp only [Number640.toNat, Number480.version, locationAndDomainAndContentKey]
  omega

namespace StorageLayer

open Relation

/-! ### Copying without a limit -/

theorem get_filterCopyLoop_all (keep : Data → Bool) (copy : Data → Data)
    (entries : List (Number640 × Data)) (hnodup : (entries.map Prod.fst).Nodup) (counter : Nat)
    (retVal : NavMap Number640 Data) (k : Number640) :
    (filterCopyLoop keep copy (-1) entries counter retVal).get k =
      match entries.find? fun e => e.1 = k with
      | none => retVal.get k
      | some e => if keep e.2 then some (copy e.2) else retVal.get k := by
  induction entries generalizing counter retVal with
  | nil => rfl
  | cons e rest ih =>
      rw [map_cons, nodup_cons] at hnodup
      have hlimit : ¬ (0 ≤ (-1 : Int) ∧ (-1 : Int) ≤ counter) := by omega
      rw [filterCopyLoop, if_neg hlimit]
      by_cases hk : e.1 = k
      · have hrest : rest.find? (fun e => decide (e.1 = k)) = none := by
          refine find?_eq_none.mpr fun e' he' heq => hnodup.1 ?_
          rw [hk, ← of_decide_eq_true heq]
          exact mem_map_of_mem he'
        have hfirst : (e :: rest).find? (fun e => decide (e.1 = k)) = some e := by
          rw [find?_cons, decide_eq_true hk]
        rw [hfirst]
        by_cases hkeep : keep e.2 = true
        · simp only [if_pos hkeep]
          rw [ih hnodup.2, hrest, ← hk]
          exact get_put_self _ _ _
        · simp only [if_neg hkeep]
          rw [ih hnodup.2, hrest]
      · have hfirst : (e :: rest).find? (fun e => decide (e.1 = k)) =
            rest.find? (fun e => decide (e.1 = k)) := by
          rw [find?_cons, decide_eq_false hk]
        rw [hfirst]
        by_cases hkeep : keep e.2 = true
        · rw [if_pos hkeep, ih hnodup.2, get_put_ne _ _ _ _ (Ne.symm hk)]
        · rw [if_neg hkeep, ih hnodup.2]

/-- A copy without a limit holds the versions that are not prepared. -/
theorem filterCopyOrig_eq (tmp : NavMap Number640 Data) :
    filterCopyOrig tmp (-1) true true = tmp.filter fun _ d => !d.hasPrepareFlag := by
  refine ext_get _ _ fun k => ?_
  have hget : tmp.get k = (tmp.entries.find? fun e => decide (e.1 = k)).map Prod.snd := rfl
  rw [filterCopyOrig, inDirection, if_pos rfl, get_filterCopyLoop_all _ _ _ tmp.nodup_keys,
    get_filter, hget]
  cases tmp.entries.find? fun e => decide (e.1 = k) with
  | none => rfl
  | some e => cases hprepared : e.2.hasPrepareFlag <;> simp [Option.filter, hprepared]

/-! ### The loops -/

/-- The versions a value is based on. -/
def basedOn (content : Number480) (d : Data) : List Number640 :=
  d.basedOnSet.elems.map content.version

theorem deletePredecessors_eq (content : Number480) (fuel : Nat) (toRemove : List Number640)
    (m : NavMap Number640 Data) :
    deletePredecessors content fuel toRemove m = Worklist.sweep (basedOn content) fuel toRemove m := by
  induction fuel generalizing toRemove m with
  | zero => rfl
  | succ fuel ih =>
      cases toRemove with
      | nil => rfl
      | cons key2 toRemove =>
          rw [deletePredecessors, Worklist.sweep]
          cases m.get key2 with
          | none => exact ih toRemove m
          | some version => exact ih _ _

theorem basedOnTotal_eq (content : Number480) (m : NavMap Number640 Data) :
    basedOnTotal m = Worklist.total (basedOn content) m := by
  simp only [basedOnTotal, Worklist.total, basedOn, length_map, HashedSet.size]

/-- The loop of `deletePredecessors` ends. -/
theorem ends_deletePredecessors (content : Number480) (key : Number640) (m : NavMap Number640 Data) :
    Ends (Worklist.step (basedOn content)) ([key], m)
      ([], deletePredecessors content (basedOnTotal m + 1) [key] m) := by
  rw [deletePredecessors_eq, basedOnTotal_eq content]
  exact Worklist.ends_sweep _ _ _ _ (by rw [length_singleton, Nat.add_comm])

/-- An iteration of the computation: the last version is taken, and deleted with its
    predecessors. -/
def latestStep (copy : Data → Data) :
    NavMap Number640 Data × NavMap Number640 Data → Option (NavMap Number640 Data × NavMap Number640 Data)
  | (input, result) =>
      match input.lastEntry with
      | none => none
      | some (key, latest) =>
          some (deletePredecessors key.locationAndDomainAndContentKey (basedOnTotal input + 1) [key] input,
            result.put key (copy latest))

theorem get_lastEntry {m : NavMap Number640 Data} {key : Number640} {d : Data}
    (h : m.lastEntry = some (key, d)) : m.get key = some d :=
  (get_eq_some_iff m key d).mpr (mem_of_getLast? h)

/-- What is deleted with a key: what it leads to in the map. -/
theorem get_deletePredecessors (content : Number480) (key : Number640) (m : NavMap Number640 Data)
    (y : Number640) :
    (Worklist.Found (basedOn content) m [key] y →
        (deletePredecessors content (basedOnTotal m + 1) [key] m).get y = none) ∧
      (¬ Worklist.Found (basedOn content) m [key] y →
        (deletePredecessors content (basedOnTotal m + 1) [key] m).get y = m.get y) :=
  Worklist.get_of_ends (ends_deletePredecessors content key m) y

theorem found_self (content : Number480) {m : NavMap Number640 Data} {key : Number640}
    (h : m.contains key = true) : Worklist.Found (basedOn content) m [key] key :=
  ⟨key, mem_singleton_self key, h, ReflTransGen.refl⟩

/-- With every iteration there is less left. -/
theorem size_deletePredecessors_lt (content : Number480) (m : NavMap Number640 Data) {key : Number640}
    (h : m.contains key = true) :
    (deletePredecessors content (basedOnTotal m + 1) [key] m).size < m.size := by
  have hkey := (mem_keys_iff m key).mpr h
  have hsub : (deletePredecessors content (basedOnTotal m + 1) [key] m).keys ⊆ m.keys.erase key := by
    intro y hy
    obtain ⟨d, hd⟩ := (contains_iff _ y).mp ((mem_keys_iff _ y).mp hy)
    have hne : y ≠ key := by
      rintro rfl
      rw [(get_deletePredecessors content y m y).1 (found_self content h)] at hd
      cases hd
    refine (mem_erase_of_ne hne).mpr ((mem_keys_iff m y).mpr ?_)
    by_cases hfound : Worklist.Found (basedOn content) m [key] y
    · rw [(get_deletePredecessors content key m y).1 hfound] at hd
      cases hd
    · rw [(get_deletePredecessors content key m y).2 hfound] at hd
      exact (contains_iff m y).mpr ⟨d, hd⟩
  have hle := (nodup_keys _).subperm hsub |>.length_le
  have hpos : 0 < m.keys.length := length_pos_of_mem hkey
  rw [length_erase_of_mem hkey] at hle
  rw [NavMap.size, NavMap.size, ← length_map (f := Prod.fst), ← length_map (f := Prod.fst)]
  exact Nat.lt_of_le_of_lt hle (Nat.sub_lt hpos Nat.one_pos)

/-- The computation ends. -/
theorem ends_latestLoop (copy : Data → Data) (fuel : Nat) (input result : NavMap Number640 Data)
    (h : input.size ≤ fuel) :
    ∃ empty, empty.lastEntry = none ∧
      Ends (latestStep copy) (input, result) (empty, latestLoop copy fuel input result) := by
  induction fuel generalizing input result with
  | zero =>
      have hnil : input.entries = [] := length_eq_zero_iff.mp (Nat.le_zero.mp h)
      have hlast : input.lastEntry = none := by rw [NavMap.lastEntry, hnil, getLast?_nil]
      refine ⟨input, hlast, Ends.stop ?_⟩
      simp only [latestStep, hlast]
  | succ fuel ih =>
      rw [latestLoop]
      rcases hlast : input.lastEntry with _ | ⟨key, latest⟩
      · refine ⟨input, hlast, Ends.stop ?_⟩
        simp only [latestStep, hlast]
      · have hin : input.contains key = true := (contains_iff _ _).mpr ⟨latest, get_lastEntry hlast⟩
        have hlt := size_deletePredecessors_lt key.locationAndDomainAndContentKey input hin
        obtain ⟨empty, hempty, hends⟩ := ih
          (deletePredecessors key.locationAndDomainAndContentKey (basedOnTotal input + 1) [key] input)
          (result.put key (copy latest)) (by omega)
        refine ⟨empty, hempty, Ends.next ?_ hends⟩
        simp only [latestStep, hlast]

/-! ### What is returned -/

/-- The versions of a content that are not prepared. -/
def unprepared (m : StorageMemory) (content : Number480) : NavMap Number640 Data :=
  (m.versions content).filter fun _ d => !d.hasPrepareFlag

/-- A stored version leads to a stored version it is based on. -/
def Based (V : NavMap Number640 Data) (content : Number480) : Number640 → Number640 → Prop :=
  Worklist.Follows (basedOn content) V

theorem content_of_unprepared {m : StorageMemory} {content : Number480} {k : Number640} {d : Data}
    (h : (unprepared m content).get k = some d) : k.locationAndDomainAndContentKey = content := by
  rw [unprepared, get_filter, Option.filter_eq_some_iff, StorageMemory.get_versions] at h
  by_contra hne
  rw [if_neg hne] at h
  cases h.1

section Peeling

variable {V input result : NavMap Number640 Data} {content : Number480} {copy : Data → Data}

/-- What is left is a part of the versions, what was taken are copies of versions, and
    together they are all there is: a version is gone if and only if one that was taken
    leads to it. -/
structure Peeled (V : NavMap Number640 Data) (content : Number480) (copy : Data → Data)
    (input result : NavMap Number640 Data) : Prop where
  sub : ∀ k d, input.get k = some d → V.get k = some d
  taken : ∀ k e, result.get k = some e → ∃ d, V.get k = some d ∧ e = copy d
  covered : ∀ k, V.contains k = true → input.contains k = true ∨
    ∃ y, result.contains y = true ∧ ReflTransGen (Based V content) y k
  closed : ∀ y k, result.contains y = true → ReflTransGen (Based V content) y k →
    ¬ input.contains k = true

namespace Peeled

theorem contains_of_input (h : Peeled V content copy input result) {k : Number640}
    (hk : input.contains k = true) : V.contains k = true := by
  obtain ⟨d, hd⟩ := (contains_iff input k).mp hk
  exact (contains_iff V k).mpr ⟨d, h.sub k d hd⟩

/-- Paths between versions that are left do not leave them. -/
theorem found_iff (h : Peeled V content copy input result) {key : Number640}
    (hkey : input.contains key = true) (y : Number640) :
    Worklist.Found (basedOn content) input [key] y ↔
      input.contains y = true ∧ ReflTransGen (Based V content) key y := by
  constructor
  · rintro ⟨x, hx, _, hpath⟩
    rw [mem_singleton.mp hx] at hpath
    refine ⟨?_, ?_⟩
    · cases hpath with
      | refl => exact hkey
      | tail _ hstep => exact hstep.choose_spec.2.2
    · refine ReflTransGen.mono ?_ key y hpath
      rintro a b ⟨d, hd, hb, hin⟩
      exact ⟨d, h.sub a d hd, hb, h.contains_of_input hin⟩
  · rintro ⟨hin, hpath⟩
    refine ⟨key, mem_singleton_self key, hkey, ?_⟩
    induction hpath with
    | refl => exact ReflTransGen.refl
    | @tail z w hpath hstep ih =>
        have hbased : Based V content z w := hstep
        obtain ⟨d, hd, hw, _⟩ := hstep
        -- The version before the last one is left, or the last one would be gone.
        have hz : input.contains z = true := by
          rcases h.covered z ((contains_iff V z).mpr ⟨d, hd⟩) with hz | ⟨r, hr, hreach⟩
          · exact hz
          · exact absurd hin (h.closed r w hr (hreach.tail hbased))
        obtain ⟨e, he⟩ := (contains_iff input z).mp hz
        have hsame : e = d := by
          have hV := h.sub z e he
          rw [hd, Option.some.injEq] at hV
          exact hV.symm
        subst hsame
        exact (ih hz).tail ⟨e, he, hw, hin⟩

theorem start (V : NavMap Number640 Data) (content : Number480) (copy : Data → Data) :
    Peeled V content copy V .empty where
  sub _ _ h := h
  taken _ _ h := by cases h
  covered _ h := .inl h
  closed _ _ h := by cases h

/-- An iteration moves the last version to the result and everything it leads to out
    of what is left. -/
theorem next (h : Peeled V content copy input result) {key : Number640} {latest : Data}
    (hlast : input.lastEntry = some (key, latest)) :
    Peeled V content copy (deletePredecessors content (basedOnTotal input + 1) [key] input)
      (result.put key (copy latest)) := by
  have hget := get_lastEntry hlast
  have hkey : input.contains key = true := (contains_iff _ _).mpr ⟨latest, hget⟩
  have hdelete := get_deletePredecessors content key input
  have hresult (y : Number640) : (result.put key (copy latest)).contains y = true ↔
      y = key ∨ result.contains y = true := by
    rw [NavMap.contains, get_put, NavMap.contains]
    by_cases hy : y = key
    · simp [hy]
    · simp [hy]
  -- What is deleted is what the head reaches by its predecessors.
  have hleft (y : Number640) :
      (deletePredecessors content (basedOnTotal input + 1) [key] input).contains y = true ↔
        input.contains y = true ∧ ¬ ReflTransGen (Based V content) key y := by
    by_cases hfound : Worklist.Found (basedOn content) input [key] y
    · have hreach := ((h.found_iff hkey y).mp hfound).2
      rw [NavMap.contains, (hdelete y).1 hfound]
      simp [hreach]
    · rw [NavMap.contains, (hdelete y).2 hfound, ← NavMap.contains]
      have hnot := mt (h.found_iff hkey y).mpr hfound
      exact ⟨fun hin => ⟨hin, fun hreach => hnot ⟨hin, hreach⟩⟩, And.left⟩
  refine ⟨?_, ?_, ?_, ?_⟩
  · intro k d hd
    have hin := ((hleft k).mp ((contains_iff _ k).mpr ⟨d, hd⟩))
    have hfound : ¬ Worklist.Found (basedOn content) input [key] k :=
      fun hf => hin.2 ((h.found_iff hkey k).mp hf).2
    rw [(hdelete k).2 hfound] at hd
    exact h.sub k d hd
  · intro k e he
    rw [get_put] at he
    by_cases hk : k = key
    · rw [if_pos hk, Option.some.injEq] at he
      exact ⟨latest, hk ▸ h.sub key latest hget, he.symm⟩
    · rw [if_neg hk] at he
      exact h.taken k e he
  · intro k hk
    rcases h.covered k hk with hin | ⟨y, hy, hreach⟩
    · by_cases hreach : ReflTransGen (Based V content) key k
      · exact .inr ⟨key, (hresult key).mpr (.inl rfl), hreach⟩
      · exact .inl ((hleft k).mpr ⟨hin, hreach⟩)
    · exact .inr ⟨y, (hresult y).mpr (.inr hy), hreach⟩
  · intro y k hy hreach hin
    obtain ⟨hin, hnot⟩ := (hleft k).mp hin
    rcases (hresult y).mp hy with rfl | hy
    · exact hnot hreach
    · exact h.closed y k hy hreach hin

end Peeled

/-- Based-on keys are smaller than the keys that name them. -/
def Decreasing (V : NavMap Number640 Data) : Prop :=
  ∀ k d, V.get k = some d → ∀ b ∈ d.basedOnSet.elems, b < k.versionKey

/-- No version leads to one that was taken. -/
def Unreached (V : NavMap Number640 Data) (content : Number480) (result : NavMap Number640 Data) : Prop :=
  ∀ k, result.contains k = true → ∀ y, ¬ TransGen (Based V content) y k

theorem Decreasing.lt (h : Decreasing V) (hcontent : ∀ k d, V.get k = some d →
      k.locationAndDomainAndContentKey = content) {x y : Number640} (hxy : TransGen (Based V content) x y) :
    y < x := by
  have hstep (a b : Number640) (hab : Based V content a b) : b < a := by
    obtain ⟨d, hd, hb, _⟩ := hab
    obtain ⟨v, hv, rfl⟩ := mem_map.mp hb
    exact Number640.version_lt (hcontent a d hd) (h a d hd v hv)
  induction hxy with
  | single hab => exact hstep _ _ hab
  | tail _ hab ih => exact lt_trans (hstep _ _ hab) ih

/-- The last version that is left is reached by none, since the larger ones are gone
    with all they lead to. -/
theorem Unreached.next (hpeeled : Peeled V content copy input result) (hdec : Decreasing V)
    (hcontent : ∀ k d, V.get k = some d → k.locationAndDomainAndContentKey = content)
    (h : Unreached V content result) {key : Number640} {latest : Data}
    (hlast : input.lastEntry = some (key, latest)) :
    Unreached V content (result.put key (copy latest)) := by
  intro k hk y hpath
  rw [NavMap.contains, get_put] at hk
  by_cases hne : k = key
  · subst hne
    have hlt := hdec.lt hcontent hpath
    have hy : V.contains y = true := by
      obtain ⟨z, hz, _⟩ := TransGen.head'_iff.mp hpath
      obtain ⟨d, hd, _⟩ := hz
      exact (contains_iff V y).mpr ⟨d, hd⟩
    rcases hpeeled.covered y hy with hin | ⟨r, hr, hreach⟩
    · obtain ⟨d, hd⟩ := (contains_iff input y).mp hin
      have hle := le_lastEntry hlast ((get_eq_some_iff _ _ _).mp hd)
      exact absurd hlt (not_lt.mpr hle)
    · exact hpeeled.closed r k hr (hreach.trans hpath.to_reflTransGen)
        ((contains_iff _ _).mpr ⟨latest, get_lastEntry hlast⟩)
  · rw [if_neg hne] at hk
    exact h k hk y hpath

/-- The computation runs until nothing is left. -/
theorem Peeled.latestLoop (hcontent : ∀ k d, V.get k = some d → k.locationAndDomainAndContentKey = content)
    (fuel : Nat) (h : Peeled V content copy input result) (hfuel : input.size ≤ fuel) :
    Peeled V content copy .empty (latestLoop copy fuel input result) ∧
      (Decreasing V → Unreached V content result →
        Unreached V content (latestLoop copy fuel input result)) := by
  induction fuel generalizing input result with
  | zero =>
      have hempty : input = .empty := by
        refine ext_get _ _ fun k => ?_
        have hnil : input.entries = [] := length_eq_zero_iff.mp (Nat.le_zero.mp hfuel)
        rw [NavMap.get, hnil]
        rfl
      subst hempty
      exact ⟨h, fun _ hun => hun⟩
  | succ fuel ih =>
      rw [StorageLayer.latestLoop]
      rcases hlast : input.lastEntry with _ | ⟨key, latest⟩
      · have hnil : input.entries = [] := getLast?_eq_none_iff.mp hlast
        have hempty : input = .empty := by
          refine ext_get _ _ fun k => ?_
          rw [NavMap.get, hnil]
          rfl
        subst hempty
        exact ⟨h, fun _ hun => hun⟩
      · have hget := get_lastEntry hlast
        have hin : input.contains key = true := (contains_iff _ _).mpr ⟨latest, hget⟩
        have hkey := hcontent key latest (h.sub key latest hget)
        have hlt := size_deletePredecessors_lt content input hin
        simp only [hkey]
        obtain ⟨hpeeled, hunreached⟩ := ih (h.next hlast) (by omega)
        exact ⟨hpeeled, fun hdec hun => hunreached hdec (hun.next h hdec hcontent hlast)⟩

end Peeling

/-- The computation ends. Every version that can be seen is returned or reached from
    one that is. If based-on keys are smaller than the keys that name them, the
    versions returned are those that no other leads to. -/
theorem getLatestVersion_heads (m : StorageMemory) (key : Number640) :
    ∃ result, getLatestVersion m key = .ok result ∧
      (∃ empty, empty.lastEntry = none ∧ Ends (latestStep Data.duplicate)
        (unprepared m key.locationAndDomainAndContentKey, .empty) (empty, result)) ∧
      (∀ content k V, Ends (Worklist.step (basedOn content)) ([k], V)
        ([], deletePredecessors content (basedOnTotal V + 1) [k] V)) ∧
      (∀ k e, result.get k = some e →
        ∃ d, (unprepared m key.locationAndDomainAndContentKey).get k = some d ∧ e = d.duplicate) ∧
      (∀ k, (unprepared m key.locationAndDomainAndContentKey).contains k = true →
        result.contains k = true ∨ ∃ y, result.contains y = true ∧
          TransGen (Based (unprepared m key.locationAndDomainAndContentKey)
            key.locationAndDomainAndContentKey) y k) ∧
      (Decreasing (unprepared m key.locationAndDomainAndContentKey) → ∀ k,
        result.contains k = true ↔
          (unprepared m key.locationAndDomainAndContentKey).contains k = true ∧
          ¬ ∃ y, y ≠ k ∧ TransGen (Based (unprepared m key.locationAndDomainAndContentKey)
            key.locationAndDomainAndContentKey) y k) := by
  have hresult : getLatestVersion m key =
      .ok (getLatestInternal (unprepared m key.locationAndDomainAndContentKey)) := by
    have hsub : m.subMap key.minVersionKey key.maxVersionKey =
        .ok (m.versions key.locationAndDomainAndContentKey) :=
      m.subMap_versions key.locationAndDomainAndContentKey
    rw [getLatestVersion, hsub]
    change Except.ok (getLatestInternal (filterCopyOrig _ (-1) true true)) = _
    rw [filterCopyOrig_eq]
    rfl
  -- The invariant of the loop, from the start to an empty input.
  obtain ⟨hpeeled, hunreached⟩ :=
    (Peeled.start (unprepared m key.locationAndDomainAndContentKey) key.locationAndDomainAndContentKey
      Data.duplicate).latestLoop (fun k d h => content_of_unprepared h) _ (Nat.le_refl _)
  have hcovered (k : Number640)
      (hk : (unprepared m key.locationAndDomainAndContentKey).contains k = true) :
      (getLatestInternal (unprepared m key.locationAndDomainAndContentKey)).contains k = true ∨
        ∃ y, (getLatestInternal (unprepared m key.locationAndDomainAndContentKey)).contains y = true ∧
          TransGen (Based (unprepared m key.locationAndDomainAndContentKey)
            key.locationAndDomainAndContentKey) y k := by
    obtain ⟨y, hy, hreach⟩ := (hpeeled.covered k hk).resolve_left (by
      intro h
      cases h)
    rcases reflTransGen_iff_eq_or_transGen.mp hreach with rfl | hpath
    · exact .inl hy
    · exact .inr ⟨y, hy, hpath⟩
  refine ⟨_, hresult, ends_latestLoop _ _ _ _ (Nat.le_refl _),
    fun content k V => ends_deletePredecessors content k V, hpeeled.taken, hcovered, ?_⟩
  -- Where versions go up along the predecessors, no result reaches another.
  intro hdec k
  have hun := hunreached hdec (fun k hk => by cases hk)
  constructor
  · intro hk
    obtain ⟨e, he⟩ := (contains_iff _ k).mp hk
    obtain ⟨d, hd, _⟩ := hpeeled.taken k e he
    exact ⟨(contains_iff _ k).mpr ⟨d, hd⟩, fun ⟨y, _, hpath⟩ => hun k hk y hpath⟩
  · rintro ⟨hk, hnone⟩
    rcases hcovered k hk with hin | ⟨y, hy, hpath⟩
    · exact hin
    · by_cases hne : y = k
      · exact hne ▸ hy
      · exact absurd ⟨y, hne, hpath⟩ hnone

end StorageLayer

end TomP2P
