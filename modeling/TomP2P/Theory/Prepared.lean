import TomP2P.Core.StorageRead

/-!
# Prepared Values are Invisible

A value written with the prepare flag is held back from readers until it is
confirmed.

That no reader sees it is a statement about two runs: stores that differ only
in prepared values answer every read alike. It is more than saying that no
answer contains one, since a prepared value could also be noticed by what it
does to the rest, by using up the limit or by standing in front of an older
version. The argument is that each read is a function of `visible`, the stored
map without its prepared entries, and that map is the same for both stores.

## Main definitions

* `visible`: The stored map without its prepared entries.
* `SameVisible`: Two stores that agree on all entries without the flag.

## Theorems

* `filterCopyLoop_filter`: The copying loop never looks past an entry it skips.
* `visible_eq_of_sameVisible`: Agreement on unprepared entries is equality of
  the visible maps.
* `answer_eq_of_sameVisible`: Such stores answer every read alike.
* `sameVisible_put_prepared`: Writing a prepared value under a free key.
-/

namespace TomP2P

open NavMap

namespace StorageLayer

/-- The stored map without its prepared entries. -/
def visible (m : StorageMemory) : NavMap Number640 Data :=
  m.dataMap.filter fun _ d => !d.hasPrepareFlag

/-- The stores agree on all entries without the prepare flag, and may differ in
    any way in the others. -/
def SameVisible (m m' : StorageMemory) : Prop :=
  ∀ k d, d.hasPrepareFlag = false → (m.get k = some d ↔ m'.get k = some d)

theorem visible_eq_of_sameVisible (m m' : StorageMemory) (h : SameVisible m m') :
    visible m = visible m' := by
  apply ext_get
  intro k
  rw [visible, visible, get_filter, get_filter]
  apply Option.ext
  intro d
  simp only [Option.filter_eq_some_iff, Bool.not_eq_true']
  refine ⟨?_, ?_⟩
  · intro hd
    exact ⟨(h k d hd.2).mp hd.1, hd.2⟩
  · intro hd
    exact ⟨(h k d hd.2).mpr hd.1, hd.2⟩

/-- The copying loop does the same on the entries it keeps: a skipped entry
    neither enters the result nor counts against the limit. -/
theorem filterCopyLoop_filter (keep : Data → Bool) (copy : Data → Data) (limit : Int)
    (entries : List (Number640 × Data)) (counter : Nat) (retVal : NavMap Number640 Data) :
    filterCopyLoop keep copy limit entries counter retVal =
      filterCopyLoop keep copy limit (entries.filter fun e => keep e.2) counter retVal := by
  induction entries generalizing counter retVal with
  | nil => rfl
  | cons e rest ih =>
      by_cases hk : keep e.2 = true
      · rw [List.filter_cons_of_pos (by exact hk)]
        unfold filterCopyLoop
        rw [if_pos hk, if_pos hk]
        by_cases hl : 0 ≤ limit ∧ limit ≤ counter
        · rw [if_pos hl, if_pos hl]
        · rw [if_neg hl, if_neg hl]
          exact ih _ _
      · rw [List.filter_cons_of_neg (by exact hk), filterCopyLoop, if_neg hk]
        exact ih _ _

/-- So the loop is a function of the entries it keeps, in either direction. -/
theorem filterCopyLoop_inDirection (keep : Data → Bool) (copy : Data → Data) (limit : Int)
    (tmp : NavMap Number640 Data) (ascending : Bool) :
    filterCopyLoop keep copy limit (inDirection tmp ascending) 0 .empty =
      filterCopyLoop keep copy limit (inDirection (tmp.filter fun _ d => keep d) ascending) 0
        .empty := by
  have hdir : (inDirection tmp ascending).filter (fun e => keep e.2) =
      inDirection (tmp.filter fun _ d => keep d) ascending := by
    unfold inDirection
    rcases ascending with _ | _
    · simp only [Bool.false_eq_true, if_false, List.filter_reverse, NavMap.filter]
    · simp only [if_true, NavMap.filter]
  rw [filterCopyLoop_filter, hdir]

theorem filterCopy_visible (tmp : NavMap Number640 Data) (limit : Int) (ascending : Bool) :
    filterCopy tmp limit ascending =
      filterCopy (tmp.filter fun _ d => !d.hasPrepareFlag) limit ascending :=
  filterCopyLoop_inDirection _ _ limit tmp ascending

theorem filterCopyOrig_visible (tmp : NavMap Number640 Data) (limit : Int) (ascending : Bool) :
    filterCopyOrig tmp limit ascending true =
      filterCopyOrig (tmp.filter fun _ d => !d.hasPrepareFlag) limit ascending true :=
  filterCopyLoop_inDirection _ _ limit tmp ascending

/-- A range of the store and the same range of its visible entries. -/
theorem subMap_visible (m m' : StorageMemory) (h : visible m = visible m')
    (fromKey toKey : Number640) :
    (m.dataMap.subMap fromKey toKey).filter (fun _ d => !d.hasPrepareFlag) =
      (m'.dataMap.subMap fromKey toKey).filter (fun _ d => !d.hasPrepareFlag) := by
  apply ext_get
  intro k
  have hk : (visible m).get k = (visible m').get k := by rw [h]
  rw [visible, visible, get_filter, get_filter] at hk
  rw [get_filter, get_filter, get_subMap, get_subMap]
  by_cases hr : fromKey ≤ k ∧ k ≤ toKey
  · rw [if_pos hr, if_pos hr]
    exact hk
  · rw [if_neg hr, if_neg hr]

/-- A read that copies a range answers alike on stores with the same visible
    entries, whatever it does with the copy. -/
theorem range_eq_of_visible {α : Type} (m m' : StorageMemory) (h : visible m = visible m')
    (fromKey toKey : Number640) (f : NavMap Number640 Data → α)
    (hf : ∀ tmp, f tmp = f (tmp.filter fun _ d => !d.hasPrepareFlag)) :
    (do let tmp ← m.subMap fromKey toKey; return f tmp : Except JavaException α) =
      (do let tmp ← m'.subMap fromKey toKey; return f tmp) := by
  unfold StorageMemory.subMap
  by_cases hr : toKey < fromKey
  · rw [if_pos hr, if_pos hr]
  · rw [if_neg hr, if_neg hr]
    have heq : f (m.dataMap.subMap fromKey toKey) = f (m'.dataMap.subMap fromKey toKey) := by
      rw [hf, subMap_visible m m' h, ← hf]
    exact congrArg Except.ok heq

theorem getInternal_eq (m : StorageMemory) (key : Number640) :
    getInternal m key = (visible m).get key := by
  rw [visible, get_filter, getInternal, StorageMemory.get]
  rcases m.dataMap.get key with _ | d
  · rfl
  · rw [Option.filter_some]

/-- A key contributes to the digest of a collection exactly if it is visible. -/
theorem digestCollection_eq (m : StorageMemory) (number640s : List Number640) :
    digestCollection m number640s = number640s.foldl (fun digestInfo number640 =>
      match (visible m).get number640 with
      | none => digestInfo
      | some data => digestInfo.put number640 data.basedOnSet) .empty := by
  unfold digestCollection
  congr 1
  funext digestInfo number640
  rw [← getInternal_eq]
  by_cases hc : m.contains number640 = true
  · exact if_pos hc
  · rw [if_neg hc]
    have hnone : m.get number640 = none := by
      rw [StorageMemory.contains, NavMap.contains, Bool.not_eq_true, Option.isSome_eq_false_iff,
        Option.isNone_iff_eq_none] at hc
      exact hc
    rw [getInternal, hnone]

/-- **Prepared values are invisible.** Stores that agree on all entries without
    the prepare flag give the same answer to every read, whatever its range,
    limit and direction. -/
theorem answer_eq_of_sameVisible (m m' : StorageMemory) (h : SameVisible m m') (r : StorageRead) :
    r.answer m = r.answer m' := by
  have hv : visible m = visible m' := visible_eq_of_sameVisible m m' h
  cases r with
  | get key =>
      simp only [StorageRead.answer, get, getInternal_eq, hv]
  | getRange fromKey toKey limit ascending =>
      exact congrArg (StorageReply.map <$> ·) (range_eq_of_visible m m' hv fromKey toKey _
        fun tmp => filterCopy_visible tmp limit ascending)
  | getBloom fromKey toKey f1 f2 f3 limit ascending isBloomFilterAnd =>
      refine congrArg (StorageReply.map <$> ·) (range_eq_of_visible m m' hv fromKey toKey _ ?_)
      intro tmp
      exact congrArg (NavMap.filter · _) (filterCopy_visible tmp limit ascending)
  | getAll =>
      simp only [StorageRead.answer, getAll]
      rw [filterCopy_visible, filterCopy_visible m'.dataMap]
      exact congrArg (fun v => Except.ok (StorageReply.map (filterCopy v (-1) true))) hv
  | getLatestVersion key =>
      refine congrArg (StorageReply.map <$> ·) (range_eq_of_visible m m' hv _ _ _ ?_)
      intro tmp
      exact congrArg getLatestInternal (filterCopyOrig_visible tmp (-1) true)
  | digestRange fromKey toKey limit ascending =>
      refine congrArg (StorageReply.digest <$> ·) (range_eq_of_visible m m' hv fromKey toKey _ ?_)
      intro tmp
      exact congrArg (digestOf · _) (filterCopyOrig_visible tmp limit ascending)
  | digestBloom locationAndDomainKey f1 f2 limit ascending isBloomFilterAnd =>
      refine congrArg (StorageReply.digest <$> ·) (range_eq_of_visible m m' hv _ _ _ ?_)
      intro tmp
      exact congrArg (digestOf · _) (filterCopyOrig_visible tmp limit ascending)
  | digestCollection number640s =>
      simp only [StorageRead.answer, digestCollection_eq, hv]

/-- Writing a prepared value where no visible one stands is not seen. -/
theorem sameVisible_put_prepared (m : StorageMemory) (key : Number640) (d : Data)
    (hd : d.hasPrepareFlag = true) (hfree : m.get key = none) : SameVisible m (m.put key d) := by
  intro k d' hd'
  rw [StorageMemory.get, StorageMemory.get, StorageMemory.put_dataMap, get_put]
  by_cases hk : k = key
  · subst hk
    rw [if_pos rfl, ← StorageMemory.get, hfree]
    refine ⟨by rintro ⟨⟩, ?_⟩
    intro h
    rw [Option.some.injEq] at h
    rw [← h, hd] at hd'
    exact absurd hd' (by simp only [Bool.true_eq_false, not_false_eq_true])
  · rw [if_neg hk]

/-- A prepared second version leaves the first one the latest. -/
theorem answer_getLatestVersion_prepared :
    let first : Number640 := ⟨1, 2, 3, 1⟩
    let second : Number640 := ⟨1, 2, 3, 2⟩
    let old := Data.new [7#8] 0
    let prepared := { Data.new [8#8] 0 with
      prepareFlag := true, basedOnFlag := true, basedOnSet := HashedSet.ofList [1] }
    let m := StorageMemory.put {} first old
    SameVisible m (m.put second prepared) ∧
      (StorageRead.getLatestVersion second).answer (m.put second prepared) =
        .ok (.map (NavMap.empty.put first old)) := by
  intro first second old prepared m
  have hsame : SameVisible m (m.put second prepared) :=
    sameVisible_put_prepared m second prepared rfl (by decide +kernel)
  refine ⟨hsame, ?_⟩
  rw [← answer_eq_of_sameVisible m (m.put second prepared) hsame]
  decide +kernel

end StorageLayer

end TomP2P
