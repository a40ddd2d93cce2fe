import TomP2P.Theory.Removal
import TomP2P.Foundation.InStep

/-!
# The Two Removals of a Range

`removeReturnData` asks three things before it removes a value: the domain, the entry, and
whether the value names another author than the message. `removeReturnStatus` leaves a key
to `remove`, which asks the first two.

Without a value of another author among those that may be claimed, the two are in step: a
pass for one key leaves the same store, and has a value to answer exactly if the other has
the status `OK` (`pass_inStep`). One such value in the range is enough to tell them apart,
as it is removed by one of them and kept by the other.

## Main definitions

* `RangesAgree`: Both removals throw, or their stores and their answers agree.

## Theorems

* `pass_inStep`: One key.
* `rangesAgree_iff`: The removals agree exactly if no value that may be claimed names
  another author.
-/

namespace TomP2P

open Effect

namespace StorageLayer

variable {sl : StorageLayer} {publicKey : Option PublicKey} {m : StorageMemory}
  {fromKey toKey : Number640}

/-- The values of one answer are those that were stored under the keys to which the other
    answer gives `OK`. -/
def AnswersAgree (m : StorageMemory) (datas : NavMap Number640 (Option Data))
    (statuses : NavMap Number640 Wire.Byte) : Prop :=
  ∀ k, (statuses.get k = some PutStatus.OK.ordinal ↔ ∃ d, datas.get k = some (some d)) ∧
    ∀ d, datas.get k = some (some d) → m.get k = some d

/-- Both removals throw and leave the same store, or both return, leave the same store and
    have answers that agree. -/
def RangesAgree (sl : StorageLayer) (publicKey : Option PublicKey) (fromKey toKey : Number640)
    (m : StorageMemory) : Prop :=
  Effect.InStep (fun datas m₁ statuses m₂ => m₁ = m₂ ∧ AnswersAgree m datas statuses)
    (fun m₁ m₂ => m₁ = m₂) (sl.removeReturnData fromKey toKey publicKey)
    (sl.removeReturnStatus fromKey toKey publicKey) m m

-- The answers

theorem answersAgree_empty (m : StorageMemory) : AnswersAgree m .empty .empty := by
  intro k
  simp

/-- A value beside the status `OK`. -/
theorem AnswersAgree.put_ok {datas : NavMap Number640 (Option Data)}
    {statuses : NavMap Number640 Wire.Byte} (h : AnswersAgree m datas statuses) {key : Number640}
    {d : Data} (hd : m.get key = some d) :
    AnswersAgree m (datas.put key (some d)) (statuses.put key PutStatus.OK.ordinal) := by
  intro k
  rw [NavMap.get_put, NavMap.get_put]
  by_cases hk : k = key
  · subst hk
    simp [hd]
  · rw [if_neg hk, if_neg hk]
    exact h k

/-- No value beside another status. -/
theorem AnswersAgree.put_refused {datas : NavMap Number640 (Option Data)}
    {statuses : NavMap Number640 Wire.Byte} (h : AnswersAgree m datas statuses) (key : Number640) :
    AnswersAgree m (datas.put key none) (statuses.put key PutStatus.FAILED_SECURITY.ordinal) := by
  intro k
  rw [NavMap.get_put, NavMap.get_put]
  by_cases hk : k = key
  · subst hk
    simp [PutStatus.ordinal]
  · rw [if_neg hk, if_neg hk]
    exact h k

-- One key

/-- What holds between two passes: the stores are the same, and the keys that are still to
    come are stored as they were, without a value of another author that may be claimed. -/
structure InRange (sl : StorageLayer) (publicKey : Option PublicKey) (m : StorageMemory)
    (rest : List Number640) (datas : NavMap Number640 (Option Data)) (s : StorageMemory)
    (statuses : NavMap Number640 Wire.Byte) (t : StorageMemory) : Prop where
  same : s = t
  nodup : rest.Nodup
  answers : AnswersAgree m datas statuses
  effects : ∃ gone : Number640 → Prop, Effects m s gone ∧ ∀ k ∈ rest, ¬gone k
  stored : ∀ k ∈ rest, (m.get k).isSome = true
  author : ∀ k ∈ rest, sl.claimable m publicKey k = true → ByAuthor publicKey m k

theorem pass_inStep (key : Number640) (rest : List Number640)
    (datas : NavMap Number640 (Option Data)) (s : StorageMemory)
    (statuses : NavMap Number640 Wire.Byte) (t : StorageMemory)
    (h : InRange sl publicKey m (key :: rest) datas s statuses t) :
    Effect.InStep (InRange sl publicKey m rest) (fun m₁ m₂ => m₁ = m₂)
      (sl.removeData publicKey key datas)
      ((fun pair => statuses.put key pair.2.ordinal) <$> sl.remove key publicKey false) s t := by
  have hnodup := List.nodup_cons.mp h.nodup
  have hsame := h.same
  subst hsame
  rcases h.effects with ⟨gone, heffects, hrest⟩
  rcases Option.isSome_iff_exists.mp (h.stored key List.mem_cons_self) with ⟨d, hd⟩
  have hds : s.get key = some d := by
    rw [heffects.kept key (hrest key List.mem_cons_self), hd]
  have hcontains : s.contains key = true := by
    change (s.get key).isSome = true
    rw [hds, Option.isSome_some]
  -- A pass that removes nothing.
  have hkept (datas' : NavMap Number640 (Option Data)) (statuses' : NavMap Number640 Wire.Byte)
      (hanswers : AnswersAgree m datas' statuses') :
      InRange sl publicKey m rest datas' s statuses' s :=
    ⟨rfl, hnodup.2, hanswers, ⟨gone, heffects, fun k hk => hrest k (List.mem_cons_of_mem _ hk)⟩,
      fun k hk => h.stored k (List.mem_cons_of_mem _ hk),
      fun k hk => h.author k (List.mem_cons_of_mem _ hk)⟩
  have hclaimable : sl.claimable s publicKey key = sl.claimable m publicKey key :=
    claimable_congr heffects
  unfold Effect.InStep
  rw [removeData_eq, map_apply, remove_eq]
  rcases hgrants : sl.grants s publicKey key with e | _ | _
  · rfl
  · exact hkept _ _ (h.answers.put_refused key)
  rw [claimable_of_grants hgrants] at hclaimable
  rcases h.author key List.mem_cons_self hclaimable.symm with ⟨d', hd', hauthor⟩
  rw [hd, Option.some.injEq] at hd'
  subst hd'
  rw [hds]
  dsimp only
  rw [if_pos hcontains, if_pos hauthor]
  -- Both remove the key from the same store.
  refine ⟨rfl, hnodup.2, h.answers.put_ok hd, ⟨_, heffects.trans (effects_drop s key), ?_⟩,
    fun k hk => h.stored k (List.mem_cons_of_mem _ hk),
    fun k hk => h.author k (List.mem_cons_of_mem _ hk)⟩
  rintro k hk (hgone | rfl)
  · exact hrest k (List.mem_cons_of_mem _ hk) hgone
  · exact hnodup.1 hk

-- The whole range

/-- Without another author in the range the removals agree. -/
theorem rangesAgree_of_authors
    (hauthor : ∀ k, fromKey ≤ k → k ≤ toKey → (m.get k).isSome = true →
      sl.claimable m publicKey k = true → ByAuthor publicKey m k) :
    RangesAgree sl publicKey fromKey toKey m := by
  unfold RangesAgree
  rcases hsub : m.subMap fromKey toKey with e | tmp
  · unfold Effect.InStep
    rw [(removeReturn_error hsub).1, (removeReturn_error hsub).2]
  · have hmem := mem_range hsub
    have hloop := foldlM_inStep (E := Eq) (InRange sl publicKey m)
      (fun result key => sl.removeData publicKey key result)
      (fun result key => (fun pair => result.put key pair.2.ordinal) <$> sl.remove key publicKey false)
      pass_inStep tmp.keys .empty .empty m m
      ⟨rfl, tmp.nodup_keys, answersAgree_empty m,
        ⟨fun _ => False, Effects.refl m, fun _ _ => id⟩, fun k hk => ((hmem k).mp hk).1,
        fun k hk => hauthor k ((hmem k).mp hk).2.1 ((hmem k).mp hk).2.2 ((hmem k).mp hk).1⟩
    rw [inStep_congr (removeReturnData_eq hsub) (removeReturnStatus_eq hsub)]
    exact hloop.mono fun _ _ _ _ h => ⟨h.same, h.answers⟩

/-- Another author is enough to tell the removals apart. -/
theorem not_rangesAgree {k : Number640} (hrange : fromKey ≤ k ∧ k ≤ toKey)
    (hstored : (m.get k).isSome = true) (hclaim : sl.claimable m publicKey k = true)
    (hother : ¬ByAuthor publicKey m k) : ¬RangesAgree sl publicKey fromKey toKey m := by
  have hthrows : ¬sl.Throws publicKey := by
    intro h
    rcases canClaimDomain_error h m k.locationAndDomainKey with ⟨e, he⟩
    rw [claimable, he] at hclaim
    simp at hclaim
  rcases hsub : m.subMap fromKey toKey with e | tmp
  · -- The ends of the range are in order, as there is a key between them.
    unfold StorageMemory.subMap at hsub
    split at hsub
    · rename_i hlt
      exact absurd (hrange.1.trans hrange.2) (not_le.mpr hlt)
    · simp at hsub
  · have hmem := mem_range hsub
    have hin := (hmem k).mpr ⟨hstored, hrange⟩
    have hall : ∀ key ∈ tmp.keys, (m.get key).isSome := fun key hkey => ((hmem key).mp hkey).1
    rcases dataLoop_get tmp.keys (fun _ => hthrows) tmp.nodup_keys m hall with
      ⟨datas, m₁, hdata, heffects, _⟩
    rcases statusLoop_get tmp.keys (fun _ => hthrows) tmp.nodup_keys m hall with
      ⟨statuses, m₂, hstatus, heffects', _⟩
    unfold RangesAgree
    rw [inStep_of_ok ((removeReturnData_eq hsub).trans hdata)
      ((removeReturnStatus_eq hsub).trans hstatus)]
    rintro ⟨rfl, _⟩
    have hkept := heffects.kept k fun h => hother h.2.2
    rw [heffects'.removed k ⟨hin, hclaim⟩] at hkept
    rw [← hkept] at hstored
    simp at hstored

/-- **The two range removals.** They leave the same store and give answers that agree
    exactly if every stored value of the range whose domain and entry the message may claim
    has no author or the author of the message. -/
theorem rangesAgree_iff (sl : StorageLayer) (publicKey : Option PublicKey)
    (fromKey toKey : Number640) (m : StorageMemory) :
    RangesAgree sl publicKey fromKey toKey m ↔
      ∀ k d, fromKey ≤ k → k ≤ toKey → m.get k = some d → sl.claimable m publicKey k = true →
        d.publicKey = none ∨ d.publicKey = publicKey := by
  constructor
  · intro h k d hfrom hto hd hclaim
    by_contra hother
    refine not_rangesAgree ⟨hfrom, hto⟩ (by rw [hd, Option.isSome_some]) hclaim ?_ h
    rintro ⟨d', hd', hauthor⟩
    rw [hd, Option.some.injEq] at hd'
    subst hd'
    exact hother (by simpa using hauthor)
  · intro h
    refine rangesAgree_of_authors fun k hfrom hto hstored hclaim => ?_
    rcases Option.isSome_iff_exists.mp hstored with ⟨d, hd⟩
    exact ⟨d, hd, by simpa using h k d hfrom hto hd hclaim⟩

/-- A value that names another author, in a domain that nobody has protected. -/
theorem ranges_disagree_on_another_author :
    let stored := { Data.new [7#8] 1000 with publicKey := some (.encoded [1#8]) }
    let m := after (put {} ⟨1, 2, 3, 4⟩ stored (some (.encoded [1#8])) false false false) {}
    ¬RangesAgree {} (some (.encoded [2#8])) ⟨1, 2, 0, 0⟩ ⟨1, 2, 9, 9⟩ m := by
  intro stored m
  exact not_rangesAgree (k := ⟨1, 2, 3, 4⟩) (by decide) (by decide) (by decide +kernel) (by
    rintro ⟨d, hd, hauthor⟩
    have hstored : m.get ⟨1, 2, 3, 4⟩ = some stored := by decide
    rw [hstored, Option.some.injEq] at hd
    subst hd
    exact absurd hauthor (by decide))

end StorageLayer

end TomP2P
