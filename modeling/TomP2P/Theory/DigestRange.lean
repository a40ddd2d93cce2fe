import TomP2P.Theory.Digest
import TomP2P.Theory.StorageRuns

/-!
# Digests of Ranges

The digest of a range has the keys of the values of the range, with the versions they are
based on, and so has the digest of a collection.

The loops that copy values and the ones that do not are one loop with two ways to copy, so
they count alike (`StorageLayer.get_filterCopy`). Looking for prepared values a second time
finds none.

Reading changes nothing. The operations are run in small steps between those of other
threads, and what is left to do of a read is always a call of the backend that only reads
(`StorageThread.Reads`).

## Main definitions

* `DigestOf`: A digest has the keys of some values, with what they are based on.
* `StorageAction.IsRead`, `StorageThread.Reads`: Calls that only read, and threads that
  have no others.

## Theorems

* `StorageLayer.get_digestOf`, `StorageLayer.get_digestCollection`: What is in a digest.
* `StorageSystem.backend_of_read`: A thread that reads leaves the backend.
* `StorageLayer.digests_agree`: The digests agree with the values.
-/

namespace TomP2P

open List

namespace StorageLayer

variable (m : StorageMemory)

/-- A digest has the keys of some values, each with what the value is based on. -/
def DigestOf (digestInfo : DigestInfo) (values : NavMap Number640 Data) : Prop :=
  ∀ k, digestInfo.get k = (values.get k).map Data.basedOnSet

/-- A map that is filled in a loop, where all entries of one key bring the same value. -/
theorem get_foldl_elim {α V : Type} (es : List α) (key : α → Number640) (value : α → Option V) (digest : NavMap Number640 V)
    (k : Number640) (o : Option V) (hvalue : ∀ e ∈ es, key e = k → value e = o) :
    (es.foldl (fun m e => (value e).elim m (m.put (key e))) digest).get k =
      if (∃ e ∈ es, key e = k) ∧ o.isSome then o else digest.get k := by
  induction es generalizing digest with
  | nil => simp
  | cons e es ih =>
      have hone : ((value e).elim digest (digest.put (key e))).get k =
          if key e = k ∧ o.isSome then o else digest.get k := by
        by_cases hk : key e = k
        · have hv := hvalue e mem_cons_self hk
          cases o with
          | none => simp [hv]
          | some v => simp [hv, hk]
        · cases value e with
          | none => simp [hk]
          | some v => simp [hk, NavMap.get_put_ne _ _ _ _ (Ne.symm hk)]
      rw [foldl_cons, ih _ fun e' he' => hvalue e' (mem_cons_of_mem _ he'), hone]
      by_cases hrest : ∃ e' ∈ es, key e' = k
      · by_cases hsome : o.isSome = true
        · simp [hrest, hsome]
        · simp [hsome]
      · by_cases hk : key e = k
        · simp [hrest, hk]
        · simp [hrest, hk]

/-- A digest has the keys that are selected. -/
theorem get_digestOf (tmp : NavMap Number640 Data) (select : Number640 → Data → Bool) (k : Number640) :
    (digestOf tmp select).get k =
      ((tmp.get k).filter fun d => select k d && !d.hasPrepareFlag).map Data.basedOnSet := by
  cases hget : tmp.get k with
  | none =>
      have habsent : ∀ e ∈ tmp.entries, e.1 = k → False := by
        intro e he hk
        have hsome := (NavMap.get_eq_some_iff tmp k e.2).mpr (hk ▸ he)
        rw [hget] at hsome
        cases hsome
      rw [digestOf_foldl, get_foldl_elim tmp.entries Prod.fst _ .empty k none fun e he hk => (habsent e he hk).elim]
      simp
  | some d =>
      have hin := (NavMap.get_eq_some_iff tmp k d).mp hget
      rw [digestOf_foldl, get_foldl_elim tmp.entries Prod.fst _ .empty k
        (if select k d && !d.hasPrepareFlag then some d.basedOnSet else none)]
      · have hex : ∃ e ∈ tmp.entries, e.1 = k := ⟨(k, d), hin, rfl⟩
        by_cases hselect : (select k d && !d.hasPrepareFlag) = true
        · simp [hex, hselect, Option.filter_some]
        · simp [hselect, Option.filter_some]
      · -- a key has one entry only
        intro e he hk
        have hd : e.2 = d := NavMap.mem_unique tmp k e.2 d (hk ▸ he) hin
        rw [hk, hd]

/-- What is in the digest of a collection. -/
theorem get_digestCollection (keys : List Number640) (k : Number640) :
    (digestCollection m keys).get k = if k ∈ keys then (get m k).map Data.basedOnSet else none := by
  have hcopy : (get m k).map Data.basedOnSet = (getInternal m k).map Data.basedOnSet := by
    rw [StorageLayer.get, Option.map_map]
    rfl
  rw [digestCollection_foldl, hcopy, get_foldl_elim keys id _ .empty k ((getInternal m k).map Data.basedOnSet)]
  · by_cases hin : k ∈ keys
    · cases getInternal m k with
      | none => simp
      | some d => simp [hin]
    · simp [hin]
  · intro key _ hkey
    rw [← hkey]
    rfl

/-- The digest of a range and its values, or none of them if the range is in the wrong
    order. -/
theorem digestRange_agrees (fromKey toKey : Number640) (limit : Int) (ascending : Bool) :
    (∃ values digestInfo, getRange m fromKey toKey limit ascending = .ok values ∧
        digestRange m fromKey toKey limit ascending = .ok digestInfo ∧ DigestOf digestInfo values) ∨
      ∃ e, getRange m fromKey toKey limit ascending = .error e ∧
        digestRange m fromKey toKey limit ascending = .error e := by
  unfold getRange digestRange
  cases m.subMap fromKey toKey with
  | error e => exact .inr ⟨e, rfl, rfl⟩
  | ok tmp =>
      refine .inl ⟨_, _, rfl, rfl, fun k => ?_⟩
      rw [get_digestOf, get_filterCopy, Option.map_map]
      cases hget : (filterCopyOrig tmp limit ascending true).get k with
      | none => rfl
      | some d =>
          -- what was copied is not prepared
          simp [Option.filter_some, hasPrepareFlag_of_filterCopyOrig hget, Data.duplicate]

end StorageLayer

/-! ### Threads that read -/

/-- A call of the backend that only reads, and is followed by such calls only. -/
def StorageAction.IsRead : StorageAction → Prop
  | .get _ | .contains _ | .copyNext .. | .digestContains _ => True
  | _ => False

def StorageCmd.IsRead : StorageCmd → Prop
  | .access a => a.IsRead
  | .sync _ body => ∀ a ∈ body, a.IsRead

/-- It leaves the backend as it is. -/
theorem StorageAction.IsRead.run {a : StorageAction} (ha : a.IsRead) (sl : StorageLayer) (m : StorageMemory) :
    ∃ cmds, a.run sl m = .ok cmds m ∧ ∀ cmd ∈ cmds, cmd.IsRead := by
  cases a with
  | get key | contains key => exact ⟨[], rfl, by simp⟩
  | digestContains key =>
      refine ⟨_, rfl, fun cmd hcmd => ?_⟩
      dsimp only at hcmd
      split at hcmd
      · rw [mem_singleton] at hcmd
        subst hcmd
        trivial
      · cases hcmd
  | copyNext fromKey toKey limit ascending counter cursor =>
      refine ⟨_, rfl, fun cmd hcmd => ?_⟩
      dsimp only at hcmd
      split at hcmd
      · cases hcmd
      · split at hcmd
        · rw [mem_singleton] at hcmd
          subst hcmd
          trivial
        · split at hcmd
          · cases hcmd
          · rw [mem_singleton] at hcmd
            subst hcmd
            trivial
  | _ => cases ha

theorem isRead_readCommands (r : StorageRead) : ∀ cmd ∈ StorageCall.readCommands r, cmd.IsRead := by
  cases r with
  | digestCollection keys =>
      intro cmd hcmd
      rw [StorageCall.readCommands, mem_map] at hcmd
      obtain ⟨key, -, rfl⟩ := hcmd
      simp [StorageCmd.IsRead, StorageAction.IsRead]
  | _ => simp [StorageCall.readCommands, StorageCall.copyRange, StorageCmd.IsRead, StorageAction.IsRead]

/-- A thread that reads has nothing else left to do. -/
def StorageThread.Reads (th : StorageThread) : Prop :=
  ∀ r, th.call = some (.read r) → ∀ f ∈ th.frames, ∀ cmd ∈ f.todo, cmd.IsRead

namespace StorageSystem

variable {T : Type} [DecidableEq T] {sl : StorageLayer} {s s' : StorageSystem T} {e : Event T}

omit [DecidableEq T] in
/-- Frames with less to do. -/
theorem Reads.of_todo {th th' : StorageThread} (h : th.Reads) (hcall : th'.call = th.call)
    (htodo : ∀ f ∈ th'.frames, ∀ cmd ∈ f.todo, ∃ f' ∈ th.frames, cmd ∈ f'.todo) : th'.Reads := by
  intro r hr f hf cmd hcmd
  obtain ⟨f', hf', hcmd'⟩ := htodo f hf cmd hcmd
  exact h r (hcall ▸ hr) f' hf' cmd hcmd'

omit [DecidableEq T] in
theorem Reads.top {th th' : StorageThread} (h : th.Reads) (hcall : th'.call = th.call) {f g : StorageFrame}
    {below : List StorageFrame} (hframes : th.frames = f :: below) (hframes' : th'.frames = g :: below)
    (htodo : ∀ cmd ∈ g.todo, cmd ∈ f.todo) : th'.Reads := by
  refine Reads.of_todo h hcall fun f' hf' cmd hcmd => ?_
  rw [hframes]
  rw [hframes'] at hf'
  rcases mem_cons.mp hf' with rfl | hf'
  · exact ⟨f, mem_cons_self, htodo cmd hcmd⟩
  · exact ⟨f', mem_cons_of_mem _ hf', hcmd⟩

omit [DecidableEq T] in
theorem Reads.throwTo {th : StorageThread} (h : th.Reads) {f : StorageFrame} {below : List StorageFrame}
    (hframes : th.frames = f :: below) : (th.throwTo below).Reads := by
  cases below with
  | nil =>
      intro r hr f' hf'
      cases hf'
  | cons g below =>
      have hbelow : StorageThread.Reads { th with frames := g :: below } :=
        Reads.of_todo h rfl fun f' hf' cmd hcmd => ⟨f', by rw [hframes]; exact mem_cons_of_mem _ hf', hcmd⟩
      exact Reads.top hbelow rfl rfl rfl fun cmd hcmd => by cases hcmd

/-- A step gives a thread that reads nothing else to do. -/
theorem reads_moves (hreads : ∀ u, (s.threads u).Reads) (hm : Moves sl s e s') : ∀ u, (s'.threads u).Reads := by
  cases hm with
  | call hidle =>
      refine forall_setThread hreads ?_
      intro r hr f hf
      rw [mem_singleton] at hf
      have hcall := Option.some.inj hr
      rw [hf, hcall]
      exact isRead_readCommands r
  | refuse hframes hwanted hbad | unwind hframes hwanted htodo hacquired =>
      exact forall_setThread hreads (Reads.throwTo (hreads _) hframes)
  | wait hframes hwanted hblocked =>
      exact forall_setThread hreads (Reads.of_todo (hreads _) rfl fun f hf cmd hcmd => ⟨f, hf, hcmd⟩)
  | grant hframes hwanted hle hfree | free hframes hwanted htodo hacquired
  | interrupt hframes hwanted hwaiting =>
      exact forall_setThread hreads (Reads.top (hreads _) rfl hframes rfl fun cmd hcmd => hcmd)
  | run hframes hwanted htodo hrun =>
      refine forall_setThread hreads ?_
      intro r hr f hf cmd hcmd
      have hold := hreads _ r hr
      rw [hframes] at hold
      rcases mem_cons.mp hf with rfl | hf
      · -- the call only reads, and so do those that follow from it
        have haccess := hold _ mem_cons_self _ (by rw [htodo]; exact mem_cons_self)
        obtain ⟨cmds, hcmds, hall⟩ := StorageAction.IsRead.run haccess sl s.backend
        rw [hrun] at hcmds
        cases hcmds
        rcases mem_append.mp hcmd with hcmd | hcmd
        · exact hall cmd hcmd
        · exact hold _ mem_cons_self cmd (by rw [htodo]; exact mem_cons_of_mem _ hcmd)
      · exact hold f (mem_cons_of_mem _ hf) cmd hcmd
  | fail hframes hwanted htodo hrun =>
      exact forall_setThread hreads (Reads.top (hreads _) rfl hframes rfl fun cmd hcmd => by cases hcmd)
  | enter hframes hwanted htodo =>
      refine forall_setThread hreads ?_
      intro r hr f hf cmd hcmd
      have hold := hreads _ r hr
      rw [hframes] at hold
      rcases mem_cons.mp hf with rfl | hf
      · have hsync := hold _ mem_cons_self _ (by rw [htodo]; exact mem_cons_self)
        obtain ⟨a, ha, rfl⟩ := mem_map.mp hcmd
        exact hsync a ha
      · rcases mem_cons.mp hf with rfl | hf
        · exact hold _ mem_cons_self cmd (by rw [htodo]; exact mem_cons_of_mem _ hcmd)
        · exact hold f (mem_cons_of_mem _ hf) cmd hcmd
  | exit hframes hwanted htodo hacquired =>
      exact forall_setThread hreads (Reads.of_todo (hreads _) rfl fun f hf cmd hcmd =>
        ⟨f, by simp [hframes, show f ∈ _ from hf], hcmd⟩)

theorem reads_run (h : Run sl (fun _ _ => True) s) : ∀ u, (s.threads u).Reads := by
  induction h with
  | start m => exact fun u r hr => by cases hr
  | step _ e _ hstep ih => exact reads_moves ih (moves_of_step hstep)

/-- A thread that runs a read leaves the backend, whatever other threads have done. -/
theorem backend_of_read (h : Run sl (fun _ _ => True) s) {t : T} {r : StorageRead}
    (hcall : (s.threads t).call = some (.read r)) (hstep : s.step sl (.act t) = some s') :
    s'.backend = s.backend := by
  have hreads := reads_run h t r hcall
  cases moves_of_step hstep with
  | run hframes hwanted htodo hrun =>
      rw [hframes] at hreads
      have haccess := hreads _ mem_cons_self _ (by rw [htodo]; exact mem_cons_self)
      obtain ⟨cmds, hcmds, -⟩ := StorageAction.IsRead.run haccess sl s.backend
      rw [hrun] at hcmds
      cases hcmds
      rfl
  | fail hframes hwanted htodo hrun =>
      rw [hframes] at hreads
      have haccess := hreads _ mem_cons_self _ (by rw [htodo]; exact mem_cons_self)
      obtain ⟨cmds, hcmds, -⟩ := StorageAction.IsRead.run haccess sl s.backend
      rw [hrun] at hcmds
      cases hcmds
  | _ => rfl

end StorageSystem

/-- The digests agree with the values, and none of these reads changes what is stored, in
    whatever order its steps are taken with those of other threads. -/
theorem StorageLayer.digests_agree (T : Type) [DecidableEq T] (sl : StorageLayer) (m : StorageMemory) :
    (∀ fromKey toKey limit ascending,
      (∃ values digestInfo, getRange m fromKey toKey limit ascending = .ok values ∧
          digestRange m fromKey toKey limit ascending = .ok digestInfo ∧ DigestOf digestInfo values) ∨
        ∃ e, getRange m fromKey toKey limit ascending = .error e ∧
          digestRange m fromKey toKey limit ascending = .error e) ∧
    (∀ keys k, (digestCollection m keys).get k = if k ∈ keys then (get m k).map Data.basedOnSet else none) ∧
    ∀ (s s' : StorageSystem T) (t : T) (r : StorageRead), StorageSystem.Run sl (fun _ _ => True) s →
      (s.threads t).call = some (.read r) → s.step sl (.act t) = some s' → s'.backend = s.backend :=
  ⟨digestRange_agrees m, get_digestCollection m, fun _ _ _ _ h hcall hstep =>
    StorageSystem.backend_of_read h hcall hstep⟩

end TomP2P
