import TomP2P.Core.Replication
import TomP2P.Foundation.InverseIndex

/-!
# The Index of Responsibilities

The store keeps who is responsible for a location, and the locations of each peer. The
two are inverse to each other, and each update by the store keeps them so.

When a peer leaves, its locations are given to the peers that are closest now. The
handler takes a location that has a new peer out of its list of own locations, so as
not to look at it again. That list is the set of the index. If the new peer is this
peer itself, the location has just been filed there and is taken out again: it is not
refreshed anymore. Nothing happens if this peer had no location before, because then
the list is not a set of the index.

## Main definitions

* `Indexed`: The two maps are inverse to each other.
* `Replication.Keeps`: No location is taken over while there are own ones.
* `Replication.Reach`: The states of a run.

## Theorems

* `indexed_updateResponsibilities`, `indexed_removeResponsibility`: The store.
* `Replication.indexed_step_iff`: What an event does to the index.
* `Replication.indexed_of_reach`: The index in every state of a run.
-/

namespace TomP2P

open Effect NavMap List

namespace StorageMemory

/-- The responsibilities are the same in both directions. -/
def Indexed (m : StorageMemory) : Prop := InverseIndex m.responsibilityMap m.responsibilityMapRev

variable {m : StorageMemory} {locationKey peerId : Number160}

theorem removeRevResponsibility_eq (m : StorageMemory) (peerId locationKey : Number160) :
    m.removeRevResponsibility peerId locationKey =
      { m with responsibilityMapRev := Index.unlink m.responsibilityMapRev locationKey peerId } := by
  unfold removeRevResponsibility Index.unlink
  rcases m.responsibilityMapRev.get peerId with _ | contentIDs
  · rfl
  · dsimp only
    split <;> rfl

/-- The location is filed under its new peer, after it was taken out from under another. -/
theorem updateResponsibilities_eq (m : StorageMemory) (locationKey peerId : Number160) :
    m.updateResponsibilities locationKey peerId =
      { m with
        responsibilityMap := m.responsibilityMap.put locationKey peerId
        responsibilityMapRev := Index.link
          (match m.responsibilityMap.get locationKey with
            | none => m.responsibilityMapRev
            | some old =>
                if old = peerId then m.responsibilityMapRev
                else Index.unlink m.responsibilityMapRev locationKey old) locationKey peerId } := by
  unfold updateResponsibilities
  rcases m.responsibilityMap.get locationKey with _ | old
  · rfl
  · dsimp only
    by_cases heq : old = peerId
    · rw [if_pos heq, if_pos heq]
      rfl
    · rw [if_neg heq, if_neg heq, removeRevResponsibility_eq]
      rfl

theorem indexed_updateResponsibilities (h : m.Indexed) (locationKey peerId : Number160) :
    (m.updateResponsibilities locationKey peerId).Indexed := by
  rw [updateResponsibilities_eq]
  unfold Indexed at h ⊢
  dsimp only
  rcases hget : m.responsibilityMap.get locationKey with _ | old
  · exact h.link_new _ _ _ _ hget
  · dsimp only
    by_cases heq : old = peerId
    · rw [if_pos heq]
      rw [heq] at hget
      exact h.link_same _ _ _ _ hget
    · rw [if_neg heq]
      exact h.move _ _ _ _ _ hget

theorem indexed_removeResponsibility (h : m.Indexed) (locationKey : Number160) :
    (m.removeResponsibility locationKey).Indexed := by
  unfold removeResponsibility
  rcases hget : m.responsibilityMap.get locationKey with _ | old
  · exact h
  · dsimp only
    rw [removeRevResponsibility_eq]
    exact InverseIndex.unlink _ _ h _ _ hget

theorem removeResponsibility_responsibilityMap (m : StorageMemory) (locationKey : Number160) :
    (m.removeResponsibility locationKey).responsibilityMap = m.responsibilityMap.remove locationKey := by
  unfold removeResponsibility
  rcases hget : m.responsibilityMap.get locationKey with _ | old
  · refine (ext_get _ _ fun k => ?_).symm
    rw [get_remove]
    by_cases hk : k = locationKey
    · rw [if_pos hk, hk, hget]
    · rw [if_neg hk]
  · dsimp only
    rw [removeRevResponsibility_eq]

/-- A view of a peer can lose a location that somebody else is responsible for. -/
theorem indexed_removeFromView (h : m.Indexed) {peerID : Number160}
    (hother : m.responsibilityMap.get locationKey ≠ some peerID) :
    (m.removeFromView peerID locationKey).Indexed := by
  unfold removeFromView
  rcases hget : m.responsibilityMapRev.get peerID with _ | contentIDs
  · exact h
  · have hnot : locationKey ∉ contentIDs.elems := fun hin => hother ((h.listed_iff _ _).mp ⟨contentIDs, hget, hin⟩)
    have hsame : contentIDs.remove locationKey = contentIDs := by
      unfold HashedSet.remove
      congr 1
      refine filter_eq_self.mpr fun k hk => ?_
      rw [decide_eq_true_iff]
      intro heq
      exact hnot (heq ▸ hk)
    have hput : m.responsibilityMapRev.put peerID contentIDs = m.responsibilityMapRev := by
      refine ext_get _ _ fun k => ?_
      rw [get_put]
      by_cases hk : k = peerID
      · rw [if_pos hk, hk, hget]
      · rw [if_neg hk]
    dsimp only
    rw [hsame, hput]
    exact h

end StorageMemory

open StorageMemory

/-- Dropping a location: the values first, if they are not kept, and the responsibility
    then. Nobody else's values or claims are touched. -/
theorem StorageLayer.after_removeResponsibility (locationKey : Number160) (keepData : Bool) (m : StorageMemory) :
    ∃ m' : StorageMemory, after (removeResponsibility locationKey keepData) m = m'.removeResponsibility locationKey ∧
      m'.responsibilityMap = m.responsibilityMap ∧ m'.responsibilityMapRev = m.responsibilityMapRev ∧
      m'.protectedMap = m.protectedMap ∧ m'.entryMap = m.entryMap ∧
      ∀ k, m'.get k = if keepData = false ∧ k.locationKey = locationKey then none else m.get k := by
  unfold removeResponsibility
  cases keepData with
  | true =>
      refine ⟨m, rfl, rfl, rfl, rfl, rfl, fun k => ?_⟩
      rw [if_neg (fun h => Bool.noConfusion h.1)]
  | false =>
      have hle : minKey locationKey ≤ maxKey locationKey :=
        ((Number160.locations_iff locationKey (minKey locationKey)).mpr rfl).2
      rw [if_neg Bool.false_ne_true, after_get_bind, after_ofExcept_bind,
        StorageMemory.removeRange, if_neg (not_lt.mpr hle)]
      refine ⟨_, after_modify _ _, ?_⟩
      generalize (m.dataMap.subMap (minKey locationKey) (maxKey locationKey)).keys = keys
      dsimp only
      have hframe (m0 : StorageMemory) : let m' := keys.foldl StorageMemory.removeTimeout m0
          m'.responsibilityMap = m0.responsibilityMap ∧ m'.responsibilityMapRev = m0.responsibilityMapRev ∧
            m'.protectedMap = m0.protectedMap ∧ m'.entryMap = m0.entryMap ∧ m'.dataMap = m0.dataMap := by
        induction keys generalizing m0 with
        | nil => exact ⟨rfl, rfl, rfl, rfl, rfl⟩
        | cons key keys ih =>
            obtain ⟨rev, heq⟩ := removeTimeout_eq m0 key
            obtain ⟨hresp, hrev, hprotected, hentry, hdata⟩ := ih (m0.removeTimeout key)
            refine ⟨hresp.trans ?_, hrev.trans ?_, hprotected.trans ?_, hentry.trans ?_, hdata.trans ?_⟩ <;> rw [heq]
      obtain ⟨hresp, hrev, hprotected, hentry, hdata⟩ := hframe
        { m with dataMap := m.dataMap.filter fun k _ => !(minKey locationKey ≤ k && k ≤ maxKey locationKey) }
      refine ⟨hresp, hrev, hprotected, hentry, fun k => ?_⟩
      rw [StorageMemory.get, hdata, get_filter, ← Bool.decide_and]
      have hiff := Number160.locations_iff locationKey k
      by_cases hk : k.locationKey = locationKey
      · have hrange : minKey locationKey ≤ k ∧ k ≤ maxKey locationKey := hiff.mpr hk
        rw [if_pos ⟨rfl, hk⟩, decide_eq_true hrange]
        cases m.dataMap.get k <;> rfl
      · have hrange : ¬(minKey locationKey ≤ k ∧ k ≤ maxKey locationKey) := fun hin => hk (hiff.mp hin)
        rw [if_neg (fun h => hk h.2), decide_eq_false hrange, StorageMemory.get]
        cases m.dataMap.get k <;> rfl

namespace Replication

variable {r : Replication} {n : Neighborhood} {answers : Answers} {s : State} {locationKey : Number160}

/-! ### What the handlers do to the store -/

theorem indexed_drop (h : s.store.Indexed) (locationKey : Number160) :
    (r.removeResponsibility s locationKey).store.Indexed := by
  obtain ⟨m', heq, hresp, hrev, -⟩ := StorageLayer.after_removeResponsibility locationKey r.keepData s.store
  unfold removeResponsibility
  rw [heq]
  refine indexed_removeResponsibility ?_ locationKey
  unfold Indexed
  rw [hresp, hrev]
  exact h

theorem indexed_notify (h : s.store.Indexed) (notice : Notice) (removes : Bool) :
    (r.notify answers s notice removes).store.Indexed := by
  unfold notify
  dsimp only
  split
  · exact indexed_drop h _
  · exact h

@[simp] theorem updateAndNotify_store (s : State) (locationKey peerId : Number160) (notice : Notice) :
    (r.updateAndNotify answers s locationKey peerId notice).store =
      s.store.updateResponsibilities locationKey peerId := by
  unfold updateAndNotify
  dsimp only
  split <;> rfl

theorem indexed_dataInserted (h : s.store.Indexed) : (r.dataInserted n answers s locationKey).store.Indexed := by
  have hupdate := indexed_updateResponsibilities h locationKey
  unfold dataInserted
  dsimp only
  split
  · exact h
  · split
    · split <;> rw [updateAndNotify_store] <;> exact hupdate _
    · split
      · rw [updateAndNotify_store]
        exact hupdate _
      · exact indexed_notify h _ _

theorem indexed_peerInsertedAt (h : s.store.Indexed) (peerAddress : PeerAddress) :
    (r.peerInsertedAt n answers peerAddress s locationKey).store.Indexed := by
  have hupdate := indexed_updateResponsibilities h locationKey
  unfold peerInsertedAt
  dsimp only
  split
  · split
    · split
      · rw [updateAndNotify_store]
        exact hupdate _
      · exact indexed_drop h _
    · split
      · split <;> exact hupdate _
      · exact h
  · split
    · split <;> exact indexed_notify h _ _
    · split
      · exact indexed_notify h _ _
      · exact h

theorem restore_store (peerAddress : PeerAddress) (ls : List Number160) (s : State) :
    (ls.foldl (r.restore n answers peerAddress) s).store = s.store := by
  induction ls generalizing s with
  | nil => rfl
  | cons l ls ih =>
      rw [foldl_cons, ih]
      unfold restore
      split <;> rfl

theorem indexed_complete (h : s.store.Indexed) (i : Nat) (success : Bool) :
    (r.complete s i success).store.Indexed := by
  unfold complete
  split
  · exact h
  · split
    · exact h
    · dsimp only
      split
      · exact indexed_drop h _
      · exact h

theorem indexed_use (h : s.store.Indexed) (values : StorageMemory) (expired : List Number160) :
    (use s values expired).store.Indexed := by
  unfold use
  dsimp only
  generalize hm : ({ values with
    responsibilityMap := s.store.responsibilityMap
    responsibilityMapRev := s.store.responsibilityMapRev } : StorageMemory) = m
  have hm' : m.Indexed := by
    rw [← hm]
    exact h
  clear hm
  induction expired generalizing m with
  | nil => exact hm'
  | cons l expired ih => exact ih _ (indexed_removeResponsibility hm' l)

/-! ### A peer leaves -/

section PeerRemoved

variable {acc : State × Bool}

/-- The store after one of the locations of the peer. -/
theorem peerRemovedAt_store (acc : State × Bool) (locationKey : Number160) :
    let m := acc.1.store.updateResponsibilities locationKey (r.closest n locationKey).peerId
    let live := acc.2 && (m.findContentForResponsiblePeerID r.selfAddress.peerId).isSome
    (r.peerRemovedAt n answers acc locationKey).2 = live ∧
      (r.peerRemovedAt n answers acc locationKey).1.store =
        if (acc.1.store.hasChanged locationKey (r.closest n locationKey).peerId && live) = true then
          m.removeFromView r.selfAddress.peerId locationKey
        else m := by
  unfold peerRemovedAt
  dsimp only
  rw [updateAndNotify_store]
  split
  · refine ⟨rfl, ?_⟩
    dsimp only
  · exact ⟨rfl, updateAndNotify_store _ _ _ _⟩

theorem removeFromView_responsibilityMap (m : StorageMemory) (peerID locationKey : Number160) :
    (m.removeFromView peerID locationKey).responsibilityMap = m.responsibilityMap := by
  unfold removeFromView
  split <;> rfl

/-- The closest peer is responsible for the location then. -/
theorem peerRemovedAt_responsibilityMap (acc : State × Bool) (locationKey : Number160) :
    (r.peerRemovedAt n answers acc locationKey).1.store.responsibilityMap =
      acc.1.store.responsibilityMap.put locationKey (r.closest n locationKey).peerId := by
  rw [(peerRemovedAt_store acc locationKey).2]
  split
  · rw [removeFromView_responsibilityMap, updateResponsibilities_eq]
  · rw [updateResponsibilities_eq]

theorem hasChanged_iff (m : StorageMemory) (locationKey peerId : Number160) :
    m.hasChanged locationKey peerId = true ↔ m.responsibilityMap.get locationKey ≠ some peerId := by
  unfold hasChanged
  cases m.responsibilityMap.get locationKey with
  | none => simp
  | some old => simp

theorem indexed_peerRemovedAt (h : acc.1.store.Indexed)
    (hkeeps : acc.2 = true → acc.1.store.responsibilityMap.get locationKey ≠ some r.selfAddress.peerId →
      (r.closest n locationKey).peerId ≠ r.selfAddress.peerId) :
    (r.peerRemovedAt n answers acc locationKey).1.store.Indexed := by
  rw [(peerRemovedAt_store acc locationKey).2]
  have hupdate := indexed_updateResponsibilities h locationKey (r.closest n locationKey).peerId
  split
  · next hif =>
      rw [Bool.and_eq_true, Bool.and_eq_true, hasChanged_iff] at hif
      refine indexed_removeFromView hupdate ?_
      rw [updateResponsibilities_eq]
      dsimp only
      rw [get_put_self, ne_eq, Option.some.injEq]
      intro hself
      rw [hself] at hif
      exact hkeeps hif.2.1 hif.1 hself
  · exact hupdate

/-- The locations of the peer have not been given away before their turn. -/
theorem indexed_peerRemovedLoop {p : Number160} (ls : List Number160) (acc : State × Bool)
    (h : acc.1.store.Indexed) (hnodup : ls.Nodup)
    (hmap : ∀ l ∈ ls, acc.1.store.responsibilityMap.get l = some p)
    (hkeeps : acc.2 = true → p ≠ r.selfAddress.peerId → ∀ l ∈ ls, (r.closest n l).peerId ≠ r.selfAddress.peerId) :
    (ls.foldl (r.peerRemovedAt n answers) acc).1.store.Indexed := by
  induction ls generalizing acc with
  | nil => exact h
  | cons l ls ih =>
      rw [nodup_cons] at hnodup
      refine ih _ (indexed_peerRemovedAt h ?_) hnodup.2 ?_ ?_
      · intro hlive hother
        rw [hmap l mem_cons_self, ne_eq, Option.some.injEq] at hother
        exact hkeeps hlive hother l mem_cons_self
      · intro k hk
        rw [peerRemovedAt_responsibilityMap, get_put_ne _ l k _ (fun heq => hnodup.1 (heq ▸ hk))]
        exact hmap k (mem_cons_of_mem _ hk)
      · intro hlive hother k hk
        rw [(peerRemovedAt_store acc l).1, Bool.and_eq_true] at hlive
        exact hkeeps hlive.1 hother k (mem_cons_of_mem _ hk)

/-- A location that this peer is responsible for and does not find. -/
def Lost (r : Replication) (m : StorageMemory) (locationKey : Number160) : Prop :=
  m.responsibilityMap.get locationKey = some r.selfAddress.peerId ∧
    ¬Index.Listed m.responsibilityMapRev r.selfAddress.peerId locationKey

theorem listed_updateResponsibilities {m : StorageMemory} {locationKey peerId p l : Number160}
    (h : Index.Listed (m.updateResponsibilities locationKey peerId).responsibilityMapRev p l) :
    (p = peerId ∧ l = locationKey) ∨ Index.Listed m.responsibilityMapRev p l := by
  rw [updateResponsibilities_eq] at h
  rcases (Index.listed_link _ _ _ _ _).mp h with hnew | hold
  · exact .inl hnew
  · refine .inr ?_
    rcases hget : m.responsibilityMap.get locationKey with _ | old
    · rw [hget] at hold
      exact hold
    · rw [hget] at hold
      dsimp only at hold
      split at hold
      · exact hold
      · exact ((Index.listed_unlink _ _ _ _ _).mp hold).1

theorem listed_removeFromView {m : StorageMemory} {peerID locationKey p l : Number160}
    (h : Index.Listed (m.removeFromView peerID locationKey).responsibilityMapRev p l) :
    Index.Listed m.responsibilityMapRev p l ∧ ¬(p = peerID ∧ l = locationKey) := by
  unfold removeFromView at h
  rcases hget : m.responsibilityMapRev.get peerID with _ | contentIDs
  · rw [hget] at h
    refine ⟨h, fun hand => ?_⟩
    obtain ⟨set, hset, -⟩ := h
    rw [hand.1, hget] at hset
    cases hset
  · rw [hget] at h
    obtain ⟨set, hset, hin⟩ := h
    rw [get_put] at hset
    by_cases hp : p = peerID
    · rw [if_pos hp, Option.some.injEq] at hset
      rw [← hset, HashedSet.mem_remove] at hin
      exact ⟨⟨contentIDs, hp ▸ hget, hin.1⟩, fun hand => hin.2 hand.2⟩
    · rw [if_neg hp] at hset
      exact ⟨⟨set, hset, hin⟩, fun hand => hp hand.1⟩

/-- A location that is lost stays lost while others are given away. -/
theorem lost_peerRemovedAt {acc : State × Bool} {l : Number160} (h : Lost r acc.1.store locationKey)
    (hne : locationKey ≠ l) : Lost r (r.peerRemovedAt n answers acc l).1.store locationKey := by
  refine ⟨?_, fun hlisted => h.2 ?_⟩
  · rw [peerRemovedAt_responsibilityMap, get_put_ne _ l locationKey _ hne]
    exact h.1
  · rw [(peerRemovedAt_store acc l).2] at hlisted
    have hlisted : Index.Listed (acc.1.store.updateResponsibilities l (r.closest n l).peerId).responsibilityMapRev
        r.selfAddress.peerId locationKey := by
      split at hlisted
      · exact (listed_removeFromView hlisted).1
      · exact hlisted
    exact (listed_updateResponsibilities hlisted).resolve_left fun hand => hne hand.2

/-- The set of a peer stays when a location of another one is given away. -/
theorem isSome_updateResponsibilities {m : StorageMemory} {locationKey p q : Number160} (peerId : Number160)
    (hmap : m.responsibilityMap.get locationKey = some p) (hne : q ≠ p)
    (h : (m.responsibilityMapRev.get q).isSome = true) :
    ((m.updateResponsibilities locationKey peerId).responsibilityMapRev.get q).isSome = true := by
  rw [updateResponsibilities_eq, hmap]
  dsimp only
  unfold Index.link
  rw [get_put]
  by_cases hq : q = peerId
  · rw [if_pos hq]
    rfl
  · rw [if_neg hq]
    split
    · exact h
    · unfold Index.unlink
      split
      · exact h
      · split
        · rw [get_remove_ne _ _ _ hne]
          exact h
        · rw [get_put_ne _ _ _ _ hne]
          exact h

theorem isSome_removeFromView {m : StorageMemory} {peerID locationKey : Number160}
    (h : (m.responsibilityMapRev.get peerID).isSome = true) :
    ((m.removeFromView peerID locationKey).responsibilityMapRev.get peerID).isSome = true := by
  unfold removeFromView
  split
  · exact h
  · dsimp only
    rw [get_put_self]
    rfl

/-- A location that is taken over while there are own ones is lost. -/
theorem lost_peerRemovedLoop (answers : Answers) {p : Number160} (hp : p ≠ r.selfAddress.peerId) (ls : List Number160)
    (acc : State × Bool) (hlive : acc.2 = true)
    (hsome : (acc.1.store.responsibilityMapRev.get r.selfAddress.peerId).isSome = true) (hnodup : ls.Nodup)
    (hmap : ∀ l ∈ ls, acc.1.store.responsibilityMap.get l = some p) (hin : locationKey ∈ ls)
    (hself : (r.closest n locationKey).peerId = r.selfAddress.peerId) :
    Lost r (ls.foldl (r.peerRemovedAt n answers) acc).1.store locationKey := by
  induction ls generalizing acc with
  | nil => exact absurd hin not_mem_nil
  | cons l ls ih =>
      rw [nodup_cons] at hnodup
      have hpl := hmap l mem_cons_self
      have hkept := isSome_updateResponsibilities (r.closest n l).peerId hpl hp.symm hsome
      have hlive' : (r.peerRemovedAt n answers acc l).2 = true := by
        rw [(peerRemovedAt_store acc l).1, Bool.and_eq_true]
        exact ⟨hlive, hkept⟩
      rw [foldl_cons]
      by_cases heq : locationKey = l
      · -- It is lost here, and the others do not bring it back.
        subst heq
        have hlost : Lost r (r.peerRemovedAt n answers acc locationKey).1.store locationKey := by
          refine ⟨?_, ?_⟩
          · rw [peerRemovedAt_responsibilityMap, get_put_self, hself]
          · rw [(peerRemovedAt_store acc locationKey).2, if_pos]
            · exact fun hlisted => (listed_removeFromView hlisted).2 ⟨rfl, rfl⟩
            · rw [Bool.and_eq_true, hasChanged_iff, hpl, hself, ne_eq, Option.some.injEq, Bool.and_eq_true]
              rw [hself] at hkept
              exact ⟨hp, hlive, hkept⟩
        have hothers : ∀ l ∈ ls, locationKey ≠ l := fun l hl heq => hnodup.1 (heq ▸ hl)
        clear ih hmap hin hnodup hlive'
        generalize r.peerRemovedAt n answers acc locationKey = acc' at hlost
        induction ls generalizing acc' with
        | nil => exact hlost
        | cons k ls ih =>
            exact ih (fun l hl => hothers l (mem_cons_of_mem _ hl)) _
              (lost_peerRemovedAt hlost (hothers k mem_cons_self))
      · refine ih _ hlive' ?_ hnodup.2 ?_ ((mem_cons.mp hin).resolve_left heq)
        · rw [(peerRemovedAt_store acc l).2]
          split
          · exact isSome_removeFromView hkept
          · exact hkept
        · intro k hk
          rw [peerRemovedAt_responsibilityMap, get_put_ne _ l k _ (fun heq => hnodup.1 (heq ▸ hk))]
          exact hmap k (mem_cons_of_mem _ hk)

end PeerRemoved

/-! ### Events and runs -/

/-- With 0-root replication, a peer that leaves while there are own locations has none
    that this peer is the closest one to now. -/
def Keeps (r : Replication) (s : State) : Event → Prop
  | .peerRemoved n _ peerAddress =>
      n.isReplication = true → r.nRootReplication = false → peerAddress.peerId ≠ r.selfAddress.peerId →
        locations s r.selfAddress.peerId ≠ [] →
          ∀ l ∈ locations s peerAddress.peerId, (r.closest n l).peerId ≠ r.selfAddress.peerId
  | _ => True

/-- The locations of a peer are those it is responsible for. -/
theorem mem_locations (h : s.store.Indexed) (p l : Number160) :
    l ∈ locations s p ↔ s.store.responsibilityMap.get l = some p := by
  rw [← h.listed_iff]
  unfold locations findContentForResponsiblePeerID Index.Listed
  rcases s.store.responsibilityMapRev.get p with _ | contentIDs
  · simp
  · simp

theorem nodup_locations (s : State) (p : Number160) : (locations s p).Nodup := by
  unfold locations
  split
  · exact nodup_nil
  · next contentIDs _ => exact contentIDs.nodup

theorem isSome_iff_locations (h : s.store.Indexed) (p : Number160) :
    (s.store.findContentForResponsiblePeerID p).isSome = true ↔ locations s p ≠ [] := by
  unfold locations
  rcases hget : s.store.findContentForResponsiblePeerID p with _ | contentIDs
  · simp
  · have hne := h.noEmpty p contentIDs hget
    simp [hne]

/-- An event keeps the index exactly if no location is taken over while there are own
    ones. -/
theorem indexed_step_iff (h : s.store.Indexed) (e : Event) : (r.step s e).store.Indexed ↔ r.Keeps s e := by
  cases e with
  | dataInserted n answers l => exact iff_of_true (indexed_dataInserted h) trivial
  | dataRemoved n l =>
      refine iff_of_true ?_ trivial
      unfold step dataRemoved
      dsimp only
      split
      · exact indexed_drop h l
      · exact h
  | peerInserted n answers peerAddress verified =>
      refine iff_of_true ?_ trivial
      unfold step peerInserted
      dsimp only
      split
      · exact h
      · exact List.foldlRecOn (motive := fun (s' : State) => s'.store.Indexed) _ _ h fun s' hs' l _ =>
          indexed_peerInsertedAt hs' peerAddress
  | complete i success => exact iff_of_true (indexed_complete h i success) trivial
  | use values expired => exact iff_of_true (indexed_use h values expired) trivial
  | peerRemoved n answers peerAddress =>
      have hmap : ∀ l ∈ locations s peerAddress.peerId,
          s.store.responsibilityMap.get l = some peerAddress.peerId := fun l hl => (mem_locations h _ _).mp hl
      have hnodup := nodup_locations s peerAddress.peerId
      unfold step peerRemoved
      dsimp only
      by_cases hrep : n.isReplication = true
      · by_cases hroot : r.nRootReplication = false
        · rw [hrep, hroot, if_neg (by decide), if_pos (by decide), restore_store]
          refine ⟨fun hindexed _ _ hother hown l hl hself => ?_, fun hkeeps => ?_⟩
          · have hsome := (isSome_iff_locations h _).mpr hown
            have hlost := lost_peerRemovedLoop answers hother _ (s, true) rfl hsome hnodup hmap hl hself
            rw [hsome] at hindexed
            exact hlost.2 ((hindexed.listed_iff _ _).mpr hlost.1)
          · refine indexed_peerRemovedLoop _ _ h hnodup hmap fun hlive hother => ?_
            exact hkeeps hrep hroot hother ((isSome_iff_locations h _).mp hlive)
        · rw [Bool.not_eq_false] at hroot
          rw [hrep, hroot, if_neg (by decide), if_neg (by decide), restore_store]
          exact iff_of_true h fun _ hfalse => absurd hroot (by rw [hfalse]; decide)
      · rw [Bool.not_eq_true] at hrep
        rw [hrep, if_pos (by decide)]
        exact iff_of_true h fun htrue => absurd hrep (by rw [htrue]; decide)

/-- The states of a run whose steps all meet a condition. -/
inductive Reach (r : Replication) (Cond : State → Event → Prop) (s : State) : State → Prop
  | start : Reach r Cond s s
  | step {s' : State} {e : Event} (h : Reach r Cond s s') (hcond : Cond s' e) : Reach r Cond s (r.step s' e)

/-- The index is right in every state of a run in which no location is taken over while
    there are own ones, and every location is found. It is wrong after the first step
    that does so. -/
theorem indexed_of_reach (r : Replication) (s s' : State) (h : s.store.Indexed) (hreach : Reach r r.Keeps s s') :
    s'.store.Indexed ∧ (∀ p l, l ∈ locations s' p ↔ s'.store.responsibilityMap.get l = some p) ∧
      ∀ e, ¬r.Keeps s' e → ¬(r.step s' e).store.Indexed := by
  have hindexed : s'.store.Indexed := by
    induction hreach with
    | start => exact h
    | step _ hkeeps ih => exact (indexed_step_iff ih _).mpr hkeeps
  exact ⟨hindexed, mem_locations hindexed, fun e hbad hgood => hbad ((indexed_step_iff hindexed e).mp hgood)⟩

/-- Peer 1, which knows nobody. -/
def alone : Neighborhood := { peerMapVerified := fun _ => .empty }

/-- Peer 1, which knows peer 2. -/
def withPeer2 : Neighborhood where
  peerMapVerified j := if j = 1 then ⟨[(2, .new 0 { peerId := 2 })], nodup_singleton _⟩ else .empty

/-- Location 2 is given to peer 2. -/
def given (s : State) : State :=
  step { selfAddress := { peerId := 1 } } s (.dataInserted withPeer2 (fun _ => none) 2)

/-- Peer 2 leaves, and peer 1 takes location 2 over. -/
def takenOver (s : State) : State :=
  step { selfAddress := { peerId := 1 } } s (.peerRemoved alone (fun _ => none) { peerId := 2 })

/-- Location 1 is given to peer 1 itself. -/
def own : State := step { selfAddress := { peerId := 1 } } {} (.dataInserted alone (fun _ => none) 1)

/-- Peer 1 has no location of its own when peer 2 leaves. -/
theorem indexed_takenOver :
    (takenOver (given {})).store.responsibilityMap.get 2 = some 1 ∧ 2 ∈ locations (takenOver (given {})) 1 := by
  have hmap : (takenOver (given {})).store.responsibilityMap.get 2 = some 1 := by decide +kernel
  have hgiven : Reach { selfAddress := { peerId := 1 } } (Keeps { selfAddress := { peerId := 1 } }) {} (given {}) :=
    .step (e := .dataInserted withPeer2 (fun _ => none) 2) .start trivial
  have htaken : Reach { selfAddress := { peerId := 1 } } (Keeps { selfAddress := { peerId := 1 } }) {}
      (takenOver (given {})) :=
    .step hgiven fun _ _ _ hown => absurd (by decide +kernel) hown
  exact ⟨hmap, ((indexed_of_reach _ {} _ InverseIndex.empty htaken).2.1 1 2).mpr hmap⟩

/-- Peer 1 has location 1 when peer 2 leaves, and does not find location 2 then. -/
theorem not_indexed_takenOver :
    Reach { selfAddress := { peerId := 1 } } (fun _ _ => True) {} (takenOver (given own)) ∧
      (takenOver (given own)).store.responsibilityMap.get 2 = some 1 ∧
      2 ∉ locations (takenOver (given own)) 1 ∧ ¬(takenOver (given own)).store.Indexed := by
  have hmap : (takenOver (given own)).store.responsibilityMap.get 2 = some 1 := by decide +kernel
  have hlost : 2 ∉ locations (takenOver (given own)) 1 := by decide +kernel
  exact ⟨.step (.step (.step .start trivial) trivial) trivial, hmap, hlost,
    fun h => hlost ((mem_locations h 1 2).mpr hmap)⟩

end Replication

end TomP2P
