import TomP2P.Theory.Responsibility

/-!
# Replicas and their Hand-over

A peer that is not in the replication range of a location anymore hands it over: it
tells another peer, and drops the location. Dropping a location before it was handed
over may lose the last copy, so the handlers wait for the future of the notice. One of
them does not: with 0-root replication a peer that comes in makes this peer drop the
locations that it is not in the range of anymore right after the notice.

## Main definitions

* `Replication.Dropped`: A step has dropped values of a location, or the location.
* `Replication.HandedOver`: Another peer was told about a location.
* `Replication.Waits`: The transfers of the locations to be dropped are done at once.

## Theorems

* `Replication.Handed.trans`: Steps that drop only what was handed over.
* `Replication.handed_step`: The events.
* `Replication.handed_of_reach`: Every step of a run.
-/

namespace TomP2P

open List

namespace Replication

open StorageMemory

variable {r : Replication} {n : Neighborhood} {answers : Answers} {s s' s'' : State} {l : Number160}

/-- A value of the location is gone, or the responsibility for it. -/
def Dropped (s s' : State) (l : Number160) : Prop :=
  (∃ k : Number640, k.locationKey = l ∧ (s.store.get k).isSome = true ∧ s'.store.get k = none) ∨
    ((s.store.responsibilityMap.get l).isSome = true ∧ s'.store.responsibilityMap.get l = none)

/-- A future about another peer that is responsible for the location was successful. -/
def HandedOver (s : State) (l : Number160) : Prop :=
  ∃ f ∈ s.futures, (∃ other, f.notice = .otherResponsible l other) ∧ f.completed = some true

/-- Only futures about another peer drop a location when they are completed. -/
def AboutOthers (s : State) : Prop :=
  ∀ f ∈ s.futures, f.removes = true → ∃ other, f.notice = .otherResponsible f.notice.locationKey other

/-- What was dropped was handed over, and what was handed over stays so. -/
structure Handed (s s' : State) : Prop where
  kept : ∀ l, HandedOver s l → HandedOver s' l
  about : AboutOthers s → AboutOthers s'
  drops : ∀ l, Dropped s s' l → HandedOver s' l

theorem Handed.refl (s : State) : Handed s s where
  kept := fun _ h => h
  about := fun h => h
  drops := by
    rintro l (⟨k, -, hsome, hnone⟩ | ⟨hsome, hnone⟩)
    · rw [hnone] at hsome
      cases hsome
    · rw [hnone] at hsome
      cases hsome

/-- What is gone in the end was dropped by the one step or by the other. -/
theorem Handed.trans (h : Handed s s') (h' : Handed s' s'') : Handed s s'' where
  kept := fun l hl => h'.kept l (h.kept l hl)
  about := fun ha => h'.about (h.about ha)
  drops := by
    rintro l (⟨k, hk, hsome, hnone⟩ | ⟨hsome, hnone⟩)
    · rcases hmid : s'.store.get k with _ | d
      · exact h'.kept l (h.drops l (.inl ⟨k, hk, hsome, hmid⟩))
      · exact h'.drops l (.inl ⟨k, hk, by rw [hmid]; rfl, hnone⟩)
    · rcases hmid : s'.store.responsibilityMap.get l with _ | p
      · exact h'.kept l (h.drops l (.inr ⟨hsome, hmid⟩))
      · exact h'.drops l (.inr ⟨by rw [hmid]; rfl, hnone⟩)

/-- Nothing is dropped and nobody is told. -/
theorem handed_of_keeps (hfutures : s'.futures = s.futures)
    (hget : ∀ k, (s.store.get k).isSome = true → (s'.store.get k).isSome = true)
    (hmap : ∀ l, (s.store.responsibilityMap.get l).isSome = true →
      (s'.store.responsibilityMap.get l).isSome = true) : Handed s s' where
  kept := by
    unfold HandedOver
    rw [hfutures]
    exact fun _ h => h
  about := by
    unfold AboutOthers
    rw [hfutures]
    exact fun h => h
  drops := by
    rintro l (⟨k, -, hsome, hnone⟩ | ⟨hsome, hnone⟩)
    · have hstill := hget k hsome
      rw [hnone] at hstill
      cases hstill
    · have hstill := hmap l hsome
      rw [hnone] at hstill
      cases hstill

/-- Dropping a location drops nothing of the others. -/
theorem handed_drop (h : HandedOver s l) : Handed s (r.removeResponsibility s l) where
  kept := fun _ hl => hl
  about := fun ha => ha
  drops := by
    intro l' hdropped
    obtain ⟨m', heq, hresp, -, -, -, hget⟩ := StorageLayer.after_removeResponsibility l r.keepData s.store
    obtain ⟨_, _, hsame⟩ := removeResponsibility_eq m' l
    have hsame_get : ∀ k, (r.removeResponsibility s l).store.get k = m'.get k := by
      intro k
      unfold removeResponsibility
      dsimp only
      rw [heq, hsame]
      rfl
    have hmap : (r.removeResponsibility s l).store.responsibilityMap = s.store.responsibilityMap.remove l := by
      unfold removeResponsibility
      dsimp only
      rw [heq, removeResponsibility_responsibilityMap, hresp]
    suffices hl : l' = l by
      rw [hl]
      exact h
    by_contra hne
    rcases hdropped with ⟨k, hk, hsome, hnone⟩ | ⟨hsome, hnone⟩
    · rw [hsame_get, hget, if_neg (fun hand => hne (hk.symm.trans hand.2))] at hnone
      rw [hnone] at hsome
      cases hsome
    · rw [hmap, NavMap.get_remove_ne _ _ _ hne] at hnone
      rw [hnone] at hsome
      cases hsome

/-- A future more, and the store is the same. -/
theorem handed_append (s : State) (f : Notified)
    (h : f.removes = true → ∃ other, f.notice = .otherResponsible f.notice.locationKey other) :
    Handed s { s with futures := s.futures ++ [f] } where
  kept := by
    rintro l ⟨f', hf', hrest⟩
    exact ⟨f', mem_append_left _ hf', hrest⟩
  about := by
    intro ha f' hf'
    rcases mem_append.mp hf' with hold | hnew
    · exact ha f' hold
    · rw [mem_singleton] at hnew
      rw [hnew]
      exact h
  drops := fun l hdropped => by
    obtain ⟨f', hf', hrest⟩ := (Handed.refl s).drops l hdropped
    exact ⟨f', mem_append_left _ hf', hrest⟩

theorem handed_notify (s : State) (notice : Notice) (removes : Bool)
    (h : removes = true → ∃ other, notice = .otherResponsible notice.locationKey other) :
    Handed s (r.notify answers s notice removes) := by
  unfold notify
  dsimp only
  have happend := handed_append s { notice, removes, completed := answers notice } h
  split
  · next hif =>
      rw [Bool.and_eq_true, decide_eq_true_iff] at hif
      refine happend.trans (handed_drop ?_)
      exact ⟨_, mem_append_right _ (mem_singleton_self _), h hif.1, hif.2⟩
  · exact happend

theorem handed_update (s : State) (locationKey peerId : Number160) :
    Handed s { s with store := s.store.updateResponsibilities locationKey peerId } := by
  refine handed_of_keeps rfl ?_ ?_
  · intro k hk
    rw [updateResponsibilities_eq]
    exact hk
  · intro l hl
    rw [updateResponsibilities_eq]
    dsimp only
    rw [NavMap.get_put]
    split
    · rfl
    · exact hl

theorem handed_updateAndNotify (s : State) (locationKey peerId : Number160) (notice : Notice) :
    Handed s (r.updateAndNotify answers s locationKey peerId notice) := by
  have hupdate := handed_update s locationKey peerId
  unfold updateAndNotify
  dsimp only
  split
  · exact hupdate.trans (handed_notify _ _ _ fun h => Bool.noConfusion h)
  · exact hupdate

theorem handed_dataInserted (s : State) (locationKey : Number160) :
    Handed s (r.dataInserted n answers s locationKey) := by
  unfold dataInserted
  dsimp only
  split
  · exact Handed.refl s
  · split
    · split <;> exact handed_updateAndNotify _ _ _ _
    · split
      · exact handed_updateAndNotify _ _ _ _
      · exact handed_notify _ _ _ fun _ => ⟨_, rfl⟩

/-- A location that is dropped at once has been transferred at once. -/
theorem handed_peerInsertedAt (peerAddress : PeerAddress) (s : State) (locationKey : Number160)
    (h : r.nRootReplication = false → (r.closest n locationKey).peerId ≠ r.selfAddress.peerId →
      r.isInReplicationRange n locationKey r.selfAddress = false →
        answers (.otherResponsible locationKey (r.closest n locationKey)) = some true) :
    Handed s (r.peerInsertedAt n answers peerAddress s locationKey) := by
  unfold peerInsertedAt
  dsimp only
  split
  · next hroot =>
      rw [Bool.not_eq_true'] at hroot
      split
      · next hother =>
          split
          · exact handed_updateAndNotify _ _ _ _
          · next hrange =>
              rw [Bool.not_eq_true] at hrange
              refine (handed_notify s _ false fun hfalse => Bool.noConfusion hfalse).trans (handed_drop ?_)
              exact ⟨_, mem_append_right _ (mem_singleton_self _), ⟨_, rfl⟩, h hroot hother hrange⟩
      · split
        · split <;>
            exact (handed_update s _ _).trans (handed_notify _ _ _ fun hfalse => Bool.noConfusion hfalse)
        · exact Handed.refl s
  · split
    · split
      · exact handed_notify _ _ _ fun hfalse => Bool.noConfusion hfalse
      · exact handed_notify _ _ _ fun _ => ⟨_, rfl⟩
    · split
      · exact handed_notify _ _ _ fun _ => ⟨_, rfl⟩
      · exact Handed.refl s

/-- A loop of steps that drop only what was handed over. -/
theorem handed_foldl {f : State → Number160 → State} (ls : List Number160) (s : State)
    (h : ∀ l ∈ ls, ∀ s, Handed s (f s l)) : Handed s (ls.foldl f s) := by
  induction ls generalizing s with
  | nil => exact Handed.refl s
  | cons l ls ih =>
      exact (h l mem_cons_self s).trans (ih _ fun k hk => h k (mem_cons_of_mem _ hk))

theorem handed_restore (peerAddress : PeerAddress) (s : State) (locationKey : Number160) :
    Handed s (r.restore n answers peerAddress s locationKey) := by
  unfold restore
  split
  · exact handed_notify _ _ _ fun hfalse => Bool.noConfusion hfalse
  · exact Handed.refl s

theorem handed_peerRemovedAt (acc : State × Bool) (locationKey : Number160) :
    Handed acc.1 (r.peerRemovedAt n answers acc locationKey).1 := by
  unfold peerRemovedAt
  dsimp only
  generalize (if (r.closest n locationKey).peerId = r.selfAddress.peerId then Notice.meResponsible locationKey
    else .otherResponsible locationKey (r.closest n locationKey)) = notice
  split
  · refine (handed_updateAndNotify _ _ _ _).trans (handed_of_keeps rfl ?_ ?_)
    · intro k hk
      unfold removeFromView
      split <;> exact hk
    · intro l hl
      dsimp only
      rw [removeFromView_responsibilityMap]
      exact hl
  · exact handed_updateAndNotify _ _ _ _

theorem handed_peerRemoved (s : State) (peerAddress : PeerAddress) :
    Handed s (r.peerRemoved n answers s peerAddress) := by
  have hrestore (ls : List Number160) (s : State) : Handed s (ls.foldl (r.restore n answers peerAddress) s) :=
    handed_foldl ls s fun l _ s => handed_restore peerAddress s l
  have hloop (ls : List Number160) (acc : State × Bool) :
      Handed acc.1 (ls.foldl (r.peerRemovedAt n answers) acc).1 := by
    induction ls generalizing acc with
    | nil => exact Handed.refl _
    | cons l ls ih => exact (handed_peerRemovedAt acc l).trans (ih _)
  unfold peerRemoved
  dsimp only
  split
  · exact Handed.refl s
  · split
    · exact (hloop _ (s, _)).trans (hrestore _ _)
    · exact hrestore _ _

/-- A future that drops a location is about it, and was successful then. -/
theorem handed_complete (ha : AboutOthers s) (i : Nat) (success : Bool) : Handed s (r.complete s i success) := by
  unfold complete
  rcases hget : s.futures[i]? with _ | f
  · exact Handed.refl s
  · dsimp only
    split
    · exact Handed.refl s
    · next hpending =>
        have hmem : f ∈ s.futures := mem_of_getElem? hget
        have hlt : i < s.futures.length := (List.getElem?_eq_some_iff.mp hget).1
        have hset : Handed s { s with futures := s.futures.set i { f with completed := some success } } := by
          refine ⟨?_, ?_, ?_⟩
          · -- A future that was successful is not completed again.
            rintro l ⟨f', hf', habout, hsuccess⟩
            refine ⟨f', ?_, habout, hsuccess⟩
            obtain ⟨j, hj, hfj⟩ := mem_iff_getElem.mp hf'
            have hij : i ≠ j := by
              rintro rfl
              rw [getElem?_eq_getElem hlt, Option.some.injEq] at hget
              rw [← hget, hfj, hsuccess] at hpending
              exact hpending rfl
            have hj' : j < (s.futures.set i { f with completed := some success }).length := by
              rw [length_set]
              exact hj
            refine mem_iff_getElem.mpr ⟨j, hj', ?_⟩
            rw [getElem_set_ne hij]
            exact hfj
          · intro ha f' hf' hremoves
            rcases mem_or_eq_of_mem_set hf' with hold | hnew
            · exact ha f' hold hremoves
            · subst hnew
              exact ha f hmem hremoves
          · intro l hdropped
            exact absurd ((Handed.refl { s with futures := [] }).drops l hdropped) fun ⟨f', hf', _⟩ =>
              absurd hf' not_mem_nil
        split
        · next hif =>
            rw [Bool.and_eq_true] at hif
            refine hset.trans (handed_drop ⟨{ f with completed := some success }, ?_, ha f hmem hif.1, ?_⟩)
            · exact mem_set hlt _
            · rw [hif.2]
        · exact hset

/-- With 0-root replication, the own locations that this peer is not in the range of
    anymore are transferred before the listeners return. -/
def Waits (r : Replication) (s : State) : Event → Prop
  | .peerInserted n answers _ verified =>
      n.isReplication = true → verified = true → r.nRootReplication = false →
        ∀ l ∈ locations s r.selfAddress.peerId, (r.closest n l).peerId ≠ r.selfAddress.peerId →
          r.isInReplicationRange n l r.selfAddress = false →
            answers (.otherResponsible l (r.closest n l)) = some true
  | _ => True

/-- The events that are not about data that was removed by somebody. -/
def IsReplication : Event → Prop
  | .dataRemoved _ _ => False
  | .use _ _ => False
  | _ => True

theorem handed_step (ha : AboutOthers s) {e : Event} (hwaits : r.Waits s e) (he : IsReplication e) :
    Handed s (r.step s e) := by
  cases e with
  | dataInserted n answers l => exact handed_dataInserted s l
  | dataRemoved n l | use values expired => exact he.elim
  | peerInserted n answers peerAddress verified =>
      unfold step peerInserted
      dsimp only
      split
      · exact Handed.refl s
      · next hif =>
          rw [Bool.not_eq_true, Bool.or_eq_false_iff, Bool.not_eq_false', Bool.not_eq_false'] at hif
          refine handed_foldl _ s fun l hl s' => ?_
          exact handed_peerInsertedAt peerAddress s' l fun hroot => hwaits hif.1 hif.2 hroot l hl
  | peerRemoved n answers peerAddress => exact handed_peerRemoved s peerAddress
  | complete i success => exact handed_complete ha i success

theorem about_step (ha : AboutOthers s) {e : Event} (hwaits : r.Waits s e) : AboutOthers (r.step s e) := by
  by_cases he : IsReplication e
  · exact (handed_step ha hwaits he).about ha
  · cases e with
    | dataRemoved n l =>
        unfold step dataRemoved
        dsimp only
        split <;> exact ha
    | use values expired => exact ha
    | dataInserted n answers l | peerInserted n answers peerAddress verified
    | peerRemoved n answers peerAddress | complete i success => exact absurd trivial he

theorem about_of_reach (h : s.futures = []) (hreach : Reach r r.Waits s s') : AboutOthers s' := by
  induction hreach with
  | start =>
      intro f hf
      rw [h] at hf
      exact absurd hf not_mem_nil
  | step _ hcond ih => exact about_step ih hcond

/-- In a run in which such locations are transferred at once, every step drops only what
    was handed over, and a future that fails drops nothing. -/
theorem handed_of_reach (r : Replication) (s s' : State) (h : s.futures = []) (hreach : Reach r r.Waits s s')
    (e : Event) (hwaits : r.Waits s' e) (he : IsReplication e) :
    (∀ l, Dropped s' (r.step s' e) l → HandedOver (r.step s' e) l) ∧
      ∀ i, e = .complete i false → (r.step s' e).store = s'.store := by
  refine ⟨(handed_step (about_of_reach h hreach) hwaits he).drops, ?_⟩
  rintro i rfl
  unfold step complete
  dsimp only
  split
  · rfl
  · split
    · rfl
    · rw [Bool.and_false, if_neg Bool.false_ne_true]

/-- A value of location 2. -/
def stored : State := { store := { dataMap := NavMap.empty.put ⟨2, 0, 0, 0⟩ (Data.new [7#8] 1000) } }

/-- Peer 1 knows peer 2, and one peer is enough for a location. -/
def onlyClosest : Neighborhood := { withPeer2 with replicationFactor := 1 }

/-- Peer 1 with n-root replication gets data that belongs to peer 2. -/
def refused : State :=
  step { selfAddress := { peerId := 1 }, nRootReplication := true } stored
    (.dataInserted onlyClosest (fun _ => none) 2)

/-- It waits until peer 2 was told. -/
theorem handed_refused :
    Dropped refused
        (step { selfAddress := { peerId := 1 }, nRootReplication := true } refused (.complete 0 true)) 2 ∧
      HandedOver (step { selfAddress := { peerId := 1 }, nRootReplication := true } refused (.complete 0 true)) 2 := by
  have hreach : Reach { selfAddress := { peerId := 1 }, nRootReplication := true }
      (Waits { selfAddress := { peerId := 1 }, nRootReplication := true }) stored refused :=
    .step (e := .dataInserted onlyClosest (fun _ => none) 2) .start trivial
  have hdropped : Dropped refused
      (step { selfAddress := { peerId := 1 }, nRootReplication := true } refused (.complete 0 true)) 2 :=
    .inl ⟨⟨2, 0, 0, 0⟩, rfl, by decide +kernel, by decide +kernel⟩
  exact ⟨hdropped, (handed_of_reach _ stored refused rfl hreach (.complete 0 true) trivial trivial).1 2 hdropped⟩

/-- Peer 1 with 0-root replication gets the same data before it knows peer 2. -/
def accepted : State :=
  step { selfAddress := { peerId := 1 } } stored (.dataInserted alone (fun _ => none) 2)

/-- Peer 2 comes in, and peer 1 tells it and drops the data without waiting. -/
def abandoned : State :=
  step { selfAddress := { peerId := 1 } } accepted (.peerInserted onlyClosest (fun _ => none) { peerId := 2 } true)

theorem not_handed_abandoned :
    Reach { selfAddress := { peerId := 1 } } (fun _ _ => True) stored abandoned ∧
      (accepted.store.get ⟨2, 0, 0, 0⟩).isSome = true ∧ abandoned.store.get ⟨2, 0, 0, 0⟩ = none ∧
      accepted.store.responsibilityMap.get 2 = some 1 ∧ abandoned.store.responsibilityMap.get 2 = none ∧
      (∀ f ∈ abandoned.futures, f.completed ≠ some true) ∧
      ¬∀ l, Dropped accepted abandoned l → HandedOver abandoned l := by
  have hbefore : (accepted.store.get ⟨2, 0, 0, 0⟩).isSome = true := by decide +kernel
  have hafter : abandoned.store.get ⟨2, 0, 0, 0⟩ = none := by decide +kernel
  have hnone : ∀ f ∈ abandoned.futures, f.completed ≠ some true := by decide +kernel
  refine ⟨.step (.step .start trivial) trivial, hbefore, hafter, by decide +kernel, by decide +kernel, hnone, ?_⟩
  intro hall
  obtain ⟨f, hf, -, hsuccess⟩ := hall 2 (.inl ⟨⟨2, 0, 0, 0⟩, rfl, hbefore, hafter⟩)
  exact hnone f hf hsuccess

end Replication

end TomP2P
