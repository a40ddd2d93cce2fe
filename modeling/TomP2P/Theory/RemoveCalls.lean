import TomP2P.Theory.RangeRemoval

/-!
# What a Listener Is Told of a Removal

A request for a range removes its keys in one call of the storage layer, and the listener is
told at the end, of every key that has the status `OK`, or of every key of the answer if the
values are sent back. A key that was refused is in that answer too, without a value.

A request for a collection tells the listener of a key when it is removed, and once more at
the end (`told_twice`).

The condition under which a request is told and answered as it should be is therefore that
nothing of a collection is removed, and that everything of a range is removed if the values
are sent back. In a range with the status of each key nothing can go wrong.

## Main definitions

* `RemoveMessage.Asks`: The request asks for a key.
* `Proper`: The listener is told of each removed key, and the answer is right.
* `RemoveMessage.Fits`: The condition.

## Theorems

* `onStore_ok`, `removeAndNotify_cases`: One call.
* `answerData_run`, `answerStatus_run`: The listener is told at the end.
* `collection_iff`, `rangeStatus_iff`, `rangeData_iff`: The kinds of requests.
* `handleRemove_proper_iff`: All requests.
* `handleRemove_recorded`: The handler with the replication as the listener.
-/

namespace TomP2P

open Effect NavMap List

namespace StorageMemory

variable {m m' : StorageMemory} {gone : Number640 → Prop}

theorem mem_goneIn (k : Number640) :
    k ∈ m.goneIn m' ↔ (m.get k).isSome = true ∧ m'.get k = none := by
  rw [goneIn, mem_filter, mem_keys_iff]
  change (m.get k).isSome = true ∧ (!(m'.get k).isSome) = true ↔ _
  simp

theorem nodup_goneIn : (m.goneIn m').Nodup := m.dataMap.nodup_keys.filter _

/-- What a call has removed is what its effects say. -/
theorem mem_goneIn_of_effects (h : Effects m m' gone) (k : Number640) :
    k ∈ m.goneIn m' ↔ (m.get k).isSome = true ∧ gone k := by
  rw [mem_goneIn]
  by_cases hk : gone k
  · simp [hk, h.removed k hk]
  · rw [h.kept k hk]
    simp only [hk, and_false, iff_false]
    rintro ⟨hsome, hnone⟩
    simp [hnone] at hsome

theorem goneIn_self : m.goneIn m = [] := by
  rw [eq_nil_iff_forall_not_mem]
  intro k hk
  rcases (mem_goneIn k).mp hk with ⟨hsome, hnone⟩
  simp [hnone] at hsome

theorem goneIn_drop (key : Number640) (h : (m.get key).isSome = true) :
    m.goneIn ((m.removeTimeout key).remove key) = [key] := by
  rw [← perm_singleton]
  refine (perm_ext_iff_of_nodup nodup_goneIn (nodup_singleton key)).mpr fun k => ?_
  rw [mem_goneIn_of_effects (StorageLayer.effects_drop m key), mem_singleton]
  constructor
  · exact fun hk => hk.2
  · rintro rfl
    exact ⟨h, rfl⟩

end StorageMemory

open StorageLayer

namespace StorageRPC.Recorded

variable {sl : StorageLayer} {listener : DataRemoved} {publicKey : Option PublicKey}

-- One call

theorem onStore_ok {α : Type} {program : StoreM α} {s : Removing} {a : α} {m : StorageMemory}
    (h : program s.store = .ok a m) :
    onStore program s = .ok a { s with store := m, removed := s.removed ++ s.store.goneIn m } := by
  unfold onStore
  rw [h]

theorem onStore_error {α : Type} {program : StoreM α} {s : Removing} {e : JavaException}
    {m : StorageMemory} (h : program s.store = .error e m) :
    onStore program s =
      .error e { s with store := m, removed := s.removed ++ s.store.goneIn m } := by
  unfold onStore
  rw [h]

/-- A key of a collection that is not removed changes nothing. -/
theorem removeAndNotify_kept (h : ¬sl.Throws publicKey) (sendBackResults : Bool) (key : Number640)
    (s : Removing) (hkept : ¬sl.Removable publicKey s.store key) :
    removeAndNotify sl listener publicKey sendBackResults key s =
      .ok (none, if sl.claimable s.store publicKey key then .NOT_FOUND else .FAILED_SECURITY) s := by
  have hremove : sl.remove key publicKey sendBackResults s.store = .ok
      (none, if sl.claimable s.store publicKey key then .NOT_FOUND else .FAILED_SECURITY)
      s.store := by
    rw [remove_spec h]
    by_cases hclaim : sl.claimable s.store publicKey key = true
    · have habsent : ¬(s.store.get key).isSome = true := fun hsome => hkept ⟨hsome, hclaim⟩
      rw [if_pos hclaim, if_pos hclaim, if_neg habsent]
    · rw [if_neg hclaim, if_neg hclaim]
  rw [removeAndNotify, bind_apply, onStore_ok hremove]
  dsimp only
  rw [StorageMemory.goneIn_self, append_nil, bind_apply, notifyRemoveResponsibility,
    if_neg]
  · rfl
  · split <;> simp

variable (listener) in
/-- A key of a collection that is removed is told. -/
theorem removeAndNotify_removed (h : ¬sl.Throws publicKey) (sendBackResults : Bool)
    (key : Number640) (s : Removing) (hgone : sl.Removable publicKey s.store key) :
    ∃ store, removeAndNotify sl listener publicKey sendBackResults key s =
      .ok (s.store.get key, .OK)
        { store := store, removed := s.removed ++ [key], told := s.told ++ [key.locationKey] } := by
  have hremove := remove_spec h key sendBackResults s.store
  rw [if_pos hgone.2, if_pos hgone.1] at hremove
  rw [removeAndNotify, bind_apply, onStore_ok hremove]
  dsimp only
  rw [StorageMemory.goneIn_drop key hgone.1]
  exact ⟨_, rfl⟩

-- The end

/-- A loop that tells the listener of some of its elements. -/
theorem forM_told {E : Type} (f : E → RemovingM Unit) (P : E → Bool) (location : E → Number160)
    (hf : ∀ e s, ∃ store, f e s = .ok ()
      { s with store := store, told := s.told ++ if P e then [location e] else [] })
    (entries : List E) (s : Removing) :
    ∃ store, entries.forM f s = .ok ()
      { s with store := store, told := s.told ++ (entries.filter P).map location } := by
  induction entries generalizing s with
  | nil => exact ⟨s.store, by simp⟩
  | cons e rest ih =>
      rcases hf e s with ⟨store, hfirst⟩
      rcases ih { s with store := store, told := s.told ++ if P e then [location e] else [] } with
        ⟨store', hrest⟩
      refine ⟨store', ?_⟩
      change (f e >>= fun _ => rest.forM f) s = _
      rw [bind_apply, hfirst]
      dsimp only
      rw [hrest]
      cases hP : P e <;> simp [hP]

theorem notify_ok (locationKey : Number160) (s : Removing) :
    ∃ store, notifyRemoveResponsibility listener locationKey .OK s =
      .ok () { s with store := store, told := s.told ++ [locationKey] } := ⟨_, rfl⟩

variable (listener) in
/-- With the values the listener is told of every key of the answer. -/
theorem answerData_run (result1 : NavMap Number640 (Option Data)) (s : Removing) :
    ∃ store, answerData listener result1 s = .ok (.dataMap result1)
      { s with store := store, told := s.told ++ result1.keys.map Number640.locationKey } := by
  rcases forM_told (fun entry : Number640 × Option Data =>
      notifyRemoveResponsibility listener entry.1.locationKey .OK) (fun _ => true)
    (fun entry => entry.1.locationKey) (fun e s => by simpa using notify_ok e.1.locationKey s)
    result1.entries s with ⟨store, hloop⟩
  refine ⟨store, ?_⟩
  rw [answerData, bind_apply, hloop]
  simp [NavMap.keys, Function.comp_def]

/-- The keys to which an answer gives `OK`. -/
def okKeys (result2 : NavMap Number640 Wire.Byte) : List Number640 :=
  (result2.entries.filter fun entry => entry.2 = PutStatus.OK.ordinal).map Prod.fst

variable (listener) in
/-- With the status of each key it is told of those that are `OK`. -/
theorem answerStatus_run (result2 : NavMap Number640 Wire.Byte) (s : Removing) :
    ∃ store, answerStatus listener result2 s = .ok (.keyMapByte result2)
      { s with store := store, told := s.told ++ (okKeys result2).map Number640.locationKey } := by
  rcases forM_told (fun entry : Number640 × Wire.Byte =>
      if entry.2 = PutStatus.OK.ordinal then
        notifyRemoveResponsibility listener entry.1.locationKey .OK
      else pure ()) (fun entry => entry.2 = PutStatus.OK.ordinal)
    (fun entry => entry.1.locationKey) (fun e s => by
      by_cases he : e.2 = PutStatus.OK.ordinal
      · simpa [he] using notify_ok e.1.locationKey s
      · exact ⟨s.store, by simp [he]⟩) result2.entries s with ⟨store, hloop⟩
  refine ⟨store, ?_⟩
  rw [answerStatus, bind_apply, hloop]
  simp [okKeys, Function.comp_def]

theorem mem_okKeys (result2 : NavMap Number640 Wire.Byte) (k : Number640) :
    k ∈ okKeys result2 ↔ result2.get k = some PutStatus.OK.ordinal := by
  rw [okKeys, get_eq_some_iff]
  simp

theorem nodup_okKeys (result2 : NavMap Number640 Wire.Byte) : (okKeys result2).Nodup :=
  result2.nodup_keys.sublist (filter_sublist.map Prod.fst)

-- Collections

section Collection

variable {β : Type} (g : β → Number640 → Option Data × PutStatus → β)

/-- The loop over a collection, with what it does to its answer. -/
def collectionLoop (sl : StorageLayer) (listener : DataRemoved) (publicKey : Option PublicKey)
    (sendBackResults : Bool) (keys : List Number640) (b : β) : RemovingM β :=
  keys.foldlM (fun b key => do
    let data ← removeAndNotify sl listener publicKey sendBackResults key
    return g b key data) b

theorem collectionLoop_cons (sendBackResults : Bool) (key : Number640) (rest : List Number640)
    (b : β) (s : Removing) :
    collectionLoop g sl listener publicKey sendBackResults (key :: rest) b s =
      match removeAndNotify sl listener publicKey sendBackResults key s with
      | .ok data s' =>
          collectionLoop g sl listener publicKey sendBackResults rest (g b key data) s'
      | .error e s' => .error e s' := by
  rw [collectionLoop, foldlM_cons, bind_apply, bind_apply]
  cases removeAndNotify sl listener publicKey sendBackResults key s <;> rfl

/-- If nothing of the collection is removed, nothing happens but the answers. -/
theorem collectionLoop_kept (h : ¬sl.Throws publicKey) (sendBackResults : Bool)
    (keys : List Number640) (b : β) (s : Removing)
    (hkept : ∀ k ∈ keys, ¬sl.Removable publicKey s.store k) :
    collectionLoop g sl listener publicKey sendBackResults keys b s =
      .ok (keys.foldl (fun b key => g b key
        (none, if sl.claimable s.store publicKey key then .NOT_FOUND else .FAILED_SECURITY)) b) s := by
  induction keys generalizing b with
  | nil => rfl
  | cons key rest ih =>
      rw [collectionLoop_cons, removeAndNotify_kept h sendBackResults key s
        (hkept key mem_cons_self)]
      exact ih _ fun k hk => hkept k (mem_cons_of_mem _ hk)

/-- Whatever the listener does, the loop tells it as often as it removes a key, and never
    less than before. -/
theorem collectionLoop_told (h : ¬sl.Throws publicKey) (sendBackResults : Bool)
    (keys : List Number640) (b b' : β) (s s' : Removing)
    (hrun : collectionLoop g sl listener publicKey sendBackResults keys b s = .ok b' s') :
    s'.told.length + s.removed.length = s.told.length + s'.removed.length ∧
      s.removed.length ≤ s'.removed.length := by
  induction keys generalizing b s with
  | nil =>
      simp only [collectionLoop, foldlM_nil, pure_apply, EStateM.Result.ok.injEq] at hrun
      rw [hrun.2]
      exact ⟨rfl, le_rfl⟩
  | cons key rest ih =>
      rw [collectionLoop_cons] at hrun
      by_cases hgone : sl.Removable publicKey s.store key
      · rcases removeAndNotify_removed listener h sendBackResults key s hgone with
          ⟨store, hfirst⟩
        rw [hfirst] at hrun
        have hrest := ih _ _ hrun
        simp only [length_append, length_singleton] at hrest
        omega
      · rw [removeAndNotify_kept h sendBackResults key s hgone] at hrun
        exact ih _ _ hrun

/-- If some key of the collection may be removed, some key is. -/
theorem collectionLoop_removed (h : ¬sl.Throws publicKey) (sendBackResults : Bool)
    (keys : List Number640) (b b' : β) (s s' : Removing)
    (hrun : collectionLoop g sl listener publicKey sendBackResults keys b s = .ok b' s')
    (hgone : ∃ k ∈ keys, sl.Removable publicKey s.store k) :
    s.removed.length < s'.removed.length := by
  induction keys generalizing b with
  | nil => simp at hgone
  | cons key rest ih =>
      rw [collectionLoop_cons] at hrun
      by_cases hkey : sl.Removable publicKey s.store key
      · rcases removeAndNotify_removed listener h sendBackResults key s hkey with
          ⟨store, hfirst⟩
        rw [hfirst] at hrun
        have hrest := collectionLoop_told g h sendBackResults rest _ b' _ s' hrun
        simp only [length_append, length_singleton] at hrest
        omega
      · -- The first keys that are not removed leave the store as it is.
        rw [removeAndNotify_kept h sendBackResults key s hkey] at hrun
        refine ih _ hrun ?_
        rcases hgone with ⟨k, hk, hremovable⟩
        rcases mem_cons.mp hk with rfl | hrest
        · exact absurd hremovable hkey
        · exact ⟨k, hrest, hremovable⟩

end Collection

end StorageRPC.Recorded

/-- The request asks for the key: it names it in a collection, or the key is stored in its
    range. -/
def RemoveMessage.Asks (message : RemoveMessage) (m : StorageMemory) (k : Number640) : Prop :=
  (∃ keys, message.collection = some keys ∧ k ∈ keys) ∨
    ∃ r, message.range = some r ∧ (m.get k).isSome = true ∧ r.1 ≤ k ∧ k ≤ r.2

/-- The listener is told once for each key that was removed. The response can be encoded, and
    it lists as removed the keys that were removed, and as refused the keys the request asks
    for that are stored or may not be claimed and were not removed. -/
structure Proper (sl : StorageLayer) (message : RemoveMessage) (m : StorageMemory)
    (response : RemoveResponse) (s : Removing) : Prop where
  told : s.told.Perm (s.removed.map Number640.locationKey)
  encodable : response.Encodable
  removed : ∀ k, response.ListsRemoved k ↔ k ∈ s.removed
  refused : ∀ k, response.ListsRefused k ↔ message.Asks m k ∧ k ∉ s.removed ∧
    (sl.claimable m message.publicKey k = false ∨ (m.get k).isSome = true)

namespace StorageRPC.Recorded

variable {sl : StorageLayer} {listener : DataRemoved} {message : RemoveMessage}
  {m : StorageMemory}

/-- The answer of a collection whose values are sent back. -/
def addData (result1 : NavMap Number640 (Option Data)) (key : Number640)
    (data : Option Data × PutStatus) : NavMap Number640 (Option Data) :=
  if data.1.isSome then result1.put key data.1 else result1

def addStatus (result2 : NavMap Number640 Wire.Byte) (key : Number640)
    (data : Option Data × PutStatus) : NavMap Number640 Wire.Byte :=
  result2.put key data.2.ordinal

theorem removeCollection_eq (keys : List Number640) (publicKey : Option PublicKey)
    (sendBackResults : Bool) (s : Removing) :
    removeCollection sl listener keys publicKey sendBackResults s =
      if sendBackResults then
        (collectionLoop addData sl listener publicKey true keys .empty >>= answerData listener) s
      else
        (collectionLoop addStatus sl listener publicKey false keys .empty >>=
          answerStatus listener) s := by
  cases sendBackResults <;> rfl

-- Nothing of a collection is removed

/-- The status of a key that is not removed. -/
def keptStatus (sl : StorageLayer) (publicKey : Option PublicKey) (m : StorageMemory)
    (key : Number640) : PutStatus :=
  if sl.claimable m publicKey key then .NOT_FOUND else .FAILED_SECURITY

/-- The answer for a collection of which nothing is removed. -/
def keptAnswer (sl : StorageLayer) (publicKey : Option PublicKey) (m : StorageMemory)
    (keys : List Number640) (b : NavMap Number640 Wire.Byte) : NavMap Number640 Wire.Byte :=
  keys.foldl (fun b key => addStatus b key (none, keptStatus sl publicKey m key)) b

theorem keptAnswer_get (publicKey : Option PublicKey) (keys : List Number640)
    (b : NavMap Number640 Wire.Byte) (k : Number640) :
    (keptAnswer sl publicKey m keys b).get k =
      if k ∈ keys then some (keptStatus sl publicKey m k).ordinal else b.get k := by
  induction keys generalizing b with
  | nil => simp [keptAnswer]
  | cons key rest ih =>
      refine (ih _).trans ?_
      simp only [addStatus, get_put]
      by_cases hrest : k ∈ rest
      · simp [hrest]
      · by_cases hk : k = key
        · simp [hk]
        · simp [hrest, hk]

theorem keptAnswer_ne_ok (publicKey : Option PublicKey) (keys : List Number640) (k : Number640) :
    (keptAnswer sl publicKey m keys .empty).get k ≠ some PutStatus.OK.ordinal := by
  rw [keptAnswer_get, keptStatus]
  by_cases hin : k ∈ keys
  · cases sl.claimable m publicKey k <;> simp [hin, PutStatus.ordinal]
  · simp [hin]

section Kept

variable {keys : List Number640} (hkeys : message.collection = some keys)
  (hrange : message.range = none) (h : keys ≠ [] → ¬sl.Throws message.publicKey)
  (hkept : ∀ k ∈ keys, ¬sl.Removable message.publicKey m k)

include hkeys hrange in
theorem asks_collection_iff (k : Number640) : message.Asks m k ↔ k ∈ keys := by
  simp [RemoveMessage.Asks, hkeys, hrange]

include h hkept in
theorem collectionLoop_nothing (sendBackResults : Bool) {β : Type}
    (g : β → Number640 → Option Data × PutStatus → β) (b : β) :
    collectionLoop g sl listener message.publicKey sendBackResults keys b { store := m } =
      .ok (keys.foldl (fun b key => g b key (none, keptStatus sl message.publicKey m key)) b)
        { store := m } := by
  cases keys with
  | nil => rfl
  | cons key rest =>
      exact collectionLoop_kept g (h (cons_ne_nil _ _)) sendBackResults (key :: rest) b
        { store := m } hkept

include hkept in
/-- A key whose value stays was refused by the checks. -/
theorem refused_iff {k : Number640} (hk : k ∈ keys) :
    (sl.claimable m message.publicKey k = false ∨ (m.get k).isSome = true) ↔
      sl.claimable m message.publicKey k = false := by
  refine ⟨?_, .inl⟩
  rintro (hno | hsome)
  · exact hno
  · rw [Bool.eq_false_iff]
    exact fun hyes => hkept k hk ⟨hsome, hyes⟩

include hkeys hrange h hkept in
/-- The values of a collection of which nothing is removed and nothing is refused. -/
theorem collectionData_proper
    (hclaim : ∀ k ∈ keys, sl.claimable m message.publicKey k = true) :
    ∃ response s', removeCollection sl listener keys message.publicKey true { store := m } =
      .ok response s' ∧ Proper sl message m response s' := by
  have hempty : keys.foldl (fun b key => addData b key
      (none, keptStatus sl message.publicKey m key)) .empty = .empty := by
    simp [addData]
  rcases answerData_run listener .empty { store := m } with ⟨store, hanswer⟩
  rw [removeCollection_eq, if_pos rfl, bind_apply, collectionLoop_nothing h hkept, hempty]
  refine ⟨_, _, hanswer, List.Perm.refl _, by simp [RemoveResponse.Encodable],
    by simp [RemoveResponse.ListsRemoved], fun k => ?_⟩
  simp only [RemoveResponse.ListsRefused, get_empty, reduceCtorEq, false_iff]
  rintro ⟨hask, _, hno⟩
  have hin := (asks_collection_iff hkeys hrange k).mp hask
  rw [refused_iff hkept hin, hclaim k hin] at hno
  simp at hno

include hkeys hrange h hkept in
/-- The status of each key of a collection of which nothing is removed. -/
theorem collectionStatus_proper :
    ∃ response s', removeCollection sl listener keys message.publicKey false { store := m } =
      .ok response s' ∧ Proper sl message m response s' := by
  rcases answerStatus_run listener (keptAnswer sl message.publicKey m keys .empty)
    { store := m } with ⟨store, hanswer⟩
  rw [removeCollection_eq, if_neg Bool.false_ne_true, bind_apply,
    collectionLoop_nothing h hkept]
  refine ⟨_, _, hanswer, ?_, trivial, fun k => ?_, fun k => ?_⟩
  · have hnone : okKeys (keptAnswer sl message.publicKey m keys .empty) = [] := by
      rw [eq_nil_iff_forall_not_mem]
      exact fun k hk => keptAnswer_ne_ok message.publicKey keys k ((mem_okKeys _ k).mp hk)
    rw [hnone]
    exact List.Perm.refl _
  · simp only [RemoveResponse.ListsRemoved, keptAnswer_ne_ok, not_mem_nil]
  · rw [RemoveResponse.ListsRefused, keptAnswer_get, asks_collection_iff hkeys hrange]
    by_cases hin : k ∈ keys
    · rw [refused_iff hkept hin, keptStatus]
      cases sl.claimable m message.publicKey k <;> simp [hin, PutStatus.ordinal]
    · simp [hin]

end Kept

-- Something of a collection is removed

variable (listener) in
/-- A message whose key cannot be hashed throws at the first key. -/
theorem collectionLoop_throws {β : Type} (g : β → Number640 → Option Data × PutStatus → β)
    (publicKey : Option PublicKey) (h : sl.Throws publicKey) (sendBackResults : Bool)
    (keys : List Number640) (hne : keys ≠ []) (b : β) (s : Removing) :
    ∃ e s', collectionLoop g sl listener publicKey sendBackResults keys b s = .error e s' := by
  cases keys with
  | nil => exact absurd rfl hne
  | cons key rest =>
      rcases remove_error h s.store key sendBackResults with ⟨e, he⟩
      rw [collectionLoop_cons, removeAndNotify, bind_apply, onStore_error he]
      exact ⟨e, _, rfl⟩

/-- If the loop has removed a key, the listener is told too often at the end, or the answer
    lists nothing. -/
theorem told_twice {listed : List Number640} {s : Removing}
    (hcount : s.told.length = s.removed.length)
    (htold : (s.told ++ listed.map Number640.locationKey).Perm
      (s.removed.map Number640.locationKey)) : listed = [] := by
  have hlength := htold.length_eq
  simp only [length_append, length_map] at hlength
  exact length_eq_zero_iff.mp (by omega)

/-- A collection is answered as it should be only if nothing of it is removed, and nothing of
    it is refused if the values are sent back. -/
theorem collection_only {keys : List Number640} (hkeys : message.collection = some keys)
    (hrange : message.range = none) (sendBackResults : Bool) {response : RemoveResponse}
    {s' : Removing} (hrun : removeCollection sl listener keys message.publicKey sendBackResults
      { store := m } = .ok response s') (hproper : Proper sl message m response s') :
    (keys ≠ [] → ¬sl.Throws message.publicKey) ∧
      (∀ k ∈ keys, ¬sl.Removable message.publicKey m k) ∧
      (sendBackResults = true → ∀ k ∈ keys, sl.claimable m message.publicKey k = true) := by
  have hthrows : keys ≠ [] → ¬sl.Throws message.publicKey := by
    intro hne h
    rw [removeCollection_eq] at hrun
    cases sendBackResults with
    | true =>
        rcases collectionLoop_throws listener addData _ h true keys hne .empty
          { store := m } with ⟨e, s, he⟩
        simp [bind_apply, he] at hrun
    | false =>
        rcases collectionLoop_throws listener addStatus _ h false keys hne .empty
          { store := m } with ⟨e, s, he⟩
        simp [bind_apply, he] at hrun
  have hkept : ∀ k ∈ keys, ¬sl.Removable message.publicKey m k := by
    intro k hk hgone
    have hno := hthrows (ne_nil_of_mem hk)
    rw [removeCollection_eq] at hrun
    cases sendBackResults with
    | true =>
        rw [if_pos rfl] at hrun
        rcases (bind_ok_iff _ _ _ _ _).mp hrun with ⟨result1, s₁, hloop, hanswer⟩
        have hcount := collectionLoop_told addData hno true keys .empty result1 _ s₁ hloop
        have hsome := collectionLoop_removed addData hno true keys .empty result1 _ s₁ hloop
          ⟨k, hk, hgone⟩
        rcases answerData_run listener result1 s₁ with ⟨store, hrun'⟩
        rw [hanswer, EStateM.Result.ok.injEq] at hrun'
        rcases hrun' with ⟨rfl, rfl⟩
        have hnothing := told_twice (by simpa using hcount.1) hproper.told
        -- The answer lists nothing, but something was removed.
        refine absurd hsome (by
          rw [not_lt, length_nil, Nat.le_zero, length_eq_zero_iff,
            eq_nil_iff_forall_not_mem]
          intro k' hk'
          rcases (hproper.removed k').mpr hk' with ⟨d, hd⟩
          have hin := (mem_keys_iff result1 k').mpr
            ((contains_iff result1 k').mpr ⟨_, hd⟩)
          simp [hnothing] at hin)
    | false =>
        rw [if_neg Bool.false_ne_true] at hrun
        rcases (bind_ok_iff _ _ _ _ _).mp hrun with ⟨result2, s₁, hloop, hanswer⟩
        have hcount := collectionLoop_told addStatus hno false keys .empty result2 _ s₁ hloop
        have hsome := collectionLoop_removed addStatus hno false keys .empty result2 _ s₁ hloop
          ⟨k, hk, hgone⟩
        rcases answerStatus_run listener result2 s₁ with ⟨store, hrun'⟩
        rw [hanswer, EStateM.Result.ok.injEq] at hrun'
        rcases hrun' with ⟨rfl, rfl⟩
        have hnothing := told_twice (by simpa using hcount.1) hproper.told
        refine absurd hsome (by
          rw [not_lt, length_nil, Nat.le_zero, length_eq_zero_iff,
            eq_nil_iff_forall_not_mem]
          intro k' hk'
          have hin := (mem_okKeys result2 k').mpr ((hproper.removed k').mpr hk')
          simp [hnothing] at hin)
  refine ⟨hthrows, hkept, ?_⟩
  rintro rfl k hk
  -- Nothing is in the answer, so nothing may have been refused.
  have hempty : keys.foldl (fun b key => addData b key
      (none, keptStatus sl message.publicKey m key)) .empty = .empty := by
    simp [addData]
  rcases answerData_run listener .empty { store := m } with ⟨store, hanswer⟩
  rw [removeCollection_eq, if_pos rfl, bind_apply, collectionLoop_nothing hthrows hkept,
    hempty] at hrun
  dsimp only at hrun
  rw [hanswer, EStateM.Result.ok.injEq] at hrun
  rcases hrun with ⟨rfl, rfl⟩
  have hrefused := hproper.refused k
  rw [asks_collection_iff hkeys hrange, refused_iff hkept hk] at hrefused
  simpa [RemoveResponse.ListsRefused, hk] using hrefused

-- Ranges

section Range

variable {fromKey toKey : Number640} {publicKey : Option PublicKey}

/-- What the storage layer throws, the handler throws. -/
theorem removeRange_error {e e' : JavaException}
    (hdata : sl.removeReturnData fromKey toKey publicKey m = .error e m)
    (hstatus : sl.removeReturnStatus fromKey toKey publicKey m = .error e' m)
    (sendBackResults : Bool) (response : RemoveResponse) (s' : Removing) :
    removeRange sl listener fromKey toKey publicKey sendBackResults { store := m } ≠
      .ok response s' := by
  unfold removeRange
  cases sendBackResults with
  | true => simp [bind_apply, onStore_error (s := { store := m }) hdata]
  | false => simp [bind_apply, onStore_error (s := { store := m }) hstatus]

/-- A range is handled only if its ends are in order, and the key of the message can be hashed
    if there is something in the range. -/
theorem range_only (sendBackResults : Bool) {response : RemoveResponse} {s' : Removing}
    (hrun : removeRange sl listener fromKey toKey publicKey sendBackResults { store := m } =
      .ok response s') :
    ∃ tmp, m.subMap fromKey toKey = .ok tmp ∧ (tmp.keys ≠ [] → ¬sl.Throws publicKey) := by
  rcases hsub : m.subMap fromKey toKey with e | tmp
  · rcases removeReturn_error hsub with ⟨hdata, hstatus⟩
    exact absurd hrun (removeRange_error hdata hstatus sendBackResults response s')
  · refine ⟨tmp, rfl, fun hne h => ?_⟩
    cases hkeys : tmp.keys with
    | nil => exact hne hkeys
    | cons key rest =>
        -- The first key of the range throws.
        rcases removeData_error h m key .empty with ⟨e, he⟩
        rcases remove_error h m key false with ⟨e', he'⟩
        have hdata : sl.removeReturnData fromKey toKey publicKey m = .error e m := by
          rw [removeReturnData_eq hsub, hkeys, foldlM_cons, bind_apply, he]
        have hstatus : sl.removeReturnStatus fromKey toKey publicKey m = .error e' m := by
          rw [removeReturnStatus_eq hsub, hkeys, foldlM_cons, bind_apply,
            map_apply, he']
        exact removeRange_error hdata hstatus sendBackResults response s' hrun

end Range

section Range

variable {r : Number640 × Number640} (hcollection : message.collection = none)
  (hrange : message.range = some r) {tmp : NavMap Number640 Data}
  (hsub : m.subMap r.1 r.2 = .ok tmp) (h : tmp.keys ≠ [] → ¬sl.Throws message.publicKey)

include hcollection hrange hsub in
theorem asks_range_iff (k : Number640) : message.Asks m k ↔ k ∈ tmp.keys := by
  rw [mem_range hsub]
  simp [RemoveMessage.Asks, hcollection, hrange]

include hcollection hrange hsub h in
/-- A range is always answered as it should be with the status of each key. -/
theorem rangeStatus_proper :
    ∃ response s', removeRange sl listener r.1 r.2 message.publicKey false { store := m } =
      .ok response s' ∧ Proper sl message m response s' := by
  have hstored : ∀ k ∈ tmp.keys, (m.get k).isSome = true := fun k hk => ((mem_range hsub k).mp hk).1
  rcases statusLoop_get tmp.keys h tmp.nodup_keys m hstored with ⟨statuses, m₁, hloop, heffects, hget⟩
  have hstore := onStore_ok (s := { store := m }) ((removeReturnStatus_eq hsub).trans hloop)
  rcases answerStatus_run listener statuses
    { store := m₁, removed := [] ++ m.goneIn m₁ } with ⟨store, hanswer⟩
  have hremoved : ∀ k, k ∈ m.goneIn m₁ ↔ k ∈ tmp.keys ∧ sl.claimable m message.publicKey k = true := by
    intro k
    rw [StorageMemory.mem_goneIn_of_effects heffects]
    exact ⟨fun hk => hk.2, fun hk => ⟨hstored k hk.1, hk⟩⟩
  have hok : ∀ k, statuses.get k = some PutStatus.OK.ordinal ↔ k ∈ m.goneIn m₁ := by
    intro k
    rw [hget, hremoved, statusAnswer]
    by_cases hin : k ∈ tmp.keys
    · cases sl.claimable m message.publicKey k <;> simp [hin, PutStatus.ordinal]
    · simp [hin]
  have hrun : removeRange sl listener r.1 r.2 message.publicKey false { store := m } =
      answerStatus listener statuses { store := m₁, removed := [] ++ m.goneIn m₁ } := by
    rw [removeRange, if_neg Bool.false_ne_true, bind_apply, hstore]
  refine ⟨_, _, hrun.trans hanswer, ?_, trivial, hok, fun k => ?_⟩
  · -- The keys that are `OK` are those that are gone.
    refine List.Perm.map _ ((perm_ext_iff_of_nodup (nodup_okKeys statuses)
      StorageMemory.nodup_goneIn).mpr fun k => ?_)
    rw [mem_okKeys, hok]
  · rw [RemoveResponse.ListsRefused, asks_range_iff hcollection hrange hsub, hget, statusAnswer]
    by_cases hin : k ∈ tmp.keys
    · rw [if_pos hin, nil_append, hremoved]
      cases sl.claimable m message.publicKey k <;> simp [hin, PutStatus.ordinal]
    · simp [hin]

include hcollection hrange hsub h in
/-- A range whose values are sent back is answered as it should be if everything in it is
    removed, and only then. -/
theorem rangeData_proper_iff :
    (∃ response s', removeRange sl listener r.1 r.2 message.publicKey true { store := m } =
      .ok response s' ∧ Proper sl message m response s') ↔
      ∀ k ∈ tmp.keys, sl.claimable m message.publicKey k = true ∧ ByAuthor message.publicKey m k := by
  have hstored : ∀ k ∈ tmp.keys, (m.get k).isSome = true := fun k hk => ((mem_range hsub k).mp hk).1
  rcases dataLoop_get tmp.keys h tmp.nodup_keys m hstored with ⟨datas, m₁, hloop, heffects, hget⟩
  have hstore := onStore_ok (s := { store := m }) ((removeReturnData_eq hsub).trans hloop)
  rcases answerData_run listener datas
    { store := m₁, removed := [] ++ m.goneIn m₁ } with ⟨store, hanswer⟩
  have hremoved : ∀ k, k ∈ m.goneIn m₁ ↔
      k ∈ tmp.keys ∧ sl.claimable m message.publicKey k = true ∧ ByAuthor message.publicKey m k := by
    intro k
    rw [StorageMemory.mem_goneIn_of_effects heffects]
    exact ⟨fun hk => hk.2, fun hk => ⟨hstored k hk.1, hk⟩⟩
  have hrun : removeRange sl listener r.1 r.2 message.publicKey true { store := m } =
      answerData listener datas { store := m₁, removed := [] ++ m.goneIn m₁ } := by
    rw [removeRange, if_pos rfl, bind_apply, hstore]
  rw [hrun, hanswer]
  constructor
  · rintro ⟨response, s', heq, hproper⟩ k hk
    rw [EStateM.Result.ok.injEq] at heq
    rcases heq with ⟨rfl, rfl⟩
    have hasked := (asks_range_iff hcollection hrange hsub k).mpr hk
    by_contra hkept
    -- A key that stays would have to be listed without a value.
    have hnot : k ∉ [] ++ m.goneIn m₁ := by
      rw [nil_append, hremoved]
      exact fun hgone => hkept hgone.2
    exact hproper.encodable k ((hproper.refused k).mpr ⟨hasked, hnot, .inr (hstored k hk)⟩)
  · intro hall
    have hdatas : ∀ k, datas.get k = if k ∈ tmp.keys then some (m.get k) else none := by
      intro k
      rw [hget, dataAnswer]
      by_cases hin : k ∈ tmp.keys
      · rw [if_pos hin, if_pos hin, if_pos (hall k hin).1, if_pos (hall k hin).2]
      · rw [if_neg hin, if_neg hin]
    have hgone : ∀ k, k ∈ m.goneIn m₁ ↔ k ∈ tmp.keys := by
      intro k
      rw [hremoved]
      exact ⟨fun hk => hk.1, fun hk => ⟨hk, hall k hk⟩⟩
    refine ⟨_, _, rfl, ?_, fun k => ?_, fun k => ?_, fun k => ?_⟩
    · refine List.Perm.map _ ((perm_ext_iff_of_nodup datas.nodup_keys
        StorageMemory.nodup_goneIn).mpr fun k => ?_)
      rw [hgone, mem_keys_iff, NavMap.contains, hdatas]
      by_cases hin : k ∈ tmp.keys <;> simp [hin]
    · rw [hdatas]
      by_cases hin : k ∈ tmp.keys
      · rcases Option.isSome_iff_exists.mp (hstored k hin) with ⟨d, hd⟩
        simp [hin, hd]
      · simp [hin]
    · rw [RemoveResponse.ListsRemoved, hdatas, nil_append, hgone]
      by_cases hin : k ∈ tmp.keys
      · rcases Option.isSome_iff_exists.mp (hstored k hin) with ⟨d, hd⟩
        simp [hin, hd]
      · simp [hin]
    · rw [RemoveResponse.ListsRefused, hdatas, nil_append, hgone,
        asks_range_iff hcollection hrange hsub]
      by_cases hin : k ∈ tmp.keys
      · rcases Option.isSome_iff_exists.mp (hstored k hin) with ⟨d, hd⟩
        simp [hin, hd]
      · simp [hin]

end Range

/-- A request is for a collection, or for a range, or it is refused. -/
theorem handleRemove_cases (message : RemoveMessage) (sendBackResults : Bool) :
    (∃ keys, message.collection = some keys ∧ message.range = none ∧
      handleRemove sl listener message sendBackResults =
        removeCollection sl listener keys message.publicKey sendBackResults) ∨
    (∃ r, message.collection = none ∧ message.range = some r ∧
      handleRemove sl listener message sendBackResults =
        removeRange sl listener r.1 r.2 message.publicKey sendBackResults) ∨
    (message.collection = none ∧ message.range = none ∧
      ∃ e, handleRemove sl listener message sendBackResults = throw e) := by
  unfold RemoveMessage.collection RemoveMessage.range handleRemove
  rcases message with ⟨locationKey, domainKey, keys, publicKey, returnNr⟩
  cases keys with
  | none =>
      rcases locationKey with _ | locationKey
      · exact .inr (.inr ⟨by cases returnNr <;> rfl, rfl, _, rfl⟩)
      · rcases domainKey with _ | domainKey
        · exact .inr (.inr ⟨by cases returnNr <;> rfl, rfl, _, rfl⟩)
        · exact .inr (.inl ⟨_, by cases returnNr <;> rfl, rfl, rfl⟩)
  | some keys =>
      cases returnNr with
      | none =>
          refine .inl ⟨keys, rfl, ?_, rfl⟩
          rcases keys with _ | ⟨_, _ | ⟨_, _⟩⟩ <;> rfl
      | some returnNr =>
          rcases keys with _ | ⟨fromKey, _ | ⟨toKey, keys⟩⟩
          · exact .inr (.inr ⟨rfl, rfl, _, rfl⟩)
          · exact .inr (.inr ⟨rfl, rfl, _, rfl⟩)
          · exact .inr (.inl ⟨_, rfl, rfl, rfl⟩)

end StorageRPC.Recorded

/-- Nothing of a collection is removed, and nothing of it is refused if the values are sent
    back. The ends of a range are in order, and everything in it is removed if the values are
    sent back. The key of the message can be hashed if there is a key to look at. -/
def RemoveMessage.Fits (sl : StorageLayer) (message : RemoveMessage) (sendBackResults : Bool)
    (m : StorageMemory) : Prop :=
  (∃ keys, message.collection = some keys ∧ (keys ≠ [] → ¬sl.Throws message.publicKey) ∧
    (∀ k ∈ keys, ¬sl.Removable message.publicKey m k) ∧
    (sendBackResults = true → ∀ k ∈ keys, sl.claimable m message.publicKey k = true)) ∨
  (∃ r, message.range = some r ∧ r.1 ≤ r.2 ∧
    ((∃ k, message.Asks m k) → ¬sl.Throws message.publicKey) ∧
    (sendBackResults = true → ∀ k, message.Asks m k →
      sl.claimable m message.publicKey k = true ∧ ByAuthor message.publicKey m k))

/-- **Requests to remove values.** The listener is told once for each removed key and the
    response is as it should be exactly if the request fits, whatever the listener does. -/
theorem handleRemove_proper_iff (sl : StorageLayer) (listener : DataRemoved)
    (message : RemoveMessage) (sendBackResults : Bool) (m : StorageMemory) :
    (∃ response s, StorageRPC.Recorded.handleRemove sl listener message sendBackResults
      { store := m } = .ok response s ∧ Proper sl message m response s) ↔
      message.Fits sl sendBackResults m := by
  have hcases := @StorageRPC.Recorded.handleRemove_cases sl listener message sendBackResults
  rcases hcases with ⟨keys, hkeys, hrange, heq⟩ | ⟨r, hkeys, hrange, heq⟩ | ⟨hkeys, hrange, e, heq⟩
  · rw [heq, RemoveMessage.Fits, hkeys, hrange]
    simp only [Option.some.injEq, exists_eq_left', reduceCtorEq, false_and, exists_false, or_false]
    constructor
    · rintro ⟨response, s, hrun, hproper⟩
      exact StorageRPC.Recorded.collection_only hkeys hrange sendBackResults hrun hproper
    · rintro ⟨hthrows, hkept, hclaim⟩
      cases sendBackResults with
      | true =>
          exact StorageRPC.Recorded.collectionData_proper hkeys hrange hthrows hkept (hclaim rfl)
      | false => exact StorageRPC.Recorded.collectionStatus_proper hkeys hrange hthrows hkept
  · rw [heq, RemoveMessage.Fits, hkeys, hrange]
    simp only [Option.some.injEq, exists_eq_left', reduceCtorEq, false_and, exists_false, false_or]
    constructor
    · rintro ⟨response, s, hrun, hproper⟩
      rcases StorageRPC.Recorded.range_only sendBackResults hrun with ⟨tmp, hsub, hthrows⟩
      have hasks := StorageRPC.Recorded.asks_range_iff hkeys hrange hsub
      refine ⟨?_, fun ⟨k, hk⟩ => hthrows (ne_nil_of_mem ((hasks k).mp hk)), ?_⟩
      · unfold StorageMemory.subMap at hsub
        split at hsub
        · simp at hsub
        · exact not_lt.mp ‹_›
      · rintro rfl k hk
        exact (StorageRPC.Recorded.rangeData_proper_iff hkeys hrange hsub hthrows).mp
          ⟨response, s, hrun, hproper⟩ k ((hasks k).mp hk)
    · rintro ⟨hle, hthrows, hall⟩
      have hsub : ∃ tmp, m.subMap r.1 r.2 = .ok tmp := by
        unfold StorageMemory.subMap
        rw [if_neg (not_lt.mpr hle)]
        exact ⟨_, rfl⟩
      rcases hsub with ⟨tmp, hsub⟩
      have hasks := StorageRPC.Recorded.asks_range_iff hkeys hrange hsub
      have hno : tmp.keys ≠ [] → ¬sl.Throws message.publicKey := by
        intro hne
        rcases exists_mem_of_ne_nil _ hne with ⟨k, hk⟩
        exact hthrows ⟨k, (hasks k).mpr hk⟩
      cases sendBackResults with
      | true =>
          exact (StorageRPC.Recorded.rangeData_proper_iff hkeys hrange hsub hno).mpr
            fun k hk => hall rfl k ((hasks k).mpr hk)
      | false => exact StorageRPC.Recorded.rangeStatus_proper hkeys hrange hsub hno
  · rw [heq, RemoveMessage.Fits, hkeys, hrange]
    simp

/-- A value is removed, and the listener hears of it twice. -/
theorem removed_once_told_twice :
    let key : Number640 := ⟨1, 2, 3, 4⟩
    let m := after (put {} key (Data.new [7#8] 1000) none false false false) {}
    let message : RemoveMessage := { keys := some [key] }
    ∃ response s, StorageRPC.Recorded.handleRemove {} (fun _ m => m) message false { store := m } =
        .ok response s ∧ s.removed = [key] ∧ s.told = [1, 1] ∧ ¬Proper {} message m response s := by
  intro key m message
  refine ⟨.keyMapByte (NavMap.empty.put key PutStatus.OK.ordinal),
    { store := (m.removeTimeout key).remove key, removed := [key], told := [1, 1] }, ?_, rfl, rfl, ?_⟩
  · rfl
  · intro h
    exact absurd h.told.length_eq (by decide)

-- The replication as the listener

/-- What the replication does to the store when it is told of a location. -/
def ReplicationListener.onRemoved (l : ReplicationListener) : DataRemoved := fun locationKey m =>
  (l.replication.dataRemoved l.neighborhood { store := m } locationKey).store

namespace StorageRPC.Recorded

variable {sl : StorageLayer} {l : ReplicationListener} {s : Replication.State} {t : Removing}

/-- The same answer and the same store. -/
def Same {α : Type} (a : α) (s : Replication.State) (b : α) (t : Removing) : Prop :=
  a = b ∧ s.store = t.store

/-- Both programs return the same and leave the same store, or both throw and leave the same
    store. -/
abbrev Agree {α : Type} (x : ReplicaM α) (y : RemovingM α) (s : Replication.State) (t : Removing) :
    Prop :=
  Effect.InStep Same (fun s t => s.store = t.store) x y s t

theorem agree_onStore {α : Type} (program : StoreM α) (h : s.store = t.store) :
    Agree (TomP2P.onStore program) (onStore program) s t := by
  unfold Agree Effect.InStep TomP2P.onStore onStore
  rw [h]
  cases program t.store with
  | ok a m => exact ⟨rfl, rfl⟩
  | error e m => rfl

theorem agree_notify (locationKey : Number160) (status : PutStatus) (h : s.store = t.store) :
    Agree (StorageRPC.notifyRemoveResponsibility (some l) locationKey status)
      (notifyRemoveResponsibility l.onRemoved locationKey status) s t := by
  unfold StorageRPC.notifyRemoveResponsibility notifyRemoveResponsibility
  by_cases hok : status = .OK
  · rw [if_pos hok, if_pos hok]
    refine ⟨rfl, ?_⟩
    change (l.replication.dataRemoved l.neighborhood s locationKey).store =
      (l.replication.dataRemoved l.neighborhood { store := t.store } locationKey).store
    unfold Replication.dataRemoved Replication.removeResponsibility
    rw [← h]
    split <;> rfl
  · rw [if_neg hok, if_neg hok]
    exact ⟨rfl, h⟩

theorem agree_removeAndNotify (publicKey : Option PublicKey) (sendBackResults : Bool)
    (key : Number640) (h : s.store = t.store) :
    Agree (StorageRPC.removeAndNotify sl (some l) publicKey sendBackResults key)
      (removeAndNotify sl l.onRemoved publicKey sendBackResults key) s t := by
  refine (agree_onStore _ h).bind ?_
  rintro data s₁ _ t₁ ⟨rfl, h₁⟩
  refine (agree_notify key.locationKey data.2 h₁).bind ?_
  rintro _ s₂ _ t₂ ⟨_, h₂⟩
  exact ⟨rfl, h₂⟩

theorem agree_collectionLoop {β : Type} (g : β → Number640 → Option Data × PutStatus → β)
    (publicKey : Option PublicKey) (sendBackResults : Bool) (keys : List Number640) (b : β)
    (h : s.store = t.store) :
    Agree (keys.foldlM (fun b key => do
        let data ← StorageRPC.removeAndNotify sl (some l) publicKey sendBackResults key
        return g b key data) b)
      (collectionLoop g sl l.onRemoved publicKey sendBackResults keys b) s t := by
  refine foldlM_inStep (fun _ => Same) _ _ ?_ keys b b s t ⟨rfl, h⟩
  rintro key rest b s _ t ⟨rfl, h⟩
  refine (agree_removeAndNotify publicKey sendBackResults key h).bind ?_
  rintro data s₁ _ t₁ ⟨rfl, h₁⟩
  exact ⟨rfl, h₁⟩

theorem agree_answerData (result1 : NavMap Number640 (Option Data)) (h : s.store = t.store) :
    Agree (StorageRPC.answerData (some l) result1) (answerData l.onRemoved result1) s t := by
  refine (forM_inStep (fun s t => s.store = t.store) _ _ ?_ result1.entries s t h).bind ?_
  · intro entry s t h
    exact (agree_notify entry.1.locationKey .OK h).mono fun _ _ _ _ h' => h'.2
  · exact fun _ _ _ _ h' => ⟨rfl, h'⟩

theorem agree_answerStatus (result2 : NavMap Number640 Wire.Byte) (h : s.store = t.store) :
    Agree (StorageRPC.answerStatus (some l) result2) (answerStatus l.onRemoved result2) s t := by
  refine (forM_inStep (fun s t => s.store = t.store) _ _ ?_ result2.entries s t h).bind ?_
  · intro entry s t h
    by_cases hok : entry.2 = PutStatus.OK.ordinal
    · rw [if_pos hok, if_pos hok]
      exact (agree_notify entry.1.locationKey .OK h).mono fun _ _ _ _ h' => h'.2
    · rw [if_neg hok, if_neg hok]
      exact h
  · exact fun _ _ _ _ h' => ⟨rfl, h'⟩

/-- With the replication as its listener the handler is the one of `Core.StorageRPC`. -/
theorem handleRemove_recorded (message : RemoveMessage) (sendBackResults : Bool)
    (h : s.store = t.store) :
    Agree (StorageRPC.handleRemove sl (some l) message sendBackResults)
      (handleRemove sl l.onRemoved message sendBackResults) s t := by
  have hcollection (keys : List Number640) :
      Agree (StorageRPC.removeCollection sl (some l) keys message.publicKey sendBackResults)
        (removeCollection sl l.onRemoved keys message.publicKey sendBackResults) s t := by
    cases sendBackResults with
    | true =>
        refine (agree_collectionLoop addData message.publicKey true keys .empty h).bind ?_
        rintro result1 s₁ _ t₁ ⟨rfl, h₁⟩
        exact agree_answerData result1 h₁
    | false =>
        refine (agree_collectionLoop addStatus message.publicKey false keys .empty h).bind ?_
        rintro result2 s₁ _ t₁ ⟨rfl, h₁⟩
        exact agree_answerStatus result2 h₁
  have hrange (fromKey toKey : Number640) :
      Agree (StorageRPC.removeRange sl (some l) fromKey toKey message.publicKey sendBackResults)
        (removeRange sl l.onRemoved fromKey toKey message.publicKey sendBackResults) s t := by
    cases sendBackResults with
    | true =>
        refine (agree_onStore _ h).bind ?_
        rintro result1 s₁ _ t₁ ⟨rfl, h₁⟩
        exact agree_answerData result1 h₁
    | false =>
        refine (agree_onStore _ h).bind ?_
        rintro result2 s₁ _ t₁ ⟨rfl, h₁⟩
        exact agree_answerStatus result2 h₁
  rcases message with ⟨locationKey, domainKey, keys, publicKey, returnNr⟩
  cases keys with
  | none =>
      rcases locationKey with _ | locationKey
      · exact h
      · rcases domainKey with _ | domainKey
        · exact h
        · exact hrange _ _
  | some keys =>
      cases returnNr with
      | none => exact hcollection keys
      | some returnNr =>
          rcases keys with _ | ⟨fromKey, _ | ⟨toKey, keys⟩⟩
          · exact h
          · exact h
          · exact hrange fromKey toKey

end StorageRPC.Recorded

end TomP2P
