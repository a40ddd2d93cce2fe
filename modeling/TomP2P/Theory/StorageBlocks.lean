import TomP2P.Core.StorageThreads
import TomP2P.Theory.RangeExclusion

/-!
# Blocks of the Storage Layer

What the operations of a storage layer hold and what they are going to ask for.

Which lock an operation takes while it holds another one is said by
`StorageCall.Nests`. A command says under which locks it is run, and an action
leaves only commands that are run under the same ones. What is stored has to be
known for that: the versions that `putAll` comes to are inside of its range only if
no other one is stored, and the keys that `removeReturnStatus` locks one by one are
no ends of its range only if none of the ends is stored.

The locks are those that were granted. An operation that was interrupted misses
one of them; then its keys are not covered, and all the rest is as before.

## Main definitions

* `StorageCall.guarded`: The operations that work on keys.
* `StorageCall.Nests`: The locks of a block, and those held around it.
* `StorageAction.Ok`, `StorageCmd.Ok`: The locks under which a command is run.
* `StorageAction.VersionsInside`, `StorageAction.EndsFree`: What has to be stored,
  or not.

## Theorems

* `StorageCall.Nests.rangeLock`: The ranges of keys that an operation holds have no
  end in common.
* `StorageAction.Ok.run`: What an action leaves is run under the same locks.
* `ok_commands`: An operation starts under no lock.
-/

namespace TomP2P

open NavMap List

open RangeLock (Range Guards)

namespace StorageCall

/-- The operations that work on keys under the lock on ranges of keys. -/
def guarded : StorageCall → Bool
  | .op (.checkTimeout _) => false
  | .op (.removeResponsibility _ _) => false
  | .op _ => true
  | .read _ => true
  | .contains _ => true
  | .findContentForResponsiblePeerID _ => false
  | .findPeerIDsForResponsibleContent _ => false
  | .updateResponsibilities _ _ => false

/-- The locks that a block of an operation takes, and those that are held around
    it if all of them were granted. -/
inductive Nests : StorageCall → Set StorageLock → List StorageLock → Prop
  | range {c : StorageCall} (h : c.guarded = true) (range : Range Number640) : Nests c ∅ [⟨.rangeLock, range⟩]
  | status {fromKey toKey key : Number640} {publicKey : Option PublicKey} (hfrom : fromKey < key)
      (hto : key < toKey) {outer : Set StorageLock} (houter : outer ⊆ {.between fromKey toKey}) :
      Nests (.op (.removeReturnStatus fromKey toKey publicKey)) outer [.ofKey key]
  | expire (time : Int) (key : Number640) : Nests (.op (.checkTimeout time)) ∅ [.ofKey key]
  | leave (time : Int) {key : Number640} {outer : Set StorageLock} (houter : outer ⊆ {.ofKey key}) :
      Nests (.op (.checkTimeout time)) outer [.responsibility key.locationKey]
  | responsibility {c : StorageCall} (h : c.guarded = false) (id : Number160) : Nests c ∅ [.responsibility id]
  | drop {locationKey : Number160} {outer : Set StorageLock} (houter : outer ⊆ {.responsibility locationKey}) :
      Nests (.op (.removeResponsibility locationKey false)) outer [.ofLocation locationKey]
  | update (locationKey peerId : Number160) :
      Nests (.updateResponsibilities locationKey peerId) ∅ [.responsibility peerId, .responsibility locationKey]

/-- Fewer locks may be held around a block. -/
theorem Nests.mono {c : StorageCall} {outer outer' : Set StorageLock} {locks : List StorageLock}
    (h : Nests c outer locks) (hsub : outer' ⊆ outer) : Nests c outer' locks := by
  cases h with
  | range hc range =>
      rw [Set.subset_empty_iff.mp hsub]
      exact .range hc range
  | status hfrom hto houter => exact .status hfrom hto (hsub.trans houter)
  | expire time key =>
      rw [Set.subset_empty_iff.mp hsub]
      exact .expire time key
  | leave time houter => exact .leave time (hsub.trans houter)
  | responsibility hc id =>
      rw [Set.subset_empty_iff.mp hsub]
      exact .responsibility hc id
  | drop houter => exact .drop (hsub.trans houter)
  | update locationKey peerId =>
      rw [Set.subset_empty_iff.mp hsub]
      exact .update locationKey peerId

/-- A lock on keys is the only one of its block, and it has no end in common with
    those that are held around it. -/
theorem Nests.rangeLock {c : StorageCall} {outer : Set StorageLock} {locks : List StorageLock}
    (h : Nests c outer locks) {lock : StorageLock} (hin : lock ∈ locks) (htable : lock.table = .rangeLock) :
    locks = [lock] ∧ ∀ q ∈ outer, q.table = .rangeLock → ¬ lock.range.SharesEnd q.range := by
  cases h with
  | range _ range =>
      rw [mem_singleton] at hin
      subst hin
      exact ⟨rfl, fun q hq => hq.elim⟩
  | status hfrom hto houter =>
      rw [mem_singleton] at hin
      subst hin
      refine ⟨rfl, ?_⟩
      rintro q hq _ ⟨k, hk, hk'⟩
      rw [houter hq] at hk'
      -- the one key is the only end, and it lies between the two others
      have hkey : k = _ := hk.elim id id
      subst hkey
      rcases hk' with heq | heq
      · exact absurd heq hfrom.ne'
      · exact absurd heq hto.ne
  | expire time key =>
      rw [mem_singleton] at hin
      subst hin
      exact ⟨rfl, fun q hq => hq.elim⟩
  | leave time houter =>
      rw [mem_singleton] at hin
      subst hin
      cases htable
  | responsibility _ id =>
      rw [mem_singleton] at hin
      subst hin
      cases htable
  | drop houter =>
      rw [mem_singleton] at hin
      subst hin
      refine ⟨rfl, ?_⟩
      intro q hq hq'
      rw [houter hq] at hq'
      cases hq'
  | update locationKey peerId =>
      rw [mem_pair] at hin
      rcases hin with rfl | rfl <;> cases htable

/-- A lock on responsibilities is one on an id. -/
theorem Nests.responsibilityLock {c : StorageCall} {outer : Set StorageLock} {locks : List StorageLock}
    (h : Nests c outer locks) {lock : StorageLock} (hin : lock ∈ locks)
    (htable : lock.table = .responsibilityLock) : ∃ id, lock = .responsibility id := by
  cases h with
  | range | status | expire | drop =>
      rw [mem_singleton] at hin
      subst hin
      cases htable
  | @leave _ key =>
      rw [mem_singleton] at hin
      exact ⟨key.locationKey, hin⟩
  | responsibility _ id =>
      rw [mem_singleton] at hin
      exact ⟨id, hin⟩
  | update locationKey peerId =>
      rw [mem_pair] at hin
      rcases hin with rfl | rfl
      · exact ⟨peerId, rfl⟩
      · exact ⟨locationKey, rfl⟩

/-- A block has one lock, or it is that of an update. -/
theorem Nests.single_or_update {c : StorageCall} {outer : Set StorageLock} {locks : List StorageLock}
    (h : Nests c outer locks) :
    (∃ lock, locks = [lock]) ∨
      ∃ locationKey peerId, c = .updateResponsibilities locationKey peerId ∧ outer = ∅ ∧
        locks = [.responsibility peerId, .responsibility locationKey] := by
  cases h with
  | update locationKey peerId => exact .inr ⟨locationKey, peerId, rfl, rfl, rfl⟩
  | _ => exact .inl ⟨_, rfl⟩

end StorageCall

namespace StorageAction

/-- The versions of the content that are stored lie in the range that is written. -/
def VersionsInside (m : StorageMemory) : StorageAction → Prop
  | .forkNext span content _ | .trim span content | .trimPoll span content =>
      ∀ key, m.contains key = true → key.locationAndDomainAndContentKey = content → span.Has key
  | _ => True

/-- None of the two ends of the range that is removed is stored. -/
def EndsFree (m : StorageMemory) : StorageAction → Prop
  | .statusNext fromKey toKey _ _ => m.contains fromKey = false ∧ m.contains toKey = false
  | _ => True

/-- An operation on keys has locked a range with the property. With `strict` it
    was not interrupted. -/
def Covered (strict : Prop) (c : StorageCall) (outer : Set StorageLock) (p : Range Number640 → Prop) : Prop :=
  strict → c.guarded = true → ∃ range, ⟨.rangeLock, range⟩ ∈ outer ∧ p range

/-- The locks under which an action is run by an operation. -/
def Ok (strict : Prop) (c : StorageCall) (outer : Set StorageLock) : StorageAction → Prop
  | .putDomain _ key _ | .putEntry _ key _ | .putGet _ key _ | .put key _ | .addTimeout key _
  | .removeTimeout key | .remove key | .removeClaim key _ | .removeContains key | .dataClaim key _
  | .dataGet key _ | .get key | .contains key | .digestContains key | .amendEntry _ _ key _
  | .amendGet _ key _ => Covered strict c outer fun range => range.Has key
  | .forkNext span _ _ | .trim span _ | .trimPoll span _ => Covered strict c outer fun range => range = span
  | .dataNext fromKey toKey _ _ | .copyNext fromKey toKey _ _ _ _ =>
      Covered strict c outer fun range => range = ⟨fromKey, toKey⟩
  | .statusNext fromKey toKey publicKey _ =>
      c = .op (.removeReturnStatus fromKey toKey publicKey) ∧ outer ⊆ {.between fromKey toKey} ∧
        Covered strict c outer fun range => range = ⟨fromKey, toKey⟩
  | .metaDomain .. => True
  | .subMapTimeout _ => (∃ time, c = .op (.checkTimeout time)) ∧ outer = ∅
  | .leave locationKey =>
      (∃ time, c = .op (.checkTimeout time)) ∧
        ∃ key : Number640, key.locationKey = locationKey ∧ outer ⊆ {.ofKey key}
  | .drop locationKey =>
      c = .op (.removeResponsibility locationKey false) ∧ outer ⊆ {.responsibility locationKey}
  | .isEmpty _ | .removeResponsibility _ | .removeRange _ | .readResponsibility _
  | .updateResponsibilities _ _ => c.guarded = false

variable {strict : Prop} {c : StorageCall} {outer outer' : Set StorageLock}

theorem Covered.imp {p q : Range Number640 → Prop} (h : Covered strict c outer p)
    (hpq : strict → ∀ range, p range → q range) : Covered strict c outer q := by
  intro hstrict hguarded
  obtain ⟨range, hin, hp⟩ := h hstrict hguarded
  exact ⟨range, hin, hpq hstrict range hp⟩

theorem Covered.lose {p : Range Number640 → Prop} (hloose : strict → c.guarded = false) :
    Covered strict c outer p := by
  intro hstrict hguarded
  rw [hloose hstrict] at hguarded
  cases hguarded

/-- A lock that was not granted is missed by operations on keys only. -/
theorem Ok.lose (hloose : strict → c.guarded = false) (hsub : outer' ⊆ outer) {a : StorageAction}
    (h : a.Ok strict c outer) : a.Ok strict c outer' := by
  cases a
  case statusNext => exact ⟨h.1, hsub.trans h.2.1, Covered.lose hloose⟩
  case subMapTimeout => exact ⟨h.1, Set.subset_empty_iff.mp (h.2 ▸ hsub)⟩
  case leave =>
      obtain ⟨hc, key, hkey, houter⟩ := h
      exact ⟨hc, key, hkey, hsub.trans houter⟩
  case drop => exact ⟨h.1, hsub.trans h.2⟩
  case metaDomain => trivial
  all_goals first
    | exact Covered.lose hloose
    | exact h

/-- The next entry of a view is a stored one of its range. -/
theorem nextEntry_some {m : StorageMemory} {fromKey toKey : Number640} {ascending : Bool}
    {cursor : Option Number640} {entry : Number640 × Data}
    (h : nextEntry m fromKey toKey ascending cursor = some entry) :
    fromKey ≤ entry.1 ∧ entry.1 ≤ toKey ∧ m.contains entry.1 = true := by
  have hview : entry ∈ (m.dataMap.subMap fromKey toKey).entries := by
    cases cursor with
    | none =>
        cases ascending with
        | true => exact mem_of_mem_head? h
        | false => exact mem_of_getLast? h
    | some cursor =>
        cases ascending with
        | true => exact mem_of_mem_filter (mem_of_mem_head? h)
        | false => exact mem_of_mem_filter (mem_of_getLast? h)
  have hget := (get_eq_some_iff _ _ _).mpr hview
  rw [get_subMap] at hget
  split at hget
  · next hrange =>
      exact ⟨hrange.1, hrange.2, (contains_iff _ _).mpr ⟨_, hget⟩⟩
  · cases hget

/-- The first and the last version of a content are stored versions of it. -/
theorem contains_of_mem_versions {m : StorageMemory} {content : Number480} {entry : Number640 × Data}
    (h : entry ∈ (m.versions content).entries) :
    m.contains entry.1 = true ∧ entry.1.locationAndDomainAndContentKey = content := by
  have hget := (get_eq_some_iff _ _ _).mpr h
  rw [StorageMemory.get_versions] at hget
  split at hget
  · next hcontent => exact ⟨(contains_iff _ _).mpr ⟨_, hget⟩, hcontent⟩
  · cases hget

theorem mem_of_proceed {check : StoreM Bool} {cmds cmds' : List StorageCmd}
    {m m' : StorageMemory} (h : proceed check cmds m = .ok cmds' m') {cmd : StorageCmd} (hin : cmd ∈ cmds') :
    cmd ∈ cmds := by
  rw [proceed, Effect.map_ok_iff] at h
  obtain ⟨granted, _, rfl⟩ := h
  cases granted with
  | true => exact hin
  | false => exact absurd hin not_mem_nil

end StorageAction

/-- The locks under which a command is run by an operation. -/
def StorageCmd.Ok (strict : Prop) (c : StorageCall) (outer : Set StorageLock) : StorageCmd → Prop
  | .access a => a.Ok strict c outer
  | .sync locks body => c.Nests outer locks ∧ ∀ a ∈ body, a.Ok strict c ({lock | lock ∈ locks} ∪ outer)

theorem StorageCmd.Ok.lose {strict : Prop} {c : StorageCall} {outer outer' : Set StorageLock}
    (hloose : strict → c.guarded = false) (hsub : outer' ⊆ outer) {cmd : StorageCmd}
    (h : cmd.Ok strict c outer) : cmd.Ok strict c outer' := by
  cases cmd with
  | access a => exact StorageAction.Ok.lose hloose hsub h
  | sync locks body =>
      refine ⟨h.1.mono hsub, fun a ha => StorageAction.Ok.lose hloose ?_ (h.2 a ha)⟩
      exact Set.union_subset_union_right _ hsub

section Run

variable {strict : Prop} {c : StorageCall} {outer : Set StorageLock} {sl : StorageLayer} {m m' : StorageMemory}
  {cmds : List StorageCmd}

open StorageAction

/-- The block that removes one key of a range whose ends are not removed. -/
theorem ok_removal {fromKey toKey key : Number640} {publicKey publicKey' : Option PublicKey}
    (hc : c = .op (.removeReturnStatus fromKey toKey publicKey')) (houter : outer ⊆ {.between fromKey toKey})
    (hfrom : fromKey < key) (hto : key < toKey) : (removal key publicKey).Ok strict c outer := by
  subst hc
  refine ⟨.status hfrom hto houter, forall_mem_singleton.mpr ?_⟩
  exact fun _ _ => ⟨⟨key, key⟩, .inl (mem_singleton_self _), le_refl _, le_refl _⟩

/-- The block that drops an expired key. -/
theorem ok_expire (h : (∃ time, c = .op (.checkTimeout time)) ∧ outer = ∅) (key : Number640) :
    (expire key).Ok strict c outer := by
  obtain ⟨⟨time, rfl⟩, rfl⟩ := h
  refine ⟨.expire time key, forall_mem_cons.mpr ⟨Covered.lose fun _ => rfl, forall_mem_cons.mpr
    ⟨Covered.lose fun _ => rfl, forall_mem_singleton.mpr ⟨⟨time, rfl⟩, key, rfl, ?_⟩⟩⟩⟩
  rintro lock (hlock | hlock)
  · exact mem_singleton.mp hlock
  · exact hlock.elim

/-- What follows if a check lets the operation through. -/
theorem forall_mem_proceed {check : StoreM Bool} {a : StorageAction} (ha : a.Ok strict c outer)
    (hrun : proceed check [.access a] m = .ok cmds m') : ∀ cmd ∈ cmds, cmd.Ok strict c outer := by
  intro cmd hcmd
  rw [mem_singleton.mp (mem_of_proceed hrun hcmd)]
  exact ha

/-- What follows if a claim is granted. -/
theorem forall_mem_claim {claim : Except JavaException Bool} {entry : Bool} {a : StorageAction}
    (ha : a.Ok strict c outer)
    (hrun : (match claim with
      | .error e => .error e m
      | .ok granted => if granted && entry then .ok [.access a] m else .ok [] m :
        EStateM.Result JavaException StorageMemory (List StorageCmd)) = .ok cmds m') :
    ∀ cmd ∈ cmds, cmd.Ok strict c outer := by
  split at hrun
  · cases hrun
  · split at hrun
    · cases hrun
      exact forall_mem_singleton.mpr ha
    · cases hrun
      exact forall_mem_nil _

/-- What follows from the answer of an action is run under the same locks. -/
theorem StorageAction.Ok.run {a : StorageAction} (h : a.Ok strict c outer) (hin : strict → a.VersionsInside m)
    (hends : a.EndsFree m) (hrun : a.run sl m = .ok cmds m') : ∀ cmd ∈ cmds, cmd.Ok strict c outer := by
  cases a with
  | putDomain p key newData =>
      have ha : StorageAction.Ok strict c outer (.putEntry p key newData) := h
      exact forall_mem_proceed ha hrun
  | putEntry p key newData =>
      have ha : StorageAction.Ok strict c outer (.putGet p key newData) := h
      exact forall_mem_proceed ha hrun
  | putGet p key newData | removeContains key =>
      cases hrun
      dsimp only
      split
      · exact forall_mem_cons.mpr ⟨h, forall_mem_singleton.mpr h⟩
      · exact forall_mem_nil _
  | forkNext span content cursor =>
      cases hrun
      dsimp only
      split
      · exact forall_mem_nil _
      · exact forall_mem_singleton.mpr h
  | trim span content | digestContains key | isEmpty locationKey =>
      cases hrun
      dsimp only
      split
      · exact forall_mem_singleton.mpr h
      · exact forall_mem_nil _
  | trimPoll span content =>
      simp only [StorageAction.run] at hrun
      split at hrun
      · cases hrun
      · next entry hfirst =>
          cases hrun
          -- the version that is removed lies in the range that is written
          have hstored := contains_of_mem_versions (mem_of_mem_head? hfirst)
          have hkey : Covered strict c outer fun range => range.Has entry.1 := by
            refine Covered.imp h ?_
            rintro hstrict range rfl
            exact hin hstrict entry.1 hstored.1 hstored.2
          exact forall_mem_cons.mpr ⟨hkey, forall_mem_cons.mpr ⟨hkey, forall_mem_singleton.mpr h⟩⟩
  | removeClaim key publicKey =>
      have ha : StorageAction.Ok strict c outer (.removeContains key) := h
      exact forall_mem_claim ha hrun
  | dataNext fromKey toKey publicKey cursor =>
      cases hrun
      dsimp only
      split
      · exact forall_mem_nil _
      · next entry hnext =>
          have hentry := nextEntry_some hnext
          have hkey : Covered strict c outer fun range => range.Has entry.1 := by
            refine Covered.imp h ?_
            rintro _ range rfl
            exact ⟨hentry.1, hentry.2.1⟩
          exact forall_mem_cons.mpr ⟨hkey, forall_mem_singleton.mpr h⟩
  | dataClaim key publicKey =>
      have ha : StorageAction.Ok strict c outer (.dataGet key publicKey) := h
      exact forall_mem_claim ha hrun
  | dataGet key publicKey =>
      cases hrun
      dsimp only
      split
      · exact forall_mem_nil _
      · split
        · exact forall_mem_cons.mpr ⟨h, forall_mem_singleton.mpr h⟩
        · exact forall_mem_nil _
  | statusNext fromKey toKey publicKey cursor =>
      cases hrun
      dsimp only
      split
      · exact forall_mem_nil _
      · next entry hnext =>
          have hentry := nextEntry_some hnext
          -- neither of the ends is stored, the key is
          have hfrom : fromKey ≠ entry.1 := by
            rintro heq
            exact Bool.false_ne_true (hends.1.symm.trans (heq ▸ hentry.2.2))
          have hto : entry.1 ≠ toKey := by
            rintro heq
            exact Bool.false_ne_true (hends.2.symm.trans (heq ▸ hentry.2.2))
          have hblock : (removal entry.1 publicKey).Ok strict c outer :=
            ok_removal h.1 h.2.1 (lt_of_le_of_ne hentry.1 hfrom) (lt_of_le_of_ne hentry.2.1 hto)
          exact forall_mem_cons.mpr ⟨hblock, forall_mem_singleton.mpr h⟩
  | copyNext fromKey toKey limit ascending counter cursor =>
      cases hrun
      dsimp only
      split
      · exact forall_mem_nil _
      · split
        · exact forall_mem_singleton.mpr h
        · split
          · exact forall_mem_nil _
          · exact forall_mem_singleton.mpr h
  | metaDomain locationAndDomainKey publicKey newPublicKey =>
      exact fun cmd hcmd => absurd (mem_of_proceed hrun hcmd) not_mem_nil
  | amendEntry change publicKey key newData =>
      have ha : StorageAction.Ok strict c outer (.amendGet change key newData) := h
      exact forall_mem_proceed ha hrun
  | amendGet change key newData =>
      cases hrun
      dsimp only
      split
      · exact forall_mem_nil _
      · exact forall_mem_cons.mpr ⟨h, forall_mem_singleton.mpr h⟩
  | subMapTimeout time =>
      simp only [StorageAction.run] at hrun
      split at hrun
      · cases hrun
      · cases hrun
        exact forall_mem_map.mpr fun key _ => ok_expire h key
  | leave locationKey =>
      cases hrun
      obtain ⟨⟨time, rfl⟩, key, rfl, houter⟩ := h
      exact forall_mem_singleton.mpr ⟨.leave time houter, forall_mem_singleton.mpr rfl⟩
  | drop locationKey =>
      cases hrun
      obtain ⟨rfl, houter⟩ := h
      exact forall_mem_singleton.mpr ⟨.drop houter, forall_mem_singleton.mpr rfl⟩
  | removeRange locationKey =>
      simp only [StorageAction.run] at hrun
      split at hrun
      · cases hrun
      · cases hrun
        exact forall_mem_map.mpr fun key _ => Covered.lose fun _ => h
  | put | addTimeout | removeTimeout | remove | get | contains | removeResponsibility
  | readResponsibility | updateResponsibilities => cases hrun; exact forall_mem_nil _

end Run

/-! ### The operations -/

section Operations

variable (strict : Prop) {c : StorageCall} (sl : StorageLayer)

/-- A block with one lock on keys, in an operation on keys. -/
theorem ok_sync (hc : c.guarded = true) (range : Range Number640) {body : List StorageAction}
    (hbody : ∀ a ∈ body, a.Ok strict c {⟨.rangeLock, range⟩}) :
    (StorageCmd.sync [⟨.rangeLock, range⟩] body).Ok strict c ∅ := by
  refine ⟨.range hc range, ?_⟩
  have hset : {lock | lock ∈ [(⟨.rangeLock, range⟩ : StorageLock)]} ∪ ∅ = {⟨.rangeLock, range⟩} := by
    ext lock
    simp
  rw [hset]
  exact hbody

/-- The same with one action, for a range it is covered by. -/
theorem ok_sync_singleton (hc : c.guarded = true) (range : Range Number640) {a : StorageAction}
    {p : Range Number640 → Prop} (ha : StorageAction.Covered strict c {⟨.rangeLock, range⟩} p →
      a.Ok strict c {⟨.rangeLock, range⟩}) (hp : p range) :
    (StorageCmd.sync [⟨.rangeLock, range⟩] [a]).Ok strict c ∅ :=
  ok_sync strict hc range (forall_mem_singleton.mpr (ha fun _ _ => ⟨range, rfl, hp⟩))

theorem ok_copyRange (hc : c.guarded = true) (range : Range Number640) (limit : Int) (ascending : Bool) :
    (StorageCall.copyRange ⟨.rangeLock, range⟩ limit ascending).Ok strict c ∅ :=
  ok_sync_singleton strict hc range id rfl

/-- The keys that are written lie between the first and the last one. -/
theorem ok_putAll (hc : c.guarded = true) (dataMap : NavMap Number640 Data) (p : PutArguments) :
    ∀ cmd ∈ StorageCall.putAll sl dataMap p, cmd.Ok strict c ∅ := by
  unfold StorageCall.putAll
  split
  · next min max hmin hmax =>
      refine forall_mem_singleton.mpr (ok_sync strict hc _ ?_)
      intro a ha
      rcases mem_append.mp ha with ha | ha
      · obtain ⟨entry, hentry, rfl⟩ := mem_map.mp ha
        exact fun _ _ => ⟨_, rfl, firstEntry_le hmin hentry, le_lastEntry hmax hentry⟩
      · obtain ⟨content, _, ha⟩ := mem_flatMap.mp ha
        split at ha
        · rcases mem_pair.mp ha with rfl | rfl <;> exact fun _ _ => ⟨_, rfl, rfl⟩
        · rw [mem_singleton.mp ha]
          exact fun _ _ => ⟨_, rfl, rfl⟩
  · exact forall_mem_nil _

theorem ok_readCommands (r : StorageRead) :
    ∀ cmd ∈ StorageCall.readCommands r, cmd.Ok strict (.read r) ∅ := by
  cases r with
  | get key => exact forall_mem_singleton.mpr (ok_sync_singleton strict rfl _ id ⟨le_refl _, le_refl _⟩)
  | digestCollection number640s =>
      exact forall_mem_map.mpr fun key _ => ok_sync_singleton strict rfl _ id ⟨le_refl _, le_refl _⟩
  | getRange | getBloom | getAll | getLatestVersion | digestRange | digestBloom =>
      exact forall_mem_singleton.mpr (ok_copyRange strict rfl _ _ _)

/-- A block with a lock on responsibilities. -/
theorem ok_syncResponsibility (hc : c.guarded = false) (id : Number160) {body : List StorageAction}
    (hbody : ∀ a ∈ body, a.Ok strict c {.responsibility id}) :
    (StorageCmd.sync [.responsibility id] body).Ok strict c ∅ := by
  refine ⟨.responsibility hc id, ?_⟩
  have hset : {lock | lock ∈ [StorageLock.responsibility id]} ∪ ∅ = {.responsibility id} := by
    ext lock
    simp
  rw [hset]
  exact hbody

theorem ok_opCommands (o : StorageOp) : ∀ cmd ∈ StorageCall.opCommands sl o, cmd.Ok strict (.op o) ∅ := by
  cases o with
  | putAll dataMap publicKey putIfAbsent domainProtection sendSelf =>
      have hc : (StorageCall.op (.putAll dataMap publicKey putIfAbsent domainProtection sendSelf)).guarded =
          true := rfl
      exact ok_putAll strict sl hc _ _
  | put key newData publicKey putIfAbsent domainProtection sendSelf =>
      have hc : (StorageCall.op (.put key newData publicKey putIfAbsent domainProtection sendSelf)).guarded =
          true := rfl
      exact ok_putAll strict sl hc (NavMap.empty.put key newData)
        ⟨publicKey, putIfAbsent, domainProtection, sendSelf⟩
  | remove => exact forall_mem_singleton.mpr (ok_sync_singleton strict rfl _ id ⟨le_refl _, le_refl _⟩)
  | removeReturnData => exact forall_mem_singleton.mpr (ok_sync_singleton strict rfl _ id rfl)
  | removeReturnStatus fromKey toKey publicKey =>
      refine forall_mem_singleton.mpr (ok_sync strict rfl ⟨fromKey, toKey⟩ ?_)
      exact forall_mem_singleton.mpr ⟨rfl, fun _ h => h, fun _ _ => ⟨_, rfl, rfl⟩⟩
  | updateMetaDomain => exact forall_mem_singleton.mpr trivial
  | updateMetaEntry | putConfirm =>
      exact forall_mem_singleton.mpr (ok_sync_singleton strict rfl _ id ⟨le_refl _, le_refl _⟩)
  | checkTimeout time => exact forall_mem_singleton.mpr ⟨⟨time, rfl⟩, rfl⟩
  | removeResponsibility locationKey keepData =>
      refine forall_mem_singleton.mpr (ok_syncResponsibility strict rfl locationKey ?_)
      cases keepData with
      | true => exact forall_mem_singleton.mpr rfl
      | false =>
          exact forall_mem_cons.mpr ⟨⟨rfl, fun _ h => h⟩, forall_mem_singleton.mpr rfl⟩

/-- An operation starts with commands that are run under no lock. -/
theorem ok_commands (c : StorageCall) : ∀ cmd ∈ c.commands sl, cmd.Ok strict c ∅ := by
  cases c with
  | op o => exact ok_opCommands strict sl o
  | read r => exact ok_readCommands strict r
  | contains key =>
      exact forall_mem_singleton.mpr (ok_sync_singleton strict rfl _ id ⟨le_refl _, le_refl _⟩)
  | findContentForResponsiblePeerID peerID =>
      exact forall_mem_singleton.mpr
        (ok_syncResponsibility strict rfl peerID (forall_mem_singleton.mpr rfl))
  | findPeerIDsForResponsibleContent locationKey =>
      exact forall_mem_singleton.mpr
        (ok_syncResponsibility strict rfl locationKey (forall_mem_singleton.mpr rfl))
  | updateResponsibilities locationKey peerId =>
      exact forall_mem_singleton.mpr
        ⟨.update locationKey peerId, forall_mem_singleton.mpr rfl⟩

end Operations

end TomP2P
