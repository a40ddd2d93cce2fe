import TomP2P.Theory.DiskFormat
import Mathlib.Data.Finset.Dedup
import Mathlib.Data.Finset.Insert

/-!
# The Database as a Map

A large value is a file with the hash of its payload for its name. Two keys with the same
payload share the file, and each put writes its own header into it. What is read for a key
is the last value that was put under it if it is small, and else the last large value
that was put under any key with the same hash.

So the database is a map as long as values that share a file agree in everything a file
holds of them. A single put that breaks this changes what is read for another key.

## Main definitions

* `StorageDisk.Shown`: What is seen of a value.
* `StorageDisk.History`: The last values by key, and the last large values by hash.
* `StorageDisk.Stored`: How the database and a history belong together.
* `StorageDisk.Undisturbing`: A change that writes no other header into a shared file.

## Theorems

* `StorageDisk.get_eq`: What is read, after any run.
* `StorageDisk.agrees_after_iff`: One change.
* `StorageDisk.mapLike_iff`: The runs in which the database is a map.
-/

namespace TomP2P

open Effect Function SignatureFactory List

namespace StorageDisk

open DataSerializer

/-- What is asked of a value that is read: payload, flags, time to live, predecessors and
    the key that is announced. -/
structure Shown where
  payload : Wire.Bytes
  basedOnFlag : Bool
  signed : Bool
  flag1 : Bool
  ttl : Bool
  flag2 : Bool
  protectedEntry : Bool
  publicKeyFlag : Bool
  prepareFlag : Bool
  ttlSeconds : BitVec 32
  basedOnSet : Finset Number160
  publicKey : Option PublicKey
  deriving DecidableEq

def shown (d : Data) : Shown where
  payload := d.buffer
  basedOnFlag := d.basedOnFlag
  signed := d.signed
  flag1 := d.flag1
  ttl := d.ttl
  flag2 := d.flag2
  protectedEntry := d.protectedEntry
  publicKeyFlag := d.publicKeyFlag
  prepareFlag := d.prepareFlag
  ttlSeconds := d.ttlSeconds
  basedOnSet := d.basedOnSet.elems.toFinset
  publicKey := d.wireKey

/-- What is seen of the value of a key at time `now`. -/
def shows (f : SignatureFactory) (now : BitVec 64) (m : StorageDisk) (key : Number640) :
    Except Failure (Option Shown) :=
  (m.get f now key).map (Option.map shown)

/-! ### Histories -/

/-- The last values that were put, by key, and the last large ones, by hash. -/
structure History where
  stored : Number640 → Option Data := fun _ => none
  files : Number160 → Option Data := fun _ => none

namespace History

def after (h : History) : Op → History
  | .put key d =>
      { stored := update h.stored key (some d)
        files := if MAX_SIZE < d.length.toInt then update h.files d.hash (some d) else h.files }
  | .remove key => { h with stored := update h.stored key none }

/-- The history of a sequence of changes. -/
def of (ops : List Op) : History := ops.foldl after {}

/-- The value that is read for one that was stored. -/
def current (h : History) (d : Data) : Data :=
  if MAX_SIZE < d.length.toInt then (h.files d.hash).getD d else d

section After

variable (h : History) (key : Number640) (d : Data)

@[simp] theorem stored_put : (h.after (.put key d)).stored = update h.stored key (some d) := rfl

@[simp] theorem stored_remove : (h.after (.remove key)).stored = update h.stored key none := rfl

theorem files_put_large {d : Data} (hsize : MAX_SIZE < d.length.toInt) :
    (h.after (.put key d)).files = update h.files d.hash (some d) := if_pos hsize

theorem files_put_small {d : Data} (hsize : ¬ MAX_SIZE < d.length.toInt) :
    (h.after (.put key d)).files = h.files := if_neg hsize

end After

end History

/-- Large values under other keys with the same hash are seen like the one that is put. -/
def Undisturbing (h : History) : Op → Prop
  | .put key d => MAX_SIZE < d.length.toInt → ∀ key' d', key' ≠ key → h.stored key' = some d' →
      MAX_SIZE < d'.length.toInt → d'.hash = d.hash → shown d = shown d'
  | .remove _ => True

/-- There is a file for each large value that is stored. -/
def History.Named (h : History) : Prop :=
  ∀ key d, h.stored key = some d → MAX_SIZE < d.length.toInt → ∃ d', h.files d.hash = some d'

-- No file is ever lost.
theorem History.Named.after {h : History} (hnamed : h.Named) (op : Op) : (h.after op).Named := by
  intro key' d' hstored hsize'
  cases op with
  | remove key =>
      by_cases hkey : key' = key
      · rw [hkey, History.stored_remove, update_self] at hstored
        cases hstored
      · rw [History.stored_remove, update_of_ne hkey] at hstored
        exact hnamed key' d' hstored hsize'
  | put key d =>
      have hkept (hold : ∃ e, h.files d'.hash = some e) : ∃ e, (h.after (.put key d)).files d'.hash = some e := by
        by_cases hsize : MAX_SIZE < d.length.toInt
        · rw [h.files_put_large key hsize]
          by_cases hhash : d'.hash = d.hash
          · exact ⟨d, by rw [hhash, update_self]⟩
          · rwa [update_of_ne hhash]
        · rwa [h.files_put_small key hsize]
      by_cases hkey : key' = key
      · rw [hkey, History.stored_put, update_self] at hstored
        cases hstored
        exact ⟨d', by rw [h.files_put_large key hsize', update_self]⟩
      · rw [History.stored_put, update_of_ne hkey] at hstored
        exact hkept (hnamed key' d' hstored hsize')

/-- Every stored value is seen as it was put. -/
def Agrees (h : History) : Prop := ∀ key d, h.stored key = some d → shown (h.current d) = shown d

-- The file belongs to the value that was put last.
theorem current_put_shared (h : History) (key : Number640) {d d' : Data} (hsize : MAX_SIZE < d.length.toInt)
    (hsize' : MAX_SIZE < d'.length.toInt) (hhash : d'.hash = d.hash) :
    (h.after (.put key d)).current d' = d := by
  rw [History.current, if_pos hsize', h.files_put_large key hsize, hhash, update_self,
    Option.getD_some]

-- A small value writes no file, and a large one no file of another hash.
theorem current_put_other (h : History) (key : Number640) {d d' : Data}
    (hother : MAX_SIZE < d.length.toInt → MAX_SIZE < d'.length.toInt → d'.hash ≠ d.hash) :
    (h.after (.put key d)).current d' = h.current d' := by
  by_cases hsize' : MAX_SIZE < d'.length.toInt
  · rw [History.current, History.current, if_pos hsize', if_pos hsize']
    by_cases hsize : MAX_SIZE < d.length.toInt
    · rw [h.files_put_large key hsize, update_of_ne (hother hsize hsize')]
    · rw [h.files_put_small key hsize]
  · rw [History.current, History.current, if_neg hsize', if_neg hsize']

theorem current_put_self (h : History) (key : Number640) (d : Data) :
    (h.after (.put key d)).current d = d := by
  by_cases hsize : MAX_SIZE < d.length.toInt
  · exact current_put_shared h key hsize hsize rfl
  · rw [History.current, if_neg hsize]

-- A change of one key leaves what is stored under the others. So only a large value
-- matters, and only for those with its hash.
theorem agrees_after_iff {h : History} (hagrees : Agrees h) (op : Op) :
    Agrees (h.after op) ↔ Undisturbing h op := by
  cases op with
  | remove key =>
      refine iff_of_true ?_ trivial
      intro key' d hstored
      by_cases hkey : key' = key
      · rw [hkey, History.stored_remove, update_self] at hstored
        cases hstored
      · rw [History.stored_remove, update_of_ne hkey] at hstored
        exact hagrees key' d hstored
  | put key d =>
      constructor
      · intro hafter hsize key' d' hkey hstored hsize' hhash
        have hshown := hafter key' d' (by rw [History.stored_put, update_of_ne hkey, hstored])
        rwa [current_put_shared h key hsize hsize' hhash] at hshown
      · intro hsame key' d' hstored
        by_cases hkey : key' = key
        · rw [hkey, History.stored_put, update_self] at hstored
          cases hstored
          rw [current_put_self]
        · rw [History.stored_put, update_of_ne hkey] at hstored
          by_cases hshared : MAX_SIZE < d.length.toInt ∧ MAX_SIZE < d'.length.toInt ∧ d'.hash = d.hash
          · obtain ⟨hsize, hsize', hhash⟩ := hshared
            rw [current_put_shared h key hsize hsize' hhash]
            exact hsame hsize key' d' hkey hstored hsize' hhash
          · rw [current_put_other h key fun hsize hsize' hhash => hshared ⟨hsize, hsize', hhash⟩]
            exact hagrees key' d' hstored

/-! ### The database and its history -/

/-- A value without signature that can be written. -/
structure Plain (f : SignatureFactory) (d : Data) : Prop where
  consistent : d.WireConsistent f
  unsigned : d.signed = false

/-- A change by such a value, or a removal. -/
def Op.Plain (f : SignatureFactory) : Op → Prop
  | .put _ d => StorageDisk.Plain f d
  | .remove _ => True

/-- What the map holds for a value with header `header`. -/
def entry (header : Wire.Bytes) (d : Data) : Wire.Bytes :=
  if MAX_SIZE < d.length.toInt then 1#8 :: d.hash.encode
  else 0#8 :: (header ++ (d.buffer ++ Data.signatureField d.signature))

/-- What the map holds for what is stored. -/
inductive Holds (f : SignatureFactory) : Option Data → Option Wire.Bytes → Prop
  | absent : Holds f none none
  | present {d : Data} {header : Wire.Bytes} (hd : Plain f d) (hheader : d.encodeHeader f = .ok header) :
      Holds f (some d) (some (entry header d))

/-- The map holds the entries of the stored values. A file starts with the content of the
    last large value with its hash, and there is one for each large value that is stored. -/
structure Stored (f : SignatureFactory) (m : StorageDisk) (h : History) : Prop where
  map : ∀ key, Holds f (h.stored key) (m.dataMap.get key)
  named : ∀ key d, h.stored key = some d → MAX_SIZE < d.length.toInt → ∃ d', h.files d.hash = some d'
  file : ∀ hash d, h.files hash = some d → Plain f d ∧ d.hash = hash ∧
    ∃ header stale, d.encodeHeader f = .ok header ∧ m.path.get hash = some (content header d ++ stale)

variable {f : SignatureFactory} {m m' : StorageDisk} {h : History}

theorem stored_nil : Stored f {} {} where
  map _ := .absent
  named _ _ hstored := by cases hstored
  file _ _ hfile := by cases hfile

theorem put_small {key : Number640} {d : Data} (hd : Plain f d) (hsize : ¬ MAX_SIZE < d.length.toInt)
    (hput : m.put f key d = .ok m') :
    ∃ header, d.encodeHeader f = .ok header ∧ m' = ⟨m.dataMap.put key (entry header d), m.path⟩ := by
  obtain ⟨⟨out, path⟩, hout, hm⟩ := except_bind_ok hput
  obtain ⟨header, hheader⟩ := serialize_header hout
  rw [serialize_small hd.consistent hheader (by omega)] at hout
  cases hout
  cases hm
  refine ⟨header, hheader, ?_⟩
  rw [entry, if_neg hsize]

theorem put_large {key : Number640} {d : Data} (hd : Plain f d) (hsize : MAX_SIZE < d.length.toInt)
    (hput : m.put f key d = .ok m') :
    ∃ header stale, d.encodeHeader f = .ok header ∧
      m' = ⟨m.dataMap.put key (entry header d), m.path.put d.hash (content header d ++ stale)⟩ := by
  obtain ⟨⟨out, path⟩, hout, hm⟩ := except_bind_ok hput
  obtain ⟨header, hheader⟩ := serialize_header hout
  rw [serialize_large hd.consistent hheader hsize] at hout
  cases hout
  refine ⟨header, (m.path.openFile d.hash).drop (content header d).length, hheader, ?_⟩
  rw [entry, if_pos hsize]
  exact (Except.ok.inj hm).symm

theorem Stored.map_put (hs : Stored f m h) {key : Number640} {d : Data} {header : Wire.Bytes}
    (hd : Plain f d) (hheader : d.encodeHeader f = .ok header) (key' : Number640) :
    Holds f ((h.after (.put key d)).stored key') ((m.dataMap.put key (entry header d)).get key') := by
  by_cases hkey : key' = key
  · rw [hkey, History.stored_put, update_self, NavMap.get_put_self]
    exact .present hd hheader
  · rw [History.stored_put, update_of_ne hkey, NavMap.get_put_ne _ _ _ _ hkey]
    exact hs.map key'

theorem Stored.map_remove (hs : Stored f m h) (key key' : Number640) :
    Holds f ((h.after (.remove key)).stored key') ((m.dataMap.remove key).get key') := by
  by_cases hkey : key' = key
  · rw [hkey, History.stored_remove, update_self, NavMap.get_remove_self]
    exact .absent
  · rw [History.stored_remove, update_of_ne hkey, NavMap.get_remove_ne _ _ _ hkey]
    exact hs.map key'

/-- A change keeps the database and its history together. -/
theorem Stored.after (hs : Stored f m h) {op : Op} (hop : op.Plain f) (hrun : m.apply f op = .ok m') :
    Stored f m' (h.after op) := by
  refine ⟨?_, History.Named.after hs.named op, ?_⟩
  · cases op with
    | remove key =>
        cases hrun
        exact hs.map_remove key
    | put key d =>
        by_cases hsize : MAX_SIZE < d.length.toInt
        · obtain ⟨header, stale, hheader, rfl⟩ := put_large hop hsize hrun
          exact hs.map_put hop hheader
        · obtain ⟨header, hheader, rfl⟩ := put_small hop hsize hrun
          exact hs.map_put hop hheader
  · cases op with
    | remove key =>
        cases hrun
        exact hs.file
    | put key d =>
        by_cases hsize : MAX_SIZE < d.length.toInt
        · obtain ⟨header, stale, hheader, rfl⟩ := put_large hop hsize hrun
          intro hash e he
          rw [h.files_put_large key hsize] at he
          by_cases hhash : hash = d.hash
          · rw [hhash, update_self] at he
            cases he
            exact ⟨hop, hhash.symm, header, stale, hheader, by rw [hhash, HashedMap.get_put, if_pos rfl]⟩
          · rw [update_of_ne hhash] at he
            obtain ⟨hplain, hname, header', stale', hheader', hget⟩ := hs.file hash e he
            exact ⟨hplain, hname, header', stale', hheader', by rw [HashedMap.get_put, if_neg hhash, hget]⟩
        · obtain ⟨header, hheader, rfl⟩ := put_small hop hsize hrun
          rw [h.files_put_small key hsize]
          exact hs.file

/-! ### What is read -/

theorem shown_transferred (d : Data) (sig : Option SignatureCodec) (now : BitVec 64) :
    shown (d.transferred sig now) = shown d := by
  have hkey : (d.transferred sig now).wireKey = d.wireKey := by
    unfold Data.transferred Data.wireKey
    cases d.publicKeyFlag with
    | false | true => rfl
  rw [shown, hkey]
  rfl

theorem Plain.signature_eq {d : Data} (hd : Plain f d) : d.signature = none := by
  have hsome := hd.consistent.signature
  rwa [hd.unsigned, Option.isSome_eq_false_iff, Option.isNone_iff_eq_none] at hsome

theorem Stored.get_none (hs : Stored f m h) (now : BitVec 64) {key : Number640} (hstored : h.stored key = none) :
    m.get f now key = .ok none := by
  have hmap := hs.map key
  rw [hstored] at hmap
  cases hget : m.dataMap.get key with
  | none => rw [StorageDisk.get, hget]
  | some out =>
      rw [hget] at hmap
      cases hmap

/-- What is read for a value is the value its file belongs to, if it has one. -/
theorem Stored.get_eq (hs : Stored f m h) (now : BitVec 64) {key : Number640} {d : Data}
    (hstored : h.stored key = some d) : m.get f now key = .ok (some ((h.current d).transferred none now)) := by
  have hmap := hs.map key
  rw [hstored] at hmap
  cases hget : m.dataMap.get key with
  | none =>
      rw [hget] at hmap
      cases hmap
  | some out =>
      rw [hget] at hmap
      cases hmap with
      | @present _ header hd hheader =>
          by_cases hsize : MAX_SIZE < d.length.toInt
          · obtain ⟨d', hfiles⟩ := hs.named key d hstored hsize
            obtain ⟨hd', hname, header', stale, hheader', hfile⟩ := hs.file d.hash d' hfiles
            rw [← hname] at hfile
            have hread := deserialize_large hd'.consistent hheader' hfile now []
            rw [append_nil, hd'.unsigned, if_neg Bool.false_ne_true, hname] at hread
            rw [StorageDisk.get, hget, entry, if_pos hsize, History.current, if_pos hsize, hfiles]
            simp only [hread, Option.getD_some]
          · have hread := deserialize_small hd.consistent hheader m.path now []
            rw [append_nil, hd.signature_eq] at hread
            rw [StorageDisk.get, hget, entry, if_neg hsize, History.current, if_neg hsize, hd.signature_eq]
            simp only [hread]

/-- The database shows what was put exactly if every value has a file of its kind. -/
theorem Stored.shows_iff (hs : Stored f m h) :
    (∀ now key, shows f now m key = .ok ((h.stored key).map shown)) ↔ Agrees h := by
  have hshows (now : BitVec 64) (key : Number640) :
      shows f now m key = .ok ((h.stored key).map fun d => shown (h.current d)) := by
    cases hstored : h.stored key with
    | none =>
        rw [shows, hs.get_none now hstored]
        rfl
    | some d =>
        rw [shows, hs.get_eq now hstored]
        exact congrArg (fun e => Except.ok (some e)) (shown_transferred (h.current d) none now)
  constructor
  · intro hall key d hstored
    have hsame := hall 0 key
    rw [hshows, hstored] at hsame
    exact Option.some.inj (Except.ok.inj hsame)
  · intro hagrees now key
    rw [hshows]
    cases hstored : h.stored key with
    | none => rfl
    | some d =>
        rw [Option.map_some, Option.map_some, hagrees key d hstored]

/-! ### Runs -/

theorem run_snoc (ops : List Op) (op : Op) : run f (ops ++ [op]) = run f ops >>= fun m => m.apply f op := by
  simp only [run, foldlM_append, foldlM_cons, foldlM_nil, bind_pure]

theorem of_snoc (ops : List Op) (op : Op) : History.of (ops ++ [op]) = (History.of ops).after op := by
  rw [History.of, foldl_append]
  rfl

/-- The database belongs to its history throughout. -/
theorem stored_run (ops : List Op) (hops : ∀ op ∈ ops, op.Plain f) {m : StorageDisk} (hrun : run f ops = .ok m) :
    Stored f m (History.of ops) := by
  induction ops using List.reverseRecOn generalizing m with
  | nil =>
      cases hrun
      exact stored_nil
  | append_singleton ops op ih =>
      rw [run_snoc] at hrun
      obtain ⟨m₁, hbefore, happly⟩ := except_bind_ok hrun
      rw [of_snoc]
      refine (ih (fun o ho => hops o (mem_append_left _ ho)) hbefore).after ?_ happly
      exact hops op (mem_append_right _ (mem_singleton.mpr rfl))

/-- In every state of a run, each key shows the last value that was put under it, and a
    change shows for its own key only. -/
structure MapLike (f : SignatureFactory) (ops : List Op) : Prop where
  last : ∀ before m, before <+: ops → run f before = .ok m →
    ∀ now key, shows f now m key = .ok (((History.of before).stored key).map shown)
  others : ∀ before op m m', before ++ [op] <+: ops → run f before = .ok m → run f (before ++ [op]) = .ok m' →
    ∀ now key, key ≠ op.key → shows f now m' key = shows f now m key

theorem run_prefix {ops before : List Op} (hrun : run f ops = .ok m) (hbefore : before <+: ops) :
    ∃ m', run f before = .ok m' := by
  obtain ⟨rest, rfl⟩ := hbefore
  rw [run, foldlM_append] at hrun
  obtain ⟨m', hm', _⟩ := except_bind_ok hrun
  exact ⟨m', hm'⟩

theorem stored_after_other (h : History) (op : Op) {key : Number640} (hkey : key ≠ op.key) :
    (h.after op).stored key = h.stored key := by
  cases op with
  | put key' d | remove key' => exact update_of_ne hkey _ _

theorem agrees_nil : Agrees (History.of []) := fun _ _ hstored => by cases hstored

-- What was put agrees with what is seen as long as no change disturbs it.
theorem agrees_of {ops : List Op} (hall : ∀ before op, before ++ [op] <+: ops → Undisturbing (History.of before) op)
    (before : List Op) (hbefore : before <+: ops) : Agrees (History.of before) := by
  induction before using List.reverseRecOn with
  | nil => exact agrees_nil
  | append_singleton before op ih =>
      have hagrees := ih ((prefix_append before [op]).trans hbefore)
      rw [of_snoc]
      exact (agrees_after_iff hagrees op).mpr (hall before op hbefore)

/-- The database is a map in the runs without a disturbing change, and in no others. -/
theorem mapLike_iff {ops : List Op} (hops : ∀ op ∈ ops, op.Plain f) (hrun : run f ops = .ok m) :
    MapLike f ops ↔ ∀ before op, before ++ [op] <+: ops → Undisturbing (History.of before) op := by
  have hstored (before : List Op) (hbefore : before <+: ops) {m' : StorageDisk} (hm' : run f before = .ok m') :
      Stored f m' (History.of before) := stored_run before (fun op hop => hops op (hbefore.subset hop)) hm'
  constructor
  · intro hmap before op hprefix
    have hbefore := (prefix_append before [op]).trans hprefix
    obtain ⟨m₁, hm₁⟩ := run_prefix hrun hbefore
    obtain ⟨m₂, hm₂⟩ := run_prefix hrun hprefix
    have hagrees := (hstored before hbefore hm₁).shows_iff.mp (hmap.last before m₁ hbefore hm₁)
    have hafter := (hstored _ hprefix hm₂).shows_iff.mp (hmap.last _ m₂ hprefix hm₂)
    rw [of_snoc] at hafter
    exact (agrees_after_iff hagrees op).mp hafter
  · intro hall
    have hlast (before : List Op) (m' : StorageDisk) (hbefore : before <+: ops) (hm' : run f before = .ok m') :=
      (hstored before hbefore hm').shows_iff.mpr (agrees_of hall before hbefore)
    refine ⟨hlast, ?_⟩
    intro before op m₁ m₂ hprefix hm₁ hm₂ now key hkey
    have hbefore := (prefix_append before [op]).trans hprefix
    rw [hlast _ m₂ hprefix hm₂, hlast _ m₁ hbefore hm₁, of_snoc, stored_after_other _ op hkey]

section Runs

def contentKey (n : BitVec 32) : Number640 := ⟨.ZERO, .ZERO, ⟨0, 0, 0, 0, n⟩, .ZERO⟩

/-- Two small values with the same payload, one of them removed. -/
theorem mapLike_small :
    MapLike zeros [.put (contentKey 1) ((Data.new [7#8] 1000).setTtlSeconds 60),
      .put (contentKey 2) (Data.new [7#8] 1000), .remove (contentKey 1)] := by
  have hnew : (Data.new [7#8] 1000).WireConsistent zeros :=
    .new zeros_lawful (by decide) 1000
  refine (mapLike_iff ?_ (m := _) rfl).mpr ?_
  · intro op hop
    simp only [mem_cons, not_mem_nil, or_false] at hop
    obtain rfl | rfl | rfl := hop
    · exact ⟨hnew.setTtlSeconds 60, rfl⟩
    · exact ⟨hnew, rfl⟩
    · exact trivial
  · intro before op hprefix
    have hop := hprefix.subset (mem_append_right before (mem_singleton.mpr rfl))
    simp only [mem_cons, not_mem_nil, or_false] at hop
    obtain rfl | rfl | rfl := hop
    · exact fun hsize => absurd hsize (by decide)
    · exact fun hsize => absurd hsize (by decide)
    · exact trivial

theorem put_ok (m : StorageDisk) (key : Number640) {d : Data} {header : Wire.Bytes} (hd : d.WireConsistent f)
    (hheader : d.encodeHeader f = .ok header) (hsize : MAX_SIZE < d.length.toInt) :
    ∃ m', m.put f key d = .ok m' := by
  rw [put, serialize_large hd hheader hsize]
  exact ⟨_, rfl⟩

-- Of two large values with the same payload the first one is read with the header of the
-- second one.
theorem shared_file {buffer : Wire.Bytes} (hlength : buffer.length < 2 ^ 31) (hlarge : 10240 < buffer.length) :
    let d := (Data.new buffer 1000).setTtlSeconds 60
    let ops := [Op.put (contentKey 1) d, .put (contentKey 2) (Data.new buffer 1000)]
    (∀ op ∈ ops, op.Plain zeros) ∧ ∃ m e, run zeros ops = .ok m ∧
      m.get zeros 2000 (contentKey 1) = .ok (some e) ∧ d.ttlSeconds = 60 ∧ e.ttlSeconds = -1 ∧
      ¬ MapLike zeros ops := by
  intro d ops
  have hnew : (Data.new buffer 1000).WireConsistent zeros :=
    .new zeros_lawful hlength 1000
  have hd : d.WireConsistent zeros := hnew.setTtlSeconds 60
  have hsize : MAX_SIZE < (Data.new buffer 1000).length.toInt := by
    rw [hnew.length_eq, MAX_SIZE]
    exact_mod_cast hlarge
  have hops : ∀ op ∈ ops, op.Plain zeros := by
    intro op hop
    simp only [ops, mem_cons, not_mem_nil, or_false] at hop
    obtain rfl | rfl := hop
    · exact ⟨hd, rfl⟩
    · exact ⟨hnew, rfl⟩
  obtain ⟨m₁, hm₁⟩ := put_ok (f := zeros) {} (contentKey 1) hd rfl hsize
  obtain ⟨m, hm⟩ := put_ok (f := zeros) m₁ (contentKey 2) hnew rfl hsize
  have hrun : run zeros ops = .ok m := by
    rw [run, foldlM_cons, apply, hm₁, except_ok_bind, foldlM_cons, apply, hm,
      except_ok_bind]
    rfl
  have hstored : (History.of ops).stored (contentKey 1) = some d := by
    have hkey : contentKey 1 ≠ contentKey 2 := by decide
    have hother := stored_after_other (History.of [.put (contentKey 1) d])
      (.put (contentKey 2) (Data.new buffer 1000)) hkey
    refine hother.trans ?_
    rw [History.of, foldl_cons, foldl_nil, History.stored_put, update_self]
  have hcurrent : (History.of ops).current d = Data.new buffer 1000 :=
    current_put_shared (History.of [.put (contentKey 1) d]) (contentKey 2) hsize hsize rfl
  have hget := (stored_run ops hops hrun).get_eq 2000 hstored
  rw [hcurrent] at hget
  refine ⟨hops, m, _, hrun, hget, rfl, rfl, ?_⟩
  intro hmap
  have hlast := hmap.last ops m (prefix_refl ops) hrun 2000 (contentKey 1)
  rw [shows, hget, hstored] at hlast
  have hshown := Option.some.inj (Except.ok.inj hlast)
  have hseconds : (-1 : BitVec 32) = 60 := congrArg Shown.ttlSeconds hshown
  exact absurd hseconds (by decide)

/-- With 10241 bytes the two share a file. -/
theorem not_mapLike_shared :
    let d := (Data.new (List.replicate 10241 7) 1000).setTtlSeconds 60
    let ops := [Op.put (contentKey 1) d, .put (contentKey 2) (Data.new (List.replicate 10241 7) 1000)]
    (∀ op ∈ ops, op.Plain zeros) ∧ ∃ m e, run zeros ops = .ok m ∧
      m.get zeros 2000 (contentKey 1) = .ok (some e) ∧ d.ttlSeconds = 60 ∧ e.ttlSeconds = -1 ∧
      ¬ MapLike zeros ops := by
  have hlength : (List.replicate 10241 (7 : Wire.Byte)).length = 10241 := length_replicate
  exact shared_file (by omega) (by omega)

end Runs

end StorageDisk

end TomP2P
