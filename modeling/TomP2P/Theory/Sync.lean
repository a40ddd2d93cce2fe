import TomP2P.Theory.Difference
import TomP2P.Theory.SyncEntry
import TomP2P.Theory.Transfer

/-!
# Synchronized Replicas

Which values a replica has after a synchronization.

A value the replica does not have is sent as it is, and then it arrives as far as its
flags announce it. Otherwise a difference is sent, and the replica makes a new value of
the payload it reconstructs, with none of the meta data of the one it stands for. The
user flags get lost too. One of them marks differences, so that a value that has it is
taken for one.

A difference is made to the value of the key or, if there is none, to that of another
version, and that may have been synchronized before. What it has been changed to has a
different hash then (`SyncBuilder.Changed`), and the difference is left out.

Values are lost afterwards if the replica has a limit on the versions, or if it drops a
location in which something has been removed. Both is excluded here.

## Main definitions

* `SyncBuilder.Sent`: What is sent for a key.
* `SyncBuilder.Changed`: What all keys may have been changed to.
* `SyncBuilder.Survives`: The values that are the same afterwards.

## Theorems

* `SyncBuilder.diff_isDiff`: A difference gives the value it was made of.
* `SyncBuilder.handleSync_run`: All keys of a synchronization.
* `SyncBuilder.synchronized_agrees_iff`: The values that are the same.
-/

namespace TomP2P

open Wire Effect NavMap List

/-! ### What is sent for a key -/

namespace StorageLayer

-- A copy of at most one entry ends with the first entry that is kept.
theorem filterCopyLoop_full (keep : Data → Bool) (copy : Data → Data) (entries : List (Number640 × Data))
    (retVal : NavMap Number640 Data) : filterCopyLoop keep copy 1 entries 1 retVal = retVal := by
  induction entries with
  | nil => rfl
  | cons entry rest ih =>
      rw [filterCopyLoop]
      by_cases hk : keep entry.2 = true
      · rw [if_pos hk, if_pos (by decide)]
      · rw [if_neg hk]
        exact ih

theorem filterCopyLoop_one (keep : Data → Bool) (copy : Data → Data) (entries : List (Number640 × Data)) :
    (filterCopyLoop keep copy 1 entries 0 .empty).lastEntry =
      ((entries.filter fun e => keep e.2).head?).map fun e => (e.1, copy e.2) := by
  induction entries with
  | nil => rfl
  | cons entry rest ih =>
      rw [filterCopyLoop]
      by_cases hk : keep entry.2 = true
      · rw [if_pos hk, if_neg (by decide), filterCopyLoop_full, filter_cons, if_pos hk]
        rfl
      · rw [if_neg hk, filter_cons, if_neg hk]
        exact ih

/-- The versions that can be seen. -/
def visibleVersions (m : StorageMemory) (key : Number640) : NavMap Number640 Data :=
  (m.versions key.locationAndDomainAndContentKey).filter fun _ d => !d.hasPrepareFlag

theorem get_visibleVersions (m : StorageMemory) (key x : Number640) :
    ((visibleVersions m key).get x).map Data.duplicate =
      if x.locationAndDomainAndContentKey = key.locationAndDomainAndContentKey then get m x else none := by
  rw [visibleVersions, get_filter, StorageMemory.get_versions]
  by_cases hcontent : x.locationAndDomainAndContentKey = key.locationAndDomainAndContentKey
  · rw [if_pos hcontent, if_pos hcontent, get, getInternal]
    rcases m.get x with _ | d
    · rfl
    · cases hflag : d.hasPrepareFlag <;> simp [hflag]
  · rw [if_neg hcontent, if_neg hcontent]
    rfl

/-- The last of them is what the range with a limit of one has, from behind. -/
theorem getRange_latest (m : StorageMemory) (key : Number640) :
    ∃ versions, getRange m key.minVersionKey key.maxVersionKey 1 false = .ok versions ∧
      versions.lastEntry = ((visibleVersions m key).lastEntry).map fun e => (e.1, e.2.duplicate) := by
  have hversions : m.subMap key.minVersionKey key.maxVersionKey =
      .ok (m.versions key.locationAndDomainAndContentKey) :=
    m.subMap_versions key.locationAndDomainAndContentKey
  refine ⟨filterCopy (m.versions key.locationAndDomainAndContentKey) 1 false, ?_, ?_⟩
  · rw [getRange, hversions, except_ok_bind]
    rfl
  · rw [filterCopy, filterCopyLoop_one, inDirection, if_neg Bool.false_ne_true, filter_reverse,
      head?_reverse]
    rfl

/-- The latest version is a version of the content. -/
theorem getRange_versions {m : StorageMemory} {key x : Number640} {v : Data} {versions : NavMap Number640 Data}
    (h : getRange m key.minVersionKey key.maxVersionKey 1 false = .ok versions)
    (hlast : versions.lastEntry = some (x, v)) :
    x.locationAndDomainAndContentKey = key.locationAndDomainAndContentKey ∧ get m x = some v := by
  rcases getRange_latest m key with ⟨versions', hversions', hlast'⟩
  rw [hversions'] at h
  cases h
  rw [hlast'] at hlast
  rcases Option.map_eq_some_iff.mp hlast with ⟨e, he, heq⟩
  cases heq
  have hvisible := get_visibleVersions m key e.1
  rw [(get_eq_some_iff _ e.1 e.2).mpr (mem_of_getLast? he), Option.map_some] at hvisible
  by_cases hcontent : e.1.locationAndDomainAndContentKey = key.locationAndDomainAndContentKey
  · rw [if_pos hcontent] at hvisible
    exact ⟨hcontent, hvisible.symm⟩
  · rw [if_neg hcontent] at hvisible
    cases hvisible

end StorageLayer

namespace SyncRPC

variable {rpc : SyncRPC} {replica : StorageMemory} {fromOld : Bool} {key : Number640} {d y : Data}

/-- A value of the replica that differences for a key are made to: the one of the key,
    which is a different one, or else one of another version. -/
structure Base (replica : StorageMemory) (fromOld : Bool) (key : Number640) (d : Data) (x : Number640) (v : Data) :
    Prop where
  content : x.locationAndDomainAndContentKey = key.locationAndDomainAndContentKey
  stored : StorageLayer.get replica x = some v
  own : StorageLayer.get replica key ≠ none → x = key ∧ d.hash ≠ v.hash
  other : StorageLayer.get replica key = none → fromOld = true

/-- The replica says that the values are the same, that it has none, or has a base. -/
theorem infoEntry_cases (h : rpc.infoEntry replica fromOld key [d.hash] = .ok (some y)) :
    y = rpc.noSyncRequired ∨
      (StorageLayer.get replica key = none ∧ fromOld = false ∧ y = rpc.copyRequired) ∨
      ∃ x v, Base replica fromOld key d x v ∧ rpc.syncRequired x v = .ok y := by
  have hsome {x : Except JavaException Data} (hx : some <$> x = .ok (some y)) : x = .ok y := by
    rcases x with e | z
    · cases hx
    · cases hx
      rfl
  unfold infoEntry at h
  dsimp only at h
  rcases hown : StorageLayer.get replica key with _ | v
  · rw [hown] at h
    dsimp only at h
    cases hold : fromOld with
    | false =>
        rw [hold, if_neg Bool.false_ne_true] at h
        cases h
        exact .inr (.inl ⟨rfl, rfl, rfl⟩)
    | true =>
        rw [hold, if_pos rfl] at h
        obtain ⟨versions, hversions, h⟩ := except_bind_ok h
        rcases hlast : versions.lastEntry with _ | ⟨x, v⟩
        · rw [hlast] at h
          cases h
        · rw [hlast] at h
          obtain ⟨hcontent, hstored⟩ := StorageLayer.getRange_versions hversions hlast
          exact .inr (.inr ⟨x, v, ⟨hcontent, hstored, fun hne => absurd hown hne, fun _ => rfl⟩, hsome h⟩)
  · rw [hown] at h
    dsimp only at h
    by_cases hsame : d.hash = v.hash
    · rw [if_pos hsame] at h
      cases h
      exact .inl rfl
    · rw [if_neg hsame] at h
      refine .inr (.inr ⟨key, v, ⟨rfl, hown, fun _ => ⟨rfl, hsame⟩, fun hnone => ?_⟩, hsome h⟩)
      rw [hown] at hnone
      cases hnone

end SyncRPC

namespace SyncBuilder

variable {f : SignatureFactory} {builder : SyncBuilder} {rpc : SyncRPC} {sender replica : StorageMemory}
  {key x : Number640} {d v y : Data}

/-- Differences can be made: there are blocks, lengths are numbers, and no block of the
    replica has the hash of a different part of a value of the sender. -/
structure Comparable (builder : SyncBuilder) (rpc : SyncRPC) (sender replica : StorageMemory) : Prop where
  oldBlock : 1 ≤ rpc.blockSize
  newBlock : 1 ≤ builder.blockSize
  oldLength : ∀ k v, StorageLayer.get replica k = some v → v.buffer.length + rpc.blockSize < 2 ^ 31
  newLength : ∀ k d, StorageLayer.get sender k = some d → d.buffer.length + builder.blockSize < 2 ^ 31
  noCollision : ∀ k v l d, StorageLayer.get replica k = some v → StorageLayer.get sender l = some d →
    RSync.NoCollision v.buffer d.buffer rpc.blockSize.toNat builder.blockSize.toNat

/-- The buffer of a difference of `d` to `v`. -/
def IsDiff (rpc : SyncRPC) (d v : Data) (versionKey : Number160) (buffer : Bytes) : Prop :=
  ∃ bytes instructions, buffer = versionKey.encode ++ (v.hash.encode ++ bytes) ∧
    SyncUtils.decodeInstructions bytes = .ok instructions ∧
    RSync.reconstruct v.buffer instructions rpc.blockSize = .ok d.buffer

theorem toOption_some {α : Type} {x : Except JavaException α} {a : α} (h : x.toOption = some a) : x = .ok a := by
  rcases x with e | b
  · cases h
  · cases h
    rfl

/-- There are fewer checksums than there are numbers. -/
theorem length_checksums_le {value : Bytes} {b : Nat} {cs : List Checksum} (hb : 1 ≤ b) (hint : value.length < 2 ^ 31)
    (hcs : ∀ i c, cs[i]? = some c → RSync.IsBlock value b i c) : cs.length ≤ 2 ^ 31 := by
  by_contra hlong
  have hlast := hcs (cs.length - 1) _ (getElem?_eq_getElem (by omega))
  have hmul : cs.length - 1 ≤ (cs.length - 1) * b := Nat.le_mul_of_pos_right _ hb
  have hstart := hlast.1
  omega

/-- The answer to checksums is a difference. -/
theorem diff_isDiff (hc : Comparable builder rpc sender replica) (hv : StorageLayer.get replica x = some v)
    (hd : StorageLayer.get sender key = some d) {info data : Data} (hinfo : rpc.syncRequired x v = .ok info)
    (hdata : data.buffer = info.buffer) (h : builder.diff d data = some y) :
    ∃ buffer, y = { Data.new buffer builder.now with flag1 := true } ∧ IsDiff rpc d v x.versionKey buffer := by
  have hb1 := hc.oldBlock
  have hb2 := hc.newBlock
  have hold := hc.oldLength x v hv
  have hnew := hc.newLength key d hd
  have hmd5 := hc.noCollision x v key d hv hd
  obtain ⟨b1, hb1eq⟩ := Int.eq_ofNat_of_zero_le (show 0 ≤ rpc.blockSize by omega)
  obtain ⟨b2, hb2eq⟩ := Int.eq_ofNat_of_zero_le (show 0 ≤ builder.blockSize by omega)
  rw [hb1eq, hb2eq, Int.toNat_natCast, Int.toNat_natCast] at hmd5
  rw [hb1eq] at hold
  rw [hb2eq] at hnew
  -- What the replica has sent.
  obtain ⟨cs, hcs, hblocks⟩ := RSync.checksums_ok (show 1 ≤ b1 by omega) (show v.buffer.length + b1 ≤ 2 ^ 31 by omega)
  unfold SyncRPC.syncRequired at hinfo
  rw [hb1eq, hcs, except_ok_bind] at hinfo
  cases hinfo
  have hstrong : ∀ c ∈ cs, c.strongChecksum.length = 16 := by
    intro c hmem
    obtain ⟨i, hi⟩ := mem_iff_getElem?.mp hmem
    rw [(hblocks i c hi).2]
    exact length_md5 _
  -- What the sender makes of it.
  obtain ⟨is, his, hbuilt⟩ := RSync.instructions_ok (show 1 ≤ b2 by omega)
    (show v.buffer.length < 2 ^ 31 by omega) (show d.buffer.length + b2 < 2 ^ 31 by omega) hblocks hmd5
    (show d.buffer.length < d.buffer.length + 1 by omega)
  have hsendable := RSync.instructions_sendable (show d.buffer.length < 2 ^ 31 by omega)
    (length_checksums_le (show 1 ≤ b1 by omega) (by omega) hblocks) his
  obtain ⟨vs, hvs, hdecode⟩ := SyncUtils.decodeInstructions_encode hsendable
  have hbuffer : data.buffer = x.versionKey.encode ++ (v.hash.encode ++
      cs.flatMap fun c => writeInt c.weakChecksum ++ c.strongChecksum) := hdata
  unfold diff at h
  rw [hbuffer, SyncUtils.decodeHeader_encode] at h
  simp only [Except.toOption, Option.bind_eq_bind, Option.bind_some] at h
  rw [SyncUtils.decodeHeader_encode] at h
  simp only [Option.bind_some] at h
  rw [SyncUtils.decodeChecksums_encode hstrong] at h
  simp only [Option.bind_some] at h
  rw [hb2eq, his] at h
  simp only [Option.bind_some, except_ok_bind] at h
  unfold SyncUtils.encodeInstructions at h
  rw [hvs] at h
  cases h
  refine ⟨x.versionKey.encode ++ (v.hash.encode ++ vs.flatten), rfl, vs.flatten, is.map Instruction.delivered, rfl,
    hdecode, ?_⟩
  rw [SyncUtils.reconstruct_delivered _ _ hsendable, hb1eq]
  exact hbuilt

/-- What is sent for a key: the value if the replica has none, or a difference to a
    base. -/
def Sent (builder : SyncBuilder) (rpc : SyncRPC) (replica : StorageMemory) (key : Number640) (d y : Data) : Prop :=
  (StorageLayer.get replica key = none ∧ builder.syncFromOldVersion = false ∧ y = d) ∨
    ∃ x v buffer, SyncRPC.Base replica builder.syncFromOldVersion key d x v ∧
      y = { Data.new buffer builder.now with flag1 := true } ∧ IsDiff rpc d v x.versionKey buffer

/-- The hashes are those of the sender. -/
theorem dataMapHash_get {hashes : NavMap Number640 (List Number160)} (h : builder.dataMapHash sender = some hashes)
    {hs : List Number160} (hkey : hashes.get key = some hs) :
    key ∈ builder.keys ∧ ∃ d, StorageLayer.get sender key = some d ∧ hs = [d.hash] := by
  refine foldlM_some (fun r => ∀ k hs, NavMap.get r k = some hs → k ∈ builder.keys ∧
    ∃ d, StorageLayer.get sender k = some d ∧ hs = [d.hash]) ?_ h (fun k hs hk => by cases hk) key hs hkey
  intro r r' k hk hpass hr k' hs' hk'
  obtain ⟨d, hd, rfl⟩ := Option.map_eq_some_iff.mp hpass
  by_cases heq : k' = k
  · rw [heq, get_put_self] at hk'
    cases hk'
    rw [heq]
    exact ⟨hk, d, hd, rfl⟩
  · rw [get_put_ne _ _ _ _ heq] at hk'
    exact hr k' hs' hk'

/-- What the sender makes of the answers. -/
theorem respondAll_get {response dataMap : NavMap Number640 Data} {required : Bool}
    (h : builder.respondAll sender response = some (dataMap, required)) (hkey : dataMap.get key = some y) :
    ∃ d data, StorageLayer.get sender key = some d ∧ response.get key = some data ∧
      ((data.length = 0 ∧ data.flag1 = false ∧ data.flag2 = true ∧ y = d) ∨
        (data.length ≠ 0 ∧ builder.diff d data = some y)) := by
  refine foldlM_some (fun r => ∀ k y, NavMap.get r.1 k = some y → ∃ d data, StorageLayer.get sender k = some d ∧
    response.get k = some data ∧ ((data.length = 0 ∧ data.flag1 = false ∧ data.flag2 = true ∧ y = d) ∨
      (data.length ≠ 0 ∧ builder.diff d data = some y))) ?_ h (fun k y hk => by cases hk) key y hkey
  intro r r' entry hentry hpass hr k y hk
  have hresponse := (get_eq_some_iff response entry.1 entry.2).mpr hentry
  unfold respond at hpass
  by_cases hlength : entry.2.length = 0
  · rw [if_pos hlength] at hpass
    cases hflag1 : entry.2.flag1 with
    | true =>
        rw [hflag1, if_pos rfl] at hpass
        cases hpass
        exact hr k y hk
    | false =>
        rw [hflag1, if_neg Bool.false_ne_true] at hpass
        cases hflag2 : entry.2.flag2 with
        | false =>
            rw [hflag2, if_neg Bool.false_ne_true] at hpass
            cases hpass
            exact hr k y hk
        | true =>
            rw [hflag2, if_pos rfl] at hpass
            obtain ⟨d, hd, rfl⟩ := Option.map_eq_some_iff.mp hpass
            dsimp only at hk
            by_cases heq : k = entry.1
            · rw [heq, get_put_self] at hk
              cases hk
              rw [heq]
              exact ⟨_, entry.2, hd, hresponse, .inl ⟨hlength, hflag1, hflag2, rfl⟩⟩
            · rw [get_put_ne _ _ _ _ heq] at hk
              exact hr k y hk
  · rw [if_neg hlength] at hpass
    obtain ⟨d, hd, hpass⟩ := Option.bind_eq_some_iff.mp hpass
    obtain ⟨data1, hdiff, hpass⟩ := Option.bind_eq_some_iff.mp hpass
    cases hpass
    dsimp only at hk
    by_cases heq : k = entry.1
    · rw [heq, get_put_self] at hk
      cases hk
      rw [heq]
      exact ⟨d, entry.2, hd, hresponse, .inr ⟨hlength, hdiff⟩⟩
    · rw [get_put_ne _ _ _ _ heq] at hk
      exact hr k y hk

/-- The request, as it arrives: each value is one that is sent. -/
theorem sent_of_exchange (hlawful : f.Lawful) (hc : Comparable builder rpc sender replica)
    {hashes : NavMap Number640 (List Number160)} {info response dataMap request : NavMap Number640 Data} {required : Bool}
    (hhashes : builder.dataMapHash sender = some hashes)
    (hinfo : rpc.handleInfo replica builder.syncFromOldVersion hashes = some info)
    (hresponse : (info.filterMapM fun _ d => some <$> transfer f true none none rpc.now builder.now d) = some response)
    (hdataMap : builder.respondAll sender response = some (dataMap, required))
    (hrequest : (dataMap.filterMapM fun _ d =>
      some <$> transfer f false builder.privateKey builder.publicKey builder.now rpc.now d) = some request)
    {e : Data} (hkey : request.get key = some e) :
    key ∈ builder.keys ∧ ∃ d y, StorageLayer.get sender key = some d ∧ Sent builder rpc replica key d y ∧
      transfer f false builder.privateKey builder.publicKey builder.now rpc.now y = some e := by
  obtain ⟨y, hy, htransfer⟩ := get_filterMapM hrequest hkey
  obtain ⟨e', he', heq⟩ := Option.map_eq_some_iff.mp htransfer
  cases heq
  obtain ⟨d, data, hd, hdata, hcases⟩ := respondAll_get hdataMap hy
  obtain ⟨answer, hanswer, hreply⟩ := get_filterMapM hresponse hdata
  obtain ⟨data', hdata', heq⟩ := Option.map_eq_some_iff.mp hreply
  cases heq
  obtain ⟨hs, hhs, hentry⟩ := get_filterMapM hinfo hanswer
  obtain ⟨hmem, d', hd', rfl⟩ := dataMapHash_get hhashes hhs
  rw [hd] at hd'
  cases hd'
  refine ⟨hmem, _, y, hd, ?_, he'⟩
  rcases SyncRPC.infoEntry_cases (toOption_some hentry) with rfl | ⟨hnone, hold, rfl⟩ | ⟨x, v, hbase, hsync⟩
  · -- The values are the same, and nothing is sent.
    have hflags := transfer_flags hdata'
    obtain ⟨-, hlength⟩ := transfer_new _ _ hlawful hdata'
    rcases hcases with ⟨-, hflag1, -⟩ | ⟨hlong, -⟩
    · rw [hflags.1] at hflag1
      cases hflag1
    · exact absurd (BitVec.eq_of_toInt_eq hlength) hlong
  · obtain ⟨-, hlength⟩ := transfer_new _ _ hlawful hdata'
    rcases hcases with ⟨-, -, -, heq⟩ | ⟨hlong, -⟩
    · exact .inl ⟨hnone, hold, heq⟩
    · exact absurd (BitVec.eq_of_toInt_eq hlength) hlong
  · have hsync' := hsync
    unfold SyncRPC.syncRequired at hsync'
    obtain ⟨cs, -, hnew⟩ := except_bind_ok hsync'
    cases hnew
    obtain ⟨hbuffer, hlength⟩ := transfer_new false false hlawful hdata'
    rcases hcases with ⟨hzero, -⟩ | ⟨-, hdiff⟩
    · -- A key in front has 20 bytes.
      have hlong : 20 ≤ (SyncUtils.encodeChecksum cs x.versionKey v.hash).length := by
        rw [SyncUtils.encodeChecksum, length_append, Number160.length_encode]
        exact Nat.le_add_right _ _
      have hnone : (0 : BitVec 32).toInt = 0 := by decide
      rw [hzero, hnone] at hlength
      omega
    · obtain ⟨buffer, hy, hisDiff⟩ := diff_isDiff hc hbase.stored hd hsync hbuffer hdiff
      exact .inr ⟨x, v, buffer, hbase, hy, hisDiff⟩

/-! ### All keys of a synchronization -/

section Loop

variable {s s' : Replication.State} {stored : Bool} {e : Data} {seen : List Number640} {removes : Prop}

/-- What the replica has after a key is reported: what arrives of the value if there was
    none, and otherwise a new value with the payload. -/
def Holds (f : SignatureFactory) (builder : SyncBuilder) (rpc : SyncRPC) (replica : StorageMemory) (key : Number640)
    (d z : Data) : Prop :=
  (StorageLayer.get replica key = none ∧ builder.syncFromOldVersion = false ∧
    (if d.flag1 then z.flag1 = false
      else transfer f false builder.privateKey builder.publicKey builder.now rpc.now d = some z)) ∨
  ((StorageLayer.get replica key ≠ none ∨ builder.syncFromOldVersion = true) ∧ z = Data.new d.buffer rpc.now)

/-- Keys that have been seen may have changed, but not to a value with the hash they had. -/
def Changed (replica : StorageMemory) (seen : List Number640) (m : StorageMemory) : Prop :=
  ∀ x, m.get x = replica.get x ∨ (x ∈ seen ∧ ∀ v₀ v, StorageLayer.get replica x = some v₀ →
    StorageLayer.get m x = some v → v.hash ≠ v₀.hash)

theorem get_congr {m m' : StorageMemory} (h : m.get x = m'.get x) : StorageLayer.get m x = StorageLayer.get m' x := by
  rw [StorageLayer.get, StorageLayer.get, StorageLayer.getInternal, StorageLayer.getInternal, h]

/-- The base of a difference is still there, or its hash is a different one. -/
theorem holds_of_sent (hlawful : f.Lawful) (hsent : Sent builder rpc replica key d y)
    (harrives : transfer f false builder.privateKey builder.publicKey builder.now rpc.now y = some e)
    {m : StorageMemory} (hchanged : Changed replica seen m) {z : Data}
    (hz : if e.flag1 then rpc.Patched m key e z else z = e) : Holds f builder rpc replica key d z := by
  have hflag := (transfer_flags harrives).1
  rcases hsent with ⟨hnone, hold, rfl⟩ | ⟨x, v, buffer, hbase, rfl, bytes, is, rfl, his, hvalue⟩
  · -- A copy, unless the flag of the value makes it a difference.
    refine .inl ⟨hnone, hold, ?_⟩
    rw [hflag] at hz
    cases hflag1 : y.flag1 with
    | true =>
        rw [hflag1, if_pos rfl] at hz
        obtain ⟨_, _, _, _, _, _, _, _, _, _, _, _, _, rfl⟩ := hz
        rw [if_pos rfl]
        rfl
    | false =>
        rw [hflag1, if_neg Bool.false_ne_true] at hz
        rw [if_neg Bool.false_ne_true, hz]
        exact harrives
  · have hflag1 : e.flag1 = true := hflag
    rw [hflag1, if_pos rfl] at hz
    have hbuffer := (transfer_new true false hlawful harrives).1
    obtain ⟨versionKey, buf, hash, buf', is', dataOld, value, hversion, hhash, his', hdataOld, heq, hvalue', rfl⟩ := hz
    -- The fields of the difference are those it was written with.
    rw [hbuffer, SyncUtils.decodeHeader_encode] at hversion
    cases hversion
    rw [SyncUtils.decodeHeader_encode] at hhash
    cases hhash
    rw [his] at his'
    cases his'
    have hx : key.locationAndDomainAndContentKey.version x.versionKey = x := by
      rw [← hbase.content]
      rfl
    rw [hx] at hdataOld
    have hsame : dataOld = v := by
      rcases hchanged x with hkeep | ⟨-, hdifferent⟩
      · rw [get_congr hkeep, hbase.stored] at hdataOld
        exact (Option.some.inj hdataOld).symm
      · exact absurd heq (hdifferent v dataOld hbase.stored hdataOld)
    rw [hsame, hvalue] at hvalue'
    cases hvalue'
    refine .inr ⟨?_, rfl⟩
    by_cases hnone : StorageLayer.get replica key = none
    · exact .inr (hbase.other hnone)
    · exact .inl hnone

theorem changed_of_effect (hsent : Sent builder rpc replica key d y) {m m' : StorageMemory}
    (hchanged : Changed replica seen m) (hnew : key ∉ seen)
    (heffect : SyncRPC.EntryEffect m m' key stored (Holds f builder rpc replica key d)) :
    Changed replica (key :: seen) m' := by
  intro x
  by_cases hx : x = key
  · subst hx
    rcases heffect.own with hkeep | hnone | ⟨z, hz, hholds⟩
    · have hold := (hchanged x).resolve_right fun h => hnew h.1
      exact .inl (hkeep.trans hold)
    · refine .inr ⟨mem_cons_self, fun v₀ v _ hv => ?_⟩
      rw [StorageLayer.get, StorageLayer.getInternal, hnone] at hv
      cases hv
    · refine .inr ⟨mem_cons_self, fun v₀ v hv₀ hv => ?_⟩
      have hne : StorageLayer.get replica x ≠ none := fun hnone => by rw [hv₀] at hnone; cases hnone
      -- The key had a value, so a difference to that was sent, and the hashes are different.
      obtain ⟨hnone, -⟩ | ⟨base, w, -, hbase, -⟩ := hsent
      · exact absurd hnone hne
      obtain ⟨rfl, hdifferent⟩ := hbase.own hne
      have hw := hbase.stored
      rw [hv₀] at hw
      cases hw
      obtain ⟨hnone, -⟩ | ⟨-, rfl⟩ := hholds
      · exact absurd hnone hne
      · rw [StorageLayer.get, StorageLayer.getInternal, hz] at hv
        cases hv
        exact hdifferent
  · rcases hchanged x with hkeep | ⟨hmem, hdifferent⟩
    · exact .inl ((heffect.others x hx).trans hkeep)
    · refine .inr ⟨mem_cons_of_mem _ hmem, fun v₀ v hv₀ hv => hdifferent v₀ v hv₀ ?_⟩
      rw [← get_congr (heffect.others x hx)]
      exact hv

/-- After all keys, those that are reported hold what they should, and other keys than
    these are left alone. -/
theorem handleSync_run (hlawful : f.Lawful) (hmax : rpc.storageLayer.maxVersions.toInt ≤ 0)
    (hquiet : SyncRPC.Quiet rpc.replicationListener removes) {entries : List (Number640 × Data)}
    (hentries : ∀ entry ∈ entries, (entry.2.flag2 = true → removes) ∧ ∃ d y, StorageLayer.get sender entry.1 = some d ∧
      Sent builder rpc replica entry.1 d y ∧
      transfer f false builder.privateKey builder.publicKey builder.now rpc.now y = some entry.2)
    (hnodup : (entries.map Prod.fst).Nodup) (hseen : ∀ entry ∈ entries, entry.1 ∉ seen)
    (hchanged : Changed replica seen s.store) {retVal retVal' : List Number640}
    (hrun : entries.foldlM (fun (retVal : List Number640) entry => ((do
      let stored ← rpc.syncEntry builder.publicKey entry.1 entry.2
      return if stored then retVal ++ [entry.1] else retVal) : ReplicaM (List Number640))) retVal s = .ok retVal' s') :
    (∀ x, x ∉ entries.map Prod.fst → s'.store.get x = s.store.get x) ∧
      ∀ k ∈ retVal', k ∈ retVal ∨ ∃ d z, StorageLayer.get sender k = some d ∧ s'.store.get k = some z ∧
        z.prepareFlag = false ∧ Holds f builder rpc replica k d z := by
  induction entries generalizing seen s retVal with
  | nil =>
      cases hrun
      exact ⟨fun _ _ => rfl, fun k hk => .inl hk⟩
  | cons entry entries ih =>
      rw [foldlM_cons] at hrun
      obtain ⟨retVal₁, s₁, hpass, hrest⟩ := (bind_ok_iff _ _ _ _ _).mp hrun
      obtain ⟨stored, s₂, hentry, hreturn⟩ := (bind_ok_iff _ _ _ _ _).mp hpass
      cases hreturn
      obtain ⟨hremoves, d, y, hd, hsent, harrives⟩ := hentries entry mem_cons_self
      have heffect := (SyncRPC.syncEntry_effect hmax hquiet hremoves hentry).imp
        fun z hz => holds_of_sent hlawful hsent harrives hchanged hz
      rw [map_cons, nodup_cons] at hnodup
      have hlater : ∀ later ∈ entries, later.1 ∉ entry.1 :: seen := by
        intro later hmem
        rw [mem_cons, not_or]
        refine ⟨fun heq => hnodup.1 ?_, hseen later (mem_cons_of_mem _ hmem)⟩
        rw [← heq]
        exact mem_map_of_mem hmem
      obtain ⟨hothers, hreported⟩ := ih (fun later hmem => hentries later (mem_cons_of_mem _ hmem)) hnodup.2 hlater
        (changed_of_effect hsent hchanged (hseen entry mem_cons_self) heffect) hrest
      refine ⟨fun x hx => ?_, fun k hk => ?_⟩
      · rw [map_cons, mem_cons, not_or] at hx
        exact (hothers x hx.2).trans (heffect.others x hx.1)
      · rcases hreported k hk with hmem | hlater
        · cases stored with
          | false => exact .inl hmem
          | true =>
              rw [if_pos rfl, mem_append, mem_singleton] at hmem
              rcases hmem with hmem | rfl
              · exact .inl hmem
              · obtain ⟨z, hz, hprepare, hholds⟩ := heffect.reported rfl
                exact .inr ⟨d, z, hd, (hothers _ hnodup.1).trans hz, hprepare, hholds⟩
        · exact .inr hlater

end Loop

/-! ### Replicas that are equal -/

/-- A value that is nothing but its payload. -/
structure Plain (d : Data) : Prop where
  basedOnSet : (HashedSet.empty : HashedSet Number160).equals d.basedOnSet = true
  ttlSeconds : d.ttlSeconds = -1
  flag1 : d.flag1 = false
  flag2 : d.flag2 = false
  publicKey : d.publicKey = none
  signature : d.signature = none
  protectedEntry : d.protectedEntry = false

theorem agrees_new_iff (now : BitVec 64) : d.Agrees (Data.new d.buffer now).duplicate ↔ Plain d :=
  ⟨fun h => ⟨h.basedOnSet, h.ttlSeconds.symm, h.flag1.symm, h.flag2.symm, h.publicKey.symm, h.signature.symm,
      h.protectedEntry.symm⟩,
    fun h => ⟨rfl, h.basedOnSet, h.ttlSeconds.symm, h.flag1.symm, h.flag2.symm, h.publicKey.symm, h.signature.symm,
      h.protectedEntry.symm⟩⟩

/-- The value is sent as it is, and comes to the replica so; or it is sent as a difference
    and has nothing else than its payload. -/
def Survives (builder : SyncBuilder) (replica : StorageMemory) (key : Number640) (d : Data) : Prop :=
  if StorageLayer.get replica key = none ∧ builder.syncFromOldVersion = false then d.flag1 = false ∧ d.Portable
  else Plain d

theorem holds_agrees_iff (hk : d.Kept) (hs : d.Signable f) (hsize : 0 < f.signatureSize) {z : Data}
    (h : Holds f builder rpc replica key d z) : d.Agrees z.duplicate ↔ Survives builder replica key d := by
  unfold Survives
  rcases h with ⟨hnone, hold, hz⟩ | ⟨hdiff, rfl⟩
  · rw [if_pos ⟨hnone, hold⟩]
    cases hflag1 : d.flag1 with
    | true =>
        -- The value was taken for a difference.
        rw [hflag1, if_pos rfl] at hz
        refine iff_of_false (fun h => ?_) (fun h => by cases h.1)
        have hflag : z.flag1 = d.flag1 := h.flag1
        rw [hz, hflag1] at hflag
        cases hflag
    | false =>
        rw [hflag1, if_neg Bool.false_ne_true] at hz
        obtain ⟨v, hv, hrun⟩ := transfer_some hz
        have hduplicate : d.Agrees z.duplicate ↔ d.Agrees z :=
          ⟨fun h => ⟨h.1, h.2, h.3, h.4, h.5, h.6, h.7, h.8⟩, fun h => ⟨h.1, h.2, h.3, h.4, h.5, h.6, h.7, h.8⟩⟩
        rw [hduplicate, Data.agrees_iff_portable hk hs hsize hv hrun]
        exact ⟨fun h => ⟨rfl, h⟩, fun h => h.2⟩
  · rw [if_neg (fun h => hdiff.elim (fun hne => hne h.1) (fun htrue => by rw [h.2] at htrue; cases htrue))]
    exact agrees_new_iff rpc.now

/-- **Synchronization.** A key that the replica reports holds a value equal to that of
    the sender exactly if the value was sent as it is, without the user flag that marks
    differences and with flags that agree with its fields, or was sent as a difference
    and has nothing but a payload. -/
theorem synchronized_agrees_iff (hlawful : f.Lawful) (hsize : 0 < f.signatureSize) {replica replica' : Replication.State}
    (hvalues : ∀ k d, StorageLayer.get sender k = some d → Data.Reachable f d ∧ d.Signable f)
    (hc : Comparable builder rpc sender replica.store) (hmax : rpc.storageLayer.maxVersions.toInt ≤ 0)
    (hquiet : SyncRPC.Quiet rpc.replicationListener
      (∃ k ∈ builder.keys, ∃ d, StorageLayer.get sender k = some d ∧ d.flag2 = true))
    {retVal : List Number640} (h : synchronize f builder rpc sender replica = some (retVal, replica'))
    {key : Number640} (hkey : key ∈ retVal) :
    ∃ d, StorageLayer.get sender key = some d ∧
      ((∃ e, StorageLayer.get replica'.store key = some e ∧ d.Agrees e) ↔ Survives builder replica.store key d) := by
  unfold synchronize at h
  -- The stages of the exchange, each of which has succeeded.
  obtain ⟨hashes, hhashes, h⟩ := Option.bind_eq_some_iff.mp h
  obtain ⟨info, hinfo, h⟩ := Option.bind_eq_some_iff.mp h
  obtain ⟨response, hresponse, h⟩ := Option.bind_eq_some_iff.mp h
  obtain ⟨⟨dataMap, required⟩, hdataMap, h⟩ := Option.bind_eq_some_iff.mp h
  cases required with
  | false =>
      cases h
      -- Nothing was required, so nothing is reported.
      exact absurd hkey not_mem_nil
  | true =>
      dsimp only at h
      rw [if_pos rfl] at h
      obtain ⟨request, hrequest, h⟩ := Option.bind_eq_some_iff.mp h
      rcases hsync : rpc.handleSync builder.publicKey request replica with ⟨reported, s⟩ | ⟨e, s⟩
      · rw [hsync] at h
        cases h
        -- Each entry of the request comes from a value of the sender.
        have hentries : ∀ entry ∈ request.entries, (entry.2.flag2 = true →
            ∃ k ∈ builder.keys, ∃ d, StorageLayer.get sender k = some d ∧ d.flag2 = true) ∧
            ∃ d y, StorageLayer.get sender entry.1 = some d ∧ Sent builder rpc replica.store entry.1 d y ∧
            transfer f false builder.privateKey builder.publicKey builder.now rpc.now y = some entry.2 := by
          intro entry hentry
          obtain ⟨hmem, d, y, hd, hsent, harrives⟩ := sent_of_exchange hlawful hc hhashes hinfo hresponse hdataMap
            hrequest ((get_eq_some_iff request entry.1 entry.2).mpr hentry)
          refine ⟨fun hflag2 => ?_, d, y, hd, hsent, harrives⟩
          rw [(transfer_flags harrives).2] at hflag2
          rcases hsent with ⟨-, -, rfl⟩ | ⟨_, _, _, -, rfl, -⟩
          · exact ⟨entry.1, hmem, y, hd, hflag2⟩
          · cases hflag2
        obtain ⟨-, hreported⟩ := handleSync_run hlawful hmax hquiet hentries request.nodup_keys
          (fun _ _ => not_mem_nil) (fun x => .inl rfl : Changed replica.store [] replica.store) hsync
        obtain ⟨d, z, hd, hz, hprepare, hholds⟩ := (hreported key hkey).resolve_left not_mem_nil
        -- The replica shows what it has stored, which is not prepared.
        have hget : StorageLayer.get replica'.store key = some z.duplicate := by
          rw [StorageLayer.get, StorageLayer.getInternal, hz]
          dsimp only
          rw [Data.hasPrepareFlag, hprepare]
          rfl
        obtain ⟨hreachable, hsignable⟩ := hvalues key d hd
        refine ⟨d, hd, ?_⟩
        rw [← holds_agrees_iff hreachable.kept hsignable hsize hholds, hget]
        constructor
        · rintro ⟨e, he, hagrees⟩
          cases he
          exact hagrees
        · intro hagrees
          exact ⟨_, rfl, hagrees⟩
      · rw [hsync] at h
        cases h

/-! ### A value with a time to live -/

/-- A key, and a value for it. -/
def someKey : Number640 := ⟨⟨0, 0, 0, 0, 1⟩, ⟨0, 0, 0, 0, 2⟩, ⟨0, 0, 0, 0, 3⟩, ⟨0, 0, 0, 0, 4⟩⟩

def storeOf (d : Data) : StorageMemory := ({} : StorageMemory).put someKey d

/-- A value that expires, and the one it is to replace. -/
def expiring : Data := (Data.new [8#8] 0).setTtlSeconds 1

def outdated : Data := Data.new [7#8] 0

theorem get_storeOf {d v : Data} {k : Number640} (h : StorageLayer.get (storeOf d) k = some v) : v = d.duplicate := by
  have hget : (storeOf d).get k = if k = someKey then some d else none := by
    rw [storeOf, StorageMemory.get]
    exact get_put _ _ _ _
  rw [StorageLayer.get, StorageLayer.getInternal, hget] at h
  by_cases hk : k = someKey
  · rw [if_pos hk] at h
    dsimp only at h
    by_cases hvisible : (!d.hasPrepareFlag) = true
    · rw [if_pos hvisible] at h
      exact (Option.some.inj h).symm
    · rw [if_neg hvisible] at h
      cases h
  · rw [if_neg hk] at h
    cases h

/-- The key is reported, and the value of the replica does not expire. -/
theorem synchronize_expiring : ((synchronize .zeros { keys := [someKey] } {} (storeOf expiring)
    { store := storeOf outdated }).map fun r => (r.1, (StorageLayer.get r.2.store someKey).map Data.ttlSeconds)) =
    some ([someKey], some (-1)) := by
  decide +kernel

/-- A value with a time to live that is sent as a difference loses it. -/
theorem not_synchronized_expiring : ∃ replica',
    synchronize .zeros { keys := [someKey] } {} (storeOf expiring) { store := storeOf outdated } =
      some ([someKey], replica') ∧
    StorageLayer.get (storeOf expiring) someKey = some expiring.duplicate ∧
    ¬∃ e, StorageLayer.get replica'.store someKey = some e ∧ expiring.duplicate.Agrees e := by
  obtain ⟨⟨retVal, replica'⟩, hrun, heq⟩ := Option.map_eq_some_iff.mp synchronize_expiring
  injection heq with hretVal hget
  have hretVal' : retVal = [someKey] := hretVal
  subst hretVal'
  refine ⟨replica', hrun, by decide, ?_⟩
  rintro ⟨e, he, hagrees⟩
  have hget' : (StorageLayer.get replica'.store someKey).map Data.ttlSeconds = some (-1) := hget
  rw [he] at hget'
  have httl : e.ttlSeconds = 1 := hagrees.ttlSeconds
  rw [Option.map_some, httl] at hget'
  cases hget'

theorem comparable_expiring :
    Comparable { keys := [someKey] } {} (storeOf expiring) (storeOf outdated) where
  oldBlock := by decide
  newBlock := by decide
  oldLength k v hv := by
    rw [get_storeOf hv]
    decide
  newLength k d hd := by
    rw [get_storeOf hd]
    decide
  noCollision k v l d hv hd := by
    rw [get_storeOf hv, get_storeOf hd]
    have hall : ∀ o < 2, md5 [7#8] = md5 (([8#8] : Bytes).drop o |>.take 700) →
        ([7#8] : Bytes) = (([8#8] : Bytes).drop o).take 700 := by decide +kernel
    intro i o hi ho hmd5
    have hi0 : i = 0 := by
      have hlt : i * 700 < 1 := hi
      omega
    have ho1 : o ≤ 1 := ho
    rw [hi0] at hmd5 ⊢
    exact hall o (by omega) hmd5

/-- The value with a time to live agrees exactly if it survives. -/
theorem synchronized_expiring : ∃ replica',
    synchronize .zeros { keys := [someKey] } {} (storeOf expiring) { store := storeOf outdated } =
      some ([someKey], replica') ∧
    ∃ d, StorageLayer.get (storeOf expiring) someKey = some d ∧
      ((∃ e, StorageLayer.get replica'.store someKey = some e ∧ d.Agrees e) ↔
        Survives { keys := [someKey] } (storeOf outdated) someKey d) := by
  obtain ⟨⟨retVal, replica'⟩, hrun, heq⟩ := Option.map_eq_some_iff.mp synchronize_expiring
  injection heq with hretVal hget
  have hretVal' : retVal = [someKey] := hretVal
  subst hretVal'
  have hvalues : ∀ k d, StorageLayer.get (storeOf expiring) k = some d →
      Data.Reachable .zeros d ∧ d.Signable .zeros := by
    intro k d hd
    rw [get_storeOf hd]
    exact ⟨.set _ .duplicate (.set _ (.ttlSeconds 1) (.made (.buffer [8#8] 1) 0 _ rfl)),
      SignatureFactory.zeros_lawful, (fun _ h => by cases h), (fun _ h => by cases h)⟩
  exact ⟨replica', hrun, synchronized_agrees_iff SignatureFactory.zeros_lawful (by decide) hvalues comparable_expiring
    (by decide) ⟨(fun _ h => by cases h), (fun _ h => by cases h)⟩ hrun mem_cons_self⟩

end SyncBuilder

end TomP2P
