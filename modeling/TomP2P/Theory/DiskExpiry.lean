import TomP2P.Core.DiskTimeouts
import TomP2P.Theory.ContentWaits
import TomP2P.Theory.DiskStore
import TomP2P.Theory.TimeToLive

/-!
# Expiry on Disk

When a value that is read from disk expires.

What is written of a life is its length. Its start is not, and what is read starts at the
time of the reading (`StorageDisk.Fresh`). So the life of a value that expires is as long
again with each reading, while the timeout that was recorded stays
(`StorageDisk.Database.Sited`).

The length comes from the header in front of the entry. For a large value this is the
header of whatever was last written to the file of its hash, `History.current`.

Nothing is asked of the values here but that they can be written: the header says where
the length is, whether or not what follows it can be read.

## Main definitions

* `Data.writtenTtl`: The seconds that are written.
* `Data.deadline`: The end of a life that starts at a time.
* `StorageDisk.Front`: What starts with the header of a value.
* `StorageDisk.Database.Sited`: The database and its history.

## Theorems

* `StorageDisk.Database.sited_run`: Every database that is reached belongs to its history.
* `StorageDisk.Database.get_fresh`: What is read has the seconds that were written, from
  the time of the reading on.
* `StorageDisk.Database.survives_iff`: When a life is what it was.
-/

namespace TomP2P

open Wire Reader Effect Function NavMap Outcome SignatureFactory List

namespace Data

/-- The seconds that are written, and read where none are. -/
def writtenTtl (d : Data) : BitVec 32 := if d.ttl then d.ttlSeconds else -1

/-- The end of a life of some seconds that starts at a time. -/
def deadline (ttlSeconds : BitVec 32) (validFromMillis : BitVec 64) : Int :=
  if ttlSeconds.toInt ≤ 0 then NEVER else (validFromMillis + ttlSeconds.signExtend 64 * 1000).toInt

theorem expirationMillis_eq (d : Data) : d.expirationMillis = deadline d.ttlSeconds d.validFromMillis := rfl

/-- Lives of the same length end together if they do not end or start together. -/
theorem deadline_eq_iff (ttlSeconds : BitVec 32) (now from' : BitVec 64) :
    deadline ttlSeconds now = deadline ttlSeconds from' ↔ (0 < ttlSeconds.toInt → now = from') := by
  unfold deadline
  by_cases hpos : ttlSeconds.toInt ≤ 0
  · simp only [if_pos hpos, true_iff]
    omega
  · simp only [if_neg hpos, BitVec.toInt_inj, BitVec.add_left_inj]
    exact ⟨fun h _ => h, fun h => h (by omega)⟩

variable {σ : Type} {f : SignatureFactory} {d : Data}

/-- The seconds are read from any part of the bytes that the header is complete in. -/
theorem lookHeader_writtenTtl {header p tail r r' : Bytes} {s s' : σ} {front : Front}
    (hheader : d.encodeHeader f = .ok header) (hp : p ++ tail = header ++ r)
    (h : lookHeader.run s p = .done front s' r') : front.ttl = d.writtenTtl := by
  have hlen : 2 ≤ p.length := by
    rcases peeks_header s p trivial with hwait | ⟨front', hdone, hpos, hle⟩
    · rw [hwait] at h
      cases h
    · omega
  have hbits := header_bits d
  -- the first byte is the one that was written
  have hfirst : front.header = d.header := by
    have htake : p.take 1 = (header ++ r).take 1 := by
      rw [← hp, take_append_of_le_length (by omega)]
    rw [(lookHeader_done h).1, htake]
    exact first_encodeHeader hheader r
  have hhas : hasTTL front.header = d.ttl := by rw [hfirst, hbits.2.2.2.2.1]
  unfold writtenTtl
  cases httl : d.ttl with
  | false => exact (lookHeader_done h).2.1 (by rw [hhas, httl])
  | true =>
      obtain ⟨hread, hthere⟩ := lookHeader_ttl h (by rw [hhas, httl])
      rw [hfirst, hbits.1] at hread hthere
      have htake : (p.drop (indexTTL d.type)).take 4 = writeInt d.ttlSeconds := by
        rw [← ttlField_at hheader httl r, ← hp, drop_append_of_le_length (by omega),
          take_append_of_le_length (by rw [length_drop]; omega)]
      rw [if_pos rfl, hread, htake, writeInt, ofBE_toBE_of_lt 4 _ d.ttlSeconds.isLt, BitVec.ofNat_toNat,
        BitVec.setWidth_eq]

/-- A key that has arrived is not waited for. -/
theorem readPublicKey_done (header : BitVec 32) (s : σ) (b : Bytes) :
    ∃ publicKey r, (readPublicKey f header).run s b = .done publicKey s r := by
  unfold readPublicKey
  by_cases hkey : hasPublicKeyBits header = true
  · rw [if_pos hkey, f.run_decodePublicKey]
    split
    · exact ⟨_, _, rfl⟩
    split
    · exact ⟨_, _, rfl⟩
    · exact ⟨_, _, rfl⟩
  · rw [if_neg hkey]
    exact ⟨none, b, rfl⟩

/-- A header that is not complete is left. -/
theorem decodeHeader_wait {now : BitVec 64} {s s' : σ} {b r : Bytes}
    (h : (decodeHeader f now).run s b = .wait s' r) : r = b := by
  rcases peeks_header s b trivial with hwait | ⟨front, hdone, -, hle⟩
  · rw [decodeHeader, run_bind, hwait, andThen_wait] at h
    cases h
    rfl
  · -- nothing behind the header waits
    exfalso
    obtain ⟨publicKey, r', hkey⟩ := readPublicKey_done (f := f) front.header s (b.drop front.indexPublicKeySize)
    rw [decodeHeader, run_bind, hdone, andThen_done, run_bind, run_read, if_neg (by omega),
      andThen_done, run_bind, hkey, andThen_done, run_bind] at h
    cases hof : ofHeader front.header front.length now with
    | error e | ok data =>
        rw [hof] at h
        cases h

end Data

namespace StorageDisk

open DataSerializer

variable {f : SignatureFactory} {d e : Data} {now : BitVec 64}

/-- The bytes start with the header of a value. -/
def Front (f : SignatureFactory) (d : Data) (b : Wire.Bytes) : Prop :=
  ∃ header r, d.encodeHeader f = .ok header ∧ b = header ++ r

/-- What is read of a value: its seconds, from the time of the reading on. -/
def Fresh (d : Data) (now : BitVec 64) (e : Data) : Prop :=
  e.ttlSeconds = d.writtenTtl ∧ e.validFromMillis = now

theorem Fresh.of_front {e' : Data} (h : Fresh d now e) (he : Data.front e' = Data.front e) : Fresh d now e' := by
  have hseconds := congrArg Data.ttlSeconds he
  have hvalid := congrArg Data.validFromMillis he
  exact ⟨Eq.trans hseconds h.1, Eq.trans hvalid h.2⟩

/-! ### Reading -/

theorem fresh_decodeHeader {σ : Type} {p tail b r : Wire.Bytes} {s s' : σ} (hb : Front f d b) (hp : p ++ tail = b)
    (h : (Data.decodeHeader f now).run s p = .done e s' r) : Fresh d now e := by
  obtain ⟨header, rest, hheader, rfl⟩ := hb
  obtain ⟨front, s₁, r₁, data, publicKey, hlook, hnew, rfl⟩ := Data.decodeHeader_parts h
  have hvalid := Data.ofHeader_validFromMillis hnew
  exact ⟨Data.lookHeader_writtenTtl hheader hp hlook, hvalid⟩

/-- The header is tried with more and more of the bytes, and always from their front. -/
theorem fresh_readHeader {buf input b rest : Wire.Bytes} (hb : Front f d b) (hinput : buf ++ input = b)
    (h : readHeader f now buf input = .ok (e, rest)) : Fresh d now e := by
  induction input generalizing buf with
  | nil => cases h
  | cons x input ih =>
      have hmore : (buf ++ [x]) ++ input = b := by simp [← hinput]
      rw [readHeader] at h
      cases hrun : (Data.decodeHeader f now).run () (buf ++ [x]) with
      | done data s r =>
          simp only [hrun, Except.ok.injEq, Prod.mk.injEq] at h
          rw [← h.1]
          exact fresh_decodeHeader hb hmore hrun
      | wait s r =>
          simp only [hrun] at h
          rw [Data.decodeHeader_wait hrun] at h
          exact ih hmore h
      | fail x s r =>
          simp only [hrun] at h
          cases h

theorem complete_ok {message : String} {o : Outcome JavaException Data Unit} (h : complete message o = .ok e) :
    o.state = e := by
  cases o with
  | done _ data _ =>
      cases h
      rfl
  | wait _ _ => cases h
  | fail _ _ _ => cases h

theorem anyway_ok {o : Outcome JavaException Data Unit} {r : Wire.Bytes} (h : anyway o = .ok (e, r)) :
    o.state = e := by
  cases o with
  | done _ data _ =>
      cases h
      rfl
  | wait data _ =>
      cases h
      rfl
  | fail _ _ _ => cases h

/-- The payload and the signature leave the seconds and the time. -/
theorem Fresh.decodeBuffer {data : Data} {me : Wire.Bytes} (h : Fresh d now data)
    (hrun : (Data.decodeBuffer.run data me).state = e) : Fresh d now e := by
  subst hrun
  exact h.of_front (Data.keeps_decodeBuffer data data me rfl)

theorem Fresh.decodeDone {data : Data} {me : Wire.Bytes} (h : Fresh d now data)
    (hrun : ((Data.decodeDone f none).run data me).state = e) : Fresh d now e := by
  subst hrun
  exact h.of_front (Data.keeps_decodeDone none data data me rfl)

theorem fresh_deserializeMapDB {b rest : Wire.Bytes} (hb : Front f d b)
    (h : deserializeMapDB f now b = .ok (e, rest)) : Fresh d now e := by
  obtain ⟨⟨data, input⟩, hheader, h⟩ := except_bind_ok h
  obtain ⟨⟨me, input⟩, _, h⟩ := except_bind_ok h
  obtain ⟨data', hbuffer, h⟩ := except_bind_ok h
  have hfirst : Fresh d now data := fresh_readHeader hb (nil_append b) hheader
  have hpayload := hfirst.decodeBuffer (complete_ok hbuffer)
  -- the signature is taken from more bytes, or from none
  split at h
  all_goals
    obtain ⟨⟨me', input⟩, _, h⟩ := except_bind_ok h
    obtain ⟨data'', hdone, h⟩ := except_bind_ok h
    cases h
    exact hpayload.decodeDone (complete_ok hdone)

theorem fresh_deserializeFile {path : Directory} {b me rest : Wire.Bytes}
    (hb : path.get (Number160.ofBytes (me.take Number160.BYTE_ARRAY_SIZE)) = some b) (hfront : Front f d b)
    (h : deserializeFile f path now me = .ok (e, rest)) : Fresh d now e := by
  obtain ⟨⟨me', input⟩, hname, h⟩ := except_bind_ok h
  have hme : me' = me.take Number160.BYTE_ARRAY_SIZE := by
    unfold readFully at hname
    split at hname
    · cases hname
    · cases hname
      rfl
  simp only [hme, hb] at h
  cases hrun : (Data.decodeHeader f now).run () b with
  | wait s r | fail x s r =>
      simp only [hrun] at h
      cases h
  | done data s r =>
      simp only [hrun] at h
      obtain ⟨⟨data', r'⟩, hbuffer, h⟩ := except_bind_ok h
      obtain ⟨⟨data'', r''⟩, hdone, h⟩ := except_bind_ok h
      cases h
      have hfirst : Fresh d now data := fresh_decodeHeader hfront (append_nil b) hrun
      exact (hfirst.decodeBuffer (anyway_ok hbuffer)).decodeDone (anyway_ok hdone)

/-! ### Writing -/

/-- A small value is in the map. -/
theorem put_front_small {m m' : StorageDisk} {key : Number640} (hsize : ¬ MAX_SIZE < d.length.toInt)
    (hput : m.put f key d = .ok m') : ∃ b, Front f d b ∧ m' = ⟨m.dataMap.put key (0#8 :: b), m.path⟩ := by
  obtain ⟨⟨out, path⟩, hout, hm⟩ := except_bind_ok hput
  rw [serialize, if_neg hsize] at hout
  obtain ⟨b, hmap, hout⟩ := except_bind_ok hout
  cases hout
  cases hm
  obtain ⟨header, hheader, hmap⟩ := except_bind_ok hmap
  obtain ⟨signature, _, hmap⟩ := except_bind_ok hmap
  have hb := Except.ok.inj hmap
  simp only [Scratch.write, Scratch.nioBuffers, nil_append, drop_zero, append_assoc] at hb
  exact ⟨b, ⟨header, _, hheader, hb.symm⟩, rfl⟩

/-- A large value is in the file of its hash, from the front on. -/
theorem put_front_large {m m' : StorageDisk} {key : Number640} (hsize : MAX_SIZE < d.length.toInt)
    (hput : m.put f key d = .ok m') :
    ∃ b, Front f d b ∧ m' = ⟨m.dataMap.put key (1#8 :: d.hash.encode), m.path.put d.hash b⟩ := by
  obtain ⟨⟨out, path⟩, hout, hm⟩ := except_bind_ok hput
  rw [serialize, if_pos hsize] at hout
  obtain ⟨⟨name, path'⟩, hfile, hout⟩ := except_bind_ok hout
  cases hout
  cases hm
  obtain ⟨header, hheader, hfile⟩ := except_bind_ok hfile
  obtain ⟨signature, _, hfile⟩ := except_bind_ok hfile
  cases hfile
  -- writing starts at the front
  have hwrite := writeFile_eq [header, d.buffer, header ++ Data.signatureField signature] [] (m.path.openFile d.hash)
  rw [nil_append, nil_append, flatten_cons, append_assoc] at hwrite
  exact ⟨_, ⟨header, _, hheader, hwrite⟩, rfl⟩

/-! ### The database and its history -/

namespace Database

/-- What the map holds for what is stored: the name of a file, or the value from its header
    on. -/
inductive Entry (f : SignatureFactory) : Option Data → Option Wire.Bytes → Prop
  | absent : Entry f none none
  | small {d : Data} {b : Wire.Bytes} (hsize : ¬ MAX_SIZE < d.length.toInt) (hfront : Front f d b) :
      Entry f (some d) (some (0#8 :: b))
  | large {d : Data} (hsize : MAX_SIZE < d.length.toInt) : Entry f (some d) (some (1#8 :: d.hash.encode))

/-- The map and the files have what was last put, from the header on, and the timeouts are
    those of the values that are stored. -/
structure Sited (f : SignatureFactory) (s : Database) (h : History) : Prop where
  map : ∀ key, Entry f (h.stored key) (s.dataMap.get key)
  named : h.Named
  file : ∀ hash d, h.files hash = some d → ∃ b, s.path.get hash = some b ∧ Front f d b
  timeout : ∀ key, s.timeoutMap.get key = (h.stored key).map Data.expirationMillis

variable {s s' : Database} {h : History}

theorem sited_nil : Sited f {} {} where
  map _ := .absent
  named _ _ hstored := by cases hstored
  file _ _ hfile := by cases hfile
  timeout _ := rfl

/-- A small value has its entry in the map. -/
theorem Sited.store_small (hs : Sited f s h) {key : Number640} (hsize : ¬ MAX_SIZE < d.length.toInt)
    (hstore : s.store f key d = .ok s') : Sited f s' (h.after (.put key d)) := by
  obtain ⟨m, hput, hstore⟩ := except_bind_ok hstore
  obtain ⟨b, hfront, rfl⟩ := put_front_small hsize hput
  obtain ⟨rev, hadd⟩ := addTimeout_eq { s with toStorageDisk := ⟨s.dataMap.put key (0#8 :: b), s.path⟩ } key
    d.expirationMillis
  rw [← Except.ok.inj hstore, hadd]
  refine ⟨fun key' => ?_, hs.named.after _, fun hash e he => ?_, fun key' => ?_⟩
  · by_cases hkey : key' = key
    · simp only [hkey, History.stored_put, update_self, get_put_self]
      exact .small hsize hfront
    · simp only [History.stored_put, update_of_ne hkey, get_put_ne _ _ _ _ hkey]
      exact hs.map key'
  · rw [h.files_put_small key hsize] at he
    exact hs.file hash e he
  · by_cases hkey : key' = key
    · simp [hkey]
    · simp [hkey, get_put_ne _ _ _ _ hkey, hs.timeout key']

/-- A large value has its name in the map, and the file of that name is its own from now on. -/
theorem Sited.store_large (hs : Sited f s h) {key : Number640} (hsize : MAX_SIZE < d.length.toInt)
    (hstore : s.store f key d = .ok s') : Sited f s' (h.after (.put key d)) := by
  obtain ⟨m, hput, hstore⟩ := except_bind_ok hstore
  obtain ⟨b, hfront, rfl⟩ := put_front_large hsize hput
  obtain ⟨rev, hadd⟩ := addTimeout_eq
    { s with toStorageDisk := ⟨s.dataMap.put key (1#8 :: d.hash.encode), s.path.put d.hash b⟩ } key d.expirationMillis
  rw [← Except.ok.inj hstore, hadd]
  refine ⟨fun key' => ?_, hs.named.after _, fun hash e he => ?_, fun key' => ?_⟩
  · by_cases hkey : key' = key
    · simp only [hkey, History.stored_put, update_self, get_put_self]
      exact .large hsize
    · simp only [History.stored_put, update_of_ne hkey, get_put_ne _ _ _ _ hkey]
      exact hs.map key'
  · rw [h.files_put_large key hsize] at he
    by_cases hhash : hash = d.hash
    · rw [hhash, update_self] at he
      cases he
      exact ⟨b, by rw [hhash, HashedMap.get_put, if_pos rfl], hfront⟩
    · rw [update_of_ne hhash] at he
      obtain ⟨b', hget, hfront'⟩ := hs.file hash e he
      exact ⟨b', by rw [HashedMap.get_put, if_neg hhash, hget], hfront'⟩
  · by_cases hkey : key' = key
    · simp [hkey]
    · simp [hkey, get_put_ne _ _ _ _ hkey, hs.timeout key']

theorem Sited.drop (hs : Sited f s h) (key : Number640) : Sited f (s.drop key) (h.after (.remove key)) := by
  obtain ⟨rev, hremove⟩ := removeTimeout_eq { s with toStorageDisk := s.toStorageDisk.remove key } key
  rw [Database.drop, hremove]
  refine ⟨fun key' => ?_, hs.named.after _, hs.file, fun key' => ?_⟩
  · by_cases hkey : key' = key
    · simp only [hkey, History.stored_remove, update_self, StorageDisk.remove, get_remove_self]
      exact .absent
    · simp only [History.stored_remove, update_of_ne hkey, StorageDisk.remove, get_remove_ne _ _ _ hkey]
      exact hs.map key'
  · by_cases hkey : key' = key
    · simp [hkey]
    · simp [hkey, get_remove_ne _ _ _ hkey, hs.timeout key']

theorem Sited.after (hs : Sited f s h) {op : Op} (hrun : s.apply f op = .ok s') : Sited f s' (h.after op) := by
  cases op with
  | put key d =>
      by_cases hsize : MAX_SIZE < d.length.toInt
      · exact hs.store_large hsize hrun
      · exact hs.store_small hsize hrun
  | remove key =>
      cases hrun
      exact hs.drop key

/-- The database belongs to its history throughout. -/
theorem sited_run (ops : List Op) (hrun : run f ops = .ok s) : Sited f s (History.of ops) := by
  induction ops using List.reverseRecOn generalizing s with
  | nil =>
      cases hrun
      exact sited_nil
  | append_singleton ops op ih =>
      rw [run, foldlM_append] at hrun
      obtain ⟨s₁, hbefore, happly⟩ := except_bind_ok hrun
      simp only [foldlM_cons, foldlM_nil, bind_pure] at happly
      rw [of_snoc]
      exact (ih hbefore).after happly

theorem foldl_drop (keys : List Number640) (s : Database) :
    (keys.map Op.remove).foldlM (apply f) s = .ok (keys.foldl Database.drop s) := by
  induction keys generalizing s with
  | nil => rfl
  | cons key keys ih => exact ih (s.drop key)

/-- What has expired at a time is dropped key by key, which is a run of its own. -/
theorem run_checkTimeout {ops : List Op} (hrun : run f ops = .ok s) {time : Int}
    (hcheck : s.checkTimeout time = .ok s') :
    ∃ keys, s.subMapTimeout time = .ok keys ∧ run f (ops ++ keys.map Op.remove) = .ok s' := by
  obtain ⟨keys, hkeys, hcheck⟩ := except_bind_ok hcheck
  refine ⟨keys, hkeys, ?_⟩
  rw [run] at hrun
  rw [run, foldlM_append, hrun, except_ok_bind, foldl_drop]
  exact hcheck

/-- What is read has the seconds that are in front of its entry. -/
theorem get_fresh (hs : Sited f s h) {key : Number640} (hstored : h.stored key = some d)
    (hget : s.get f now key = .ok (some e)) : Fresh (h.current d) now e := by
  have hentry := hs.map key
  rw [hstored] at hentry
  unfold StorageDisk.get at hget
  cases hmap : s.dataMap.get key with
  | none =>
      rw [hmap] at hentry
      cases hentry
  | some out =>
      rw [hmap] at hentry
      simp only [hmap] at hget
      cases hread : deserialize f s.path now out with
      | error x =>
          simp only [hread] at hget
          cases hget
      | ok r =>
          simp only [hread, Except.ok.injEq, Option.some.injEq] at hget
          subst hget
          cases hentry with
          | small hsize hfront =>
              rw [History.current, if_neg hsize]
              rw [deserialize, if_neg (by decide), if_pos (by decide)] at hread
              exact fresh_deserializeMapDB hfront hread
          | large hsize =>
              obtain ⟨w, hfile⟩ := hs.named key d hstored hsize
              obtain ⟨b, hb, hfront⟩ := hs.file d.hash w hfile
              have hname : Number160.ofBytes (d.hash.encode.take Number160.BYTE_ARRAY_SIZE) = d.hash := by
                have hwhole := Number160.ofBytes_encode_append d.hash []
                rw [append_nil] at hwhole
                rw [take_of_length_le (by rw [Number160.length_encode]), hwhole]
              rw [History.current, if_pos hsize, hfile, Option.getD_some]
              rw [deserialize, if_pos (by decide)] at hread
              exact fresh_deserializeFile (by rw [hname]; exact hb) hfront hread

/-! ### The end of a life -/

/-- What is read expires when the value that was stored does, which is the timeout that is
    recorded. -/
structure Survives (s : Database) (key : Number640) (d e : Data) : Prop where
  expiration : e.expirationMillis = d.expirationMillis
  timeout : s.timeoutMap.get key = some d.expirationMillis

/-- A life survives exactly if the seconds in front of the entry, counted from the time of
    the reading, lead to its end. If they are those of the value, this is so if it never
    ends, or if the value is read at the time it was made. -/
theorem survives_iff {ops : List Op} (hrun : run f ops = .ok s) {key : Number640}
    (hstored : (History.of ops).stored key = some d) (hget : s.get f now key = .ok (some e)) :
    (Survives s key d e ↔ Data.deadline ((History.of ops).current d).writtenTtl now =
        Data.deadline d.ttlSeconds d.validFromMillis) ∧
      (((History.of ops).current d).writtenTtl = d.ttlSeconds →
        (Survives s key d e ↔ (0 < d.ttlSeconds.toInt → now = d.validFromMillis))) := by
  have hs := sited_run ops hrun
  obtain ⟨hseconds, hvalid⟩ := get_fresh hs hstored hget
  have hend : e.expirationMillis = Data.deadline ((History.of ops).current d).writtenTtl now := by
    rw [Data.expirationMillis_eq, hseconds, hvalid]
  have htimeout : s.timeoutMap.get key = some d.expirationMillis := by
    rw [hs.timeout key, hstored, Option.map_some]
  have hall : Survives s key d e ↔ Data.deadline ((History.of ops).current d).writtenTtl now =
      Data.deadline d.ttlSeconds d.validFromMillis := by
    rw [← hend, ← Data.expirationMillis_eq]
    exact ⟨fun hsurvives => hsurvives.expiration, fun hsame => ⟨hsame, htimeout⟩⟩
  refine ⟨hall, fun hown => ?_⟩
  rw [hall, hown]
  exact Data.deadline_eq_iff d.ttlSeconds now d.validFromMillis

section Runs

/-- A value with two seconds to live, made at 1000, and the database it was put into. -/
def shortLived : Data := (Data.new [7#8] 1000).setTtlSeconds 2

theorem stored_shortLived : (History.of [.put (contentKey 1) shortLived]).stored (contentKey 1) = some shortLived := by
  rw [History.of, foldl_cons, foldl_nil, History.stored_put, update_self]

/-- A value that is read at the time it was made keeps its end. -/
theorem survives_iff_shortLived : ∃ s e, run zeros [.put (contentKey 1) shortLived] = .ok s ∧
    s.get zeros 1000 (contentKey 1) = .ok (some e) ∧ Survives s (contentKey 1) shortLived e := by
  obtain ⟨s, hrun, e, hget⟩ : ∃ s, run zeros [.put (contentKey 1) shortLived] = .ok s ∧
      ∃ e, s.get zeros 1000 (contentKey 1) = .ok (some e) := ⟨_, rfl, _, rfl⟩
  exact ⟨s, e, hrun, hget, ((survives_iff hrun stored_shortLived hget).2 (by decide)).mpr fun _ => by decide⟩

/-- Half a second later its end is half a second later too, and again with the next
    reading, while the timeout stays. -/
theorem drifts : ∃ s e e', run zeros [.put (contentKey 1) shortLived] = .ok s ∧
    s.get zeros 1500 (contentKey 1) = .ok (some e) ∧
    s.get zeros 2900 (contentKey 1) = .ok (some e') ∧
    shortLived.expirationMillis = 3000 ∧ e.expirationMillis = 3500 ∧ e'.expirationMillis = 4900 ∧
    s.timeoutMap.get (contentKey 1) = some 3000 ∧
    ¬ Survives s (contentKey 1) shortLived e ∧ ¬ Survives s (contentKey 1) shortLived e' := by
  have hend : shortLived.expirationMillis = 3000 := by decide
  refine ⟨_, _, _, rfl, rfl, rfl, hend, ?_, ?_, ?_, fun h => ?_, fun h => ?_⟩
  · decide
  · decide
  · decide
  · exact absurd h.expiration (by decide)
  · exact absurd h.expiration (by decide)

end Runs

end Database

end StorageDisk

end TomP2P
