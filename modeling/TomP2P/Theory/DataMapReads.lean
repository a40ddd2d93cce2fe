import TomP2P.Theory.ContentReads
import TomP2P.Theory.WireConsistent

/-!
# Reading Back Maps of Values

What the decoder makes of a map of values, wherever its bytes are cut.

Of the entry it is at the decoder keeps the key, and as soon as the header of the value is
there, the value with what has arrived of its payload. It goes on from each of these states as
if it had got there in one call, with one exception. A value whose key is missing gets the key
of a signed message where it is read from its header on, and not where the decoder goes on with
its payload. Values in a signed message have to have their keys if they are to be cut
(`Data.Keyed`).

## Main definitions

* `Data.Sendable`, `Data.written`: A value that can be sent, and with its signature.
* `Data.arrived`: The value as it is read from a map.
* `Data.Keyed`: The value does not get its key from the message.
* `DataMap.arrived`: The map as it is read.

## Theorems

* `Data.Sendable.encode_eq`: The parts of the encoding.
* `DataMap.takes_decode`, `DataMap.reads_decode`: Maps of values, in one call and in several.
-/

namespace TomP2P

open Wire Reader Outcome List

/-! ### Values -/

namespace Data

variable {f : SignatureFactory} {d : Data} {mk : Option PrivateKey}

/-- The signature a value is written with, its own or one that is made on the way. -/
def signatureWritten (f : SignatureFactory) (mk : Option PrivateKey) (d : Data) : Option SignatureCodec :=
  if d.signed then d.signature.or ((d.privateKey.or mk).map fun k => f.sign k d.buffer) else none

/-- A value with the signature it is written with. -/
def written (f : SignatureFactory) (mk : Option PrivateKey) (d : Data) : Data :=
  { d with signature := d.signatureWritten f mk }

theorem encodeDone_eq_signatureWritten {sig : Option SignatureCodec} (h : d.encodeDone f mk = .ok sig) :
    sig = d.signatureWritten f mk := by
  unfold encodeDone at h
  unfold signatureWritten
  cases hs : d.signed with
  | false =>
      rw [hs] at h
      cases h
      rfl
  | true =>
      rw [hs] at h
      cases hsig : d.signature <;> cases hk : d.privateKey <;> cases mk <;> rw [hsig, hk] at h <;> cases h <;> rfl

/-- The flags, lengths and numbers of a value agree with its fields. Its signature may be
    missing. -/
structure Sendable (f : SignatureFactory) (d : Data) : Prop where
  kept : d.Kept
  signable : d.Signable f
  length_eq : d.length.toInt = d.buffer.length
  signed_key : d.signed = true → d.publicKeyFlag = true
  protected_signed : d.protectedEntry = true → d.signed = true
  basedOn_pos : d.basedOnFlag = true → 0 < d.basedOnSet.size
  basedOn_le : d.basedOnFlag = true → d.basedOnSet.size ≤ 256

/-- What is sent instead of a value can be sent. -/
theorem Sendable.filter (h : d.Sendable f) (isConvertMeta isReply : Bool) (now : BitVec 64) :
    (d.filter isConvertMeta isReply now).Sendable f := by
  have hmeta : (if isConvertMeta then d.duplicateMeta else d).Sendable f := by
    cases isConvertMeta with
    | false => exact h
    | true =>
        have hsmall : Data.Type.SMALL = typeOfLength 0#32 := by decide
        have hzero : (0#32).toInt = 0 := by decide
        exact ⟨⟨hsmall, h.kept.ttl_unset, h.kept.basedOn_unset⟩,
          ⟨h.signable.lawful, h.signable.key, h.signable.signature_size⟩, hzero,
          h.signed_key, h.protected_signed, h.basedOn_pos, h.basedOn_le⟩
  unfold Data.filter
  cases isReply with
  | false => exact hmeta
  | true =>
      exact ⟨⟨hmeta.kept.type_eq, by simp [setTtlSeconds], hmeta.kept.basedOn_unset⟩,
        ⟨hmeta.signable.lawful, hmeta.signable.key, hmeta.signable.signature_size⟩, hmeta.length_eq,
        hmeta.signed_key, hmeta.protected_signed, hmeta.basedOn_pos, hmeta.basedOn_le⟩

/-- The encoding is the header, the payload and the signature. -/
theorem Sendable.encode_eq (h : d.Sendable f) {v : Bytes} (hv : d.encode f mk = .ok v) :
    (d.written f mk).WireConsistent f ∧ ∃ header, (d.written f mk).encodeHeader f = .ok header ∧
      v = header ++ ((d.written f mk).buffer ++ signatureField (d.written f mk).signature) := by
  rcases encode_ok hv with ⟨header, sig, hheader, hsig, rfl⟩
  rcases encodeDone_ok h.signable hsig with ⟨hsome, hsize⟩
  rw [encodeDone_eq_signatureWritten hsig] at hsome hsize ⊢
  refine ⟨⟨⟨h.kept.type_eq, h.kept.ttl_unset, h.kept.basedOn_unset⟩,
    ⟨h.signable.lawful, h.signable.key, ?_⟩, h.length_eq, h.signed_key, h.protected_signed, h.basedOn_pos,
    h.basedOn_le, hsome⟩, header, hheader, rfl⟩
  intro s hs
  change d.signatureWritten f mk = some s at hs
  rw [hs] at hsize hsome
  rwa [← hsome] at hsize

/-- A run that takes payload leaves what the payload leaves. -/
theorem keeps_append {I : Data → Prop} (h : ∀ d b, I d → I (d.append b)) : Keeps I decodeBuffer := by
  intro d b hd
  by_cases hle : (d.buffer.length : Int) ≤ d.length.toInt
  · rw [run_decodeBuffer b hle]
    split
    · exact h d b hd
    · exact h d _ hd
  · rw [run_decodeBuffer_over b hle]
    exact hd

/-! ### The key of a value -/

/-- The key of a value that was read with its signature: the key of the message if its own is
    missing. -/
def adoptedKey (publicKey : Option PublicKey) (d : Data) : Option PublicKey :=
  if d.signed && (!keyMissing publicKey && keyMissing d.wireKey) then publicKey else d.wireKey

/-- The key of a value that was read from a map. In a signed message a value gets the key of
    the message whether it is signed or not. -/
def arrivedKey (message : TrackerData.Signer) (d : Data) : Option PublicKey :=
  if (d.signed || (message.isSign && d.publicKeyFlag)) &&
      (!keyMissing message.publicKey && keyMissing d.wireKey) then message.publicKey else d.wireKey

/-- A value as it is read from a map at time `now`. -/
def arrived (message : TrackerData.Signer) (now : BitVec 64) (d : Data) : Data :=
  { d with publicKey := d.arrivedKey message, privateKey := none, validFromMillis := now }

/-- In a signed message a value that announces a key has one, or is signed. -/
def Keyed (message : TrackerData.Signer) (d : Data) : Prop :=
  message.isSign = true → d.publicKeyFlag = true → d.signed = true ∨ keyMissing d.publicKey = false

theorem keyMissing_wireKey (h : d.publicKeyFlag = true) : keyMissing d.wireKey = keyMissing d.publicKey := by
  rw [wireKey, if_pos h]
  cases d.publicKey <;> rfl

theorem keyMissing_cases {k : Option PublicKey} (h : keyMissing k = true) : k = none ∨ k = some .EMPTY_PUBLIC_KEY := by
  simpa [keyMissing] using h

/-- Keyed values arrive with the key they are read with. -/
theorem Keyed.arrivedKey_eq {message : TrackerData.Signer} (h : d.Keyed message) :
    d.arrivedKey message = d.adoptedKey message.publicKey := by
  unfold arrivedKey adoptedKey
  cases hs : d.signed with
  | true => rfl
  | false =>
      by_cases hflag : message.isSign = true ∧ d.publicKeyFlag = true
      · have hkey := (h hflag.1 hflag.2).resolve_left (by simp [hs])
        rw [keyMissing_wireKey hflag.2, hkey]
        simp
      · have hnot : (message.isSign && d.publicKeyFlag) = false := by simpa using hflag
        rw [hnot]
        rfl

/-- What the rest of a value gives. -/
theorem WireConsistent.completed_eq (h : d.WireConsistent f) (k : Option PublicKey) (now : BitVec 64) :
    (d.received now).completed k d.buffer (signatureField d.signature) =
      { d with publicKey := d.adoptedKey k, privateKey := none, validFromMillis := now } := by
  have hsig := h.signature_eq
  rw [completed, close, append_signed, h.received_eq]
  cases hs : d.signed with
  | false =>
      rw [hs, if_neg Bool.false_ne_true] at hsig
      simp [append, adoptedKey, hs, ← hsig]
  | true =>
      rw [hs, if_pos rfl] at hsig
      unfold adoptKey adoptedKey
      by_cases hkey : (!keyMissing k && keyMissing d.wireKey) = true
      · simp [append, hs, hsig, hkey]
      · simp [append, hs, hsig, hkey]

/-- The rest of a value is read wherever it is cut. -/
theorem WireConsistent.reads_rest (h : d.WireConsistent f) (k : Option PublicKey) (now : BitVec 64) :
    Reads (fun _ => True) (decodeRest f k) (d.received now) (d.buffer ++ signatureField d.signature) ()
      { d with publicKey := d.adoptedKey k, privateKey := none, validFromMillis := now } := by
  rw [← h.completed_eq]
  refine reads_decodeRest k d.buffer _ ?_ h.length_signature
  have hempty : (d.received now).buffer.length = 0 := rfl
  have hlength : (d.received now).length = d.announcedLength := rfl
  rw [hempty, hlength, h.announcedLength_eq, h.length_eq]
  omega

end Data

namespace DataMap

variable {f : SignatureFactory} {message : TrackerData.Signer} {now : BitVec 64} {d : Data}

/-- A value that is read from its header on gets the key of the message last. -/
theorem inheritPublicKey_eq (h : d.signed = true → d.publicKeyFlag = true) :
    inheritPublicKey message
      { d with publicKey := d.adoptedKey message.publicKey, privateKey := none, validFromMillis := now } =
      d.arrived message now := by
  unfold inheritPublicKey Data.arrived Data.arrivedKey Data.adoptedKey Data.hasPublicKey Data.setPublicKey
  cases hflag : d.publicKeyFlag with
  | false =>
      have hs : d.signed = false := by
        cases hs : d.signed with
        | false => rfl
        | true => exact absurd (h hs) (by simp [hflag])
      simp [hs]
  | true =>
      have hwire : d.wireKey = some (d.publicKey.getD .EMPTY_PUBLIC_KEY) := by rw [Data.wireKey, if_pos hflag]
      cases hmissing : Data.keyMissing d.wireKey with
      | false => simp [hmissing]
      | true =>
          have hempty : d.wireKey = some .EMPTY_PUBLIC_KEY :=
            (Data.keyMissing_cases hmissing).resolve_left (by simp [hwire])
          cases hkey : Data.keyMissing message.publicKey with
          | false =>
              have hsome : message.publicKey.isSome = true := by
                cases hk : message.publicKey with
                | none => simp [hk, Data.keyMissing] at hkey
                | some k => rfl
              cases d.signed <;> cases message.isSign <;> simp [hsome, hkey, hmissing]
          | true =>
              -- The key of the message is the placeholder as well, or not there.
              rcases Data.keyMissing_cases hkey with hk | hk
              · simp [hk]
              · cases message.isSign <;> simp [hk, hempty]

theorem inheritPublicKey_of_not_missing {e : Data} (h : Data.keyMissing e.publicKey = false) :
    inheritPublicKey message e = e := by
  simp [inheritPublicKey, h]

/-- A key that is missing stays so if the message has none. -/
theorem inheritPublicKey_of_missing {e : Data} (hmessage : Data.keyMissing message.publicKey = true)
    (hkey : Data.keyMissing e.publicKey = true) (hsome : e.publicKeyFlag = true → e.publicKey.isSome = true) :
    inheritPublicKey message e = e := by
  rcases Data.keyMissing_cases hmessage with hm | hm
  · simp [inheritPublicKey, hm]
  · by_cases hflag : e.publicKeyFlag = true
    · have hempty : e.publicKey = some .EMPTY_PUBLIC_KEY :=
        (Data.keyMissing_cases hkey).resolve_left fun hnone => absurd (hsome hflag) (by simp [hnone])
      unfold inheritPublicKey Data.setPublicKey
      rw [hm, ← hempty, ← hflag, ite_self]
    · simp [inheritPublicKey, Data.hasPublicKey, hflag]

/-- After the rest of a keyed value there is no key to inherit. -/
theorem leaves_decodeRest_inherited (f : SignatureFactory) (message : TrackerData.Signer)
    (hsome : d.publicKeyFlag = true → d.publicKey.isSome = true) (h : d.Keyed message) :
    Leaves (Data.decodeRest f message.publicKey) d (fun _ e => inheritPublicKey message e = e) fun _ => True := by
  refine ⟨?_, fun _ => trivial⟩
  intro b a s' r hrun
  rcases run_bind_done hrun with ⟨_, e, r₁, hfirst, hdone⟩
  have hkept : e.publicKey = d.publicKey ∧ e.publicKeyFlag = d.publicKeyFlag ∧ e.signed = d.signed := by
    have hbuffer := Data.keeps_append (I := fun e => e.publicKey = d.publicKey ∧ e.publicKeyFlag = d.publicKeyFlag ∧
      e.signed = d.signed) (fun _ _ h => h) d b ⟨rfl, rfl, rfl⟩
    rwa [hfirst] at hbuffer
  rcases hkept with ⟨hkey, hflag, hsigned⟩
  rw [← hkey, ← hflag] at hsome
  cases hs : e.signed with
  | false =>
      -- The value has its key, or announces none.
      rw [Data.run_decodeDone_unsigned _ _ hs] at hdone
      cases hdone
      by_cases hboth : message.isSign = true ∧ s'.publicKeyFlag = true
      · have hkeyed := (h hboth.1 (hflag ▸ hboth.2)).resolve_left (by simp [← hsigned, hs])
        exact inheritPublicKey_of_not_missing (hkey ▸ hkeyed)
      · refine if_neg ?_
        simp only [Bool.and_eq_true, Data.hasPublicKey]
        exact fun hall => hboth ⟨hall.1.1.1, hall.1.2⟩
  | true =>
      -- The key of the message was taken with the signature.
      rw [Data.run_decodeDone_signed _ _ hs] at hdone
      split at hdone
      · cases hdone
      · cases hdone
        change inheritPublicKey message { Data.adoptKey message.publicKey e with signature := _ } = _
        unfold Data.adoptKey
        cases hm : Data.keyMissing message.publicKey with
        | true =>
            cases hk : Data.keyMissing e.publicKey with
            | true => exact inheritPublicKey_of_missing hm hk hsome
            | false => exact inheritPublicKey_of_not_missing hk
        | false =>
            cases hk : Data.keyMissing e.publicKey with
            | true => exact inheritPublicKey_of_not_missing hm
            | false => exact inheritPublicKey_of_not_missing hk

/-! ### One entry -/

/-- An entry behind its key. -/
def decodeValue (f : SignatureFactory) (message : TrackerData.Signer) (now : BitVec 64) (key : Number640) :
    Reader JavaException Decoding Unit := do
  let data ← Data.decodeHeader f now
  modify (store key data)
  decodeCurrent f message key data
  modify fun s =>
    match s.data with
    | some data => store key (inheritPublicKey message data) s
    | none => s
  finishEntry

theorem decodeEntry_eq : decodeEntry f message now = decodeKey >>= decodeValue f message now := rfl

variable {n : BitVec 32} {m : DataMap} {key : Number640} {k : Nat}

/-- The key is waited for as a whole, and kept. -/
theorem takes_decodeKey : Takes decodeKey ⟨n, some m, none, none⟩ key.encode key ⟨n, some m, none, some key⟩ := by
  intro rest
  have hlong : KeyMap640Keys.META ≤ (key.encode ++ rest).length := by
    rw [length_append, Number640.length_encode]
    exact Nat.le_add_right _ _
  rw [decodeKey, run_bind, run_state, andThen_done, run_bind, run_need_of_le _ _ _ hlong,
    andThen_done, run_bind, Number640.parses_decode key]
  rfl

theorem idle_decodeKey : Idle decodeKey ⟨n, some m, none, none⟩ key.encode := by
  have hlen : key.encode.length = KeyMap640Keys.META := by
    rw [Number640.length_encode]
    rfl
  intro b c hc hv
  have hlt : b.length < KeyMap640Keys.META := by
    have hpos := length_pos_of_ne_nil hc
    rw [← hlen, hv, length_append]
    omega
  rw [decodeKey, run_bind, run_state, andThen_done, run_bind, run_need_of_lt _ _ _ hlt, andThen_wait]

/-- What has arrived of the current value stands in the map. -/
def current (n : BitVec 32) (m : DataMap) (key : Number640) (e : Data) : Decoding :=
  ⟨n, some (m.put key e), some e, some key⟩

theorem run_decodeCurrent (e e' : Data) (b : Bytes) :
    (decodeCurrent f message key e).run (current n m key e') b =
      ((Data.decodeRest f message.publicKey).run e b).onState (current n m key) := by
  have hput : (fun x => store key x (current n m key e')) = current n m key := by
    funext x
    simp [store, current, put_put]
  rw [decodeCurrent, run_zoom, hput]

/-- Behind the header of a value its rest is read, and the key of the message is inherited. -/
theorem run_decodeValue {header : Bytes} {e : Data} (hheader : Parses (Data.decodeHeader (σ := Decoding) f now) header e)
    (b : Bytes) :
    (decodeValue f message now key).run ⟨n, some m, none, some key⟩ (header ++ b) =
      (((Data.decodeRest f message.publicKey).run e b).onState (current n m key)).andThen
        fun _ s r => .done () ⟨s.mapSize, some (m.put key (inheritPublicKey message (s.data.getD e))), none, none⟩ r := by
  have hstore : store key e ⟨n, some m, none, some key⟩ = current n m key e := rfl
  rw [decodeValue, run_bind, hheader, andThen_done, run_bind, run_modify, andThen_done, hstore,
    run_bind, run_decodeCurrent]
  cases (Data.decodeRest f message.publicKey).run e b with
  | done a x r => 
    simp [Outcome.onState, current, store, put_put, finishEntry]
  | wait x r => rfl
  | fail y x r => rfl

/-- The bytes of an entry whose value has its signature. -/
def Stands (f : SignatureFactory) (entry : Number640 × Data) (v : Bytes) : Prop :=
  entry.2.WireConsistent f ∧ ∃ header, entry.2.encodeHeader f = .ok header ∧
    v = entry.1.encode ++ (header ++ (entry.2.buffer ++ Data.signatureField entry.2.signature))

theorem takes_decodeEntry {entry : Number640 × Data} {v : Bytes} (h : Stands f entry v) :
    Takes (decodeEntry f message now) ⟨n, some m, none, none⟩ v ()
      ⟨n, some (m.put entry.1 (entry.2.arrived message now)), none, none⟩ := by
  rcases h with ⟨hw, header, hheader, rfl⟩
  have hparse := Data.parses_decodeHeader (σ := Decoding) hw.headerFits hheader now
  have hrest := hw.reads_rest message.publicKey now
  rw [decodeEntry_eq]
  refine takes_decodeKey.bind fun rest => ?_
  rw [append_assoc, run_decodeValue hparse, hrest.full, ← inheritPublicKey_eq hw.signed_key]
  rfl

/-! ### All entries -/

/-- The entries behind the one that was begun. -/
def decodeEntries (f : SignatureFactory) (message : TrackerData.Signer) (now : BitVec 64) :
    Reader JavaException Decoding DataMap := do
  let s ← state
  repeat_ (decodeEntry f message now) (s.mapSize.toInt - (s.dataMap.getD .empty).size).toNat
  let s ← state
  modify fun s => { s with mapSize := -1#32, dataMap := none }
  return s.dataMap.getD .empty

/-- The end of the map. -/
def finished : Unit → Decoding → Bytes → Outcome JavaException Decoding DataMap :=
  fun _ s r => .done (s.dataMap.getD .empty) { s with mapSize := -1#32, dataMap := none } r

theorem run_decodeEntries {s : Decoding} (hm : s.dataMap = some m) (hleft : s.mapSize.toInt = m.size + k) (b : Bytes) :
    (decodeEntries f message now).run s b =
      ((repeat_ (decodeEntry f message now) k).run s b).andThen finished := by
  have hk : (s.mapSize.toInt - m.size).toNat = k := by omega
  rw [decodeEntries, run_bind, run_state, andThen_done, run_bind, hm, Option.getD_some, hk]
  rfl

/-- Without a value the decoder goes on with an entry. -/
theorem run_decode_idle (hn : n ≠ -1#32) (o : Option Number640) (b : Bytes) :
    (decode f message now).run ⟨n, some m, none, o⟩ b = (decodeEntries f message now).run ⟨n, some m, none, o⟩ b := by
  rw [decode_eq, run_sized (by exact hn)]
  rfl

/-- With a value it goes on with its rest. -/
theorem run_decode_current (hn : n ≠ -1#32) (e : Data) (b : Bytes) :
    (decode f message now).run (current n m key e) b =
      (((Data.decodeRest f message.publicKey).run e b).onState (current n m key)).andThen
        fun _ s r => (decodeEntries f message now).run { s with data := none, key := none } r := by
  have hresume : (resume f message).run (current n m key e) b =
      (((Data.decodeRest f message.publicKey).run e b).onState (current n m key)).andThen
        fun _ s r => .done () { s with data := none, key := none } r := by
    rw [resume, run_bind, run_state, andThen_done]
    change (decodeCurrent f message key e >>= fun _ => finishEntry).run (current n m key e) b = _
    rw [run_bind, run_decodeCurrent]
    rfl
  rw [decode_eq, run_sized (by exact hn), collect, run_bind, run_modify, andThen_done, run_bind]
  change ((resume f message).run (current n m key e) b).andThen _ = _
  rw [hresume]
  cases (Data.decodeRest f message.publicKey).run e b <;> rfl

/-- The key is recorded. -/
theorem passes_key (hn : n ≠ -1#32) (hleft : n.toInt = m.size + (k + 1 : Nat)) :
    Passes (decode f message now) ⟨n, some m, none, none⟩ key.encode ⟨n, some m, none, some key⟩ := by
  have hrun (o : Option Number640) (b : Bytes) : (decode f message now).run ⟨n, some m, none, o⟩ b =
      ((repeat_ (decodeEntry f message now) (k + 1)).run ⟨n, some m, none, o⟩ b).andThen finished := by
    rw [run_decode_idle hn, run_decodeEntries rfl hleft]
  refine ⟨?_, ?_⟩
  · intro r
    have hkept : decodeKey.run ⟨n, some m, none, some key⟩ r = .done key ⟨n, some m, none, some key⟩ r := rfl
    rw [hrun, hrun, repeat_, run_bind, run_bind, decodeEntry_eq, run_bind, run_bind, takes_decodeKey, hkept]
  · intro b c hc hv
    refine ⟨⟨n, some m, none, none⟩, b, ?_, fun _ _ => rfl⟩
    rw [hrun, repeat_, run_bind, decodeEntry_eq, run_bind, idle_decodeKey b c hc hv, andThen_wait,
      andThen_wait, andThen_wait]

/-- The header is recorded with the value it gives, unless the value gets its key afterwards. -/
theorem passes_header (hn : n ≠ -1#32) (hleft : n.toInt = m.size + (k + 1 : Nat))
    (hput : ∀ e, (m.put key e).size = m.size + 1) (hd : d.WireConsistent f) (hkeyed : d.Keyed message) {header : Bytes}
    (hheader : d.encodeHeader f = .ok header) :
    Passes (decode f message now) ⟨n, some m, none, some key⟩ header (current n m key (d.received now)) := by
  have hrun (b : Bytes) : (decode f message now).run ⟨n, some m, none, some key⟩ b =
      (((decodeValue f message now key).run ⟨n, some m, none, some key⟩ b).andThen
        fun _ => (repeat_ (decodeEntry f message now) k).run).andThen finished := by
    rw [run_decode_idle hn, run_decodeEntries rfl hleft]
    rfl
  have hparse := Data.parses_decodeHeader (σ := Decoding) hd.headerFits hheader now
  refine ⟨?_, ?_⟩
  · intro r
    have hinherited := leaves_decodeRest_inherited f message (d := d.received now) ?_ ?_
    · rw [hrun, run_decodeValue hparse, run_decode_current hn]
      cases hrest : (Data.decodeRest f message.publicKey).run (d.received now) r with
      | wait x r => rfl
      | fail y x r => rfl
      | done a x r₁ =>
          have hsame : inheritPublicKey message x = x := hinherited.done hrest
          have hcount : n.toInt = (m.put key x).size + k := by
            rw [hput]
            omega
          change ((repeat_ (decodeEntry f message now) k).run ⟨n, some (m.put key (inheritPublicKey message x)), none, none⟩
            r₁).andThen finished = (decodeEntries f message now).run ⟨n, some (m.put key x), none, none⟩ r₁
          rw [hsame, run_decodeEntries rfl hcount]
    · -- A header that announces a key gives one.
      intro (hflag : d.publicKeyFlag = true)
      change d.wireKey.isSome = true
      rw [Data.wireKey, if_pos hflag]
      rfl
    · intro hsign (hflag : d.publicKeyFlag = true)
      refine (hkeyed hsign hflag).imp_right fun hkey => ?_
      exact (Data.keyMissing_wireKey hflag).trans hkey
  · have hidle := Data.idle_decodeHeader hd.headerFits hheader now (⟨n, some m, none, some key⟩ : Decoding)
    intro b c hc hv
    refine ⟨⟨n, some m, none, some key⟩, b, ?_, fun _ _ => rfl⟩
    rw [hrun, decodeValue, run_bind, hidle b c hc hv, andThen_wait, andThen_wait, andThen_wait]

/-- The payload is recorded as it comes. -/
theorem passes_rest (hn : n ≠ -1#32) (hd : d.WireConsistent f) (hkeyed : d.Keyed message) :
    Passes (decode f message now) (current n m key (d.received now)) (d.buffer ++ Data.signatureField d.signature)
      ⟨n, some (m.put key (d.arrived message now)), none, none⟩ := by
  have hrest := hd.reads_rest message.publicKey now
  refine ⟨?_, ?_⟩
  · intro r
    rw [run_decode_current hn, hrest.full, run_decode_idle hn, Data.arrived, hkeyed.arrivedKey_eq]
    rfl
  · intro b c hc hv
    rcases hrest.starves b c hc hv with ⟨x, u, hwait, hgo⟩
    refine ⟨current n m key x, u, ?_, ?_⟩
    · rw [run_decode_current hn, hwait]
      rfl
    · intro _ r
      rw [run_decode_current hn, run_decode_current hn, hgo trivial]

/-- An entry is put into the map, and is one less to come. -/
theorem passes_entry (hn : n ≠ -1#32) {entry : Number640 × Data} {v : Bytes} (hleft : n.toInt = m.size + (k + 1 : Nat))
    (hput : ∀ e, (m.put entry.1 e).size = m.size + 1) (h : Stands f entry v) (hkeyed : entry.2.Keyed message) :
    Passes (decode f message now) ⟨n, some m, none, none⟩ v
      ⟨n, some (m.put entry.1 (entry.2.arrived message now)), none, none⟩ := by
  rcases h with ⟨hw, header, hheader, rfl⟩
  exact (passes_key hn hleft).trans ((passes_header hn hleft hput hw hkeyed hheader).trans (passes_rest hn hw hkeyed))

/-! ### The map -/

/-- The entries that are written, each value as it is sent. -/
def sentPairs (f : SignatureFactory) (isReply : Bool) (mk : Option PrivateKey) (now : BitVec 64) (m : DataMap) :
    List (Number640 × Data) :=
  m.pairs.map fun e => (e.1, (e.2.filter m.convertMeta isReply now).written f mk)

/-- The map of entries that were read. -/
def ofArrived (message : TrackerData.Signer) (now : BitVec 64) (entries : List (Number640 × Data)) : DataMap :=
  entries.foldl (fun m e => m.put e.1 (e.2.arrived message now)) .empty

theorem length_pairs (m : DataMap) : m.pairs.length = m.size := by
  rcases m with ⟨entries, convertMeta⟩
  cases entries with
  | ofMap dataMap => rfl
  | ofConvert l d v dataMapConvert => exact length_map _

/-- Keys that are completed are in the order of their contents. -/
theorem pairs_sorted (m : DataMap) : m.pairs.Pairwise fun a b => a.1 < b.1 := by
  rcases m with ⟨entries, convertMeta⟩
  cases entries with
  | ofMap dataMap => exact dataMap.sorted
  | ofConvert l d v dataMapConvert =>
      refine pairwise_map.mpr (dataMapConvert.sorted.imp fun {a b} hab => ?_)
      rw [← not_le, Number640.le_iff]
      rw [← not_le, Number160.le_iff] at hab
      simp only [Number640.toNat]
      omega

theorem length_sentPairs (isReply : Bool) (mk : Option PrivateKey) (now : BitVec 64) (m : DataMap) :
    (m.sentPairs f isReply mk now).length = m.size := by
  rw [sentPairs, length_map, length_pairs]

theorem sentPairs_sorted (isReply : Bool) (mk : Option PrivateKey) (now : BitVec 64) (m : DataMap) :
    (m.sentPairs f isReply mk now).Pairwise fun a b => a.1 < b.1 :=
  pairwise_map.mpr m.pairs_sorted

theorem encode_parts {isReply : Bool} {mk : Option PrivateKey} {now : BitVec 64} {m : DataMap} {v : Bytes}
    (hd : ∀ e ∈ m.pairs, e.2.Sendable f) (hv : m.encode f isReply mk now = .ok v) :
    ∃ vs : List Bytes, v = writeInt (BitVec.ofNat 32 m.size) ++ vs.flatten ∧
      List.Forall₂ (Stands f) (m.sentPairs f isReply mk now) vs := by
  rcases Effect.except_bind_ok hv with ⟨w, hw, hv⟩
  cases hv
  rcases encodeAll_parts hw with ⟨vs, rfl, hvs⟩
  refine ⟨vs, rfl, ?_⟩
  rw [sentPairs, List.forall₂_map_left_iff]
  refine ((List.forall₂_and_left _ _).mpr ⟨hd, hvs⟩).imp fun e v h => ?_
  rcases Effect.except_bind_ok h.2 with ⟨u, hu, hv⟩
  cases hv
  rcases (h.1.filter m.convertMeta isReply now).encode_eq hu with ⟨hwire, header, hheader, rfl⟩
  exact ⟨hwire, header, hheader, rfl⟩

/-- So many entries are to come, all behind those of the map. -/
def ToFollow (n : BitVec 32) (s : Decoding) (entries : List (Number640 × Data)) : Prop :=
  ∃ t : NavMap Number640 Data, s = ⟨n, some ⟨.ofMap t, false⟩, none, none⟩ ∧
    (t.keys ++ entries.map Prod.fst).Pairwise (· < ·) ∧ n.toInt = t.size + entries.length

/-- The state with one more entry. -/
def stored (message : TrackerData.Signer) (now : BitVec 64) (s : Decoding) (entry : Number640 × Data) : Decoding :=
  { s with dataMap := s.dataMap.map fun m => m.put entry.1 (entry.2.arrived message now) }

/-- The entries come in the order of their keys, so each is put behind the others. -/
theorem ToFollow.next (message : TrackerData.Signer) (now : BitVec 64) {s : Decoding} {e : Number640 × Data} {es : List (Number640 × Data)} (h : ToFollow n s (e :: es)) :
    (∃ m : DataMap, s = ⟨n, some m, none, none⟩ ∧ n.toInt = m.size + (es.length + 1 : Nat) ∧
      ∀ d, (m.put e.1 d).size = m.size + 1) ∧ ToFollow n (stored message now s e) es := by
  rcases h with ⟨t, rfl, hsorted, hleft⟩
  rw [map_cons] at hsorted
  have hlast (d : Data) : (t.put e.1 d).entries = t.entries ++ [(e.1, d)] :=
    t.entries_put_last e.1 d fun a ha =>
      (pairwise_append.mp hsorted).2.2 a.1 (mem_map_of_mem ha) e.1 mem_cons_self
  have hsize (d : Data) : (t.put e.1 d).size = t.size + 1 := by
    rw [NavMap.size, hlast, length_append]
    rfl
  refine ⟨⟨_, rfl, by rw [hleft, length_cons]; rfl, hsize⟩, t.put e.1 (e.2.arrived message now), rfl, ?_, ?_⟩
  · rw [NavMap.keys, hlast, map_append, append_assoc]
    exact hsorted
  · rw [hsize, hleft, length_cons]
    omega

theorem foldl_stored (es : List (Number640 × Data)) (m : DataMap) :
    es.foldl (stored message now) ⟨n, some m, none, none⟩ =
      ⟨n, some (es.foldl (fun m e => m.put e.1 (e.2.arrived message now)) m), none, none⟩ := by
  induction es generalizing m with
  | nil => rfl
  | cons e es ih => exact ih (m.put e.1 (e.2.arrived message now))

section Map

variable {es : List (Number640 × Data)} {vs : List Bytes} (hlen : es.length < 2 ^ 31)
  (hsorted : es.Pairwise fun a b => a.1 < b.1) (h : List.Forall₂ (Stands f) es vs)

theorem passes_size (hlen : es.length < 2 ^ 31) :
    Passes (decode f message now) {} (writeInt (BitVec.ofNat 32 es.length))
      ⟨BitVec.ofNat 32 es.length, some .empty, none, none⟩ := by
  have hne : BitVec.ofNat 32 es.length ≠ -1#32 := ne_neg_one (toInt_ofNat hlen)
  have hsize : Passes (decode f message now) {} (writeInt (BitVec.ofNat 32 es.length))
      ⟨BitVec.ofNat 32 es.length, none, none, none⟩ := by
    rw [decode_eq]
    exact passes_sized (s := ({} : Decoding)) rfl hne (BitVec.isLt _)
  have hbegin : Passes (decode f message now) ⟨BitVec.ofNat 32 es.length, none, none, none⟩ []
      ⟨BitVec.ofNat 32 es.length, some .empty, none, none⟩ := by
    refine Passes.same fun r => ?_
    rw [decode_eq, run_sized (by exact hne), run_sized (by exact hne)]
    rfl
  have hboth := hsize.trans hbegin
  rwa [append_nil] at hboth

include hlen hsorted in
theorem toFollow_start : ToFollow (BitVec.ofNat 32 es.length) ⟨BitVec.ofNat 32 es.length, some .empty, none, none⟩ es := by
  refine ⟨.empty, rfl, pairwise_map.mpr hsorted, ?_⟩
  rw [toInt_ofNat hlen]
  exact (Int.zero_add _).symm

include hlen hsorted h in
/-- A map of values is read with whatever follows it. -/
theorem takes_decode : Takes (decode f message now) {} (writeInt (BitVec.ofNat 32 es.length) ++ vs.flatten)
    (ofArrived message now es) {} := by
  intro rest
  have hint := toInt_ofNat hlen
  have hentries := Takes.repeat_ (p := decodeEntry f message now) (stored message now)
    (P := ToFollow (BitVec.ofNat 32 es.length)) (R := Stands f) (fun s e es v hs hv => by
      rcases hs.next message now with ⟨⟨m, rfl, _, _⟩, hnext⟩
      exact ⟨takes_decodeEntry hv, hnext⟩) h (toFollow_start hlen hsorted)
  have hcount : (BitVec.ofNat 32 es.length).toInt = DataMap.empty.size + es.length := by
    rw [hint]
    exact (Int.zero_add _).symm
  rw [append_assoc, (passes_size hlen).run, run_decode_idle (ne_neg_one hint), run_decodeEntries rfl hcount,
    hentries, foldl_stored]
  rfl

include hlen hsorted h in
/-- A map of keyed values is read wherever it is cut. -/
theorem reads_decode (hkeyed : ∀ e ∈ es, e.2.Keyed message) :
    Reads (fun _ => True) (decode f message now) {} (writeInt (BitVec.ofNat 32 es.length) ++ vs.flatten)
      (ofArrived message now es) {} := by
  have hne := ne_neg_one (toInt_ofNat hlen)
  have hentries := Passes.each (p := decode f message now) (stored message now)
    (P := ToFollow (BitVec.ofNat 32 es.length)) (R := fun e v => e.2.Keyed message ∧ Stands f e v)
    (fun s e es v hs hv => by
      rcases hs.next message now with ⟨⟨m, rfl, hleft, hput⟩, hnext⟩
      exact ⟨passes_entry hne hleft hput hv.2 hv.1, hnext⟩)
    ((List.forall₂_and_left _ _).mpr ⟨hkeyed, h⟩) (toFollow_start hlen hsorted)
  exact ⟨takes_decode hlen hsorted h, ((passes_size hlen).trans hentries.1).starves⟩

end Map

end DataMap

end TomP2P
