import TomP2P.Theory.ContentWaits

/-!
# Times of Arrival

A message may arrive in several calls, and the clock goes on between them. Of all that the decoder
reads, only the time from which a value is valid depends on the time of the call. Without these
times the decoder reads the same whenever it is called.

The data of trackers hold values too. They are left out here, as the decoder does not read them
the same wherever they are cut.

## Main definitions

* `Data.timeless`, `DataMap.timeless`, `Message.timeless`: What is there without the times.
* `Decoder.plain`: What the reading of contents depends on.

## Theorems

* `DataMap.mirrors_decode`: Maps of values are read the same at any time.
* `Decoder.run_decodePayload_plain`: So is what is left of a message.
-/

namespace TomP2P

open Wire Reader

/-! ### Readers that do not look at the state -/

section Blind

variable {σ τ : Type} {g : σ → τ}

theorem Number160.mirrors_decode : Mirrors g id (Number160.decode (σ := σ)) Number160.decode :=
  (Mirrors.field _ 4 32).bind fun _ => (Mirrors.field _ 4 32).bind fun _ => (Mirrors.field _ 4 32).bind fun _ =>
    (Mirrors.field _ 4 32).bind fun _ => (Mirrors.field _ 4 32).bind fun _ => Mirrors.pure _

theorem Number640.mirrors_decode : Mirrors g id (Number640.decode (σ := σ)) Number640.decode :=
  Number160.mirrors_decode.bind fun _ => Number160.mirrors_decode.bind fun _ => Number160.mirrors_decode.bind fun _ =>
    Number160.mirrors_decode.bind fun _ => Mirrors.pure _

theorem mirrors_ports {β : Type} (u : BitVec 32 → BitVec 32 → BitVec 32 → β) :
    Mirrors g id (do
      let udpPort ← readUnsignedShort (σ := σ)
      let tcpPort ← readUnsignedShort
      let udtPort ← readUnsignedShort
      return u udpPort tcpPort udtPort) (do
      let udpPort ← readUnsignedShort
      let tcpPort ← readUnsignedShort
      let udtPort ← readUnsignedShort
      return u udpPort tcpPort udtPort) :=
  (Mirrors.field _ 2 32).bind fun _ => (Mirrors.field _ 2 32).bind fun _ => (Mirrors.field _ 2 32).bind fun _ => Mirrors.pure _

theorem PeerSocket4Address.mirrors_decode :
    Mirrors g id (PeerSocket4Address.decode (σ := σ) false) (PeerSocket4Address.decode false) := by
  have hip : Mirrors g id (decodeIp (σ := σ) false readInt) (decodeIp false readInt) :=
    Mirrors.map (Mirrors.field _ 4 32) fun _ => rfl
  exact hip.bind fun ipv4 => mirrors_ports fun x y z => (⟨ipv4, x, y, z⟩ : PeerSocket4Address)

theorem PeerSocket6Address.mirrors_decode :
    Mirrors g id (PeerSocket6Address.decode (σ := σ) false) (PeerSocket6Address.decode false) := by
  have hlong : Mirrors g id (IPv6.decode (σ := σ)) IPv6.decode :=
    (Mirrors.field _ 8 64).bind fun _ => (Mirrors.field _ 8 64).bind fun _ => Mirrors.pure _
  have hip : Mirrors g id (decodeIp (σ := σ) false IPv6.decode) (decodeIp false IPv6.decode) :=
    Mirrors.map hlong fun _ => rfl
  exact hip.bind fun ipv6 => mirrors_ports fun x y z => (⟨ipv6, x, y, z⟩ : PeerSocket6Address)

theorem SimpleBloomFilter.mirrors_decode : Mirrors g id (SimpleBloomFilter.decode (σ := σ)) SimpleBloomFilter.decode := by
  have hbits (n : Int) : Mirrors g id (readBits (σ := σ) n) (readBits n) :=
    Mirrors.ite (Mirrors.map (Mirrors.read _ _) fun _ => rfl) (Mirrors.pure _)
  exact (Mirrors.field _ 2 32).bind fun size => (Mirrors.field _ 4 32).bind fun _ => (hbits _).bind fun _ => Mirrors.pure _

theorem SignatureFactory.mirrors_decodePublicKey (f : SignatureFactory) :
    Mirrors g id (f.decodePublicKey (σ := σ)) f.decodePublicKey := by
  refine Mirrors.buffer.bind fun buf => ?_
  refine Mirrors.ite (Mirrors.pure _) ?_
  refine Mirrors.ite (Mirrors.pure _) ?_
  refine (Mirrors.read _ _).bind fun _ => ?_
  exact Mirrors.ite (Mirrors.pure _) ((Mirrors.read _ _).bind fun _ => Mirrors.pure _)

end Blind

/-! ### Values without the time of their arrival -/

namespace Data

variable {σ τ : Type} {g : σ → τ} {f : SignatureFactory}

/-- The value without the time at which it came. -/
def timeless (d : Data) : Data := { d with validFromMillis := 0 }

theorem mirrors_lookHeader : Mirrors g id (lookHeader (σ := σ)) lookHeader := by
  have hlength (header : BitVec 32) : Mirrors g id (lookLength (σ := σ) header) (lookLength header) := by
    unfold lookLength
    cases typeOf header with
    | SMALL => exact (Mirrors.lookField 1 1 32).bind fun _ => Mirrors.pure _
    | LARGE => exact (Mirrors.need 5).bind fun _ => (Mirrors.lookField 1 4 32).bind fun _ => Mirrors.pure _
  have httl (header : BitVec 32) (i : Nat) : Mirrors g id (lookTTL (σ := σ) header i) (lookTTL header i) :=
    Mirrors.ite ((Mirrors.need _).bind fun _ => (Mirrors.lookField _ 4 32).bind fun _ => Mirrors.pure _) (Mirrors.pure _)
  have hbased (header : BitVec 32) (i : Nat) : Mirrors g id (lookBasedOn (σ := σ) header i) (lookBasedOn header i) :=
    Mirrors.ite ((Mirrors.need _).bind fun _ => (Mirrors.lookField _ 1 32).bind fun _ => (Mirrors.need _).bind fun _ =>
      (Mirrors.look _ _).bind fun _ => Mirrors.pure _) (Mirrors.pure _)
  have hkey (header : BitVec 32) (i : Nat) : Mirrors g id (lookPublicKey (σ := σ) header i) (lookPublicKey header i) :=
    Mirrors.ite ((Mirrors.need _).bind fun _ => (Mirrors.lookField _ 2 32).bind fun _ => Mirrors.need _) (Mirrors.pure ())
  exact (Mirrors.need 2).bind fun _ => (Mirrors.lookField 0 1 32).bind fun header => (hlength header).bind fun length =>
    (httl header length.2).bind fun ttl => (hbased header ttl.2).bind fun basedOn => (hkey header basedOn.2).bind fun _ =>
      Mirrors.pure _

theorem ofHeader_timeless (header length : BitVec 32) (now : BitVec 64) :
    ofHeader header length 0 = (ofHeader header length now).map timeless := by
  unfold ofHeader
  split
  · rfl
  · split
    · rfl
    · split <;> rfl

/-- The header of a value is read the same at any time. -/
theorem mirrors_decodeHeader (now : BitVec 64) : Mirrors g timeless (decodeHeader (σ := σ) f now) (decodeHeader f 0) :=
  mirrors_lookHeader.bind fun front => (Mirrors.read _ _).bind fun _ =>
    (Mirrors.ite f.mirrors_decodePublicKey (Mirrors.pure none)).bind fun _ =>
      (Mirrors.lift (ofHeader_timeless front.header front.length now)).bind fun _ => Mirrors.pure _

theorem mirrors_decodeRest (publicKey : Option PublicKey) : Mirrors timeless id (decodeRest f publicKey) (decodeRest f publicKey) := by
  have hbuffer : Mirrors timeless id decodeBuffer decodeBuffer := by
    refine Mirrors.state.bind fun d => Mirrors.buffer.bind fun buf => ?_
    refine Mirrors.ite (Mirrors.throw _) ?_
    refine (Mirrors.read _ _).bind fun bytes => ?_
    refine Mirrors.bind (Mirrors.modify fun _ => rfl) fun _ => ?_
    exact Mirrors.ite (Mirrors.pure ()) Mirrors.wait
  have hadopt (d : Data) : adoptKey publicKey d.timeless = (adoptKey publicKey d).timeless := by
    unfold adoptKey
    change (if !keyMissing publicKey && keyMissing d.publicKey then _ else _) = _
    split <;> rfl
  have hsignature : Mirrors timeless id (readSignature f publicKey) (readSignature f publicKey) :=
    (Mirrors.modify hadopt).bind fun _ => (Mirrors.need _).bind fun _ => (Mirrors.read _ _).bind fun _ =>
      Mirrors.modify fun _ => rfl
  refine hbuffer.bind fun _ => Mirrors.state.bind fun d => ?_
  exact Mirrors.ite hsignature (Mirrors.pure ())

end Data

/-- A part with its size in front. -/
theorem Mirrors.sized {σ τ α β : Type} {g : σ → τ} {h : α → β} {size : σ → BitVec 32} {size' : τ → BitVec 32}
    {set : BitVec 32 → σ → σ} {set' : BitVec 32 → τ → τ} {width : Nat} {p : Reader JavaException σ α} {q : Reader JavaException τ β}
    (hsize : ∀ s, size' (g s) = size s) (hset : ∀ n s, set' n (g s) = g (set n s)) (hp : Mirrors g h p q) :
    Mirrors g h (sized size set width p) (sized size' set' width q) := by
  refine Mirrors.state.bind fun s => ?_
  rw [hsize]
  refine Mirrors.ite ((Mirrors.need _).bind fun _ => (Mirrors.field _ _ _).bind fun n => ?_) hp
  exact Mirrors.bind (Mirrors.modify (hset n)) fun _ => hp

namespace DataMap

variable {f : SignatureFactory} {message : TrackerData.Signer}

/-- The map with the values without the times at which they came. -/
def timeless (m : DataMap) : DataMap :=
  { m with
    entries := match m.entries with
      | .ofMap dataMap => .ofMap (dataMap.mapValues Data.timeless)
      | .ofConvert l d v dataMapConvert => .ofConvert l d v (dataMapConvert.mapValues Data.timeless) }

theorem put_timeless (m : DataMap) (key : Number640) (d : Data) : m.timeless.put key d.timeless = (m.put key d).timeless := by
  rcases m with ⟨entries, convertMeta⟩
  cases entries with
  | ofMap dataMap => simp [timeless, put, NavMap.mapValues_put]
  | ofConvert l d v dataMapConvert => rfl

theorem size_timeless (m : DataMap) : m.timeless.size = m.size := by
  rcases m with ⟨entries, convertMeta⟩
  cases entries with
  | ofMap dataMap | ofConvert l d v dataMapConvert => exact NavMap.size_mapValues _ _

def Decoding.timeless (s : Decoding) : Decoding :=
  { s with dataMap := s.dataMap.map DataMap.timeless, data := s.data.map Data.timeless }

theorem store_timeless (key : Number640) (d : Data) (s : Decoding) :
    store key d.timeless s.timeless = (store key d s).timeless := by
  rcases s with ⟨n, m, data, k⟩
  cases m with
  | none => rfl
  | some m => simp [store, Decoding.timeless, put_timeless]

theorem inheritPublicKey_timeless (d : Data) : inheritPublicKey message d.timeless = (inheritPublicKey message d).timeless := by
  unfold inheritPublicKey
  change (if message.isSign && message.publicKey.isSome && d.hasPublicKey && Data.keyMissing d.publicKey then _ else _) = _
  split <;> rfl

theorem getD_timeless (m : Option DataMap) : (m.map DataMap.timeless).getD .empty = (m.getD .empty).timeless := by
  cases m <;> rfl

theorem mirrors_decodeCurrent (key : Number640) (d : Data) :
    Mirrors Decoding.timeless id (decodeCurrent f message key d) (decodeCurrent f message key d.timeless) :=
  (Data.mirrors_decodeRest message.publicKey).zoom (fun _ => rfl) fun e s => store_timeless key e s

theorem mirrors_decodeEntry (now : BitVec 64) :
    Mirrors Decoding.timeless id (decodeEntry f message now) (decodeEntry f message 0) := by
  have hkey : Mirrors Decoding.timeless id decodeKey decodeKey := by
    refine Mirrors.state.bind fun s => ?_
    rcases s with ⟨n, m, data, key⟩
    cases key with
    | some key => exact Mirrors.pure key
    | none =>
        exact (Mirrors.need _).bind fun _ => Number640.mirrors_decode.bind fun _ =>
          Mirrors.bind (Mirrors.modify fun _ => rfl) fun _ => Mirrors.pure _
  refine hkey.bind fun key => (Data.mirrors_decodeHeader now).bind fun data => ?_
  refine (Mirrors.modify fun s => store_timeless key data s).bind fun _ => ?_
  refine (mirrors_decodeCurrent key data).bind fun _ => ?_
  refine (Mirrors.modify fun s => ?_).bind fun _ => Mirrors.modify fun _ => rfl
  rcases s with ⟨n, m, data, k⟩
  cases data with
  | none => rfl
  | some data =>
      change store key (inheritPublicKey message data.timeless) (Decoding.timeless ⟨n, m, some data, k⟩) = _
      rw [inheritPublicKey_timeless, store_timeless]

theorem mirrors_resume : Mirrors Decoding.timeless id (resume f message) (resume f message) := by
  refine Mirrors.state.bind fun s => ?_
  rcases s with ⟨n, m, data, key⟩
  cases data with
  | none => exact Mirrors.pure ()
  | some data =>
      cases key with
      | none => exact Mirrors.pure ()
      | some key => exact (mirrors_decodeCurrent key data).bind fun _ => Mirrors.modify fun _ => rfl

theorem mirrors_collect (now : BitVec 64) :
    Mirrors Decoding.timeless DataMap.timeless (collect f message now) (collect f message 0) := by
  have hcount (s : Decoding) : (s.timeless.mapSize.toInt - (s.timeless.dataMap.getD .empty).size).toNat =
      (s.mapSize.toInt - (s.dataMap.getD .empty).size).toNat := by
    change (s.mapSize.toInt - ((s.dataMap.map DataMap.timeless).getD .empty).size).toNat = _
    rw [getD_timeless, size_timeless]
  refine Mirrors.bind (Mirrors.modify fun s => ?_) fun _ => mirrors_resume.bind fun _ => Mirrors.state.bind fun s => ?_
  · simp only [Decoding.timeless, getD_timeless, Option.map_some]
  · rw [hcount]
    refine ((mirrors_decodeEntry now).repeat_ _).bind fun _ => Mirrors.state.bind fun s => ?_
    refine Mirrors.bind (Mirrors.modify fun _ => rfl) fun _ => ?_
    rw [show s.timeless.dataMap.getD .empty = (s.dataMap.getD .empty).timeless from getD_timeless s.dataMap]
    exact Mirrors.pure _

/-- A map of values is read the same at any time. -/
theorem mirrors_decode (now : BitVec 64) :
    Mirrors Decoding.timeless DataMap.timeless (decode f message now) (decode f message 0) := by
  rw [decode_eq, decode_eq]
  exact Mirrors.sized (fun _ => rfl) (fun _ _ => rfl) (mirrors_collect now)

end DataMap

/-! ### Messages without the times of their values -/

def Payload.timeless : Payload → Payload
  | .dataMap m => .dataMap m.timeless
  | p => p

theorem Payload.content_timeless (p : Payload) : p.timeless.content = p.content := by
  cases p <;> rfl

namespace Message

def timeless (m : Message) : Message := { m with dataMapList := m.dataMapList.map DataMap.timeless }

theorem add_timeless (m : Message) (p : Payload) : m.timeless.add p.timeless = (m.add p).timeless := by
  cases p with
  | dataMap d => simp [timeless, add, Payload.timeless]
  | _ => rfl

theorem set_timeless (m : Message) (p : Payload) : m.timeless.set p.timeless = (m.set p).map timeless := by
  unfold set
  by_cases hpreset : m.presetContentTypes = true
  · rw [if_pos hpreset, if_pos (show m.timeless.presetContentTypes = true from hpreset)]
    exact congrArg Except.ok (m.add_timeless p)
  · rw [if_neg hpreset, if_neg (show ¬ m.timeless.presetContentTypes = true from hpreset)]
    unfold contentType
    rw [p.content_timeless, show m.timeless.contentTypes = m.contentTypes from rfl]
    cases contentTypeLoop p.content m.contentTypes 0 0 with
    | error e => rfl
    | ok x =>
        exact congrArg Except.ok (add_timeless
          { m with contentTypes := x.1, contentReferences := m.contentReferences ++ [⟨x.2, p.content⟩] } p)

end Message

namespace Decoder

variable {f : SignatureFactory}

/-- What the reading of contents depends on: neither on times nor on the bytes that were fed to
    the signature. -/
def plain (d : Decoder) : Decoder := { d with message := d.message.timeless, dataMap := d.dataMap.timeless, signature := none }

theorem mirrors_decodePublicKey (content : Content) :
    Mirrors plain Payload.timeless (decodePublicKey f content) (decodePublicKey f content) := by
  refine f.mirrors_decodePublicKey.bind fun receivedPublicKey => ?_
  cases receivedPublicKey with
  | none => exact Mirrors.ite (Mirrors.bind (Mirrors.throw (h := id) _) fun _ => Mirrors.wait) Mirrors.wait
  | some k =>
      refine Mirrors.ite ?_ (Mirrors.pure (Payload.publicKey k))
      exact Mirrors.bind (Mirrors.throw (h := id) _) fun _ => Mirrors.pure (Payload.publicKey k)

/-- A content is read the same at any time. -/
theorem mirrors_decodeContent (now : BitVec 64) {content : Content} (h : content ≠ .SET_TRACKER_DATA) :
    Mirrors plain Payload.timeless (decodeContent f now content) (decodeContent f 0 content) := by
  cases content with
  | EMPTY => exact Mirrors.wait
  | INTEGER => exact Mirrors.bind (Mirrors.need 4) fun _ => Mirrors.map (Mirrors.field _ 4 32) fun _ => rfl
  | LONG => exact Mirrors.bind (Mirrors.need 8) fun _ => Mirrors.map (Mirrors.field _ 8 64) fun _ => rfl
  | KEY => exact Mirrors.bind (Mirrors.need _) fun _ => Mirrors.map Number160.mirrors_decode fun _ => rfl
  | BLOOM_FILTER =>
      exact Mirrors.bind (Mirrors.need 2) fun _ => (Mirrors.lookField 0 2 32).bind fun _ => Mirrors.bind (Mirrors.need _) fun _ =>
        Mirrors.map SimpleBloomFilter.mirrors_decode fun _ => rfl
  | PEER_SOCKET4 => exact Mirrors.bind (Mirrors.need _) fun _ => Mirrors.map PeerSocket4Address.mirrors_decode fun _ => rfl
  | PEER_SOCKET6 => exact Mirrors.bind (Mirrors.need _) fun _ => Mirrors.map PeerSocket6Address.mirrors_decode fun _ => rfl
  | SET_NEIGHBORS => exact Mirrors.map ((Mirrors.refl _).zoom (fun _ => rfl) fun _ _ => rfl) fun _ => rfl
  | SET_KEY640 => exact Mirrors.map ((Mirrors.refl _).zoom (fun _ => rfl) fun _ _ => rfl) fun _ => rfl
  | MAP_KEY640_KEYS => exact Mirrors.map ((Mirrors.refl _).zoom (fun _ => rfl) fun _ _ => rfl) fun _ => rfl
  | MAP_KEY640_BYTE => exact Mirrors.map ((Mirrors.refl _).zoom (fun _ => rfl) fun _ _ => rfl) fun _ => rfl
  | BYTE_BUFFER => exact Mirrors.map ((Mirrors.refl _).zoom (fun _ => rfl) fun _ _ => rfl) fun _ => rfl
  | MAP_KEY640_DATA =>
      exact Mirrors.state.bind fun d =>
        Mirrors.map ((DataMap.mirrors_decode now).zoom (fun _ => rfl) fun _ _ => rfl) fun _ => rfl
  | SET_TRACKER_DATA => exact absurd rfl h
  | PUBLIC_KEY => exact mirrors_decodePublicKey .PUBLIC_KEY
  | PUBLIC_KEY_SIGNATURE => exact mirrors_decodePublicKey .PUBLIC_KEY_SIGNATURE

theorem mirrors_decodeContents (now : BitVec 64) {contentTypes : List Content} (h : .SET_TRACKER_DATA ∉ contentTypes) :
    Mirrors plain id (decodeContents f now contentTypes) (decodeContents f 0 contentTypes) := by
  induction contentTypes with
  | nil => exact Mirrors.pure ()
  | cons content contentTypes ih =>
      rw [List.mem_cons, not_or] at h
      refine (mirrors_decodeContent now (Ne.symm h.1)).bind fun p => Mirrors.state.bind fun d => ?_
      refine (Mirrors.lift (d.message.set_timeless p)).bind fun message => ?_
      exact Mirrors.bind (Mirrors.modify fun _ => rfl) fun _ => ih h.2

/-- What is left of a message is read the same at any time, if no data of trackers are to come. -/
theorem run_decodePayload_plain (now : BitVec 64) {d : Decoder} (h : .SET_TRACKER_DATA ∉ d.contentTypes) (b : Bytes) :
    (decodePayload f 0).run d.plain b = ((decodePayload f now).run d b).view plain id := by
  have hend : Mirrors plain id (do
      let d ← state
      if d.message.isSign then decodeReceivedSignature f else pure ()) (do
      let d ← state
      if d.message.isSign then decodeReceivedSignature f else pure ()) := by
    refine Mirrors.state.bind fun d => Mirrors.ite ?_ (Mirrors.pure ())
    exact Mirrors.bind (Mirrors.need _) fun _ => (Mirrors.read _ _).bind fun _ => Mirrors.modify fun _ => rfl
  have hpart : Mirrors plain id
      (if d.message.hasContent then decodeContents f now d.contentTypes >>= fun _ => (do
        let d ← state
        if d.message.isSign then decodeReceivedSignature f else pure ()) else pure ())
      (if d.message.hasContent then decodeContents f 0 d.contentTypes >>= fun _ => (do
        let d ← state
        if d.message.isSign then decodeReceivedSignature f else pure ()) else pure ()) :=
    Mirrors.ite (Mirrors.bind (mirrors_decodeContents now h) fun _ => hend) (Mirrors.pure ())
  exact hpart d b

end Decoder

end TomP2P
