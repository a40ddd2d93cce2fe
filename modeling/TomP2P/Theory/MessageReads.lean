import TomP2P.Core.Encoder
import TomP2P.Theory.DataMapReads
import TomP2P.Theory.DecoderReuse
import TomP2P.Theory.HeaderReads
import TomP2P.Theory.References
import TomP2P.Theory.TrackerDataCodec

/-!
# Reading Back Messages

A message that was written is read back: its header, its contents in the order in which they were
added, and the signature behind them. All of this is in the state of the decoder, so the state
behind each part is said first, and a call goes from one to the next.

What arrives is not always what was sent. An address comes without what its flags do not announce,
a value is valid from the time at which it comes and may get the key of the message, and a key to
verify with is a plain key for the one who receives it.

The decoder verifies the bytes in front of the signature, which are those that were signed. They
are signed with the private key of the message, or were signed by the peer a relay has them from.

## Main definitions

* `Payload.Sendable`, `Payload.arrived`: What can be sent, and what arrives of it.
* `Message.received`: A message as it arrives.
* `Decoder.finished`: The end of a call that has read a message.
* `Written`: A message that was written.

## Theorems

* `Decoder.reads_decodeContent`: A content is read back in pieces.
* `Encoder.loop_setAll`: Contents are written in the order in which they were added.
* `Decoder.decode_written`: A written message is read back.
-/

namespace TomP2P

open Wire Reader Effect Outcome SignatureFactory List

/-! ### Contents -/

namespace TrackerData

/-- The numbers of entries and bytes fit, and an address is not waited for beyond the end. -/
structure Sendable (f : SignatureFactory) (isReply : Bool) (mk : Option PrivateKey) (now : BitVec 64) (t : TrackerData) :
    Prop where
  size_le : t.size ≤ 255
  addresses : ∀ e ∈ t.peerAddresses.entries, e.2.1.WellFormed
  values : ∀ e ∈ t.peerAddresses.entries, e.2.2.WireConsistent f
  complete : ∀ parts, encodeParts f isReply mk now t.peerAddresses.entries = .ok parts → Complete parts

/-- The data of a tracker as they arrive. -/
def arrived (message : Signer) (isReply : Bool) (now now' : BitVec 64) (t : TrackerData) : TrackerData :=
  (t.peerAddresses.entries.map fun e => (e.2.1.transferred, read message now' (sent isReply now e.2.2))).foldl
    (fun m e => m.put e.1 e.2) .empty

/-- Data of a tracker are read in one piece. -/
theorem takes_decode {f : SignatureFactory} {message : Signer} {isReply : Bool} {mk : Option PrivateKey} {now now' : BitVec 64}
    {t : TrackerData} {v : Bytes} (ht : t.Sendable f isReply mk now) (hv : t.encode f isReply mk now = .ok v) :
    Takes (decode f message now') {} v (t.arrived message isReply now now') {} := by
  rcases except_bind_ok hv with ⟨parts, hparts, hv⟩
  cases hv
  have harrive := parts_arrive f message isReply mk now now' ht.addresses ht.values hparts
  have hcount : t.size = parts.length := by
    rw [harrive.length_eq, length_map]
    rfl
  have hsize := ht.size_le
  intro rest
  rw [append_assoc, run_decode t.size (by omega), hcount, run_entries harrive (ht.complete parts hparts),
    foldl_stored, andThen_done]
  rfl

end TrackerData

namespace Payload

/-- What can be sent in the message `m` at time `now`: the numbers of elements fit their fields,
    addresses, values and sets agree with their flags, and keys are those of the factory. -/
def Sendable (f : SignatureFactory) (m : Message) (now : BitVec 64) : Payload → Prop
  | .key _ | .intValue _ | .longValue _ => True
  | .dataMap d => d.size < 2 ^ 31 ∧ ∀ e ∈ d.pairs, e.2.Sendable f
  | .keyMap640Keys k => k.size < 2 ^ 31 ∧ ∀ e ∈ k.keysMap.entries, e.2.Nodup ∧ e.2.length ≤ 127
  | .keyCollection c => c.keys.length < 2 ^ 31
  | .neighborsSet s => s.neighbors.length < 256 ∧ ∀ a ∈ s.neighbors, a.WellFormed
  | .buffer b => b.length.toInt = b.buffer.length
  | .publicKeyAndSign k _ | .publicKey k => ∀ data, k = .encoded data → f.IsKey data
  | .trackerData t => t.Sendable f (!m.isRequest) m.privateKey now
  | .bloomFilter b => b.WellFormed
  | .keyMapByte k => k.size < 2 ^ 30
  | .peerSocket4Address a => a.WellFormed
  | .peerSocket6Address a => a.WellFormed

/-- A content of the message `m` as it arrives. It was written at time `now` and read at time
    `now'`, when `signer` was known of the message. -/
def arrived (f : SignatureFactory) (m : Message) (now now' : BitVec 64) (signer : TrackerData.Signer) :
    Payload → Payload
  | .dataMap d => .dataMap (.ofArrived signer now' (d.sentPairs f (!m.isRequest) m.privateKey now))
  | .keyCollection c => .keyCollection (.ofKeys c.keys)
  | .neighborsSet s => .neighborsSet ⟨-1, s.neighbors.map PeerAddress.transferred⟩
  | .publicKeyAndSign k _ => .publicKey k
  | .trackerData t => .trackerData (t.arrived signer (!m.isRequest) now now')
  | p => p

/-- A content that may be cut: values do not get their keys from the message, and there are no
    data of trackers, whose addresses are read before the values behind them have come. -/
def Cuttable (f : SignatureFactory) (m : Message) (now : BitVec 64) (signer : TrackerData.Signer) : Payload → Prop
  | .dataMap d => ∀ e ∈ d.sentPairs f (!m.isRequest) m.privateKey now, e.2.Keyed signer
  | .trackerData _ => False
  | _ => True

theorem content_ne_empty (p : Payload) : p.content ≠ .EMPTY := by
  cases p <;> simp [content]

end Payload

namespace Decoder

variable {f : SignatureFactory} {now now' : BitVec 64} {m : Message} {d : Decoder} {p : Payload} {v : Bytes}

/-- Nothing is kept of a content. -/
structure Ready (d : Decoder) : Prop where
  neighborSet : d.neighborSet = {}
  keyCollection : d.keyCollection = {}
  dataMap : d.dataMap = {}
  keyMap640Keys : d.keyMap640Keys = {}
  keyMapByte : d.keyMapByte = {}
  buffer : d.buffer = {}
  trackerData : d.trackerData = {}

/-- A content that is read from what is kept of it, and of which nothing is left. -/
theorem reads_part {σ α : Type} {q : Reader JavaException σ α} {get : Decoder → σ} {set : σ → Decoder → Decoder}
    {g : α → Payload} {a : α} {s : σ} (hpart : Part get set) (hset : set s d = d) (hget : get d = s)
    (h : Reads (fun _ => True) q s v a s) : Reads (fun _ => True) (g <$> zoom get set q) d v (g a) d := by
  have hreads := (Reads.zoom hpart (t := d) (hget ▸ h)).map g
  rwa [hget, hset] at hreads

/-- A content that is read in one piece. -/
theorem reads_whole {α : Type} {q : Reader JavaException Decoder α} {g : α → Payload} {a : α} {n : Nat}
    (hq : Parses q v a) (hlen : v.length = n) (d : Decoder) :
    Reads (fun _ => True) (need n >>= fun _ => g <$> q) d v (g a) d :=
  reads_piece (hq.ret g) hlen d

/-- A key is waited for as a whole. -/
theorem reads_decodePublicKey {content : Content} {k : PublicKey} (hk : ∀ data, k = .encoded data → f.IsKey data)
    (hv : f.encodePublicKey (some k) = .ok v) (d : Decoder) :
    Reads (fun _ => True) (decodePublicKey f content) d v (.publicKey k) d := by
  rcases encodePublicKey_ok hv with ⟨data, hdata, rfl⟩
  cases hdata
  have hkey := hk data rfl
  refine ⟨?_, ?_⟩
  · intro rest
    rw [decodePublicKey, run_bind, parses_decodePublicKey f data hkey, andThen_done]
    simp
  · intro b c hc hcut
    refine ⟨d, b, ?_, fun _ _ => rfl⟩
    rw [decodePublicKey, run_bind, SignatureFactory.decodePublicKey_part f data b c d hkey.length_lt hc hcut,
      andThen_done]
    simp

/-- The size of a Bloom filter is looked up, and then it is waited for. -/
theorem reads_decodeBloomFilter {b : SimpleBloomFilter} (hb : b.WellFormed) (hv : b.encode = .ok v) (d : Decoder) :
    Reads (fun _ => True) decodeBloomFilter d v (.bloomFilter b) d := by
  rcases SimpleBloomFilter.parses_decode (σ := Decoder) b v hb hv with ⟨hparse, w, hw, hlen⟩
  rw [SimpleBloomFilter.WellFormed] at hb
  have hsize : (BitVec.ofNat 32 (b.byteArraySize + SimpleBloomFilter.SIZE_HEADER).toNat).toNat = v.length := by
    rw [BitVec.toNat_ofNat]
    omega
  have hlook := Looks.lookField (ε := JavaException) (σ := Decoder) (n := 2) [] w
    (BitVec.ofNat 32 (b.byteArraySize + SimpleBloomFilter.SIZE_HEADER).toNat) (by omega)
  rw [nil_append, length_nil, hsize, show v.length = (b.byteArraySize + SimpleBloomFilter.SIZE_HEADER).toNat by omega, ← hw]
    at hlook
  have htwo : 2 ≤ v.length := by
    rw [hw, length_append, length_toBE]
    omega
  have hneed := Looks.need (ε := JavaException) (σ := Decoder) htwo
  have hwhole := reads_whole (g := .bloomFilter) hparse hsize.symm d
  refine ⟨?_, ?_⟩
  · intro rest
    rw [decodeBloomFilter, run_bind, hneed.full, andThen_done, run_bind, hlook.full, andThen_done]
    exact hwhole.full rest
  · exact (hneed.idleBind (hlook.idleBind (idle_piece hsize.symm d))).starves

/-- A map of values is read with what is known of the message. -/
theorem run_dataMap (b : Bytes) :
    (decodeContent f now' .MAP_KEY640_DATA).run d b =
      (((DataMap.decode f d.signer now').run d.dataMap b).onState fun s => { d with dataMap := s }).andThen
        fun x s r => .done (.dataMap x) s r := by
  change (state >>= fun d => Payload.dataMap <$> zoom Decoder.dataMap (fun s d => { d with dataMap := s })
    (DataMap.decode f d.signer now')).run d b = _
  rw [run_bind, run_state, andThen_done, run_map, run_zoom]

theorem takes_dataMap {x : DataMap} (hd : d.Ready) (h : Takes (DataMap.decode f d.signer now') {} v x {}) :
    Takes (decodeContent f now' .MAP_KEY640_DATA) d v (.dataMap x) d := by
  intro rest
  have hsame : ({ d with dataMap := {} } : Decoder) = d := by rw [← hd.dataMap]
  rw [run_dataMap, hd.dataMap, h]
  change Outcome.done _ ({ d with dataMap := {} } : Decoder) rest = _
  rw [hsame]

theorem starves_dataMap (hd : d.Ready) (h : Starves (fun _ => True) (DataMap.decode f d.signer now') {} v) :
    Starves (fun _ => True) (decodeContent f now' .MAP_KEY640_DATA) d v := by
  intro b c hc hv
  rcases h b c hc hv with ⟨s, u, hwait, hgo⟩
  refine ⟨{ d with dataMap := s }, u, by rw [run_dataMap, hd.dataMap, hwait]; rfl, ?_⟩
  intro _ r
  rw [run_dataMap, run_dataMap, hd.dataMap]
  change (((DataMap.decode f d.signer now').run s (u ++ r)).onState _).andThen _ = _
  rw [hgo trivial]

/-- A content is read wherever it is cut. -/
theorem reads_decodeContent (hd : d.Ready) (hp : p.Sendable f m now) (hcut : p.Cuttable f m now d.signer)
    (hv : Encoder.encodeContent f now m p = .ok v) :
    Reads (fun _ => True) (decodeContent f now' p.content) d v (p.arrived f m now now' d.signer) d := by
  cases p with
  | key k =>
      cases hv
      exact reads_whole (Number160.parses_decode k) k.length_encode d
  | intValue x =>
      cases hv
      exact reads_whole (parses_readInt x) (length_toBE 4 _) d
  | longValue x =>
      cases hv
      exact reads_whole (parses_readLong x) (length_toBE 8 _) d
  | peerSocket4Address a | peerSocket6Address a =>
      exact reads_whole (a.parses_decode false v hp hv) (a.length_encode false v hv) d
  | publicKey k | publicKeyAndSign k privateKey => exact reads_decodePublicKey hp hv d
  | bloomFilter b => exact reads_decodeBloomFilter hp hv d
  | neighborsSet s =>
      exact reads_part ⟨fun _ _ => rfl, fun _ _ _ => rfl⟩ (by rw [← hd.neighborSet]) hd.neighborSet
        (NeighborSet.reads_decode hp.1 hp.2 hv)
  | keyCollection c =>
      cases hv
      exact reads_part ⟨fun _ _ => rfl, fun _ _ _ => rfl⟩ (by rw [← hd.keyCollection]) hd.keyCollection
        (KeyCollection.reads_decode hp)
  | keyMap640Keys k =>
      cases hv
      exact reads_part ⟨fun _ _ => rfl, fun _ _ _ => rfl⟩ (by rw [← hd.keyMap640Keys]) hd.keyMap640Keys
        (KeyMap640Keys.reads_decode hp.1 (fun e he => (hp.2 e he).1) fun e he => (hp.2 e he).2)
  | keyMapByte k =>
      cases hv
      exact reads_part ⟨fun _ _ => rfl, fun _ _ _ => rfl⟩ (by rw [← hd.keyMapByte]) hd.keyMapByte
        (KeyMapByte.reads_decode hp)
  | buffer b =>
      cases hv
      exact reads_part ⟨fun _ _ => rfl, fun _ _ _ => rfl⟩ (by rw [← hd.buffer]) hd.buffer (Buffer.reads_decode hp)
  | dataMap x =>
      rcases DataMap.encode_parts hp.2 hv with ⟨vs, rfl, hvs⟩
      rw [← DataMap.length_sentPairs (f := f) (!m.isRequest) m.privateKey now x]
      have hlen := (DataMap.length_sentPairs (f := f) (!m.isRequest) m.privateKey now x).trans_lt hp.1
      have hreads : Reads _ (DataMap.decode f d.signer now') _ _ _ _ := DataMap.reads_decode hlen (x.sentPairs_sorted _ _ _) hvs hcut
      exact ⟨takes_dataMap hd hreads.full, starves_dataMap hd hreads.starves⟩
  | trackerData t => exact absurd hcut id

/-- A content is read with whatever follows it. -/
theorem takes_decodeContent (hd : d.Ready) (hp : p.Sendable f m now) (hv : Encoder.encodeContent f now m p = .ok v) :
    Takes (decodeContent f now' p.content) d v (p.arrived f m now now' d.signer) d := by
  cases p with
  | dataMap x =>
      rcases DataMap.encode_parts hp.2 hv with ⟨vs, rfl, hvs⟩
      rw [← DataMap.length_sentPairs (f := f) (!m.isRequest) m.privateKey now x]
      have hlen := (DataMap.length_sentPairs (f := f) (!m.isRequest) m.privateKey now x).trans_lt hp.1
      exact takes_dataMap hd (DataMap.takes_decode hlen (x.sentPairs_sorted _ _ _) hvs)
  | trackerData t =>
      intro rest
      have hsame : ({ d with trackerData := {} } : Decoder) = d := by rw [← hd.trackerData]
      change (decodeContent f now' .SET_TRACKER_DATA).run d (v ++ rest) = _
      rw [run_decodeContent_trackerData, run_map, run_zoom, hd.trackerData, TrackerData.takes_decode hp hv]
      change Outcome.done _ ({ d with trackerData := {} } : Decoder) rest = _
      rw [hsame]
      rfl
  | _ => exact (reads_decodeContent hd hp trivial hv).full

end Decoder

/-! ### Written messages -/

namespace Message

/-- A message to which nothing was added and that nobody means to sign. -/
structure Fresh (m : Message) : Prop where
  blank : m.Blank
  privateKey : m.privateKey = none
  sign : m.sign = false

/-- What neither the entries of the header nor the lists say is kept by the setters. -/
theorem setAll_keeps {β : Type} (g : Message → β)
    (htypes : ∀ (m : Message) ts rs, g { m with contentTypes := ts, contentReferences := rs } = g m) {m m' : Message}
    {ps : List Payload} (hadd : ∀ p ∈ ps, ∀ m : Message, g (m.add p) = g m) (h : m.setAll ps = .ok m') : g m' = g m := by
  induction ps generalizing m with
  | nil =>
      cases h
      rfl
  | cons p ps ih =>
      have hp := hadd p mem_cons_self
      have hset : ∀ m₁, m.set p = .ok m₁ → g m₁ = g m := by
        intro m₁ h₁
        unfold set contentType at h₁
        split at h₁
        · cases h₁
          exact hp m
        · split at h₁
          · cases h₁
          · next m₂ h₂ =>
              split at h₂
              · cases h₂
              · cases h₂
                cases h₁
                rw [hp, htypes]
      rw [setAll] at h
      split at h
      · cases h
      · next m₁ h₁ => rw [ih (fun q hq => hadd q (mem_cons_of_mem p hq)) h, hset m₁ h₁]

theorem setAll_sign {m m' : Message} {ps : List Payload} (h : m.setAll ps = .ok m') : m'.sign = m.sign :=
  setAll_keeps Message.sign (fun _ _ _ => rfl) (fun p _ _ => by cases p <;> rfl) h

/-- The private key comes with the key to verify with. -/
theorem setAll_privateKey {m m' : Message} {ps : List Payload} (h : m.setAll ps = .ok m')
    (hps : .PUBLIC_KEY_SIGNATURE ∉ ps.map Payload.content) : m'.privateKey = m.privateKey := by
  refine setAll_keeps Message.privateKey (fun _ _ _ => rfl) (fun p hp _ => ?_) h
  cases p with
  | publicKeyAndSign k privateKey => exact absurd (mem_map_of_mem (f := Payload.content) hp) hps
  | _ => rfl

end Message

namespace Encoder

variable {f : SignatureFactory} {now : BitVec 64} {m m₀ m' : Message} {ps : List Payload} {v w : Bytes}

/-- The hint is not looked at while a content is written. -/
theorem encodeContent_sign (b : Bool) (p : Payload) :
    encodeContent f now { m with sign := b } p = encodeContent f now m p := by
  cases p <;> rfl

/-- The contents are written one after the other, and a key to verify with marks the message. -/
theorem loop_ok {refs : List MessageContentIndex} (h : loop f now refs m = .ok (w, m')) :
    ∃ vs : List Bytes, w = vs.flatten ∧
      List.Forall₂ (fun next v => ∃ p, content m next = .ok p ∧ encodeContent f now m p = .ok v) refs vs ∧
      m' = { m with
        contentReferences := []
        sign := m.sign || refs.any fun next => next.content == .PUBLIC_KEY_SIGNATURE } := by
  induction refs generalizing m w with
  | nil =>
      cases h
      exact ⟨[], rfl, .nil, by simp⟩
  | cons next refs ih =>
      have hhint : (if next.content = .PUBLIC_KEY_SIGNATURE then m.setHintSign else m) =
          { m with sign := m.sign || next.content == .PUBLIC_KEY_SIGNATURE } := by
        by_cases hkey : next.content = .PUBLIC_KEY_SIGNATURE
        · simp [hkey, Message.setHintSign]
        · rw [if_neg hkey, beq_eq_false_iff_ne.mpr hkey, Bool.or_false]
      rw [loop, hhint] at h
      rcases except_bind_ok h with ⟨p, hp, h⟩
      rcases except_bind_ok h with ⟨u, hu, h⟩
      rcases except_bind_ok h with ⟨⟨x, m₁⟩, hx, h⟩
      cases h
      rcases ih hx with ⟨vs, rfl, hvs, rfl⟩
      simp only [encodeContent_sign] at hu hvs
      refine ⟨u :: vs, rfl, .cons ⟨p, hp, hu⟩ hvs, ?_⟩
      rw [any_cons, Bool.or_assoc]

/-- The contents that were added are written in the order in which they were added. -/
theorem loop_setAll (h₀ : m₀.Blank) (hset : m₀.setAll ps = .ok m) (h : loop f now m.contentReferences m = .ok (w, m')) :
    ∃ vs : List Bytes, w = vs.flatten ∧ List.Forall₂ (fun p v => encodeContent f now m p = .ok v) ps vs ∧
      m' = { m with
        contentReferences := []
        sign := m.sign || (ps.map Payload.content).contains .PUBLIC_KEY_SIGNATURE } := by
  rcases Message.restored_references m₀ m ps h₀ hset with ⟨_, _, hlen, hfound⟩
  rcases loop_ok h with ⟨vs, rfl, hvs, rfl⟩
  have hlist : m.contentReferences.map MessageContentIndex.content = ps.map Payload.content := by
    refine ext_getElem? fun n => ?_
    rw [getElem?_map, getElem?_map]
    cases hp : ps[n]? with
    | none =>
        rw [getElem?_eq_none (hlen ▸ getElem?_eq_none_iff.mp hp)]
        rfl
    | some p =>
        rcases hfound n p hp with ⟨i, hi, _⟩
        rw [hi]
        rfl
  refine ⟨vs, rfl, ?_, ?_⟩
  · rw [List.forall₂_iff_get] at hvs ⊢
    refine ⟨hlen ▸ hvs.1, fun n hn hv => ?_⟩
    rcases hvs.2 n (hlen ▸ hn) hv with ⟨p, hp, hpv⟩
    rcases hfound n (ps.get ⟨n, hn⟩) (getElem?_eq_getElem hn) with ⟨i, hi, _, hpayload⟩
    have href : m.contentReferences.get ⟨n, hlen ▸ hn⟩ = ⟨i, (ps.get ⟨n, hn⟩).content⟩ := by
      have hget := getElem?_eq_getElem (l := m.contentReferences) (hlen ▸ hn)
      exact Option.some.inj (hget.symm.trans hi)
    have hne : (ps.get ⟨n, hn⟩).content ≠ .EMPTY := Payload.content_ne_empty _
    rw [href, content, if_neg hne, hpayload] at hp
    cases hp
    exact hpv
  · have hany : (m.contentReferences.any fun next => next.content == .PUBLIC_KEY_SIGNATURE) =
        (ps.map Payload.content).contains .PUBLIC_KEY_SIGNATURE := by
      rw [← hlist, Bool.eq_iff_iff]
      simp
    rw [hany]

/-- The parts of a written message. -/
theorem write_ok {codec : Option SignatureCodec} (h : write f now m codec = .ok (v, m')) :
    ∃ header w, MessageHeaderCodec.encodeHeader m = .ok header ∧ loop f now m.contentReferences m = .ok (w, m') ∧
      if m'.isSign then ∃ s, signature f m' codec (header ++ w) = .ok s ∧ v = header ++ w ++ s.wire
      else v = header ++ w := by
  rcases except_bind_ok h with ⟨header, hheader, h⟩
  rcases except_bind_ok h with ⟨⟨w, m₁⟩, hloop, h⟩
  change (if m₁.isSign then _ else _) = Except.ok (v, m') at h
  refine ⟨header, w, hheader, ?_⟩
  split at h
  · next hsign =>
      rcases except_bind_ok h with ⟨s, hs, h⟩
      cases h
      exact ⟨hloop, by rw [if_pos hsign]; exact ⟨s, hs, rfl⟩⟩
  · next hsign =>
      cases h
      exact ⟨hloop, by rw [if_neg hsign]⟩

theorem signature_length (hf : f.Lawful) {codec : Option SignatureCodec}
    (hcodec : ∀ s, codec = some s → s.wire.length = f.signatureSize) {bytes : Bytes} {s : SignatureCodec}
    (h : signature f m codec bytes = .ok s) : s.wire.length = f.signatureSize := by
  cases codec with
  | some s' =>
      cases h
      exact hcodec s rfl
  | none =>
      cases hkey : m.privateKey with
      | none =>
          rw [signature, hkey] at h
          cases h
      | some k =>
          rw [signature, hkey] at h
          cases h
          exact hf.sign_size _ _

end Encoder

/-! ### Read contents -/

namespace Message

/-- The message `r` with a content of the message `m`, as it arrives. -/
def receive (f : SignatureFactory) (m : Message) (now now' : BitVec 64) (r : Message) (p : Payload) : Message :=
  r.add (p.arrived f m now now' ⟨r.isSign, r.publicKey 0⟩)

/-- What is received of the message `m` and its contents `ps`. -/
def received (f : SignatureFactory) (ch : Channel) (m : Message) (sender : PeerAddress) (now now' : BitVec 64)
    (ps : List Payload) : Message :=
  ps.foldl (receive f m now now')
    { m.withHeader ch sender { messageId := m.messageId } with presetContentTypes := true, udp := ch.udp }

end Message

namespace Decoder

variable {f : SignatureFactory} {now now' : BitVec 64} {m : Message} {d : Decoder} {ps : List Payload} {vs : List Bytes}

/-- The decoder with another message and other types that are to come. -/
theorem Ready.with (hd : d.Ready) (message : Message) (contentTypes : List Content) :
    { d with message, contentTypes }.Ready :=
  ⟨hd.neighborSet, hd.keyCollection, hd.dataMap, hd.keyMap640Keys, hd.keyMapByte, hd.buffer, hd.trackerData⟩

/-- The contents are added to the message one after the other. -/
theorem takes_decodeContents (now' : BitVec 64) (hd : d.Ready) (hpreset : d.message.presetContentTypes = true)
    (htypes : d.contentTypes = ps.map Payload.content) (hps : ∀ p ∈ ps, p.Sendable f m now)
    (hvs : List.Forall₂ (fun p v => Encoder.encodeContent f now m p = .ok v) ps vs) :
    Takes (decodeContents f now' (ps.map Payload.content)) d vs.flatten ()
      { d with message := ps.foldl (m.receive f now now') d.message, contentTypes := [] } := by
  induction hvs generalizing d with
  | nil =>
      have hnil : d.contentTypes = [] := htypes
      have hsame : { d with message := d.message, contentTypes := [] } = d := by rw [← hnil]
      rw [foldl_nil, hsame]
      exact Takes.pure () d
  | @cons p v ps vs hv _ ih =>
      have hset : d.message.set (p.arrived f m now now' d.signer) = .ok (m.receive f now now' d.message p) := by
        rw [Message.set, if_pos hpreset]
        rfl
      have hnext := ih (d := { d with message := m.receive f now now' d.message p, contentTypes := ps.map Payload.content })
        (hd.with _ _) (by cases p <;> exact hpreset) rfl fun q hq => hps q (mem_cons_of_mem p hq)
      intro rest
      rw [map_cons, decodeContents, run_bind, flatten_cons, append_assoc,
        takes_decodeContent hd (hps p mem_cons_self) hv, andThen_done, run_bind, run_state,
        andThen_done, run_bind, hset, run_lift_ok, andThen_done, run_bind, run_modify, andThen_done,
        hnext, foldl_cons]

end Decoder

/-! ### Read messages -/

namespace Message

variable {f : SignatureFactory} {ch : Channel} {now now' : BitVec 64} {m r : Message} {sender : PeerAddress}

/-- What the contents do not say is kept while they are received. -/
theorem foldl_receive {β : Type} (g : Message → β) (hg : ∀ r p, g (m.receive f now now' r p) = g r) (r : Message)
    (ps : List Payload) : g (ps.foldl (m.receive f now now') r) = g r := by
  induction ps generalizing r with
  | nil => rfl
  | cons p ps ih => rw [foldl_cons, ih, hg]

theorem isSign_received (ps : List Payload) : (received f ch m sender now now' ps).isSign =
    (m.contentTypes.map fun t => t.getD .EMPTY).contains .PUBLIC_KEY_SIGNATURE := by
  rw [received, foldl_receive isSign (fun r p => by cases p <;> rfl)]
  simp [isSign, withHeader, withFields]

theorem hasContent_received (ps : List Payload) : (received f ch m sender now now' ps).hasContent =
    (MessageHeaderCodec.encodeContentTypes m.contentTypes != 0#32) := by
  rw [received, foldl_receive hasContent (fun r p => by cases p <;> rfl)]
  simp [hasContent, withHeader, withFields]

/-- The first key stays the first. -/
theorem publicKey_receive {k : PublicKey} (h : r.publicKey 0 = some k) (p : Payload) :
    (m.receive f now now' r p).publicKey 0 = some k := by
  have happend (ks : List PublicKey) : (r.publicKeyList ++ ks)[0]? = some k := by
    rw [publicKey] at h
    rw [List.getElem?_append_left (List.getElem?_eq_some_iff.mp h).1, h]
  cases p <;> first | exact h | exact happend _

theorem publicKey_received {k : PublicKey} {privateKey : Option PrivateKey} (ps : List Payload) :
    (received f ch m sender now now' (.publicKeyAndSign k privateKey :: ps)).publicKey 0 = some k := by
  have hkept (r : Message) (h : r.publicKey 0 = some k) : (ps.foldl (m.receive f now now') r).publicKey 0 = some k := by
    induction ps generalizing r with
    | nil => exact h
    | cons p ps ih => exact ih _ (publicKey_receive h p)
  exact hkept _ rfl

end Message

namespace Decoder

/-- The decoder that has read the contents of the message `r`. -/
def unsigned (messageId : BitVec 32) (r : Message) : Decoder := { new messageId with headerDone := true, message := r }

/-- The end of a call with which the bytes `v` of the message `r` were read. Those in front of the
    signature are the ones it is verified with, unless the algorithm throws: for the key it begins
    with, or for a signature that is not properly encoded. -/
def finished (f : SignatureFactory) (messageId : BitVec 32) (r : Message) (v rest : Bytes) : Decoded :=
  match r.isSign, r.publicKey 0 with
  | true, some k =>
      let bytes := v.take (v.length - f.signatureSize)
      let s : SignatureCodec := ⟨v.drop (v.length - f.signatureSize)⟩
      let d := unsigned messageId { r with signatureEncode := some s }
      match f.update (some k) bytes with
      | .error e => ⟨true, some e, d, rest⟩
      | .ok signature =>
          let d := { d with signature := some signature }
          match f.verify k bytes s with
          | .error e => ⟨true, some e, d, rest⟩
          | .ok verified => ⟨true, none, { d with message := { d.message with verified } }, rest⟩
  | _, _ => ⟨true, none, unsigned messageId r, rest⟩

theorem finished_unsigned {f : SignatureFactory} {r : Message} (h : r.isSign ≠ true) (messageId : BitVec 32) (v rest : Bytes) :
    finished f messageId r v rest = ⟨true, none, unsigned messageId r, rest⟩ := by
  rw [finished, Bool.eq_false_iff.mpr h]

/-- Whatever the algorithm does, the call has finished, and what is behind the message stays. -/
theorem finished_eq (f : SignatureFactory) (messageId : BitVec 32) (r : Message) (v : Bytes) :
    ∃ e d, ∀ rest, finished f messageId r v rest = ⟨true, e, d, rest⟩ := by
  unfold finished
  split
  · dsimp only
    split
    · exact ⟨_, _, fun _ => rfl⟩
    · split <;> exact ⟨_, _, fun _ => rfl⟩
  · exact ⟨_, _, fun _ => rfl⟩

variable {f : SignatureFactory} {ch : Channel} {now now' : BitVec 64} {m m₀ m' : Message} {sender : PeerAddress}
  {ps : List Payload} {vs : List Bytes} {header v : Bytes}

/-- The types that are to come are those of the contents. -/
theorem queued_entered {cs : List Content} (h : .EMPTY ∉ cs) : queued (Message.entered cs) = cs := by
  have hfree (n : Nat) : (List.replicate n Content.EMPTY).takeWhile (· ≠ .EMPTY) = [] := by
    cases n <;> simp [replicate_succ]
  rw [queued, Message.entered, map_append, map_map, map_replicate]
  change (cs.map id ++ List.replicate _ Content.EMPTY).takeWhile _ = cs
  rw [map_id, takeWhile_append_of_pos, hfree, append_nil]
  intro c hc
  exact decide_eq_true fun hempty => h (hempty ▸ hc)

theorem empty_not_mem (ps : List Payload) : .EMPTY ∉ ps.map Payload.content := by
  intro h
  rcases mem_map.mp h with ⟨p, _, hp⟩
  exact p.content_ne_empty hp

section Contents

variable (htypes : m.contentTypes = Message.entered (ps.map Payload.content))

include htypes

theorem isSign_received_iff : (m.received f ch sender now now' ps).isSign = true ↔
    .PUBLIC_KEY_SIGNATURE ∈ ps.map Payload.content := by
  rw [Message.isSign_received, htypes, Message.entered, contains_iff_mem]
  simp

theorem hasContent_received_iff (hlen : m.contentTypes.length = 8) :
    (m.received f ch sender now now' ps).hasContent = true ↔ ps ≠ [] := by
  rw [Message.hasContent_received, bne_iff_ne]
  constructor
  · rintro h rfl
    rw [htypes] at h
    exact h rfl
  · intro h
    cases ps with
    | nil => exact absurd rfl h
    | cons p ps =>
        refine MessageHeaderCodec.encodeContentTypes_ne_zero hlen (t := some p.content) ?_ p.content_ne_empty
        rw [htypes]
        exact mem_cons_self

end Contents

/-- Behind the contents a signature is read if there is a key to verify with. -/
theorem run_decodePayload (now' : BitVec 64) (hm : MessageHeaderCodec.Fits ch m sender)
    (htypes : m.contentTypes = Message.entered (ps.map Payload.content)) (hps : ∀ p ∈ ps, p.Sendable f m now)
    (hvs : List.Forall₂ (fun p v => Encoder.encodeContent f now m p = .ok v) ps vs) (messageId : BitVec 32) (rest : Bytes) :
    (decodePayload f now').run (headed ch m sender (new messageId)) (vs.flatten ++ rest) =
      (if (m.received f ch sender now now' ps).isSign then decodeReceivedSignature f else pure ()).run
        (unsigned messageId (m.received f ch sender now now' ps)) rest := by
  have hready : (headed ch m sender (new messageId)).Ready := ⟨rfl, rfl, rfl, rfl, rfl, rfl, rfl⟩
  have hqueued : (headed ch m sender (new messageId)).contentTypes = ps.map Payload.content := by
    rw [headed, htypes, queued_entered (empty_not_mem ps)]
    rfl
  have hcontents := takes_decodeContents now' hready rfl hqueued hps hvs rest
  have hhas : (headed ch m sender (new messageId)).message.hasContent = (m.received f ch sender now now' ps).hasContent := by
    rw [Message.hasContent_received]
    rfl
  rw [decodePayload, run_bind, run_state, andThen_done]
  by_cases hnil : ps = []
  · -- Nothing is to be read, not even a signature.
    have hno : (m.received f ch sender now now' ps).hasContent ≠ true := fun h =>
      (hasContent_received_iff htypes hm.contentTypes).mp h hnil
    have hunsigned : (m.received f ch sender now now' ps).isSign ≠ true := by
      intro h
      have hmem := (isSign_received_iff htypes).mp h
      rw [hnil] at hmem
      cases hmem
    rw [hhas, if_neg hno, if_neg hunsigned]
    subst hnil
    exact hcontents
  · rw [hhas, if_pos ((hasContent_received_iff htypes hm.contentTypes).mpr hnil), run_bind, hqueued, hcontents, andThen_done,
      run_bind, run_state, andThen_done]
    rfl

/-- A signature is read that has the size the factory announces. -/
theorem run_decodeReceivedSignature {s : SignatureCodec} (hs : s.wire.length = f.signatureSize) (d : Decoder) (rest : Bytes) :
    (decodeReceivedSignature f).run d (s.wire ++ rest) =
      .done () { d with message := { d.message with signatureEncode := some s } } rest := by
  have hlong : f.signatureSize ≤ (s.wire ++ rest).length := by
    rw [length_append]
    omega
  rw [decodeReceivedSignature, run_bind, run_need_of_le _ _ _ hlong, andThen_done, run_bind, ← hs, run_read_append,
    andThen_done, run_modify]

/-- A signed message begins with the key to verify with, which has an encoding. -/
theorem signed_first (hfirst : Message.SignFirst (ps.map Payload.content)) (hkey : .PUBLIC_KEY_SIGNATURE ∈ ps.map Payload.content)
    (hvs : List.Forall₂ (fun p v => Encoder.encodeContent f now m p = .ok v) ps vs) :
    ∃ data privateKey ps' v vs', ps = .publicKeyAndSign (.encoded data) privateKey :: ps' ∧ vs = v :: vs' ∧
      f.encodePublicKey (some (.encoded data)) = .ok v := by
  rcases getElem_of_mem hkey with ⟨n, hn, hget⟩
  have hzero := hfirst n (by rw [getElem?_eq_getElem hn, hget])
  subst hzero
  cases hvs with
  | nil => exact absurd hkey (not_mem_nil)
  | @cons p v ps vs hv _ =>
      have hp : p.content = .PUBLIC_KEY_SIGNATURE := hget
      cases p with
      | publicKeyAndSign k privateKey =>
          have hk : f.encodePublicKey (some k) = .ok v := hv
          rcases encodePublicKey_ok hk with ⟨data, hdata, _⟩
          cases hdata
          exact ⟨data, privateKey, ps, v, vs, rfl, rfl, hk⟩
      | _ => cases hp

theorem close_of_unsigned {d : Decoder} {buf rest : Bytes} (h : d.message.isSign ≠ true) :
    close f buf true d rest = ⟨true, none, d, rest⟩ := by
  simp [close, verifySignature, h]

theorem update_ok {data bytes : Bytes} (h : f.initVerify data = .ok ()) :
    f.update (some (.encoded data)) bytes = .ok ⟨.encoded data, bytes⟩ := by
  rw [SignatureFactory.update, Signature.initVerify, h]
  rfl

theorem update_error {data : Bytes} {e : JavaException} (h : f.initVerify data = .error e) (bytes : Bytes) :
    f.update (some (.encoded data)) bytes = .error e := by
  rw [SignatureFactory.update, Signature.initVerify, h]
  rfl

/-- The signature has the bytes `pre`, unless there are none. -/
theorem feed_ok {d : Decoder} {pre data bytes : Bytes} (hd : d.signature = if pre = [] then none else some ⟨.encoded data, pre⟩)
    (hk : pre = [] → d.message.publicKey 0 = some (.encoded data)) (hinit : pre = [] → f.initVerify data = .ok ()) :
    feed f d bytes = .ok ⟨.encoded data, pre ++ bytes⟩ := by
  rw [feed, hd]
  by_cases hpre : pre = []
  · rw [if_pos hpre]
    change f.update (d.message.publicKey 0) bytes = _
    rw [hk hpre, update_ok (hinit hpre), hpre]
    rfl
  · rw [if_neg hpre]
    rfl

/-- The bytes in front of the signature go to the signature, which answers or throws. -/
theorem verifySignature_done (pre : Bytes) {d : Decoder} {data bytes : Bytes} {s : SignatureCodec} (hsign : d.message.isSign = true)
    (hfeed : feed f d bytes = .ok ⟨.encoded data, pre ++ bytes⟩) (hs : d.message.signatureEncode = some s)
    (hlen : s.wire.length = f.signatureSize) (hbytes : bytes ++ s.wire ≠ []) :
    verifySignature f d (bytes ++ s.wire) true =
      match f.verify (.encoded data) (pre ++ bytes) s with
      | .error e => .error (e, { d with signature := some ⟨.encoded data, pre ++ bytes⟩ })
      | .ok verified => .ok { d with
          signature := some ⟨.encoded data, pre ++ bytes⟩
          message := if verified then { d.message with verified := true } else d.message } := by
  have hempty : (bytes ++ s.wire).isEmpty = false := by
    rw [Bool.eq_false_iff]
    exact fun h => hbytes (isEmpty_iff.mp h)
  have htake : (bytes ++ s.wire).take ((bytes ++ s.wire).length - f.signatureSize) = bytes := by
    rw [length_append, hlen, Nat.add_sub_cancel, take_left]
  simp only [verifySignature, hsign, hempty, Bool.not_false, Bool.and_self, if_true, htake, hfeed, verify, hs]
  cases f.verify (.encoded data) (pre ++ bytes) s <;> rfl

theorem take_read {l r : Bytes} : (l ++ r).take ((l ++ r).length - r.length) = l := by
  rw [length_append, Nat.add_sub_cancel, take_left]

theorem close_of_signed (messageId : BitVec 32) (rest : Bytes) {r : Message} {data bytes : Bytes} {s : SignatureCodec}
    (hsign : r.isSign = true) (hk : r.publicKey 0 = some (.encoded data)) (hverified : r.verified = false)
    (hs : s.wire.length = f.signatureSize) (hbytes : bytes ≠ []) :
    close f (bytes ++ s.wire ++ rest) true (unsigned messageId { r with signatureEncode := some s }) rest =
      finished f messageId r (bytes ++ s.wire) rest := by
  have hnil : bytes ++ s.wire ≠ [] := append_ne_nil_of_left_ne_nil hbytes _
  have hlen : (bytes ++ s.wire).length - f.signatureSize = bytes.length := by
    rw [length_append, hs, Nat.add_sub_cancel]
  have hkey : (unsigned messageId { r with signatureEncode := some s }).message.publicKey 0 = some (.encoded data) := hk
  rw [close, take_read]
  simp only [finished, hsign, hk, hlen, take_left, drop_left]
  cases hinit : f.initVerify data with
  | error e =>
      -- The signature is not even begun.
      have hfeed : feed f (unsigned messageId { r with signatureEncode := some s }) bytes = .error e :=
        (congrArg (f.update · bytes) hkey).trans (update_error hinit bytes)
      have hempty : (bytes ++ s.wire).isEmpty = false := Bool.eq_false_iff.mpr fun h => hnil (isEmpty_iff.mp h)
      have hmust : (unsigned messageId { r with signatureEncode := some s }).message.isSign = true := hsign
      rw [update_error hinit, verifySignature, hmust, hempty]
      simp only [Bool.not_false, Bool.and_self, if_true, hlen, take_left, hfeed]
  | ok =>
      have hfeed : feed f (unsigned messageId { r with signatureEncode := some s }) bytes = .ok ⟨.encoded data, [] ++ bytes⟩ :=
        feed_ok rfl (fun _ => hkey) fun _ => hinit
      rw [update_ok hinit, verifySignature_done [] (d := unsigned messageId { r with signatureEncode := some s }) hsign hfeed rfl hs
        hnil, nil_append]
      cases f.verify (.encoded data) bytes s with
      | error e => rfl
      | ok verified => cases verified <;> simp [unsigned, hverified]

end Decoder

/-! ### Round trips -/

/-- A message that was written, with what it was made of. The signature is that of another
    peer if there is one, which has the size of the others. -/
structure Written (f : SignatureFactory) (ch : Channel) where
  start : Message
  contents : List Payload
  message : Message
  sender : PeerAddress
  now : BitVec 64
  signature : Option SignatureCodec
  bytes : Bytes
  used : Message
  fresh : start.Fresh
  setAll : start.setAll contents = .ok message
  fits : MessageHeaderCodec.Fits ch message sender
  sendable : ∀ p ∈ contents, p.Sendable f message now
  signature_length : ∀ s, signature = some s → s.wire.length = f.signatureSize
  write : Encoder.write f now message signature = .ok (bytes, used)

namespace Written

variable {f : SignatureFactory} {ch : Channel} (w : Written f ch)

/-- The message that arrives, without its signature. -/
def received (now' : BitVec 64) : Message := w.message.received f ch w.sender w.now now' w.contents

theorem holds : w.message.Holds (w.contents.map Payload.content) := by
  have h := (w.fresh.blank.holds.setAll w.setAll).1
  rwa [nil_append] at h

/-- The bytes are those of the header, of the contents, and of a signature if there is a key to
    verify with. -/
theorem parts (hf : f.Lawful) : ∃ header vs, MessageHeaderCodec.encodeHeader w.message = .ok header ∧
    List.Forall₂ (fun p v => Encoder.encodeContent f w.now w.message p = .ok v) w.contents vs ∧
    if .PUBLIC_KEY_SIGNATURE ∈ w.contents.map Payload.content then
      ∃ s : SignatureCodec, s.wire.length = f.signatureSize ∧ w.bytes = header ++ vs.flatten ++ s.wire
    else w.bytes = header ++ vs.flatten := by
  rcases Encoder.write_ok w.write with ⟨header, u, hheader, hloop, hsigned⟩
  rcases Encoder.loop_setAll w.fresh.blank w.setAll hloop with ⟨vs, rfl, hvs, hused⟩
  have hsign : w.message.sign = false := (Message.setAll_sign w.setAll).trans w.fresh.sign
  refine ⟨header, vs, hheader, hvs, ?_⟩
  by_cases hkey : .PUBLIC_KEY_SIGNATURE ∈ w.contents.map Payload.content
  · have hcontains : (w.contents.map Payload.content).contains .PUBLIC_KEY_SIGNATURE = true := contains_iff_mem.mpr hkey
    have hmust : w.used.isSign = true := by
      rw [hused, Message.isSign, hcontains, Bool.or_true, Bool.true_or]
    rw [if_pos hmust] at hsigned
    rcases hsigned with ⟨s, hs, hbytes⟩
    rw [if_pos hkey]
    exact ⟨s, Encoder.signature_length hf w.signature_length hs, hbytes⟩
  · have hcontains : (w.contents.map Payload.content).contains .PUBLIC_KEY_SIGNATURE = false := by simpa using hkey
    have hprivate : w.message.privateKey = none := (Message.setAll_privateKey w.setAll hkey).trans w.fresh.privateKey
    have hnone : ¬ w.used.isSign = true := by
      rw [hused, Message.isSign, hcontains, hsign, hprivate]
      exact Bool.false_ne_true
    rw [if_neg hnone] at hsigned
    rwa [if_neg hkey]

end Written

namespace Decoder

variable {f : SignatureFactory} {ch : Channel}

/-- A written message is read back in one call, with anything behind it: its contents arrive, and
    the bytes that were signed are the ones that are verified. Only the algorithm may throw. -/
theorem decode_written (hf : f.Lawful) (w : Written f ch) (now' : BitVec 64) (messageId : BitVec 32) (rest : Bytes) :
    decode f ch now' (new messageId) (w.bytes ++ rest) = finished f messageId (w.received now') w.bytes rest := by
  rcases w.parts hf with ⟨header, vs, hheader, hvs, hbytes⟩
  have hrun (rest : Bytes) : (decodePayload f now').run (headed ch w.message w.sender (new messageId)) (vs.flatten ++ rest) =
      (if (w.received now').isSign then decodeReceivedSignature f else pure ()).run (unsigned messageId (w.received now')) rest :=
    run_decodePayload now' w.fits w.holds.contentTypes w.sendable hvs messageId rest
  have hstart (rest : Bytes) := takes_decodeHeader w.fits hheader (new messageId) (vs.flatten ++ rest)
  have hiff : (w.received now').isSign = true ↔ .PUBLIC_KEY_SIGNATURE ∈ w.contents.map Payload.content :=
    isSign_received_iff w.holds.contentTypes
  by_cases hkey : .PUBLIC_KEY_SIGNATURE ∈ w.contents.map Payload.content
  · -- The message is signed.
    rw [if_pos hkey] at hbytes
    rcases hbytes with ⟨s, hlen, hbytes⟩
    have hdata : ∃ data, (w.received now').publicKey 0 = some (.encoded data) := by
      rcases signed_first w.holds.sign_first hkey hvs with ⟨data, privateKey, ps, v, vs', hcontents, _, _⟩
      rw [Written.received, hcontents]
      exact ⟨data, Message.publicKey_received ps⟩
    rcases hdata with ⟨data, hdata⟩
    have hnil : header ++ vs.flatten ≠ [] := by
      rcases MessageHeaderCodec.encodeHeader_ok hheader with ⟨type, recipient, a, w, -, -, -, -, rfl⟩
      refine ne_nil_of_length_pos ?_
      rw [length_append, length_append, MessageHeaderCodec.length_fields, MessageHeaderCodec.HEADER_SIZE_STATIC]
      omega
    have hverified : (w.received now').verified = false := by
      rw [Written.received, Message.received, Message.foldl_receive Message.verified (fun r p => by cases p <;> rfl)]
      rfl
    have hclose := close_of_signed messageId rest (hiff.mpr hkey) hdata hverified hlen hnil
    rw [decode_header rfl, hbytes, append_assoc, append_assoc, hstart]
    simp only [continued, hrun, if_pos (hiff.mpr hkey), run_decodeReceivedSignature hlen]
    simp only [append_assoc] at hclose ⊢
    exact hclose
  · have hunsigned := mt hiff.mp hkey
    have hclose : close f (header ++ (vs.flatten ++ rest)) true (unsigned messageId (w.received now')) rest =
        ⟨true, none, unsigned messageId (w.received now'), rest⟩ := close_of_unsigned hunsigned
    rw [if_neg hkey] at hbytes
    rw [decode_header rfl, hbytes, append_assoc, hstart]
    simp only [continued, hrun, if_neg hunsigned, run_pure]
    rw [finished_unsigned (r := w.received now') hunsigned]
    exact hclose

end Decoder

namespace Written

/-- A signed message with a number and a buffer. -/
def signed : Written .zeros ⟨.v4 0x7f000009 4000, .v4 0x7f000001 4000, false⟩ where
  start :=
    { messageId := 3, version := 1, type := some .REQUEST_1, command := 2, sender := some PeerAddress.reachedDirectly
      recipient := some { peerId := 9 } }
  contents := [.publicKeyAndSign (.encoded [7]) (some ⟨[8]⟩), .intValue 5, .buffer ⟨[1, 2, 3], 3⟩]
  message := _
  sender := PeerAddress.reachedDirectly.transferred
  now := 100
  signature := none
  bytes := _
  used := _
  fresh := ⟨⟨rfl, rfl, rfl, fun c => by cases c <;> rfl⟩, rfl, rfl⟩
  setAll := rfl
  fits :=
    { version := by decide
      options := by decide
      contentTypes := rfl
      wellFormed := by
        rintro a ⟨⟩
        exact TrackerData.wellFormed_reachedDirectly
      seen_eq := by
        rintro a ⟨⟩
        rfl }
  sendable := by
    intro p hp
    simp only [mem_cons, not_mem_nil, or_false] at hp
    rcases hp with rfl | rfl | rfl
    · rintro data ⟨⟩
      exact ⟨by decide, by decide, rfl⟩
    · trivial
    · rfl
  signature_length := by
    rintro s ⟨⟩
  write := rfl

end Written

theorem Decoder.decode_written_signed :
    Written.signed.bytes.length = 121 ∧
      decode .zeros ⟨.v4 0x7f000009 4000, .v4 0x7f000001 4000, false⟩ 105 (new 1) (Written.signed.bytes ++ [6, 6]) =
        finished .zeros 1 (Written.signed.received 105) Written.signed.bytes [6, 6] ∧
      (finished .zeros 1 (Written.signed.received 105) Written.signed.bytes [6, 6]).exception = none ∧
      (finished .zeros 1 (Written.signed.received 105) Written.signed.bytes [6, 6]).decoder.message.verified = true :=
  ⟨by decide, decode_written zeros_lawful Written.signed 105 1 [6, 6], by decide, by decide⟩

end TomP2P
