import TomP2P.Theory.ContentWaits

/-!
# Where the Decoder Waits

A decoder that has not finished waits for a header, for a content, or for the signature behind
the contents. A call reads something or it waits again, and if it does not finish the decoder
can be called once more.

Only the message, and what was read of its contents, is changed by a header that is not
complete. The id of the message is changed by headers alone.

## Main definitions

* `Decoder.Waits`: What is kept of a message that is waited for.
* `Decoder.Resumable`: Where a call may begin.

## Theorems

* `Decoder.leaves_decodePayload`, `Decoder.Waits.alert`: The condition is met where a message
  is waited for, and enough.
* `Decoder.decode_waits_or_consumes`: A call waits, or it reads something.
* `Decoder.resumable_decode`: A call that has not finished can be resumed.
-/

namespace TomP2P

open Wire Reader Outcome

/-! ### Messages -/

theorem Message.set_messageId {m m' : Message} {p : Payload} (h : m.set p = .ok m') : m'.messageId = m.messageId := by
  have hadd (m : Message) : (m.add p).messageId = m.messageId := by cases p <;> rfl
  unfold set at h
  split at h
  · cases h
    exact hadd m
  · cases htypes : m.contentType p.content with
    | error e =>
        rw [htypes] at h
        cases h
    | ok m₁ =>
        rw [htypes] at h
        cases h
        unfold contentType at htypes
        split at htypes
        · cases htypes
        · cases htypes
          exact hadd _

theorem Message.set_hasContent {m m' : Message} {p : Payload} (h : m.set p = .ok m') (hm : m.hasContent = true) :
    m'.hasContent = true := by
  have hadd (m : Message) : (m.add p).hasContent = m.hasContent := by cases p <;> rfl
  unfold set at h
  split at h
  · cases h
    exact (hadd m).trans hm
  · cases htypes : m.contentType p.content with
    | error e =>
        rw [htypes] at h
        cases h
    | ok m₁ =>
        rw [htypes] at h
        cases h
        unfold contentType at htypes
        split at htypes
        · cases htypes
        · cases htypes
          rw [hadd]
          simp [hasContent]

namespace Decoder

variable {f : SignatureFactory} {now : BitVec 64} {d : Decoder}

/-- What is kept of a content of this type when it is waited for. -/
def WaitsFor (f : SignatureFactory) (content : Content) (d : Decoder) : Prop :=
  match content with
  | .SET_NEIGHBORS => NeighborSet.collector.Waits d.neighborSet
  | .SET_KEY640 => KeyCollection.collector.Waits d.keyCollection
  | .MAP_KEY640_DATA => d.dataMap.Waits f
  | .MAP_KEY640_KEYS => d.keyMap640Keys.Waits
  | .MAP_KEY640_BYTE => KeyMapByte.collector.Waits d.keyMapByte
  | .BYTE_BUFFER => d.buffer.Waits
  | .SET_TRACKER_DATA => d.trackerData.Waits f
  | _ => True

/-- What is kept of a message when it is waited for. -/
structure Waits (f : SignatureFactory) (d : Decoder) : Prop where
  hasContent : d.message.hasContent = true
  next : match d.contentTypes with
    | [] => d.message.isSign = true ∧ 0 < f.signatureSize
    | content :: _ => WaitsFor f content d

/-- What reading a content leaves alone. -/
structure Frame (d e : Decoder) : Prop where
  message : e.message = d.message
  contentTypes : e.contentTypes = d.contentTypes
  headerDone : e.headerDone = d.headerDone
  coherent : e.dataMap.Coherent

/-- Reading a content of one piece. -/
theorem leaves_piece {p : Reader JavaException Decoder Payload} {W : Decoder → Prop} (hp : ∀ I, Keeps I p)
    (hd : d.dataMap.Coherent) (hW : W d) : Leaves p d (fun _ e => Frame d e) fun t => Frame d t ∧ W t := by
  refine (Leaves.ofKeeps hp).mono (fun _ e he => ?_) fun t ht => ?_
  · rw [he]
    exact ⟨rfl, rfl, rfl, hd⟩
  · rw [ht]
    exact ⟨⟨rfl, rfl, rfl, hd⟩, hW⟩

theorem keeps_decodePublicKey (content : Content) (I : Decoder → Prop) : Keeps I (decodePublicKey f content) := by
  refine SignatureFactory.keeps_decodePublicKey.bind fun receivedPublicKey => ?_
  by_cases h : content = .PUBLIC_KEY_SIGNATURE ∧ receivedPublicKey = some .EMPTY_PUBLIC_KEY
  · simp only [if_pos h]
    exact (Keeps.throw _).bind fun _ => by cases receivedPublicKey <;> first | exact Keeps.wait | exact Keeps.pure _
  · simp only [if_neg h]
    cases receivedPublicKey with
    | none => exact Keeps.wait
    | some k => exact Keeps.pure _

/-- Reading a content with what was kept of it. -/
theorem leaves_part {σ α : Type} {p : Reader JavaException σ α} {get : Decoder → σ} {set : σ → Decoder → Decoder}
    {g : α → Payload} {D : α → σ → Prop} {V : σ → Prop} {W : Decoder → Prop} (h : Leaves p (get d) D V)
    (hD : ∀ a s, D a s → Frame d (set s d)) (hW : ∀ s, V s → Frame d (set s d) ∧ W (set s d)) :
    Leaves (g <$> zoom get set p) d (fun _ e => Frame d e) fun t => Frame d t ∧ W t := by
  refine Leaves.map ((Leaves.zoom get set h).mono ?_ ?_)
  · intro a e ⟨s, hs, he⟩
    rw [he]
    exact hD a s hs
  · intro t ⟨s, hs, ht⟩
    rw [ht]
    exact hW s hs

/-- The contents of which nothing is kept. -/
abbrev OfOnePiece (content : Content) : Prop :=
  content ∉ [Content.SET_NEIGHBORS, .SET_KEY640, .MAP_KEY640_BYTE, .MAP_KEY640_KEYS, .BYTE_BUFFER, .MAP_KEY640_DATA,
    .SET_TRACKER_DATA]

theorem keeps_decodeContent {content : Content} (h : OfOnePiece content) (I : Decoder → Prop) :
    Keeps I (decodeContent f now content) := by
  have hint : Keeps I readInt := Keeps.field _ 4 32
  cases content with
  | EMPTY => exact Keeps.wait
  | KEY => exact (Keeps.need _).bind fun _ => Number160.keeps_decode.bind fun _ => Keeps.pure _
  | LONG => exact (Keeps.need _).bind fun _ => (Keeps.field _ 8 64).bind fun _ => Keeps.pure _
  | INTEGER => exact (Keeps.need _).bind fun _ => hint.bind fun _ => Keeps.pure _
  | PUBLIC_KEY_SIGNATURE => exact keeps_decodePublicKey _ I
  | PUBLIC_KEY => exact keeps_decodePublicKey _ I
  | BLOOM_FILTER =>
      exact (Keeps.need _).bind fun _ => (Keeps.lookField _ _ _).bind fun _ => (Keeps.need _).bind fun _ =>
        SimpleBloomFilter.keeps_decode.bind fun _ => Keeps.pure _
  | PEER_SOCKET4 =>
      exact (Keeps.need _).bind fun _ => (PeerSocket4Address.keeps_decode false).bind fun _ => Keeps.pure _
  | PEER_SOCKET6 =>
      exact (Keeps.need _).bind fun _ => (PeerSocket6Address.keeps_decode false).bind fun _ => Keeps.pure _
  | _ => exact absurd h (by decide)

theorem leaves_decodeContent (content : Content) (hd : d.dataMap.Coherent) :
    Leaves (decodeContent f now content) d (fun _ e => Frame d e) fun t => Frame d t ∧ WaitsFor f content t := by
  cases content with
  | SET_NEIGHBORS =>
      exact leaves_part (Collector.leaves_decode NeighborSet.steady _) (fun _ _ _ => ⟨rfl, rfl, rfl, hd⟩)
        fun _ hs => ⟨⟨rfl, rfl, rfl, hd⟩, hs⟩
  | SET_KEY640 =>
      exact leaves_part (Collector.leaves_decode KeyCollection.steady _) (fun _ _ _ => ⟨rfl, rfl, rfl, hd⟩)
        fun _ hs => ⟨⟨rfl, rfl, rfl, hd⟩, hs⟩
  | MAP_KEY640_BYTE =>
      exact leaves_part (Collector.leaves_decode KeyMapByte.steady _) (fun _ _ _ => ⟨rfl, rfl, rfl, hd⟩)
        fun _ hs => ⟨⟨rfl, rfl, rfl, hd⟩, hs⟩
  | MAP_KEY640_KEYS =>
      exact leaves_part (KeyMap640Keys.leaves_decode _) (fun _ _ _ => ⟨rfl, rfl, rfl, hd⟩)
        fun _ hs => ⟨⟨rfl, rfl, rfl, hd⟩, hs⟩
  | BYTE_BUFFER =>
      exact leaves_part (Buffer.leaves_decode _) (fun _ _ _ => ⟨rfl, rfl, rfl, hd⟩)
        fun _ hs => ⟨⟨rfl, rfl, rfl, hd⟩, hs⟩
  | MAP_KEY640_DATA =>
      refine (Leaves.state (D := fun a e => a = d ∧ e = d) ⟨rfl, rfl⟩).bind fun _ _ ⟨ha, he⟩ => ?_
      rw [ha, he]
      exact leaves_part (DataMap.leaves_decode d.dataMap hd) (fun _ _ hs => ⟨rfl, rfl, rfl, hs⟩)
        fun _ hs => ⟨⟨rfl, rfl, rfl, hs.coherent⟩, hs⟩
  | SET_TRACKER_DATA =>
      refine (Leaves.state (D := fun a e => a = d ∧ e = d) ⟨rfl, rfl⟩).bind fun _ _ ⟨ha, he⟩ => ?_
      rw [ha, he]
      exact leaves_part (TrackerData.leaves_decode d.trackerData) (fun _ _ _ => ⟨rfl, rfl, rfl, hd⟩)
        fun _ hs => ⟨⟨rfl, rfl, rfl, hd⟩, hs⟩
  | _ => exact leaves_piece (keeps_decodeContent (by decide)) hd trivial

theorem alert_decodePublicKey (content : Content) : Alert (decodePublicKey f content) d := by
  refine alert_iff.mpr fun b => ?_
  have hrun := f.run_decodePublicKey d b
  by_cases hshort : b.length < 2 ∨ b.length - 2 < ofBE (b.take 2)
  · rw [if_pos hshort] at hrun
    refine .inl ⟨d, ?_⟩
    rw [decodePublicKey, run_bind, hrun, andThen_done]
    simp
  · refine .inr (Consumes.bind _ ?_)
    rw [Consumes, hrun, if_neg hshort]
    have hlong : 2 ≤ b.length := by omega
    split
    · rw [Outcome.rest, List.length_drop]
      omega
    · rw [Outcome.rest, List.length_drop, List.length_drop]
      omega

/-- A content that is waited for is waited for again, or read on. -/
theorem WaitsFor.alert {content : Content} (h : WaitsFor f content d) : Alert (decodeContent f now content) d := by
  have hkey {σ : Type} {s : σ} {b : Bytes} (hb : Number160.BYTE_ARRAY_SIZE ≤ b.length) :
      Consumes (Number160.decode (σ := σ)) s b :=
    Number160.consumes_decode (Nat.le_trans (by decide) hb)
  cases content with
  | EMPTY => exact Alert.wait
  | INTEGER => exact Alert.need fun b hb => (Consumes.field _ 32 (by decide) hb).map _
  | LONG => exact Alert.need fun b hb => (Consumes.field _ 64 (by decide) hb).map _
  | KEY => exact Alert.need fun b hb => (hkey hb).map _
  | BLOOM_FILTER =>
      exact (Paces.needAhead (i := 0) (n := 2) (m := 2) (g := fun size : BitVec 32 => size.toNat) rfl
        fun b _ _ hb => ((Consumes.field _ 32 (by decide) hb).bind _).map _).alert
  | PEER_SOCKET4 =>
      exact Alert.need fun b hb => (((Consumes.field _ 32 (by decide) (Nat.le_trans (by decide) hb)).bind _).bind _).map _
  | PEER_SOCKET6 =>
      exact Alert.need fun b hb =>
        ((((Consumes.field _ 64 (by decide) (Nat.le_trans (by decide) hb)).bind _).bind _).bind _).map _
  | SET_NEIGHBORS => exact (Alert.zoom (Collector.Waits.alert NeighborSet.steady h)).map _
  | SET_KEY640 => exact (Alert.zoom (Collector.Waits.alert KeyCollection.steady h)).map _
  | MAP_KEY640_BYTE => exact (Alert.zoom (Collector.Waits.alert KeyMapByte.steady h)).map _
  | MAP_KEY640_KEYS => exact (Alert.zoom (KeyMap640Keys.Decoding.Waits.alert h)).map _
  | BYTE_BUFFER => exact (Alert.zoom (Buffer.Decoding.Waits.alert h)).map _
  | MAP_KEY640_DATA => exact Alert.skip (fun b => rfl) ((Alert.zoom (DataMap.Decoding.Waits.alert h)).map _)
  | SET_TRACKER_DATA => exact Alert.skip (fun b => rfl) ((Alert.zoom (TrackerData.Decoding.Waits.alert h)).map _)
  | PUBLIC_KEY => exact alert_decodePublicKey _
  | PUBLIC_KEY_SIGNATURE => exact alert_decodePublicKey _

theorem leaves_decodeContents {messageId : BitVec 32} (contentTypes : List Content)
    (htypes : d.contentTypes = contentTypes) (hd : d.dataMap.Coherent) (hcontent : d.message.hasContent = true)
    (hid : d.message.messageId = messageId) :
    Leaves (decodeContents f now contentTypes) d
      (fun _ e => e.contentTypes = [] ∧ e.message.hasContent = true ∧ e.dataMap.Coherent ∧
        e.message.messageId = messageId)
      fun t => t.dataMap.Coherent ∧ Waits f t ∧ t.message.messageId = messageId := by
  induction contentTypes generalizing d with
  | nil => exact Leaves.pure ⟨htypes, hcontent, hd, hid⟩
  | cons content contentTypes ih =>
      refine ((leaves_decodeContent content hd).mono (fun _ _ he => he) ?_).bind fun p e he => ?_
      · intro t ⟨hframe, hwaits⟩
        refine ⟨hframe.coherent, ⟨by rw [hframe.message]; exact hcontent, ?_⟩, by rw [hframe.message]; exact hid⟩
        rw [hframe.contentTypes, htypes]
        exact hwaits
      · refine (Leaves.state (D := fun a e' => a = e ∧ e' = e) ⟨rfl, rfl⟩).bind fun _ _ ⟨ha, he'⟩ => ?_
        rw [ha, he']
        refine (Leaves.lift (D := fun message e' => e' = e ∧ message.hasContent = true ∧
          message.messageId = messageId) ?_).bind fun message e' ⟨he', hmessage, hmessageId⟩ => ?_
        · intro message hset
          refine ⟨rfl, Message.set_hasContent hset ?_, (Message.set_messageId hset).trans ?_⟩
          · rw [he.message]
            exact hcontent
          · rw [he.message]
            exact hid
        · rw [he']
          refine (Leaves.modify (D := fun _ e' => e'.contentTypes = contentTypes ∧ e'.dataMap.Coherent ∧
            e'.message.hasContent = true ∧ e'.message.messageId = messageId)
            ⟨rfl, he.coherent, hmessage, hmessageId⟩).bind fun _ e' ⟨htypes', hd', hcontent', hid'⟩ => ?_
          exact ih htypes' hd' hcontent' hid'

/-- What is kept of a message that is waited for. -/
theorem leaves_decodePayload (hd : d.dataMap.Coherent) :
    Leaves (decodePayload f now) d (fun _ e => e.dataMap.Coherent)
      fun t => t.dataMap.Coherent ∧ Waits f t ∧ t.message.messageId = d.message.messageId := by
  refine (Leaves.state (D := fun a e => a = d ∧ e = d) ⟨rfl, rfl⟩).bind fun _ _ ⟨ha, he⟩ => ?_
  rw [ha, he]
  by_cases hcontent : d.message.hasContent = true
  · rw [if_pos hcontent]
    refine (leaves_decodeContents d.contentTypes rfl hd hcontent rfl).bind fun _ e ⟨htypes, hcontent', hd', hid⟩ => ?_
    refine (Leaves.state (D := fun a e' => a = e ∧ e' = e) ⟨rfl, rfl⟩).bind fun _ _ ⟨ha, he'⟩ => ?_
    rw [ha, he']
    by_cases hsign : e.message.isSign = true
    · rw [if_pos hsign]
      refine Leaves.bind (D := fun _ e' => e' = e) ⟨?_, ?_⟩ fun _ e' he' => ?_
      · intro b _ e' r hrun
        rw [run_need] at hrun
        split at hrun
        · cases hrun
        · cases hrun
          rfl
      · intro b t r hrun
        rw [run_need] at hrun
        split at hrun
        · next hlen =>
            cases hrun
            refine ⟨hd', ⟨hcontent', ?_⟩, hid⟩
            rw [htypes]
            exact ⟨hsign, by omega⟩
        · cases hrun
      · rw [he']
        exact (Leaves.read _ _).bind fun wire e'' he'' => Leaves.modify (he'' ▸ hd')
    · rw [if_neg hsign]
      exact Leaves.pure hd'
  · rw [if_neg hcontent]
    exact Leaves.pure hd

/-- A message that is waited for is waited for again, or read on. -/
theorem Waits.alert (h : Waits f d) : Alert (decodePayload f now) d := by
  refine Alert.skip (a := d) (t := d) (fun b => rfl) ?_
  rw [if_pos h.hasContent]
  have hnext := h.next
  cases htypes : d.contentTypes with
  | nil =>
      rw [htypes] at hnext
      refine Alert.skip (a := ()) (t := d) (fun b => rfl) (Alert.skip (a := d) (t := d) (fun b => rfl) ?_)
      rw [if_pos hnext.1]
      exact Alert.need fun b hb => (Consumes.read _ hnext.2 hb).bind _
  | cons content contentTypes =>
      rw [htypes] at hnext
      exact ((WaitsFor.alert hnext).bind _).bind _

/-! ### Calls -/

/-- Where the next call begins: with a header, or with what a message waits for. -/
structure Resumable (f : SignatureFactory) (d : Decoder) : Prop where
  coherent : d.dataMap.Coherent
  waits : d.headerDone = true → Waits f d

theorem resumable_new (messageId : BitVec 32) : Resumable f (new messageId) where
  coherent := fun h => absurd h Bool.false_ne_true
  waits := fun h => absurd h Bool.false_ne_true

theorem resumable_prepareFinish (messageId : BitVec 32) (d : Decoder) : Resumable f (d.prepareFinish messageId).2 where
  coherent := fun h => absurd h Bool.false_ne_true
  waits := fun h => absurd h Bool.false_ne_true

variable {ch : Channel}

/-- A header that is not complete is not read, and otherwise some of it is. -/
theorem alert_decodeHeader : Alert (decodeHeader ch) d := by
  refine alert_iff.mpr fun b => ?_
  by_cases hlen : b.length < MessageHeaderCodec.HEADER_SIZE_MIN
  · refine .inl ⟨d, ?_⟩
    rw [decodeHeader, run_bind, run_need_of_lt _ d b hlen, andThen_wait]
  · have hconsumes : Consumes (zoom Decoder.message (fun message d => { d with message })
        (MessageHeaderCodec.decodeHeader ch.recipient ch.sender)) d b :=
      Consumes.zoom ((Consumes.field _ 32 (by decide) (Nat.le_trans (by decide) (Nat.not_lt.mp hlen))).bind _ |>.bind _)
    unfold Consumes at hconsumes ⊢
    rw [decodeHeader, run_bind, run_need_of_le _ d b (Nat.not_lt.mp hlen), andThen_done, run_bind, run_rewind]
    cases hrun : (zoom Decoder.message (fun message d => { d with message })
        (MessageHeaderCodec.decodeHeader ch.recipient ch.sender)).run d b with
    | wait t r => exact .inl ⟨t, rfl⟩
    | fail e t r =>
        rw [hrun] at hconsumes
        exact .inr hconsumes
    | done a t r =>
        rw [hrun] at hconsumes
        exact .inr hconsumes

/-- Only the message is changed by a header that is not complete. -/
theorem leaves_decodeHeader :
    Leaves (decodeHeader ch) d (fun _ e => e.dataMap = d.dataMap)
      fun t => t.dataMap = d.dataMap ∧ t.headerDone = d.headerDone := by
  have hzoom : Leaves (zoom Decoder.message (fun message d => { d with message })
      (MessageHeaderCodec.decodeHeader ch.recipient ch.sender)) d (fun _ e => e.dataMap = d.dataMap)
        fun t => t.dataMap = d.dataMap ∧ t.headerDone = d.headerDone := by
    refine (Leaves.zoom (D := fun _ _ => True) (W := fun _ => True) _ _ ⟨fun _ => trivial, fun _ => trivial⟩).mono ?_ ?_
    · intro _ e ⟨message, _, he⟩
      rw [he]
    · intro t ⟨message, _, ht⟩
      rw [ht]
      exact ⟨rfl, rfl⟩
  refine ((Leaves.ofKeeps fun I => Keeps.need _).mono (fun _ _ he => he) ?_).bind fun _ e he => ?_
  · intro t ht
    rw [ht]
    exact ⟨rfl, rfl⟩
  · rw [he]
    refine Leaves.bind (D := fun _ e => e.dataMap = d.dataMap) ⟨?_, ?_⟩ fun _ e he => Leaves.modify he
    · intro b a e r hrun
      rw [run_rewind] at hrun
      cases hfirst : (zoom Decoder.message (fun message d => { d with message })
          (MessageHeaderCodec.decodeHeader ch.recipient ch.sender)).run d b with
      | done a' e' r' =>
          rw [hfirst] at hrun
          cases hrun
          exact hzoom.done hfirst
      | wait t r' =>
          rw [hfirst] at hrun
          cases hrun
      | fail e' t r' =>
          rw [hfirst] at hrun
          cases hrun
    · intro b t r hrun
      rw [run_rewind] at hrun
      cases hfirst : (zoom Decoder.message (fun message d => { d with message })
          (MessageHeaderCodec.decodeHeader ch.recipient ch.sender)).run d b with
      | done a' e' r' =>
          rw [hfirst] at hrun
          cases hrun
      | wait t' r' =>
          rw [hfirst] at hrun
          cases hrun
          exact hzoom.wait hfirst
      | fail e' t' r' =>
          rw [hfirst] at hrun
          cases hrun

/-- The bytes of a call are fed to the signature, which changes nothing else before the message is
    complete. -/
theorem verifySignature_ok {bytes : Bytes} {e : Decoder} (h : verifySignature f d bytes false = .ok e) :
    ∃ signature, e = { d with signature } := by
  unfold verifySignature at h
  split at h
  · dsimp only at h
    split at h
    · cases h
    · next s _ =>
        cases h
        exact ⟨some s, rfl⟩
  · cases h
    exact ⟨d.signature, rfl⟩

theorem verifySignature_nil (donePayload : Bool) : verifySignature f d [] donePayload = .ok d := by
  unfold verifySignature
  simp

variable {buf rest : Bytes}

theorem close_rest (donePayload : Bool) : (close f buf donePayload d rest).rest = rest := by
  unfold close
  split <;> rfl

theorem close_done : (close f buf true d rest).finished = true := by
  unfold close
  split <;> rfl

/-- A call that has read nothing of what it waits for leaves the decoder as it is. -/
theorem close_unread : close f buf false d buf = ⟨false, none, d, buf⟩ := by
  unfold close
  rw [Nat.sub_self, List.take_zero, verifySignature_nil]

theorem resumable_close (hd : d.dataMap.Coherent) (hwaits : Waits f d)
    (h : (close f buf false d rest).finished = false) : Resumable f (close f buf false d rest).decoder := by
  unfold close at h ⊢
  cases hverify : verifySignature f d (buf.take (buf.length - rest.length)) false with
  | error e =>
      rw [hverify] at h
      cases h
  | ok e =>
      rcases verifySignature_ok hverify with ⟨signature, he⟩
      rw [he]
      exact ⟨hd, fun _ => ⟨hwaits.hasContent, hwaits.next⟩⟩

/-- The call of a decoder whose header is there. -/
def continued (f : SignatureFactory) (now : BitVec 64) (buf : Bytes) (d : Decoder) (rest : Bytes) : Decoded :=
  match (decodePayload f now).run d rest with
  | .wait d rest => close f buf false d rest
  | .fail e d rest => ⟨true, some e, d, rest⟩
  | .done _ d rest => close f buf true d rest

theorem continued_rest : (continued f now buf d rest).rest = ((decodePayload f now).run d rest).rest := by
  unfold continued
  cases (decodePayload f now).run d rest with
  | wait d r => exact close_rest false
  | fail e d r => rfl
  | done a d r => exact close_rest true

theorem resumable_continued (hd : d.dataMap.Coherent) (h : (continued f now buf d rest).finished = false) :
    Resumable f (continued f now buf d rest).decoder := by
  unfold continued at h ⊢
  cases hrun : (decodePayload f now).run d rest with
  | wait d r =>
      rw [hrun] at h
      rcases (leaves_decodePayload hd).wait hrun with ⟨hcoherent, hwaits, _⟩
      exact resumable_close hcoherent hwaits h
  | fail e d r =>
      rw [hrun] at h
      cases h
  | done a d r =>
      rw [hrun] at h
      exact absurd (h.symm.trans close_done) (by decide)

theorem decode_started (h : d.headerDone = true) : decode f ch now d buf = continued f now buf d buf := by
  unfold decode started
  rw [if_pos h]
  rfl

theorem decode_header (h : d.headerDone = false) : decode f ch now d buf =
    match (decodeHeader ch).run d buf with
    | .wait d rest => ⟨false, none, d, rest⟩
    | .fail e d rest => ⟨true, some e, d, rest⟩
    | .done _ d rest => continued f now buf d rest := by
  unfold decode started
  rw [if_neg (by rw [h]; decide)]
  rfl

/-- A call waits, or it reads something. -/
theorem decode_waits_or_consumes (h : Resumable f d) (ch : Channel) (now : BitVec 64) (buf : Bytes) :
    (∃ e, decode f ch now d buf = ⟨false, none, e, buf⟩) ∨ (decode f ch now d buf).rest.length < buf.length := by
  cases hheader : d.headerDone with
  | true =>
      rw [decode_started hheader]
      rcases alert_iff.mp (h.waits hheader).alert buf with ⟨e, hrun⟩ | hconsumes
      · refine .inl ⟨e, ?_⟩
        rw [continued, hrun]
        exact close_unread
      · refine .inr ?_
        rw [continued_rest]
        exact hconsumes
  | false =>
      rw [decode_header hheader]
      rcases alert_iff.mp alert_decodeHeader buf with ⟨e, hrun⟩ | hconsumes
      · exact .inl ⟨e, by rw [hrun]⟩
      · refine .inr ?_
        unfold Consumes at hconsumes
        cases hrun : (decodeHeader ch).run d buf with
        | wait e r | fail x e r =>
            rw [hrun] at hconsumes
            exact hconsumes
        | done a e r =>
            rw [hrun] at hconsumes
            change (continued f now buf e r).rest.length < buf.length
            rw [continued_rest]
            exact Nat.lt_of_le_of_lt ((decodePayload f now).suffix e r).length_le hconsumes

/-- A call that has not finished can be resumed. -/
theorem resumable_decode (h : Resumable f d) (hwaits : (decode f ch now d buf).finished = false) :
    Resumable f (decode f ch now d buf).decoder := by
  cases hheader : d.headerDone with
  | true =>
      rw [decode_started hheader] at hwaits ⊢
      exact resumable_continued h.coherent hwaits
  | false =>
      rw [decode_header hheader] at hwaits ⊢
      cases hrun : (decodeHeader ch).run d buf with
      | wait e r =>
          rcases leaves_decodeHeader.wait hrun with ⟨hmap, hdone⟩
          refine ⟨?_, fun hd => ?_⟩
          · rw [hmap]
            exact h.coherent
          · rw [hdone, hheader] at hd
            cases hd
      | fail x e r =>
          rw [hrun] at hwaits
          cases hwaits
      | done a e r =>
          rw [hrun] at hwaits
          refine resumable_continued ?_ hwaits
          rw [leaves_decodeHeader.done hrun]
          exact h.coherent

end Decoder

end TomP2P
