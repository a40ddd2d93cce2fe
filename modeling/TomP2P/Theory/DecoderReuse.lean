import TomP2P.Foundation.Runs
import TomP2P.Theory.DecoderWaits

/-!
# Using a Decoder Again

A decoder reads one message after the other. In between it is reset, and what was read of a
message must not be used for the next one. The reset forgets three things: the key of a value,
what was read of a map of bytes, and what was read of the data of trackers. They are still
there if a message ends in the middle, because an exception was thrown or because a message
with the id of the last one counts as complete.

A decoder is compared with a new one by what is seen of calls: whether they finish, what they
throw, the message so far, and the bytes that are not read. Nothing of the three may be left,
and that is enough. For each of them there is a short message that shows whether something is
left: it ends with the number zero, which is only read if no number is known.

## Main definitions

* `Decoder.behaviour`: What is seen of calls with pieces that arrive one after the other.
* `Decoder.BehavesLike`: The same is seen of two decoders.
* `Decoder.NothingPending`: What the reset forgets is not there.

## Theorems

* `Decoder.Tidy.respond`: Nothing was collected before the number of elements is known.
* `Decoder.behavesLike_new_iff`: After a reset a decoder behaves like a new one if and only if
  nothing is pending.
-/

namespace TomP2P

open Wire Reader Outcome

/-! ### Numbers that are known -/

section Sized

variable {σ α : Type} {s : σ} {D : α → σ → Prop} {T : σ → Prop} {size : σ → BitVec 32}
  {set : BitVec 32 → σ → σ} {width : Nat} {collect : Reader JavaException σ α} {b : Bytes}

theorem settles_sized (hs : T s) (hknown : size s ≠ -1#32 → Settles collect s D T)
    (hread : size s = -1#32 → ∀ v : Bytes, v.length = width →
      Settles collect (set (BitVec.ofNat 32 (ofBE v)) s) D T) :
    Settles (sized size set width collect) s D T := by
  refine (Settles.state (D := fun a s' => a = s ∧ s' = s) ⟨rfl, rfl⟩).bind fun _ _ ⟨ha, hs'⟩ => ?_
  rw [ha, hs']
  by_cases hsize : size s = -1#32
  · rw [if_pos hsize]
    have hneed : Settles (need width : Reader JavaException σ Unit) s (fun _ s' => s' = s) T :=
      (Settles.ofKeeps (Keeps.need width) (I := fun t => t = s) rfl).mono (fun _ _ h => h) fun t ht => ht ▸ hs
    refine hneed.bind fun _ _ hs' => ?_
    rw [hs']
    refine (Settles.field _ width 32 hs).bind fun n _ ⟨hs', v, hv, hn⟩ => ?_
    rw [hs', hn]
    exact (Settles.modify (D := fun _ s' => s' = set (BitVec.ofNat 32 (ofBE v)) s) rfl).bind fun _ _ hs' =>
      hs' ▸ hread hsize v hv
  · rw [if_neg hsize]
    exact hknown hsize

theorem run_sized_known (hknown : size s ≠ -1#32) (b : Bytes) :
    (sized size set width collect).run s b = collect.run s b := by
  rw [sized, run_bind, run_state, andThen_done, if_neg hknown]

end Sized

/-! ### Collections -/

namespace Collector

variable {C E : Type} {K : Collector C E} {s : Collecting C} {b : Bytes}

/-- Nothing is collected before the number of elements is known. -/
def Tidy (s : Collecting C) : Prop := s.size = -1#32 → s = {}

theorem settles_collect (hK : K.Steady) (hs : s.size ≠ -1#32) :
    Settles K.collect s (fun _ s' => s' = {}) fun t => t.size ≠ -1#32 := by
  have hnext : Keeps (fun t : Collecting C => t.size ≠ -1#32) K.decodeNext :=
    (hK.keeps _).bind fun _ => Keeps.modify fun _ h => h
  refine (Settles.state (D := fun a s' => a = s ∧ s' = s) ⟨rfl, rfl⟩).bind fun _ _ ⟨ha, hs'⟩ => ?_
  rw [ha, hs']
  refine (Settles.lift (D := fun _ s' => s' = s) hs fun c _ => rfl).bind fun c _ hs' => ?_
  rw [hs']
  refine (Settles.modify (D := fun _ s' => s'.size ≠ -1#32) hs).bind fun _ s' hs' => ?_
  refine (Settles.ofKeeps (hnext.repeat_ _) hs').bind fun _ s' _ => ?_
  refine (Settles.state (D := fun _ _ => True) trivial).bind fun _ s' _ => ?_
  exact (Settles.modify (D := fun _ s' => s' = {}) rfl).bind fun _ s' hs' => Settles.pure hs'

/-- There is no collection with minus one elements, so none is begun with that number. -/
theorem settles_collect_none (hcreate : ∃ e, K.create (-1#32) = .error e) :
    Settles K.collect {} (fun _ s' => s' = {}) Tidy := by
  rcases hcreate with ⟨e, he⟩
  intro b
  have hbegun : K.begun {} = .error e := he
  rw [collect, run_bind, run_state, andThen_done, run_bind, hbegun, run_lift_error]
  exact fun _ => rfl

theorem keeps_decode (hK : K.Steady) (hcreate : ∃ e, K.create (-1#32) = .error e) : Keeps Tidy K.decode := by
  have htidy (t : Collecting C) (ht : t.size ≠ -1#32) : Tidy t := fun h => absurd h ht
  have hempty (t : Collecting C) (ht : t = {}) : Tidy t := fun _ => ht
  refine Settles.keeps fun s hs => ?_
  rw [decode_eq]
  refine settles_sized hs (fun hsize => (settles_collect hK hsize).mono (fun _ s' => hempty s') htidy) ?_
  intro hsize v hv
  rw [hs hsize]
  by_cases hminus : BitVec.ofNat 32 (ofBE v) = -1#32
  · rw [hminus]
    exact (settles_collect_none hcreate).mono (fun _ s' => hempty s') fun _ h => h
  · exact (settles_collect hK hminus).mono (fun _ s' => hempty s') htidy

/-- Nothing is read while the number is known and an element does not fit. -/
theorem untouched_decode (helement : ∀ s, Untouched b K.element s) (hs : s.size ≠ -1#32) :
    Untouched b K.decode s := by
  rw [decode_eq, Untouched, run_sized_known hs]
  refine Untouched.state.bind fun _ s => (Untouched.lift _).bind fun c s => (Untouched.modify _).bind fun _ s => ?_
  refine (Untouched.repeat_ (fun s => (helement s).bind fun _ s => Untouched.modify _) _ s).bind fun _ s => ?_
  exact Untouched.state.bind fun _ s => (Untouched.modify _).bind fun _ s => Untouched.pure _

end Collector

theorem KeyMapByte.create_minus_one : ∃ e, collector.create (-1#32) = .error e := ⟨_, rfl⟩

/-! ### Data of trackers -/

namespace TrackerData

variable {f : SignatureFactory} {message : Signer} {now : BitVec 64} {s : Decoding} {b : Bytes}

/-- Nothing is collected before the number of entries is known. -/
def Tidy (s : Decoding) : Prop := s.trackerDataSize = -1#32 → s = {}

section Entries

variable {I : Decoding → Prop} (hstore : ∀ pa d s, I s → I (store pa d s))
  (hfinish : ∀ s, I s → I { s with currentTrackerData := none })

include hstore hfinish

theorem keeps_decodeCurrent (pa : PeerAddress) (data : Data) : Keeps I (decodeCurrent f message pa data) :=
  (Keeps.zoom (I := fun _ => True) (fun _ _ _ => trivial) (fun _ _ => trivial)
    fun d s _ hs => hstore pa d s hs).bind fun _ => Keeps.modify hfinish

theorem keeps_decodeEntry : Keeps I (decodeEntry f message now) :=
  (Keeps.need _).bind fun _ => (Keeps.lookField _ _ _).bind fun _ => (Keeps.need _).bind fun _ =>
    PeerAddress.keeps_decode.bind fun pa => (Data.keeps_decodeHeader now).bind fun _ =>
      (Keeps.modify fun s hs => hstore pa _ s hs).bind fun _ => keeps_decodeCurrent hstore hfinish pa _

end Entries

theorem settles_collect (hs : s.trackerDataSize ≠ -1#32) :
    Settles (collect f message now s.currentTrackerData) s (fun _ s' => s' = {})
      fun t => t.trackerDataSize ≠ -1#32 := by
  unfold collect
  refine (Settles.modify (D := fun _ s' => s'.trackerDataSize ≠ -1#32) hs).bind fun _ s' hs' => ?_
  have hrest (s' : Decoding) (hs' : s'.trackerDataSize ≠ -1#32) : Settles (collectRest f message now) s'
      (fun _ s'' => s'' = {}) fun t => t.trackerDataSize ≠ -1#32 := by
    refine (Settles.state (D := fun _ s' => s'.trackerDataSize ≠ -1#32) hs').bind fun _ s' hs' => ?_
    refine (Settles.ofKeeps ((keeps_decodeEntry (fun _ _ _ h => h) fun _ h => h).repeat_ _) hs').bind fun _ s' _ => ?_
    refine (Settles.state (D := fun _ _ => True) trivial).bind fun _ s' _ => ?_
    exact (Settles.modify (D := fun _ s' => s' = {}) rfl).bind fun _ s' hs' => Settles.pure hs'
  cases s.currentTrackerData with
  | none => exact hrest s' hs'
  | some current =>
      exact (Settles.ofKeeps (keeps_decodeCurrent (fun _ _ _ h => h) (fun _ h => h) current.1 current.2) hs').bind
        fun _ s' hs' => hrest s' hs'

theorem size_put_pos (t : TrackerData) (a : PeerAddress) (d : Data) : 0 < (t.put a d).size := by
  change 0 < (t.peerAddresses.put a.key _).size
  by_cases h : t.peerAddresses.contains a.key = true
  · rw [HashedMap.size_put_of_contains _ _ _ h]
    rcases (HashedMap.contains_iff _ _).mp h with ⟨v, hv⟩
    exact List.length_pos_of_mem hv
  · rw [HashedMap.size_put_of_not_contains _ _ _ h]
    exact Nat.succ_pos _

/-- Data with an entry that was begun is not empty. -/
theorem leaves_collect_begun {current : PeerAddress × Data} :
    Leaves (collect f message now (some current)) s (fun t _ => 0 < t.size) fun _ => True := by
  let I (s : Decoding) : Prop := ∃ m, s.trackerData = some m ∧ 0 < m.size
  have hentry : Keeps I (decodeEntry f message now) := by
    refine keeps_decodeEntry (fun pa d s hs => ?_) fun s hs => hs
    rcases hs with ⟨m, hm, _⟩
    refine ⟨m.put pa d, ?_, size_put_pos m pa d⟩
    rw [store, hm, Option.map_some]
  unfold collect
  refine (Leaves.modify (D := fun _ s' => s'.trackerData.isSome) rfl).bind fun _ s' hs' => ?_
  refine ((leaves_decodeCurrent current.1 current.2).mono (E := fun _ s'' => I s'') ?_ fun _ _ => trivial).bind fun _ s' hs' => ?_
  · rintro _ s'' ⟨d, hs''⟩
    rcases Option.isSome_iff_exists.mp hs' with ⟨m, hm⟩
    refine ⟨m.put current.1 d, ?_, size_put_pos m current.1 d⟩
    rw [hs'', store, hm, Option.map_some]
  · refine (Leaves.state (D := fun _ s => I s) hs').bind fun a s hs => ?_
    refine ((Settles.ofKeeps (hentry.repeat_ _) hs).leaves.mono (fun _ _ h => h) fun _ _ => trivial).bind fun _ s hs => ?_
    refine (Leaves.state (D := fun a _ => I a) hs).bind fun a s ha => ?_
    rcases ha with ⟨m, hm, hpos⟩
    refine (Leaves.modify (D := fun _ _ => True) trivial).bind fun _ s _ => Leaves.pure ?_
    rw [hm]
    exact hpos

/-- Nothing is read while the number is known, no entry was begun, and none fits. -/
theorem untouched_collect (hb : b.length < 4) : Untouched b (collect f message now none) s :=
  (Untouched.modify _).bind fun _ _ => (Untouched.pure _).bind fun _ _ => Untouched.state.bind fun _ s =>
    (Untouched.repeat_ (fun _ => Untouched.need _ hb) _ s).bind fun _ _ => Untouched.state.bind fun _ _ =>
      (Untouched.modify _).bind fun _ _ => Untouched.pure _

theorem run_decode_known (hs : s.trackerDataSize ≠ -1#32) (b : Bytes) :
    (decode f message now).run s b = (collect f message now s.currentTrackerData).run s b := by
  rw [run_decode_eq]
  exact run_sized_known hs b

theorem byte_ne_minus_one {v : Bytes} (hv : v.length = 1) : BitVec.ofNat 32 (ofBE v) ≠ -1#32 := by
  intro h
  have hlt : ofBE v < 256 ^ v.length := ofBE_lt v
  rw [hv] at hlt
  have hval := congrArg BitVec.toNat h
  rw [BitVec.toNat_ofNat, Nat.mod_eq_of_lt (by omega)] at hval
  rw [hval] at hlt
  exact absurd hlt (by decide)

theorem keeps_decode : Keeps Tidy (decode f message now) := by
  have htidy (t : Decoding) (ht : t.trackerDataSize ≠ -1#32) : Tidy t := fun h => absurd h ht
  refine Settles.keeps fun s hs => ?_
  have hsized : Settles (sized Decoding.trackerDataSize (fun n s => { s with trackerDataSize := n }) 1
      (collect f message now s.currentTrackerData)) s (fun _ s' => Tidy s') Tidy := by
    refine settles_sized hs (fun hsize => (settles_collect hsize).mono (fun _ s' h _ => h) htidy) ?_
    intro hsize v hv
    rw [hs hsize]
    exact (settles_collect (s := { trackerDataSize := BitVec.ofNat 32 (ofBE v) }) (byte_ne_minus_one hv)).mono
      (fun _ s' h _ => h) htidy
  exact fun b => hsized b

end TrackerData

/-! ### Calls -/

namespace Decoder

variable {f : SignatureFactory} {ch : Channel} {now : BitVec 64} {d : Decoder}

/-- Of a map of bytes and of the data of trackers nothing is collected before the number of
    entries is known. -/
structure Tidy (d : Decoder) : Prop where
  keyMapByte : Collector.Tidy d.keyMapByte
  trackerData : TrackerData.Tidy d.trackerData

theorem tidy_new (messageId : BitVec 32) : Tidy (new messageId) := ⟨fun _ => rfl, fun _ => rfl⟩

theorem Tidy.prepareFinish (h : Tidy d) (messageId : BitVec 32) : Tidy (d.prepareFinish messageId).2 :=
  ⟨h.keyMapByte, h.trackerData⟩

/-- What is kept of another content is none of the two. -/
theorem keeps_part {σ α : Type} {p : Reader JavaException σ α} {get : Decoder → σ} {set : σ → Decoder → Decoder}
    {g : α → Payload} (hset : ∀ s d, Tidy d → Tidy (set s d)) : Keeps Tidy (g <$> zoom get set p) :=
  (Keeps.zoom (I := fun _ => True) (fun _ _ _ => trivial) (fun _ _ => trivial) fun s d _ hd => hset s d hd).bind
    fun _ => Keeps.pure _

theorem keeps_tidy_decodeContent (content : Content) : Keeps Tidy (decodeContent f now content) := by
  cases content with
  | SET_NEIGHBORS => exact keeps_part fun _ _ h => ⟨h.keyMapByte, h.trackerData⟩
  | SET_KEY640 => exact keeps_part fun _ _ h => ⟨h.keyMapByte, h.trackerData⟩
  | MAP_KEY640_KEYS => exact keeps_part fun _ _ h => ⟨h.keyMapByte, h.trackerData⟩
  | BYTE_BUFFER => exact keeps_part fun _ _ h => ⟨h.keyMapByte, h.trackerData⟩
  | MAP_KEY640_DATA => exact Keeps.state.bind fun _ => keeps_part fun _ _ h => ⟨h.keyMapByte, h.trackerData⟩
  | MAP_KEY640_BYTE =>
      exact (Keeps.zoom (Collector.keeps_decode KeyMapByte.steady KeyMapByte.create_minus_one)
        (fun _ h => h.keyMapByte) fun _ _ hs h => ⟨hs, h.trackerData⟩).bind fun _ => Keeps.pure _
  | SET_TRACKER_DATA =>
      exact Keeps.state.bind fun _ => (Keeps.zoom TrackerData.keeps_decode (fun _ h => h.trackerData)
        fun _ _ hs h => ⟨h.keyMapByte, hs⟩).bind fun _ => Keeps.pure _
  | _ => exact keeps_decodeContent (by decide) Tidy

theorem keeps_tidy_decodePayload (f : SignatureFactory) (now : BitVec 64) : Keeps Tidy (decodePayload f now) := by
  have hcontents (contentTypes : List Content) : Keeps Tidy (decodeContents f now contentTypes) := by
    induction contentTypes with
    | nil => exact Keeps.pure ()
    | cons content contentTypes ih =>
        exact (keeps_tidy_decodeContent content).bind fun _ => Keeps.state.bind fun _ => (Keeps.lift _).bind fun _ =>
          (Keeps.modify fun _ h => ⟨h.keyMapByte, h.trackerData⟩).bind fun _ => ih
  refine Keeps.state.bind fun d => ?_
  split
  · refine (hcontents d.contentTypes).bind fun _ => Keeps.state.bind fun e => ?_
    split
    · exact (Keeps.need _).bind fun _ => (Keeps.read _ _).bind fun _ =>
        Keeps.modify fun _ h => ⟨h.keyMapByte, h.trackerData⟩
    · exact Keeps.pure ()
  · exact Keeps.pure ()

theorem keeps_tidy_decodeHeader (ch : Channel) : Keeps Tidy (decodeHeader ch) := by
  have hzoom : Keeps Tidy (zoom Decoder.message (fun message d => { d with message })
      (MessageHeaderCodec.decodeHeader ch.recipient ch.sender)) :=
    Keeps.zoom (I := fun _ => True) (fun _ _ _ => trivial) (fun _ _ => trivial)
      fun _ _ _ h => ⟨h.keyMapByte, h.trackerData⟩
  refine (Keeps.need _).bind fun _ => Keeps.bind ?_ fun _ => Keeps.modify fun _ h => ⟨h.keyMapByte, h.trackerData⟩
  intro d b hd
  have hkept := hzoom d b hd
  rw [run_rewind]
  cases hrun : (zoom Decoder.message (fun message d => { d with message })
      (MessageHeaderCodec.decodeHeader ch.recipient ch.sender)).run d b <;> rwa [hrun] at hkept

/-- The signature is fed and verified beside what was read of the contents. -/
theorem Tidy.verifySignature (bytes : Bytes) (donePayload : Bool) (h : Tidy d) :
    Tidy (match Decoder.verifySignature f d bytes donePayload with
      | .ok e => e
      | .error (_, e) => e) := by
  unfold Decoder.verifySignature
  by_cases hsign : (d.message.isSign && !bytes.isEmpty) = true
  · rw [if_pos hsign]
    dsimp only
    generalize (if donePayload then bytes.length - f.signatureSize else bytes.length) = length
    cases feed f d (bytes.take length) with
    | error x => exact h
    | ok s =>
        cases donePayload with
        | false => exact ⟨h.keyMapByte, h.trackerData⟩
        | true =>
            dsimp only
            rw [if_pos rfl]
            cases verify f s d.message <;> exact ⟨h.keyMapByte, h.trackerData⟩
  · rw [if_neg hsign]
    exact h

theorem Tidy.close {buf rest : Bytes} {donePayload : Bool} (h : Tidy d) :
    Tidy (close f buf donePayload d rest).decoder := by
  have hverify := h.verifySignature (f := f) (buf.take (buf.length - rest.length)) donePayload
  unfold Decoder.close
  split <;> next hcase => rwa [hcase] at hverify

theorem Tidy.continued {buf rest : Bytes} (h : Tidy d) : Tidy (continued f now buf d rest).decoder := by
  unfold Decoder.continued
  have hkept := keeps_tidy_decodePayload f now d rest h
  cases hrun : (decodePayload f now).run d rest with
  | wait e r | done a e r =>
      rw [hrun] at hkept
      exact Tidy.close hkept
  | fail x e r =>
      rw [hrun] at hkept
      exact hkept

theorem Tidy.decode {buf : Bytes} (h : Tidy d) : Tidy (decode f ch now d buf).decoder := by
  cases hheader : d.headerDone with
  | true =>
      rw [decode_started hheader]
      exact h.continued
  | false =>
      rw [decode_header hheader]
      have hkept := keeps_tidy_decodeHeader ch d buf h
      cases hrun : (decodeHeader ch).run d buf with
      | wait e r | fail x e r =>
          rw [hrun] at hkept
          exact hkept
      | done a e r =>
          rw [hrun] at hkept
          exact Tidy.continued hkept

/-! ### Behaviour -/

/-- A piece arrives at a time, or the message is handed out and the next one gets an id. -/
inductive Call
  | decode (now : BitVec 64) (piece : Bytes)
  | prepareFinish (messageId : BitVec 32)
  deriving DecidableEq

/-- What is seen of a call. -/
inductive Seen
  | decoded (finished : Bool) (exception : Option JavaException) (message : Message) (rest : Bytes)
  | handedOut (message : Message)
  deriving DecidableEq

/-- A decoder with the bytes that it has not read. -/
abbrev Fed := Decoder × Bytes

/-- A call, in front of whose piece the bytes are that were not read. -/
def respond (f : SignatureFactory) (ch : Channel) (p : Fed) : Call → Fed × Seen
  | .decode now piece =>
      let decoded := Decoder.decode f ch now p.1 (p.2 ++ piece)
      ((decoded.decoder, decoded.rest),
        .decoded decoded.finished decoded.exception decoded.decoder.message decoded.rest)
  | .prepareFinish messageId =>
      (((p.1.prepareFinish messageId).2, p.2), .handedOut (p.1.prepareFinish messageId).1)

/-- What is seen of calls, one after the other. -/
def behaviour (f : SignatureFactory) (ch : Channel) : Fed → List Call → List Seen
  | _, [] => []
  | p, c :: cs => (respond f ch p c).2 :: behaviour f ch (respond f ch p c).1 cs

/-- The same is seen of two decoders, whatever arrives and on whatever channel. -/
def BehavesLike (f : SignatureFactory) (d e : Decoder) : Prop :=
  ∀ ch calls, behaviour f ch (d, []) calls = behaviour f ch (e, []) calls

/-- The states of a decoder that began as a new one. -/
def Reachable (f : SignatureFactory) (ch : Channel) : Fed → Prop :=
  Reached (fun p c => some (respond f ch p c).1) (fun _ _ => True) fun p => ∃ messageId, p = (new messageId, [])

theorem Tidy.respond {p : Fed} (h : Tidy p.1) (c : Call) : Tidy (respond f ch p c).1.1 := by
  cases c with
  | decode now piece => exact h.decode
  | prepareFinish messageId => exact h.prepareFinish messageId

theorem Reachable.tidy {p : Fed} (h : Reachable f ch p) : Tidy p.1 := by
  refine Reached.invariant (fun p => Tidy p.1) ?_ ?_ h
  · rintro p ⟨messageId, rfl⟩
    exact tidy_new messageId
  · rintro p c p' hp - hstep
    cases hstep
    exact hp.respond c

/-- What the reset forgets is not there: no key of a value was read, and no number of the
    entries of a map of bytes or of the data of trackers. -/
structure NothingPending (d : Decoder) : Prop where
  key : d.dataMap.key = none
  keyMapByte : d.keyMapByte.size = -1#32
  trackerData : d.trackerData.trackerDataSize = -1#32

/-- A reset is complete if nothing is pending. -/
theorem Tidy.prepareFinish_eq (h : Tidy d) (hpending : NothingPending d) (messageId : BitVec 32) :
    (d.prepareFinish messageId).2 = new messageId := by
  unfold Decoder.prepareFinish new
  rw [hpending.key, h.keyMapByte hpending.keyMapByte, h.trackerData hpending.trackerData]

/-! ### Messages that tell decoders apart -/

/-- The header of a message with one content of this type, from an address with a socket. -/
def headerOf (content : Content) : Bytes :=
  List.replicate 29 0 ++ (writeInt (BitVec.ofNat 32 content.ordinal) ++
    (List.replicate 3 0 ++ 1 :: List.replicate 30 0))

/-- The channel on which these messages arrive. -/
def channel : Channel := ⟨.v4 0 0, .v4 0 0, false⟩

/-- What is read of such a header. -/
def messageOf (content : Content) : Message := ((decodeHeader channel).run (new 0) (headerOf content)).state.message

/-- A message with one content is read from a buffer, up to the content. -/
structure ReadsHeader (content : Content) (message : Message) (buf tail : Bytes) : Prop where
  run : ∀ (d : Decoder) (messageId : BitVec 32), d.message = { messageId } → d.contentTypes = [] →
    (decodeHeader channel).run d buf =
      .done () { d with headerDone := true, contentTypes := [content], message } tail
  hasContent : message.hasContent = true
  isSign : message.isSign = false
  preset : message.presetContentTypes = true
  trackerDataList : message.trackerDataList = []

theorem readsHeader_keyMapByte : ReadsHeader .MAP_KEY640_BYTE (messageOf .MAP_KEY640_BYTE) (headerOf .MAP_KEY640_BYTE ++ [0, 0, 0, 0]) [0, 0, 0, 0] := by
  refine ⟨?_, rfl, rfl, rfl, rfl⟩
  rintro ⟨contentTypes, message, headerDone⟩ messageId hmessage htypes
  cases hmessage
  cases htypes
  rfl

theorem readsHeader_trackerData : ReadsHeader .SET_TRACKER_DATA (messageOf .SET_TRACKER_DATA) (headerOf .SET_TRACKER_DATA ++ [0]) [0] := by
  refine ⟨?_, rfl, rfl, rfl, rfl⟩
  rintro ⟨contentTypes, message, headerDone⟩ messageId hmessage htypes
  cases hmessage
  cases htypes
  rfl

theorem close_unsigned {buf rest : Bytes} (donePayload : Bool) (h : d.message.isSign = false) :
    close f buf donePayload d rest = ⟨donePayload, none, d, rest⟩ := by
  unfold close verifySignature
  rw [h]
  rfl

/-- A decoder that was reset, behind such a header. -/
def begun (d : Decoder) (messageId : BitVec 32) (content : Content) (message : Message) : Decoder :=
  { (d.prepareFinish messageId).2 with headerDone := true, contentTypes := [content], message }

/-- What reading its only content makes of a message. -/
def single (message : Message) : Outcome JavaException Decoder Payload → Decoded
  | .wait t r => ⟨false, none, t, r⟩
  | .fail e t r => ⟨true, some e, t, r⟩
  | .done p t r => ⟨true, none, { t with message := message.add p, contentTypes := [] }, r⟩

theorem single_rest (message : Message) (o : Outcome JavaException Decoder Payload) :
    (single message o).rest = o.rest := by
  cases o <;> rfl

/-- A message of one content comes to what reading the content comes to. -/
theorem decode_single {content : Content} {message : Message} {buf tail : Bytes} {messageId : BitVec 32}
    (h : ReadsHeader content message buf tail)
    (hadd : Gives (decodeContent f now content) fun p => (message.add p).isSign = false) :
    decode f channel now (d.prepareFinish messageId).2 buf =
      single message ((decodeContent f now content).run (begun d messageId content message) tail) := by
  have hcoherent : (begun d messageId content message).dataMap.Coherent :=
    fun hdata => absurd hdata Bool.false_ne_true
  rw [decode_header rfl, h.run _ messageId rfl rfl]
  change continued f now buf (begun d messageId content message) tail = _
  have hmessage : (begun d messageId content message).message = message := rfl
  have htypes : (begun d messageId content message).contentTypes = [content] := rfl
  unfold continued
  rw [decodePayload, run_bind, run_state, andThen_done, hmessage, if_pos h.hasContent, run_bind, htypes,
    decodeContents, run_bind]
  cases hrun : (decodeContent f now content).run (begun d messageId content message) tail with
  | wait t r =>
      have hsame := ((leaves_decodeContent content hcoherent).wait hrun).1.message
      exact close_unsigned false (by rw [hsame]; exact h.isSign)
  | fail e t r => rfl
  | done p t r =>
      have hsame := ((leaves_decodeContent content hcoherent).done hrun).message
      have hset : t.message.set p = .ok (message.add p) := by
        rw [hsame]
        exact if_pos h.preset
      have hsign := hadd _ _ _ _ _ hrun
      rw [andThen_done, run_bind, run_state, andThen_done, run_bind, hset, run_lift_ok,
        andThen_done, run_bind, run_modify, andThen_done, decodeContents, run_pure,
        andThen_done, run_bind, run_state, andThen_done, if_neg (by rw [hsign]; decide), run_pure]
      exact close_unsigned true hsign

/-- The call shows a difference. -/
theorem not_behavesLike {e : Decoder} (buf : Bytes) (h : ¬ (
    (decode f channel 0 d buf).finished = (decode f channel 0 e buf).finished ∧
    (decode f channel 0 d buf).exception = (decode f channel 0 e buf).exception ∧
    (decode f channel 0 d buf).decoder.message = (decode f channel 0 e buf).decoder.message ∧
    (decode f channel 0 d buf).rest = (decode f channel 0 e buf).rest)) : ¬ BehavesLike f d e := by
  intro hlike
  have hseen := hlike channel [.decode 0 buf]
  simp only [behaviour, respond, List.nil_append, List.cons.injEq, Seen.decoded.injEq, and_true] at hseen
  exact h hseen

/-- A map of bytes without entries shows that a number of entries is known. -/
theorem not_behavesLike_of_keyMapByte {messageId : BitVec 32} (h : d.keyMapByte.size ≠ -1#32) :
    ¬ BehavesLike f (d.prepareFinish messageId).2 (new messageId) := by
  refine not_behavesLike (headerOf .MAP_KEY640_BYTE ++ [0, 0, 0, 0]) fun ⟨_, _, _, hrest⟩ => ?_
  have hnew : (decode f channel 0 (new messageId) (headerOf .MAP_KEY640_BYTE ++ [0, 0, 0, 0])).rest = [] := rfl
  have hshort (s : Collecting KeyMapByte) : Untouched [0, 0, 0, 0] KeyMapByte.collector.element s :=
    Untouched.need _ (by decide)
  have huntouched : Untouched [0, 0, 0, 0] (decodeContent f 0 .MAP_KEY640_BYTE) 
      (begun d messageId .MAP_KEY640_BYTE (messageOf .MAP_KEY640_BYTE)) :=
    Untouched.map _ (Untouched.zoom (Collector.untouched_decode hshort h))
  have hadd : Gives (decodeContent f 0 .MAP_KEY640_BYTE)
      fun p => ((messageOf .MAP_KEY640_BYTE).add p).isSign = false :=
    Gives.map fun _ => readsHeader_keyMapByte.isSign
  rw [hnew, decode_single readsHeader_keyMapByte hadd, single_rest, huntouched] at hrest
  cases hrest

theorem run_decodeContent_trackerData (b : Bytes) :
    (decodeContent f now .SET_TRACKER_DATA).run d b = (Payload.trackerData <$> zoom Decoder.trackerData
      (fun s d => { d with trackerData := s }) (TrackerData.decode f d.signer now)).run d b := by
  rw [decodeContent, run_bind, run_state, andThen_done]

theorem untouched_trackerData {b : Bytes} (h : d.trackerData.trackerDataSize ≠ -1#32)
    (hcurrent : d.trackerData.currentTrackerData = none) (hb : b.length < 4) :
    Untouched b (decodeContent f now .SET_TRACKER_DATA) d := by
  have huntouched : Untouched b (TrackerData.decode f d.signer now) d.trackerData := by
    rw [Untouched, TrackerData.run_decode_known h, hcurrent]
    exact TrackerData.untouched_collect hb
  rw [Untouched, run_decodeContent_trackerData]
  exact Untouched.map Payload.trackerData (Untouched.zoom huntouched)

theorem leaves_trackerData {current : PeerAddress × Data} (h : d.trackerData.trackerDataSize ≠ -1#32)
    (hcurrent : d.trackerData.currentTrackerData = some current) :
    Leaves (decodeContent f now .SET_TRACKER_DATA) d (fun p _ => ∃ t, p = .trackerData t ∧ 0 < t.size)
      fun _ => True := by
  have hdecode : Leaves (TrackerData.decode f d.signer now) d.trackerData (fun t _ => 0 < t.size) fun _ => True := by
    have hcollect : Leaves (TrackerData.collect f d.signer now (some current)) d.trackerData
        (fun t _ => 0 < t.size) fun _ => True := TrackerData.leaves_collect_begun
    rw [← hcurrent] at hcollect
    exact ⟨fun hrun => hcollect.done ((TrackerData.run_decode_known h _).symm.trans hrun), fun _ => trivial⟩
  refine (Leaves.state (D := fun a e => a = d ∧ e = d) ⟨rfl, rfl⟩).bind fun _ _ ⟨ha, he⟩ => ?_
  rw [ha, he]
  refine Leaves.map ((Leaves.zoom _ _ hdecode).mono (fun t _ ⟨_, ht, _⟩ => ⟨t, rfl, ht⟩) fun _ _ => trivial)

/-- So does the data of trackers without entries. -/
theorem not_behavesLike_of_trackerData {messageId : BitVec 32} (h : d.trackerData.trackerDataSize ≠ -1#32) :
    ¬ BehavesLike f (d.prepareFinish messageId).2 (new messageId) := by
  refine not_behavesLike (headerOf .SET_TRACKER_DATA ++ [0]) fun ⟨hfinished, hexception, hmessage, hrest⟩ => ?_
  let e := begun d messageId .SET_TRACKER_DATA (messageOf .SET_TRACKER_DATA)
  have hadd : Gives (decodeContent f 0 .SET_TRACKER_DATA)
      fun p => ((messageOf .SET_TRACKER_DATA).add p).isSign = false :=
    Gives.skip fun _ => Gives.map fun _ => readsHeader_trackerData.isSign
  rw [decode_single readsHeader_trackerData hadd] at hfinished hexception hmessage hrest
  cases hcurrent : d.trackerData.currentTrackerData with
  | none =>
      -- No entry was begun, so not even the number is read.
      have huntouched : Untouched [0] (decodeContent f 0 .SET_TRACKER_DATA) e :=
        untouched_trackerData h hcurrent (by decide)
      rw [single_rest, huntouched] at hrest
      cases hrest
  | some current =>
      -- The entry that was begun is in the data, if the data is complete at all.
      have hleaves : Leaves (decodeContent f 0 .SET_TRACKER_DATA) e _ _ := leaves_trackerData h hcurrent
      cases hrun : (decodeContent f 0 .SET_TRACKER_DATA).run e [0] with
      | wait t r =>
          rw [hrun] at hfinished
          cases hfinished
      | fail x t r =>
          rw [hrun] at hexception
          cases hexception
      | done p t r =>
          rcases hleaves.done hrun with ⟨trackerData, hp, hpos⟩
          rw [hrun, hp] at hmessage
          have hlists := congrArg Message.trackerDataList hmessage
          have hsame : [trackerData] = [TrackerData.empty] := hlists
          cases hsame
          exact absurd hpos (by decide)

/-- A map of values whose only key is left out shows that a key was read. -/
theorem not_behavesLike_of_key {messageId : BitVec 32} {key : Number640} (h : d.dataMap.key = some key) :
    ¬ BehavesLike f (d.prepareFinish messageId).2 (new messageId) := by
  refine not_behavesLike (headerOf .MAP_KEY640_DATA ++ [0, 0, 0, 1, 0, 0]) fun ⟨hfinished, _⟩ => ?_
  have hnew : (decode f channel 0 (new messageId)
      (headerOf .MAP_KEY640_DATA ++ [0, 0, 0, 1, 0, 0])).finished = false := rfl
  have hkey : (decode f channel 0 { (d.prepareFinish messageId).2 with dataMap := { key := some key } }
      (headerOf .MAP_KEY640_DATA ++ [0, 0, 0, 1, 0, 0])).finished = true := rfl
  have hreset : (d.prepareFinish messageId).2 =
      { (d.prepareFinish messageId).2 with dataMap := { key := some key } } := by
    rw [prepareFinish, h]
  rw [hreset, hkey, hnew] at hfinished
  cases hfinished

/-- After a reset a decoder behaves like a new one if and only if nothing is pending. -/
theorem behavesLike_new_iff {p : Fed} (h : Reachable f ch p) (messageId : BitVec 32) :
    BehavesLike f (p.1.prepareFinish messageId).2 (new messageId) ↔ NothingPending p.1 := by
  constructor
  · intro hlike
    refine ⟨?_, ?_, ?_⟩
    · cases hkey : p.1.dataMap.key with
      | none => rfl
      | some key => exact absurd hlike (not_behavesLike_of_key hkey)
    · by_contra hsize
      exact not_behavesLike_of_keyMapByte hsize hlike
    · by_contra hsize
      exact not_behavesLike_of_trackerData hsize hlike
  · intro hpending ch calls
    rw [h.tidy.prepareFinish_eq hpending]

/-- A message with an empty map of bytes was read. -/
theorem behavesLike_new_iff_empty :
    BehavesLike .zeros (((respond .zeros channel (new 1, [])
      (.decode 0 (headerOf .MAP_KEY640_BYTE ++ [0, 0, 0, 0]))).1.1.prepareFinish 2).2) (new 2) :=
  (behavesLike_new_iff (show Reachable .zeros channel _ from .next (.start ⟨1, rfl⟩) trivial rfl) 2).mpr
    ⟨rfl, rfl, rfl⟩

/-- A message announced a map of bytes with minus two entries, which was an exception. The next
    message is read with that number. -/
theorem behaves_unlike_new :
    Reachable .zeros channel (respond .zeros channel (new 1, [])
      (.decode 0 (headerOf .MAP_KEY640_BYTE ++ [0xff, 0xff, 0xff, 0xfe]))).1 ∧
    (decode .zeros channel 0 (new 1) (headerOf .MAP_KEY640_BYTE ++ [0xff, 0xff, 0xff, 0xfe])).finished = true ∧
    ¬ BehavesLike .zeros ((respond .zeros channel (new 1, [])
      (.decode 0 (headerOf .MAP_KEY640_BYTE ++ [0xff, 0xff, 0xff, 0xfe]))).1.1.prepareFinish 2).2 (new 2) :=
  ⟨.next (.start ⟨1, rfl⟩) trivial rfl, rfl, not_behavesLike_of_keyMapByte (by decide)⟩

end Decoder

end TomP2P
