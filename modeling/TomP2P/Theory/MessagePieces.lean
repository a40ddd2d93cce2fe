import TomP2P.Theory.ArrivalTimes
import TomP2P.Theory.MessageReads

/-!
# Messages in Pieces

A connection hands a message out in pieces, and the decoder is called with what it has left and
the next one. Each call has its own time.

The decoder waits wherever a content is cut, and goes on as if all of the contents were there
again. What a call has read is fed to the signature when it ends. The key to verify with is the
first of the contents, and so a call that ends in the key has read the header and has no key to
begin the signature with. It throws an exception. Whatever else the pieces are, the message is
read as if it had come in one, and the bytes that were signed are the ones that are verified.

## Main definitions

* `Decoder.Pends`: What is known of a decoder that waits.
* `Written.Fed`, `Written.Amid`: A call whose header is there, and what it leaves.
* `Written.Awaits`: A decoder that waits for the rest of a message.
* `Decoder.calls`: Calls with one piece after the other.
* `Written.cutsKey`: Whether a piece ends in the key.

## Theorems

* `Decoder.pends_decodePayload`: Wherever the contents are cut, the decoder waits.
* `Written.Layout.decode_waits`, `Written.Layout.decode_throws`, `Written.Layout.decode_done`: What a call does.
* `Decoder.calls_written`: Messages in pieces.
-/

namespace TomP2P

open Wire Reader Outcome List

/-! ### Contents in pieces -/

/-- Whether a content may be cut depends on the message being signed, and not on its key. -/
theorem Payload.Cuttable.congr {f : SignatureFactory} {m : Message} {now : BitVec 64} {s s' : TrackerData.Signer} {p : Payload}
    (h : p.Cuttable f m now s) (hs : s.isSign = s'.isSign) : p.Cuttable f m now s' := by
  cases p with
  | dataMap x =>
      intro e he hsign
      exact h e he (hs.trans hsign)
  | _ => exact h

/-- No content that is read brings a private key. -/
def Payload.IsRead : Payload → Prop
  | .publicKeyAndSign _ _ => False
  | _ => True

namespace Decoder

variable {f : SignatureFactory} {now now' : BitVec 64} {m : Message} {d : Decoder}

/-- What follows the contents. -/
def decodeEnd (f : SignatureFactory) : Reader JavaException Decoder Unit := do
  let d ← state
  if d.message.isSign then decodeReceivedSignature f else pure ()

theorem run_decodePayload_content (h : d.message.hasContent = true) (b : Bytes) :
    (decodePayload f now').run d b = (decodeContents f now' d.contentTypes >>= fun _ => decodeEnd f).run d b := by
  rw [decodePayload, run_bind, run_state, andThen_done, if_pos h]
  rfl

/-- On the bytes `y` of contents the decoder waits. It has `n` of the contents, and goes on as if
    all of `y` were there again. -/
structure Pends (f : SignatureFactory) (m : Message) (now now' : BitVec 64) (ps : List Payload) (vs : List Bytes) (d : Decoder)
    (y : Bytes) (n : Nat) (t : Decoder) (u : Bytes) : Prop where
  waits : (decodePayload f now').run d y = .wait t u
  resumes : ∀ x, (decodePayload f now').run t (u ++ x) = (decodePayload f now').run d (y ++ x)
  message : t.message = (ps.take n).foldl (m.receive f now now') d.message
  contentTypes : t.contentTypes = (ps.drop n).map Payload.content
  length_le : y.length ≤ vs.flatten.length + u.length
  first : n = 0 ↔ ∀ v ∈ vs.head?, y.length < v.length

/-- Behind a content the decoder goes on with the next one. -/
theorem run_decodePayload_cons (now' : BitVec 64) {p : Payload} {v : Bytes} {contentTypes : List Content} (hd : d.Ready)
    (hhas : d.message.hasContent = true) (hpreset : d.message.presetContentTypes = true)
    (htypes : d.contentTypes = p.content :: contentTypes) (hp : p.Sendable f m now)
    (hv : Encoder.encodeContent f now m p = .ok v) (r : Bytes) :
    (decodePayload f now').run d (v ++ r) =
      (decodePayload f now').run { d with message := m.receive f now now' d.message p, contentTypes } r := by
  have hset : d.message.set (p.arrived f m now now' d.signer) = .ok (m.receive f now now' d.message p) := by
    rw [Message.set, if_pos hpreset]
    rfl
  have hhas' : (m.receive f now now' d.message p).hasContent = true := by
    rw [← hhas]
    cases p <;> rfl
  rw [run_decodePayload_content hhas, run_decodePayload_content hhas', htypes, run_bind, decodeContents, run_bind,
    takes_decodeContent hd hp hv, andThen_done, run_bind, run_state, andThen_done, run_bind, hset,
    run_lift_ok, andThen_done, run_bind, run_modify, andThen_done, run_bind]

/-- In front of its signature the decoder waits for all of it. -/
theorem pends_signature (hhas : d.message.hasContent = true) (htypes : d.contentTypes = []) (hsign : d.message.isSign = true)
    {y : Bytes} (hy : y.length < f.signatureSize) : Pends f m now now' [] [] d y 0 d y where
  waits := by
    rw [run_decodePayload_content hhas, htypes, decodeContents, run_bind, run_pure, andThen_done, decodeEnd, run_bind,
      run_state, andThen_done, if_pos hsign, decodeReceivedSignature, run_bind, run_need_of_lt _ _ _ hy,
      andThen_wait]
  resumes _ := rfl
  message := rfl
  contentTypes := htypes
  length_le := Nat.le_add_left _ _
  first := by simp

/-- Wherever contents and a signature are cut, the decoder waits. -/
theorem pends_decodePayload {ps : List Payload} {vs : List Bytes} (hd : d.Ready) (hhas : d.message.hasContent = true)
    (hpreset : d.message.presetContentTypes = true) (htypes : d.contentTypes = ps.map Payload.content)
    (hps : ∀ p ∈ ps, p.Sendable f m now ∧ p.Cuttable f m now d.signer)
    (hvs : List.Forall₂ (fun p v => Encoder.encodeContent f now m p = .ok v) ps vs) {sig : Bytes}
    (hsig : sig.length = if d.message.isSign then f.signatureSize else 0) {y c : Bytes} (hc : c ≠ [])
    (hy : vs.flatten ++ sig = y ++ c) : ∃ n t u, Pends f m now now' ps vs d y n t u := by
  have hpos := length_pos_of_ne_nil hc
  induction hvs generalizing d y with
  | nil =>
      have hlen := congrArg List.length hy
      rw [flatten_nil, nil_append, length_append] at hlen
      by_cases hsign : d.message.isSign = true
      · rw [if_pos hsign] at hsig
        exact ⟨0, d, y, pends_signature hhas htypes hsign (by omega)⟩
      · rw [if_neg hsign] at hsig
        omega
  | @cons p v ps vs hv hvs ih =>
      have hp := hps p mem_cons_self
      rw [flatten_cons, append_assoc] at hy
      rcases cut_append hy with ⟨c', hc', hfirst⟩ | ⟨y', rfl, hrest⟩
      · -- The content is cut.
        rcases (reads_decodeContent hd hp.1 hp.2 hv).starves y c' hc' hfirst with ⟨t, u, hwait, hgo⟩
        have hcoherent : d.dataMap.Coherent := by
          rw [hd.dataMap]
          exact (resumable_new 0 (f := f)).coherent
        have hframe := ((leaves_decodeContent p.content hcoherent).wait hwait).1
        have hlen : y.length < v.length := by
          have hpos' := length_pos_of_ne_nil hc'
          rw [hfirst, length_append]
          omega
        refine ⟨0, t, u, ?_, ?_, hframe.message, hframe.contentTypes.trans htypes, ?_, ?_⟩
        · rw [run_decodePayload_content hhas, htypes, map_cons, run_bind, decodeContents, run_bind, hwait,
            andThen_wait, andThen_wait]
        · intro x
          rw [run_decodePayload_content hhas, run_decodePayload_content (hframe.message ▸ hhas), hframe.contentTypes, htypes,
            map_cons, run_bind, run_bind, decodeContents, run_bind, run_bind, hgo trivial x]
        · rw [flatten_cons, length_append]
          omega
        · simpa using hlen
      · -- The content is there, and what follows it is cut.
        have hrun := run_decodePayload_cons now' hd hhas hpreset htypes hp.1 hv
        have hsame : (m.receive f now now' d.message p).isSign = d.message.isSign := by cases p <;> rfl
        have hkept : (m.receive f now now' d.message p).hasContent = d.message.hasContent := by cases p <;> rfl
        have hpre : (m.receive f now now' d.message p).presetContentTypes = d.message.presetContentTypes := by cases p <;> rfl
        rcases ih (d := { d with message := m.receive f now now' d.message p, contentTypes := ps.map Payload.content })
          (hd.with _ _) (hkept.trans hhas) (hpre.trans hpreset) rfl
          (fun q hq => ⟨(hps q (mem_cons_of_mem p hq)).1, (hps q (mem_cons_of_mem p hq)).2.congr hsame.symm⟩)
          (hsig.trans (by rw [← hsame])) hrest with ⟨n, t, u, hpends⟩
        refine ⟨n + 1, t, u, ?_, ?_, ?_, ?_, ?_, ?_⟩
        · rw [hrun, hpends.waits]
        · intro x
          rw [append_assoc, hrun, hpends.resumes]
        · rw [hpends.message, take_succ_cons, foldl_cons]
        · rw [hpends.contentTypes, drop_succ_cons]
        · have hle := hpends.length_le
          rw [flatten_cons, length_append, length_append]
          omega
        · simp

theorem yields_decodePublicKey (content : Content) : Yields Payload.IsRead (decodePublicKey f content) := by
  refine Yields.bind fun receivedPublicKey => ?_
  cases receivedPublicKey with
  | none => exact Yields.ite (Yields.bind fun _ => Yields.wait) Yields.wait
  | some k => exact Yields.ite (Yields.bind fun _ => Yields.pure trivial) (Yields.pure trivial)

theorem yields_decodeContent (content : Content) : Yields Payload.IsRead (decodeContent f now content) := by
  cases content with
  | EMPTY => exact Yields.wait
  | INTEGER | LONG | KEY => exact Yields.bind fun _ => Yields.map fun _ => trivial
  | BLOOM_FILTER => exact Yields.bind fun _ => Yields.bind fun _ => Yields.bind fun _ => Yields.map fun _ => trivial
  | PEER_SOCKET4 => exact Yields.bind fun _ => Yields.map fun _ => trivial
  | PEER_SOCKET6 => exact Yields.bind fun _ => Yields.map fun _ => trivial
  | MAP_KEY640_DATA => exact Yields.bind fun _ => Yields.map fun _ => trivial
  | SET_TRACKER_DATA => exact Yields.bind fun _ => Yields.map fun _ => trivial
  | PUBLIC_KEY => exact yields_decodePublicKey .PUBLIC_KEY
  | PUBLIC_KEY_SIGNATURE => exact yields_decodePublicKey .PUBLIC_KEY_SIGNATURE
  | _ => exact Yields.map fun _ => trivial

/-- What holds of the message is kept by contents that are read, if each of them keeps it. Neither
    what was fed to the signature nor the mark of the header is touched. -/
theorem keeps_decodeContents (f : SignatureFactory) (now : BitVec 64) (S : Option Signature) {J : Message → Prop}
    (hset : ∀ m p m', J m → p.IsRead → m.set p = .ok m' → J m') (contentTypes : List Content) :
    Keeps (fun d => d.signature = S ∧ d.headerDone = true ∧ J d.message) (decodeContents f now contentTypes) := by
  let I (d : Decoder) : Prop := d.signature = S ∧ d.headerDone = true ∧ J d.message
  have hpart {σ α : Type} {p : Reader JavaException σ α} {get : Decoder → σ} {set : σ → Decoder → Decoder}
      {g : α → Payload} (hset : ∀ s d, I d → I (set s d)) : Keeps I (g <$> zoom get set p) :=
    (Keeps.zoom (I := fun _ => True) (fun _ _ _ => trivial) (fun _ _ => trivial) fun s d _ hd => hset s d hd).bind
      fun _ => Keeps.pure _
  have hcontent (content : Content) : Keeps I (decodeContent f now content) := by
    cases content with
    | SET_NEIGHBORS => exact hpart fun _ _ h => h
    | SET_KEY640 => exact hpart fun _ _ h => h
    | MAP_KEY640_KEYS => exact hpart fun _ _ h => h
    | BYTE_BUFFER => exact hpart fun _ _ h => h
    | MAP_KEY640_BYTE => exact hpart fun _ _ h => h
    | MAP_KEY640_DATA => exact Keeps.state.bind fun _ => hpart fun _ _ h => h
    | SET_TRACKER_DATA => exact Keeps.state.bind fun _ => hpart fun _ _ h => h
    | _ => exact keeps_decodeContent (by decide) I
  induction contentTypes with
  | nil => exact Keeps.pure ()
  | cons content contentTypes ih =>
      refine (hcontent content).bindYields (yields_decodeContent content) fun p hp => ?_
      exact Keeps.update (fun d m hd hm => ⟨hd.1, hd.2.1, hset d.message p m hd.2.2 hp hm⟩) ih

/-- The signature that is read has to keep it as well. -/
theorem keeps_decodePayload (f : SignatureFactory) (now : BitVec 64) (S : Option Signature) {J : Message → Prop}
    (hset : ∀ m p m', J m → p.IsRead → m.set p = .ok m' → J m') (hsign : ∀ m s, J m → J { m with signatureEncode := s }) :
    Keeps (fun d => d.signature = S ∧ d.headerDone = true ∧ J d.message) (decodePayload f now) := by
  refine Keeps.state.bind fun d => ?_
  split
  · refine (keeps_decodeContents f now S hset d.contentTypes).bind fun _ => Keeps.state.bind fun e => ?_
    split
    · exact (Keeps.need _).bind fun _ => (Keeps.read _ _).bind fun _ =>
        Keeps.modify fun d h => ⟨h.1, h.2.1, hsign d.message _ h.2.2⟩
    · exact Keeps.pure ()
  · exact Keeps.pure ()

end Decoder

/-! ### Messages in pieces -/

namespace Written

variable {f : SignatureFactory} {ch : Channel} (w : Written f ch)

/-- Whether the first content is a key to verify with. -/
def isSigned : Bool := (w.contents.map Payload.content).contains .PUBLIC_KEY_SIGNATURE

/-- The bytes of the header. -/
def header : Bytes := (MessageHeaderCodec.encodeHeader w.message).toOption.getD []

/-- The bytes of the key to verify with, if there is one. -/
def key : Bytes :=
  match w.contents with
  | .publicKeyAndSign k _ :: _ => (f.encodePublicKey (some k)).toOption.getD []
  | _ => []

/-- All contents may be cut. -/
def Cuttable : Prop := ∀ p ∈ w.contents, p.Cuttable f w.message w.now ⟨w.isSigned, none⟩

/-- The algorithm can begin with the key of the message, if it is signed. -/
def Supported : Prop :=
  w.isSigned = true → ∀ data, (w.received 0).publicKey 0 = some (.encoded data) → f.initVerify data = .ok ()

/-- How the bytes of a message are made up. -/
structure Layout (vs : List Bytes) (sig : Bytes) : Prop where
  header : MessageHeaderCodec.encodeHeader w.message = .ok w.header
  contents : List.Forall₂ (fun p v => Encoder.encodeContent f w.now w.message p = .ok v) w.contents vs
  bytes : w.bytes = w.header ++ (vs.flatten ++ sig)
  signature : sig.length = if w.isSigned then f.signatureSize else 0

theorem exists_layout (hf : f.Lawful) : ∃ vs sig, w.Layout vs sig := by
  rcases w.parts hf with ⟨header, vs, hheader, hvs, hbytes⟩
  have hsame : w.header = header := by
    rw [Written.header, hheader]
    rfl
  by_cases hkey : .PUBLIC_KEY_SIGNATURE ∈ w.contents.map Payload.content
  · rw [if_pos hkey] at hbytes
    rcases hbytes with ⟨s, hlen, hbytes⟩
    have hsigned : w.isSigned = true := contains_iff_mem.mpr hkey
    exact ⟨vs, s.wire, hsame ▸ hheader, hvs, by rw [hsame, hbytes, append_assoc], by rw [if_pos hsigned, hlen]⟩
  · rw [if_neg hkey] at hbytes
    have hsigned : ¬ w.isSigned = true := fun h => hkey (contains_iff_mem.mp h)
    exact ⟨vs, [], hsame ▸ hheader, hvs, by rw [hsame, hbytes, append_nil], by rw [if_neg hsigned]; rfl⟩

variable {w} {vs : List Bytes} {sig : Bytes}

theorem Layout.header_length (L : w.Layout vs sig) : 0 < w.header.length := by
  rcases MessageHeaderCodec.encodeHeader_ok L.header with ⟨type, recipient, a, u, -, -, -, -, hv⟩
  rw [hv, length_append, MessageHeaderCodec.length_fields, MessageHeaderCodec.HEADER_SIZE_STATIC]
  omega

/-- The key of a signed message is its first content. -/
theorem Layout.signed (L : w.Layout vs sig) (h : w.isSigned = true) :
    ∃ data privateKey ps vs', w.contents = .publicKeyAndSign (.encoded data) privateKey :: ps ∧ vs = w.key :: vs' := by
  rcases Decoder.signed_first w.holds.sign_first (contains_iff_mem.mp h) L.contents with
    ⟨data, privateKey, ps, v, vs', hcontents, rfl, hk⟩
  have hkey : w.key = v := by
    rw [key, hcontents]
    change (f.encodePublicKey (some (.encoded data))).toOption.getD [] = v
    rw [hk]
    rfl
  exact ⟨data, privateKey, ps, vs', hcontents, by rw [hkey]⟩

theorem key_unsigned (h : ¬ w.isSigned = true) : w.key = [] := by
  unfold key
  split
  · next hcontents =>
      refine absurd (contains_iff_mem.mpr ?_) h
      rw [hcontents]
      exact mem_cons_self
  · rfl

end Written

namespace Decoder

variable {f : SignatureFactory} {d : Decoder}

def timeless (d : Decoder) : Decoder := { d with message := d.message.timeless, dataMap := d.dataMap.timeless }

def Decoded.timeless (r : Decoded) : Decoded := { r with decoder := r.decoder.timeless }

theorem keeps_signature (now : BitVec 64) (b : Bytes) (hd : d.headerDone = true) :
    ((decodePayload f now).run d b).state.signature = d.signature ∧ ((decodePayload f now).run d b).state.headerDone = true :=
  have h := keeps_decodePayload f now d.signature (J := fun _ => True) (fun _ _ _ _ _ _ => trivial) (fun _ _ _ => trivial) d b
    ⟨rfl, hd, trivial⟩
  ⟨h.1, h.2.1⟩

end Decoder

namespace Written

variable {f : SignatureFactory} {ch : Channel} {w : Written f ch} {vs : List Bytes} {sig : Bytes}

/-- What has arrived behind the header and the first `n` contents. -/
theorem isSign_take (now' : BitVec 64) (n : Nat) :
    (w.message.received f ch w.sender w.now now' (w.contents.take n)).isSign = w.isSigned := by
  have hall : (w.received now').isSign = w.isSigned := by
    rw [Bool.eq_iff_iff, isSigned, contains_iff_mem]
    exact Decoder.isSign_received_iff w.holds.contentTypes
  have hwhole : (w.received now').isSign = _ := Message.isSign_received w.contents
  exact (Message.isSign_received (w.contents.take n)).trans (hwhole.symm.trans hall)

/-- The decoder behind the header. -/
def headed (w : Written f ch) (messageId : BitVec 32) : Decoder := Decoder.headed ch w.message w.sender (.new messageId)

/-- The signature that was fed with the bytes `pre` of a message. -/
def fed (w : Written f ch) (pre : Bytes) : Option Signature :=
  if w.isSigned then ((w.received 0).publicKey 0).map fun k => ⟨k, pre⟩ else none

/-- A call reads the bytes `inp` of its buffer as contents. All in all, the bytes `y` of the
    contents have come. The bytes `pre` were read in the calls before. -/
structure Fed (w : Written f ch) (messageId : BitVec 32) (vs : List Bytes) (pre buf inp y : Bytes) (d : Decoder) : Prop where
  whole : pre ++ buf = w.header ++ y
  part : inp <:+ buf
  progress : pre = [] → inp.length < buf.length
  more : pre.length < w.bytes.length
  long : y.length ≤ vs.flatten.length + buf.length
  runs : (Decoder.decodePayload f 0).run d.plain inp = (Decoder.decodePayload f 0).run (w.headed messageId) y
  types : .SET_TRACKER_DATA ∉ d.contentTypes
  headerDone : d.headerDone = true
  signature : d.signature = if pre = [] then none else w.fed pre

/-- The decoder waits behind the bytes `y` of the contents, of which `u` are not read. The bytes `c`
    are to come. -/
structure Amid (w : Written f ch) (messageId : BitVec 32) (vs : List Bytes) (sig pre y u c : Bytes) (d : Decoder) : Prop where
  whole : pre ++ u = w.header ++ y
  cut : vs.flatten ++ sig = y ++ c
  left : c ≠ []
  begun : pre ≠ []
  key : w.key.length ≤ y.length
  long : y.length ≤ vs.flatten.length + u.length
  resumes : ∀ x, (Decoder.decodePayload f 0).run d.plain (u ++ x) = (Decoder.decodePayload f 0).run (w.headed messageId) (y ++ x)
  types : .SET_TRACKER_DATA ∉ d.contentTypes
  headerDone : d.headerDone = true
  signature : d.signature = w.fed pre
  id : d.message.messageId = w.message.messageId
  options : d.message.options = w.message.options

variable {messageId : BitVec 32} {pre buf inp y u c rest : Bytes} {d : Decoder} {now : BitVec 64}

theorem plain_headed : (w.headed messageId).plain = w.headed messageId := rfl

theorem contentTypes_headed : (w.headed messageId).contentTypes = w.contents.map Payload.content := by
  change [] ++ Decoder.queued w.message.contentTypes = _
  rw [w.holds.contentTypes, Decoder.queued_entered (Decoder.empty_not_mem w.contents)]
  rfl

/-- The next piece is read with what was left. -/
theorem Amid.fed (L : w.Layout vs sig) (h : w.Amid messageId vs sig pre y u c d) (z : Bytes) :
    w.Fed messageId vs pre (u ++ z) (u ++ z) (y ++ z) d where
  whole := by rw [← append_assoc, h.whole, append_assoc]
  part := suffix_refl _
  progress hpre := absurd hpre h.begun
  more := by
    have hpos := length_pos_of_ne_nil h.left
    have hlen := congrArg List.length h.whole
    rw [L.bytes, h.cut]
    simp only [length_append] at hlen ⊢
    omega
  long := by
    have hlong := h.long
    simp only [length_append]
    omega
  runs := h.resumes z
  types := h.types
  headerDone := h.headerDone
  signature := by rw [if_neg h.begun, h.signature]

/-- What is to come holds no data of trackers. -/
theorem Cuttable.types (h : w.Cuttable) : .SET_TRACKER_DATA ∉ w.contents.map Payload.content := by
  intro hmem
  rcases mem_map.mp hmem with ⟨p, hp, hcontent⟩
  have hcut := h p hp
  cases p with
  | trackerData t => exact hcut
  | _ => cases hcontent

variable (hf : f.Lawful) (L : w.Layout vs sig) (hcut : w.Cuttable)

include L

/-- The key of a signed message has come once its first content has. -/
theorem Layout.publicKey (h : w.isSigned = true) : ∃ data, (w.received 0).publicKey 0 = some (.encoded data) ∧
    ∀ n, 0 < n → (w.message.received f ch w.sender w.now 0 (w.contents.take n)).publicKey 0 = some (.encoded data) := by
  rcases L.signed h with ⟨data, privateKey, ps, vs', hcontents, _⟩
  refine ⟨data, ?_, fun n hn => ?_⟩
  · rw [Written.received, hcontents]
    exact Message.publicKey_received ps
  · rcases n with _ | n
    · omega
    · rw [hcontents, take_succ_cons]
      exact Message.publicKey_received _

theorem Layout.pends (messageId : BitVec 32) (hcut : w.Cuttable) (hc : c ≠ []) (hy : vs.flatten ++ sig = y ++ c) :
    ∃ n t u, Decoder.Pends f w.message w.now 0 w.contents vs (w.headed messageId) y n t u := by
  have hsign : (w.headed messageId).message.isSign = w.isSigned := isSign_take 0 0
  have hhas : (w.headed messageId).message.hasContent = true := by
    have hnonempty : w.contents ≠ [] := by
      intro hnil
      have hvs := L.contents
      have hunsigned : w.isSigned = false := by rw [isSigned, hnil]; rfl
      have hsig := L.signature
      rw [hnil] at hvs
      cases hvs
      rw [hunsigned] at hsig
      have hlen := congrArg List.length hy
      have hpos := length_pos_of_ne_nil hc
      simp only [flatten_nil, nil_append, length_append, hsig] at hlen
      simp at hlen
      omega
    have hreceived : (w.received 0).hasContent = true :=
      (Decoder.hasContent_received_iff w.holds.contentTypes w.fits.contentTypes).mpr hnonempty
    rw [Written.received, Message.hasContent_received] at hreceived
    exact hreceived
  refine Decoder.pends_decodePayload ⟨rfl, rfl, rfl, rfl, rfl, rfl, rfl⟩ hhas rfl contentTypes_headed (fun p hp => ⟨w.sendable p hp, ?_⟩) L.contents
    (by rw [hsign]; exact L.signature) hc hy
  exact (hcut p hp).congr hsign.symm

/-- The bytes that a call has read are fed to the signature. -/
theorem Layout.verifySignature_read (hsupported : w.Supported) {e : Decoder} {l : Bytes} (hsign : e.message.isSign = w.isSigned)
    (hsig : e.signature = if pre = [] then none else w.fed pre) (hbegun : pre ++ l ≠ [])
    (hpub : w.isSigned = true → e.message.publicKey 0 = (w.received 0).publicKey 0) :
    Decoder.verifySignature f e l false = .ok { e with signature := w.fed (pre ++ l) } := by
  rw [Decoder.verifySignature, hsign]
  by_cases hsigned : w.isSigned = true
  · rcases L.publicKey hsigned with ⟨data, hdata, _⟩
    have hfed (bytes : Bytes) : w.fed bytes = some ⟨.encoded data, bytes⟩ := by
      rw [Written.fed, if_pos hsigned, hdata]
      rfl
    by_cases hl : l = []
    · subst hl
      rw [append_nil] at hbegun ⊢
      rw [if_neg hbegun] at hsig
      rw [if_neg (by simp), ← hsig]
    · rw [if_pos (by simp [hsigned, hl]), hfed]
      rw [hfed] at hsig
      have hfeed : Decoder.feed f e l = _ :=
        Decoder.feed_ok hsig (fun _ => (hpub hsigned).trans hdata) fun _ => hsupported hsigned data hdata
      simp only [Bool.false_eq_true, if_false, take_length, hfeed]
  · have hfed (bytes : Bytes) : w.fed bytes = none := by rw [Written.fed, if_neg hsigned]
    rw [hfed, ite_self] at hsig
    rw [if_neg (by simp [hsigned]), hfed, ← hsig]

omit L in
/-- A call reads the contents from a part of its buffer, whenever it is made. -/
theorem Fed.run (h : w.Fed messageId vs pre buf inp y d) (now : BitVec 64) :
    ∃ l, buf = l ++ ((Decoder.decodePayload f now).run d inp).rest ∧
      ((Decoder.decodePayload f now).run d inp).view Decoder.plain id = (Decoder.decodePayload f 0).run (w.headed messageId) y ∧
      ((Decoder.decodePayload f now).run d inp).state.signature = (if pre = [] then none else w.fed pre) ∧
      ((Decoder.decodePayload f now).run d inp).state.headerDone = true := by
  have hkeeps := Decoder.keeps_signature (f := f) now inp h.headerDone
  rcases ((Decoder.decodePayload f now).suffix d inp).trans h.part with ⟨l, hl⟩
  refine ⟨l, hl.symm, ?_, hkeeps.1.trans h.signature, hkeeps.2⟩
  rw [← Decoder.run_decodePayload_plain now h.types, h.runs]

omit L in
/-- A call that waits has read something, as the header if it is the first one. -/
theorem Fed.waits (h : w.Fed messageId vs pre buf inp y d) (now : BitVec 64) {t : Decoder}
    (hwaits : (Decoder.decodePayload f 0).run (w.headed messageId) y = .wait t u) :
    ∃ e l, buf = l ++ u ∧ pre ++ l ≠ [] ∧ Decoder.continued f now buf d inp = Decoder.close f (l ++ u) false e u ∧ e.plain = t ∧
      e.signature = (if pre = [] then none else w.fed pre) ∧ e.headerDone = true := by
  rcases h.run now with ⟨l, hl, hview, hsignature, hdone⟩
  have hsuffix := (Decoder.decodePayload f now).suffix d inp
  rcases Outcome.view_eq_wait (hview.trans hwaits) with ⟨e, hrun, rfl⟩
  rw [hrun] at hl hsignature hdone hsuffix
  change buf = l ++ u at hl
  refine ⟨e, l, hl, ?_, by rw [Decoder.continued, hrun, ← hl], rfl, hsignature, hdone⟩
  intro hnil
  rw [append_eq_nil_iff] at hnil
  have hprogress := h.progress hnil.1
  have hle : u.length ≤ inp.length := hsuffix.length_le
  rw [hl, hnil.2, nil_append] at hprogress
  omega

/-- A call that does not have the whole message waits, unless it ends in the key. -/
theorem Layout.continued_waits (hsupported : w.Supported) (now : BitVec 64) (hcut : w.Cuttable) (h : w.Fed messageId vs pre buf inp y d) (hc : c ≠ [])
    (hy : vs.flatten ++ sig = y ++ c) (hkey : w.key.length ≤ y.length) :
    ∃ e u pre', Decoder.continued f now buf d inp = ⟨false, none, e, u⟩ ∧ w.Amid messageId vs sig pre' y u c e := by
  rcases L.pends messageId hcut hc hy with ⟨n, t, u, hpends⟩
  rcases h.waits now hpends.waits with ⟨e, l, rfl, hbegun, hcontinued, rfl, hsignature, hdone⟩
  have hsign : e.message.isSign = w.isSigned := (congrArg Message.isSign hpends.message).trans (isSign_take 0 n)
  have hpub : w.isSigned = true → e.message.publicKey 0 = (w.received 0).publicKey 0 := by
    intro hsigned
    rcases L.publicKey hsigned with ⟨data, hdata, htake⟩
    rcases L.signed hsigned with ⟨_, _, _, vs', _, rfl⟩
    have hn : 0 < n := by
      refine Nat.pos_of_ne_zero fun hzero => ?_
      have hlt := hpends.first.mp hzero w.key rfl
      omega
    rw [hdata, ← htake n hn]
    change e.plain.message.publicKey 0 = _
    rw [hpends.message]
    rfl
  have hread := L.verifySignature_read hsupported hsign hsignature hbegun hpub
  have hkept {β : Type} (g : Message → β) (hg : ∀ r p, g (w.message.receive f w.now 0 r p) = g r)
      (hplain : g e.plain.message = g e.message) : g e.message = g (w.headed messageId).message := by
    rw [← hplain, hpends.message]
    exact Message.foldl_receive g hg _ _
  refine ⟨{ e with signature := w.fed (pre ++ l) }, u, pre ++ l, by rw [hcontinued, Decoder.close, Decoder.take_read, hread], ?_⟩
  exact
    { whole := by rw [append_assoc, h.whole]
      cut := hy
      left := hc
      begun := hbegun
      key := hkey
      long := hpends.length_le
      resumes := hpends.resumes
      types := by
        intro hmem
        have htypes : e.contentTypes = (w.contents.drop n).map Payload.content := hpends.contentTypes
        rw [htypes, map_drop] at hmem
        exact hcut.types (mem_of_mem_drop hmem)
      headerDone := hdone
      signature := rfl
      id := hkept Message.messageId (fun r p => by cases p <;> rfl) rfl
      options := hkept Message.options (fun r p => by cases p <;> rfl) rfl }

/-- A first call that ends in the key throws an exception, as the signature cannot be begun. -/
theorem Layout.continued_throws (now : BitVec 64) (hcut : w.Cuttable) (h : w.Fed messageId vs [] buf inp y d) (hc : c ≠ [])
    (hy : vs.flatten ++ sig = y ++ c) (hkey : y.length < w.key.length) :
    (Decoder.continued f now buf d inp).finished = true ∧
      (Decoder.continued f now buf d inp).exception = some (.invalidKey "No installed provider supports this key: (null)") := by
  have hsigned : w.isSigned = true := by
    by_contra hno
    rw [key_unsigned hno] at hkey
    exact absurd hkey (Nat.not_lt_zero _)
  rcases L.pends messageId hcut hc hy with ⟨n, t, u, hpends⟩
  have hn : n = 0 := by
    rcases L.signed hsigned with ⟨_, _, _, vs', _, rfl⟩
    exact hpends.first.mpr (by simpa using hkey)
  subst hn
  rcases h.waits now hpends.waits with ⟨e, l, rfl, hl, hcontinued, rfl, hsignature, _⟩
  have hsign : e.message.isSign = w.isSigned := (congrArg Message.isSign hpends.message).trans (isSign_take 0 0)
  have hnone : e.message.publicKey 0 = none := by
    change e.plain.message.publicKey 0 = none
    rw [hpends.message]
    rfl
  have hfeed : Decoder.feed f e l = .error (.invalidKey "No installed provider supports this key: (null)") := by
    rw [Decoder.feed, hsignature]
    change f.update (e.message.publicKey 0) l = _
    rw [hnone]
    rfl
  have hclose : Decoder.close f (l ++ u) false e u =
      ⟨true, some (.invalidKey "No installed provider supports this key: (null)"), e, u⟩ := by
    rw [nil_append] at hl
    rw [Decoder.close, Decoder.take_read, Decoder.verifySignature, hsign, if_pos (by simp [hsigned, hl])]
    simp only [Bool.false_eq_true, if_false, take_length, hfeed]
  rw [hcontinued, hclose]
  exact ⟨rfl, rfl⟩

/-- A call that has the whole message ends as if the message had come in one call. -/
theorem Layout.continued_done (hsupported : w.Supported) (now : BitVec 64) (h : w.Fed messageId vs pre buf inp (vs.flatten ++ (sig ++ rest)) d) :
    (Decoder.continued f now buf d inp).timeless = Decoder.finished f messageId (w.received 0) w.bytes rest := by
  have hdecode : (Decoder.decodePayload f 0).run (w.headed messageId) (vs.flatten ++ (sig ++ rest)) =
      (if (w.received 0).isSign then Decoder.decodeReceivedSignature f else pure ()).run
        (Decoder.unsigned messageId (w.received 0)) (sig ++ rest) :=
    Decoder.run_decodePayload 0 w.fits w.holds.contentTypes w.sendable L.contents messageId (sig ++ rest)
  rcases h.run now with ⟨l, hl, hview, hsignature, _⟩
  rw [hdecode] at hview
  have hsame : (w.received 0).isSign = w.isSigned := by
    rw [← isSign_take (w := w) 0 w.contents.length, take_length]
    rfl
  rw [hsame] at hview
  have hlength := L.signature
  by_cases hsigned : w.isSigned = true
  · rw [if_pos hsigned] at hview hlength
    rw [Decoder.run_decodeReceivedSignature (s := ⟨sig⟩) hlength] at hview
    rcases L.publicKey hsigned with ⟨data, hdata, _⟩
    rcases Outcome.view_eq_done hview with ⟨_, e, hrun, hplain⟩
    rw [hrun] at hl hsignature
    change buf = l ++ rest at hl
    subst hl
    have hwhole : pre ++ l = (w.header ++ vs.flatten) ++ sig := by
      refine (append_left_inj rest).mp ?_
      rw [append_assoc, h.whole]
      simp only [append_assoc]
    have hbytes : w.bytes = (w.header ++ vs.flatten) ++ sig := by rw [L.bytes, append_assoc]
    have hnil : l ≠ [] := by
      rintro rfl
      have hmore := h.more
      rw [hbytes, ← hwhole, append_nil] at hmore
      exact absurd hmore (Nat.lt_irrefl _)
    -- The bytes of this call end with the signature.
    have hsplit : ∃ l', l = l' ++ sig ∧ pre ++ l' = w.header ++ vs.flatten := by
      rcases append_eq_append_iff.mp hwhole with ⟨l', hpre, hl⟩ | ⟨l', hpre, hl⟩
      · exact ⟨l', hl, hpre.symm⟩
      · have hlong := h.long
        have hlen := congrArg List.length hl
        simp only [length_append] at hlong hlen
        have hzero : l' = [] := eq_nil_of_length_eq_zero (by omega)
        subst hzero
        exact ⟨[], by simpa using hl.symm, by simpa using hpre⟩
    rcases hsplit with ⟨l', rfl, hpre⟩
    have hsign : e.message.isSign = true := by
      change e.plain.message.isSign = true
      rw [hplain]
      change (w.received 0).isSign = true
      rw [hsame, hsigned]
    have hpub : e.message.publicKey 0 = some (.encoded data) := by
      change e.plain.message.publicKey 0 = _
      rw [hplain]
      exact hdata
    have hencoded : e.message.signatureEncode = some ⟨sig⟩ := by
      change e.plain.message.signatureEncode = _
      rw [hplain]
    have hfed : e.signature = if pre = [] then none else some ⟨.encoded data, pre⟩ := by
      rw [Written.fed, if_pos hsigned, hdata] at hsignature
      exact hsignature
    have hinit := hsupported hsigned data hdata
    have hfeed : Decoder.feed f e l' = _ := Decoder.feed_ok hfed (fun _ => hpub) fun _ => hinit
    have hverify := Decoder.verifySignature_done (f := f) (s := ⟨sig⟩) pre hsign hfeed hencoded hlength hnil
    rw [hpre] at hverify
    have hlen : w.bytes.length - f.signatureSize = (w.header ++ vs.flatten).length := by
      rw [hbytes, length_append, hlength, Nat.add_sub_cancel]
    have hmessage : e.message.timeless = { w.received 0 with signatureEncode := some ⟨sig⟩ } := congrArg Decoder.message hplain
    have hverified : (w.received 0).verified = false :=
      Message.foldl_receive Message.verified (fun r p => by cases p <;> rfl) _ _
    have hstate (S : Option Signature) (m : Message) : Decoder.timeless { e with signature := S, message := m } =
        { Decoder.unsigned messageId (w.received 0) with signature := S, message := m.timeless } := by
      change { e.plain with signature := S, message := m.timeless } = _
      rw [hplain]
    rw [Decoder.continued, hrun]
    change (Decoder.close f ((l' ++ sig) ++ rest) true e rest).timeless = _
    rw [Decoder.close, Decoder.take_read, hverify]
    simp only [Decoder.finished, hsame, hsigned, hdata, hlen, Decoder.update_ok hinit]
    rw [hbytes, take_left, drop_left]
    cases f.verify (.encoded data) (w.header ++ vs.flatten) ⟨sig⟩ with
    | error x =>
        change (⟨true, some x, Decoder.timeless _, rest⟩ : Decoder.Decoded) = _
        rw [hstate, hmessage]
        rfl
    | ok verified =>
        change (⟨true, none, Decoder.timeless _, rest⟩ : Decoder.Decoded) = _
        rw [hstate]
        cases verified with
        | true =>
            change (⟨true, none, { Decoder.unsigned messageId (w.received 0) with
              signature := some ⟨.encoded data, w.header ++ vs.flatten⟩, message := { e.message.timeless with verified := true } },
                rest⟩ : Decoder.Decoded) = _
            rw [hmessage]
            rfl
        | false =>
            rw [if_neg (by decide), hmessage, ← hverified]
            rfl
  · rw [if_neg hsigned] at hview hlength
    have hsig : sig = [] := eq_nil_of_length_eq_zero hlength
    subst hsig
    rw [run_pure] at hview
    rcases Outcome.view_eq_done hview with ⟨_, e, hrun, hplain⟩
    have hunsigned : e.message.isSign ≠ true := by
      change e.plain.message.isSign ≠ true
      rw [hplain]
      change (w.received 0).isSign ≠ true
      rwa [hsame]
    have hnone : e.signature = none := by
      rw [hrun, Written.fed, if_neg hsigned, ite_self] at hsignature
      exact hsignature
    have hcontinued : Decoder.continued f now buf d inp = Decoder.close f buf true e rest := by
      rw [Decoder.continued, hrun]
      rfl
    have htimeless : e.timeless = e.plain := by
      rw [Decoder.timeless, Decoder.plain, ← hnone]
    rw [hcontinued, Decoder.close_of_unsigned hunsigned, Decoder.finished_unsigned (by rwa [hsame]), ← hplain, ← htimeless]
    rfl

end Written

/-! ### Calls in a row -/

namespace Decoder

/-- Calls with pieces that arrive one after the other, each at its own time, up to the one that
    finishes. What was not read by then stays. -/
def calls (f : SignatureFactory) (ch : Channel) : Decoder → Bytes → List (BitVec 64 × Bytes) → Decoded
  | d, rest, [] => ⟨false, none, d, rest⟩
  | d, rest, (now, piece) :: pieces =>
      let r := decode f ch now d (rest ++ piece)
      if r.finished then { r with rest := r.rest ++ (pieces.map Prod.snd).flatten } else calls f ch r.decoder r.rest pieces

end Decoder

namespace Written

variable {f : SignatureFactory} {ch : Channel}

/-- Whether a piece ends in the key to verify with, where `fed` bytes were there before the pieces. -/
def cutsKey (w : Written f ch) (fed : Nat) : List Bytes → Bool
  | [] => false
  | piece :: pieces =>
      let fed := fed + piece.length
      (w.header.length ≤ fed && fed < w.header.length + w.key.length) || w.cutsKey fed pieces

variable {w : Written f ch} {vs : List Bytes} {sig : Bytes} {messageId : BitVec 32} {pre y u c rest : Bytes} {d : Decoder}

/-- Behind the key no piece ends in it. -/
theorem cutsKey_behind {fed : Nat} (h : w.header.length + w.key.length ≤ fed) (pieces : List Bytes) :
    w.cutsKey fed pieces = false := by
  induction pieces generalizing fed with
  | nil => rfl
  | cons piece pieces ih =>
      rw [cutsKey, ih (Nat.le_add_right_of_le h), Bool.or_false, Bool.and_eq_false_iff]
      exact .inr (by simp; omega)

/-- What is there of two parts when a piece has come. -/
theorem append_eq_append {z zs : Bytes} (h : z ++ zs = c ++ rest) :
    (∃ c', c' ≠ [] ∧ c = z ++ c' ∧ zs = c' ++ rest) ∨ ∃ r, z = c ++ r ∧ rest = r ++ zs := by
  rcases cut_append h.symm with ⟨c', hc', hcut⟩ | hwhole
  · refine .inl ⟨c', hc', hcut, ?_⟩
    rw [hcut, append_assoc] at h
    exact append_cancel_left h
  · exact .inr hwhole

theorem finished_left {m : Message} {v : Bytes} {r : Decoder.Decoded} (h : r.timeless = Decoder.finished f messageId m v rest)
    (t : Bytes) : Decoder.Decoded.timeless { r with rest := r.rest ++ t } = Decoder.finished f messageId m v (rest ++ t) := by
  rcases Decoder.finished_eq f messageId m v with ⟨e, x, hfinished⟩
  rw [hfinished] at h ⊢
  rcases r with ⟨_, _, _, _⟩
  cases h
  rfl

/-- The decoder has no header yet. The fields in front of the address are set, or they are not. -/
def Unheaded (w : Written f ch) (messageId : BitVec 32) (d : Decoder) : Prop :=
  ∃ r, d = { Decoder.new messageId with message := r } ∧
    (r = (Decoder.new messageId).message ∨ r = w.message.withFields (Decoder.new messageId).message)

theorem Unheaded.headed (h : w.Unheaded messageId d) : Decoder.headed ch w.message w.sender d = w.headed messageId := by
  rcases h with ⟨r, rfl, rfl | rfl⟩
  · rfl
  · exact Decoder.headed_withFields ch w.message w.sender (Decoder.new messageId)

/-- On a part of the header the decoder waits, and gives all of it back. -/
theorem Unheaded.decode_part (h : w.Unheaded messageId d) (L : w.Layout vs sig) (now : BitVec 64) (hc : c ≠ [])
    (hcut : w.header = u ++ c) :
    ∃ e, Decoder.decode f ch now d u = ⟨false, none, e, u⟩ ∧ w.Unheaded messageId e := by
  have hdone : d.headerDone = false := by
    rcases h with ⟨r, rfl, _⟩
    rfl
  rcases Decoder.wait_decodeHeader w.fits L.header d hc hcut with ⟨r, hrun, hr⟩
  refine ⟨{ d with message := r }, by rw [Decoder.decode_header hdone, hrun], ?_⟩
  rcases h with ⟨r', rfl, hr'⟩
  refine ⟨r, rfl, ?_⟩
  rcases hr with rfl | ⟨rfl, _⟩
  · exact hr'
  · rcases hr' with rfl | rfl
    · exact .inr rfl
    · exact .inr (Message.withFields_withFields _ _)

/-- Behind the header the decoder goes on with the contents. -/
theorem Unheaded.decode_header (h : w.Unheaded messageId d) (L : w.Layout vs sig) (now : BitVec 64) (y : Bytes) :
    Decoder.decode f ch now d (w.header ++ y) = Decoder.continued f now (w.header ++ y) (w.headed messageId) y := by
  have hdone : d.headerDone = false := by
    rcases h with ⟨r, rfl, _⟩
    rfl
  rw [Decoder.decode_header hdone, Decoder.takes_decodeHeader w.fits L.header d y, h.headed]

theorem Layout.key_length_le (L : w.Layout vs sig) : w.key.length ≤ vs.flatten.length := by
  by_cases hsigned : w.isSigned = true
  · rcases L.signed hsigned with ⟨_, _, _, vs', _, rfl⟩
    rw [flatten_cons, length_append]
    omega
  · rw [key_unsigned hsigned]
    exact Nat.zero_le _

theorem Layout.fed_headed (L : w.Layout vs sig) (messageId : BitVec 32) (hcut : w.Cuttable) (y : Bytes) :
    w.Fed messageId vs [] (w.header ++ y) y y (w.headed messageId) where
  whole := rfl
  part := suffix_append _ _
  progress _ := by
    have hpos := L.header_length
    rw [length_append]
    omega
  more := by
    have hpos := L.header_length
    rw [L.bytes, length_append, length_nil]
    omega
  long := by
    rw [length_append]
    omega
  runs := by rw [plain_headed]
  types := by
    rw [contentTypes_headed]
    exact hcut.types
  headerDone := rfl
  signature := rfl

/-- The decoder waits for the bytes `c` of the message, and has not read `u`. -/
def Awaits (w : Written f ch) (messageId : BitVec 32) (vs : List Bytes) (sig u c : Bytes) (d : Decoder) : Prop :=
  (∃ c', c' ≠ [] ∧ w.header = u ++ c' ∧ c = c' ++ (vs.flatten ++ sig) ∧ w.Unheaded messageId d) ∨
    ∃ pre y, w.Amid messageId vs sig pre y u c d

theorem Awaits.start (L : w.Layout vs sig) (messageId : BitVec 32) : w.Awaits messageId vs sig [] w.bytes (.new messageId) :=
  .inl ⟨w.header, ne_nil_of_length_pos L.header_length, rfl, L.bytes, (Decoder.new messageId).message, rfl, .inl rfl⟩

theorem Awaits.ne_nil (h : w.Awaits messageId vs sig u c d) : c ≠ [] := by
  rcases h with ⟨c', hc', _, rfl, _⟩ | ⟨pre, y, h⟩
  · exact append_ne_nil_of_left_ne_nil hc' _
  · exact h.left

/-- How much of the message has come. -/
theorem Awaits.length_le (L : w.Layout vs sig) (h : w.Awaits messageId vs sig u c d) : c.length ≤ w.bytes.length := by
  rcases h with ⟨c', _, hheader, rfl, _⟩ | ⟨pre, y, h⟩
  · rw [L.bytes, hheader]
    simp only [length_append]
    omega
  · rw [L.bytes, h.cut]
    simp only [length_append]
    omega

/-- A call that does not get all of the message waits for the others, unless its piece ends in the key. -/
theorem Layout.decode_waits (L : w.Layout vs sig) (hsupported : w.Supported) (hcut : w.Cuttable) (now : BitVec 64) {z : Bytes}
    (h : w.Awaits messageId vs sig u (z ++ c) d) (hc : c ≠ [])
    (hkey : w.header.length ≤ w.bytes.length - c.length → w.header.length + w.key.length ≤ w.bytes.length - c.length) :
    ∃ e u', Decoder.decode f ch now d (u ++ z) = ⟨false, none, e, u'⟩ ∧ w.Awaits messageId vs sig u' c e := by
  rcases h with ⟨c', hc', hheader, hall, h⟩ | ⟨pre, y, h⟩
  · rcases append_eq_append hall with ⟨c'', hc'', rfl, hrest⟩ | ⟨y, rfl, hrest⟩
    · -- The header is cut again.
      rw [← append_assoc] at hheader
      rcases h.decode_part L now hc'' hheader with ⟨e, hwaits, he⟩
      exact ⟨e, u ++ z, hwaits, .inl ⟨c'', hc'', hheader, hrest, he⟩⟩
    · -- The header is there.
      have hbuf : u ++ (c' ++ y) = w.header ++ y := by rw [hheader, append_assoc]
      have hlen : w.bytes.length - c.length = w.header.length + y.length := by
        rw [L.bytes, hrest]
        simp only [length_append]
        omega
      rw [hlen] at hkey
      rw [hbuf, h.decode_header L now y]
      rcases L.continued_waits hsupported now hcut (L.fed_headed messageId hcut y) hc hrest (by omega) with ⟨e, u', pre', hwaits, hamid⟩
      exact ⟨e, u', hwaits, .inr ⟨pre', y, hamid⟩⟩
  · have hcontents : vs.flatten ++ sig = (y ++ z) ++ c := by rw [h.cut, append_assoc]
    rw [Decoder.decode_started h.headerDone]
    rcases L.continued_waits hsupported now hcut (h.fed L z) hc hcontents (by rw [length_append]; exact Nat.le_add_right_of_le h.key)
      with ⟨e, u', pre', hwaits, hamid⟩
    exact ⟨e, u', hwaits, .inr ⟨pre', y ++ z, hamid⟩⟩

/-- A call whose piece ends in the key throws an exception. -/
theorem Layout.decode_throws (L : w.Layout vs sig) (hcut : w.Cuttable) (now : BitVec 64) {z : Bytes}
    (h : w.Awaits messageId vs sig u (z ++ c) d) (hc : c ≠ []) (hheader : w.header.length ≤ w.bytes.length - c.length)
    (hkey : w.bytes.length - c.length < w.header.length + w.key.length) :
    (Decoder.decode f ch now d (u ++ z)).finished = true ∧
      (Decoder.decode f ch now d (u ++ z)).exception = some (.invalidKey "No installed provider supports this key: (null)") := by
  rcases h with ⟨c', hc', hcut', hall, h⟩ | ⟨pre, y, h⟩
  · rcases append_eq_append hall with ⟨c'', hc'', rfl, rfl⟩ | ⟨y, rfl, hrest⟩
    · -- The header would be cut.
      have hpos := length_pos_of_ne_nil hc''
      rw [L.bytes] at hheader
      rw [hcut'] at hheader
      simp only [length_append] at hheader
      omega
    · have hbuf : u ++ (c' ++ y) = w.header ++ y := by rw [hcut', append_assoc]
      have hlen : w.bytes.length - c.length = w.header.length + y.length := by
        rw [L.bytes, hrest]
        simp only [length_append]
        omega
      rw [hbuf, h.decode_header L now y]
      exact L.continued_throws now hcut (L.fed_headed messageId hcut y) hc hrest (by omega)
  · -- The key would have come before.
    have hbehind := h.key
    rw [L.bytes, h.cut] at hkey
    simp only [length_append] at hkey
    omega

/-- A call that gets the rest of the message ends as if it had come in one call. -/
theorem Layout.decode_done (L : w.Layout vs sig) (hsupported : w.Supported) (hcut : w.Cuttable) (now : BitVec 64)
    (h : w.Awaits messageId vs sig u c d) (r : Bytes) :
    (Decoder.decode f ch now d (u ++ (c ++ r))).timeless = Decoder.finished f messageId (w.received 0) w.bytes r := by
  rcases h with ⟨c', hc', hheader, rfl, h⟩ | ⟨pre, y, h⟩
  · have hbuf : u ++ ((c' ++ (vs.flatten ++ sig)) ++ r) = w.header ++ (vs.flatten ++ (sig ++ r)) := by
      rw [hheader]
      simp only [append_assoc]
    rw [hbuf, h.decode_header L now]
    exact L.continued_done hsupported now (L.fed_headed messageId hcut _)
  · have hfed := h.fed L (c ++ r)
    have hy : y ++ (c ++ r) = vs.flatten ++ (sig ++ r) := by
      rw [← append_assoc, ← append_assoc, h.cut]
    rw [hy] at hfed
    rw [Decoder.decode_started h.headerDone]
    exact L.continued_done hsupported now hfed

/-- A decoder that waits reads the rest of the message, unless a piece ends in the key. -/
theorem Layout.calls_awaits (L : w.Layout vs sig) (hsupported : w.Supported) (hcut : w.Cuttable) {pieces : List (BitVec 64 × Bytes)}
    (h : w.Awaits messageId vs sig u c d) (hall : (pieces.map Prod.snd).flatten = c ++ rest) :
    if w.cutsKey (w.bytes.length - c.length) (pieces.map Prod.snd) then
      (Decoder.calls f ch d u pieces).exception = some (.invalidKey "No installed provider supports this key: (null)")
    else (Decoder.calls f ch d u pieces).timeless = Decoder.finished f messageId (w.received 0) w.bytes rest := by
  induction pieces generalizing u c d with
  | nil =>
      rw [map_nil, flatten_nil] at hall
      exact absurd (append_eq_nil_iff.mp hall.symm).1 h.ne_nil
  | cons piece pieces ih =>
      rcases piece with ⟨now, z⟩
      have hle := h.length_le L
      rw [map_cons, flatten_cons] at hall
      rw [map_cons, cutsKey, Decoder.calls]
      dsimp only at hall ⊢
      rcases append_eq_append hall with ⟨c', hc', rfl, hrest⟩ | ⟨r, rfl, rfl⟩
      · -- The message is cut again.
        have hlen : w.bytes.length - (z ++ c').length + z.length = w.bytes.length - c'.length := by
          rw [length_append] at hle ⊢
          omega
        rw [hlen]
        by_cases hkey : w.header.length ≤ w.bytes.length - c'.length ∧ w.bytes.length - c'.length < w.header.length + w.key.length
        · rcases L.decode_throws hcut now h hc' hkey.1 hkey.2 with ⟨hfinished, hthrows⟩
          rw [if_pos (by simp [hkey]), if_pos hfinished]
          exact hthrows
        · rcases L.decode_waits hsupported hcut now h hc' (by omega) with ⟨e, u', hwaits, he⟩
          have hnext := ih he hrest
          have hfalse : (decide (w.header.length ≤ w.bytes.length - c'.length) &&
              decide (w.bytes.length - c'.length < w.header.length + w.key.length)) = false := by
            simpa using hkey
          rw [hfalse, Bool.false_or, hwaits]
          exact hnext
      · -- The rest of the message is there.
        have hbehind : w.header.length + w.key.length ≤ w.bytes.length - c.length + (c ++ r).length := by
          have hkey := L.key_length_le
          rw [L.bytes] at hle ⊢
          simp only [length_append] at hle ⊢
          omega
        have hdone := L.decode_done hsupported hcut now h r
        have hfinished : (Decoder.decode f ch now d (u ++ (c ++ r))).finished = true := by
          rcases Decoder.finished_eq f messageId (w.received 0) w.bytes with ⟨e, x, hfinished⟩
          exact (congrArg Decoder.Decoded.finished hdone).trans (by rw [hfinished])
        rw [cutsKey_behind hbehind, if_neg (by rw [Bool.or_false, Bool.and_eq_true, decide_eq_true_iff, decide_eq_true_iff]; omega),
          if_pos hfinished]
        exact finished_left hdone _

theorem cuttable_signed : signed.Cuttable := by
  intro p hp
  simp only [signed, mem_cons, not_mem_nil, or_false] at hp
  rcases hp with rfl | rfl | rfl <;> trivial

end Written

namespace Decoder

variable {f : SignatureFactory} {ch : Channel}

/-- A written message that arrives in pieces is read as if it had come in one, unless a piece ends
    in the key to verify with: then the signature is begun without a key, and an exception is thrown. -/
theorem calls_written (hf : f.Lawful) (w : Written f ch) (hsupported : w.Supported) (hcut : w.Cuttable) (messageId : BitVec 32)
    (pieces : List (BitVec 64 × Bytes)) (rest : Bytes) (hall : (pieces.map Prod.snd).flatten = w.bytes ++ rest) :
    if w.cutsKey 0 (pieces.map Prod.snd) then
      (calls f ch (new messageId) [] pieces).exception = some (.invalidKey "No installed provider supports this key: (null)")
    else (calls f ch (new messageId) [] pieces).timeless = finished f messageId (w.received 0) w.bytes rest := by
  rcases w.exists_layout hf with ⟨vs, sig, L⟩
  have h := L.calls_awaits hsupported hcut (Written.Awaits.start L messageId) hall
  rwa [Nat.sub_self] at h

theorem calls_written_signed :
    (calls .zeros ⟨.v4 0x7f000009 4000, .v4 0x7f000001 4000, false⟩ (new 1) []
      [(1, Written.signed.bytes.take 20), (2, (Written.signed.bytes.drop 20).take 70),
        (9, (Written.signed.bytes.drop 20).drop 70 ++ [6])]).timeless =
      finished .zeros 1 (Written.signed.received 0) Written.signed.bytes [6] := by
  have h := calls_written SignatureFactory.zeros_lawful Written.signed (fun _ _ _ => rfl) Written.cuttable_signed 1
    [(1, Written.signed.bytes.take 20), (2, (Written.signed.bytes.drop 20).take 70), (9, (Written.signed.bytes.drop 20).drop 70 ++ [6])]
    [6] (by
      simp only [map_cons, map_nil, flatten_cons, flatten_nil, append_nil]
      rw [← append_assoc ((Written.signed.bytes.drop 20).take 70), take_append_drop, ← append_assoc,
        take_append_drop])
  rwa [if_neg (by decide)] at h

end Decoder

end TomP2P
