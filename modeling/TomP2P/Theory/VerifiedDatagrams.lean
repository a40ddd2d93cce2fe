import TomP2P.Core.SinglePacketUDP
import TomP2P.Theory.MessagePieces

/-!
# Verified Datagrams

What a message that is marked as verified vouches for, whoever wrote it. The bytes of the datagram
may be anything.

What the call reads is fed to the signature, from the first byte of the header on, and the signature
is the last that is read. So the bytes that were fed are all those in front of it. The key is the
first of the message. A message that is handed on behind an exception is never verified.

## Main definitions

* `Message.Vouched`: A message and the bytes it was read from.
* `Decoder.Decoded.Honest`: A call that marks no other message as verified.

## Theorems

* `Decoder.decodePayload_signed`: The signature is the last that is read.
* `TomP2PSinglePacketUDP.channelRead_vouched`: What is handed on of a datagram.
-/

namespace TomP2P

open Wire Reader Outcome

namespace Message

/-- The bytes begin with those of the message. If it is signed its signature is the last of it, and
    it is verified if that is the one of all bytes in front for its first key. If it is not it is
    not verified. -/
def Vouched (f : SignatureFactory) (m : Message) (buf : Bytes) : Prop :=
  if m.isSign then
    ∃ k front rest, ∃ s : SignatureCodec, m.publicKey 0 = some k ∧ m.signatureEncode = some s ∧
      s.wire.length = f.signatureSize ∧ buf = front ++ s.wire ++ rest ∧ f.verify k front s = .ok m.verified
  else m.verified = false

/-- The message `r` is as much to be signed and verified as `m` is. -/
def Alike (m r : Message) : Prop :=
  r.isSign = m.isSign ∧ r.presetContentTypes = m.presetContentTypes ∧ r.verified = m.verified

/-- Contents that are read do not change this. -/
theorem Alike.set {m r r' : Message} {p : Payload} (h : Alike m r) (hpreset : m.presetContentTypes = true) (hp : p.IsRead)
    (hset : r.set p = .ok r') : Alike m r' := by
  rw [Message.set, if_pos (h.2.1.trans hpreset)] at hset
  cases hset
  cases p with
  | publicKeyAndSign k privateKey => exact absurd hp id
  | _ => exact h

end Message

namespace Decoder

variable {f : SignatureFactory} {ch : Channel} {now : BitVec 64} {d e : Decoder} {b r buf l : Bytes}

/-! ### The end of a message -/

theorem decodeReceivedSignature_done (h : (decodeReceivedSignature f).run d b = .done () e r) :
    ∃ s : SignatureCodec, b = s.wire ++ r ∧ s.wire.length = f.signatureSize ∧ e.message.signatureEncode = some s := by
  by_cases hlen : b.length < f.signatureSize
  · rw [decodeReceivedSignature, run_bind, run_need_of_lt _ _ _ hlen, andThen_wait] at h
    cases h
  · have hsplit : b = (b.take f.signatureSize) ++ (b.drop f.signatureSize) := (List.take_append_drop _ _).symm
    have hwire : (b.take f.signatureSize).length = f.signatureSize := List.length_take_of_le (Nat.not_lt.mp hlen)
    have hrun := run_decodeReceivedSignature (f := f) (s := ⟨b.take f.signatureSize⟩) hwire d (b.drop f.signatureSize)
    rw [← hsplit, h] at hrun
    cases hrun
    exact ⟨⟨b.take f.signatureSize⟩, hsplit, hwire, rfl⟩

/-- The signature is the last that is read of a signed message. -/
theorem decodePayload_signed (hdone : d.headerDone = true) (hpreset : d.message.presetContentTypes = true)
    (hhas : d.message.hasContent = true) (hsign : d.message.isSign = true) (h : (decodePayload f now).run d b = .done () e r) :
    ∃ l, ∃ s : SignatureCodec, b = l ++ s.wire ++ r ∧ s.wire.length = f.signatureSize ∧ e.message.signatureEncode = some s := by
  rw [run_decodePayload_content hhas, run_bind] at h
  have hkeeps := keeps_decodeContents f now d.signature (J := d.message.Alike)
    (fun _ _ _ h hp hset => h.set hpreset hp hset) d.contentTypes d b ⟨rfl, hdone, rfl, rfl, rfl⟩
  have hsuffix := (decodeContents f now d.contentTypes).suffix d b
  rcases andThen_eq_done h with ⟨a, t, u, hrun, h⟩
  rw [hrun] at hkeeps hsuffix
  have hsigned : t.message.isSign = true := hkeeps.2.2.1.trans hsign
  rw [decodeEnd, run_bind, run_state, andThen_done, if_pos hsigned] at h
  rcases decodeReceivedSignature_done h with ⟨s, hs, hlen, hencoded⟩
  rcases hsuffix with ⟨l, hl⟩
  refine ⟨l, s, ?_, hlen, hencoded⟩
  rw [← hl, List.append_assoc, ← hs]
  rfl

/-- The bytes of a first call are fed to the signature under the first key. -/
theorem feed_first {s : Signature} (hsignature : d.signature = none) (h : feed f d l = .ok s) :
    ∃ k, d.message.publicKey 0 = some k ∧ s = ⟨k, l⟩ := by
  rw [feed, hsignature] at h
  change f.update (d.message.publicKey 0) l = .ok s at h
  cases hk : d.message.publicKey 0 with
  | none =>
      rw [hk] at h
      cases h
  | some k =>
      rw [hk] at h
      cases k with
      | EMPTY_PUBLIC_KEY => cases h
      | encoded data =>
          cases hinit : f.initVerify data with
          | error x =>
              rw [update_error hinit] at h
              cases h
          | ok =>
              rw [update_ok hinit] at h
              cases h
              exact ⟨_, rfl, rfl⟩

/-- A message is marked as verified if the algorithm accepts its signature. -/
theorem verify_ok {s : Signature} {m m' : Message} (h : verify f s m = .ok m') :
    ∃ c verified, m.signatureEncode = some c ∧ f.verify s.publicKey s.bytes c = .ok verified ∧
      m' = if verified then { m with verified := true } else m := by
  unfold verify at h
  split at h
  · cases h
  · next c hc =>
      rcases Effect.except_bind_ok h with ⟨verified, hvalid, h⟩
      cases h
      exact ⟨c, verified, hc, hvalid, rfl⟩

/-- A first call that ends a signed message feeds what it has read up to the signature, and verifies. -/
theorem verifySignature_first (hsignature : d.signature = none) (hsign : d.message.isSign = true) (hl : l ≠ [])
    (h : verifySignature f d l true = .ok e) :
    ∃ k s verified, d.message.publicKey 0 = some k ∧ d.message.signatureEncode = some s ∧
      f.verify k (l.take (l.length - f.signatureSize)) s = .ok verified ∧
      e.message = if verified then { d.message with verified := true } else d.message := by
  rw [verifySignature, if_pos (by simp [hsign, hl])] at h
  dsimp only at h
  split at h
  · cases h
  · next s hs =>
      rw [if_pos rfl] at h hs
      rcases feed_first hsignature hs with ⟨k, hk, rfl⟩
      split at h
      · cases h
      · next m hm =>
          rcases verify_ok hm with ⟨c, verified, hc, hvalid, hmessage⟩
          cases h
          exact ⟨k, c, verified, hk, hc, hvalid, hmessage⟩

/-- A signature that is fed, and one that throws, leave a message that is not verified as it is. -/
theorem verifySignature_error {donePayload : Bool} {x : JavaException} (h : verifySignature f d l donePayload = .error (x, e)) :
    e.message = d.message := by
  unfold verifySignature at h
  split at h
  · dsimp only at h
    split at h
    · cases h
      rfl
    · split at h
      · split at h
        · cases h
          rfl
        · cases h
      · cases h
  · cases h

/-! ### Calls on any bytes -/

/-- A call on the bytes `buf` marks a message as verified only if it is, and none that it does not
    read to the end. -/
structure Decoded.Honest (f : SignatureFactory) (buf : Bytes) (c : Decoded) : Prop where
  refused : ∀ x, c.exception = some x → c.decoder.message.verified = false
  vouched : c.finished = true → c.exception = none → c.decoder.message.Vouched f buf

theorem honest_fail {x : JavaException} (h : e.message.verified = false) : Decoded.Honest f buf ⟨true, some x, e, r⟩ where
  refused _ _ := h
  vouched _ hnone := by cases hnone

/-- The decoder has read a header, and `b` is what is left. -/
structure Opened (d : Decoder) (buf b : Bytes) : Prop where
  headerDone : d.headerDone = true
  preset : d.message.presetContentTypes = true
  signature : d.signature = none
  verified : d.message.verified = false
  signatureEncode : d.message.signatureEncode = none
  part : b <:+ buf
  short : b.length < buf.length

/-- A message whose contents are read to the end. -/
theorem Opened.vouched (h : Opened d (l ++ r) b) (hsuffix : r <:+ b) (hsignature : e.signature = none)
    (halike : d.message.Alike e.message) (hrun : (decodePayload f now).run d b = .done () e r) {t : Decoder}
    (hverify : verifySignature f e l true = .ok t) : t.message.Vouched f (l ++ r) := by
  have hverified : e.message.verified = false := halike.2.2.trans h.verified
  by_cases hsign : e.message.isSign = true
  · have hl : l ≠ [] := by
      rintro rfl
      exact absurd hsuffix.length_le (Nat.not_le.mpr h.short)
    rcases verifySignature_first hsignature hsign hl hverify with ⟨k, s, verified, hk, hs, hvalid, ht⟩
    have hhas : d.message.hasContent = true := by
      by_contra hno
      -- Nothing is read, and so there is no signature to be verified.
      rw [decodePayload, run_bind, run_state, andThen_done, if_neg hno] at hrun
      cases hrun
      rw [h.signatureEncode] at hs
      cases hs
    rcases decodePayload_signed h.headerDone h.preset hhas (halike.1.symm.trans hsign) hrun with ⟨m, s', hb, hlen, hs'⟩
    have hsame : s' = s := Option.some.inj (hs'.symm.trans hs)
    subst hsame
    rcases h.part with ⟨front, hfront⟩
    have hsplit : l = (front ++ m) ++ s'.wire := by
      refine (List.append_left_inj r).mp ?_
      rw [← hfront, hb]
      simp only [List.append_assoc]
    subst hsplit
    have htake (front : Bytes) : (front ++ s'.wire).take ((front ++ s'.wire).length - f.signatureSize) = front := by
      rw [List.length_append, hlen, Nat.add_sub_cancel, List.take_left]
    rw [htake] at hvalid
    have hsigned : t.message.isSign = true := by
      rw [ht]
      cases verified <;> exact hsign
    rw [Message.Vouched, if_pos hsigned]
    cases verified with
    | true =>
        rw [if_pos rfl] at ht
        rw [ht]
        exact ⟨k, front ++ m, r, s', hk, hs, hlen, rfl, hvalid⟩
    | false =>
        rw [if_neg (by decide)] at ht
        rw [ht]
        exact ⟨k, front ++ m, r, s', hk, hs, hlen, rfl, by rw [hverified, hvalid]⟩
  · rw [verifySignature, if_neg (by simp [hsign])] at hverify
    cases hverify
    rw [Message.Vouched, if_neg hsign]
    exact hverified

/-- Behind a header the contents are read and the signature is verified, or the call waits or throws. -/
theorem Opened.honest (f : SignatureFactory) (now : BitVec 64) (h : Opened d buf b) : (continued f now buf d b).Honest f buf := by
  have hkeeps := keeps_decodePayload f now d.signature (J := d.message.Alike) (fun _ _ _ hr hp hset => hr.set h.preset hp hset)
    (fun _ _ hr => hr) d b ⟨rfl, h.headerDone, rfl, rfl, rfl⟩
  have hsuffix := (decodePayload f now).suffix d b
  rcases hsuffix.trans h.part with ⟨l, hl⟩
  unfold continued
  cases hrun : (decodePayload f now).run d b with
  | fail x e r =>
      rw [hrun] at hkeeps
      exact honest_fail (hkeeps.2.2.2.2.trans h.verified)
  | wait e r =>
      rw [hrun] at hkeeps
      change (close f buf false e r).Honest f buf
      unfold close
      cases hverify : verifySignature f e (buf.take (buf.length - r.length)) false with
      | ok t =>
          refine ⟨fun x hx => ?_, fun hends => ?_⟩
          · cases hx
          · cases hends
      | error x =>
          refine honest_fail ?_
          rw [verifySignature_error hverify]
          exact hkeeps.2.2.2.2.trans h.verified
  | done a e r =>
      rw [hrun] at hkeeps hsuffix hl
      change l ++ r = buf at hl
      subst hl
      change (close f (l ++ r) true e r).Honest f (l ++ r)
      rw [close, take_read]
      cases hverify : verifySignature f e l true with
      | ok t =>
          refine ⟨fun x hx => ?_, fun _ _ => h.vouched hsuffix (hkeeps.1.trans h.signature) hkeeps.2.2 hrun hverify⟩
          cases hx
      | error x =>
          refine honest_fail ?_
          rw [verifySignature_error hverify]
          exact hkeeps.2.2.2.2.trans h.verified

/-! ### Headers of any bytes -/

/-- What comes behind the header is not touched by it. -/
theorem keeps_header (ch : Channel) :
    Keeps (fun d => d.signature = none ∧ d.message.verified = false ∧ d.message.signatureEncode = none) (decodeHeader ch) := by
  let J (m : Message) : Prop := m.verified = false ∧ m.signatureEncode = none
  have hfields : Keeps J MessageHeaderCodec.decodeFields := by
    refine (Keeps.field _ 4 32).bind fun _ => Keeps.bind (Keeps.modify fun _ h => h) fun _ => (Keeps.lift _).bind fun _ => ?_
    refine Keeps.bind (Keeps.modify fun _ h => h) fun _ => (Keeps.field _ 4 32).bind fun _ => ?_
    refine Keeps.bind (Keeps.modify fun _ h => h) fun _ => (Keeps.field _ 1 32).bind fun _ => Number160.keeps_decode.bind fun _ => ?_
    refine Keeps.bind (Keeps.modify fun _ h => h) fun _ => (Keeps.field _ 4 32).bind fun _ => ?_
    exact Keeps.bind (Keeps.modify fun _ h => h) fun _ => (Keeps.field _ 1 32).bind fun _ => Keeps.modify fun _ h => h
  have hheader : Keeps J (MessageHeaderCodec.decodeHeader ch.recipient ch.sender) :=
    hfields.bind fun _ => (Keeps.field _ 3 32).bind fun header => (Keeps.need _).bind fun _ =>
      (PeerAddress.keeps_decodeAfter header).bind fun _ => (Keeps.lift _).bind fun _ => Keeps.modify fun _ h => h
  let I (d : Decoder) : Prop := d.signature = none ∧ J d.message
  have hzoom : Keeps I (zoom Decoder.message (fun message d => { d with message })
      (MessageHeaderCodec.decodeHeader ch.recipient ch.sender)) :=
    Keeps.zoom hheader (fun _ h => h.2) fun _ _ hm hd => ⟨hd.1, hm⟩
  exact (Keeps.need _).bind fun _ => Keeps.bind (Keeps.rewind hzoom) fun _ => Keeps.modify fun _ h => h

/-- Behind a header that was read the contents begin. -/
theorem opened_header (hkept : e.signature = none ∧ e.message.verified = false ∧ e.message.signatureEncode = none)
    (h : (decodeHeader ch).run d buf = .done () e r) : Opened e buf r := by
  have hsuffix := (decodeHeader ch).suffix d buf
  have hset : e.headerDone = true ∧ e.message.presetContentTypes = true := by
    rw [decodeHeader, run_bind] at h
    rcases andThen_eq_done h with ⟨_, t, u, _, h⟩
    rw [run_bind] at h
    rcases andThen_eq_done h with ⟨_, t', u', _, h⟩
    cases h
    exact ⟨rfl, rfl⟩
  have hshort : r.length < buf.length := by
    have halert : Alert (decodeHeader ch) d := alert_decodeHeader
    rcases alert_iff.mp halert buf with ⟨t, hwait⟩ | hconsumes
    · rw [h] at hwait
      cases hwait
    · unfold Consumes at hconsumes
      rwa [h] at hconsumes
  rw [h] at hsuffix
  exact ⟨hset.1, hset.2, hkept.1, hkept.2.1, hkept.2.2, hsuffix, hshort⟩

theorem honest_decode (f : SignatureFactory) (ch : Channel) (now : BitVec 64) (messageId : BitVec 32) (buf : Bytes) :
    (decode f ch now (new messageId) buf).Honest f buf := by
  have hkept := keeps_header ch (new messageId) buf ⟨rfl, rfl, rfl⟩
  rw [decode_header rfl]
  cases hrun : (decodeHeader ch).run (new messageId) buf with
  | fail x e r =>
      rw [hrun] at hkept
      exact honest_fail hkept.2.1
  | wait e r =>
      refine ⟨fun x hx => ?_, fun hends => ?_⟩
      · cases hx
      · cases hends
  | done a e r =>
      rw [hrun] at hkept
      exact (opened_header hkept hrun).honest f now

end Decoder

/-! ### Datagrams -/

/-- Whatever the bytes of a datagram are: nothing is handed on of it, or what was read of a message
    behind an exception, which is not verified, or one message. If that is signed it was read up to its
    signature, and it is verified if and only if that is the signature of all the bytes in front of
    it, from the first of the header on, for the first key of the message. -/
theorem TomP2PSinglePacketUDP.channelRead_vouched (f : SignatureFactory) (ch : Channel) (now : BitVec 64)
    (messageId messageId' : BitVec 32) (buf : Bytes) :
    channelRead f ch now messageId messageId' buf = [] ∨
      (∃ x m, channelRead f ch now messageId messageId' buf = [.exceptionCaught x, .channelRead m] ∧ m.verified = false) ∨
      ∃ m, channelRead f ch now messageId messageId' buf = [.channelRead m] ∧ m.Vouched f buf := by
  have honest := Decoder.honest_decode f ch now messageId buf
  unfold channelRead
  generalize Decoder.decode f ch now (.new messageId) buf = decoded at honest ⊢
  rcases decoded with ⟨finished, exception, d, rest⟩
  cases finished with
  | false => exact .inl rfl
  | true =>
      cases exception with
      | some x => exact .inr (.inl ⟨x, _, rfl, honest.refused x rfl⟩)
      | none => exact .inr (.inr ⟨_, rfl, honest.vouched rfl rfl⟩)

end TomP2P
