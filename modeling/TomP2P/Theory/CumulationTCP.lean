import TomP2P.Foundation.Runs
import TomP2P.Theory.DecoderWaits
import TomP2P.Theory.TrackerDataCodec

/-!
# The Loop over a Stream

With each piece of a stream the decoder is called until it asks for more bytes or none are
left. The loop goes on after a call that has finished, and it goes on after a call that has
not, if the message has the id of the last complete one: such a message counts as complete as
well. Whether there is a message at all is not asked. A decoder without a header has one, with
an id that was drawn by chance, or with that of a header that is given back because the
address of the sender is not complete.

So there is one way to go on without having read anything, `Stalls`, and in every other case
the bytes become fewer. In the second form of it the loop is where it was, and it does not
end.

## Main definitions

* `MessageHeaderCodec.LacksAddress`, `Decoder.HeaderMissing`: A header is there up to the address of its sender.
* `TomP2PCumulationTCP.Stalls`: The loop goes on without having read anything.

## Theorems

* `Decoder.headerMissing_of_waits`, `Decoder.run_decodeHeader_missing`: A header is waited for if it
  is too short, or without address.
* `TomP2PCumulationTCP.System.turns_consume_iff`: A turn goes on with fewer bytes, unless it stalls.
-/

namespace TomP2P

open Wire Reader Outcome

/-! ### Headers that are not complete -/

theorem Number160.walks_decode {σ : Type} {s : σ} {b : Bytes} {i : Nat} {D : σ → Prop}
    (h : i + BYTE_ARRAY_SIZE ≤ b.length) (hs : D s) :
    Walks Number160.decode b i (i + BYTE_ARRAY_SIZE) s fun _ s' => D s' := by
  have hlen : i + 20 ≤ b.length := h
  have hfield (k : Nat) (hk : k + 4 ≤ b.length) (s : σ) (hs : D s) :
      Walks readInt b k (k + 4) s fun _ s' => D s' := Walks.field _ hk hs
  exact (hfield i (by omega) s hs).bind fun _ s hs => (hfield (i + 4) (by omega) s hs).bind fun _ s hs =>
    (hfield (i + 8) (by omega) s hs).bind fun _ s hs => (hfield (i + 12) (by omega) s hs).bind fun _ s hs =>
      (hfield (i + 16) (by omega) s hs).bind fun _ s hs => Walks.pure hs

namespace MessageHeaderCodec

variable {m : Message} {b : Bytes}

/-- The field of four bytes at a place. -/
def intAt (b : Bytes) (i : Nat) : BitVec 32 := BitVec.ofNat 32 (ofBE ((b.drop i).take 4))

/-- The header of the address of the sender. -/
def senderHeader (b : Bytes) : BitVec 32 := BitVec.ofNat 32 (ofBE ((b.drop HEADER_SIZE_STATIC).take 3))

/-- A header is there up to the address of its sender, and the address is not complete. -/
structure LacksAddress (b : Bytes) : Prop where
  fields : HEADER_SIZE_MIN ≤ b.length
  type : ((intAt b 0) &&& 0x0f#32).toNat < Message.Type.values.length
  address : b.length < HEADER_SIZE_STATIC + PeerAddress.size (senderHeader b)

/-- The fields in front of the address are read. -/
theorem walks_decodeFields (hlen : HEADER_SIZE_STATIC ≤ b.length)
    (htype : ((intAt b 0) &&& 0x0f#32).toNat < Message.Type.values.length) :
    Walks decodeFields b 0 HEADER_SIZE_STATIC m fun _ m' => m'.messageId = intAt b 4 := by
  have h34 : 34 ≤ b.length := hlen
  have htypeOf : typeOf (intAt b 0) = .ok Message.Type.values[((intAt b 0) &&& 0x0f#32).toNat] := by
    rw [typeOf, List.getElem?_eq_getElem htype]
  refine (Walks.field (D := fun a _ => a = intAt b 0) _ (by omega) rfl).bind fun version m hversion => ?_
  refine (Walks.modify (D := fun _ _ => True) trivial).bind fun _ m _ => ?_
  refine (Walks.lift (D := fun _ _ => True) (by rw [hversion]; exact htypeOf) trivial).bind fun type m _ => ?_
  refine (Walks.modify (D := fun _ _ => True) trivial).bind fun _ m _ => ?_
  refine (Walks.field (D := fun a _ => a = intAt b 4) _ (by omega) rfl).bind fun messageId m hid => ?_
  refine (Walks.modify (D := fun _ m => m.messageId = intAt b 4) hid).bind fun _ m hm => ?_
  refine (Walks.field (D := fun _ m => m.messageId = intAt b 4) _ (by omega) hm).bind fun command m hm => ?_
  refine (Number160.walks_decode (D := fun m => m.messageId = intAt b 4) (by change _ + 20 ≤ _; omega) hm).bind
    fun recipientID m hm => ?_
  refine (Walks.modify (D := fun _ m => m.messageId = intAt b 4) hm).bind fun _ m hm => ?_
  refine (Walks.field (D := fun _ m => m.messageId = intAt b 4) _ (by change _ + 20 + _ ≤ _; omega) hm).bind
    fun contentTypes m hm => ?_
  refine (Walks.modify (D := fun _ m => m.messageId = intAt b 4) hm).bind fun _ m hm => ?_
  refine (Walks.field (D := fun _ m => m.messageId = intAt b 4) _ (by change _ + 20 + _ + _ ≤ _; omega) hm).bind
    fun options m hm => ?_
  exact Walks.modify hm

/-- There is no such type. -/
theorem run_decodeFields_error (hlen : HEADER_SIZE_STATIC ≤ b.length)
    (htype : ¬ ((intAt b 0) &&& 0x0f#32).toNat < Message.Type.values.length) :
    ∃ e m' r, decodeFields.run m b = .fail e m' r := by
  have h34 : 34 ≤ b.length := hlen
  have htypeOf : typeOf (intAt b 0) = .error .indexOutOfBounds := by
    rw [typeOf, List.getElem?_eq_none (Nat.not_lt.mp htype)]
  have hfield : readInt.run m b = .done (intAt b 0) m (b.drop 4) := by
    rw [readInt, field, run_bind, run_read, if_neg (by omega)]
    rfl
  rw [decodeFields, run_bind, hfield, andThen_done, run_bind, run_modify, andThen_done, run_bind,
    htypeOf, run_lift_error]
  exact ⟨_, _, _, rfl⟩

variable {recipientSocket senderSocket : InetSocketAddress}

theorem run_senderHeader (hlen : HEADER_SIZE_MIN ≤ b.length) :
    readUnsignedMedium.run m (b.drop HEADER_SIZE_STATIC) =
      .done (senderHeader b) m (b.drop (HEADER_SIZE_STATIC + PeerAddress.HEADER_SIZE)) := by
  have h63 : 63 ≤ b.length := hlen
  rcases Walks.field (D := fun a s => a = senderHeader b ∧ s = m) JavaException.indexOutOfBounds (n := 3) (w := 32)
    (i := HEADER_SIZE_STATIC) (s := m) (by change 34 + 3 ≤ b.length; omega) ⟨rfl, rfl⟩ with ⟨a, s, hrun, ha, hs⟩
  rw [readUnsignedMedium, hrun, ha, hs]
  rfl

/-- A header without address is waited for. Its id is set already. -/
theorem LacksAddress.waits (h : LacksAddress b) (m : Message) (recipientSocket senderSocket : InetSocketAddress) :
    ∃ m' r, (decodeHeader recipientSocket senderSocket).run m b = .wait m' r ∧ m'.messageId = intAt b 4 := by
  have h63 : 63 ≤ b.length := h.fields
  have haddress : b.length < 34 + PeerAddress.size (senderHeader b) := h.address
  rcases walks_decodeFields (m := m) (by change 34 ≤ b.length; omega) h.type with ⟨_, m', hrun, hid⟩
  rw [List.drop_zero] at hrun
  refine ⟨m', b.drop (HEADER_SIZE_STATIC + PeerAddress.HEADER_SIZE), ?_, hid⟩
  rw [decodeHeader, run_bind, hrun, andThen_done, run_bind,
    run_senderHeader h.fields, andThen_done, run_bind, run_need_of_lt, andThen_wait]
  rw [List.length_drop]
  change b.length - 37 < PeerAddress.size (senderHeader b) - 3
  omega

/-- A header is not waited for otherwise. -/
theorem not_isWait_decodeHeader (hlen : HEADER_SIZE_MIN ≤ b.length) (h : ¬ LacksAddress b) (m : Message)
    (recipientSocket senderSocket : InetSocketAddress) :
    ((decodeHeader recipientSocket senderSocket).run m b).isWait = false := by
  have h63 : 63 ≤ b.length := hlen
  have h34 : HEADER_SIZE_STATIC ≤ b.length := by change 34 ≤ b.length; omega
  by_cases htype : ((intAt b 0) &&& 0x0f#32).toNat < Message.Type.values.length
  · have haddress : ¬ b.length < 34 + PeerAddress.size (senderHeader b) := fun hlt => h ⟨hlen, htype, hlt⟩
    rcases walks_decodeFields (m := m) h34 htype with ⟨_, m', hrun, _⟩
    have hends := PeerAddress.strict_decode.ends m' (b.drop HEADER_SIZE_STATIC)
    rw [PeerAddress.decode, run_bind, run_senderHeader hlen, andThen_done] at hends
    rw [List.drop_zero] at hrun
    rw [decodeHeader, run_bind, hrun, andThen_done, run_bind,
      run_senderHeader hlen, andThen_done, run_bind, run_need_of_le, andThen_done, run_bind]
    · cases hdecode : (PeerAddress.decodeAfter (senderHeader b)).run m'
          (b.drop (HEADER_SIZE_STATIC + PeerAddress.HEADER_SIZE)) with
      | wait m' r =>
          rw [hdecode] at hends
          cases hends
      | fail e m' r => rfl
      | done sender m' r =>
          rw [andThen_done, run_bind]
          cases seen senderSocket sender with
          | error e | ok sender => rfl
    · rw [List.length_drop]
      change PeerAddress.size (senderHeader b) - 3 ≤ b.length - 37
      omega
  · rcases run_decodeFields_error (m := m) h34 htype with ⟨e, m', r, hrun⟩
    rw [decodeHeader, run_bind, hrun]
    rfl

end MessageHeaderCodec

namespace Decoder

variable {f : SignatureFactory} {ch : Channel} {now : BitVec 64} {d : Decoder} {b : Bytes}

/-- The id of a message whose header is waited for. -/
def waitingId (d : Decoder) (b : Bytes) : BitVec 32 :=
  if b.length < MessageHeaderCodec.HEADER_SIZE_MIN then d.message.messageId else MessageHeaderCodec.intAt b 4

/-- A header is not there. -/
def HeaderMissing (b : Bytes) : Prop :=
  b.length < MessageHeaderCodec.HEADER_SIZE_MIN ∨ MessageHeaderCodec.LacksAddress b

theorem run_decodeHeader_missing (h : HeaderMissing b) (ch : Channel) (d : Decoder) :
    ∃ e, (decodeHeader ch).run d b = .wait e b ∧ e.message.messageId = waitingId d b := by
  unfold waitingId
  by_cases hlen : b.length < MessageHeaderCodec.HEADER_SIZE_MIN
  · refine ⟨d, ?_, by rw [if_pos hlen]⟩
    rw [decodeHeader, run_bind, run_need_of_lt _ d b hlen, andThen_wait]
  · have hle := Nat.not_lt.mp hlen
    rcases (h.resolve_left hlen).waits d.message ch.recipient ch.sender with ⟨message, r, hrun, hid⟩
    refine ⟨{ d with message }, ?_, by rw [if_neg hlen]; exact hid⟩
    rw [decodeHeader, run_bind, run_need_of_le _ d b hle, andThen_done, run_bind, run_rewind, run_zoom, hrun]
    rfl

theorem headerMissing_of_waits {e : Decoder} {r : Bytes} (h : (decodeHeader ch).run d b = .wait e r) :
    HeaderMissing b := by
  by_contra hmissing
  have hlen : MessageHeaderCodec.HEADER_SIZE_MIN ≤ b.length := Nat.not_lt.mp fun hlt => hmissing (.inl hlt)
  have hends := MessageHeaderCodec.not_isWait_decodeHeader hlen (fun hlacks => hmissing (.inr hlacks)) d.message
    ch.recipient ch.sender
  rw [decodeHeader, run_bind, run_need_of_le _ d b hlen, andThen_done, run_bind, run_rewind, run_zoom] at h
  cases hrun : (MessageHeaderCodec.decodeHeader ch.recipient ch.sender).run d.message b with
  | wait m r =>
      rw [hrun] at hends
      cases hends
  | fail x m r | done a m r =>
      rw [hrun] at h
      cases h

/-- The call of a decoder without header comes to nothing if the header is not there. -/
theorem decode_missing (hheader : d.headerDone = false) (h : HeaderMissing b) (f : SignatureFactory) (ch : Channel)
    (now : BitVec 64) :
    ∃ e, decode f ch now d b = ⟨false, none, e, b⟩ ∧ e.message.messageId = waitingId d b := by
  rcases run_decodeHeader_missing h ch d with ⟨e, hrun, hid⟩
  exact ⟨e, by rw [decode_header hheader, hrun], hid⟩

end Decoder

/-! ### Calls that read nothing -/

namespace Decoder

variable {f : SignatureFactory} {ch : Channel} {now : BitVec 64} {d e : Decoder} {b : Bytes}

/-- The id of a message is not changed by a call that waits for its contents. -/
theorem messageId_decode (h : Resumable f d) (hheader : d.headerDone = true)
    (hwaits : (decode f ch now d b).finished = false) :
    (decode f ch now d b).decoder.message.messageId = d.message.messageId := by
  rw [decode_started hheader] at hwaits ⊢
  unfold continued at hwaits ⊢
  cases hrun : (decodePayload f now).run d b with
  | wait t r =>
      rw [hrun] at hwaits
      rcases (leaves_decodePayload h.coherent).wait hrun with ⟨_, _, hid⟩
      change (close f b false t r).finished = false at hwaits
      change (close f b false t r).decoder.message.messageId = d.message.messageId
      unfold close at hwaits ⊢
      cases hverify : verifySignature f t (b.take (b.length - r.length)) false with
      | error x =>
          rw [hverify] at hwaits
          cases hwaits
      | ok t' =>
          rcases verifySignature_ok hverify with ⟨signature, ht⟩
          rw [ht]
          exact hid
  | fail x t r =>
      rw [hrun] at hwaits
      cases hwaits
  | done a t r =>
      rw [hrun] at hwaits
      exact absurd (hwaits.symm.trans close_done) (by decide)

theorem rest_decode_le : (decode f ch now d b).rest.length ≤ b.length := by
  unfold decode
  have hstarted : (started ch d b).rest.length ≤ b.length := by
    unfold started
    split
    · exact Nat.le_refl _
    · exact ((decodeHeader ch).suffix d b).length_le
  cases hrun : started ch d b with
  | wait e r | fail x e r =>
      rw [hrun] at hstarted
      exact hstarted
  | done a e r =>
      rw [hrun] at hstarted
      change (continued f now b e r).rest.length ≤ b.length
      rw [continued_rest]
      exact Nat.le_trans ((decodePayload f now).suffix e r).length_le hstarted

/-- A call that reads nothing waits for a header, or for more of a message whose header was
    read before. -/
theorem headerMissing_of_unread (hheader : d.headerDone = false) (h : decode f ch now d b = ⟨false, none, e, b⟩) :
    HeaderMissing b := by
  rw [decode_header hheader] at h
  cases hrun : (decodeHeader ch).run d b with
  | wait t r => exact headerMissing_of_waits hrun
  | fail x t r =>
      rw [hrun] at h
      cases h
  | done a t r =>
      rw [hrun] at h
      change continued f now b t r = _ at h
      rcases alert_iff.mp alert_decodeHeader b with ⟨t', hwait⟩ | hconsumes
      · rw [hrun] at hwait
        cases hwait
      · have hsuffix := ((decodePayload f now).suffix t r).length_le
        unfold Consumes at hconsumes
        rw [hrun] at hconsumes
        have hrest : (continued f now b t r).rest = ((decodePayload f now).run t r).rest := continued_rest
        rw [← hrest, h] at hsuffix
        exact absurd hconsumes (Nat.not_lt.mpr hsuffix)

end Decoder

/-! ### Turns -/

namespace TomP2PCumulationTCP

variable {f : SignatureFactory} {ch : Channel} {now : BitVec 64} {messageId : BitVec 32} {c : TomP2PCumulationTCP}

/-- The loop goes on without having read anything: bytes are there but no header, and the
    message without header has the id of the last complete one. -/
def Stalls (c : TomP2PCumulationTCP) : Prop :=
  c.decoder.headerDone = false ∧ Decoder.HeaderMissing c.cumulation ∧ c.cumulation ≠ [] ∧
    c.decoder.waitingId c.cumulation = c.lastId

/-- The decoder can be called, and no message that is waited for has the last id. -/
structure Invariant (f : SignatureFactory) (c : TomP2PCumulationTCP) : Prop where
  resumable : Decoder.Resumable f c.decoder
  id_ne : c.decoder.headerDone = true → c.decoder.message.messageId ≠ c.lastId

theorem turn_cumulation : (c.turn f ch now messageId).state.cumulation =
    (Decoder.decode f ch now c.decoder c.cumulation).rest := by
  simp only [turn]
  split
  · rfl
  · split <;> rfl

/-- The loop goes on behind what counts as a complete message, if there are bytes. -/
theorem turn_again_iff : (c.turn f ch now messageId).again = true ↔
    ((Decoder.decode f ch now c.decoder c.cumulation).finished = true ∨
      c.lastId = (Decoder.decode f ch now c.decoder c.cumulation).decoder.message.messageId) ∧
    (Decoder.decode f ch now c.decoder c.cumulation).rest ≠ [] := by
  simp only [turn]
  by_cases hfinished : (Decoder.decode f ch now c.decoder c.cumulation).finished = true
  · simp [hfinished, finish]
  · by_cases hid : c.lastId = (Decoder.decode f ch now c.decoder c.cumulation).decoder.message.messageId
    · simp [hfinished, ← hid, finish]
    · simp [hfinished, hid]

instance (b : Bytes) : Decidable (MessageHeaderCodec.LacksAddress b) :=
  decidable_of_iff (MessageHeaderCodec.HEADER_SIZE_MIN ≤ b.length ∧
      ((MessageHeaderCodec.intAt b 0) &&& 0x0f#32).toNat < Message.Type.values.length ∧
      b.length < MessageHeaderCodec.HEADER_SIZE_STATIC + PeerAddress.size (MessageHeaderCodec.senderHeader b))
    ⟨fun h => ⟨h.1, h.2.1, h.2.2⟩, fun h => ⟨h.fields, h.type, h.address⟩⟩

instance (b : Bytes) : Decidable (Decoder.HeaderMissing b) := inferInstanceAs (Decidable (_ ∨ _))

instance (c : TomP2PCumulationTCP) : Decidable c.Stalls := inferInstanceAs (Decidable (_ ∧ _))

/-- A turn with which the loop goes on has read something, unless it stalls. -/
theorem Invariant.consumes_iff (h : Invariant f c) :
    ((c.turn f ch now messageId).again = true →
      (c.turn f ch now messageId).state.cumulation.length < c.cumulation.length) ↔ ¬ c.Stalls := by
  rw [turn_cumulation, turn_again_iff]
  constructor
  · intro hconsumes hstalls
    rcases hstalls with ⟨hheader, hmissing, hne, hid⟩
    rcases Decoder.decode_missing hheader hmissing f ch now with ⟨e, hdecode, he⟩
    rw [hdecode] at hconsumes
    exact absurd (hconsumes ⟨.inr (hid.symm.trans he.symm), hne⟩) (Nat.lt_irrefl _)
  · intro hstalls hagain
    rcases Decoder.decode_waits_or_consumes h.resumable ch now c.cumulation with
      ⟨e, hdecode⟩ | hconsumes
    · exfalso
      rw [hdecode] at hagain
      have hid : c.lastId = e.message.messageId := hagain.1.resolve_left Bool.false_ne_true
      cases hheader : c.decoder.headerDone with
      | true =>
          have hsame : (Decoder.decode f ch now c.decoder c.cumulation).decoder.message.messageId =
              c.decoder.message.messageId :=
            Decoder.messageId_decode h.resumable hheader (by rw [hdecode])
          rw [hdecode] at hsame
          exact h.id_ne hheader (hsame.symm.trans hid.symm)
      | false =>
          have hmissing := Decoder.headerMissing_of_unread hheader hdecode
          rcases Decoder.decode_missing hheader hmissing f ch now with ⟨e', hdecode', he⟩
          rw [hdecode] at hdecode'
          cases hdecode'
          exact hstalls ⟨hheader, hmissing, hagain.2, he.symm.trans hid.symm⟩
    · exact hconsumes

/-- The next turn stalls as well, if a header is there up to the address. -/
theorem Stalls.again (h : c.Stalls) (hlen : MessageHeaderCodec.HEADER_SIZE_MIN ≤ c.cumulation.length)
    (f : SignatureFactory) (ch : Channel) (now : BitVec 64) (messageId : BitVec 32) :
    (c.turn f ch now messageId).again = true ∧ (c.turn f ch now messageId).state.Stalls ∧
      (c.turn f ch now messageId).state.cumulation = c.cumulation := by
  rcases h with ⟨hheader, hmissing, hne, hid⟩
  rcases Decoder.decode_missing hheader hmissing f ch now with ⟨e, hdecode, he⟩
  have hwaiting (d : Decoder) : d.waitingId c.cumulation = MessageHeaderCodec.intAt c.cumulation 4 :=
    if_neg (Nat.not_lt.mpr hlen)
  have hturn : c.turn f ch now messageId = finish messageId c.lastId ⟨false, none, e, c.cumulation⟩ := by
    simp only [turn, hdecode, he, hid, if_true]
    rfl
  rw [hturn]
  refine ⟨?_, ⟨rfl, hmissing, hne, ?_⟩, rfl⟩
  · simp [finish, hne]
  · exact (hwaiting _).trans ((hwaiting _).symm.trans hid)

theorem Invariant.turn (h : Invariant f c) : Invariant f (c.turn f ch now messageId).state := by
  simp only [TomP2PCumulationTCP.turn]
  split
  · exact ⟨Decoder.resumable_prepareFinish _ _, fun hheader => absurd hheader Bool.false_ne_true⟩
  · next hfinished =>
      split
      · exact ⟨Decoder.resumable_prepareFinish _ _, fun hheader => absurd hheader Bool.false_ne_true⟩
      · next hid =>
          exact ⟨Decoder.resumable_decode h.resumable (Bool.eq_false_iff.mpr hfinished), fun _ => Ne.symm hid⟩

namespace System

variable {s s' : System}

theorem invariant_step {e : Event} (h : Invariant f s.connection) (hstep : step f ch s e = some s') :
    Invariant f s'.connection := by
  cases e with
  | channelRead buf =>
      simp only [step] at hstep
      split at hstep
      · cases hstep
      · cases hstep
        exact ⟨h.resumable, h.id_ne⟩
  | turn now messageId =>
      simp only [step] at hstep
      split at hstep
      · cases hstep
        exact h.turn
      · cases hstep

/-- The states of a connection. -/
def Reachable (f : SignatureFactory) (ch : Channel) : System → Prop :=
  Reached (step f ch) (fun _ _ => True) fun s => ∃ messageId, s = start messageId

theorem Reachable.invariant (h : Reachable f ch s) : Invariant f s.connection := by
  refine Reached.invariant (fun s => Invariant f s.connection) ?_ (fun s e s' hs _ hstep => invariant_step hs hstep) h
  rintro s ⟨messageId, rfl⟩
  exact ⟨Decoder.resumable_new messageId, fun hheader => absurd hheader Bool.false_ne_true⟩

/-- A turn that does not stall. -/
def pass (f : SignatureFactory) (ch : Channel) (s : System) (e : BitVec 64 × BitVec 32) : Option System :=
  if s.connection.Stalls then none else step f ch s (.turn e.1 e.2)

/-- Bytes become fewer, or the loop ends. -/
theorem pass_lt {e : BitVec 64 × BitVec 32} (h : Invariant f s.connection) (hpass : pass f ch s e = some s') :
    s'.connection.cumulation.length + s'.running.toNat < s.connection.cumulation.length + s.running.toNat := by
  unfold pass at hpass
  split at hpass
  · cases hpass
  · next hstalls =>
      simp only [step] at hpass
      split at hpass
      · next hrunning =>
          cases hpass
          have hconsumes : (s.connection.turn f ch e.1 e.2).again = true →
              (s.connection.turn f ch e.1 e.2).state.cumulation.length < s.connection.cumulation.length :=
            h.consumes_iff.mpr hstalls
          rw [hrunning]
          cases hagain : (s.connection.turn f ch e.1 e.2).again with
          | true => exact Nat.add_lt_add_right (hconsumes hagain) 1
          | false =>
              have hsuffix : (s.connection.turn f ch e.1 e.2).state.cumulation.length ≤
                  s.connection.cumulation.length := by
                rw [turn_cumulation]
                exact Decoder.rest_decode_le
              exact Nat.lt_succ_of_le hsuffix
      · cases hpass

/-- A turn with which the loop goes on has consumed a byte, unless it stalls. A loop in which
    no turn stalls ends. -/
theorem turns_consume_iff (h : Reachable f ch s) :
    ((∀ now messageId, (s.connection.turn f ch now messageId).again = true →
      (s.connection.turn f ch now messageId).state.cumulation.length < s.connection.cumulation.length) ↔
        ¬ s.connection.Stalls) ∧
      ¬ ∃ run : Nat → System, run 0 = s ∧ ∀ n, ¬ (run n).connection.Stalls ∧
        ∃ now messageId, step f ch (run n) (.turn now messageId) = some (run (n + 1)) := by
  refine ⟨⟨fun hall => h.invariant.consumes_iff.mp (hall 0 0),
    fun hstalls now messageId => h.invariant.consumes_iff.mpr hstalls⟩, ?_⟩
  rintro ⟨run, hstart, hsteps⟩
  have hpasses (s : System) (e : BitVec 64 × BitVec 32) (s' : System) (hs : Invariant f s.connection)
      (hpass : pass f ch s e = some s') : Invariant f s'.connection ∧
        s'.connection.cumulation.length + s'.running.toNat < s.connection.cumulation.length + s.running.toNat := by
    refine ⟨?_, pass_lt hs hpass⟩
    unfold pass at hpass
    split at hpass
    · cases hpass
    · exact invariant_step hs hpass
  refine no_endless_run Nat.lt_wfRel.wf (fun s : System => s.connection.cumulation.length + s.running.toNat) hpasses
    h.invariant ⟨run, hstart, fun n => ?_⟩
  rcases hsteps n with ⟨hstalls, now, messageId, hstep⟩
  exact ⟨(now, messageId), by rw [pass, if_neg hstalls, hstep]⟩

theorem reachable_channelRead (messageId : BitVec 32) (buf : Bytes) :
    Reachable f ch ⟨⟨.new messageId, buf, 0⟩, true, []⟩ :=
  .next (.start ⟨messageId, rfl⟩) (e := .channelRead buf) trivial rfl

/-- A single byte has arrived. -/
theorem turns_consume_iff_byte : ¬ (TomP2PCumulationTCP.mk (.new 1) [0] 0).Stalls ∧
    ((∀ now messageId,
      ((TomP2PCumulationTCP.mk (.new 1) [0] 0).turn .zeros ⟨.v4 0 0, .v4 0 0, false⟩ now messageId).again = true →
        ((TomP2PCumulationTCP.mk (.new 1) [0] 0).turn .zeros ⟨.v4 0 0, .v4 0 0, false⟩
          now messageId).state.cumulation.length < 1) ↔
      ¬ (TomP2PCumulationTCP.mk (.new 1) [0] 0).Stalls) :=
  ⟨by decide, (turns_consume_iff (reachable_channelRead 1 [0])).1⟩

/-- The turns from a state on, each with the same time and id. -/
def turns (f : SignatureFactory) (ch : Channel) (s : System) : Nat → System
  | 0 => s
  | n + 1 =>
      let t := (turns f ch s n).connection.turn f ch 0 0
      ⟨t.state, t.again, (turns f ch s n).fired ++ t.fired⟩

/-- If a header is there up to the address, and the loop stalls, then it does not end. -/
theorem endless_of_stalls (hrunning : s.running = true) (h : s.connection.Stalls)
    (hlen : MessageHeaderCodec.HEADER_SIZE_MIN ≤ s.connection.cumulation.length) (n : Nat) :
    step f ch (turns f ch s n) (.turn 0 0) = some (turns f ch s (n + 1)) ∧
      (turns f ch s n).connection.cumulation = s.connection.cumulation := by
  have hinvariant : (turns f ch s n).running = true ∧ (turns f ch s n).connection.Stalls ∧
      (turns f ch s n).connection.cumulation = s.connection.cumulation := by
    induction n with
    | zero => exact ⟨hrunning, h, rfl⟩
    | succ n ih =>
        have hagain := ih.2.1.again (by rw [ih.2.2]; exact hlen) f ch 0 0
        exact ⟨hagain.1, hagain.2.1, hagain.2.2.trans ih.2.2⟩
  refine ⟨?_, hinvariant.2.2⟩
  simp only [step, hinvariant.1, if_true]
  rfl

/-- The header of a message with the id zero, up to an address that is announced with sockets of
    both families. -/
def withoutAddress : Bytes := List.replicate 36 0 ++ 3 :: List.replicate 26 0

/-- The first piece of a connection is such a header. The loop does not end. -/
theorem loops_without_end :
    Reachable .zeros ⟨.v4 0 0, .v4 0 0, false⟩ ⟨⟨.new 1, withoutAddress, 0⟩, true, []⟩ ∧
      ∃ run : Nat → System, run 0 = ⟨⟨.new 1, withoutAddress, 0⟩, true, []⟩ ∧
        ∀ n, step .zeros ⟨.v4 0 0, .v4 0 0, false⟩ (run n) (.turn 0 0) = some (run (n + 1)) ∧
          (run n).connection.cumulation = withoutAddress :=
  ⟨reachable_channelRead 1 withoutAddress, turns _ _ _, rfl,
    endless_of_stalls rfl ⟨rfl, .inr ⟨by decide, by decide, by decide⟩, by decide, by decide⟩ (by decide)⟩

end System

end TomP2PCumulationTCP

end TomP2P
