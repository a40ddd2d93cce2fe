import TomP2P.Theory.ContentReads

/-!
# Reading Back Headers

The header of a message is read back wherever it is cut. A decoder waits for the least length
a header has, then reads the fields in front of the address, and gives all of it back if the
address is not complete. The fields are set by then, and are set to the same again.

The address has the length its own header announces. It holds a socket of the connection's
family, else the address the connection has is nowhere to be put.

## Main definitions

* `Message.withHeader`: A message with the header of another one.
* `MessageHeaderCodec.Fits`: What the fields of a header have room for.
* `Decoder.headed`: The decoder behind a header.

## Theorems

* `Decoder.takes_decodeHeader`: A header is read back.
* `Decoder.wait_decodeHeader`: Wherever it is cut, it is waited for.
-/

namespace TomP2P

open Wire Reader Outcome List

namespace Message

/-- The message `r` with the fields of the header of `m`. -/
def withFields (m r : Message) : Message :=
  { r with
    version := m.version
    type := m.type
    messageId := m.messageId
    command := m.command
    recipient := m.recipient.map fun a => { peerId := a.peerId }
    content := MessageHeaderCodec.encodeContentTypes m.contentTypes != 0#32
    sign := r.sign || (m.contentTypes.map fun t => t.getD .EMPTY).contains .PUBLIC_KEY_SIGNATURE
    contentTypes := m.contentTypes.map fun t => some (t.getD .EMPTY)
    options := m.options }

/-- The message `r` with the header of `m`, whose sender was seen as `sender`. -/
def withHeader (ch : Channel) (m : Message) (sender : PeerAddress) (r : Message) : Message :=
  { m.withFields r with
    sender := some sender
    senderSocket := some ch.sender
    recipientSocket := some ch.recipient }

/-- Fields that are set again stay as they are. -/
theorem withFields_withFields (m r : Message) : m.withFields (m.withFields r) = m.withFields r := by
  simp [withFields]

end Message

namespace MessageHeaderCodec

variable {m r : Message} {ch : Channel} {sender : PeerAddress}

/-- The fields fit, and the address says what it holds and is one of the connection's family. -/
structure Fits (ch : Channel) (m : Message) (sender : PeerAddress) : Prop where
  version : m.version.toNat < 2 ^ 28
  options : m.options.toNat < 2 ^ 8
  contentTypes : m.contentTypes.length = 8
  wellFormed : ∀ a, m.sender = some a → a.WellFormed
  seen_eq : ∀ a, m.sender = some a → seen ch.sender a.transferred = .ok sender

theorem toNat_versionAndType (version : BitVec 32) (type : Message.Type) (h : version.toNat < 2 ^ 28) :
    ((version <<< 4) ||| (BitVec.ofNat 32 type.ordinal &&& 0x0f#32)).toNat = version.toNat * 16 + type.ordinal := by
  have ht := type.ordinal_lt
  have hlow : (BitVec.ofNat 32 type.ordinal &&& 0x0f#32).toNat = type.ordinal := by
    rw [and_0f, BitVec.toNat_ofNat]
    omega
  have hhigh : (version <<< 4).toNat = version.toNat <<< 4 := by
    rw [BitVec.toNat_shiftLeft, Nat.mod_eq_of_lt]
    rw [Nat.shiftLeft_eq]
    omega
  rw [BitVec.toNat_or, hhigh, hlow, ← Nat.shiftLeft_add_eq_or_of_lt (by omega), Nat.shiftLeft_eq]

/-- The fields in front of the address. -/
def fields (m : Message) (type : Message.Type) (recipient : PeerAddress) : Bytes :=
  writeInt ((m.version <<< 4) ||| (BitVec.ofNat 32 type.ordinal &&& 0x0f#32)) ++
    (writeInt m.messageId ++ (toBE 1 m.command.toNat ++ (recipient.peerId.encode ++
      (writeInt (encodeContentTypes m.contentTypes) ++ writeByte m.options))))

theorem length_fields (type : Message.Type) (recipient : PeerAddress) :
    (fields m type recipient).length = HEADER_SIZE_STATIC := by
  simp only [fields, length_append, writeInt, writeByte, length_toBE, Number160.length_encode,
    Number160.BYTE_ARRAY_SIZE, HEADER_SIZE_STATIC]

theorem encodeHeader_ok {v : Bytes} (h : encodeHeader m = .ok v) :
    ∃ type recipient a w, m.type = some type ∧ m.recipient = some recipient ∧ m.sender = some a ∧
      a.encode = .ok w ∧ v = fields m type recipient ++ w := by
  unfold encodeHeader at h
  split at h
  · next type recipient a htype hrecipient hsender =>
      rcases Effect.except_bind_ok h with ⟨w, hw, hv⟩
      cases hv
      refine ⟨type, recipient, a, w, htype, hrecipient, hsender, hw, ?_⟩
      simp only [fields, append_assoc]
  · cases h

theorem takes_decodeFields (hm : Fits ch m sender) {type : Message.Type} {recipient : PeerAddress}
    (htype : m.type = some type) (hrecipient : m.recipient = some recipient) :
    Takes decodeFields r (fields m type recipient) () (m.withFields r) := by
  have hword := toNat_versionAndType m.version type hm.version
  have hversion : ((m.version <<< 4) ||| (BitVec.ofNat 32 type.ordinal &&& 0x0f#32)) >>> 4 = m.version := by
    have ht := type.ordinal_lt
    apply BitVec.eq_of_toNat_eq
    rw [BitVec.toNat_ushiftRight, hword, Nat.shiftRight_eq_div_pow]
    omega
  have htypeOf : typeOf ((m.version <<< 4) ||| (BitVec.ofNat 32 type.ordinal &&& 0x0f#32)) = .ok type := by
    have ht := type.ordinal_lt
    rw [typeOf, and_0f, hword, show (m.version.toNat * 16 + type.ordinal) % 16 = type.ordinal by omega,
      Message.Type.getElem?_ordinal]
  have hbyte : writeByte (m.command.setWidth 32) = toBE 1 m.command.toNat := by
    rw [writeByte, BitVec.toNat_setWidth, Nat.mod_eq_of_lt (by omega)]
  have hcommand := parses_readUnsignedByte (σ := Message) (m.command.setWidth 32) (by
    rw [BitVec.toNat_setWidth]
    omega)
  have hwidth : (m.command.setWidth 32).setWidth 8 = m.command := by simp
  rw [hbyte] at hcommand
  suffices hchain : ∃ s', Takes decodeFields r (fields m type recipient) () s' ∧ s' = m.withFields r by
    rcases hchain with ⟨s', htakes, rfl⟩
    exact htakes
  apply Exists.intro
  constructor
  · apply Takes.bind ((parses_readInt _).takes _)
    apply Takes.skip (Takes.modify _ _)
    rw [htypeOf]
    apply Takes.skip (Takes.lift type _)
    apply Takes.skip (Takes.modify _ _)
    apply Takes.bind ((parses_readInt _).takes _)
    apply Takes.skip (Takes.modify _ _)
    apply Takes.bind (hcommand.takes _)
    apply Takes.bind ((Number160.parses_decode _).takes _)
    apply Takes.skip (Takes.modify _ _)
    apply Takes.bind ((parses_readInt _).takes _)
    apply Takes.skip (Takes.modify _ _)
    exact ((parses_readUnsignedByte _ hm.options).takes _).thenModify _
  · have hback := decodeContentTypes_encodeContentTypes _ hm.contentTypes
    have hmap : (m.contentTypes.map fun t => t.getD .EMPTY).map some = m.contentTypes.map fun t => some (t.getD .EMPTY) :=
      map_map
    simp only [Message.withFields, hversion, hwidth, hback, hmap, htype, hrecipient, Option.map_some]

/-- What follows the fields. -/
def decodeSender (recipientSocket senderSocket : InetSocketAddress) : Reader JavaException Message Unit := do
  let header ← readUnsignedMedium
  need (PeerAddress.size header - PeerAddress.HEADER_SIZE)
  let sender ← PeerAddress.decodeAfter header
  let sender ← lift (seen senderSocket sender)
  modify fun m => { m with
    sender := some sender
    senderSocket := some senderSocket
    recipientSocket := some recipientSocket }

theorem decodeHeader_eq (recipientSocket senderSocket : InetSocketAddress) : decodeHeader recipientSocket senderSocket =
    decodeFields >>= fun _ => decodeSender recipientSocket senderSocket := rfl

section Sender

variable {a : PeerAddress} {w : Bytes} (ha : a.WellFormed) (hw : a.encode = .ok w)

include ha hw

theorem takes_decodeSender (hseen : seen ch.sender a.transferred = .ok sender) :
    Takes (decodeSender ch.recipient ch.sender) r w () { r with
      sender := some sender
      senderSocket := some ch.sender
      recipientSocket := some ch.recipient } := by
  have hsize := a.length_encode_eq_size w ha hw
  rcases PeerAddress.parses_decodeAfter (σ := Message) a w ha hw with ⟨u, rfl, hu⟩
  have hlen : (writeMedium a.encodeHeader).length = 3 := length_toBE 3 _
  intro rest
  have hlong : PeerAddress.size a.encodeHeader - PeerAddress.HEADER_SIZE ≤ (u ++ rest).length := by
    rw [← hsize, length_append, length_append, hlen, PeerAddress.HEADER_SIZE]
    omega
  rw [append_assoc, decodeSender, run_bind, parses_readUnsignedMedium _ a.encodeHeader_lt, andThen_done,
    run_bind, run_need_of_le _ _ _ hlong, andThen_done, run_bind, hu, andThen_done, run_bind, hseen,
    run_lift_ok, andThen_done, run_modify]

/-- The address is waited for once its header is there. -/
theorem wait_decodeSender (ch : Channel) (r : Message) {b c : Bytes} (hc : c ≠ []) (hcut : w = b ++ c) (hthree : 3 ≤ b.length) :
    ∃ u, (decodeSender ch.recipient ch.sender).run r b = .wait r u := by
  have hsize := a.length_encode_eq_size w ha hw
  rcases PeerAddress.parses_decodeAfter (σ := Message) a w ha hw with ⟨u, rfl, _⟩
  have hlen : (writeMedium a.encodeHeader).length = 3 := length_toBE 3 _
  rcases cut_append hcut with ⟨c', hc', hfirst⟩ | ⟨b', rfl, hrest⟩
  · -- The header of the address is there.
    have hpos := length_pos_of_ne_nil hc'
    rw [hfirst, length_append] at hlen
    omega
  · have hshort : b'.length < PeerAddress.size a.encodeHeader - PeerAddress.HEADER_SIZE := by
      have hpos := length_pos_of_ne_nil hc
      rw [← hsize, hrest, length_append, length_append, hlen, PeerAddress.HEADER_SIZE]
      omega
    refine ⟨b', ?_⟩
    rw [decodeSender, run_bind, parses_readUnsignedMedium _ a.encodeHeader_lt, andThen_done, run_bind,
      run_need_of_lt _ _ _ hshort, andThen_wait]

end Sender

end MessageHeaderCodec

namespace Decoder

variable {ch : Channel} {m : Message} {sender : PeerAddress} {d : Decoder} {v : Bytes}

/-- The decoder behind a header: the contents are to come whose types it lists. -/
def headed (ch : Channel) (m : Message) (sender : PeerAddress) (d : Decoder) : Decoder :=
  { d with
    headerDone := true
    contentTypes := d.contentTypes ++ queued m.contentTypes
    message := { m.withHeader ch sender d.message with presetContentTypes := true, udp := ch.udp } }

theorem queued_withHeader (m : Message) (ch : Channel) (sender : PeerAddress) (r : Message) : queued (m.withHeader ch sender r).contentTypes = queued m.contentTypes := by
  simp [queued, Message.withHeader, Message.withFields, Function.comp_def]

/-- The types that are to come are among those of the header. -/
theorem contains_queued (sign : Bool) (cs : List (Option Content)) :
    (sign || (cs.map fun t => t.getD .EMPTY).contains .PUBLIC_KEY_SIGNATURE || (queued cs).contains .PUBLIC_KEY_SIGNATURE) =
      (sign || (cs.map fun t => t.getD .EMPTY).contains .PUBLIC_KEY_SIGNATURE) := by
  cases h : (queued cs).contains Content.PUBLIC_KEY_SIGNATURE with
  | false => simp
  | true =>
      have hmem := ( takeWhile_prefix _).subset (contains_iff_mem.mp h)
      rw [contains_iff_mem.mpr hmem, Bool.or_true, Bool.or_true]

/-- An address with a socket of the connection's family. -/
theorem min_size_le {socket : InetSocketAddress} {a : PeerAddress} {w : Bytes} (ha : a.WellFormed) (hw : a.encode = .ok w)
    (hseen : MessageHeaderCodec.seen socket a.transferred = .ok sender) : PeerAddress.MIN_SIZE_HEADER ≤ w.length := by
  have hsize : w.length = a.toFlags.transferred.size := by
    rw [a.length_encode_eq_size w ha hw, PeerAddress.size, PeerAddress.Flags.decodeHeader_encodeHeader]
  have hflag : a.toFlags.transferred.ipv4Flag = true ∨ a.toFlags.transferred.ipv6Flag = true := by
    cases socket with
    | v4 ip port =>
        left
        cases h4 : a.ipv4Socket with
        | none => simp [MessageHeaderCodec.seen, PeerAddress.transferred, h4] at hseen
        | some s => exact ha.ipv4.trans (by rw [h4]; rfl)
    | v6 ip port =>
        right
        cases h6 : a.ipv6Socket with
        | none => simp [MessageHeaderCodec.seen, PeerAddress.transferred, h6] at hseen
        | some s => exact ha.ipv6.trans (by rw [h6]; rfl)
  rw [hsize, PeerAddress.Flags.size, PeerAddress.Flags.sizeWith, PeerAddress.MIN_SIZE_HEADER, PeerAddress.MIN_SIZE]
  simp only [PeerSocketAddress.PORT_SIZE, PeerSocket4Address.SIZE, PeerSocket6Address.SIZE]
  rcases hflag with h | h <;> rw [h] <;> simp only [if_true] <;> split <;> split <;> (try split) <;> (try split) <;> omega

/-- All of a header that is not complete is given back. The fields in front of the address have
    been set if there was a chance that it is. -/
theorem wait_decodeHeader (hm : MessageHeaderCodec.Fits ch m sender) (hv : MessageHeaderCodec.encodeHeader m = .ok v)
    (d : Decoder) {b c : Bytes} (hc : c ≠ []) (hcut : v = b ++ c) :
    ∃ r, (decodeHeader ch).run d b = .wait { d with message := r } b ∧
      (r = d.message ∨ r = m.withFields d.message ∧ MessageHeaderCodec.HEADER_SIZE_MIN ≤ b.length) := by
  rcases MessageHeaderCodec.encodeHeader_ok hv with ⟨type, recipient, a, w, htype, hrecipient, hsender, hw, rfl⟩
  have ha := hm.wellFormed a hsender
  have hfields := MessageHeaderCodec.takes_decodeFields (r := d.message) hm htype hrecipient
  have hstatic := MessageHeaderCodec.length_fields (m := m) type recipient
  have hmin : MessageHeaderCodec.HEADER_SIZE_MIN = MessageHeaderCodec.HEADER_SIZE_STATIC + PeerAddress.MIN_SIZE_HEADER := rfl
  by_cases hlen : b.length < MessageHeaderCodec.HEADER_SIZE_MIN
  · exact ⟨d.message, by rw [decodeHeader, run_bind, run_need_of_lt _ _ _ hlen, andThen_wait], .inl rfl⟩
  · rcases cut_append hcut with ⟨c', hc', hfirst⟩ | ⟨b', rfl, hrest⟩
    · have hpos := length_pos_of_ne_nil hc'
      rw [hfirst, length_append] at hstatic
      omega
    · -- The fields are there and the address is not.
      have hthree : 3 ≤ b'.length := by
        rw [length_append] at hlen
        rw [PeerAddress.MIN_SIZE_HEADER] at hmin
        omega
      rcases MessageHeaderCodec.wait_decodeSender ha hw ch (m.withFields d.message) hc hrest hthree with ⟨u, hwait⟩
      refine ⟨m.withFields d.message, ?_, .inr ⟨rfl, Nat.not_lt.mp hlen⟩⟩
      rw [decodeHeader, run_bind, run_need_of_le _ _ _ (Nat.not_lt.mp hlen), andThen_done, run_bind, run_rewind,
        run_zoom, MessageHeaderCodec.decodeHeader_eq, run_bind, hfields, andThen_done, hwait]
      rfl

/-- A header is read with whatever follows it. -/
theorem takes_decodeHeader (hm : MessageHeaderCodec.Fits ch m sender) (hv : MessageHeaderCodec.encodeHeader m = .ok v)
    (d : Decoder) : Takes (decodeHeader ch) d v () (headed ch m sender d) := by
  rcases MessageHeaderCodec.encodeHeader_ok hv with ⟨type, recipient, a, w, htype, hrecipient, hsender, hw, rfl⟩
  have ha := hm.wellFormed a hsender
  have hlong := min_size_le ha hw (hm.seen_eq a hsender)
  have hstatic := MessageHeaderCodec.length_fields (m := m) type recipient
  have hmin : MessageHeaderCodec.HEADER_SIZE_MIN = MessageHeaderCodec.HEADER_SIZE_STATIC + PeerAddress.MIN_SIZE_HEADER := rfl
  let part (p : Reader JavaException Message Unit) : Reader JavaException Decoder Unit :=
    zoom Decoder.message (fun message d => { d with message }) p
  have htakes : Takes (part (MessageHeaderCodec.decodeHeader ch.recipient ch.sender)) d
      (MessageHeaderCodec.fields m type recipient ++ w) () { d with message := m.withHeader ch sender d.message } :=
    Takes.zoom ((MessageHeaderCodec.takes_decodeFields hm htype hrecipient).bind
      (MessageHeaderCodec.takes_decodeSender ha hw (hm.seen_eq a hsender)))
  intro rest
  have henough : MessageHeaderCodec.HEADER_SIZE_MIN ≤ (MessageHeaderCodec.fields m type recipient ++ w ++ rest).length := by
    rw [length_append, length_append]
    omega
  rw [decodeHeader, run_bind, run_need_of_le _ _ _ henough, andThen_done, run_bind, run_rewind, htakes,
    andThen_done, run_modify]
  have hqueued := queued_withHeader m ch sender d.message
  simp only [headed, hqueued]
  simp only [Message.withHeader, Message.withFields, contains_queued]

/-- Fields that have been set are set to the same again. -/
theorem headed_withFields (ch : Channel) (m : Message) (sender : PeerAddress) (d : Decoder) :
    headed ch m sender { d with message := m.withFields d.message } = headed ch m sender d := by
  simp only [headed, Message.withHeader, Message.withFields_withFields]

end Decoder

end TomP2P
