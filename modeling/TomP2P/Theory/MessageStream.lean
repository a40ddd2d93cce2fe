import TomP2P.Theory.CumulationTCP
import TomP2P.Theory.MessagePieces

/-!
# Messages over a Connection

Messages that are written one behind the other arrive at a connection in pieces that know
nothing of them. The loop hands on each message once, in the order in which they were written, as
soon as the last of its bytes is there, and nothing else.

For this, no piece may end in the key of a signed message, messages in a row have different ids,
and an id that is drawn by chance is none of theirs: a message with the id of the last one is taken
as complete at any time. Streaming messages are handed on in parts and are left out.

## Main definitions

* `Written.delivered`: The message that is handed on.
* `TomP2PCumulationTCP.handedOn`: The messages of a stream that are complete.
* `TomP2PCumulationTCP.Stream`: A connection with the number of bytes that have arrived.
* `TomP2PCumulationTCP.Position`: Where the connection is in the stream.

## Theorems

* `TomP2PCumulationTCP.Position.step`: A step goes on in the stream.
* `TomP2PCumulationTCP.fired_eq_handedOn`: What is handed on are the messages that are complete.
-/

namespace TomP2P

open Wire List

/-! ### Handing out -/

namespace Decoder

variable {f : SignatureFactory} {messageId : BitVec 32} {r : Message} {v rest : Bytes} {e : Decoder}

/-- What a message comes to does not depend on the id that was drawn for it, and not on what is behind it. -/
theorem finished_same (f : SignatureFactory) (messageId : BitVec 32) (r : Message) (v rest : Bytes) :
    (finished f messageId r v rest).exception = (finished f 0 r v []).exception ∧
      (finished f messageId r v rest).decoder.message = (finished f 0 r v []).decoder.message ∧
      (finished f messageId r v rest).decoder.message.messageId = r.messageId := by
  unfold finished
  split
  · dsimp only
    split
    · exact ⟨rfl, rfl, rfl⟩
    · split <;> exact ⟨rfl, rfl, rfl⟩
  · exact ⟨rfl, rfl, rfl⟩

theorem isStreaming_new (messageId : BitVec 32) : (new messageId).message.isStreaming = false := by
  change (0#32).slt (0#32 &&& 2#32) = false
  decide

/-- The decoder that has handed out a message it has read to the end is a new one. -/
theorem prepareFinish_finished (h : e.timeless = (finished f messageId r v rest).decoder) (messageId' : BitVec 32) :
    (e.prepareFinish messageId').2 = new messageId' := by
  have hleft : (finished f messageId r v rest).decoder.keyMapByte = {} ∧ (finished f messageId r v rest).decoder.trackerData = {} ∧
      (finished f messageId r v rest).decoder.dataMap.key = none := by
    unfold finished
    split
    · dsimp only
      split
      · exact ⟨rfl, rfl, rfl⟩
      · split <;> exact ⟨rfl, rfl, rfl⟩
    · exact ⟨rfl, rfl, rfl⟩
  rw [← h] at hleft
  have hmap : e.keyMapByte = {} := hleft.1
  have htracker : e.trackerData = {} := hleft.2.1
  have hkey : e.dataMap.key = none := hleft.2.2
  simp only [prepareFinish, hmap, htracker, hkey, new]

end Decoder

namespace Written

variable {f : SignatureFactory} {ch : Channel} {w : Written f ch} {vs : List Bytes} {sig u c : Bytes} {messageId : BitVec 32}
  {d : Decoder}

/-- The message that is handed on, but for the times of its values. -/
def delivered (w : Written f ch) : Message := { (Decoder.finished f 0 (w.received 0) w.bytes []).decoder.message with done := true }

/-- The algorithm answers for the signature of the message, if it has one. Otherwise it throws, for the
    key or for the signature. -/
def Answered (w : Written f ch) : Prop := (Decoder.finished f 0 (w.received 0) w.bytes []).exception = none

theorem Answered.supported (h : w.Answered) : w.Supported := by
  intro hsigned data hdata
  have hsign : (w.received 0).isSign = true := by
    rw [← hsigned, ← isSign_take (w := w) 0 w.contents.length, take_length]
    rfl
  rw [Answered, Decoder.finished, hsign, hdata] at h
  cases hinit : f.initVerify data with
  | ok => rfl
  | error e =>
      simp only [Decoder.update_error hinit] at h
      cases h

/-- A message that is waited for has its own id, or the one that was drawn for it. -/
theorem Awaits.id_eq (h : w.Awaits messageId vs sig u c d) :
    d.message.messageId = messageId ∨ d.message.messageId = w.message.messageId := by
  rcases h with ⟨_, _, _, _, r, rfl, rfl | rfl⟩ | ⟨_, _, h⟩
  · exact .inl rfl
  · exact .inr rfl
  · exact .inr h.id

theorem Awaits.isStreaming (h : w.Awaits messageId vs sig u c d) (hw : w.message.isStreaming = false) :
    d.message.isStreaming = false := by
  rcases h with ⟨_, _, _, _, r, rfl, rfl | rfl⟩ | ⟨_, _, h⟩
  · exact Decoder.isStreaming_new messageId
  · exact hw
  · rw [Message.isStreaming, h.options]
    exact hw

end Written

/-! ### Streams -/

namespace TomP2PCumulationTCP

variable {f : SignatureFactory} {ch : Channel}

def Fired.timeless : Fired → Fired
  | .channelRead message => .channelRead message.timeless
  | .exceptionCaught e => .exceptionCaught e

/-- The bytes of messages, one behind the other. -/
def stream (ws : List (Written f ch)) : Bytes := (ws.map Written.bytes).flatten

/-- The messages that are complete with the first `n` bytes. -/
def handedOn : List (Written f ch) → Nat → List Fired
  | [], _ => []
  | w :: ws, n => if w.bytes.length ≤ n then .channelRead w.delivered :: handedOn ws (n - w.bytes.length) else []

/-- Whether the first `n` bytes end in the key to verify a message with. -/
def endsInKey : List (Written f ch) → Nat → Bool
  | [], _ => false
  | w :: ws, n =>
      if w.bytes.length ≤ n then endsInKey ws (n - w.bytes.length)
      else w.header.length ≤ n && n < w.header.length + w.key.length

/-- The id of the last message, which is zero at first. -/
def idAfter (ws : List (Written f ch)) : BitVec 32 := (ws.getLast?.map fun w => w.message.messageId).getD 0

/-- Messages that a connection can tell apart, wherever they are cut, and for which no verification throws. -/
structure Separate (ws : List (Written f ch)) : Prop where
  cuttable : ∀ w ∈ ws, w.Cuttable
  answered : ∀ w ∈ ws, w.Answered
  whole : ∀ w ∈ ws, w.message.isStreaming = false
  ids : ∀ done w left, ws = done ++ w :: left → w.message.messageId ≠ idAfter done

/-- A connection, and the number of bytes that have arrived. -/
structure Stream where
  system : System
  arrived : Nat := 0

/-- The bytes arrive in their order. -/
def Stream.step (f : SignatureFactory) (ch : Channel) (bytes : Bytes) (s : Stream) : Event → Option Stream
  | .channelRead buf =>
      if buf.isPrefixOf (bytes.drop s.arrived) then
        (s.system.step f ch (.channelRead buf)).map fun t => ⟨t, s.arrived + buf.length⟩
      else none
  | .turn now messageId => (s.system.step f ch (.turn now messageId)).map fun t => ⟨t, s.arrived⟩

/-- No piece ends in a key, and no id that is drawn is that of a message. -/
def Clear (ws : List (Written f ch)) (s : Stream) : Event → Prop
  | .channelRead buf => endsInKey ws (s.arrived + buf.length) = false
  | .turn _ messageId => ∀ w ∈ ws, messageId ≠ w.message.messageId

/-- The states of a new connection over which the messages are sent. -/
def Stream.Reachable (ws : List (Written f ch)) : Stream → Prop :=
  Reached (Stream.step f ch (stream ws)) (Clear ws) fun s => ∃ messageId, messageId ≠ 0 ∧ s = ⟨.start messageId, 0⟩

section Lists

variable {ws ws' : List (Written f ch)} {w : Written f ch} {n : Nat}

theorem stream_append : stream (ws ++ ws') = stream ws ++ stream ws' := by simp [stream]

theorem stream_cons : stream (w :: ws) = w.bytes ++ stream ws := rfl

theorem length_stream_cons : (stream (w :: ws)).length + n = w.bytes.length + ((stream ws).length + n) := by
  rw [stream_cons, length_append, Nat.add_assoc]

theorem handedOn_append : handedOn (ws ++ ws') ((stream ws).length + n) =
    (ws.map fun w => .channelRead w.delivered) ++ handedOn ws' n := by
  induction ws with
  | nil => simp [stream]
  | cons w ws ih =>
      rw [cons_append, length_stream_cons, handedOn, if_pos (Nat.le_add_right _ _), Nat.add_sub_cancel_left, ih]
      rfl

theorem endsInKey_append : endsInKey (ws ++ ws') ((stream ws).length + n) = endsInKey ws' n := by
  induction ws with
  | nil => simp [stream]
  | cons w ws ih =>
      rw [cons_append, length_stream_cons, endsInKey, if_pos (Nat.le_add_right _ _), Nat.add_sub_cancel_left, ih]

theorem idAfter_append : idAfter (ws ++ [w]) = w.message.messageId := by simp [idAfter]

end Lists

/-! ### The loop in a stream -/

/-- The decoder waits for the first of the messages that are left. The bytes `c` of it are to come. -/
def Waits (messageId : BitVec 32) (u c : Bytes) (d : Decoder) : List (Written f ch) → Prop
  | [] => d = .new messageId ∧ u = [] ∧ c = []
  | w :: _ => ∃ vs sig, w.Layout vs sig ∧ w.Awaits messageId vs sig u c d

/-- The messages `done` were handed on, and the decoder waits for the others. It has not seen the
    bytes `z`. -/
structure Position (ws : List (Written f ch)) (s : Stream) (done left : List (Written f ch)) (messageId : BitVec 32) (u z c : Bytes) :
    Prop where
  split : ws = done ++ left
  cumulation : s.system.connection.cumulation = u ++ z
  lastId : s.system.connection.lastId = idAfter done
  fired : s.system.fired.map Fired.timeless = done.map fun w => .channelRead w.delivered
  waits : Waits messageId u c s.system.connection.decoder left
  fresh : messageId ≠ idAfter done
  bytes : z ++ (stream ws).drop s.arrived = c ++ stream left.tail
  arrived : s.arrived ≤ (stream ws).length
  idle : s.system.running = false → z = []
  clear : endsInKey ws s.arrived = false

variable {ws done left : List (Written f ch)} {s s' : Stream} {messageId : BitVec 32} {u z c : Bytes}

theorem waits_new (hf : f.Lawful) (messageId : BitVec 32) (left : List (Written f ch)) :
    ∃ c, Waits messageId [] c (.new messageId) left ∧ stream left = c ++ stream left.tail := by
  cases left with
  | nil => exact ⟨[], ⟨rfl, rfl, rfl⟩, rfl⟩
  | cons w left =>
      rcases w.exists_layout hf with ⟨vs, sig, L⟩
      exact ⟨w.bytes, ⟨vs, sig, L, .start L messageId⟩, rfl⟩

theorem position_start (hf : f.Lawful) (ws : List (Written f ch)) (hid : messageId ≠ 0) (hclear : endsInKey ws 0 = false) :
    ∃ c, Position ws ⟨.start messageId, 0⟩ [] ws messageId [] [] c := by
  rcases waits_new hf messageId ws with ⟨c, hwaits, hbytes⟩
  exact ⟨c,
    { split := rfl
      cumulation := rfl
      lastId := rfl
      fired := rfl
      waits := hwaits
      fresh := hid
      bytes := by rw [drop_zero, nil_append, hbytes]
      arrived := Nat.zero_le _
      idle _ := rfl
      clear := hclear }⟩

/-- A piece arrives after the loop has ended. -/
theorem Position.channelRead (h : Position ws s done left messageId u z c) {buf : Bytes}
    (hclear : endsInKey ws (s.arrived + buf.length) = false) (hstep : Stream.step f ch (stream ws) s (.channelRead buf) = some s') :
    Position ws s' done left messageId u buf c := by
  simp only [Stream.step, System.step] at hstep
  split at hstep
  · next hprefix =>
      rcases isPrefixOf_iff_prefix.mp hprefix with ⟨t, ht⟩
      split at hstep
      · cases hstep
      · next hrunning =>
          have hz : z = [] := h.idle (by simpa using hrunning)
          subst hz
          cases hstep
          have hdrop : (stream ws).drop (s.arrived + buf.length) = t := by
            rw [← drop_drop, ← ht, drop_left]
          have hlen := congrArg List.length ht
          rw [length_append, length_drop] at hlen
          have harrived := h.arrived
          exact
            { split := h.split
              cumulation := by rw [h.cumulation, append_nil]
              lastId := h.lastId
              fired := h.fired
              waits := h.waits
              fresh := h.fresh
              bytes := by rw [hdrop, ht, ← h.bytes, nil_append]
              arrived := by
                change s.arrived + buf.length ≤ _
                omega
              idle hidle := by cases hidle
              clear := hclear }
  · cases hstep

/-- The number of bytes that have arrived, from those of the first message that are to come. -/
theorem arrived_eq {w : Written f ch} {n : Nat} (hsplit : ws = done ++ w :: left) (hn : n ≤ (stream ws).length)
    (hdrop : (stream ws).drop n = c ++ stream left) (hle : c.length ≤ w.bytes.length) :
    n = (stream done).length + (w.bytes.length - c.length) := by
  have hlen := congrArg List.length hdrop
  rw [length_drop, length_append] at hlen
  rw [hsplit, stream_append, stream_cons, length_append, length_append] at hlen hn
  omega

section Turns

variable {connection : TomP2PCumulationTCP} {now : BitVec 64} (messageId' : BitVec 32) {e : Decoder} {r : Bytes}

/-- A turn without a complete message ends the loop. -/
theorem turn_waits (h : Decoder.decode f ch now connection.decoder connection.cumulation = ⟨false, none, e, r⟩)
    (hid : e.message.messageId ≠ connection.lastId) (hstreaming : e.message.isStreaming = false) :
    connection.turn f ch now messageId' = ⟨false, ⟨e, r, connection.lastId⟩, []⟩ := by
  simp [TomP2PCumulationTCP.turn, h, Ne.symm hid, hstreaming]

/-- A turn with a complete message hands it on, and gets ready for the next one. -/
theorem turn_done {m : Message} {v : Bytes} (hnone : (Decoder.finished f messageId m v r).exception = none)
    (h : (Decoder.decode f ch now connection.decoder connection.cumulation).timeless = Decoder.finished f messageId m v r) :
    ∃ e : Decoder, e.timeless = (Decoder.finished f messageId m v r).decoder ∧ connection.turn f ch now messageId' =
      ⟨!r.isEmpty, ⟨.new messageId', r, e.message.messageId⟩, [.channelRead { e.message with done := true }]⟩ := by
  rcases hdecoded : Decoder.decode f ch now connection.decoder connection.cumulation with ⟨finished, x, e, r'⟩
  rcases Decoder.finished_eq f messageId m v with ⟨x', e', hfinished⟩
  rw [hfinished] at hnone
  rw [hdecoded, hfinished] at h
  rcases Decoder.Decoded.mk.inj h with ⟨rfl, rfl, he, rfl⟩
  cases hnone
  have hlast : e.timeless = (Decoder.finished f messageId m v r').decoder := by rw [hfinished, he]
  have hturn : connection.turn f ch now messageId' = finish messageId' e.message.messageId ⟨true, none, e, r'⟩ := by
    simp only [TomP2PCumulationTCP.turn, hdecoded, if_true]
  have hfinish : finish messageId' e.message.messageId ⟨true, none, e, r'⟩ =
      ⟨!r'.isEmpty, ⟨(e.prepareFinish messageId').2, r', e.message.messageId⟩, [.channelRead { e.message with done := true }]⟩ := rfl
  exact ⟨e, hlast, by rw [hturn, hfinish, Decoder.prepareFinish_finished hlast]⟩

end Turns

/-- A turn goes on in the stream: the decoder waits, or the message is handed on. -/
theorem Position.turn (hf : f.Lawful) (hws : Separate ws) (h : Position ws s done left messageId u z c) {now : BitVec 64}
    {messageId' : BitVec 32} (hdrawn : ∀ w ∈ ws, messageId' ≠ w.message.messageId)
    (hstep : Stream.step f ch (stream ws) s (.turn now messageId') = some s') :
    ∃ done' left' messageId u z c, Position ws s' done' left' messageId u z c := by
  simp only [Stream.step, System.step] at hstep
  split at hstep
  · cases hstep
    have hbuf := h.cumulation
    have hbytes := h.bytes
    have hwaits := h.waits
    cases left with
    | nil =>
        -- Nothing is left to be read.
        rcases hwaits with ⟨hd, rfl, rfl⟩
        have hz : z = [] := (append_eq_nil_iff.mp hbytes).1
        subst hz
        have hdecode : Decoder.decode f ch now s.system.connection.decoder s.system.connection.cumulation =
            ⟨false, none, .new messageId, []⟩ := by
          rw [hbuf, hd]
          rfl
        have hturn := turn_waits messageId' hdecode (by rw [h.lastId]; exact h.fresh)
          (Decoder.isStreaming_new messageId)
        refine ⟨done, [], messageId, [], [], [], ?_⟩
        rw [hturn]
        exact
          { split := h.split
            cumulation := rfl
            lastId := h.lastId
            fired := by rw [append_nil, h.fired]
            waits := ⟨rfl, rfl, rfl⟩
            fresh := h.fresh
            bytes := hbytes
            arrived := h.arrived
            idle _ := rfl
            clear := h.clear }
    | cons w left =>
        rcases hwaits with ⟨vs, sig, L, hawaits⟩
        have hmem : w ∈ ws := by simp [h.split]
        have hcut := hws.cuttable w hmem
        have hanswered := hws.answered w hmem
        have hle := hawaits.length_le L
        rcases Written.append_eq_append hbytes with ⟨c', hc', rfl, hrest⟩ | ⟨r, rfl, hrest⟩
        · -- The message is cut again.
          have hpos := length_pos_of_ne_nil hc'
          have hshort : c'.length ≤ w.bytes.length := by
            rw [length_append] at hle
            omega
          have harrived := arrived_eq h.split h.arrived hrest hshort
          have hkey : w.header.length ≤ w.bytes.length - c'.length →
              w.header.length + w.key.length ≤ w.bytes.length - c'.length := by
            have hclear := h.clear
            rw [h.split, harrived, endsInKey_append, endsInKey, if_neg (by omega), Bool.and_eq_false_iff, decide_eq_false_iff_not,
              decide_eq_false_iff_not] at hclear
            omega
          rcases L.decode_waits hanswered.supported hcut now hawaits hc' hkey with ⟨e, u', hdecode, he⟩
          have hid : e.message.messageId ≠ s.system.connection.lastId := by
            rw [h.lastId]
            rcases he.id_eq with hid | hid
            · rw [hid]
              exact h.fresh
            · rw [hid]
              exact hws.ids done w left h.split
          rw [← hbuf] at hdecode
          have hturn := turn_waits messageId' hdecode hid (he.isStreaming (hws.whole w hmem))
          refine ⟨done, w :: left, messageId, u', [], c', ?_⟩
          rw [hturn]
          exact
            { split := h.split
              cumulation := (append_nil _).symm
              lastId := h.lastId
              fired := by rw [append_nil, h.fired]
              waits := ⟨vs, sig, L, he⟩
              fresh := h.fresh
              bytes := hrest
              arrived := h.arrived
              idle _ := rfl
              clear := h.clear }
        · -- The message is complete.
          have hdone := L.decode_done hanswered.supported hcut now hawaits r
          have hsame := Decoder.finished_same f messageId (w.received 0) w.bytes r
          rw [← hbuf] at hdone
          rcases turn_done messageId' (hsame.1.trans hanswered) hdone with ⟨e, he, hturn⟩
          rcases waits_new hf messageId' left with ⟨c', hnext, hstream⟩
          have hid : e.message.messageId = w.message.messageId := by
            change e.timeless.message.messageId = _
            rw [he, hsame.2.2]
            exact Message.foldl_receive Message.messageId (fun r p => by cases p <;> rfl) _ _
          have hmessage : Message.timeless { e.message with done := true } = w.delivered := by
            change { e.timeless.message with done := true } = _
            rw [he, hsame.2.1]
            rfl
          refine ⟨done ++ [w], left, messageId', [], r, c', ?_⟩
          rw [hturn]
          exact
            { split := by rw [append_assoc, h.split]; rfl
              cumulation := rfl
              lastId := by rw [idAfter_append, hid]
              fired := by
                rw [map_append, h.fired, map_append]
                exact congrArg _ (congrArg (fun m => [Fired.channelRead m]) hmessage)
              waits := hnext
              fresh := by
                rw [idAfter_append]
                exact hdrawn w hmem
              bytes := by rw [← hrest, ← hstream]; rfl
              arrived := h.arrived
              idle hidle := by simpa using hidle
              clear := h.clear }
  · cases hstep

/-- What was handed on had come before. -/
theorem Position.handedOn_eq (h : Position ws s done left messageId u z c) :
    ∃ n, handedOn ws s.arrived = s.system.fired.map Fired.timeless ++ handedOn left n ∧
      (z = [] → handedOn left n = []) := by
  have hbytes := congrArg List.length h.bytes
  have hwaits := h.waits
  have harrived := h.arrived
  rw [length_append, length_append, length_drop] at hbytes
  rw [h.fired]
  cases left with
  | nil =>
      rcases hwaits with ⟨_, _, rfl⟩
      have hend : s.arrived = (stream done).length + 0 := by
        rw [h.split, append_nil] at hbytes harrived
        simp only [length_nil, tail_nil, stream, map_nil, flatten_nil] at hbytes harrived ⊢
        omega
      exact ⟨0, by rw [h.split, hend, handedOn_append], fun _ => rfl⟩
  | cons w left =>
      rcases hwaits with ⟨vs, sig, L, hawaits⟩
      have hle := hawaits.length_le L
      have hpos := length_pos_of_ne_nil hawaits.ne_nil
      have hend : s.arrived = (stream done).length + (w.bytes.length - c.length + z.length) := by
        rw [h.split, stream_append, stream_cons, length_append, length_append] at hbytes harrived
        rw [tail_cons] at hbytes
        omega
      refine ⟨w.bytes.length - c.length + z.length, by rw [h.split, hend, handedOn_append], ?_⟩
      rintro rfl
      rw [handedOn, if_neg (by rw [length_nil]; omega)]

theorem endsInKey_zero (hf : f.Lawful) (ws : List (Written f ch)) : endsInKey ws 0 = false := by
  cases ws with
  | nil => rfl
  | cons w ws =>
      rcases w.exists_layout hf with ⟨vs, sig, L⟩
      have hpos := L.header_length
      have hbytes : 0 < w.bytes.length := by
        rw [L.bytes, length_append]
        omega
      rw [endsInKey, if_neg (by omega), Bool.and_eq_false_iff, decide_eq_false_iff_not]
      exact .inl (by omega)

theorem handedOn_stream (ws : List (Written f ch)) : handedOn ws (stream ws).length = ws.map fun w => .channelRead w.delivered := by
  have h : handedOn (ws ++ []) ((stream ws).length + 0) = _ ++ handedOn [] 0 := handedOn_append
  rwa [append_nil, Nat.add_zero, handedOn, append_nil] at h

/-- The connection is somewhere in the stream. -/
theorem exists_position (hf : f.Lawful) (hws : Separate ws) (h : Stream.Reachable ws s) :
    ∃ done left messageId u z c, Position ws s done left messageId u z c := by
  refine Reached.invariant (fun s => ∃ done left messageId u z c, Position ws s done left messageId u z c) ?_ ?_ h
  · rintro s ⟨messageId, hid, rfl⟩
    rcases position_start hf ws hid (endsInKey_zero hf ws) with ⟨c, hposition⟩
    exact ⟨[], ws, messageId, [], [], c, hposition⟩
  · rintro s e s' ⟨done, left, messageId, u, z, c, hposition⟩ hclear hstep
    cases e with
    | channelRead buf => exact ⟨done, left, messageId, u, buf, c, hposition.channelRead hclear hstep⟩
    | turn now messageId' => exact hposition.turn hf hws hclear hstep

/-- The messages are handed on in the order in which they were written, each once its last byte has
    come, and nothing else is. When the loop has ended, none that is complete is missing. -/
theorem fired_eq_handedOn (hf : f.Lawful) (hws : Separate ws) (h : Stream.Reachable ws s) :
    s.system.fired.map Fired.timeless <+: handedOn ws s.arrived ∧
      (s.system.running = false → s.system.fired.map Fired.timeless = handedOn ws s.arrived) ∧
      (s.system.running = false → s.arrived = (stream ws).length →
        s.system.fired.map Fired.timeless = ws.map fun w => .channelRead w.delivered) := by
  rcases exists_position hf hws h with ⟨done, left, messageId, u, z, c, hposition⟩
  rcases hposition.handedOn_eq with ⟨n, heq, hnil⟩
  have hidle : s.system.running = false → s.system.fired.map Fired.timeless = handedOn ws s.arrived := by
    intro hrunning
    rw [heq, hnil (hposition.idle hrunning), append_nil]
  refine ⟨?_, hidle, ?_⟩
  · rw [heq]
    exact prefix_append _ _
  · intro hrunning hall
    rw [hidle hrunning, hall, handedOn_stream]

instance (ws : List (Written f ch)) (s : Stream) (e : Event) : Decidable (Clear ws s e) :=
  match e with
  | .channelRead buf => inferInstanceAs (Decidable (endsInKey ws (s.arrived + buf.length) = false))
  | .turn _ messageId => inferInstanceAs (Decidable (∀ w ∈ ws, messageId ≠ w.message.messageId))

end TomP2PCumulationTCP

namespace Written

/-- An unsigned message with a number. -/
def unsigned : Written .zeros ⟨.v4 0x7f000009 4000, .v4 0x7f000001 4000, false⟩ where
  start := { signed.start with messageId := 4 }
  contents := [.intValue 7]
  message := _
  sender := PeerAddress.reachedDirectly.transferred
  now := 100
  signature := none
  bytes := _
  used := _
  fresh := ⟨⟨rfl, rfl, rfl, fun c => by cases c <;> rfl⟩, rfl, rfl⟩
  setAll := rfl
  fits :=
    { version := signed.fits.version
      options := signed.fits.options
      contentTypes := rfl
      wellFormed := signed.fits.wellFormed
      seen_eq := signed.fits.seen_eq }
  sendable := by
    intro p hp
    simp only [mem_cons, not_mem_nil, or_false] at hp
    subst hp
    trivial
  signature_length := signed.signature_length
  write := rfl

end Written

namespace TomP2PCumulationTCP

/-- Two messages, the first of which is signed. -/
def two : List (Written .zeros ⟨.v4 0x7f000009 4000, .v4 0x7f000001 4000, false⟩) := [.signed, .unsigned]

theorem separate_two : Separate two where
  cuttable := by
    intro w hw
    simp only [two, mem_cons, not_mem_nil, or_false] at hw
    rcases hw with rfl | rfl
    · exact Written.cuttable_signed
    · intro p hp
      simp only [Written.unsigned, mem_cons, not_mem_nil, or_false] at hp
      subst hp
      trivial
  answered := by
    intro w hw
    simp only [two, mem_cons, not_mem_nil, or_false] at hw
    rcases hw with rfl | rfl
    · show (Decoder.finished .zeros 0 (Written.signed.received 0) Written.signed.bytes []).exception = none
      decide
    · rfl
  whole := by decide
  ids := by
    intro done w left h
    rcases done with _ | ⟨v, _ | ⟨v', done⟩⟩
    · cases h
      decide
    · cases h
      decide
    · cases done <;> cases h

/-- The messages come in two pieces, the first of which ends in the signed one. -/
theorem fired_eq_handedOn_two : ∃ s : Stream, s.system.running = false ∧ s.arrived = (stream two).length ∧
    s.system.fired.map Fired.timeless = [.channelRead Written.signed.delivered, .channelRead Written.unsigned.delivered] := by
  have hrun : (replay (Stream.step .zeros ⟨.v4 0x7f000009 4000, .v4 0x7f000001 4000, false⟩ (stream two)) (Clear two)
      [.channelRead ((stream two).take 100), .turn 1 50, .channelRead ((stream two).drop 100), .turn 2 51, .turn 3 52]
      ⟨.start 9, 0⟩).map (fun s => (s.system.running, s.arrived)) = some (false, (stream two).length) := by decide +kernel
  rcases Option.map_eq_some_iff.mp hrun with ⟨s, hs, hend⟩
  have hrunning : s.system.running = false := congrArg Prod.fst hend
  have harrived : s.arrived = (stream two).length := congrArg Prod.snd hend
  have hreached : Stream.Reachable two s := Reached.replay _ (.start ⟨9, by decide, rfl⟩) hs
  exact ⟨s, hrunning, harrived, (fired_eq_handedOn SignatureFactory.zeros_lawful separate_two hreached).2.2 hrunning harrived⟩

end TomP2PCumulationTCP

end TomP2P
