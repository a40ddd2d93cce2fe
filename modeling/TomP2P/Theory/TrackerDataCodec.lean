import TomP2P.Core.TrackerDataCodec
import TomP2P.Theory.AddressCodec
import TomP2P.Theory.WireConsistent

/-!
# Reading Back Tracker Data

The header of an address has three bytes, and the decoder takes four for it. The size it
waits for is that of another address, with the flags of the second and third byte as the
number and families of its relays and the byte behind the header as its flags. It can be
larger or smaller than the real size.

A size that is too large does no harm as long as there are so many bytes behind the
address; at the end of a message the decoder waits for ever (`Complete`). A size that is
too small does no harm as long as the address arrives as a whole; otherwise the address is
read from too few bytes, which throws. An earlier address can prevent this, if the
size it was announced with reaches to the end of the later one (`Guarded`).

The rest is about flags. In a signed message each value gets the key of the message, and
with it the flag of a key, whether or not it announced one. In a reply each value gets a
time to live, which is not compared.

And it is about hashes. A map looks for an address under the hash that it carries. One that
is read carries the hash of its id, one that is built carries none unless it is given one,
so that it is not found in what is read.

## Main definitions

* `TrackerData.announced`: The size the decoder waits for.
* `TrackerData.Complete`, `TrackerData.Guarded`: When it does no harm.
* `TrackerData.Arrives`: What a part of the encoding stands for.
* `TrackerData.DecodesBack`, `TrackerData.NeverShort`: What is asked of the decoder.

## Theorems

* `TrackerData.run_entries`, `TrackerData.wait_of_not_complete`: The whole encoding.
* `TrackerData.Guarded.not_fail`, `TrackerData.guarded_of`: Parts of it.
* `TrackerData.decodesBack_iff_guarded`: The tracker data that are read back.
-/

namespace TomP2P

open Wire Reader Effect Outcome SignatureFactory HashedMap List

namespace PeerAddress

/-- An address is read at once. -/
theorem strict_decode {σ : Type} : Strict (decode (σ := σ)) := by
  have hint : Strict (readInt (σ := σ)) := Strict.field _ 4 32
  have hlong : Strict (readLong (σ := σ)) := Strict.field _ 8 64
  have hshort : Strict (readUnsignedShort (σ := σ)) := Strict.field _ 2 32
  have hid : Strict (Number160.decode (σ := σ)) :=
    hint.bind fun _ => hint.bind fun _ => hint.bind fun _ => hint.bind fun _ => hint.bind fun _ =>
      Strict.pure _
  have hip {A : Type} {p : Reader JavaException σ A} (hp : Strict p) (skip : Bool) :
      Strict (decodeIp skip p) := by
    cases skip with
    | true => exact Strict.pure none
    | false => exact hp.map some
  have h4 (skip : Bool) : Strict (PeerSocket4Address.decode (σ := σ) skip) :=
    (hip hint skip).bind fun _ => hshort.bind fun _ => hshort.bind fun _ => hshort.bind fun _ => Strict.pure _
  have h6 (skip : Bool) : Strict (PeerSocket6Address.decode (σ := σ) skip) :=
    (hip (hlong.bind fun _ => hlong.bind fun _ => Strict.pure _) skip).bind fun _ => hshort.bind fun _ =>
      hshort.bind fun _ => hshort.bind fun _ => Strict.pure _
  have hrelay (v6 : Bool) : Strict (PeerSocketAddress.decode (σ := σ) v6) := by
    cases v6 with
    | true => exact (h6 false).map _
    | false => exact (h4 false).map _
  have hsocket {A : Type} {p : Reader JavaException σ A} (hp : Strict p) (announced : Bool) :
      Strict (decodeSocket announced p) := by
    cases announced with
    | true => exact hp.map some
    | false => exact Strict.pure none
  exact (Strict.field _ 3 32).bind fun _ => (Strict.each hrelay _).bind fun _ =>
    (hsocket (h4 _) _).bind fun _ => (hsocket (h4 false) _).bind fun _ => (hsocket (h6 _) _).bind fun _ =>
      hid.bind fun _ => Strict.pure _

/-- No address is smaller than its header and its id. -/
theorem le_size (header : BitVec 32) : 23 ≤ size header := by
  rw [size, Flags.size, Flags.sizeWith, HEADER_SIZE, Number160.BYTE_ARRAY_SIZE]
  omega

end PeerAddress

namespace TrackerData

/-! ### The size that is waited for -/

/-- The size of an address whose header the first four bytes were. -/
def announced (v : Bytes) : Nat := PeerAddress.size (BitVec.ofNat 32 (ofBE (v.take 4)))

theorem announced_append (v r : Bytes) (h : 4 ≤ v.length) : announced (v ++ r) = announced v := by
  rw [announced, announced, take_append_of_le_length h]

/-- Behind each address there are as many bytes as are waited for. -/
def Complete : List (Bytes × Bytes) → Prop
  | [] => True
  | part :: parts =>
      announced part.1 ≤ part.1.length + part.2.length + (flatten parts).length ∧ Complete parts

instance : (parts : List (Bytes × Bytes)) → Decidable (Complete parts)
  | [] => inferInstanceAs (Decidable True)
  | _ :: parts =>
      have : Decidable (Complete parts) := instDecidableComplete parts
      inferInstanceAs (Decidable (_ ∧ _))

/-- For each address as many bytes as it has are waited for, with it or with an address in
    front of it. `reach` is how many bytes are known to be there. -/
def Guarded : Nat → List (Bytes × Bytes) → Prop
  | _, [] => True
  | reach, part :: parts =>
      part.1.length ≤ max reach (announced part.1) ∧
        Guarded (max reach (announced part.1) - (part.1.length + part.2.length)) parts

theorem flatten_cons (part : Bytes × Bytes) (parts : List (Bytes × Bytes)) :
    flatten (part :: parts) = part.1 ++ (part.2 ++ flatten parts) := by
  rw [flatten, flatMap_cons, append_assoc]
  rfl

/-! ### One entry -/

section Entry

variable {f : SignatureFactory} {message : Signer} {now : BitVec 64}

/-- The state with one more entry. -/
def stored (e : PeerAddress × Data) (s : Decoding) : Decoding :=
  { s with
    trackerData := s.trackerData.map fun m => m.put e.1 e.2
    currentTrackerData := none }

/-- The two parts of an entry are read to an address and a value: the address at once, the
    value as it comes. -/
structure Arrives (f : SignatureFactory) (message : Signer) (now : BitVec 64) (part : Bytes × Bytes)
    (e : PeerAddress × Data) : Prop where
  address : Parses (PeerAddress.decode (σ := Decoding)) part.1 e.1
  long : 23 ≤ part.1.length
  value : ∀ s rest, (decodeValue f message now e.1).run s (part.2 ++ rest) = .done () (stored e s) rest
  cut : ∀ s b c, c ≠ [] → part.2 = b ++ c → ∃ s' r, (decodeValue f message now e.1).run s b = .wait s' r

/-- What the decoder does once four bytes are there. -/
theorem run_decodeEntry (b : Bytes) (s : Decoding) (h : 4 ≤ b.length) :
    (decodeEntry f message now).run s b =
      if b.length < announced b then .wait s b
      else (PeerAddress.decode >>= decodeValue f message now).run s b := by
  have hlook : (lookField 0 4 32 : Reader JavaException Decoding (BitVec 32)).run s b =
      .done (BitVec.ofNat 32 (ofBE (b.take 4))) s b := by
    rw [lookField, run_bind, run_look, if_neg (by omega), andThen_done, run_pure, drop_zero]
  rw [decodeEntry, run_bind, run_need_of_le 4 s b h, andThen_done, run_bind, hlook,
    andThen_done, run_bind, run_need]
  by_cases hlt : b.length < announced b
  · rw [if_pos hlt, if_pos (show b.length < PeerAddress.size _ from hlt), andThen_wait]
  · rw [if_neg hlt, if_neg (show ¬ b.length < PeerAddress.size _ from hlt), andThen_done]

variable {part : Bytes × Bytes} {e : PeerAddress × Data}

theorem Arrives.announced_eq (h : Arrives f message now part e) (r : Bytes) :
    announced (part.1 ++ r) = announced part.1 :=
  announced_append part.1 r (by have hlong := h.long; omega)

/-- An entry is read if there are as many bytes as are waited for. -/
theorem Arrives.done (h : Arrives f message now part e) (s : Decoding) (rest : Bytes)
    (hthere : announced part.1 ≤ part.1.length + part.2.length + rest.length) :
    (decodeEntry f message now).run s (part.1 ++ (part.2 ++ rest)) = .done () (stored e s) rest := by
  have hlong := h.long
  have hlen : (part.1 ++ (part.2 ++ rest)).length = part.1.length + part.2.length + rest.length := by
    rw [length_append, length_append, Nat.add_assoc]
  rw [run_decodeEntry _ s (by omega), h.announced_eq, if_neg (by omega), run_bind, h.address,
    andThen_done, h.value]

/-- Otherwise it is waited for, although it is there. -/
theorem Arrives.waits (h : Arrives f message now part e) (s : Decoding) (b : Bytes) (hb : part.1.length ≤ b.length)
    (hfront : b.take part.1.length = part.1) (hshort : b.length < announced part.1) :
    (decodeEntry f message now).run s b = .wait s b := by
  have hlong := h.long
  have hsame : announced b = announced part.1 := by
    rw [← take_append_drop part.1.length b, hfront, h.announced_eq]
  rw [run_decodeEntry b s (by omega), hsame, if_pos hshort]

/-- On a part of its bytes an entry is waited for, or its address is read from too few. -/
theorem Arrives.on_cut (h : Arrives f message now part e) (s : Decoding) (b c : Bytes) (hc : c ≠ [])
    (hcut : part.1 ++ part.2 = b ++ c) :
    (∃ s' r, (decodeEntry f message now).run s b = .wait s' r) ∨
      b.length < part.1.length ∧ announced part.1 ≤ b.length ∧
        ∃ x s' r, (decodeEntry f message now).run s b = .fail x s' r := by
  have hlong := h.long
  by_cases hfour : b.length < 4
  · refine .inl ⟨s, b, ?_⟩
    rw [decodeEntry, run_bind, run_need_of_lt 4 s b hfour, andThen_wait]
  have hle := Nat.not_lt.mp hfour
  have hsame : announced b = announced part.1 := by
    rw [← announced_append b c hle, ← hcut, h.announced_eq]
  rw [run_decodeEntry b s hle, hsame]
  by_cases hshort : b.length < announced part.1
  · rw [if_pos hshort]
    exact .inl ⟨s, b, rfl⟩
  · rw [if_neg hshort]
    rcases cut_append hcut with ⟨c', hc', haddress⟩ | ⟨b', rfl, hvalue⟩
    · -- the cut is inside the address
      have hlen := congrArg List.length haddress
      rw [length_append] at hlen
      have hpos := length_pos_of_ne_nil hc'
      have hparse := h.address
      rw [haddress] at hparse
      obtain ⟨x, s', r, hfail⟩ := PeerAddress.strict_decode.fails hparse hc' s
      refine .inr ⟨by omega, Nat.not_lt.mp hshort, x, s', r, ?_⟩
      rw [run_bind, hfail, andThen_fail]
    · obtain ⟨s', r, hwait⟩ := h.cut s b' c hc hvalue
      refine .inl ⟨s', r, ?_⟩
      rw [run_bind, h.address, andThen_done, hwait]

/-! ### All entries -/

variable {parts : List (Bytes × Bytes)} {entries : List (PeerAddress × Data)}

/-- Complete entries are read one after the other. -/
theorem run_entries (h : List.Forall₂ (Arrives f message now) parts entries) (hcomplete : Complete parts)
    (s : Decoding) (rest : Bytes) :
    (repeat_ (decodeEntry f message now) parts.length).run s (flatten parts ++ rest) =
      .done () (entries.foldl (fun s e => stored e s) s) rest := by
  induction h generalizing s with
  | nil => rfl
  | @cons part e parts entries hpart _ ih =>
      have hdone := hpart.done s (flatten parts ++ rest) (by
        have hthere := hcomplete.1
        rw [length_append]
        omega)
      rw [length_cons, repeat_, flatten_cons, append_assoc, append_assoc, run_bind, hdone,
        andThen_done, ih hcomplete.2, foldl_cons]

/-- If they are not complete the decoder waits, at the end of the encoding. -/
theorem wait_of_not_complete (h : List.Forall₂ (Arrives f message now) parts entries) (hnot : ¬ Complete parts)
    (s : Decoding) :
    ∃ s' r, (repeat_ (decodeEntry f message now) parts.length).run s (flatten parts) = .wait s' r := by
  induction h generalizing s with
  | nil => exact absurd trivial hnot
  | @cons part e parts entries hpart _ ih =>
      rw [length_cons, repeat_, flatten_cons, run_bind]
      by_cases hthere : announced part.1 ≤ part.1.length + part.2.length + (flatten parts).length
      · rw [hpart.done s _ hthere, andThen_done]
        exact ih (fun hrest => hnot ⟨hthere, hrest⟩) _
      · have hlen : (part.1 ++ (part.2 ++ flatten parts)).length =
            part.1.length + part.2.length + (flatten parts).length := by
          rw [length_append, length_append, Nat.add_assoc]
        rw [hpart.waits s _ (by omega) (take_left' rfl) (by omega), andThen_wait]
        exact ⟨_, _, rfl⟩

/-- Guarded entries are never read from too few bytes. -/
theorem Guarded.not_fail (h : List.Forall₂ (Arrives f message now) parts entries) {reach : Nat}
    (hguarded : Guarded reach parts) (s : Decoding) (b c : Bytes) (hcut : flatten parts = b ++ c)
    (hreach : reach ≤ b.length) (x : JavaException) (s' : Decoding) (r : Bytes) :
    (repeat_ (decodeEntry f message now) parts.length).run s b ≠ .fail x s' r := by
  induction h generalizing reach s b with
  | nil =>
      intro hfail
      cases hfail
  | @cons part e parts entries hpart _ ih =>
      rw [flatten_cons, ← append_assoc] at hcut
      rw [length_cons, repeat_, run_bind]
      rcases cut_append hcut with ⟨c', hc', hfirst⟩ | ⟨b', rfl, hrest⟩
      · rcases hpart.on_cut s b c' hc' hfirst with ⟨s₁, r₁, hwait⟩ | ⟨hshort, hthere, _⟩
        · rw [hwait, andThen_wait]
          intro hfail
          cases hfail
        · have hfits := hguarded.1
          omega
      · rw [append_assoc]
        by_cases hthere : announced part.1 ≤ part.1.length + part.2.length + b'.length
        · rw [hpart.done s b' hthere, andThen_done]
          refine ih hguarded.2 _ b' hrest ?_
          rw [length_append, length_append] at hreach
          omega
        · have hlen : (part.1 ++ (part.2 ++ b')).length = part.1.length + part.2.length + b'.length := by
            rw [length_append, length_append, Nat.add_assoc]
          rw [hpart.waits s _ (by omega) (take_left' rfl) (by omega), andThen_wait]
          intro hfail
          cases hfail

/-- If less was waited for than an address has, all of its bytes but the last are too few. -/
theorem Arrives.fails (h : Arrives f message now part e) (s : Decoding) {reach : Nat}
    (hlarge : max reach (announced part.1) < part.1.length) :
    ∃ b c, part.1 = b ++ c ∧ reach ≤ b.length ∧
      ∃ x s' r, (decodeEntry f message now).run s b = .fail x s' r := by
  have hlong := h.long
  have hsplit := take_append_drop (part.1.length - 1) part.1
  have hlen : (part.1.take (part.1.length - 1)).length = part.1.length - 1 := by
    rw [length_take]
    omega
  have hlast : part.1.drop (part.1.length - 1) ≠ [] := by
    intro hnil
    have hzero := congrArg List.length hnil
    rw [length_drop, length_nil] at hzero
    omega
  have hsame : announced (part.1.take (part.1.length - 1)) = announced part.1 := by
    rw [← announced_append _ (part.1.drop (part.1.length - 1)) (by omega), hsplit]
  have hparse := h.address
  rw [← hsplit] at hparse
  obtain ⟨x, s', r, hfail⟩ := PeerAddress.strict_decode.fails hparse hlast s
  refine ⟨part.1.take (part.1.length - 1), _, hsplit.symm, by omega, x, s', r, ?_⟩
  rw [run_decodeEntry _ s (by omega), hsame, if_neg (by omega), run_bind, hfail, andThen_fail]

/-- Entries that are never read from too few bytes are guarded. -/
theorem guarded_of (h : List.Forall₂ (Arrives f message now) parts entries) {reach : Nat} (s : Decoding)
    (hnever : ∀ b c, flatten parts = b ++ c → reach ≤ b.length → ∀ x s' r,
      (repeat_ (decodeEntry f message now) parts.length).run s b ≠ .fail x s' r) : Guarded reach parts := by
  induction h generalizing reach s with
  | nil => trivial
  | @cons part e parts entries hpart _ ih =>
      refine ⟨?_, ih (stored e s) ?_⟩
      · by_contra hlarge
        obtain ⟨b, c, hsplit, hreach, x, s', r, hfail⟩ := hpart.fails s (Nat.not_le.mp hlarge)
        refine hnever b (c ++ (part.2 ++ flatten parts)) ?_ hreach x s' r ?_
        · rw [flatten_cons, hsplit, append_assoc]
        · rw [length_cons, repeat_, run_bind, hfail, andThen_fail]
      · intro b c hcut hreach x s' r hfail
        refine hnever (part.1 ++ (part.2 ++ b)) c ?_ ?_ x s' r ?_
        · rw [flatten_cons, hcut, append_assoc, append_assoc]
        · rw [length_append, length_append]
          omega
        · rw [length_cons, repeat_, run_bind, hpart.done s b (by omega), andThen_done, hfail]

/-- The number of entries is read first. -/
theorem run_decode (n : Nat) (h : n < 256) (b : Bytes) :
    (decode f message now).run {} (writeByte (BitVec.ofNat 32 n) ++ b) =
      ((repeat_ (decodeEntry f message now) n).run ⟨BitVec.ofNat 32 n, some .empty, none⟩ b).andThen
        fun _ s r => .done (s.trackerData.getD .empty) {} r := by
  have hnat : (BitVec.ofNat 32 n).toNat = n := by
    rw [BitVec.toNat_ofNat]
    omega
  have hint : (BitVec.ofNat 32 n).toInt = n := by
    rw [BitVec.toInt_eq_toNat_of_lt] <;> omega
  have hneed : (need 1 : Reader JavaException Decoding Unit).run {} (writeByte (BitVec.ofNat 32 n) ++ b) =
      .done () {} (writeByte (BitVec.ofNat 32 n) ++ b) :=
    run_need_of_le 1 _ _ (by rw [length_append, writeByte, length_toBE]; omega)
  have hread := parses_readUnsignedByte (σ := Decoding) (BitVec.ofNat 32 n) (by omega) {} b
  have hcount : ((BitVec.ofNat 32 n).toInt - ((TrackerData.empty.size : Nat) : Int)).toNat = n := by
    rw [hint]
    change ((n : Int) - 0).toNat = n
    omega
  rw [decode, run_bind, run_state, andThen_done, if_pos rfl, run_bind, hneed, andThen_done,
    run_bind, hread, andThen_done, run_bind, run_modify, andThen_done, run_bind, run_modify,
    andThen_done, run_bind, run_state, andThen_done, run_bind]
  change ((repeat_ (decodeEntry f message now)
    ((BitVec.ofNat 32 n).toInt - ((TrackerData.empty.size : Nat) : Int)).toNat).run
      ⟨BitVec.ofNat 32 n, some .empty, none⟩ b).andThen _ = _
  rw [hcount]
  rfl

end Entry

/-! ### One value -/

section Value

variable {f : SignatureFactory} {d : Data}

/-- The value that is written. -/
def sent (isReply : Bool) (now : BitVec 64) (d : Data) : Data := d.filter false isReply now

theorem sent_wireConsistent (h : d.WireConsistent f) (isReply : Bool) (now : BitVec 64) :
    (sent isReply now d).WireConsistent f := by
  cases isReply with
  | false => exact h
  | true => exact h.setTtlSeconds _

/-- The value that is read, of one that was written. -/
def read (message : Signer) (now : BitVec 64) (d : Data) : Data :=
  (message.keyed (d.received now)).completed message.publicKey d.buffer (Data.signatureField d.signature)

/-- The signature is all that is added at the end, and maybe a key. -/
theorem close_eq (e : Data) (k : Option PublicKey) (w : Bytes) :
    ∃ key, e.close k w = { e with
      publicKey := key
      signature := if e.signed then some ⟨w⟩ else e.signature } := by
  rw [Data.close, Data.adoptKey]
  by_cases hs : e.signed = true
  · rw [if_pos hs, if_pos hs]
    split
    · exact ⟨k, rfl⟩
    · exact ⟨e.publicKey, rfl⟩
  · rw [if_neg hs, if_neg hs]
    exact ⟨e.publicKey, rfl⟩

/-- What is read is the value, but for its key and the time it is valid from. -/
theorem read_eq (h : d.WireConsistent f) (message : Signer) (now : BitVec 64) :
    ∃ key, read message now d = { d with
      publicKey := key
      publicKeyFlag := d.publicKeyFlag || message.isSign
      privateKey := none
      validFromMillis := now } := by
  have hkeyed : ∃ key, message.keyed (d.received now) = { d with
      buffer := []
      publicKey := key
      publicKeyFlag := d.publicKeyFlag || message.isSign
      signature := none
      privateKey := none
      validFromMillis := now } := by
    rw [Signer.keyed, h.received_eq now]
    cases message.isSign with
    | true => exact ⟨message.publicKey, by rw [if_pos rfl, Data.setPublicKey, Bool.or_true]⟩
    | false => exact ⟨d.wireKey, by rw [if_neg Bool.false_ne_true, Bool.or_false]⟩
  obtain ⟨key, hkey⟩ := hkeyed
  obtain ⟨key', hclose⟩ := close_eq ((message.keyed (d.received now)).append d.buffer) message.publicKey
    (Data.signatureField d.signature)
  refine ⟨key', ?_⟩
  rw [read, Data.completed, hclose, hkey, Data.append, nil_append]
  simp only [h.signature_eq]

/-- The value read is equal if it was not given a key it did not announce. -/
theorem equals_read_iff (h : d.WireConsistent f) (message : Signer) (isReply : Bool) (now now' : BitVec 64) :
    d.equals (read message now' (sent isReply now d)) = true ↔
      (message.isSign = true → d.publicKeyFlag = true) := by
  obtain ⟨key, hread⟩ := read_eq (sent_wireConsistent h isReply now) message now'
  have hset (s : HashedSet Number160) : s.equals s = true := (HashedSet.equals_iff s s).mpr fun _ => Iff.rfl
  have hequals : d.equals (read message now' (sent isReply now d)) =
      (!message.isSign || d.publicKeyFlag) := by
    rw [hread]
    cases isReply with
    | false => simp [Data.equals, sent, Data.filter, hset]
    | true => simp [Data.equals, sent, Data.filter, Data.setTtlSeconds, hset]
  rw [hequals]
  cases d.publicKeyFlag <;> cases message.isSign <;> decide

/-- In a reply every value has a time to live. -/
theorem ttl_read (h : d.WireConsistent f) (message : Signer) (isReply : Bool) (now now' : BitVec 64) :
    (read message now' (sent isReply now d)).ttl = (d.ttl || isReply) := by
  obtain ⟨key, hread⟩ := read_eq (sent_wireConsistent h isReply now) message now'
  rw [hread]
  cases isReply with
  | false => exact (Bool.or_false d.ttl).symm
  | true => exact (Bool.or_true d.ttl).symm

/-- The value's header is waited for as a whole; then the value stands in the map, and
    what arrives of it is stored there. -/
theorem arrives (h : d.WireConsistent f) (message : Signer) (now : BitVec 64) {mk : Option PrivateKey}
    {a : PeerAddress} {v w : Bytes} (ha : a.WellFormed) (hv : a.encode = .ok v) (hw : d.encode f mk = .ok w) :
    Arrives f message now (v, w) (a.transferred, read message now d) := by
  obtain ⟨header, hheader, rfl⟩ := h.encode_eq hw
  have hparse := Data.parses_decodeHeader (σ := Decoding) h.headerFits hheader now
  have hkeyed : (message.keyed (d.received now)).buffer = [] ∧
      (message.keyed (d.received now)).length = d.announcedLength ∧
      (message.keyed (d.received now)).signed = d.signed := by
    rw [Signer.keyed]
    split <;> exact ⟨rfl, rfl, rfl⟩
  have hrest : Reads (fun _ => True) (Data.decodeRest f message.publicKey) (message.keyed (d.received now))
      (d.buffer ++ Data.signatureField d.signature) () (read message now d) := by
    refine Data.reads_decodeRest _ _ _ ?_ ?_
    · rw [hkeyed.1, hkeyed.2.1, h.announcedLength_eq, h.length_eq, length_nil]
      omega
    · rw [hkeyed.2.2]
      exact h.length_signature
  have hrun (s : Decoding) (b : Bytes) :
      (decodeValue f message now a.transferred).run s (header ++ b) =
        (((Data.decodeRest f message.publicKey).run (message.keyed (d.received now)) b).onState
          fun e => store a.transferred e (store a.transferred (message.keyed (d.received now)) s)).andThen
            fun _ s r => .done () { s with currentTrackerData := none } r := by
    rw [decodeValue, run_bind, hparse, andThen_done, run_bind, run_modify, andThen_done,
      decodeCurrent, run_bind, run_zoom]
    rfl
  refine ⟨PeerAddress.parses_decode a v ha hv, ?_, ?_, ?_⟩
  · rw [PeerAddress.length_encode_eq_size a v ha hv]
    exact PeerAddress.le_size _
  · intro s rest
    have hput (m : TrackerData) (e e' : Data) :
        (m.put a.transferred e).put a.transferred e' = m.put a.transferred e' := by
      have hget : (m.put a.transferred e).peerAddresses.get a.transferred.key =
          some (((m.peerAddresses.get a.transferred.key).map Prod.fst).getD a.transferred, e) := by
        rw [TrackerData.put, get_put, if_pos rfl]
      rw [TrackerData.put, hget]
      simp only [TrackerData.put, HashedMap.put_put, Option.map_some, Option.getD_some]
    rw [append_assoc, hrun, hrest.full]
    change Outcome.done () _ rest = _
    congr 1
    simp only [stored, store, Option.map_map, Function.comp_def, hput]
  · intro s b c hc hcut
    rcases cut_append hcut with ⟨c', hc', hfirst⟩ | ⟨b', rfl, hsecond⟩
    · have hidle := Data.idle_decodeHeader h.headerFits hheader now s b c' hc' hfirst
      refine ⟨s, b, ?_⟩
      rw [decodeValue, run_bind, hidle, andThen_wait]
    · obtain ⟨e, r, hwait, _⟩ := hrest.starves b' c hc hsecond
      refine ⟨store a.transferred e (store a.transferred (message.keyed (d.received now)) s), r, ?_⟩
      rw [hrun, hwait]
      rfl

end Value

/-! ### The map -/

/-- Entries with other keys do not matter. -/
theorem get_foldl_put_ne (entries : List (PeerAddress × Data)) (m : TrackerData) {k : PeerKey}
    (hne : ∀ e ∈ entries, e.1.key ≠ k) :
    (entries.foldl (fun m e => m.put e.1 e.2) m).peerAddresses.get k = m.peerAddresses.get k := by
  induction entries generalizing m with
  | nil => rfl
  | cons e entries ih =>
      rw [foldl_cons, ih _ fun e' he' => hne e' (mem_cons_of_mem e he'), TrackerData.put,
        get_put, if_neg (hne e mem_cons_self).symm]

/-- Entries with new keys are found where they were put. -/
theorem get_foldl_put (entries : List (PeerAddress × Data)) (m : TrackerData)
    (hkeys : (entries.map fun e => e.1.key).Nodup)
    (hnew : ∀ e ∈ entries, m.peerAddresses.get e.1.key = none) :
    ∀ e ∈ entries, (entries.foldl (fun m e => m.put e.1 e.2) m).peerAddresses.get e.1.key = some e := by
  induction entries generalizing m with
  | nil => exact fun e he => absurd he not_mem_nil
  | cons e entries ih =>
      rw [map_cons, nodup_cons] at hkeys
      have hput (k : PeerKey) : (m.put e.1 e.2).peerAddresses.get k =
          if k = e.1.key then some e else m.peerAddresses.get k := by
        have hnone := hnew e mem_cons_self
        rw [TrackerData.put, get_put, hnone, Option.map_none, Option.getD_none]
      have hother : ∀ e' ∈ entries, e'.1.key ≠ e.1.key := by
        intro e' he' heq
        exact hkeys.1 (heq ▸ mem_map_of_mem (f := fun e : PeerAddress × Data => e.1.key) he')
      have hfound := ih (m.put e.1 e.2) hkeys.2 fun e' he' => by
        rw [hput, if_neg (hother e' he')]
        exact hnew e' (mem_cons_of_mem e he')
      intro e' he'
      rcases mem_cons.mp he' with rfl | he'
      · rw [foldl_cons, get_foldl_put_ne _ _ hother, hput, if_pos rfl]
      · exact hfound e' he'

theorem foldl_stored (entries : List (PeerAddress × Data)) (n : BitVec 32) (m : TrackerData) :
    entries.foldl (fun s e => stored e s) ⟨n, some m, none⟩ =
      ⟨n, some (entries.foldl (fun m e => m.put e.1 e.2) m), none⟩ := by
  induction entries generalizing m with
  | nil => rfl
  | cons e entries ih => exact ih (m.put e.1 e.2)

section RoundTrip

variable (f : SignatureFactory) (message : Signer) (isReply : Bool) (mk : Option PrivateKey) (now now' : BitVec 64)

/-- The parts of the encoding stand for the entries as they are read. -/
theorem parts_arrive {entries : List (PeerKey × PeerAddress × Data)} {parts : List (Bytes × Bytes)}
    (haddresses : ∀ e ∈ entries, e.2.1.WellFormed) (hvalues : ∀ e ∈ entries, e.2.2.WireConsistent f)
    (hparts : encodeParts f isReply mk now entries = .ok parts) :
    List.Forall₂ (Arrives f message now') parts
      (entries.map fun e => (e.2.1.transferred, read message now' (sent isReply now e.2.2))) := by
  induction entries generalizing parts with
  | nil =>
      cases hparts
      exact List.Forall₂.nil
  | cons e entries ih =>
      obtain ⟨id, a, d⟩ := e
      obtain ⟨v, hv, hparts⟩ := except_bind_ok hparts
      obtain ⟨w, hw, hparts⟩ := except_bind_ok hparts
      obtain ⟨rest, hrest, hparts⟩ := except_bind_ok hparts
      cases hparts
      have hd := hvalues _ mem_cons_self
      rw [hd.duplicate_eq] at hw
      have hfirst := arrives (sent_wireConsistent hd isReply now) message now'
        (haddresses _ mem_cons_self) hv hw
      exact List.Forall₂.cons hfirst (ih (fun e he => haddresses e (mem_cons_of_mem _ he))
        (fun e he => hvalues e (mem_cons_of_mem _ he)) hrest)

/-- The same addresses, as they are looked for, with equal values. The flag of a time to live, which is not compared, is
    the same as well unless a reply has set it. -/
structure Agree (isReply : Bool) (t t' : TrackerData) : Prop where
  missing : ∀ k, t.peerAddresses.get k = none → t'.peerAddresses.get k = none
  entry : ∀ k a d, t.peerAddresses.get k = some (a, d) →
    ∃ d', t'.peerAddresses.get k = some (a.transferred, d') ∧ d.equals d' = true ∧
      d'.ttl = (d.ttl || isReply)

/-- The encoding, whatever follows it, is read in one pass to equal tracker data. -/
def DecodesBack (f : SignatureFactory) (message : Signer) (isReply : Bool) (now : BitVec 64) (t : TrackerData)
    (v : Bytes) : Prop :=
  ∀ rest, ∃ t', (decode f message now).run {} (v ++ rest) = .done t' {} rest ∧ Agree isReply t t'

/-- No part of the encoding is read beyond its end, which would throw. -/
def NeverShort (f : SignatureFactory) (message : Signer) (now : BitVec 64) (v : Bytes) : Prop :=
  ∀ b c, v = b ++ c → ∀ x s r, (decode f message now).run {} b ≠ .fail x s r

/-- The encoding is never read too far exactly if the parts are guarded. -/
theorem neverShort_iff {parts : List (Bytes × Bytes)} {entries : List (PeerAddress × Data)}
    (harrive : List.Forall₂ (Arrives f message now) parts entries) (hlt : parts.length < 256) :
    NeverShort f message now (writeByte (BitVec.ofNat 32 parts.length) ++ flatten parts) ↔ Guarded 0 parts := by
  constructor
  · intro hnever
    refine guarded_of harrive ⟨BitVec.ofNat 32 parts.length, some .empty, none⟩ ?_
    intro b c hcut _ x s r hfail
    refine hnever (writeByte (BitVec.ofNat 32 parts.length) ++ b) c ?_ x s r ?_
    · rw [hcut, append_assoc]
    · rw [run_decode parts.length hlt, hfail, andThen_fail]
  · intro hguarded b c hcut x s r hfail
    rcases cut_append hcut with ⟨c', hc', hfirst⟩ | ⟨b', rfl, hrest⟩
    · -- not even the number of entries
      have hnil : b = [] := by
        have hlen := congrArg List.length hfirst
        have hpos := length_pos_of_ne_nil hc'
        rw [writeByte, length_toBE, length_append] at hlen
        exact eq_nil_of_length_eq_zero (by omega)
      subst hnil
      cases hfail
    · rw [run_decode parts.length hlt] at hfail
      cases hrun : (repeat_ (decodeEntry f message now) parts.length).run
          ⟨BitVec.ofNat 32 parts.length, some .empty, none⟩ b' with
      | done u s' r' =>
          rw [hrun] at hfail
          cases hfail
      | wait s' r' =>
          rw [hrun] at hfail
          cases hfail
      | fail x' s' r' => exact hguarded.not_fail harrive _ b' c hrest (Nat.zero_le _) x' s' r' hrun

/-- Tracker data are read back exactly if the sizes waited for do no harm, each address carries the
    hash of its id and, in a signed message, each value announces a key. -/
theorem decodesBack_iff_guarded {t : TrackerData} {parts : List (Bytes × Bytes)} {v : Bytes} (hsize : t.size ≤ 255)
    (hkeyed : ∀ e ∈ t.peerAddresses.entries, e.1 = e.2.1.key)
    (haddresses : ∀ e ∈ t.peerAddresses.entries, e.2.1.WellFormed)
    (hvalues : ∀ e ∈ t.peerAddresses.entries, e.2.2.WireConsistent f)
    (hparts : encodeParts f isReply mk now t.peerAddresses.entries = .ok parts)
    (hv : t.encode f isReply mk now = .ok v) :
    (DecodesBack f message isReply now' t v ∧ NeverShort f message now' v) ↔
      (Complete parts ∧ Guarded 0 parts) ∧
        (∀ e ∈ t.peerAddresses.entries, e.2.1.hashCode = e.2.1.peerId.hashCode) ∧
        (message.isSign = true → ∀ e ∈ t.peerAddresses.entries, e.2.2.publicKeyFlag = true) := by
  have hflat : v = writeByte (BitVec.ofNat 32 t.size) ++ flatten parts := by
    obtain ⟨parts', hparts', hv⟩ := except_bind_ok hv
    rw [hparts] at hparts'
    cases hparts'
    exact (Except.ok.inj hv).symm
  have harrive := parts_arrive f message isReply mk now now' haddresses hvalues hparts
  have hcount : t.size = parts.length := by
    rw [harrive.length_eq, length_map]
    rfl
  generalize hread : (t.peerAddresses.entries.map fun e =>
    (e.2.1.transferred, read message now' (sent isReply now e.2.2))) = entries at harrive
  -- what is read, if anything is
  have hdone (hcomplete : Complete parts) (rest : Bytes) : (decode f message now').run {} (v ++ rest) =
      .done (entries.foldl (fun m e => m.put e.1 e.2) .empty) {} rest := by
    rw [hflat, append_assoc, run_decode t.size (by omega), hcount, run_entries harrive hcomplete,
      foldl_stored, andThen_done, Option.getD_some]
  -- with the hashes of their ids the addresses are looked for as they were
  have hkeys (hhash : ∀ e ∈ t.peerAddresses.entries, e.2.1.hashCode = e.2.1.peerId.hashCode) :
      entries.map (fun e => e.1.key) = t.peerAddresses.entries.map Prod.fst := by
    rw [← hread, map_map]
    refine map_congr_left fun e he => ?_
    rw [hkeyed e he, PeerAddress.key, hhash e he]
    rfl
  have hget (hhash : ∀ e ∈ t.peerAddresses.entries, e.2.1.hashCode = e.2.1.peerId.hashCode)
      (e : PeerKey × PeerAddress × Data) (he : e ∈ t.peerAddresses.entries) :
      (entries.foldl (fun m e => m.put e.1 e.2) TrackerData.empty).peerAddresses.get e.1 =
        some (e.2.1.transferred, read message now' (sent isReply now e.2.2)) := by
    have hfound := get_foldl_put entries .empty (hkeys hhash ▸ t.peerAddresses.nodup) fun _ _ => rfl
    have hmem : (e.2.1.transferred, read message now' (sent isReply now e.2.2)) ∈ entries :=
      hread ▸ mem_map_of_mem (f := fun e : PeerKey × PeerAddress × Data =>
        (e.2.1.transferred, read message now' (sent isReply now e.2.2))) he
    rw [hkeyed e he, PeerAddress.key, hhash e he]
    exact hfound _ hmem
  constructor
  · intro ⟨hback, hnever⟩
    have hcomplete : Complete parts := by
      by_contra hnot
      obtain ⟨s, r, hwait⟩ := wait_of_not_complete harrive hnot ⟨BitVec.ofNat 32 t.size, some .empty, none⟩
      obtain ⟨t', hrun, _⟩ := hback []
      rw [append_nil, hflat, run_decode t.size (by omega), hcount] at hrun
      rw [hcount] at hwait
      rw [hwait] at hrun
      cases hrun
    have hhash : ∀ e ∈ t.peerAddresses.entries, e.2.1.hashCode = e.2.1.peerId.hashCode := by
      intro e he
      obtain ⟨t', hrun, hagree⟩ := hback []
      rw [hdone hcomplete] at hrun
      cases hrun
      have hold := (get_eq_some_iff t.peerAddresses e.1 e.2).mpr he
      obtain ⟨d', hd', _⟩ := hagree.entry e.1 e.2.1 e.2.2 hold
      by_contra hother
      -- what is read has the hash of its id, so no address is found under another one
      rw [get_foldl_put_ne entries .empty ?_] at hd'
      · cases hd'
      · rw [← hread, hkeyed e he]
        intro x hx heq
        obtain ⟨e', he', rfl⟩ := mem_map.mp hx
        have hid : e'.2.1.peerId = e.2.1.peerId := congrArg PeerKey.peerId heq
        have hcode : e'.2.1.peerId.hashCode = e.2.1.hashCode := congrArg PeerKey.hashCode heq
        exact hother (by rw [← hcode, hid])
    refine ⟨⟨hcomplete, ?_⟩, hhash, ?_⟩
    · rw [hflat, hcount] at hnever
      exact (neverShort_iff f message now' harrive (by omega)).mp hnever
    · intro hsign e he
      obtain ⟨t', hrun, hagree⟩ := hback []
      rw [hdone hcomplete] at hrun
      cases hrun
      have hold := (get_eq_some_iff t.peerAddresses e.1 e.2).mpr he
      obtain ⟨d', hd', hequals, _⟩ := hagree.entry e.1 e.2.1 e.2.2 hold
      rw [hget hhash e he] at hd'
      cases hd'
      exact (equals_read_iff (hvalues e he) message isReply now now').mp hequals hsign
  · intro ⟨⟨hcomplete, hguarded⟩, hhash, hflags⟩
    refine ⟨?_, ?_⟩
    · intro rest
      refine ⟨_, hdone hcomplete rest, ?_, ?_⟩
      · intro k hnone
        refine get_foldl_put_ne entries .empty ?_
        intro e he heq
        have hmem : k ∈ t.peerAddresses.entries.map Prod.fst := by
          rw [← hkeys hhash, ← heq]
          exact mem_map_of_mem (f := fun e : PeerAddress × Data => e.1.key) he
        obtain ⟨x, hx⟩ := (mem_keys_iff _ k).mp hmem
        exact (get_eq_none_iff _ k).mp hnone x hx
      · intro k a d hold
        have he := (get_eq_some_iff t.peerAddresses k (a, d)).mp hold
        exact ⟨_, hget hhash _ he,
          (equals_read_iff (hvalues _ he) message isReply now now').mpr fun hsign => hflags hsign _ he,
          ttl_read (hvalues _ he) message isReply now now'⟩
    · rw [hflat, hcount]
      exact (neverShort_iff f message now' harrive (by omega)).mpr hguarded

end RoundTrip

/-- A peer with an IPv4 socket, as it was read, and a payload of `n` bytes. -/
def attachment (n : Nat) : TrackerData :=
  TrackerData.empty.put PeerAddress.reachedDirectly.transferred (Data.new (List.replicate n 0#8) 0)

theorem wellFormed_reachedDirectly : PeerAddress.reachedDirectly.WellFormed where
  ipv4 := rfl
  internal := rfl
  ipv6 := rfl
  families := by decide
  ipv4_ports s hs := by
    cases hs
    decide
  internal_ports s hs := by cases hs
  ipv6_ports s hs := by cases hs
  relay_ports s hs := by cases hs

theorem wellFormed_transferred : PeerAddress.reachedDirectly.transferred.WellFormed where
  ipv4 := rfl
  internal := rfl
  ipv6 := rfl
  families := by decide
  ipv4_ports s hs := by
    cases hs
    decide
  internal_ports s hs := by cases hs
  ipv6_ports s hs := by cases hs
  relay_ports s hs := by cases hs

theorem decodesBack_attachment :
    ∃ parts v, encodeParts zeros false none 0 (attachment 40).peerAddresses.entries = .ok parts ∧
      (attachment 40).encode zeros false none 0 = .ok v ∧
      DecodesBack zeros ⟨false, none⟩ false 0 (attachment 40) v ∧
      NeverShort zeros ⟨false, none⟩ 0 v := by
  have hentry (e : PeerKey × PeerAddress × Data) (he : e ∈ (attachment 40).peerAddresses.entries) :
      e = (PeerAddress.reachedDirectly.transferred.key, PeerAddress.reachedDirectly.transferred,
        Data.new (List.replicate 40 0#8) 0) := mem_singleton.mp he
  obtain ⟨parts, hparts⟩ : ∃ parts, encodeParts zeros false none 0
      (attachment 40).peerAddresses.entries = .ok parts := ⟨_, rfl⟩
  obtain ⟨v, hv⟩ : ∃ v, (attachment 40).encode zeros false none 0 = .ok v := ⟨_, rfl⟩
  have hiff := decodesBack_iff_guarded zeros ⟨false, none⟩ false none 0 0 (t := attachment 40)
    (by decide) (fun e he => by rw [hentry e he])
    (fun e he => by rw [hentry e he]; exact wellFormed_transferred)
    (fun e he => by rw [hentry e he]; exact .new zeros_lawful (by decide) 0) hparts hv
  refine ⟨parts, v, hparts, hv, hiff.mpr ⟨?_, fun e he => by rw [hentry e he]; rfl, fun h => by cases h⟩⟩
  cases hparts
  exact ⟨by decide +kernel, by decide +kernel, trivial⟩

/-- The size is taken to be 65. An entry without payload has 35 bytes. -/
theorem not_decodesBack_empty :
    (∀ e ∈ (attachment 0).peerAddresses.entries, e.1 = e.2.1.key ∧
      e.2.1.hashCode = e.2.1.peerId.hashCode ∧ e.2.1.WellFormed ∧ e.2.2.WireConsistent zeros) ∧
    ∃ v, (attachment 0).encode zeros false none 0 = .ok v ∧ v.length = 36 ∧
      (∃ s r, (decode zeros ⟨false, none⟩ 0).run {} v = .wait s r) ∧
      ¬ DecodesBack zeros ⟨false, none⟩ false 0 (attachment 0) v := by
  refine ⟨?_, ?_⟩
  · intro e he
    have heq : e = (PeerAddress.reachedDirectly.transferred.key, PeerAddress.reachedDirectly.transferred, Data.new [] 0) := mem_singleton.mp he
    rw [heq]
    exact ⟨rfl, rfl, wellFormed_transferred, Data.WireConsistent.new zeros_lawful (by decide) 0⟩
  · obtain ⟨v, hv⟩ : ∃ v, (attachment 0).encode zeros false none 0 = .ok v := ⟨_, rfl⟩
    have hwait : ∃ s r, (decode zeros ⟨false, none⟩ 0).run {} v = .wait s r := by
      cases hv
      exact ⟨_, _, rfl⟩
    refine ⟨v, hv, by cases hv; rfl, hwait, ?_⟩
    intro h
    obtain ⟨t', hrun, _⟩ := h []
    obtain ⟨s, r, hwait⟩ := hwait
    rw [append_nil, hwait] at hrun
    cases hrun

end TrackerData

end TomP2P
