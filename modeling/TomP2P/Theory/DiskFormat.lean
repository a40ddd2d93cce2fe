import TomP2P.Core.DataSerializer
import TomP2P.Theory.WireConsistent

/-!
# Reading Back a Stored Value

In the map a value stands as on the wire: the header, the payload, the signature. In a
file the scratch buffer is written twice, so the header stands behind the payload once
more, in front of the signature.

A value without signature is read back all the same, since nothing behind its payload is
read. The signature of a large value is read from where the header stands the second time,
and it is the one that was written only by accident.

## Main definitions

* `DataSerializer.Restores`: What has to agree.
* `DataSerializer.content`: What is written to a file.
* `DataSerializer.RoundTrips`: Reading what was written.

## Theorems

* `DataSerializer.deserializeMapDB_eq`: A value in the map is read back.
* `DataSerializer.deserializeFile_eq`: What is read from a file.
* `DataSerializer.restores_iff`: The values that are read back.
-/

namespace TomP2P

open Wire Reader Effect SignatureFactory List

namespace DataSerializer

/-- The fields a value has to keep. A key that is missing is read as the placeholder for
    it. -/
structure Restores (d e : Data) : Prop where
  type : e.type = d.type
  length : e.length = d.length
  buffer : e.buffer = d.buffer
  basedOnFlag : e.basedOnFlag = d.basedOnFlag
  signed : e.signed = d.signed
  flag1 : e.flag1 = d.flag1
  ttl : e.ttl = d.ttl
  flag2 : e.flag2 = d.flag2
  protectedEntry : e.protectedEntry = d.protectedEntry
  publicKeyFlag : e.publicKeyFlag = d.publicKeyFlag
  prepareFlag : e.prepareFlag = d.prepareFlag
  signature : e.signature = d.signature
  ttlSeconds : e.ttlSeconds = d.ttlSeconds
  basedOnSet : e.basedOnSet = d.basedOnSet
  publicKey : e.publicKey = d.publicKey ∨
    Data.keyMissing e.publicKey = true ∧ Data.keyMissing d.publicKey = true

variable {f : SignatureFactory} {d : Data} {header : Bytes}

/-- The value that is read, with its signature `sig`. -/
theorem restores_transferred_iff (hkey : d.publicKeyFlag = false → d.publicKey = none)
    (sig : Option SignatureCodec) (now : BitVec 64) :
    Restores d (d.transferred sig now) ↔ sig = d.signature := by
  have hpublic : d.wireKey = d.publicKey ∨
      Data.keyMissing d.wireKey = true ∧ Data.keyMissing d.publicKey = true := by
    rw [Data.wireKey]
    cases hflag : d.publicKeyFlag with
    | false =>
        rw [if_neg Bool.false_ne_true, hkey hflag]
        exact .inl rfl
    | true =>
        rw [if_pos rfl]
        cases d.publicKey with
        | none => exact .inr ⟨rfl, rfl⟩
        | some k => exact .inl rfl
  constructor
  · exact fun h => h.signature
  · intro hsig
    exact ⟨rfl, rfl, rfl, rfl, rfl, rfl, rfl, rfl, rfl, rfl, rfl, hsig, rfl, rfl, hpublic⟩

/-! ### In the map -/

/-- The header is read byte by byte, as far as it goes. -/
theorem readHeader_eq (h : d.WireConsistent f) (hheader : d.encodeHeader f = .ok header) (now : BitVec 64)
    (u v rest : Bytes) (hsplit : header = u ++ v) (hv : v ≠ []) :
    readHeader f now u (v ++ rest) = .ok (d.received now, rest) := by
  induction v generalizing u with
  | nil => exact absurd rfl hv
  | cons b v ih =>
      rw [cons_append, readHeader]
      have hnext : header = (u ++ [b]) ++ v := by rw [hsplit, append_assoc, singleton_append]
      by_cases hend : v = []
      · subst hend
        have hparse := Data.parses_decodeHeader (σ := Unit) h.headerFits hheader now () []
        rw [append_nil] at hparse hnext
        rw [← hnext, hparse, nil_append]
      · have hidle := Data.idle_decodeHeader h.headerFits hheader now () (u ++ [b]) v hend hnext
        rw [hidle]
        exact ih (u ++ [b]) hnext hend

theorem readFully_append (v rest : Bytes) : readFully (v ++ rest) v.length = .ok (v, rest) := by
  rw [readFully, if_neg (by rw [length_append]; omega), take_left' rfl, drop_left' rfl]

theorem header_ne_nil (hheader : d.encodeHeader f = .ok header) : header ≠ [] := by
  obtain ⟨key, _, rfl⟩ := Data.encodeHeader_ok hheader
  simp [writeByte, toBE]

theorem serializeMapDB_eq (h : d.WireConsistent f) (hheader : d.encodeHeader f = .ok header) :
    serializeMapDB f d = .ok (header ++ (d.buffer ++ Data.signatureField d.signature)) := by
  rw [serializeMapDB, hheader, h.encodeDone_eq]
  simp [Scratch.write, Scratch.nioBuffers, Scratch.skipBytes, Scratch.writerIndex, bind, Except.bind, pure, Except.pure]

/-- The payload is taken from the front of what follows the header. -/
theorem run_payload (h : d.WireConsistent f) (now : BitVec 64) (r : Bytes) :
    Data.decodeBuffer.run (d.received now) (d.buffer ++ r) = .done () ((d.received now).append d.buffer) r := by
  have hlen : (d.received now).length.toInt = d.buffer.length := by
    rw [h.received_eq]
    exact h.length_eq
  have hempty : (d.received now).buffer = [] := rfl
  rw [Data.run_decodeBuffer _ (by rw [hempty, hlen, length_nil]; omega), if_neg (by
    rw [hempty, hlen, length_append, length_nil]
    omega), hlen, hempty, length_nil, Nat.sub_zero, Int.toNat_natCast, take_left' rfl,
    drop_left' rfl]

/-- The signature is what follows the payload, whatever that is. -/
theorem run_signature (h : d.WireConsistent f) (now : BitVec 64) (r : Bytes)
    (hr : d.signed = true → f.signatureSize ≤ r.length) :
    (Data.decodeDone f none).run ((d.received now).append d.buffer) r =
      .done () (d.transferred (if d.signed then some ⟨r.take f.signatureSize⟩ else none) now)
        (if d.signed then r.drop f.signatureSize else r) := by
  have hpayload : (d.received now).append d.buffer = d.transferred none now := by
    rw [h.received_eq]
    rfl
  have hadopt (e : Data) : Data.adoptKey none e = e := rfl
  rw [hpayload]
  cases hs : d.signed with
  | false =>
      have hsame : (d.transferred none now).signed = false := hs
      rw [Data.run_decodeDone_unsigned none r hsame]
      rfl
  | true =>
      have hsame : (d.transferred none now).signed = true := hs
      have hlong := hr hs
      rw [Data.run_decodeDone_signed none r hsame, if_neg (by omega), hadopt]
      rfl

/-- A value in the map is read back, and no more than its bytes are read. -/
theorem deserializeMapDB_eq (h : d.WireConsistent f) (hheader : d.encodeHeader f = .ok header)
    (now : BitVec 64) (rest : Bytes) :
    deserializeMapDB f now (header ++ (d.buffer ++ Data.signatureField d.signature) ++ rest) =
      .ok (d.transferred d.signature now, rest) := by
  have hread := readHeader_eq h hheader now [] header (d.buffer ++ (Data.signatureField d.signature ++ rest)) rfl
    (header_ne_nil hheader)
  have hlen : (d.received now).length.toNat = d.buffer.length := by
    have hsame : (d.received now).length = d.length := by rw [h.received_eq]
    have hint := h.length_eq
    rw [BitVec.toInt_eq_toNat_cond] at hint
    rw [hsame]
    split at hint <;> omega
  have hpayload := readFully_append d.buffer (Data.signatureField d.signature ++ rest)
  have hdecode := run_payload h now []
  rw [append_nil] at hdecode
  have hlength := h.length_signature
  have hsignature := run_signature h now (Data.signatureField d.signature) fun hs => by
    rw [hlength, hs]
    exact Nat.le_refl _
  have hsig := readFully_append (Data.signatureField d.signature) rest
  have hown := h.signature_eq
  have hsigned : ((d.received now).append d.buffer).isSigned = d.signed := rfl
  rw [deserializeMapDB, append_assoc, append_assoc, hread, except_ok_bind]
  simp only [hlen]
  rw [hpayload, except_ok_bind]
  simp only [hdecode, complete, except_ok_bind]
  rw [hsigned]
  cases hs : d.signed with
  | false =>
      rw [hs, if_neg Bool.false_ne_true] at hlength hown
      have hnil : Data.signatureField d.signature = [] := length_eq_zero_iff.mp hlength
      rw [hs, hnil, if_neg Bool.false_ne_true, hown] at hsignature
      rw [if_neg Bool.false_ne_true]
      simp only [hsignature, hnil]
      rfl
  | true =>
      rw [hs, if_pos rfl] at hlength hown
      rw [hs, if_pos rfl, ← hlength, take_length, hown] at hsignature
      rw [hlength] at hsig
      rw [if_pos rfl, hsig, except_ok_bind]
      simp only [hsignature]
      rfl

/-! ### In a file -/

/-- What is written to a file: the header twice. -/
def content (header : Bytes) (d : Data) : Bytes :=
  header ++ (d.buffer ++ (header ++ Data.signatureField d.signature))

theorem writeFile_eq (bs : List Bytes) (u w : Bytes) :
    writeFile (u ++ w) u.length bs = u ++ (bs.flatten ++ w.drop bs.flatten.length) := by
  induction bs generalizing u w with
  | nil => rfl
  | cons b bs ih =>
      have hwrite : Directory.writeAt (u ++ w) u.length b = (u ++ b) ++ w.drop b.length := by
        rw [Directory.writeAt, take_left' rfl, drop_length_add_append, append_assoc]
      rw [writeFile, hwrite, ← length_append, ih]
      simp only [flatten_cons, length_append, drop_drop, append_assoc]

/-- The file of a value, and what is left of the file that was there. -/
theorem serializeFile_eq (h : d.WireConsistent f) (hheader : d.encodeHeader f = .ok header) (path : Directory) :
    serializeFile f path d = .ok (d.hash.encode,
      path.put d.hash (content header d ++ (path.openFile d.hash).drop (content header d).length)) := by
  have hwrite := writeFile_eq [header, d.buffer, header ++ Data.signatureField d.signature] []
    (path.openFile d.hash)
  have hcontent : [header, d.buffer, header ++ Data.signatureField d.signature].flatten = content header d := by
    simp [content]
  rw [hcontent, nil_append, nil_append, length_nil] at hwrite
  rw [serializeFile, hheader, h.encodeDone_eq]
  simp [Scratch.write, Scratch.nioBuffers, bind, Except.bind, pure, Except.pure, hwrite]

/-- A value is read from a file that starts with its header and its payload; its signature
    is what comes next. -/
theorem deserializeFile_eq (h : d.WireConsistent f) (hheader : d.encodeHeader f = .ok header)
    {path : Directory} {tail : Bytes} (hfile : path.get d.hash = some (header ++ (d.buffer ++ tail)))
    (htail : d.signed = true → f.signatureSize ≤ tail.length) (now : BitVec 64) (rest : Bytes) :
    deserializeFile f path now (d.hash.encode ++ rest) =
      .ok (d.transferred (if d.signed then some ⟨tail.take f.signatureSize⟩ else none) now, rest) := by
  have hname : readFully (d.hash.encode ++ rest) Number160.BYTE_ARRAY_SIZE = .ok (d.hash.encode, rest) := by
    have happend := readFully_append d.hash.encode rest
    rwa [Number160.length_encode] at happend
  have hhash : Number160.ofBytes d.hash.encode = d.hash := by
    have hread := Number160.ofBytes_encode_append d.hash []
    rwa [append_nil] at hread
  have hparse := Data.parses_decodeHeader (σ := Unit) h.headerFits hheader now () (d.buffer ++ tail)
  have hpayload := run_payload h now tail
  have hsignature := run_signature h now tail htail
  rw [deserializeFile, hname, except_ok_bind]
  simp only [hhash, hfile, hparse, hpayload, hsignature, anyway, except_ok_bind]
  rfl

/-! ### Round trip -/

/-- The signature starts over with the header, as far as it reaches. -/
def RepeatsHeader (f : SignatureFactory) (d : Data) : Prop :=
  ∃ header, d.encodeHeader f = .ok header ∧
    (header ++ Data.signatureField d.signature).take f.signatureSize = Data.signatureField d.signature

/-- The value and what follows are read again of what was written into an empty directory. -/
def RoundTrips (f : SignatureFactory) (d : Data) (now : BitVec 64) (out : Bytes) (path : Directory) : Prop :=
  ∀ rest, ∃ e, deserialize f path now (out ++ rest) = .ok (e, rest) ∧ Restores d e

theorem serialize_header {path path' : Directory} {out : Bytes} (hout : serialize f path d = .ok (out, path')) :
    ∃ header, d.encodeHeader f = .ok header := by
  rw [serialize] at hout
  split at hout
  · obtain ⟨r, hfile, _⟩ := except_bind_ok hout
    obtain ⟨header, hheader, _⟩ := except_bind_ok hfile
    exact ⟨header, hheader⟩
  · obtain ⟨r, hmap, _⟩ := except_bind_ok hout
    obtain ⟨header, hheader, _⟩ := except_bind_ok hmap
    exact ⟨header, hheader⟩

/-- What is written of a small value. -/
theorem serialize_small (h : d.WireConsistent f) (hheader : d.encodeHeader f = .ok header)
    (hsize : d.length.toInt ≤ MAX_SIZE) (path : Directory) :
    serialize f path d = .ok (0#8 :: (header ++ (d.buffer ++ Data.signatureField d.signature)), path) := by
  rw [serialize, if_neg (by omega), serializeMapDB_eq h hheader]
  rfl

/-- What is written of a large value. -/
theorem serialize_large (h : d.WireConsistent f) (hheader : d.encodeHeader f = .ok header)
    (hsize : MAX_SIZE < d.length.toInt) (path : Directory) :
    serialize f path d = .ok (1#8 :: d.hash.encode,
      path.put d.hash (content header d ++ (path.openFile d.hash).drop (content header d).length)) := by
  rw [serialize, if_pos hsize, serializeFile_eq h hheader]
  rfl

theorem deserialize_small (h : d.WireConsistent f) (hheader : d.encodeHeader f = .ok header)
    (path : Directory) (now : BitVec 64) (rest : Bytes) :
    deserialize f path now (0#8 :: (header ++ (d.buffer ++ Data.signatureField d.signature)) ++ rest) =
      .ok (d.transferred d.signature now, rest) := by
  rw [cons_append, deserialize, if_neg (by decide), if_pos (by decide), deserializeMapDB_eq h hheader]

/-- What is read again for the signature of a large value. -/
theorem deserialize_large (h : d.WireConsistent f) (hheader : d.encodeHeader f = .ok header)
    {path : Directory} {stale : Bytes} (hfile : path.get d.hash = some (content header d ++ stale))
    (now : BitVec 64) (rest : Bytes) :
    deserialize f path now (1#8 :: d.hash.encode ++ rest) = .ok (d.transferred (if d.signed then
      some ⟨(header ++ Data.signatureField d.signature ++ stale).take f.signatureSize⟩ else none) now, rest) := by
  have hlength := h.length_signature
  rw [cons_append, deserialize, if_pos (by decide)]
  refine deserializeFile_eq h hheader ?_ ?_ now rest
  · rw [hfile, content]
    simp only [append_assoc]
  · intro hs
    rw [hs, if_pos rfl] at hlength
    simp only [length_append]
    omega

/-- Only the signature can differ. -/
theorem roundTrips_iff (hkey : d.publicKeyFlag = false → d.publicKey = none) {now : BitVec 64} {out : Bytes}
    {path : Directory} {sig : Option SignatureCodec}
    (hread : ∀ rest, deserialize f path now (out ++ rest) = .ok (d.transferred sig now, rest)) :
    RoundTrips f d now out path ↔ sig = d.signature := by
  rw [← restores_transferred_iff hkey sig now]
  constructor
  · intro hrestores
    obtain ⟨e, he, hsame⟩ := hrestores []
    rw [hread] at he
    cases he
    exact hsame
  · exact fun hsame rest => ⟨_, hread rest, hsame⟩

/-- A value whose key is announced, if it has one, is read back unless it is signed and
    goes to a file. Then the header is read for its signature. -/
theorem restores_iff (h : d.WireConsistent f) (hkey : d.publicKeyFlag = false → d.publicKey = none)
    {out : Bytes} {path : Directory} (hout : serialize f .empty d = .ok (out, path)) (now : BitVec 64) :
    RoundTrips f d now out path ↔ d.length.toInt ≤ MAX_SIZE ∨ d.signed = false ∨ RepeatsHeader f d := by
  obtain ⟨header, hheader⟩ := serialize_header hout
  by_cases hsize : d.length.toInt ≤ MAX_SIZE
  · rw [serialize_small h hheader hsize] at hout
    cases hout
    have hrestores := (roundTrips_iff hkey (deserialize_small h hheader .empty now)).mpr rfl
    exact iff_of_true hrestores (.inl hsize)
  have hstale : (Directory.openFile .empty d.hash).drop (content header d).length = [] := drop_nil
  have hfile : (HashedMap.put .empty d.hash (content header d ++ [])).get d.hash =
      some (content header d ++ []) := by
    rw [HashedMap.get_put, if_pos rfl]
  rw [serialize_large h hheader (by omega), hstale] at hout
  cases hout
  have hown := h.signature_eq
  rw [roundTrips_iff hkey (deserialize_large h hheader hfile now), append_nil]
  cases hs : d.signed with
  | false =>
      rw [hs, if_neg Bool.false_ne_true] at hown
      rw [if_neg Bool.false_ne_true]
      exact iff_of_true hown (.inr (.inl rfl))
  | true =>
      rw [hs, if_pos rfl] at hown
      rw [if_pos rfl]
      constructor
      · intro heq
        rw [← hown, Option.some.injEq, SignatureCodec.mk.injEq] at heq
        exact .inr (.inr ⟨header, hheader, heq⟩)
      · rintro (hsmall | hunsigned | ⟨header', hheader', heq⟩)
        · exact absurd hsmall hsize
        · cases hunsigned
        · rw [hheader] at hheader'
          cases hheader'
          rw [heq]
          exact hown

/-- A value of five bytes with a time to live is read back. -/
theorem restores_small :
    let d := (Data.new [1#8, 2#8, 3#8, 4#8, 5#8] 1000).setTtlSeconds 60
    ∃ out path, serialize zeros .empty d = .ok (out, path) ∧
      RoundTrips zeros d 2000 out path := by
  intro d
  have hd : d.WireConsistent zeros :=
    (Data.WireConsistent.new zeros_lawful (by decide) 1000).setTtlSeconds 60
  have hout : serialize zeros .empty d = .ok _ := rfl
  have hsmall : d.length.toInt ≤ MAX_SIZE := by decide
  exact ⟨_, _, hout, (restores_iff hd (fun _ => rfl) hout 2000).mpr (.inl hsmall)⟩

/-- A value that is signed by 40 ones. -/
def signedBy (buffer : Bytes) : Data :=
  { Data.new buffer 1000 with
    signed := true
    publicKeyFlag := true
    publicKey := some (.encoded [1])
    signature := some ⟨List.replicate 40 1⟩ }

theorem signedBy_wireConsistent {buffer : Bytes} (hlength : buffer.length < 2 ^ 31) :
    (signedBy buffer).WireConsistent zeros :=
  have hnew := Data.WireConsistent.new zeros_lawful hlength 1000
  { kept := ⟨hnew.kept.type_eq, hnew.kept.ttl_unset, hnew.kept.basedOn_unset⟩
    signable := by
      refine ⟨hnew.signable.lawful, ?_, ?_⟩
      · intro data hk
        cases hk
        exact ⟨by decide, by decide, rfl⟩
      · intro sig hs
        cases hs
        exact length_replicate
    length_eq := hnew.length_eq
    signed_key := fun _ => rfl
    protected_signed := fun _ => rfl
    basedOn_pos := hnew.basedOn_pos
    basedOn_le := hnew.basedOn_le
    signature := rfl }

/-- No header is a one. -/
theorem signedBy_signature_ne {buffer header r : Bytes}
    (hheader : (signedBy buffer).encodeHeader zeros = .ok header) :
    some (SignatureCodec.mk ((header ++ r).take 40)) ≠ (signedBy buffer).signature := by
  intro heq
  have htake : (header ++ r).take 40 = List.replicate 40 1 := congrArg SignatureCodec.wire (Option.some.inj heq)
  have hfirst := Data.first_encodeHeader hheader r
  have hone : (header ++ r).take 1 = [1] := by
    have htwice := congrArg (List.take 1) htake
    rwa [take_take] at htwice
  have hbits : (signedBy buffer).header = (signedBy buffer).type.ordinal ||| 0 ||| 0 ||| 0 ||| 0 ||| 0x40 ||| 0 := rfl
  rw [hone, hbits] at hfirst
  cases htype : (signedBy buffer).type with
  | SMALL | LARGE =>
      rw [htype] at hfirst
      exact absurd hfirst (by decide)

/-- What is read again of a large value for its signature begins with the header. -/
theorem not_restores_signedBy {buffer : Bytes} (hlength : buffer.length < 2 ^ 31) (hlarge : 10240 < buffer.length) :
    ∃ out path e, serialize zeros .empty (signedBy buffer) = .ok (out, path) ∧
      deserialize zeros path 2000 out = .ok (e, []) ∧
      e.signature ≠ (signedBy buffer).signature ∧
      ¬ RoundTrips zeros (signedBy buffer) 2000 out path := by
  have h := signedBy_wireConsistent hlength
  have hsize : MAX_SIZE < (signedBy buffer).length.toInt := by
    rw [h.length_eq, MAX_SIZE]
    exact_mod_cast hlarge
  have hwritten : ∃ header, (signedBy buffer).encodeHeader zeros = .ok header := ⟨_, rfl⟩
  obtain ⟨header, hheader⟩ := hwritten
  have hstale : (Directory.openFile .empty (signedBy buffer).hash).drop (content header (signedBy buffer)).length = [] :=
    drop_nil
  have hout := serialize_large h hheader hsize .empty
  rw [hstale] at hout
  have hfile : (HashedMap.put .empty (signedBy buffer).hash (content header (signedBy buffer) ++ [])).get
      (signedBy buffer).hash = some (content header (signedBy buffer) ++ []) := by
    rw [HashedMap.get_put, if_pos rfl]
  have hread := deserialize_large h hheader hfile 2000
  have hdiffers := signedBy_signature_ne hheader (r := Data.signatureField (signedBy buffer).signature)
  rw [append_nil] at hout
  simp only [append_nil] at hread
  have hagain := hread []
  rw [append_nil] at hagain
  refine ⟨_, _, _, hout, hagain, hdiffers, ?_⟩
  rw [roundTrips_iff (fun hk => by cases hk) hread]
  exact hdiffers

/-- A signed value of 10241 bytes gets another signature. -/
theorem not_restores_signed :
    (signedBy (List.replicate 10241 7)).WireConsistent zeros ∧
      ∃ out path e, serialize zeros .empty (signedBy (List.replicate 10241 7)) = .ok (out, path) ∧
        deserialize zeros path 2000 out = .ok (e, []) ∧
        e.signature ≠ (signedBy (List.replicate 10241 7)).signature ∧
        ¬ RoundTrips zeros (signedBy (List.replicate 10241 7)) 2000 out path := by
  have hlength : (List.replicate 10241 (7 : Byte)).length = 10241 := length_replicate
  exact ⟨signedBy_wireConsistent (by omega), not_restores_signedBy (by omega) (by omega)⟩

end DataSerializer

end TomP2P
