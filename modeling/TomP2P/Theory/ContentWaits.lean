import TomP2P.Core.CumulationTCP
import TomP2P.Foundation.ReaderRuns
import TomP2P.Theory.KeyMapCodec

/-!
# Where Contents Wait

A content is read as far as the bytes go, and the next call begins where the last one
waited. It does not begin there directly: it runs through the code from the top, finds in
what was kept how far it came, and goes on. The question here is whether such a call can end
without having read anything. It may wait again, that is what happens while the bytes do not
suffice. But it must not finish, and it must not throw, for whoever calls it takes both for
progress.

For each content there is a condition on what was kept of it, met wherever the content is
waited for and enough for the next call to be `Alert`. Mostly it says that an element is
missing: the number of elements is known, and the collection has fewer. Values are special,
for the part of a value that has arrived is stored and the rest is waited for. Either payload
is missing, or nothing but the signature, and a signature of no bytes is never waited for.

The number of elements is a signed number, and it is known unless it is minus one. A message
may announce minus one elements. Then the number counts as not known, but there is nothing to
wait for either.

## Main definitions

* `Data.Waits`, `Collector.Waits`, `DataMap.Decoding.Waits` and others: What is kept of a
  content that is waited for.

## Theorems

* `Collector.leaves_decode`, `DataMap.leaves_decode` and others: The condition is met where a
  content is waited for.
* `Collector.Waits.alert`, `DataMap.Decoding.Waits.alert` and others: It is enough.
-/

namespace TomP2P

open Wire Reader Outcome HashedMap

/-! ### Fields -/

section Fields

variable {σ : Type} {I : σ → Prop} {s : σ} {b : Bytes}

theorem Number160.keeps_decode : Keeps I Number160.decode :=
  (Keeps.field _ 4 32).bind fun _ => (Keeps.field _ 4 32).bind fun _ => (Keeps.field _ 4 32).bind fun _ =>
    (Keeps.field _ 4 32).bind fun _ => (Keeps.field _ 4 32).bind fun _ => Keeps.pure _

theorem Number640.keeps_decode : Keeps I Number640.decode :=
  Number160.keeps_decode.bind fun _ => Number160.keeps_decode.bind fun _ =>
    Number160.keeps_decode.bind fun _ => Number160.keeps_decode.bind fun _ => Keeps.pure _

theorem Number160.consumes_decode (h : 4 ≤ b.length) : Consumes Number160.decode s b :=
  (Consumes.field _ 32 (by decide) h).bind _

theorem Number640.consumes_decode (h : 4 ≤ b.length) : Consumes Number640.decode s b :=
  (Number160.consumes_decode h).bind _

theorem keeps_decodeIp {A : Type} {p : Reader JavaException σ A} (hp : Keeps I p) (skip : Bool) :
    Keeps I (decodeIp skip p) := by
  cases skip with
  | true => exact Keeps.pure none
  | false => exact hp.bind fun _ => Keeps.pure _

theorem keeps_readUnsignedShort : Keeps I (readUnsignedShort (σ := σ)) := Keeps.field _ 2 32

theorem PeerSocket4Address.keeps_decode (skip : Bool) : Keeps I (PeerSocket4Address.decode (σ := σ) skip) :=
  (keeps_decodeIp (Keeps.field _ 4 32) skip).bind fun _ => keeps_readUnsignedShort.bind fun _ =>
    keeps_readUnsignedShort.bind fun _ => keeps_readUnsignedShort.bind fun _ => Keeps.pure _

theorem PeerSocket6Address.keeps_decode (skip : Bool) : Keeps I (PeerSocket6Address.decode (σ := σ) skip) :=
  (keeps_decodeIp ((Keeps.field _ 8 64).bind fun _ => (Keeps.field _ 8 64).bind fun _ => Keeps.pure _) skip).bind
    fun _ => keeps_readUnsignedShort.bind fun _ => keeps_readUnsignedShort.bind fun _ =>
      keeps_readUnsignedShort.bind fun _ => Keeps.pure _

theorem PeerAddress.keeps_decodeAfter (header : BitVec 32) : Keeps I (PeerAddress.decodeAfter header) := by
  have hrelay (v6 : Bool) : Keeps I (PeerSocketAddress.decode (σ := σ) v6) := by
    cases v6 with
    | true => exact (PeerSocket6Address.keeps_decode false).bind fun _ => Keeps.pure _
    | false => exact (PeerSocket4Address.keeps_decode false).bind fun _ => Keeps.pure _
  have hsocket {A : Type} {p : Reader JavaException σ A} (hp : Keeps I p) (announced : Bool) :
      Keeps I (decodeSocket announced p) := by
    cases announced with
    | true => exact hp.bind fun _ => Keeps.pure _
    | false => exact Keeps.pure none
  exact (Keeps.each hrelay _).bind fun _ => (hsocket (PeerSocket4Address.keeps_decode _) _).bind fun _ =>
    (hsocket (PeerSocket4Address.keeps_decode false) _).bind fun _ =>
      (hsocket (PeerSocket6Address.keeps_decode _) _).bind fun _ => Number160.keeps_decode.bind fun _ => Keeps.pure _

/-- An address leaves the state alone. -/
theorem PeerAddress.keeps_decode : Keeps I PeerAddress.decode :=
  (Keeps.field _ 3 32).bind fun header => PeerAddress.keeps_decodeAfter header

theorem SimpleBloomFilter.keeps_decode : Keeps I (SimpleBloomFilter.decode (σ := σ)) := by
  have hbits (n : Int) : Keeps I (SimpleBloomFilter.readBits (σ := σ) n) := by
    unfold SimpleBloomFilter.readBits
    split
    · exact (Keeps.read _ _).bind fun _ => Keeps.pure _
    · exact Keeps.pure _
  exact keeps_readUnsignedShort.bind fun _ => (Keeps.field _ 4 32).bind fun _ => (hbits _).bind fun _ => Keeps.pure _

theorem PeerAddress.consumes_decode (h : 3 ≤ b.length) : Consumes PeerAddress.decode s b :=
  (Consumes.field _ 32 (by decide) h).bind _

/-- A key with its length leaves the state alone. -/
theorem SignatureFactory.keeps_decodePublicKey {f : SignatureFactory} : Keeps I (f.decodePublicKey (σ := σ)) := by
  intro s b hs
  rw [run_decodePublicKey]
  split
  · exact hs
  · split <;> exact hs

end Fields

/-! ### Values -/

namespace Data

variable {f : SignatureFactory} {d : Data} {k : Option PublicKey}

/-- Payload of the value is missing, or nothing but its signature. -/
def Waits (f : SignatureFactory) (d : Data) : Prop :=
  (d.buffer.length : Int) < d.length.toInt ∨
    ((d.buffer.length : Int) = d.length.toInt ∧ d.signed = true ∧ 0 < f.signatureSize)

/-- More payload than was announced is not possible, so a call throws. -/
theorem run_decodeBuffer_over (b : Bytes) (h : ¬ (d.buffer.length : Int) ≤ d.length.toInt) :
    decodeBuffer.run d b = .fail (.illegalArgument "minWritableBytes") d b := by
  have hrem : d.length.toInt - d.buffer.length < 0 := by omega
  rw [decodeBuffer, run_bind, run_state, andThen_done, run_bind, run_buffer, andThen_done]
  simp only [if_pos hrem]
  rfl

theorem leaves_decodeBuffer :
    Leaves decodeBuffer d (fun _ e => (e.buffer.length : Int) = e.length.toInt) (Waits f) := by
  by_cases hle : (d.buffer.length : Int) ≤ d.length.toInt
  · constructor
    · intro b a s' r hrun
      rw [run_decodeBuffer b hle] at hrun
      by_cases hlt : (b.length : Int) < d.length.toInt - d.buffer.length
      · rw [if_pos hlt] at hrun
        cases hrun
      · rw [if_neg hlt] at hrun
        cases hrun
        rw [append_buffer, append_length, List.length_append, List.length_take_of_le (by omega)]
        omega
    · intro b t r hrun
      rw [run_decodeBuffer b hle] at hrun
      by_cases hlt : (b.length : Int) < d.length.toInt - d.buffer.length
      · rw [if_pos hlt] at hrun
        cases hrun
        left
        rw [append_buffer, append_length, List.length_append]
        omega
      · rw [if_neg hlt] at hrun
        cases hrun
  · constructor
    · intro b a s' r hrun
      rw [run_decodeBuffer_over b hle] at hrun
      cases hrun
    · intro b t r hrun
      rw [run_decodeBuffer_over b hle] at hrun
      cases hrun

theorem leaves_decodeDone (hd : (d.buffer.length : Int) = d.length.toInt) :
    Leaves (decodeDone f k) d (fun _ _ => True) (Waits f) := by
  refine ⟨fun _ => trivial, ?_⟩
  intro b t r hrun
  cases hs : d.signed with
  | false =>
      rw [run_decodeDone_unsigned k b hs] at hrun
      cases hrun
  | true =>
      rw [run_decodeDone_signed k b hs] at hrun
      by_cases hlen : b.length < f.signatureSize
      · rw [if_pos hlen] at hrun
        cases hrun
        right
        rw [adoptKey_buffer, adoptKey_length, adoptKey_signed]
        exact ⟨hd, hs, by omega⟩
      · rw [if_neg hlen] at hrun
        cases hrun

theorem leaves_decodeRest : Leaves (decodeRest f k) d (fun _ _ => True) (Waits f) :=
  leaves_decodeBuffer.bind fun _ _ hd => leaves_decodeDone hd

theorem Waits.alert (h : d.Waits f) : Alert (decodeRest f k) d := by
  rcases h with hlt | ⟨heq, hsigned, hsize⟩
  · refine Alert.bind _ (alert_iff.mpr fun b => ?_)
    rw [Consumes, run_decodeBuffer b (by omega)]
    by_cases hb : b = []
    · refine .inl ⟨d.append b, ?_⟩
      rw [hb, List.length_nil, if_pos (by omega)]
    · have hpos : 0 < b.length := List.length_pos_of_ne_nil hb
      refine .inr ?_
      by_cases hshort : (b.length : Int) < d.length.toInt - d.buffer.length
      · rw [if_pos hshort]
        exact hpos
      · rw [if_neg hshort, Outcome.rest, List.length_drop]
        omega
  · refine Alert.skip (fun b => run_decodeBuffer_complete b heq.symm) (alert_iff.mpr fun b => ?_)
    rw [Consumes, run_decodeDone_signed k b hsigned]
    by_cases hlen : b.length < f.signatureSize
    · exact .inl ⟨adoptKey k d, if_pos hlen⟩
    · refine .inr ?_
      rw [if_neg hlen, Outcome.rest, List.length_drop]
      omega

/-! ### Headers of values -/

section Header

variable {σ α β : Type}

/-- The reader waits or looks. If `A` holds of the number of bytes in front of it, what it
    gives and this number meet `B`. -/
def Peeks (A : Nat → Prop) (p : Reader JavaException σ α) (B : α → Nat → Prop) : Prop :=
  ∀ s b, A b.length → p.run s b = .wait s b ∨ ∃ a, p.run s b = .done a s b ∧ B a b.length

variable {A : Nat → Prop} {B : α → Nat → Prop} {C : β → Nat → Prop}

theorem Peeks.pure {a : α} (h : ∀ n, A n → B a n) : Peeks A (Pure.pure a : Reader JavaException σ α) B :=
  fun _ b hb => .inr ⟨a, rfl, h b.length hb⟩

theorem Peeks.need (n : Nat) : Peeks A (Reader.need n : Reader JavaException σ Unit) fun _ m => A m ∧ n ≤ m := by
  intro s b hb
  rw [run_need]
  by_cases h : b.length < n
  · exact .inl (if_pos h)
  · exact .inr ⟨(), if_neg h, hb, Nat.not_lt.mp h⟩

theorem Peeks.look (i n : Nat) :
    Peeks A (Reader.look i n : Reader JavaException σ Bytes) fun _ m => A m ∧ i + n ≤ m := by
  intro s b hb
  rw [run_look]
  by_cases h : b.length < i + n
  · exact .inl (if_pos h)
  · exact .inr ⟨_, if_neg h, hb, Nat.not_lt.mp h⟩

theorem Peeks.bind {p : Reader JavaException σ α} {q : α → Reader JavaException σ β} (hp : Peeks A p B)
    (hq : ∀ a, Peeks (B a) (q a) C) : Peeks A (p >>= q) C := by
  intro s b hb
  rw [run_bind]
  rcases hp s b hb with hwait | ⟨a, hdone, ha⟩
  · rw [hwait]
    exact .inl rfl
  · rw [hdone]
    exact hq a s b ha

theorem Peeks.lookField (i n w : Nat) :
    Peeks A (Reader.lookField i n w : Reader JavaException σ (BitVec w)) fun _ m => A m ∧ i + n ≤ m :=
  (Peeks.look i n).bind fun _ => Peeks.pure fun _ h => h

theorem peeks_length (header : BitVec 32) :
    Peeks A (lookLength (σ := σ) header) fun r n => 2 ≤ r.2 ∧ r.2 ≤ n := by
  unfold lookLength
  cases typeOf header with
  | SMALL => exact (Peeks.lookField 1 1 32).bind fun _ => Peeks.pure fun n h => ⟨Nat.le_refl 2, h.2⟩
  | LARGE =>
      exact (Peeks.need 5).bind fun _ => (Peeks.lookField 1 4 32).bind fun _ =>
        Peeks.pure fun n h => ⟨by omega, h.2⟩

theorem peeks_ttl (header : BitVec 32) (i : Nat) :
    Peeks (fun n => 2 ≤ i ∧ i ≤ n) (lookTTL (σ := σ) header i) fun r n => 2 ≤ r.2 ∧ r.2 ≤ n := by
  unfold lookTTL
  by_cases h : hasTTL header = true
  · rw [if_pos h]
    exact (Peeks.need _).bind fun _ => (Peeks.lookField i 4 32).bind fun _ =>
      Peeks.pure fun n h => ⟨by omega, h.2⟩
  · rw [if_neg h]
    exact Peeks.pure fun n h => h

theorem peeks_basedOn (header : BitVec 32) (i : Nat) :
    Peeks (fun n => 2 ≤ i ∧ i ≤ n) (lookBasedOn (σ := σ) header i) fun r n => 2 ≤ r.2 ∧ r.2 ≤ n := by
  unfold lookBasedOn
  by_cases h : hasBasedOn header = true
  · rw [if_pos h]
    exact (Peeks.need _).bind fun _ => (Peeks.lookField i 1 32).bind fun nr => (Peeks.need _).bind fun _ =>
      (Peeks.look _ _).bind fun _ => Peeks.pure fun n h => ⟨by omega, h.2⟩
  · rw [if_neg h]
    exact Peeks.pure fun n h => h

theorem peeks_publicKey (header : BitVec 32) (i : Nat) :
    Peeks (fun n => 2 ≤ i ∧ i ≤ n) (lookPublicKey (σ := σ) header i) fun _ n => 2 ≤ i ∧ i ≤ n := by
  unfold lookPublicKey
  by_cases h : hasPublicKeyBits header = true
  · rw [if_pos h]
    refine (Peeks.need _).bind fun _ => (Peeks.lookField i 2 32).bind fun size s b hb => ?_
    rcases Peeks.need (A := fun n => 2 ≤ i ∧ i ≤ n) (i + 2 + size.toNat) s b hb.1.1 with hwait | ⟨a, hdone, ha⟩
    · exact .inl hwait
    · exact .inr ⟨a, hdone, ha.1⟩
  · rw [if_neg h]
    exact Peeks.pure fun n h => h

theorem peeks_header : Peeks (fun _ => True) (lookHeader (σ := σ)) fun front n =>
    2 ≤ front.indexPublicKeySize ∧ front.indexPublicKeySize ≤ n :=
  (Peeks.need 2).bind fun _ => (Peeks.lookField 0 1 32).bind fun header => (peeks_length header).bind fun r =>
    (peeks_ttl header r.2).bind fun r => (peeks_basedOn header r.2).bind fun r =>
      (peeks_publicKey header r.2).bind fun _ => Peeks.pure fun _ h => h

/-- Nothing of the header is read before all of it is there, and it is two bytes at least. -/
theorem alert_decodeHeader (now : BitVec 64) (s : σ) : Alert (decodeHeader f now) s := by
  refine alert_iff.mpr fun b => ?_
  rcases peeks_header s b trivial with hwait | ⟨front, hdone, hpos, hlen⟩
  · refine .inl ⟨s, ?_⟩
    rw [decodeHeader, run_bind, hwait, andThen_wait]
  · refine .inr ?_
    have hread : Consumes (Reader.read JavaException.indexOutOfBounds front.indexPublicKeySize) s b :=
      Consumes.read _ (by omega) hlen
    rw [Consumes, decodeHeader, run_bind, hdone, andThen_done]
    exact hread.bind _

theorem keeps_decodeHeader (now : BitVec 64) {I : σ → Prop} : Keeps I (decodeHeader f now) := by
  have hlength (header : BitVec 32) : Keeps I (lookLength (σ := σ) header) := by
    unfold lookLength
    split
    · exact (Keeps.lookField _ _ _).bind fun _ => Keeps.pure _
    · exact (Keeps.need _).bind fun _ => (Keeps.lookField _ _ _).bind fun _ => Keeps.pure _
  have httl (header : BitVec 32) (i : Nat) : Keeps I (lookTTL (σ := σ) header i) := by
    unfold lookTTL
    split
    · exact (Keeps.need _).bind fun _ => (Keeps.lookField _ _ _).bind fun _ => Keeps.pure _
    · exact Keeps.pure _
  have hbasedOn (header : BitVec 32) (i : Nat) : Keeps I (lookBasedOn (σ := σ) header i) := by
    unfold lookBasedOn
    split
    · exact (Keeps.need _).bind fun _ => (Keeps.lookField _ _ _).bind fun _ => (Keeps.need _).bind fun _ =>
        (Keeps.look _ _).bind fun _ => Keeps.pure _
    · exact Keeps.pure _
  have hlook (header : BitVec 32) (i : Nat) : Keeps I (lookPublicKey (σ := σ) header i) := by
    unfold lookPublicKey
    split
    · exact (Keeps.need _).bind fun _ => (Keeps.lookField _ _ _).bind fun _ => Keeps.need _
    · exact Keeps.pure _
  have hkey (header : BitVec 32) : Keeps I (readPublicKey (σ := σ) f header) := by
    unfold readPublicKey
    split
    · exact SignatureFactory.keeps_decodePublicKey
    · exact Keeps.pure _
  exact ((Keeps.need _).bind fun _ => (Keeps.lookField _ _ _).bind fun header => (hlength header).bind fun _ =>
    (httl header _).bind fun _ => (hbasedOn header _).bind fun _ => (hlook header _).bind fun _ =>
      Keeps.pure _).bind fun front => (Keeps.read _ _).bind fun _ => (hkey front.header).bind fun _ =>
        (Keeps.lift _).bind fun _ => Keeps.pure _

end Header

end Data

/-! ### Numbers of elements -/

section Sized

variable {σ α : Type} {s : σ} {D : α → σ → Prop} {W : σ → Prop}

/-- The number of elements is read if it is not known, and then the elements. -/
def sized (size : σ → BitVec 32) (set : BitVec 32 → σ → σ) (width : Nat) (collect : Reader JavaException σ α) :
    Reader JavaException σ α := do
  let s ← state
  if size s = -1#32 then do
    need width
    let n ← field .indexOutOfBounds width 32
    modify (set n)
    collect
  else collect

variable {size : σ → BitVec 32} {set : BitVec 32 → σ → σ} {width : Nat} {collect : Reader JavaException σ α}

theorem leaves_sized {P : σ → Prop} (hunknown : ∀ t, P t → size t = -1#32 → W t)
    (hset : ∀ n t, P t → P (set n t)) (h : ∀ s, P s → Leaves collect s D W) (hs : P s) :
    Leaves (sized size set width collect) s D W := by
  refine (Leaves.state (D := fun a s' => a = s ∧ s' = s) ⟨rfl, rfl⟩).bind fun _ _ ⟨ha, hs'⟩ => ?_
  rw [ha, hs']
  by_cases hsize : size s = -1#32
  · have hwaits (t : σ) (ht : t = s) : W t := ht ▸ hunknown s hs hsize
    rw [if_pos hsize]
    refine ((Leaves.ofKeeps fun I => Keeps.need _).mono (fun _ _ hs => hs) hwaits).bind fun _ _ hs' => ?_
    rw [hs']
    refine ((Leaves.ofKeeps fun I => Keeps.field _ _ _).mono (fun _ _ hs => hs) hwaits).bind fun n _ hs' => ?_
    rw [hs']
    exact (Leaves.modify (D := fun _ s => P s) (hset n s hs)).bind fun _ s hs => h s hs
  · rw [if_neg hsize]
    exact h s hs

theorem alert_sized (hwidth : 0 < width) (h : size s ≠ -1#32 → Alert collect s) :
    Alert (sized size set width collect) s := by
  refine Alert.skip (fun b => rfl) ?_
  by_cases hsize : size s = -1#32
  · rw [if_pos hsize]
    exact Alert.need fun b hb => (Consumes.field _ 32 hwidth hb).bind _
  · rw [if_neg hsize]
    exact h hsize

end Sized

/-! ### Collections -/

namespace Collector

variable {C E : Type} {K : Collector C E} {s : Collecting C}

/-- Elements are waited for or read, leave the state alone, and are one more at most. -/
structure Steady (K : Collector C E) : Prop where
  width_pos : 0 < K.width
  alert : ∀ s, Alert K.element s
  keeps : ∀ I, Keeps I K.element
  count_add : ∀ c e, K.count (K.add c e) ≤ K.count c + 1

/-- The number of elements is not known, or one is missing. -/
def Waits (K : Collector C E) (s : Collecting C) : Prop :=
  s.size = -1#32 ∨ ∃ c, s.collection = some c ∧ (K.count c : Int) < s.size.toInt

/-- So many elements are to come. -/
def ToCome (K : Collector C E) (size : BitVec 32) (n : Nat) (s : Collecting C) : Prop :=
  s.size = size ∧ ∃ c, s.collection = some c ∧ (K.count c + n : Int) ≤ max size.toInt (K.count c)

theorem leaves_decodeNext (hK : K.Steady) {size : BitVec 32} (n : Nat) (s : Collecting C)
    (h : ToCome K size (n + 1) s) : Leaves K.decodeNext s (fun _ s' => ToCome K size n s') K.Waits := by
  rcases h with ⟨hsize, c, hc, hle⟩
  refine (Leaves.ofKeeps hK.keeps).mono (fun _ s' hs => hs) (fun t ht => ?_) |>.bind fun e s' hs => ?_
  · rw [ht]
    exact .inr ⟨c, hc, by rw [hsize]; omega⟩
  · have hadd := hK.count_add c e
    rw [hs]
    refine Leaves.modify ⟨hsize, K.add c e, by rw [hc]; rfl, by omega⟩

/-- The elements, once their number is known. -/
def collect (K : Collector C E) : Reader JavaException (Collecting C) C := do
  let s ← state
  let collection ← lift (K.begun s)
  modify fun s => { s with collection := some collection }
  repeat_ K.decodeNext (s.size.toInt - K.count collection).toNat
  let s ← state
  modify fun _ => {}
  return s.collection.getD collection

theorem decode_eq (K : Collector C E) :
    K.decode = sized Collecting.size (fun size s => { s with size }) K.width K.collect := rfl

theorem leaves_collect (hK : K.Steady) (s : Collecting C) :
    Leaves K.collect s (fun _ s' => s' = {}) K.Waits := by
  refine (Leaves.state (D := fun a s' => a = s ∧ s' = s) ⟨rfl, rfl⟩).bind fun _ _ ⟨ha, hs⟩ => ?_
  rw [ha, hs]
  refine (Leaves.lift (D := fun _ s' => s' = s) fun c _ => rfl).bind fun c _ hs => ?_
  rw [hs]
  refine (Leaves.modify (D := fun _ t => ToCome K s.size (s.size.toInt - K.count c).toNat t)
    ⟨rfl, c, rfl, by omega⟩).bind fun _ t ht => ?_
  exact (Leaves.repeat_ (leaves_decodeNext hK) ht).bind fun _ s _ =>
    (Leaves.state (D := fun _ _ => True) trivial).bind fun _ s _ =>
      (Leaves.modify (D := fun _ s' => s' = {}) rfl).bind fun _ s hs => Leaves.pure hs

theorem leaves_decode (hK : K.Steady) (s : Collecting C) :
    Leaves K.decode s (fun _ s' => s' = {}) K.Waits :=
  decode_eq K ▸ leaves_sized (P := fun _ => True) (fun _ _ => .inl) (fun _ _ h => h)
    (fun s _ => leaves_collect hK s) trivial

theorem Waits.alert (hK : K.Steady) (h : K.Waits s) : Alert K.decode s := by
  refine decode_eq K ▸ alert_sized hK.width_pos fun hsize => ?_
  rcases h.resolve_left hsize with ⟨c, hc, hlt⟩
  have hbegun : K.begun s = .ok c := by rw [begun, hc]
  have hsame : ({ s with collection := some c } : Collecting C) = s := by rw [← hc]
  refine Alert.skip (fun b => rfl) (Alert.skip (a := c) (t := s) (fun b => ?_) ?_)
  · rw [hbegun, run_lift_ok]
  · refine Alert.skip (a := ()) (t := s) (fun b => ?_) (Alert.bind _ (Alert.repeat_ ?_ ((hK.alert s).bind _)))
    · rw [run_modify, hsame]
    · omega

end Collector

theorem NeighborSet.steady : collector.Steady where
  width_pos := by decide
  alert s := (Paces.needAhead (i := 0) (n := 3) (g := PeerAddress.size) rfl fun b _ _ hb =>
    PeerAddress.consumes_decode hb).alert
  keeps I := (Keeps.need _).bind fun _ => (Keeps.lookField _ _ _).bind fun _ => (Keeps.need _).bind fun _ =>
    PeerAddress.keeps_decode
  count_add c e := by
    change (c.neighbors ++ [e]).length ≤ c.neighbors.length + 1
    rw [List.length_append, List.length_singleton]

theorem KeyCollection.steady : collector.Steady where
  width_pos := by decide
  alert s := Alert.need fun b hb => Number640.consumes_decode (Nat.le_trans (by decide) hb)
  keeps I := (Keeps.need _).bind fun _ => Number640.keeps_decode
  count_add c e := by
    cases c with
    | ofKeys keys =>
        change (keys ++ [e]).length ≤ keys.length + 1
        rw [List.length_append, List.length_singleton]
    | ofConvert l d v keysConvert => exact Nat.le_succ _

theorem KeyMapByte.steady : collector.Steady where
  width_pos := by decide
  alert s := Alert.need fun b hb => (Number640.consumes_decode (Nat.le_trans (by decide) hb)).bind _
  keeps I := (Keeps.need _).bind fun _ => Number640.keeps_decode.bind fun _ => (Keeps.field _ 1 8).bind fun _ =>
    Keeps.pure _
  count_add c e := by
    change (c.keysMap.put e.1 e.2).size ≤ c.keysMap.size + 1
    by_cases h : c.keysMap.contains e.1 = true
    · rw [size_put_of_contains _ _ _ h]
      exact Nat.le_succ _
    · rw [size_put_of_not_contains _ _ _ h]

namespace KeyMap640Keys

variable {s : Decoding}

/-- The number of entries is not known, or one is missing. -/
def Decoding.Waits (s : Decoding) : Prop :=
  s.keyMap640KeysSize = -1#32 ∨ ∃ m, s.keyMap640Keys = some m ∧ (m.size : Int) < s.keyMap640KeysSize.toInt

/-- So many entries are to come. -/
def ToCome (keyMap640KeysSize : BitVec 32) (n : Nat) (s : Decoding) : Prop :=
  s.keyMap640KeysSize = keyMap640KeysSize ∧
    ∃ m, s.keyMap640Keys = some m ∧ (m.size + n : Int) ≤ max keyMap640KeysSize.toInt m.size

theorem alert_decodeEntry {σ : Type} (s : σ) : Alert decodeEntry s :=
  (Paces.needAhead (i := META) (n := 1) (m := META + 1)
    (g := fun size : BitVec 32 => META + 1 + size.toNat * Number160.BYTE_ARRAY_SIZE) rfl fun b _ _ hb =>
      (Number640.consumes_decode (Nat.le_trans (by decide) hb)).bind _).alert

theorem leaves_decodeNext {keyMap640KeysSize : BitVec 32} (n : Nat) (s : Decoding)
    (h : ToCome keyMap640KeysSize (n + 1) s) :
    Leaves decodeNext s (fun _ s' => ToCome keyMap640KeysSize n s') Decoding.Waits := by
  rcases h with ⟨hsize, m, hm, hle⟩
  refine (Leaves.ofKeeps fun I => keeps_decodeEntry I).mono (fun _ s' hs => hs) (fun t ht => ?_) |>.bind
    fun entry s' hs => ?_
  · rw [ht]
    exact .inr ⟨m, hm, by rw [hsize]; omega⟩
  · have hput : (m.put entry.1 entry.2).size ≤ m.size + 1 := m.keysMap.size_put_le entry.1 entry.2
    rw [hs]
    exact Leaves.modify ⟨hsize, m.put entry.1 entry.2, by rw [hm]; rfl, by omega⟩

/-- The entries, once their number is known. -/
def collect : Reader JavaException Decoding KeyMap640Keys := do
  modify fun s => { s with keyMap640Keys := some (s.keyMap640Keys.getD .empty) }
  let s ← state
  repeat_ decodeNext (s.keyMap640KeysSize.toInt - (s.keyMap640Keys.getD .empty).size).toNat
  let s ← state
  modify fun _ => {}
  return s.keyMap640Keys.getD .empty

theorem decode_eq : decode = sized Decoding.keyMap640KeysSize (fun n s => { s with keyMap640KeysSize := n }) 4 collect :=
  rfl

theorem leaves_collect (s : Decoding) : Leaves collect s (fun _ s' => s' = {}) Decoding.Waits := by
  let m := s.keyMap640Keys.getD .empty
  refine (Leaves.modify (D := fun _ t => t = { s with keyMap640Keys := some m }) rfl).bind fun _ _ ht => ?_
  rw [ht]
  have hcome : ToCome s.keyMap640KeysSize (s.keyMap640KeysSize.toInt - m.size).toNat
      { s with keyMap640Keys := some m } := ⟨rfl, m, rfl, by omega⟩
  refine (Leaves.state (D := fun a t => a = { s with keyMap640Keys := some m } ∧ t = a) ⟨rfl, rfl⟩).bind
    fun _ _ ⟨ha, ht⟩ => ?_
  rw [ht, ha]
  exact (Leaves.repeat_ leaves_decodeNext hcome).bind fun _ s _ =>
    (Leaves.state (D := fun _ _ => True) trivial).bind fun _ s _ =>
      (Leaves.modify (D := fun _ s' => s' = {}) rfl).bind fun _ s hs => Leaves.pure hs

theorem leaves_decode (s : Decoding) : Leaves decode s (fun _ s' => s' = {}) Decoding.Waits :=
  decode_eq ▸ leaves_sized (P := fun _ => True) (fun _ _ => .inl) (fun _ _ h => h) (fun s _ => leaves_collect s)
    trivial

theorem Decoding.Waits.alert (h : s.Waits) : Alert decode s := by
  refine decode_eq ▸ alert_sized (by decide) fun hsize => ?_
  rcases h.resolve_left hsize with ⟨m, hm, hlt⟩
  have hsame : ({ s with keyMap640Keys := some (s.keyMap640Keys.getD .empty) } : Decoding) = s := by
    rw [hm, Option.getD_some, ← hm]
  refine Alert.skip (a := ()) (t := s) (fun b => ?_) (Alert.skip (fun b => rfl) (Alert.bind _ (Alert.repeat_ ?_ ?_)))
  · rw [run_modify, hsame]
  · rw [hm, Option.getD_some]
    omega
  · exact (alert_decodeEntry s).bind _

end KeyMap640Keys

/-! ### Buffers -/

namespace Buffer

variable {s : Decoding}

/-- The length of the buffer is not known, or bytes are waited for. -/
def Decoding.Waits (s : Decoding) : Prop := s.bufferSize = -1#32 ∨ 0 < s.bufferSize.toInt

/-- The buffer, once its length is known. -/
def collect : Reader JavaException Decoding Buffer := do
  let s ← state
  need s.bufferSize.toInt.toNat
  transfer

theorem decode_eq : decode = sized Decoding.bufferSize (fun bufferSize s => { s with bufferSize }) 4 collect := rfl

/-- The bytes are moved, unless their number is negative or there are not so many. -/
theorem run_transfer (s : Decoding) (b : Bytes) :
    transfer.run s b =
      if s.bufferSize.toInt < 0 then
        .fail (.illegalArgument "minWritableBytes") { s with buffer := some (s.buffer.getD []) } b
      else if b.length < s.bufferSize.toInt.toNat then
        .fail .indexOutOfBounds { s with buffer := some (s.buffer.getD []) } b
      else
        .done ⟨s.buffer.getD [] ++ b.take s.bufferSize.toInt.toNat, s.bufferSize⟩ {}
          (b.drop s.bufferSize.toInt.toNat) := by
  rw [transfer, run_bind, run_state, andThen_done, run_bind, run_modify, andThen_done]
  by_cases hneg : s.bufferSize.toInt < 0
  · simp only [if_pos hneg]
    rfl
  · simp only [if_neg hneg]
    rw [run_bind, run_read]
    by_cases hlen : b.length < s.bufferSize.toInt.toNat
    · rw [if_pos hlen, if_pos hlen, andThen_fail]
    · rw [if_neg hlen, if_neg hlen]
      rfl

theorem leaves_transfer (s : Decoding) : Leaves transfer s (fun _ s' => s' = {}) Decoding.Waits := by
  constructor
  · intro b a s' r hrun
    rw [run_transfer] at hrun
    split at hrun
    · cases hrun
    · split at hrun
      · cases hrun
      · cases hrun
        rfl
  · intro b t r hrun
    rw [run_transfer] at hrun
    split at hrun
    · cases hrun
    · split at hrun <;> cases hrun

theorem leaves_collect (s : Decoding) : Leaves collect s (fun _ s' => s' = {}) Decoding.Waits := by
  refine (Leaves.state (D := fun a s' => a = s ∧ s' = s) ⟨rfl, rfl⟩).bind fun _ _ ⟨ha, hs⟩ => ?_
  rw [ha, hs]
  refine Leaves.bind (D := fun _ _ => True) ⟨fun _ => trivial, ?_⟩ fun _ s _ => leaves_transfer s
  intro b t r hrun
  rw [run_need] at hrun
  by_cases hlen : b.length < s.bufferSize.toInt.toNat
  · rw [if_pos hlen] at hrun
    cases hrun
    exact .inr (by omega)
  · rw [if_neg hlen] at hrun
    cases hrun

theorem leaves_decode (s : Decoding) : Leaves decode s (fun _ s' => s' = {}) Decoding.Waits :=
  decode_eq ▸ leaves_sized (P := fun _ => True) (fun _ _ => .inl) (fun _ _ h => h) (fun s _ => leaves_collect s)
    trivial

theorem Decoding.Waits.alert (h : s.Waits) : Alert decode s := by
  refine decode_eq ▸ alert_sized (by decide) fun hsize => ?_
  have hpos := h.resolve_left hsize
  refine Alert.skip (fun b => rfl) (Alert.need fun b hb => ?_)
  rw [Consumes, run_transfer, if_neg (by omega), if_neg (by omega), Outcome.rest, List.length_drop]
  omega

end Buffer

/-! ### Maps of values -/

namespace DataMap

theorem size_put_le (m : DataMap) (k : Number640) (d : Data) : (m.put k d).size ≤ m.size + 1 := by
  rcases m with ⟨entries, convertMeta⟩
  cases entries with
  | ofMap dataMap => exact dataMap.size_put_le k d
  | ofConvert l d v dataMapConvert => exact Nat.le_succ _

theorem put_put (m : DataMap) (k : Number640) (d e : Data) : (m.put k d).put k e = m.put k e := by
  rcases m with ⟨entries, convertMeta⟩
  cases entries with
  | ofMap dataMap => exact congrArg (fun x => (⟨.ofMap x, convertMeta⟩ : DataMap)) (dataMap.put_put k d e)
  | ofConvert l d v dataMapConvert => rfl

variable {f : SignatureFactory} {message : TrackerData.Signer} {now : BitVec 64} {s : Decoding}

/-- A value has a key. -/
def Decoding.Coherent (s : Decoding) : Prop := s.data.isSome → s.key.isSome

/-- The number of entries is not known, or one is missing, or the value of the one that was
    begun has not arrived as a whole. -/
structure Decoding.Waits (f : SignatureFactory) (s : Decoding) : Prop where
  coherent : s.Coherent
  missing : s.mapSize = -1#32 ∨ (s.data = none ∧ ∃ m, s.dataMap = some m ∧ (m.size : Int) < s.mapSize.toInt) ∨
    ∃ data, s.data = some data ∧ data.Waits f

/-- So many entries are to come, and none was begun. -/
structure ToCome (mapSize : BitVec 32) (n : Nat) (s : Decoding) : Prop where
  size : s.mapSize = mapSize
  data : s.data = none
  map : ∃ m, s.dataMap = some m ∧ (m.size + n : Int) ≤ max mapSize.toInt m.size

theorem ToCome.waits {mapSize : BitVec 32} {n : Nat} (h : ToCome mapSize (n + 1) s) : s.Waits f := by
  rcases h.map with ⟨m, hm, hle⟩
  refine ⟨fun hdata => ?_, .inr (.inl ⟨h.data, m, hm, by rw [h.size]; omega⟩)⟩
  rw [h.data] at hdata
  exact absurd hdata Bool.false_ne_true

/-- So many entries are to come behind the one that was begun. -/
structure Begun (mapSize : BitVec 32) (n : Nat) (key : Number640) (s : Decoding) : Prop where
  size : s.mapSize = mapSize
  key_eq : s.key = some key
  map : ∃ m d, s.data = some d ∧ s.dataMap = some (DataMap.put m key d) ∧
    (m.size + (n + 1) : Int) ≤ max mapSize.toInt m.size

theorem Begun.store {mapSize : BitVec 32} {n : Nat} {key : Number640} (h : Begun mapSize n key s) (d : Data) :
    Begun mapSize n key (store key d s) := by
  rcases h.map with ⟨m, e, _, hm, hle⟩
  exact ⟨h.size, h.key_eq, m, d, rfl, by rw [DataMap.store, hm, Option.map_some, put_put], hle⟩

theorem Begun.finish {mapSize : BitVec 32} {n : Nat} {key : Number640} (h : Begun mapSize n key s) :
    ToCome mapSize n { s with data := none, key := none } := by
  rcases h.map with ⟨m, d, _, hm, hle⟩
  have hput := m.size_put_le key d
  exact ⟨h.size, rfl, m.put key d, hm, by omega⟩

theorem leaves_decodeKey {mapSize : BitVec 32} {n : Nat} (h : ToCome mapSize (n + 1) s) :
    Leaves decodeKey s (fun key s' => ToCome mapSize (n + 1) s' ∧ s'.key = some key) (Decoding.Waits f) := by
  refine (Leaves.state (D := fun a s' => a = s ∧ s' = s) ⟨rfl, rfl⟩).bind fun _ _ ⟨ha, hs⟩ => ?_
  rw [ha, hs]
  have hwaits (t : Decoding) (ht : t = s) : t.Waits f := ht ▸ h.waits
  cases hkey : s.key with
  | some key => exact Leaves.pure ⟨h, hkey⟩
  | none =>
      refine ((Leaves.ofKeeps fun I => Keeps.need _).mono (fun _ _ hs => hs) hwaits).bind fun _ _ hs => ?_
      rw [hs]
      refine ((Leaves.ofKeeps fun I => Number640.keeps_decode).mono (fun _ _ hs => hs) hwaits).bind
        fun key _ hs => ?_
      rw [hs]
      exact (Leaves.modify (D := fun _ s' => ToCome mapSize (n + 1) s' ∧ s'.key = some key)
        ⟨⟨h.size, h.data, h.map⟩, rfl⟩).bind fun _ s' hs' => Leaves.pure hs'

theorem leaves_decodeCurrent {key : Number640} {data : Data} (hkey : s.key.isSome) :
    Leaves (decodeCurrent f message key data) s (fun _ s' => ∃ d, s' = store key d s) (Decoding.Waits f) := by
  refine (Leaves.zoom (fun _ => data) (store key) Data.leaves_decodeRest).mono ?_ ?_
  · intro _ s' ⟨d, _, hs'⟩
    exact ⟨d, hs'⟩
  · intro t ⟨d, hd, ht⟩
    rw [ht]
    exact ⟨fun _ => hkey, .inr (.inr ⟨d, rfl, hd⟩)⟩

theorem leaves_decodeEntry {mapSize : BitVec 32} (n : Nat) (s : Decoding) (h : ToCome mapSize (n + 1) s) :
    Leaves (decodeEntry f message now) s (fun _ s' => ToCome mapSize n s') (Decoding.Waits f) := by
  refine (leaves_decodeKey h).bind fun key s ⟨h, hkey⟩ => ?_
  refine ((Leaves.ofKeeps fun I => Data.keeps_decodeHeader now).mono (fun _ _ hs => hs)
    fun t ht => ht ▸ h.waits).bind fun data _ hs => ?_
  rw [hs]
  rcases h.map with ⟨m, hm, hle⟩
  refine (Leaves.modify (D := fun _ s' => Begun mapSize n key s')
    ⟨h.size, hkey, m, data, rfl, by rw [DataMap.store, hm, Option.map_some], by omega⟩).bind fun _ s hs => ?_
  refine ((leaves_decodeCurrent (by rw [hs.key_eq]; rfl)).mono (E := fun _ s' => Begun mapSize n key s')
    (fun _ s' ⟨d, hs'⟩ => hs' ▸ hs.store d) fun t ht => ht).bind fun _ s hs => ?_
  refine (Leaves.modify (D := fun _ s' => Begun mapSize n key s') ?_).bind fun _ s hs => Leaves.modify hs.finish
  rcases hs.map with ⟨m, d, hd, -, -⟩
  rw [hd]
  exact hs.store _

theorem leaves_resume (hcoherent : s.Coherent) (hmap : s.dataMap.isSome) :
    Leaves (resume f message) s (fun _ s' => s'.mapSize = s.mapSize ∧ s'.data = none ∧ s'.dataMap.isSome)
      (Decoding.Waits f) := by
  refine (Leaves.state (D := fun a s' => a = s ∧ s' = s) ⟨rfl, rfl⟩).bind fun _ _ ⟨ha, hs⟩ => ?_
  rw [ha, hs]
  cases hdata : s.data with
  | none => exact Leaves.pure ⟨rfl, hdata, hmap⟩
  | some data =>
      rcases Option.isSome_iff_exists.mp (hcoherent (by rw [hdata]; rfl)) with ⟨key, hkey⟩
      rw [hkey]
      refine (leaves_decodeCurrent (by rw [hkey]; rfl)).bind fun _ s' ⟨d, hs'⟩ => Leaves.modify ?_
      rw [hs']
      exact ⟨rfl, rfl, by rw [DataMap.store, Option.isSome_map]; exact hmap⟩

/-- The entries, once their number is known. -/
def collect (f : SignatureFactory) (message : TrackerData.Signer) (now : BitVec 64) :
    Reader JavaException Decoding DataMap := do
  modify fun s => { s with dataMap := some (s.dataMap.getD .empty) }
  resume f message
  let s ← state
  repeat_ (decodeEntry f message now) (s.mapSize.toInt - (s.dataMap.getD .empty).size).toNat
  let s ← state
  modify fun s => { s with mapSize := -1#32, dataMap := none }
  return s.dataMap.getD .empty

theorem decode_eq : decode f message now =
    sized Decoding.mapSize (fun mapSize s => { s with mapSize }) 4 (collect f message now) := rfl

theorem leaves_collect (s : Decoding) (hs : s.Coherent) :
    Leaves (collect f message now) s (fun _ s' => s'.Coherent) (Decoding.Waits f) := by
  refine (Leaves.modify (D := fun _ s' => s'.Coherent ∧ s'.dataMap.isSome) ⟨hs, rfl⟩).bind
    fun _ s ⟨hcoherent, hmap⟩ => ?_
  refine (leaves_resume hcoherent hmap).bind fun _ s ⟨_, hdata, hmap⟩ => ?_
  refine (Leaves.state (D := fun a s' => a = s ∧ s' = s) ⟨rfl, rfl⟩).bind fun _ _ ⟨ha, hs⟩ => ?_
  rcases Option.isSome_iff_exists.mp hmap with ⟨m, hm⟩
  have hcome : ToCome s.mapSize (s.mapSize.toInt - m.size).toNat s := ⟨rfl, hdata, m, hm, by omega⟩
  rw [ha, hs, hm, Option.getD_some]
  refine (Leaves.repeat_ leaves_decodeEntry hcome).bind fun _ s hs => ?_
  refine (Leaves.state (D := fun _ s' => s' = s) rfl).bind fun _ _ hs' => ?_
  rw [hs']
  refine (Leaves.modify (D := fun _ s' => s'.Coherent) fun hdata => ?_).bind fun _ s' hs' => Leaves.pure hs'
  rw [show ({ s with mapSize := -1#32, dataMap := none } : Decoding).data = none from hs.data] at hdata
  exact absurd hdata Bool.false_ne_true

theorem leaves_decode (s : Decoding) (hs : s.Coherent) :
    Leaves (decode f message now) s (fun _ s' => s'.Coherent) (Decoding.Waits f) :=
  decode_eq ▸ leaves_sized (P := Decoding.Coherent) (fun _ h hsize => ⟨h, .inl hsize⟩) (fun _ _ h => h)
    leaves_collect hs

theorem alert_decodeEntry (s : Decoding) : Alert (decodeEntry f message now) s := by
  cases hkey : s.key with
  | none =>
      refine Alert.bind _ (Alert.skip (fun b => rfl) ?_)
      rw [hkey]
      exact Alert.need fun b hb => (Number640.consumes_decode (Nat.le_trans (by decide) hb)).bind _
  | some key =>
      refine Alert.skip (a := key) (t := s) (fun b => ?_) ((Data.alert_decodeHeader now s).bind _)
      rw [decodeKey, run_bind, run_state, andThen_done, hkey, run_pure]

theorem Decoding.Waits.alert (h : s.Waits f) : Alert (decode f message now) s := by
  refine decode_eq ▸ alert_sized (by decide) fun hsize => ?_
  rcases h.missing.resolve_left hsize with ⟨hdata, m, hm, hlt⟩ | ⟨data, hdata, hwaits⟩
  · have hsame : ({ s with dataMap := some (s.dataMap.getD .empty) } : Decoding) = s := by
      rw [hm, Option.getD_some, ← hm]
    refine Alert.skip (a := ()) (t := s) (fun b => ?_) (Alert.skip (a := ()) (t := s) (fun b => ?_)
      (Alert.skip (fun b => rfl) (Alert.bind _ ?_)))
    · rw [run_modify, hsame]
    · rw [resume, run_bind, run_state, andThen_done, hdata, run_pure]
    · rw [hm, Option.getD_some]
      exact Alert.repeat_ (by omega) (alert_decodeEntry s)
  · rcases Option.isSome_iff_exists.mp (h.coherent (by rw [hdata]; rfl)) with ⟨key, hkey⟩
    refine Alert.skip (fun b => rfl) (Alert.bind _ (Alert.skip (fun b => rfl) ?_))
    simp only [hdata, hkey]
    exact Alert.bind _ (Alert.zoom hwaits.alert)

end DataMap

/-! ### Data of trackers -/

namespace TrackerData

variable {f : SignatureFactory} {message : Signer} {now : BitVec 64} {s : Decoding}

/-- The number of entries is not known, or one is missing, or the value of the last one has
    not arrived as a whole. -/
def Decoding.Waits (f : SignatureFactory) (s : Decoding) : Prop :=
  s.trackerDataSize = -1#32 ∨
    (s.currentTrackerData = none ∧ ∃ m, s.trackerData = some m ∧ (m.size : Int) < s.trackerDataSize.toInt) ∨
    ∃ pa data, s.currentTrackerData = some (pa, data) ∧ data.Waits f

theorem size_put_le (t : TrackerData) (a : PeerAddress) (d : Data) : (t.put a d).size ≤ t.size + 1 := by
  change (t.peerAddresses.put a.key _).size ≤ t.peerAddresses.size + 1
  by_cases h : t.peerAddresses.contains a.key = true
  · rw [size_put_of_contains _ _ _ h]
    exact Nat.le_succ _
  · rw [size_put_of_not_contains _ _ _ h]

/-- The last value that is put under an address counts. -/
theorem put_put (t : TrackerData) (a : PeerAddress) (d e : Data) : (t.put a d).put a e = t.put a e := by
  unfold put
  rw [get_put, if_pos rfl]
  exact congrArg TrackerData.mk (HashedMap.put_put _ _ _ _)

/-- So many entries are to come, and none was begun. -/
structure ToCome (trackerDataSize : BitVec 32) (n : Nat) (s : Decoding) : Prop where
  size : s.trackerDataSize = trackerDataSize
  current : s.currentTrackerData = none
  map : ∃ m, s.trackerData = some m ∧ (m.size + n : Int) ≤ max trackerDataSize.toInt m.size

theorem ToCome.waits {trackerDataSize : BitVec 32} {n : Nat} (h : ToCome trackerDataSize (n + 1) s) :
    s.Waits f := by
  rcases h.map with ⟨m, hm, hle⟩
  exact .inr (.inl ⟨h.current, m, hm, by rw [h.size]; omega⟩)

theorem leaves_decodeCurrent (pa : PeerAddress) (data : Data) :
    Leaves (decodeCurrent f message pa data) s
      (fun _ s' => ∃ d, s' = { store pa d s with currentTrackerData := none }) (Decoding.Waits f) := by
  refine Leaves.bind (D := fun _ s' => ∃ d, s' = store pa d s) ?_ fun _ s' ⟨d, hs'⟩ => Leaves.modify ⟨d, by rw [hs']⟩
  refine (Leaves.zoom (fun _ => data) (store pa) Data.leaves_decodeRest).mono ?_ ?_
  · intro _ s' ⟨d, _, hs'⟩
    exact ⟨d, hs'⟩
  · intro t ⟨d, hd, ht⟩
    rw [ht]
    exact .inr (.inr ⟨pa, d, rfl, hd⟩)

theorem leaves_decodeEntry {trackerDataSize : BitVec 32} (n : Nat) (s : Decoding)
    (h : ToCome trackerDataSize (n + 1) s) :
    Leaves (decodeEntry f message now) s (fun _ s' => ToCome trackerDataSize n s') (Decoding.Waits f) := by
  have hwaits (t : Decoding) (ht : t = s) : t.Waits f := ht ▸ h.waits
  refine ((Leaves.ofKeeps fun I => (Keeps.need 4)).mono (fun _ _ hs => hs) hwaits).bind fun _ _ hs => ?_
  rw [hs]
  refine ((Leaves.ofKeeps fun I => Keeps.lookField 0 4 32).mono (fun _ _ hs => hs) hwaits).bind fun header _ hs => ?_
  rw [hs]
  refine ((Leaves.ofKeeps fun I => Keeps.need _).mono (fun _ _ hs => hs) hwaits).bind fun _ _ hs => ?_
  rw [hs]
  refine ((Leaves.ofKeeps fun I => PeerAddress.keeps_decode).mono (fun _ _ hs => hs) hwaits).bind fun pa _ hs => ?_
  rw [hs]
  refine ((Leaves.ofKeeps fun I => Data.keeps_decodeHeader now).mono (fun _ _ hs => hs) hwaits).bind
    fun data _ hs => ?_
  rw [hs]
  rcases h.map with ⟨m, hm, hle⟩
  refine (Leaves.modify (D := fun _ s' => s' = store pa (message.keyed data) s) rfl).bind fun _ _ hs => ?_
  rw [hs]
  refine (leaves_decodeCurrent _ _).mono (fun _ s' ⟨d, hs'⟩ => ?_) fun t ht => ht
  have hput := m.size_put_le pa d
  refine ⟨by rw [hs']; exact h.size, by rw [hs'], m.put pa d, ?_, by omega⟩
  rw [hs']
  change ((s.trackerData.map fun m => m.put pa (message.keyed data)).map fun m => m.put pa d) = _
  rw [hm, Option.map_some, Option.map_some, put_put]

/-- The entries, once their number is known. -/
def collect (f : SignatureFactory) (message : Signer) (now : BitVec 64)
    (currentTrackerData : Option (PeerAddress × Data)) : Reader JavaException Decoding TrackerData := do
  modify fun s => { s with trackerData := some (s.trackerData.getD .empty) }
  match currentTrackerData with
  | some (pa, data) => decodeCurrent f message pa data
  | none => pure ()
  let s ← state
  repeat_ (decodeEntry f message now) (s.trackerDataSize.toInt - (s.trackerData.getD .empty).size).toNat
  let s ← state
  modify fun _ => {}
  return s.trackerData.getD .empty

theorem run_decode_eq (b : Bytes) : (decode f message now).run s b =
    (sized Decoding.trackerDataSize (fun n s => { s with trackerDataSize := n }) 1
      (collect f message now s.currentTrackerData)).run s b := rfl

/-- The entries behind the one that was begun. -/
def collectRest (f : SignatureFactory) (message : Signer) (now : BitVec 64) :
    Reader JavaException Decoding TrackerData := do
  let s ← state
  repeat_ (decodeEntry f message now) (s.trackerDataSize.toInt - (s.trackerData.getD .empty).size).toNat
  let s ← state
  modify fun _ => {}
  return s.trackerData.getD .empty

theorem leaves_collectRest (hcurrent : s.currentTrackerData = none) (hmap : s.trackerData.isSome) :
    Leaves (collectRest f message now) s (fun _ s' => s' = {}) (Decoding.Waits f) := by
  refine (Leaves.state (D := fun a s' => a = s ∧ s' = s) ⟨rfl, rfl⟩).bind fun _ _ ⟨ha, hs⟩ => ?_
  rcases Option.isSome_iff_exists.mp hmap with ⟨m, hm⟩
  have hcome : ToCome s.trackerDataSize (s.trackerDataSize.toInt - m.size).toNat s :=
    ⟨rfl, hcurrent, m, hm, by omega⟩
  rw [ha, hs, hm, Option.getD_some]
  exact (Leaves.repeat_ leaves_decodeEntry hcome).bind fun _ s _ =>
    (Leaves.state (D := fun _ _ => True) trivial).bind fun _ s _ =>
      (Leaves.modify (D := fun _ s' => s' = {}) rfl).bind fun _ s hs => Leaves.pure hs

theorem leaves_collect (s : Decoding) :
    Leaves (collect f message now s.currentTrackerData) s (fun _ s' => s' = {}) (Decoding.Waits f) := by
  unfold collect
  refine (Leaves.modify (D := fun _ s' => s'.currentTrackerData = s.currentTrackerData ∧ s'.trackerData.isSome)
    ⟨rfl, rfl⟩).bind fun _ s' ⟨hcurrent, hmap⟩ => ?_
  cases h : s.currentTrackerData with
  | none => exact leaves_collectRest (hcurrent.trans h) hmap
  | some current =>
      refine (leaves_decodeCurrent current.1 current.2).bind fun _ s'' ⟨d, hs⟩ => ?_
      rw [hs]
      exact leaves_collectRest rfl (by simpa only [store, Option.isSome_map] using hmap)

theorem leaves_decode (s : Decoding) :
    Leaves (decode f message now) s (fun _ s' => s' = {}) (Decoding.Waits f) := by
  have hsized : Leaves (sized Decoding.trackerDataSize (fun n s => { s with trackerDataSize := n }) 1
      (collect f message now s.currentTrackerData)) s (fun _ s' => s' = {}) (Decoding.Waits f) :=
    leaves_sized (P := fun t => t.currentTrackerData = s.currentTrackerData) (fun _ _ => .inl) (fun _ _ h => h)
      (fun t ht => ht ▸ leaves_collect t) rfl
  exact ⟨fun hrun => hsized.done hrun, fun hrun => hsized.wait hrun⟩

theorem alert_decodeEntry (s : Decoding) : Alert (decodeEntry f message now) s :=
  (Paces.needAhead (i := 0) (n := 4) (g := PeerAddress.size) rfl fun b _ _ hb =>
    (PeerAddress.consumes_decode (Nat.le_trans (by decide) hb)).bind _).alert

theorem Decoding.Waits.alert (h : s.Waits f) : Alert (decode f message now) s := by
  suffices hsized : Alert (sized Decoding.trackerDataSize (fun n s => { s with trackerDataSize := n }) 1
      (collect f message now s.currentTrackerData)) s from (alert_iff (p := decode f message now)).mpr (alert_iff.mp hsized :)
  refine alert_sized (by decide) fun hsize => ?_
  rcases h.resolve_left hsize with ⟨hcurrent, m, hm, hlt⟩ | ⟨pa, data, hcurrent, hwaits⟩
  · have hsame : ({ s with trackerData := some (s.trackerData.getD .empty) } : Decoding) = s := by
      rw [hm, Option.getD_some, ← hm]
    rw [hcurrent]
    refine Alert.skip (a := ()) (t := s) (fun b => ?_) (Alert.skip (fun b => rfl) (Alert.bind _ ?_))
    · rw [run_modify, hsame]
    · rw [hm, Option.getD_some]
      exact Alert.repeat_ (by omega) (alert_decodeEntry s)
  · rw [hcurrent]
    exact Alert.skip (fun b => rfl) (((Alert.zoom hwaits.alert).bind _).bind _)

end TrackerData

end TomP2P
