import TomP2P.Core.BloomOperations

/-!
# Bloom Filters that Travel and that are Merged

A filter that has travelled should be equal to the one that was sent, be full exactly if that
one was, and contain what was added to it. Which bits are set arrives, but two things ask how
much room there is for bits, which is a matter of the words.

One is `setAll`, which sets all bits of all words. If the size is not a multiple of eight bytes,
these are more than the filter has bytes for, and it cannot be written any more.

The other is `isFull`, which is true if all bits of all words are set. The filter that is sent
has the words its size needs. The one that arrives has been given its bits one after the other,
so that its words were doubled, and it is full if the bits are exactly those of a power of two
of words. So nothing else than the first words, all of them full, can tell the two apart, and it
does not if their number is both that of the sent filter and a power of two, or neither.

A filter that is merged is made with the number of bits for its number of bytes. It has eight
times the size, and its elements are looked for at other places. Only filters without any bits
are merged as they should be.

## Main definitions

* `after`: The filter after some calls, with what was added to it.
* `RoundTrips`: A filter travels as it should.
* `FullAlike`: The filter that is sent and the one that arrives are full alike.
* `Merges`: Two filters are merged as they should be.

## Theorems

* `Kept.track`: What a call keeps.
* `encode_isOk_iff`: Which filters can be written.
* `isFull_received_iff`: When a filter that has arrived is full.
* `bufferRoundTrips_iff`: When a filter travels as it should.
* `merges_iff`: When two filters are merged as they should be.
-/

namespace TomP2P

open Wire Reader

/-! ### Bits that are set one after the other -/

namespace WordSet

theorem get_foldl_set (is : List Nat) (s : WordSet) (j : Nat) :
    (is.foldl set s).bits.get j = (s.bits.get j || decide (j ∈ is)) := by
  induction is generalizing s with
  | nil => simp
  | cons i is ih =>
      rw [List.foldl_cons, ih]
      simp [set, Bool.or_assoc]

theorem grow_of_lt {words i : Nat} (h : i < 64 * words) : grow words i = words := by
  rw [grow, if_neg (by omega)]

theorem words_foldl_set (is : List Nat) (s : WordSet) (h : ∀ i ∈ is, i < 64 * s.words) :
    (is.foldl set s).words = s.words := by
  induction is generalizing s with
  | nil => rfl
  | cons i is ih =>
      have hset : (s.set i).words = s.words := grow_of_lt (h i List.mem_cons_self)
      rw [List.foldl_cons, ih, hset]
      intro j hj
      rw [hset]
      exact h j (List.mem_cons_of_mem _ hj)

theorem words_setRange_size (s : WordSet) : (s.setRange s.size).words = s.words := by
  unfold setRange
  split
  · rfl
  · exact grow_of_lt (by unfold size at *; omega)

theorem get_setRange (s : WordSet) (n j : Nat) : (s.setRange n).bits.get j = (s.bits.get j || decide (j < n)) := by
  unfold setRange
  split
  · next h => simp [h]
  · simp

end WordSet

namespace BloomFilter

variable {E : Type} {h : BloomHashing E}

/-! ### The filter after some calls -/

/-- What is in the filter after a call that went well. -/
def addedBy (added : List E) : Call E → List E
  | .add o => o :: added
  | .addAll os => os ++ added
  | .clear => []
  | .setAll => added

/-- A call that makes an exception leaves the filter as it is. -/
def track (h : BloomHashing E) (b : BloomFilter × List E) (c : Call E) : BloomFilter × List E :=
  match b.1.call h c with
  | .ok b' => (b', addedBy b.2 c)
  | .error _ => b

/-- The filter after some calls, with what was added to it since it was cleared. -/
def after (h : BloomHashing E) (b : BloomFilter) (calls : List (Call E)) : BloomFilter × List E :=
  calls.foldl (track h) (b, [])

/-- Whether all bits are set after a call. -/
def setBy (all : Bool) : Call E → Bool
  | .setAll => true
  | .clear => false
  | _ => all

/-- All bits were set since the last time the filter was cleared. -/
def allSet (calls : List (Call E)) : Bool := calls.foldl setBy false

/-- The filter is written with as many bytes as it says and read back equal, as full as before
    and with everything that was added in it. -/
def RoundTrips (h : BloomHashing E) (b : BloomFilter × List E) : Prop :=
  ∃ v b', b.1.encode = .ok v ∧ (v.length : Int) = b.1.size.toInt ∧ Parses (decode (σ := Unit)) v b' ∧
    b.1.equals h b' = true ∧ b'.isFull = b.1.isFull ∧
    ∀ o ∈ b.2, b.1.contains h o = .ok true ∧ b'.contains h o = .ok true

/-- If the bits are those of the first `m` words, then `m` is the number of all words exactly if
    it is a power of two. -/
def FullAlike (b : BloomFilter) : Prop :=
  ∀ m, b.bitSet.bits = .first (64 * m) → (m = b.bitSet.words ↔ ∃ e, m = 2 ^ e)

/-- The element can be looked for, and all its bits are set. -/
def Holds (b : BloomFilter) (h : BloomHashing E) (o : E) : Prop :=
  b.drawable h = true ∧ ∀ i ∈ b.positions h o, b.bitSet.bits.get i = true

/-- What is so of a filter that was made with these sizes, after any calls. -/
structure Kept (h : BloomHashing E) (bytes elements : BitVec 32) (all : Bool) (b : BloomFilter × List E) : Prop where
  bytes_eq : b.1.byteArraySize = bytes
  elements_eq : b.1.expectedElements = elements
  words : b.1.bitSet.words = ((bytes * 8).toInt.toNat + 63) / 64
  within : all = false → ∀ i, (bytes * 8).toInt.toNat ≤ i → b.1.bitSet.bits.get i = false
  full : all = true → ∀ i < 64 * b.1.bitSet.words, b.1.bitSet.bits.get i = true
  holds : ∀ o ∈ b.2, b.1.Holds h o

variable {bytes elements : BitVec 32} {all : Bool} {b b' : BloomFilter} {added : List E} {o : E}

theorem positions_lt (hd : b.drawable h = true) {i : Nat} (hi : i ∈ b.positions h o) :
    i < b.bitArraySize.toInt.toNat := by
  obtain ⟨x, hx, rfl⟩ := List.mem_map.1 hi
  refine h.nextInt_lt _ _ _ ?_
  -- There is a position, so there are hash functions, and then there are bits.
  have hk : x < (b.k h).toNat := List.mem_range.1 hx
  rw [drawable, decide_eq_true_eq] at hd
  omega

/-- Where an element is looked for depends on the sizes only. -/
theorem positions_congr (b' b : BloomFilter) (hbits : b'.bitArraySize = b.bitArraySize)
    (hexp : b'.expectedElements = b.expectedElements) (o : E) :
    b'.drawable h = b.drawable h ∧ b'.positions h o = b.positions h o := by
  rw [drawable, drawable, positions, positions, k, k, hbits, hexp]
  exact ⟨rfl, rfl⟩

theorem Kept.of_mem {added' : List E} (hk : Kept h bytes elements all (b, added))
    (hsub : ∀ o ∈ added', o ∈ added) : Kept h bytes elements all (b, added') where
  bytes_eq := hk.bytes_eq
  elements_eq := hk.elements_eq
  words := hk.words
  within := hk.within
  full := hk.full
  holds := fun o ho => hk.holds o (hsub o ho)

theorem Kept.add (hk : Kept h bytes elements all (b, added)) (hadd : b.add h o = .ok b') :
    Kept h bytes elements all (b', o :: added) := by
  rw [BloomFilter.add] at hadd
  split at hadd
  · next hd =>
      cases hadd
      have hbits : b.bitArraySize = bytes * 8 := by
        rw [bitArraySize, hk.bytes_eq]
      have hroom : ∀ i ∈ b.positions h o, i < 64 * b.bitSet.words := by
        intro i hi
        have hlt := positions_lt hd hi
        have hwords := hk.words
        rw [hbits] at hlt
        simp only at hwords
        omega
      have hwords : ((b.positions h o).foldl WordSet.set b.bitSet).words = b.bitSet.words :=
        WordSet.words_foldl_set _ _ hroom
      refine ⟨hk.bytes_eq, hk.elements_eq, hwords.trans hk.words, ?_, ?_, ?_⟩
      · intro hall i hi
        have hnot : i ∉ b.positions h o := by
          intro hmem
          have hlt := positions_lt hd hmem
          rw [hbits] at hlt
          omega
        rw [WordSet.get_foldl_set, hk.within hall i hi]
        simp [hnot]
      · intro hall i hi
        have hi' : i < 64 * b.bitSet.words := hwords ▸ hi
        rw [WordSet.get_foldl_set, hk.full hall i hi', Bool.true_or]
      · intro o' ho'
        rcases List.mem_cons.1 ho' with rfl | ho'
        · refine ⟨hd, ?_⟩
          intro i hi
          have hmem : i ∈ b.positions h o' := hi
          rw [WordSet.get_foldl_set, decide_eq_true hmem, Bool.or_true]
        · obtain ⟨hd', hget⟩ := hk.holds o' ho'
          refine ⟨hd', ?_⟩
          intro i hi
          rw [WordSet.get_foldl_set, hget i hi, Bool.true_or]
  · cases hadd

theorem Kept.addAll {os : List E} (hk : Kept h bytes elements all (b, added)) (hadd : b.addAll h os = .ok b') :
    Kept h bytes elements all (b', os ++ added) := by
  induction os generalizing b added with
  | nil =>
      cases hadd
      exact hk
  | cons o os ih =>
      rw [BloomFilter.addAll] at hadd
      cases hone : b.add h o with
      | error e =>
          rw [hone] at hadd
          cases hadd
      | ok b₁ =>
          rw [hone] at hadd
          refine (ih (hk.add hone) hadd).of_mem ?_
          intro o' ho'
          simp only [List.cons_append, List.mem_cons, List.mem_append] at ho' ⊢
          tauto

theorem Kept.clear (hk : Kept h bytes elements all (b, added)) : Kept h bytes elements false (b.clear, []) where
  bytes_eq := hk.bytes_eq
  elements_eq := hk.elements_eq
  words := hk.words
  within := by
    intro _ i _
    simp only [BloomFilter.clear, WordSet.clear, BitSet.clear_eq]
    rfl
  full := fun hfalse => absurd hfalse Bool.false_ne_true
  holds := fun o ho => absurd ho List.not_mem_nil

theorem Kept.setAll (hk : Kept h bytes elements all (b, added)) : Kept h bytes elements true (b.setAll, added) where
  bytes_eq := hk.bytes_eq
  elements_eq := hk.elements_eq
  words := (WordSet.words_setRange_size b.bitSet).trans hk.words
  within := fun hfalse => absurd hfalse.symm Bool.false_ne_true
  full := by
    intro _ i hi
    have hwords : b.setAll.bitSet.words = b.bitSet.words := WordSet.words_setRange_size b.bitSet
    have hlt : i < b.bitSet.size := Nat.lt_of_lt_of_eq hi (congrArg (64 * ·) hwords)
    rw [BloomFilter.setAll, WordSet.get_setRange, decide_eq_true hlt, Bool.or_true]
  holds := by
    intro o ho
    obtain ⟨hd, hget⟩ := hk.holds o ho
    refine ⟨hd, ?_⟩
    intro i hi
    rw [BloomFilter.setAll, WordSet.get_setRange, hget i hi, Bool.true_or]

/-- What a call keeps. -/
theorem Kept.track {s : BloomFilter × List E} (hk : Kept h bytes elements all s) (c : Call E) :
    Kept h bytes elements (setBy all c) (track h s c) := by
  rw [BloomFilter.track]
  cases hcall : s.1.call h c with
  | ok b' =>
      cases c with
      | add o => exact hk.add hcall
      | addAll os => exact hk.addAll hcall
      | clear =>
          cases hcall
          exact hk.clear
      | setAll =>
          cases hcall
          exact hk.setAll
  | error e =>
      -- Only elements that are added make exceptions.
      cases c with
      | add o | addAll os => exact hk
      | clear | setAll => cases hcall

theorem Kept.new (hnew : BloomFilter.new bytes elements = .ok b) : Kept h bytes elements false (b, []) := by
  rw [BloomFilter.new] at hnew
  split at hnew
  · cases hnew
  · cases hnew
    exact ⟨rfl, rfl, rfl, fun _ _ _ => rfl, fun hfalse => absurd hfalse Bool.false_ne_true,
      fun o ho => absurd ho List.not_mem_nil⟩

theorem Kept.after (hnew : BloomFilter.new bytes elements = .ok b) (calls : List (Call E)) :
    Kept h bytes elements (allSet calls) (after h b calls) := by
  have hrun : ∀ all s, Kept h bytes elements all s →
      Kept h bytes elements (calls.foldl setBy all) (calls.foldl (BloomFilter.track h) s) := by
    induction calls with
    | nil => exact fun all s hs => hs
    | cons c calls ih => exact fun all s hs => ih _ _ (hs.track c)
  exact hrun false (b, []) (Kept.new hnew)

/-! ### On the way -/

/-- A filter can be written if its bits are not more than its bytes have room for. -/
theorem encode_isOk_iff : (∃ v, b.encode = .ok v) ↔ (b.bitSet.bits.length : Int) ≤ 8 * b.byteArraySize.toInt := by
  have hlen : b.sent.bitSet.toByteArray.length = (b.bitSet.bits.length + 7) / 8 := BitSet.length_pack _ _
  have hsize : b.sent.byteArraySize = b.byteArraySize.toInt := rfl
  rw [encode, SimpleBloomFilter.encode, hlen, hsize]
  split
  · next hneg =>
      constructor
      · rintro ⟨v, hv⟩
        cases hv
      · intro hle
        omega
  · next hpos =>
      refine ⟨fun _ => ?_, fun _ => ⟨_, rfl⟩⟩
      omega

/-- A filter that is written is read back, with other words. -/
theorem parses_decode (hsize : b.byteArraySize.toInt < 65530) {v : Bytes} (hv : b.encode = .ok v) :
    Parses (decode (σ := Unit)) v { b with bitSet := .ofBits b.bitSet.bits } ∧
      (v.length : Int) = b.byteArraySize.toInt + 6 := by
  have hwf : b.sent.WellFormed := by
    have heq : b.sent.byteArraySize = b.byteArraySize.toInt := rfl
    rw [SimpleBloomFilter.WellFormed, heq, SimpleBloomFilter.SIZE_HEADER]
    omega
  obtain ⟨hparse, -, -, hlen⟩ := SimpleBloomFilter.parses_decode (σ := Unit) b.sent v hwf hv
  refine ⟨?_, hlen⟩
  have hback : received b.sent = { b with bitSet := .ofBits b.bitSet.bits } := by
    rw [received, sent, BitVec.ofInt_toInt]
  rw [← hback]
  exact hparse.ret received

theorem parses_unique {ε σ α : Type} [Inhabited σ] {p : Reader ε σ α} {v : Bytes} {x y : α} (hx : Parses p v x)
    (hy : Parses p v y) : x = y := by
  have heq := (hx default []).symm.trans (hy default [])
  cases heq
  rfl

theorem isFull_iff : b.isFull = true ↔ b.bitSet.bits = .first (64 * b.bitSet.words) := by
  rw [isFull, decide_eq_true_eq]
  exact BitSet.cardinality_eq_iff b.bitSet.fits

/-- A filter that has arrived is full if its bits are those of a power of two of words. -/
theorem isFull_received_iff (bits : BitSet) :
    BloomFilter.isFull { b with bitSet := .ofBits bits } = true ↔ ∃ e, bits = .first (64 * 2 ^ e) := by
  rw [isFull_iff]
  simp only [WordSet.ofBits]
  constructor
  · intro hbits
    obtain ⟨j, hj, -, -⟩ := WordSet.grown_first (64 * WordSet.grown bits)
    rw [← hbits] at hj
    refine ⟨j, ?_⟩
    rw [← hj]
    exact hbits
  · rintro ⟨e, rfl⟩
    obtain ⟨j, hj, hle, hleast⟩ := WordSet.grown_first (64 * 2 ^ e)
    have hje : j ≤ e := hleast e le_rfl
    have hpow : 2 ^ j ≤ 2 ^ e := Nat.pow_le_pow_right (by decide) hje
    rw [hj]
    congr 1
    omega

/-- The two filters are full alike under the condition. -/
theorem fullAlike_iff :
    BloomFilter.isFull { b with bitSet := .ofBits b.bitSet.bits } = b.isFull ↔ b.FullAlike := by
  rw [Bool.eq_iff_iff, isFull_received_iff, isFull_iff]
  constructor
  · intro hiff m hm
    constructor
    · intro hwords
      rw [hwords] at hm
      obtain ⟨e, he⟩ := hiff.2 hm
      have hinj := BitSet.first_inj (hm.symm.trans he)
      exact ⟨e, by omega⟩
    · rintro ⟨e, rfl⟩
      have hinj := BitSet.first_inj (hm.symm.trans (hiff.1 ⟨e, hm⟩))
      omega
  · intro halike
    constructor
    · rintro ⟨e, he⟩
      rw [← (halike _ he).2 ⟨e, rfl⟩]
      exact he
    · intro hfull
      obtain ⟨e, he⟩ := (halike _ hfull).1 rfl
      exact ⟨e, he ▸ hfull⟩

theorem Holds.contains (ho : b.Holds h o) (hvoid : b.isVoid = false) : b.contains h o = .ok true := by
  rw [BloomFilter.contains, hvoid, if_neg Bool.false_ne_true, if_pos ho.1, List.all_eq_true.2 ho.2]

theorem toInt_mul_eight (hpos : 0 ≤ bytes.toInt) (hsize : bytes.toInt < 65530) :
    (bytes * 8).toInt = 8 * bytes.toInt := by
  have height : (8 : BitVec 32).toInt = 8 := rfl
  rw [BitVec.toInt_mul, height, Int.bmod_def]
  omega

/-- Without all bits set, or with a size that fills the words, the bits have room in the bytes. -/
theorem Kept.length_le (hk : Kept h bytes elements all (b, added)) (hpos : 0 ≤ bytes.toInt)
    (hsize : bytes.toInt < 65530) (hall : all = false ∨ (8 : Int) ∣ bytes.toInt) :
    (b.bitSet.bits.length : Int) ≤ 8 * bytes.toInt := by
  have hbits := toInt_mul_eight hpos hsize
  rcases hall with hall | hdvd
  · have hle : b.bitSet.bits.length ≤ (bytes * 8).toInt.toNat := BitSet.length_le_iff.2 (hk.within hall)
    omega
  · have hwords := hk.words
    have hfits := b.bitSet.fits
    simp only at hwords
    omega

/-- With all bits set, they have room only if the size fills the words. -/
theorem Kept.dvd_of_length_le (hk : Kept h bytes elements true (b, added)) (hsize : bytes.toInt < 65530)
    (hle : (b.bitSet.bits.length : Int) ≤ 8 * bytes.toInt) : (8 : Int) ∣ bytes.toInt := by
  have hbits := toInt_mul_eight (by omega) hsize
  have hwords := hk.words
  have hall : 64 * b.bitSet.words ≤ b.bitSet.bits.length := by
    by_contra hlt
    have hset := hk.full rfl b.bitSet.bits.length (Nat.not_le.1 hlt)
    rw [BitSet.get_of_length_le le_rfl] at hset
    cases hset
  simp only at hwords
  omega

/-- A filter travels as it should exactly if its bits have room in its bytes, which is not so if
    all were set and the size does not fill the words, and if it is full alike. -/
theorem bufferRoundTrips_iff (h : BloomHashing E) (byteArraySize expectedElements : BitVec 32)
    (hsize : byteArraySize.toInt < 65530) (hexpected : 1 ≤ expectedElements.toInt) (b : BloomFilter)
    (hnew : BloomFilter.new byteArraySize expectedElements = .ok b) (calls : List (Call E)) :
    RoundTrips h (after h b calls) ↔
      0 ≤ byteArraySize.toInt ∧ (allSet calls = false ∨ (8 : Int) ∣ byteArraySize.toInt) ∧
        (after h b calls).1.FullAlike := by
  have hk := Kept.after (h := h) hnew calls
  generalize after h b calls = s at hk
  obtain ⟨f, added⟩ := s
  have hbytes : f.byteArraySize = byteArraySize := hk.bytes_eq
  constructor
  · rintro ⟨v, b', hv, -, hparse, -, hfull, -⟩
    have hle := encode_isOk_iff.1 ⟨v, hv⟩
    rw [hbytes] at hle
    refine ⟨by omega, ?_, ?_⟩
    · cases hall : allSet calls with
      | false => exact .inl rfl
      | true =>
          rw [hall] at hk
          exact .inr (hk.dvd_of_length_le hsize hle)
    · have hread := (parses_decode (b := f) (hbytes ▸ hsize) hv).1
      rw [parses_unique hparse hread] at hfull
      exact fullAlike_iff.1 hfull
  · rintro ⟨hpos, hall, halike⟩
    have hle := hk.length_le hpos hsize hall
    rw [← hbytes] at hle
    obtain ⟨v, hv⟩ := encode_isOk_iff.2 hle
    obtain ⟨hparse, hlen⟩ := parses_decode (b := f) (hbytes ▸ hsize) hv
    refine ⟨v, { f with bitSet := .ofBits f.bitSet.bits }, hv, ?_, hparse, ?_, fullAlike_iff.2 halike, ?_⟩
    · have hsix : (6 : BitVec 32).toInt = 6 := rfl
      rw [hlen, size, hbytes, BitVec.toInt_add, hsix, Int.bmod_def]
      omega
    · rw [equals, decide_eq_true_eq]
      exact ⟨rfl, rfl, rfl, rfl⟩
    · intro o ho
      have hexp : f.expectedElements = expectedElements := hk.elements_eq
      have hvoid : f.isVoid = false := by
        rw [isVoid, decide_eq_false_iff_not]
        rintro ⟨-, hzero⟩
        rw [← hexp, hzero] at hexpected
        exact absurd hexpected (by decide)
      have hholds : f.Holds h o := hk.holds o ho
      exact ⟨hholds.contains hvoid, Holds.contains (b := { f with bitSet := .ofBits f.bitSet.bits }) hholds hvoid⟩

/-! ### Merging -/

/-- The two are merged to a filter of the same size, which contains what is contained in one of
    them and can be merged again. -/
def Merges (h : BloomHashing E) (a b : BloomFilter) : Prop :=
  ∃ c, a.merge b = .ok c ∧
    (∀ e, a.contains h e = .ok true ∨ b.contains h e = .ok true → c.contains h e = .ok true) ∧
    c.size = a.size ∧ ∃ d, c.merge a = .ok d

/-- Of eight times the size, only nothing is the same. -/
theorem mul_eight_eq_self {x : BitVec 32} (hx : x * 8 = x) : x = 0 := by
  have hnat (n : Nat) (hlt : n < 4294967296) (hn : n * 8 % 4294967296 = n) : n = 0 := by
    -- Seven times the number is a multiple, and seven has no factor in common with it.
    have hdvd : 4294967296 ∣ n * 8 - n :=
      Nat.dvd_of_mod_eq_zero (Nat.sub_mod_eq_zero_of_mod_eq (hn.trans (Nat.mod_eq_of_lt hlt).symm))
    have hcoprime : Nat.Coprime 4294967296 (8 - 1) := by decide
    rw [← Nat.mul_sub_one] at hdvd
    exact Nat.eq_zero_of_dvd_of_lt (hcoprime.dvd_of_dvd_mul_right hdvd) hlt
  have hmod := congrArg BitVec.toNat hx
  rw [BitVec.toNat_mul] at hmod
  exact BitVec.eq_of_toNat_eq (hnat x.toNat x.isLt hmod)

/-- Filters of the same sizes are merged as they should be exactly if they have no bits. -/
theorem merges_iff (h : BloomHashing E) (a b : BloomFilter) (hbytes : b.byteArraySize = a.byteArraySize)
    (hexp : b.expectedElements = a.expectedElements) : Merges h a b ↔ a.byteArraySize = 0 := by
  have hbits : b.bitArraySize = a.bitArraySize := by
    rw [bitArraySize, bitArraySize, hbytes]
  have hmerge : a.merge b = .ok ⟨a.bitArraySize, a.expectedElements, a.bitSet.clone.or b.bitSet⟩ := by
    rw [merge, if_neg (not_not_intro hbits)]
  constructor
  · rintro ⟨c, hc, -, hsize, -⟩
    rw [hmerge] at hc
    cases hc
    refine mul_eight_eq_self ?_
    simpa [size, bitArraySize] using hsize
  · intro hzero
    have hnone : a.bitArraySize = 0 := by
      rw [bitArraySize, hzero]
      rfl
    refine ⟨_, hmerge, ?_, ?_, ?_⟩
    · intro e he
      -- The three filters look for the element at the same places.
      have hvoid : BloomFilter.isVoid ⟨a.bitArraySize, a.expectedElements, a.bitSet.clone.or b.bitSet⟩ =
          a.isVoid := by
        rw [isVoid, isVoid, hnone, hzero]
      have hplaces := positions_congr (h := h)
        ⟨a.bitArraySize, a.expectedElements, a.bitSet.clone.or b.bitSet⟩ a (by rw [bitArraySize, hnone]; rfl) rfl e
      have hplacesb := positions_congr (h := h) b a hbits hexp e
      have hvoidb : b.isVoid = a.isVoid := by
        rw [isVoid, isVoid, hbytes, hexp]
      have hor : ∀ i, (a.bitSet.clone.or b.bitSet).bits.get i = (a.bitSet.bits.get i || b.bitSet.bits.get i) :=
        fun i => BitSet.get_or _ _ i
      rw [contains, contains, hvoidb, hplacesb.1, hplacesb.2] at he
      rw [contains, hvoid, hplaces.1, hplaces.2]
      cases hv : a.isVoid with
      | true => simp [hv] at he
      | false =>
          cases hd : a.drawable h with
          | false => simp [hv, hd] at he
          | true =>
              simp only [hv, hd, if_true, Bool.false_eq_true, if_false, Except.ok.injEq, List.all_eq_true] at he ⊢
              intro i hi
              rw [hor]
              rcases he with he | he
              · rw [he i hi, Bool.true_or]
              · rw [he i hi, Bool.or_true]
    · rw [size, size, hzero, hnone]
    · refine ⟨_, if_neg (not_not_intro ?_)⟩
      change a.bitArraySize = a.bitArraySize * 8
      rw [hnone]
      rfl

/-! ### Small filters -/

/-- The first number of a `Random` below a power of two, the second one and so on. -/
def drawn (seed : BitVec 32) (bound x : Nat) : Nat :=
  let scrambled := (seed.signExtend 48).toNat.xor 0x5DEECE66D
  let state := (fun s => (s * 0x5DEECE66D + 0xB) % 2 ^ 48)^[x + 1] scrambled
  bound * (state / 2 ^ 17) / 2 ^ 31

theorem drawn_lt (seed : BitVec 32) (bound x : Nat) (hpos : 0 < bound) : drawn seed bound x < bound := by
  rw [drawn, Function.iterate_succ_apply', Nat.div_lt_iff_lt_mul (by decide)]
  refine Nat.mul_lt_mul_of_pos_left ?_ hpos
  rw [Nat.div_lt_iff_lt_mul (by decide)]
  exact Nat.lt_of_lt_of_eq (Nat.mod_lt _ (by decide)) (by decide)

/-- Numbers with themselves as hash codes. The number of hash functions is the logarithm of two
    times the number of bits for an element, rounded up. -/
def integers : BloomHashing (BitVec 32) where
  hashCode := id
  nextInt := drawn
  nextInt_lt := drawn_lt
  hashes := fun bits elements => (bits.toInt * 693147 + elements.toInt * 1000000 - 1) / (elements.toInt * 1000000)

/-- A single word is full before and after. -/
theorem fullAlike_of_words (hwords : b.bitSet.words = 1) : b.FullAlike := by
  intro m hm
  have hfits := b.bitSet.fits
  rw [hm, BitSet.length_first, hwords] at hfits
  have hm1 : m = 0 ∨ m = 1 := by omega
  rw [hwords]
  rcases hm1 with rfl | rfl
  · refine ⟨fun h0 => absurd h0 (by decide), ?_⟩
    rintro ⟨e, he⟩
    have hpos := Nat.two_pow_pos e
    omega
  · exact ⟨fun _ => ⟨0, rfl⟩, fun _ => rfl⟩

/-- A filter of eight bytes, for ten elements. -/
def eightBytes : BloomFilter := ⟨8, 10, .ofSize 64⟩

def oneByte : BloomFilter := ⟨1, 10, .ofSize 8⟩

theorem roundTrips_eightBytes :
    RoundTrips integers (after integers eightBytes [.setAll, .clear, .add 7, .addAll [1, 2]]) := by
  have hnew : BloomFilter.new 8 10 = .ok eightBytes := by decide
  refine (bufferRoundTrips_iff integers 8 10 (by decide) (by decide) eightBytes hnew _).2 ⟨by decide, .inl rfl, ?_⟩
  exact fullAlike_of_words (Kept.after (h := integers) hnew _).words

/-- A filter of one byte has a word of bits, and if all are set it cannot be written. -/
theorem not_roundTrips_oneByte :
    ∃ b, BloomFilter.new 1 10 = .ok b ∧ ¬ RoundTrips integers (after integers b [.setAll]) := by
  refine ⟨oneByte, by decide, ?_⟩
  rintro ⟨v, b', hv, -⟩
  have hle := encode_isOk_iff.1 ⟨v, hv⟩
  revert hle
  decide

/-- Filters without bits. -/
theorem merges_nothing : Merges integers ⟨0, 10, .ofSize 0⟩ ⟨0, 10, .ofSize 0⟩ :=
  (merges_iff integers _ _ rfl rfl).2 rfl

/-- Two filters of eight bytes are merged to one of 64 bytes. -/
theorem not_merges_eightBytes : ¬ Merges integers eightBytes eightBytes := by
  rintro ⟨c, hc, -, hsize, -⟩
  have hmerged : eightBytes.merge eightBytes = .ok ⟨64, 10, (WordSet.ofSize 64).clone.or (.ofSize 64)⟩ := by
    decide
  rw [hmerged, Except.ok.injEq] at hc
  subst hc
  revert hsize
  decide

end BloomFilter

end TomP2P
