import Mathlib.Order.Lattice
import Mathlib.Order.Lattice.Nat
import TomP2P.Foundation.Sha1
import TomP2P.Foundation.XorClass

/-!
# Keys

The 160-bit numbers that name peers, locations, domains, contents and
versions, and the composite keys built from them.

A `Number160` is five 32-bit words, most significant first. Comparison goes
word by word, without sign, which is the numeric order of `Number160.toNat`
(`Number160.compareTo_eq`). The composite keys compare component by component,
and since a component never reaches `2 ^ 160` that is numeric order again. The
order instances are the comparisons; the numbers are there to prove them orders.

## Main definitions

* `int`: What is kept of a number in 32 bits with sign.
* `Number160`, `Number320`, `Number480`, `Number640`: The keys.
* `Number160.timestamp`: The upper 64 bits of a version key.
* `Number160.xor`, `Number160.bitLength`: The distance of keys and its size.
* `Number640.minVersionKey`, `Number640.maxVersionKey`: The range of versions
  of one content.
* `makeSHAHash`: The key a byte string hashes to.

## Theorems

* `Number160.compareTo_eq`, `Number640.compareTo_eq`: The comparisons of the
  source are the numeric orders.
* `Number160.toNat_xor`, `Number160.bitLength_eq`: Distance and size as those of
  the numbers.
* `Number480.versions_iff`, `Number160.locations_iff`:
  What lies between the smallest and the largest key of a group.
-/

namespace TomP2P

open Function

/-- What an `int` keeps of a number. -/
def int (x : Int) : Int := x.bmod (2 ^ 32)

theorem int_eq {x : Int} (hlow : -2 ^ 31 ≤ x) (hhigh : x < 2 ^ 31) : int x = x := by
  rw [int, Int.bmod_def]
  omega

theorem int_le {x : Int} (h : 0 ≤ x) : int x ≤ x := by
  unfold int
  rw [Int.bmod_eq_emod]
  split <;> omega

theorem int_int_add (x y : Int) : int (int x + y) = int (x + y) := Int.bmod_add_bmod

/-- The order of a comparison that agrees with that of numbers. -/
@[reducible] def orderOfCompareTo {α : Type} [DecidableEq α] (toNat : α → Nat)
    (hinj : Injective toNat) (compareTo : α → α → Ordering)
    (h : ∀ a b, compareTo a b = compare (toNat a) (toNat b)) : LinearOrder α where
  le a b := compareTo a b ≠ .gt
  lt a b := compareTo a b = .lt
  le_refl a := by
    rw [h, Ne, compare_gt_iff_gt]
    exact lt_irrefl _
  le_trans a b c hab hbc := by
    rw [h, Ne, compare_gt_iff_gt, not_lt] at *
    exact le_trans hab hbc
  lt_iff_le_not_ge a b := by
    rw [h, h, compare_lt_iff_lt, Ne, Ne, compare_gt_iff_gt, compare_gt_iff_gt, not_lt, not_not]
    exact ⟨fun hab => ⟨le_of_lt hab, hab⟩, fun hab => hab.2⟩
  le_antisymm a b hab hba := by
    rw [h, Ne, compare_gt_iff_gt, not_lt] at hab hba
    exact hinj (le_antisymm hab hba)
  le_total a b := by
    rw [h, h, Ne, Ne, compare_gt_iff_gt, compare_gt_iff_gt, not_lt, not_lt]
    exact le_total _ _
  toDecidableLE := fun a b => inferInstanceAs (Decidable (compareTo a b ≠ .gt))
  toDecidableEq := inferInstance
  toDecidableLT := fun a b => inferInstanceAs (Decidable (compareTo a b = .lt))

/-- A 160-bit number as five words, most significant first. -/
@[ext] structure Number160 where
  val0 : BitVec 32
  val1 : BitVec 32
  val2 : BitVec 32
  val3 : BitVec 32
  val4 : BitVec 32
  deriving DecidableEq

namespace Number160

/-- The number the words stand for. -/
def toNat (n : Number160) : Nat :=
  (((n.val0.toNat * 2 ^ 32 + n.val1.toNat) * 2 ^ 32 + n.val2.toNat) * 2 ^ 32 +
    n.val3.toNat) * 2 ^ 32 + n.val4.toNat

def ZERO : Number160 := ⟨0, 0, 0, 0, 0⟩

def MAX_VALUE : Number160 := ⟨-1, -1, -1, -1, -1⟩

instance : Inhabited Number160 := ⟨ZERO⟩

/-- A number that fits in the last word. -/
instance (n : Nat) : OfNat Number160 n := ⟨⟨0, 0, 0, 0, BitVec.ofNat 32 n⟩⟩

/-- The words compared without sign, from the most significant on. -/
def compareTo (n o : Number160) : Ordering :=
  (compare n.val0.toNat o.val0.toNat).then <| (compare n.val1.toNat o.val1.toNat).then <|
    (compare n.val2.toNat o.val2.toNat).then <| (compare n.val3.toNat o.val3.toNat).then <|
      compare n.val4.toNat o.val4.toNat

/-- The upper two words as a 64-bit time. -/
def timestamp (n : Number160) : BitVec 64 := n.val0 ++ n.val1

def hashCode (n : Number160) : BitVec 32 :=
  [n.val0, n.val1, n.val2, n.val3, n.val4].foldl (fun hashCode val => 31 * hashCode + val) 0

def xor (n key : Number160) : Number160 :=
  ⟨n.val0 ^^^ key.val0, n.val1 ^^^ key.val1, n.val2 ^^^ key.val2, n.val3 ^^^ key.val3,
    n.val4 ^^^ key.val4⟩

def BITS : Nat := 160

def isZero (n : Number160) : Bool := n = ZERO

/-- The number of zero bits in front of the highest bit that is set. -/
def numberOfLeadingZeros (val : BitVec 32) : Nat := if val = 0 then 32 else 31 - val.toNat.log2

/-- The bits of the first word that is not zero, and all bits of the words behind
    it. -/
def bitLengthOf : List (BitVec 32) → Nat
  | [] => 0
  | val :: vals =>
      if val ≠ 0 then 32 - numberOfLeadingZeros val + 32 * vals.length else bitLengthOf vals

def words (n : Number160) : List (BitVec 32) := [n.val0, n.val1, n.val2, n.val3, n.val4]

/-- The number of bits used, leading zero bits left out. -/
def bitLength (n : Number160) : Nat := bitLengthOf n.words

theorem toNat_lt (n : Number160) : n.toNat < 2 ^ 160 := by
  have h0 := n.val0.isLt
  have h1 := n.val1.isLt
  have h2 := n.val2.isLt
  have h3 := n.val3.isLt
  have h4 := n.val4.isLt
  unfold toNat
  omega

theorem toNat_injective : Injective toNat := by
  intro a b h
  have a1 := a.val1.isLt
  have a2 := a.val2.isLt
  have a3 := a.val3.isLt
  have a4 := a.val4.isLt
  have b1 := b.val1.isLt
  have b2 := b.val2.isLt
  have b3 := b.val3.isLt
  have b4 := b.val4.isLt
  unfold toNat at h
  -- The words are the digits in base `2 ^ 32`, so equal sums have equal words.
  have hw : a.val0.toNat = b.val0.toNat ∧ a.val1.toNat = b.val1.toNat ∧
      a.val2.toNat = b.val2.toNat ∧ a.val3.toNat = b.val3.toNat ∧
      a.val4.toNat = b.val4.toNat := by omega
  exact Number160.ext (BitVec.eq_of_toNat_eq hw.1) (BitVec.eq_of_toNat_eq hw.2.1)
    (BitVec.eq_of_toNat_eq hw.2.2.1) (BitVec.eq_of_toNat_eq hw.2.2.2.1)
    (BitVec.eq_of_toNat_eq hw.2.2.2.2)

/-- Comparing pairs digit by digit is comparing the numbers they denote. -/
theorem compare_then (a b c d B : Nat) (hc : c < B) (hd : d < B) (o : Ordering) :
    (compare a b).then ((compare c d).then o) = (compare (a * B + c) (b * B + d)).then o := by
  rcases Nat.lt_trichotomy a b with h | h | h
  · have hmul : (a + 1) * B ≤ b * B := Nat.mul_le_mul_right B h
    rw [Nat.succ_mul] at hmul
    have hlt : a * B + c < b * B + d := by omega
    rw [compare_lt_iff_lt.mpr h, compare_lt_iff_lt.mpr hlt]
    rfl
  · subst h
    rw [compare_eq_iff_eq.mpr rfl, Ordering.eq_then]
    congr 1
    rcases Nat.lt_trichotomy c d with h' | h' | h'
    · rw [compare_lt_iff_lt.mpr h', compare_lt_iff_lt.mpr (by omega)]
    · rw [h', compare_eq_iff_eq.mpr rfl, compare_eq_iff_eq.mpr rfl]
    · rw [compare_gt_iff_gt.mpr h', compare_gt_iff_gt.mpr (by omega)]
  · have hmul : (b + 1) * B ≤ a * B := Nat.mul_le_mul_right B h
    rw [Nat.succ_mul] at hmul
    have hgt : b * B + d < a * B + c := by omega
    rw [compare_gt_iff_gt.mpr h, compare_gt_iff_gt.mpr hgt]
    rfl

theorem compareTo_eq (n o : Number160) : n.compareTo o = compare n.toNat o.toNat := by
  rw [compareTo, ← @Ordering.then_eq (compare n.val4.toNat o.val4.toNat)]
  -- Fold the words in from the most significant end.
  rw [compare_then _ _ _ _ _ n.val1.isLt o.val1.isLt, compare_then _ _ _ _ _ n.val2.isLt o.val2.isLt,
    compare_then _ _ _ _ _ n.val3.isLt o.val3.isLt, compare_then _ _ _ _ _ n.val4.isLt o.val4.isLt,
    Ordering.then_eq]
  rfl

instance : LinearOrder Number160 :=
  orderOfCompareTo toNat toNat_injective compareTo compareTo_eq

theorem le_iff (a b : Number160) : a ≤ b ↔ a.toNat ≤ b.toNat := by
  have h : a ≤ b ↔ a.compareTo b ≠ .gt := Iff.rfl
  rw [h, compareTo_eq, Ne, compare_gt_iff_gt, not_lt]

theorem toNat_ZERO : ZERO.toNat = 0 := by decide

theorem toNat_eq_value (n : Number160) : n.toNat = Words.value n.words := by
  simp only [toNat, words, Words.value, List.length_cons, List.length_nil]
  omega

theorem toNat_xor (n key : Number160) : (n.xor key).toNat = n.toNat ^^^ key.toNat := by
  have hwords : (n.xor key).words = List.zipWith (· ^^^ ·) n.words key.words := rfl
  rw [toNat_eq_value, toNat_eq_value, toNat_eq_value, hwords, Words.value_xor n.words key.words rfl]

theorem bitLengthOf_eq (vals : List (BitVec 32)) : bitLengthOf vals = Words.bits vals := by
  induction vals with
  | nil => rfl
  | cons val vals ih =>
      rw [bitLengthOf, Words.bits, ih, numberOfLeadingZeros]
      by_cases hv : val = 0
      · rw [if_neg (not_not.mpr hv), if_neg (not_not.mpr hv)]
      · have hne : val.toNat ≠ 0 := by
          intro h
          exact hv (BitVec.eq_of_toNat_eq h)
        have hlt : val.toNat.log2 < 32 := (Nat.log2_lt hne).mpr val.isLt
        rw [if_pos hv, if_pos hv, if_neg hv]
        omega

/-- The bits used are those up to the highest bit that is set. -/
theorem bitLength_eq (n : Number160) :
    n.bitLength = if n.toNat = 0 then 0 else n.toNat.log2 + 1 := by
  rw [bitLength, bitLengthOf_eq, Words.bits_eq, ← toNat_eq_value]

theorem toNat_MAX_VALUE : MAX_VALUE.toNat = 2 ^ 160 - 1 := by decide

end Number160

/-- A location and a domain. -/
@[ext] structure Number320 where
  locationKey : Number160
  domainKey : Number160
  deriving DecidableEq

/-- A location, a domain and a content. -/
@[ext] structure Number480 where
  locationKey : Number160
  domainKey : Number160
  contentKey : Number160
  deriving DecidableEq

/-- A location, a domain, a content and a version: the key of one stored value. -/
@[ext] structure Number640 where
  locationKey : Number160
  domainKey : Number160
  contentKey : Number160
  versionKey : Number160
  deriving DecidableEq

instance : Inhabited Number640 := ⟨default, default, default, default⟩

namespace Number320

def toNat (n : Number320) : Nat := n.locationKey.toNat * 2 ^ 160 + n.domainKey.toNat

theorem toNat_injective : Injective toNat := by
  intro a b h
  have ha := a.domainKey.toNat_lt
  have hb := b.domainKey.toNat_lt
  unfold toNat at h
  have hw : a.locationKey.toNat = b.locationKey.toNat ∧
      a.domainKey.toNat = b.domainKey.toNat := by omega
  exact Number320.ext (Number160.toNat_injective hw.1) (Number160.toNat_injective hw.2)

def compareTo (n o : Number320) : Ordering :=
  (n.locationKey.compareTo o.locationKey).then <| n.domainKey.compareTo o.domainKey

theorem compareTo_eq (n o : Number320) : n.compareTo o = compare n.toNat o.toNat := by
  rw [compareTo, Number160.compareTo_eq, Number160.compareTo_eq,
    ← @Ordering.then_eq (compare n.domainKey.toNat _)]
  rw [Number160.compare_then _ _ _ _ _ n.domainKey.toNat_lt o.domainKey.toNat_lt, Ordering.then_eq]
  rfl

instance : LinearOrder Number320 :=
  orderOfCompareTo toNat toNat_injective compareTo compareTo_eq

end Number320

namespace Number480

def toNat (n : Number480) : Nat :=
  (n.locationKey.toNat * 2 ^ 160 + n.domainKey.toNat) * 2 ^ 160 + n.contentKey.toNat

theorem toNat_injective : Injective toNat := by
  intro a b h
  have ha := a.domainKey.toNat_lt
  have hb := b.domainKey.toNat_lt
  have ha' := a.contentKey.toNat_lt
  have hb' := b.contentKey.toNat_lt
  unfold toNat at h
  have hw : a.locationKey.toNat = b.locationKey.toNat ∧
      a.domainKey.toNat = b.domainKey.toNat ∧ a.contentKey.toNat = b.contentKey.toNat := by omega
  exact Number480.ext (Number160.toNat_injective hw.1) (Number160.toNat_injective hw.2.1)
    (Number160.toNat_injective hw.2.2)

def compareTo (n o : Number480) : Ordering :=
  (n.locationKey.compareTo o.locationKey).then <| (n.domainKey.compareTo o.domainKey).then <|
    n.contentKey.compareTo o.contentKey

theorem compareTo_eq (n o : Number480) : n.compareTo o = compare n.toNat o.toNat := by
  rw [compareTo, Number160.compareTo_eq, Number160.compareTo_eq, Number160.compareTo_eq,
    ← @Ordering.then_eq (compare n.contentKey.toNat _)]
  rw [Number160.compare_then _ _ _ _ _ n.domainKey.toNat_lt o.domainKey.toNat_lt,
    Number160.compare_then _ _ _ _ _ n.contentKey.toNat_lt o.contentKey.toNat_lt, Ordering.then_eq]
  rfl

instance : LinearOrder Number480 :=
  orderOfCompareTo toNat toNat_injective compareTo compareTo_eq

end Number480

namespace Number640

def toNat (n : Number640) : Nat :=
  ((n.locationKey.toNat * 2 ^ 160 + n.domainKey.toNat) * 2 ^ 160 + n.contentKey.toNat) * 2 ^ 160 +
    n.versionKey.toNat

theorem toNat_injective : Injective toNat := by
  intro a b h
  have a1 := a.domainKey.toNat_lt
  have a2 := a.contentKey.toNat_lt
  have a3 := a.versionKey.toNat_lt
  have b1 := b.domainKey.toNat_lt
  have b2 := b.contentKey.toNat_lt
  have b3 := b.versionKey.toNat_lt
  unfold toNat at h
  have hw : a.locationKey.toNat = b.locationKey.toNat ∧
      a.domainKey.toNat = b.domainKey.toNat ∧ a.contentKey.toNat = b.contentKey.toNat ∧
      a.versionKey.toNat = b.versionKey.toNat := by omega
  exact Number640.ext (Number160.toNat_injective hw.1) (Number160.toNat_injective hw.2.1)
    (Number160.toNat_injective hw.2.2.1) (Number160.toNat_injective hw.2.2.2)

/-- The components compared in turn. -/
def compareTo (n o : Number640) : Ordering :=
  (n.locationKey.compareTo o.locationKey).then <| (n.domainKey.compareTo o.domainKey).then <|
    (n.contentKey.compareTo o.contentKey).then <| n.versionKey.compareTo o.versionKey

theorem compareTo_eq (n o : Number640) : n.compareTo o = compare n.toNat o.toNat := by
  rw [compareTo, Number160.compareTo_eq, Number160.compareTo_eq, Number160.compareTo_eq,
    Number160.compareTo_eq, ← @Ordering.then_eq (compare n.versionKey.toNat _)]
  rw [Number160.compare_then _ _ _ _ _ n.domainKey.toNat_lt o.domainKey.toNat_lt,
    Number160.compare_then _ _ _ _ _ n.contentKey.toNat_lt o.contentKey.toNat_lt,
    Number160.compare_then _ _ _ _ _ n.versionKey.toNat_lt o.versionKey.toNat_lt, Ordering.then_eq]
  rfl

instance : LinearOrder Number640 :=
  orderOfCompareTo toNat toNat_injective compareTo compareTo_eq

theorem le_iff (a b : Number640) : a ≤ b ↔ a.toNat ≤ b.toNat := by
  have h : a ≤ b ↔ a.compareTo b ≠ .gt := Iff.rfl
  rw [h, compareTo_eq, Ne, compare_gt_iff_gt, not_lt]

def locationAndDomainKey (n : Number640) : Number320 := ⟨n.locationKey, n.domainKey⟩

def locationAndDomainAndContentKey (n : Number640) : Number480 :=
  ⟨n.locationKey, n.domainKey, n.contentKey⟩

def minVersionKey (n : Number640) : Number640 := { n with versionKey := Number160.ZERO }

def maxVersionKey (n : Number640) : Number640 := { n with versionKey := Number160.MAX_VALUE }

end Number640

/-- The version of a content. -/
def Number480.version (n : Number480) (v : Number160) : Number640 :=
  ⟨n.locationKey, n.domainKey, n.contentKey, v⟩

def Number480.locationAndDomainKey (n : Number480) : Number320 := ⟨n.locationKey, n.domainKey⟩

/-- The versions of a content are the keys between its smallest and its
    largest one. -/
theorem Number480.versions_iff (n : Number480) (k : Number640) :
    (n.version Number160.ZERO ≤ k ∧ k ≤ n.version Number160.MAX_VALUE) ↔
      k.locationAndDomainAndContentKey = n := by
  have h1 := n.domainKey.toNat_lt
  have h2 := n.contentKey.toNat_lt
  have k1 := k.domainKey.toNat_lt
  have k2 := k.contentKey.toNat_lt
  have k3 := k.versionKey.toNat_lt
  simp only [Number640.le_iff, Number640.toNat, Number480.version, Number160.toNat_ZERO,
    Number160.toNat_MAX_VALUE]
  refine ⟨?_, ?_⟩
  · intro h
    have hw : k.locationKey.toNat = n.locationKey.toNat ∧
        k.domainKey.toNat = n.domainKey.toNat ∧ k.contentKey.toNat = n.contentKey.toNat := by omega
    exact Number480.ext (Number160.toNat_injective hw.1) (Number160.toNat_injective hw.2.1)
      (Number160.toNat_injective hw.2.2)
  · intro h
    subst h
    simp only [Number640.locationAndDomainAndContentKey]
    omega

/-- The keys of a location are those between its smallest and its largest one. -/
theorem Number160.locations_iff (n : Number160) (k : Number640) :
    ((⟨n, ZERO, ZERO, ZERO⟩ : Number640) ≤ k ∧ k ≤ ⟨n, MAX_VALUE, MAX_VALUE, MAX_VALUE⟩) ↔
      k.locationKey = n := by
  have k1 := k.domainKey.toNat_lt
  have k2 := k.contentKey.toNat_lt
  have k3 := k.versionKey.toNat_lt
  simp only [Number640.le_iff, Number640.toNat, toNat_ZERO, toNat_MAX_VALUE]
  refine ⟨?_, ?_⟩
  · intro h
    exact toNat_injective (by omega)
  · intro h
    subst h
    omega

/-- The key a byte string hashes to. -/
def makeSHAHash (bytes : Wire.Bytes) : Number160 :=
  let d := Wire.sha1 bytes
  ⟨d.h0, d.h1, d.h2, d.h3, d.h4⟩

end TomP2P
