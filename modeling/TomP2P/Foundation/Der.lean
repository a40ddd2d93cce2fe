import Mathlib.Data.Nat.Digits.Defs
import Mathlib.Tactic.Positivity
import TomP2P.Foundation.Bytes

/-!
# Integers in DER

The part of the distinguished encoding rules that a pair of integers needs: an
element is a tag, the length of its contents and the contents, and the contents of an
integer are the bytes of its two's complement, highest first.

The contents of an integer are never empty, and they are the shortest with their
value: the first nine bits are not all the same. Contents that break this rule still
have a value. `Ber` asks for the values only, `Signature` for the rule as well.

A first byte with its top bit set makes a number negative, so a number that fills its
bytes needs a zero in front of them, and a number with another zero than that has
shorter contents.

## Main definitions

* `Der.tlv`: An element.
* `Der.value`, `Der.Shortest`: What contents stand for, and the rule of length.
* `Der.pair`: A sequence of two integers with given contents.
* `Der.Ber`, `Der.Signature`: The encodings of two integers.

## Theorems

* `Der.pair_inj`: A sequence has one pair of contents.
* `Der.Shortest.length_le`: How long the contents of a small number are.
* `Der.value_eq_iff`, `Der.shortest_iff`: Bytes of a given number as contents.
-/

namespace Der

open Wire

/-- The length of contents: one byte, or the number of its bytes and these. -/
def lengthOctets (n : Nat) : Bytes :=
  if n < 128 then [BitVec.ofNat 8 n]
  else BitVec.ofNat 8 (128 + (Nat.digits 256 n).length) :: (Nat.digits 256 n).reverse.map (BitVec.ofNat 8)

/-- An element: its tag, the length of its contents, and these. -/
def tlv (tag : Byte) (contents : Bytes) : Bytes := tag :: (lengthOctets contents.length ++ contents)

/-- The number whose two's complement the bytes are. -/
def value : Bytes → Int
  | [] => 0
  | b :: bs => if b.msb then (ofBE (b :: bs) : Int) - 256 ^ (bs.length + 1) else ofBE (b :: bs)

/-- There are contents, and their first nine bits are not all the same. -/
def Shortest : Bytes → Prop
  | [] => False
  | [_] => True
  | a :: b :: _ => ¬ (a = 0#8 ∧ b.msb = false) ∧ ¬ (a = 255#8 ∧ b.msb = true)

def INTEGER : Byte := 0x02#8

def SEQUENCE : Byte := 0x30#8

/-- A sequence of two integers with these contents. -/
def pair (c d : Bytes) : Bytes := tlv SEQUENCE (tlv INTEGER c ++ tlv INTEGER d)

/-- The bytes are a sequence of two integers with these values. -/
def Ber (bytes : Bytes) (x y : Int) : Prop :=
  ∃ c d, bytes = pair c d ∧ c ≠ [] ∧ d ≠ [] ∧ value c = x ∧ value d = y

/-- The bytes are a sequence of two integers with these values and the shortest
    contents. -/
def Signature (bytes : Bytes) (x y : Int) : Prop :=
  ∃ c d, bytes = pair c d ∧ Shortest c ∧ Shortest d ∧ value c = x ∧ value d = y

theorem tlv_short {tag : Byte} {contents : Bytes} (h : contents.length < 128) :
    tlv tag contents = tag :: BitVec.ofNat 8 contents.length :: contents := by
  rw [tlv, lengthOctets, if_pos h, List.singleton_append]

theorem length_tlv (tag : Byte) (contents : Bytes) : contents.length < (tlv tag contents).length := by
  rw [tlv, List.length_cons, List.length_append]
  omega

/-- Short elements that start the same bytes are the same. -/
theorem tlv_append_inj (tag : Byte) {c d r s : Bytes} (hc : c.length < 128) (hd : d.length < 128)
    (h : tlv tag c ++ r = tlv tag d ++ s) : c = d ∧ r = s := by
  rw [tlv_short hc, tlv_short hd] at h
  simp only [List.cons_append, List.cons.injEq, true_and] at h
  have hlen : c.length = d.length := by
    have heq := congrArg BitVec.toNat h.1
    rw [BitVec.toNat_ofNat, BitVec.toNat_ofNat] at heq
    omega
  exact List.append_inj h.2 hlen

/-- A short sequence has one pair of contents. -/
theorem pair_inj {c d c' d' : Bytes} (hshort : (pair c d).length < 128) (h : pair c d = pair c' d') :
    c = c' ∧ d = d' := by
  have hbody (c d : Bytes) (hlt : (pair c d).length < 128) :
      c.length < 128 ∧ d.length < 128 ∧ (tlv INTEGER c ++ tlv INTEGER d).length < 128 := by
    have hall := length_tlv SEQUENCE (tlv INTEGER c ++ tlv INTEGER d)
    have hc := length_tlv INTEGER c
    have hd := length_tlv INTEGER d
    rw [pair] at hlt
    rw [List.length_append] at hall ⊢
    omega
  obtain ⟨hc, hd, hcd⟩ := hbody c d hshort
  obtain ⟨hc', hd', hcd'⟩ := hbody c' d' (h ▸ hshort)
  have hinner : tlv INTEGER c ++ tlv INTEGER d = tlv INTEGER c' ++ tlv INTEGER d' := by
    refine (tlv_append_inj SEQUENCE (r := []) (s := []) hcd hcd' ?_).1
    rwa [List.append_nil, List.append_nil]
  obtain ⟨hfirst, hrest⟩ := tlv_append_inj INTEGER hc hc' hinner
  refine ⟨hfirst, ?_⟩
  refine (tlv_append_inj INTEGER (r := []) (s := []) hd hd' ?_).1
  rwa [List.append_nil, List.append_nil]

/-- The top bit of the first byte is the upper half of the range. -/
theorem msb_iff (b : Byte) (bs : Bytes) : b.msb = true ↔ 256 ^ (bs.length + 1) ≤ 2 * ofBE (b :: bs) := by
  have hlt := ofBE_lt bs
  have hb : b.msb = true ↔ 128 ≤ b.toNat := by
    rw [BitVec.msb_eq_decide, decide_eq_true_iff]
  rw [hb, ofBE, pow_succ]
  constructor
  · intro h
    have hmul : 128 * 256 ^ bs.length ≤ b.toNat * 256 ^ bs.length := Nat.mul_le_mul_right _ h
    omega
  · intro h
    by_contra hlow
    have hmul : b.toNat * 256 ^ bs.length ≤ 127 * 256 ^ bs.length :=
      Nat.mul_le_mul_right _ (by omega)
    omega

/-- Bytes stand for their number if it is in the lower half of the range. -/
theorem value_eq_iff (c : Bytes) (hne : c ≠ []) :
    value c = ofBE c ↔ 2 * ofBE c < 256 ^ c.length := by
  cases c with
  | nil => exact absurd rfl hne
  | cons b bs =>
      have hmsb := msb_iff b bs
      have hpos : (0 : Int) < 256 ^ (bs.length + 1) := by positivity
      rw [value, List.length_cons]
      cases hb : b.msb with
      | true =>
          have hge := hmsb.mp hb
          rw [if_pos rfl]
          omega
      | false =>
          have hlt : ¬ 256 ^ (bs.length + 1) ≤ 2 * ofBE (b :: bs) := by
            intro hge
            rw [hmsb.mpr hge] at hb
            cases hb
          rw [if_neg Bool.false_ne_true]
          omega

/-- Contents of a number that is not negative are its bytes. -/
theorem value_of_nonneg {c : Bytes} (h : 0 ≤ value c) : value c = ofBE c := by
  cases c with
  | nil => rfl
  | cons b bs =>
      rw [value] at h ⊢
      cases hb : b.msb with
      | true =>
          have hlt := ofBE_lt (b :: bs)
          rw [List.length_cons] at hlt
          rw [hb, if_pos rfl] at h
          have hcast : ((ofBE (b :: bs) : Nat) : Int) < 256 ^ (bs.length + 1) := by exact_mod_cast hlt
          omega
      | false => rw [if_neg Bool.false_ne_true]

/-- In the lower half of the range the contents are the shortest if the number does
    not fit the lower half of the range of one byte less. -/
theorem shortest_iff (a b : Byte) (bs : Bytes) (h : 2 * ofBE (a :: b :: bs) < 256 ^ (bs.length + 2)) :
    Shortest (a :: b :: bs) ↔ 256 ^ (bs.length + 1) ≤ 2 * ofBE (a :: b :: bs) := by
  have ha := msb_iff a (b :: bs)
  have hb := msb_iff b bs
  rw [List.length_cons] at ha
  have hlow : a ≠ 255#8 := by
    rintro rfl
    have hge : 256 ^ (bs.length + 2) ≤ 2 * ofBE (255#8 :: b :: bs) := ha.mp rfl
    exact absurd h (Nat.not_lt.mpr hge)
  have hsplit : ofBE (a :: b :: bs) = a.toNat * 256 ^ (bs.length + 1) + ofBE (b :: bs) := rfl
  by_cases hzero : a = 0#8
  · subst hzero
    have hsame : ofBE (0#8 :: b :: bs) = ofBE (b :: bs) := by
      rw [hsplit]
      simp
    rw [hsame, ← hb, Shortest]
    simp
  · have hpos : 1 ≤ a.toNat := by
      rw [Nat.one_le_iff_ne_zero]
      intro hnat
      exact hzero (BitVec.eq_of_toNat_eq hnat)
    have hmul : 1 * 256 ^ (bs.length + 1) ≤ a.toNat * 256 ^ (bs.length + 1) := Nat.mul_le_mul_right _ hpos
    refine iff_of_true ?_ (by omega)
    rw [Shortest]
    exact ⟨fun hboth => hzero hboth.1, fun hboth => hlow hboth.1⟩

/-- The shortest contents of a small number have at most one byte more than it. -/
theorem Shortest.length_le {c : Bytes} {n : Nat} (h : Shortest c) (h0 : 0 ≤ value c)
    (hlt : ofBE c < 256 ^ n) : c.length ≤ n + 1 := by
  match c, h with
  | [_], _ => exact Nat.le_add_left 1 n
  | a :: b :: bs, h =>
      have hhalf := (value_eq_iff (a :: b :: bs) (List.cons_ne_nil _ _)).mp (value_of_nonneg h0)
      have hge := (shortest_iff a b bs hhalf).mp h
      have hpow : 256 ^ (bs.length + 1) < 256 ^ (n + 1) := by
        rw [Nat.pow_succ (m := n)]
        omega
      have hexp := (Nat.pow_lt_pow_iff_right (by decide : 1 < 256)).mp hpow
      rw [List.length_cons, List.length_cons]
      omega

end Der
