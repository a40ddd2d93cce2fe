import Mathlib.Data.Nat.Bitwise

/-!
# Classes of the XOR Metric

Numbers at an XOR distance, sorted by the highest bit of the distance.

The class of a distance is the position of its highest bit. Seen from another
point, the classes stay together: if the other point is itself at a distance of
class `c`, then what was in class `c` comes closer than `2 ^ c`, what was below
moves up to class `c`, and what was above keeps its class. These three facts are
all that a search by classes rests on.

Numbers of several words are read word by word. Their highest bit is that of the
first word that is not zero, and their XOR is the XOR of the words.

## Main definitions

* `Words.value`: The number that words of a width stand for.
* `Words.bits`: The number of bits up to the highest one that is set, counted
  word by word.

## Theorems

* `XorClass.xor_lt`, `XorClass.xor_of_lt`, `XorClass.xor_of_gt`: Distances seen
  from another point.
* `Words.bits_eq`: The bits of words are those of the number.
* `Words.value_xor`: The XOR of words is that of the numbers.
-/

namespace XorClass

/-- The distance is of class `c`: its highest bit is bit `c`. -/
def InClass (c d : Nat) : Prop := 2 ^ c ≤ d ∧ d < 2 ^ (c + 1)

instance (c d : Nat) : Decidable (InClass c d) := inferInstanceAs (Decidable (_ ∧ _))

theorem testBit_of_inClass {c d : Nat} (h : InClass c d) : d.testBit c = true := by
  obtain ⟨i, hi, hbit⟩ := Nat.exists_ge_and_testBit_of_ge_two_pow h.1
  have hlt : i < c + 1 := by
    by_contra hge
    have hsmall : d < 2 ^ i := lt_of_lt_of_le h.2 (Nat.pow_le_pow_right (by omega) (by omega))
    rw [Nat.testBit_lt_two_pow hsmall] at hbit
    cases hbit
  have heq : i = c := by omega
  exact heq ▸ hbit

theorem testBit_of_gt {c d i : Nat} (h : d < 2 ^ c) (hi : c ≤ i) : d.testBit i = false :=
  Nat.testBit_lt_two_pow (lt_of_lt_of_le h (Nat.pow_le_pow_right (by omega) hi))

/-- Distances of one class: the highest bits cancel. -/
theorem xor_lt {c a b : Nat} (ha : InClass c a) (hb : InClass c b) : a ^^^ b < 2 ^ c := by
  refine Nat.lt_pow_two_of_testBit _ ?_
  intro i hi
  rw [Nat.testBit_xor]
  by_cases heq : i = c
  · rw [heq, testBit_of_inClass ha, testBit_of_inClass hb, Bool.xor_self]
  · rw [testBit_of_gt ha.2 (by omega), testBit_of_gt hb.2 (by omega), Bool.xor_self]

/-- A distance below the class of the other point moves up to it. -/
theorem xor_of_lt {c a b : Nat} (ha : a < 2 ^ c) (hb : InClass c b) : InClass c (a ^^^ b) := by
  refine ⟨?_, ?_⟩
  · apply Nat.ge_two_pow_of_testBit
    rw [Nat.testBit_xor, testBit_of_gt ha (Nat.le_refl c), testBit_of_inClass hb, Bool.false_xor]
  · have hup : a < 2 ^ (c + 1) := lt_of_lt_of_le ha (Nat.pow_le_pow_right (by omega) (by omega))
    exact Nat.xor_lt_two_pow hup hb.2

/-- A distance above the class of the other point keeps its class. -/
theorem xor_of_gt {c i a b : Nat} (ha : InClass i a) (hb : b < 2 ^ (c + 1)) (hi : c < i) :
    InClass i (a ^^^ b) := by
  rw [Nat.xor_comm]
  exact xor_of_lt (lt_of_lt_of_le hb (Nat.pow_le_pow_right (by omega) hi)) ha

theorem inClass_log2 {d : Nat} (h : d ≠ 0) : InClass d.log2 d := (Nat.log2_eq_iff h).mp rfl

theorem InClass.log2_eq {c d : Nat} (h : InClass c d) : d.log2 = c := by
  have hne : d ≠ 0 := by
    have := Nat.two_pow_pos c
    have := h.1
    omega
  exact (Nat.log2_eq_iff hne).mpr h

end XorClass

namespace Words

variable {w : Nat}

/-- The number that words stand for, most significant first. -/
def value : List (BitVec w) → Nat
  | [] => 0
  | v :: vs => 2 ^ (w * vs.length) * v.toNat + value vs

/-- The number of bits up to the highest one that is set. -/
def bits : List (BitVec w) → Nat
  | [] => 0
  | v :: vs => if v ≠ 0 then v.toNat.log2 + 1 + w * vs.length else bits vs

theorem value_lt (vs : List (BitVec w)) : value vs < 2 ^ (w * vs.length) := by
  induction vs with
  | nil => exact Nat.one_pos
  | cons v vs ih =>
      have hmul : 2 ^ (w * vs.length) * (v.toNat + 1) ≤ 2 ^ (w * vs.length) * 2 ^ w :=
        Nat.mul_le_mul_left _ v.isLt
      have hpow : 2 ^ (w * (v :: vs).length) = 2 ^ (w * vs.length) * 2 ^ w := by
        rw [List.length_cons, Nat.mul_succ, Nat.pow_add]
      rw [hpow, value]
      rw [Nat.mul_add, Nat.mul_one] at hmul
      omega

/-- The class of a number with a leading word is set by that word. -/
theorem inClass_cons (v : BitVec w) (vs : List (BitVec w)) (hv : v ≠ 0) :
    XorClass.InClass (v.toNat.log2 + w * vs.length) (value (v :: vs)) := by
  have hne : v.toNat ≠ 0 := by
    intro h
    exact hv (BitVec.eq_of_toNat_eq (by simpa using h))
  have hclass := XorClass.inClass_log2 hne
  have hlow := value_lt vs
  have hlower : 2 ^ (w * vs.length) * 2 ^ v.toNat.log2 ≤ 2 ^ (w * vs.length) * v.toNat :=
    Nat.mul_le_mul_left _ hclass.1
  have hupper : 2 ^ (w * vs.length) * (v.toNat + 1) ≤ 2 ^ (w * vs.length) * 2 ^ (v.toNat.log2 + 1) :=
    Nat.mul_le_mul_left _ hclass.2
  have hpow (k : Nat) : 2 ^ (k + w * vs.length) = 2 ^ (w * vs.length) * 2 ^ k := by
    rw [Nat.pow_add, Nat.mul_comm]
  rw [Nat.mul_add, Nat.mul_one] at hupper
  refine ⟨?_, ?_⟩
  · rw [hpow, value]
    omega
  · rw [Nat.add_right_comm, hpow, value]
    omega

/-- The bits of words are those of the number. -/
theorem bits_eq (vs : List (BitVec w)) :
    bits vs = if value vs = 0 then 0 else (value vs).log2 + 1 := by
  induction vs with
  | nil => rfl
  | cons v vs ih =>
      rw [bits]
      by_cases hv : v = 0
      · have hvalue : value (v :: vs) = value vs := by
          rw [value, hv]
          simp
        rw [if_neg (not_not.mpr hv), hvalue, ih]
      · have hclass := inClass_cons v vs hv
        have hne : value (v :: vs) ≠ 0 := by
          have hpos := Nat.two_pow_pos (v.toNat.log2 + w * vs.length)
          have hle := hclass.1
          omega
        rw [if_pos hv, if_neg hne, hclass.log2_eq]
        omega

/-- The XOR of words is that of the numbers. -/
theorem value_xor (us vs : List (BitVec w)) (h : us.length = vs.length) :
    value (List.zipWith (· ^^^ ·) us vs) = value us ^^^ value vs := by
  induction us generalizing vs with
  | nil =>
      cases vs with
      | nil => rw [List.zipWith_nil_left, value, Nat.xor_self]
      | cons v vs => cases h
  | cons u us ih =>
      cases vs with
      | nil => cases h
      | cons v vs =>
          have hlen : us.length = vs.length := Nat.succ.inj h
          have hzip : (List.zipWith (· ^^^ ·) us vs).length = vs.length := by
            rw [List.length_zipWith, hlen, Nat.min_self]
          have hu := hlen ▸ value_lt us
          have hv := value_lt vs
          rw [List.zipWith_cons_cons, value, value, value, ih vs hlen, hzip, hlen]
          apply Nat.eq_of_testBit_eq
          intro i
          rw [Nat.testBit_xor, Nat.testBit_two_pow_mul_add _ (Nat.xor_lt_two_pow hu hv),
            Nat.testBit_two_pow_mul_add _ hu, Nat.testBit_two_pow_mul_add _ hv]
          by_cases hi : i < w * vs.length
          · rw [if_pos hi, if_pos hi, if_pos hi, Nat.testBit_xor]
          · rw [if_neg hi, if_neg hi, if_neg hi, BitVec.toNat_xor, Nat.testBit_xor]

end Words
