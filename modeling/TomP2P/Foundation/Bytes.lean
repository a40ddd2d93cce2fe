import Mathlib.Data.List.Basic
import Mathlib.Tactic.Ring

/-!
# Big-Endian Byte Strings

Numbers as the fixed number of bytes a network format gives them, most
significant byte first.

`toBE` keeps the low `n` bytes of its argument and drops the rest, which is
what a buffer's `writeByte`, `writeShort` and `writeInt` do with an argument
that is wider than the field. The number read back is therefore the argument
modulo `256 ^ n`, and exact only when it fits (`ofBE_toBE_of_lt`). The other
direction, `toBE_ofBE`, is exact on every string.

## Main definitions

* `Byte`, `Bytes`: Bytes and byte strings.
* `toBE`: The low bytes of a number, most significant first.
* `ofBE`: The number a byte string denotes.

## Theorems

* `length_toBE`: A field has its fixed width.
* `ofBE_toBE`: Reading a field back gives the number modulo its range.
* `ofBE_toBE_of_lt`: Reading back a number that fits is exact.
* `ofBE_lt`: A byte string denotes a number in the range of its width.
* `toBE_ofBE`: Every byte string is the field of the number it denotes.
* `ofBE_append`: The value of a concatenation.
-/

namespace Wire

/-- A byte of a buffer. -/
abbrev Byte := BitVec 8

/-- The readable bytes of a buffer, next byte first. -/
abbrev Bytes := List Byte

/-- The low `n` bytes of `x`, most significant first. -/
def toBE : Nat → Nat → Bytes
  | 0, _ => []
  | n + 1, x => BitVec.ofNat 8 (x / 256 ^ n) :: toBE n x

/-- The number whose big-endian bytes these are. -/
def ofBE : Bytes → Nat
  | [] => 0
  | b :: bs => b.toNat * 256 ^ bs.length + ofBE bs

@[simp] theorem length_toBE (n x : Nat) : (toBE n x).length = n := by
  induction n with
  | zero => rfl
  | succ k ih => simp only [toBE, List.length_cons, ih]

theorem ofBE_lt (bs : Bytes) : ofBE bs < 256 ^ bs.length := by
  induction bs with
  | nil => simp only [ofBE, List.length_nil, pow_zero, Nat.lt_one_iff]
  | cons b bs ih =>
      have hb : b.toNat ≤ 255 := by
        have := b.isLt
        omega
      have hmul : b.toNat * 256 ^ bs.length ≤ 255 * 256 ^ bs.length :=
        Nat.mul_le_mul_right _ hb
      rw [ofBE, List.length_cons, pow_succ]
      omega

theorem ofBE_toBE (n x : Nat) : ofBE (toBE n x) = x % 256 ^ n := by
  induction n with
  | zero => simp only [toBE, ofBE, pow_zero, Nat.mod_one]
  | succ k ih =>
      have hbyte : (BitVec.ofNat 8 (x / 256 ^ k)).toNat = x / 256 ^ k % 256 := by
        rw [BitVec.toNat_ofNat]
      rw [toBE, ofBE, ih, length_toBE, hbyte, pow_succ, Nat.mod_mul]
      ring

theorem ofBE_toBE_of_lt (n x : Nat) (h : x < 256 ^ n) : ofBE (toBE n x) = x := by
  rw [ofBE_toBE, Nat.mod_eq_of_lt h]

theorem ofBE_append (as bs : Bytes) :
    ofBE (as ++ bs) = ofBE as * 256 ^ bs.length + ofBE bs := by
  induction as with
  | nil => simp only [List.nil_append, ofBE, Nat.zero_mul, Nat.zero_add]
  | cons a as ih =>
      rw [List.cons_append, ofBE, ih, ofBE, List.length_append, pow_add]
      ring

/-- The field only sees its argument modulo the field's range. -/
theorem toBE_mod (n x m : Nat) (h : 256 ^ n ∣ m) : toBE n (x % m) = toBE n x := by
  induction n with
  | zero => rfl
  | succ k ih =>
      have hk : 256 ^ k ∣ m := Dvd.dvd.trans (pow_dvd_pow 256 (Nat.le_succ k)) h
      rw [toBE, toBE, ih hk]
      rcases h with ⟨c, rfl⟩
      congr 1
      apply BitVec.eq_of_toNat_eq
      rw [BitVec.toNat_ofNat, BitVec.toNat_ofNat, pow_succ, Nat.mul_assoc, Nat.mod_mul_right_div_self]
      exact Nat.mod_mul_right_mod _ _ _

theorem toBE_ofBE (bs : Bytes) : toBE bs.length (ofBE bs) = bs := by
  induction bs with
  | nil => rfl
  | cons b bs ih =>
      have hlt := ofBE_lt bs
      rw [List.length_cons, toBE, ofBE]
      congr 1
      · rw [Nat.add_comm, Nat.add_mul_div_right _ _ (Nat.pow_pos (by decide)), Nat.div_eq_of_lt hlt,
          Nat.zero_add, BitVec.ofNat_toNat, BitVec.setWidth_eq]
      · rw [← toBE_mod bs.length _ (256 ^ bs.length) (dvd_refl _), Nat.add_comm,
          Nat.add_mul_mod_self_right, Nat.mod_eq_of_lt hlt, ih]

end Wire
