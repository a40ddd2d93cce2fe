import Mathlib.Data.BitVec
import TomP2P.Core.RSync
import TomP2P.Foundation.Effect
import TomP2P.Foundation.RollingSum

/-!
# Rolling the Weak Checksum

Sliding the window of a checksum by one byte gives the checksum of the next window.

The checksum keeps its two sums in the low halves of two ints. All that is computed there is
computed modulo 2 to the 16th, and the rest is cut off at the end, so that the sums are those of
a commutative ring (`RollingChecksum.push_withSums`). What a slide does to them is
`RollingSum.roll`, which is proved for any such ring.

So a checksum is known by its window (`RollingChecksum.ofWindow`). It does not matter whether it
was computed for that window, or slid to it from any window before it.

## Main definitions

* `RollingChecksum.ofWindow`: The checksum of a window.
* `RollingChecksum.slides`: A number of slides.

## Theorems

* `RollingChecksum.update_eq`: The checksum that is computed for a window.
* `RollingChecksum.updateRolling_ofWindow`: One slide.
* `RollingChecksum.slides_eq_update`: Any number of slides.
-/

namespace TomP2P

open Wire Effect List

namespace RollingChecksum

/-- The bytes in a window. -/
def window (array : Bytes) (offset length : Nat) : Bytes := (array.drop offset).take length

/-- The sums of a checksum, in the low halves of its ints. -/
def withSums (c : RollingChecksum) (s : BitVec 16 × BitVec 16) : RollingChecksum :=
  { c with a := s.1.setWidth 32, b := s.2.setWidth 32 }

def ofWindow (array : Bytes) (offset length : Nat) : RollingChecksum :=
  ({ length := length, offset := offset } : RollingChecksum).withSums
    (RollingSum.ofList ((window array offset length).map (BitVec.setWidth 16)))

/-- Slides the window a number of times. -/
def slides (array : Bytes) : Nat → RollingChecksum → Except JavaException RollingChecksum
  | 0, c => .ok c
  | k + 1, c => do
      let c ← slides array k c
      c.updateRolling array

/-! ### Numbers with 16 bits -/

theorem and_mask (x : BitVec 32) : x &&& 0xffff = (x.setWidth 16).setWidth 32 := by
  apply BitVec.eq_of_toNat_eq
  have hmask : (0xffff : BitVec 32).toNat = 2 ^ 16 - 1 := rfl
  rw [BitVec.toNat_and, hmask, Nat.and_two_pow_sub_one_eq_mod, BitVec.toNat_setWidth, BitVec.toNat_setWidth]
  omega

theorem setWidth_add (x y : BitVec 32) : (x + y).setWidth 16 = x.setWidth 16 + y.setWidth 16 :=
  BitVec.setWidth_add x y (by omega)

theorem setWidth_sub (x y : BitVec 32) : (x - y).setWidth 16 = x.setWidth 16 - y.setWidth 16 := by
  rw [BitVec.sub_eq_add_neg, BitVec.setWidth_add _ _ (by omega), BitVec.setWidth_neg_of_le (by omega),
    ← BitVec.sub_eq_add_neg]

theorem setWidth_mul (x y : BitVec 32) : (x * y).setWidth 16 = x.setWidth 16 * y.setWidth 16 :=
  BitVec.setWidth_mul x y (by omega)

/-- What is widened and cut off again. -/
theorem setWidth_setWidth {w : Nat} (x : BitVec w) : (x.setWidth 32).setWidth 16 = x.setWidth 16 :=
  BitVec.setWidth_setWidth_of_le x (by omega)

theorem setWidth_length (length : Nat) : (BitVec.ofInt 32 length).setWidth 16 = (length : BitVec 16) := by
  apply BitVec.eq_of_toNat_eq
  rw [BitVec.toNat_setWidth, BitVec.ofInt_natCast, BitVec.toNat_ofNat]
  change length % 2 ^ 32 % 2 ^ 16 = (BitVec.ofNat 16 length).toNat
  rw [BitVec.toNat_ofNat]
  omega

/-! ### Windows -/

theorem window_succ {array : Bytes} {offset : Nat} (length : Nat) (h : offset + length < array.length) :
    window array offset (length + 1) = window array offset length ++ [array[offset + length]] := by
  rw [window, window, take_add_one, getElem?_drop, getElem?_eq_getElem h]
  rfl

theorem window_cons {array : Bytes} {offset : Nat} (length : Nat) (h : offset < array.length) :
    window array offset (length + 1) = array[offset] :: window array (offset + 1) length := by
  rw [window, window, drop_eq_getElem_cons h, take_succ_cons]

theorem length_window {array : Bytes} {offset length : Nat} (h : offset + length ≤ array.length) :
    (window array offset length).length = length := by
  rw [window, length_take, length_drop]
  omega

theorem readAt_eq {array : Bytes} (index : Nat) (h : index < array.length) :
    readAt array index = .ok array[index] := by
  rw [readAt, if_neg (by omega)]
  simp [h]

/-! ### The sums -/

theorem reset_eq (c : RollingChecksum) : c.reset = c.withSums (1, 0) := rfl

theorem push_withSums (c : RollingChecksum) (s : BitVec 16 × BitVec 16) (byte : Byte) :
    (c.withSums s).push byte = c.withSums (RollingSum.push s (byte.setWidth 16)) := by
  simp only [push, withSums, RollingSum.push, and_mask, setWidth_add, setWidth_setWidth, BitVec.setWidth_eq]

theorem updateRolling_withSums (c : RollingChecksum) (s : BitVec 16 × BitVec 16) {array : Bytes} {length : Nat}
    {removed added : Byte} (hlength : c.length = length) (hremoved : readAt array c.offset = .ok removed)
    (hadded : readAt array (int (c.offset + (length : Int))) = .ok added) :
    (c.withSums s).updateRolling array =
      .ok (({ c with offset := int (c.offset + 1) } : RollingChecksum).withSums
        (RollingSum.roll (length : BitVec 16) s (removed.setWidth 16) (added.setWidth 16))) := by
  have hone : (1 : BitVec 32).setWidth 16 = 1 := rfl
  simp only [updateRolling, withSums, hremoved, hadded, except_ok_bind, hlength, RollingSum.roll, and_mask,
    setWidth_add, setWidth_sub, setWidth_mul, setWidth_setWidth, setWidth_length, BitVec.setWidth_eq, hone]
  rfl

theorem foldl_push_withSums (c : RollingChecksum) (bytes : Bytes) (s : BitVec 16 × BitVec 16) :
    bytes.foldl push (c.withSums s) = c.withSums ((bytes.map (BitVec.setWidth 16)).foldl RollingSum.push s) := by
  induction bytes generalizing s with
  | nil => rfl
  | cons byte bytes ih => rw [foldl_cons, push_withSums, ih, map_cons, foldl_cons]

/-- The loop over a window. -/
theorem foldlM_push {array : Bytes} (harray : array.length < 2 ^ 31) {offset : Nat} (length : Nat)
    (h : offset + length ≤ array.length) (c : RollingChecksum) :
    (List.range length).foldlM
      (fun (c : RollingChecksum) (i : Nat) => c.push <$> readAt array (int (i + offset))) c =
      .ok ((window array offset length).foldl push c) := by
  induction length with
  | zero => simp [window]; rfl
  | succ length ih =>
      have hint : int ((length : Int) + offset) = (offset + length : Nat) := by
        rw [int_eq (by omega) (by omega)]
        omega
      rw [range_succ, foldlM_append, ih (by omega), except_ok_bind, foldlM_cons, hint,
        readAt_eq _ (by omega), window_succ length (by omega), foldl_append]
      rfl

/-- The checksum that is computed for a window, whatever was before it was reset. -/
theorem update_eq {array : Bytes} (harray : array.length < 2 ^ 31) (c : RollingChecksum) {offset length : Nat}
    (h : offset + length ≤ array.length) :
    c.reset.update array offset length = .ok (ofWindow array offset length) := by
  rw [update, Int.toNat_natCast, foldlM_push harray length h, reset_eq, foldl_push_withSums]
  rfl

/-- One slide gives the checksum of the next window. -/
theorem updateRolling_ofWindow {array : Bytes} (harray : array.length < 2 ^ 31) {offset length : Nat}
    (hlength : 1 ≤ length) (h : offset + length < array.length) :
    (ofWindow array offset length).updateRolling array = .ok (ofWindow array (offset + 1) length) := by
  rcases Nat.exists_eq_add_of_le' hlength with ⟨n, rfl⟩
  have hadd : int ((offset : Int) + (n + 1 : Nat)) = (offset + (n + 1) : Nat) := by
    rw [int_eq (by omega) (by omega)]
    omega
  have hnext : int ((offset : Int) + 1) = (offset + 1 : Nat) := by
    rw [int_eq (by omega) (by omega)]
    omega
  -- The window loses its first byte, and gets one behind its last.
  have hbefore : (window array offset (n + 1)).map (BitVec.setWidth 16) =
      (array[offset]).setWidth 16 :: (window array (offset + 1) n).map (BitVec.setWidth 16) := by
    rw [window_cons n (by omega), map_cons]
  have hbehind : (window array (offset + 1) (n + 1)).map (BitVec.setWidth 16) =
      (window array (offset + 1) n).map (BitVec.setWidth 16) ++ [(array[offset + (n + 1)]).setWidth 16] := by
    have hindex : offset + 1 + n = offset + (n + 1) := by omega
    rw [window_succ n (by omega), map_append]
    simp only [hindex, map_cons, map_nil]
  have hcount : ((n + 1 : Nat) : BitVec 16) =
      (((window array (offset + 1) n).map (BitVec.setWidth 16)).length : BitVec 16) + 1 := by
    rw [length_map, length_window (by omega), Nat.cast_add, Nat.cast_one]
  unfold ofWindow
  have hadded : readAt array ((offset + (n + 1) : Nat) : Int) = .ok array[offset + (n + 1)] := readAt_eq _ h
  rw [← hadd] at hadded
  have hstep (s : BitVec 16 × BitVec 16) :=
    updateRolling_withSums ({ length := (n + 1 : Nat), offset := offset } : RollingChecksum) s rfl
      (readAt_eq offset (by omega)) hadded
  rw [hstep, hnext, hbefore, hcount, RollingSum.roll_ofList, ← hbehind]

/-- Any number of slides give the checksum that is computed for the window they lead to. -/
theorem slides_eq_update (c c' : RollingChecksum) (array : Bytes) (offset length k : Nat)
    (harray : array.length < 2 ^ 31) (hlength : 1 ≤ length) (h : offset + k + length ≤ array.length) :
    ∃ c₁ c₂, (c.reset.update array offset length >>= slides array k) = .ok c₁ ∧
      c'.reset.update array ((offset + k : Nat) : Int) length = .ok c₂ ∧ c₁.value = c₂.value ∧ c₁ = c₂ := by
  refine ⟨ofWindow array (offset + k) length, ofWindow array (offset + k) length, ?_, ?_, rfl, rfl⟩
  · rw [update_eq harray c (by omega), except_ok_bind]
    induction k with
    | zero => rfl
    | succ k ih =>
        rw [slides, ih (by omega), except_ok_bind]
        exact updateRolling_ofWindow harray hlength (by omega)
  · exact update_eq harray c' (by omega)

/-- A window of two bytes is slid twice. -/
theorem slides_two :
    ∃ c₁ c₂, (({} : RollingChecksum).reset.update [1, 2, 3, 4] (0 : Nat) (2 : Nat) >>= slides [1, 2, 3, 4] 2) = .ok c₁ ∧
      ({} : RollingChecksum).reset.update [1, 2, 3, 4] (2 : Nat) (2 : Nat) = .ok c₂ ∧ c₁.value = c₂.value ∧
      c₁ = c₂ := by
  have hint : ([1, 2, 3, 4] : Bytes).length < 2 ^ 31 := by
    rw [show ([1, 2, 3, 4] : Bytes).length = 4 from rfl]
    omega
  exact slides_eq_update {} {} [1, 2, 3, 4] 0 2 2 hint (by omega) (le_refl 4)

end RollingChecksum

end TomP2P
