import Mathlib.Data.List.Induction
import Mathlib.Data.Nat.Digits.Defs
import Mathlib.Data.Nat.Size
import TomP2P.Foundation.XorClass

/-!
# Digits of Words

Numbers of several words are written with digits of some bits, and read from digits.

To write a word is to shift its digits out at its end, either as many as there are or just as
long as the rest is not zero. To read digits is to shift them into the word that has their
place. The digits are written in the order in which they are read, the most significant one
first, so Mathlib's `Nat.ofDigits` takes them reversed.

Besides, the number of bits of an XOR says how many bits two numbers have in common in front.

## Main definitions

* `value`: The number that digits stand for.
* `shiftIn`, `fill`: Shifting digits into a word and into words.
* `shiftOut`, `print`: Shifting digits out of a word and out of words.

## Theorems

* `value_fill`: The words that were filled stand for the number of the digits.
* `value_print`: The digits that were printed stand for the number of the words.
* `size_eq_succ_iff`: The number of bits and the highest bit.
* `isGreatest_commonPrefix`: The longest common prefix of two numbers.
-/

namespace WordDigits

variable {w : Nat} (s k : Nat)

/-- The number that digits of `s` bits stand for. -/
def value (ds : List Nat) : Nat := Nat.ofDigits (2 ^ s) ds.reverse

/-- Shifts digits into a word. -/
def shiftIn (x : BitVec w) (ds : List Nat) : BitVec w := ds.foldl (fun x d => x <<< s + BitVec.ofNat w d) x

/-- Shifts digits into words that have room for `k` digits each; the first one has place `i`. -/
def fill : Nat → List Nat → List (BitVec w) → List (BitVec w)
  | _, [], ws => ws
  | i, d :: ds, ws => fill (i + 1) ds (ws.modify (i / k) fun x => x <<< s + BitVec.ofNat w d)

/-- Shifts `k` digits out of a word, or just those that are needed. -/
def shiftOut (strip : Bool) : Nat → BitVec w → List Nat
  | 0, _ => []
  | k + 1, x => if strip && x == 0 then [] else shiftOut strip k (x >>> s) ++ [x.toNat % 2 ^ s]

/-- Shifts `k` digits out of each word, or just those that are needed until there was a digit. -/
def print : Bool → List (BitVec w) → List Nat
  | _, [] => []
  | strip, x :: ws => shiftOut s strip k x ++ print (strip && x == 0) ws

/-! ### Values -/

theorem value_append (ds es : List Nat) :
    value s (ds ++ es) = value s ds * (2 ^ s) ^ es.length + value s es := by
  rw [value, List.reverse_append, Nat.ofDigits_append, List.length_reverse, ← value, ← value]
  ring

theorem value_singleton (d : Nat) : value s [d] = d := Nat.ofDigits_singleton

theorem pow_pow_eq {k : Nat} (hw : s * k = w) (m : Nat) : (2 ^ s) ^ (k * m) = 2 ^ (w * m) := by
  rw [← Nat.pow_mul, ← Nat.mul_assoc, hw]

theorem value_lt (ds : List Nat) (hds : ∀ d ∈ ds, d < 2 ^ s) : value s ds < (2 ^ s) ^ ds.length := by
  induction ds with
  | nil => exact Nat.one_pos
  | cons d ds ih =>
      have hrest := ih fun e he => hds e (List.mem_cons_of_mem d he)
      have hmul : (d + 1) * (2 ^ s) ^ ds.length ≤ 2 ^ s * (2 ^ s) ^ ds.length :=
        Nat.mul_le_mul_right _ (hds d List.mem_cons_self)
      rw [Nat.add_mul, Nat.one_mul] at hmul
      rw [← List.singleton_append, value_append, value_singleton, List.singleton_append, List.length_cons,
        Nat.pow_succ']
      omega

/-! ### Reading -/

/-- What is in a word is moved in front of the digits, as far as it fits. -/
theorem toNat_shiftIn (x : BitVec w) (ds : List Nat) :
    (shiftIn s x ds).toNat = (x.toNat * (2 ^ s) ^ ds.length + value s ds) % 2 ^ w := by
  induction ds using List.reverseRecOn with
  | nil => simp [shiftIn, value, Nat.mod_eq_of_lt x.isLt]
  | append_singleton ds d ih =>
      have hlast : shiftIn s x (ds ++ [d]) = shiftIn s x ds <<< s + BitVec.ofNat w d := List.foldl_append
      rw [hlast, value_append, value_singleton, List.length_append, List.length_singleton, BitVec.toNat_add,
        BitVec.toNat_shiftLeft, ih, BitVec.toNat_ofNat, Nat.shiftLeft_eq, Nat.pow_one, Nat.pow_succ]
      simp only [Nat.add_mod_mod, Nat.mod_add_mod, Nat.mod_mul_mod]
      ring_nf

/-- Words in front of the digits are left alone. -/
theorem fill_cons_of_le (i : Nat) (ds : List Nat) (x : BitVec w) (ws : List (BitVec w)) (hk : 0 < k) (hi : k ≤ i) :
    fill s k i ds (x :: ws) = x :: fill s k (i - k) ds ws := by
  induction ds generalizing i ws with
  | nil => rfl
  | cons d ds ih =>
      have hplace : i / k = (i - k) / k + 1 := by
        rw [← Nat.add_div_right _ hk, Nat.sub_add_cancel hi]
      rw [fill, fill, hplace, List.modify_succ_cons, ih _ _ (by omega), Nat.sub_add_comm hi]

/-- Digits that fit into the first word are shifted into it. -/
theorem fill_cons_of_lt (i : Nat) (ds es : List Nat) (x : BitVec w) (ws : List (BitVec w)) (hi : i + ds.length ≤ k) :
    fill s k i (ds ++ es) (x :: ws) = fill s k (i + ds.length) es (shiftIn s x ds :: ws) := by
  induction ds generalizing i x with
  | nil => rfl
  | cons d ds ih =>
      rw [List.length_cons] at hi
      rw [List.cons_append, fill, Nat.div_eq_of_lt (by omega), List.modify_zero_cons, ih _ _ (by omega),
        List.length_cons, Nat.add_right_comm, Nat.add_assoc]
      rfl

theorem length_fill (i : Nat) (ds : List Nat) (ws : List (BitVec w)) : (fill s k i ds ws).length = ws.length := by
  induction ds generalizing i ws with
  | nil => rfl
  | cons d ds ih => rw [fill, ih, List.length_modify]

/-- Words that are filled up to the end stand for the number of the digits. -/
theorem value_fill (hw : s * k = w) (hk : 0 < k) (m i : Nat) (ds : List Nat) (hds : ∀ d ∈ ds, d < 2 ^ s)
    (hlength : i + ds.length = k * m) :
    Words.value (fill s k i ds (List.replicate m 0#w)) = value s ds := by
  induction m generalizing i ds with
  | zero =>
      rw [List.eq_nil_of_length_eq_zero (by omega : ds.length = 0)]
      rfl
  | succ m ih =>
      rw [Nat.mul_succ] at hlength
      rw [List.replicate_succ]
      rcases Nat.lt_or_ge i k with hlt | hge
      · -- The first word takes what it has room for.
        have hlen : (ds.take (k - i)).length = k - i := by
          rw [List.length_take]
          omega
        have hfirst (d : Nat) (hd : d ∈ ds.take (k - i)) : d < 2 ^ s := hds d (List.mem_of_mem_take hd)
        have hrest (d : Nat) (hd : d ∈ ds.drop (k - i)) : d < 2 ^ s := hds d (List.mem_of_mem_drop hd)
        have hdrop : (ds.drop (k - i)).length = k * m := by
          rw [List.length_drop]
          omega
        have hsmall : value s (ds.take (k - i)) < 2 ^ w := by
          refine lt_of_lt_of_le (value_lt s _ hfirst) ?_
          rw [hlen, ← hw, ← Nat.pow_mul]
          exact Nat.pow_le_pow_right (by omega) (Nat.mul_le_mul_left s (Nat.sub_le k i))
        rw [← List.take_append_drop (k - i) ds, fill_cons_of_lt s k i _ _ _ _ (by omega),
          fill_cons_of_le s k _ _ _ _ hk (by omega), Words.value, length_fill, List.length_replicate,
          ih _ _ hrest (by omega), toNat_shiftIn, value_append, hdrop, BitVec.toNat_ofNat, Nat.zero_mod,
          Nat.zero_mul, Nat.zero_add, Nat.mod_eq_of_lt hsmall, pow_pow_eq s hw, Nat.mul_comm]
      · rw [fill_cons_of_le s k i ds _ _ hk hge, Words.value, ih _ ds hds (by omega), BitVec.toNat_ofNat,
          Nat.zero_mod, Nat.mul_zero, Nat.zero_add]

/-! ### Writing -/

theorem value_shiftOut (strip : Bool) (x : BitVec w) :
    value s (shiftOut s strip k x) = x.toNat % (2 ^ s) ^ k := by
  induction k generalizing x with
  | zero => simp [shiftOut, value, Nat.mod_one]
  | succ k ih =>
      rw [shiftOut]
      split_ifs with hstop
      · have hzero : x = 0 := by simpa using (Bool.and_eq_true_iff.mp hstop).2
        simp [hzero, value]
      · rw [value_append, ih, value_singleton, List.length_singleton, Nat.pow_one, BitVec.toNat_ushiftRight,
          Nat.shiftRight_eq_div_pow, Nat.pow_succ', Nat.mod_mul]
        ring

theorem lt_of_mem_shiftOut (strip : Bool) (x : BitVec w) (d : Nat) (hd : d ∈ shiftOut s strip k x) : d < 2 ^ s := by
  induction k generalizing x with
  | zero => cases hd
  | succ k ih =>
      rw [shiftOut] at hd
      split_ifs at hd with hstop
      · cases hd
      · rcases List.mem_append.mp hd with hd | hd
        · exact ih _ hd
        · rw [List.mem_singleton.mp hd]
          exact Nat.mod_lt _ (Nat.two_pow_pos s)

theorem length_shiftOut_le (strip : Bool) (x : BitVec w) : (shiftOut s strip k x).length ≤ k := by
  induction k generalizing x with
  | zero => exact Nat.le_refl 0
  | succ k ih =>
      have hrest := ih (x >>> s)
      rw [shiftOut]
      split_ifs
      · exact Nat.zero_le _
      · rw [List.length_append, List.length_singleton]
        omega

theorem length_shiftOut (x : BitVec w) : (shiftOut s false k x).length = k := by
  induction k generalizing x with
  | zero => rfl
  | succ k ih => simp [shiftOut, ih]

theorem lt_of_mem_print (strip : Bool) (ws : List (BitVec w)) (d : Nat) (hd : d ∈ print s k strip ws) : d < 2 ^ s := by
  induction ws generalizing strip with
  | nil => cases hd
  | cons x ws ih =>
      rcases List.mem_append.mp hd with hd | hd
      · exact lt_of_mem_shiftOut s k strip x d hd
      · exact ih _ hd

theorem length_print_le (strip : Bool) (ws : List (BitVec w)) : (print s k strip ws).length ≤ k * ws.length := by
  induction ws generalizing strip with
  | nil => exact Nat.le_refl 0
  | cons x ws ih =>
      have hfirst := length_shiftOut_le s k strip x
      have hrest := ih (strip && x == 0)
      rw [print, List.length_append, List.length_cons, Nat.mul_succ]
      omega

theorem length_print (ws : List (BitVec w)) : (print s k false ws).length = k * ws.length := by
  induction ws with
  | nil => rfl
  | cons x ws ih =>
      rw [print, Bool.false_and, List.length_append, length_shiftOut, ih, List.length_cons, Nat.mul_succ, Nat.add_comm]

/-- The digits of words stand for their number, also where those in front are left out. -/
theorem value_print (hw : s * k = w) (strip : Bool) (ws : List (BitVec w)) :
    value s (print s k strip ws) = Words.value ws := by
  induction ws generalizing strip with
  | nil => rfl
  | cons x ws ih =>
      have hfits : x.toNat % (2 ^ s) ^ k = x.toNat := by
        rw [← Nat.pow_mul, hw]
        exact Nat.mod_eq_of_lt x.isLt
      rw [print, value_append, value_shiftOut, hfits, ih, Words.value]
      -- Digits behind a word that is not zero are all there.
      cases hstrip : strip && x == 0 with
      | true =>
          have hzero : x = 0 := by simpa using (Bool.and_eq_true_iff.mp hstrip).2
          simp [hzero]
      | false => rw [length_print, pow_pow_eq s hw, Nat.mul_comm]

/-! ### Common prefixes -/

/-- The number of bits is that up to the highest bit that is set. -/
theorem size_eq_succ_iff (x p : Nat) : x.size = p + 1 ↔ x.testBit p = true ∧ ∀ q, p < q → x.testBit q = false := by
  constructor
  · intro hsize
    refine ⟨?_, fun q hq => Nat.testBit_lt_two_pow (Nat.size_le.mp (by omega))⟩
    -- Without bit `p` the number would be smaller.
    by_contra hbit
    have hle : x.size ≤ p := Nat.size_le.mpr <| Nat.lt_pow_two_of_testBit _ fun i hi => by
      rcases Nat.eq_or_lt_of_le hi with rfl | hlt
      · simpa using hbit
      · exact Nat.testBit_lt_two_pow (Nat.size_le.mp (by omega))
    omega
  · rintro ⟨hbit, hnone⟩
    have hlt : p < x.size := Nat.lt_size.mpr (Nat.ge_two_pow_of_testBit hbit)
    have hle : x.size ≤ p + 1 := Nat.size_le.mpr (Nat.lt_pow_two_of_testBit _ fun i hi => hnone i (by omega))
    omega

/-- Numbers of `w` bits have the same bits in front up to the highest bit of their XOR. -/
theorem isGreatest_commonPrefix (w a b : Nat) (ha : a < 2 ^ w) (hb : b < 2 ^ w) :
    IsGreatest {k | k ≤ w ∧ ∀ i < k, a.testBit (w - 1 - i) = b.testBit (w - 1 - i)} (w - (a ^^^ b).size) := by
  have hsize : (a ^^^ b).size ≤ w := Nat.size_le.mpr (Nat.xor_lt_two_pow ha hb)
  constructor
  · refine ⟨Nat.sub_le _ _, fun i hi => ?_⟩
    have hzero := Nat.testBit_lt_two_pow (Nat.size_le.mp (by omega : (a ^^^ b).size ≤ w - 1 - i))
    rw [Nat.testBit_xor] at hzero
    simpa using hzero
  · rintro k ⟨hk, hsame⟩
    have hle : (a ^^^ b).size ≤ w - k := by
      refine Nat.size_le.mpr (Nat.lt_pow_two_of_testBit _ fun i hi => ?_)
      rw [Nat.testBit_xor]
      rcases Nat.lt_or_ge i w with hlt | hge
      · have hbit := hsame (w - 1 - i) (by omega)
        rw [show w - 1 - (w - 1 - i) = i by omega] at hbit
        rw [hbit, Bool.xor_self]
      · rw [XorClass.testBit_of_gt ha hge, XorClass.testBit_of_gt hb hge, Bool.xor_self]
    omega

end WordDigits
