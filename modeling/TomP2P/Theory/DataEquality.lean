import TomP2P.Core.DataEquality
import TomP2P.Core.DataSetters
import Mathlib.Data.List.Perm.Basic

/-!
# Equality and Hash Codes of Values

Values that are equal should have the same hash code. Equality leaves out the time to live,
and the flag that says that there is one, as it is still the same data. The hash code has both
in it.

What the time to live adds to the hash code is one number, in which the flag is the second
bit (`Data.ttlPart`). All the rest is the same for values that are equal: the predecessors are
compared as sets, and their hash codes are put together in any order. So equal values have the
same hash code just if they have that number in common.

## Main definitions

* `Data.ttlPart`: What the time to live adds.
* `Data.Compatible`: What is asked of the equality with a value.

## Theorems

* `Data.hashCode_flags`: The flag of the time to live in the hash code of the flags.
* `Data.foldl_xor_congr`: Hash codes put together in any order.
* `Data.compatible_iff`: When the hash codes of equal values are the same.
* `Data.hashCode_ttlSeconds`: Equal values with different hash codes.
-/

namespace TomP2P

namespace Data

variable {bufferHash : Wire.Bytes → BitVec 32} {a b c : Data}

/-- The time to live with its flag as the second bit. -/
def ttlPart (d : Data) : BitVec 32 := d.ttlSeconds ^^^ if d.ttl then 2 else 0

/-- The hash code without the time to live. -/
def hashCodeOfRest (bufferHash : Wire.Bytes → BitVec 32) (d : Data) : BitVec 32 :=
  hashCode bufferHash { d with ttl := false, ttlSeconds := 0 }

/-- Equality goes both ways and on to a third value, and equal values have the same hash code. -/
structure Compatible (bufferHash : Wire.Bytes → BitVec 32) (a b : Data) : Prop where
  symm : a.equals b = true → b.equals a = true
  trans : ∀ c, a.equals b = true → b.equals c = true → a.equals c = true
  hash : a.equals b = true → a.hashCode bufferHash = b.hashCode bufferHash

/-! ### Hash codes -/

/-- The word of up to eight bits. -/
def byteWord (bits : List Bool) : BitVec 64 :=
  (List.range 8).foldl (fun word j => if bits.getD j false then word ||| 1 <<< j else word) 0

theorem word_ofBits {bits : List Bool} (h : bits.length ≤ 8) : (BitSet.ofBits bits).word 0 = byteWord bits := by
  -- There is nothing behind the first eight bits.
  have hskip (ks : List Nat) (x : BitVec 64) :
      (ks.map fun k => 8 + k).foldl (fun (word : BitVec 64) j => if bits.getD j false then word ||| 1 <<< j else word) x = x := by
    induction ks generalizing x with
    | nil => rfl
    | cons k ks ih =>
        have hnone : bits.getD (8 + k) false = false := by
          rw [List.getD_eq_getElem?_getD, List.getElem?_eq_none (by omega), Option.getD_none]
        rw [List.map_cons, List.foldl_cons, hnone, if_neg Bool.false_ne_true, ih]
  have hrange : List.range 64 = List.range 8 ++ (List.range 56).map fun k => 8 + k := List.range_add (n := 8) (m := 56)
  simp only [BitSet.word, BitSet.get_ofBits, Nat.mul_zero, Nat.zero_add]
  rw [hrange, List.foldl_append, hskip, byteWord]

/-- The hash code of up to eight bits is that of a word, also if it is not in use. -/
theorem hashCode_ofBits {bits : List Bool} (h : bits.length ≤ 8) :
    (BitSet.ofBits bits).hashCode =
      ((1234 ^^^ byteWord bits).sshiftRight 32 ^^^ (1234 ^^^ byteWord bits)).truncate 32 := by
  have hlength : (BitSet.ofBits bits).length ≤ 8 := (BitSet.length_trim_le bits).trans h
  rw [BitSet.hashCode]
  rcases Nat.eq_zero_or_pos (BitSet.ofBits bits).length with hzero | hpos
  · have hnone (j : Nat) : bits.getD j false = false := by
      rw [← BitSet.get_ofBits]
      exact BitSet.get_of_length_le (by omega)
    have hword : byteWord bits = 0 := by
      simp only [byteWord, hnone]
      rfl
    rw [hzero, hword]
    rfl
  · rw [show ((BitSet.ofBits bits).length + 63) / 64 = 1 by omega]
    simp [List.range_succ, word_ofBits h]

/-- The second flag is the second bit. -/
theorem hashCode_flags (b0 b1 b2 b3 b4 b5 b6 b7 : Bool) :
    (BitSet.ofBits [b0, b1, b2, b3, b4, b5, b6, b7]).hashCode =
      (BitSet.ofBits [b0, false, b2, b3, b4, b5, b6, b7]).hashCode ^^^ if b1 then 2 else 0 := by
  have hlength (b0 b1 : Bool) : [b0, b1, b2, b3, b4, b5, b6, b7].length ≤ 8 := Nat.le_refl 8
  rw [hashCode_ofBits (hlength b0 b1), hashCode_ofBits (hlength b0 false)]
  revert b0 b1 b2 b3 b4 b5 b6 b7
  decide +kernel

theorem foldl_xor (keys : List Number160) (x y : BitVec 32) :
    keys.foldl (fun hashCode key => hashCode ^^^ key.hashCode) (x ^^^ y) =
      keys.foldl (fun hashCode key => hashCode ^^^ key.hashCode) x ^^^ y := by
  induction keys generalizing x with
  | nil => rfl
  | cons key keys ih =>
      rw [List.foldl_cons, List.foldl_cons, ← ih, BitVec.xor_assoc, BitVec.xor_comm y, ← BitVec.xor_assoc]

/-- The order of the keys makes no difference. -/
theorem foldl_xor_congr {s t : HashedSet Number160} (h : s.equals t = true) (x : BitVec 32) :
    s.elems.foldl (fun hashCode key => hashCode ^^^ key.hashCode) x =
      t.elems.foldl (fun hashCode key => hashCode ^^^ key.hashCode) x := by
  have hperm : s.elems.Perm t.elems :=
    (List.perm_ext_iff_of_nodup s.nodup t.nodup).mpr ((HashedSet.equals_iff s t).mp h)
  refine hperm.foldl_eq' ?_ x
  intro k _ l _ z
  rw [BitVec.xor_assoc, BitVec.xor_comm k.hashCode, ← BitVec.xor_assoc]

/-- The time to live is one part of the hash code. -/
theorem hashCode_eq (d : Data) : d.hashCode bufferHash = d.hashCodeOfRest bufferHash ^^^ d.ttlPart := by
  have hstart (flags ttl type length flag : BitVec 32) :
      flags ^^^ flag ^^^ ttl ^^^ type ^^^ length = flags ^^^ type ^^^ length ^^^ (ttl ^^^ flag) := by ac_rfl
  have hzero (x : BitVec 32) : x ^^^ 0 = x := BitVec.xor_zero
  unfold hashCodeOfRest hashCode ttlPart
  dsimp only
  rw [hashCode_flags, hstart, foldl_xor]
  rw [hzero]
  ac_rfl

/-! ### Equality -/

/-- What equal values have in common. -/
theorem equals_iff : a.equals b = true ↔
    (a.signed = b.signed ∧ a.basedOnFlag = b.basedOnFlag ∧ a.protectedEntry = b.protectedEntry ∧
      a.publicKeyFlag = b.publicKeyFlag ∧ a.flag1 = b.flag1 ∧ a.flag2 = b.flag2 ∧ a.prepareFlag = b.prepareFlag) ∧
    (a.type = b.type ∧ a.length = b.length) ∧
    a.basedOnSet.equals b.basedOnSet = true ∧ a.signature = b.signature ∧ a.buffer = b.buffer := by
  unfold equals
  split
  · next h =>
      simp only [Bool.or_eq_true, bne_iff_ne] at h
      simp only [reduceCtorEq, false_iff]
      rintro ⟨⟨h1, h2, h3, h4, h5, h6, h7⟩, _⟩
      simp [h1, h2, h3, h4, h5, h6, h7] at h
  · next h =>
      simp only [Bool.or_eq_true, bne_iff_ne, not_or, not_not] at h
      split
      · next h' =>
          simp only [Bool.or_eq_true, bne_iff_ne] at h'
          simp only [reduceCtorEq, false_iff]
          rintro ⟨_, ⟨h8, h9⟩, _⟩
          simp [h8, h9] at h'
      · next h' =>
          simp only [Bool.or_eq_true, bne_iff_ne, not_or, not_not] at h'
          simp only [Bool.and_eq_true, beq_iff_eq]
          rcases h with ⟨⟨⟨⟨⟨⟨h1, h2⟩, h3⟩, h4⟩, h5⟩, h6⟩, h7⟩
          constructor
          · rintro ⟨⟨hset, hsignature⟩, hbuffer⟩
            exact ⟨⟨h1.symm, h2.symm, h3.symm, h4.symm, h5, h6, h7⟩, ⟨h'.1.symm, h'.2.symm⟩, hset, hsignature,
              hbuffer.symm⟩
          · rintro ⟨_, _, hset, hsignature, hbuffer⟩
            exact ⟨⟨hset, hsignature⟩, hbuffer.symm⟩

theorem equals_symm (h : a.equals b = true) : b.equals a = true := by
  rw [equals_iff] at h ⊢
  have hset : b.basedOnSet.equals a.basedOnSet = true :=
    (HashedSet.equals_iff _ _).mpr fun x => ((HashedSet.equals_iff _ _).mp h.2.2.1 x).symm
  simp_all

theorem equals_trans (hab : a.equals b = true) (hbc : b.equals c = true) : a.equals c = true := by
  rw [equals_iff] at hab hbc ⊢
  have hset : a.basedOnSet.equals c.basedOnSet = true :=
    (HashedSet.equals_iff _ _).mpr fun x =>
      ((HashedSet.equals_iff _ _).mp hab.2.2.1 x).trans ((HashedSet.equals_iff _ _).mp hbc.2.2.1 x)
  simp_all

/-- All but the time to live is the same in the hash codes of equal values. -/
theorem hashCodeOfRest_congr (h : a.equals b = true) : a.hashCodeOfRest bufferHash = b.hashCodeOfRest bufferHash := by
  rw [equals_iff] at h
  rcases h with ⟨⟨h1, h2, h3, h4, h5, h6, h7⟩, ⟨h8, h9⟩, hset, _, hbuffer⟩
  unfold hashCodeOfRest hashCode
  dsimp only
  rw [h1, h2, h3, h4, h5, h6, h7, h8, h9, hbuffer, foldl_xor_congr hset]

/-- The hash codes of equal values are the same if their times to live add the same. -/
theorem compatible_iff (bufferHash : Wire.Bytes → BitVec 32) (a b : Data) :
    Compatible bufferHash a b ↔ (a.equals b = true → a.ttlPart = b.ttlPart) := by
  constructor
  · intro h hequals
    have hhash := h.hash hequals
    rw [hashCode_eq, hashCode_eq, hashCodeOfRest_congr hequals, BitVec.xor_right_inj] at hhash
    exact hhash
  · intro h
    refine ⟨equals_symm, fun c => equals_trans, ?_⟩
    intro hequals
    rw [hashCode_eq, hashCode_eq, hashCodeOfRest_congr hequals, h hequals]

/-- A value and the same one with a time to live. The hash code of no bytes is one. -/
theorem hashCode_ttlSeconds :
    Reachable .zeros (Data.new [] 0) ∧ Reachable .zeros ((Data.new [] 0).setTtlSeconds 5) ∧
      (Data.new [] 0).equals ((Data.new [] 0).setTtlSeconds 5) = true ∧
      ¬ Compatible (fun _ => 1) (Data.new [] 0) ((Data.new [] 0).setTtlSeconds 5) := by
  have hnew : Reachable .zeros (Data.new [] 0) := .made (.buffer [] 0) 0 _ rfl
  have hequals : (Data.new [] 0).equals ((Data.new [] 0).setTtlSeconds 5) = true := by decide
  refine ⟨hnew, .set _ (.ttlSeconds 5) hnew, hequals, ?_⟩
  intro hcompatible
  have hhash := hcompatible.hash hequals
  rw [hashCode_eq, hashCode_eq, hashCodeOfRest_congr hequals, BitVec.xor_right_inj] at hhash
  revert hhash
  decide

end Data

end TomP2P
