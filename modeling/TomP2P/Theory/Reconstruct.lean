import Mathlib.Data.List.Forall2
import Mathlib.Data.List.TakeDrop
import TomP2P.Core.RSync
import TomP2P.Foundation.Effect

/-!
# Reconstruction from Differences

A new value is what its differences to an old value make of that.

The loop over the new value keeps an invariant (`RSync.LoopInv`): the instructions so
far give the part of the value in front of the last reference, and what lies between
that and the window will be sent literally. A window that is referred to has the hash
of a block, so it is the block if there is no collision. It is not asked whether the
weak checksum was rolled correctly, since a wrong one makes a match be missed but
never found.

Every pass moves the window, so that there are at most as many passes as bytes, and
one for an empty value.

## Main definitions

* `RSync.NoCollision`: No block has the hash of a different window.
* `RSync.LoopInv`: What the loop keeps.

## Theorems

* `RSync.checksums_ok`: The checksums of the blocks.
* `RSync.pass_ok`, `RSync.passes_ok`: One pass of the loop, and all of them.
* `RSync.instructions_ok`: The instructions give the new value.
* `RSync.reconstruct_instructions`: The new value is reconstructed.
-/

namespace TomP2P

open Wire List

/-! ### Access within bounds -/

theorem int_int_sub (x y : Int) : int (int x - y) = int (x - y) :=
  Int.bmod_sub_bmod ..

theorem readAt_ok (array : Bytes) (index : Int) (hlow : 0 ≤ index) (hhigh : index < array.length) :
    ∃ byte, readAt array index = .ok byte := by
  rw [readAt, if_neg (by omega), getElem?_eq_getElem (by omega)]
  exact ⟨_, rfl⟩

theorem readRange_ok {array : Bytes} {o n : Nat} (h : o + n ≤ array.length) :
    readRange array o n = .ok ((array.drop o).take n) := by
  rw [readRange, if_neg (by omega)]
  rfl

/-- A loop whose passes do not throw does not throw. -/
theorem foldlM_ok {α β : Type} {f : β → α → Except JavaException β} {xs : List α}
    (h : ∀ x ∈ xs, ∀ b, ∃ b', f b x = .ok b') (b : β) : ∃ b', xs.foldlM f b = .ok b' := by
  induction xs generalizing b with
  | nil => exact ⟨b, rfl⟩
  | cons x xs ih =>
      obtain ⟨b₁, hb₁⟩ := h x mem_cons_self b
      rw [foldlM_cons, hb₁]
      exact ih (fun y hy => h y (mem_cons_of_mem _ hy)) b₁

theorem mapM_ok {α β : Type} {f : α → Except JavaException β} {P : α → β → Prop} {xs : List α}
    (h : ∀ x ∈ xs, ∃ y, f x = .ok y ∧ P x y) : ∃ ys, xs.mapM f = .ok ys ∧ List.Forall₂ P xs ys := by
  induction xs with
  | nil => exact ⟨[], rfl, List.Forall₂.nil⟩
  | cons x xs ih =>
      obtain ⟨y, hy, hP⟩ := h x mem_cons_self
      obtain ⟨ys, hys, hall⟩ := ih fun z hz => h z (mem_cons_of_mem _ hz)
      refine ⟨y :: ys, ?_, List.Forall₂.cons hP hall⟩
      rw [mapM_cons, hy, hys]
      rfl

namespace RollingChecksum

theorem update_ok (c : RollingChecksum) (array : Bytes) {o n : Nat} (h : o + n ≤ array.length)
    (hint : array.length < 2 ^ 31) :
    ∃ c', c.update array o n = .ok c' ∧ c'.length = n ∧ c'.offset = o := by
  have hread (i : Nat) (hi : i ∈ List.range (n : Int).toNat) (c : RollingChecksum) :
      ∃ c', (c.push <$> readAt array (int (i + o))) = .ok c' := by
    have hlt : i < n := by simpa using hi
    rw [int_eq (by omega) (by omega)]
    obtain ⟨byte, hbyte⟩ := readAt_ok array (i + o) (by omega) (by omega)
    rw [hbyte]
    exact ⟨_, rfl⟩
  obtain ⟨c₁, hc₁⟩ := foldlM_ok hread c
  refine ⟨{ c₁ with length := n, offset := o }, ?_, rfl, rfl⟩
  rw [update, hc₁]
  rfl

theorem updateRolling_ok {c : RollingChecksum} {array : Bytes} {o n : Nat} (ho : c.offset = o) (hn : c.length = n)
    (h : o + n < array.length) (hint : array.length < 2 ^ 31) :
    ∃ c', c.updateRolling array = .ok c' ∧ c'.length = n ∧ c'.offset = (o + 1 : Nat) := by
  obtain ⟨removed, hremoved⟩ := readAt_ok array o (by omega) (by omega)
  obtain ⟨added, hadded⟩ := readAt_ok array (o + n) (by omega) (by omega)
  have hnext : int ((o : Int) + 1) = (o + 1 : Nat) := by
    rw [int_eq (by omega) (by omega)]
    omega
  unfold updateRolling
  rw [ho, hn, hremoved, int_eq (by omega) (by omega), hadded, hnext]
  exact ⟨_, rfl, rfl, rfl⟩

end RollingChecksum

namespace RSync

theorem makeMD5Hash_ok {buffer : Bytes} {o n : Nat} (h : o + n ≤ buffer.length) :
    makeMD5Hash buffer o n = .ok (md5 ((buffer.drop o).take n)) := by
  rw [makeMD5Hash, readRange_ok h]
  rfl

/-! ### The old value -/

/-- A block of a value. -/
def block (value : Bytes) (b i : Nat) : Bytes := (value.drop (i * b)).take b

/-- The checksum is that of a block. -/
def IsBlock (value : Bytes) (b i : Nat) (checksum : Checksum) : Prop :=
  i * b < value.length ∧ checksum.strongChecksum = md5 (block value b i)

theorem take_min_drop (value : Bytes) (o n : Nat) :
    (value.drop o).take (min n (value.length - o)) = (value.drop o).take n := by
  rw [take_eq_take_iff, length_drop]
  omega

theorem checksums_ok {value : Bytes} {b : Nat} (hb : 1 ≤ b) (hint : value.length + b ≤ 2 ^ 31) :
    ∃ cs, checksums value b = .ok cs ∧ ∀ i c, cs[i]? = some c → IsBlock value b i c := by
  have hnumber : (int (int (value.length + b) - 1)).tdiv b = ((value.length + b - 1) / b : Nat) := by
    -- The sum may be one too large, which its predecessor is not.
    have hsum : int (int (value.length + b) - 1) = (value.length + b - 1 : Nat) := by
      rw [int_int_sub, int_eq (by omega) (by omega)]
      omega
    rw [hsum]
    rfl
  -- a block starts within the value
  have hstart (i : Nat) (hi : i < (value.length + b - 1) / b) : i * b < value.length := by
    have hmul := (Nat.lt_div_iff_mul_lt (by omega)).mp hi
    omega
  have hblock (i : Nat) (hi : i ∈ List.range ((value.length + b - 1) / b)) : ∃ c,
      (do
        let remaining := min (b : Int) (value.length - int (i * b))
        let adler ← ({} : RollingChecksum).reset.update value (int (i * b)) remaining
        let strongChecksum ← makeMD5Hash value (int (i * b)) remaining
        return (⟨adler.value, strongChecksum⟩ : Checksum) : Except JavaException Checksum) = .ok c ∧
      IsBlock value b i c := by
    have hlt := hstart i (mem_range.mp hi)
    have hoffset : int (i * b) = (i * b : Nat) := by
      rw [← Nat.cast_mul]
      exact int_eq (by omega) (by omega)
    have hremaining : min (b : Int) (value.length - (i * b : Nat)) = (min b (value.length - i * b) : Nat) := by
      omega
    rw [hoffset]
    dsimp only
    rw [hremaining]
    obtain ⟨adler, hadler, _⟩ := RollingChecksum.update_ok ({} : RollingChecksum).reset value
      (o := i * b) (n := min b (value.length - i * b)) (by omega) (by omega)
    rw [hadler, makeMD5Hash_ok (by omega), take_min_drop]
    exact ⟨_, rfl, hlt, rfl⟩
  obtain ⟨cs, hcs, hall⟩ := mapM_ok hblock
  refine ⟨cs, ?_, ?_⟩
  · unfold checksums
    rw [hnumber]
    dsimp only
    rw [if_neg (not_lt.mpr (Int.natCast_nonneg _))]
    exact hcs
  · intro i c hc
    obtain ⟨hi, hget⟩ := List.getElem?_eq_some_iff.mp hc
    have hlen := hall.length_eq
    rw [length_range] at hlen
    have hi' := hall.get (i := i) (by simpa [hlen] using hi) hi
    simpa [hget] using hi'

/-- A reference gives its block. -/
theorem reconstructed_reference {old : Bytes} {b i : Nat} (hi : i * b < old.length) (hint : old.length < 2 ^ 31) :
    reconstructed old b (.reference i) = .ok (block old b i) := by
  have hoffset : int (b * i) = (i * b : Nat) := by
    rw [mul_comm, ← Nat.cast_mul]
    exact int_eq (by omega) (by omega)
  have hremaining : min (b : Int) (old.length - (i * b : Nat)) = (min b (old.length - i * b) : Nat) := by omega
  rw [reconstructed, hoffset, hremaining, readRange_ok (by omega), take_min_drop]
  rfl

theorem reconstruct_append {value x y : Bytes} {is : List Instruction} {i : Instruction} {b : Int}
    (his : reconstruct value is b = .ok x) (hi : reconstructed value b i = .ok y) :
    reconstruct value (is ++ [i]) b = .ok (x ++ y) := by
  rw [reconstruct] at his ⊢
  rw [foldlM_append, his, Effect.except_ok_bind, foldlM_cons, hi]
  rfl

/-! ### The window and the blocks -/

/-- No block of the old value has the hash of a different window of the new one. -/
def NoCollision (old new : Bytes) (b1 b2 : Nat) : Prop :=
  ∀ i o, i * b1 < old.length → o ≤ new.length → md5 (block old b1 i) = md5 ((new.drop o).take b2) →
    block old b1 i = (new.drop o).take b2

theorem matchesFrom_ok (wcs : BitVec 32) {buffer : Bytes} {o n : Nat} (h : o + n ≤ buffer.length)
    (cs : List Checksum) (i : Nat) :
    ∃ r, matchesFrom wcs buffer o n i cs = .ok r ∧
      (r = -1 ∨ ∃ j c, r = (i + j : Nat) ∧ cs[j]? = some c ∧
        c.strongChecksum = md5 ((buffer.drop o).take n)) := by
  induction cs generalizing i with
  | nil => exact ⟨-1, rfl, .inl rfl⟩
  | cons c cs ih =>
      obtain ⟨r, hr, hmatch⟩ := ih (i + 1)
      have hrest : r = -1 ∨ ∃ j c', r = (i + j : Nat) ∧ (c :: cs)[j]? = some c' ∧
          c'.strongChecksum = md5 ((buffer.drop o).take n) := by
        rcases hmatch with hnone | ⟨j, c', hj, hc', hhash⟩
        · exact .inl hnone
        · refine .inr ⟨j + 1, c', ?_, hc', hhash⟩
          rw [hj]
          omega
      rw [matchesFrom]
      by_cases hweak : c.weakChecksum = wcs
      · rw [if_pos hweak, makeMD5Hash_ok h]
        by_cases hstrong : c.strongChecksum = md5 ((buffer.drop o).take n)
        · refine ⟨i, ?_, .inr ⟨0, c, by omega, rfl, hstrong⟩⟩
          exact if_pos hstrong
        · refine ⟨r, ?_, hrest⟩
          exact (if_neg hstrong).trans hr
      · rw [if_neg hweak]
        exact ⟨r, hr, hrest⟩

section Loop

variable {old new : Bytes} {b1 b2 : Nat} {cs : List Checksum} {l : Loop} {o r : Nat}

/-- A window that has the checksums of a block is the block. -/
theorem matchesIn_ok (hcs : ∀ i c, cs[i]? = some c → IsBlock old b1 i c) (hmd5 : NoCollision old new b1 b2)
    (wcs : BitVec 32) (h : o ≤ new.length) :
    ∃ ref, matchesIn wcs new o (min b2 (new.length - o) : Nat) cs = .ok ref ∧
      (ref = -1 ∨ ∃ i : Nat, ref = i ∧ i * b1 < old.length ∧
        block old b1 i = (new.drop o).take (min b2 (new.length - o))) := by
  have hwindow : o + min b2 (new.length - o) ≤ new.length := by omega
  obtain ⟨ref, href, hmatch⟩ := matchesFrom_ok wcs hwindow cs 0
  refine ⟨ref, href, ?_⟩
  rcases hmatch with hnone | ⟨i, c, hi, hc, hhash⟩
  · exact .inl hnone
  · obtain ⟨hstart, hblock⟩ := hcs i c hc
    rw [take_min_drop] at hhash ⊢
    refine .inr ⟨i, by omega, hstart, hmd5 i o hstart h ?_⟩
    rw [← hblock, hhash]

/-- The window is at `o` and the last reference ended at `r`. The instructions give
    what lies in front of that. -/
structure LoopInv (old new : Bytes) (b1 b2 : Nat) (l : Loop) (o r : Nat) : Prop where
  offset : l.offset = o
  lastRefFound : l.lastRefFound = r
  le_offset : r ≤ o
  le_length : o ≤ new.length
  remaining : l.remaining = (min b2 (new.length - o) : Nat)
  window : l.adler.offset = o ∧ l.adler.length = (min b2 (new.length - o) : Nat)
  built : reconstruct old l.result b1 = .ok (new.take r)

/-- After the last pass. -/
def LoopEnd (old new : Bytes) (b1 : Nat) (l : Loop) : Prop :=
  ∃ r : Nat, l.lastRefFound = r ∧ r ≤ new.length ∧ reconstruct old l.result b1 = .ok (new.take r)

/-- The instructions after a reference. -/
theorem LoopInv.built_reference (h : LoopInv old new b1 b2 l o r) (hint : old.length < 2 ^ 31) {i n : Nat}
    (hi : i * b1 < old.length) (hblock : block old b1 i = (new.drop o).take n) :
    reconstruct old (l.result ++ (if l.offset > l.lastRefFound then
      [Instruction.literal (.array new l.lastRefFound (l.offset - l.lastRefFound))] else []) ++ [.reference i]) b1 =
      .ok (new.take (o + n)) := by
  have hliteral : reconstruct old (l.result ++ (if l.offset > l.lastRefFound then
      [Instruction.literal (.array new l.lastRefFound (l.offset - l.lastRefFound))] else [])) b1 =
      .ok (new.take o) := by
    have hle := h.le_offset
    have hlen := h.le_length
    rw [h.offset, h.lastRefFound]
    by_cases hlt : (o : Int) > r
    · have hread : reconstructed old b1 (.literal (.array new r (o - r))) = .ok ((new.drop r).take (o - r)) := by
        have hcast : (o : Int) - r = (o - r : Nat) := by omega
        rw [reconstructed, hcast]
        exact readRange_ok (by omega)
      rw [if_pos hlt, reconstruct_append h.built hread]
      have hsum : r + (o - r) = o := by omega
      rw [← take_add, hsum]
    · have heq : r = o := by omega
      rw [if_neg hlt, append_nil, h.built, heq]
  rw [reconstruct_append hliteral (reconstructed_reference hi hint), hblock, ← take_add]

/-- One pass moves the window, or it is the last one. -/
theorem pass_ok (hb2 : 1 ≤ b2) (hold : old.length < 2 ^ 31) (hnew : new.length + b2 < 2 ^ 31)
    (hcs : ∀ i c, cs[i]? = some c → IsBlock old b1 i c) (hmd5 : NoCollision old new b1 b2)
    (h : LoopInv old new b1 b2 l o r) :
    ∃ more l', pass new cs b2 l = .ok (more, l') ∧
      (more = true → ∃ o' r', LoopInv old new b1 b2 l' o' r' ∧ o < o') ∧
      (more = false → LoopEnd old new b1 l') := by
  have hle := h.le_offset
  have hlen := h.le_length
  obtain ⟨ref, href, hmatch⟩ := matchesIn_ok hcs hmd5 l.adler.value hlen
  unfold pass
  rw [h.offset, h.remaining, href, Effect.except_ok_bind]
  rcases hmatch with rfl | ⟨i, rfl, hi, hblock⟩
  · -- no block has the window, which moves by one byte
    have hnext : int ((o : Int) + 1) = (o + 1 : Nat) := by
      rw [int_eq (by omega) (by omega)]
      omega
    rw [if_neg (by decide), hnext]
    by_cases hstop : (b2 : Int) > new.length - (o + 1 : Nat)
    · rw [if_pos hstop]
      exact ⟨false, _, rfl, nofun, fun _ => ⟨r, h.lastRefFound, by omega, h.built⟩⟩
    · rw [if_neg hstop]
      obtain ⟨adler, hadler, hlength, hoffset⟩ := RollingChecksum.updateRolling_ok h.window.1 h.window.2
        (by omega) (by omega : new.length < 2 ^ 31)
      rw [hadler]
      refine ⟨true, _, rfl, fun _ => ⟨o + 1, r, ?_, by omega⟩, nofun⟩
      have hsame : min b2 (new.length - (o + 1)) = min b2 (new.length - o) := by omega
      exact {
        offset := rfl
        lastRefFound := h.lastRefFound
        le_offset := by omega
        le_length := by omega
        remaining := by rw [hsame]
        window := ⟨hoffset, by rw [hsame]; exact hlength⟩
        built := h.built }
  · -- the window is a block, and the next one starts behind it
    have hbuilt := h.built_reference hold hi hblock
    rw [h.offset] at hbuilt
    have hnext : int ((o : Int) + (min b2 (new.length - o) : Nat)) = (o + min b2 (new.length - o) : Nat) := by
      rw [int_eq (by omega) (by omega)]
      omega
    have hremaining : min (b2 : Int) (new.length - (o + min b2 (new.length - o) : Nat)) =
        (min b2 (new.length - (o + min b2 (new.length - o))) : Nat) := by omega
    rw [if_pos (by omega), hnext]
    dsimp only
    rw [hremaining]
    by_cases hzero : ((min b2 (new.length - (o + min b2 (new.length - o))) : Nat) : Int) = 0
    · rw [if_pos hzero]
      exact ⟨false, _, rfl, nofun, fun _ => ⟨o + min b2 (new.length - o), rfl, by omega, hbuilt⟩⟩
    · rw [if_neg hzero]
      obtain ⟨adler, hadler, hlength, hoffset⟩ := RollingChecksum.update_ok l.adler.reset new
        (o := o + min b2 (new.length - o)) (n := min b2 (new.length - (o + min b2 (new.length - o))))
        (by omega) (by omega)
      rw [hadler]
      refine ⟨true, _, rfl, fun _ => ⟨o + min b2 (new.length - o), o + min b2 (new.length - o), ?_, by omega⟩, nofun⟩
      exact {
        offset := rfl
        lastRefFound := rfl
        le_offset := le_refl _
        le_length := by omega
        remaining := rfl
        window := ⟨hoffset, hlength⟩
        built := hbuilt }

/-- The loop ends, after at most as many passes as there are bytes from the window
    on and one more. -/
theorem passes_ok (hb2 : 1 ≤ b2) (hold : old.length < 2 ^ 31) (hnew : new.length + b2 < 2 ^ 31)
    (hcs : ∀ i c, cs[i]? = some c → IsBlock old b1 i c) (hmd5 : NoCollision old new b1 b2)
    {fuel : Nat} (hfuel : new.length - o < fuel) (h : LoopInv old new b1 b2 l o r) :
    ∃ l', passes new cs b2 fuel l = some (.ok l') ∧ LoopEnd old new b1 l' := by
  induction fuel generalizing l o r with
  | zero => omega
  | succ fuel ih =>
      obtain ⟨more, l₁, hpass, hmore, hlast⟩ := pass_ok hb2 hold hnew hcs hmd5 h
      rw [passes, hpass]
      cases more with
      | false => exact ⟨l₁, rfl, hlast rfl⟩
      | true =>
          obtain ⟨o', r', hinv, hlt⟩ := hmore rfl
          have hle := hinv.le_length
          exact ih (by omega) hinv

/-- The instructions for a new value give it, for any block sizes. -/
theorem instructions_ok (hb2 : 1 ≤ b2) (hold : old.length < 2 ^ 31) (hnew : new.length + b2 < 2 ^ 31)
    (hcs : ∀ i c, cs[i]? = some c → IsBlock old b1 i c) (hmd5 : NoCollision old new b1 b2)
    {fuel : Nat} (hfuel : new.length < fuel) :
    ∃ is, instructions fuel new cs b2 = some (.ok is) ∧ reconstruct old is b1 = .ok new := by
  have hremaining : min (b2 : Int) new.length = (min b2 (new.length - 0) : Nat) := by omega
  obtain ⟨adler, hadler, hlength, hoffset⟩ := RollingChecksum.update_ok {} new (o := 0)
    (n := min b2 (new.length - 0)) (by omega) (by omega)
  have hinv : LoopInv old new b1 b2 { adler := adler, remaining := (min b2 (new.length - 0) : Nat) } 0 0 := {
    offset := rfl
    lastRefFound := rfl
    le_offset := le_refl _
    le_length := Nat.zero_le _
    remaining := rfl
    window := ⟨hoffset, hlength⟩
    built := rfl }
  obtain ⟨l, hpasses, r, hr, hle, hbuilt⟩ := passes_ok hb2 hold hnew hcs hmd5
    (by omega : new.length - 0 < fuel) hinv
  have hinstructions : instructions fuel new cs b2 = some (do
      if (new.length : Int) > l.lastRefFound then
        return l.result ++ [.literal (.array new l.lastRefFound (new.length - l.lastRefFound))]
      else return l.result) := by
    have hadler' : ({} : RollingChecksum).update new 0 (min (b2 : Int) new.length) = .ok adler := by
      rw [hremaining]
      exact hadler
    rw [instructions, hadler', hremaining]
    dsimp only
    rw [hpasses]
    rfl
  rw [hr] at hinstructions
  by_cases hmore : (new.length : Int) > r
  · -- what is behind the last reference is literal
    rw [if_pos hmore] at hinstructions
    refine ⟨_, hinstructions, ?_⟩
    have hread : reconstructed old b1 (.literal (.array new r (new.length - r))) = .ok (new.drop r) := by
      have hcast : (new.length : Int) - r = (new.length - r : Nat) := by omega
      rw [reconstructed, hcast, readRange_ok (by omega), take_of_length_le]
      rw [length_drop]
    rw [reconstruct_append hbuilt hread, take_append_drop]
  · rw [if_neg hmore] at hinstructions
    refine ⟨_, hinstructions, ?_⟩
    rw [hbuilt, take_of_length_le (by omega)]

end Loop

/-- The new value is reconstructed from the old one and its difference to it, for any
    block sizes. There are enough passes if there is one more than bytes. -/
theorem reconstruct_instructions (old new : Bytes) (b1 b2 : Int) (hb1 : 1 ≤ b1) (hb2 : 1 ≤ b2)
    (hold : old.length + b1 < 2 ^ 31) (hnew : new.length + b2 < 2 ^ 31)
    (hmd5 : NoCollision old new b1.toNat b2.toNat) {fuel : Nat} (hfuel : new.length < fuel) :
    ∃ cs is, checksums old b1 = .ok cs ∧ instructions fuel new cs b2 = some (.ok is) ∧
      reconstruct old is b1 = .ok new := by
  obtain ⟨b1, rfl⟩ := Int.eq_ofNat_of_zero_le (show 0 ≤ b1 by omega)
  obtain ⟨b2, rfl⟩ := Int.eq_ofNat_of_zero_le (show 0 ≤ b2 by omega)
  rw [Int.toNat_natCast, Int.toNat_natCast] at hmd5
  obtain ⟨cs, hcs, hblocks⟩ := checksums_ok (show 1 ≤ b1 by omega) (show old.length + b1 ≤ 2 ^ 31 by omega)
  obtain ⟨is, his, hbuilt⟩ := instructions_ok (by omega) (by omega) (by omega) hblocks hmd5 hfuel
  exact ⟨cs, is, hcs, his, hbuilt⟩

/-- The blocks and windows of a value of three bytes, to which two are added in front. -/
theorem noCollision_prepended : NoCollision [1#8, 2#8, 3#8] [7#8, 8#8, 1#8, 2#8, 3#8] 2 2 := by
  have hall : ∀ i < 2, ∀ o < 6,
      md5 (block [1#8, 2#8, 3#8] 2 i) = md5 (([7#8, 8#8, 1#8, 2#8, 3#8].drop o).take 2) →
      block [1#8, 2#8, 3#8] 2 i = ([7#8, 8#8, 1#8, 2#8, 3#8].drop o).take 2 := by decide +kernel
  intro i o hi ho
  simp only [length_cons, length_nil] at hi ho
  exact hall i (by omega) o (by omega)

/-- A value to which two bytes are added in front. -/
theorem reconstruct_prepended : ∃ cs is, checksums [1#8, 2#8, 3#8] 2 = .ok cs ∧
    instructions 6 [7#8, 8#8, 1#8, 2#8, 3#8] cs 2 = some (.ok is) ∧
    reconstruct [1#8, 2#8, 3#8] is 2 = .ok [7#8, 8#8, 1#8, 2#8, 3#8] :=
  reconstruct_instructions _ _ 2 2 (by decide) (by decide) (by decide) (by decide) noCollision_prepended
    (by decide)

end RSync

end TomP2P
