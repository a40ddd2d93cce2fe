import TomP2P.Core.Sync
import TomP2P.Theory.Reconstruct

/-!
# Differences in a Buffer

The checksums and the instructions a buffer was written with are read from it.

A reference is written with its first bit set, so it has to have less than 32 bits,
and a literal has to lie within its array (`Instruction.Sendable`). Those of the loop
over the new value do (`RSync.instructions_sendable`). Nothing has to be known of the
block size or of the checksums for that: a window that is referred to has been hashed,
so it lies within the value, and a window that is moved has had a byte in front of it.
That is all `RSync.Spans` says. A literal arrives as a buffer of its own, and gives the
same bytes (`SyncUtils.reconstruct_delivered`).

## Main definitions

* `Instruction.delivered`: What arrives of an instruction.
* `Instruction.Sendable`: An instruction that can be written.
* `RSync.Spans`: The window and the last reference lie within the new value.

## Theorems

* `RSync.instructions_sendable`: What the loop over the new value makes can be sent.
* `RSync.instructions_total`, `RSync.instructions_negative`: The loop does not throw for
  any checksums, unless the block size is negative.
* `SyncUtils.decodeChecksums_encode`: Checksums are read back.
* `SyncUtils.decodeInstructions_encode`: Instructions are read back.
-/

namespace TomP2P

open Wire Effect List

namespace Instruction

/-- What arrives of an instruction: a literal is a buffer of its own. -/
def delivered : Instruction → Instruction
  | .reference r => .reference r
  | .literal (.array bytes offset length) => .literal (.dataBuffer ((bytes.drop offset.toNat).take length.toNat))
  | .literal (.dataBuffer bytes) => .literal (.dataBuffer bytes)

/-- A reference is not too large, and a literal lies within an array and is not empty. -/
def Sendable : Instruction → Prop
  | .reference r => 0 ≤ r ∧ r < 2 ^ 31
  | .literal (.array bytes offset length) =>
      0 ≤ offset ∧ 0 < length ∧ offset + length ≤ bytes.length ∧ (bytes.length : Int) < 2 ^ 31
  | .literal (.dataBuffer _) => False

end Instruction

namespace RSync

/-! ### References -/

theorem matchesFrom_range {wcs : BitVec 32} {buffer : Bytes} {offset length i r : Int} {cs : List Checksum}
    (h : matchesFrom wcs buffer offset length i cs = .ok r) : r = -1 ∨ (i ≤ r ∧ r < i + cs.length) := by
  induction cs generalizing i with
  | nil =>
      cases h
      exact .inl rfl
  | cons c cs ih =>
      have hrest (h : matchesFrom wcs buffer offset length (i + 1) cs = .ok r) :
          r = -1 ∨ (i ≤ r ∧ r < i + (c :: cs).length) := by
        rw [length_cons]
        rcases ih h with hnone | hrange
        · exact .inl hnone
        · omega
      rw [matchesFrom] at h
      by_cases hweak : c.weakChecksum = wcs
      · rw [if_pos hweak] at h
        obtain ⟨hash, _, h⟩ := except_bind_ok h
        by_cases hstrong : c.strongChecksum = hash
        · rw [if_pos hstrong] at h
          cases h
          rw [length_cons]
          omega
        · rw [if_neg hstrong] at h
          exact hrest h
      · rw [if_neg hweak] at h
        exact hrest h

/-! ### The instructions of the loop -/

-- A block is found by the hash of the window, which is made from bytes of the value.
theorem matchesFrom_hashed {wcs : BitVec 32} {buffer : Bytes} {offset length i r : Int} {cs : List Checksum}
    (h : matchesFrom wcs buffer offset length i cs = .ok r) (hr : r ≠ -1) :
    ∃ hash, makeMD5Hash buffer offset length = .ok hash := by
  induction cs generalizing i with
  | nil =>
      cases h
      exact absurd rfl hr
  | cons c cs ih =>
      rw [matchesFrom] at h
      by_cases hweak : c.weakChecksum = wcs
      · rw [if_pos hweak] at h
        rcases except_bind_ok h with ⟨hash, hhash, _⟩
        exact ⟨hash, hhash⟩
      · rw [if_neg hweak] at h
        exact ih h

theorem readRange_bounds {array : Bytes} {offset length : Int} {x : Bytes} (h : readRange array offset length = .ok x) :
    0 ≤ offset ∧ 0 ≤ length ∧ offset + length ≤ array.length := by
  rw [readRange] at h
  by_cases hout : offset < 0 ∨ length < 0 ∨ (array.length : Int) < offset + length
  · rw [if_pos hout] at h
    cases h
  · omega

theorem readAt_bounds {array : Bytes} {index : Int} {x : BitVec 8} (h : readAt array index = .ok x) :
    0 ≤ index ∧ index < array.length := by
  rw [readAt] at h
  by_cases hneg : index < 0
  · rw [if_pos hneg] at h
    cases h
  · rw [if_neg hneg] at h
    rcases hbyte : array[index.toNat]? with _ | byte
    · rw [hbyte] at h
      cases h
    · have hlt := (List.getElem?_eq_some_iff.mp hbyte).1
      omega

/-- The last reference ends at the window or in front of it, within the value, and the
    checksum is that of the window. -/
structure Spans (array : Bytes) (l : Loop) : Prop where
  zero_le : 0 ≤ l.lastRefFound
  le_offset : l.lastRefFound ≤ l.offset
  le_length : l.offset ≤ array.length
  window : l.adler.offset = l.offset
  sendable : ∀ i ∈ l.result, i.Sendable

section Spans

variable {array : Bytes} {cs : List Checksum} {blockSize : Int} {l l' : Loop}

/-- After the last pass the window may have left the value, but not the last reference. -/
def SpansEnd (array : Bytes) (l : Loop) : Prop :=
  0 ≤ l.lastRefFound ∧ l.lastRefFound ≤ array.length ∧ ∀ i ∈ l.result, i.Sendable

theorem update_offset {c c' : RollingChecksum} {offset length : Int} (h : c.update array offset length = .ok c') :
    c'.offset = offset := by
  rcases except_bind_ok h with ⟨c₁, _, h⟩
  cases h
  rfl

theorem updateRolling_offset {c c' : RollingChecksum} (h : c.updateRolling array = .ok c') :
    c'.offset = int (c.offset + 1) ∧ c.offset < array.length := by
  rcases except_bind_ok h with ⟨removed, hremoved, h⟩
  rcases except_bind_ok h with ⟨added, _, h⟩
  cases h
  exact ⟨rfl, (readAt_bounds hremoved).2⟩

-- What a match adds: the literal in front of the window, and the reference.
theorem Spans.sendable_match (hl : Spans array l) (harray : array.length < 2 ^ 31) {ref : Int} (h0 : 0 ≤ ref)
    (href : ref < 2 ^ 31) :
    ∀ i ∈ l.result ++ (if l.offset > l.lastRefFound then
      [Instruction.literal (.array array l.lastRefFound (l.offset - l.lastRefFound))] else []) ++ [.reference ref],
      i.Sendable := by
  have hzero := hl.zero_le
  have hle := hl.le_offset
  have hlen := hl.le_length
  intro i hi
  rw [mem_append, mem_append, mem_singleton] at hi
  rcases hi with (hi | hi) | rfl
  · exact hl.sendable i hi
  · by_cases hlt : l.offset > l.lastRefFound
    · rw [if_pos hlt, mem_singleton] at hi
      rw [hi]
      exact ⟨by omega, by omega, by omega, by omega⟩
    · rw [if_neg hlt] at hi
      exact absurd hi not_mem_nil
  · exact ⟨h0, href⟩

/-- One pass keeps the window within the value, or it is the last one. -/
theorem pass_spans (harray : array.length < 2 ^ 31) (hcs : cs.length ≤ 2 ^ 31) {more : Bool}
    (h : pass array cs blockSize l = .ok (more, l')) (hl : Spans array l) :
    (more = true → Spans array l') ∧ (more = false → SpansEnd array l') := by
  have hzero := hl.zero_le
  have hle := hl.le_offset
  have hlen := hl.le_length
  rcases except_bind_ok h with ⟨ref, href, h⟩
  by_cases hnone : ref ≠ -1
  · -- The window has been hashed, so it lies within the value.
    rcases matchesFrom_hashed href hnone with ⟨hash, hhash⟩
    have hwindow : 0 ≤ l.offset ∧ 0 ≤ l.remaining ∧ l.offset + l.remaining ≤ array.length := by
      rcases hread : readRange array l.offset l.remaining with e | x
      · rw [makeMD5Hash, hread] at hhash
        cases hhash
      · exact readRange_bounds hread
    have hrange := (matchesFrom_range href).resolve_left hnone
    have hsendable := hl.sendable_match harray hrange.1 (show ref < 2 ^ 31 by omega)
    have hnext : int (l.offset + l.remaining) = l.offset + l.remaining := int_eq (by omega) (by omega)
    rw [if_pos hnone] at h
    dsimp only at h
    rw [hnext] at h
    by_cases hstop : min blockSize (array.length - (l.offset + l.remaining)) = 0
    · rw [if_pos hstop] at h
      cases h
      exact ⟨(by intros; contradiction), fun _ => ⟨by dsimp only; omega, by dsimp only; omega, hsendable⟩⟩
    · rw [if_neg hstop] at h
      rcases except_bind_ok h with ⟨adler, hadler, h⟩
      cases h
      exact ⟨fun _ => {
        zero_le := by dsimp only; omega
        le_offset := le_refl _
        le_length := by dsimp only; omega
        window := update_offset hadler
        sendable := hsendable }, (by intros; contradiction)⟩
  · rw [if_neg hnone] at h
    dsimp only at h
    by_cases hstop : blockSize > array.length - int (l.offset + 1)
    · rw [if_pos hstop] at h
      cases h
      exact ⟨(by intros; contradiction), fun _ => ⟨hzero, by dsimp only; omega, hl.sendable⟩⟩
    · -- The byte in front of the next window has been read.
      rw [if_neg hstop] at h
      rcases except_bind_ok h with ⟨adler, hadler, h⟩
      cases h
      -- the window moves on by one byte
      rcases updateRolling_offset hadler with ⟨hoffset, hlt⟩
      rw [hl.window] at hoffset hlt
      have hnext : int (l.offset + 1) = l.offset + 1 := int_eq (by omega) (by omega)
      exact ⟨fun _ => {
        zero_le := hzero
        le_offset := by dsimp only; omega
        le_length := by dsimp only; omega
        window := hoffset
        sendable := hl.sendable }, (by intros; contradiction)⟩

-- By induction on the passes that are allowed.
theorem passes_spans (harray : array.length < 2 ^ 31) (hcs : cs.length ≤ 2 ^ 31) {fuel : Nat}
    (h : passes array cs blockSize fuel l = some (.ok l')) (hl : Spans array l) : SpansEnd array l' := by
  induction fuel generalizing l with
  | zero => cases h
  | succ fuel ih =>
      rw [passes] at h
      rcases hpass : pass array cs blockSize l with e | ⟨more, l₁⟩
      · rw [hpass] at h
        cases h
      · rw [hpass] at h
        rcases pass_spans harray hcs hpass hl with ⟨hmore, hlast⟩
        cases more with
        | true => exact ih h (hmore rfl)
        | false =>
            cases h
            exact hlast rfl

/-- The instructions for a new value can be sent, whatever the checksums and the block
    size are. -/
theorem instructions_sendable (harray : array.length < 2 ^ 31) (hcs : cs.length ≤ 2 ^ 31) {fuel : Nat}
    {is : List Instruction} (h : instructions fuel array cs blockSize = some (.ok is)) : ∀ i ∈ is, i.Sendable := by
  unfold instructions at h
  dsimp only at h
  rcases hadler : ({} : RollingChecksum).update array 0 (min blockSize (array.length : Int)) with e | adler
  · rw [hadler] at h
    cases h
  · rw [hadler] at h
    rcases Option.map_eq_some_iff.mp h with ⟨result, hpasses, h⟩
    rcases except_bind_ok h with ⟨l, hl, h⟩
    rw [hl] at hpasses
    have hstart : Spans array { adler := adler, remaining := min blockSize (array.length : Int) } := {
      zero_le := le_refl _
      le_offset := le_refl _
      le_length := Int.natCast_nonneg _
      window := update_offset hadler
      sendable := fun i hi => absurd hi not_mem_nil }
    rcases passes_spans harray hcs hpasses hstart with ⟨hzero, hlen, hsendable⟩
    by_cases hmore : (array.length : Int) > l.lastRefFound
    · rw [if_pos hmore] at h
      cases h
      intro i hi
      rw [mem_append, mem_singleton] at hi
      rcases hi with hi | rfl
      · exact hsendable i hi
      · exact ⟨hzero, by omega, by omega, by omega⟩
    · rw [if_neg hmore] at h
      cases h
      exact hsendable

end Spans

/-! ### The loop ends -/

/-- The window of the loop is at `o`, and the checksum is that of the window. -/
structure WindowAt (array : Bytes) (b : Nat) (l : Loop) (o : Nat) : Prop where
  offset : l.offset = o
  le_length : o ≤ array.length
  remaining : l.remaining = (min b (array.length - o) : Nat)
  window : l.adler.offset = o ∧ l.adler.length = (min b (array.length - o) : Nat)

section WindowAt

variable {array : Bytes} {b o : Nat} {l : Loop}

/-- One pass does not throw. It moves the window, or it is the last one. -/
theorem pass_total (cs : List Checksum) (harray : array.length + 1 < 2 ^ 31) (h : WindowAt array b l o) :
    ∃ more l', pass array cs b l = .ok (more, l') ∧ (more = true → ∃ o', WindowAt array b l' o' ∧ o < o') := by
  have hlen := h.le_length
  have hwindow : o + min b (array.length - o) ≤ array.length := by omega
  rcases matchesFrom_ok l.adler.value hwindow cs 0 with ⟨ref, href, -⟩
  unfold pass matchesIn
  rw [h.offset, h.remaining]
  rw [Nat.cast_zero] at href
  rw [href, except_ok_bind]
  by_cases hnone : ref ≠ -1
  · have hnext : int ((o : Int) + (min b (array.length - o) : Nat)) = (o + min b (array.length - o) : Nat) := by
      rw [int_eq (by omega) (by omega)]
      omega
    have hremaining : min (b : Int) (array.length - (o + min b (array.length - o) : Nat)) =
        (min b (array.length - (o + min b (array.length - o))) : Nat) := by omega
    rw [if_pos hnone, hnext]
    dsimp only
    rw [hremaining]
    by_cases hzero : ((min b (array.length - (o + min b (array.length - o))) : Nat) : Int) = 0
    · rw [if_pos hzero]
      exact ⟨false, _, rfl, nofun⟩
    · rw [if_neg hzero]
      rcases RollingChecksum.update_ok l.adler.reset array
        (o := o + min b (array.length - o)) (n := min b (array.length - (o + min b (array.length - o))))
        (by omega) (by omega) with ⟨adler, hadler, hlength, hoffset⟩
      rw [hadler]
      exact ⟨true, _, rfl, fun _ => ⟨o + min b (array.length - o), {
        offset := rfl
        le_length := hwindow
        remaining := rfl
        window := ⟨hoffset, hlength⟩ }, by omega⟩⟩
  · have hnext : int ((o : Int) + 1) = (o + 1 : Nat) := by
      rw [int_eq (by omega) (by omega)]
      omega
    rw [if_neg hnone, hnext]
    by_cases hstop : (b : Int) > array.length - (o + 1 : Nat)
    · rw [if_pos hstop]
      exact ⟨false, _, rfl, nofun⟩
    · -- There is a byte behind the window, or the window is empty and there is one at it.
      rw [if_neg hstop]
      rcases RollingChecksum.updateRolling_ok h.window.1 h.window.2
        (by omega) (by omega : array.length < 2 ^ 31) with ⟨adler, hadler, hlength, hoffset⟩
      rw [hadler]
      have hsame : min b (array.length - (o + 1)) = min b (array.length - o) := by omega
      exact ⟨true, _, rfl, fun _ => ⟨o + 1, {
        offset := rfl
        le_length := by omega
        remaining := by rw [hsame]
        window := ⟨hoffset, by rw [hsame]; exact hlength⟩ }, by omega⟩⟩

-- By induction on the passes, of which there are no more than bytes from the window on.
theorem passes_total (cs : List Checksum) (harray : array.length + 1 < 2 ^ 31) {fuel : Nat} (hfuel : array.length - o < fuel)
    (h : WindowAt array b l o) : ∃ l', passes array cs b fuel l = some (.ok l') := by
  induction fuel generalizing l o with
  | zero => omega
  | succ fuel ih =>
      rcases pass_total cs harray h with ⟨more, l₁, hpass, hmore⟩
      rw [passes, hpass]
      cases more with
      | false => exact ⟨l₁, rfl⟩
      | true =>
          rcases hmore rfl with ⟨o', hwindow, hlt⟩
          have hle := hwindow.le_length
          exact ih (by omega) hwindow

theorem instructions_total (harray : array.length + 1 < 2 ^ 31) (cs : List Checksum) (b : Nat) :
    ∃ is, instructions (array.length + 1) array cs b = some (.ok is) := by
  have hremaining : min (b : Int) array.length = (min b (array.length - 0) : Nat) := by omega
  rcases RollingChecksum.update_ok {} array (o := 0) (n := min b (array.length - 0)) (by omega) (by omega) with
    ⟨adler, hadler, hlength, hoffset⟩
  have hstart : WindowAt array b { adler := adler, remaining := (min b (array.length - 0) : Nat) } 0 := {
    offset := rfl
    le_length := Nat.zero_le _
    remaining := rfl
    window := ⟨hoffset, hlength⟩ }
  rcases passes_total cs harray (show array.length - 0 < array.length + 1 by omega) hstart with ⟨l, hl⟩
  rw [Nat.cast_zero] at hadler
  unfold instructions
  dsimp only
  rw [hremaining, hadler]
  dsimp only
  rw [hl]
  rw [Option.map_some, except_ok_bind]
  by_cases hmore : (array.length : Int) > l.lastRefFound
  · rw [if_pos hmore]
    exact ⟨_, rfl⟩
  · rw [if_neg hmore]
    exact ⟨_, rfl⟩

end WindowAt

-- A window of a negative length cannot be hashed, and it cannot be moved either, since
-- its end lies in front of the value.
theorem pass_negative {array : Bytes} {cs : List Checksum} {b : Int} (hb : b < 0) (hint : -2 ^ 31 ≤ b)
    {adler : RollingChecksum} (hoffset : adler.offset = 0) (hlength : adler.length = b) (x : Bool × Loop) :
    pass array cs b { adler := adler, remaining := b } ≠ .ok x := by
  intro h
  rcases except_bind_ok h with ⟨ref, href, h⟩
  by_cases hnone : ref ≠ -1
  · rcases matchesFrom_hashed href hnone with ⟨hash, hhash⟩
    dsimp only at hhash
    rw [makeMD5Hash, readRange, if_pos (.inr (.inl hb))] at hhash
    cases hhash
  · have hnext : int ((0 : Int) + 1) = 1 := rfl
    rw [if_neg hnone] at h
    dsimp only at h
    rw [hnext, if_neg (by omega)] at h
    rcases except_bind_ok h with ⟨adler', hadler, _⟩
    rcases except_bind_ok hadler with ⟨removed, _, hadler⟩
    rcases except_bind_ok hadler with ⟨added, hadded, _⟩
    have hlow := (readAt_bounds hadded).1
    rw [hoffset, hlength, int_eq (by omega) (by omega)] at hlow
    omega

theorem instructions_negative {array : Bytes} {b : Int} (hb : b < 0) (hint : -2 ^ 31 ≤ b) (cs : List Checksum)
    (fuel : Nat) (is : List Instruction) : instructions fuel array cs b ≠ some (.ok is) := by
  intro h
  have hremaining : min b (array.length : Int) = b := by omega
  unfold instructions at h
  dsimp only at h
  rw [hremaining] at h
  rcases hadler : ({} : RollingChecksum).update array 0 b with e | adler
  · rw [hadler] at h
    cases h
  · rw [hadler] at h
    have hlength : adler.length = b := by
      rcases except_bind_ok hadler with ⟨c, _, hadler⟩
      cases hadler
      rfl
    rcases Option.map_eq_some_iff.mp h with ⟨result, hpasses, h⟩
    rcases except_bind_ok h with ⟨l, hl, _⟩
    rw [hl] at hpasses
    cases fuel with
    | zero => cases hpasses
    | succ fuel =>
        rw [passes] at hpasses
        rcases hpass : pass array cs b { adler := adler, remaining := b } with e | x
        · rw [hpass] at hpasses
          cases hpasses
        · exact pass_negative hb hint (update_offset hadler) hlength x hpass

end RSync

namespace SyncUtils

/-! ### Fields of a buffer -/

theorem readBytes_append (u v : Bytes) {n : Nat} (hn : u.length = n) : readBytes (u ++ v) n = .ok (u, v) := by
  rw [readBytes, if_neg (by simp only [length_append]; omega), take_left' hn, drop_left' hn]

theorem decodeHeader_encode (n : Number160) (v : Bytes) : decodeHeader (n.encode ++ v) = .ok (n, v) := by
  have hofBytes := Number160.ofBytes_encode_append n []
  rw [append_nil] at hofBytes
  rw [decodeHeader, readBytes_append _ _ n.length_encode, except_ok_bind]
  dsimp only
  rw [hofBytes]
  rfl

/-! ### Checksums -/

theorem decodeChecksumsUpTo_encode {cs : List Checksum} (hcs : ∀ c ∈ cs, c.strongChecksum.length = 16) {fuel : Nat}
    (hfuel : cs.length ≤ fuel) :
    decodeChecksumsUpTo fuel (cs.flatMap fun c => writeInt c.weakChecksum ++ c.strongChecksum) = .ok cs := by
  induction cs generalizing fuel with
  | nil => cases fuel <;> rfl
  | cons c cs ih =>
      cases fuel with
      | zero => simp at hfuel
      | succ fuel =>
          have hstrong := hcs c mem_cons_self
          have hne : writeInt c.weakChecksum ++ (c.strongChecksum ++
              cs.flatMap fun c => writeInt c.weakChecksum ++ c.strongChecksum) ≠ [] := by
            simp [writeInt, toBE]
          rw [flatMap_cons, append_assoc, decodeChecksumsUpTo, if_neg hne,
            readBytes_append (writeInt c.weakChecksum) _ (length_toBE 4 _), except_ok_bind]
          dsimp only
          rw [readBytes_append _ _ hstrong, except_ok_bind]
          dsimp only
          rw [ih (fun c' hc' => hcs c' (mem_cons_of_mem _ hc')) (by simpa using hfuel), except_ok_bind,
            Number160.ofNat_ofBE_writeInt]
          rfl

theorem decodeChecksums_encode {cs : List Checksum} (hcs : ∀ c ∈ cs, c.strongChecksum.length = 16) :
    decodeChecksums (cs.flatMap fun c => writeInt c.weakChecksum ++ c.strongChecksum) = .ok cs := by
  refine decodeChecksumsUpTo_encode hcs ?_
  -- Each checksum has 20 bytes.
  induction cs with
  | nil => exact Nat.zero_le _
  | cons c cs ih =>
      have hrest := ih fun c' hc' => hcs c' (mem_cons_of_mem _ hc')
      simp only [flatMap_cons, length_append, length_cons, writeInt, length_toBE] at hrest ⊢
      omega

/-! ### Instructions -/

/-- The first bit and the other ones. -/
theorem mask_bits : ∀ i : Fin 32, (0x80000000#32)[i] = decide (i = 31) ∧ (0x7fffffff#32)[i] = !decide (i = 31) := by
  decide

theorem and_first (x : BitVec 32) : x &&& 0x80000000#32 = if x.msb then 0x80000000#32 else 0 := by
  ext i hi
  have hmask : (0x80000000#32)[i] = decide ((⟨i, hi⟩ : Fin 32) = 31) := (mask_bits ⟨i, hi⟩).1
  by_cases h31 : (⟨i, hi⟩ : Fin 32) = 31
  · have hi31 : i = 31 := congrArg Fin.val h31
    subst hi31
    cases hmsb : x.msb with
    | true | false => simpa [BitVec.msb_eq_getLsbD_last] using hmsb
  · rw [decide_eq_false h31] at hmask
    cases x.msb with
    | true => simp only [BitVec.getElem_and, hmask, Bool.and_false, if_true]
    | false => simp only [BitVec.getElem_and, hmask, Bool.and_false, Bool.false_eq_true, if_false, BitVec.ofNat_eq_ofNat,
        BitVec.getElem_zero]

theorem or_first_and (x : BitVec 32) (hx : x.msb = false) : (x ||| 0x80000000#32) &&& 0x7fffffff#32 = x := by
  ext i hi
  have hfirst : (0x80000000#32)[i] = decide ((⟨i, hi⟩ : Fin 32) = 31) := (mask_bits ⟨i, hi⟩).1
  have hother : (0x7fffffff#32)[i] = !decide ((⟨i, hi⟩ : Fin 32) = 31) := (mask_bits ⟨i, hi⟩).2
  rw [BitVec.getElem_and, BitVec.getElem_or, hfirst, hother]
  by_cases h31 : (⟨i, hi⟩ : Fin 32) = 31
  · have hi31 : i = 31 := congrArg Fin.val h31
    subst hi31
    have hbit : x[31] = false := by simpa [BitVec.msb_eq_getLsbD_last] using hx
    simp [hbit]
  · simp [h31]

theorem ofInt_small {n : Int} (h0 : 0 ≤ n) (h : n < 2 ^ 31) :
    (BitVec.ofInt 32 n).toNat = n.toNat ∧ (BitVec.ofInt 32 n).toInt = n ∧ (BitVec.ofInt 32 n).msb = false := by
  have hnat : (BitVec.ofInt 32 n).toNat = n.toNat := by
    rw [BitVec.toNat_ofInt]
    omega
  refine ⟨hnat, ?_, BitVec.msb_eq_false_iff_two_mul_lt.mpr (by omega)⟩
  rw [BitVec.toInt_eq_toNat_of_lt (by omega), hnat]
  omega

theorem transferTo_array {bytes : Bytes} {offset length : Int} (h0 : 0 ≤ offset) (hlength : 0 ≤ length)
    (hle : offset + length ≤ bytes.length) :
    (RArray.array bytes offset length).transferTo = .ok ((bytes.drop offset.toNat).take length.toNat) := by
  rw [RArray.transferTo]
  by_cases hzero : length = 0
  · rw [if_pos hzero, hzero, Int.toNat_zero, take_zero]
  · rw [if_neg hzero, readRange, if_neg (by omega)]

/-- An instruction in front of a buffer is read from it. -/
theorem decodeInstructionsUpTo_cons {i : Instruction} (hi : i.Sendable) :
    ∃ v, encodeInstruction i = .ok v ∧ 1 ≤ v.length ∧ ∀ fuel rest is, decodeInstructionsUpTo fuel rest = .ok is →
      decodeInstructionsUpTo (fuel + 1) (v ++ rest) = .ok (i.delivered :: is) := by
  have hfield (x : BitVec 32) (rest : Bytes) : writeInt x ++ rest ≠ [] ∧
      readBytes (writeInt x ++ rest) 4 = .ok (writeInt x, rest) :=
    ⟨by simp [writeInt, toBE], readBytes_append _ _ (length_toBE 4 _)⟩
  cases i with
  | reference r =>
      obtain ⟨h0, hlt⟩ := hi
      obtain ⟨_, hvalue, hmsb⟩ := ofInt_small h0 hlt
      have hfirst : (BitVec.ofInt 32 r ||| 0x80000000#32) &&& 0x80000000#32 ≠ 0 := by
        have hset : (0x80000000#32).msb = true := by decide
        rw [and_first, BitVec.msb_or, hset, Bool.or_true, if_pos rfl]
        decide
      refine ⟨writeInt (BitVec.ofInt 32 r ||| 0x80000000#32), if_pos (by omega), by simp [writeInt], ?_⟩
      intro fuel rest is his
      obtain ⟨hne, hread⟩ := hfield (BitVec.ofInt 32 r ||| 0x80000000#32) rest
      rw [decodeInstructionsUpTo, if_neg hne, hread, except_ok_bind]
      dsimp only
      rw [Number160.ofNat_ofBE_writeInt, if_pos hfirst, his, or_first_and _ hmsb, hvalue]
      rfl
  | literal l =>
      cases l with
      | dataBuffer bytes => exact hi.elim
      | array bytes offset length =>
          obtain ⟨h0, hlength, hle, hlt⟩ := hi
          obtain ⟨hnat, _, hmsb⟩ := ofInt_small hlength.le (by omega)
          have hbytes := transferTo_array h0 hlength.le hle
          have htake : ((bytes.drop offset.toNat).take length.toNat).length = length.toNat := by
            rw [length_take, length_drop]
            omega
          have hfirst : ¬ BitVec.ofInt 32 length &&& 0x80000000#32 ≠ 0 := by
            rw [and_first, hmsb]
            decide
          refine ⟨writeInt (BitVec.ofInt 32 length) ++ (bytes.drop offset.toNat).take length.toNat, ?_, ?_, ?_⟩
          · rw [encodeInstruction, hbytes]
            rfl
          · rw [length_append, writeInt, length_toBE]
            omega
          · intro fuel rest is his
            obtain ⟨hne, hread⟩ := hfield (BitVec.ofInt 32 length) ((bytes.drop offset.toNat).take length.toNat ++ rest)
            have hremaining : min (BitVec.ofInt 32 length).toNat
                ((bytes.drop offset.toNat).take length.toNat ++ rest).length = length.toNat := by
              rw [hnat, length_append, htake]
              omega
            rw [append_assoc, decodeInstructionsUpTo, if_neg hne, hread, except_ok_bind]
            dsimp only
            rw [Number160.ofNat_ofBE_writeInt, if_neg hfirst, hremaining, drop_left' htake,
              take_left' htake, his]
            rfl

/-- The instructions of a buffer are read from it. -/
theorem decodeInstructions_encode {is : List Instruction} (his : ∀ i ∈ is, i.Sendable) :
    ∃ vs, is.mapM encodeInstruction = .ok vs ∧ decodeInstructions vs.flatten = .ok (is.map Instruction.delivered) := by
  have hupTo : ∃ vs, is.mapM encodeInstruction = .ok vs ∧ is.length ≤ vs.flatten.length ∧
      ∀ fuel, is.length ≤ fuel → decodeInstructionsUpTo fuel vs.flatten = .ok (is.map Instruction.delivered) := by
    induction is with
    | nil => exact ⟨[], rfl, Nat.le_refl _, fun fuel _ => by cases fuel <;> rfl⟩
    | cons i is ih =>
        obtain ⟨v, hv, hpos, hcons⟩ := decodeInstructionsUpTo_cons (his i mem_cons_self)
        obtain ⟨vs, hvs, hlen, hall⟩ := ih fun i hi => his i (mem_cons_of_mem _ hi)
        refine ⟨v :: vs, ?_, ?_, ?_⟩
        · rw [mapM_cons, hv, hvs]
          rfl
        · rw [flatten_cons, length_append, length_cons]
          omega
        · intro fuel hfuel
          rw [length_cons] at hfuel
          obtain ⟨fuel, rfl⟩ := Nat.exists_eq_add_of_le' (show 1 ≤ fuel by omega)
          exact hcons fuel _ _ (hall fuel (by omega))
  obtain ⟨vs, hvs, hlen, hall⟩ := hupTo
  exact ⟨vs, hvs, hall _ hlen⟩

/-! ### The difference that arrives -/

theorem reconstructed_delivered (value : Bytes) (b : Int) {i : Instruction} (hi : i.Sendable) :
    RSync.reconstructed value b i.delivered = RSync.reconstructed value b i := by
  cases i with
  | reference r => rfl
  | literal l =>
      cases l with
      | dataBuffer bytes => rfl
      | array bytes offset length =>
          obtain ⟨h0, hlength, hle, _⟩ := hi
          rw [Instruction.delivered, RSync.reconstructed, RSync.reconstructed, readRange, if_neg (by omega)]

theorem reconstruct_delivered (value : Bytes) (b : Int) {is : List Instruction} (his : ∀ i ∈ is, i.Sendable) :
    RSync.reconstruct value (is.map Instruction.delivered) b = RSync.reconstruct value is b := by
  have hloop (x : Bytes) : (is.map Instruction.delivered).foldlM
      (fun result i => (result ++ ·) <$> RSync.reconstructed value b i) x =
      is.foldlM (fun result i => (result ++ ·) <$> RSync.reconstructed value b i) x := by
    induction is generalizing x with
    | nil => rfl
    | cons i is ih =>
        rw [map_cons, foldlM_cons, foldlM_cons, reconstructed_delivered value b (his i mem_cons_self)]
        congr 1
        funext y
        exact ih (fun i hi => his i (mem_cons_of_mem _ hi)) y
  exact hloop []

end SyncUtils

end TomP2P
