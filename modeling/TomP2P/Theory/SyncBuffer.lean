import TomP2P.Theory.Difference

/-!
# The Format of Differences

What is written for a difference is read back, and the reading stops at the end of the
buffer.

The decoders of `Core.Sync` have no buffer left at the end, so it could not be said of
them that they read all of it. The readers of `Core.Sync` hand it on. They have
the same values (`SyncUtils.decodeInstructions_eq`, `SyncUtils.decodeChecksums_eq`), so
that what was shown of the decoders holds of them, and every pass reads something, so
that they stop only where there is nothing left (`SyncUtils.whileReadable_consumes`).

The size is counted in an `int` next to the bytes. The two agree modulo `2^32`, and a
buffer has less than `2^31` bytes.

What was read makes the same value as what was written, but only once. Putting a value
together reads the literals that have arrived to their end, where `RArray.transferTo`
reads a duplicate, so that a later call finds them empty. A call does so as far as it
comes (`RSync.ReachesLiteral`), and a later one misses them if it comes to its end
(`RSync.Completes`).

## Main definitions

* `RSync.ReachesLiteral`, `RSync.Completes`: How far a call comes.
* `RSync.Left`: What calls leave of the instructions.

## Theorems

* `SyncUtils.decodeInstructions_eq`, `SyncUtils.decodeChecksums_eq`: The decoders are
  the readers without what is left.
* `SyncUtils.writeInstructions_ok`: The bytes, and their number.
* `RSync.reconstructEach_eq_iff`: When calls with one list give what they should.
* `SyncUtils.diff_format`: Differences and checksums pass through a buffer.
-/

namespace TomP2P

open Wire Effect List

/-! ### Several calls -/

namespace RSync

/-- The block that is referred to lies within the value. -/
def InRange (call : Bytes × Int) (ref : Int) : Prop :=
  0 ≤ call.2 ∧ 0 ≤ int (call.2 * ref) ∧ int (call.2 * ref) ≤ call.1.length

instance (call : Bytes × Int) (ref : Int) : Decidable (InRange call ref) :=
  inferInstanceAs (Decidable (_ ∧ _ ∧ _))

/-- A call with this value and size of the blocks comes as far as a literal. -/
def ReachesLiteral (call : Bytes × Int) : List Instruction → Prop
  | [] => False
  | .reference ref :: is => InRange call ref ∧ ReachesLiteral call is
  | .literal _ :: _ => True

/-- A call with this value and size of the blocks does not throw. -/
def Completes (call : Bytes × Int) (is : List Instruction) : Prop :=
  ∀ ref, .reference ref ∈ is → InRange call ref

/-- What calls may have left of the instructions that have arrived. -/
def Left : List Instruction → List Instruction → Prop :=
  List.Forall₂ fun i j => j = i.delivered ∨ j = drainedOne i.delivered

section Calls

variable {value : Bytes} {b : Int} {is cur : List Instruction}

theorem reconstructed_of_inRange {ref : Int} (h : InRange (value, b) ref) :
    ∃ v, reconstructed value b (.reference ref) = .ok v := by
  obtain ⟨hb, hlow, hhigh⟩ : 0 ≤ b ∧ 0 ≤ int (b * ref) ∧ int (b * ref) ≤ value.length := h
  rw [reconstructed, readRange, if_neg (by omega)]
  exact ⟨_, rfl⟩

theorem reconstructed_of_not_inRange {ref : Int} (h : ¬ InRange (value, b) ref) :
    reconstructed value b (.reference ref) = .error .indexOutOfBounds := by
  have h : ¬ (0 ≤ b ∧ 0 ≤ int (b * ref) ∧ int (b * ref) ≤ value.length) := h
  rw [reconstructed, readRange, if_pos (by omega)]

/-- The value is that of the first instruction, and of the rest. -/
theorem reconstruct_cons (value : Bytes) (b : Int) (i : Instruction) (is : List Instruction) :
    reconstruct value (i :: is) b = (do
      let x ← reconstructed value b i
      let y ← reconstruct value is b
      return x ++ y) := by
  have hfold (is : List Instruction) (x : Bytes) :
      is.foldlM (fun result i => (result ++ ·) <$> reconstructed value b i) x =
        (x ++ ·) <$> reconstruct value is b := by
    induction is generalizing x with
    | nil => exact congrArg Except.ok (append_nil x).symm
    | cons i is ih =>
        rw [reconstruct, foldlM_cons, foldlM_cons]
        rcases reconstructed value b i with e | y
        · rfl
        · simp only [except_ok_bind, Except.map_ok, nil_append, ih]
          rcases reconstruct value is b with e | z
          · rfl
          · simp only [Except.map_ok, append_assoc]
  rw [reconstruct, foldlM_cons]
  rcases reconstructed value b i with e | x
  · rfl
  · simp only [except_ok_bind, Except.map_ok, nil_append, hfold]
    rcases reconstruct value is b with e | y <;> rfl

/-- A call that throws throws with whatever is left of the literals. -/
theorem Left.reconstruct_error (hleft : Left is cur) (h : ¬ Completes (value, b) is) :
    reconstruct value cur b = .error .indexOutOfBounds := by
  induction hleft with
  | nil => exact absurd (fun ref hmem => absurd hmem not_mem_nil) h
  | @cons i j is cur hij hrest ih =>
      rw [reconstruct_cons]
      cases i with
      | reference ref =>
          have hj : j = .reference ref := hij.elim id id
          rw [hj]
          by_cases hin : InRange (value, b) ref
          · obtain ⟨v, hv⟩ := reconstructed_of_inRange hin
            rw [hv, except_ok_bind, ih ?_]
            · rfl
            · intro hall
              refine h ?_
              intro r hr
              rcases mem_cons.mp hr with heq | hr
              · cases heq
                exact hin
              · exact hall r hr
          · rw [reconstructed_of_not_inRange hin]
            rfl
      | literal l =>
          have hok : ∃ v, reconstructed value b j = .ok v := by
            cases l <;> rcases hij with rfl | rfl <;> exact ⟨_, rfl⟩
          obtain ⟨v, hv⟩ := hok
          rw [hv, except_ok_bind, ih ?_]
          · rfl
          · intro hall
            refine h fun r hr => hall r ?_
            rcases mem_cons.mp hr with heq | hr
            · cases heq
            · exact hr

/-- What is left of a literal is no longer than the literal, and shorter if it was read. -/
theorem reconstructed_left {i j : Instruction} (hi : i.Sendable) (hij : j = i.delivered ∨ j = drainedOne i.delivered)
    {x : Bytes} (hx : reconstructed value b i.delivered = .ok x) :
    ∃ y, reconstructed value b j = .ok y ∧ y.length ≤ x.length ∧ (y.length = x.length → j = i.delivered) := by
  rcases hij with rfl | rfl
  · exact ⟨x, hx, le_refl _, fun _ => rfl⟩
  · cases i with
    | reference ref => exact ⟨x, hx, le_refl _, fun _ => rfl⟩
    | literal l =>
        cases l with
        | dataBuffer bytes => exact hi.elim
        | array bytes offset length =>
            obtain ⟨h0, hlength, hle, -⟩ := hi
            cases hx
            refine ⟨[], rfl, Nat.zero_le _, ?_⟩
            intro hempty
            rw [length_nil, length_take, length_drop] at hempty
            omega

/-- A call that does not throw misses what was read of the literals. -/
theorem Left.reconstruct_ok (hleft : Left is cur) (his : ∀ i ∈ is, i.Sendable) (h : Completes (value, b) is) :
    ∃ x y, reconstruct value (is.map Instruction.delivered) b = .ok x ∧ reconstruct value cur b = .ok y ∧
      y.length ≤ x.length ∧ (y.length = x.length → cur = is.map Instruction.delivered) := by
  induction hleft with
  | nil => exact ⟨[], [], rfl, rfl, le_refl _, fun _ => rfl⟩
  | @cons i j is cur hij hrest ih =>
      obtain ⟨x, y, hx, hy, hle, heq⟩ := ih (fun i hi => his i (mem_cons_of_mem _ hi))
        fun r hr => h r (mem_cons_of_mem _ hr)
      have hok : ∃ v, reconstructed value b i.delivered = .ok v := by
        cases i with
        | reference ref => exact reconstructed_of_inRange (h ref mem_cons_self)
        | literal l => cases l <;> exact ⟨_, rfl⟩
      obtain ⟨v, hv⟩ := hok
      obtain ⟨w, hw, hwle, hweq⟩ := reconstructed_left (his i mem_cons_self) hij hv
      refine ⟨v ++ x, w ++ y, ?_, ?_, ?_, ?_⟩
      · rw [map_cons, reconstruct_cons, hv, hx]
        rfl
      · rw [reconstruct_cons, hw, hy]
        rfl
      · rw [length_append, length_append]
        omega
      · intro hlen
        rw [length_append, length_append] at hlen
        rw [map_cons, hweq (by omega), heq (by omega)]

theorem Left.reconstruct_eq_iff (hleft : Left is cur) (his : ∀ i ∈ is, i.Sendable) :
    reconstruct value cur b = reconstruct value (is.map Instruction.delivered) b ↔
      cur = is.map Instruction.delivered ∨ ¬ Completes (value, b) is := by
  have hall : Left is (is.map Instruction.delivered) := by
    rw [Left, List.forall₂_map_right_iff]
    exact List.forall₂_same.mpr fun i _ => .inl rfl
  by_cases h : Completes (value, b) is
  · obtain ⟨x, y, hx, hy, -, heq⟩ := hleft.reconstruct_ok his h
    rw [hx, hy]
    constructor
    · intro hsame
      exact .inl (heq (congrArg List.length (Except.ok.inj hsame)))
    · intro hsame
      rw [hsame.resolve_right (not_not_intro h), hx] at hy
      exact hy.symm
  · rw [hleft.reconstruct_error h, hall.reconstruct_error h]
    exact iff_of_true rfl (.inr h)

theorem Left.drained (hleft : Left is cur) : Left is (drained value b cur) := by
  induction hleft with
  | nil => exact List.Forall₂.nil
  | @cons i j is cur hij hrest ih =>
      rw [RSync.drained]
      split
      · exact List.Forall₂.cons hij hrest
      · refine List.Forall₂.cons (.inr ?_) ih
        -- what is at its end stays there
        rcases hij with rfl | rfl
        · rfl
        · cases i with
          | reference ref => rfl
          | literal l => cases l <;> rfl

/-- A call leaves everything exactly if it does not come as far as a literal. -/
theorem Left.drained_eq_iff (hleft : Left is cur) (his : ∀ i ∈ is, i.Sendable) :
    RSync.drained value b cur = is.map Instruction.delivered ↔
      cur = is.map Instruction.delivered ∧ ¬ ReachesLiteral (value, b) is := by
  induction hleft with
  | nil => exact iff_of_true rfl ⟨rfl, id⟩
  | @cons i j is cur hij hrest ih =>
      have ih := ih fun i hi => his i (mem_cons_of_mem _ hi)
      rw [RSync.drained, map_cons]
      cases i with
      | reference ref =>
          have hj : j = .reference ref := hij.elim id id
          subst hj
          by_cases hin : InRange (value, b) ref
          · obtain ⟨v, hv⟩ := reconstructed_of_inRange hin
            rw [hv]
            change Instruction.reference ref :: _ = .reference ref :: _ ↔ _
            rw [cons_eq_cons, cons_eq_cons, ih, ReachesLiteral]
            tauto
          · rw [reconstructed_of_not_inRange hin]
            exact (and_iff_left fun h => hin h.1).symm
      | literal l =>
          cases l with
          | dataBuffer bytes => exact (his _ mem_cons_self).elim
          | array bytes offset length =>
              obtain ⟨h0, hlength, hle, -⟩ := his _ mem_cons_self
              refine iff_of_false ?_ fun h => h.2 trivial
              have hempty : ([] : Bytes) ≠ (bytes.drop offset.toNat).take length.toNat := by
                intro hnil
                have hlen := congrArg List.length hnil
                rw [length_nil, length_take, length_drop] at hlen
                omega
              rcases hij with rfl | rfl
              all_goals
                intro h
                have hhead := (cons_eq_cons.mp h).1
                exact hempty (RArray.dataBuffer.inj (Instruction.literal.inj hhead))

theorem drained_of_sendable (his : ∀ i ∈ is, i.Sendable) : RSync.drained value b is = is := by
  induction is with
  | nil => rfl
  | cons i is ih =>
      rw [RSync.drained, ih fun i hi => his i (mem_cons_of_mem _ hi)]
      have hone : drainedOne i = i := by
        cases i with
        | reference ref => rfl
        | literal l =>
            cases l with
            | dataBuffer bytes => exact (his _ mem_cons_self).elim
            | array bytes offset length => rfl
      rw [hone]
      split <;> rfl

/-- Of the list that is written each call makes its value. -/
theorem reconstructEach_of_sendable (his : ∀ i ∈ is, i.Sendable) (calls : List (Bytes × Int)) :
    reconstructEach calls is = calls.map fun c => reconstruct c.1 is c.2 := by
  induction calls with
  | nil => rfl
  | cons c calls ih => rw [reconstructEach, drained_of_sendable his, ih, map_cons]

/-- Calls with what is left of the instructions give what they should, if nothing was read or
    none of them comes to its end, and none of them comes to its end after one that comes to a
    literal. -/
theorem reconstructEach_eq_iff (hleft : Left is cur) (his : ∀ i ∈ is, i.Sendable) (calls : List (Bytes × Int)) :
    reconstructEach calls cur = calls.map (fun c => reconstruct c.1 (is.map Instruction.delivered) c.2) ↔
      (cur = is.map Instruction.delivered ∨ ∀ c ∈ calls, ¬ Completes c is) ∧
        calls.Pairwise fun c d => ¬ (ReachesLiteral c is ∧ Completes d is) := by
  induction calls generalizing cur with
  | nil => exact iff_of_true rfl ⟨.inr fun c hc => absurd hc not_mem_nil, List.Pairwise.nil⟩
  | cons c calls ih =>
      rw [reconstructEach, map_cons, cons_eq_cons, hleft.reconstruct_eq_iff his, ih hleft.drained,
        hleft.drained_eq_iff his, pairwise_cons, forall_mem_cons]
      have hreach : (∀ d ∈ calls, ¬ (ReachesLiteral c is ∧ Completes d is)) ↔
          ¬ ReachesLiteral c is ∨ ∀ d ∈ calls, ¬ Completes d is := by
        by_cases h : ReachesLiteral c is <;> simp [h]
      rw [hreach]
      tauto

end Calls

end RSync

namespace SyncUtils

/-! ### Reading to the end -/

section Loop

variable {α : Type} {next : Bytes → Except JavaException (α × Bytes)}

-- There are at least as many passes as bytes, and each pass takes one or more of them.
theorem whileReadable_consumes (hnext : ∀ buf a rest, next buf = .ok (a, rest) → rest.length < buf.length)
    {fuel : Nat} {buf rest : Bytes} {result : List α} (h : whileReadable next fuel buf = .ok (result, rest))
    (hfuel : buf.length ≤ fuel) : rest = [] := by
  induction fuel generalizing buf result with
  | zero =>
      cases h
      exact eq_nil_of_length_eq_zero (by omega)
  | succ fuel ih =>
      rw [whileReadable] at h
      by_cases hempty : buf = []
      · rw [if_pos hempty] at h
        cases h
        exact hempty
      · rw [if_neg hempty] at h
        rcases except_bind_ok h with ⟨⟨a, buf'⟩, ha, h⟩
        rcases except_bind_ok h with ⟨⟨result', rest'⟩, hrest, h⟩
        cases h
        have hlt := hnext buf a buf' ha
        exact ih hrest (by omega)

end Loop

theorem readBytes_length {buf u v : Bytes} {n : Nat} (h : readBytes buf n = .ok (u, v)) :
    v.length + n = buf.length := by
  rw [readBytes] at h
  by_cases hshort : buf.length < n
  · rw [if_pos hshort] at h
    cases h
  · rw [if_neg hshort] at h
    cases h
    rw [length_drop]
    omega

theorem decodeInstruction_consumes (buf : Bytes) (i : Instruction) (rest : Bytes)
    (h : decodeInstruction buf = .ok (i, rest)) : rest.length < buf.length := by
  rcases except_bind_ok h with ⟨⟨field, buf'⟩, hfield, h⟩
  have hlen := readBytes_length hfield
  dsimp only at h
  by_cases hfirst : BitVec.ofNat 32 (ofBE field) &&& 0x80000000#32 ≠ 0
  · rw [if_pos hfirst] at h
    cases h
    omega
  · rw [if_neg hfirst] at h
    cases h
    rw [length_drop]
    omega

theorem decodeChecksum_consumes (buf : Bytes) (c : Checksum) (rest : Bytes)
    (h : decodeChecksum buf = .ok (c, rest)) : rest.length < buf.length := by
  rcases except_bind_ok h with ⟨⟨weak, buf₁⟩, hweak, h⟩
  rcases except_bind_ok h with ⟨⟨me, buf₂⟩, hme, h⟩
  cases h
  have hlen₁ := readBytes_length hweak
  have hlen₂ := readBytes_length hme
  omega

-- Both sides fail at the same pass, or make the same list.
theorem decodeInstructionsUpTo_eq (fuel : Nat) (buf : Bytes) :
    decodeInstructionsUpTo fuel buf = Prod.fst <$> whileReadable decodeInstruction fuel buf := by
  induction fuel generalizing buf with
  | zero => rfl
  | succ fuel ih =>
      rw [decodeInstructionsUpTo, whileReadable]
      by_cases hempty : buf = []
      · rw [if_pos hempty, if_pos hempty]
        rfl
      · rw [if_neg hempty, if_neg hempty, decodeInstruction]
        rcases hfield : readBytes buf 4 with e | ⟨field, buf'⟩
        · rfl
        · simp only [except_ok_bind]
          by_cases hfirst : BitVec.ofNat 32 (ofBE field) &&& 0x80000000#32 ≠ 0
          · rw [if_pos hfirst, if_pos hfirst, ih]
            simp only [pure, Except.pure, except_ok_bind]
            rcases whileReadable decodeInstruction fuel buf' with e | ⟨result, rest⟩ <;> rfl
          · rw [if_neg hfirst, if_neg hfirst, ih]
            simp only [pure, Except.pure, except_ok_bind]
            rcases whileReadable decodeInstruction fuel
              (buf'.drop (min (BitVec.ofNat 32 (ofBE field)).toNat buf'.length)) with e | ⟨result, rest⟩ <;> rfl

theorem decodeInstructions_eq (buf : Bytes) : decodeInstructions buf = Prod.fst <$> readInstructions buf :=
  decodeInstructionsUpTo_eq _ _

theorem decodeChecksumsUpTo_eq (fuel : Nat) (buf : Bytes) :
    decodeChecksumsUpTo fuel buf = Prod.fst <$> whileReadable decodeChecksum fuel buf := by
  induction fuel generalizing buf with
  | zero => rfl
  | succ fuel ih =>
      rw [decodeChecksumsUpTo, whileReadable]
      by_cases hempty : buf = []
      · rw [if_pos hempty, if_pos hempty]
        rfl
      · rw [if_neg hempty, if_neg hempty, decodeChecksum]
        rcases hweak : readBytes buf 4 with e | ⟨weak, buf₁⟩
        · rfl
        · rcases hme : readBytes buf₁ 16 with e | ⟨me, buf₂⟩
          · simp only [except_ok_bind, hme]
            rfl
          · simp only [except_ok_bind, hme, ih, pure, Except.pure]
            rcases whileReadable decodeChecksum fuel buf₂ with e | ⟨result, rest⟩ <;> rfl

theorem decodeChecksums_eq (buf : Bytes) : decodeChecksums buf = Prod.fst <$> readChecksums buf :=
  decodeChecksumsUpTo_eq _ _

/-- A decoder that succeeds has read the whole buffer. -/
theorem readInstructions_of_decode {buf : Bytes} {is : List Instruction} (h : decodeInstructions buf = .ok is) :
    readInstructions buf = .ok (is, []) := by
  rw [decodeInstructions_eq] at h
  rcases hread : readInstructions buf with e | ⟨result, rest⟩
  · rw [hread] at h
    cases h
  · rw [hread] at h
    cases h
    rw [whileReadable_consumes decodeInstruction_consumes hread (le_refl _)]

theorem readChecksums_of_decode {buf : Bytes} {cs : List Checksum} (h : decodeChecksums buf = .ok cs) :
    readChecksums buf = .ok (cs, []) := by
  rw [decodeChecksums_eq] at h
  rcases hread : readChecksums buf with e | ⟨result, rest⟩
  · rw [hread] at h
    cases h
  · rw [hread] at h
    cases h
    rw [whileReadable_consumes decodeChecksum_consumes hread (le_refl _)]

/-! ### Writing -/

-- The size grows by the bytes of the instruction.
theorem writeInstruction_ok {i : Instruction} {v : Bytes} (hi : i.Sendable) (hv : encodeInstruction i = .ok v)
    (n : Int) (buf : Bytes) : writeInstruction (int n, buf) i = .ok (int (n + v.length), buf ++ v) := by
  rw [writeInstruction, hv, except_ok_bind]
  cases i with
  | reference r =>
      have hlen : v.length = 4 := by
        rw [encodeInstruction, if_pos (show r ≠ -1 by have := hi.1; omega)] at hv
        cases hv
        exact length_toBE 4 _
      simp only [int_int_add, hlen]
      rfl
  | literal l =>
      cases l with
      | dataBuffer bytes => exact hi.elim
      | array bytes offset length =>
          rcases hi with ⟨h0, hlength, hle, _⟩
          have hlen : (v.length : Int) = 4 + length := by
            rw [encodeInstruction, transferTo_array h0 hlength.le hle] at hv
            cases hv
            rw [length_append, writeInt, length_toBE, length_take, length_drop]
            omega
          simp only [int_int_add, hlen, RArray.length, ← add_assoc]
          rfl

theorem foldlM_writeInstruction {is : List Instruction} (his : ∀ i ∈ is, i.Sendable) {vs : List Bytes}
    (hvs : is.mapM encodeInstruction = .ok vs) (n : Int) (buf : Bytes) :
    is.foldlM writeInstruction (int n, buf) = .ok (int (n + vs.flatten.length), buf ++ vs.flatten) := by
  induction is generalizing vs n buf with
  | nil =>
      cases hvs
      change Except.ok (int n, buf) = .ok (int (n + (0 : Nat)), buf ++ [])
      rw [Nat.cast_zero, add_zero, append_nil]
  | cons i is ih =>
      rw [mapM_cons] at hvs
      rcases except_bind_ok hvs with ⟨v, hv, hvs⟩
      rcases except_bind_ok hvs with ⟨ws, hws, hvs⟩
      cases hvs
      rw [foldlM_cons, writeInstruction_ok (his i mem_cons_self) hv, except_ok_bind,
        ih (fun j hj => his j (mem_cons_of_mem _ hj)) hws, flatten_cons, length_append,
        Nat.cast_add, add_assoc, append_assoc]

/-- The instructions are written behind the keys, and their size is the number of their
    bytes, modulo `2^32`. -/
theorem writeInstructions_ok {is : List Instruction} (his : ∀ i ∈ is, i.Sendable) {vs : List Bytes}
    (hvs : is.mapM encodeInstruction = .ok vs) (versionKey hash : Number160) :
    writeInstructions is versionKey hash [] =
      .ok (int vs.flatten.length, versionKey.encode ++ (hash.encode ++ vs.flatten)) := by
  have hzero : int 0 = 0 := rfl
  have hfold := foldlM_writeInstruction his hvs 0 ([] ++ versionKey.encode ++ hash.encode)
  rw [hzero, zero_add, nil_append, append_assoc] at hfold
  exact hfold

theorem decodeHeaders_encode (versionKey hash : Number160) (rest : Bytes) :
    decodeHeaders (versionKey.encode ++ (hash.encode ++ rest)) = .ok (versionKey, hash, rest) := by
  rw [decodeHeaders, decodeHeader_encode, except_ok_bind]
  dsimp only
  rw [decodeHeader_encode]
  rfl

/-- The instructions for a new value pass through a buffer: behind the two keys there are
    as many bytes as the size says, all of them are read, and the instructions that are
    read make the same value of every old value. Calls with one list make the same values
    exactly if none comes to its end after one that has come to a literal. Checksums are read
    back as they are. -/
theorem diff_format (versionKey hash : Number160) :
    (∀ (fuel : Nat) (array : Bytes) (cs : List Checksum) (blockSize : Int) (is : List Instruction),
      array.length < 2 ^ 31 → cs.length < 2 ^ 31 →
      RSync.instructions fuel array cs blockSize = some (.ok is) →
      ∃ size buf body result, writeInstructions is versionKey hash [] = .ok (size, buf) ∧
        decodeHeaders buf = .ok (versionKey, hash, body) ∧ (buf.length < 2 ^ 31 → size = body.length) ∧
        readInstructions body = .ok (result, []) ∧
        (∀ (old : Bytes) (b : Int), RSync.reconstruct old result b = RSync.reconstruct old is b) ∧
        ∀ calls : List (Bytes × Int), RSync.reconstructEach calls result = RSync.reconstructEach calls is ↔
          calls.Pairwise fun c d => ¬ (RSync.ReachesLiteral c is ∧ RSync.Completes d is)) ∧
    ∀ cs : List Checksum, (∀ c ∈ cs, c.strongChecksum.length = 16) →
      ∃ body, decodeHeaders (encodeChecksum cs versionKey hash) = .ok (versionKey, hash, body) ∧
        readChecksums body = .ok (cs, []) := by
  refine ⟨?_, ?_⟩
  · intro fuel array cs blockSize is harray hcs h
    have hsendable := RSync.instructions_sendable harray (by omega) h
    rcases decodeInstructions_encode hsendable with ⟨vs, hvs, hdecode⟩
    refine ⟨_, _, vs.flatten, is.map Instruction.delivered, writeInstructions_ok hsendable hvs versionKey hash,
      decodeHeaders_encode _ _ _, ?_, readInstructions_of_decode hdecode,
      fun old b => reconstruct_delivered old b hsendable, ?_⟩
    · intro hbuf
      rw [length_append, length_append] at hbuf
      exact int_eq (by omega) (by omega)
    · intro calls
      have hleft : RSync.Left is (is.map Instruction.delivered) := by
        rw [RSync.Left, List.forall₂_map_right_iff]
        exact List.forall₂_same.mpr fun i _ => .inl rfl
      have hiff := RSync.reconstructEach_eq_iff hleft hsendable calls
      simp only [reconstruct_delivered _ _ hsendable, true_or, true_and] at hiff
      rw [RSync.reconstructEach_of_sendable hsendable]
      exact hiff
  · intro cs hcs
    exact ⟨_, decodeHeaders_encode _ _ _, readChecksums_of_decode (decodeChecksums_encode hcs)⟩

/-- The checksums of 1 2 3 in blocks of two bytes. -/
def prependedSums : List Checksum := [⟨0x60004#32, md5 [1#8, 2#8]⟩, ⟨0x40004#32, md5 [3#8]⟩]

/-- The instructions for 7 8 1 2 3. -/
def prependedInstructions : List Instruction :=
  [.literal (.array [7#8, 8#8, 1#8, 2#8, 3#8] 0 2), .reference 0, .reference 1]

theorem instructions_prepended :
    RSync.instructions 6 [7#8, 8#8, 1#8, 2#8, 3#8] prependedSums 2 = some (.ok prependedInstructions) := by
  decide +kernel

/-- Two bytes in front of a value of which both blocks are known. -/
theorem diff_format_prepended : ∃ size buf body result,
    writeInstructions prependedInstructions 0 0 [] = .ok (size, buf) ∧
      decodeHeaders buf = .ok (0, 0, body) ∧ (buf.length < 2 ^ 31 → size = body.length) ∧
      readInstructions body = .ok (result, []) ∧
      (∀ (old : Bytes) (b : Int), RSync.reconstruct old result b = RSync.reconstruct old prependedInstructions b) ∧
      ∀ calls : List (Bytes × Int),
        RSync.reconstructEach calls result = RSync.reconstructEach calls prependedInstructions ↔
          calls.Pairwise fun c d =>
            ¬ (RSync.ReachesLiteral c prependedInstructions ∧ RSync.Completes d prependedInstructions) :=
  (diff_format 0 0).1 6 [7#8, 8#8, 1#8, 2#8, 3#8] prependedSums 2 _ (by decide) (by decide) instructions_prepended

/-- What arrived of them makes 7 8 1 2 3 of 1 2 3, and 1 2 3 the next time. -/
theorem reconstruct_twice : RSync.checksums [1#8, 2#8, 3#8] 2 = .ok prependedSums ∧
    RSync.instructions 6 [7#8, 8#8, 1#8, 2#8, 3#8] prependedSums 2 = some (.ok prependedInstructions) ∧
    ∃ size buf body result, writeInstructions prependedInstructions 0 0 [] = .ok (size, buf) ∧
      decodeHeaders buf = .ok (0, 0, body) ∧ readInstructions body = .ok (result, []) ∧
      RSync.reconstructEach [([1#8, 2#8, 3#8], 2), ([1#8, 2#8, 3#8], 2)] prependedInstructions =
        [.ok [7#8, 8#8, 1#8, 2#8, 3#8], .ok [7#8, 8#8, 1#8, 2#8, 3#8]] ∧
      RSync.reconstructEach [([1#8, 2#8, 3#8], 2), ([1#8, 2#8, 3#8], 2)] result =
        [.ok [7#8, 8#8, 1#8, 2#8, 3#8], .ok [1#8, 2#8, 3#8]] :=
  ⟨by decide +kernel, instructions_prepended, 14, List.replicate 40 0#8 ++ [0, 0, 0, 2, 7, 8, 0x80, 0, 0, 0, 0x80, 0, 0, 1],
    [0, 0, 0, 2, 7, 8, 0x80, 0, 0, 0, 0x80, 0, 0, 1],
    [.literal (.dataBuffer [7#8, 8#8]), .reference 0, .reference 1],
    by decide, by decide, by decide, by decide, by decide⟩

end SyncUtils

end TomP2P
