import TomP2P.Foundation.Reader
import TomP2P.Foundation.Effect

/-!
# Fields in Arrays

Writing to and reading from an array at an offset, as the counterpart of
writing to and reading from a buffer.

A buffer grows and is consumed from the front. An array has its length, and the
offset is passed along. `Stores` says that an array writer puts a byte string
where it is told to, and fails if there is no room; `ReadsAt` says that an array
reader finds at an offset what a reader finds in the bytes from there on. Both
are closed under sequencing, so that two codecs which agree field by field
agree.

## Main definitions

* `store`, `fetch`: Bytes written to and read from an array one by one.
* `splice`: An array with a part replaced.
* `Stores`: An array writer writes a byte string.
* `StoresAs`: An array writer does what an encoder does.
* `ReadsAt`: An array reader does what a buffer reader does.

## Theorems

* `Stores.append`, `StoresAs.combine`, `StoresAs.each`: Writing one after the other.
* `ReadsAt.bind`, `ReadsAt.each`: Reading one after the other.
-/

namespace Wire

variable {ε σ α β : Type}

/-! ### Writing -/

def setByte (e : ε) (b : Bytes) (i : Nat) (x : Byte) : Except ε Bytes :=
  if i < b.length then .ok (b.set i x) else .error e

/-- Writes the bytes one by one and returns the array and the offset behind them. -/
def store (e : ε) : Bytes → Bytes → Nat → Except ε (Bytes × Nat)
  | [], b, o => .ok (b, o)
  | x :: xs, b, o => do
      let b ← setByte e b o x
      store e xs b (o + 1)

/-- The array with `v` in the place of what was at the offset. -/
def splice (b : Bytes) (o : Nat) (v : Bytes) : Bytes := b.take o ++ (v ++ b.drop (o + v.length))

theorem splice_nil (b : Bytes) (o : Nat) : splice b o [] = b := by
  rw [splice, List.nil_append, List.length_nil, Nat.add_zero, List.take_append_drop]

theorem length_splice (b : Bytes) (o : Nat) (v : Bytes) (h : o + v.length ≤ b.length) :
    (splice b o v).length = b.length := by
  simp only [splice, List.length_append, List.length_take, List.length_drop]
  omega

theorem splice_splice (b : Bytes) (o : Nat) (v w : Bytes) (h : o + v.length ≤ b.length) :
    splice (splice b o v) (o + v.length) w = splice b o (v ++ w) := by
  have hfront : (b.take o ++ v).length = o + v.length := by
    rw [List.length_append, List.length_take]
    omega
  have htake : (splice b o v).take (o + v.length) = b.take o ++ v := by
    rw [splice, ← List.append_assoc, List.take_left' hfront]
  have hdrop : (splice b o v).drop (o + v.length + w.length) = b.drop (o + (v ++ w).length) := by
    rw [← List.drop_drop, splice, ← List.append_assoc, List.drop_left' hfront, List.drop_drop,
      List.length_append, Nat.add_assoc]
  rw [splice, htake, hdrop, splice, List.append_assoc, List.append_assoc]

/-- The writer puts `v` at the offset and goes on behind it, or fails if there is
    no room. -/
structure Stores (w : Bytes → Nat → Except ε (Bytes × Nat)) (v : Bytes) : Prop where
  fits : ∀ b o, o + v.length ≤ b.length → w b o = .ok (splice b o v, o + v.length)
  short : ∀ b o, o ≤ b.length → b.length < o + v.length → ∃ e, w b o = .error e

theorem Stores.nil : Stores (fun b o => (.ok (b, o) : Except ε (Bytes × Nat))) [] := by
  refine ⟨?_, ?_⟩
  · intro b o _
    rw [splice_nil]
    rfl
  · intro b o ho hshort
    rw [List.length_nil] at hshort
    omega

theorem Stores.append {w w' : Bytes → Nat → Except ε (Bytes × Nat)} {v v' : Bytes} (hw : Stores w v)
    (hw' : Stores w' v') :
    Stores (fun b o => do
      let (b, o) ← w b o
      w' b o) (v ++ v') := by
  refine ⟨?_, ?_⟩
  · intro b o hfits
    rw [List.length_append] at hfits ⊢
    have hfirst := hw.fits b o (by omega)
    have hlen := length_splice b o v (by omega)
    have hrest := hw'.fits (splice b o v) (o + v.length) (by omega)
    simp only [hfirst, Effect.except_ok_bind, hrest]
    rw [splice_splice b o v v' (by omega), Nat.add_assoc]
  · intro b o ho hshort
    rw [List.length_append] at hshort
    by_cases hroom : b.length < o + v.length
    · obtain ⟨e, he⟩ := hw.short b o ho hroom
      exact ⟨e, by simp only [he, Effect.except_error_bind]⟩
    · have hfirst := hw.fits b o (by omega)
      have hlen := length_splice b o v (by omega)
      obtain ⟨e, he⟩ := hw'.short (splice b o v) (o + v.length) (by omega) (by omega)
      exact ⟨e, by simp only [hfirst, Effect.except_ok_bind, he]⟩

theorem stores_store (e : ε) (v : Bytes) : Stores (store e v) v := by
  induction v with
  | nil => exact Stores.nil
  | cons x xs ih =>
      have hbyte : Stores (fun b o => do
          let b ← setByte e b o x
          return (b, o + 1)) [x] := by
        refine ⟨?_, ?_⟩
        · intro b o hfits
          rw [List.length_singleton] at hfits
          have hset : b.set o x = splice b o [x] := by
            rw [splice, List.set_eq_take_append_cons_drop, if_pos (by omega)]
            rfl
          simp only [setByte, if_pos (show o < b.length by omega), Effect.except_ok_bind, hset]
          rfl
        · intro b o _ hshort
          rw [List.length_singleton] at hshort
          exact ⟨e, by simp only [setByte, if_neg (show ¬ o < b.length by omega), Effect.except_error_bind]⟩
      have hall := hbyte.append ih
      have heq : (fun b o => do
          let (b, o) ← (do
            let b ← setByte e b o x
            return (b, o + 1))
          store e xs b o) = store e (x :: xs) := by
        funext b o
        rw [store]
        cases setByte e b o x <;> rfl
      rwa [heq] at hall

/-- One after the other, with the first failure of the two. -/
def combine (x y : Except ε Bytes) : Except ε Bytes := do
  let v ← x
  let w ← y
  return v ++ w

/-- The array writer does what an encoder to a buffer does: it writes the same
    bytes, or fails where the encoder fails. -/
def StoresAs (w : Bytes → Nat → Except ε (Bytes × Nat)) : Except ε Bytes → Prop
  | .ok v => Stores w v
  | .error _ => ∀ b o, o ≤ b.length → ∃ e, w b o = .error e

theorem StoresAs.combine {w w' : Bytes → Nat → Except ε (Bytes × Nat)} {x y : Except ε Bytes}
    (hw : StoresAs w x) (hw' : StoresAs w' y) :
    StoresAs (fun b o => do
      let (b, o) ← w b o
      w' b o) (combine x y) := by
  cases x with
  | error e =>
      intro b o ho
      obtain ⟨e', he⟩ := hw b o ho
      exact ⟨e', by simp only [he, Effect.except_error_bind]⟩
  | ok v =>
      cases y with
      | ok v' => exact Stores.append hw hw'
      | error e =>
          intro b o ho
          by_cases hroom : b.length < o + v.length
          · obtain ⟨e', he⟩ := hw.short b o ho hroom
            exact ⟨e', by simp only [he, Effect.except_error_bind]⟩
          · have hfirst := hw.fits b o (by omega)
            have hlen := length_splice b o v (by omega)
            obtain ⟨e', he⟩ := hw' (splice b o v) (o + v.length) (by omega)
            exact ⟨e', by simp only [hfirst, Effect.except_ok_bind, he]⟩

/-- Writes the elements of a list one after the other. -/
def storeEach (w : α → Bytes → Nat → Except ε (Bytes × Nat)) :
    List α → Bytes → Nat → Except ε (Bytes × Nat)
  | [], b, o => .ok (b, o)
  | a :: as, b, o => do
      let (b, o) ← w a b o
      storeEach w as b o

theorem StoresAs.each {w : α → Bytes → Nat → Except ε (Bytes × Nat)} {enc : α → Except ε Bytes}
    (h : ∀ a, StoresAs (w a) (enc a)) (as : List α) : StoresAs (storeEach w as) (encodeAll enc as) := by
  induction as with
  | nil => exact Stores.nil
  | cons a as ih =>
      have hcons := (h a).combine ih
      have hx : Wire.combine (enc a) (encodeAll enc as) = encodeAll enc (a :: as) := by
        rw [encodeAll]
        cases enc a with
        | error e => rfl
        | ok v => cases encodeAll enc as <;> rfl
      rwa [hx] at hcons

/-! ### Reading -/

def byteAt (e : ε) (b : Bytes) (i : Nat) : Except ε Byte :=
  match b[i]? with
  | some x => .ok x
  | none => .error e

/-- Reads bytes one by one. -/
def fetch (e : ε) : Nat → Bytes → Nat → Except ε Bytes
  | 0, _, _ => .ok []
  | n + 1, b, o => do
      let x ← byteAt e b o
      let xs ← fetch e n b (o + 1)
      return x :: xs

theorem fetch_eq (e : ε) (n : Nat) (b : Bytes) (o : Nat) (ho : o ≤ b.length) :
    fetch e n b o = if (b.drop o).length < n then .error e else .ok ((b.drop o).take n) := by
  induction n generalizing o with
  | zero => rfl
  | succ n ih =>
      unfold fetch byteAt
      by_cases hend : o < b.length
      · have hcons : b.drop o = b[o] :: b.drop (o + 1) := List.drop_eq_getElem_cons hend
        rw [List.getElem?_eq_getElem hend]
        simp only [Effect.except_ok_bind, ih (o + 1) hend]
        rw [hcons, List.length_cons]
        by_cases hshort : (b.drop (o + 1)).length < n
        · rw [if_pos hshort, if_pos (by omega), Effect.except_error_bind]
        · rw [if_neg hshort, if_neg (by omega), Effect.except_ok_bind]
          rfl
      · have hnil : b.drop o = [] := List.drop_eq_nil_of_le (by omega)
        have hpos : ([] : Bytes).length < n + 1 := Nat.succ_pos n
        rw [List.getElem?_eq_none (by omega), hnil, if_pos hpos, Effect.except_error_bind]

open Reader

/-- The array reader finds at an offset what the reader finds in the bytes from
    there on, and fails where it fails. -/
def ReadsAt (g : Bytes → Nat → Except ε (α × Nat)) (p : Reader ε σ α) : Prop :=
  ∀ s b o, o ≤ b.length →
    (∃ a o', p.run s (b.drop o) = .done a s (b.drop o') ∧ g b o = .ok (a, o') ∧ o ≤ o' ∧
      o' ≤ b.length) ∨
    ∃ e e' s' r, p.run s (b.drop o) = .fail e s' r ∧ g b o = .error e'

theorem ReadsAt.pure (a : α) :
    ReadsAt (fun _ o => .ok (a, o)) (Pure.pure a : Reader ε σ α) :=
  fun _ _ o ho => .inl ⟨a, o, rfl, rfl, Nat.le_refl o, ho⟩

theorem ReadsAt.bind {g : Bytes → Nat → Except ε (α × Nat)} {p : Reader ε σ α}
    {h : α → Bytes → Nat → Except ε (β × Nat)} {k : α → Reader ε σ β} (hg : ReadsAt g p)
    (hk : ∀ a, ReadsAt (h a) (k a)) :
    ReadsAt (fun b o => do
      let (a, o) ← g b o
      h a b o) (p >>= k) := by
  intro s b o ho
  rcases hg s b o ho with ⟨a, o₁, hrun, hval, hle, hlen⟩ | ⟨e, e', s', r, hrun, hval⟩
  · rcases hk a s b o₁ hlen with ⟨c, o₂, hrun', hval', hle', hlen'⟩ | ⟨e, e', s', r, hrun', hval'⟩
    · refine .inl ⟨c, o₂, ?_, ?_, by omega, hlen'⟩
      · rw [run_bind, hrun, Outcome.andThen_done, hrun']
      · simp only [hval, Effect.except_ok_bind, hval']
    · refine .inr ⟨e, e', s', r, ?_, ?_⟩
      · rw [run_bind, hrun, Outcome.andThen_done, hrun']
      · simp only [hval, Effect.except_ok_bind, hval']
  · refine .inr ⟨e, e', s', r, ?_, ?_⟩
    · rw [run_bind, hrun, Outcome.andThen_fail]
    · simp only [hval, Effect.except_error_bind]

/-- The last step only turns the value into another one. -/
theorem ReadsAt.map {g : Bytes → Nat → Except ε (α × Nat)} {p : Reader ε σ α} (f : α → β)
    (hg : ReadsAt g p) :
    ReadsAt (fun b o => do
      let (a, o) ← g b o
      return (f a, o)) (f <$> p) :=
  hg.bind fun a => ReadsAt.pure (f a)

/-- Reads a value for each element of a list. -/
def fetchEach (g : β → Bytes → Nat → Except ε (α × Nat)) :
    List β → Bytes → Nat → Except ε (List α × Nat)
  | [], _, o => .ok ([], o)
  | x :: xs, b, o => do
      let (a, o) ← g x b o
      let (as, o) ← fetchEach g xs b o
      return (a :: as, o)

theorem ReadsAt.each {g : β → Bytes → Nat → Except ε (α × Nat)} {p : β → Reader ε σ α}
    (h : ∀ x, ReadsAt (g x) (p x)) (xs : List β) : ReadsAt (fetchEach g xs) (Reader.each p xs) := by
  induction xs with
  | nil => exact ReadsAt.pure []
  | cons x xs ih =>
      exact (h x).bind fun a => ih.bind fun as => ReadsAt.pure (a :: as)

/-- A field of `n` bytes is read by its value. -/
theorem readsAt_field (e e' : ε) (n w : Nat) {g : Bytes → Nat → Except ε (BitVec w × Nat)}
    (hg : ∀ b o, g b o = do
      let v ← fetch e' n b o
      return (BitVec.ofNat w (ofBE v), o + n)) : ReadsAt g (field e n w : Reader ε σ (BitVec w)) := by
  intro s b o ho
  unfold field
  rw [hg, fetch_eq e' n b o ho]
  by_cases hshort : (b.drop o).length < n
  · refine .inr ⟨e, e', s, b.drop o, ?_, ?_⟩
    · rw [run_bind, run_read, if_pos hshort, Outcome.andThen_fail]
    · rw [if_pos hshort, Effect.except_error_bind]
  · refine .inl ⟨BitVec.ofNat w (ofBE ((b.drop o).take n)), o + n, ?_, ?_, by omega, ?_⟩
    · rw [run_bind, run_read, if_neg hshort, Outcome.andThen_done, run_pure, List.drop_drop]
    · rw [if_neg hshort, Effect.except_ok_bind]
      rfl
    · rw [List.length_drop] at hshort
      omega

end Wire
