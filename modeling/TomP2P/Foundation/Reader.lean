import TomP2P.Foundation.Bytes

/-!
# Resumable Readers

Programs that take bytes from the front of a buffer, and that may run out of
them. A reader keeps a state of its own. When the bytes do not suffice it
waits: it leaves the state and the bytes it has not consumed, and is run again
from the top when more bytes have arrived. Nothing but the state tells it how
far it came.

A reader never puts bytes back: `Reader.suffix` is a field, so what a run
leaves unread is a suffix of what it was given.

Whether a reader survives being cut is the law `Reads`. It says what the reader
makes of a byte string `v`, and that on every proper prefix of `v` it waits in
a state from which the missing bytes lead to the same end as if the prefix had
never been delivered on its own. The law is proved piece by piece: `Reads.step`
splits `v` where the reader records its progress, and `Idle` covers the pieces
a reader waits for without consuming anything. States may be excluded from the
law by a predicate `clean`.

## Main definitions

* `Outcome`, `Reader`: What a run ends with, and programs with their runs.
* `Reader.need`, `Reader.look`, `Reader.read`, `Reader.field`,
  `Reader.lookField`: Waiting for bytes, looking ahead, consuming, and both
  with numbers.
* `Gives`: Whatever a reader gives meets a condition.
* `Keeps`: A condition on the state survives every run.
* `Parses`: A byte string is read to a value, whatever follows it.
* `encodeAll`: Encodings one after the other.
* `Starves`, `Reads`: The reader can be cut anywhere inside a byte string.
* `Idle`: Waiting without consuming.
* `feed`: Running a reader on bytes that arrive in pieces.
* `Looks`: Finding a value in the bytes ahead.
* `Strict`: Taking what is needed at once.

## Theorems

* `Parses.bind`, `Parses.each`: Values are read one after the other.
* `Starves.step`, `Reads.step`: Cutting a byte string at a recorded point.
* `Reads.feed`: What can be cut anywhere can arrive in any pieces.
* `Looks.bind`, `Looks.idle`: Waiting in front of the first consumed byte.
* `Strict.fails`: A part of what is needed is not enough.
-/

namespace Wire

/-- How a run of a reader ends: with a value, waiting for more bytes, or with
    an error. Each leaves a state and the bytes not consumed. -/
inductive Outcome (ε σ α : Type)
  | done (a : α) (s : σ) (rest : Bytes)
  | wait (s : σ) (rest : Bytes)
  | fail (e : ε) (s : σ) (rest : Bytes)
  deriving DecidableEq

namespace Outcome

variable {ε σ α β : Type}

/-- The bytes not consumed. -/
def rest : Outcome ε σ α → Bytes
  | .done _ _ r => r
  | .wait _ r => r
  | .fail _ _ r => r

/-- The state that is left. -/
def state : Outcome ε σ α → σ
  | .done _ s _ => s
  | .wait s _ => s
  | .fail _ s _ => s

/-- Whether more bytes are asked for. -/
def isWait : Outcome ε σ α → Bool
  | .wait _ _ => true
  | _ => false

/-- Goes on from a value; waiting and errors are passed through. -/
def andThen (o : Outcome ε σ α) (k : α → σ → Bytes → Outcome ε σ β) : Outcome ε σ β :=
  match o with
  | .done a s r => k a s r
  | .wait s r => .wait s r
  | .fail e s r => .fail e s r

/-- The same outcome with the state seen as part of another. -/
def onState {τ : Type} (g : σ → τ) : Outcome ε σ α → Outcome ε τ α
  | .done a s r => .done a (g s) r
  | .wait s r => .wait (g s) r
  | .fail e s r => .fail e (g s) r

@[simp] theorem andThen_done (a : α) (s : σ) (r : Bytes) (k : α → σ → Bytes → Outcome ε σ β) :
    (done a s r).andThen k = k a s r := rfl

@[simp] theorem andThen_wait (s : σ) (r : Bytes) (k : α → σ → Bytes → Outcome ε σ β) :
    (wait s r).andThen k = wait s r := rfl

@[simp] theorem andThen_fail (e : ε) (s : σ) (r : Bytes) (k : α → σ → Bytes → Outcome ε σ β) :
    (fail e s r).andThen k = fail e s r := rfl

end Outcome

/-- A program that consumes bytes from the front of a buffer. -/
structure Reader (ε σ α : Type) where
  run : σ → Bytes → Outcome ε σ α
  /-- Bytes are consumed, never put back. -/
  suffix : ∀ s b, (run s b).rest <:+ b

namespace Reader

variable {ε σ τ α β : Type}

/-- Runs the second reader on what the first one leaves. -/
def andThen (p : Reader ε σ α) (k : α → Reader ε σ β) : Reader ε σ β where
  run s b := (p.run s b).andThen fun a => (k a).run
  suffix s b := by
    have hp := p.suffix s b
    cases h : p.run s b with
    | done a s' r =>
        rw [h] at hp
        exact ((k a).suffix s' r).trans hp
    | wait s' r | fail e s' r => rwa [h] at hp

instance : Monad (Reader ε σ) where
  pure a := ⟨fun s b => .done a s b, fun _ b => List.suffix_refl b⟩
  bind := andThen

/-- The state the reader keeps. -/
def state : Reader ε σ σ := ⟨fun s b => .done s s b, fun _ b => List.suffix_refl b⟩

def modify (f : σ → σ) : Reader ε σ Unit := ⟨fun s b => .done () (f s) b, fun _ b => List.suffix_refl b⟩

def throw (e : ε) : Reader ε σ α := ⟨fun s b => .fail e s b, fun _ b => List.suffix_refl b⟩

def wait : Reader ε σ α := ⟨fun s b => .wait s b, fun _ b => List.suffix_refl b⟩

/-- All bytes that can be read, which stay where they are. -/
def buffer : Reader ε σ Bytes := ⟨fun s b => .done b s b, fun _ b => List.suffix_refl b⟩

/-- Waits until `n` bytes can be read. -/
def need (n : Nat) : Reader ε σ Unit where
  run s b := if b.length < n then .wait s b else .done () s b
  suffix s b := by
    by_cases h : b.length < n
    · rw [if_pos h]
      exact List.suffix_refl b
    · rw [if_neg h]
      exact List.suffix_refl b

/-- The `n` bytes at offset `i`, which stay where they are. Waits for them. -/
def look (i n : Nat) : Reader ε σ Bytes where
  run s b := if b.length < i + n then .wait s b else .done ((b.drop i).take n) s b
  suffix s b := by
    by_cases h : b.length < i + n
    · rw [if_pos h]
      exact List.suffix_refl b
    · rw [if_neg h]
      exact List.suffix_refl b

/-- Consumes `n` bytes, or fails if there are not so many. -/
def read (e : ε) (n : Nat) : Reader ε σ Bytes where
  run s b := if b.length < n then .fail e s b else .done (b.take n) s (b.drop n)
  suffix s b := by
    by_cases h : b.length < n
    · rw [if_pos h]
      exact List.suffix_refl b
    · rw [if_neg h]
      exact List.drop_suffix n b

/-- A big-endian field of `n` bytes, as a number of `w` bits. -/
def field (e : ε) (n w : Nat) : Reader ε σ (BitVec w) := do
  let v ← read e n
  return BitVec.ofNat w (ofBE v)

/-- A big-endian field of `n` bytes at offset `i`, which stays where it is. -/
def lookField (i n w : Nat) : Reader ε σ (BitVec w) := do
  let v ← look i n
  return BitVec.ofNat w (ofBE v)

/-- The result of a computation that reads nothing. -/
def lift : Except ε α → Reader ε σ α
  | .ok a => pure a
  | .error e => throw e

/-- What is consumed by a run that then waits is given back, the state is kept. -/
def rewind (p : Reader ε σ α) : Reader ε σ α where
  run s b :=
    match p.run s b with
    | .done a s' r => .done a s' r
    | .wait s' _ => .wait s' b
    | .fail e s' r => .fail e s' r
  suffix s b := by
    have hp := p.suffix s b
    cases h : p.run s b with
    | done a s' r | fail e s' r => rwa [h] at hp
    | wait s' r => exact List.suffix_refl b

/-- Runs a reader on a part of the state. -/
def zoom (get : τ → σ) (set : σ → τ → τ) (p : Reader ε σ α) : Reader ε τ α where
  run t b :=
    match p.run (get t) b with
    | .done a s r => .done a (set s t) r
    | .wait s r => .wait (set s t) r
    | .fail e s r => .fail e (set s t) r
  suffix t b := by
    have hp := p.suffix (get t) b
    cases h : p.run (get t) b with
    | done a s' r | wait s' r | fail e s' r => rwa [h] at hp

/-- Runs a reader for each element of a list and collects the values. -/
def each (p : β → Reader ε σ α) : List β → Reader ε σ (List α)
  | [] => pure []
  | x :: xs => do
      let a ← p x
      let as ← each p xs
      return a :: as

/-- Runs a reader for its effect a number of times. -/
def repeat_ (p : Reader ε σ Unit) : Nat → Reader ε σ Unit
  | 0 => pure ()
  | n + 1 => do
      p
      repeat_ p n

@[simp] theorem run_pure (a : α) (s : σ) (b : Bytes) :
    (pure a : Reader ε σ α).run s b = .done a s b := rfl

@[simp] theorem run_bind (p : Reader ε σ α) (k : α → Reader ε σ β) (s : σ) (b : Bytes) :
    (p >>= k).run s b = (p.run s b).andThen fun a => (k a).run := rfl

@[simp] theorem run_map (f : α → β) (p : Reader ε σ α) (s : σ) (b : Bytes) :
    (f <$> p).run s b = (p.run s b).andThen fun a s r => .done (f a) s r := rfl

@[simp] theorem run_state (s : σ) (b : Bytes) : (state : Reader ε σ σ).run s b = .done s s b := rfl

@[simp] theorem run_buffer (s : σ) (b : Bytes) : (buffer : Reader ε σ Bytes).run s b = .done b s b := rfl

@[simp] theorem run_modify (f : σ → σ) (s : σ) (b : Bytes) :
    (modify f : Reader ε σ Unit).run s b = .done () (f s) b := rfl

@[simp] theorem run_wait (s : σ) (b : Bytes) : (wait : Reader ε σ α).run s b = .wait s b := rfl

@[simp] theorem run_lift_ok (a : α) (s : σ) (b : Bytes) :
    (lift (.ok a) : Reader ε σ α).run s b = .done a s b := rfl

@[simp] theorem run_lift_error (e : ε) (s : σ) (b : Bytes) :
    (lift (.error e) : Reader ε σ α).run s b = .fail e s b := rfl

theorem run_need (n : Nat) (s : σ) (b : Bytes) :
    (need n : Reader ε σ Unit).run s b = if b.length < n then .wait s b else .done () s b := rfl

theorem run_look (i n : Nat) (s : σ) (b : Bytes) :
    (look i n : Reader ε σ Bytes).run s b =
      if b.length < i + n then .wait s b else .done ((b.drop i).take n) s b := rfl

theorem run_read (e : ε) (n : Nat) (s : σ) (b : Bytes) :
    (read e n : Reader ε σ Bytes).run s b =
      if b.length < n then .fail e s b else .done (b.take n) s (b.drop n) := rfl

theorem run_need_of_le (n : Nat) (s : σ) (b : Bytes) (h : n ≤ b.length) :
    (need n : Reader ε σ Unit).run s b = .done () s b :=
  if_neg (Nat.not_lt.mpr h)

theorem run_need_of_lt (n : Nat) (s : σ) (b : Bytes) (h : b.length < n) :
    (need n : Reader ε σ Unit).run s b = .wait s b :=
  if_pos h

theorem run_read_append (e : ε) (v r : Bytes) (s : σ) :
    (read e v.length : Reader ε σ Bytes).run s (v ++ r) = .done v s r := by
  have hlen : ¬ (v ++ r).length < v.length := by
    simp only [List.length_append]
    omega
  rw [run_read, if_neg hlen, List.take_left' rfl, List.drop_left' rfl]

theorem run_zoom (get : τ → σ) (set : σ → τ → τ) (p : Reader ε σ α) (t : τ) (b : Bytes) :
    (zoom get set p).run t b = (p.run (get t) b).onState fun s => set s t := by
  change (match p.run (get t) b with | .done a s r => _ | .wait s r => _ | .fail e s r => _) = _
  cases p.run (get t) b <;> rfl

/-- A run that ends well has passed through its first part. -/
theorem run_bind_done {p : Reader ε σ α} {k : α → Reader ε σ β} {s s' : σ} {b r : Bytes} {c : β}
    (h : (p >>= k).run s b = .done c s' r) :
    ∃ a s₁ r₁, p.run s b = .done a s₁ r₁ ∧ (k a).run s₁ r₁ = .done c s' r := by
  rw [run_bind] at h
  cases hp : p.run s b with
  | done a s₁ r₁ =>
      rw [hp] at h
      exact ⟨a, s₁, r₁, rfl, h⟩
  | wait s₁ r₁ | fail e s₁ r₁ =>
      rw [hp] at h
      cases h

end Reader

open Reader

/-! ### What a reader can give -/

section Gives

variable {ε σ α β : Type}

/-- Whatever the reader gives meets `P`. -/
def Gives (p : Reader ε σ α) (P : α → Prop) : Prop :=
  ∀ s b a s' r, p.run s b = .done a s' r → P a

theorem Gives.pure {P : α → Prop} {a : α} (h : P a) : Gives (Pure.pure a : Reader ε σ α) P := by
  intro s b a' s' r hrun
  cases hrun
  exact h

theorem Gives.bind {p : Reader ε σ α} {k : α → Reader ε σ β} {P : α → Prop} {Q : β → Prop}
    (hp : Gives p P) (hk : ∀ a, P a → Gives (k a) Q) : Gives (p >>= k) Q := by
  intro s b c s' r hrun
  obtain ⟨a, s₁, r₁, hfirst, hrest⟩ := run_bind_done hrun
  exact hk a (hp s b a s₁ r₁ hfirst) s₁ r₁ c s' r hrest

/-- What is given does not depend on the first part. -/
theorem Gives.skip {p : Reader ε σ α} {k : α → Reader ε σ β} {Q : β → Prop}
    (hk : ∀ a, Gives (k a) Q) : Gives (p >>= k) Q :=
  Gives.bind (P := fun _ => True) (fun _ _ _ _ _ _ => trivial) fun a _ => hk a

theorem Gives.map {p : Reader ε σ α} {f : α → β} {Q : β → Prop} (h : ∀ a, Q (f a)) :
    Gives (f <$> p) Q := by
  intro s b c s' r hrun
  rw [run_map] at hrun
  cases hp : p.run s b with
  | done a s₁ r₁ =>
      rw [hp] at hrun
      cases hrun
      exact h a
  | wait s₁ r₁ | fail e s₁ r₁ =>
      rw [hp] at hrun
      cases hrun

/-- What each element gives, the list gives. -/
theorem Gives.each {p : β → Reader ε σ α} (f : α → β) (h : ∀ x, Gives (p x) fun a => f a = x)
    (xs : List β) : Gives (Reader.each p xs) fun as => as.map f = xs := by
  induction xs with
  | nil => exact Gives.pure rfl
  | cons x xs ih =>
      refine (h x).bind fun a ha => ih.bind fun as has => Gives.pure ?_
      rw [List.map_cons, ha, has]

end Gives

/-! ### What a reader leaves of its state -/

section Keeps

variable {ε σ α β : Type} {I : σ → Prop}

/-- A condition on the state holds after a run if it held before, however the
    run ends. -/
def Keeps (I : σ → Prop) (p : Reader ε σ α) : Prop := ∀ s b, I s → I (p.run s b).state

theorem Keeps.bind {p : Reader ε σ α} {k : α → Reader ε σ β} (hp : Keeps I p)
    (hk : ∀ a, Keeps I (k a)) : Keeps I (p >>= k) := by
  intro s b hs
  have hfirst := hp s b hs
  rw [run_bind]
  cases hrun : p.run s b with
  | done a s' r =>
      rw [hrun] at hfirst
      exact hk a s' r hfirst
  | wait s' r | fail e s' r => rwa [hrun] at hfirst

theorem Keeps.pure (a : α) : Keeps I (Pure.pure a : Reader ε σ α) := fun _ _ hs => hs

theorem Keeps.state : Keeps I (Reader.state : Reader ε σ σ) := fun _ _ hs => hs

theorem Keeps.buffer : Keeps I (Reader.buffer : Reader ε σ Bytes) := fun _ _ hs => hs

theorem Keeps.throw (e : ε) : Keeps I (Reader.throw e : Reader ε σ α) := fun _ _ hs => hs

theorem Keeps.wait : Keeps I (Reader.wait : Reader ε σ α) := fun _ _ hs => hs

theorem Keeps.modify {g : σ → σ} (h : ∀ s, I s → I (g s)) :
    Keeps I (Reader.modify g : Reader ε σ Unit) := fun s _ hs => h s hs

theorem Keeps.need (n : Nat) : Keeps I (Reader.need n : Reader ε σ Unit) := by
  intro s b hs
  rw [run_need]
  split <;> exact hs

theorem Keeps.read (e : ε) (n : Nat) : Keeps I (Reader.read e n : Reader ε σ Bytes) := by
  intro s b hs
  rw [run_read]
  split <;> exact hs

theorem Keeps.look (i n : Nat) : Keeps I (Reader.look i n : Reader ε σ Bytes) := by
  intro s b hs
  rw [run_look]
  split <;> exact hs

theorem Keeps.field (e : ε) (n w : Nat) : Keeps I (Reader.field e n w : Reader ε σ (BitVec w)) :=
  (Keeps.read e n).bind fun _ => Keeps.pure _

theorem Keeps.lookField (i n w : Nat) : Keeps I (Reader.lookField i n w : Reader ε σ (BitVec w)) :=
  (Keeps.look i n).bind fun _ => Keeps.pure _

theorem Keeps.lift (x : Except ε α) : Keeps I (Reader.lift x : Reader ε σ α) := by
  cases x with
  | ok a => exact Keeps.pure a
  | error e => exact Keeps.throw e

theorem Keeps.each {p : β → Reader ε σ α} (h : ∀ x, Keeps I (p x)) (xs : List β) :
    Keeps I (Reader.each p xs) := by
  induction xs with
  | nil => exact Keeps.pure []
  | cons x xs ih => exact (h x).bind fun _ => ih.bind fun _ => Keeps.pure _

end Keeps

/-! ### Reading a byte string whatever follows it -/

section Parses

variable {ε σ α β : Type}

/-- The reader turns `v` into `a` and leaves its state and what follows alone. -/
def Parses (p : Reader ε σ α) (v : Bytes) (a : α) : Prop :=
  ∀ s rest, p.run s (v ++ rest) = .done a s rest

theorem Parses.pure (a : α) : Parses (Pure.pure a : Reader ε σ α) [] a := by
  intro s rest
  rfl

theorem Parses.bind {p : Reader ε σ α} {k : α → Reader ε σ β} {v w : Bytes} {a : α} {b : β}
    (hp : Parses p v a) (hk : Parses (k a) w b) : Parses (p >>= k) (v ++ w) b := by
  intro s rest
  rw [run_bind, List.append_assoc, hp, Outcome.andThen_done, hk]

/-- A last step that only turns the value read into another one. -/
theorem Parses.ret {p : Reader ε σ α} {v : Bytes} {a : α} (f : α → β)
    (hp : Parses p v a) : Parses (p >>= fun a => Pure.pure (f a)) v (f a) := by
  intro s rest
  rw [run_bind, hp, Outcome.andThen_done, run_pure]

theorem Parses.read (e : ε) (v : Bytes) : Parses (Reader.read e v.length : Reader ε σ Bytes) v v := by
  intro s rest
  exact run_read_append e v rest s

/-- A number that fits its field is read back. -/
theorem Parses.field (e : ε) {n w : Nat} (x : BitVec w) (h : x.toNat < 256 ^ n) :
    Parses (Reader.field e n w : Reader ε σ (BitVec w)) (toBE n x.toNat) x := by
  have hread : Parses (Reader.read e n : Reader ε σ Bytes) (toBE n x.toNat) (toBE n x.toNat) := by
    have hv := Parses.read (ε := ε) (σ := σ) e (toBE n x.toNat)
    rwa [length_toBE] at hv
  have hx : BitVec.ofNat w (ofBE (toBE n x.toNat)) = x := by
    rw [ofBE_toBE_of_lt n x.toNat h, BitVec.ofNat_toNat, BitVec.setWidth_eq]
  have hret := hread.ret fun v => BitVec.ofNat w (ofBE v)
  rwa [hx] at hret

/-- The encodings of the elements of a list, one after the other. -/
def encodeAll (enc : α → Except ε Bytes) : List α → Except ε Bytes
  | [] => .ok []
  | a :: as =>
      match enc a, encodeAll enc as with
      | .ok v, .ok w => .ok (v ++ w)
      | .error e, _ => .error e
      | .ok _, .error e => .error e

theorem encodeAll_cons {enc : α → Except ε Bytes} {a : α} {as : List α} {u : Bytes}
    (h : encodeAll enc (a :: as) = .ok u) :
    ∃ v w, enc a = .ok v ∧ encodeAll enc as = .ok w ∧ u = v ++ w := by
  rw [encodeAll] at h
  cases hv : enc a with
  | error e =>
      rw [hv] at h
      cases h
  | ok v =>
      cases hw : encodeAll enc as with
      | error e =>
          rw [hv, hw] at h
          cases h
      | ok w =>
          rw [hv, hw] at h
          cases h
          exact ⟨v, w, rfl, rfl, rfl⟩

/-- Elements that are read back one by one are read back as a list. -/
theorem Parses.each {γ δ : Type} {p : γ → Reader ε σ δ} {enc : α → Except ε Bytes} (key : α → γ)
    (out : α → δ) (as : List α) (v : Bytes) (henc : encodeAll enc as = .ok v)
    (h : ∀ a ∈ as, ∀ w, enc a = .ok w → Parses (p (key a)) w (out a)) :
    Parses (Reader.each p (as.map key)) v (as.map out) := by
  induction as generalizing v with
  | nil =>
      cases henc
      exact Parses.pure []
  | cons a as ih =>
      obtain ⟨w, u, hw, hu, rfl⟩ := encodeAll_cons henc
      have hhead := h a List.mem_cons_self w hw
      have htail := ih u hu fun x hx => h x (List.mem_cons_of_mem a hx)
      exact hhead.bind (htail.ret fun bs => out a :: bs)

theorem length_encodeAll {enc : α → Except ε Bytes} (size : α → Nat) (as : List α) (v : Bytes)
    (henc : encodeAll enc as = .ok v) (h : ∀ a ∈ as, ∀ w, enc a = .ok w → w.length = size a) :
    v.length = (as.map size).sum := by
  induction as generalizing v with
  | nil =>
      cases henc
      rfl
  | cons a as ih =>
      obtain ⟨w, u, hw, hu, rfl⟩ := encodeAll_cons henc
      rw [List.length_append, List.map_cons, List.sum_cons, h a List.mem_cons_self w hw,
        ih u hu fun x hx => h x (List.mem_cons_of_mem a hx)]

end Parses

/-! ### Cutting a byte string -/

section Cuts

variable {ε σ α β : Type} {clean : σ → Prop}

/-- On every proper prefix of `v` the reader waits, and goes on from there as if
    the prefix were still in front of it. -/
def Starves (clean : σ → Prop) (p : Reader ε σ α) (s : σ) (v : Bytes) : Prop :=
  ∀ b c, c ≠ [] → v = b ++ c → ∃ t u, p.run s b = .wait t u ∧
    (clean t → ∀ d, p.run t (u ++ d) = p.run s (b ++ d))

/-- The reader turns `v` into `a`, wherever `v` is cut. -/
structure Reads (clean : σ → Prop) (p : Reader ε σ α) (s : σ) (v : Bytes) (a : α) (s' : σ) :
    Prop where
  full : ∀ rest, p.run s (v ++ rest) = .done a s' rest
  starves : Starves clean p s v

/-- On every proper prefix of `v` the reader waits without doing anything. -/
def Idle (p : Reader ε σ α) (s : σ) (v : Bytes) : Prop :=
  ∀ b c, c ≠ [] → v = b ++ c → p.run s b = .wait s b

theorem Idle.starves {p : Reader ε σ α} {s : σ} {v : Bytes} (h : Idle p s v) :
    Starves clean p s v := by
  intro b c hc hv
  exact ⟨s, b, h b c hc hv, fun _ d => rfl⟩

theorem Starves.nil (p : Reader ε σ α) (s : σ) : Starves clean p s [] := by
  intro b c hc hv
  have hboth := List.nil_eq_append_iff.mp hv
  exact absurd hboth.2 hc

/-- The reader is at the end already. -/
theorem Reads.nil {p : Reader ε σ α} {s s' : σ} {a : α}
    (h : ∀ rest, p.run s rest = .done a s' rest) : Reads clean p s [] a s' :=
  ⟨h, Starves.nil p s⟩

/-- A cut of a concatenation is a cut of the first part, or of the second with
    the first in front. -/
theorem cut_append {v w b c : Bytes} (h : v ++ w = b ++ c) :
    (∃ c', c' ≠ [] ∧ v = b ++ c') ∨ ∃ b', b = v ++ b' ∧ w = b' ++ c := by
  rcases List.append_eq_append_iff.mp h with ⟨b', hb, hw⟩ | ⟨c', hv, hc⟩
  · exact .inr ⟨b', hb, hw⟩
  · by_cases hnil : c' = []
    · subst hnil
      rw [List.append_nil] at hv
      exact .inr ⟨[], by rw [List.append_nil, hv], by rw [List.nil_append, hc, List.nil_append]⟩
    · exact .inl ⟨c', hnil, hv⟩

/-- What follows a point where the reader records its progress can be cut if it
    can be cut from the recorded state. -/
theorem Starves.step {p : Reader ε σ α} {s s₁ : σ} {v w : Bytes}
    (hstep : ∀ r, p.run s (v ++ r) = p.run s₁ r) (hv : Starves clean p s v)
    (hw : Starves clean p s₁ w) : Starves clean p s (v ++ w) := by
  intro b c hc hcut
  rcases cut_append hcut with ⟨c', hc', hb⟩ | ⟨b', rfl, hb⟩
  · exact hv b c' hc' hb
  · obtain ⟨t, u, hwait, hgo⟩ := hw b' c hc hb
    refine ⟨t, u, by rw [hstep, hwait], ?_⟩
    intro hclean d
    rw [hgo hclean d, List.append_assoc, hstep]

theorem Reads.step {p : Reader ε σ α} {s s₁ s' : σ} {v w : Bytes} {a : α}
    (hstep : ∀ r, p.run s (v ++ r) = p.run s₁ r) (hv : Starves clean p s v)
    (hw : Reads clean p s₁ w a s') : Reads clean p s (v ++ w) a s' := by
  refine ⟨?_, Starves.step hstep hv hw.starves⟩
  intro rest
  rw [List.append_assoc, hstep, hw.full]

/-- A reader without progress of its own: `v` is read in one piece. -/
theorem Reads.ofIdle {p : Reader ε σ α} {s s' : σ} {v : Bytes} {a : α}
    (hfull : ∀ rest, p.run s (v ++ rest) = .done a s' rest) (h : Idle p s v) :
    Reads clean p s v a s' :=
  ⟨hfull, h.starves⟩

/-- A reader that runs another one on a part of its state can be cut where the
    other one can. -/
theorem Reads.onState {τ : Type} {p : Reader ε σ α} {q : Reader ε τ α} (g : σ → τ) {s s' : σ}
    {v : Bytes} {a : α} (hq : ∀ s b, q.run (g s) b = (p.run s b).onState g)
    (h : Reads (fun _ => True) p s v a s') : Reads (fun _ => True) q (g s) v a (g s') := by
  refine ⟨?_, ?_⟩
  · intro rest
    rw [hq, h.full]
    rfl
  · intro b c hc hv
    obtain ⟨t, u, hwait, hgo⟩ := h.starves b c hc hv
    refine ⟨g t, u, by rw [hq, hwait]; rfl, ?_⟩
    intro _ d
    rw [hq, hq, hgo trivial d]

/-- The bytes arrive in pieces. With each piece the reader is run again, on what
    it left unread and the piece behind it, until it ends. -/
def feed (p : Reader ε σ α) : σ → Bytes → List Bytes → Outcome ε σ α
  | s, b, [] => .wait s b
  | s, b, piece :: pieces =>
      match p.run s (b ++ piece) with
      | .done a s' r => .done a s' (r ++ pieces.flatten)
      | .wait s' r => feed p s' r pieces
      | .fail e s' r => .fail e s' (r ++ pieces.flatten)

/-- The pieces so far leave the reader where it would be if they had all come
    at once. -/
theorem Reads.feed_rest {p : Reader ε σ α} {s s' : σ} {v : Bytes} {a : α}
    (h : Reads (fun _ => True) p s v a s') (pieces : List Bytes) (t : σ) (u b : Bytes)
    (hat : ∀ d, p.run t (u ++ d) = p.run s (b ++ d)) (hv : v = b ++ pieces.flatten)
    (hne : pieces.flatten ≠ []) : feed p t u pieces = .done a s' [] := by
  induction pieces generalizing t u b with
  | nil => exact absurd rfl hne
  | cons piece pieces ih =>
      rw [List.flatten_cons, ← List.append_assoc] at hv
      rw [feed, hat piece]
      by_cases hlast : pieces.flatten = []
      · have hfull := h.full []
        rw [hv, hlast, List.append_nil, List.append_nil] at hfull
        simp only [hfull, hlast, List.append_nil]
      · obtain ⟨t', u', hwait, hgo⟩ := h.starves (b ++ piece) pieces.flatten hlast hv
        simp only [hwait]
        exact ih t' u' (b ++ piece) (hgo trivial) hv hlast

/-- What can be cut anywhere can arrive in any pieces. -/
theorem Reads.feed {p : Reader ε σ α} {s s' : σ} {v : Bytes} {a : α}
    (h : Reads (fun _ => True) p s v a s') (hne : v ≠ []) (pieces : List Bytes)
    (hv : pieces.flatten = v) : Wire.feed p s [] pieces = .done a s' [] := by
  refine h.feed_rest pieces s [] [] (fun _ => rfl) ?_ ?_
  · rw [List.nil_append, hv]
  · rwa [hv]

end Cuts

/-! ### Looking ahead -/

section Looks

variable {ε σ α β : Type}

/-- The reader finds `a` in the first `i` bytes of `v` and consumes nothing. On a
    part of `v` it finds the same or waits, and it waits if the part has fewer
    than `i` bytes. -/
structure Looks (p : Reader ε σ α) (v : Bytes) (i : Nat) (a : α) : Prop where
  full : ∀ s r, p.run s (v ++ r) = .done a s (v ++ r)
  part : ∀ s b c, v = b ++ c →
    p.run s b = .wait s b ∨ (i ≤ b.length ∧ p.run s b = .done a s b)

theorem Looks.pure (v : Bytes) (a : α) : Looks (Pure.pure a : Reader ε σ α) v 0 a :=
  ⟨fun _ _ => rfl, fun _ b _ _ => .inr ⟨Nat.zero_le b.length, rfl⟩⟩

theorem Looks.need {n : Nat} {v : Bytes} (h : n ≤ v.length) :
    Looks (Reader.need n : Reader ε σ Unit) v n () := by
  refine ⟨?_, ?_⟩
  · intro s r
    refine run_need_of_le n s _ ?_
    rw [List.length_append]
    omega
  · intro s b c _
    by_cases hlen : b.length < n
    · exact .inl (run_need_of_lt n s b hlen)
    · exact .inr ⟨Nat.not_lt.mp hlen, run_need_of_le n s b (Nat.not_lt.mp hlen)⟩

/-- A piece of a byte string is there whatever follows, and at the same place. -/
theorem take_drop_append {i n : Nat} (b c : Bytes) (h : i + n ≤ b.length) :
    ((b ++ c).drop i).take n = (b.drop i).take n := by
  have hi : i ≤ b.length := by omega
  have hn : n ≤ (b.drop i).length := by
    rw [List.length_drop]
    omega
  rw [List.drop_append_of_le_length hi, List.take_append_of_le_length hn]

theorem Looks.look {i n : Nat} {v : Bytes} (h : i + n ≤ v.length) :
    Looks (Reader.look i n : Reader ε σ Bytes) v (i + n) ((v.drop i).take n) := by
  refine ⟨?_, ?_⟩
  · intro s r
    have hlen : ¬ (v ++ r).length < i + n := by
      rw [List.length_append]
      omega
    rw [run_look, if_neg hlen, take_drop_append v r h]
  · intro s b c hv
    rw [run_look]
    by_cases hlen : b.length < i + n
    · exact .inl (if_pos hlen)
    · refine .inr ⟨Nat.not_lt.mp hlen, ?_⟩
      rw [if_neg hlen, hv, take_drop_append b c (Nat.not_lt.mp hlen)]

/-- A piece between two others is found at its offset. -/
theorem Looks.lookAt (u v w : Bytes) :
    Looks (Reader.look u.length v.length : Reader ε σ Bytes) (u ++ (v ++ w)) (u.length + v.length) v := by
  have hlook := Looks.look (ε := ε) (σ := σ) (i := u.length) (n := v.length) (v := u ++ (v ++ w)) (by
    simp only [List.length_append]
    omega)
  rwa [List.drop_left' rfl, List.take_left' rfl] at hlook

theorem Looks.bind {p : Reader ε σ α} {k : α → Reader ε σ β} {v : Bytes} {i j : Nat} {a : α} {b : β}
    (hp : Looks p v i a) (hk : Looks (k a) v j b) : Looks (p >>= k) v (max i j) b := by
  refine ⟨?_, ?_⟩
  · intro s r
    rw [run_bind, hp.full, Outcome.andThen_done, hk.full]
  · intro s x y hv
    rw [run_bind]
    rcases hp.part s x y hv with hwait | ⟨hi, hdone⟩
    · rw [hwait]
      exact .inl rfl
    · rw [hdone, Outcome.andThen_done]
      rcases hk.part s x y hv with hwait | ⟨hj, hdone⟩
      · exact .inl hwait
      · exact .inr ⟨Nat.max_le.mpr ⟨hi, hj⟩, hdone⟩

theorem Looks.seq {p : Reader ε σ Unit} {q : Reader ε σ β} {v : Bytes} {i j : Nat} {b : β}
    (hp : Looks p v i ()) (hq : Looks q v j b) : Looks (p >>= fun _ => q) v (max i j) b :=
  hp.bind hq

theorem Looks.ret {p : Reader ε σ α} {v : Bytes} {i : Nat} {a : α} (f : α → β)
    (hp : Looks p v i a) : Looks (p >>= fun a => Pure.pure (f a)) v i (f a) := by
  have hbind := hp.bind (k := fun a => Pure.pure (f a)) (Looks.pure v (f a))
  rwa [Nat.max_eq_left (Nat.zero_le i)] at hbind

/-- A number that fits its field is found at the field's offset. -/
theorem Looks.lookField {n k : Nat} (u w : Bytes) (x : BitVec k) (h : x.toNat < 256 ^ n) :
    Looks (Reader.lookField u.length n k : Reader ε σ (BitVec k)) (u ++ (toBE n x.toNat ++ w))
      (u.length + n) x := by
  have hlook := Looks.lookAt (ε := ε) (σ := σ) u (toBE n x.toNat) w
  have hx : BitVec.ofNat k (ofBE (toBE n x.toNat)) = x := by
    rw [ofBE_toBE_of_lt n x.toNat h, BitVec.ofNat_toNat, BitVec.setWidth_eq]
  have hret := hlook.ret fun v => BitVec.ofNat k (ofBE v)
  rwa [hx, length_toBE] at hret

/-- What is looked at is then read with what follows. -/
theorem Looks.parses {p : Reader ε σ α} {k : α → Reader ε σ β} {v : Bytes} {i : Nat} {a : α} {b : β}
    (hp : Looks p v i a) (hk : Parses (k a) v b) : Parses (p >>= k) v b := by
  intro s rest
  rw [run_bind, hp.full, Outcome.andThen_done, hk]

/-- A reader that looks at all of `v` before it consumes anything is idle on
    every proper prefix. -/
theorem Looks.idle {p : Reader ε σ α} {v : Bytes} {i : Nat} {a : α} (k : α → Reader ε σ β) (s : σ)
    (hp : Looks p v i a) (hi : v.length ≤ i) : Idle (p >>= k) s v := by
  intro b c hc hv
  have hpos : 0 < c.length := List.length_pos_of_ne_nil hc
  rw [run_bind]
  rcases hp.part s b c hv with hwait | ⟨hlen, _⟩
  · rw [hwait, Outcome.andThen_wait]
  · rw [hv, List.length_append] at hi
    omega

end Looks

/-! ### Readers that do not wait -/

section Strict

variable {ε σ α β : Type}

/-- The reader does not wait, and what it makes of a buffer it makes of every longer one. -/
structure Strict (p : Reader ε σ α) : Prop where
  ends : ∀ s b, (p.run s b).isWait = false
  grows : ∀ {s b a s' r}, p.run s b = .done a s' r → ∀ c, p.run s (b ++ c) = .done a s' (r ++ c)

theorem Strict.pure (a : α) : Strict (Pure.pure a : Reader ε σ α) := by
  refine ⟨fun _ _ => rfl, ?_⟩
  intro s b a' s' r hrun c
  cases hrun
  rfl

theorem Strict.bind {p : Reader ε σ α} {k : α → Reader ε σ β} (hp : Strict p) (hk : ∀ a, Strict (k a)) :
    Strict (p >>= k) := by
  refine ⟨?_, ?_⟩
  · intro s b
    rw [run_bind]
    cases hrun : p.run s b with
    | done a s' r => exact (hk a).ends s' r
    | wait s' r =>
        have hends := hp.ends s b
        rw [hrun] at hends
        cases hends
    | fail e s' r => rfl
  · intro s b a' s' r hrun c
    obtain ⟨a, s₁, r₁, hfirst, hrest⟩ := run_bind_done hrun
    rw [run_bind, hp.grows hfirst c, Outcome.andThen_done]
    exact (hk a).grows hrest c

theorem Strict.map {p : Reader ε σ α} (f : α → β) (hp : Strict p) : Strict (f <$> p) :=
  hp.bind fun a => Strict.pure (f a)

theorem Strict.read (e : ε) (n : Nat) : Strict (Reader.read e n : Reader ε σ Bytes) := by
  refine ⟨?_, ?_⟩
  · intro s b
    rw [run_read]
    split <;> rfl
  · intro s b a s' r hrun c
    rw [run_read] at hrun
    split at hrun
    · cases hrun
    · rename_i hlen
      have hlong : ¬ (b ++ c).length < n := by
        rw [List.length_append]
        omega
      have hle : n ≤ b.length := Nat.not_lt.mp hlen
      cases hrun
      rw [run_read, if_neg hlong, List.take_append_of_le_length hle, List.drop_append_of_le_length hle]

theorem Strict.field (e : ε) (n w : Nat) : Strict (Reader.field e n w : Reader ε σ (BitVec w)) :=
  (Strict.read e n).bind fun _ => Strict.pure _

theorem Strict.each {p : β → Reader ε σ α} (h : ∀ x, Strict (p x)) (xs : List β) :
    Strict (Reader.each p xs) := by
  induction xs with
  | nil => exact Strict.pure []
  | cons x xs ih => exact (h x).bind fun _ => ih.bind fun _ => Strict.pure _

/-- A part of what is read is not enough. -/
theorem Strict.fails {p : Reader ε σ α} {b c : Bytes} {a : α} (hp : Strict p) (h : Parses p (b ++ c) a)
    (hc : c ≠ []) (s : σ) : ∃ e s' r, p.run s b = .fail e s' r := by
  cases hrun : p.run s b with
  | done a' s' r =>
      have hall := h s []
      rw [List.append_nil, hp.grows hrun c, Outcome.done.injEq] at hall
      exact absurd (List.append_eq_nil_iff.mp hall.2.2).2 hc
  | wait s' r =>
      have hends := hp.ends s b
      rw [hrun] at hends
      cases hends
  | fail e s' r => exact ⟨e, s', r, rfl⟩

end Strict

end Wire
