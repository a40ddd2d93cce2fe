import TomP2P.Core.BloomFilter

/-!
# A Bit Set and its Words

A `java.util.BitSet` is kept in words of 64 bits. Which bits are set does not depend on the
words, but `size` does, which counts them, and so does everything that asks for it.

A set that is made for a number of bits has as many words as they need. A set that is made
without one has one word. When a bit is set behind the last word, the words double, or become
as many as that bit needs if that is more. Words are given back by `clone` only, and only if
the words have grown or no number was given.

## Main definitions

* `BitSet.get`, `BitSet.ofFun`: The bits by their numbers.
* `WordSet`: A bit set with its words.
* `WordSet.set`, `WordSet.setRange`, `WordSet.clear`, `WordSet.or`: What changes it.
* `WordSet.grown`: The number of words when the bits are set one after the other.

## Theorems

* `BitSet.ext_get`: A bit set is what `get` says of it.
* `BitSet.get_set`, `BitSet.clear_eq`: The bits after an operation.
* `WordSet.foldl_grow_range`: Bits that are set from the first one on double the words.
-/

namespace TomP2P

open List

namespace BitSet

def get (s : BitSet) (i : Nat) : Bool := s.bits.getD i false

/-- The number of the last bit that is set, plus one. -/
def length (s : BitSet) : Nat := s.bits.length

def cardinality (s : BitSet) : Nat := s.bits.count true

/-- The bits below `n` for which `f` holds. -/
def ofFun (n : Nat) (f : Nat → Bool) : BitSet := ofBits ((List.range n).map f)

def empty : BitSet := ofBits []

def set (s : BitSet) (i : Nat) : BitSet := ofFun (max s.length (i + 1)) fun j => s.get j || decide (j = i)

def unset (s : BitSet) (i : Nat) : BitSet := ofFun s.length fun j => s.get j && !decide (j = i)

/-- The bits below `n` are set. -/
def setBelow (s : BitSet) (n : Nat) : BitSet := ofFun (max s.length n) fun j => s.get j || decide (j < n)

def or (s t : BitSet) : BitSet := ofFun (max s.length t.length) fun j => s.get j || t.get j

/-- The loop over the bits from `x` on, which goes on as long as there is a bit. -/
def clearFrom : Nat → Nat → BitSet → BitSet
  | 0, _, s => s
  | fuel + 1, x, s => if x < s.length then clearFrom fuel (x + 1) (s.unset x) else s

def clear (s : BitSet) : BitSet := clearFrom s.length 0 s

/-! ### Bits by their numbers -/

theorem length_trim_le (bs : List Bool) : (trim bs).length ≤ bs.length := by
  induction bs with
  | nil => exact le_rfl
  | cons b bs ih =>
      rw [trim]
      split
      · exact Nat.zero_le _
      · simpa using ih

theorem getD_trim (bs : List Bool) (i : Nat) : (trim bs).getD i false = bs.getD i false := by
  induction bs generalizing i with
  | nil => rfl
  | cons b bs ih =>
      rw [trim]
      split
      · next h =>
          cases i with
          | zero => simp [h.1]
          | succ i =>
              have htail := ih i
              rw [h.2] at htail
              simpa using htail
      · cases i with
        | zero => rfl
        | succ i => simpa using ih i

/-- Lists with the same bits are trimmed to the same list. -/
theorem trim_congr (bs cs : List Bool) (h : ∀ i, bs.getD i false = cs.getD i false) : trim bs = trim cs := by
  have hnil : ∀ ds : List Bool, (∀ i, ds.getD i false = false) → trim ds = [] := by
    intro ds hds
    induction ds with
    | nil => rfl
    | cons d ds ih =>
        have htail : trim ds = [] := ih fun i => by simpa using hds (i + 1)
        rw [trim, htail, if_pos ⟨by simpa using hds 0, rfl⟩]
  induction bs generalizing cs with
  | nil => exact (hnil cs fun i => by simpa using (h i).symm).symm
  | cons b bs ih =>
      cases cs with
      | nil => exact hnil _ fun i => by simpa using h i
      | cons c cs =>
          have hhead : b = c := by simpa using h 0
          have htail : trim bs = trim cs := ih cs fun i => by simpa using h (i + 1)
          rw [trim, trim, hhead, htail]

theorem trim_of_trimmed (bs : List Bool) (h : bs.getLast? ≠ some false) : trim bs = bs := by
  simpa using trim_append_replicate bs 0 h

/-- A bit set is what `get` says of it. -/
theorem ext_get {s t : BitSet} (h : ∀ i, s.get i = t.get i) : s = t := by
  ext1
  rw [← trim_of_trimmed s.bits s.trimmed, ← trim_of_trimmed t.bits t.trimmed]
  exact trim_congr _ _ h

theorem get_ofBits (bs : List Bool) (i : Nat) : (ofBits bs).get i = bs.getD i false := getD_trim bs i

theorem get_ofFun (n : Nat) (f : Nat → Bool) (i : Nat) : (ofFun n f).get i = (decide (i < n) && f i) := by
  rw [ofFun, get_ofBits, getD_eq_getElem?_getD, getElem?_map]
  by_cases hi : i < n
  · simp [hi]
  · simp [hi]

theorem length_ofFun_le (n : Nat) (f : Nat → Bool) : (ofFun n f).length ≤ n := by
  have hle := length_trim_le ((List.range n).map f)
  simpa [ofFun, length, ofBits] using hle

theorem get_of_length_le {s : BitSet} {i : Nat} (h : s.length ≤ i) : s.get i = false := by
  rw [get, getD_eq_getElem?_getD, getElem?_eq_none h]
  rfl

/-- A bit set ends where its bits do. -/
theorem length_le_iff {s : BitSet} {n : Nat} : s.length ≤ n ↔ ∀ i, n ≤ i → s.get i = false := by
  constructor
  · intro h i hi
    exact get_of_length_le (Nat.le_trans h hi)
  · intro h
    have heq : s = ofFun n s.get := by
      refine ext_get ?_
      intro i
      rw [get_ofFun]
      by_cases hi : i < n
      · simp [hi]
      · simp [hi, h i (Nat.not_lt.1 hi)]
    rw [heq]
    exact length_ofFun_le n _

@[simp] theorem get_set (s : BitSet) (i j : Nat) : (s.set i).get j = (s.get j || decide (j = i)) := by
  rw [set, get_ofFun]
  by_cases hj : j < max s.length (i + 1)
  · simp [hj]
  · have hne : j ≠ i := by omega
    simp [hj, hne, get_of_length_le (s := s) (i := j) (by omega)]

@[simp] theorem get_unset (s : BitSet) (i j : Nat) : (s.unset i).get j = (s.get j && !decide (j = i)) := by
  rw [unset, get_ofFun]
  by_cases hj : j < s.length
  · simp [hj]
  · simp [hj, get_of_length_le (Nat.not_lt.1 hj)]

@[simp] theorem get_setBelow (s : BitSet) (n j : Nat) : (s.setBelow n).get j = (s.get j || decide (j < n)) := by
  rw [setBelow, get_ofFun]
  by_cases hj : j < max s.length n
  · simp [hj]
  · have hlt : ¬ j < n := by omega
    simp [hj, hlt, get_of_length_le (s := s) (i := j) (by omega)]

@[simp] theorem get_or (s t : BitSet) (j : Nat) : (s.or t).get j = (s.get j || t.get j) := by
  rw [or, get_ofFun]
  by_cases hj : j < max s.length t.length
  · simp [hj]
  · simp [hj, get_of_length_le (s := s) (i := j) (by omega), get_of_length_le (s := t) (i := j) (by omega)]

theorem length_set_le (s : BitSet) (i : Nat) : (s.set i).length ≤ max s.length (i + 1) := length_ofFun_le _ _

/-- The loop clears all bits. Those below `x` are cleared already. -/
theorem clearFrom_eq (fuel x : Nat) (s : BitSet) (hbelow : ∀ i < x, s.get i = false) (hlen : s.length ≤ x + fuel) :
    clearFrom fuel x s = empty := by
  induction fuel generalizing x s with
  | zero =>
      rw [clearFrom]
      refine ext_get ?_
      intro i
      by_cases hi : i < x
      · exact hbelow i hi
      · exact get_of_length_le (by omega)
  | succ fuel ih =>
      rw [clearFrom]
      split
      · refine ih (x + 1) (s.unset x) ?_ ?_
        · intro i hi
          by_cases hix : i = x
          · simp [hix]
          · simp [hbelow i (by omega)]
        · have hle : (s.unset x).length ≤ s.length := length_ofFun_le _ _
          omega
      · next hge =>
          -- The last bit is below `x`, so the loop ends early.
          refine ext_get ?_
          intro i
          by_cases hi : i < x
          · exact hbelow i hi
          · exact get_of_length_le (by omega)

theorem clear_eq (s : BitSet) : s.clear = empty :=
  clearFrom_eq s.length 0 s (fun i hi => absurd hi (Nat.not_lt_zero i)) (by omega)

/-- The first `n` bits. -/
def first (n : Nat) : BitSet where
  bits := List.replicate n true
  trimmed := by
    cases n with
    | zero => simp
    | succ n => simp [getLast?_replicate]

@[simp] theorem get_first (n i : Nat) : (first n).get i = decide (i < n) := by
  rw [get, first, getD_eq_getElem?_getD]
  by_cases hi : i < n
  · simp [hi]
  · simp [hi]

@[simp] theorem length_first (n : Nat) : (first n).length = n := length_replicate

@[simp] theorem cardinality_first (n : Nat) : (first n).cardinality = n := by
  simp [first, cardinality]

/-- As many bits as there is room for are the first ones. -/
theorem cardinality_eq_iff {s : BitSet} {n : Nat} (h : s.length ≤ n) : s.cardinality = n ↔ s = first n := by
  constructor
  · intro hcard
    have hle : s.bits.count true ≤ s.bits.length := count_le_length
    unfold cardinality at hcard
    unfold length at h
    have hall : s.bits = List.replicate s.bits.length true :=
      eq_replicate_of_mem (by
        intro b hb
        exact ((count_eq_length.1 (by omega)) b hb).symm)
    ext1
    rw [hall, first]
    congr 1
    omega
  · rintro rfl
    exact cardinality_first n

theorem first_inj {m n : Nat} (h : first m = first n) : m = n := by
  rw [← length_first m, h, length_first]

end BitSet

/-! ### The words -/

/-- The number of words when a bit is set. -/
def grow (words i : Nat) : Nat := if words < i / 64 + 1 then max (2 * words) (i / 64 + 1) else words

theorem lt_grow (words i : Nat) : i < 64 * grow words i := by
  unfold grow
  split
  · omega
  · omega

theorem le_grow (words i : Nat) : words ≤ grow words i := by
  unfold grow
  split
  · omega
  · exact le_rfl

/-- A bit set with its words. -/
@[ext] structure WordSet where
  bits : BitSet
  words : Nat
  /-- The words are as many as were asked for, and are not given back. -/
  sizeIsSticky : Bool
  fits : bits.length ≤ 64 * words
  deriving DecidableEq

namespace WordSet

/-- A set for a number of bits. -/
def ofSize (nbits : Nat) : WordSet where
  bits := .empty
  words := (nbits + 63) / 64
  sizeIsSticky := true
  fits := Nat.zero_le _

/-- The number of bits there is room for. -/
def size (s : WordSet) : Nat := 64 * s.words

def set (s : WordSet) (i : Nat) : WordSet where
  bits := s.bits.set i
  words := grow s.words i
  sizeIsSticky := s.sizeIsSticky && decide (i / 64 + 1 ≤ s.words)
  fits := by
    have hle := BitSet.length_set_le s.bits i
    have hfits := s.fits
    have hlt := lt_grow s.words i
    have hgrow := le_grow s.words i
    omega

/-- The bits below `n` are set. -/
def setRange (s : WordSet) (n : Nat) : WordSet :=
  if n = 0 then s
  else
    { bits := s.bits.setBelow n
      words := grow s.words (n - 1)
      sizeIsSticky := s.sizeIsSticky && decide ((n - 1) / 64 + 1 ≤ s.words)
      fits := by
        have hle : (s.bits.setBelow n).length ≤ max s.bits.length n := BitSet.length_ofFun_le _ _
        have hfits := s.fits
        have hlt := lt_grow s.words (n - 1)
        have hgrow := le_grow s.words (n - 1)
        omega }

def clear (s : WordSet) : WordSet where
  bits := s.bits.clear
  words := s.words
  sizeIsSticky := s.sizeIsSticky
  fits := by
    rw [BitSet.clear_eq]
    exact Nat.zero_le _

/-- The words up to the last that has a bit. -/
def wordsInUse (s : WordSet) : Nat := (s.bits.length + 63) / 64

/-- A copy. The words that are not in use are given back, by the original too. -/
def clone (s : WordSet) : WordSet where
  bits := s.bits
  words := if s.sizeIsSticky then s.words else s.wordsInUse
  sizeIsSticky := s.sizeIsSticky
  fits := by
    have hfits := s.fits
    unfold wordsInUse
    split <;> omega

def or (s t : WordSet) : WordSet where
  bits := s.bits.or t.bits
  words := if s.words < t.wordsInUse then max (2 * s.words) t.wordsInUse else s.words
  sizeIsSticky := s.sizeIsSticky && decide (t.wordsInUse ≤ s.words)
  fits := by
    have hle : (s.bits.or t.bits).length ≤ max s.bits.length t.bits.length := BitSet.length_ofFun_le _ _
    have hfits := s.fits
    unfold wordsInUse
    split <;> omega

/-- The words when the bits are set one after the other. -/
def grown (s : BitSet) : Nat := ((List.range s.length).filter s.get).foldl grow 1

theorem le_foldl_grow (is : List Nat) (words : Nat) : words ≤ is.foldl grow words := by
  induction is generalizing words with
  | nil => exact le_rfl
  | cons i is ih => exact Nat.le_trans (le_grow words i) (ih _)

theorem lt_foldl_grow {is : List Nat} {words i : Nat} (h : i ∈ is) : i < 64 * is.foldl grow words := by
  induction is generalizing words with
  | nil => cases h
  | cons j is ih =>
      rcases mem_cons.1 h with rfl | h
      · have hlt := lt_grow words i
        have hle := le_foldl_grow is (grow words i)
        rw [foldl_cons]
        omega
      · exact ih h

theorem length_le_grown (s : BitSet) : s.length ≤ 64 * grown s := by
  rw [BitSet.length_le_iff]
  intro i hi
  by_contra hset
  rw [Bool.not_eq_false] at hset
  have hlt : i < s.length := by
    by_contra hge
    rw [BitSet.get_of_length_le (Nat.not_lt.1 hge)] at hset
    cases hset
  have hmem : i ∈ (List.range s.length).filter s.get := by
    rw [mem_filter, mem_range]
    exact ⟨hlt, hset⟩
  have hgrown : i < 64 * grown s := lt_foldl_grow hmem
  omega

/-- The set into which these bits were set one after the other. -/
def ofBits (s : BitSet) : WordSet where
  bits := s
  words := grown s
  sizeIsSticky := false
  fits := length_le_grown s

/-- Bits that are set from the first one on double the words. -/
theorem foldl_grow_range (n : Nat) :
    ∃ j, (List.range n).foldl grow 1 = 2 ^ j ∧ n ≤ 64 * 2 ^ j ∧ ∀ e, n ≤ 64 * 2 ^ e → j ≤ e := by
  induction n with
  | zero => exact ⟨0, rfl, Nat.zero_le _, fun e _ => Nat.zero_le e⟩
  | succ n ih =>
      obtain ⟨j, hj, hle, hleast⟩ := ih
      rw [range_succ, foldl_append, hj, foldl_cons, foldl_nil, grow]
      have hpos : 0 < 2 ^ j := Nat.two_pow_pos j
      split
      · next hlt =>
          have hnext : 2 ^ (j + 1) = 2 * 2 ^ j := by rw [Nat.pow_succ, Nat.mul_comm]
          refine ⟨j + 1, by omega, by omega, ?_⟩
          intro e he
          have hje : j ≤ e := hleast e (by omega)
          rcases Nat.lt_or_ge j e with hlt' | hge
          · exact hlt'
          · have heq : j = e := by omega
            subst heq
            omega
      · next hge =>
          refine ⟨j, rfl, by omega, ?_⟩
          intro e he
          exact hleast e (by omega)

/-- The words of the first `n` bits, set one after the other. -/
theorem grown_first (n : Nat) : ∃ j, grown (.first n) = 2 ^ j ∧ n ≤ 64 * 2 ^ j ∧ ∀ e, n ≤ 64 * 2 ^ e → j ≤ e := by
  have hall : (List.range (BitSet.first n).length).filter (BitSet.first n).get = List.range n := by
    rw [BitSet.length_first, filter_eq_self]
    intro i hi
    simpa using hi
  rw [grown, hall]
  exact foldl_grow_range n

end WordSet

end TomP2P
