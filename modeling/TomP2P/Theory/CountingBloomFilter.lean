import TomP2P.Core.CountingBloomFilter
import TomP2P.Foundation.Effect
import TomP2P.Foundation.SharedCounters
import TomP2P.Theory.BloomFilter

/-!
# Counting Bloom Filters Do Not Undercount

What is counted for an element should not be less than how often an element with its hash code
was added, or the greatest `int` if that is less, and no counter should become negative.

A filter is an array of shared counters: its values are within the range of the counters, and
counting up in the array is counting up there. So after any additions a counter is the number of
times it was hit, up to the greatest `int`, and elements with the same hash code hit the same.

## Main definitions

* `CountingBloomFilter.Within`: The counters are in their range.
* `CountingBloomFilter.counters`: The array as shared counters.
* `CountingBloomFilter.Counted`: A filter after some additions.

## Theorems

* `CountingBloomFilter.counters_countUp`: A pass of the loop.
* `CountingBloomFilter.counted_addAll`: Any additions.
* `CountingBloomFilter.countP_le_approximateCount`: What is counted is not too low.
-/

namespace TomP2P

open SharedCounters List

namespace CountingBloomFilter

variable {E : Type} {h : CountingHashing E} {b b' : CountingBloomFilter}

/-- The counters are neither negative nor greater than an `int`. -/
def Within (b : CountingBloomFilter) : Prop := ∀ v ∈ b.intSet, 0 ≤ v ∧ v ≤ MAX_VALUE

/-- The shared counters of a filter. -/
def counters (b : CountingBloomFilter) (index : Nat) : Nat := (b.intSet.getD index 0).toNat

/-- A filter after the counters at these positions were counted up. -/
structure Counted (b : CountingBloomFilter) (positions : List Nat) (b' : CountingBloomFilter) : Prop where
  expectedElements_eq : b'.expectedElements = b.expectedElements
  length_eq : b'.intSet.length = b.intSet.length
  within : b'.Within
  counters_eq : b'.counters = positions.foldl (bump MAX_VALUE.toNat) b.counters

/-! ### A pass of the loop -/

theorem Within.getD (hb : b.Within) (index : Nat) : 0 ≤ b.intSet.getD index 0 ∧ b.intSet.getD index 0 ≤ MAX_VALUE := by
  rw [getD_eq_getElem?_getD]
  cases hget : b.intSet[index]? with
  | none => simp [MAX_VALUE]
  | some v => exact hb v (mem_of_getElem? hget)

/-- A counter that is not at the greatest `int` does not overflow. -/
theorem next_eq {old : Int} (hlow : 0 ≤ old) (hhigh : old ≤ MAX_VALUE) :
    next old = if old = MAX_VALUE then MAX_VALUE else old + 1 := by
  rw [MAX_VALUE] at hhigh
  rw [next, ite_not, MAX_VALUE]
  split_ifs with hmax
  · exact hmax
  · exact int_eq (by omega) (by omega)

theorem length_countUp (index : Nat) : (b.countUp index).intSet.length = b.intSet.length := by
  simp [countUp]

theorem within_countUp (hb : b.Within) (index : Nat) : (b.countUp index).Within := by
  intro v hv
  rcases mem_iff_getElem?.mp hv with ⟨j, hj⟩
  rw [countUp, getElem?_modify] at hj
  rcases Option.map_eq_some_iff.mp hj with ⟨old, hold, rfl⟩
  have hle := hb old (mem_of_getElem? hold)
  by_cases hhit : index = j
  · rw [if_pos hhit, next_eq hle.1 hle.2]
    simp only [MAX_VALUE] at hle ⊢
    split_ifs <;> omega
  · rw [if_neg hhit]
    exact hle

/-- Counting up in the array is counting up the shared counters. -/
theorem counters_countUp (hb : b.Within) {index : Nat} (hindex : index < b.intSet.length) :
    (b.countUp index).counters = bump MAX_VALUE.toNat b.counters index := by
  funext j
  rw [bump, Function.update_apply]
  simp only [counters, countUp, getD_eq_getElem?_getD, getElem?_modify]
  by_cases hj : j = index
  · subst hj
    have hle := hb _ (getElem_mem hindex)
    simp only [getElem?_eq_getElem hindex, Option.map_eq_map, Option.map_some, Option.getD_some, if_true]
    rw [next_eq hle.1 hle.2]
    by_cases hmax : b.intSet[j] = MAX_VALUE
    · rw [if_pos hmax, if_pos (by rw [hmax])]
    · have hne : b.intSet[j].toNat ≠ MAX_VALUE.toNat := by
        simp only [MAX_VALUE] at hle hmax ⊢
        omega
      rw [if_neg hmax, if_neg hne]
      omega
  · simp [hj, Ne.symm hj]

/-! ### Additions -/

theorem Counted.refl (hb : b.Within) : Counted b [] b := ⟨rfl, rfl, hb, rfl⟩

theorem counted_foldl (hb : b.Within) (is : List Nat) (his : ∀ i ∈ is, i < b.intSet.length) :
    Counted b is (is.foldl countUp b) := by
  induction is generalizing b with
  | nil => exact Counted.refl hb
  | cons i is ih =>
      have hi := his i mem_cons_self
      have hrest := ih (within_countUp hb i) fun j hj => by
        rw [length_countUp]
        exact his j (mem_cons_of_mem i hj)
      refine ⟨hrest.expectedElements_eq, hrest.length_eq.trans (length_countUp i), hrest.within, ?_⟩
      rw [foldl_cons, hrest.counters_eq, counters_countUp hb hi, foldl_cons]

theorem Counted.append {is js : List Nat} {c : CountingBloomFilter} (hb : Counted b is b') (hc : Counted b' js c) :
    Counted b (is ++ js) c where
  expectedElements_eq := hc.expectedElements_eq.trans hb.expectedElements_eq
  length_eq := hc.length_eq.trans hb.length_eq
  within := hc.within
  counters_eq := by rw [hc.counters_eq, hb.counters_eq, foldl_append]

theorem toInt_intArraySize (b : CountingBloomFilter) : b.intArraySize.toInt = b.intSet.length := by
  have hlt := b.length_lt
  rw [intArraySize, BitVec.toInt_ofNat', Int.bmod_def]
  omega

/-- Without counters there are no hash functions, so all numbers can be drawn. -/
theorem drawable_eq_true (h : CountingHashing E) (b : CountingBloomFilter) : b.drawable h = true := by
  rw [drawable, decide_eq_true_eq, toInt_intArraySize]
  rcases Nat.eq_zero_or_pos b.intSet.length with hzero | hpos
  · left
    rw [k, intArraySize, hzero]
    exact h.hashes_zero _
  · right
    omega

theorem lt_of_mem_positions {o : E} {i : Nat} (hi : i ∈ b.positions h o) : i < b.intSet.length := by
  rcases mem_map.mp hi with ⟨x, hx, rfl⟩
  have hdraw := drawable_eq_true h b
  rw [drawable, decide_eq_true_eq] at hdraw
  have hpos := mem_range.mp hx
  rw [toInt_intArraySize] at hdraw ⊢
  exact h.nextInt_lt _ _ x (by omega)

theorem Counted.positions_eq {is : List Nat} (hb : Counted b is b') (h : CountingHashing E) :
    b'.positions h = b.positions h := by
  funext o
  simp only [positions, k, intArraySize, hb.length_eq, hb.expectedElements_eq]

theorem counted_add (hb : b.Within) (o : E) :
    ∃ b', b.add h o = .ok b' ∧ Counted b (b.positions h o) b' :=
  ⟨_, if_pos (drawable_eq_true h b), counted_foldl hb _ fun _ hi => lt_of_mem_positions hi⟩

/-- Elements are added one after the other, and each counts up its own counters. -/
theorem counted_addAll (hb : b.Within) (os : List E) :
    ∃ b', b.addAll h os = .ok b' ∧ Counted b (os.flatMap (b.positions h)) b' := by
  induction os generalizing b with
  | nil => exact ⟨b, rfl, Counted.refl hb⟩
  | cons o os ih =>
      rcases counted_add (h := h) hb o with ⟨b₁, hadd, hb₁⟩
      rcases ih hb₁.within with ⟨b₂, haddAll, hb₂⟩
      rw [hb₁.positions_eq] at hb₂
      exact ⟨b₂, by rw [addAll, hadd, Effect.except_ok_bind, haddAll], hb₁.append hb₂⟩

/-! ### What is counted -/

theorem approximateCount_eq (hb : b.Within) (o : E) :
    b.approximateCount h o = .ok (estimate MAX_VALUE.toNat b.counters (b.positions h o) : Int) := by
  have hfold (is : List Nat) (least : Nat) :
      is.foldl (fun retVal index => min retVal (b.intSet.getD index 0)) (least : Int) =
        (estimate least b.counters is : Int) := by
    induction is generalizing least with
    | nil => rfl
    | cons i is ih =>
        have hle := (hb.getD i).1
        have hmin : min (least : Int) (b.intSet.getD i 0) = (min least (b.counters i) : Nat) := by
          rw [counters]
          omega
        rw [foldl_cons, hmin, ih, estimate, estimate, foldl_cons]
  rw [approximateCount, if_pos (drawable_eq_true h b)]
  exact congrArg _ (hfold _ _)

theorem counters_of_zero (hzero : ∀ v ∈ b.intSet, v = 0) : b.counters = fun _ => 0 := by
  funext i
  rw [counters, getD_eq_getElem?_getD]
  cases hget : b.intSet[i]? with
  | none => rfl
  | some v => simp [hzero v (mem_of_getElem? hget)]

theorem within_of_zero (hzero : ∀ v ∈ b.intSet, v = 0) : b.Within := by
  intro v hv
  simp [hzero v hv, MAX_VALUE]

/-- What is counted for an element is not less than how often its hash code was added, and no counter
    is negative after or during any addition. -/
theorem countP_le_approximateCount (h : CountingHashing E) (b : CountingBloomFilter) (hzero : ∀ v ∈ b.intSet, v = 0)
    (os : List E) (o : E) :
    ∃ b' count, b.addAll h os = .ok b' ∧ b'.approximateCount h o = .ok count ∧
      min MAX_VALUE (os.countP fun e => decide (h.hashCode e = h.hashCode o)) ≤ count ∧
      (∀ v ∈ b'.intSet, 0 ≤ v) ∧
      ∀ e x, ∀ v ∈ (((b'.positions h e).take x).foldl countUp b').intSet, 0 ≤ v := by
  rcases counted_addAll (h := h) (within_of_zero hzero) os with ⟨b', haddAll, hb'⟩
  refine ⟨b', _, haddAll, approximateCount_eq hb'.within o, ?_, fun v hv => (hb'.within v hv).1, ?_⟩
  · have hsame (e : E) (he : decide (h.hashCode e = h.hashCode o) = true) : b.positions h e = b.positions h o := by
      rw [positions, positions, of_decide_eq_true he]
    have hle := countP_le_estimate MAX_VALUE.toNat (b.positions h) _ _ hsame os
    rw [hb'.positions_eq, hb'.counters_eq, counters_of_zero hzero]
    simp only [MAX_VALUE] at hle ⊢
    omega
  · intro e x v hv
    have hpart := counted_foldl hb'.within ((b'.positions h e).take x) fun i hi =>
      lt_of_mem_positions (mem_of_mem_take hi)
    exact (hpart.within v hv).1

/-- Numbers with themselves as hash codes. -/
def integers : CountingHashing (BitVec 32) where
  toBloomHashing := { BloomFilter.integers with
    hashes := fun size elements => if size = 0 then 0 else BloomFilter.integers.hashes size elements }
  hashes_zero _ := le_refl 0

/-- With 16 counters for ten elements, 7 was added twice. -/
theorem approximateCount_seven :
    ∃ b' count, (CountingBloomFilter.mk 10 (List.replicate 16 0) (by decide)).addAll integers [7, 3, 7] = .ok b' ∧
      b'.approximateCount integers 7 = .ok count ∧ 2 ≤ count ∧ ∀ v ∈ b'.intSet, 0 ≤ v := by
  rcases countP_le_approximateCount integers ⟨10, List.replicate 16 0, by decide⟩
    (fun v hv => eq_of_mem_replicate hv) [7, 3, 7] 7 with ⟨b', count, haddAll, hcount, hle, hpos, _⟩
  exact ⟨b', count, haddAll, hcount, hle, hpos⟩

end CountingBloomFilter

end TomP2P
