import TomP2P.Core.ContentCodec
import TomP2P.Theory.AddressCodec

/-!
# How Many Neighbors Fit

A set of neighbors should keep the longest part from the front that fits into its limit when it
is written, with the byte for the number of neighbors.

The sum of the sizes grows with each neighbor, also with those that are taken out. So once it
has exceeded the limit it stays above, and what is kept is a part from the front. But the sum is
an `int`, which becomes negative after about 65 million addresses, from where on neighbors are
kept again. For addresses whose flags say what they hold that is all that can go wrong
(`keepsLongest_iff`); the size of any other is computed from its flags nevertheless, so the sums
need not be those of what is written.

## Main definitions

* `NeighborSet.Fits`: Neighbors that fit into a limit.
* `NeighborSet.KeepsLongest`: What is asked of the constructor.
* `NeighborSet.total`: What neighbors take when they are written.
* `NeighborSet.NeverWraps`: When no sum runs over to within the limit.

## Theorems

* `NeighborSet.stays_eq`: The answers of the loop.
* `NeighborSet.keepsLongest_iff`: When the longest part is kept.
* `NeighborSet.neverWraps_of_lt`: For up to two gigabytes of addresses.
* `NeighborSet.not_keepsLongest_wrapped`: A sum that becomes negative.
-/

namespace TomP2P

open Wire Reader Effect List

namespace NeighborSet

/-- The neighbors can be written, and fit with the byte for their number. -/
def Fits (neighborLimit : Int) (neighbors : List PeerAddress) : Prop :=
  ∃ v, encodeAll PeerAddress.encode neighbors = .ok v ∧ (1 + v.length : Int) ≤ neighborLimit

/-- Just the first neighbors stay, as many as fit. Nothing fits into a limit of zero. -/
def KeepsLongest (neighborLimit : Int) (neighbors : List PeerAddress) : Prop :=
  ∃ k ≤ neighbors.length,
    stays neighborLimit 1 neighbors =
        .ok (List.replicate k true ++ List.replicate (neighbors.length - k) false) ∧
      create neighborLimit neighbors = .ok ⟨neighborLimit, neighbors.take k⟩ ∧
      (0 < k → Fits neighborLimit (neighbors.take k)) ∧
      (∀ j ≤ neighbors.length, Fits neighborLimit (neighbors.take j) → j ≤ k) ∧
      (1 ≤ neighborLimit →
        ∃ v, encode ⟨neighborLimit, neighbors.take k⟩ = .ok v ∧ (v.length : Int) ≤ neighborLimit)

/-- What neighbors take when they are written, with the byte for their number. -/
def total (neighbors : List PeerAddress) : Nat :=
  1 + (neighbors.map fun a => a.toFlags.sizeWith (a.relays.map PeerSocketAddress.isV6)).sum

/-- Where the neighbors up to one take more than the limit, their sum is above it as an `int`, too. -/
def NeverWraps (neighborLimit : Int) (neighbors : List PeerAddress) : Prop :=
  ∀ i < neighbors.length, neighborLimit < total (neighbors.take (i + 1)) →
    neighborLimit < int (total (neighbors.take (i + 1)))

/-- The sizes can be computed, and at each neighbor the sum, as an `int`, exceeds the limit just if
    the neighbors up to it do not fit. -/
def SumsAgree (neighborLimit : Int) (neighbors : List PeerAddress) : Prop :=
  ∃ sizes, neighbors.mapM PeerAddress.ownSize = .ok sizes ∧
    ∀ i < neighbors.length, int (1 + (sizes.take (i + 1)).sum) ≤ neighborLimit ↔
      Fits neighborLimit (neighbors.take (i + 1))

/-! ### The loop -/

/-- The answers for given sizes. -/
def staysOf (neighborLimit : Int) : Int → List Int → List Bool
  | _, [] => []
  | serializedSize, size :: sizes =>
      decide (int (serializedSize + size) ≤ neighborLimit) :: staysOf neighborLimit (int (serializedSize + size)) sizes

theorem stays_eq (neighborLimit : Int) (neighbors : List PeerAddress) (serializedSize : Int) :
    stays neighborLimit serializedSize neighbors =
      staysOf neighborLimit serializedSize <$> neighbors.mapM PeerAddress.ownSize := by
  induction neighbors generalizing serializedSize with
  | nil => rfl
  | cons neighbor neighbors ih =>
      rw [stays, mapM_cons]
      cases neighbor.ownSize with
      | error e => rfl
      | ok size =>
          simp only [except_ok_bind, ih]
          cases neighbors.mapM PeerAddress.ownSize with
          | error e | ok sizes => rfl

theorem length_staysOf (neighborLimit serializedSize : Int) (sizes : List Int) :
    (staysOf neighborLimit serializedSize sizes).length = sizes.length := by
  induction sizes generalizing serializedSize with
  | nil => rfl
  | cons size sizes ih => rw [staysOf, length_cons, ih, length_cons]

/-- An answer is that of the sum up to it. -/
theorem getElem_staysOf (neighborLimit serializedSize : Int) (sizes : List Int) (i : Nat) (hi : i < sizes.length) :
    (staysOf neighborLimit serializedSize sizes)[i]? =
      some (decide (int (serializedSize + (sizes.take (i + 1)).sum) ≤ neighborLimit)) := by
  induction sizes generalizing serializedSize i with
  | nil => simp at hi
  | cons size sizes ih =>
      rw [staysOf]
      cases i with
      | zero => simp
      | succ i =>
          have hsum : int (int (serializedSize + size) + (sizes.take (i + 1)).sum) =
              int (serializedSize + ((size :: sizes).take (i + 1 + 1)).sum) := by
            rw [int_int_add, take_succ_cons, sum_cons, Int.add_assoc]
          rw [getElem?_cons_succ, ih _ i (by simpa using hi), hsum]

/-! ### What fits -/

theorem encodeAll_take {neighbors : List PeerAddress} {v : Bytes} (j : Nat)
    (h : encodeAll PeerAddress.encode neighbors = .ok v) :
    ∃ w, encodeAll PeerAddress.encode (neighbors.take j) = .ok w ∧ w.length ≤ v.length := by
  induction neighbors generalizing v j with
  | nil => exact ⟨v, by simpa using h, le_refl _⟩
  | cons neighbor neighbors ih =>
      cases j with
      | zero => exact ⟨[], rfl, Nat.zero_le _⟩
      | succ j =>
          rcases encodeAll_cons h with ⟨u, w, hu, hw, rfl⟩
          rcases ih j hw with ⟨w', hw', hle⟩
          refine ⟨u ++ w', ?_, by simp; omega⟩
          simp only [take_succ_cons, encodeAll, hu, hw']

/-- What is in front of neighbors that fit fits. -/
theorem Fits.take {neighborLimit : Int} {neighbors : List PeerAddress} {j k : Nat}
    (h : Fits neighborLimit (neighbors.take k)) (hle : j ≤ k) : Fits neighborLimit (neighbors.take j) := by
  rcases h with ⟨v, hv, hlimit⟩
  rcases encodeAll_take j hv with ⟨w, hw, hlength⟩
  rw [take_take, Nat.min_eq_left hle] at hw
  exact ⟨w, hw, by omega⟩

/-- Neighbors that fit are written within the limit. -/
theorem Fits.encode {neighborLimit : Int} {neighbors : List PeerAddress} (h : Fits neighborLimit neighbors) :
    ∃ v, encode ⟨neighborLimit, neighbors⟩ = .ok v ∧ (v.length : Int) ≤ neighborLimit := by
  rcases h with ⟨v, hv, hlimit⟩
  refine ⟨writeByte (BitVec.ofNat 32 neighbors.length) ++ v, ?_, ?_⟩
  · rw [NeighborSet.encode, hv]
    rfl
  · rw [length_append, writeByte, length_toBE]
    omega

/-- There are as many in front as fit. -/
theorem exists_longest (neighborLimit : Int) (neighbors : List PeerAddress) :
    ∃ k ≤ neighbors.length, ∀ j, 0 < j → j ≤ neighbors.length → (Fits neighborLimit (neighbors.take j) ↔ j ≤ k) := by
  classical
  let P (k : Nat) : Prop := ∀ j, 0 < j → j ≤ k → Fits neighborLimit (neighbors.take j)
  have hzero : P 0 := fun j hpos hle => by omega
  refine ⟨Nat.findGreatest P neighbors.length, Nat.findGreatest_le _, ?_⟩
  intro j hpos hle
  constructor
  · intro hfits
    exact Nat.le_findGreatest hle fun i _ hij => hfits.take hij
  · intro hj
    exact Nat.findGreatest_spec (Nat.zero_le neighbors.length) hzero j hpos hj

/-! ### The cut -/

/-- The answers that keep the first `k` of `n` neighbors. -/
theorem getElem_keepFirst (n k i : Nat) (hi : i < n) (hk : k ≤ n) :
    (List.replicate k true ++ List.replicate (n - k) false)[i]? = some (decide (i < k)) := by
  rw [getElem?_append, length_replicate]
  by_cases hlt : i < k
  · rw [if_pos hlt, getElem?_replicate, if_pos hlt, decide_eq_true hlt]
  · rw [if_neg hlt, getElem?_replicate, if_pos (by omega), decide_eq_false hlt]

theorem filter_keepFirst (neighbors : List PeerAddress) (k : Nat) (hk : k ≤ neighbors.length) :
    ((neighbors.zip (List.replicate k true ++ List.replicate (neighbors.length - k) false)).filter Prod.snd).map
      Prod.fst = neighbors.take k := by
  induction neighbors generalizing k with
  | nil => simp
  | cons neighbor neighbors ih =>
      cases k with
      | zero =>
          have hnone := ih 0 (Nat.zero_le _)
          simpa [replicate_succ] using hnone
      | succ k =>
          have hrest := ih k (by simpa using hk)
          simpa [replicate_succ] using hrest

/-- An answer that keeps the first neighbors is the answer of the sums if they say what is in front. -/
theorem staysOf_eq_iff (neighborLimit : Int) (sizes : List Int) {k : Nat} (hk : k ≤ sizes.length) :
    staysOf neighborLimit 1 sizes = List.replicate k true ++ List.replicate (sizes.length - k) false ↔
      ∀ i < sizes.length, int (1 + (sizes.take (i + 1)).sum) ≤ neighborLimit ↔ i < k := by
  constructor
  · intro h i hi
    have hget := getElem_staysOf neighborLimit 1 sizes i hi
    rw [h, getElem_keepFirst _ _ _ hi hk, Option.some.injEq, decide_eq_decide] at hget
    exact hget.symm
  · intro h
    refine ext_getElem? fun i => ?_
    by_cases hi : i < sizes.length
    · rw [getElem_staysOf _ _ _ i hi, getElem_keepFirst _ _ _ hi hk, Option.some.injEq, decide_eq_decide]
      exact h i hi
    · rw [getElem?_eq_none (by rw [length_staysOf]; omega), getElem?_eq_none (by simp; omega)]

theorem length_of_mapM {neighbors : List PeerAddress} {sizes : List Int}
    (h : neighbors.mapM PeerAddress.ownSize = .ok sizes) : sizes.length = neighbors.length := by
  induction neighbors generalizing sizes with
  | nil =>
      cases h
      rfl
  | cons neighbor neighbors ih =>
      rw [mapM_cons] at h
      rcases except_bind_ok h with ⟨size, _, h⟩
      rcases except_bind_ok h with ⟨rest, hrest, h⟩
      cases h
      rw [length_cons, ih hrest, length_cons]

theorem KeepsLongest.sumsAgree {neighborLimit : Int} {neighbors : List PeerAddress}
    (h : KeepsLongest neighborLimit neighbors) : SumsAgree neighborLimit neighbors := by
  rcases h with ⟨k, hk, hstays, _, hfits, hlongest, _⟩
  rw [stays_eq] at hstays
  cases hsizes : neighbors.mapM PeerAddress.ownSize with
  | error e => simp [hsizes] at hstays
  | ok sizes =>
      have hlength := length_of_mapM hsizes
      rw [hsizes] at hstays
      have hmarks : staysOf neighborLimit 1 sizes =
          List.replicate k true ++ List.replicate (sizes.length - k) false := by
        rw [hlength]
        exact Except.ok.inj hstays
      refine ⟨sizes, hsizes, fun i hi => ?_⟩
      rw [(staysOf_eq_iff neighborLimit sizes (by omega)).mp hmarks i (by omega)]
      constructor
      · intro hik
        exact (hfits (by omega)).take (by omega)
      · intro h
        exact hlongest (i + 1) (by omega) h

theorem SumsAgree.keepsLongest {neighborLimit : Int} {neighbors : List PeerAddress} (hlimit : 0 ≤ neighborLimit)
    (h : SumsAgree neighborLimit neighbors) : KeepsLongest neighborLimit neighbors := by
  rcases h with ⟨sizes, hsizes, hagree⟩
  have hlength := length_of_mapM hsizes
  -- The sums agree with what fits, so all answers are those for the longest part that fits.
  rcases exists_longest neighborLimit neighbors with ⟨k, hk, hlongest⟩
  have hmarks := (staysOf_eq_iff neighborLimit sizes (k := k) (by omega)).mpr fun i hi => by
    rw [hagree i (by omega), hlongest (i + 1) (by omega) (by omega)]
    omega
  have hstays : stays neighborLimit 1 neighbors =
      .ok (List.replicate k true ++ List.replicate (neighbors.length - k) false) := by
    rw [stays_eq, hsizes, ← hlength, ← hmarks]
    rfl
  have hfits (hpos : 0 < k) : Fits neighborLimit (neighbors.take k) := (hlongest k hpos hk).mpr (le_refl k)
  refine ⟨k, hk, hstays, ?_, hfits, ?_, ?_⟩
  · rw [create, if_pos hlimit, hstays, except_ok_bind, filter_keepFirst neighbors k hk]
    rfl
  · intro j hj h
    rcases Nat.eq_zero_or_pos j with rfl | hpos
    · exact Nat.zero_le k
    · exact (hlongest j hpos hj).mp h
  · intro hone
    rcases Nat.eq_zero_or_pos k with rfl | hpos
    · exact Fits.encode ⟨[], rfl, hone⟩
    · exact (hfits hpos).encode

/-! ### Addresses whose flags say what they hold -/

/-- The size of such an address is what it takes when it is written. -/
theorem ownSize_of_coherent {a : PeerAddress} (h : a.Coherent) :
    a.ownSize = .ok (a.toFlags.sizeWith (a.relays.map PeerSocketAddress.isV6) : Nat) := by
  rcases h.encode_isOk with ⟨v, hv⟩
  rw [h.ownSize_eq hv, a.length_encode v hv]

theorem mapM_ownSize {neighbors : List PeerAddress} (h : ∀ a ∈ neighbors, a.Coherent) :
    neighbors.mapM PeerAddress.ownSize = .ok (neighbors.map fun a =>
      ((a.toFlags.sizeWith (a.relays.map PeerSocketAddress.isV6) : Nat) : Int)) := by
  induction neighbors with
  | nil => rfl
  | cons neighbor neighbors ih =>
      rw [mapM_cons, ownSize_of_coherent (h neighbor mem_cons_self),
        ih fun a ha => h a (mem_cons_of_mem neighbor ha)]
      rfl

theorem total_eq (neighbors : List PeerAddress) :
    (total neighbors : Int) = 1 + (neighbors.map fun a =>
      ((a.toFlags.sizeWith (a.relays.map PeerSocketAddress.isV6) : Nat) : Int)).sum := by
  rw [total, Nat.cast_add, Nat.cast_one]
  congr 1
  induction neighbors with
  | nil => rfl
  | cons neighbor neighbors ih => rw [map_cons, map_cons, sum_cons, sum_cons, Nat.cast_add, ih]

theorem fits_iff_of_coherent {neighborLimit : Int} {neighbors : List PeerAddress}
    (h : ∀ a ∈ neighbors, a.Coherent) :
    Fits neighborLimit neighbors ↔ (total neighbors : Int) ≤ neighborLimit := by
  rcases PeerAddress.encodeAll_isOk neighbors fun a ha => (h a ha).encode_isOk with ⟨v, hv⟩
  have hlength : 1 + v.length = total neighbors := by
    rw [total, length_encodeAll _ neighbors v hv fun a _ w hw => a.length_encode w hw]
  constructor
  · rintro ⟨w, hw, hfits⟩
    rw [hv] at hw
    cases hw
    omega
  · intro hfits
    exact ⟨v, hv, by omega⟩

/-- The sums of such addresses say what fits unless they run over. -/
theorem sumsAgree_iff (neighborLimit : Int) {neighbors : List PeerAddress} (h : ∀ a ∈ neighbors, a.Coherent) :
    SumsAgree neighborLimit neighbors ↔ NeverWraps neighborLimit neighbors := by
  have hpart (i : Nat) : ∀ a ∈ neighbors.take i, a.Coherent := fun a ha => h a (mem_of_mem_take ha)
  constructor
  · rintro ⟨sizes, hsizes, hagree⟩ i hi hover
    rw [mapM_ownSize h] at hsizes
    cases hsizes
    have hat := hagree i hi
    rw [← map_take, ← total_eq, fits_iff_of_coherent (hpart (i + 1))] at hat
    omega
  · intro hnever
    refine ⟨_, mapM_ownSize h, fun i hi => ?_⟩
    rw [← map_take, ← total_eq, fits_iff_of_coherent (hpart (i + 1))]
    have hle : int (total (neighbors.take (i + 1))) ≤ total (neighbors.take (i + 1)) := int_le (by omega)
    have hnever := hnever i hi
    omega

/-- Of addresses whose flags say what they hold the longest part from the front is kept exactly
    if no sum above the limit runs over to within it. -/
theorem keepsLongest_iff (neighborLimit : Int) (neighbors : List PeerAddress) (hlimit : 0 ≤ neighborLimit)
    (h : ∀ a ∈ neighbors, a.Coherent) :
    KeepsLongest neighborLimit neighbors ↔ NeverWraps neighborLimit neighbors :=
  Iff.trans ⟨KeepsLongest.sumsAgree, SumsAgree.keepsLongest hlimit⟩ (sumsAgree_iff neighborLimit h)

theorem total_take_le (neighbors : List PeerAddress) (i : Nat) : total (neighbors.take i) ≤ total neighbors := by
  have hsplit := congrArg total (take_append_drop i neighbors)
  rw [total, map_append, sum_append_nat] at hsplit
  rw [total]
  omega

/-- Nothing runs over with up to two gigabytes of addresses. -/
theorem neverWraps_of_lt (neighborLimit : Int) {neighbors : List PeerAddress}
    (hsum : total neighbors < 2 ^ 31) : NeverWraps neighborLimit neighbors := by
  intro i _ hover
  have hle := total_take_le neighbors (i + 1)
  rw [int_eq (by omega) (by omega)]
  exact hover

/-! ### A sum that becomes negative -/

/-- If the sum over all neighbors appears to be within the limit but is not, the last neighbor is kept. -/
theorem not_neverWraps {neighborLimit : Int} {neighbors : List PeerAddress} (hne : neighbors ≠ [])
    (hover : neighborLimit < total neighbors) (hwrap : int (total neighbors) ≤ neighborLimit) :
    ¬ NeverWraps neighborLimit neighbors := by
  intro h
  have hpos : 0 < neighbors.length := length_pos_iff.mpr hne
  have hlast := h (neighbors.length - 1) (by omega)
  rw [Nat.sub_add_cancel hpos, take_length] at hlast
  have habove := hlast hover
  omega

theorem coherent_reachedDirectly : PeerAddress.reachedDirectly.Coherent where
  ipv4 := rfl
  internal := rfl
  ipv6 := rfl
  ipv4_ip s hs := by
    cases hs
    exact .inr rfl
  internal_ip s hs := by cases hs
  ipv6_ip s hs := by cases hs
  relay_ip s hs := by cases hs
  relaySize_mod := rfl
  relayTypes hpos := absurd hpos (by decide)
  families i hi := by cases hi
  room := rfl
  one_mode := by simp [PeerAddress.reachedDirectly]

theorem total_replicate (n : Nat) : total (List.replicate n PeerAddress.reachedDirectly) = 1 + 33 * n := by
  rw [total, map_replicate, sum_replicate_nat, Nat.mul_comm]
  rfl

theorem coherent_of_mem_replicate {n : Nat} {a : PeerAddress}
    (ha : a ∈ List.replicate n PeerAddress.reachedDirectly) : a.Coherent := by
  rw [eq_of_mem_replicate ha]
  exact coherent_reachedDirectly

/-- Of two neighbors of 33 bytes the first is kept with a limit of 40 bytes. -/
theorem keepsLongest_two :
    KeepsLongest 40 [PeerAddress.reachedDirectly, PeerAddress.reachedDirectly] :=
  (keepsLongest_iff 40 (List.replicate 2 PeerAddress.reachedDirectly) (by omega)
    fun _ ha => coherent_of_mem_replicate ha).mpr <|
      neverWraps_of_lt 40 <| by
        rw [total_replicate]
        omega

theorem not_keepsLongest_replicate {neighborLimit : Int} {n : Nat} (hpos : 0 < n)
    (hover : neighborLimit < 1 + 33 * n) (hwrap : int (1 + 33 * n) ≤ neighborLimit) :
    ¬ KeepsLongest neighborLimit (List.replicate n PeerAddress.reachedDirectly) := by
  intro hkeeps
  refine not_neverWraps ?_ ?_ ?_ ((sumsAgree_iff neighborLimit fun _ ha =>
    coherent_of_mem_replicate ha).mp hkeeps.sumsAgree)
  · rw [ne_eq, replicate_eq_nil_iff]
    omega
  · rw [total_replicate]
    omega
  · rw [total_replicate]
    push_cast
    exact hwrap

/-- 65075263 neighbors of 33 bytes are too many for a limit of 100 bytes, but the last one is kept. -/
theorem not_keepsLongest_wrapped :
    ¬ KeepsLongest 100 (List.replicate 65075263 PeerAddress.reachedDirectly) :=
  not_keepsLongest_replicate (by omega) (by omega) <| by
    rw [int, Int.bmod_def]
    omega

end NeighborSet

end TomP2P
