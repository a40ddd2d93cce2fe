import TomP2P.Core.PeerMapFilter
import TomP2P.Foundation.Prefix

/-!
# Subnets at the Ends of the Prefix

What the masks keep, for every address and every length of a prefix.

A mask is right wherever its distance is below the width of the word. At the ends the
distance is the width, and the shift is by nothing. The network mask of the shorter
addresses has a branch for this (`IPv4.keepsFirst_maskWithNetworkMask`). The host mask
has none for a prefix of the whole address and keeps all of it, which is right only for
an address without a set bit (`IPv4.keepsRest_iff`). The longer addresses have branches
for 64 and 128, but none for 0, where the upper half is kept (`IPv6.keepsFirst_iff`).

## Main definitions

* `IPv6.bits`: An address as one word.
* `IPv4.Subnet`: The parts of two addresses are right, and so is what is put together
  from them.

## Theorems

* `IPv4.parts_iff`: The parts are right unless the prefix is the whole address.
* `IP.subnet_iff`: The condition for both kinds of addresses.
-/

namespace TomP2P

open Prefix

namespace IPv4

variable {a b n : BitVec 32}

theorem ones_eq : 0xFFFFFFFF#32 = BitVec.allOnes 32 := by decide

/-- The network mask has a branch at either end. -/
theorem keepsFirst_maskWithNetworkMask (a : BitVec 32) (hn : n.toNat ≤ 32) :
    KeepsFirst n.toNat a (maskWithNetworkMask a n) := by
  rw [maskWithNetworkMask]
  by_cases h32 : n = 32
  · rw [if_pos h32, h32]
    exact keepsFirst_width
  by_cases h0 : n = 0
  · rw [if_neg h32, if_pos h0, h0]
    exact keepsFirst_zero
  -- in between the distance is below the width, and the lower five bits are all of it
  have hdist : (32 - n).toNat % 32 = 32 - n.toNat := by
    have hne : n.toNat ≠ 0 := fun h => h0 (BitVec.eq_of_toNat_eq h)
    have hsub : (32 - n).toNat = 32 - n.toNat := by
      rw [BitVec.toNat_sub]
      simp
      omega
    omega
  rw [if_neg h32, if_neg h0, hdist, ones_eq]
  exact keepsFirst_shiftLeft a hn

/-- The host mask is right below the whole address. -/
theorem keepsRest_maskWithNetworkMaskInv (a : BitVec 32) (hn : n.toNat < 32) :
    KeepsRest n.toNat a (maskWithNetworkMaskInv a n) := by
  rw [maskWithNetworkMaskInv]
  by_cases h0 : n = 0
  · rw [if_pos h0, h0]
    exact keepsRest_zero
  · rw [if_neg h0, Nat.mod_eq_of_lt hn, ones_eq]
    exact keepsRest_ushiftRight a

/-- A prefix of the whole address does not shift the host mask. -/
theorem maskWithNetworkMaskInv_whole (a : BitVec 32) (hn : n.toNat = 32) :
    maskWithNetworkMaskInv a n = a := by
  have h0 : n ≠ 0 := by
    intro h
    simp [h] at hn
  rw [maskWithNetworkMaskInv, if_neg h0, hn, ones_eq, Nat.mod_self, BitVec.ushiftRight_zero,
    BitVec.and_allOnes]

theorem keepsRest_iff (a : BitVec 32) (hn : n.toNat ≤ 32) :
    KeepsRest n.toNat a (maskWithNetworkMaskInv a n) ↔ (n.toNat = 32 → a = 0) := by
  constructor
  · intro h hwhole
    rw [maskWithNetworkMaskInv_whole a hwhole, hwhole] at h
    exact h.unique keepsRest_width
  · intro h
    by_cases hwhole : n.toNat = 32
    · rw [maskWithNetworkMaskInv_whole a hwhole, hwhole, h hwhole]
      exact keepsRest_width
    · exact keepsRest_maskWithNetworkMaskInv a (by omega)

/-- The parts of two addresses: what is kept of the first one on either side, that the
    sides make up the address again, and that the network of the first one is put
    together with the host of the second. -/
structure Subnet (a b n : BitVec 32) : Prop where
  network : KeepsFirst n.toNat a (maskWithNetworkMask a n)
  host : KeepsRest n.toNat a (maskWithNetworkMaskInv a n)
  union : set (maskWithNetworkMask a n) (maskWithNetworkMaskInv a n) = a
  combination : Joins n.toNat a b (set (maskWithNetworkMask a n) (maskWithNetworkMaskInv b n))

/-- All parts follow from the two masks. -/
theorem subnet_of_keepsRest (hn : n.toNat ≤ 32) (ha : KeepsRest n.toNat a (maskWithNetworkMaskInv a n))
    (hb : KeepsRest n.toNat b (maskWithNetworkMaskInv b n)) : Subnet a b n where
  network := keepsFirst_maskWithNetworkMask a hn
  host := ha
  union := ((keepsFirst_maskWithNetworkMask a hn).joins ha).unique joins_self
  combination := (keepsFirst_maskWithNetworkMask a hn).joins hb

/-- With the whole address as the prefix there is no host part, so the address must
    have no bit to keep, and neither must the one it is combined with. -/
theorem parts_iff (a b : BitVec 32) (hn : n.toNat ≤ 32) :
    Subnet a b n ↔ (n.toNat = 32 → a = 0 ∧ b = 0) := by
  constructor
  · intro h hwhole
    have ha : a = 0 := (keepsRest_iff a hn).mp h.host hwhole
    have hb : b = 0 := by
      have hjoin : Joins 32 a b (set a b) := by
        have hfirst : maskWithNetworkMask a n = a := by
          rw [maskWithNetworkMask, if_pos (BitVec.eq_of_toNat_eq hwhole)]
        have hc := h.combination
        rw [hfirst, maskWithNetworkMaskInv_whole b hwhole, hwhole] at hc
        exact hc
      -- all bits of the combination are those of the first address
      have hfirst : Joins 32 a b a := by
        intro i hi
        rw [if_pos hi]
      have hset : set a b = a := hjoin.unique hfirst
      rw [ha, set] at hset
      simpa using hset
    exact ⟨ha, hb⟩
  · intro h
    exact subnet_of_keepsRest hn ((keepsRest_iff a hn).mpr fun hwhole => (h hwhole).1)
      ((keepsRest_iff b hn).mpr fun hwhole => (h hwhole).2)

end IPv4

namespace IPv6

variable {n : BitVec 32}

/-- The two halves as one word. -/
def bits (ip : IPv6) : BitVec 128 := ip.highBits ++ ip.lowBits

theorem ones_eq : 0xFFFFFFFFFFFFFFFF#64 = BitVec.allOnes 64 := by decide

/-- The branches of the mask, by the length of the prefix. -/
theorem maskWithNetworkMask_of_lt (ip : IPv6) (hn : n.toNat < 64) :
    ip.maskWithNetworkMask n =
      ⟨ip.highBits &&& BitVec.allOnes 64 <<< ((64 - n.toNat) % 64), 0⟩ := by
  have h128 : n ≠ 128 := by
    intro h
    simp [h] at hn
  have h64 : n ≠ 64 := by
    intro h
    simp [h] at hn
  have hint : n.toInt = n.toNat := BitVec.toInt_eq_toNat_of_lt (by omega)
  have hsub : (64 - n).toNat = 64 - n.toNat := by
    rw [BitVec.toNat_sub]
    simp
    omega
  rw [maskWithNetworkMask, if_neg h128, if_neg h64, if_neg (by omega), hsub, ones_eq]

theorem maskWithNetworkMask_of_gt (ip : IPv6) (hlt : 64 < n.toNat) (hn : n.toNat < 128) :
    ip.maskWithNetworkMask n =
      ⟨ip.highBits, ip.lowBits &&& BitVec.allOnes 64 <<< (64 - (n.toNat - 64))⟩ := by
  have h128 : n ≠ 128 := by
    intro h
    simp [h] at hn
  have h64 : n ≠ 64 := by
    intro h
    simp [h] at hlt
  have hint : n.toInt = n.toNat := BitVec.toInt_eq_toNat_of_lt (by omega)
  have hsub : (64 - (n - 64)).toNat % 64 = 64 - (n.toNat - 64) := by
    have hrest : (n - 64).toNat = n.toNat - 64 := by
      rw [BitVec.toNat_sub]
      simp
      omega
    have hdist : (64 - (n - 64)).toNat = 64 - (n - 64).toNat := by
      rw [BitVec.toNat_sub, hrest]
      simp
      omega
    omega
  rw [maskWithNetworkMask, if_neg h128, if_neg h64, if_pos (by omega)]
  dsimp only
  rw [hsub, ones_eq]

theorem keepsFirst_maskWithNetworkMask (ip : IPv6) (hpos : 0 < n.toNat) (hn : n.toNat ≤ 128) :
    KeepsFirst n.toNat ip.bits (ip.maskWithNetworkMask n).bits := by
  by_cases hlt : n.toNat < 64
  · rw [maskWithNetworkMask_of_lt ip hlt, Nat.mod_eq_of_lt (by omega)]
    exact (keepsFirst_shiftLeft ip.highBits (by omega)).append_left (by omega) ip.lowBits
  by_cases hgt : 64 < n.toNat
  · by_cases h128 : n.toNat = 128
    · rw [maskWithNetworkMask, if_pos (BitVec.eq_of_toNat_eq h128), h128]
      exact keepsFirst_width
    · rw [maskWithNetworkMask_of_gt ip hgt (by omega)]
      have hlow := (keepsFirst_shiftLeft (n := n.toNat - 64) ip.lowBits (by omega)).append_right ip.highBits
      have hlen : 64 + (n.toNat - 64) = n.toNat := by omega
      rwa [hlen] at hlow
  · have h64 : n.toNat = 64 := by omega
    have hn64 : n = 64 := BitVec.eq_of_toNat_eq h64
    rw [maskWithNetworkMask, if_neg (by simp [hn64]), if_pos hn64, h64]
    exact keepsFirst_width.append_left le_rfl ip.lowBits

/-- Without a prefix the upper half is kept, since the mask is not shifted out. -/
theorem maskWithNetworkMask_zero (ip : IPv6) : ip.maskWithNetworkMask 0 = ⟨ip.highBits, 0⟩ := by
  have hdist : (64 - (0 : BitVec 32).toNat) % 64 = 0 := by decide
  rw [maskWithNetworkMask_of_lt ip (by simp), hdist, BitVec.shiftLeft_zero, BitVec.and_allOnes]

theorem keepsFirst_iff (ip : IPv6) (hn : n.toNat ≤ 128) :
    KeepsFirst n.toNat ip.bits (ip.maskWithNetworkMask n).bits ↔ (n.toNat = 0 → ip.highBits = 0) := by
  by_cases h0 : n.toNat = 0
  · have hzero : n = 0 := BitVec.eq_of_toNat_eq h0
    rw [hzero, maskWithNetworkMask_zero]
    constructor
    · intro h _
      apply BitVec.eq_of_getMsbD_eq
      intro i hi
      -- no bit is to be kept, the upper ones among them
      have hbit := h i (by omega)
      rw [IPv6.bits, getMsbD_append_left _ _ hi] at hbit
      simpa using hbit
    · intro h
      have hclear : IPv6.bits ⟨0, 0⟩ = 0#128 := by decide
      rw [h rfl, hclear]
      exact keepsFirst_zero
  · constructor
    · intro _ h
      exact absurd h h0
    · intro _
      exact keepsFirst_maskWithNetworkMask ip (by omega) hn

end IPv6

/-- The condition for both kinds of addresses: the shorter ones without a bit if the
    prefix is all of them, the longer one without a bit in its upper half if there is no
    prefix. -/
theorem IP.subnet_iff (a b n : BitVec 32) (ip : IPv6) (k : BitVec 32) (hn : n.toNat ≤ 32) (hk : k.toNat ≤ 128) :
    (IPv4.Subnet a b n ↔ (n.toNat = 32 → a = 0 ∧ b = 0)) ∧
      (KeepsFirst k.toNat ip.bits (ip.maskWithNetworkMask k).bits ↔ (k.toNat = 0 → ip.highBits = 0)) :=
  ⟨IPv4.parts_iff a b hn, IPv6.keepsFirst_iff ip hk⟩

/-- The ends at addresses that are not clear: 10.0.0.1 with all of it as the prefix, and
    an address of the upper half without one. -/
theorem IP.subnet_iff_ends :
    (IPv4.Subnet 0x0A000001#32 0x0A000001#32 32 ↔
      ((32#32).toNat = 32 → (0x0A000001#32 : BitVec 32) = 0 ∧ (0x0A000001#32 : BitVec 32) = 0)) ∧
      (KeepsFirst (0#32).toNat (IPv6.bits ⟨1, 0⟩) ((⟨1, 0⟩ : IPv6).maskWithNetworkMask 0).bits ↔
        ((0#32).toNat = 0 → (1 : BitVec 64) = 0)) :=
  IP.subnet_iff 0x0A000001 0x0A000001 32 ⟨1, 0⟩ 0 (by decide) (by decide)

/-- A host part of a prefix of 32 is not empty, and the network of a prefix of 0 is not
    either. -/
theorem IP.masks_at_the_ends :
    IPv4.maskWithNetworkMaskInv 0x0A000001#32 32 = 0x0A000001#32 ∧
      ¬ IPv4.Subnet 0x0A000001#32 0x0A000001#32 32 ∧
      (⟨1, 0⟩ : IPv6).maskWithNetworkMask 0 = ⟨1, 0⟩ ∧
      ¬ KeepsFirst 0 (IPv6.bits ⟨1, 0⟩) ((⟨1, 0⟩ : IPv6).maskWithNetworkMask 0).bits := by
  have hinv : IPv4.maskWithNetworkMaskInv 0x0A000001#32 32 = 0x0A000001#32 := by decide
  have hmask : (⟨1, 0⟩ : IPv6).maskWithNetworkMask 0 = ⟨1, 0⟩ := by decide
  refine ⟨hinv, ?_, hmask, ?_⟩
  · intro h
    -- the last bit is set, and no bit should be
    have hbit := h.host 31 (by omega)
    rw [hinv] at hbit
    exact absurd hbit (by decide)
  · intro h
    have hbit := h 63 (by omega)
    rw [hmask] at hbit
    exact absurd hbit (by decide)

end TomP2P
