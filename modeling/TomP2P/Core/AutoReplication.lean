import TomP2P.Foundation.LinearSearch
import Mathlib.Data.Rat.Defs
import Mathlib.Algebra.Order.Ring.Rat

/-!
# Automatic Replication

How many replicas are needed so that not all of them are lost, given how many peers are
expected to leave.

If `m` of `n` peers leave, then the probability that `f` replicas are all on peers that leave is
the number of ways to choose `f` of `m` peers over the number of ways to choose `f` of `n`
peers. The first version computes it so, the second one as a product of `f` fractions. Each
returns the first factor with which the replicas are reliable enough.

The program computes with floating point numbers, for which there are rational ones here. It
divides by zero only if there are factors above the number of peers.

## Main definitions

* `AutoReplication.choose`: Binomial coefficients.
* `AutoReplication.replicationFactor`, `AutoReplication.replicationFactor2`: The two versions.
-/

namespace TomP2P

namespace AutoReplication

/-- The loop of `choose`, up to `i`. What is multiplied with is between one and `n`. -/
def chooseLoop (n : Int) : Nat → ℚ
  | 0 => 1
  | i + 1 => chooseLoop n i * (n + 1 - (i + 1) : Int) / (i + 1 : Nat)

def choose (n k : Int) : ℚ :=
  if k < 0 ∨ k > n then 0
  else
    -- choose(n, k) is choose(n, n - k), which saves a little effort
    let k := if k > n.tdiv 2 then n - k else k
    chooseLoop n k.toNat

/-- The inner loop of the second version, up to `i`. -/
def lossLoop (m n : Int) : Nat → ℚ
  | 0 => 1
  | i + 1 => lossLoop m n i * (m - i : Int) / (n - i : Int)

variable (m n : Int) (r : ℚ) (minReplicationFactor maxReplicationFactor : Int)

/-- The loop over the factors, given the probability that all replicas are lost. -/
def factorLoop (p : Int → ℚ) : Int :=
  LinearSearch.searchUp (fun f => 1 - p f ≥ r) maxReplicationFactor (maxReplicationFactor - minReplicationFactor).toNat
    minReplicationFactor

def replicationFactor : Int :=
  factorLoop r minReplicationFactor maxReplicationFactor fun f => choose m f / choose n f

def replicationFactor2 : Int :=
  factorLoop r minReplicationFactor maxReplicationFactor fun f => lossLoop m n f.toNat

end AutoReplication

end TomP2P
