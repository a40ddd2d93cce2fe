import TomP2P.Core.BloomOperations

/-!
# Counting Bloom Filters

A Bloom filter with an `int` instead of each bit. An element has as many numbers as there are hash
functions, of a `Random` with its hash code for the seed. They need not be different. To add the
element is to count up at each of them, and a counter that has reached the greatest `int` stays.

As for `BloomFilter`, of `Random` only the range matters, and the number of hash functions is
taken as given. For an array without counters it is computed as zero (zero times a logarithm, or
no number, which is converted to zero).

## Main definitions

* `CountingHashing`: Hash codes, random numbers and the number of hash functions.
* `CountingBloomFilter`: A filter.
* `CountingBloomFilter.add`, `CountingBloomFilter.approximateCount`: What is done with it.
-/

namespace TomP2P

/-- What the counters of an element depend on. -/
structure CountingHashing (E : Type) extends BloomHashing E where
  hashes_zero : ∀ expectedElements, hashes 0 expectedElements ≤ 0

/-- A counting Bloom filter over an array. -/
structure CountingBloomFilter where
  expectedElements : BitVec 32
  intSet : List Int
  length_lt : intSet.length < 2 ^ 31
  deriving DecidableEq

namespace CountingBloomFilter

variable {E : Type}

/-- The greatest `int`. -/
def MAX_VALUE : Int := 2147483647

def intArraySize (b : CountingBloomFilter) : BitVec 32 := BitVec.ofNat 32 b.intSet.length

/-- The number of hash functions. -/
def k (b : CountingBloomFilter) (h : CountingHashing E) : Int := h.hashes b.intArraySize b.expectedElements

/-- A `Random` gives no numbers below a bound that is not positive. -/
def drawable (b : CountingBloomFilter) (h : CountingHashing E) : Bool := decide (b.k h ≤ 0 ∨ 0 < b.intArraySize.toInt)

/-- The numbers of the counters of an element. -/
def positions (b : CountingBloomFilter) (h : CountingHashing E) (o : E) : List Nat :=
  (List.range (b.k h).toNat).map (h.nextInt (h.hashCode o) b.intArraySize.toInt.toNat)

/-- The value after an old one. -/
def next (old : Int) : Int := if old ≠ MAX_VALUE then int (old + 1) else old

/-- A pass of the loop: counts up. -/
def countUp (b : CountingBloomFilter) (index : Nat) : CountingBloomFilter where
  expectedElements := b.expectedElements
  intSet := b.intSet.modify index next
  length_lt := by simpa using b.length_lt

def add (b : CountingBloomFilter) (h : CountingHashing E) (o : E) : Except JavaException CountingBloomFilter :=
  if b.drawable h then .ok ((b.positions h o).foldl countUp b)
  else .error (.illegalArgument "bound must be positive")

def addAll (h : CountingHashing E) : CountingBloomFilter → List E → Except JavaException CountingBloomFilter
  | b, [] => .ok b
  | b, o :: os => do
      let b ← b.add h o
      addAll h b os

/-- The least counter of an element. -/
def approximateCount (b : CountingBloomFilter) (h : CountingHashing E) (key : E) : Except JavaException Int :=
  if b.drawable h then .ok ((b.positions h key).foldl (fun retVal index => min retVal (b.intSet.getD index 0)) MAX_VALUE)
  else .error (.illegalArgument "bound must be positive")

end CountingBloomFilter

end TomP2P
