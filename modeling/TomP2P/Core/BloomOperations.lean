import TomP2P.Core.WordSet

/-!
# Working with a Bloom Filter

What is done to a Bloom filter before and after it travels. An element sets as many bits as
there are hash functions, at the numbers that a `Random` with the hash code of the element for
its seed gives, and it is contained if all of them are set.

A filter is made with a number of bytes, which is multiplied by eight to get the number of bits.
Both are an `int`. The number of hash functions follows from the number of bits and the number
of elements that are expected; it is computed with floating point numbers and taken as given
here. So is `Random`: of what it gives only the range matters.

## Main definitions

* `BloomHashing`: Hash codes, the random numbers and the number of hash functions.
* `BloomFilter`: A filter in memory.
* `BloomFilter.add`, `BloomFilter.contains`, `BloomFilter.setAll`, `BloomFilter.isFull`,
  `BloomFilter.merge`: What is done to it.
* `BloomFilter.encode`, `BloomFilter.decode`: On the way and back.
-/

namespace TomP2P

open Wire Reader

/-- What the bits of an element depend on. -/
structure BloomHashing (E : Type) where
  hashCode : E → BitVec 32
  /-- The numbers that a `Random` gives, by its seed and the bound. -/
  nextInt : BitVec 32 → Nat → Nat → Nat
  nextInt_lt : ∀ seed bound x, 0 < bound → nextInt seed bound x < bound
  /-- The number of hash functions for a number of bits and a number of elements. -/
  hashes : BitVec 32 → BitVec 32 → Int

/-- A Bloom filter in memory. -/
structure BloomFilter where
  byteArraySize : BitVec 32
  expectedElements : BitVec 32
  bitSet : WordSet
  deriving DecidableEq

namespace BloomFilter

variable {E : Type}

def bitArraySize (b : BloomFilter) : BitVec 32 := b.byteArraySize * 8

/-- The number of hash functions. -/
def k (b : BloomFilter) (h : BloomHashing E) : Int := h.hashes b.bitArraySize b.expectedElements

/-- A bit set is not made with a negative number of bits. -/
def new (byteArraySize expectedElements : BitVec 32) : Except JavaException BloomFilter :=
  let nbits := (byteArraySize * 8).toInt
  if nbits < 0 then .error .negativeArraySize
  else .ok ⟨byteArraySize, expectedElements, .ofSize nbits.toNat⟩

/-- A `Random` gives no numbers below a bound that is not positive. -/
def drawable (b : BloomFilter) (h : BloomHashing E) : Bool := decide (b.k h ≤ 0 ∨ 0 < b.bitArraySize.toInt)

/-- The numbers of the bits of an element. -/
def positions (b : BloomFilter) (h : BloomHashing E) (o : E) : List Nat :=
  (List.range (b.k h).toNat).map (h.nextInt (h.hashCode o) b.bitArraySize.toInt.toNat)

/-- Sets the bits of an element. If there are no numbers, there is none for the first one. -/
def add (b : BloomFilter) (h : BloomHashing E) (o : E) : Except JavaException BloomFilter :=
  if b.drawable h then .ok { b with bitSet := (b.positions h o).foldl WordSet.set b.bitSet }
  else .error (.illegalArgument "bound must be positive")

def addAll (h : BloomHashing E) : BloomFilter → List E → Except JavaException BloomFilter
  | b, [] => .ok b
  | b, o :: os =>
      match b.add h o with
      | .error e => .error e
      | .ok b => addAll h b os

def clear (b : BloomFilter) : BloomFilter := { b with bitSet := b.bitSet.clear }

/-- The filter is empty and cannot be filled. -/
def isVoid (b : BloomFilter) : Bool := decide (b.byteArraySize = 0 ∧ b.expectedElements = 0)

def contains (b : BloomFilter) (h : BloomHashing E) (o : E) : Except JavaException Bool :=
  if b.isVoid then .ok false
  else if b.drawable h then .ok ((b.positions h o).all b.bitSet.bits.get)
  else .error (.illegalArgument "bound must be positive")

/-- All bits there is room for are set. -/
def isFull (b : BloomFilter) : Bool := decide (b.bitSet.bits.cardinality = b.bitSet.size)

def size (b : BloomFilter) : BitVec 32 := b.byteArraySize + 6

def setAll (b : BloomFilter) : BloomFilter := { b with bitSet := b.bitSet.setRange b.bitSet.size }

/-- The filter is made with the number of bits where the number of bytes is meant. -/
def merge (b toMerge : BloomFilter) : Except JavaException BloomFilter :=
  if toMerge.bitArraySize ≠ b.bitArraySize then
    .error (.runtime "The two bloomfilters must have the same size.")
  else .ok ⟨b.bitArraySize, b.expectedElements, b.bitSet.clone.or toMerge.bitSet⟩

def equals (h : BloomHashing E) (b o : BloomFilter) : Bool :=
  decide (o.k h = b.k h ∧ o.bitArraySize = b.bitArraySize ∧ b.expectedElements = o.expectedElements ∧
    b.bitSet.bits = o.bitSet.bits)

/-! ### On the way -/

/-- What of a filter travels. -/
def sent (b : BloomFilter) : SimpleBloomFilter := ⟨b.byteArraySize.toInt, b.expectedElements, b.bitSet.bits⟩

/-- What arrives, with the bits set one after the other. -/
def received (b : SimpleBloomFilter) : BloomFilter :=
  ⟨BitVec.ofInt 32 b.byteArraySize, b.expectedElements, .ofBits b.bitSet⟩

def encode (b : BloomFilter) : Except JavaException Bytes := b.sent.encode

def decode {σ : Type} : Reader JavaException σ BloomFilter := received <$> SimpleBloomFilter.decode

/-! ### Calls -/

/-- What changes a filter. -/
inductive Call (E : Type)
  | add (o : E)
  | addAll (os : List E)
  | clear
  | setAll

def call (h : BloomHashing E) (b : BloomFilter) : Call E → Except JavaException BloomFilter
  | .add o => b.add h o
  | .addAll os => b.addAll h os
  | .clear => .ok b.clear
  | .setAll => .ok b.setAll

end BloomFilter

end TomP2P
