import TomP2P.Core.Number
import TomP2P.Core.Signature
import TomP2P.Foundation.Md5

/-!
# Differences of Values

How a value is brought up to date with the parts of it that have changed.

The peer with the old value cuts it into blocks and sends two checksums of each. The
peer with the new value slides a window over it and looks for a block with the same
checksums: if there is one the window is sent as a reference to the block, and what
lies between two references is sent literally. The weak checksum is cheap, since it
follows the window; the strong one is an MD5 hash and is made only if the weak ones
are equal.

Indices are `int`, and every sum and product of them is cut to 32 bits (`int`). An
access outside of an array throws. The loop over the new value is given the number
of passes it may take, and has no result if they are not enough.

## Main definitions

* `RollingChecksum`: The weak checksum of a window.
* `RSync.checksums`, `RSync.matchesIn`, `RSync.instructions`: The difference of a value
  to one that is known by its checksums.
* `RSync.reconstruct`: The new value from the old one and the difference.
* `RSync.drained`: What is left of the difference by that.
-/

namespace TomP2P

open Wire

/-- An element of an array. -/
def readAt (array : Bytes) (index : Int) : Except JavaException (BitVec 8) :=
  if index < 0 then .error .indexOutOfBounds
  else
    match array[index.toNat]? with
    | none => .error .indexOutOfBounds
    | some byte => .ok byte

/-- Elements of an array. -/
def readRange (array : Bytes) (offset length : Int) : Except JavaException Bytes :=
  if offset < 0 ∨ length < 0 ∨ array.length < offset + length then .error .indexOutOfBounds
  else .ok ((array.drop offset.toNat).take length.toNat)

/-- The weak checksum of a window of an array. -/
structure RollingChecksum where
  a : BitVec 32 := 1
  b : BitVec 32 := 0
  length : Int := 0
  offset : Int := 0

namespace RollingChecksum

def reset (c : RollingChecksum) : RollingChecksum := { c with a := 1, b := 0 }

/-- One more byte. -/
def push (c : RollingChecksum) (byte : BitVec 8) : RollingChecksum :=
  let a := (c.a + byte.setWidth 32) &&& 0xffff
  { c with a := a, b := (c.b + a) &&& 0xffff }

/-- The checksum with a part of the array, which becomes its window. -/
def update (c : RollingChecksum) (array : Bytes) (offset length : Int) : Except JavaException RollingChecksum := do
  let c ← (List.range length.toNat).foldlM
    (fun (c : RollingChecksum) (i : Nat) => c.push <$> readAt array (int (i + offset))) c
  return { c with length := length, offset := offset }

def value (c : RollingChecksum) : BitVec 32 := c.b <<< 16 ||| c.a

/-- Slides the window by one byte. -/
def updateRolling (c : RollingChecksum) (array : Bytes) : Except JavaException RollingChecksum := do
  let removed ← readAt array c.offset
  let added ← readAt array (int (c.offset + c.length))
  let a := (c.a - removed.setWidth 32 + added.setWidth 32) &&& 0xffff
  let b := (c.b - BitVec.ofInt 32 c.length * removed.setWidth 32 + a - 1) &&& 0xffff
  return { c with offset := int (c.offset + 1), a := a, b := b }

end RollingChecksum

/-- The two checksums of a block. -/
structure Checksum where
  weakChecksum : BitVec 32
  strongChecksum : Bytes
  deriving DecidableEq

/-- Literal data: a part of an array, or a buffer that was received, with what can be read
    of it. -/
inductive RArray
  | array (array : Bytes) (offset length : Int)
  | dataBuffer (buffer : Bytes)
  deriving DecidableEq

/-- A reference to a block, or literal data. -/
inductive Instruction
  | reference (reference : Int)
  | literal (literal : RArray)
  deriving DecidableEq

namespace RSync

def makeMD5Hash (buffer : Bytes) (offset length : Int) : Except JavaException Bytes :=
  md5 <$> readRange buffer offset length

/-- The checksums of the blocks of a value. -/
def checksums (value : Bytes) (blockSize : Int) : Except JavaException (List Checksum) :=
  let numberOfBlocks := (int (int (value.length + blockSize) - 1)).tdiv blockSize
  if numberOfBlocks < 0 then .error (.illegalArgument "Illegal Capacity")
  else (List.range numberOfBlocks.toNat).mapM fun (i : Nat) => do
    let remaining := min blockSize (value.length - int (i * blockSize))
    let adler ← ({} : RollingChecksum).reset.update value (int (i * blockSize)) remaining
    let strongChecksum ← makeMD5Hash value (int (i * blockSize)) remaining
    return ⟨adler.value, strongChecksum⟩

/-- The index of the first block from `i` on with the checksums of a part of the
    buffer, or -1. -/
def matchesFrom (wcs : BitVec 32) (buffer : Bytes) (offset length : Int) :
    Int → List Checksum → Except JavaException Int
  | _, [] => .ok (-1)
  | i, checksum :: rest =>
      if checksum.weakChecksum = wcs then do
        let md5 ← makeMD5Hash buffer offset length
        if checksum.strongChecksum = md5 then .ok i
        else matchesFrom wcs buffer offset length (i + 1) rest
      else matchesFrom wcs buffer offset length (i + 1) rest

def matchesIn (wcs : BitVec 32) (buffer : Bytes) (offset length : Int) (checksums : List Checksum) :
    Except JavaException Int :=
  matchesFrom wcs buffer offset length 0 checksums

/-- The variables of the loop over the new value. -/
structure Loop where
  adler : RollingChecksum
  offset : Int := 0
  lastRefFound : Int := 0
  remaining : Int
  result : List Instruction := []

/-- One pass of the loop. The answer says whether there is another one. -/
def pass (array : Bytes) (checksums : List Checksum) (blockSize : Int) (l : Loop) :
    Except JavaException (Bool × Loop) := do
  let reference ← matchesIn l.adler.value array l.offset l.remaining checksums
  if reference ≠ -1 then
    let literal := if l.offset > l.lastRefFound then
      [Instruction.literal (.array array l.lastRefFound (l.offset - l.lastRefFound))] else []
    let offset := int (l.offset + l.remaining)
    let remaining := min blockSize (array.length - offset)
    let l := { l with
      result := l.result ++ literal ++ [.reference reference]
      offset := offset
      lastRefFound := offset
      remaining := remaining }
    if remaining = 0 then return (false, l)
    let adler ← l.adler.reset.update array offset remaining
    return (true, { l with adler := adler })
  else
    let l := { l with offset := int (l.offset + 1) }
    if blockSize > array.length - l.offset then return (false, l)
    let adler ← l.adler.updateRolling array
    return (true, { l with adler := adler })

/-- The passes of the loop, of which there may be so many. -/
def passes (array : Bytes) (checksums : List Checksum) (blockSize : Int) :
    Nat → Loop → Option (Except JavaException Loop)
  | 0, _ => none
  | fuel + 1, l =>
      match pass array checksums blockSize l with
      | .error e => some (.error e)
      | .ok (true, l) => passes array checksums blockSize fuel l
      | .ok (false, l) => some (.ok l)

/-- The instructions for a new value. -/
def instructions (fuel : Nat) (array : Bytes) (checksums : List Checksum) (blockSize : Int) :
    Option (Except JavaException (List Instruction)) :=
  let remaining := min blockSize (array.length : Int)
  match ({} : RollingChecksum).update array 0 remaining with
  | .error e => some (.error e)
  | .ok adler =>
      (passes array checksums blockSize fuel { adler := adler, remaining := remaining }).map fun result => do
        let l ← result
        if (array.length : Int) > l.lastRefFound then
          return l.result ++ [.literal (.array array l.lastRefFound (array.length - l.lastRefFound))]
        else return l.result

/-- What one instruction adds to the value. -/
def reconstructed (value : Bytes) (blockSize : Int) : Instruction → Except JavaException Bytes
  | .reference ref =>
      let offset := int (blockSize * ref)
      readRange value offset (min blockSize (value.length - offset))
  | .literal (.array array offset length) => readRange array offset length
  | .literal (.dataBuffer buffer) => .ok buffer

/-- The value that a call returns. -/
def reconstruct (value : Bytes) (instructions : List Instruction) (blockSize : Int) :
    Except JavaException Bytes :=
  instructions.foldlM (fun result instruction => (result ++ ·) <$> reconstructed value blockSize instruction) []

/-- What a call leaves of an instruction: a buffer that was received is read to its end. -/
def drainedOne : Instruction → Instruction
  | .literal (.dataBuffer _) => .literal (.dataBuffer [])
  | instruction => instruction

/-- What a call leaves of the instructions, as far as it comes. -/
def drained (value : Bytes) (blockSize : Int) : List Instruction → List Instruction
  | [] => []
  | instruction :: instructions =>
      match reconstructed value blockSize instruction with
      | .error _ => instruction :: instructions
      | .ok _ => drainedOne instruction :: drained value blockSize instructions

/-- Calls one after the other with the same list of instructions, each with a value and a size of
    the blocks. -/
def reconstructEach : List (Bytes × Int) → List Instruction → List (Except JavaException Bytes)
  | [], _ => []
  | (value, blockSize) :: calls, instructions =>
      reconstruct value instructions blockSize :: reconstructEach calls (drained value blockSize instructions)

end RSync

end TomP2P
