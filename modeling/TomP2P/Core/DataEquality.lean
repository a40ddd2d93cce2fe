import TomP2P.Core.TrackerDataCodec
import TomP2P.Core.WordSet

/-!
# Hash Codes of Values

The hash code of a value, beside `Data.equals`. It is made of the flags, the numbers, the
predecessors and the payload. The hash code of a payload is that of its bytes, and is taken
as given.

## Main definitions

* `BitSet.hashCode`: The hash code of a bit set.
* `Data.hashCode`: The hash code of a value.
-/

namespace TomP2P

namespace BitSet

/-- The bits from `64 * i` on, in a word. -/
def word (s : BitSet) (i : Nat) : BitVec 64 :=
  (List.range 64).foldl (fun word j => if s.get (64 * i + j) then word ||| 1 <<< j else word) 0

/-- The words that are in use, multiplied by their numbers. -/
def hashCode (s : BitSet) : BitVec 32 :=
  let h := (List.range ((s.length + 63) / 64)).foldl (fun h i => h ^^^ s.word i * BitVec.ofNat 64 (i + 1)) 1234
  (h.sshiftRight 32 ^^^ h).truncate 32

end BitSet

namespace Data

variable (bufferHash : Wire.Bytes → BitVec 32)

def hashCode (d : Data) : BitVec 32 :=
  let bs := BitSet.ofBits
    [d.signed, d.ttl, d.basedOnFlag, d.protectedEntry, d.publicKeyFlag, d.flag1, d.flag2, d.prepareFlag]
  let hashCode := bs.hashCode ^^^ d.ttlSeconds ^^^ d.type.ordinal ^^^ d.length
  d.basedOnSet.elems.foldl (fun hashCode basedOn => hashCode ^^^ basedOn.hashCode) hashCode ^^^ bufferHash d.buffer

end Data

end TomP2P
