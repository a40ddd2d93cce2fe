import TomP2P.Core.DSASignatureCodec

/-!
# Keys from and to Other Values

The constructors of `Number160` from strings and numbers, and what a key is converted to.

A string is the list of its characters. It is hexadecimal with a `0x` in front, and zero without
leading zeros is the `0x` alone. Of `Character.digit` the characters of ASCII are known; which
other characters are digits is taken as given.

## Main definitions

* `Number160.ofString`, `Number160.ofLong`: The constructors.
* `Number160.toString`: The string of a key, with or without leading zeros.
* `Number160.equals`: The comparison word by word.
* `Number160.intValue`, `Number160.longValue`: A key as a number of the language.
-/

namespace TomP2P

open Wire Reader

/-- The hexadecimal digit that a character is, and `-1` if it is none. -/
def digit (other : Char → Int) (ch : Char) : Int :=
  if '0' ≤ ch ∧ ch ≤ '9' then ch.toNat - 48
  else if 'a' ≤ ch ∧ ch ≤ 'f' then ch.toNat - 87
  else if 'A' ≤ ch ∧ ch ≤ 'F' then ch.toNat - 55
  else if ch.toNat < 128 then -1
  else other ch

namespace Number160

def STRING_LENGTH : Nat := 42

def CHARS_PER_INT : Nat := 8

def DIGITS : List Char := ['0', '1', '2', '3', '4', '5', '6', '7', '8', '9', 'a', 'b', 'c', 'd', 'e', 'f']

/-- Changes one of the words. -/
def modifyWord (n : Number160) (i : Nat) (f : BitVec 32 → BitVec 32) : Number160 :=
  match i with
  | 0 => { n with val0 := f n.val0 }
  | 1 => { n with val1 := f n.val1 }
  | 2 => { n with val2 := f n.val2 }
  | 3 => { n with val3 := f n.val3 }
  | 4 => { n with val4 := f n.val4 }
  | _ => n

/-! ### Constructors -/

/-- Reads digits; the next one has place `i`. -/
def ofStringLoop (other : Char → Int) : Nat → List Char → Number160 → Except JavaException Number160
  | _, [], n => .ok n
  | i, ch :: tmp, n =>
      if digit other ch < 0 then
        .error (.runtime ("Not a hexadecimal number \"" ++ String.singleton ch ++ "\". The range is [0-9a-f]"))
      else
        ofStringLoop other (i + 1) tmp
          (n.modifyWord (i >>> 3) fun val => val <<< 4 + (BitVec.ofInt 32 (digit other ch) &&& 15#32))

def ofString (other : Char → Int) (val : List Char) : Except JavaException Number160 :=
  if STRING_LENGTH < val.length then
    .error (.illegalArgument ("Can only deal with strings of size smaller or equal to " ++
      Nat.repr STRING_LENGTH ++ ". Provided string has " ++ Nat.repr val.length ++ " length."))
  else if ['0', 'x'].isPrefixOf val then ofStringLoop other (STRING_LENGTH - val.length) (val.drop 2) ZERO
  else .error (.illegalArgument (String.ofList val ++ " is not in hexadecimal form. Decimal form is not supported yet"))

/-- The lower half is the last word. -/
def ofLong (val : BitVec 64) : Number160 :=
  { ZERO with val4 := val.setWidth 32, val3 := (val.sshiftRight 32).setWidth 32 }

/-! ### Conversions -/

/-- Writes the digits of a word from the last one on, in front of those that were written. -/
def toHexLoop (removeLeadingZero : Bool) : Nat → BitVec 32 → List Char → List Char
  | 0, _, buf => buf
  | i + 1, integer, buf =>
      if removeLeadingZero && integer == 0 then buf
      else toHexLoop removeLeadingZero i (integer >>> 4) (DIGITS.getD (integer &&& 15#32).toNat '0' :: buf)

def toHex (integer : BitVec 32) (removeLeadingZero : Bool) : List Char :=
  toHexLoop removeLeadingZero CHARS_PER_INT integer []

/-- Zeros are removed until there was a word that is not zero. -/
def toStringLoop : Bool → List (BitVec 32) → List Char
  | _, [] => []
  | removeZero, val :: vals =>
      toHex val removeZero ++ toStringLoop (if removeZero && val != 0 then false else removeZero) vals

protected def toString (n : Number160) (removeLeadingZero : Bool) : List Char :=
  '0' :: 'x' :: toStringLoop removeLeadingZero n.words

def equals (n key : Number160) : Bool := (key.words.zip n.words).all fun (v, w) => v == w

def intValue (n : Number160) : BitVec 32 := n.val4

/-- The last word is taken for the upper half. -/
def longValue (n : Number160) : BitVec 64 := n.val4.setWidth 64 <<< 32 + n.val3.setWidth 64

end Number160

end TomP2P
