import TomP2P.Foundation.Bytes

/-!
# SHA-1

The hash function that names contents and keys, as an executable function on
byte strings.

Nothing below is proved about it: the development treats digests as opaque, and
the definition is here so that a key that hashes to a given name is a concrete
thing. The message schedule is kept as a sliding window of sixteen words, so
the eighty rounds are one fold.

## Main definitions

* `pad`: The message with its padding and length field.
* `compress`: The effect of one block of 64 bytes on the chaining value.
* `sha1`: The digest of a byte string, as five words.
-/

namespace Wire

namespace Sha1

/-- A 32-bit word. -/
abbrev Word := BitVec 32

/-- The chaining value: five words. -/
structure Digest where
  h0 : Word
  h1 : Word
  h2 : Word
  h3 : Word
  h4 : Word
  deriving DecidableEq

/-- The chaining value a digest starts from. -/
def initial : Digest := ⟨0x67452301, 0xEFCDAB89, 0x98BADCFE, 0x10325476, 0xC3D2E1F0⟩

/-- The message followed by a set bit, zeros up to 56 bytes modulo 64, and its
    length in bits. -/
def pad (bs : Bytes) : Bytes :=
  bs ++ 0x80#8 :: (List.replicate ((119 - bs.length % 64) % 64) 0#8 ++ toBE 8 (8 * bs.length))

/-- The words of a byte string, four bytes each. -/
def words : Bytes → List Word
  | a :: b :: c :: d :: rest => BitVec.ofNat 32 (ofBE [a, b, c, d]) :: words rest
  | _ => []

/-- The round function and constant of round `t`. -/
def roundFunction (t : Nat) (b c d : Word) : Word × Word :=
  if t < 20 then ((b &&& c) ||| (~~~b &&& d), 0x5A827999)
  else if t < 40 then (b ^^^ c ^^^ d, 0x6ED9EBA1)
  else if t < 60 then ((b &&& c) ||| (b &&& d) ||| (c &&& d), 0x8F1BBCDC)
  else (b ^^^ c ^^^ d, 0xCA62C1D6)

/-- One round: the working words and the window of the message schedule, whose
    first word is the one this round uses. -/
def round (s : Digest × List Word) (t : Nat) : Digest × List Word :=
  let (v, window) := s
  let fk := roundFunction t v.h1 v.h2 v.h3
  let word := v.h0.rotateLeft 5 + fk.1 + v.h4 + fk.2 + window.headD 0
  let next := (window.getD 13 0 ^^^ window.getD 8 0 ^^^ window.getD 2 0 ^^^
    window.headD 0).rotateLeft 1
  (⟨word, v.h0, v.h1.rotateLeft 30, v.h2, v.h3⟩, window.tail ++ [next])

/-- The effect of one block, given as its sixteen words. -/
def compress (h : Digest) (block : List Word) : Digest :=
  let v := ((List.range 80).foldl round (h, block)).1
  ⟨h.h0 + v.h0, h.h1 + v.h1, h.h2 + v.h2, h.h3 + v.h3, h.h4 + v.h4⟩

/-- The blocks of a padded message folded into the chaining value, at most
    `n` of them. -/
def absorb : Nat → Digest → List Word → Digest
  | 0, h, _ => h
  | n + 1, h, ws => if ws = [] then h else absorb n (compress h (ws.take 16)) (ws.drop 16)

end Sha1

/-- The digest of a byte string. -/
def sha1 (bs : Bytes) : Sha1.Digest :=
  let ws := Sha1.words (Sha1.pad bs)
  Sha1.absorb ws.length Sha1.initial ws

-- The digest of "abc".
example : sha1 [0x61, 0x62, 0x63] =
    ⟨0xA9993E36, 0x4706816A, 0xBA3E2571, 0x7850C26C, 0x9CD0D89D⟩ := by decide +kernel

end Wire
