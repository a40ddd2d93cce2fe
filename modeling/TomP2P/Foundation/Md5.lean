import TomP2P.Foundation.Bytes

/-!
# MD5

The hash function that tells blocks of values apart, as an executable function on
byte strings.

As with `Sha1` nothing is proved about it. What is needed of it is that different
blocks have different digests, and that is an assumption on the blocks.

## Main definitions

* `Md5.pad`: The message with its padding and length field.
* `Md5.compress`: The effect of one block of 64 bytes on the chaining value.
* `md5`: The digest of a byte string.
-/

namespace Wire

namespace Md5

/-- A 32-bit word. -/
abbrev Word := BitVec 32

/-- The chaining value: four words. -/
structure Digest where
  a : Word
  b : Word
  c : Word
  d : Word
  deriving DecidableEq

/-- The chaining value a digest starts from. -/
def initial : Digest := ⟨0x67452301, 0xEFCDAB89, 0x98BADCFE, 0x10325476⟩

/-- The message followed by a set bit, zeros up to 56 bytes modulo 64, and its
    length in bits, the lowest byte first. -/
def pad (bs : Bytes) : Bytes :=
  bs ++ 0x80#8 :: (List.replicate ((119 - bs.length % 64) % 64) 0#8 ++ (toBE 8 (8 * bs.length)).reverse)

/-- The words of a byte string, four bytes each, the lowest byte first. -/
def words : Bytes → List Word
  | a :: b :: c :: d :: rest => BitVec.ofNat 32 (ofBE [d, c, b, a]) :: words rest
  | _ => []

/-- The constants of the rounds. -/
def constants : List Word :=
  [
    0xD76AA478, 0xE8C7B756, 0x242070DB, 0xC1BDCEEE, 0xF57C0FAF, 0x4787C62A, 0xA8304613, 0xFD469501,
    0x698098D8, 0x8B44F7AF, 0xFFFF5BB1, 0x895CD7BE, 0x6B901122, 0xFD987193, 0xA679438E, 0x49B40821,
    0xF61E2562, 0xC040B340, 0x265E5A51, 0xE9B6C7AA, 0xD62F105D, 0x02441453, 0xD8A1E681, 0xE7D3FBC8,
    0x21E1CDE6, 0xC33707D6, 0xF4D50D87, 0x455A14ED, 0xA9E3E905, 0xFCEFA3F8, 0x676F02D9, 0x8D2A4C8A,
    0xFFFA3942, 0x8771F681, 0x6D9D6122, 0xFDE5380C, 0xA4BEEA44, 0x4BDECFA9, 0xF6BB4B60, 0xBEBFBC70,
    0x289B7EC6, 0xEAA127FA, 0xD4EF3085, 0x04881D05, 0xD9D4D039, 0xE6DB99E5, 0x1FA27CF8, 0xC4AC5665,
    0xF4292244, 0x432AFF97, 0xAB9423A7, 0xFC93A039, 0x655B59C3, 0x8F0CCC92, 0xFFEFF47D, 0x85845DD1,
    0x6FA87E4F, 0xFE2CE6E0, 0xA3014314, 0x4E0811A1, 0xF7537E82, 0xBD3AF235, 0x2AD7D2BB, 0xEB86D391
  ]

/-- How far round `i` rotates. -/
def rotation (i : Nat) : Nat :=
  if i < 16 then [7, 12, 17, 22].getD (i % 4) 0
  else if i < 32 then [5, 9, 14, 20].getD (i % 4) 0
  else if i < 48 then [4, 11, 16, 23].getD (i % 4) 0
  else [6, 10, 15, 21].getD (i % 4) 0

/-- The round function of round `i`, and the word of the block it uses. -/
def roundFunction (i : Nat) (b c d : Word) : Word × Nat :=
  if i < 16 then ((b &&& c) ||| (~~~b &&& d), i)
  else if i < 32 then ((d &&& b) ||| (~~~d &&& c), (5 * i + 1) % 16)
  else if i < 48 then (b ^^^ c ^^^ d, (3 * i + 5) % 16)
  else (c ^^^ (b ||| ~~~d), 7 * i % 16)

def round (block : List Word) (v : Digest) (i : Nat) : Digest :=
  let fg := roundFunction i v.b v.c v.d
  let f := fg.1 + v.a + constants.getD i 0 + block.getD fg.2 0
  ⟨v.d, v.b + f.rotateLeft (rotation i), v.b, v.c⟩

/-- The effect of one block, given as its sixteen words. -/
def compress (h : Digest) (block : List Word) : Digest :=
  let v := (List.range 64).foldl (round block) h
  ⟨h.a + v.a, h.b + v.b, h.c + v.c, h.d + v.d⟩

/-- The blocks of a padded message folded into the chaining value, at most
    `n` of them. -/
def absorb : Nat → Digest → List Word → Digest
  | 0, h, _ => h
  | n + 1, h, ws => if ws = [] then h else absorb n (compress h (ws.take 16)) (ws.drop 16)

/-- The bytes of a word, the lowest one first. -/
def bytesOf (w : Word) : Bytes := (toBE 4 w.toNat).reverse

end Md5

/-- The digest of a byte string. -/
def md5 (bs : Bytes) : Bytes :=
  let ws := Md5.words (Md5.pad bs)
  let h := Md5.absorb ws.length Md5.initial ws
  Md5.bytesOf h.a ++ Md5.bytesOf h.b ++ Md5.bytesOf h.c ++ Md5.bytesOf h.d

theorem length_md5 (bs : Bytes) : (md5 bs).length = 16 := by
  simp only [md5, Md5.bytesOf, List.length_append, List.length_reverse, length_toBE]

-- The digest of "abc".
example : md5 [0x61, 0x62, 0x63] =
    [0x90, 0x01, 0x50, 0x98, 0x3C, 0xD2, 0x4F, 0xB0, 0xD6, 0x96, 0x3F, 0x7D, 0x28, 0xE1, 0x7F, 0x72] := by
  decide +kernel

end Wire
