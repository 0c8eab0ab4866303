import Montage.Text.Utf8

/-!
The MD5 digest of a text, in hexadecimal.
-/

namespace Montage.Text.Md5

/-- The constant of each of the 64 steps. -/
def constants : Array UInt32 := #[
    0xd76aa478, 0xe8c7b756, 0x242070db, 0xc1bdceee, 0xf57c0faf, 0x4787c62a, 0xa8304613,
    0xfd469501, 0x698098d8, 0x8b44f7af, 0xffff5bb1, 0x895cd7be, 0x6b901122, 0xfd987193,
    0xa679438e, 0x49b40821, 0xf61e2562, 0xc040b340, 0x265e5a51, 0xe9b6c7aa, 0xd62f105d,
    0x02441453, 0xd8a1e681, 0xe7d3fbc8, 0x21e1cde6, 0xc33707d6, 0xf4d50d87, 0x455a14ed,
    0xa9e3e905, 0xfcefa3f8, 0x676f02d9, 0x8d2a4c8a, 0xfffa3942, 0x8771f681, 0x6d9d6122,
    0xfde5380c, 0xa4beea44, 0x4bdecfa9, 0xf6bb4b60, 0xbebfbc70, 0x289b7ec6, 0xeaa127fa,
    0xd4ef3085, 0x04881d05, 0xd9d4d039, 0xe6db99e5, 0x1fa27cf8, 0xc4ac5665, 0xf4292244,
    0x432aff97, 0xab9423a7, 0xfc93a039, 0x655b59c3, 0x8f0ccc92, 0xffeff47d, 0x85845dd1,
    0x6fa87e4f, 0xfe2ce6e0, 0xa3014314, 0x4e0811a1, 0xf7537e82, 0xbd3af235, 0x2ad7d2bb,
    0xeb86d391]

/-- The rotations of the steps of each round of sixteen, four at a time. -/
def rotations : Array UInt32 := #[7, 12, 17, 22, 5, 9, 14, 20, 4, 11, 16, 23, 6, 10, 15, 21]

/-- The four words of a running digest. -/
structure State where
  a : UInt32
  b : UInt32
  c : UInt32
  d : UInt32

def State.initial : State := ⟨0x67452301, 0xefcdab89, 0x98badcfe, 0x10325476⟩

/-- Bits moved to the left, those that leave coming back on the right. -/
def rotateLeft (x n : UInt32) : UInt32 := (x <<< n) ||| (x >>> (32 - n))

/-- The mixing function of a step and the number of the word that the step reads. -/
def mix (s : State) (i : Nat) : UInt32 × Nat :=
  if i < 16 then ((s.b &&& s.c) ||| (~~~s.b &&& s.d), i)
  else if i < 32 then ((s.d &&& s.b) ||| (~~~s.d &&& s.c), (5 * i + 1) % 16)
  else if i < 48 then (s.b ^^^ s.c ^^^ s.d, (3 * i + 5) % 16)
  else (s.c ^^^ (s.b ||| ~~~s.d), 7 * i % 16)

/-- One step on a block of sixteen words. -/
def step (block : Array UInt32) (s : State) (i : Nat) : State :=
  let (f, word) := mix s i
  let sum := f + s.a + constants.getD i 0 + block.getD word 0
  ⟨s.d, s.b + rotateLeft sum (rotations.getD (4 * (i / 16) + i % 4) 0), s.b, s.c⟩

/-- The digest after one more block. -/
def absorb (s : State) (block : Array UInt32) : State :=
  let t := (List.range 64).foldl (step block) s
  ⟨s.a + t.a, s.b + t.b, s.c + t.c, s.d + t.d⟩

/-- The bytes of a number, the lowest first. -/
def littleEndian (count n : Nat) : List UInt8 :=
  (List.range count).map fun i => UInt8.ofNat (n / Nat.pow 256 i % 256)

/-- A message with a one bit, zeros, and its length in bits behind it, in whole blocks. -/
def padded (message : List UInt8) : List UInt8 :=
  message ++ [0x80] ++ List.replicate ((119 - message.length % 64) % 64) 0 ++
    littleEndian 8 (8 * message.length)

/-- Words of four bytes, the lowest byte first. -/
def words : List UInt8 → List UInt32
  | a :: b :: c :: d :: rest =>
    (a.toUInt32 ||| (b.toUInt32 <<< 8) ||| (c.toUInt32 <<< 16) ||| (d.toUInt32 <<< 24)) ::
      words rest
  | _ => []

/-- The words cut into blocks of sixteen; `count` is the number of blocks. -/
def blocks : Nat → List UInt32 → List (Array UInt32)
  | 0, _ => []
  | count + 1, ws => (ws.take 16).toArray :: blocks count (ws.drop 16)

/-- The hexadecimal digits of a byte. -/
def hexByte (b : UInt8) : List Char :=
  [Nat.digitChar (b.toNat / 16), Nat.digitChar (b.toNat % 16)]

/-- The digest of bytes. -/
def digest (message : List UInt8) : State :=
  let bytes := padded message
  (blocks (bytes.length / 64) (words bytes)).foldl absorb .initial

/-- The digest of a text as 32 hexadecimal digits. -/
def hex (s : String) : String :=
  let d := digest (Utf8.encode s)
  String.ofList ([d.a, d.b, d.c, d.d].flatMap fun w => (littleEndian 4 w.toNat).flatMap hexByte)

end Montage.Text.Md5
