/-!
# Message digests

The MD5 digest of a row of bytes.  The message is filled up with one set bit, zeros
and its length in bits to whole blocks of sixty-four bytes, and each block changes
four words of thirty-two bits in sixty-four rounds.
-/

namespace Machine6502

namespace Digest

structure State where
  a : UInt32
  b : UInt32
  c : UInt32
  d : UInt32
deriving DecidableEq, Repr

def initial : State := ⟨0x67452301, 0xefcdab89, 0x98badcfe, 0x10325476⟩

/-- The constant added in each round: the integer part of the sine of the round's
number, counted from one, times two to the thirty-second. -/
def constants : Array UInt32 := #[
  0xd76aa478, 0xe8c7b756, 0x242070db, 0xc1bdceee,
  0xf57c0faf, 0x4787c62a, 0xa8304613, 0xfd469501,
  0x698098d8, 0x8b44f7af, 0xffff5bb1, 0x895cd7be,
  0x6b901122, 0xfd987193, 0xa679438e, 0x49b40821,
  0xf61e2562, 0xc040b340, 0x265e5a51, 0xe9b6c7aa,
  0xd62f105d, 0x02441453, 0xd8a1e681, 0xe7d3fbc8,
  0x21e1cde6, 0xc33707d6, 0xf4d50d87, 0x455a14ed,
  0xa9e3e905, 0xfcefa3f8, 0x676f02d9, 0x8d2a4c8a,
  0xfffa3942, 0x8771f681, 0x6d9d6122, 0xfde5380c,
  0xa4beea44, 0x4bdecfa9, 0xf6bb4b60, 0xbebfbc70,
  0x289b7ec6, 0xeaa127fa, 0xd4ef3085, 0x04881d05,
  0xd9d4d039, 0xe6db99e5, 0x1fa27cf8, 0xc4ac5665,
  0xf4292244, 0x432aff97, 0xab9423a7, 0xfc93a039,
  0x655b59c3, 0x8f0ccc92, 0xffeff47d, 0x85845dd1,
  0x6fa87e4f, 0xfe2ce6e0, 0xa3014314, 0x4e0811a1,
  0xf7537e82, 0xbd3af235, 0x2ad7d2bb, 0xeb86d391]

/-- How far a round rotates: four distances in turn, other ones in each quarter. -/
def distance (round : Nat) : UInt32 :=
  let distances : List UInt32 :=
    if round < 16 then [7, 12, 17, 22]
    else if round < 32 then [5, 9, 14, 20]
    else if round < 48 then [4, 11, 16, 23]
    else [6, 10, 15, 21]
  distances.getD (round % 4) 0

/-- Moves bits left, and those that fall out come in from the right. -/
def rotateLeft (word distance : UInt32) : UInt32 :=
  (word <<< distance) ||| (word >>> (32 - distance))

/-- How a round mixes three words, and which word of the block it takes. -/
def mix (state : State) (round : Nat) : UInt32 × Nat :=
  let b := state.b
  let c := state.c
  let d := state.d
  if round < 16 then ((b &&& c) ||| (~~~b &&& d), round)
  else if round < 32 then ((d &&& b) ||| (~~~d &&& c), (5 * round + 1) % 16)
  else if round < 48 then (b ^^^ c ^^^ d, (3 * round + 5) % 16)
  else (c ^^^ (b ||| ~~~d), (7 * round) % 16)

def step (block : Array UInt32) (state : State) (round : Nat) : State :=
  let mixed := mix state round
  let sum := mixed.1 + state.a + constants.getD round 0 + block.getD mixed.2 0
  ⟨state.d, state.b + rotateLeft sum (distance round), state.b, state.c⟩

def compress (state : State) (block : Array UInt32) : State :=
  let last := (List.range 64).foldl (step block) state
  ⟨state.a + last.a, state.b + last.b, state.c + last.c, state.d + last.d⟩

def littleEndian (count value : Nat) : List UInt8 :=
  (List.range count).map fun index => UInt8.ofNat (value / Nat.pow 256 index)

/-- The message filled up to whole blocks. -/
def padded (message : List UInt8) : List UInt8 :=
  let zeros := (119 - message.length % 64) % 64
  message ++ 0x80 :: List.replicate zeros 0 ++ littleEndian 8 (8 * message.length)

def wordAt (bytes : Array UInt8) (index : Nat) : UInt32 :=
  let byte (offset : Nat) : UInt32 := (bytes.getD (index + offset) 0).toUInt32
  byte 0 ||| byte 1 <<< 8 ||| byte 2 <<< 16 ||| byte 3 <<< 24

def blockAt (bytes : Array UInt8) (number : Nat) : Array UInt32 :=
  ((List.range 16).map fun index => wordAt bytes (64 * number + 4 * index)).toArray

/-- The digest of a message, sixteen bytes. -/
def md5 (message : List UInt8) : List UInt8 :=
  let bytes := (padded message).toArray
  let last := (List.range (bytes.size / 64)).foldl
    (fun state number => compress state (blockAt bytes number)) initial
  [last.a, last.b, last.c, last.d].flatMap fun word => littleEndian 4 word.toNat

end Digest

end Machine6502
