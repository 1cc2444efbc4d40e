import BehaviorTree.Hash.Xxh64

/-! The 128-bit hash of the XXH3 family with its default secret and seed zero.
Inputs fall into five length classes, each with a rule of its own. -/

namespace BehaviorTree.Xxh128

open Xxh64 (prime1 prime2 prime3 prime4 prime5 rotate)

/-- A 128-bit value as two words. -/
structure Digest where
  high : UInt64
  low : UInt64
  deriving DecidableEq, Repr, Inhabited, Hashable

def shortPrime1 : UInt64 := 0x9E3779B1

def shortPrime2 : UInt64 := 0x85EBCA77

def shortPrime3 : UInt64 := 0xC2B2AE3D

def mixPrime1 : UInt64 := 0x165667919E3779F9

def mixPrime2 : UInt64 := 0x9FB21C651E98DF25

/-- The 192 bytes that key every length class. -/
def secret : Bytes := [
  0xb8, 0xfe, 0x6c, 0x39, 0x23, 0xa4, 0x4b, 0xbe, 0x7c, 0x01, 0x81, 0x2c, 0xf7, 0x21, 0xad, 0x1c,
  0xde, 0xd4, 0x6d, 0xe9, 0x83, 0x90, 0x97, 0xdb, 0x72, 0x40, 0xa4, 0xa4, 0xb7, 0xb3, 0x67, 0x1f,
  0xcb, 0x79, 0xe6, 0x4e, 0xcc, 0xc0, 0xe5, 0x78, 0x82, 0x5a, 0xd0, 0x7d, 0xcc, 0xff, 0x72, 0x21,
  0xb8, 0x08, 0x46, 0x74, 0xf7, 0x43, 0x24, 0x8e, 0xe0, 0x35, 0x90, 0xe6, 0x81, 0x3a, 0x26, 0x4c,
  0x3c, 0x28, 0x52, 0xbb, 0x91, 0xc3, 0x00, 0xcb, 0x88, 0xd0, 0x65, 0x8b, 0x1b, 0x53, 0x2e, 0xa3,
  0x71, 0x64, 0x48, 0x97, 0xa2, 0x0d, 0xf9, 0x4e, 0x38, 0x19, 0xef, 0x46, 0xa9, 0xde, 0xac, 0xd8,
  0xa8, 0xfa, 0x76, 0x3f, 0xe3, 0x9c, 0x34, 0x3f, 0xf9, 0xdc, 0xbb, 0xc7, 0xc7, 0x0b, 0x4f, 0x1d,
  0x8a, 0x51, 0xe0, 0x4b, 0xcd, 0xb4, 0x59, 0x31, 0xc8, 0x9f, 0x7e, 0xc9, 0xd9, 0x78, 0x73, 0x64,
  0xea, 0xc5, 0xac, 0x83, 0x34, 0xd3, 0xeb, 0xc3, 0xc5, 0x81, 0xa0, 0xff, 0xfa, 0x13, 0x63, 0xeb,
  0x17, 0x0d, 0xdd, 0x51, 0xb7, 0xf0, 0xda, 0x49, 0xd3, 0x16, 0x55, 0x26, 0x29, 0xd4, 0x68, 0x9e,
  0x2b, 0x16, 0xbe, 0x58, 0x7d, 0x47, 0xa1, 0xfc, 0x8f, 0xf8, 0xb8, 0xd1, 0x7a, 0xd0, 0x31, 0xce,
  0x45, 0xcb, 0x3a, 0x8f, 0x95, 0x16, 0x04, 0x28, 0xaf, 0xd7, 0xfb, 0xca, 0xbb, 0x4b, 0x40, 0x7e]

/-- The little-endian number in the `width` bytes at `offset`. -/
def wordAt (width : Nat) (bytes : Bytes) (offset : Nat) : UInt64 :=
  Xxh64.word ((bytes.drop offset).take width)

def key (offset : Nat) : UInt64 :=
  wordAt 8 secret offset

/-- The exact product of two words. -/
def product (a b : UInt64) : Digest :=
  let p := a.toNat * b.toNat
  ⟨UInt64.ofNat (p >>> 64), UInt64.ofNat p⟩

/-- The exclusive or of the two halves of a product. -/
def fold (a b : UInt64) : UInt64 :=
  let p := product a b
  p.high ^^^ p.low

def avalanche (h : UInt64) : UInt64 :=
  let h := (h ^^^ (h >>> 37)) * mixPrime1
  h ^^^ (h >>> 32)

/-- A number of `width` bytes with its bytes in reverse order. -/
def swapBytes (width : Nat) (x : UInt64) : UInt64 :=
  Xxh64.word (Bytes.littleEndian width x.toNat).reverse

/-- Rotation of a 32-bit value by 13 places. -/
def rotateHalf (x : UInt64) : UInt64 :=
  ((x <<< 13) ||| (x >>> 19)) &&& 0xFFFFFFFF

def hashEmpty : Digest :=
  ⟨Xxh64.avalanche (key 80 ^^^ key 88), Xxh64.avalanche (key 64 ^^^ key 72)⟩

/-- One to three bytes. -/
def hashTiny (bytes : Bytes) : Digest :=
  let size := bytes.length
  let byte (i : Nat) := wordAt 1 bytes i
  let low := (byte 0 <<< 16) ||| (byte (size / 2) <<< 24) ||| byte (size - 1) ||| (UInt64.ofNat size <<< 8)
  let high := rotateHalf (swapBytes 4 low)
  ⟨Xxh64.avalanche (high ^^^ (wordAt 4 secret 8 ^^^ wordAt 4 secret 12)),
   Xxh64.avalanche (low ^^^ (wordAt 4 secret 0 ^^^ wordAt 4 secret 4))⟩

/-- Four to eight bytes. -/
def hashShort (bytes : Bytes) : Digest :=
  let size := bytes.length
  let input := wordAt 4 bytes 0 + (wordAt 4 bytes (size - 4) <<< 32)
  let p := product (input ^^^ key 16 ^^^ key 24) (prime1 + (UInt64.ofNat size <<< 2))
  let high := p.high + (p.low <<< 1)
  let low := p.low ^^^ (high >>> 3)
  let low := (low ^^^ (low >>> 35)) * mixPrime2
  ⟨avalanche high, low ^^^ (low >>> 28)⟩

/-- Nine to sixteen bytes. -/
def hashSmall (bytes : Bytes) : Digest :=
  let size := bytes.length
  let first := wordAt 8 bytes 0
  let last := wordAt 8 bytes (size - 8)
  let p := product (first ^^^ last ^^^ key 32 ^^^ key 40) prime1
  let low := p.low + (UInt64.ofNat (size - 1) <<< 54)
  let last := last ^^^ key 48 ^^^ key 56
  let high := p.high + last + (last &&& 0xFFFFFFFF) * (shortPrime2 - 1)
  let low := low ^^^ swapBytes 8 high
  let q := product low prime2
  ⟨avalanche (q.high + high * prime2), avalanche q.low⟩

/-- The sixteen bytes at `offset` under the key at `keyOffset`. -/
def mixPair (bytes : Bytes) (offset keyOffset : Nat) : UInt64 :=
  fold (wordAt 8 bytes offset ^^^ key keyOffset) (wordAt 8 bytes (offset + 8) ^^^ key (keyOffset + 8))

/-- Absorbs two runs of sixteen bytes. -/
def absorbPair (bytes : Bytes) (acc : Digest) (left right keyOffset : Nat) : Digest :=
  let low := acc.low + mixPair bytes left keyOffset
  let high := acc.high + mixPair bytes right (keyOffset + 16)
  ⟨high ^^^ (wordAt 8 bytes left + wordAt 8 bytes (left + 8)),
   low ^^^ (wordAt 8 bytes right + wordAt 8 bytes (right + 8))⟩

def finishPairs (size : Nat) (acc : Digest) : Digest :=
  ⟨0 - avalanche (acc.low * prime1 + acc.high * prime4 + UInt64.ofNat size * prime2),
   avalanche (acc.low + acc.high)⟩

/-- Seventeen to 128 bytes: pairs from the middle outwards. -/
def hashMedium (bytes : Bytes) : Digest :=
  let size := bytes.length
  let rounds := (size - 1) / 32
  let start : Digest := ⟨0, UInt64.ofNat size * prime1⟩
  finishPairs size <| (List.range (rounds + 1)).reverse.foldl (fun acc i =>
    absorbPair bytes acc (16 * i) (size - 16 * (i + 1)) (32 * i)) start

/-- At most 240 bytes: four pairs, an avalanche, the remaining pairs and the last 32 bytes. -/
def hashWide (bytes : Bytes) : Digest :=
  let size := bytes.length
  let start : Digest := ⟨0, UInt64.ofNat size * prime1⟩
  let acc := (List.range 4).foldl (fun acc i =>
    absorbPair bytes acc (32 * i) (32 * i + 16) (32 * i)) start
  let acc : Digest := ⟨avalanche acc.high, avalanche acc.low⟩
  let acc := (List.range (size / 32 - 4)).foldl (fun acc i =>
    absorbPair bytes acc (128 + 32 * i) (144 + 32 * i) (3 + 32 * i)) acc
  finishPairs size (absorbPair bytes acc (size - 16) (size - 32) 103)

/-- Eight accumulators for inputs of more than 240 bytes. -/
def longStart : List UInt64 :=
  [shortPrime3, prime1, prime2, prime3, prime4, shortPrime2, prime5, shortPrime1]

/-- The neighbour of every element within its pair. -/
def swapPairs : List UInt64 → List UInt64
  | a :: b :: rest => b :: a :: swapPairs rest
  | rest => rest

/-- The product of the lower and the upper half of a word. -/
def multiplyHalves (x : UInt64) : UInt64 :=
  (x &&& (0xFFFFFFFF : UInt64)) * (x >>> 32)

/-- Absorbs the first 64 bytes. -/
def absorbStripe (bytes : Bytes) (accs : List UInt64) (keyOffset : Nat) : List UInt64 :=
  let words := (List.range 8).map fun i => wordAt 8 bytes (8 * i)
  let products := words.mapIdx fun i w => multiplyHalves (w ^^^ key (keyOffset + 8 * i))
  accs.zipWith (· + ·) (products.zipWith (· + ·) (swapPairs words))

def scramble (accs : List UInt64) : List UInt64 :=
  accs.mapIdx fun i (acc : UInt64) => (acc ^^^ (acc >>> 47) ^^^ key (128 + 8 * i)) * shortPrime1

/-- Absorbs the first `count` stripes of 64 bytes. -/
def absorbStripes (bytes : Bytes) (accs : List UInt64) (count : Nat) : List UInt64 :=
  (List.range count).foldl (fun accs n => absorbStripe (bytes.drop (64 * n)) accs (8 * n)) accs

def foldPairs (keyOffset : Nat) : List UInt64 → UInt64
  | a :: b :: rest => fold (a ^^^ key keyOffset) (b ^^^ key (keyOffset + 8)) + foldPairs (keyOffset + 16) rest
  | _ => 0

def hashLong (bytes : Bytes) : Digest :=
  let size := bytes.length
  let blocks := (size - 1) / 1024
  let accs := (List.range blocks).foldl (fun accs n =>
    scramble (absorbStripes (bytes.drop (1024 * n)) accs 16)) longStart
  let accs := absorbStripes (bytes.drop (1024 * blocks)) accs ((size - 1 - 1024 * blocks) / 64)
  let accs := absorbStripe (bytes.drop (size - 64)) accs 121
  let length := UInt64.ofNat size
  ⟨avalanche (~~~(length * prime2) + foldPairs 117 accs), avalanche (length * prime1 + foldPairs 11 accs)⟩

def hash (bytes : Bytes) : Digest :=
  let size := bytes.length
  if size = 0 then hashEmpty
  else if size ≤ 3 then hashTiny bytes
  else if size ≤ 8 then hashShort bytes
  else if size ≤ 16 then hashSmall bytes
  else if size ≤ 128 then hashMedium bytes
  else if size ≤ 240 then hashWide bytes
  else hashLong bytes

end BehaviorTree.Xxh128
