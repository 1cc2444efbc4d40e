import BehaviorTree.Bytes

/-! The 64-bit hash XXH64. Component types, sub-graph paths and call nodes are
identified by it. -/

namespace BehaviorTree.Xxh64

def prime1 : UInt64 := 0x9E3779B185EBCA87

def prime2 : UInt64 := 0xC2B2AE3D27D4EB4F

def prime3 : UInt64 := 0x165667B19E3779F9

def prime4 : UInt64 := 0x85EBCA77C2B2AE63

def prime5 : UInt64 := 0x27D4EB2F165667C5

/-- Rotation to the left by an amount between 1 and 63. -/
def rotate (x : UInt64) (amount : UInt64) : UInt64 :=
  (x <<< amount) ||| (x >>> (64 - amount))

/-- Spreads every bit of the accumulator over the whole word. -/
def avalanche (h : UInt64) : UInt64 :=
  let h := (h ^^^ (h >>> 33)) * prime2
  let h := (h ^^^ (h >>> 29)) * prime3
  h ^^^ (h >>> 32)

/-- Absorbs one word of input into an accumulator. -/
def round (acc word : UInt64) : UInt64 :=
  rotate (acc + word * prime2) 31 * prime1

def mergeRound (acc lane : UInt64) : UInt64 :=
  (acc ^^^ round 0 lane) * prime1 + prime4

/-- The number in at most eight bytes, least significant first. -/
def word : Bytes → UInt64
  | [] => 0
  | byte :: higher => byte.toUInt64 ||| (word higher <<< 8)

/-- Four accumulators that each absorb every fourth word. -/
structure Lanes where
  first : UInt64
  second : UInt64
  third : UInt64
  fourth : UInt64

namespace Lanes

def init (seed : UInt64) : Lanes :=
  ⟨seed + prime1 + prime2, seed + prime2, seed, seed - prime1⟩

/-- Absorbs one stripe of 32 bytes. -/
def absorb (lanes : Lanes) (stripe : Bytes) : Lanes :=
  ⟨round lanes.first (word (stripe.take 8)),
   round lanes.second (word ((stripe.drop 8).take 8)),
   round lanes.third (word ((stripe.drop 16).take 8)),
   round lanes.fourth (word ((stripe.drop 24).take 8))⟩

def merge (lanes : Lanes) : UInt64 :=
  let sum := rotate lanes.first 1 + rotate lanes.second 7 + rotate lanes.third 12 + rotate lanes.fourth 18
  [lanes.first, lanes.second, lanes.third, lanes.fourth].foldl mergeRound sum

end Lanes

/-- Absorbs all complete stripes and returns the bytes after the last of them. -/
def stripes (lanes : Lanes) (bytes : Bytes) : Lanes × Bytes :=
  if 32 ≤ bytes.length then stripes (lanes.absorb (bytes.take 32)) (bytes.drop 32)
  else (lanes, bytes)
termination_by bytes.length
decreasing_by simp only [List.length_drop]; omega

/-- Absorbs fewer than 32 bytes: words, then at most one half word, then single bytes. -/
def tail (h : UInt64) (bytes : Bytes) : UInt64 :=
  if 8 ≤ bytes.length then
    tail (rotate (h ^^^ round 0 (word (bytes.take 8))) 27 * prime1 + prime4) (bytes.drop 8)
  else if 4 ≤ bytes.length then
    tail (rotate (h ^^^ word (bytes.take 4) * prime1) 23 * prime2 + prime3) (bytes.drop 4)
  else bytes.foldl (fun h b => rotate (h ^^^ b.toUInt64 * prime5) 11 * prime1) h
termination_by bytes.length
decreasing_by all_goals simp only [List.length_drop]; omega

def hash (seed : UInt64) (bytes : Bytes) : UInt64 :=
  let (start, rest) :=
    if 32 ≤ bytes.length then
      let (lanes, rest) := stripes (Lanes.init seed) bytes
      (lanes.merge, rest)
    else (seed + prime5, bytes)
  avalanche (tail (start + UInt64.ofNat bytes.length) rest)

end BehaviorTree.Xxh64
